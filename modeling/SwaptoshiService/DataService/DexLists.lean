import SwaptoshiService.DataService.PoolFigures

/-!
# The lists of the exchange

`getPools`, `getPositions` and `getDEXTokens` answer a page of the rows that a search finds, and the
number of rows of the **whole table** as the total. A position is joined with each pool of its
collection, and the ID of a token in the compact list comes from the tables with its metadata.

`lists_right_iff` says when the lists and their totals are right: the search leaves nothing out, no
position has two pools, all tokens have metadata, and the columns to sort by exist.
-/

namespace SwaptoshiService

namespace DexQuery

open Aggregate Join

/-! ### Positions -/

/-- The parameters of `getPositions`. -/
structure PositionsParams where
  search : Option String
  page : PageParams
  sortBy : Option String
  sortOrder : Option String

/-- A row of `position pos LEFT JOIN pool LEFT JOIN registered_dex_token t0 LEFT JOIN ... t1`. -/
structure PositionJoin where
  pos : String × PositionRow
  pool : Option (PoolKey × PoolRow)
  t0 : Option (TokenID × TokenRow)
  t1 : Option (TokenID × TokenRow)

/-- A row of the answer: the columns that are joined, and the status. -/
structure PositionFigures extends PositionJoin where
  status : ℕ

/-- `pool.inverted = false AND pool.collectionId = pos.collectionId` -/
def ofCollection (pos : String × PositionRow) (pool : PoolKey × PoolRow) : Bool :=
  !pool.2.inverted && pool.2.collectionId = pos.2.collectionId

/-- `t0.tokenId = pool.token0`, where the pool may be `NULL`. -/
def isToken (tokenOf : PoolKey × PoolRow → TokenID) (pool : Option (PoolKey × PoolRow))
    (tok : TokenID × TokenRow) : Bool :=
  pool.any fun pool => tok.1 = tokenOf pool

/-- The rows that a position is joined to. -/
def positionJoins (t : DexTables) (pos : String × PositionRow) : List PositionJoin :=
  (partners ofCollection t.pool.rows pos).flatMap fun pool =>
    (partners (isToken fun pool => pool.1.token0) t.token.rows pool).flatMap fun t0 =>
      (partners (isToken fun pool => pool.1.token1) t.token.rows pool).map fun t1 =>
        ⟨pos, pool, t0, t1⟩

/-- `CASE WHEN pos.liquidity = 0 THEN 0 WHEN ... THEN 2 ELSE 1 END` -/
def positionStatus (pos : PositionRow) (pool : Option (PoolKey × PoolRow)) : ℕ :=
  if pos.liquidity = 0 then 0
  else if pool.any fun pool => pos.tickLower < pool.2.tick && pool.2.tick < pos.tickUpper then 2
  else 1

def positionMatches (term : String) (r : PositionJoin) : Bool :=
  term = "" || r.pool.any (fun pool => likeTerm term pool.2.poolAddress) || likeTerm term r.pos.1 ||
    r.pos.2.owner.any (likeTerm term)

/-- The rows of the query, before they are sorted. -/
def positionRows (t : DexTables) (term : String) : List PositionFigures :=
  ((t.position.rows.flatMap (positionJoins t)).filter (positionMatches term)).map fun r =>
    { r with status := positionStatus r.pos.2 r.pool }

/-- The expression of `ORDER BY`. -/
def positionSortBy (sortBy : Option String) : String :=
  match sortBy with
  | some column =>
    if column ∈ ["poolAddress", "token0", "token1", "tokenId", "owner", "collectionId", "tickLower",
        "priceLower", "tickUpper", "priceUpper", "liquidity", "status"] then
      if column ∈ ["poolAddress", "token0", "token1"] then "pool." ++ column
      else if column = "status" then column
      else "pos." ++ column
    else "status"
  | none => "status"

/-- Columns that can be asked for, but are not there. -/
def missingColumns : List String := ["pos.priceLower", "pos.priceUpper", "v.txCount"]

def getPositions (t : DexTables) (order : String → Bool → PositionFigures → PositionFigures → Bool)
    (params : PositionsParams) : Except QueryError (ListResponse PositionFigures) :=
  if positionSortBy params.sortBy ∈ missingColumns then
    .error (.unknownColumn (positionSortBy params.sortBy))
  else respond params.page t.position.rows.length
    ((positionRows t (searchTerm params.search)).mergeSort
      (order (positionSortBy params.sortBy) (params.sortOrder = some "asc")))

/-! ### Tokens -/

/-- The columns that the tables with metadata add to. -/
structure TokenTexts where
  symbol : Option String
  tokenName : Option String
  logo : Option String
  decimal : Option ℕ

/-- A row of the compact list. -/
structure CompactToken extends TokenTexts where
  tokenId : Option TokenID

/-- `COALESCE(rdt.symbol, tf.symbol)` and the like. -/
def tokenTexts (rdt : TokenID × TokenRow) (tm : Option (TokenID × TokenMetadataRow))
    (tf : Option (TokenID × TokenFactoryRow)) : TokenTexts :=
  let metadata := tf.bind fun tf => tf.2.metadata
  { symbol := (some rdt.2.symbol).or (metadata.map FactoryMetadata.symbol)
    tokenName := (tm.map fun tm => tm.2.tokenName).or (metadata.map FactoryMetadata.tokenName)
    logo := rdt.2.logo.or (tf.bind fun tf => tf.2.logoSvg)
    decimal := (some rdt.2.decimal).or (metadata.map FactoryMetadata.decimal) }

/-- `v.tokenName LIKE ... OR v.tokenId LIKE ... OR v.symbol LIKE ...` -/
def tokenMatches (term : String) (tokenId : Option TokenID) (v : TokenTexts) : Bool :=
  term = "" || v.tokenName.any (likeTerm term) || tokenId.any (likeTerm term) ||
    v.symbol.any (likeTerm term)

/-- The rows of the compact query. -/
def compactRows (t : DexTables) (term : String) : List CompactToken :=
  (t.token.rows.flatMap fun rdt =>
    (partners (fun rdt tm => tm.1 = rdt.1) t.tokenMetadata.rows rdt).flatMap fun tm =>
      (partners (fun rdt tf => tf.1 = rdt.1) t.tokenFactory.rows rdt).map fun tf =>
        { tokenTexts rdt tm tf with tokenId := (tm.map Prod.fst).or (tf.map Prod.fst) }).filter
          fun v => tokenMatches term v.tokenId v.toTokenTexts

def getDEXTokensCompact (t : DexTables) (search : Option String) (page : PageParams) :
    Except QueryError (ListResponse CompactToken) :=
  respond page t.token.rows.length (compactRows t (searchTerm search))

/-- The parameters of `getDEXTokens` without `compact`. -/
structure TokensParams where
  search : Option String
  page : PageParams
  changeWindow : Option String
  window : Window
  sortBy : Option String
  sortOrder : Option String

/-- A row of `registered_dex_token rdt`, with what is joined. -/
structure TokenJoin where
  rdt : TokenID × TokenRow
  pr : Option (TokenID × ℚ)
  vol : Option TokenVolume
  tm : Option (TokenID × TokenMetadataRow)
  tf : Option (TokenID × TokenFactoryRow)
  vl : Option TokenTvl
  lp : Option (TokenID × LastPriceRow)
  pool : Option (PoolKey × PoolRow)

/-- A row of the answer. -/
structure TokenFigures extends TokenTexts where
  rank : ℕ
  tokenId : TokenID
  volume : ℚ
  volumeUSD : ℚ
  feeGrowth : ℚ
  feeGrowthUSD : ℚ
  swapCount : ℕ
  poolCount : ℕ
  totalTvl : ℚ
  totalTvlUSD : ℚ
  price : ℚ
  priceUSD : Option ℚ
  priceChange : ℚ
  priceChangeUSD : ℚ

/-- The columns of `last_price` for times ago. -/
def changeWindows : List String := ["1h", "24h", "7d", "30d", "1y"]

/-- The price of a time ago. -/
def ago (changeWindow : String) (r : LastPriceRow) : Option ℚ :=
  if changeWindow = "1h" then some r.h1
  else if changeWindow = "24h" then some r.h24
  else if changeWindow = "7d" then some r.d7
  else if changeWindow = "30d" then some r.d30
  else if changeWindow = "1y" then some r.y1
  else none

theorem ago_isNone_iff (r : LastPriceRow) (changeWindow : String) :
    (ago changeWindow r).isNone = true ↔ changeWindow ∉ changeWindows := by
  simp only [ago, changeWindows, List.mem_cons, List.not_mem_nil, or_false]
  split_ifs <;> simp_all

section TokenQuery

variable (t : DexTables) (klyTokenId : TokenID) (klyusd : LastPriceRow) (w : Window)
  (before : LastPriceRow → ℚ)

/-- The subquery `pr`. -/
def tokenPrices : List (TokenID × ℚ) :=
  (leftJoin (fun tok lp => lp.1 = tok.1) t.lastPrice.rows t.token.rows).map fun r =>
    (r.1.1, ((casePrice klyTokenId r.1.1 r.2).map fun p => p * klyusd.current).getD 0)

/-- The rows that a token is joined to. Prices are not taken from `token_volume` here. -/
def tokenJoins (rdt : TokenID × TokenRow) : List TokenJoin :=
  (partners (fun rdt pr => pr.1 = rdt.1) (tokenPrices t klyTokenId klyusd) rdt).flatMap fun pr =>
    (partners (fun rdt vol => vol.tokenId = rdt.1) (tokenVolume t klyTokenId klyusd.current w)
      rdt).flatMap fun vol =>
      (partners (fun rdt tm => tm.1 = rdt.1) t.tokenMetadata.rows rdt).flatMap fun tm =>
        (partners (fun rdt tf => tf.1 = rdt.1) t.tokenFactory.rows rdt).flatMap fun tf =>
          (partners (fun rdt vl => vl.tokenId = rdt.1) (tokenTvl t ⟨none, none⟩) rdt).flatMap
            fun vl => (partners (fun rdt lp => lp.1 = rdt.1) t.lastPrice.rows rdt).flatMap fun lp =>
              (partners (fun rdt pool => pool.1.token0 = rdt.1) t.pool.rows rdt).map fun pool =>
                ⟨rdt, pr, vol, tm, tf, vl, lp, pool⟩

/-- The change of a price in per cent, 0 when it is `NULL`. -/
def changeOf (now then' : ℚ) : ℚ := (now - then') / then' * 100

/-- The row of a group. A division by zero is `NULL`, and `COALESCE`d to 0. -/
def tokenOfGroup (g : TokenJoin × List TokenJoin) : TokenFigures :=
  let r := g.1
  let priceUSD := r.pr.map Prod.snd
  let volume := r.vol.bind TokenVolume.volume
  let feeGrowth := r.vol.bind TokenVolume.feeGrowth
  let amount := r.vl.bind TokenTvl.amount
  let change := (r.lp.map fun lp => changeOf lp.2.current (before lp.2)).getD 0
  { tokenTexts r.rdt r.tm r.tf with
    rank := 0
    tokenId := r.rdt.1
    volume := volume.getD 0
    volumeUSD := (mul volume priceUSD).getD 0
    feeGrowth := feeGrowth.getD 0
    feeGrowthUSD := (mul feeGrowth priceUSD).getD 0
    swapCount := (r.vol.map TokenVolume.swapCount).getD 0
    poolCount := (values (g.2.map TokenJoin.pool)).length
    totalTvl := amount.getD 0
    totalTvlUSD := (mul amount priceUSD).getD 0
    price := (casePrice klyTokenId r.rdt.1 r.lp).getD 0
    priceUSD := priceUSD
    priceChange := change
    priceChangeUSD := if r.rdt.1 = klyTokenId then change else
      (r.lp.map fun lp =>
        changeOf (lp.2.current * klyusd.current) (before lp.2 * before klyusd)).getD 0 }

/-- `ROW_NUMBER() OVER (ORDER BY totalTvlUSD DESC)` -/
def ranked (rows : List TokenFigures) : List TokenFigures :=
  (rows.mergeSort fun v v' => v'.totalTvlUSD ≤ v.totalTvlUSD).zipIdx.map fun r =>
    { r.1 with rank := r.2 + 1 }

/-- The rows of the query, before they are sorted. -/
def tokenRows (term : String) : List TokenFigures :=
  (ranked ((groupBy (fun r => r.rdt.1) (t.token.rows.flatMap
    (tokenJoins t klyTokenId klyusd w))).map (tokenOfGroup klyTokenId klyusd before))).filter
      fun v => tokenMatches term (some v.tokenId) v.toTokenTexts

end TokenQuery

/-- The expression of `ORDER BY`. -/
def tokenSortBy (sortBy : Option String) : String :=
  match sortBy with
  | some column =>
    if column ∈ ["tokenId", "symbol", "tokenName", "decimal", "volume", "volumeUSD", "feeGrowth",
        "feeGrowthUSD", "txCount", "poolCount", "totalTvl", "totalTvlUSD", "price", "priceUSD",
        "priceChange", "priceChangeUSD"] then "v." ++ column
    else "v.totalTvlUSD"
  | none => "v.totalTvlUSD"

/-- `params.changeWindow || '24h'` -/
def changeWindowOr (changeWindow : Option String) : String :=
  (changeWindow.filter (· ≠ "")).getD "24h"

def getDEXTokens (t : DexTables) (klyTokenId : TokenID) (klyusdprice : Option LastPriceRow)
    (order : String → Bool → TokenFigures → TokenFigures → Bool) (params : TokensParams) :
    Except QueryError (ListResponse TokenFigures) :=
  let changeWindow := changeWindowOr params.changeWindow
  match klyusdprice with
  | none => .error .undefinedPrice
  | some klyusd =>
    if (ago changeWindow klyusd).isNone then .error (.unknownColumn ("lp." ++ changeWindow))
    else if tokenSortBy params.sortBy ∈ missingColumns then
      .error (.unknownColumn (tokenSortBy params.sortBy))
    else respond params.page t.token.rows.length
      ((tokenRows t klyTokenId klyusd params.window (fun r => (ago changeWindow r).getD 0)
        (searchTerm params.search)).mergeSort
          (order (tokenSortBy params.sortBy) (params.sortOrder = some "asc")))

/-! ### What the lists are about -/

/-- A text of letters and digits. -/
structure Word where
  text : String
  alphanum : ∀ c ∈ text.toList, c.isAlphanum = true

/-- The text that is searched for, if any. -/
def term (search : Option Word) : String := (search.map Word.text).getD ""

/-- Some of the columns contain the text. -/
def found (term : String) (columns : List String) : Bool :=
  columns.any fun text => term.toList <:+: text.toList

def poolColumns (p : PoolKey × PoolRow) : List String :=
  [p.2.poolAddress, p.1.token0, p.1.token1, toString p.1.fee]

/-- The columns of a position itself. -/
def ownColumns (pos : String × PositionRow) : List String := pos.1 :: pos.2.owner.toList

/-- The columns of a position, and the addresses of its pools. -/
def positionColumns (t : DexTables) (pos : String × PositionRow) : List String :=
  ((t.pool.rows.filter (ofCollection pos)).map fun p => p.2.poolAddress) ++ ownColumns pos

def tokenColumns (t : DexTables) (tok : TokenID × TokenRow) : List String :=
  (tokenTexts tok (t.tokenMetadata.find tok.1) (t.tokenFactory.find tok.1)).tokenName.toList ++
    [tok.1, tok.2.symbol]

/-- A page that can be asked for. -/
def PageParams.Valid (page : PageParams) : Prop :=
  page.limit = some (-1) ∨ 0 ≤ page.limitOr ∧ 0 ≤ page.offsetOr

/-- Without limit the expected rows are answered, once each, and every page has their number. -/
structure ListRight {R K : Type} (get : PageParams → Except QueryError (ListResponse R))
    (key : R → K) (expected : List K) : Prop where
  rows : ∀ offset, ∃ r, get ⟨offset, some (-1)⟩ = .ok r ∧ (r.data.map key).Perm expected
  total : ∀ page : PageParams, page.Valid → ∃ r, get page = .ok r ∧ r.total = expected.length

section Lists

variable {t : DexTables} {s : String}

theorem respond_all {R : Type} (offset : Option ℤ) (total : ℚ) (rows : List R) :
    respond ⟨offset, some (-1)⟩ total rows =
      .ok ⟨rows, rows.length, PageParams.offsetOr ⟨offset, some (-1)⟩, total⟩ := rfl

theorem respond_valid {R : Type} {page : PageParams} (h : page.Valid) (total : ℚ) (rows : List R) :
    ∃ r, respond page total rows = .ok r ∧ r.total = total := by
  rw [respond, paged]
  by_cases hall : page.limit = some (-1)
  · rw [if_pos hall]
    exact ⟨_, rfl, rfl⟩
  · obtain ⟨hlimit, hoffset⟩ := h.resolve_left hall
    rw [if_neg hall, if_neg (by omega)]
    exact ⟨_, rfl, rfl⟩

/-- A list is right if its rows and its total are. -/
theorem listRight_iff {R K : Type} {get : PageParams → Except QueryError (ListResponse R)}
    {total : ℚ} {rows : List R} (hget : ∀ page, get page = respond page total rows)
    {key : R → K} {expected : List K} :
    ListRight get key expected ↔ (rows.map key).Perm expected ∧ total = expected.length := by
  constructor
  · rintro ⟨hrows, htotal⟩
    obtain ⟨r, hr, hperm⟩ := hrows none
    obtain ⟨r', hr', heq⟩ := htotal ⟨none, some (-1)⟩ (.inl rfl)
    rw [hget, respond_all] at hr hr'
    obtain rfl := Except.ok.inj hr
    obtain rfl := Except.ok.inj hr'
    exact ⟨hperm, heq⟩
  · rintro ⟨hperm, htotal⟩
    refine ⟨fun offset => ⟨_, (hget _).trans (respond_all ..), hperm⟩, fun page hpage => ?_⟩
    obtain ⟨r, hr, heq⟩ := respond_valid hpage total rows
    exact ⟨r, (hget page).trans hr, heq.trans htotal⟩

/-- A list that cannot be answered is not right. -/
theorem not_listRight_of_error {R K : Type}
    {get : PageParams → Except QueryError (ListResponse R)} {e : QueryError}
    (hget : ∀ page, get page = .error e) {key : R → K} {expected : List K} :
    ¬ ListRight get key expected := by
  intro h
  obtain ⟨r, hr, -⟩ := h.rows none
  cases (hget _).symm.trans hr

/-! ### Searches for words -/

theorem searchTerm_word (search : Option Word) : searchTerm (search.map Word.text) = term search := by
  have htrim : trim (term search).toList = (term search).toList := by
    cases search with
    | none => rfl
    | some word => exact trim_eq_self fun c hc => isSpace_of_isAlphanum (word.alphanum c hc)
  rw [searchTerm, ← term, htrim, String.ofList_toList]

theorem likeTerm_word (search : Option Word) (text : String) :
    likeTerm (term search) text = true ↔ (term search).toList <:+: text.toList := by
  have hplain : ∀ c ∈ (term search).toList, c ≠ '%' ∧ c ≠ '_' ∧ c ≠ '\\' := by
    cases search with
    | none => exact fun c hc => absurd hc List.not_mem_nil
    | some word =>
      intro c hc
      have halphanum := word.alphanum c hc
      refine ⟨?_, ?_, ?_⟩ <;> rintro rfl <;> exact absurd halphanum (by decide)
  have htokens : Like.tokens ("%" ++ term search ++ "%").toList =
      .any :: (Like.literal (term search).toList ++ [.any]) := by
    rw [String.toList_append, String.toList_append]
    exact congrArg _ (Like.tokens_append hplain ['%'])
  rw [likeTerm, Like.like, htokens, Like.matchesTokens_any_literal_any]

theorem found_eq (search : Option Word) (columns : List String) :
    found (term search) columns = columns.any (likeTerm (term search)) := by
  rw [found]
  congr 1
  funext text
  rw [Bool.eq_iff_iff, decide_eq_true_eq, likeTerm_word]

/-- Without a text all rows are found, as they have some column. -/
theorem empty_or_any (search : Option Word) {columns : List String} (hne : columns ≠ []) :
    (term search = "" || columns.any (likeTerm (term search))) = found (term search) columns := by
  rw [found_eq]
  by_cases hempty : term search = ""
  · obtain ⟨text, texts, rfl⟩ := List.exists_cons_of_ne_nil hne
    have hlike : likeTerm (term search) text = true :=
      (likeTerm_word search text).mpr (by rw [hempty]; exact List.nil_infix)
    rw [List.any_cons, hlike, Bool.true_or, Bool.or_true]
  · rw [decide_eq_false hempty, Bool.false_or]

/-! ### Pools -/

/-- Every pool has two rows. -/
theorem length_pool_rows : t.pool.rows.length = 2 * t.pools.length := by
  have hflip : Function.Injective fun k : PoolKey => (⟨k.token1, k.token0, k.fee⟩ : PoolKey) := by
    rintro ⟨a, b, f⟩ ⟨a', b', f'⟩ h
    simp only [PoolKey.mk.injEq] at h ⊢
    exact ⟨h.2.1, h.1, h.2.2⟩
  have hsub (p : PoolKey × PoolRow → Bool) : ((t.pool.rows.filter p).map Prod.fst).Nodup :=
    t.pool.nodup.sublist (List.filter_sublist.map _)
  have hsame : (t.pool.rows.filter fun p => p.2.inverted).length = t.pools.length := by
    rw [← List.length_map Prod.fst, ← @List.length_map _ _ t.pools
      fun p => (⟨p.1.token1, p.1.token0, p.1.fee⟩ : PoolKey)]
    refine ((List.perm_ext_iff_of_nodup (hsub _)
      (nodup_map_comp hflip (hsub _))).mpr fun k => ?_).length_eq
    constructor
    · intro h
      obtain ⟨p, hp, rfl⟩ := List.mem_map.mp h
      obtain ⟨hrow, hinverted⟩ := List.mem_filter.mp hp
      obtain ⟨q, hq, hkey, hother, -⟩ := t.oriented p hrow
      refine List.mem_map.mpr ⟨q, List.mem_filter.mpr ⟨hq, ?_⟩, ?_⟩
      · rw [hother, hinverted]
        rfl
      · rw [hkey]
    · intro h
      obtain ⟨p, hp, rfl⟩ := List.mem_map.mp h
      obtain ⟨hrow, hinverted⟩ := List.mem_filter.mp hp
      obtain ⟨q, hq, hkey, hother, -⟩ := t.oriented p hrow
      exact List.mem_map.mpr ⟨q, List.mem_filter.mpr ⟨hq, hother.trans hinverted⟩, hkey⟩
  have hsplit := List.length_eq_length_filter_add (l := t.pool.rows) fun p => p.2.inverted
  rw [hsame] at hsplit
  exact hsplit.trans (Nat.two_mul _).symm

theorem poolMatches_word (search : Option Word) (p : PoolKey × PoolRow) :
    poolMatches (term search) p = found (term search) (poolColumns p) := by
  rw [poolColumns, ← empty_or_any search (List.cons_ne_nil _ _), poolMatches]
  simp only [List.any_cons, List.any_nil, Bool.or_false, Bool.or_assoc]

/-- A filtered list is as long as the list if nothing is left out. -/
theorem length_eq_length_filter_iff {K : Type} {l : List K} {p : K → Bool} :
    ((l.length : ℕ) : ℚ) = ((l.filter p).length : ℕ) ↔ ∀ a ∈ l, p a = true := by
  rw [Nat.cast_inj, eq_comm, List.length_filter_eq_length_iff]

theorem pools_listRight_iff (klyTokenId : TokenID) (klyusdprice : Option ℚ)
    (order : String → Bool → PoolFigures → PoolFigures → Bool) (search : Option Word) (w : Window)
    (sortBy sortOrder : Option String) :
    ListRight (fun page => getPools t klyTokenId klyusdprice order
      ⟨search.map Word.text, page, w, sortBy, sortOrder⟩) PoolFigures.pool
      (t.pools.filter fun p => found (term search) (poolColumns p)) ↔
      klyusdprice ≠ none ∧ ∀ p ∈ t.pools, found (term search) (poolColumns p) = true := by
  cases klyusdprice with
  | none =>
    exact iff_of_false (not_listRight_of_error fun page => rfl) fun h => h.1 rfl
  | some klyusd =>
    have hget (page : PageParams) : getPools t klyTokenId (some klyusd) order
        ⟨search.map Word.text, page, w, sortBy, sortOrder⟩ =
          respond page (t.pool.rows.length / 2)
            ((poolRows t klyTokenId klyusd w (searchTerm (search.map Word.text))).mergeSort
              (order (poolSortBy sortBy) (sortOrder = some "asc"))) := rfl
    have htotal : (t.pool.rows.length : ℚ) / 2 = t.pools.length := by
      rw [length_pool_rows, Nat.cast_mul, Nat.cast_ofNat, mul_div_cancel_left₀ _ (by norm_num)]
    rw [listRight_iff hget, htotal, length_eq_length_filter_iff]
    refine ⟨fun h => ⟨Option.some_ne_none _, h.2⟩, fun h => ⟨?_, h.2⟩⟩
    refine ((List.mergeSort_perm _ _).map _).trans (List.Perm.of_eq ?_)
    rw [searchTerm_word, poolRows_eq, List.map_map]
    simp only [← poolMatches_word]
    exact List.map_id _

/-! ### Positions -/

/-- The tokens of a pool are registered. -/
def tokenAt (t : DexTables) (tokenOf : PoolKey × PoolRow → TokenID)
    (pool : Option (PoolKey × PoolRow)) : Option (TokenID × TokenRow) :=
  pool.bind fun pool => t.token.find (tokenOf pool)

theorem partners_isToken (tokenOf : PoolKey × PoolRow → TokenID)
    (pool : Option (PoolKey × PoolRow)) :
    partners (isToken tokenOf) t.token.rows pool = [tokenAt t tokenOf pool] := by
  cases pool with
  | none =>
    have hfilter : t.token.rows.filter (isToken tokenOf none) = [] :=
      List.filter_eq_nil_iff.mpr fun _ _ => Bool.false_ne_true
    rw [partners, hfilter]
    rfl
  | some pool => exact partners_of_nodup t.token.nodup fun _ => rfl

/-- Only the pools of its collection repeat a position. -/
theorem positionJoins_eq (pos : String × PositionRow) : positionJoins t pos =
    (partners ofCollection t.pool.rows pos).map fun pool =>
      ⟨pos, pool, tokenAt t (fun pool => pool.1.token0) pool,
        tokenAt t (fun pool => pool.1.token1) pool⟩ := by
  rw [positionJoins, List.map_eq_flatMap]
  refine List.flatMap_congr fun pool _ => ?_
  rw [partners_isToken, partners_isToken, List.flatMap_singleton, List.map_singleton]

/-- How often a position is answered. -/
def timesAnswered (t : DexTables) (search : Option Word) (pos : String × PositionRow) : ℕ :=
  ((partners ofCollection t.pool.rows pos).filter fun pool =>
    positionMatches (term search) ⟨pos, pool, none, none⟩).length

theorem map_pos_positionRows (search : Option Word) :
    (positionRows t (term search)).map (fun r => r.pos) =
      t.position.rows.flatMap fun pos => List.replicate (timesAnswered t search pos) pos := by
  rw [positionRows, List.map_map, List.filter_flatMap, List.map_flatMap]
  refine List.flatMap_congr fun pos _ => ?_
  rw [positionJoins_eq, List.filter_map, List.map_map, timesAnswered, ← List.map_const']
  rfl

/-- A position is found by its pools, or by what it has itself. -/
theorem positionMatches_eq (search : Option Word) (pos : String × PositionRow)
    (pool : Option (PoolKey × PoolRow)) :
    positionMatches (term search) ⟨pos, pool, none, none⟩ =
      ((pool.any fun pool => found (term search) [pool.2.poolAddress]) ||
        found (term search) (ownColumns pos)) := by
  have haddress (pool : PoolKey × PoolRow) : found (term search) [pool.2.poolAddress] =
      likeTerm (term search) pool.2.poolAddress := by
    rw [found_eq, List.any_cons, List.any_nil, Bool.or_false]
  have howner : pos.2.owner.toList.any (likeTerm (term search)) =
      pos.2.owner.any (likeTerm (term search)) := by
    cases pos.2.owner with
    | none => rfl
    | some owner => exact Bool.or_false _
  rw [ownColumns, ← empty_or_any search (List.cons_ne_nil _ _), List.any_cons, howner,
    positionMatches]
  simp only [haddress]
  rw [Bool.or_comm (decide _), Bool.or_assoc, Bool.or_assoc]

/-- The pools of a position's collection. -/
def poolsOf (t : DexTables) (pos : String × PositionRow) : List (PoolKey × PoolRow) :=
  t.pool.rows.filter (ofCollection pos)

theorem found_positionColumns (search : Option Word) (pos : String × PositionRow) :
    found (term search) (positionColumns t pos) =
      (((poolsOf t pos).any fun pool => found (term search) [pool.2.poolAddress]) ||
        found (term search) (ownColumns pos)) := by
  rw [positionColumns, found, List.any_append, List.any_map, ← found, poolsOf]
  refine congrArg (· || _) (List.any_congr rfl fun pool => ?_)
  exact (Bool.or_false _).symm

/-- A position is answered once: what it has itself is found and it has one pool at most, or else
one pool at most is found. -/
def Single (t : DexTables) (search : Option Word) (pos : String × PositionRow) : Prop :=
  ((poolsOf t pos).filter fun pool =>
    found (term search) (pool.2.poolAddress :: ownColumns pos)).length ≤ 1

theorem timesAnswered_eq_iff (search : Option Word) (pos : String × PositionRow) :
    timesAnswered t search pos = (if found (term search) (positionColumns t pos) then 1 else 0) ↔
      Single t search pos := by
  have hfound (pool : PoolKey × PoolRow) : found (term search) (pool.2.poolAddress :: ownColumns pos) =
      (found (term search) [pool.2.poolAddress] || found (term search) (ownColumns pos)) := by
    rw [found, found, found, List.any_cons, List.any_cons, List.any_nil, Bool.or_false]
  rw [timesAnswered, Single, found_positionColumns, partners, ← poolsOf]
  simp only [positionMatches_eq, hfound]
  split
  · rename_i hempty
    rw [List.isEmpty_iff.mp hempty]
    cases found (term search) (ownColumns pos) <;> simp
  · rename_i hsome
    obtain ⟨p, ps, hpools⟩ := List.exists_cons_of_ne_nil
      (mt List.isEmpty_iff.mpr hsome : poolsOf t pos ≠ [])
    have hpos : 0 < ((poolsOf t pos).filter fun pool =>
        found (term search) [pool.2.poolAddress] || found (term search) (ownColumns pos)).length ↔
          (((poolsOf t pos).any fun pool => found (term search) [pool.2.poolAddress]) ||
            found (term search) (ownColumns pos)) = true := by
      rw [← List.countP_eq_length_filter, List.countP_pos_iff, Bool.or_eq_true, List.any_eq_true]
      simp only [Bool.or_eq_true]
      constructor
      · rintro ⟨pool, hpool, h | h⟩
        · exact .inl ⟨pool, hpool, h⟩
        · exact .inr h
      · rintro (⟨pool, hpool, h⟩ | h)
        · exact ⟨pool, hpool, .inl h⟩
        · exact ⟨p, by rw [hpools]; exact List.mem_cons_self, .inr h⟩
    rw [List.filter_map, List.length_map]
    refine Iff.trans (Eq.congr_right (if_congr hpos.symm rfl rfl)) ?_
    simp only [Function.comp_def, Option.any_some]
    split <;> omega

theorem positions_listRight_iff
    (order : String → Bool → PositionFigures → PositionFigures → Bool) (search : Option Word)
    (sortBy sortOrder : Option String) :
    ListRight (fun page => getPositions t order ⟨search.map Word.text, page, sortBy, sortOrder⟩)
      (fun r => r.pos)
      (t.position.rows.filter fun pos => found (term search) (positionColumns t pos)) ↔
      positionSortBy sortBy ∉ missingColumns ∧ (∀ pos ∈ t.position.rows, Single t search pos) ∧
        ∀ pos ∈ t.position.rows, found (term search) (positionColumns t pos) = true := by
  by_cases hmissing : positionSortBy sortBy ∈ missingColumns
  · have herror (page : PageParams) : getPositions t order
        ⟨search.map Word.text, page, sortBy, sortOrder⟩ =
          .error (.unknownColumn (positionSortBy sortBy)) := if_pos hmissing
    exact iff_of_false (not_listRight_of_error herror) fun h => h.1 hmissing
  · have hget (page : PageParams) : getPositions t order
        ⟨search.map Word.text, page, sortBy, sortOrder⟩ =
          respond page t.position.rows.length
            ((positionRows t (searchTerm (search.map Word.text))).mergeSort
              (order (positionSortBy sortBy) (sortOrder = some "asc"))) := if_neg hmissing
    have hrows : (((positionRows t (searchTerm (search.map Word.text))).mergeSort
        (order (positionSortBy sortBy) (sortOrder = some "asc"))).map fun r => r.pos).Perm
          (t.position.rows.flatMap fun pos => List.replicate (timesAnswered t search pos) pos) := by
      rw [← map_pos_positionRows, searchTerm_word]
      exact (List.mergeSort_perm _ _).map _
    have hnodup : t.position.rows.Nodup := t.position.nodup.of_map _
    rw [listRight_iff hget, length_eq_length_filter_iff, hrows.congr_left,
      flatMap_replicate_perm_iff hnodup]
    simp only [timesAnswered_eq_iff]
    exact ⟨fun h => ⟨hmissing, h⟩, And.right⟩

/-! ### Tokens -/

/-- A token has metadata, or a token factory. -/
def Described (t : DexTables) (tok : TokenID × TokenRow) : Prop :=
  t.tokenMetadata.find tok.1 ≠ none ∨ t.tokenFactory.find tok.1 ≠ none

/-- The texts of a token. -/
def textsOf (t : DexTables) (tok : TokenID × TokenRow) : TokenTexts :=
  tokenTexts tok (t.tokenMetadata.find tok.1) (t.tokenFactory.find tok.1)

theorem tokenMatches_word (search : Option Word) (tok : TokenID × TokenRow) :
    tokenMatches (term search) (some tok.1) (textsOf t tok) =
      found (term search) (tokenColumns t tok) := by
  have hname : (textsOf t tok).tokenName.toList.any (likeTerm (term search)) =
      (textsOf t tok).tokenName.any (likeTerm (term search)) := by
    cases (textsOf t tok).tokenName with
    | none => rfl
    | some tokenName => exact Bool.or_false _
  rw [tokenColumns, ← textsOf, ← empty_or_any search (List.append_ne_nil_of_right_ne_nil _
    (List.cons_ne_nil _ _)), List.any_append, hname, tokenMatches]
  simp only [List.any_cons, List.any_nil, Bool.or_false, Option.any_some, Bool.or_assoc]
  rfl

/-- The ID of a token in the compact list. -/
def compactId (t : DexTables) (tok : TokenID × TokenRow) : Option TokenID :=
  ((t.tokenMetadata.find tok.1).map Prod.fst).or ((t.tokenFactory.find tok.1).map Prod.fst)

theorem key_of_find {K R : Type} [DecidableEq K] {table : Table K R} {k : K} {row : K × R}
    (h : table.find k = some row) : row.1 = k :=
  of_decide_eq_true (List.find?_eq_some_iff_append.mp h).1

theorem compactId_eq_some_iff (tok : TokenID × TokenRow) :
    compactId t tok = some tok.1 ↔ Described t tok := by
  rw [compactId, Described]
  cases hmetadata : t.tokenMetadata.find tok.1 with
  | some tm => simp [key_of_find hmetadata]
  | none =>
    cases hfactory : t.tokenFactory.find tok.1 with
    | some tf => simp [key_of_find hfactory]
    | none => simp

theorem map_tokenId_compactRows (search : Option Word) :
    (compactRows t (term search)).map CompactToken.tokenId =
      (t.token.rows.filter fun tok =>
        tokenMatches (term search) (compactId t tok) (textsOf t tok)).map (compactId t) := by
  have hjoin : (t.token.rows.flatMap fun rdt =>
      (partners (fun rdt tm => tm.1 = rdt.1) t.tokenMetadata.rows rdt).flatMap fun tm =>
        (partners (fun rdt tf => tf.1 = rdt.1) t.tokenFactory.rows rdt).map fun tf =>
          ({ tokenTexts rdt tm tf with
            tokenId := (tm.map Prod.fst).or (tf.map Prod.fst) } : CompactToken)) =
      t.token.rows.map fun tok => { textsOf t tok with tokenId := compactId t tok } := by
    rw [List.map_eq_flatMap]
    refine List.flatMap_congr fun tok _ => ?_
    rw [partners_of_nodup t.tokenMetadata.nodup fun _ => rfl,
      partners_of_nodup t.tokenFactory.nodup fun _ => rfl, List.flatMap_singleton,
      List.map_singleton]
    rfl
  rw [compactRows, hjoin, List.filter_map, List.map_map]
  rfl

theorem compact_listRight_iff (search : Option Word) :
    ListRight (getDEXTokensCompact t (search.map Word.text)) CompactToken.tokenId
      ((t.token.rows.filter fun tok => found (term search) (tokenColumns t tok)).map fun tok =>
        some tok.1) ↔
      (∀ tok ∈ t.token.rows, Described t tok) ∧
        ∀ tok ∈ t.token.rows, found (term search) (tokenColumns t tok) = true := by
  have hget (page : PageParams) : getDEXTokensCompact t (search.map Word.text) page =
      respond page t.token.rows.length (compactRows t (term search)) := by
    rw [getDEXTokensCompact, searchTerm_word]
  rw [listRight_iff hget, map_tokenId_compactRows, List.length_map, length_eq_length_filter_iff]
  refine and_congr_left fun hfound => ?_
  have hwanted : (t.token.rows.filter fun tok => found (term search) (tokenColumns t tok)) =
      t.token.rows := List.filter_eq_self.mpr hfound
  rw [hwanted]
  constructor
  · intro hperm tok htok
    -- All rows are there, and none of them has `NULL` for its ID.
    have hlength := hperm.length_eq
    rw [List.length_map, List.length_map, List.length_filter_eq_length_iff] at hlength
    rw [List.filter_eq_self.mpr hlength] at hperm
    obtain ⟨tok', htok', heq⟩ := List.mem_map.mp
      (hperm.mem_iff.mp (List.mem_map_of_mem (f := compactId t) htok))
    by_contra hnot
    rw [Described, not_or, not_not, not_not] at hnot
    rw [compactId, hnot.1, hnot.2] at heq
    exact Option.some_ne_none _ heq
  · intro hdescribed
    have hid : ∀ tok ∈ t.token.rows, compactId t tok = some tok.1 :=
      fun tok htok => (compactId_eq_some_iff tok).mpr (hdescribed tok htok)
    refine List.Perm.of_eq ?_
    have hall : ∀ tok ∈ t.token.rows,
        tokenMatches (term search) (compactId t tok) (textsOf t tok) = true := by
      intro tok htok
      rw [hid tok htok, tokenMatches_word]
      exact hfound tok htok
    rw [List.filter_eq_self.mpr hall]
    exact List.map_congr_left hid

section Figures

variable {klyTokenId : TokenID} {klyusd : LastPriceRow} {w : Window} {before : LastPriceRow → ℚ}

/-- Only the pools repeat a token. -/
theorem tokenJoins_eq (rdt : TokenID × TokenRow) : tokenJoins t klyTokenId klyusd w rdt =
    (partners (fun rdt pool => pool.1.token0 = rdt.1) t.pool.rows rdt).map fun pool =>
      ⟨rdt, (tokenPrices t klyTokenId klyusd).find? fun pr => pr.1 = rdt.1,
        volumeOf t klyTokenId klyusd.current w rdt.1, t.tokenMetadata.find rdt.1,
        t.tokenFactory.find rdt.1, tvlOf t rdt.1, t.lastPrice.find rdt.1, pool⟩ := by
  have hprices : ((tokenPrices t klyTokenId klyusd).map Prod.fst).Nodup := by
    rw [tokenPrices, leftJoin_of_nodup (k := fun tok : TokenID × TokenRow => tok.1)
      t.lastPrice.nodup fun _ _ => rfl, List.map_map, List.map_map]
    exact t.token.nodup
  rw [tokenJoins, partners_of_nodup hprices fun _ => rfl, List.flatMap_singleton,
    partners_of_nodup nodup_tokenVolume fun _ => rfl, List.flatMap_singleton,
    partners_of_nodup t.tokenMetadata.nodup fun _ => rfl, List.flatMap_singleton,
    partners_of_nodup t.tokenFactory.nodup fun _ => rfl, List.flatMap_singleton,
    partners_of_nodup nodup_tokenTvl fun _ => rfl, List.flatMap_singleton,
    partners_of_nodup t.lastPrice.nodup fun _ => rfl, List.flatMap_singleton]
  rfl

theorem partners_ne_nil {α β : Type} (on : α → β → Bool) (right : List β) (a : α) :
    partners on right a ≠ [] := by
  rw [partners]
  split
  · exact List.cons_ne_nil _ _
  · rename_i hsome
    exact fun h => hsome (by rw [List.map_eq_nil_iff.mp h]; rfl)

/-- A rank changes neither the ID nor the texts. -/
theorem map_filter_ranked (rows : List TokenFigures) (p : TokenID → TokenTexts → Bool) :
    (((ranked rows).filter fun v => p v.tokenId v.toTokenTexts).map fun v => v.tokenId).Perm
      ((rows.filter fun v => p v.tokenId v.toTokenTexts).map fun v => v.tokenId) := by
  refine List.Perm.trans (List.Perm.of_eq ?_) (((List.mergeSort_perm rows
    fun v v' => v'.totalTvlUSD ≤ v.totalTvlUSD).filter _).map _)
  have hfst : (rows.mergeSort fun v v' => v'.totalTvlUSD ≤ v.totalTvlUSD) =
      (rows.mergeSort fun v v' => v'.totalTvlUSD ≤ v.totalTvlUSD).zipIdx.map Prod.fst :=
    (List.zipIdx_map_fst 0 _).symm
  rw [hfst, ranked, List.filter_map, List.filter_map, List.map_map, List.map_map]
  rfl

/-- **Each token once**, if it is found. -/
theorem map_tokenId_tokenRows (search : Option Word) :
    ((tokenRows t klyTokenId klyusd w before (term search)).map fun v => v.tokenId).Perm
      ((t.token.rows.filter fun tok => found (term search) (tokenColumns t tok)).map Prod.fst) := by
  refine (map_filter_ranked _ fun tokenId v => tokenMatches (term search) (some tokenId) v).trans
    (List.Perm.of_eq ?_)
  have hgroups : ((groupBy (fun r => r.rdt.1) (t.token.rows.flatMap
      (tokenJoins t klyTokenId klyusd w))).map (tokenOfGroup klyTokenId klyusd before)).map
        (fun v => (v.tokenId, v.toTokenTexts)) = t.token.rows.map fun tok => (tok.1, textsOf t tok) := by
    rw [groupBy_flatMap (k := Prod.fst) ?_ t.token.nodup, List.map_filterMap, List.map_filterMap,
      ← List.filterMap_eq_map]
    · refine List.filterMap_congr fun tok _ => ?_
      obtain ⟨pool, pools, hpools⟩ := List.exists_cons_of_ne_nil
        (partners_ne_nil (fun rdt pool => pool.1.token0 = rdt.1) t.pool.rows tok)
      rw [tokenJoins_eq, hpools]
      rfl
    · intro tok _ r hr
      rw [tokenJoins_eq] at hr
      obtain ⟨pool, -, rfl⟩ := List.mem_map.mp hr
      rfl
  let matched (v : TokenID × TokenTexts) : Bool := tokenMatches (term search) (some v.1) v.2
  calc _ = ((((groupBy (fun r => r.rdt.1) (t.token.rows.flatMap
        (tokenJoins t klyTokenId klyusd w))).map (tokenOfGroup klyTokenId klyusd before)).map
          fun v => (v.tokenId, v.toTokenTexts)).filter matched).map Prod.fst := by
        simp only [List.filter_map, List.map_map]
        rfl
    _ = ((t.token.rows.map fun tok => (tok.1, textsOf t tok)).filter matched).map Prod.fst := by
        rw [hgroups]
    _ = _ := by
        rw [List.filter_map, List.map_map]
        refine congrArg _ (List.filter_congr fun tok _ => ?_)
        exact tokenMatches_word search tok

theorem tokens_listRight_iff (klyusdprice : Option LastPriceRow)
    (order : String → Bool → TokenFigures → TokenFigures → Bool) (search : Option Word)
    (changeWindow : Option String) (w : Window) (sortBy sortOrder : Option String) :
    ListRight (fun page => getDEXTokens t klyTokenId klyusdprice order
      ⟨search.map Word.text, page, changeWindow, w, sortBy, sortOrder⟩) (fun v => v.tokenId)
      ((t.token.rows.filter fun tok => found (term search) (tokenColumns t tok)).map Prod.fst) ↔
      klyusdprice ≠ none ∧ changeWindowOr changeWindow ∈ changeWindows ∧
        tokenSortBy sortBy ∉ missingColumns ∧
        ∀ tok ∈ t.token.rows, found (term search) (tokenColumns t tok) = true := by
  cases klyusdprice with
  | none => exact iff_of_false (not_listRight_of_error fun page => rfl) fun h => h.1 rfl
  | some klyusd =>
    have hago := ago_isNone_iff klyusd (changeWindowOr changeWindow)
    by_cases hwindow : changeWindowOr changeWindow ∈ changeWindows
    · have hsome : ¬ (ago (changeWindowOr changeWindow) klyusd).isNone = true :=
        fun h => hago.mp h hwindow
      by_cases hmissing : tokenSortBy sortBy ∈ missingColumns
      · have herror (page : PageParams) : getDEXTokens t klyTokenId (some klyusd) order
            ⟨search.map Word.text, page, changeWindow, w, sortBy, sortOrder⟩ =
              .error (.unknownColumn (tokenSortBy sortBy)) :=
          (if_neg hsome).trans (if_pos hmissing)
        exact iff_of_false (not_listRight_of_error herror) fun h => h.2.2.1 hmissing
      · have hget (page : PageParams) : getDEXTokens t klyTokenId (some klyusd) order
            ⟨search.map Word.text, page, changeWindow, w, sortBy, sortOrder⟩ =
              respond page t.token.rows.length
                ((tokenRows t klyTokenId klyusd w
                  (fun r => (ago (changeWindowOr changeWindow) r).getD 0)
                  (searchTerm (search.map Word.text))).mergeSort
                    (order (tokenSortBy sortBy) (sortOrder = some "asc"))) :=
          (if_neg hsome).trans (if_neg hmissing)
        rw [listRight_iff hget, List.length_map, length_eq_length_filter_iff]
        refine ⟨fun h => ⟨Option.some_ne_none _, hwindow, hmissing, h.2⟩,
          fun h => ⟨?_, h.2.2.2⟩⟩
        rw [searchTerm_word]
        exact ((List.mergeSort_perm _ _).map _).trans (map_tokenId_tokenRows search)
    · have herror (page : PageParams) : getDEXTokens t klyTokenId (some klyusd) order
          ⟨search.map Word.text, page, changeWindow, w, sortBy, sortOrder⟩ =
            .error (.unknownColumn ("lp." ++ changeWindowOr changeWindow)) :=
        if_pos (hago.mpr hwindow)
      exact iff_of_false (not_listRight_of_error herror) fun h => hwindow h.2.1

end Figures

end Lists

/-! ### When the lists are right -/

/-- **The lists and their totals are right** if and only if the price of KLY is known, the columns
to sort by and the window exist, all tokens have metadata, positions have one pool, and everything
is found. -/
theorem lists_right_iff (t : DexTables) (klyTokenId : TokenID)
    (klyusdprice : Option LastPriceRow)
    (poolOrder : String → Bool → PoolFigures → PoolFigures → Bool)
    (positionOrder : String → Bool → PositionFigures → PositionFigures → Bool)
    (tokenOrder : String → Bool → TokenFigures → TokenFigures → Bool) (search : Option Word)
    (w : Window) (changeWindow poolSort positionSort tokenSort sortOrder : Option String) :
    (ListRight (fun page => getPools t klyTokenId (klyusdprice.map LastPriceRow.current) poolOrder
        ⟨search.map Word.text, page, w, poolSort, sortOrder⟩) PoolFigures.pool
        (t.pools.filter fun p => found (term search) (poolColumns p)) ∧
      ListRight (fun page => getPositions t positionOrder
        ⟨search.map Word.text, page, positionSort, sortOrder⟩) (fun r => r.pos)
        (t.position.rows.filter fun pos => found (term search) (positionColumns t pos)) ∧
      ListRight (getDEXTokensCompact t (search.map Word.text)) CompactToken.tokenId
        ((t.token.rows.filter fun tok => found (term search) (tokenColumns t tok)).map fun tok =>
          some tok.1) ∧
      ListRight (fun page => getDEXTokens t klyTokenId klyusdprice tokenOrder
        ⟨search.map Word.text, page, changeWindow, w, tokenSort, sortOrder⟩) (fun v => v.tokenId)
        ((t.token.rows.filter fun tok => found (term search) (tokenColumns t tok)).map
          Prod.fst)) ↔
      klyusdprice ≠ none ∧ changeWindowOr changeWindow ∈ changeWindows ∧
        positionSortBy positionSort ∉ missingColumns ∧ tokenSortBy tokenSort ∉ missingColumns ∧
        (∀ tok ∈ t.token.rows, Described t tok) ∧
        (∀ pos ∈ t.position.rows, Single t search pos) ∧
        (∀ p ∈ t.pools, found (term search) (poolColumns p) = true) ∧
        (∀ pos ∈ t.position.rows, found (term search) (positionColumns t pos) = true) ∧
        ∀ tok ∈ t.token.rows, found (term search) (tokenColumns t tok) = true := by
  have hprice : klyusdprice.map LastPriceRow.current ≠ none ↔ klyusdprice ≠ none := by
    rw [Ne, Option.map_eq_none_iff]
  rw [pools_listRight_iff, positions_listRight_iff, compact_listRight_iff, tokens_listRight_iff,
    hprice]
  tauto

/-- A search that finds no pool has a total of one. -/
theorem lists_onePool : ¬ ListRight
    (fun page => getPools onePool "kly" (some 1) (fun _ _ _ _ => true)
      ⟨some "zzz", page, ⟨none, none⟩, none, none⟩) PoolFigures.pool
    (onePool.pools.filter fun p => found "zzz" (poolColumns p)) := by
  intro h
  obtain ⟨r, hr, htotal⟩ := h.total ⟨none, some (-1)⟩ (.inl rfl)
  obtain rfl := Except.ok.inj hr
  exact absurd htotal (by decide +kernel)

end DexQuery

end SwaptoshiService
