import SwaptoshiService.DataService.DexTables

/-!
# The figures of pools

`getPools` joins each pool with the rows of its two tokens in `token_volume` and `token_tvl`. These
are sums for a **token**, over all its pools, and stand in the answer as figures of the pool. The
swaps that are counted are those of the pool, but not only those of the window, and both prices in
USD are multiplied with the price of the **first** token.

`pools_right_iff` says when all of it is right: nothing comes from other pools, every token has a
swap in the window and a locked amount, all swaps of a pool lie in the window, and the prices do not
show the mistake.
-/

namespace SwaptoshiService

namespace DexQuery

open Aggregate Join

/-! ### Requests and answers -/

/-- The parameters of `getPools`. -/
structure PoolsParams where
  search : Option String
  page : PageParams
  window : Window
  sortBy : Option String
  sortOrder : Option String

/-- The columns for one of the two tokens of a pool. -/
structure SideFigures where
  decimal : Option ℕ
  symbol : Option String
  logo : Option String
  feeGrowth : Option ℚ
  feeGrowthUSD : Option ℚ
  price : Option ℚ
  priceUSD : Option ℚ
  volume : Option ℚ
  volumeUSD : Option ℚ
  totalTvl : Option ℚ
  totalTvlUSD : Option ℚ

/-- A row of the answer; `pool` stands for the columns of the pool itself. -/
structure PoolFigures where
  pool : PoolKey × PoolRow
  side0 : SideFigures
  side1 : SideFigures
  swapCount : ℕ
  positionCount : Option ℕ

/-! ### The query -/

/-- A row of `pool`, with what is joined. -/
structure PoolJoin where
  pool : PoolKey × PoolRow
  vol0 : Option TokenVolume
  vol1 : Option TokenVolume
  swap : Option ((ℕ × ℕ) × VolumeRow)
  tvl0 : Option TokenTvl
  tvl1 : Option TokenTvl
  pos : Option (String × ℕ)

/-- `SELECT collectionId, COUNT(collectionId) FROM position GROUP BY collectionId` -/
def positionCounts (t : DexTables) : List (String × ℕ) :=
  (groupBy (fun r => r.2.collectionId) t.position.rows).map fun g => (g.1.2.collectionId, g.2.length)

section Query

variable (t : DexTables) (klyTokenId : TokenID) (klyusd : ℚ) (w : Window)

/-- The rows that a row of `pool` is joined to. -/
def poolJoins (p : PoolKey × PoolRow) : List PoolJoin :=
  let volume := tokenVolume t klyTokenId klyusd w
  let tvl := tokenTvl t ⟨none, none⟩
  (partners (fun p vol0 => vol0.tokenId = p.1.token0) volume p).flatMap fun vol0 =>
    (partners (fun p vol1 => vol1.tokenId = p.1.token1) volume p).flatMap fun vol1 =>
      (partners onAddress t.volume.rows p).flatMap fun swap =>
        (partners (fun p tvl0 => tvl0.tokenId = p.1.token0) tvl p).flatMap fun tvl0 =>
          (partners (fun p tvl1 => tvl1.tokenId = p.1.token1) tvl p).flatMap fun tvl1 =>
            (partners (fun p pos => pos.1 = p.2.collectionId) (positionCounts t) p).map fun pos =>
              ⟨p, vol0, vol1, swap, tvl0, tvl1, pos⟩

/-- The search condition; a number is searched as the text that it has. -/
def poolMatches (term : String) (p : PoolKey × PoolRow) : Bool :=
  term = "" || likeTerm term p.2.poolAddress || likeTerm term p.1.token0 ||
    likeTerm term p.1.token1 || likeTerm term (toString p.1.fee)

/-- The columns of one side. The price in USD of either token is taken with `vol0.priceUSD`. -/
def sideFigures (vol0 vol : Option TokenVolume) (tvl : Option TokenTvl) : SideFigures where
  decimal := vol.map TokenVolume.decimal
  symbol := vol.map TokenVolume.symbol
  logo := vol.bind TokenVolume.logo
  feeGrowth := vol.bind TokenVolume.feeGrowth
  feeGrowthUSD := mul (vol.bind TokenVolume.feeGrowth) (vol.map TokenVolume.priceUSD)
  price := vol.bind TokenVolume.price
  priceUSD := mul (vol.bind TokenVolume.price) (vol0.map TokenVolume.priceUSD)
  volume := vol.bind TokenVolume.volume
  volumeUSD := mul (vol.bind TokenVolume.volume) (vol.map TokenVolume.priceUSD)
  totalTvl := tvl.bind TokenTvl.amount
  totalTvlUSD := mul (tvl.bind TokenTvl.amount) (vol.map TokenVolume.priceUSD)

/-- The row of a group. -/
def poolOfGroup (g : PoolJoin × List PoolJoin) : PoolFigures where
  pool := g.1.pool
  side0 := sideFigures g.1.vol0 g.1.vol0 g.1.tvl0
  side1 := sideFigures g.1.vol0 g.1.vol1 g.1.tvl1
  swapCount := countDistinct (g.2.map fun r => r.swap.map fun v => swapId v.1)
  positionCount := g.1.pos.map Prod.snd

/-- The rows of the query, before they are sorted. -/
def poolRows (term : String) : List PoolFigures :=
  (groupBy (fun r => r.pool.2.poolAddress)
    ((t.pool.rows.flatMap (poolJoins t klyTokenId klyusd w)).filter fun r =>
      !r.pool.2.inverted && poolMatches term r.pool)).map poolOfGroup

end Query

/-- The columns that can be sorted by. -/
def poolSortColumns : List String :=
  ["poolAddress", "token0", "token1", "fee", "liquidity", "price", "feeGrowth0", "feeGrowth0USD",
    "feeGrowth1", "feeGrowth1USD", "token0Price", "token0PriceUSD", "token1Price", "token1PriceUSD",
    "tick", "volumeToken0", "volumeToken0USD", "volumeToken1", "volumeToken1USD", "swapCount",
    "totalTvlToken0", "totalTvlToken0USD", "totalTvlToken1", "totalTvlToken1USD", "positionCount"]

/-- The expression of `ORDER BY`. -/
def poolSortBy (sortBy : Option String) : String :=
  match sortBy with
  | some column =>
    if column ∈ poolSortColumns then
      if column ∈ ["poolAddress", "price"] then "pool." ++ column else column
    else "pool.poolAddress"
  | none => "pool.poolAddress"

/-- `order` is how the database orders rows by an expression, ascending or not. -/
def getPools (t : DexTables) (klyTokenId : TokenID) (klyusdprice : Option ℚ)
    (order : String → Bool → PoolFigures → PoolFigures → Bool) (params : PoolsParams) :
    Except QueryError (ListResponse PoolFigures) :=
  match klyusdprice with
  | none => .error .undefinedPrice
  | some klyusd => respond params.page (t.pool.rows.length / 2)
    ((poolRows t klyTokenId klyusd params.window (searchTerm params.search)).mergeSort
      (order (poolSortBy params.sortBy) (params.sortOrder = some "asc")))

/-! ### The rows of the answer -/

section Rows

variable {t : DexTables} {klyTokenId : TokenID} {klyusd : ℚ} {w : Window}

/-- The row of a token in `token_volume`, if there is one. -/
def volumeOf (t : DexTables) (klyTokenId : TokenID) (klyusd : ℚ) (w : Window) (tokenId : TokenID) :
    Option TokenVolume :=
  (tokenVolume t klyTokenId klyusd w).find? fun v => v.tokenId = tokenId

/-- The row of a token in `token_tvl`, if there is one. -/
def tvlOf (t : DexTables) (tokenId : TokenID) : Option TokenTvl :=
  (tokenTvl t ⟨none, none⟩).find? fun v => v.tokenId = tokenId

/-- The row of a pool. -/
def poolFigures (t : DexTables) (klyTokenId : TokenID) (klyusd : ℚ) (w : Window)
    (p : PoolKey × PoolRow) : PoolFigures where
  pool := p
  side0 := sideFigures (volumeOf t klyTokenId klyusd w p.1.token0)
    (volumeOf t klyTokenId klyusd w p.1.token0) (tvlOf t p.1.token0)
  side1 := sideFigures (volumeOf t klyTokenId klyusd w p.1.token0)
    (volumeOf t klyTokenId klyusd w p.1.token1) (tvlOf t p.1.token1)
  swapCount := (t.volume.rows.filter (onAddress p)).length
  positionCount := ((positionCounts t).find? fun pos => pos.1 = p.2.collectionId).map Prod.snd

/-- Only the swaps repeat a row. -/
theorem poolJoins_eq (p : PoolKey × PoolRow) : poolJoins t klyTokenId klyusd w p =
    (partners onAddress t.volume.rows p).map fun swap =>
      ⟨p, volumeOf t klyTokenId klyusd w p.1.token0, volumeOf t klyTokenId klyusd w p.1.token1, swap,
        tvlOf t p.1.token0, tvlOf t p.1.token1,
        (positionCounts t).find? fun pos => pos.1 = p.2.collectionId⟩ := by
  have hpositions : ((positionCounts t).map Prod.fst).Nodup := by
    rw [positionCounts, List.map_map]
    exact nodup_groupBy (fun r : String × PositionRow => r.2.collectionId) _
  have hvolume (tokenOf : PoolKey × PoolRow → TokenID) :
      partners (fun p vol => vol.tokenId = tokenOf p) (tokenVolume t klyTokenId klyusd w) p =
        [volumeOf t klyTokenId klyusd w (tokenOf p)] :=
    partners_of_nodup nodup_tokenVolume fun _ => rfl
  have htvl (tokenOf : PoolKey × PoolRow → TokenID) :
      partners (fun p tvl => tvl.tokenId = tokenOf p) (tokenTvl t ⟨none, none⟩) p =
        [tvlOf t (tokenOf p)] :=
    partners_of_nodup nodup_tokenTvl fun _ => rfl
  have hpos : partners (fun p pos => pos.1 = p.2.collectionId) (positionCounts t) p =
      [(positionCounts t).find? fun pos => pos.1 = p.2.collectionId] :=
    partners_of_nodup hpositions fun _ => rfl
  simp only [poolJoins]
  rw [hvolume fun p => p.1.token0, hvolume fun p => p.1.token1, htvl fun p => p.1.token0,
    htvl fun p => p.1.token1, hpos]
  simp only [List.flatMap_singleton, List.map_singleton]
  exact List.map_eq_flatMap.symm

theorem countDistinct_partners (p : PoolKey × PoolRow) :
    countDistinct ((partners onAddress t.volume.rows p).map fun swap => swap.map fun v =>
      swapId v.1) = (t.volume.rows.filter (onAddress p)).length := by
  have hvalues : values ((partners onAddress t.volume.rows p).map fun swap => swap.map fun v =>
      swapId v.1) = (t.volume.rows.filter (onAddress p)).map fun v => swapId v.1 := by
    rw [partners, values]
    split
    · rename_i hempty
      rw [List.isEmpty_iff.mp hempty]
      rfl
    · rw [List.map_map, List.filterMap_map]
      exact congrFun List.filterMap_eq_map' _
  have hnodup : ((t.volume.rows.filter (onAddress p)).map fun v => swapId v.1).Nodup :=
    (nodup_map_comp swapId_injective t.volume.nodup).sublist (List.filter_sublist.map _)
  rw [countDistinct, hvalues, hnodup.dedup, List.length_map]

/-- **Each pool once**, with the rows of its tokens. -/
theorem poolRows_eq (term : String) : poolRows t klyTokenId klyusd w term =
    (t.pools.filter (poolMatches term)).map (poolFigures t klyTokenId klyusd w) := by
  have htag : ∀ p, ∀ r ∈ poolJoins t klyTokenId klyusd w p, r.pool = p := by
    intro p r hr
    rw [poolJoins_eq] at hr
    obtain ⟨swap, -, rfl⟩ := List.mem_map.mp hr
    rfl
  -- The conditions are on the row of the pool, so they select pools before they are joined.
  have hselected : ((t.pool.rows.flatMap (poolJoins t klyTokenId klyusd w)).filter fun r =>
      !r.pool.2.inverted && poolMatches term r.pool) =
        (t.pools.filter (poolMatches term)).flatMap (poolJoins t klyTokenId klyusd w) := by
    rw [DexTables.pools, notInverted, List.filter_filter, List.filter_flatMap]
    induction t.pool.rows with
    | nil => rfl
    | cons p rows ih =>
      have hjoins : ((poolJoins t klyTokenId klyusd w p).filter fun r =>
          !r.pool.2.inverted && poolMatches term r.pool) =
            if poolMatches term p && !p.2.inverted then poolJoins t klyTokenId klyusd w p
            else [] := by
        split
        · rename_i hp
          refine List.filter_eq_self.mpr fun r hr => ?_
          rwa [htag p r hr, Bool.and_comm]
        · rename_i hp
          refine List.filter_eq_nil_iff.mpr fun r hr => ?_
          rwa [htag p r hr, Bool.and_comm]
      rw [List.flatMap_cons, ih, hjoins, List.filter_cons]
      split
      · rw [List.flatMap_cons]
      · rfl
  have hnodup : ((t.pools.filter (poolMatches term)).map fun p => p.2.poolAddress).Nodup :=
    t.addresses.sublist (List.filter_sublist.map _)
  rw [poolRows, hselected, groupBy_flatMap (fun p _ r hr => by rw [htag p r hr]) hnodup,
    List.map_filterMap, ← List.filterMap_eq_map]
  refine List.filterMap_congr fun p _ => ?_
  have hne : partners onAddress t.volume.rows p ≠ [] := by
    rw [partners]
    split
    · exact List.cons_ne_nil _ _
    · rename_i hsome
      exact fun h => hsome (by rw [List.map_eq_nil_iff.mp h]; rfl)
  obtain ⟨swap, swaps, hpartners⟩ := List.exists_cons_of_ne_nil hne
  have hcount := countDistinct_partners (t := t) p
  rw [poolJoins_eq, hpartners, List.map_cons, List.head?_cons, Option.map_some, Option.map_some,
    Function.comp_apply, poolOfGroup, poolFigures, ← hcount, hpartners]
  simp only [List.map_cons, List.map_map]
  rfl

theorem volumeOf_eq {tok : TokenID × TokenRow} (htok : tok ∈ t.token.rows) :
    volumeOf t klyTokenId klyusd w tok.1 =
      if windowOf t w tok = [] then none else some (volumeRow t klyTokenId klyusd w tok) :=
  find?_tokenVolume htok

/-- A sum over the swaps of a token, whether it has a row or not. -/
theorem bind_volumeOf {tok : TokenID × TokenRow} (htok : tok ∈ t.token.rows)
    {column : TokenVolume → Option ℚ} {x : ℚ}
    (hcolumn : column (volumeRow t klyTokenId klyusd w tok) =
      if ∀ p ∈ t.pools, hasToken p tok.1 → swaps t w p = [] then none else some x) :
    (volumeOf t klyTokenId klyusd w tok.1).bind column =
      if ∀ p ∈ t.pools, hasToken p tok.1 → swaps t w p = [] then none else some x := by
  rw [volumeOf_eq htok]
  by_cases hwindow : windowOf t w tok = []
  · rw [if_pos hwindow, if_pos fun p hp hhas => (windowOf_eq_nil_iff.mp hwindow p hp hhas).2]
    rfl
  · rw [if_neg hwindow, Option.bind_some, hcolumn]

end Rows

/-! ### Figures of the pool itself -/

section Meaning

variable (t : DexTables) (klyTokenId : TokenID) (klyusd : ℚ) (w : Window)

/-- The decimals of a token. -/
def decimalOf (tokenId : TokenID) : ℕ := ((t.token.find tokenId).map fun tok => tok.2.decimal).getD 0

/-- A swap of the pool sums up to this in the window. -/
def swapped (p : PoolKey × PoolRow) (f : PoolKey × PoolRow → (ℕ × ℕ) × VolumeRow → ℚ) : ℚ :=
  ((swaps t w p).map (f p)).sum

/-- What is locked of a token in the pool. -/
def locked (p : PoolKey × PoolRow) (tokenId : TokenID) : ℚ :=
  ((t.tvl.rows.filter fun r => r.2.tokenId = tokenId && r.2.poolAddress = p.2.poolAddress).map
    lockedOf).sum

/-- The figures for a token are those of the pool. -/
structure SideRight (p : PoolKey × PoolRow) (tokenId : TokenID) (s : SideFigures) : Prop where
  volume : s.volume = some (swapped t w p (amountOf tokenId) / 10 ^ decimalOf t tokenId)
  feeGrowth : s.feeGrowth = some (swapped t w p (feeGrowthOf tokenId) / 10 ^ decimalOf t tokenId)
  totalTvl : s.totalTvl = some (locked t p tokenId / 10 ^ decimalOf t tokenId)
  volumeUSD : s.volumeUSD = s.volume.map (· * priceUSD t klyTokenId klyusd tokenId)
  feeGrowthUSD : s.feeGrowthUSD = s.feeGrowth.map (· * priceUSD t klyTokenId klyusd tokenId)
  totalTvlUSD : s.totalTvlUSD = s.totalTvl.map (· * priceUSD t klyTokenId klyusd tokenId)
  priceUSD : s.priceUSD = some (priceUSD t klyTokenId klyusd tokenId)

/-- A row of the answer is right. -/
structure FiguresRight (f : PoolFigures) : Prop where
  side0 : SideRight t klyTokenId klyusd w f.pool f.pool.1.token0 f.side0
  side1 : SideRight t klyTokenId klyusd w f.pool f.pool.1.token1 f.side1
  swapCount : f.swapCount = (swaps t w f.pool).length

/-! ### Other pools of a token -/

/-- The swaps of the other pools of a token sum up to this in the window. -/
def swappedElsewhere (p : PoolKey × PoolRow) (tokenId : TokenID)
    (f : PoolKey × PoolRow → (ℕ × ℕ) × VolumeRow → ℚ) : ℚ :=
  ((t.pools.filter fun q => hasToken q tokenId && !(q.2.poolAddress = p.2.poolAddress)).map fun q =>
    swapped t w q f).sum

/-- What is locked of a token in other pools. -/
def lockedElsewhere (p : PoolKey × PoolRow) (tokenId : TokenID) : ℚ :=
  ((t.tvl.rows.filter fun r => r.2.tokenId = tokenId && !(r.2.poolAddress = p.2.poolAddress)).map
    lockedOf).sum

/-- A token has swaps in the window and is locked, and other pools of it add nothing. -/
structure SideOwn (p : PoolKey × PoolRow) (tokenId : TokenID) : Prop where
  traded : ∃ q ∈ t.pools, hasToken q tokenId ∧ swaps t w q ≠ []
  volume : swappedElsewhere t w p tokenId (amountOf tokenId) = 0
  feeGrowth : swappedElsewhere t w p tokenId (feeGrowthOf tokenId) = 0
  deposited : ∃ r ∈ t.tvl.rows, r.2.tokenId = tokenId
  tvl : lockedElsewhere t p tokenId = 0

end Meaning

section Sides

variable {t : DexTables} {klyTokenId : TokenID} {klyusd : ℚ} {w : Window} {p : PoolKey × PoolRow}
  {tok : TokenID × TokenRow}

theorem decimalOf_eq (htok : tok ∈ t.token.rows) : decimalOf t tok.1 = tok.2.decimal := by
  rw [decimalOf, Table.find, find?_of_nodup t.token.nodup htok]
  rfl

/-- The swaps of a token are those of the pool and those of other pools. -/
theorem sum_tokenSwaps {tokenId : TokenID} (hp : p ∈ t.pools) (hhas : hasToken p tokenId)
    (f : PoolKey × PoolRow → (ℕ × ℕ) × VolumeRow → ℚ) : (tokenSwaps t w tokenId f).sum =
      swapped t w p f + swappedElsewhere t w p tokenId f := by
  have hown : ((t.pools.filter fun q => hasToken q tokenId).filter fun q =>
      q.2.poolAddress = p.2.poolAddress) = [p] := by
    have hone : (t.pools.filter fun q => q.2.poolAddress = p.2.poolAddress) = [p] :=
      (filter_key_of_nodup t.addresses _).trans (by rw [find?_of_nodup t.addresses hp]; rfl)
    calc _ = (t.pools.filter fun q => q.2.poolAddress = p.2.poolAddress).filter fun q =>
          hasToken q tokenId := by
          rw [List.filter_filter, List.filter_filter]
          exact List.filter_congr fun q _ => Bool.and_comm _ _
      _ = [p] := by rw [hone]; exact List.filter_cons_of_pos hhas
  have hsum : (tokenSwaps t w tokenId f).sum =
      ((t.pools.filter fun q => hasToken q tokenId).map fun q => swapped t w q f).sum := by
    rw [tokenSwaps, List.flatMap_def, List.sum_flatten, List.map_map]
    rfl
  rw [hsum, ← sum_filter_add_sum_filter_not fun q : PoolKey × PoolRow =>
    decide (q.2.poolAddress = p.2.poolAddress), hown, List.map_singleton, List.sum_singleton,
    swappedElsewhere, List.filter_filter]
  refine congrArg _ (congrArg List.sum (congrArg _ (List.filter_congr fun q _ => ?_)))
  rw [Bool.and_comm]

theorem tvlOf_eq (htok : tok ∈ t.token.rows) : tvlOf t tok.1 =
    if tvlRows t ⟨none, none⟩ tok.1 = [] then none
    else some ⟨tok.1, some (((tvlRows t ⟨none, none⟩ tok.1).map lockedOf).sum /
      10 ^ tok.2.decimal)⟩ :=
  find?_tokenTvl htok

/-- What is locked of a token is locked in the pool or in others. -/
theorem sum_tvlRows (tokenId : TokenID) : ((tvlRows t ⟨none, none⟩ tokenId).map lockedOf).sum =
    locked t p tokenId + lockedElsewhere t p tokenId := by
  have hrows : tvlRows t ⟨none, none⟩ tokenId = t.tvl.rows.filter fun r => r.2.tokenId = tokenId :=
    List.filter_congr fun r _ => Bool.and_true _
  rw [hrows, ← sum_filter_add_sum_filter_not fun r : (TxID × ℕ) × TVLRow =>
    decide (r.2.poolAddress = p.2.poolAddress), List.filter_filter, List.filter_filter, locked,
    lockedElsewhere]
  simp only [Bool.and_comm]

theorem tvlRows_eq_nil_iff {tokenId : TokenID} : tvlRows t ⟨none, none⟩ tokenId = [] ↔
    ¬ ∃ r ∈ t.tvl.rows, r.2.tokenId = tokenId := by
  rw [tvlRows, List.filter_eq_nil_iff]
  simp [Window.admits]

/-- A sum with others is the own one if the others add nothing. -/
theorem ite_some_eq_some_iff {c : Prop} [Decidable c] {own other d : ℚ} (hd : d ≠ 0) :
    (if c then none else some ((own + other) / d)) = some (own / d) ↔ ¬ c ∧ other = 0 := by
  split
  · rename_i hc
    simp [hc]
  · rename_i hc
    rw [Option.some.injEq, div_left_inj' hd, add_eq_left]
    exact ⟨fun h => ⟨hc, h⟩, And.right⟩

theorem traded_iff {tokenId : TokenID} :
    (¬ ∀ p ∈ t.pools, hasToken p tokenId → swaps t w p = []) ↔
      ∃ q ∈ t.pools, hasToken q tokenId ∧ swaps t w q ≠ [] := by
  simp only [not_forall, exists_prop]

theorem volumeOf_of_traded (htok : tok ∈ t.token.rows)
    (htraded : ∃ q ∈ t.pools, hasToken q tok.1 ∧ swaps t w q ≠ []) :
    volumeOf t klyTokenId klyusd w tok.1 = some (volumeRow t klyTokenId klyusd w tok) := by
  obtain ⟨q, hq, hhas, hne⟩ := htraded
  rw [volumeOf_eq htok, if_neg fun h => hne (windowOf_eq_nil_iff.mp h q hq hhas).2]

/-- **The figures for a token** are those of the pool if and only if other pools add nothing, and
the price is right. -/
theorem sideRight_iff {tokenId : TokenID} (hp : p ∈ t.pools) (hhas : hasToken p tokenId)
    (vol0 : Option TokenVolume) :
    SideRight t klyTokenId klyusd w p tokenId
      (sideFigures vol0 (volumeOf t klyTokenId klyusd w tokenId) (tvlOf t tokenId)) ↔
      SideOwn t w p tokenId ∧
        mul (price t klyTokenId tokenId) (vol0.map TokenVolume.priceUSD) =
          some (priceUSD t klyTokenId klyusd tokenId) := by
  obtain ⟨tok, htok, rfl⟩ := t.registered p (List.mem_filter.mp hp).1 tokenId hhas
  have hd : (10 : ℚ) ^ tok.2.decimal ≠ 0 := pow_ne_zero _ (by norm_num)
  have hvolume := bind_volumeOf htok (@volume_volumeRow t w klyTokenId klyusd tok)
  have hfee := bind_volumeOf htok (@feeGrowth_volumeRow t w klyTokenId klyusd tok)
  rw [sum_tokenSwaps hp hhas] at hvolume hfee
  have htvl : (tvlOf t tok.1).bind TokenTvl.amount =
      if ¬ ∃ r ∈ t.tvl.rows, r.2.tokenId = tok.1 then none
      else some ((locked t p tok.1 + lockedElsewhere t p tok.1) / 10 ^ tok.2.decimal) := by
    rw [tvlOf_eq htok, ← sum_tvlRows]
    simp only [tvlRows_eq_nil_iff]
    split <;> rfl
  constructor
  · rintro ⟨hvol, hgrowth, hlocked, -, -, -, hprice⟩
    rw [decimalOf_eq htok] at hvol hgrowth hlocked
    obtain ⟨htraded, hvol⟩ := (ite_some_eq_some_iff hd).mp (hvolume.symm.trans hvol)
    obtain ⟨-, hgrowth⟩ := (ite_some_eq_some_iff hd).mp (hfee.symm.trans hgrowth)
    obtain ⟨hdeposited, hlocked⟩ := (ite_some_eq_some_iff hd).mp (htvl.symm.trans hlocked)
    have htraded := traded_iff.mp htraded
    rw [volumeOf_of_traded htok htraded] at hprice
    exact ⟨⟨htraded, hvol, hgrowth, not_not.mp hdeposited, hlocked⟩, hprice⟩
  · rintro ⟨⟨htraded, hvol, hgrowth, hdeposited, hlocked⟩, hprice⟩
    have hsome := @volumeOf_of_traded t klyTokenId klyusd w tok htok htraded
    have hmul (x : Option ℚ) : mul x ((volumeOf t klyTokenId klyusd w tok.1).map
        TokenVolume.priceUSD) = x.map (· * priceUSD t klyTokenId klyusd tok.1) := by
      rw [hsome]
      cases x <;> rfl
    refine ⟨?_, ?_, ?_, hmul _, hmul _, hmul _, ?_⟩
    · rw [decimalOf_eq htok]
      exact hvolume.trans ((ite_some_eq_some_iff hd).mpr ⟨traded_iff.mpr htraded, hvol⟩)
    · rw [decimalOf_eq htok]
      exact hfee.trans ((ite_some_eq_some_iff hd).mpr ⟨traded_iff.mpr htraded, hgrowth⟩)
    · rw [decimalOf_eq htok]
      exact htvl.trans ((ite_some_eq_some_iff hd).mpr ⟨not_not.mpr hdeposited, hlocked⟩)
    · rw [hsome]
      exact hprice

/-- The prices in USD are right if nothing shows that both are multiplied with the first. -/
theorem prices_right_iff {tokenId0 tokenId1 : TokenID} :
    (mul (price t klyTokenId tokenId0) (some (priceUSD t klyTokenId klyusd tokenId0)) =
        some (priceUSD t klyTokenId klyusd tokenId0) ∧
      mul (price t klyTokenId tokenId1) (some (priceUSD t klyTokenId klyusd tokenId0)) =
        some (priceUSD t klyTokenId klyusd tokenId1)) ↔
      ∃ price0 price1, price t klyTokenId tokenId0 = some price0 ∧
        price t klyTokenId tokenId1 = some price1 ∧
        (klyusd = 0 ∨ price0 = 1 ∨ price0 = 0 ∧ price1 = 0) := by
  rw [priceUSD, priceUSD]
  cases price t klyTokenId tokenId0 with
  | none => simp [mul]
  | some price0 =>
    cases price t klyTokenId tokenId1 with
    | none => simp [mul]
    | some price1 =>
      have hfactor (x : ℚ) : x * (price0 * klyusd) = x * klyusd ↔
          klyusd = 0 ∨ x = 0 ∨ price0 = 1 := by
        rw [← sub_eq_zero, show x * (price0 * klyusd) - x * klyusd = klyusd * (x * (price0 - 1)) by
          ring, mul_eq_zero, mul_eq_zero, sub_eq_zero]
      simp only [mul, Option.map_some, Option.bind_some, Option.getD_some, Option.some.injEq,
        hfactor]
      constructor
      · rintro ⟨h0, h1⟩
        exact ⟨price0, price1, rfl, rfl, by tauto⟩
      · rintro ⟨_, _, rfl, rfl, h⟩
        tauto

theorem length_swaps_eq_iff : (t.volume.rows.filter (onAddress p)).length = (swaps t w p).length ↔
    ∀ v ∈ t.volume.rows, onAddress p v → w.admits (some v.2.time) := by
  have hswaps : swaps t w p =
      (t.volume.rows.filter (onAddress p)).filter fun v => w.admits (some v.2.time) := by
    rw [List.filter_filter]
    exact List.filter_congr fun v _ => Bool.and_comm _ _
  rw [hswaps, eq_comm, List.length_filter_eq_length_iff]
  simp only [List.mem_filter]
  exact ⟨fun h v hv hpool => h v ⟨hv, hpool⟩, fun h v hv => h v hv.1 hv.2⟩

/-- **The figures of one pool.** -/
theorem figuresRight_iff (hp : p ∈ t.pools) :
    FiguresRight t klyTokenId klyusd w (poolFigures t klyTokenId klyusd w p) ↔
      (∀ v ∈ t.volume.rows, onAddress p v → w.admits (some v.2.time)) ∧
      SideOwn t w p p.1.token0 ∧ SideOwn t w p p.1.token1 ∧
      ∃ price0 price1, price t klyTokenId p.1.token0 = some price0 ∧
        price t klyTokenId p.1.token1 = some price1 ∧
        (klyusd = 0 ∨ price0 = 1 ∨ price0 = 0 ∧ price1 = 0) := by
  have hhas0 : hasToken p p.1.token0 := by simp [hasToken]
  have hhas1 : hasToken p p.1.token1 := by simp [hasToken]
  have hvol0 (hown : SideOwn t w p p.1.token0) :
      (volumeOf t klyTokenId klyusd w p.1.token0).map TokenVolume.priceUSD =
        some (priceUSD t klyTokenId klyusd p.1.token0) := by
    obtain ⟨tok, htok, heq⟩ := t.registered p (List.mem_filter.mp hp).1 _ hhas0
    rw [← heq] at hown ⊢
    rw [volumeOf_of_traded htok hown.traded]
    rfl
  have hside0 := @sideRight_iff t klyTokenId klyusd w p _ hp hhas0
    (volumeOf t klyTokenId klyusd w p.1.token0)
  have hside1 := @sideRight_iff t klyTokenId klyusd w p _ hp hhas1
    (volumeOf t klyTokenId klyusd w p.1.token0)
  rw [← prices_right_iff]
  constructor
  · rintro ⟨h0, h1, hcount⟩
    obtain ⟨hown0, hprice0⟩ := hside0.mp h0
    obtain ⟨hown1, hprice1⟩ := hside1.mp h1
    rw [hvol0 hown0] at hprice0 hprice1
    exact ⟨length_swaps_eq_iff.mp hcount, hown0, hown1, hprice0, hprice1⟩
  · rintro ⟨hcount, hown0, hown1, hprice0, hprice1⟩
    rw [← hvol0 hown0] at hprice0 hprice1
    exact ⟨hside0.mpr ⟨hown0, by rwa [← hvol0 hown0]⟩, hside1.mpr ⟨hown1, hprice1⟩,
      length_swaps_eq_iff.mpr hcount⟩

end Sides

/-! ### When the figures are right -/

/-- All pools are answered once, with figures of their own. -/
def PoolsRight (t : DexTables) (klyTokenId : TokenID) (klyusdprice : Option ℚ)
    (order : String → Bool → PoolFigures → PoolFigures → Bool) (params : PoolsParams) : Prop :=
  ∃ klyusd response, klyusdprice = some klyusd ∧
    getPools t klyTokenId klyusdprice order params = .ok response ∧
    (response.data.map PoolFigures.pool).Perm t.pools ∧
    ∀ f ∈ response.data, FiguresRight t klyTokenId klyusd params.window f

/-- All pools are asked for. -/
theorem getPools_all (t : DexTables) (klyTokenId : TokenID) (klyusd : ℚ)
    (order : String → Bool → PoolFigures → PoolFigures → Bool) (w : Window) (offset : Option ℤ)
    (sortBy sortOrder : Option String) :
    getPools t klyTokenId (some klyusd) order ⟨none, ⟨offset, some (-1)⟩, w, sortBy, sortOrder⟩ =
      .ok (⟨(t.pools.map (poolFigures t klyTokenId klyusd w)).mergeSort
        (order (poolSortBy sortBy) (sortOrder = some "asc")),
        ((t.pools.map (poolFigures t klyTokenId klyusd w)).mergeSort
          (order (poolSortBy sortBy) (sortOrder = some "asc"))).length,
        PageParams.offsetOr ⟨offset, some (-1)⟩, t.pool.rows.length / 2⟩) := by
  have hterm : searchTerm none = "" := rfl
  have hall : t.pools.filter (poolMatches "") = t.pools :=
    List.filter_eq_self.mpr fun p _ => rfl
  simp only [getPools, hterm, poolRows_eq, hall]
  rfl

/-- **The figures of all pools are right** if and only if the price of KLY is known and, for each
pool, all its swaps lie in the window, other pools with its tokens add nothing, there is a swap in
the window and a locked amount for each token, and the prices do not show which is taken. -/
theorem pools_right_iff (t : DexTables) (klyTokenId : TokenID) (klyusdprice : Option ℚ)
    (order : String → Bool → PoolFigures → PoolFigures → Bool) (w : Window) (offset : Option ℤ)
    (sortBy sortOrder : Option String) :
    PoolsRight t klyTokenId klyusdprice order
      ⟨none, ⟨offset, some (-1)⟩, w, sortBy, sortOrder⟩ ↔
      ∃ klyusd, klyusdprice = some klyusd ∧ ∀ p ∈ t.pools,
        (∀ v ∈ t.volume.rows, onAddress p v → w.admits (some v.2.time)) ∧
        SideOwn t w p p.1.token0 ∧ SideOwn t w p p.1.token1 ∧
        ∃ price0 price1, price t klyTokenId p.1.token0 = some price0 ∧
          price t klyTokenId p.1.token1 = some price1 ∧
          (klyusd = 0 ∨ price0 = 1 ∨ price0 = 0 ∧ price1 = 0) := by
  constructor
  · rintro ⟨klyusd, response, rfl, hresponse, -, hright⟩
    obtain rfl := Except.ok.inj ((getPools_all ..).symm.trans hresponse)
    exact ⟨klyusd, rfl, fun p hp => (figuresRight_iff hp).mp
      (hright _ (List.mem_mergeSort.mpr (List.mem_map_of_mem hp)))⟩
  · rintro ⟨klyusd, rfl, hcond⟩
    refine ⟨klyusd, _, rfl, getPools_all .., ?_, ?_⟩
    · refine ((List.mergeSort_perm _ _).map _).trans ?_
      rw [List.map_map]
      exact List.Perm.of_eq (List.map_id _)
    · intro f hf
      obtain ⟨p, hp, rfl⟩ := List.mem_map.mp (List.mem_mergeSort.mp hf)
      exact (figuresRight_iff hp).mpr (hcond p hp)

/-- The second token costs three USD, and six are answered. -/
theorem figures_onePool : ¬ PoolsRight onePool "kly" (some 1) (fun _ _ _ _ => true)
    ⟨none, ⟨none, some (-1)⟩, ⟨none, none⟩, none, none⟩ := by
  rintro ⟨klyusd, response, hprice, hresponse, -, hright⟩
  obtain rfl := Option.some.inj hprice
  obtain rfl := Except.ok.inj ((getPools_all ..).symm.trans hresponse)
  have hp : (⟨"a", "b", 3000⟩, { poolAddress := "pool" }) ∈ onePool.pools := by decide
  obtain ⟨-, -, -, price0, price1, h0, h1, hprices⟩ := (figuresRight_iff hp).mp
    (hright _ (List.mem_mergeSort.mpr (List.mem_map_of_mem hp)))
  have h0' : price onePool "kly" "a" = some 2 := by decide
  obtain rfl := Option.some.inj (h0'.symm.trans h0)
  norm_num at hprices

end DexQuery

end SwaptoshiService
