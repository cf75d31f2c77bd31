import Mathlib.Algebra.BigOperators.Group.List.Basic
import Mathlib.Data.Rat.Defs
import SwaptoshiService.Framework.NumericText
import SwaptoshiService.Indexer.Env
import SwaptoshiService.Lib.Aggregate
import SwaptoshiService.Lib.Buffer
import SwaptoshiService.Lib.Like
import SwaptoshiService.Lib.Paging

/-!
# The tables of the exchange, as queries see them

The queries of `dataService/dex/methods` join the tables that the exchange is indexed in. Every
table has a key; what indexing keeps besides (`createPool` and genesis indexing store a pool once
for each orientation, with its two tokens registered and a swap only in a pool that is stored) is
part of `DexTables`.

Two subqueries are shared by several queries: `token_volume`, the swaps of a window summed up for
**each token**, over all pools of the token, and `token_tvl`, the locked amounts of each token.
Numbers are exact here, where the database computes with doubles after a `POWER`. The subqueries
select columns that their groups do not determine, too; the database is taken to accept that.
-/

namespace SwaptoshiService

namespace DexQuery

open Aggregate Join

/-! ### Tables -/

/-- A table with its primary key. -/
structure Table (K R : Type) where
  rows : List (K × R)
  nodup : (rows.map Prod.fst).Nodup

/-- The row of a key. -/
def Table.find {K R : Type} [DecidableEq K] (t : Table K R) (k : K) : Option (K × R) :=
  t.rows.find? fun row => row.1 = k

/-- The rows of one orientation. -/
def notInverted (rows : List (PoolKey × PoolRow)) : List (PoolKey × PoolRow) :=
  rows.filter fun p => !p.2.inverted

/-- A pool has the token. -/
def hasToken (p : PoolKey × PoolRow) (tokenId : TokenID) : Bool :=
  tokenId = p.1.token0 || tokenId = p.1.token1

structure DexTables where
  pool : Table PoolKey PoolRow
  volume : Table (ℕ × ℕ) VolumeRow
  tvl : Table (TxID × ℕ) TVLRow
  position : Table String PositionRow
  token : Table TokenID TokenRow
  lastPrice : Table TokenID LastPriceRow
  tokenMetadata : Table TokenID TokenMetadataRow
  tokenFactory : Table TokenID TokenFactoryRow
  /-- Each pool has its own address. -/
  addresses : ((notInverted pool.rows).map fun p => p.2.poolAddress).Nodup
  tokens_ne : ∀ p ∈ pool.rows, p.1.token0 ≠ p.1.token1
  registered : ∀ p ∈ pool.rows, ∀ tokenId, hasToken p tokenId →
    ∃ row ∈ token.rows, row.1 = tokenId
  /-- The other orientation of a pool is stored, too. -/
  oriented : ∀ p ∈ pool.rows, ∃ q ∈ pool.rows, q.1 = ⟨p.1.token1, p.1.token0, p.1.fee⟩ ∧
    q.2.inverted = !p.2.inverted ∧ q.2.poolAddress = p.2.poolAddress ∧ q.2.created = p.2.created
  swapped : ∀ v ∈ volume.rows, ∃ p ∈ notInverted pool.rows, p.2.poolAddress = v.2.poolAddress

/-- The pools, once each. -/
def DexTables.pools (t : DexTables) : List (PoolKey × PoolRow) := notInverted t.pool.rows

/-! ### Windows and texts -/

/-- Why a request fails. -/
inductive QueryError
  /-- `klyusdprice.current` is read where `last_price` has no row of KLY. -/
  | undefinedPrice
  | unknownColumn (column : String)
  /-- A negative `LIMIT` or `OFFSET`. -/
  | syntaxError
  deriving DecidableEq

/-- The parameters `start` and `end`. -/
structure Window where
  start : Option ℤ
  «end» : Option ℤ

/-- `time >= start AND time <= end`, as far as they are given; `NULL` satisfies neither. -/
def Window.admits (w : Window) (time : Option ℕ) : Bool :=
  ((w.start.filter (· ≠ 0)).all fun s => time.any fun n : ℕ => decide (s ≤ (n : ℤ))) &&
    (w.end.filter (· ≠ 0)).all fun e => time.any fun n : ℕ => decide ((n : ℤ) ≤ e)

/-- The parameters `offset` and `limit`. -/
structure PageParams where
  offset : Option ℤ
  limit : Option ℤ

/-- `params.offset || 0` -/
def PageParams.offsetOr (page : PageParams) : ℤ := (page.offset.filter (· ≠ 0)).getD 0

/-- `params.limit || 10` -/
def PageParams.limitOr (page : PageParams) : ℤ := (page.limit.filter (· ≠ 0)).getD 10

/-- The rows that `LIMIT` and `OFFSET` leave; a limit of -1 leaves them all. -/
def paged {R : Type} (page : PageParams) (rows : List R) : Except QueryError (List R) :=
  if page.limit = some (-1) then .ok rows
  else if page.limitOr < 0 ∨ page.offsetOr < 0 then .error .syntaxError
  else .ok (Paging.slice page.offsetOr.toNat page.limitOr.toNat rows)

/-- The answer of a list. -/
structure ListResponse (R : Type) where
  data : List R
  count : ℕ
  offset : ℤ
  total : ℚ

def respond {R : Type} (page : PageParams) (total : ℚ) (rows : List R) :
    Except QueryError (ListResponse R) := do
  let data ← paged page rows
  return ⟨data, data.length, page.offsetOr, total⟩

/-- `params.search ? params.search.trim() : ''` -/
def searchTerm (search : Option String) : String :=
  String.ofList (trim (search.getD "").toList)

/-- `text LIKE '%searchTerm%'`; the term has no quotes and no backslashes. -/
def likeTerm (term text : String) : Bool := Like.like text ("%" ++ term ++ "%")

/-- `CONCAT(v.height, '_', v.index)` -/
def swapId (k : ℕ × ℕ) : String := toString k.1 ++ "_" ++ toString k.2

theorem swapId_injective : Function.Injective swapId := by
  have hdigits (n : ℕ) : '_' ∉ (toString n).toList := by
    have htext : (toString n).toList = Nat.toDigits 10 n := Nat.toList_repr
    intro hmem
    rw [htext] at hmem
    exact absurd (Nat.isDigit_of_mem_toDigits (by decide) (by decide) hmem) (by decide)
  rintro ⟨h, i⟩ ⟨h', i'⟩ heq
  have hlist := congrArg String.toList heq
  simp only [swapId, String.toList_append] at hlist
  have hsep : "_".toList = ['_'] := rfl
  rw [hsep, List.append_assoc, List.append_assoc] at hlist
  obtain ⟨hheight, hindex⟩ := append_separator_inj (hdigits h) (hdigits h') hlist
  rw [toString_nat_injective (String.toList_injective hheight),
    toString_nat_injective (String.toList_injective hindex)]

/-- A product with `NULL`. -/
def mul (x y : Option ℚ) : Option ℚ := x.bind fun a => y.map fun b => a * b

/-! ### Prices -/

section Prices

variable (t : DexTables) (klyTokenId : TokenID) (klyusd : ℚ)

/-- `CASE WHEN t.tokenId = klyTokenId THEN 1 ELSE lp.current END` -/
def casePrice (tokenId : TokenID) (lp : Option (TokenID × LastPriceRow)) : Option ℚ :=
  if tokenId = klyTokenId then some 1 else lp.map fun row => row.2.current

/-- The price of a token in KLY. -/
def price (tokenId : TokenID) : Option ℚ := casePrice klyTokenId tokenId (t.lastPrice.find tokenId)

/-- The price of a token in USD, 0 when there is none. -/
def priceUSD (tokenId : TokenID) : ℚ :=
  ((price t klyTokenId tokenId).map fun p => p * klyusd).getD 0

end Prices

/-! ### Volume by token -/

/-- A row of `registered_dex_token t JOIN pool p LEFT JOIN volume v`. -/
structure Traded where
  token : TokenID × TokenRow
  pool : PoolKey × PoolRow
  swap : Option ((ℕ × ℕ) × VolumeRow)

/-- `CASE WHEN p.token0 = t.tokenId THEN ABS(v.amount0) ELSE ABS(v.amount1) END` -/
def amountOf (tokenId : TokenID) (p : PoolKey × PoolRow) (v : (ℕ × ℕ) × VolumeRow) : ℚ :=
  if p.1.token0 = tokenId then v.2.amount0.natAbs else v.2.amount1.natAbs

/-- `CASE WHEN p.token0 = t.tokenId THEN v.feeGrowth0 ELSE v.feeGrowth1 END` -/
def feeGrowthOf (tokenId : TokenID) (p : PoolKey × PoolRow) (v : (ℕ × ℕ) × VolumeRow) : ℚ :=
  if p.1.token0 = tokenId then v.2.feeGrowth0 else v.2.feeGrowth1

/-- `p.poolAddress = v.poolAddress` -/
def onAddress (p : PoolKey × PoolRow) (v : (ℕ × ℕ) × VolumeRow) : Bool :=
  p.2.poolAddress = v.2.poolAddress

def Traded.time (r : Traded) : Option ℕ := r.swap.map fun v => v.2.time

/-- The rows for one token. -/
def tradedOf (t : DexTables) (tok : TokenID × TokenRow) : List Traded :=
  (t.pools.filter fun p => hasToken p tok.1).flatMap fun p =>
    (partners onAddress t.volume.rows p).map fun v => ⟨tok, p, v⟩

def tradedRows (t : DexTables) : List Traded := t.token.rows.flatMap (tradedOf t)

/-- A row of `token_volume`. -/
structure TokenVolume where
  tokenId : TokenID
  symbol : String
  decimal : ℕ
  logo : Option String
  swapCount : ℕ
  volume : Option ℚ
  feeGrowth : Option ℚ
  price : Option ℚ
  priceUSD : ℚ

/-- The columns of `token_volume` for a group. -/
def volumeOfGroup (klyTokenId : TokenID) (klyusd : ℚ)
    (g : (Traded × Option (TokenID × LastPriceRow)) ×
      List (Traded × Option (TokenID × LastPriceRow))) : TokenVolume :=
  let tok := g.1.1.token
  { tokenId := tok.1
    symbol := tok.2.symbol
    decimal := tok.2.decimal
    logo := tok.2.logo
    swapCount := countDistinct (g.2.map fun r => r.1.swap.map fun v => swapId v.1)
    volume := (sum (g.2.map fun r => r.1.swap.map (amountOf tok.1 r.1.pool))).map
      fun s => s / 10 ^ tok.2.decimal
    feeGrowth := (sum (g.2.map fun r => r.1.swap.map (feeGrowthOf tok.1 r.1.pool))).map
      fun s => s / 10 ^ tok.2.decimal
    price := casePrice klyTokenId tok.1 g.1.2
    priceUSD := ((casePrice klyTokenId tok.1 g.1.2).map fun p => p * klyusd).getD 0 }

/-- `token_volume`, with `last_price` joined. -/
def tokenVolume (t : DexTables) (klyTokenId : TokenID) (klyusd : ℚ) (w : Window) :
    List TokenVolume :=
  (groupBy (fun r => r.1.token.1)
    ((leftJoin (fun r lp => r.token.1 = lp.1) t.lastPrice.rows (tradedRows t)).filter fun r =>
      w.admits r.1.time)).map (volumeOfGroup klyTokenId klyusd)

/-! ### Locked amounts by token -/

/-- A row of `token_tvl`. -/
structure TokenTvl where
  tokenId : TokenID
  amount : Option ℚ

/-- `token_tvl`; the statistics restrict it to the window. -/
def tokenTvl (t : DexTables) (w : Window) : List TokenTvl :=
  (groupBy (fun r => r.1.2.tokenId)
    ((leftJoin (fun r tok => tok.1 = r.2.tokenId) t.token.rows t.tvl.rows).filter fun r =>
      w.admits (some r.1.2.time))).map fun g =>
    { tokenId := g.1.1.2.tokenId
      amount := (sum (g.2.map fun r => some (r.1.2.amount : ℚ))).bind fun s =>
        g.1.2.map fun tok => s / 10 ^ tok.2.decimal }

/-! ### The row of a token -/

section Rows

variable {t : DexTables} {w : Window} {klyTokenId : TokenID} {klyusd : ℚ}

/-- The swaps of a pool in the window. -/
def swaps (t : DexTables) (w : Window) (p : PoolKey × PoolRow) : List ((ℕ × ℕ) × VolumeRow) :=
  t.volume.rows.filter fun v => onAddress p v && w.admits (some v.2.time)

/-- The joined rows of a token in the window. -/
def windowOf (t : DexTables) (w : Window) (tok : TokenID × TokenRow) : List Traded :=
  (tradedOf t tok).filter fun r => w.admits r.time

/-- The swaps of a token in the window, with its pools. -/
def tokenSwaps {V : Type} (t : DexTables) (w : Window) (tokenId : TokenID)
    (f : PoolKey × PoolRow → (ℕ × ℕ) × VolumeRow → V) : List V :=
  (t.pools.filter fun p => hasToken p tokenId).flatMap fun p => (swaps t w p).map (f p)

/-- The swaps that a pool is joined with are its swaps. -/
theorem filterMap_partners (p : PoolKey × PoolRow) :
    ((partners onAddress t.volume.rows p).filter fun v => w.admits (v.map fun v => v.2.time)).filterMap
      id = swaps t w p := by
  have hswaps : swaps t w p =
      (t.volume.rows.filter (onAddress p)).filter fun v => w.admits (some v.2.time) := by
    rw [List.filter_filter]
    exact List.filter_congr fun v _ => Bool.and_comm _ _
  rw [hswaps, partners]
  split
  · rename_i hempty
    rw [List.isEmpty_iff.mp hempty]
    simp [List.filter_cons]
  · rw [List.filter_map, List.filterMap_map]
    exact List.filterMap_some

/-- The amounts of the joined rows of a token. -/
theorem values_windowOf {V : Type} (tok : TokenID × TokenRow)
    (f : PoolKey × PoolRow → (ℕ × ℕ) × VolumeRow → V) :
    values ((windowOf t w tok).map fun r => r.swap.map (f r.pool)) = tokenSwaps t w tok.1 f := by
  rw [windowOf, tradedOf, tokenSwaps, values, List.filter_flatMap, List.map_flatMap,
    List.filterMap_flatMap]
  refine List.flatMap_congr fun p _ => ?_
  rw [← filterMap_partners, List.filter_map, List.map_map, List.filterMap_map, List.map_filterMap]
  rfl

/-- The rows of `token_volume` for one token, before they are summed up. -/
theorem filter_joined {tok : TokenID × TokenRow} (htok : tok ∈ t.token.rows) :
    (((leftJoin (fun r lp => r.token.1 = lp.1) t.lastPrice.rows (tradedRows t)).filter fun r =>
      w.admits r.1.time).filter fun r => r.1.token.1 = tok.1) =
      (windowOf t w tok).map fun r => (r, t.lastPrice.find tok.1) := by
  have htag : ∀ c ∈ t.token.rows, ∀ r ∈ tradedOf t c, r.token.1 = c.1 := by
    intro c _ r hr
    obtain ⟨p, -, hr⟩ := List.mem_flatMap.mp hr
    obtain ⟨v, -, rfl⟩ := List.mem_map.mp hr
    rfl
  have htoken : ∀ r ∈ windowOf t w tok, r.token.1 = tok.1 :=
    fun r hr => htag tok htok r (List.mem_filter.mp hr).1
  have hwindow : windowOf t w tok =
      ((tradedRows t).filter fun r => w.admits r.time).filter fun r => r.token.1 = tok.1 := by
    rw [List.filter_filter, windowOf, ← filter_flatMap_of_nodup htag t.token.nodup htok,
      List.filter_filter, tradedRows]
    exact List.filter_congr fun r _ => Bool.and_comm _ _
  rw [leftJoin_of_nodup (k := fun r : Traded => r.token.1) t.lastPrice.nodup
    fun r lp => by simp only [eq_comm]]
  rw [List.filter_map, List.filter_map]
  refine (congrArg (List.map _) hwindow.symm).trans (List.map_congr_left fun r hr => ?_)
  rw [htoken r hr]
  rfl

/-- The row of a token in `token_volume`. -/
def volumeRow (t : DexTables) (klyTokenId : TokenID) (klyusd : ℚ) (w : Window)
    (tok : TokenID × TokenRow) : TokenVolume where
  tokenId := tok.1
  symbol := tok.2.symbol
  decimal := tok.2.decimal
  logo := tok.2.logo
  swapCount := countDistinct ((windowOf t w tok).map fun r => r.swap.map fun v => swapId v.1)
  volume := (sum ((windowOf t w tok).map fun r => r.swap.map (amountOf tok.1 r.pool))).map
    fun s => s / 10 ^ tok.2.decimal
  feeGrowth := (sum ((windowOf t w tok).map fun r => r.swap.map (feeGrowthOf tok.1 r.pool))).map
    fun s => s / 10 ^ tok.2.decimal
  price := price t klyTokenId tok.1
  priceUSD := priceUSD t klyTokenId klyusd tok.1

/-- The rows of a token in the window are rows of this token. -/
theorem token_of_mem_windowOf {tok : TokenID × TokenRow} {r : Traded} (h : r ∈ windowOf t w tok) :
    r.token = tok := by
  obtain ⟨p, -, hr⟩ := List.mem_flatMap.mp (List.mem_filter.mp h).1
  obtain ⟨v, -, rfl⟩ := List.mem_map.mp hr
  rfl

theorem find?_tokenVolume {tok : TokenID × TokenRow} (htok : tok ∈ t.token.rows) :
    ((tokenVolume t klyTokenId klyusd w).find? fun v => v.tokenId = tok.1) =
      if windowOf t w tok = [] then none else some (volumeRow t klyTokenId klyusd w tok) := by
  have hgroup := find?_groupBy (fun r : Traded × Option (TokenID × LastPriceRow) => r.1.token.1)
    ((leftJoin (fun r lp => r.token.1 = lp.1) t.lastPrice.rows (tradedRows t)).filter fun r =>
      w.admits r.1.time) tok.1
  rw [filter_joined htok, List.head?_map] at hgroup
  rw [tokenVolume, List.find?_map]
  refine (congrArg _ hgroup).trans ?_
  cases hwindow : windowOf t w tok with
  | nil => rfl
  | cons r rs =>
    have hr : r.token = tok := token_of_mem_windowOf (t := t) (w := w) (by
      rw [hwindow]
      exact List.mem_cons_self)
    rw [if_neg (List.cons_ne_nil _ _), List.head?_cons, Option.map_some, Option.map_some,
      Option.map_some, volumeOfGroup, volumeRow, hwindow]
    simp only [hr, List.map_map, price, priceUSD]
    rfl

theorem nodup_tokenVolume : ((tokenVolume t klyTokenId klyusd w).map TokenVolume.tokenId).Nodup := by
  rw [tokenVolume, List.map_map]
  exact nodup_groupBy (fun r : Traded × Option (TokenID × LastPriceRow) => r.1.token.1) _

theorem tokenSwaps_eq_nil_iff {V : Type} {tokenId : TokenID}
    {f : PoolKey × PoolRow → (ℕ × ℕ) × VolumeRow → V} : tokenSwaps t w tokenId f = [] ↔
      ∀ p ∈ t.pools, hasToken p tokenId → swaps t w p = [] := by
  simp [tokenSwaps, List.flatMap_eq_nil_iff, List.mem_filter]

/-- The volume of a token: its swaps in the window, over all its pools. -/
theorem volume_volumeRow (tok : TokenID × TokenRow) :
    (volumeRow t klyTokenId klyusd w tok).volume =
      if ∀ p ∈ t.pools, hasToken p tok.1 → swaps t w p = [] then none
      else some ((tokenSwaps t w tok.1 (amountOf tok.1)).sum / 10 ^ tok.2.decimal) := by
  simp only [volumeRow, sum, values_windowOf, tokenSwaps_eq_nil_iff]
  split <;> rfl

theorem feeGrowth_volumeRow (tok : TokenID × TokenRow) :
    (volumeRow t klyTokenId klyusd w tok).feeGrowth =
      if ∀ p ∈ t.pools, hasToken p tok.1 → swaps t w p = [] then none
      else some ((tokenSwaps t w tok.1 (feeGrowthOf tok.1)).sum / 10 ^ tok.2.decimal) := by
  simp only [volumeRow, sum, values_windowOf, tokenSwaps_eq_nil_iff]
  split <;> rfl

/-- Without bounds everything is admitted. -/
theorem admits_of_none (h : w.admits none = true) (time : Option ℕ) : w.admits time = true := by
  rw [Window.admits, Bool.and_eq_true] at h ⊢
  refine ⟨?_, ?_⟩
  · cases hstart : w.start.filter (· ≠ 0) with
    | none => rfl
    | some s =>
      rw [hstart] at h
      exact absurd h.1 (by simp)
  · cases hend : w.end.filter (· ≠ 0) with
    | none => rfl
    | some e =>
      rw [hend] at h
      exact absurd h.2 (by simp)

/-- A token has no row in `token_volume` if none of its pools has a swap in the window; without
bounds, if it has no pool. -/
theorem windowOf_eq_nil_iff {tok : TokenID × TokenRow} : windowOf t w tok = [] ↔
    ∀ p ∈ t.pools, hasToken p tok.1 → w.admits none = false ∧ swaps t w p = [] := by
  have hpool : ∀ p, (((partners onAddress t.volume.rows p).map fun v => (⟨tok, p, v⟩ : Traded)).filter
      fun r => w.admits r.time) = [] ↔ w.admits none = false ∧ swaps t w p = [] := by
    intro p
    rw [List.filter_map, List.map_eq_nil_iff]
    constructor
    · intro h
      have hswaps : swaps t w p = [] := by
        rw [← filterMap_partners]
        exact congrArg (List.filterMap id) h
      refine ⟨?_, hswaps⟩
      by_contra hnone
      have hall := admits_of_none (Bool.eq_true_of_not_eq_false hnone)
      have hkeep : partners onAddress t.volume.rows p = [] :=
        (List.filter_eq_self.mpr fun v _ => hall (Traded.time ⟨tok, p, v⟩)).symm.trans h
      rw [partners] at hkeep
      split at hkeep
      · exact absurd hkeep (List.cons_ne_nil _ _)
      · rename_i hsome
        rw [List.map_eq_nil_iff] at hkeep
        rw [hkeep] at hsome
        exact hsome rfl
    · rintro ⟨hnone, hswaps⟩
      rw [← filterMap_partners] at hswaps
      rw [List.filter_eq_nil_iff]
      rintro (_ | v) hv hadmits
      · exact absurd hadmits (by simp [Traded.time, hnone])
      · have hmem : v ∈ ((partners onAddress t.volume.rows p).filter fun v =>
            w.admits (v.map fun v => v.2.time)).filterMap id :=
          List.mem_filterMap.mpr ⟨some v, List.mem_filter.mpr ⟨hv, hadmits⟩, rfl⟩
        rw [hswaps] at hmem
        exact List.not_mem_nil hmem
  rw [windowOf, tradedOf, List.filter_flatMap, List.flatMap_eq_nil_iff]
  simp only [hpool, List.mem_filter]
  exact ⟨fun h p hp hhas => h p ⟨hp, hhas⟩, fun h p hp => h p hp.1 hp.2⟩

/-! ### The locked amount of a token -/

/-- The locked amounts of a token in the window. -/
def tvlRows (t : DexTables) (w : Window) (tokenId : TokenID) : List ((TxID × ℕ) × TVLRow) :=
  t.tvl.rows.filter fun r => r.2.tokenId = tokenId && w.admits (some r.2.time)

def lockedOf (r : (TxID × ℕ) × TVLRow) : ℚ := r.2.amount

theorem find?_tokenTvl {tok : TokenID × TokenRow} (htok : tok ∈ t.token.rows) :
    ((tokenTvl t w).find? fun v => v.tokenId = tok.1) =
      if tvlRows t w tok.1 = [] then none
      else some ⟨tok.1, some (((tvlRows t w tok.1).map lockedOf).sum / 10 ^ tok.2.decimal)⟩ := by
  -- The rows of a token are joined with its row, which is the only one with its id.
  have hjoined : (((leftJoin (fun r tok => tok.1 = r.2.tokenId) t.token.rows t.tvl.rows).filter
      fun r => w.admits (some r.1.2.time)).filter fun r => r.1.2.tokenId = tok.1) =
        (tvlRows t w tok.1).map fun r => (r, some tok) := by
    rw [leftJoin_of_nodup (k := fun r : (TxID × ℕ) × TVLRow => r.2.tokenId) t.token.nodup
      fun r tok => rfl]
    rw [List.filter_map, List.filter_map, List.filter_filter]
    refine List.map_congr_left fun r hr => ?_
    have hkey : r.2.tokenId = tok.1 := by
      have hr := (List.mem_filter.mp hr).2
      rw [Bool.and_eq_true] at hr
      exact of_decide_eq_true hr.1
    rw [hkey, find?_of_nodup t.token.nodup htok]
  have hgroup := find?_groupBy
    (fun r : ((TxID × ℕ) × TVLRow) × Option (TokenID × TokenRow) => r.1.2.tokenId)
    ((leftJoin (fun r tok => tok.1 = r.2.tokenId) t.token.rows t.tvl.rows).filter
      fun r => w.admits (some r.1.2.time)) tok.1
  rw [hjoined, List.head?_map] at hgroup
  rw [tokenTvl, List.find?_map]
  refine (congrArg _ hgroup).trans ?_
  cases hrows : tvlRows t w tok.1 with
  | nil => rfl
  | cons r rs =>
    have hr : r ∈ tvlRows t w tok.1 := hrows ▸ List.mem_cons_self
    have hkey : r.2.tokenId = tok.1 := by
      have hr := (List.mem_filter.mp hr).2
      rw [Bool.and_eq_true] at hr
      exact of_decide_eq_true hr.1
    have hvalues : values (((r :: rs).map fun r => (r, some tok)).map fun r =>
        some (r.1.2.amount : ℚ)) = (r :: rs).map lockedOf := by
      rw [values, List.map_map, List.filterMap_map]
      exact congrFun List.filterMap_eq_map' _
    rw [if_neg (List.cons_ne_nil _ _), List.head?_cons, Option.map_some, Option.map_some,
      Option.map_some, sum, hvalues, if_neg (List.map_eq_nil_iff.not.mpr (List.cons_ne_nil _ _)),
      hkey]
    rfl

theorem nodup_tokenTvl : ((tokenTvl t w).map TokenTvl.tokenId).Nodup := by
  rw [tokenTvl, List.map_map]
  exact nodup_groupBy
    (fun r : ((TxID × ℕ) × TVLRow) × Option (TokenID × TokenRow) => r.1.2.tokenId) _

end Rows

/-! ### Tables with one pool -/

theorem registered_onePool : ∀ p ∈ [((⟨"a", "b", 3000⟩, { poolAddress := "pool" }) :
      PoolKey × PoolRow), (⟨"b", "a", 3000⟩, { poolAddress := "pool", inverted := true })],
    ∀ tokenId, hasToken p tokenId → ∃ row ∈ [(("a", { symbol := "A" }) : TokenID × TokenRow),
      ("b", { symbol := "B" })], row.1 = tokenId := by
  intro p hp tokenId hhas
  have htoken : tokenId = "a" ∨ tokenId = "b" := by
    rw [hasToken, Bool.or_eq_true, decide_eq_true_eq, decide_eq_true_eq] at hhas
    rcases List.mem_cons.mp hp with rfl | hp
    · exact hhas
    · rw [List.mem_singleton.mp hp] at hhas
      exact hhas.symm
  rcases htoken with rfl | rfl
  · exact ⟨_, List.mem_cons_self, rfl⟩
  · exact ⟨_, List.mem_cons_of_mem _ List.mem_cons_self, rfl⟩

/-- A pool of two tokens, with one swap. -/
def onePool : DexTables where
  pool := ⟨[(⟨"a", "b", 3000⟩, { poolAddress := "pool" }),
    (⟨"b", "a", 3000⟩, { poolAddress := "pool", inverted := true })], by decide⟩
  volume := ⟨[((7, 0), { poolAddress := "pool", time := 50, amount0 := 4, amount1 := -5 })],
    by decide⟩
  tvl := ⟨[], by decide⟩
  position := ⟨[], by decide⟩
  token := ⟨[("a", { symbol := "A" }), ("b", { symbol := "B" })], by decide⟩
  lastPrice := ⟨[("a", { current := 2 }), ("b", { current := 3 })], by decide⟩
  tokenMetadata := ⟨[], by decide⟩
  tokenFactory := ⟨[], by decide⟩
  addresses := by decide
  tokens_ne := by decide
  registered := registered_onePool
  oriented := by decide
  swapped := by decide

end DexQuery

end SwaptoshiService
