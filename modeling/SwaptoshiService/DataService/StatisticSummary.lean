import Mathlib.Algebra.BigOperators.Ring.List
import SwaptoshiService.DataService.DexTables

/-!
# The summary of the exchange

`getDEXStatisticSummary` joins each registered token with its row of `token_volume` and the one of
`token_tvl`, both for the window, and adds up over the tokens. The price of a token is taken from
`token_volume`, so tokens without a row there do not count with what is locked of them, and a swap
is counted for **both tokens** of its pool.

`summary_right_iff` says when the summary is right: there is no swap in the window, and what is
left out is worth nothing. The volume, the fees and the number of pools are always right
(`totalVolumeUSD_eq`, `totalFeeGrowthUSD_eq`, `totalPoolCount_eq`).
-/

namespace SwaptoshiService

namespace DexQuery

open Aggregate Join

/-- The answer of `getDEXStatisticSummary`. -/
structure StatisticSummary where
  totalVolumeUSD : ℚ
  totalFeeGrowthUSD : ℚ
  swapCount : ℕ
  totalPoolCount : ℕ
  totalTvlUSD : ℚ

/-- A row of `registered_dex_token rdt LEFT JOIN ... AS vol LEFT JOIN ... AS vl`. -/
structure SummaryRow where
  rdt : TokenID × TokenRow
  vol : Option TokenVolume
  vl : Option TokenTvl

/-- The rows that are summed up. -/
def summaryRows (t : DexTables) (klyTokenId : TokenID) (klyusd : ℚ) (w : Window) :
    List SummaryRow :=
  t.token.rows.flatMap fun rdt =>
    (partners (fun rdt vol => vol.tokenId = rdt.1) (tokenVolume t klyTokenId klyusd w) rdt).flatMap
      fun vol => (partners (fun rdt vl => vl.tokenId = rdt.1) (tokenTvl t w) rdt).map fun vl =>
        ⟨rdt, vol, vl⟩

/-- `SELECT COUNT(DISTINCT poolAddress) FROM pool WHERE ...` -/
def poolCount (t : DexTables) (w : Window) : ℕ :=
  countDistinct ((t.pool.rows.filter fun p => w.admits (some p.2.created)).map fun p =>
    some p.2.poolAddress)

def getDEXStatisticSummary (t : DexTables) (klyTokenId : TokenID) (klyusdprice : Option ℚ)
    (w : Window) : Except QueryError StatisticSummary :=
  match klyusdprice with
  | none => .error .undefinedPrice
  | some klyusd =>
    let rows := summaryRows t klyTokenId klyusd w
    let priceUSD := fun r : SummaryRow => r.vol.map TokenVolume.priceUSD
    .ok {
      totalVolumeUSD := (sum (rows.map fun r =>
        mul (r.vol.bind TokenVolume.volume) (priceUSD r))).getD 0
      totalFeeGrowthUSD := (sum (rows.map fun r =>
        mul (r.vol.bind TokenVolume.feeGrowth) (priceUSD r))).getD 0
      swapCount := (sum (rows.map fun r => r.vol.map TokenVolume.swapCount)).getD 0
      totalPoolCount := poolCount t w
      totalTvlUSD := (sum (rows.map fun r => mul (r.vl.bind TokenTvl.amount) (priceUSD r))).getD 0 }

/-! ### What the summary is about -/

section Meaning

variable (t : DexTables) (klyTokenId : TokenID) (klyusd : ℚ) (w : Window)

/-- The swaps in the window. -/
def swapsIn : List ((ℕ × ℕ) × VolumeRow) := t.volume.rows.filter fun v => w.admits (some v.2.time)

/-- What the swaps of a token in the window amount to in USD. -/
def swappedUSD (f : TokenID → PoolKey × PoolRow → (ℕ × ℕ) × VolumeRow → ℚ)
    (tok : TokenID × TokenRow) : ℚ :=
  (tokenSwaps t w tok.1 (f tok.1)).sum / 10 ^ tok.2.decimal * priceUSD t klyTokenId klyusd tok.1

/-- What is locked of a token in the window, in USD. -/
def lockedUSD (tok : TokenID × TokenRow) : ℚ :=
  ((tvlRows t w tok.1).map lockedOf).sum / 10 ^ tok.2.decimal * priceUSD t klyTokenId klyusd tok.1

/-- Each swap and each pool is counted once, and each token with its price. -/
structure SummaryRight (s : StatisticSummary) : Prop where
  totalVolumeUSD : s.totalVolumeUSD =
    (t.token.rows.map (swappedUSD t klyTokenId klyusd w amountOf)).sum
  totalFeeGrowthUSD : s.totalFeeGrowthUSD =
    (t.token.rows.map (swappedUSD t klyTokenId klyusd w feeGrowthOf)).sum
  swapCount : s.swapCount = (swapsIn t w).length
  totalPoolCount : s.totalPoolCount = (t.pools.filter fun p => w.admits (some p.2.created)).length
  totalTvlUSD : s.totalTvlUSD = (t.token.rows.map (lockedUSD t klyTokenId klyusd w)).sum

/-- A token has a pool with a swap in the window, or without bounds just a pool. -/
def hasVolume (tokenId : TokenID) : Bool :=
  t.pools.any fun p => hasToken p tokenId && (w.admits none || !(swaps t w p).isEmpty)

end Meaning

/-! ### Sums over the tokens -/

section Sums

variable {t : DexTables} {klyTokenId : TokenID} {klyusd : ℚ} {w : Window}

theorem hasVolume_eq_false_iff {tok : TokenID × TokenRow} :
    hasVolume t w tok.1 = false ↔ windowOf t w tok = [] := by
  rw [windowOf_eq_nil_iff, hasVolume, List.any_eq_false]
  refine forall₂_congr fun p _ => ?_
  cases hasToken p tok.1 <;> simp

/-- Each token is joined with one row of each of the two tables. -/
theorem map_summaryRows {M : Type} (f : SummaryRow → M) :
    (summaryRows t klyTokenId klyusd w).map f = t.token.rows.map fun rdt =>
      f ⟨rdt, if hasVolume t w rdt.1 then some (volumeRow t klyTokenId klyusd w rdt) else none,
        if tvlRows t w rdt.1 = [] then none
        else some ⟨rdt.1, some (((tvlRows t w rdt.1).map lockedOf).sum / 10 ^ rdt.2.decimal)⟩⟩ := by
  rw [summaryRows, List.map_flatMap, List.map_eq_flatMap]
  refine List.flatMap_congr fun rdt hrdt => ?_
  rw [partners_of_nodup nodup_tokenVolume fun _ => rfl,
    partners_of_nodup nodup_tokenTvl fun _ => rfl, find?_tokenVolume hrdt, find?_tokenTvl hrdt,
    List.flatMap_singleton, List.map_singleton, List.map_singleton]
  cases hvolume : hasVolume t w rdt.1 with
  | false => rw [if_pos (hasVolume_eq_false_iff.mp hvolume), if_neg Bool.false_ne_true]
  | true =>
    rw [if_neg fun h => absurd (hasVolume_eq_false_iff.mpr h) (by simp [hvolume]), if_pos rfl]

/-- A sum over the swaps of each token, in USD. -/
theorem sum_swapped_eq (f : TokenID → PoolKey × PoolRow → (ℕ × ℕ) × VolumeRow → ℚ)
    (column : TokenVolume → Option ℚ)
    (hcolumn : ∀ tok, column (volumeRow t klyTokenId klyusd w tok) =
      if ∀ p ∈ t.pools, hasToken p tok.1 → swaps t w p = [] then none
      else some ((tokenSwaps t w tok.1 (f tok.1)).sum / 10 ^ tok.2.decimal)) :
    (sum ((summaryRows t klyTokenId klyusd w).map fun r =>
      mul (r.vol.bind column) (r.vol.map TokenVolume.priceUSD))).getD 0 =
        (t.token.rows.map (swappedUSD t klyTokenId klyusd w f)).sum := by
  rw [getD_sum, List.map_map, map_summaryRows]
  refine congrArg _ (List.map_congr_left fun tok _ => ?_)
  have hzero (hnone : ∀ p ∈ t.pools, hasToken p tok.1 → swaps t w p = []) :
      swappedUSD t klyTokenId klyusd w f tok = 0 := by
    rw [swappedUSD, tokenSwaps_eq_nil_iff.mpr hnone, List.sum_nil, zero_div, zero_mul]
  dsimp only [Function.comp_apply]
  cases hvolume : hasVolume t w tok.1 with
  | false =>
    rw [if_neg Bool.false_ne_true, hzero fun p hp hhas =>
      (windowOf_eq_nil_iff.mp (hasVolume_eq_false_iff.mp hvolume) p hp hhas).2]
    rfl
  | true =>
    rw [if_pos rfl, Option.bind_some, hcolumn]
    split
    · rename_i hnone
      rw [hzero hnone]
      rfl
    · rfl

/-- A swap belongs to one pool, which has two of the registered tokens. -/
theorem length_swaps_eq : (t.pools.map fun p => (swaps t w p).length).sum =
    (swapsIn t w).length := by
  have hpool : ∀ v ∈ t.volume.rows, (t.pools.countP fun p => onAddress p v) = 1 := by
    intro v hv
    obtain ⟨p, hp, haddress⟩ := t.swapped v hv
    have hone := filter_key_of_nodup t.addresses v.2.poolAddress
    rw [← haddress, find?_of_nodup t.addresses hp] at hone
    rw [List.countP_eq_length_filter]
    simp only [onAddress, ← haddress]
    exact congrArg List.length hone
  have hcount := sum_sum_filter onAddress (fun _ => 1) t.pools (swapsIn t w)
  have hlength (p : PoolKey × PoolRow) :
      (((swapsIn t w).filter (onAddress p)).map fun _ => 1).sum = (swaps t w p).length := by
    rw [List.map_const', List.sum_replicate_nat, mul_one, swapsIn, List.filter_filter]
    rfl
  simp only [hlength, mul_one] at hcount
  rw [hcount]
  refine (congrArg List.sum (List.map_congr_left (g := fun _ => 1) fun v hv =>
    hpool v (List.mem_filter.mp hv).1)).trans ?_
  rw [List.map_const', List.sum_replicate_nat, mul_one, swapsIn]

/-- The swaps of a token have IDs of their own. -/
theorem nodup_tokenSwaps (tokenId : TokenID) :
    (tokenSwaps t w tokenId fun _ v => swapId v.1).Nodup := by
  rw [tokenSwaps, List.nodup_flatMap]
  constructor
  · intro p _
    exact (nodup_map_comp swapId_injective t.volume.nodup).sublist (List.filter_sublist.map _)
  · have haddresses : t.pools.Pairwise fun p p' => p.2.poolAddress ≠ p'.2.poolAddress :=
      List.pairwise_map.mp t.addresses
    refine (haddresses.sublist List.filter_sublist).imp fun hne => ?_
    intro id hid hid'
    obtain ⟨v, hv, rfl⟩ := List.mem_map.mp hid
    obtain ⟨v', hv', heq⟩ := List.mem_map.mp hid'
    rw [swaps, List.mem_filter, Bool.and_eq_true] at hv hv'
    have hfind := find?_of_nodup t.volume.nodup hv'.1
    rw [swapId_injective heq, find?_of_nodup t.volume.nodup hv.1] at hfind
    obtain rfl := Option.some.inj hfind
    exact hne ((of_decide_eq_true hv.2.1).trans (of_decide_eq_true hv'.2.1).symm)

theorem swapCount_volumeRow (tok : TokenID × TokenRow) :
    (volumeRow t klyTokenId klyusd w tok).swapCount =
      ((t.pools.filter fun p => hasToken p tok.1).map fun p => (swaps t w p).length).sum := by
  have hlength := congrArg List.length (nodup_tokenSwaps (t := t) (w := w) tok.1).dedup
  rw [← values_windowOf tok fun _ v => swapId v.1] at hlength
  refine hlength.trans ?_
  rw [values_windowOf tok fun _ v => swapId v.1, tokenSwaps, List.length_flatMap]
  simp only [List.length_map]

theorem countP_hasToken {p : PoolKey × PoolRow} (hp : p ∈ t.pools) :
    (t.token.rows.countP fun tok => hasToken p tok.1) = 2 := by
  have hrow : p ∈ t.pool.rows := (List.mem_filter.mp hp).1
  have hor (l : List (TokenID × TokenRow)) : (l.countP fun tok => hasToken p tok.1) =
      (l.countP fun tok => tok.1 = p.1.token0) + l.countP fun tok => tok.1 = p.1.token1 := by
    induction l with
    | nil => rfl
    | cons tok l ih =>
      have hne := t.tokens_ne p hrow
      rw [List.countP_cons, List.countP_cons, List.countP_cons, ih, hasToken]
      by_cases h0 : tok.1 = p.1.token0
      · have h1 : tok.1 ≠ p.1.token1 := fun h1 => hne (h0.symm.trans h1)
        simp only [h0, decide_true, Bool.true_or, if_true, hne, decide_false, Bool.false_eq_true,
          if_false]
        omega
      · by_cases h1 : tok.1 = p.1.token1
        · simp only [h1, decide_true, Bool.or_true, if_true, hne.symm, decide_false,
            Bool.false_eq_true, if_false]
          omega
        · simp [h0, h1]
  have hone (tokenId : TokenID) (hhas : hasToken p tokenId) :
      (t.token.rows.countP fun tok => tok.1 = tokenId) = 1 := by
    obtain ⟨tok, htok, rfl⟩ := t.registered p hrow tokenId hhas
    rw [List.countP_eq_length_filter, filter_key_of_nodup t.token.nodup,
      find?_of_nodup t.token.nodup htok]
    rfl
  rw [hor, hone _ (by simp [hasToken]), hone _ (by simp [hasToken])]

/-- **Each swap is counted twice**, once for each of its tokens. -/
theorem swapCount_eq :
    (sum ((summaryRows t klyTokenId klyusd w).map fun r => r.vol.map TokenVolume.swapCount)).getD 0 =
      2 * (swapsIn t w).length := by
  have hcount := sum_sum_filter (fun tok p => hasToken p tok.1) (fun p => (swaps t w p).length)
    t.token.rows t.pools
  rw [getD_sum, List.map_map, map_summaryRows]
  calc _ = (t.token.rows.map fun tok =>
        ((t.pools.filter fun p => hasToken p tok.1).map fun p => (swaps t w p).length).sum).sum := by
        refine congrArg _ (List.map_congr_left fun tok _ => ?_)
        dsimp only [Function.comp_apply]
        cases hvolume : hasVolume t w tok.1 with
        | false =>
          have hnone := windowOf_eq_nil_iff.mp (hasVolume_eq_false_iff.mp hvolume)
          rw [if_neg Bool.false_ne_true]
          refine (List.sum_eq_zero fun n hn => ?_).symm
          obtain ⟨p, hp, rfl⟩ := List.mem_map.mp hn
          rw [List.mem_filter] at hp
          rw [(hnone p hp.1 hp.2).2, List.length_nil]
        | true => exact swapCount_volumeRow tok
    _ = (t.pools.map fun p => 2 * (swaps t w p).length).sum := by
        rw [hcount]
        exact congrArg _ (List.map_congr_left fun p hp => by rw [countP_hasToken hp])
    _ = 2 * (swapsIn t w).length := by rw [List.sum_map_mul_left, length_swaps_eq]

theorem totalVolumeUSD_eq {s : StatisticSummary}
    (h : getDEXStatisticSummary t klyTokenId (some klyusd) w = .ok s) :
    s.totalVolumeUSD = (t.token.rows.map (swappedUSD t klyTokenId klyusd w amountOf)).sum := by
  obtain rfl := Except.ok.inj h
  exact sum_swapped_eq amountOf TokenVolume.volume volume_volumeRow

theorem totalFeeGrowthUSD_eq {s : StatisticSummary}
    (h : getDEXStatisticSummary t klyTokenId (some klyusd) w = .ok s) :
    s.totalFeeGrowthUSD = (t.token.rows.map (swappedUSD t klyTokenId klyusd w feeGrowthOf)).sum := by
  obtain rfl := Except.ok.inj h
  exact sum_swapped_eq feeGrowthOf TokenVolume.feeGrowth feeGrowth_volumeRow

/-- Both orientations of a pool have its address. -/
theorem poolCount_eq : poolCount t w =
    (t.pools.filter fun p => w.admits (some p.2.created)).length := by
  have hvalues : values ((t.pool.rows.filter fun p => w.admits (some p.2.created)).map fun p =>
      some p.2.poolAddress) =
        (t.pool.rows.filter fun p => w.admits (some p.2.created)).map fun p => p.2.poolAddress := by
    rw [values, List.filterMap_map]
    exact congrFun List.filterMap_eq_map' _
  have hnodup : ((t.pools.filter fun p => w.admits (some p.2.created)).map fun p =>
      p.2.poolAddress).Nodup := t.addresses.sublist (List.filter_sublist.map _)
  rw [poolCount, countDistinct, hvalues,
    ← @List.length_map _ _ (t.pools.filter fun p => w.admits (some p.2.created))
      (fun p => p.2.poolAddress)]
  refine ((List.perm_ext_iff_of_nodup (List.nodup_dedup _) hnodup).mpr fun address => ?_).length_eq
  rw [List.mem_dedup]
  constructor
  · intro h
    obtain ⟨p, hp, rfl⟩ := List.mem_map.mp h
    obtain ⟨hrow, hadmits⟩ := List.mem_filter.mp hp
    cases hinverted : p.2.inverted with
    | false =>
      refine List.mem_map_of_mem (List.mem_filter.mpr ⟨List.mem_filter.mpr ⟨hrow, ?_⟩, hadmits⟩)
      rw [hinverted]
      rfl
    | true =>
      -- The other row of the pool has its address and its time.
      obtain ⟨q, hq, -, hother, haddress, hcreated⟩ := t.oriented p hrow
      rw [hinverted] at hother
      rw [← haddress]
      refine List.mem_map_of_mem (f := fun p : PoolKey × PoolRow => p.2.poolAddress)
        (List.mem_filter.mpr ⟨List.mem_filter.mpr ⟨hq, ?_⟩, ?_⟩)
      · rw [hother]
        rfl
      · rwa [hcreated]
  · intro h
    obtain ⟨p, hp, rfl⟩ := List.mem_map.mp h
    obtain ⟨hpool, hadmits⟩ := List.mem_filter.mp hp
    exact List.mem_map_of_mem (List.mem_filter.mpr ⟨(List.mem_filter.mp hpool).1, hadmits⟩)

/-- Only tokens with a row in `token_volume` count with what is locked of them. -/
theorem totalTvlUSD_add :
    (sum ((summaryRows t klyTokenId klyusd w).map fun r =>
      mul (r.vl.bind TokenTvl.amount) (r.vol.map TokenVolume.priceUSD))).getD 0 +
        ((t.token.rows.filter fun tok => !hasVolume t w tok.1).map
          (lockedUSD t klyTokenId klyusd w)).sum =
      (t.token.rows.map (lockedUSD t klyTokenId klyusd w)).sum := by
  have hsplit := sum_filter_add_sum_filter_not (fun tok => hasVolume t w tok.1)
    (lockedUSD t klyTokenId klyusd w) t.token.rows
  rw [getD_sum, List.map_map, map_summaryRows, ← hsplit,
    sum_filter fun tok : TokenID × TokenRow => hasVolume t w tok.1, add_left_inj]
  refine congrArg List.sum (List.map_congr_left fun tok _ => ?_)
  dsimp only [Function.comp_apply]
  cases hasVolume t w tok.1 with
  | false =>
    rw [if_neg Bool.false_ne_true, if_neg Bool.false_ne_true]
    split <;> rfl
  | true =>
    rw [if_pos rfl, if_pos rfl]
    split
    · rename_i hnone
      rw [lockedUSD, hnone, List.map_nil, List.sum_nil, zero_div, zero_mul]
      rfl
    · rfl

end Sums

/-! ### When the summary is right -/

/-- The summary is answered and right. -/
def SummaryAnswered (t : DexTables) (klyTokenId : TokenID) (klyusdprice : Option ℚ) (w : Window) :
    Prop :=
  ∃ klyusd s, klyusdprice = some klyusd ∧
    getDEXStatisticSummary t klyTokenId klyusdprice w = .ok s ∧
    SummaryRight t klyTokenId klyusd w s

/-- **The summary is right** if and only if the price of KLY is known, there is no swap in the
window, and what is locked of tokens that have no pool with a swap there is worth nothing. -/
theorem summary_right_iff (t : DexTables) (klyTokenId : TokenID) (klyusdprice : Option ℚ)
    (w : Window) : SummaryAnswered t klyTokenId klyusdprice w ↔
      ∃ klyusd, klyusdprice = some klyusd ∧ swapsIn t w = [] ∧
        ((t.token.rows.filter fun tok => !hasVolume t w tok.1).map
          (lockedUSD t klyTokenId klyusd w)).sum = 0 := by
  constructor
  · rintro ⟨klyusd, s, rfl, hs, hright⟩
    obtain rfl := Except.ok.inj hs
    refine ⟨klyusd, rfl, ?_, ?_⟩
    · have hcount := swapCount_eq.symm.trans hright.swapCount
      exact List.length_eq_zero_iff.mp (by omega)
    · have htvl := @totalTvlUSD_add t klyTokenId klyusd w
      rw [← hright.totalTvlUSD] at htvl
      exact add_eq_left.mp htvl
  · rintro ⟨klyusd, rfl, hswaps, hlocked⟩
    refine ⟨klyusd, _, rfl, rfl, totalVolumeUSD_eq rfl, totalFeeGrowthUSD_eq rfl, ?_, poolCount_eq,
      ?_⟩
    · exact swapCount_eq.trans (by rw [hswaps]; rfl)
    · rw [← totalTvlUSD_add, hlocked, add_zero]

/-- One swap is counted twice. -/
theorem summary_onePool : ¬ SummaryAnswered onePool "kly" (some 1) ⟨none, none⟩ := by
  rintro ⟨klyusd, s, -, hs, hright⟩
  obtain rfl := Except.ok.inj hs
  have hcount := (@swapCount_eq onePool "kly" 1 ⟨none, none⟩).symm.trans hright.swapCount
  exact absurd hcount (by decide)

end DexQuery

end SwaptoshiService
