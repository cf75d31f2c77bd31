import Mathlib.Algebra.Order.BigOperators.Group.List
import Mathlib.Data.String.Basic
import Mathlib.Tactic.Positivity
import Mathlib.Tactic.Ring
import SwaptoshiService.Indexer.EventIndex
import SwaptoshiService.Lib.Buffer

/-!
# The generator's share of a block reward

`indexer/utils/validator.js` splits the reward of a block in two steps: `calcCommissionAmount` looks
up the commission of the generator and takes that part of the reward, `calcSelfStakeReward` gives
the generator its share of the rest.

The lookup asks for the entry with the greatest height below the block. The column `height` holds
**text**, so the rows are compared with the block as numbers and sorted as text: of the heights 9
and 10 the query returns 9. `commission_lookup_iff` says when the commission found is the latest one
nevertheless.

The arithmetic is that of the fixed point numbers of `@klayr/utils`, which is a parameter here
(`Q96`). `reward_split` bounds the two amounts for any commission and any stakes; on whole numbers
the commission is the one that the indexing jobs compute (`commissionAmount_eq`).
-/

namespace SwaptoshiService

/-! ### The commission of a validator -/

/-- The commission that a validator has set at a height. -/
def commissionAt (db : DB) (address : Address) (height : ℕ) : Option ℕ :=
  (db.get (.commission address height)).map CommissionRow.commission

/-- The entry with the numerically greatest height below `h`. -/
structure IsLatest (db : DB) (address : Address) (h k c : ℕ) : Prop where
  below : k < h
  entry : commissionAt db address k = some c
  greatest : ∀ k' < h, (commissionAt db address k').isSome → k' ≤ k

/-- The entry below `h` whose height comes last as text. -/
structure SortsLast (db : DB) (address : Address) (h k c : ℕ) : Prop where
  below : k < h
  entry : commissionAt db address k = some c
  last : ∀ k' < h, (commissionAt db address k').isSome → toString k' ≤ toString k

/-- `calcCommissionAmount` uses the commission of the latest entry, and 0 when there is none. -/
def UsesLatest (db : DB) (address : Address) (h : ℕ) : Prop :=
  (∀ k c, IsLatest db address h k c →
    ∀ reward, calcCommissionAmount db address h reward = reward * c / maxCommission) ∧
  ((∀ k < h, commissionAt db address k = none) →
    ∀ reward, calcCommissionAmount db address h reward = 0)

/-- If a height with fewer digits sorts after the latest one, the entry that sorts last has the
commission of the latest one. -/
def TextOrderHarmless (db : DB) (address : Address) (h : ℕ) : Prop :=
  ∀ k c, IsLatest db address h k c →
    (∃ k' < h, (commissionAt db address k').isSome ∧
      (toString k').length < (toString k).length ∧ toString k < toString k') →
    ∀ k' c', SortsLast db address h k' c' → c' = c

section Lookup

variable {db : DB} {a : Address} {h k c : ℕ}

/-- What the query finds. -/
theorem latestCommission_spec :
    (∀ k c, latestCommission db a h = some (k, c) → SortsLast db a h k c) ∧
      (latestCommission db a h = none → ∀ k < h, commissionAt db a k = none) := by
  induction h with
  | zero =>
    exact ⟨fun k c hk => by simp [latestCommission] at hk, fun _ k hk => absurd hk (by omega)⟩
  | succ h ih =>
    rw [latestCommission]
    cases hrow : db.get (.commission a h) with
    | none =>
      have hnone : commissionAt db a h = none := by rw [commissionAt, hrow]; rfl
      -- Without an entry at `h` nothing is added to what lies below.
      refine ⟨fun k c hk => ?_, fun hk k hlt => ?_⟩
      · obtain ⟨hbelow, hentry, hlast⟩ := ih.1 k c hk
        refine ⟨by omega, hentry, fun k' hk' hsome => ?_⟩
        have hne : k' ≠ h := by
          rintro rfl
          simp [hnone] at hsome
        exact hlast k' (by omega) hsome
      · rcases Nat.lt_succ_iff_lt_or_eq.mp hlt with hlt | rfl
        · exact ih.2 hk k hlt
        · exact hnone
    | some r =>
      have hsome : commissionAt db a h = some r.commission := by rw [commissionAt, hrow]; rfl
      simp only
      split
      · -- The entry at `h` is chosen: it sorts after the last one below, so after all of them.
        rename_i hall
        refine ⟨fun k c hk => ?_, fun hk => by simp at hk⟩
        obtain ⟨rfl, rfl⟩ : h = k ∧ r.commission = c := by simpa using hk
        refine ⟨by omega, hsome, fun k' hk' hsome' => ?_⟩
        rcases Nat.lt_succ_iff_lt_or_eq.mp hk' with hlt | rfl
        · cases hlatest : latestCommission db a h with
          | none => simp [ih.2 hlatest k' hlt] at hsome'
          | some e =>
            have hle := (ih.1 e.1 e.2 hlatest).last k' hlt hsome'
            rw [hlatest] at hall
            exact hle.trans (le_of_lt (of_decide_eq_true hall))
        · exact le_rfl
      · -- The heights are compared as texts, so an entry below can sort after that at `h`.
        rename_i hall
        obtain ⟨e, he⟩ : ∃ e, latestCommission db a h = some e := by
          cases hlatest : latestCommission db a h with
          | none => simp [hlatest] at hall
          | some e => exact ⟨e, rfl⟩
        refine ⟨fun k c hk => ?_, fun hk => by simp [he] at hk⟩
        obtain ⟨hbelow, hentry, hlast⟩ := ih.1 k c hk
        refine ⟨by omega, hentry, fun k' hk' hsome' => ?_⟩
        rcases Nat.lt_succ_iff_lt_or_eq.mp hk' with hlt | rfl
        · exact hlast k' hlt hsome'
        · rw [hk] at hall
          exact not_lt.mp fun hlt => hall (decide_eq_true hlt)

theorem SortsLast.latestCommission_eq (hlast : SortsLast db a h k c) :
    latestCommission db a h = some (k, c) := by
  cases hfound : latestCommission db a h with
  | none =>
    have hnone := latestCommission_spec.2 hfound k hlast.below
    rw [hlast.entry] at hnone
    exact absurd hnone (by simp)
  | some e =>
    obtain ⟨k', c'⟩ := e
    obtain ⟨hbelow, hentry, hlast'⟩ := latestCommission_spec.1 k' c' hfound
    have hle := hlast' k hlast.below (by simp [hlast.entry])
    have hge := hlast.last k' hbelow (by simp [hentry])
    obtain rfl : k' = k := toString_nat_injective (le_antisymm hge hle)
    rw [Option.some.inj (hentry.symm.trans hlast.entry)]

theorem calcCommissionAmount_of_sortsLast (hlast : SortsLast db a h k c) (reward : ℕ) :
    calcCommissionAmount db a h reward = reward * c / maxCommission := by
  rw [calcCommissionAmount, hlast.latestCommission_eq]
  rfl

/-- Where there is a latest entry, one sorts last. -/
theorem IsLatest.exists_sortsLast (hlatest : IsLatest db a h k c) :
    ∃ k' c', SortsLast db a h k' c' := by
  cases hfound : latestCommission db a h with
  | none =>
    have hnone := latestCommission_spec.2 hfound k hlatest.below
    rw [hlatest.entry] at hnone
    exact absurd hnone (by simp)
  | some e => exact ⟨e.1, e.2, latestCommission_spec.1 e.1 e.2 hfound⟩

/-- Among heights with as many digits as the latest one, that one sorts last. -/
theorem SortsLast.eq_latest {k' c' : ℕ} (hlast : SortsLast db a h k' c')
    (hlatest : IsLatest db a h k c)
    (hshort : ¬ ∃ k' < h, (commissionAt db a k').isSome ∧
      (toString k').length < (toString k).length ∧ toString k < toString k') : c' = c := by
  have hle : k' ≤ k := hlatest.greatest k' hlast.below (by simp [hlast.entry])
  have hsorts : toString k ≤ toString k' := hlast.last k hlatest.below (by simp [hlatest.entry])
  have heq : k' = k := by
    by_contra hne
    have hlt : k' < k := lt_of_le_of_ne hle hne
    rcases (length_toString_le hle).lt_or_eq with hlength | hlength
    · refine hshort ⟨k', hlast.below, by simp [hlast.entry], hlength, lt_of_le_of_ne hsorts ?_⟩
      exact fun htext => hne (toString_nat_injective htext).symm
    · exact absurd (toString_lt_of_length_eq hlength hlt) (not_lt.mpr hsorts)
  rw [heq] at hlast
  exact Option.some.inj (hlast.entry.symm.trans hlatest.entry)

/-- **When the latest commission is used.** -/
theorem commission_lookup_iff (db : DB) (address : Address) (h : ℕ) :
    UsesLatest db address h ↔ TextOrderHarmless db address h := by
  constructor
  · rintro ⟨huses, -⟩ k c hlatest - k' c' hlast
    have hamount := (calcCommissionAmount_of_sortsLast hlast maxCommission).symm.trans
      (huses k c hlatest maxCommission)
    rwa [Nat.mul_div_cancel_left _ (by decide), Nat.mul_div_cancel_left _ (by decide)] at hamount
  · intro hharmless
    refine ⟨fun k c hlatest reward => ?_, fun hnone reward => ?_⟩
    · obtain ⟨k', c', hlast⟩ := hlatest.exists_sortsLast
      have hcommission : c' = c := by
        by_cases hshort : ∃ k' < h, (commissionAt db address k').isSome ∧
            (toString k').length < (toString k).length ∧ toString k < toString k'
        · exact hharmless k c hlatest hshort k' c' hlast
        · exact hlast.eq_latest hlatest hshort
      rw [calcCommissionAmount_of_sortsLast hlast, hcommission]
    · have hfound : latestCommission db address h = none := by
        cases hfound : latestCommission db address h with
        | none => rfl
        | some e =>
          have hlast := latestCommission_spec.1 e.1 e.2 hfound
          have hentry := hlast.entry
          rw [hnone e.1 hlast.below] at hentry
          exact absurd hentry (by simp)
      rw [calcCommissionAmount, hfound]
      exact Nat.zero_div _

end Lookup

/-- A validator that changes its commission at the heights 9 and 10. -/
def twoCommissionsDB : DB :=
  (Write.all [Table.upsertRow (.commission "validator" 9) fun _ => { commission := 1000 },
    Table.upsertRow (.commission "validator" 10) fun _ => { commission := 2000 }] : Stmt).exec
      .empty

/-- At height 11 the commission of height 9 is used. -/
theorem commission_lookup_stale :
    ¬ ∀ (db : DB) (address : Address) (h : ℕ), UsesLatest db address h := by
  intro huses
  have hlatest : IsLatest twoCommissionsDB "validator" 11 10 2000 := by
    refine ⟨by decide, rfl, fun k' hk' hsome => by omega⟩
  have hamount := (huses twoCommissionsDB "validator" 11).1 10 2000 hlatest 10000
  have hstale : calcCommissionAmount twoCommissionsDB "validator" 11 10000 = 1000 := by decide
  rw [hstale] at hamount
  exact absurd hamount (by decide)

/-! ### Fixed point arithmetic -/

/-- The fixed point numbers of `@klayr/utils`, as far as they are used. -/
structure Q96 where
  Number : Type
  q96 : ℤ → Number
  sub : Number → Number → Number
  muldiv : Number → Number → Number → Except String Number
  floor : Number → ℤ

/-- A number is held as an integer, the number of its units of `2 ^ -96`; products and quotients of
such integers, and the integer part, are rounded down. Division by zero throws. -/
structure Q96.RoundsDown (q : Q96) (units : q.Number → ℤ) : Prop where
  units_q96 : ∀ n, units (q.q96 n) = n * 2 ^ 96
  units_sub : ∀ x y, units y ≤ units x → units (q.sub x y) = units x - units y
  muldiv_eq : ∀ x y z, 0 ≤ units x → 0 ≤ units y → 0 < units z →
    ∃ w, q.muldiv x y z = .ok w ∧ units w = units x * units y / units z
  floor_eq : ∀ x, 0 ≤ units x → q.floor x = units x / 2 ^ 96

/-- A row of `stakes`, as `calcSelfStakeReward` reads it. -/
structure StakerInfo where
  stakerAddress : Address
  amount : ℤ
  deriving DecidableEq, Repr

namespace Q96

/-- `calcCommissionAmount` once the commission is found. -/
def commissionAmount (q : Q96) (commission : ℕ) (blockReward : ℤ) : Except String ℤ := do
  let blockRewardQ := q.q96 blockReward
  let currentCommissionQ := q.q96 commission
  let commissionAmount ← q.muldiv blockRewardQ currentCommissionQ (q.q96 maxCommission)
  return q.floor commissionAmount

/-- The sum of the amounts of some stakes. -/
def stakes (stakerInfo : List StakerInfo) : ℤ := (stakerInfo.map StakerInfo.amount).sum

/-- The stakes of the generator itself. -/
def selfStakes (generatorAddress : Address) (stakerInfo : List StakerInfo) : ℤ :=
  stakes (stakerInfo.filter fun stake => stake.stakerAddress = generatorAddress)

/-- `calcSelfStakeReward` once the stakes are found. -/
def selfStakeReward (q : Q96) (generatorAddress : Address) (stakerInfo : List StakerInfo)
    (blockReward commissionAmount : ℤ) : Except String ℤ :=
  if stakerInfo.isEmpty then return 0
  else if stakes stakerInfo ≤ 0 then return 0
  else do
    let selfStakesQ := q.q96 (selfStakes generatorAddress stakerInfo)
    let totalStakesQ := q.q96 (stakes stakerInfo)
    let blockRewardQ := q.q96 blockReward
    let commissionAmountQ := q.q96 commissionAmount
    let remBlockRewardQ := q.sub blockRewardQ commissionAmountQ
    let selfStakeRewardQ ← q.muldiv remBlockRewardQ selfStakesQ totalStakesQ
    return q.floor selfStakeRewardQ

section Split

variable {q : Q96} {units : q.Number → ℤ} {stakerInfo : List StakerInfo} {a : Address}

theorem stakes_nonneg (h : ∀ stake ∈ stakerInfo, 0 ≤ stake.amount) : 0 ≤ stakes stakerInfo :=
  List.sum_nonneg fun x hx => by
    obtain ⟨stake, hstake, rfl⟩ := List.mem_map.mp hx
    exact h stake hstake

/-- The self-stakes are part of all stakes. -/
theorem selfStakes_le (h : ∀ stake ∈ stakerInfo, 0 ≤ stake.amount) :
    selfStakes a stakerInfo ≤ stakes stakerInfo := by
  have hsub : (stakerInfo.filter fun stake => stake.stakerAddress = a).Sublist stakerInfo :=
    List.filter_sublist
  refine (hsub.map StakerInfo.amount).sum_le_sum fun x hx => ?_
  obtain ⟨stake, hstake, rfl⟩ := List.mem_map.mp hx
  exact h stake hstake

/-- The whole part of `x * y / z` for whole numbers. -/
theorem RoundsDown.floor_muldiv (hq : q.RoundsDown units) {x y z : ℤ} {u : q.Number}
    (hu : units u = x * 2 ^ 96) (hx : 0 ≤ x) (hy : 0 ≤ y) (hz : 0 < z) :
    (do
      let w ← q.muldiv u (q.q96 y) (q.q96 z)
      return q.floor w : Except String ℤ) = .ok (x * y / z) := by
  have hpow : (0 : ℤ) < 2 ^ 96 := by positivity
  obtain ⟨w, hw, hunits⟩ := hq.muldiv_eq u (q.q96 y) (q.q96 z)
    (by rw [hu]; exact Int.mul_nonneg hx hpow.le)
    (by rw [hq.units_q96]; exact Int.mul_nonneg hy hpow.le)
    (by rw [hq.units_q96]; exact Int.mul_pos hz hpow)
  have hquot : units w = x * y * 2 ^ 96 / z := by
    rw [hunits, hu, hq.units_q96, hq.units_q96]
    have hcancel : x * 2 ^ 96 * (y * 2 ^ 96) = x * y * 2 ^ 96 * 2 ^ 96 := by ring
    rw [hcancel, Int.mul_ediv_mul_of_pos_left _ _ hpow]
  have hfloor : q.floor w = x * y / z := by
    rw [hq.floor_eq w (by rw [hquot]; positivity), hquot, Int.ediv_ediv_of_nonneg hz.le,
      mul_comm z, ← Int.ediv_ediv_of_nonneg hpow.le, Int.mul_ediv_cancel _ hpow.ne']
  rw [hw]
  exact congrArg Except.ok hfloor

/-- The commission is the whole part of `r * c / 10000`. -/
theorem RoundsDown.commissionAmount_eq (hq : q.RoundsDown units) {r : ℤ} (hr : 0 ≤ r) (c : ℕ) :
    q.commissionAmount c r = .ok (r * c / maxCommission) :=
  hq.floor_muldiv (hq.units_q96 r) hr (Int.natCast_nonneg c) (by decide)

/-- The share of the generator is the whole part of `(r - k) * self / total`. -/
theorem RoundsDown.selfStakeReward_eq (hq : q.RoundsDown units) {r k : ℤ} (hk : k ≤ r)
    (h : ∀ stake ∈ stakerInfo, 0 ≤ stake.amount) :
    q.selfStakeReward a stakerInfo r k =
      .ok ((r - k) * selfStakes a stakerInfo / stakes stakerInfo) := by
  rw [selfStakeReward]
  split
  · rename_i hempty
    obtain rfl : stakerInfo = [] := List.isEmpty_iff.mp hempty
    simp [stakes, pure, Except.pure]
  split
  · rename_i hzero
    have hstakes : stakes stakerInfo = 0 := le_antisymm hzero (stakes_nonneg h)
    rw [hstakes, Int.ediv_zero]
    rfl
  · rename_i hpos
    have hsub : units (q.sub (q.q96 r) (q.q96 k)) = (r - k) * 2 ^ 96 := by
      rw [hq.units_sub, hq.units_q96, hq.units_q96, Int.sub_mul]
      rw [hq.units_q96, hq.units_q96]
      exact Int.mul_le_mul_of_nonneg_right hk (by positivity)
    exact hq.floor_muldiv hsub (by omega)
      (stakes_nonneg fun stake hs => h stake (List.mem_filter.mp hs).1) (by omega)

end Split

/-- On whole numbers the commission is that of the indexing jobs. -/
theorem commissionAmount_eq {q : Q96} {units : q.Number → ℤ} (hq : q.RoundsDown units) (db : DB)
    (address : Address) (height reward : ℕ) :
    q.commissionAmount ((latestCommission db address height).elim 0 Prod.snd) reward =
      .ok (calcCommissionAmount db address height reward : ℤ) := by
  rw [hq.commissionAmount_eq (Int.natCast_nonneg reward), calcCommissionAmount]
  push_cast
  rfl

/-- **The reward is split**: both amounts are the whole parts of what they stand for, and together
they do not exceed the reward. -/
theorem reward_split {q : Q96} {units : q.Number → ℤ} (hq : q.RoundsDown units) {r : ℤ}
    (hr : 0 ≤ r) {c : ℕ} (hc : c ≤ maxCommission) (generatorAddress : Address)
    {stakerInfo : List StakerInfo} (hstakes : ∀ stake ∈ stakerInfo, 0 ≤ stake.amount) :
    ∃ k s, q.commissionAmount c r = .ok k ∧
      q.selfStakeReward generatorAddress stakerInfo r k = .ok s ∧
      k = r * c / maxCommission ∧
      s = (r - k) * selfStakes generatorAddress stakerInfo / stakes stakerInfo ∧
      0 ≤ k ∧ 0 ≤ s ∧ k + s ≤ r := by
  have hk : 0 ≤ r * c / maxCommission := by positivity
  have hkr : r * c / maxCommission ≤ r := by
    refine Int.ediv_le_of_le_mul (by decide) (Int.mul_le_mul_of_nonneg_left ?_ hr)
    exact_mod_cast hc
  have hself : 0 ≤ selfStakes generatorAddress stakerInfo :=
    stakes_nonneg fun stake hs => hstakes stake (List.mem_filter.mp hs).1
  refine ⟨_, _, hq.commissionAmount_eq hr c, hq.selfStakeReward_eq hkr hstakes, rfl, rfl, hk,
    Int.ediv_nonneg (Int.mul_nonneg (by omega) hself) (stakes_nonneg hstakes), ?_⟩
  -- the generator's share of what is left is at most what is left
  have hshare : (r - r * c / maxCommission) * selfStakes generatorAddress stakerInfo /
      stakes stakerInfo ≤ r - r * c / maxCommission := by
    rcases (stakes_nonneg hstakes).eq_or_lt with hzero | hpos
    · rw [← hzero, Int.ediv_zero]
      omega
    · exact Int.ediv_le_of_le_mul hpos
        (Int.mul_le_mul_of_nonneg_left (selfStakes_le hstakes) (by omega))
  omega

/-- The arithmetic on the units themselves. -/
def onUnits : Q96 where
  Number := ℤ
  q96 n := n * 2 ^ 96
  sub x y := x - y
  muldiv x y z := if z = 0 then .error "Cannot be divided by zero." else .ok (x * y / z)
  floor x := x / 2 ^ 96

theorem onUnits_roundsDown : onUnits.RoundsDown id where
  units_q96 _ := rfl
  units_sub _ _ _ := rfl
  muldiv_eq (x y z : ℤ) _ _ hz := ⟨(x * y / z : ℤ), if_neg hz.ne', rfl⟩
  floor_eq _ _ := rfl

/-- A tenth of the reward, and three of ten parts of the rest. -/
theorem reward_split_tenth :
    ∃ k s, onUnits.commissionAmount 1000 105 = .ok k ∧
      onUnits.selfStakeReward "validator" [⟨"validator", 3⟩, ⟨"staker", 7⟩] 105 k = .ok s ∧
      k = 105 * (1000 : ℕ) / maxCommission ∧
      s = (105 - k) * selfStakes "validator" [⟨"validator", 3⟩, ⟨"staker", 7⟩] /
        stakes [⟨"validator", 3⟩, ⟨"staker", 7⟩] ∧
      0 ≤ k ∧ 0 ≤ s ∧ k + s ≤ 105 :=
  reward_split onUnits_roundsDown (by decide) (by decide) "validator" (by decide)

end Q96

end SwaptoshiService
