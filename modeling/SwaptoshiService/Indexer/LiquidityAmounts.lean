import Mathlib.Algebra.Order.Floor.Semifield
import Mathlib.Data.Rat.Floor
import Mathlib.Tactic.FieldSimp
import Mathlib.Tactic.Ring
import SwaptoshiService.Indexer.BigIntBase

/-!
# The amounts of a position

`liquidity_amounts.js` (`indexer/utils/dexLib`) computes, in fixed-point numbers with 96 bits after
the point, what amounts of the two tokens a position with some liquidity holds, and what liquidity
some amounts are enough for. Every multiplication is followed by a division that rounds **down**.

`position_amounts`: for prices in the allowed range the first function never throws and answers the
exact amounts rounded down once, though it divides twice; and no more than the given amounts is
needed for the liquidity that the second one answers.
-/

namespace SwaptoshiService

namespace LiquidityAmounts

/-- `Uint<bits>.from(value)` -/
def uintFrom (bits value : ℕ) : Except String (BoundedInt (uintClass bits)) :=
  (uintClass bits).fromInt value

/-! ### The code -/

/-- `FixedPoint96.RESOLUTION` -/
def resolution : ℕ := 96

/-- `FixedPoint96.Q96` -/
def q96 : ℕ := 2 ^ 96

/-- `TickMath.MIN_SQRT_RATIO` -/
def minSqrtRatio : ℕ := 4295128739

/-- `TickMath.MAX_SQRT_RATIO` -/
def maxSqrtRatio : ℕ := 1461446703485210103287273052203988822378723970342

/-- `FullMath.mulDiv`; the product is not bounded. -/
def mulDiv (a b denominator : ℕ) : Except String ℕ :=
  if denominator = 0 then .error "Denominator must be greater than zero"
  else if a * b / denominator > 2 ^ 256 - 1 then .error "overflow"
  else if a = 0 ∨ b = 0 then .ok 0
  else .ok (a * b / denominator)

/-- `toUint128` -/
def toUint128 (x : ℕ) : Except String ℕ := do return (← uintFrom 128 x).value.toNat

/-- The two ratios, the lower one first. -/
def sortRatios (sqrtRatioAX96 sqrtRatioBX96 : ℕ) : Except String (ℕ × ℕ) := do
  if (← uintFrom 160 sqrtRatioAX96).gt sqrtRatioBX96 then
    return (sqrtRatioBX96, sqrtRatioAX96)
  else return (sqrtRatioAX96, sqrtRatioBX96)

def getLiquidityForAmount0 (sqrtRatioAX96 sqrtRatioBX96 amount0 : ℕ) : Except String ℕ := do
  let (sqrtRatioAX96, sqrtRatioBX96) ← sortRatios sqrtRatioAX96 sqrtRatioBX96
  let intermediate ← mulDiv sqrtRatioAX96 sqrtRatioBX96 q96
  let difference ← (← uintFrom 160 sqrtRatioBX96).sub .wraps sqrtRatioAX96
  toUint128 (← mulDiv amount0 intermediate difference.value.toNat)

def getLiquidityForAmount1 (sqrtRatioAX96 sqrtRatioBX96 amount1 : ℕ) : Except String ℕ := do
  let (sqrtRatioAX96, sqrtRatioBX96) ← sortRatios sqrtRatioAX96 sqrtRatioBX96
  let difference ← (← uintFrom 160 sqrtRatioBX96).sub .wraps sqrtRatioAX96
  toUint128 (← mulDiv amount1 q96 difference.value.toNat)

def getLiquidityForAmounts (sqrtRatioX96 sqrtRatioAX96 sqrtRatioBX96 amount0 amount1 : ℕ) :
    Except String ℕ := do
  let (sqrtRatioAX96, sqrtRatioBX96) ← sortRatios sqrtRatioAX96 sqrtRatioBX96
  if (← uintFrom 160 sqrtRatioX96).lte sqrtRatioAX96 then
    getLiquidityForAmount0 sqrtRatioAX96 sqrtRatioBX96 amount0
  else if (← uintFrom 160 sqrtRatioX96).lt sqrtRatioBX96 then
    let liquidity0 ← getLiquidityForAmount0 sqrtRatioX96 sqrtRatioBX96 amount0
    let liquidity1 ← getLiquidityForAmount1 sqrtRatioAX96 sqrtRatioX96 amount1
    return if (← uintFrom 128 liquidity0).lt liquidity1 then liquidity0 else liquidity1
  else getLiquidityForAmount1 sqrtRatioAX96 sqrtRatioBX96 amount1

def getAmount0ForLiquidity (sqrtRatioAX96 sqrtRatioBX96 liquidity : ℕ) : Except String ℕ := do
  let (sqrtRatioAX96, sqrtRatioBX96) ← sortRatios sqrtRatioAX96 sqrtRatioBX96
  let shifted ← (← uintFrom 256 liquidity).shl .wraps resolution
  let difference ← (← uintFrom 160 sqrtRatioBX96).sub .wraps sqrtRatioAX96
  let quotient ← uintFrom 256 (← mulDiv shifted.value.toNat difference.value.toNat sqrtRatioBX96)
  return (← quotient.div .wraps sqrtRatioAX96).value.toNat

def getAmount1ForLiquidity (sqrtRatioAX96 sqrtRatioBX96 liquidity : ℕ) : Except String ℕ := do
  let (sqrtRatioAX96, sqrtRatioBX96) ← sortRatios sqrtRatioAX96 sqrtRatioBX96
  let difference ← (← uintFrom 160 sqrtRatioBX96).sub .wraps sqrtRatioAX96
  mulDiv liquidity difference.value.toNat q96

def getAmountsForLiquidity (sqrtRatioX96 sqrtRatioAX96 sqrtRatioBX96 liquidity : ℕ) :
    Except String (ℕ × ℕ) := do
  let (sqrtRatioAX96, sqrtRatioBX96) ← sortRatios sqrtRatioAX96 sqrtRatioBX96
  if (← uintFrom 160 sqrtRatioX96).lte sqrtRatioAX96 then
    return (← getAmount0ForLiquidity sqrtRatioAX96 sqrtRatioBX96 liquidity, 0)
  else if (← uintFrom 160 sqrtRatioX96).lt sqrtRatioBX96 then
    let amount0 ← getAmount0ForLiquidity sqrtRatioX96 sqrtRatioBX96 liquidity
    let amount1 ← getAmount1ForLiquidity sqrtRatioAX96 sqrtRatioX96 liquidity
    return (amount0, amount1)
  else return (0, ← getAmount1ForLiquidity sqrtRatioAX96 sqrtRatioBX96 liquidity)

/-! ### Integers that fit -/

section Fits

variable {bits x y a b d : ℕ}

/-- A number as an integer of a class in which it fits. -/
def uintOf (x : ℕ) (h : x < 2 ^ bits) : BoundedInt (uintClass bits) where
  value := x
  min_le := Int.natCast_nonneg x
  le_max := by
    have hcast : (x : ℤ) < 2 ^ bits := by exact_mod_cast h
    exact Int.le_sub_one_of_lt hcast

@[simp] theorem toNat_uintOf (h : x < 2 ^ bits) : (uintOf x h).value.toNat = x := Int.toNat_natCast x

@[simp] theorem gt_uintOf (h : x < 2 ^ bits) : (uintOf x h).gt y = decide (y < x) :=
  decide_eq_decide.mpr Int.ofNat_lt

@[simp] theorem lt_uintOf (h : x < 2 ^ bits) : (uintOf x h).lt y = decide (x < y) :=
  decide_eq_decide.mpr Int.ofNat_lt

@[simp] theorem lte_uintOf (h : x < 2 ^ bits) : (uintOf x h).lte y = decide (x ≤ y) :=
  decide_eq_decide.mpr Int.ofNat_le

theorem settle_natCast {z : ℤ} (h : x < 2 ^ bits) (hz : z = x) :
    (uintClass bits).settle .wraps z = .ok (uintOf x h) := by
  subst hz
  exact IntClass.settle_of_mem (uintOf x h).min_le (uintOf x h).le_max

theorem uintFrom_of_lt (h : x < 2 ^ bits) : uintFrom bits x = .ok (uintOf x h) :=
  IntClass.fromInt_of_mem (uintOf x h).min_le (uintOf x h).le_max

theorem sub_uintOf (hx : x < 2 ^ bits) (h : y ≤ x) :
    (uintOf x hx).sub .wraps y = .ok (uintOf (x - y) ((Nat.sub_le x y).trans_lt hx)) :=
  settle_natCast _ (Int.ofNat_sub h).symm

theorem shl_uintOf {k : ℕ} (hx : x < 2 ^ bits) (h : x * 2 ^ k < 2 ^ bits) :
    (uintOf x hx).shl .wraps k = .ok (uintOf (x * 2 ^ k) h) :=
  settle_natCast h (by push_cast; rfl)

theorem div_uintOf (hx : x < 2 ^ bits) (hy : 0 < y) :
    (uintOf x hx).div .wraps y = .ok (uintOf (x / y) ((Nat.div_le_self x y).trans_lt hx)) := by
  rw [BoundedInt.div, if_neg (by omega)]
  exact settle_natCast _ (Int.ofNat_tdiv x y).symm

theorem mulDiv_of_lt (hd : 0 < d) (h : a * b / d < 2 ^ 256) : mulDiv a b d = .ok (a * b / d) := by
  rw [mulDiv, if_neg hd.ne', if_neg (by omega)]
  split_ifs with hzero
  · rcases hzero with rfl | rfl <;> simp
  · rfl

theorem eq_of_mulDiv {q : ℕ} (h : mulDiv a b d = .ok q) : q = a * b / d := by
  rw [mulDiv] at h
  split_ifs at h with _ _ hzero
  · obtain rfl := Except.ok.inj h
    rcases hzero with rfl | rfl <;> simp
  · exact (Except.ok.inj h).symm

theorem eq_of_toUint128 (h : toUint128 x = .ok y) : y = x ∧ y < 2 ^ 128 := by
  obtain ⟨v, hv, h⟩ := bind_eq_ok_iff.mp h
  obtain rfl := pure_eq_ok_iff.mp h
  have hx : x < 2 ^ 128 := by
    by_contra hx
    have hmax : (uintClass 128).max < (x : ℤ) := by
      have hcast : ((2 ^ 128 : ℕ) : ℤ) ≤ x := by exact_mod_cast not_lt.mp hx
      push_cast at hcast
      exact Int.sub_one_lt_of_le hcast
    obtain ⟨e, he⟩ := IntClass.fromInt_eq_error (.inr hmax)
    exact absurd (hv.symm.trans he) (by simp)
  obtain rfl := Except.ok.inj ((uintFrom_of_lt hx).symm.trans hv)
  rw [toNat_uintOf]
  exact ⟨rfl, hx⟩

theorem sortRatios_eq (ha : a < 2 ^ 160) : sortRatios a b = .ok (min a b, max a b) := by
  rw [sortRatios, uintFrom_of_lt ha]
  show (if (uintOf a ha).gt b then _ else _) = _
  simp only [gt_uintOf, decide_eq_true_eq]
  split_ifs with h
  · rw [min_eq_right h.le, max_eq_left h.le]
    rfl
  · rw [min_eq_left (not_lt.mp h), max_eq_right (not_lt.mp h)]
    rfl

end Fits

/-! ### What each function computes -/

section Spec

variable {lo hi p L x : ℕ}

theorem sortRatios_of_lt (hlt : lo < hi) (hhi : hi < 2 ^ 160) :
    sortRatios lo hi = .ok (lo, hi) := by
  rw [sortRatios_eq (hlt.trans hhi), min_eq_left hlt.le, max_eq_right hlt.le]

theorem getAmount0ForLiquidity_eq (hlo : 0 < lo) (hlt : lo < hi) (hhi : hi < 2 ^ 160)
    (hL : L < 2 ^ 128) :
    getAmount0ForLiquidity lo hi L = .ok (L * 2 ^ 96 * (hi - lo) / hi / lo) := by
  have hL256 : L < 2 ^ 256 := hL.trans (by norm_num)
  have hshift : L * 2 ^ 96 < 2 ^ 256 := by omega
  have hquotient : L * 2 ^ 96 * (hi - lo) / hi < 2 ^ 256 := by
    refine lt_of_le_of_lt (Nat.div_le_of_le_mul ?_) hshift
    rw [Nat.mul_comm hi]
    exact Nat.mul_le_mul_left _ (Nat.sub_le hi lo)
  refine bind_eq_ok_iff.mpr ⟨(lo, hi), sortRatios_of_lt hlt hhi, ?_⟩
  refine bind_eq_ok_iff.mpr ⟨_, uintFrom_of_lt hL256, ?_⟩
  refine bind_eq_ok_iff.mpr ⟨_, shl_uintOf hL256 hshift, ?_⟩
  refine bind_eq_ok_iff.mpr ⟨_, uintFrom_of_lt hhi, ?_⟩
  refine bind_eq_ok_iff.mpr ⟨_, sub_uintOf hhi hlt.le, ?_⟩
  simp only [toNat_uintOf]
  refine bind_eq_ok_iff.mpr ⟨_, mulDiv_of_lt (hlo.trans hlt) hquotient, ?_⟩
  refine bind_eq_ok_iff.mpr ⟨_, uintFrom_of_lt hquotient, ?_⟩
  refine bind_eq_ok_iff.mpr ⟨_, div_uintOf hquotient hlo, ?_⟩
  rw [toNat_uintOf]
  rfl

theorem getAmount1ForLiquidity_eq (hlt : lo < hi) (hhi : hi < 2 ^ 160) (hL : L < 2 ^ 128) :
    getAmount1ForLiquidity lo hi L = .ok (L * (hi - lo) / 2 ^ 96) := by
  have hquotient : L * (hi - lo) / 2 ^ 96 < 2 ^ 256 := by
    refine Nat.div_lt_of_lt_mul ?_
    calc L * (hi - lo) < 2 ^ 128 * 2 ^ 160 :=
          Nat.mul_lt_mul'' hL ((Nat.sub_le hi lo).trans_lt hhi)
      _ ≤ 2 ^ 96 * 2 ^ 256 := by norm_num
  refine bind_eq_ok_iff.mpr ⟨(lo, hi), sortRatios_of_lt hlt hhi, ?_⟩
  refine bind_eq_ok_iff.mpr ⟨_, uintFrom_of_lt hhi, ?_⟩
  refine bind_eq_ok_iff.mpr ⟨_, sub_uintOf hhi hlt.le, ?_⟩
  simp only [toNat_uintOf, q96]
  exact mulDiv_of_lt (by norm_num) hquotient

theorem getLiquidityForAmount0_eq_ok (hlt : lo < hi) (hhi : hi < 2 ^ 160)
    (h : getLiquidityForAmount0 lo hi x = .ok L) :
    L = x * (lo * hi / 2 ^ 96) / (hi - lo) ∧ L < 2 ^ 128 := by
  obtain ⟨ratios, hratios, h⟩ := bind_eq_ok_iff.mp h
  obtain rfl := Except.ok.inj ((sortRatios_of_lt hlt hhi).symm.trans hratios)
  obtain ⟨intermediate, hintermediate, h⟩ := bind_eq_ok_iff.mp h
  obtain rfl := eq_of_mulDiv hintermediate
  obtain ⟨v, hv, h⟩ := bind_eq_ok_iff.mp h
  obtain rfl := Except.ok.inj ((uintFrom_of_lt hhi).symm.trans hv)
  obtain ⟨difference, hdifference, h⟩ := bind_eq_ok_iff.mp h
  obtain rfl := Except.ok.inj ((sub_uintOf hhi hlt.le).symm.trans hdifference)
  obtain ⟨q, hq, h⟩ := bind_eq_ok_iff.mp h
  rw [toNat_uintOf] at hq
  obtain rfl := eq_of_mulDiv hq
  exact eq_of_toUint128 h

theorem getLiquidityForAmount1_eq_ok (hlt : lo < hi) (hhi : hi < 2 ^ 160)
    (h : getLiquidityForAmount1 lo hi x = .ok L) :
    L = x * 2 ^ 96 / (hi - lo) ∧ L < 2 ^ 128 := by
  obtain ⟨ratios, hratios, h⟩ := bind_eq_ok_iff.mp h
  obtain rfl := Except.ok.inj ((sortRatios_of_lt hlt hhi).symm.trans hratios)
  obtain ⟨v, hv, h⟩ := bind_eq_ok_iff.mp h
  obtain rfl := Except.ok.inj ((uintFrom_of_lt hhi).symm.trans hv)
  obtain ⟨difference, hdifference, h⟩ := bind_eq_ok_iff.mp h
  obtain rfl := Except.ok.inj ((sub_uintOf hhi hlt.le).symm.trans hdifference)
  obtain ⟨q, hq, h⟩ := bind_eq_ok_iff.mp h
  rw [toNat_uintOf] at hq
  obtain rfl := eq_of_mulDiv hq
  exact eq_of_toUint128 h

/-- The price, or the end of the range beyond which it is. -/
def clamp (p lo hi : ℕ) : ℕ := max lo (min p hi)

/-- The amounts on the parts of the range above and below the price. -/
theorem getAmountsForLiquidity_of_lt (hlo : 0 < lo) (hlt : lo < hi) (hhi : hi < 2 ^ 160)
    (hp : p < 2 ^ 160) (hL : L < 2 ^ 128) : getAmountsForLiquidity p lo hi L =
      .ok (L * 2 ^ 96 * (hi - clamp p lo hi) / hi / clamp p lo hi,
        L * (clamp p lo hi - lo) / 2 ^ 96) := by
  refine bind_eq_ok_iff.mpr ⟨(lo, hi), sortRatios_of_lt hlt hhi, ?_⟩
  refine bind_eq_ok_iff.mpr ⟨_, uintFrom_of_lt hp, ?_⟩
  simp only [lte_uintOf, decide_eq_true_eq]
  split_ifs with hbelow
  · have hclamp : clamp p lo hi = lo := by rw [clamp]; omega
    refine bind_eq_ok_iff.mpr ⟨_, getAmount0ForLiquidity_eq hlo hlt hhi hL, ?_⟩
    rw [hclamp, Nat.sub_self, Nat.mul_zero, Nat.zero_div]
    rfl
  · refine bind_eq_ok_iff.mpr ⟨_, uintFrom_of_lt hp, ?_⟩
    simp only [lt_uintOf, decide_eq_true_eq]
    split_ifs with hwithin
    · have hclamp : clamp p lo hi = p := by rw [clamp]; omega
      rw [hclamp]
      refine bind_eq_ok_iff.mpr ⟨_, getAmount0ForLiquidity_eq (by omega) hwithin hhi hL, ?_⟩
      refine bind_eq_ok_iff.mpr ⟨_, getAmount1ForLiquidity_eq (by omega) hp hL, rfl⟩
    · have hclamp : clamp p lo hi = hi := by rw [clamp]; omega
      refine bind_eq_ok_iff.mpr ⟨_, getAmount1ForLiquidity_eq hlt hhi hL, ?_⟩
      rw [hclamp, Nat.sub_self, Nat.mul_zero, Nat.zero_div, Nat.zero_div]
      rfl

/-- The two ends may be given in either order. -/
theorem getAmountsForLiquidity_sort {a b : ℕ} (hne : a ≠ b) (ha : a < 2 ^ 160) (hb : b < 2 ^ 160) :
    getAmountsForLiquidity p a b L = getAmountsForLiquidity p (min a b) (max a b) L := by
  have hlt : min a b < max a b := min_lt_max.mpr hne
  rw [getAmountsForLiquidity, getAmountsForLiquidity, sortRatios_eq ha,
    sortRatios_of_lt hlt (max_lt ha hb)]

theorem getLiquidityForAmounts_sort {a b x₀ x₁ : ℕ} (hne : a ≠ b) (ha : a < 2 ^ 160)
    (hb : b < 2 ^ 160) : getLiquidityForAmounts p a b x₀ x₁ =
      getLiquidityForAmounts p (min a b) (max a b) x₀ x₁ := by
  have hlt : min a b < max a b := min_lt_max.mpr hne
  rw [getLiquidityForAmounts, getLiquidityForAmounts, sortRatios_eq ha,
    sortRatios_of_lt hlt (max_lt ha hb)]

end Spec

/-! ### Exact amounts -/

section Exact

variable {lo hi c L x m n d q : ℕ}

/-- What a multiplication and a division make smaller, the inverse ones do not make greater. -/
theorem mul_div_le_of_le_mul_div (hd : 0 < d) (hmn : m * n ≤ q)
    (hL : L ≤ x * m / d) : L * n * d / q ≤ x := by
  refine Nat.div_le_of_le_mul ?_
  calc L * n * d = L * d * n := Nat.mul_right_comm L n d
    _ ≤ x * m * n := Nat.mul_le_mul_right n ((Nat.le_div_iff_mul_le hd).mp hL)
    _ = x * (m * n) := Nat.mul_assoc x m n
    _ ≤ x * q := Nat.mul_le_mul_left x hmn
    _ = q * x := Nat.mul_comm x q

/-- The liquidity for an amount of the first token needs no more of it. -/
theorem amount0_le (hlt : lo < hi) (hL : L ≤ x * (lo * hi / 2 ^ 96) / (hi - lo)) :
    L * 2 ^ 96 * (hi - lo) / hi / lo ≤ x := by
  rw [Nat.div_div_eq_div_mul]
  refine mul_div_le_of_le_mul_div (Nat.sub_pos_of_lt hlt) ?_ hL
  exact (Nat.div_mul_le_self (lo * hi) (2 ^ 96)).trans_eq (Nat.mul_comm lo hi)

/-- The same of the second token. -/
theorem amount1_le (hlt : lo < hi) (hL : L ≤ x * 2 ^ 96 / (hi - lo)) :
    L * (hi - lo) / 2 ^ 96 ≤ x := by
  have h := mul_div_le_of_le_mul_div (n := 1) (Nat.sub_pos_of_lt hlt)
    (Nat.mul_one (2 ^ 96)).le hL
  rwa [Nat.mul_one] at h

/-- Rounded down twice, the amount is the exact one rounded down. -/
theorem amount0_bounds (hle : c ≤ hi) :
    ((L * 2 ^ 96 * (hi - c) / hi / c : ℕ) : ℚ) ≤
        (L : ℚ) * 2 ^ 96 * ((hi : ℚ) - c) / ((hi : ℚ) * c) ∧
      (L : ℚ) * 2 ^ 96 * ((hi : ℚ) - c) / ((hi : ℚ) * c) <
        ((L * 2 ^ 96 * (hi - c) / hi / c : ℕ) : ℚ) + 1 := by
  have hexact : (L : ℚ) * 2 ^ 96 * ((hi : ℚ) - c) / ((hi : ℚ) * c) =
      ((L * 2 ^ 96 * (hi - c) : ℕ) : ℚ) / ((hi * c : ℕ) : ℚ) := by
    push_cast [Nat.cast_sub hle]
    rfl
  rw [hexact, Nat.div_div_eq_div_mul, ← Nat.floor_div_eq_div (K := ℚ)]
  exact ⟨Nat.floor_le (by positivity), Nat.lt_floor_add_one _⟩

theorem amount1_eq_floor (hle : lo ≤ c) :
    L * (c - lo) / 2 ^ 96 = ⌊(L : ℚ) * ((c : ℚ) - lo) / 2 ^ 96⌋₊ := by
  have hexact : (L : ℚ) * ((c : ℚ) - lo) / 2 ^ 96 =
      ((L * (c - lo) : ℕ) : ℚ) / ((2 ^ 96 : ℕ) : ℚ) := by
    push_cast [Nat.cast_sub hle]
    rfl
  rw [hexact, Nat.floor_div_eq_div]

end Exact

/-! ### Positions -/

section Positions

variable {p lo hi a b x₀ x₁ L : ℕ}

/-- A square root of a price in the range that pools allow. -/
def IsSqrtRatio (x : ℕ) : Prop := minSqrtRatio ≤ x ∧ x ≤ maxSqrtRatio

instance (x : ℕ) : Decidable (IsSqrtRatio x) := inferInstanceAs (Decidable (_ ∧ _))

theorem IsSqrtRatio.pos {x : ℕ} (h : IsSqrtRatio x) : 0 < x := lt_of_lt_of_le (by decide) h.1

theorem IsSqrtRatio.lt {x : ℕ} (h : IsSqrtRatio x) : x < 2 ^ 160 := h.2.trans_lt (by decide)

/-- The liquidity for some amounts needs no more than these. -/
theorem amounts_le (hlt : lo < hi) (hhi : hi < 2 ^ 160) (hp : p < 2 ^ 160)
    (h : getLiquidityForAmounts p lo hi x₀ x₁ = .ok L) : L < 2 ^ 128 ∧
      L * 2 ^ 96 * (hi - clamp p lo hi) / hi / clamp p lo hi ≤ x₀ ∧
        L * (clamp p lo hi - lo) / 2 ^ 96 ≤ x₁ := by
  obtain ⟨ratios, hratios, h⟩ := bind_eq_ok_iff.mp h
  obtain rfl := Except.ok.inj ((sortRatios_of_lt hlt hhi).symm.trans hratios)
  obtain ⟨v, hv, h⟩ := bind_eq_ok_iff.mp h
  obtain rfl := Except.ok.inj ((uintFrom_of_lt hp).symm.trans hv)
  simp only [lte_uintOf, decide_eq_true_eq] at h
  split_ifs at h with hbelow
  · -- All of the first token.
    have hclamp : clamp p lo hi = lo := by rw [clamp]; omega
    obtain ⟨hL, hsmall⟩ := getLiquidityForAmount0_eq_ok hlt hhi h
    refine ⟨hsmall, ?_, ?_⟩
    · rw [hclamp]
      exact amount0_le hlt hL.le
    · rw [hclamp, Nat.sub_self, Nat.mul_zero, Nat.zero_div]
      exact Nat.zero_le x₁
  · obtain ⟨v', hv', h⟩ := bind_eq_ok_iff.mp h
    obtain rfl := Except.ok.inj ((uintFrom_of_lt hp).symm.trans hv')
    simp only [lt_uintOf, decide_eq_true_eq] at h
    split_ifs at h with hwithin
    · -- The lower one of two liquidities.
      have hclamp : clamp p lo hi = p := by rw [clamp]; omega
      obtain ⟨liquidity0, h0, h⟩ := bind_eq_ok_iff.mp h
      obtain ⟨liquidity1, h1, h⟩ := bind_eq_ok_iff.mp h
      obtain ⟨hL0, hsmall0⟩ := getLiquidityForAmount0_eq_ok hwithin hhi h0
      obtain ⟨hL1, hsmall1⟩ := getLiquidityForAmount1_eq_ok (not_le.mp hbelow) hp h1
      obtain ⟨w, hw, h⟩ := bind_eq_ok_iff.mp h
      obtain rfl := Except.ok.inj ((uintFrom_of_lt hsmall0).symm.trans hw)
      simp only [lt_uintOf, decide_eq_true_eq] at h
      have hmin : L ≤ liquidity0 ∧ L ≤ liquidity1 := by
        obtain rfl := pure_eq_ok_iff.mp h
        split_ifs with hless <;> omega
      refine ⟨hmin.1.trans_lt hsmall0, ?_, ?_⟩
      · rw [hclamp]
        exact amount0_le hwithin (hmin.1.trans hL0.le)
      · rw [hclamp]
        exact amount1_le (not_le.mp hbelow) (hmin.2.trans hL1.le)
    · -- All of the second token.
      have hclamp : clamp p lo hi = hi := by rw [clamp]; omega
      obtain ⟨hL, hsmall⟩ := getLiquidityForAmount1_eq_ok hlt hhi h
      refine ⟨hsmall, ?_, ?_⟩
      · rw [hclamp, Nat.sub_self, Nat.mul_zero, Nat.zero_div, Nat.zero_div]
        exact Nat.zero_le x₀
      · rw [hclamp]
        exact amount1_le hlt hL.le

/-- **The amounts of a position** are the exact ones rounded down, in whichever order the ends of
its range are given, and do not exceed amounts that its liquidity was computed from. -/
theorem position_amounts (hp : IsSqrtRatio p) (ha : IsSqrtRatio a) (hb : IsSqrtRatio b)
    (hne : a ≠ b) :
    (∀ L < 2 ^ 128, ∃ amount0 amount1, getAmountsForLiquidity p a b L = .ok (amount0, amount1) ∧
      getAmountsForLiquidity p b a L = .ok (amount0, amount1) ∧
      let lo := min a b
      let hi := max a b
      let c := clamp p lo hi
      ((amount0 : ℚ) ≤ (L : ℚ) * 2 ^ 96 * ((hi : ℚ) - c) / ((hi : ℚ) * c) ∧
        (L : ℚ) * 2 ^ 96 * ((hi : ℚ) - c) / ((hi : ℚ) * c) < (amount0 : ℚ) + 1) ∧
      amount1 = ⌊(L : ℚ) * ((c : ℚ) - lo) / 2 ^ 96⌋₊) ∧
    ∀ x₀ x₁ L, getLiquidityForAmounts p a b x₀ x₁ = .ok L → ∃ amount0 amount1,
      getAmountsForLiquidity p a b L = .ok (amount0, amount1) ∧ amount0 ≤ x₀ ∧ amount1 ≤ x₁ := by
  have hlo : 0 < min a b := lt_min ha.pos hb.pos
  have hlt : min a b < max a b := min_lt_max.mpr hne
  have hhi : max a b < 2 ^ 160 := max_lt ha.lt hb.lt
  have hamounts : ∀ L < 2 ^ 128, _ := fun L hL =>
    getAmountsForLiquidity_of_lt (L := L) hlo hlt hhi hp.lt hL
  constructor
  · intro L hL
    refine ⟨_, _, (getAmountsForLiquidity_sort hne ha.lt hb.lt).trans (hamounts L hL), ?_, ?_, ?_⟩
    · rw [getAmountsForLiquidity_sort hne.symm hb.lt ha.lt, min_comm b a, max_comm b a,
        hamounts L hL]
    · refine amount0_bounds ?_
      rw [clamp]
      omega
    · refine amount1_eq_floor ?_
      rw [clamp]
      omega
  · intro x₀ x₁ L h
    rw [getLiquidityForAmounts_sort hne ha.lt hb.lt] at h
    obtain ⟨hL, h0, h1⟩ := amounts_le hlt hhi hp.lt h
    exact ⟨_, _, (getAmountsForLiquidity_sort hne ha.lt hb.lt).trans (hamounts L hL), h0, h1⟩

/-- A range around the price 1, on both sides of it. -/
theorem position_amounts_around : IsSqrtRatio (2 ^ 96) ∧ IsSqrtRatio (2 ^ 95) ∧
    IsSqrtRatio (2 ^ 97) ∧ getAmountsForLiquidity (2 ^ 96) (2 ^ 97) (2 ^ 95) 1000 = .ok (500, 500) ∧
      ∃ amount0 amount1, getAmountsForLiquidity (2 ^ 96) (2 ^ 95) (2 ^ 97) 1000 =
        .ok (amount0, amount1) ∧ amount0 ≤ 500 ∧ amount1 ≤ 700 := by
  have hp : IsSqrtRatio (2 ^ 96) := by decide
  have ha : IsSqrtRatio (2 ^ 95) := by decide
  have hb : IsSqrtRatio (2 ^ 97) := by decide
  refine ⟨hp, ha, hb, by decide +kernel, ?_⟩
  exact (position_amounts hp ha hb (by decide)).2 500 700 1000 (by decide +kernel)

end Positions

end LiquidityAmounts

end SwaptoshiService
