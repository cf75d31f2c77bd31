import Mathlib
import SwaptoshiService.Indexer.BigIntBase
import SwaptoshiService.Indexer.LiquidityAmounts

/-!
# Ticks and square root prices

`tick_math.js` (`indexer/utils/dexLib`) turns a tick `t` into the square root of the price
`1.0001 ^ t`, in fixed point with 96 bits after the point, and a square root price into a tick. The
first multiplies, for the bits of `|t|`, precomputed powers of `1 / √1.0001` with 128 bits after the
point; the second computes a logarithm to base two with 14 bits after the point, scales it, and
compares the two ticks that are then possible.

This module has the code and what it computes when nothing wraps around, as functions on natural
numbers and integers (`sqrtRatio`, `tickOf`): the code answers them **whatever** the bounded integers
do with results that do not fit (`getSqrtRatioAtTick_eq`, `getTickAtSqrtRatio_eq`).
-/

namespace SwaptoshiService

namespace TickMath

open LiquidityAmounts (minSqrtRatio maxSqrtRatio)

/-! ### The code -/

/-- `MIN_TICK` -/
def minTick : ℤ := -887272

/-- `MAX_TICK` -/
def maxTick : ℤ := 887272

/-- What `ratio` starts from when the first bit of the tick is set. -/
def firstFactor : ℕ := 0xfffcb933bd6fad37aa2d162d1a594001

/-- What `ratio` is multiplied by for the other bits of the tick. -/
def factors : List (ℕ × ℕ) :=
  [(0x2, 0xfff97272373d413259a46990580e213a),
   (0x4, 0xfff2e50f5f656932ef12357cf3c7fdcc),
   (0x8, 0xffe5caca7e10e4e61c3624eaa0941cd0),
   (0x10, 0xffcb9843d60f6159c9db58835c926644),
   (0x20, 0xff973b41fa98c081472e6896dfb254c0),
   (0x40, 0xff2ea16466c96a3843ec78b326b52861),
   (0x80, 0xfe5dee046a99a2a811c461f1969c3053),
   (0x100, 0xfcbe86c7900a88aedcffc83b479aa3a4),
   (0x200, 0xf987a7253ac413176f2b074cf7815e54),
   (0x400, 0xf3392b0822b70005940c7a398e4b70f3),
   (0x800, 0xe7159475a2c29b7443b29c7fa6e889d9),
   (0x1000, 0xd097f3bdfd2022b8845ad8f792aa5825),
   (0x2000, 0xa9f746462d870fdf8a65dc1f90e061e5),
   (0x4000, 0x70d869a156d2a1b890bb3df62baf32f7),
   (0x8000, 0x31be135f97d08fd981231505542fcfa6),
   (0x10000, 0x9aa508b5b7a84e1c677de54f3e99bc9),
   (0x20000, 0x5d6af8dedb81196699c329225ee604),
   (0x40000, 0x2216e584f5fa1ea926041bedfe98),
   (0x80000, 0x48a170391f7dc42444e8fa2)]

/-- One conditional multiplication. -/
def applyFactor (o : Overflow) (absTick ratio : BoundedInt uint256) (factor : ℕ × ℕ) :
    Except String (BoundedInt uint256) := do
  if !(← absTick.and o factor.1).eq 0 then (← ratio.mul o factor.2).shr o 128 else return ratio

/-- What `ratio` starts from. -/
def startRatio (o : Overflow) (absTick : BoundedInt uint256) :
    Except String (BoundedInt uint256) := do
  if !(← absTick.and o 0x1).eq 0 then uint256.fromInt firstFactor
  else uint256.fromInt 0x100000000000000000000000000000000

/-- The inversion of `ratio` above zero. -/
def invertRatio (o : Overflow) (tick : ℤ) (ratio : BoundedInt uint256) :
    Except String (BoundedInt uint256) := do
  if (← int24.fromInt tick).gt 0 then (← uint256.fromInt uint256.max).div o ratio.value
  else return ratio

/-- From 128 to 96 bits after the point, rounding up. -/
def roundRatio (o : Overflow) (ratio : BoundedInt uint256) : Except String ℤ := do
  let sqrtPriceX96 ← uint160.fromInt (← ratio.shr o 32).value
  let remainder ← ratio.mod o (← (← uint256.fromInt 1).shl o 32).value
  return (← sqrtPriceX96.add o (if remainder.eq 0 then 0 else 1)).value

def getSqrtRatioAtTick (o : Overflow) (tick : ℤ) : Except String ℤ := do
  let absTick ← uint256.fromInt (← (← int24.fromInt tick).abs).value
  if absTick.gt (← uint256.fromInt maxTick).value then throw "T"
  let ratio ← factors.foldlM (applyFactor o absTick) (← startRatio o absTick)
  roundRatio o (← invertRatio o tick ratio)

/-- The thresholds of the search for the leading one, and how far it shifts above each. -/
def thresholds : List (ℕ × ℕ) :=
  [(0xFFFFFFFFFFFFFFFFFFFFFFFFFFFFFFFF, 7),
   (0xFFFFFFFFFFFFFFFF, 6),
   (0xFFFFFFFF, 5),
   (0xFFFF, 4),
   (0xFF, 3),
   (0xF, 2),
   (0x3, 1)]

/-- One step of the search, on `r` and `msb`. -/
def searchBit (o : Overflow) (s : BoundedInt uint256 × BoundedInt uint256) (threshold : ℕ × ℕ) :
    Except String (BoundedInt uint256 × BoundedInt uint256) := do
  let (r, msb) := s
  let f ← (← uint256.fromInt (if r.gt threshold.1 then 1 else 0)).shl o threshold.2
  let msb ← msb.or o f.value
  return (← r.shr o f.value.toNat, msb)

/-- One bit of the logarithm: `r` squared, the bit, and `log_2` with it. -/
def logBit (o : Overflow) (s : BoundedInt uint256 × BoundedInt int256) (position : ℕ) :
    Except String (BoundedInt uint256 × BoundedInt uint256 × BoundedInt int256) := do
  let (r, log2) := s
  let r ← (← r.mul o r.value).shr o 127
  let f ← r.shr o 128
  return (r, f, ← log2.or o (← f.shl o position).value)

/-- One bit of the logarithm, and `r` shifted back. -/
def logStep (o : Overflow) (s : BoundedInt uint256 × BoundedInt int256) (position : ℕ) :
    Except String (BoundedInt uint256 × BoundedInt int256) := do
  let (r, f, log2) ← logBit o s position
  return (← r.shr o f.value.toNat, log2)

/-- The positions of the bits of the logarithm but for the last one. -/
def positions : List ℕ := [63, 62, 61, 60, 59, 58, 57, 56, 55, 54, 53, 52, 51]

/-- The position of the leading one of `ratio`. -/
def leadingBit (o : Overflow) (ratio : BoundedInt uint256) : Except String (BoundedInt uint256) := do
  let (r, msb) ← thresholds.foldlM (searchBit o)
    (← uint256.fromInt ratio.value, ← uint256.fromInt 0)
  let f ← uint256.fromInt (if r.gt 0x1 then 1 else 0)
  msb.or o f.value

/-- `ratio` with its leading one moved to position 127. -/
def normalize (o : Overflow) (ratio msb : BoundedInt uint256) :
    Except String (BoundedInt uint256) := do
  if msb.gte 128 then ratio.shr o (← msb.sub o 127).value.toNat
  else ratio.shl o (← (← uint256.fromInt 127).sub o msb.value).value.toNat

/-- The logarithm of `ratio` to base two, with 64 bits after the point of which 14 are computed. -/
def logTwo (o : Overflow) (ratio : BoundedInt uint256) : Except String (BoundedInt int256) := do
  let msb ← leadingBit o ratio
  let r ← normalize o ratio msb
  let log2 ← (← (← int256.fromInt msb.value).sub o 128).shl o 64
  let (_, _, log2) ← logBit o (← positions.foldlM (logStep o) (r, log2)) 50
  return log2

def getTickAtSqrtRatio (o : Overflow) (sqrtPriceX96 : ℤ) : Except String ℤ := do
  let price ← uint160.fromInt sqrtPriceX96
  if !(price.gte minSqrtRatio && price.lt maxSqrtRatio) then throw "R"
  let ratio ← (← uint256.fromInt sqrtPriceX96).shl o 32
  let logSqrt10001 ← (← logTwo o ratio).mul o 255738958999603826347141
  let tickLow ← int24.fromInt
    (← (← logSqrt10001.sub o 3402992956809132418596140100660247210).shr o 128).value
  let tickHi ← int24.fromInt
    (← (← logSqrt10001.add o 291339464771989622907027621153398088495).shr o 128).value
  if tickLow.eq tickHi.value then return tickLow.value
  else if (← int256.fromInt (← getSqrtRatioAtTick o tickHi.value)).lte sqrtPriceX96 then
    return tickHi.value
  else return tickLow.value

/-! ### Values of the classes -/

section Values

variable {o : Overflow} {bits n k : ℕ}

theorem cast_lt_two_pow (h : n < 2 ^ bits) : (n : ℤ) ≤ 2 ^ bits - 1 := by
  have : (n : ℤ) < 2 ^ bits := by exact_mod_cast h
  omega

/-- A natural number that fits, as a value of its class. -/
def uint (n : ℕ) (h : n < 2 ^ bits) : BoundedInt (uintClass bits) :=
  ⟨n, Int.natCast_nonneg n, cast_lt_two_pow h⟩

@[simp]
theorem value_uint (h : n < 2 ^ bits) : (uint n h).value = n := rfl

theorem settle_uint (h : n < 2 ^ bits) : (uintClass bits).settle o n = .ok (uint n h) :=
  IntClass.settle_of_mem _ _

theorem fromInt_uint (h : n < 2 ^ bits) : (uintClass bits).fromInt n = .ok (uint n h) :=
  IntClass.fromInt_of_mem _ _

variable (hn : n < 2 ^ bits)

theorem uint_add (h : n + k < 2 ^ bits) : (uint n hn).add o k = .ok (uint (n + k) h) := by
  rw [← settle_uint (o := o) h]
  rfl

theorem uint_sub (h : k ≤ n) : (uint n hn).sub o k = .ok (uint (n - k) (by omega)) := by
  rw [← settle_uint (o := o), Int.ofNat_sub h]
  rfl

theorem uint_mul (h : n * k < 2 ^ bits) : (uint n hn).mul o k = .ok (uint (n * k) h) := by
  rw [← settle_uint (o := o) h, Int.natCast_mul]
  rfl

theorem uint_div (hk : k ≠ 0) :
    (uint n hn).div o k = .ok (uint (n / k) ((Nat.div_le_self n k).trans_lt hn)) := by
  rw [← settle_uint (o := o), BoundedInt.div, if_neg (by exact_mod_cast hk)]
  rfl

theorem uint_mod (hk : k ≠ 0) :
    (uint n hn).mod o k = .ok (uint (n % k) ((Nat.mod_le n k).trans_lt hn)) := by
  rw [← settle_uint (o := o), BoundedInt.mod, if_neg (by exact_mod_cast hk), value_uint,
    ← Int.ofNat_tmod, ← Int.natCast_add, ← Int.ofNat_tmod, Nat.add_mod_right, Nat.mod_mod]

theorem uint_and : (uint n hn).and o k = .ok (uint (n &&& k) (Nat.and_le_left.trans_lt hn)) := by
  rw [← settle_uint (o := o)]
  rfl

theorem uint_or (hk : k < 2 ^ bits) :
    (uint n hn).or o k = .ok (uint (n ||| k) (Nat.or_lt_two_pow hn hk)) := by
  rw [← settle_uint (o := o)]
  rfl

theorem uint_shl (h : n * 2 ^ k < 2 ^ bits) : (uint n hn).shl o k = .ok (uint (n * 2 ^ k) h) := by
  rw [← settle_uint (o := o) h]
  push_cast
  rfl

theorem uint_shr :
    (uint n hn).shr o k = .ok (uint (n / 2 ^ k) ((Nat.div_le_self _ _).trans_lt hn)) := by
  rw [← settle_uint (o := o), BoundedInt.shr, value_uint, Int.shiftRight_eq_div_pow]
  push_cast
  rfl

theorem uint_eq : (uint n hn).eq k = decide (n = k) := by
  rw [BoundedInt.eq, value_uint, Bool.eq_iff_iff]
  simp

theorem uint_gt : (uint n hn).gt k = decide (k < n) := by simp [BoundedInt.gt]

theorem uint_gte : (uint n hn).gte k = decide (k ≤ n) := by simp [BoundedInt.gte]

theorem uint_lt : (uint n hn).lt k = decide (n < k) := by simp [BoundedInt.lt]

end Values

/-! ### From ticks to prices -/

/-- `ratio` after one conditional multiplication. -/
def ratioStep (absTick ratio : ℕ) (factor : ℕ × ℕ) : ℕ :=
  if absTick &&& factor.1 = 0 then ratio else ratio * factor.2 / 2 ^ 128

/-- `ratio` after all multiplications. -/
def ratioAt (absTick : ℕ) : ℕ :=
  factors.foldl (ratioStep absTick) (if absTick &&& 0x1 = 0 then 2 ^ 128 else firstFactor)

/-- `ratio`, inverted above zero. -/
def ratioOf (tick : ℤ) : ℕ :=
  if 0 < tick then (2 ^ 256 - 1) / ratioAt tick.natAbs else ratioAt tick.natAbs

/-- The square root price of a tick, rounded up to 96 bits after the point. -/
def sqrtRatio (tick : ℤ) : ℕ :=
  ratioOf tick / 2 ^ 32 + if ratioOf tick % 2 ^ 32 = 0 then 0 else 1

section Ratio

variable {o : Overflow} {a r b : ℕ} {factor : ℕ × ℕ} {l : List (ℕ × ℕ)}

theorem factors_lt : ∀ factor ∈ factors, factor.2 < 2 ^ 128 := by decide

theorem ratioStep_le (hr : r ≤ b) (hfactor : factor.2 < 2 ^ 128) : ratioStep a r factor ≤ b := by
  unfold ratioStep
  split_ifs
  · exact hr
  · refine (Nat.div_le_of_le_mul ?_).trans hr
    rw [mul_comm]
    exact Nat.mul_le_mul_right r hfactor.le

theorem foldl_ratioStep_le (hl : ∀ factor ∈ l, factor.2 < 2 ^ 128) (hr : r ≤ b) :
    l.foldl (ratioStep a) r ≤ b := by
  induction l generalizing r with
  | nil => exact hr
  | cons factor l ih =>
    exact ih (fun f hf => hl f (List.mem_cons_of_mem _ hf))
      (ratioStep_le hr (hl factor List.mem_cons_self))

theorem ratioAt_le (a : ℕ) : ratioAt a ≤ 2 ^ 128 :=
  foldl_ratioStep_le factors_lt (by split_ifs <;> decide)

theorem lt_of_le_one (hr : r ≤ 2 ^ 128) : r < 2 ^ 256 := hr.trans_lt (by decide)

theorem applyFactor_eq (ha : a < 2 ^ 256) (hr : r ≤ 2 ^ 128) (hfactor : factor.2 < 2 ^ 128) :
    applyFactor o (uint a ha) (uint r (lt_of_le_one hr)) factor =
      .ok (uint (ratioStep a r factor) (lt_of_le_one (ratioStep_le hr hfactor))) := by
  have hmul : r * factor.2 < 2 ^ 256 :=
    calc r * factor.2 ≤ 2 ^ 128 * factor.2 := Nat.mul_le_mul_right _ hr
      _ < 2 ^ 128 * 2 ^ 128 := Nat.mul_lt_mul_of_pos_left hfactor (by decide)
      _ = 2 ^ 256 := by norm_num
  have hzero : (uint (a &&& factor.1) (Nat.and_le_left.trans_lt ha) : BoundedInt uint256).eq 0 =
      decide (a &&& factor.1 = 0) := uint_eq _
  simp only [applyFactor, uint_and, ok_bind, hzero]
  by_cases hbit : a &&& factor.1 = 0
  · simp [hbit, ratioStep, pure, Except.pure]
  · simp only [hbit, ratioStep, uint_mul _ hmul, ok_bind, uint_shr]
    rfl

/-- The multiplications of the code, one after the other. -/
theorem foldlM_applyFactor (ha : a < 2 ^ 256) (hl : ∀ factor ∈ l, factor.2 < 2 ^ 128)
    (hr : r ≤ 2 ^ 128) :
    l.foldlM (applyFactor o (uint a ha)) (uint r (lt_of_le_one hr)) =
      .ok (uint (l.foldl (ratioStep a) r) (lt_of_le_one (foldl_ratioStep_le hl hr))) := by
  induction l generalizing r with
  | nil => rfl
  | cons factor l ih =>
    have hfactor := hl factor List.mem_cons_self
    rw [List.foldlM_cons, applyFactor_eq ha hr hfactor, ok_bind]
    exact ih (fun f hf => hl f (List.mem_cons_of_mem _ hf)) (ratioStep_le hr hfactor)

end Ratio

/-- The size of a tick, as the code computes it. -/
theorem abs_fromInt {tick : ℤ} (hmin : int24.min ≤ tick) (hmax : tick ≤ int24.max)
    (habs : |tick| ≤ int24.max) :
    (⟨tick, hmin, hmax⟩ : BoundedInt int24).abs =
      .ok ⟨|tick|, hmin.trans (le_abs_self tick), habs⟩ := by
  unfold BoundedInt.abs
  dsimp only
  split_ifs with hneg
  · have hval : tick * -1 = |tick| := by rw [abs_of_neg hneg]; ring
    simp only [hval]
    exact IntClass.fromInt_of_mem _ _
  · simp only [abs_of_nonneg (not_lt.mp hneg)]

theorem ratioOf_le {tick : ℤ} (h : 2 ^ 64 < ratioAt tick.natAbs) :
    ratioOf tick ≤ 2 ^ 192 - 2 ^ 64 := by
  unfold ratioOf
  split_ifs
  · calc (2 ^ 256 - 1) / ratioAt tick.natAbs ≤ (2 ^ 256 - 1) / (2 ^ 64 + 1) :=
          Nat.div_le_div_left h (by decide)
      _ ≤ 2 ^ 192 - 2 ^ 64 := by decide
  · exact (ratioAt_le _).trans (by decide)

theorem sqrtRatio_lt {tick : ℤ} (h : 2 ^ 64 < ratioAt tick.natAbs) : sqrtRatio tick < 2 ^ 160 := by
  have hle := ratioOf_le h
  unfold sqrtRatio
  split_ifs <;> omega

theorem startRatio_eq {o : Overflow} {a : ℕ} (ha : a < 2 ^ 256) :
    startRatio o (uint a ha) =
      .ok (uint (if a &&& 0x1 = 0 then 2 ^ 128 else firstFactor) (by split_ifs <;> decide)) := by
  have hand : (uint a ha : BoundedInt uint256).and o 1 =
      .ok (uint (a &&& 1) (Nat.and_le_left.trans_lt ha)) := uint_and ha
  have hzero : (uint (a &&& 1) (Nat.and_le_left.trans_lt ha) : BoundedInt uint256).eq 0 =
      decide (a &&& 1 = 0) := uint_eq _
  simp only [startRatio, hand, ok_bind, hzero]
  by_cases hbit : a &&& 1 = 0
  · simp only [hbit, decide_true, Bool.not_true, if_true]
    exact fromInt_uint _
  · simp only [hbit, decide_false, Bool.not_false, if_true, if_false]
    exact fromInt_uint _

theorem invertRatio_eq {o : Overflow} {tick : ℤ} {n : ℕ} (hmin : int24.min ≤ tick)
    (hmax : tick ≤ int24.max) (hn : n < 2 ^ 256) (hpos : n ≠ 0) :
    invertRatio o tick (uint n hn) =
      .ok (uint (if 0 < tick then (2 ^ 256 - 1) / n else n)
        (by split_ifs; exacts [(Nat.div_le_self _ _).trans_lt (by decide), hn])) := by
  have hmax256 : uint256.fromInt uint256.max = .ok (uint (2 ^ 256 - 1) (by decide)) :=
    fromInt_uint _
  simp only [invertRatio, IntClass.fromInt_of_mem hmin hmax, ok_bind, hmax256, value_uint,
    uint_div _ hpos, BoundedInt.gt, decide_eq_true_eq]
  by_cases htick : 0 < tick
  · simp only [if_pos htick]
  · simp only [if_neg htick]
    rfl

theorem roundRatio_eq {o : Overflow} {n : ℕ} (hn : n < 2 ^ 256)
    (hle : n / 2 ^ 32 + (if n % 2 ^ 32 = 0 then 0 else 1) < 2 ^ 160) :
    roundRatio o (uint n hn) = .ok ((n / 2 ^ 32 + if n % 2 ^ 32 = 0 then 0 else 1 : ℕ) : ℤ) := by
  have hlt : n / 2 ^ 32 < 2 ^ 160 := (Nat.le_add_right _ _).trans_lt hle
  have hone : uint256.fromInt 1 = .ok (uint 1 (by decide)) := fromInt_uint _
  have hshl : (uint 1 (by decide) : BoundedInt uint256).shl o 32 =
      .ok (uint (1 * 2 ^ 32) (by decide)) := uint_shl _ _
  have hmod : (uint n hn).mod o ((1 * 2 ^ 32 : ℕ) : ℤ) = .ok (uint (n % (1 * 2 ^ 32)) _) :=
    uint_mod hn (by decide)
  have hzero : (uint (n % (1 * 2 ^ 32)) ((Nat.mod_le n _).trans_lt hn) : BoundedInt uint256).eq 0 =
      decide (n % (1 * 2 ^ 32) = 0) := uint_eq _
  have hcast : (if decide (n % (1 * 2 ^ 32) = 0) = true then (0 : ℤ) else 1) =
      ((if n % 2 ^ 32 = 0 then 0 else 1 : ℕ) : ℤ) := by
    simp only [one_mul, decide_eq_true_eq]
    split_ifs <;> rfl
  simp only [roundRatio, uint_shr, ok_bind, value_uint, fromInt_uint hlt, hone, hshl, hmod, hzero,
    hcast, uint_add _ hle]
  rfl

/-- The code answers the square root price, and nothing wraps around on the way. -/
theorem getSqrtRatioAtTick_eq {o : Overflow} {tick : ℤ} (hmin : minTick ≤ tick)
    (hmax : tick ≤ maxTick) (hratio : 2 ^ 64 < ratioAt tick.natAbs) :
    getSqrtRatioAtTick o tick = .ok (sqrtRatio tick) := by
  have habs : |tick| = (tick.natAbs : ℤ) := Int.abs_eq_natAbs tick
  have hle : tick.natAbs ≤ 887272 := by unfold minTick at hmin; unfold maxTick at hmax; omega
  have h24 : int24.min = -8388608 ∧ int24.max = 8388607 := ⟨rfl, rfl⟩
  have hmin24 : int24.min ≤ tick := by unfold minTick at hmin; omega
  have hmax24 : tick ≤ int24.max := by unfold maxTick at hmax; omega
  have ha : tick.natAbs < 2 ^ 256 := hle.trans_lt (by decide)
  have hmaxTick : uint256.fromInt maxTick = .ok (uint 887272 (by decide)) := fromInt_uint _
  have hstart : (if tick.natAbs &&& 0x1 = 0 then 2 ^ 128 else firstFactor) ≤ 2 ^ 128 := by
    split_ifs <;> decide
  simp only [getSqrtRatioAtTick, IntClass.fromInt_of_mem hmin24 hmax24, ok_bind,
    abs_fromInt hmin24 hmax24 (by omega), habs, fromInt_uint ha, hmaxTick, value_uint, uint_gt,
    startRatio_eq ha, foldlM_applyFactor ha factors_lt hstart, decide_eq_true_eq,
    if_neg hle.not_gt]
  rw [invertRatio_eq hmin24 hmax24 _ (by exact (hratio.trans_le' (Nat.zero_le _)).ne'), ok_bind]
  exact roundRatio_eq _ (sqrtRatio_lt hratio)

/-- Every other tick is refused, before anything is multiplied. -/
theorem getSqrtRatioAtTick_eq_error {tick : ℤ} (h : tick < minTick ∨ maxTick < tick) :
    ∃ e, ∀ o, getSqrtRatioAtTick o tick = .error e := by
  have hlim : minTick = -887272 ∧ maxTick = 887272 := ⟨rfl, rfl⟩
  have h24 : int24.min = -8388608 ∧ int24.max = 8388607 := ⟨rfl, rfl⟩
  by_cases hrange : tick < int24.min ∨ int24.max < tick
  · obtain ⟨e, he⟩ := IntClass.fromInt_eq_error hrange
    exact ⟨e, fun o => by rw [getSqrtRatioAtTick, he]; rfl⟩
  · have hmin24 : int24.min ≤ tick := by omega
    have hmax24 : tick ≤ int24.max := by omega
    rcases eq_or_lt_of_le hmin24 with rfl | hlt
    -- the lowest number of the class has no absolute value in it
    · exact ⟨_, fun o => rfl⟩
    · have habs : |tick| = (tick.natAbs : ℤ) := Int.abs_eq_natAbs tick
      have hle : 887272 < tick.natAbs := by omega
      have ha : tick.natAbs < 2 ^ 256 := (by omega : tick.natAbs < 8388608).trans (by decide)
      have hmaxTick : uint256.fromInt maxTick = .ok (uint 887272 (by decide)) := fromInt_uint _
      refine ⟨"T", fun o => ?_⟩
      simp only [getSqrtRatioAtTick, IntClass.fromInt_of_mem hmin24 hmax24, ok_bind,
        abs_fromInt hmin24 hmax24 (by omega), habs, fromInt_uint ha, hmaxTick, value_uint, uint_gt,
        decide_eq_true_eq, if_pos hle]
      rfl

end TickMath

end SwaptoshiService
