import SwaptoshiService.Indexer.TickPrices

/-!
# The tick of a price

How `getTickAtSqrtRatio` inverts `getSqrtRatioAtTick`. The position of the leading one is found by
halving the bits that are left (`leadingBit_eq`); with it moved to position 127, fourteen squarings
give the bits of the logarithm to base two after the point (`logTwo_eq`). Scaled to ticks, the
logarithm that the code has is at most `0.847` ticks too low and hardly too high: the tick looked for
is one of two (`sqrtRatio_le_of_le`, `lt_sqrtRatio_of_lt`), and the code compares the price of the
higher one.

`tick_math`: the two functions are exact inverses, and nothing wraps around in either.
-/

namespace SwaptoshiService

namespace TickMath

open LiquidityAmounts (minSqrtRatio maxSqrtRatio)

/-! ### The leading one -/

section Search

variable {o : Overflow} {n m k : ℕ}

/-- The search has shifted `n` by `m`, a multiple of `2 ^ k`, and less than `2 ^ k` bits are left. -/
structure Searched (n k m : ℕ) : Prop where
  dvd : 2 ^ k ∣ m
  pos : 0 < n / 2 ^ m
  lt : n / 2 ^ m < 2 ^ 2 ^ k

theorem Searched.lt_of_lt (h : Searched n k m) {b : ℕ} (hn : n < 2 ^ b) : m < b := by
  have hle : 2 ^ m ≤ n := (Nat.one_le_div_iff (Nat.two_pow_pos m)).mp h.pos
  exact (Nat.pow_lt_pow_iff_right (by decide)).mp (hle.trans_lt hn)

/-- Half of the bits that are left are dropped, the lower ones when there is a one above. -/
theorem Searched.halve (h : Searched n (k + 1) m) :
    Searched n k (m + if 2 ^ 2 ^ k - 1 < n / 2 ^ m then 2 ^ k else 0) := by
  have hpos : 0 < 2 ^ 2 ^ k := Nat.two_pow_pos _
  have hdvd : 2 ^ k ∣ m := (pow_dvd_pow 2 k.le_succ).trans h.dvd
  split_ifs with hone
  · have hdiv : n / 2 ^ (m + 2 ^ k) = n / 2 ^ m / 2 ^ 2 ^ k := by rw [pow_add, Nat.div_div_eq_div_mul]
    refine ⟨hdvd.add (dvd_refl _), ?_, ?_⟩
    · rw [hdiv]
      exact Nat.div_pos (by omega) hpos
    · rw [hdiv, Nat.div_lt_iff_lt_mul hpos, ← pow_add, ← two_mul, ← pow_succ']
      exact h.lt
  · exact ⟨hdvd, h.pos, by rw [Nat.add_zero]; omega⟩

theorem or_eq_add (h : 2 ^ (k + 1) ∣ m) : m ||| 2 ^ k = m + 2 ^ k := by
  obtain ⟨a, rfl⟩ := h
  exact (Nat.two_pow_add_eq_or_of_lt (Nat.pow_lt_pow_right (by decide) k.lt_succ_self) a).symm

/-- The state of the search that has shifted `n` by `m`. -/
def searchState (n m : ℕ) (hn : n < 2 ^ 256) (hm : m < 2 ^ 256) :
    BoundedInt uint256 × BoundedInt uint256 :=
  (uint (n / 2 ^ m) ((Nat.div_le_self _ _).trans_lt hn), uint m hm)

theorem bit_lt {c : Prop} [Decidable c] : (if c then 1 else 0) < 2 ^ 256 := by
  split_ifs <;> decide

theorem fromInt_bit {t : ℕ} (hn : n < 2 ^ 256) :
    uint256.fromInt (if (uint n hn).gt t then 1 else 0) =
      .ok (uint (if t < n then 1 else 0) bit_lt) := by
  rw [uint_gt, ← fromInt_uint]
  simp only [decide_eq_true_eq]
  split_ifs <;> rfl

theorem searchBit_mk (r msb : BoundedInt uint256) (t : ℕ) :
    searchBit o (r, msb) (t, k) = (do
      let f ← (← uint256.fromInt (if r.gt t then 1 else 0)).shl o k
      let msb ← msb.or o f.value
      return (← r.shr o f.value.toNat, msb)) := rfl

theorem searchBit_eq (hn : n < 2 ^ 256) (hm : m < 2 ^ 256) (h : Searched n (k + 1) m) :
    ∃ m', ∃ hm' : m' < 2 ^ 256, Searched n k m' ∧
      searchBit o (searchState n m hn hm) (2 ^ 2 ^ k - 1, k) = .ok (searchState n m' hn hm') := by
  obtain ⟨b, hb⟩ : ∃ b, b = if 2 ^ 2 ^ k - 1 < n / 2 ^ m then 1 else 0 := ⟨_, rfl⟩
  have hblt : b < 2 ^ 256 := hb ▸ bit_lt
  have hnext := h.halve
  rw [show (if 2 ^ 2 ^ k - 1 < n / 2 ^ m then 2 ^ k else 0) = b * 2 ^ k by
    rw [hb]; split_ifs <;> simp] at hnext
  have hm' : m + b * 2 ^ k < 2 ^ 256 := (hnext.lt_of_lt hn).trans (by decide)
  have hshift : b * 2 ^ k < 2 ^ 256 := (Nat.le_add_left _ _).trans_lt hm'
  have hor : m ||| b * 2 ^ k = m + b * 2 ^ k := by
    rw [hb]
    split_ifs
    · rw [one_mul, or_eq_add h.dvd]
    · rw [zero_mul, Nat.or_zero, Nat.add_zero]
  refine ⟨_, hm', hnext, ?_⟩
  rw [searchState, searchBit_mk, fromInt_bit]
  simp only [ok_bind, ← hb, uint_shl hblt hshift, value_uint,
    uint_or hm hshift, Int.toNat_natCast, uint_shr, hor, Nat.div_div_eq_div_mul, ← pow_add]
  rfl

/-- The search over the bits below `K`, from the highest. -/
theorem foldlM_searchBit (hn : n < 2 ^ 256) (K : ℕ) (hm : m < 2 ^ 256)
    (h : Searched n (K + 1) m) :
    ∃ m', ∃ hm' : m' < 2 ^ 256, Searched n 1 m' ∧
      ((List.range K).reverse.map fun k => (2 ^ 2 ^ (k + 1) - 1, k + 1)).foldlM (searchBit o)
        (searchState n m hn hm) = .ok (searchState n m' hn hm') := by
  induction K generalizing m with
  | zero => exact ⟨m, hm, h, rfl⟩
  | succ K ih =>
    obtain ⟨m', hm', h', hstep⟩ := searchBit_eq (o := o) hn hm h
    obtain ⟨m'', hm'', hlast, hrun⟩ := ih hm' h'
    refine ⟨m'', hm'', hlast, ?_⟩
    rw [List.range_succ, List.reverse_append, List.reverse_singleton, List.singleton_append,
      List.map_cons, List.foldlM_cons, hstep, ok_bind, hrun]

theorem thresholds_eq :
    thresholds = (List.range 7).reverse.map fun k => (2 ^ 2 ^ (k + 1) - 1, k + 1) := by decide

theorem leadingBit_eq (hn : n < 2 ^ 256) (hpos : 0 < n) :
    ∃ m, ∃ hm : m < 2 ^ 256, 2 ^ m ≤ n ∧ n < 2 ^ (m + 1) ∧
      leadingBit o (uint n hn) = .ok (uint m hm) := by
  have hstart : Searched n 8 0 := ⟨dvd_zero _, by simpa using hpos, by simpa using hn⟩
  obtain ⟨m, hm, h, hrun⟩ := foldlM_searchBit (o := o) hn 7 (by decide) hstart
  rw [← thresholds_eq] at hrun
  have hlast := h.halve
  have hm' : m + (if 1 < n / 2 ^ m then 1 else 0) < 2 ^ 256 :=
    (hlast.lt_of_lt hn).trans (by decide)
  have hor : m ||| (if 1 < n / 2 ^ m then 1 else 0) = m + if 1 < n / 2 ^ m then 1 else 0 := by
    split_ifs
    · exact or_eq_add h.dvd
    · rw [Nat.or_zero, Nat.add_zero]
  refine ⟨_, hm', (Nat.one_le_div_iff (Nat.two_pow_pos _)).mp hlast.pos, ?_, ?_⟩
  · have hlt := hlast.lt
    rw [Nat.div_lt_iff_lt_mul (Nat.two_pow_pos _)] at hlt
    rw [pow_succ']
    exact hlt
  · have hzero : uint256.fromInt 0 = .ok (uint 0 (by decide)) := fromInt_uint _
    have hstate : (uint n hn, uint 0 (by decide)) = searchState n 0 hn (by decide) := by
      simp [searchState]
    have hbit : uint256.fromInt (if (searchState n m hn hm).1.gt 1 then 1 else 0) =
        .ok (uint (if 1 < n / 2 ^ m then 1 else 0) bit_lt) :=
      fromInt_bit ((Nat.div_le_self n (2 ^ m)).trans_lt hn)
    have hmsb : (searchState n m hn hm).2 = uint m hm := rfl
    simp only [leadingBit, value_uint, fromInt_uint hn, hzero, ok_bind]
    rw [hstate, hrun, ok_bind]
    simp only [hbit, ok_bind, value_uint, hmsb, uint_or hm bit_lt, hor]

theorem scaled_lt (hupper : n < 2 ^ (m + 1)) : n * 2 ^ 127 / 2 ^ m < 2 ^ 128 := by
  rw [Nat.div_lt_iff_lt_mul (Nat.two_pow_pos m)]
  calc n * 2 ^ 127 < 2 ^ (m + 1) * 2 ^ 127 := Nat.mul_lt_mul_of_pos_right hupper (by decide)
    _ = 2 ^ 128 * 2 ^ m := by rw [← pow_add, ← pow_add]; congr 1; omega

theorem shift_down {a : ℕ} (hle : a ≤ m) : n * 2 ^ a / 2 ^ m = n / 2 ^ (m - a) := by
  rw [← Nat.mul_div_mul_right n (2 ^ (m - a)) (Nat.two_pow_pos a), ← pow_add,
    Nat.sub_add_cancel hle]

theorem shift_up {a : ℕ} (hle : m ≤ a) : n * 2 ^ a / 2 ^ m = n * 2 ^ (a - m) := by
  conv_lhs => rw [← Nat.sub_add_cancel hle]
  rw [pow_add, ← mul_assoc, Nat.mul_div_cancel _ (Nat.two_pow_pos m)]

/-- `ratio` with its leading one moved, up or down, without a bit too much. -/
theorem normalize_eq (hn : n < 2 ^ 256) (hm : m < 2 ^ 256) (hupper : n < 2 ^ (m + 1)) :
    normalize o (uint n hn) (uint m hm) =
      .ok (uint (n * 2 ^ 127 / 2 ^ m) ((scaled_lt hupper).trans (by decide))) := by
  have hgte : (uint m hm : BoundedInt uint256).gte 128 = decide (128 ≤ m) := uint_gte _
  have h127 : uint256.fromInt 127 = .ok (uint 127 (by decide)) := fromInt_uint _
  simp only [normalize, hgte, decide_eq_true_eq, h127, ok_bind, value_uint]
  split_ifs with hle
  · have hsub : (uint m hm : BoundedInt uint256).sub o 127 = .ok (uint (m - 127) (by omega)) :=
      uint_sub (k := 127) hm (by omega)
    simp only [hsub, ok_bind, value_uint, Int.toNat_natCast, uint_shr,
      shift_down (by omega : 127 ≤ m)]
  · have hsub : (uint 127 (by decide) : BoundedInt uint256).sub o m =
        .ok (uint (127 - m) (by omega)) := uint_sub _ (by omega)
    have hlt : n * 2 ^ (127 - m) < 2 ^ 256 := by
      rw [← shift_up (by omega : m ≤ 127)]
      exact (scaled_lt hupper).trans (by decide)
    simp only [hsub, ok_bind, value_uint, Int.toNat_natCast, uint_shl hn hlt,
      shift_up (by omega : m ≤ 127)]

end Search

/-! ### The bits of the logarithm -/

section Bits

variable {o : Overflow} {y : ℝ} {i r : ℕ} {N : ℤ}

theorem lor_zero : ∀ n : ℤ, n.lor 0 = n
  | (n : ℕ) => congrArg Int.ofNat (Nat.or_zero n)
  | .negSucc n => congrArg Int.negSucc (Nat.eq_of_testBit_eq fun i => by simp [Nat.testBit_ldiff])

/-- A bit is or-ed to a number with zeros in its place and below. -/
theorem lor_bit_eq (N : ℤ) (b : ℕ) (hb : b ≤ 1) (k : ℕ) :
    (N * 2 ^ (k + 1)).lor ((b * 2 ^ k : ℕ) : ℤ) = (2 * N + b) * 2 ^ k := by
  obtain ⟨c, hc⟩ : ∃ c : Bool, (b : ℤ) = bif c then 1 else 0 := by
    obtain rfl | rfl : b = 0 ∨ b = 1 := by omega
    exacts [⟨false, rfl⟩, ⟨true, rfl⟩]
  push_cast
  rw [hc]
  induction k with
  | zero =>
    have h := Int.lor_bit false N c 0
    rw [Int.bit_val, Int.bit_val, Int.bit_val, lor_zero, Bool.false_or] at h
    simpa [mul_comm] using h
  | succ k ih =>
    have h := Int.lor_bit false (N * 2 ^ (k + 1)) false ((bif c then 1 else 0) * 2 ^ k)
    rw [Int.bit_val, Int.bit_val, Int.bit_val, ih] at h
    simp only [cond_false, add_zero, Bool.or_false] at h
    have hN : N * 2 ^ (k + 1 + 1) = 2 * (N * 2 ^ (k + 1)) := by ring
    have hbit (x : ℤ) : x * 2 ^ (k + 1) = 2 * (x * 2 ^ k) := by ring
    rw [hN, hbit (bif c then 1 else 0), hbit (2 * N + _)]
    exact h

/-- What is kept between two bits of the logarithm of `y`: `N` is what is known of it after `i`
bits, `r` what is left. -/
structure LogState (y : ℝ) (i : ℕ) (N : ℤ) (r : ℕ) : Prop extends BitLog 127 y i N r where
  le_bits : -(128 * 2 ^ i) ≤ N
  bits_lt : N < 128 * 2 ^ i

theorem LogState.bit_le_one (h : LogState y i N r) : r * r / 2 ^ 127 / 2 ^ 128 ≤ 1 := by
  have hr : r < 2 ^ 128 := h.upper
  have hmul : r * r < 2 ^ 128 * 2 ^ 128 := Nat.mul_self_lt_mul_self hr
  omega

theorem LogState.square (h : LogState y i N r) :
    LogState y (i + 1) (2 * N + (r * r / 2 ^ 127 / 2 ^ 128 : ℕ))
      (r * r / 2 ^ 127 / 2 ^ (r * r / 2 ^ 127 / 2 ^ 128)) := by
  have hbit := h.bit_le_one
  have hle := h.le_bits
  have hlt := h.bits_lt
  refine ⟨h.toBitLog.square, ?_, ?_⟩
  · rw [pow_succ]
    omega
  · rw [pow_succ]
    omega

theorem LogState.mem (h : LogState y i N r) (hi : i ≤ 14) :
    -2 ^ 71 ≤ N * 2 ^ (64 - i) ∧ N * 2 ^ (64 - i) < 2 ^ 71 := by
  have hpow : (128 * 2 ^ i * 2 ^ (64 - i) : ℤ) = 2 ^ 71 := by
    rw [mul_assoc, ← pow_add, Nat.add_sub_cancel' (by omega)]
    norm_num
  have hpos : (0 : ℤ) < 2 ^ (64 - i) := two_pow_pos _
  constructor
  · have := mul_le_mul_of_nonneg_right h.le_bits hpos.le
    linarith
  · have := mul_lt_mul_of_pos_right h.bits_lt hpos
    linarith

theorem LogState.int_bounds (h : LogState y i N r) (hi : i ≤ 14) :
    -2 ^ 255 ≤ N * 2 ^ (64 - i) ∧ N * 2 ^ (64 - i) ≤ 2 ^ 255 - 1 := by
  have := h.mem hi
  constructor <;> linarith

/-- `log_2` between two bits. -/
def LogState.log2 (h : LogState y i N r) (hi : i ≤ 14) : BoundedInt int256 :=
  ⟨N * 2 ^ (64 - i), (h.int_bounds hi).1, (h.int_bounds hi).2⟩

theorem LogState.lt (h : LogState y i N r) : r < 2 ^ 256 := h.upper.trans (by decide)

theorem LogState.div_lt (h : LogState y i N r) (k : ℕ) : r * r / 2 ^ 127 / k < 2 ^ 256 := by
  have hmul : r * r < 2 ^ 128 * 2 ^ 128 := Nat.mul_self_lt_mul_self h.upper
  exact ((Nat.div_le_self _ _).trans (Nat.div_le_self _ _)).trans_lt (by omega)

theorem LogState.mul_lt (h : LogState y i N r) : r * r < 2 ^ 256 := by
  have hmul : r * r < 2 ^ 128 * 2 ^ 128 := Nat.mul_self_lt_mul_self h.upper
  omega

theorem LogState.or_eq (h : LogState y i N r) (hi : i < 14) :
    (h.log2 hi.le).or o (r * r / 2 ^ 127 / 2 ^ 128 * 2 ^ (63 - i) : ℕ) =
      .ok (h.square.log2 hi) := by
  have hbounds := h.square.int_bounds hi
  have hor : (N * 2 ^ (64 - i)).lor (r * r / 2 ^ 127 / 2 ^ 128 * 2 ^ (63 - i) : ℕ) =
      (2 * N + (r * r / 2 ^ 127 / 2 ^ 128 : ℕ)) * 2 ^ (64 - (i + 1)) := by
    rw [(by omega : 64 - i = 63 - i + 1), lor_bit_eq N _ h.bit_le_one,
      (by omega : 64 - (i + 1) = 63 - i)]
  exact (congrArg (int256.settle o) hor).trans (IntClass.settle_of_mem hbounds.1 hbounds.2)

/-- One bit of the logarithm, with the three numbers of the code. -/
theorem logBit_eq (h : LogState y i N r) (hi : i < 14) :
    logBit o (uint r h.lt, h.log2 hi.le) (63 - i) =
      .ok (uint (r * r / 2 ^ 127) (by simpa using h.div_lt 1), uint (r * r / 2 ^ 127 / 2 ^ 128)
        (h.div_lt _), h.square.log2 hi) := by
  have hshl : r * r / 2 ^ 127 / 2 ^ 128 * 2 ^ (63 - i) < 2 ^ 256 :=
    calc r * r / 2 ^ 127 / 2 ^ 128 * 2 ^ (63 - i) ≤ 1 * 2 ^ 63 :=
          Nat.mul_le_mul h.bit_le_one (Nat.pow_le_pow_right (by decide) (by omega))
      _ < 2 ^ 256 := by decide
  simp only [logBit, value_uint, uint_mul _ h.mul_lt, ok_bind, uint_shr, uint_shl _ hshl, h.or_eq hi]
  rfl

theorem logStep_eq (h : LogState y i N r) (hi : i < 14) :
    logStep o (uint r h.lt, h.log2 hi.le) (63 - i) =
      .ok (uint _ h.square.lt, h.square.log2 hi) := by
  rw [logStep, logBit_eq h hi, ok_bind]
  simp only [value_uint, Int.toNat_natCast, uint_shr, ok_bind]
  rfl

theorem positions_eq : positions = (List.range 13).map (63 - ·) := by decide

/-- The bits of the logarithm, one after the other. -/
theorem foldlM_logStep (h : LogState y 0 N r) {j : ℕ} (hj : j ≤ 14) :
    ∃ N' r', ∃ h' : LogState y j N' r',
      ((List.range j).map (63 - ·)).foldlM (logStep o) (uint r h.lt, h.log2 (Nat.zero_le _)) =
        .ok (uint r' h'.lt, h'.log2 hj) := by
  induction j with
  | zero => exact ⟨N, r, h, rfl⟩
  | succ j ih =>
    obtain ⟨N', r', h', hrun⟩ := ih (by omega)
    refine ⟨_, _, h'.square, ?_⟩
    rw [List.range_succ, List.map_append, List.foldlM_append, hrun, ok_bind]
    simp only [List.map_cons, List.map_nil, List.foldlM_cons, List.foldlM_nil,
      logStep_eq h' (by omega : j < 14), ok_bind]
    rfl

/-- The logarithm that the code computes for `n / 2 ^ 128`. -/
theorem logTwo_eq {n : ℕ} (hn : n < 2 ^ 256) (hpos : 0 < n) :
    ∃ N r, ∃ h : LogState ((n : ℝ) / 2 ^ 128) 14 N r,
      logTwo o (uint n hn) = .ok (h.log2 le_rfl) := by
  obtain ⟨m, hm, hlower, hupper, hbit⟩ := leadingBit_eq (o := o) hn hpos
  have hm256 : m < 256 :=
    (Nat.pow_lt_pow_iff_right (by decide)).mp (hlower.trans_lt hn)
  have hstart : LogState ((n : ℝ) / 2 ^ 128) 0 (m - 128) (n * 2 ^ 127 / 2 ^ m) :=
    ⟨BitLog.start 128 hlower hupper, by omega, by omega⟩
  obtain ⟨N, r, h, hrun⟩ := foldlM_logStep (o := o) hstart (by decide : 13 ≤ 14)
  refine ⟨_, _, h.square, ?_⟩
  have hmin : int256.min = -2 ^ 255 := rfl
  have hmax : int256.max = 2 ^ 255 - 1 := rfl
  have hfrom : int256.fromInt m = .ok ⟨m, by omega, by omega⟩ := IntClass.fromInt_of_mem _ _
  have hsub : (⟨m, by omega, by omega⟩ : BoundedInt int256).sub o 128 =
      .ok ⟨m - 128, by omega, by omega⟩ := IntClass.settle_of_mem _ _
  have hshl : (⟨m - 128, by omega, by omega⟩ : BoundedInt int256).shl o 64 =
      .ok (hstart.log2 (Nat.zero_le _)) :=
    IntClass.settle_of_mem (hstart.int_bounds (Nat.zero_le _)).1
      (hstart.int_bounds (Nat.zero_le _)).2
  simp only [logTwo, hbit, ok_bind, normalize_eq hn hm hupper, value_uint, hfrom, hsub, hshl,
    positions_eq]
  rw [hrun, ok_bind, logBit_eq h (by decide)]
  rfl


end Bits

/-! ### The two ticks that are compared -/

section Bounds

open Real

variable {N : ℤ} {r x : ℕ}

/-- The factor of the code from logarithms to base two to ticks, against the exact one. -/
theorem scale_near : |tickLog * (255738958999603826347141 / 2 ^ 64) - log 2| ≤ 1 / 10 ^ 9 := by
  have h := abs_le.mp tickLog_near
  rw [abs_le]
  constructor <;> norm_num at h ⊢ <;> linarith [log_two_gt_d9, log_two_lt_d9, h.1, h.2]

/-- The logarithm of the code, scaled to ticks, is not far from the exact one. -/
theorem scaled_near (hle : -(128 * 2 ^ 14) ≤ N) (hlt : N < 128 * 2 ^ 14) :
    |(N : ℝ) / 2 ^ 14 * (tickLog * (255738958999603826347141 / 2 ^ 64)) - N / 2 ^ 14 * log 2| ≤
      128 / 10 ^ 9 := by
  have hN : |(N : ℝ) / 2 ^ 14| ≤ 128 := by
    have hle' : (-(128 * 2 ^ 14) : ℝ) ≤ N := by exact_mod_cast hle
    have hlt' : (N : ℝ) < 128 * 2 ^ 14 := by exact_mod_cast hlt
    rw [abs_le]
    constructor <;> linarith
  rw [← mul_sub, abs_mul]
  calc _ ≤ 128 * (1 / 10 ^ 9) := mul_le_mul hN scale_near (abs_nonneg _) (by norm_num)
    _ = 128 / 10 ^ 9 := by ring

/-- A price as the code sees it: with 128 bits after the point. -/
theorem log_price (hx : 0 < x) :
    log (((x * 2 ^ 32 : ℕ) : ℝ) / 2 ^ 128) = log x - 96 * log 2 := by
  have hx' : (0 : ℝ) < x := Nat.cast_pos.mpr hx
  rw [Nat.cast_mul, Nat.cast_pow, Nat.cast_two, BitLog.log_div_two_pow (by positivity),
    log_mul hx'.ne' (by positivity), log_pow]
  push_cast
  ring

/-- The price of a tick up to the lower bound is not above the price. -/
theorem sqrtRatio_le_of_le (hx : 0 < x)
    (h : LogState (((x * 2 ^ 32 : ℕ) : ℝ) / 2 ^ 128) 14 N r) {tick : ℤ} (hmin : minTick ≤ tick)
    (hmax : tick ≤ maxTick)
    (hlow : tick * 2 ^ 128 ≤
      N * 2 ^ 50 * 255738958999603826347141 - 3402992956809132418596140100660247210) :
    sqrtRatio tick ≤ x := by
  have hprice := (near_sqrtRatio hmin hmax).log_le
  have hlog := h.floor_bounds.1
  rw [log_price hx] at hlog
  have hscaled := abs_le.mp (scaled_near h.le_bits h.bits_lt)
  have hlow' : (tick : ℝ) * 2 ^ 128 ≤
      N * 2 ^ 50 * 255738958999603826347141 - 3402992956809132418596140100660247210 := by
    exact_mod_cast hlow
  have hticks := mul_le_mul_of_nonneg_right hlow' (by linarith [tickLog_gt] : 0 ≤ tickLog)
  have hle : log (sqrtRatio tick) ≤ log x := by
    norm_num at hprice hlog hscaled hticks ⊢
    linarith [tickLog_gt, tickLog_lt, hscaled.1, hscaled.2]
  have hpos := (near_sqrtRatio hmin hmax).pos
  exact_mod_cast (log_le_log_iff hpos (Nat.cast_pos.mpr hx)).mp hle

/-- The price of a tick above the upper bound is above the price. -/
theorem lt_sqrtRatio_of_lt (hx : 0 < x)
    (h : LogState (((x * 2 ^ 32 : ℕ) : ℝ) / 2 ^ 128) 14 N r) {tick : ℤ} (hmin : minTick ≤ tick)
    (hmax : tick ≤ maxTick)
    (hhi : N * 2 ^ 50 * 255738958999603826347141 + 291339464771989622907027621153398088495 <
      tick * 2 ^ 128) :
    x < sqrtRatio tick := by
  have hprice := (near_sqrtRatio hmin hmax).le_log
  have hlog := h.floor_bounds.2
  rw [log_price hx] at hlog
  have hscaled := abs_le.mp (scaled_near h.le_bits h.bits_lt)
  have hhi' : (N : ℝ) * 2 ^ 50 * 255738958999603826347141 +
      291339464771989622907027621153398088495 < tick * 2 ^ 128 := by
    exact_mod_cast hhi
  have hticks := mul_lt_mul_of_pos_right hhi' (by linarith [tickLog_gt] : 0 < tickLog)
  have hlt : log x < log (sqrtRatio tick) := by
    norm_num at hprice hlog hscaled hticks ⊢
    linarith [tickLog_gt, tickLog_lt, hscaled.1, hscaled.2, log_two_lt_d9]
  have hpos := (near_sqrtRatio hmin hmax).pos
  exact_mod_cast (log_lt_log_iff (Nat.cast_pos.mpr hx) hpos).mp hlt

end Bounds

/-! ### The greatest tick -/

section Greatest

variable {o : Overflow} {N : ℤ} {r x : ℕ}

theorem sqrtRatio_minTick : sqrtRatio minTick = minSqrtRatio := by decide

theorem sqrtRatio_maxTick : sqrtRatio maxTick = maxSqrtRatio := by decide

/-- The scaled logarithm of the code. -/
def scaledLog (N : ℤ) : ℤ := N * 2 ^ 50 * 255738958999603826347141

theorem scaledLog_mem {y : ℝ} (h : LogState y 14 N r) :
    -2 ^ 200 ≤ scaledLog N ∧ scaledLog N ≤ 2 ^ 200 := by
  have hle := h.le_bits
  have hlt := h.bits_lt
  unfold scaledLog
  omega

/-- The lower one of the two ticks that are compared. -/
def tickLow (N : ℤ) : ℤ := (scaledLog N - 3402992956809132418596140100660247210) / 2 ^ 128

/-- The higher one. -/
def tickHi (N : ℤ) : ℤ := (scaledLog N + 291339464771989622907027621153398088495) / 2 ^ 128

theorem tickHi_bounds (N : ℤ) : tickLow N ≤ tickHi N ∧ tickHi N ≤ tickLow N + 1 := by
  unfold tickHi tickLow
  omega

theorem sqrtRatio_le_of_le_tickLow (hx : 0 < x)
    (h : LogState (((x * 2 ^ 32 : ℕ) : ℝ) / 2 ^ 128) 14 N r) {tick : ℤ} (hmin : minTick ≤ tick)
    (hmax : tick ≤ maxTick) (hle : tick ≤ tickLow N) : sqrtRatio tick ≤ x := by
  refine sqrtRatio_le_of_le hx h hmin hmax ?_
  unfold tickLow scaledLog at hle
  omega

theorem lt_sqrtRatio_of_tickHi_lt (hx : 0 < x)
    (h : LogState (((x * 2 ^ 32 : ℕ) : ℝ) / 2 ^ 128) 14 N r) {tick : ℤ} (hmin : minTick ≤ tick)
    (hmax : tick ≤ maxTick) (hlt : tickHi N < tick) : x < sqrtRatio tick := by
  refine lt_sqrtRatio_of_lt hx h hmin hmax ?_
  unfold tickHi scaledLog at hlt
  omega

theorem minTick_le_tickHi (hmin : minSqrtRatio ≤ x)
    (h : LogState (((x * 2 ^ 32 : ℕ) : ℝ) / 2 ^ 128) 14 N r) : minTick ≤ tickHi N := by
  by_contra hlt
  have := lt_sqrtRatio_of_tickHi_lt (lt_of_lt_of_le (by decide) hmin) h le_rfl (by decide)
    (not_le.mp hlt)
  rw [sqrtRatio_minTick] at this
  omega

theorem tickLow_lt_maxTick (hx : 0 < x) (hmax : x < maxSqrtRatio)
    (h : LogState (((x * 2 ^ 32 : ℕ) : ℝ) / 2 ^ 128) 14 N r) : tickLow N < maxTick := by
  by_contra hle
  have := sqrtRatio_le_of_le_tickLow hx h (by decide) le_rfl (not_lt.mp hle)
  rw [sqrtRatio_maxTick] at this
  omega

/-- The tick that the comparison ends with. -/
def pickTick (N : ℤ) (x : ℕ) : ℤ :=
  if tickLow N = tickHi N then tickLow N
  else if sqrtRatio (tickHi N) ≤ x then tickHi N else tickLow N

theorem isGreatest_pickTick (hmin : minSqrtRatio ≤ x) (hmax : x < maxSqrtRatio)
    (h : LogState (((x * 2 ^ 32 : ℕ) : ℝ) / 2 ^ 128) 14 N r) :
    IsGreatest {t | minTick ≤ t ∧ t ≤ maxTick ∧ sqrtRatio t ≤ x} (pickTick N x) := by
  have hx : 0 < x := lt_of_lt_of_le (by decide) hmin
  have hhi := minTick_le_tickHi hmin h
  have hlow := tickLow_lt_maxTick hx hmax h
  have hbounds := tickHi_bounds N
  have hupper : ∀ t ∈ {t | minTick ≤ t ∧ t ≤ maxTick ∧ sqrtRatio t ≤ x}, t ≤ tickHi N := by
    rintro t ⟨htmin, htmax, hle⟩
    by_contra hlt
    exact absurd (lt_sqrtRatio_of_tickHi_lt hx h htmin htmax (not_le.mp hlt)) hle.not_gt
  unfold pickTick
  split_ifs with heq hle
  · refine ⟨⟨heq ▸ hhi, hlow.le, ?_⟩, fun t ht => heq ▸ hupper t ht⟩
    exact sqrtRatio_le_of_le_tickLow hx h (heq ▸ hhi) hlow.le le_rfl
  · exact ⟨⟨hhi, by omega, hle⟩, hupper⟩
  -- the price of the higher tick is above the price, hence it is not the lowest tick of all
  · have hne : tickHi N ≠ minTick := by
      intro hhmin
      rw [hhmin, sqrtRatio_minTick] at hle
      exact hle hmin
    have hlmin : minTick ≤ tickLow N := by omega
    refine ⟨⟨hlmin, hlow.le, sqrtRatio_le_of_le_tickLow hx h hlmin hlow.le le_rfl⟩, ?_⟩
    intro t ht
    have htne : t ≠ tickHi N := by
      rintro rfl
      exact hle ht.2.2
    have := hupper t ht
    omega

/-- Rounding down does not leave the limits of a signed class. -/
theorem div_mem {v b : ℤ} (hv : -b ≤ v) (hv' : v ≤ b - 1) (k : ℕ) :
    -b ≤ v / 2 ^ k ∧ v / 2 ^ k ≤ b - 1 := by
  have hpos : (1 : ℤ) ≤ 2 ^ k := two_pow_pos k
  constructor
  · rw [Int.le_ediv_iff_mul_le (two_pow_pos k)]
    nlinarith
  · rw [← Int.lt_add_one_iff, Int.ediv_lt_iff_lt_mul (two_pow_pos k)]
    nlinarith

theorem shr_int256 {v : ℤ} (hv : int256.min ≤ v) (hv' : v ≤ int256.max) (k : ℕ) :
    (⟨v, hv, hv'⟩ : BoundedInt int256).shr o k =
      .ok ⟨v / 2 ^ k, (div_mem hv hv' k).1, (div_mem hv hv' k).2⟩ := by
  rw [BoundedInt.shr, Int.shiftRight_eq_div_pow]
  exact IntClass.settle_of_mem _ _

/-- The code finds the greatest tick whose price is not above the price, and nothing wraps around
on the way. -/
theorem getTickAtSqrtRatio_eq (hmin : minSqrtRatio ≤ x) (hmax : x < maxSqrtRatio) :
    ∃ tick, getTickAtSqrtRatio o x = .ok tick ∧
      IsGreatest {t | minTick ≤ t ∧ t ≤ maxTick ∧ sqrtRatio t ≤ x} tick := by
  have hx : 0 < x := lt_of_lt_of_le (by decide) hmin
  have hx160 : x < 2 ^ 160 := hmax.trans (by decide)
  have hx256 : x < 2 ^ 256 := by omega
  have hn : x * 2 ^ 32 < 2 ^ 256 := by omega
  obtain ⟨N, r, h, hlog⟩ := logTwo_eq (o := o) hn (by omega)
  refine ⟨pickTick N x, ?_, isGreatest_pickTick hmin hmax h⟩
  have hhi := minTick_le_tickHi hmin h
  have hlow := tickLow_lt_maxTick hx hmax h
  have hbounds := tickHi_bounds N
  have hlimits : minTick = -887272 ∧ maxTick = 887272 := ⟨rfl, rfl⟩
  have h24 : int24.min = -8388608 ∧ int24.max = 8388607 := ⟨rfl, rfl⟩
  have h256 : int256.min = -2 ^ 255 ∧ int256.max = 2 ^ 255 - 1 := ⟨rfl, rfl⟩
  have hP := scaledLog_mem h
  -- every step of the code answers what fits
  have hval : (h.log2 le_rfl).value * 255738958999603826347141 = scaledLog N := by
    rw [scaledLog, LogState.log2]
  have hmul : (h.log2 le_rfl).mul o 255738958999603826347141 =
      .ok ⟨scaledLog N, by omega, by omega⟩ := by
    rw [BoundedInt.mul, hval]
    exact IntClass.settle_of_mem _ _
  have hsub : (⟨scaledLog N, by omega, by omega⟩ : BoundedInt int256).sub o
      3402992956809132418596140100660247210 =
        .ok ⟨scaledLog N - 3402992956809132418596140100660247210, by omega, by omega⟩ :=
    IntClass.settle_of_mem _ _
  have hadd : (⟨scaledLog N, by omega, by omega⟩ : BoundedInt int256).add o
      291339464771989622907027621153398088495 =
        .ok ⟨scaledLog N + 291339464771989622907027621153398088495, by omega, by omega⟩ :=
    IntClass.settle_of_mem _ _
  have hprice : uint160.fromInt x = .ok (uint x hx160) := fromInt_uint _
  have hrange : ((uint x hx160 : BoundedInt uint160).gte minSqrtRatio &&
      (uint x hx160 : BoundedInt uint160).lt maxSqrtRatio) = true := by
    simp [uint_gte, uint_lt, hmin, hmax]
  have hlowFrom : int24.fromInt ((scaledLog N - 3402992956809132418596140100660247210) / 2 ^ 128) =
      .ok ⟨tickLow N, by omega, by omega⟩ := IntClass.fromInt_of_mem _ _
  have hhiFrom : int24.fromInt ((scaledLog N + 291339464771989622907027621153398088495) / 2 ^ 128) =
      .ok ⟨tickHi N, by omega, by omega⟩ := IntClass.fromInt_of_mem _ _
  have hratio := lt_ratioAt (natAbs_le hhi (by omega))
  have hsqrt : getSqrtRatioAtTick o (tickHi N) = .ok (sqrtRatio (tickHi N)) :=
    getSqrtRatioAtTick_eq hhi (by omega) hratio
  have hsqrtLt := sqrtRatio_lt hratio
  have hsqrtFrom : int256.fromInt (sqrtRatio (tickHi N)) =
      .ok ⟨sqrtRatio (tickHi N), by omega, by omega⟩ := IntClass.fromInt_of_mem _ _
  rw [getTickAtSqrtRatio, hprice, ok_bind, hrange]
  simp only [Bool.not_true, Bool.false_eq_true, if_false]
  rw [fromInt_uint hx256, ok_bind, uint_shl hx256 hn, ok_bind, hlog, ok_bind, hmul, ok_bind, hsub,
    ok_bind, shr_int256, ok_bind, hlowFrom, ok_bind, hadd, ok_bind, shr_int256, ok_bind, hhiFrom,
    ok_bind, hsqrt, ok_bind, hsqrtFrom, ok_bind]
  have heq : (⟨tickLow N, by omega, by omega⟩ : BoundedInt int24).eq (tickHi N) =
      decide (tickLow N = tickHi N) := rfl
  have hlte : (⟨sqrtRatio (tickHi N), by omega, by omega⟩ : BoundedInt int256).lte x =
      decide (sqrtRatio (tickHi N) ≤ x) := by simp [BoundedInt.lte]
  simp only [heq, hlte, decide_eq_true_eq, pickTick]
  split_ifs <;> rfl

/-- Every other price is refused, before its logarithm is computed. -/
theorem getTickAtSqrtRatio_eq_error {x : ℤ} (h : x < minSqrtRatio ∨ maxSqrtRatio ≤ x) :
    ∃ e, ∀ o, getTickAtSqrtRatio o x = .error e := by
  have h160 : uint160.min = 0 ∧ uint160.max = 2 ^ 160 - 1 := ⟨rfl, rfl⟩
  by_cases hrange : x < uint160.min ∨ uint160.max < x
  · obtain ⟨e, he⟩ := IntClass.fromInt_eq_error hrange
    exact ⟨e, fun o => by rw [getTickAtSqrtRatio, he]; rfl⟩
  · have hfrom : uint160.fromInt x = .ok ⟨x, by omega, by omega⟩ := IntClass.fromInt_of_mem _ _
    have hcheck : ((⟨x, by omega, by omega⟩ : BoundedInt uint160).gte minSqrtRatio &&
        (⟨x, by omega, by omega⟩ : BoundedInt uint160).lt maxSqrtRatio) = false := by
      simp only [BoundedInt.gte, BoundedInt.lt, Bool.and_eq_false_iff, decide_eq_false_iff_not]
      omega
    refine ⟨"R", fun o => ?_⟩
    rw [getTickAtSqrtRatio, hfrom, ok_bind, hcheck]
    rfl

end Greatest

/-- The two functions are exact inverses: the tick of a price is the greatest one whose price is not
above it. The prices are strictly increasing from the lowest to the highest one, other ticks are
refused, and no step of either function wraps around. -/
theorem tick_math :
    (∀ x : ℤ, minSqrtRatio ≤ x → x < maxSqrtRatio →
      ∃ tick, getTickAtSqrtRatio .wraps x = .ok tick ∧
        IsGreatest {t | minTick ≤ t ∧ t ≤ maxTick ∧
          ∃ price ≤ x, getSqrtRatioAtTick .wraps t = .ok price} tick) ∧
      (∀ tick tick', minTick ≤ tick → tick < tick' → tick' ≤ maxTick →
        ∃ price price', getSqrtRatioAtTick .wraps tick = .ok price ∧
          getSqrtRatioAtTick .wraps tick' = .ok price' ∧
          minSqrtRatio ≤ price ∧ price < price' ∧ price' ≤ maxSqrtRatio) ∧
      getSqrtRatioAtTick .wraps minTick = .ok minSqrtRatio ∧
      getSqrtRatioAtTick .wraps maxTick = .ok maxSqrtRatio ∧
      (∀ tick, tick < minTick ∨ maxTick < tick → ∃ e, getSqrtRatioAtTick .wraps tick = .error e) ∧
      (∀ tick, getSqrtRatioAtTick .throws tick = getSqrtRatioAtTick .wraps tick) ∧
      ∀ x, getTickAtSqrtRatio .throws x = getTickAtSqrtRatio .wraps x := by
  have hprice (o : Overflow) {tick : ℤ} (hmin : minTick ≤ tick) (hmax : tick ≤ maxTick) :
      getSqrtRatioAtTick o tick = .ok (sqrtRatio tick) :=
    getSqrtRatioAtTick_eq hmin hmax (lt_ratioAt (natAbs_le hmin hmax))
  have hmono {tick tick' : ℤ} (hmin : minTick ≤ tick) (hle : tick ≤ tick') (hmax : tick' ≤ maxTick) :
      sqrtRatio tick ≤ sqrtRatio tick' := by
    rcases hle.eq_or_lt with rfl | hlt
    · exact le_rfl
    · exact (sqrtRatio_strictMono hmin hlt hmax).le
  -- Over the ticks that are accepted, the prices are those of `sqrtRatio`.
  have hset {x : ℕ} : {t | minTick ≤ t ∧ t ≤ maxTick ∧
      ∃ price ≤ (x : ℤ), getSqrtRatioAtTick .wraps t = .ok price} =
        {t | minTick ≤ t ∧ t ≤ maxTick ∧ sqrtRatio t ≤ x} := by
    ext t
    refine and_congr_right fun hmin => and_congr_right fun hmax => ?_
    rw [hprice _ hmin hmax]
    constructor
    · rintro ⟨price, hle, heq⟩
      obtain rfl := Except.ok.inj heq
      exact_mod_cast hle
    · exact fun hle => ⟨_, by exact_mod_cast hle, rfl⟩
  refine ⟨?_, ?_, ?_, ?_, ?_, ?_, ?_⟩
  · intro x hmin hmax
    lift x to ℕ using le_trans (by decide) hmin
    rw [hset]
    exact getTickAtSqrtRatio_eq (by exact_mod_cast hmin) (by exact_mod_cast hmax)
  · intro tick tick' hmin hlt hmax
    refine ⟨_, _, hprice _ hmin (hlt.le.trans hmax), hprice _ (hmin.trans hlt.le) hmax, ?_, ?_, ?_⟩
    · rw [← sqrtRatio_minTick]
      exact_mod_cast hmono le_rfl hmin (hlt.le.trans hmax)
    · exact_mod_cast sqrtRatio_strictMono hmin hlt hmax
    · rw [← sqrtRatio_maxTick]
      exact_mod_cast hmono (hmin.trans hlt.le) hmax le_rfl
  · rw [hprice _ le_rfl (by decide), sqrtRatio_minTick]
  · rw [hprice _ (by decide) le_rfl, sqrtRatio_maxTick]
  · intro tick h
    obtain ⟨e, he⟩ := getSqrtRatioAtTick_eq_error h
    exact ⟨e, he _⟩
  · intro tick
    by_cases h : tick < minTick ∨ maxTick < tick
    · obtain ⟨e, he⟩ := getSqrtRatioAtTick_eq_error h
      rw [he, he]
    · rw [hprice _ (by omega) (by omega), hprice _ (by omega) (by omega)]
  · intro x
    by_cases h : x < minSqrtRatio ∨ maxSqrtRatio ≤ x
    · obtain ⟨e, he⟩ := getTickAtSqrtRatio_eq_error h
      rw [he, he]
    · lift x to ℕ using le_trans (by decide) (not_lt.mp (not_or.mp h).1)
      have hmin : minSqrtRatio ≤ x := by omega
      have hmax : x < maxSqrtRatio := by omega
      obtain ⟨tick, htick, hgreatest⟩ := getTickAtSqrtRatio_eq (o := .throws) hmin hmax
      obtain ⟨tick', htick', hgreatest'⟩ := getTickAtSqrtRatio_eq (o := .wraps) hmin hmax
      rw [htick, htick', hgreatest.unique hgreatest']

/-- The lowest price has a tick, and two neighbouring ticks have different prices. -/
theorem tick_math_lowest :
    (∃ tick, getTickAtSqrtRatio .wraps minSqrtRatio = .ok tick ∧
      IsGreatest {t | minTick ≤ t ∧ t ≤ maxTick ∧
        ∃ price ≤ (minSqrtRatio : ℤ), getSqrtRatioAtTick .wraps t = .ok price} tick) ∧
      (∃ price price', getSqrtRatioAtTick .wraps 0 = .ok price ∧
        getSqrtRatioAtTick .wraps 1 = .ok price' ∧
        minSqrtRatio ≤ price ∧ price < price' ∧ price' ≤ maxSqrtRatio) ∧
      ∃ e, getSqrtRatioAtTick .wraps 887273 = .error e :=
  ⟨tick_math.1 minSqrtRatio le_rfl (by decide),
    tick_math.2.1 0 1 (by decide) (by decide) (by decide),
    tick_math.2.2.2.2.1 887273 (by decide)⟩

end TickMath

end SwaptoshiService
