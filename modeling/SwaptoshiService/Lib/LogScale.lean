import Mathlib.Analysis.SpecialFunctions.Log.Basic
import Mathlib.Tactic.FieldSimp
import Mathlib.Tactic.GCongr
import Mathlib.Tactic.Linarith
import Mathlib.Tactic.Positivity
import Mathlib.Tactic.Ring

/-!
# Errors on a logarithmic scale

A fixed-point number is compared with the real number it stands for by the difference of their
logarithms: `Near ε x a` says that `x` is `exp a` up to a factor between `exp (-ε)` and `exp ε`. On
this scale the errors of factors and divisors **add**, and a power multiplies the error by the
exponent. Rounding to an integer costs at most the inverse of the smaller of the two numbers
(`Near.round_down`, `Near.round_up`).

`BitLog` is the invariant of the logarithm to base two that is computed bit by bit, squaring a
number between `1` and `2` and halving the square when it has left that interval: each square
doubles the error and adds two roundings (`BitLog.square`).
-/

namespace SwaptoshiService

open Real

/-! ### Close on the logarithmic scale -/

/-- `x` is `exp a`, up to a factor between `exp (-ε)` and `exp ε`. -/
structure Near (ε x a : ℝ) : Prop where
  pos : 0 < x
  dist_le : |log x - a| ≤ ε

section Near

variable {ε δ x y a b : ℝ}

theorem Near.log_le (h : Near ε x a) : log x ≤ a + ε := by linarith [(abs_le.mp h.dist_le).2]

theorem Near.le_log (h : Near ε x a) : a - ε ≤ log x := by linarith [(abs_le.mp h.dist_le).1]

theorem Near.refl (hx : 0 < x) : Near 0 x (log x) := ⟨hx, by simp⟩

theorem Near.mono (h : Near ε x a) (hle : ε ≤ δ) : Near δ x a := ⟨h.pos, h.dist_le.trans hle⟩

theorem Near.mul (hx : Near ε x a) (hy : Near δ y b) : Near (ε + δ) (x * y) (a + b) := by
  refine ⟨mul_pos hx.pos hy.pos, ?_⟩
  rw [log_mul hx.pos.ne' hy.pos.ne', abs_le]
  constructor <;> linarith [hx.log_le, hx.le_log, hy.log_le, hy.le_log]

theorem Near.div (hx : Near ε x a) (hy : Near δ y b) : Near (ε + δ) (x / y) (a - b) := by
  refine ⟨div_pos hx.pos hy.pos, ?_⟩
  rw [log_div hx.pos.ne' hy.pos.ne', abs_le]
  constructor <;> linarith [hx.log_le, hx.le_log, hy.log_le, hy.le_log]

theorem Near.pow (hx : Near ε x a) (n : ℕ) : Near (n * ε) (x ^ n) (n * a) := by
  refine ⟨pow_pos hx.pos n, ?_⟩
  rw [log_pow, ← mul_sub, abs_mul, Nat.abs_cast]
  exact mul_le_mul_of_nonneg_left hx.dist_le n.cast_nonneg

theorem Near.of_sq (h : Near ε (x ^ 2) a) (hx : 0 < x) : Near (ε / 2) x (a / 2) := by
  have hle := h.log_le
  have hge := h.le_log
  rw [log_pow] at hle hge
  push_cast at hle hge
  refine ⟨hx, abs_le.mpr ⟨?_, ?_⟩⟩ <;> linarith

/-- Of two numbers whose intervals do not meet, the one with the lower interval is smaller. -/
theorem Near.lt (hx : Near ε x a) (hy : Near δ y b) (h : a + ε < b - δ) : x < y :=
  (log_lt_log_iff hx.pos hy.pos).mp (by linarith [hx.log_le, hy.le_log])

/-- The logarithms of two numbers are as close as the numbers, measured by the smaller one. -/
theorem log_sub_log_le (hx : 0 < x) (hxy : x ≤ y) : log y - log x ≤ (y - x) / x := by
  have hy : 0 < y := hx.trans_le hxy
  calc log y - log x = log (y / x) := (log_div hy.ne' hx.ne').symm
    _ ≤ y / x - 1 := log_le_sub_one_of_pos (div_pos hy hx)
    _ = (y - x) / x := by field_simp

theorem Near.of_le (hx : Near ε x a) (hy : 0 < y) (hyx : y ≤ x) (h : (x - y) / y ≤ δ) :
    Near (ε + δ) y a := by
  have hlog := log_sub_log_le hy hyx
  have hle : log y ≤ log x := log_le_log hy hyx
  refine ⟨hy, abs_le.mpr ⟨?_, ?_⟩⟩ <;>
    linarith [hx.log_le, hx.le_log, (abs_nonneg _).trans hx.dist_le]

theorem Near.of_ge (hx : Near ε x a) (hxy : x ≤ y) (h : (y - x) / x ≤ δ) : Near (ε + δ) y a := by
  have hlog := log_sub_log_le hx.pos hxy
  have hle : log x ≤ log y := log_le_log hx.pos hxy
  refine ⟨hx.pos.trans_le hxy, abs_le.mpr ⟨?_, ?_⟩⟩ <;>
    linarith [hx.log_le, hx.le_log, (abs_nonneg _).trans hx.dist_le]

/-- A number that is the same up to a factor of `1 + δ`, in both directions. -/
theorem Near.trans (hx : Near ε x a) (hy : 0 < y) (hxy : x ≤ (1 + δ) * y) (hyx : y ≤ (1 + δ) * x) :
    Near (ε + δ) y a := by
  rcases le_total y x with hle | hle
  · exact hx.of_le hy hle ((div_le_iff₀ hy).mpr (by linarith))
  · exact hx.of_ge hle ((div_le_iff₀ hx.pos).mpr (by linarith))

/-- Rounding down to a natural number. -/
theorem Near.round_down {n : ℕ} (hx : Near ε x a) (hn : 0 < n) (hle : n ≤ x) (hlt : x < n + 1) :
    Near (ε + 1 / n) n a := by
  have hn' : (0 : ℝ) < n := Nat.cast_pos.mpr hn
  exact hx.of_le hn' hle (by gcongr; linarith)

/-- Rounding up to a natural number. -/
theorem Near.round_up {n : ℕ} (hx : Near ε x a) (hle : x ≤ n) (hlt : n < x + 1) :
    Near (ε + 1 / x) n a :=
  hx.of_ge hle (div_le_div_of_nonneg_right (by linarith) hx.pos.le)

/-- The quotient of two natural numbers, rounded down. -/
theorem Near.nat_div {m d : ℕ} (hx : Near ε ((m : ℝ) / d) a) (hd : 0 < d) (hpos : 0 < m / d) :
    Near (ε + 1 / (m / d : ℕ)) (m / d : ℕ) a := by
  refine hx.round_down hpos Nat.cast_div_le ?_
  rw [div_lt_iff₀ (Nat.cast_pos.mpr hd)]
  exact_mod_cast Nat.lt_mul_of_div_lt (Nat.lt_succ_self _) hd

end Near

/-! ### The logarithm, bit by bit -/

/-- After `i` squarings of `y` the logarithm to base two of the power is `N` and that of `r / 2 ^ p`,
a number between `1` and `2`, but for the roundings. -/
structure BitLog (p : ℕ) (y : ℝ) (i : ℕ) (N : ℤ) (r : ℕ) : Prop where
  lower : 2 ^ p ≤ r
  upper : r < 2 ^ (p + 1)
  le_log : N * log 2 + log (r / 2 ^ p) ≤ 2 ^ i * log y
  log_le : 2 ^ i * log y ≤ N * log 2 + log (r / 2 ^ p) + (3 * 2 ^ i - 2) / 2 ^ p

namespace BitLog

variable {p i r : ℕ} {y : ℝ} {N : ℤ}

/-- Rounding down a number that is at least `2 ^ p`. -/
theorem log_floor_bounds {n d : ℕ} (hd : 0 < d) (h : 2 ^ p ≤ n / d) :
    log (n / d : ℕ) ≤ log ((n : ℝ) / d) ∧
      log ((n : ℝ) / d) ≤ log (n / d : ℕ) + 1 / 2 ^ p := by
  have hpow : (2 : ℝ) ^ p ≤ (n / d : ℕ) := by exact_mod_cast h
  have hpos : (0 : ℝ) < (n / d : ℕ) := (by positivity : (0 : ℝ) < 2 ^ p).trans_le hpow
  have hle : ((n / d : ℕ) : ℝ) ≤ (n : ℝ) / d := Nat.cast_div_le
  have hlt : (n : ℝ) / d < (n / d : ℕ) + 1 := by
    rw [div_lt_iff₀ (Nat.cast_pos.mpr hd)]
    exact_mod_cast Nat.lt_mul_of_div_lt (Nat.lt_succ_self _) hd
  refine ⟨log_le_log hpos hle, ?_⟩
  have hround : ((n : ℝ) / d - (n / d : ℕ)) / (n / d : ℕ) ≤ 1 / 2 ^ p :=
    div_le_div₀ zero_le_one (by linarith) (by positivity) hpow
  linarith [log_sub_log_le hpos hle]

theorem log_div_two_pow {x : ℝ} (hx : 0 < x) (k : ℕ) : log (x / 2 ^ k) = log x - k * log 2 := by
  rw [log_div hx.ne' (by positivity), log_pow]

/-- A number scaled to `p` bits after its leading one. -/
theorem start {n m : ℕ} (q : ℕ) (hlower : 2 ^ m ≤ n) (hupper : n < 2 ^ (m + 1)) :
    BitLog p (n / 2 ^ q) 0 (m - q) (n * 2 ^ p / 2 ^ m) := by
  have hm : 0 < 2 ^ m := Nat.two_pow_pos m
  have hn : 0 < n := hm.trans_le hlower
  have hr : 2 ^ p ≤ n * 2 ^ p / 2 ^ m := by
    rw [Nat.le_div_iff_mul_le hm, mul_comm]
    exact Nat.mul_le_mul_right _ hlower
  have hr' : n * 2 ^ p / 2 ^ m < 2 ^ (p + 1) := by
    rw [Nat.div_lt_iff_lt_mul hm]
    calc n * 2 ^ p < 2 ^ (m + 1) * 2 ^ p := Nat.mul_lt_mul_of_pos_right hupper (Nat.two_pow_pos p)
      _ = 2 ^ (p + 1) * 2 ^ m := by ring
  have hrpos : (0 : ℝ) < (n * 2 ^ p / 2 ^ m : ℕ) :=
    Nat.cast_pos.mpr ((Nat.two_pow_pos p).trans_le hr)
  obtain ⟨hle, hge⟩ := log_floor_bounds hm hr
  have hlog : log (((n * 2 ^ p : ℕ) : ℝ) / (2 ^ m : ℕ)) = log n + p * log 2 - m * log 2 := by
    push_cast
    rw [log_div_two_pow (by positivity), log_mul (by positivity) (by positivity), log_pow]
  have hy : log ((n : ℝ) / 2 ^ q) = log n - q * log 2 := log_div_two_pow (Nat.cast_pos.mpr hn) q
  rw [hlog] at hle hge
  refine ⟨hr, hr', ?_, ?_⟩
  · rw [log_div_two_pow hrpos, hy]
    push_cast
    linarith
  · rw [log_div_two_pow hrpos, hy]
    push_cast
    ring_nf at hge ⊢
    linarith

/-- One squaring: the square is rounded down, and halved when it has left the interval. -/
theorem square (h : BitLog p y i N r) :
    BitLog p y (i + 1) (2 * N + (r * r / 2 ^ p / 2 ^ (p + 1) : ℕ))
      (r * r / 2 ^ p / 2 ^ (r * r / 2 ^ p / 2 ^ (p + 1))) := by
  have hp : 0 < 2 ^ p := Nat.two_pow_pos p
  have hr : (0 : ℝ) < r := Nat.cast_pos.mpr (hp.trans_le h.lower)
  have hs : 2 ^ p ≤ r * r / 2 ^ p :=
    (Nat.le_div_iff_mul_le hp).mpr (Nat.mul_le_mul h.lower h.lower)
  have hs' : r * r / 2 ^ p < 2 * 2 ^ (p + 1) := by
    rw [Nat.div_lt_iff_lt_mul hp]
    calc r * r < 2 ^ (p + 1) * 2 ^ (p + 1) := Nat.mul_self_lt_mul_self h.upper
      _ = 2 * 2 ^ (p + 1) * 2 ^ p := by ring
  obtain ⟨hsle, hsge⟩ := log_floor_bounds hp hs
  generalize hsq : r * r / 2 ^ p = s at *
  -- the square is halved once or not at all
  have hhalf : 2 ^ p ≤ s / 2 ^ (s / 2 ^ (p + 1)) ∧ s / 2 ^ (s / 2 ^ (p + 1)) < 2 ^ (p + 1) := by
    rcases lt_or_ge s (2 ^ (p + 1)) with hlt | hge
    · rw [Nat.div_eq_of_lt hlt, pow_zero, Nat.div_one]
      exact ⟨hs, hlt⟩
    · have hone : s / 2 ^ (p + 1) = 1 :=
        Nat.div_eq_of_lt_le (by omega) (by omega)
      rw [hone, pow_succ] at *
      omega
  generalize s / 2 ^ (p + 1) = f at *
  obtain ⟨hle, hge⟩ := log_floor_bounds (Nat.two_pow_pos _) hhalf.1
  have hspos : (0 : ℝ) < s := Nat.cast_pos.mpr (hp.trans_le hs)
  have hhpos : (0 : ℝ) < (s / 2 ^ f : ℕ) := Nat.cast_pos.mpr (hp.trans_le hhalf.1)
  have hlogr : log (((r * r : ℕ) : ℝ) / (2 ^ p : ℕ)) = 2 * log r - p * log 2 := by
    push_cast
    rw [log_div_two_pow (by positivity), log_mul hr.ne' hr.ne', two_mul]
  have hlogs : log ((s : ℝ) / (2 ^ f : ℕ)) = log s - f * log 2 := by
    push_cast
    exact log_div_two_pow hspos _
  rw [hlogr] at hsle hsge
  rw [hlogs] at hle hge
  have hlower := h.le_log
  have hupper := h.log_le
  rw [log_div_two_pow hr] at hlower hupper
  refine ⟨hhalf.1, hhalf.2, ?_, ?_⟩
  · rw [log_div_two_pow hhpos, pow_succ']
    push_cast
    linarith
  · rw [log_div_two_pow hhpos, pow_succ']
    have herr : ((3 : ℝ) * (2 * 2 ^ i) - 2) / 2 ^ p =
        2 * ((3 * 2 ^ i - 2) / 2 ^ p) + 1 / 2 ^ p + 1 / 2 ^ p := by ring
    rw [herr]
    push_cast
    linarith

/-- The number of halvings is the logarithm, rounded down. -/
theorem floor_bounds (h : BitLog p y i N r) :
    N * log 2 ≤ 2 ^ i * log y ∧ 2 ^ i * log y ≤ (N + 1) * log 2 + (3 * 2 ^ i - 2) / 2 ^ p := by
  have hp : (0 : ℝ) < 2 ^ p := by positivity
  have hlower : (2 : ℝ) ^ p ≤ r := by exact_mod_cast h.lower
  have hupper : (r : ℝ) ≤ 2 * 2 ^ p := by
    have := h.upper.le
    rw [pow_succ'] at this
    exact_mod_cast this
  have hnonneg : 0 ≤ log (r / 2 ^ p) := log_nonneg ((one_le_div hp).mpr hlower)
  have hle : log (r / 2 ^ p) ≤ log 2 :=
    log_le_log (div_pos (hp.trans_le hlower) hp) ((div_le_iff₀ hp).mpr hupper)
  constructor
  · linarith [h.le_log]
  · linarith [h.log_le]

end BitLog

end SwaptoshiService
