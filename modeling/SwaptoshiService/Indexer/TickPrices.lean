import SwaptoshiService.Indexer.TickMath
import SwaptoshiService.Lib.LogScale

/-!
# The prices of the ticks

What `getSqrtRatioAtTick` computes, against the prices it stands for: the logarithm of the square
root price of the tick `t` is `t * tickLog`, where `tickLog` is the logarithm of `√1.0001`
(`near_sqrtRatio`). The errors of the precomputed powers and of the roundings are far smaller than
the distance of two ticks, hence the prices are strictly increasing (`sqrtRatio_strictMono`).
-/

namespace SwaptoshiService

namespace TickMath

open Real

/-! ### The distance of two ticks -/

/-- The logarithm of `√1.0001`. -/
noncomputable def tickLog : ℝ := log ((10001 : ℕ) / (10000 : ℕ)) / (2 : ℕ)

theorem tickLog_eq : tickLog = log (10001 / 10000) / 2 := by
  unfold tickLog
  push_cast
  rfl

theorem tickLog_near : |tickLog - 4999750016665416917 / 10 ^ 23| ≤ 1 / 10 ^ 19 := by
  have h := abs_log_sub_add_sum_range_le (x := -1 / 10000) (by norm_num [abs_lt]) 4
  rw [abs_le] at h ⊢
  norm_num [Finset.sum_range_succ, abs_of_neg] at h
  rw [tickLog_eq]
  constructor <;> linarith [h.1, h.2]

theorem tickLog_gt : 49997 / 10 ^ 9 < tickLog := by
  have h := (abs_le.mp tickLog_near).1
  norm_num at h ⊢
  linarith

theorem tickLog_lt : tickLog < 5 / 10 ^ 5 := by
  have h := (abs_le.mp tickLog_near).2
  norm_num at h ⊢
  linarith

/-! ### The precomputed powers -/

/-- The second factor belongs to twice the ticks of the first, and is its square. -/
structure Doubles (p q : ℕ × ℕ) : Prop where
  ticks : q.1 = 2 * p.1
  pos : 0 < q.2
  square_le : 2 ^ 91 * p.2 ^ 2 ≤ (2 ^ 91 + 1) * (2 ^ 128 * q.2)
  le_square : 2 ^ 91 * (2 ^ 128 * q.2) ≤ (2 ^ 91 + 1) * p.2 ^ 2

instance (p q : ℕ × ℕ) : Decidable (Doubles p q) :=
  decidable_of_iff (q.1 = 2 * p.1 ∧ 0 < q.2 ∧
      2 ^ 91 * p.2 ^ 2 ≤ (2 ^ 91 + 1) * (2 ^ 128 * q.2) ∧
      2 ^ 91 * (2 ^ 128 * q.2) ≤ (2 ^ 91 + 1) * p.2 ^ 2)
    ⟨fun h => ⟨h.1, h.2.1, h.2.2.1, h.2.2.2⟩,
      fun h => ⟨h.ticks, h.pos, h.square_le, h.le_square⟩⟩

theorem isChain_factors : List.IsChain Doubles ((0x1, firstFactor) :: factors) := by decide

/-- A factor is the power of `1 / √1.0001` for its ticks; the error grows with the ticks. -/
structure FactorNear (p : ℕ × ℕ) : Prop where
  near : Near (p.1 / 2 ^ 90 - 1 / 2 ^ 91) (p.2 / 2 ^ 128) (-(p.1 * tickLog))

theorem factorNear_first : FactorNear (0x1, firstFactor) := by
  have hstep : log (10000 / 10001) = -(2 * tickLog) := by
    rw [tickLog_eq, mul_div_cancel₀ _ two_ne_zero, ← log_inv, inv_div]
  have hsq : Near (1 / 2 ^ 92) ((firstFactor / 2 ^ 128 : ℝ) ^ 2) (-(2 * tickLog)) := by
    have h := (Near.refl (x := 10000 / 10001) (by norm_num)).trans (δ := 1 / 2 ^ 92)
      (y := (firstFactor / 2 ^ 128 : ℝ) ^ 2) (by norm_num [firstFactor])
      (by norm_num [firstFactor]) (by norm_num [firstFactor])
    rwa [hstep, zero_add] at h
  have h := hsq.of_sq (by norm_num [firstFactor])
  have hexp : -(((1 : ℕ) : ℝ) * tickLog) = -(2 * tickLog) / 2 := by push_cast; ring
  constructor
  dsimp only
  rw [hexp]
  exact h.mono (by norm_num)

theorem FactorNear.double {p q : ℕ × ℕ} (h : Doubles p q) (hp : FactorNear p) : FactorNear q := by
  have hsq := hp.near.pow 2
  have hle : (2 : ℝ) ^ 91 * p.2 ^ 2 ≤ (2 ^ 91 + 1) * (2 ^ 128 * q.2) := by exact_mod_cast h.square_le
  have hge : (2 : ℝ) ^ 91 * (2 ^ 128 * q.2) ≤ (2 ^ 91 + 1) * p.2 ^ 2 := by exact_mod_cast h.le_square
  have hpos : (0 : ℝ) < q.2 := Nat.cast_pos.mpr h.pos
  have hq := hsq.trans (δ := 1 / 2 ^ 91) (y := (q.2 : ℝ) / 2 ^ 128) (by positivity)
    (by rw [div_pow]; norm_num at hle ⊢; linarith) (by rw [div_pow]; norm_num at hge ⊢; linarith)
  have hexp : -((q.1 : ℝ) * tickLog) = (2 : ℕ) * -(p.1 * tickLog) := by
    rw [h.ticks]; push_cast; ring
  constructor
  rw [hexp, h.ticks]
  refine hq.mono (le_of_eq ?_)
  push_cast
  ring

theorem factors_near : ∀ p ∈ factors, FactorNear p :=
  isChain_factors.cons_induction _ _ (fun _ _ h hp => hp.double h) factorNear_first

/-! ### The product -/

/-- The ticks of the factors that are picked for `a`. -/
def selected (a : ℕ) (l : List (ℕ × ℕ)) : ℕ :=
  (l.map fun p => if a &&& p.1 = 0 then 0 else p.1).sum

theorem selected_cons (a : ℕ) (p : ℕ × ℕ) (l : List (ℕ × ℕ)) :
    selected a (p :: l) = (if a &&& p.1 = 0 then 0 else p.1) + selected a l := by
  rw [selected, List.map_cons, List.sum_cons, selected]

theorem sum_bits (a n : ℕ) :
    ((List.range n).map fun k => if a &&& 2 ^ k = 0 then 0 else 2 ^ k).sum = a % 2 ^ n := by
  induction n with
  | zero => simp [Nat.mod_one]
  | succ n ih =>
    have hbit : (if a &&& 2 ^ n = 0 then 0 else 2 ^ n) = 2 ^ n * (a / 2 ^ n % 2) := by
      have hmod := Nat.mod_two_eq_zero_or_one (a / 2 ^ n)
      rw [Nat.and_two_pow, Nat.testBit_eq_decide_div_mod_eq]
      rcases hmod with h | h <;> simp [h]
    rw [List.range_succ, List.map_append, List.sum_append, ih, List.map_singleton,
      List.sum_singleton, hbit, Nat.mod_pow_succ]

/-- The bits of a tick are its ticks. -/
theorem selected_eq {a : ℕ} (ha : a < 2 ^ 20) : selected a ((0x1, firstFactor) :: factors) = a := by
  have h := sum_bits a 20
  rw [Nat.mod_eq_of_lt ha] at h
  conv_rhs => rw [← h]
  rfl

section Fold

variable {a r s k : ℕ} {l : List (ℕ × ℕ)}

/-- The product `r` for `s` ticks after `k` roundings. -/
structure ProductNear (s k r : ℕ) : Prop where
  near : Near (s / 2 ^ 90 + k / 2 ^ 62) r (128 * log 2 - s * tickLog)

/-- The exact product for no more than all ticks is at least `2 ^ 63` in fixed point. -/
theorem two_pow_le_of_near {ε x : ℝ} (h : Near ε x (128 * log 2 - s * tickLog)) (hs : s ≤ 887272)
    (hε : ε ≤ 1 / 1000) : 2 ^ 63 ≤ x := by
  have hs' : (s : ℝ) ≤ 887272 := by exact_mod_cast hs
  have hticks : (s : ℝ) * tickLog ≤ 887272 * (5 / 10 ^ 5) :=
    mul_le_mul hs' tickLog_lt.le (by linarith [tickLog_gt]) (by norm_num)
  have hlog : log ((2 : ℝ) ^ 63) ≤ log x := by
    rw [log_pow]
    push_cast
    linarith [h.le_log, log_two_gt_d9]
  exact (log_le_log_iff (by positivity) h.pos).mp hlog

theorem ProductNear.step {p : ℕ × ℕ} (hp : FactorNear p) (hr : ProductNear s k r)
    (hs : s + p.1 ≤ 887272) (hk : k ≤ 20) : ProductNear (s + p.1) (k + 1) (r * p.2 / 2 ^ 128) := by
  have hs' : (s : ℝ) + p.1 ≤ 887272 := by exact_mod_cast hs
  have hk' : (k : ℝ) ≤ 20 := by exact_mod_cast hk
  have hmul := hr.near.mul hp.near
  have hx : (r : ℝ) * (p.2 / 2 ^ 128) = (r * p.2 : ℕ) / (2 ^ 128 : ℕ) := by push_cast; ring
  have hexp : 128 * log 2 - s * tickLog + -(p.1 * tickLog) =
      128 * log 2 - (s + p.1 : ℕ) * tickLog := by push_cast; ring
  rw [hx, hexp] at hmul
  have hlarge := two_pow_le_of_near hmul hs (by norm_num; linarith)
  have hfloor : 2 ^ 63 ≤ r * p.2 / 2 ^ 128 := by
    rw [Nat.le_div_iff_mul_le (by decide)]
    rw [le_div_iff₀ (by positivity)] at hlarge
    exact_mod_cast hlarge
  refine ⟨(hmul.nat_div (by decide) (lt_of_lt_of_le (by decide) hfloor)).mono ?_⟩
  have hround : (1 : ℝ) / (r * p.2 / 2 ^ 128 : ℕ) ≤ 1 / 2 ^ 63 :=
    one_div_le_one_div_of_le (by positivity) (by exact_mod_cast hfloor)
  push_cast at hround ⊢
  norm_num at hround ⊢
  linarith

theorem ProductNear.mono {k' : ℕ} (hr : ProductNear s k r) (hk : k ≤ k') : ProductNear s k' r := by
  have hk' : (k : ℝ) ≤ k' := by exact_mod_cast hk
  exact ⟨hr.near.mono (by linarith)⟩

theorem ProductNear.foldl (hl : ∀ p ∈ l, FactorNear p) (hr : ProductNear s k r)
    (hs : s + selected a l ≤ 887272) (hk : k + l.length ≤ 20) :
    ProductNear (s + selected a l) (k + l.length) (l.foldl (ratioStep a) r) := by
  induction l generalizing r s k with
  | nil => exact hr
  | cons p l ih =>
    have hl' : ∀ q ∈ l, FactorNear q := fun q hq => hl q (List.mem_cons_of_mem _ hq)
    rw [selected_cons] at hs ⊢
    rw [List.foldl_cons, ratioStep, List.length_cons, ← add_assoc s, (by omega :
      k + (l.length + 1) = k + 1 + l.length)]
    rw [List.length_cons] at hk
    split_ifs at hs ⊢ with hbit
    · exact ih hl' (hr.mono k.le_succ) (by omega) (by omega)
    · exact ih hl' (hr.step (hl p List.mem_cons_self) (by omega) (by omega)) (by omega) (by omega)

end Fold

theorem near_two_pow (n : ℕ) : Near 0 ((2 : ℝ) ^ n) (n * log 2) :=
  ⟨by positivity, by rw [log_pow]; simp⟩

theorem productNear_one : ProductNear 0 0 (2 ^ 128) := by
  have h := near_two_pow 128
  constructor
  rw [Nat.cast_pow, Nat.cast_two, Nat.cast_zero, zero_mul, sub_zero]
  exact h.mono (by norm_num)

theorem productNear_first : ProductNear 0x1 0 firstFactor := by
  have h := (near_two_pow 128).mul factorNear_first.near
  push_cast at h
  rw [mul_div_cancel₀ _ (by positivity), ← sub_eq_add_neg] at h
  constructor
  push_cast
  refine h.mono ?_
  norm_num

/-! ### The prices -/

theorem near_ratioAt {a : ℕ} (ha : a ≤ 887272) :
    Near (1 / 2 ^ 57) (ratioAt a) (128 * log 2 - a * tickLog) := by
  have hsel := selected_eq (ha.trans_lt (by decide) : a < 2 ^ 20)
  rw [selected_cons] at hsel
  have hstart : ProductNear (if a &&& 0x1 = 0 then 0 else 0x1) 0
      (if a &&& 0x1 = 0 then 2 ^ 128 else firstFactor) := by
    split_ifs
    · exact productNear_one
    · exact productNear_first
  have h := hstart.foldl factors_near (hsel.trans_le ha) (by decide)
  rw [hsel] at h
  have ha' : (a : ℝ) ≤ 887272 := by exact_mod_cast ha
  refine h.near.mono ?_
  have hlen : factors.length = 19 := rfl
  rw [hlen]
  norm_num
  linarith

theorem ratioAt_lt {a b : ℕ} (hab : a < b) (hb : b ≤ 887272) : ratioAt b < ratioAt a := by
  have hab' : (a : ℝ) + 1 ≤ b := by exact_mod_cast hab
  have h := (near_ratioAt hb).lt (near_ratioAt (hab.le.trans hb)) (by
    have := mul_le_mul_of_nonneg_right hab' (by linarith [tickLog_gt] : 0 ≤ tickLog)
    norm_num
    linarith [tickLog_gt])
  exact_mod_cast h

theorem lt_ratioAt {a : ℕ} (ha : a ≤ 887272) : 2 ^ 64 < ratioAt a := by
  have hlast : 2 ^ 64 < ratioAt 887272 := by decide
  rcases ha.lt_or_eq with hlt | rfl
  · exact hlast.trans (ratioAt_lt hlt le_rfl)
  · exact hlast

theorem near_ratioOf {tick : ℤ} (htick : tick.natAbs ≤ 887272) :
    2 ^ 64 < ratioOf tick ∧ Near (1 / 2 ^ 56) (ratioOf tick) (128 * log 2 + tick * tickLog) := by
  have h := near_ratioAt htick
  have hlt := lt_ratioAt htick
  unfold ratioOf
  split_ifs with hpos
  · have hall : Near (0 + 1 / 2 ^ 255) ((2 ^ 256 - 1 : ℕ) : ℝ) (log (2 ^ 256)) :=
      (Near.refl (by positivity)).trans (by norm_num) (by norm_num) (by norm_num)
    have hquot := hall.div h
    have hle : 2 ^ 127 ≤ (2 ^ 256 - 1) / ratioAt tick.natAbs :=
      calc 2 ^ 127 ≤ (2 ^ 256 - 1) / 2 ^ 128 := by decide
        _ ≤ (2 ^ 256 - 1) / ratioAt tick.natAbs :=
          Nat.div_le_div_left (ratioAt_le _) (hlt.trans' (by decide))
    have hround : (1 : ℝ) / ((2 ^ 256 - 1) / ratioAt tick.natAbs : ℕ) ≤ 1 / 2 ^ 127 :=
      one_div_le_one_div_of_le (by positivity) (by exact_mod_cast hle)
    have hexp : log (2 ^ 256) - (128 * log 2 - (tick.natAbs : ℝ) * tickLog) =
        128 * log 2 + tick * tickLog := by
      rw [log_pow, Nat.cast_natAbs, abs_of_pos hpos]
      push_cast
      ring
    rw [hexp] at hquot
    refine ⟨hle.trans_lt' (by decide), (hquot.nat_div (hlt.trans' (by decide))
      (hle.trans_lt' (by decide))).mono ?_⟩
    norm_num at hround ⊢
    linarith
  · have hexp : 128 * log 2 - (tick.natAbs : ℝ) * tickLog = 128 * log 2 + tick * tickLog := by
      rw [Nat.cast_natAbs, abs_of_nonpos (not_lt.mp hpos)]
      push_cast
      ring
    rw [hexp] at h
    exact ⟨hlt, h.mono (by norm_num)⟩

theorem natAbs_le {tick : ℤ} (hmin : minTick ≤ tick) (hmax : tick ≤ maxTick) :
    tick.natAbs ≤ 887272 := by
  unfold minTick at hmin
  unfold maxTick at hmax
  omega

/-- The square root price of a tick is the power of `√1.0001`, but for about `2 ^ -30`. -/
theorem near_sqrtRatio {tick : ℤ} (hmin : minTick ≤ tick) (hmax : tick ≤ maxTick) :
    Near (1 / 2 ^ 30) (sqrtRatio tick) (96 * log 2 + tick * tickLog) := by
  obtain ⟨hlt, h⟩ := near_ratioOf (natAbs_le hmin hmax)
  have hquot := h.div (near_two_pow 32)
  have hexp : 128 * log 2 + tick * tickLog - (32 : ℕ) * log 2 = 96 * log 2 + tick * tickLog := by
    push_cast
    ring
  rw [hexp] at hquot
  -- the price is the quotient, rounded up
  have hup : ratioOf tick ≤ sqrtRatio tick * 2 ^ 32 ∧
      sqrtRatio tick * 2 ^ 32 < ratioOf tick + 2 ^ 32 := by
    unfold sqrtRatio
    split_ifs <;> omega
  have hle : (ratioOf tick : ℝ) / 2 ^ 32 ≤ sqrtRatio tick := by
    rw [div_le_iff₀ (by positivity)]
    exact_mod_cast hup.1
  have hlt' : (sqrtRatio tick : ℝ) < ratioOf tick / 2 ^ 32 + 1 := by
    rw [div_add_one (by positivity), lt_div_iff₀ (by positivity)]
    exact_mod_cast hup.2
  have hlarge : (2 : ℝ) ^ 64 ≤ ratioOf tick := by exact_mod_cast hlt.le
  have hround : 1 / ((ratioOf tick : ℝ) / 2 ^ 32) ≤ 1 / 2 ^ 32 :=
    one_div_le_one_div_of_le (by positivity)
      ((le_div_iff₀ (by positivity)).mpr (hlarge.trans' (by norm_num)))
  refine (hquot.round_up hle hlt').mono ?_
  norm_num at hround ⊢
  linarith

/-- A higher tick has a higher square root price. -/
theorem sqrtRatio_strictMono {tick tick' : ℤ} (hmin : minTick ≤ tick) (hlt : tick < tick')
    (hmax : tick' ≤ maxTick) : sqrtRatio tick < sqrtRatio tick' := by
  have h := near_sqrtRatio hmin (hlt.le.trans hmax)
  have h' := near_sqrtRatio (hmin.trans hlt.le) hmax
  have hlt' : (tick : ℝ) + 1 ≤ tick' := by exact_mod_cast hlt
  have hstep := mul_le_mul_of_nonneg_right hlt' (by linarith [tickLog_gt] : 0 ≤ tickLog)
  have := h.lt h' (by norm_num; linarith [tickLog_gt])
  exact_mod_cast this

end TickMath

end SwaptoshiService
