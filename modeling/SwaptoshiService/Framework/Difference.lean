import SwaptoshiService.Framework.NumberText

/-!
# Differences of numbers

`x - y` of two doubles is rounded, but never to zero unless they are equal: both are multiples of
the smallest positive double, and so is their difference. A comparison by the difference is
therefore one of the numbers (`subtract_ofRat`). With infinities it need not be: the difference of
an infinity with itself is `NaN`.
-/

namespace SwaptoshiService

/-- `x - y` -/
def subtract (x y : Option JsNumber) : Option JsNumber :=
  match x, y with
  | some x, some y =>
    -- The difference of an infinity with itself is `NaN`.
    if x = ⊤ then if y = ⊤ then none else some ⊤
    else if x = ⊥ then if y = ⊥ then none else some ⊥
    else if y = ⊤ then some ⊥
    else if y = ⊥ then some ⊤
    else some (nearestDouble (x.toRat - y.toRat))
  | _, _ => none

@[simp] theorem subtract_none_left (y : Option JsNumber) : subtract none y = none := rfl

@[simp] theorem subtract_none_right (x : Option JsNumber) : subtract x none = none := by
  cases x <;> rfl

theorem JsNumber.ofRat_ne_top (q : ℚ) : JsNumber.ofRat q ≠ ⊤ := fun h =>
  WithTop.coe_ne_top (WithBot.coe_inj.mp h)

theorem JsNumber.ofRat_ne_bot (q : ℚ) : JsNumber.ofRat q ≠ ⊥ := WithBot.coe_ne_bot

theorem subtract_finite (p q : ℚ) :
    subtract (some (JsNumber.ofRat p)) (some (JsNumber.ofRat q)) =
      some (nearestDouble (p - q)) := by
  simp [subtract, JsNumber.ofRat_ne_top, JsNumber.ofRat_ne_bot]

/-- Only a finite number has a difference with itself. -/
theorem exists_ofRat_of_subtract_self {x y : JsNumber} (h : subtract (some x) (some x) = some y) :
    ∃ q, x = JsNumber.ofRat q := by
  refine exists_ofRat ?_ ?_
  · rintro rfl
    simp [subtract] at h
  · rintro rfl
    simp [subtract] at h

/-! ### Multiples of the smallest double -/

/-- The smallest positive double. -/
def smallestDouble : ℚ := 2 ^ (-1074 : ℤ)

theorem smallestDouble_pos : 0 < smallestDouble := zpow_pos two_pos _

/-- A multiple of the smallest double, as every double is. -/
def IsMultiple (q : ℚ) : Prop := ∃ k : ℤ, q = k * smallestDouble

section Multiple

variable {p q x : ℚ}

theorem IsMultiple.sub (hp : IsMultiple p) (hq : IsMultiple q) : IsMultiple (p - q) := by
  obtain ⟨j, rfl⟩ := hp
  obtain ⟨k, rfl⟩ := hq
  exact ⟨j - k, by push_cast; ring⟩

theorem isMultiple_of_nearestDouble (h : nearestDouble q = JsNumber.ofRat x) : IsMultiple x := by
  obtain ⟨m, e, he, rfl⟩ := exists_eq_mul_zpow h
  obtain ⟨n, hn⟩ := Int.eq_ofNat_of_zero_le (sub_nonneg.mpr he)
  refine ⟨m * 2 ^ n, ?_⟩
  have hsum : e = n + -1074 := by omega
  have hpow : (2 : ℚ) ^ e = 2 ^ n * smallestDouble := by
    rw [hsum, zpow_add₀ two_ne_zero, zpow_natCast, smallestDouble]
  rw [hpow]
  push_cast
  ring

theorem isMultiple_of_numberOf {cs : List Char} (h : numberOf cs = some (JsNumber.ofRat x)) :
    IsMultiple x := by
  rw [numberOf] at h
  split_ifs at h with hnil
  · have hzero := congrArg JsNumber.toRat (Option.some.inj h)
    rw [JsNumber.toRat_ofRat, JsNumber.toRat_ofRat] at hzero
    exact ⟨0, by rw [← hzero, Int.cast_zero, zero_mul]⟩
  split at h
  · obtain ⟨n, -, hn⟩ := Option.map_eq_some_iff.mp h
    exact isMultiple_of_nearestDouble hn
  · simp only at h
    split_ifs at h with hinfinity hneg
    · exact absurd (Option.some.inj h).symm (JsNumber.ofRat_ne_bot x)
    · exact absurd (Option.some.inj h).symm (JsNumber.ofRat_ne_top x)
    · obtain ⟨n, -, hn⟩ := Option.map_eq_some_iff.mp h
      exact isMultiple_of_nearestDouble hn
    · obtain ⟨n, -, hn⟩ := Option.map_eq_some_iff.mp h
      exact isMultiple_of_nearestDouble hn

/-- The unit of the last place is no greater than the number. -/
theorem zpow_le_abs (hq : IsMultiple q) (hne : q ≠ 0) :
    (2 : ℚ) ^ max (Int.log 2 |q| - 52) (-1074) ≤ |q| := by
  rcases max_cases (Int.log 2 |q| - 52) (-1074) with ⟨hmax, -⟩ | ⟨hmax, -⟩
  · rw [hmax]
    calc (2 : ℚ) ^ (Int.log 2 |q| - 52) ≤ 2 ^ Int.log 2 |q| :=
          zpow_le_zpow_right₀ one_le_two (by omega)
      _ ≤ |q| := Int.zpow_log_le_self one_lt_two (abs_pos.mpr hne)
  · obtain ⟨k, rfl⟩ := hq
    have hk : 1 ≤ |k| := Int.one_le_abs fun h => hne (by simp [h])
    rw [hmax, abs_mul, abs_of_pos smallestDouble_pos]
    refine le_mul_of_one_le_left smallestDouble_pos.le ?_
    exact_mod_cast hk

theorem roundTiesToEven_pos (h : 1 ≤ q) : 0 < roundTiesToEven q := by
  have hfloor : 1 ≤ ⌊q⌋ := Int.le_floor.mpr (by simpa using h)
  simp only [roundTiesToEven]
  split_ifs <;> omega

theorem roundTiesToEven_neg (h : q ≤ -1) : roundTiesToEven q < 0 := by
  have hfloor : ⌊q⌋ ≤ -1 := by exact_mod_cast (Int.floor_le q).trans h
  simp only [roundTiesToEven]
  split_ifs with hdown
  · omega
  · -- Rounded up, so there is a fraction.
    have hlt : (⌊q⌋ : ℚ) < -1 := by
      refine lt_of_lt_of_le ?_ h
      by_contra hge
      have hzero : q - ⌊q⌋ ≤ 0 := sub_nonpos.mpr (not_lt.mp hge)
      exact hdown (.inl (hzero.trans_lt (by norm_num)))
    have hlt' : ⌊q⌋ < -1 := by exact_mod_cast hlt
    omega

theorem nearestDouble_zero : nearestDouble 0 = JsNumber.ofRat 0 := by
  exact_mod_cast nearestDouble_intCast (n := 0) (by decide)

/-- A multiple of the smallest double keeps its sign. -/
theorem nearestDouble_pos (hq : IsMultiple q) (h : 0 < q) : JsNumber.ofRat 0 < nearestDouble q := by
  have hunit := zpow_le_abs hq h.ne'
  rw [nearestDouble]
  generalize max (Int.log 2 |q| - 52) (-1074) = e at hunit ⊢
  -- In units of the last place the number is at least one, and stays so when rounded.
  rw [abs_of_pos h] at hunit
  have hpow : (0 : ℚ) < 2 ^ e := zpow_pos two_pos _
  have hround := roundTiesToEven_pos ((one_le_div hpow).mpr hunit)
  rw [if_neg (not_lt.mpr h.le)]
  split_ifs
  · refine JsNumber.ofRat_lt.mpr (mul_pos ?_ hpow)
    exact_mod_cast hround
  · exact lt_top_iff_ne_top.mpr (JsNumber.ofRat_ne_top 0)

theorem nearestDouble_neg (hq : IsMultiple q) (h : q < 0) : nearestDouble q < JsNumber.ofRat 0 := by
  have hunit := zpow_le_abs hq h.ne
  rw [nearestDouble]
  generalize max (Int.log 2 |q| - 52) (-1074) = e at hunit ⊢
  rw [abs_of_neg h] at hunit
  have hpow : (0 : ℚ) < 2 ^ e := zpow_pos two_pos _
  have hle : q / 2 ^ e ≤ -1 := by
    rw [div_le_iff₀ hpow]
    linarith
  have hround := roundTiesToEven_neg hle
  rw [if_pos h]
  split_ifs
  · refine JsNumber.ofRat_lt.mpr (mul_neg_of_neg_of_pos ?_ hpow)
    exact_mod_cast hround
  · exact bot_lt_iff_ne_bot.mpr (JsNumber.ofRat_ne_bot 0)

/-- **The difference of two doubles compares them.** -/
theorem subtract_ofRat (hp : IsMultiple p) (hq : IsMultiple q) :
    ∃ z, subtract (some (JsNumber.ofRat p)) (some (JsNumber.ofRat q)) = some z ∧
      (z ≤ JsNumber.ofRat 0 ↔ p ≤ q) ∧ (JsNumber.ofRat 0 ≤ z ↔ q ≤ p) := by
  refine ⟨_, subtract_finite p q, ?_⟩
  rcases lt_trichotomy p q with hlt | rfl | hlt
  · have hneg := nearestDouble_neg (hp.sub hq) (sub_neg.mpr hlt)
    exact ⟨iff_of_true hneg.le hlt.le, iff_of_false hneg.not_ge hlt.not_ge⟩
  · rw [sub_self, nearestDouble_zero]
    exact ⟨iff_of_true le_rfl le_rfl, iff_of_true le_rfl le_rfl⟩
  · have hpos := nearestDouble_pos (hp.sub hq) (sub_pos.mpr hlt)
    exact ⟨iff_of_false hpos.not_ge hlt.not_ge, iff_of_true hpos.le hlt.le⟩

end Multiple

end SwaptoshiService
