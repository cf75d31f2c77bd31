import Mathlib.Data.Nat.Prime.Basic
import SwaptoshiService.Framework.NumericText

/-!
# Texts of numbers

`String(number)` writes a finite number with the fewest significant digits that are read back as
the number, of these the nearest ones. Where the decimal point is depends on the size: very large
and very small numbers have an exponent.

`numberOf_numberText`: `Number(text)` reads every number back from its text. The sign of zero is
left out.
-/

namespace SwaptoshiService

/-! ### Numbers of the language -/

/-- `NaN`, an infinity, or a number that is not rounded. -/
def IsNumber (x : Option JsNumber) : Prop :=
  ∀ q, x = some (JsNumber.ofRat q) → nearestDouble q = JsNumber.ofRat q

/-- The value of a finite number. -/
def JsNumber.toRat (x : JsNumber) : ℚ := (x.unbotD ⊤).untopD 0

@[simp] theorem JsNumber.toRat_ofRat (q : ℚ) : (JsNumber.ofRat q).toRat = q := rfl

theorem exists_ofRat {x : JsNumber} (htop : x ≠ ⊤) (hbot : x ≠ ⊥) : ∃ q, x = JsNumber.ofRat q := by
  obtain ⟨y, rfl⟩ := WithBot.ne_bot_iff_exists.mp hbot
  obtain ⟨q, rfl⟩ := WithTop.ne_top_iff_exists.mp fun hy => htop (congrArg _ hy)
  exact ⟨q, rfl⟩

/-! ### Significant digits -/

/-- `q` with the sign. -/
def withSign (negative : Bool) (q : ℚ) : ℚ := if negative then -q else q

/-- The decimal is read as the number. -/
def readsAs (q : ℚ) (s : ℕ) (e : ℤ) : Prop :=
  nearestDouble (withSign (q < 0) (s * 10 ^ e)) = JsNumber.ofRat q

instance (q : ℚ) (s : ℕ) (e : ℤ) : Decidable (readsAs q s e) :=
  inferInstanceAs (Decidable (_ = _))

/-- The decimal with `k` significant digits that is read as the number and is nearest to it, if
there is one: its digits, and the exponent of the last one. -/
def digitsOf (q : ℚ) (k : ℕ) : Option (ℕ × ℤ) :=
  let n := Int.log 10 |q| + 1
  let lo := ⌊|q| / 10 ^ (n - k)⌋.toNat
  if readsAs q lo (n - k) ∧
      (¬ readsAs q (lo + 1) (n - k) ∨ |q| / 10 ^ (n - k) - lo ≤ lo + 1 - |q| / 10 ^ (n - k)) then
    some (lo, n - k)
  else if lo + 1 = 10 ^ k ∧ readsAs q 1 n then some (1, n)
  else if readsAs q (lo + 1) (n - k) then some (lo + 1, n - k)
  else none

/-- All digits of a number, whose denominator is a power of two. -/
def allDigits (q : ℚ) : ℕ × ℤ :=
  let j := Nat.log 2 q.den
  (q.num.natAbs * 5 ^ j, -j)

/-- The fewest digits that are read as the number; seventeen always suffice. -/
def shortestDigits (q : ℚ) : ℕ × ℤ :=
  ((List.range 17).findSome? fun i => digitsOf q (i + 1)).getD (allDigits q)

/-! ### The text -/

/-- The text of a decimal with the digits `ds`, of which the last one has the exponent `e`. -/
def decimalText (ds : List Char) (e : ℤ) : List Char :=
  let n := ds.length + e
  if 0 ≤ e ∧ n ≤ 21 then ds ++ List.replicate e.toNat '0'
  else if 0 < n ∧ n ≤ 21 then ds.take n.toNat ++ '.' :: ds.drop n.toNat
  else if -6 < n ∧ n ≤ 0 then '0' :: '.' :: (List.replicate (-n).toNat '0' ++ ds)
  else
    ds.take 1 ++ (if ds.length = 1 then [] else '.' :: ds.drop 1) ++
      'e' :: (if 0 ≤ n - 1 then '+' else '-') :: Nat.toDigits 10 (n - 1).natAbs

/-- The characters of the text of a number. -/
def numberChars (x : Option JsNumber) : List Char :=
  match x with
  | none => "NaN".toList
  | some x =>
    if x = ⊤ then "Infinity".toList
    else if x = ⊥ then "-Infinity".toList
    else
      let q := x.toRat
      if q = 0 then ['0']
      else
        let digits := shortestDigits q
        let text := decimalText (Nat.toDigits 10 digits.1) digits.2
        if q < 0 then '-' :: text else text

/-- `String(number)`. -/
def numberText (x : Option JsNumber) : String := String.ofList (numberChars x)

example : numberText (some (JsNumber.ofRat (-25 / 2))) = "-12.5" := by decide +kernel

example : numberText (some (JsNumber.ofRat (2 ^ 70))) = "1.1805916207174113e+21" := by
  decide +kernel

example : numberText (some (nearestDouble (10 ^ 23))) = "1e+23" := by decide +kernel

example : numberText (some (nearestDouble (1 / 10))) = "0.1" := by decide +kernel

/-! ### Reading a text -/

section Read

variable {a b x cs : List Char} {e : ℤ} {q : ℚ}

/-- What follows the digits: nothing, or an exponent. -/
def IsTail (x : List Char) (e : ℤ) : Prop :=
  readExponent x = some e ∧ (x = [] ∨ ∃ cs, x = 'e' :: cs)

theorem isTail_nil : IsTail [] 0 := ⟨rfl, .inl rfl⟩

theorem isTail_exponent (n : ℤ) :
    IsTail ('e' :: (if 0 ≤ n then '+' else '-') :: Nat.toDigits 10 n.natAbs) n := by
  refine ⟨?_, .inr ⟨_, rfl⟩⟩
  have hdigits : readDigits 10 (Nat.toDigits 10 n.natAbs) = some n.natAbs := by
    rw [readDigits_ten (by simp) (isDigit_toDigits _), Nat.ofDigitChars_ten_toDigits]
  rw [readExponent, if_pos (.inl rfl)]
  by_cases hn : 0 ≤ n
  · rw [if_pos hn]
    simp [readSign, hdigits, abs_of_nonneg hn]
  · rw [if_neg hn]
    simp [readSign, hdigits, abs_of_neg (not_le.mp hn)]

theorem takeWhile_tail (ha : ∀ c ∈ a, c.isDigit = true) (h : IsTail x e) :
    (a ++ x).takeWhile Char.isDigit = a ∧ (a ++ x).dropWhile Char.isDigit = x := by
  rw [List.takeWhile_append_of_pos ha, List.dropWhile_append_of_pos ha]
  rcases h.2 with rfl | ⟨cs, rfl⟩ <;> simp

/-- A numeral without a point. -/
theorem readDecimal_append (ha : ∀ c ∈ a, c.isDigit = true) (hne : a ≠ []) (h : IsTail x e) :
    readDecimal (a ++ x) = some ((Nat.ofDigitChars 10 a 0 : ℚ) * 10 ^ e) := by
  obtain ⟨htake, hdrop⟩ := takeWhile_tail ha h
  have hfraction : readFraction x = ([], x) := by rcases h.2 with rfl | ⟨cs, rfl⟩ <;> rfl
  simp [readDecimal, htake, hdrop, hfraction, readDigits_ten hne ha, h.1]

/-- A numeral with a point. -/
theorem readDecimal_point (ha : ∀ c ∈ a, c.isDigit = true) (hb : ∀ c ∈ b, c.isDigit = true)
    (hne : a ≠ []) (h : IsTail x e) : readDecimal (a ++ '.' :: (b ++ x)) =
      some ((Nat.ofDigitChars 10 (a ++ b) 0 : ℚ) * 10 ^ (e - b.length)) := by
  obtain ⟨htake, hdrop⟩ := takeWhile_tail hb h
  have hfront : (a ++ '.' :: (b ++ x)).takeWhile Char.isDigit = a := by
    rw [List.takeWhile_append_of_pos ha]
    simp
  have hback : (a ++ '.' :: (b ++ x)).dropWhile Char.isDigit = '.' :: (b ++ x) := by
    rw [List.dropWhile_append_of_pos ha]
    simp
  have hab : ∀ c ∈ a ++ b, c.isDigit = true := fun c hc =>
    (List.mem_append.mp hc).elim (ha c) (hb c)
  simp [readDecimal, hfront, hback, readFraction, htake, hdrop,
    readDigits_ten (List.append_ne_nil_of_left_ne_nil hne b) hab, h.1]

section Decimal

variable {ds : List Char} (hds : ∀ c ∈ ds, c.isDigit = true)
include hds

theorem isDigit_of_mem_take (n : ℕ) : ∀ c ∈ ds.take n, c.isDigit = true := fun c hc =>
  hds c (List.mem_of_mem_take hc)

theorem isDigit_of_mem_drop (n : ℕ) : ∀ c ∈ ds.drop n, c.isDigit = true := fun c hc =>
  hds c (List.mem_of_mem_drop hc)

omit hds in
theorem isDigit_of_mem_zeros (n : ℕ) : ∀ c ∈ List.replicate n '0', c.isDigit = true :=
  fun c hc => by
    rw [List.eq_of_mem_replicate hc]
    rfl

/-- An integer: zeros follow the digits. -/
theorem readDecimal_zerosAfter (hne : ds ≠ []) (he : 0 ≤ e) :
    readDecimal (ds ++ List.replicate e.toNat '0') =
      some ((Nat.ofDigitChars 10 ds 0 : ℚ) * 10 ^ e) := by
  have hall : ∀ c ∈ ds ++ List.replicate e.toNat '0', c.isDigit = true := fun c hc =>
    (List.mem_append.mp hc).elim (hds c) (isDigit_of_mem_zeros _ c)
  rw [readDecimal_of_isDigit (by simp [hne]) hall, Nat.ofDigitChars_append,
    Nat.ofDigitChars_replicate_zero]
  have heq : e = (e.toNat : ℤ) := by omega
  rw [heq, zpow_natCast, Int.toNat_natCast]
  push_cast
  rw [mul_comm]

/-- The point is among the digits. -/
theorem readDecimal_pointAmong (he : e < 0) (hn : 0 < ds.length + e) :
    readDecimal (ds.take (ds.length + e).toNat ++ '.' :: ds.drop (ds.length + e).toNat) =
      some ((Nat.ofDigitChars 10 ds 0 : ℚ) * 10 ^ e) := by
  have hne : ds ≠ [] := by
    rintro rfl
    simp only [List.length_nil] at hn
    omega
  have hread := readDecimal_point (isDigit_of_mem_take hds (ds.length + e).toNat)
    (isDigit_of_mem_drop hds (ds.length + e).toNat) (by simp [hne]; omega) isTail_nil
  rw [List.append_nil, List.take_append_drop] at hread
  rw [hread]
  congr 3
  rw [List.length_drop]
  omega

/-- Zeros come before the digits. -/
theorem readDecimal_zerosBefore (hn : ds.length + e ≤ 0) :
    readDecimal ('0' :: '.' :: (List.replicate (-(ds.length + e)).toNat '0' ++ ds)) =
      some ((Nat.ofDigitChars 10 ds 0 : ℚ) * 10 ^ e) := by
  have hread := readDecimal_point (a := ['0'])
    (b := List.replicate (-(ds.length + e)).toNat '0' ++ ds) (List.forall_mem_singleton.mpr rfl)
    (fun c hc => (List.mem_append.mp hc).elim (isDigit_of_mem_zeros _ c) (hds c)) (by simp)
    isTail_nil
  have hvalue : Nat.ofDigitChars 10
      (['0'] ++ (List.replicate (-(ds.length + e)).toNat '0' ++ ds)) 0 =
        Nat.ofDigitChars 10 ds 0 := by
    rw [Nat.ofDigitChars_append, Nat.ofDigitChars_append, Nat.ofDigitChars_replicate_zero]
    rfl
  rw [hvalue, List.append_nil, List.singleton_append] at hread
  rw [hread]
  congr 3
  rw [List.length_append, List.length_replicate]
  omega

/-- The exponent is that of the first digit. -/
theorem readDecimal_exponent (hne : ds ≠ []) :
    readDecimal (ds.take 1 ++ (if ds.length = 1 then [] else '.' :: ds.drop 1) ++
      'e' :: (if 0 ≤ ds.length + e - 1 then '+' else '-') ::
        Nat.toDigits 10 (ds.length + e - 1).natAbs) =
      some ((Nat.ofDigitChars 10 ds 0 : ℚ) * 10 ^ e) := by
  have htail := isTail_exponent (ds.length + e - 1)
  have hfirst : ds.take 1 ≠ [] := by simp [hne]
  by_cases hone : ds.length = 1
  · have htake : ds.take 1 = ds := List.take_of_length_le hone.le
    rw [if_pos hone, List.append_nil, readDecimal_append (isDigit_of_mem_take hds 1) hfirst htail,
      htake]
    congr 3
    omega
  · have hpos := List.length_pos_iff.mpr hne
    have hread := readDecimal_point (isDigit_of_mem_take hds 1) (isDigit_of_mem_drop hds 1) hfirst
      htail
    rw [List.take_append_drop] at hread
    rw [if_neg hone, List.append_assoc, List.cons_append, hread]
    congr 3
    rw [List.length_drop]
    omega

end Decimal

/-- **A decimal is read back.** -/
theorem readDecimal_decimalText (s : ℕ) (e : ℤ) :
    readDecimal (decimalText (Nat.toDigits 10 s) e) = some ((s : ℚ) * 10 ^ e) := by
  have hds := isDigit_toDigits s
  have hvalue : Nat.ofDigitChars 10 (Nat.toDigits 10 s) 0 = s := Nat.ofDigitChars_ten_toDigits
  have hne : Nat.toDigits 10 s ≠ [] := List.ne_nil_of_length_pos Nat.length_toDigits_pos
  generalize Nat.toDigits 10 s = ds at hds hvalue hne ⊢
  rw [decimalText, ← hvalue]
  by_cases hint : 0 ≤ e ∧ ds.length + e ≤ 21
  · rw [if_pos hint]
    exact readDecimal_zerosAfter hds hne hint.1
  rw [if_neg hint]
  by_cases hpoint : 0 < ds.length + e ∧ ds.length + e ≤ 21
  · rw [if_pos hpoint]
    exact readDecimal_pointAmong hds (by omega) hpoint.1
  rw [if_neg hpoint]
  by_cases hsmall : -6 < ds.length + e ∧ ds.length + e ≤ 0
  · rw [if_pos hsmall]
    exact readDecimal_zerosBefore hds hsmall.2
  · rw [if_neg hsmall]
    exact readDecimal_exponent hds hne

/-! ### The characters of a text -/

theorem isDigit_or_mem_decimalText {ds : List Char} (hds : ∀ c ∈ ds, c.isDigit = true) (e : ℤ) :
    ∀ c ∈ decimalText ds e, c.isDigit = true ∨ c ∈ ['.', 'e', '+', '-'] := by
  intro c hc
  have htake := fun n => isDigit_of_mem_take hds n c
  have hdrop := fun n => isDigit_of_mem_drop hds n c
  have hzeros := fun n => isDigit_of_mem_zeros n c
  have hzero : c = '0' → c.isDigit = true := fun h => by
    rw [h]
    decide
  have hexponent := isDigit_toDigits (ds.length + e - 1).natAbs c
  rw [decimalText] at hc
  split_ifs at hc <;> simp only [List.mem_append, List.mem_cons, List.not_mem_nil] at hc ⊢ <;> grind

theorem decimalText_eq_cons {ds : List Char} (hds : ∀ c ∈ ds, c.isDigit = true) (hne : ds ≠ [])
    (e : ℤ) : ∃ c cs, decimalText ds e = c :: cs ∧ c.isDigit = true := by
  obtain ⟨d, ds', rfl⟩ := List.exists_cons_of_ne_nil hne
  have hd := hds d List.mem_cons_self
  rw [decimalText]
  by_cases hint : 0 ≤ e ∧ (d :: ds').length + e ≤ 21
  · rw [if_pos hint]
    exact ⟨d, _, rfl, hd⟩
  rw [if_neg hint]
  by_cases hpoint : 0 < (d :: ds').length + e ∧ (d :: ds').length + e ≤ 21
  · rw [if_pos hpoint]
    obtain ⟨n, hn⟩ : ∃ n, ((d :: ds').length + e).toNat = n + 1 :=
      Nat.exists_eq_succ_of_ne_zero (by omega)
    rw [hn]
    exact ⟨d, _, rfl, hd⟩
  rw [if_neg hpoint]
  by_cases hsmall : -6 < (d :: ds').length + e ∧ (d :: ds').length + e ≤ 0
  · rw [if_pos hsmall]
    exact ⟨'0', _, rfl, by decide⟩
  · rw [if_neg hsmall]
    exact ⟨d, _, rfl, hd⟩

theorem readPrefix_of_chars (hchars : ∀ c ∈ cs, c.isDigit = true ∨ c ∈ ['.', 'e', '+', '-']) :
    readPrefix cs = none := by
  rw [readPrefix.eq_def]
  split
  · rename_i c cs
    have hc := hchars c (by simp)
    have hne : ∀ d : Char, d.isDigit = false → d ∉ ['.', 'e', '+', '-'] → c ≠ d := by
      rintro d hd hnot rfl
      exact hc.elim (fun h => by simp [hd] at h) hnot
    simp [hne 'x' (by decide) (by decide), hne 'X' (by decide) (by decide),
      hne 'o' (by decide) (by decide), hne 'O' (by decide) (by decide),
      hne 'b' (by decide) (by decide), hne 'B' (by decide) (by decide)]
  · rfl

/-- **A signed decimal is read back.** -/
theorem numberOf_decimal (negative : Bool) (h : readDecimal cs = some q)
    (hchars : ∀ c ∈ cs, c.isDigit = true ∨ c ∈ ['.', 'e', '+', '-'])
    (hfirst : ∃ c cs', cs = c :: cs' ∧ c.isDigit = true) :
    numberOf (if negative then '-' :: cs else cs) =
      some (nearestDouble (withSign negative q)) := by
  obtain ⟨c, cs', rfl, hdigit⟩ := hfirst
  have hspace : ∀ d, d.isDigit = true ∨ d ∈ ['.', 'e', '+', '-'] → isSpace d = false := by
    rintro d (hd | hd)
    · exact isSpace_of_isDigit hd
    · simp only [List.mem_cons, List.not_mem_nil, or_false] at hd
      rcases hd with rfl | rfl | rfl | rfl <;> decide
  have hinfinity : c :: cs' ≠ "Infinity".toList := by
    intro heq
    obtain rfl : c = 'I' := (List.cons.inj heq).1
    simp at hdigit
  have hsign : readSign (c :: cs') = (false, c :: cs') := by
    rw [readSign.eq_def]
    split
    · next heq =>
      obtain rfl := (List.cons.inj heq).1
      simp at hdigit
    · next heq =>
      obtain rfl := (List.cons.inj heq).1
      simp at hdigit
    · rfl
  cases negative with
  | false =>
    rw [if_neg Bool.false_ne_true, numberOf, trim_eq_self fun d hd => hspace d (hchars d hd),
      if_neg (List.cons_ne_nil _ _), readPrefix_of_chars hchars, hsign]
    simp only [if_neg hinfinity, h, Option.map_some]
    rfl
  | true =>
    have hall : ∀ d ∈ '-' :: c :: cs', isSpace d = false := by
      intro d hd
      rcases List.mem_cons.mp hd with rfl | hd
      · decide
      · exact hspace d (hchars d hd)
    have hbase : readPrefix ('-' :: c :: cs') = none := rfl
    have hminus : readSign ('-' :: c :: cs') = (true, c :: cs') := rfl
    rw [if_pos rfl, numberOf, trim_eq_self hall, if_neg (List.cons_ne_nil _ _), hbase, hminus]
    simp only [if_neg hinfinity, h, Option.map_some]
    rfl

end Read

/-! ### Digits that are enough -/

section Digits

variable {q : ℚ} {k : ℕ} {s : ℕ} {e : ℤ}

theorem readsAs_of_digitsOf (h : digitsOf q k = some (s, e)) : readsAs q s e := by
  rw [digitsOf] at h
  split_ifs at h with hlo hnext hhi <;> obtain ⟨rfl, rfl⟩ := Prod.mk.inj (Option.some.inj h)
  · exact hlo.1
  · exact hnext.2
  · exact_mod_cast hhi

/-- A double is an integer times a power of two. -/
theorem exists_eq_mul_zpow {x : ℚ} (h : nearestDouble q = JsNumber.ofRat x) :
    ∃ (m e : ℤ), -1074 ≤ e ∧ x = m * (2 : ℚ) ^ e := by
  rw [nearestDouble] at h
  split_ifs at h with hsmall hneg
  · exact ⟨_, _, le_max_right _ _, (WithTop.coe_inj.mp (WithBot.coe_inj.mp h)).symm⟩
  · exact absurd h (WithBot.coe_ne_bot ·.symm)
  · exact absurd (WithBot.coe_inj.mp h) (WithTop.coe_ne_top ·.symm)

/-- So its denominator is a power of two. -/
theorem exists_den_eq (h : nearestDouble q = JsNumber.ofRat q) : ∃ j, q.den = 2 ^ j := by
  obtain ⟨m, e, -, hq⟩ := exists_eq_mul_zpow h
  have hfraction : q = Rat.divInt (m * 2 ^ (e + (-e).toNat).toNat) (2 ^ (-e).toNat : ℤ) := by
    have hexponent : e = ((e + (-e).toNat).toNat : ℤ) - ((-e).toNat : ℤ) := by omega
    rw [Rat.divInt_eq_div, eq_div_iff (by positivity), hq]
    nth_rewrite 1 [hexponent]
    rw [zpow_sub₀ (by norm_num), zpow_natCast, zpow_natCast]
    push_cast
    field_simp
  have hdvd : (q.den : ℤ) ∣ ((2 ^ (-e).toNat : ℕ) : ℤ) := by
    push_cast
    nth_rewrite 1 [hfraction]
    exact Rat.den_dvd _ _
  obtain ⟨j, -, hj⟩ := (Nat.dvd_prime_pow Nat.prime_two).mp (Int.natCast_dvd_natCast.mp hdvd)
  exact ⟨j, hj⟩

theorem allDigits_eq {j : ℕ} (h : q.den = 2 ^ j) :
    ((allDigits q).1 : ℚ) * 10 ^ (allDigits q).2 = |q| := by
  have habs : |q| = (q.num.natAbs : ℚ) / 2 ^ j := by
    conv_lhs => rw [← Rat.num_div_den q]
    rw [abs_div, h, Nat.abs_cast, Nat.cast_natAbs]
    push_cast
    rfl
  have hten : (10 : ℚ) ^ j = 2 ^ j * 5 ^ j := by rw [← mul_pow]; norm_num
  rw [allDigits, h, Nat.log_pow (by norm_num), habs]
  simp only
  rw [zpow_neg, zpow_natCast, hten]
  push_cast
  field_simp

/-- **The shortest digits are read as the number.** -/
theorem readsAs_shortestDigits (h : nearestDouble q = JsNumber.ofRat q) :
    readsAs q (shortestDigits q).1 (shortestDigits q).2 := by
  rw [shortestDigits]
  cases hfind : (List.range 17).findSome? fun i => digitsOf q (i + 1) with
  | some digits =>
    obtain ⟨i, -, hi⟩ := List.exists_of_findSome?_eq_some hfind
    exact readsAs_of_digitsOf hi
  | none =>
    obtain ⟨j, hj⟩ := exists_den_eq h
    have hsign : withSign (q < 0) |q| = q := by
      rw [withSign]
      split_ifs with hq
      · rw [abs_of_neg (of_decide_eq_true hq), neg_neg]
      · exact abs_of_nonneg (not_lt.mp (by simpa using hq))
    rw [Option.getD_none, readsAs, allDigits_eq hj, hsign, h]

end Digits

/-- **Every number is read back from its text.** -/
theorem numberOf_numberText {x : Option JsNumber} (h : IsNumber x) :
    numberOf (numberText x).toList = x := by
  rw [numberText, String.toList_ofList]
  cases x with
  | none => decide +kernel
  | some x =>
    rw [numberChars.eq_def]
    simp only
    by_cases htop : x = ⊤
    · rw [if_pos htop, htop]
      decide +kernel
    by_cases hbot : x = ⊥
    · rw [if_neg htop, if_pos hbot, hbot]
      decide +kernel
    rw [if_neg htop, if_neg hbot]
    obtain ⟨q, rfl⟩ := exists_ofRat htop hbot
    rw [JsNumber.toRat_ofRat]
    by_cases hzero : q = 0
    · rw [if_pos hzero, hzero]
      decide +kernel
    rw [if_neg hzero]
    have hdigits := isDigit_toDigits (shortestDigits q).1
    have hread := numberOf_decimal (decide (q < 0))
      (readDecimal_decimalText (shortestDigits q).1 (shortestDigits q).2)
      (isDigit_or_mem_decimalText hdigits _) (decimalText_eq_cons hdigits (by simp) _)
    rw [readsAs_shortestDigits (h q rfl)] at hread
    simpa using hread

/-! ### Integers of any size -/

/-- `BigInt(text)`; `none` throws. -/
def bigIntOf (text : List Char) : Option ℤ :=
  let cs := trim text
  if cs = [] then some 0
  else match readPrefix cs with
    | some (base, digits) => (readDigits base digits).map fun n => (n : ℤ)
    | none => (readDigits 10 (readSign cs).2).map fun n => if (readSign cs).1 then -n else n

example : bigIntOf "-12345678901234567890".toList = some (-12345678901234567890) ∧
    bigIntOf "1.5".toList = none := by decide +kernel

/-- The text of an integer is read back, however large it is. -/
theorem bigIntOf_toString (z : ℤ) : bigIntOf (toString z).toList = some z := by
  have hspace : ∀ c ∈ (toString z).toList, isSpace c = false := by
    intro c hc
    rcases mem_toList_toString hc with rfl | hc
    · decide
    · exact isSpace_of_isDigit hc
  have hread : ∀ m, readDigits 10 (Nat.toDigits 10 m) = some m := fun m => by
    rw [readDigits_ten (by simp) (isDigit_toDigits m), Nat.ofDigitChars_ten_toDigits]
  rw [bigIntOf, trim_eq_self hspace, if_neg (toList_toString_ne_nil z)]
  cases z with
  | ofNat m =>
    rw [toList_toString_ofNat, readPrefix_of_isDigit (isDigit_toDigits m),
      readSign_of_isDigit (isDigit_toDigits m)]
    simp [hread]
  | negSucc m =>
    rw [toList_toString_negSucc]
    have hbase : readPrefix ('-' :: Nat.toDigits 10 (m + 1)) = none := rfl
    have hsign : readSign ('-' :: Nat.toDigits 10 (m + 1)) = (true, Nat.toDigits 10 (m + 1)) := rfl
    rw [hbase, hsign]
    simp [hread, Int.negSucc_eq]

end SwaptoshiService
