import Mathlib.Algebra.Order.Floor.Ring
import Mathlib.Data.Int.Log
import Mathlib.Data.List.DropRight
import Mathlib.Data.Rat.Floor
import Mathlib.Order.WithBot
import Mathlib.Tactic.FieldSimp
import Mathlib.Tactic.Linarith
import Mathlib.Tactic.NormNum
import SwaptoshiService.Lib.Buffer

/-!
# Numbers in texts

`Number(text)`: blanks around the text are dropped, a text of blanks is **zero**, and the rest is
`Infinity`, a decimal numeral with an optional fraction and exponent, or a numeral in base 2, 8 or
16. The value is rounded to the nearest double; what is no numeral is `NaN`.

The texts of integers below `2 ^ 53` are read back as they are (`numberOf_toString`).
-/

namespace SwaptoshiService

/-- A number that is not `NaN`; `⊤` and `⊥` are the infinities. -/
abbrev JsNumber := WithBot (WithTop ℚ)

/-- The finite number. -/
def JsNumber.ofRat (q : ℚ) : JsNumber := ((q : WithTop ℚ) : WithBot (WithTop ℚ))

@[simp] theorem JsNumber.ofRat_le {p q : ℚ} : JsNumber.ofRat p ≤ JsNumber.ofRat q ↔ p ≤ q := by
  rw [ofRat, ofRat, WithBot.coe_le_coe, WithTop.coe_le_coe]

@[simp] theorem JsNumber.ofRat_lt {p q : ℚ} : JsNumber.ofRat p < JsNumber.ofRat q ↔ p < q := by
  rw [ofRat, ofRat, WithBot.coe_lt_coe, WithTop.coe_lt_coe]

/-! ### Rounding -/

/-- The nearest integer, ties to even. -/
def roundTiesToEven (q : ℚ) : ℤ :=
  let r := q - ⌊q⌋
  if r < 1 / 2 ∨ (r = 1 / 2 ∧ ⌊q⌋ % 2 = 0) then ⌊q⌋ else ⌊q⌋ + 1

/-- The double nearest to `q`: 53 significant bits, none of them below `2 ^ -1074`. -/
def nearestDouble (q : ℚ) : JsNumber :=
  let e := max (Int.log 2 |q| - 52) (-1074)
  let x := roundTiesToEven (q / 2 ^ e) * (2 : ℚ) ^ e
  if |x| < 2 ^ 1024 then JsNumber.ofRat x else if q < 0 then ⊥ else ⊤

theorem roundTiesToEven_intCast (n : ℤ) : roundTiesToEven n = n := by
  simp [roundTiesToEven]

/-- Integers below `2 ^ 53` are doubles. -/
theorem nearestDouble_intCast {n : ℤ} (h : n.natAbs < 2 ^ 53) :
    nearestDouble n = JsNumber.ofRat n := by
  have habs : |(n : ℚ)| = (n.natAbs : ℚ) := by
    rw [← Int.cast_abs, Int.abs_eq_natAbs, Int.cast_natCast]
  have hlog : Int.log 2 |(n : ℚ)| - 52 ≤ 0 := by
    rw [habs, Int.log_natCast]
    have hlog : Nat.log 2 n.natAbs < 53 := by
      rcases Nat.eq_zero_or_pos n.natAbs with hzero | hpos
      · simp [hzero]
      · exact Nat.log_lt_of_lt_pow hpos.ne' h
    omega
  obtain ⟨k, hk⟩ : ∃ k : ℕ, max (Int.log 2 |(n : ℚ)| - 52) (-1074) = -(k : ℤ) :=
    ⟨(-max (Int.log 2 |(n : ℚ)| - 52) (-1074)).toNat, by omega⟩
  have hscaled : (n : ℚ) / 2 ^ (-(k : ℤ)) = ((n * 2 ^ k : ℤ) : ℚ) := by
    rw [zpow_neg, zpow_natCast, div_inv_eq_mul]
    push_cast
    rfl
  -- Scaled by a power of two the number is an integer, which is not rounded.
  have hvalue : (roundTiesToEven ((n : ℚ) / 2 ^ (-(k : ℤ))) : ℚ) * 2 ^ (-(k : ℤ)) = n := by
    rw [hscaled, roundTiesToEven_intCast, zpow_neg, zpow_natCast]
    push_cast
    field_simp
  have hsmall : |(n : ℚ)| < 2 ^ 1024 := by
    rw [habs]
    calc (n.natAbs : ℚ) < 2 ^ 53 := by exact_mod_cast h
      _ ≤ 2 ^ 1024 := pow_le_pow_right₀ (by norm_num) (by norm_num)
  rw [nearestDouble]
  simp only [hk, hvalue]
  rw [if_pos hsmall]

/-! ### Numerals -/

/-- White space and line terminators. -/
def isSpace (c : Char) : Bool :=
  [9, 10, 11, 12, 13, 32, 160, 0x1680, 0x2028, 0x2029, 0x202F, 0x205F, 0x3000, 0xFEFF].contains
    c.toNat || (0x2000 ≤ c.toNat && c.toNat ≤ 0x200A)

/-- `text.trim()`. -/
def trim (cs : List Char) : List Char := (cs.dropWhile isSpace).rdropWhile isSpace

/-- A digit more. -/
def readDigit (base : ℕ) (n : Option ℕ) (c : Char) : Option ℕ :=
  n.bind fun n => (hexValue c).bind fun d => if d < base then some (base * n + d) else none

/-- One digit at least, and nothing else. -/
def readDigits (base : ℕ) (cs : List Char) : Option ℕ :=
  if cs = [] then none else cs.foldl (readDigit base) (some 0)

/-- Whether there is a minus sign, and what follows the sign. -/
def readSign : List Char → Bool × List Char
  | '-' :: cs => (true, cs)
  | '+' :: cs => (false, cs)
  | cs => (false, cs)

/-- The exponent of a decimal numeral, if there is one. -/
def readExponent : List Char → Option ℤ
  | [] => some 0
  | c :: cs =>
    if c = 'e' ∨ c = 'E' then
      (readDigits 10 (readSign cs).2).map fun n => if (readSign cs).1 then -n else n
    else none

/-- The fraction of a decimal numeral, and what follows it. -/
def readFraction : List Char → List Char × List Char
  | '.' :: cs => (cs.takeWhile Char.isDigit, cs.dropWhile Char.isDigit)
  | cs => ([], cs)

/-- A decimal numeral without a sign. -/
def readDecimal (cs : List Char) : Option ℚ :=
  let (fraction, rest) := readFraction (cs.dropWhile Char.isDigit)
  (readDigits 10 (cs.takeWhile Char.isDigit ++ fraction)).bind fun n =>
    (readExponent rest).map fun e => (n : ℚ) * 10 ^ (e - (fraction.length : ℤ))

/-- The base and the digits of a numeral that is marked as not decimal. -/
def readPrefix : List Char → Option (ℕ × List Char)
  | '0' :: c :: cs =>
    if c = 'x' ∨ c = 'X' then some (16, cs)
    else if c = 'o' ∨ c = 'O' then some (8, cs)
    else if c = 'b' ∨ c = 'B' then some (2, cs)
    else none
  | _ => none

/-- `Number(text)`; `none` is `NaN`. -/
def numberOf (text : List Char) : Option JsNumber :=
  let cs := trim text
  if cs = [] then some (JsNumber.ofRat 0)
  else match readPrefix cs with
    | some (base, digits) => (readDigits base digits).map fun n => nearestDouble n
    | none =>
      let (negative, rest) := readSign cs
      if rest = "Infinity".toList then some (if negative then ⊥ else ⊤)
      else (readDecimal rest).map fun q => nearestDouble (if negative then -q else q)

example : numberOf " -1.25e1 ".toList = some (JsNumber.ofRat (-25 / 2)) := by decide +kernel

example : numberOf "0x1F".toList = some (JsNumber.ofRat 31) := by decide +kernel

example : numberOf "9007199254740993".toList = some (JsNumber.ofRat (2 ^ 53)) := by decide +kernel

example : numberOf "1e400".toList = some ⊤ ∧ numberOf "12a".toList = none := by decide +kernel

/-! ### The text of an integer -/

section Integer

variable {c : Char} {cs : List Char}

theorem isSpace_of_isDigit (h : c.isDigit = true) : isSpace c = false := by
  have hc := toNat_of_isDigit h
  simp only [isSpace, List.contains_eq_mem, List.mem_cons, List.not_mem_nil, or_false,
    Bool.or_eq_false_iff, decide_eq_false_iff_not, Bool.and_eq_false_imp, decide_eq_true_eq]
  omega

theorem isSpace_of_isAlphanum (h : c.isAlphanum = true) : isSpace c = false := by
  have hc : 48 ≤ c.toNat ∧ c.toNat ≤ 122 := by
    have hA : 'A'.val.toNat = 65 := rfl
    have hZ : 'Z'.val.toNat = 90 := rfl
    have ha : 'a'.val.toNat = 97 := rfl
    have hz : 'z'.val.toNat = 122 := rfl
    change ((decide ('A'.val ≤ c.val ∧ c.val ≤ 'Z'.val) ||
      (decide ('a'.val ≤ c.val) && decide (c.val ≤ 'z'.val))) || c.isDigit) = true at h
    rw [Bool.or_eq_true, Bool.or_eq_true, Bool.and_eq_true] at h
    simp only [decide_eq_true_eq, UInt32.le_iff_toNat_le] at h
    change 48 ≤ c.val.toNat ∧ c.val.toNat ≤ 122
    rcases h with (h | h) | h
    · omega
    · omega
    · have hdigit : 48 ≤ c.val.toNat ∧ c.val.toNat ≤ 57 := toNat_of_isDigit h
      omega
  simp only [isSpace, List.contains_eq_mem, List.mem_cons, List.not_mem_nil, or_false,
    Bool.or_eq_false_iff, decide_eq_false_iff_not, Bool.and_eq_false_imp, decide_eq_true_eq]
  omega

theorem trim_eq_self (h : ∀ c ∈ cs, isSpace c = false) : trim cs = cs := by
  have hfront : cs.dropWhile isSpace = cs :=
    List.dropWhile_eq_self_iff.mpr fun hl => by simp [h _ (List.getElem_mem hl)]
  rw [trim, hfront, List.rdropWhile_eq_self_iff]
  intro hne
  simp [h _ (List.getLast_mem hne)]

theorem hexValue_of_isDigit (h : c.isDigit = true) : hexValue c = some (c.toNat - 48) := by
  have hc := toNat_of_isDigit h
  exact if_pos ⟨hc.1, hc.2⟩

theorem readDigits_ten (hne : cs ≠ []) (h : ∀ c ∈ cs, c.isDigit = true) :
    readDigits 10 cs = some (Nat.ofDigitChars 10 cs 0) := by
  have hfold : ∀ (cs : List Char) (n : ℕ), (∀ c ∈ cs, c.isDigit = true) →
      cs.foldl (readDigit 10) (some n) = some (Nat.ofDigitChars 10 cs n) := by
    intro cs
    induction cs with
    | nil => exact fun n _ => rfl
    | cons c cs ih =>
      intro n h
      have hc := toNat_of_isDigit (h c List.mem_cons_self)
      have hdigit : readDigit 10 (some n) c = some (10 * n + (c.toNat - 48)) := by
        rw [readDigit, Option.bind_some, hexValue_of_isDigit (h c List.mem_cons_self),
          Option.bind_some, if_pos (by omega)]
      rw [List.foldl_cons, hdigit, ih _ fun c' hc' => h c' (List.mem_cons_of_mem _ hc')]
      rfl
  rw [readDigits, if_neg hne, hfold cs 0 h]

theorem readDecimal_of_isDigit (hne : cs ≠ []) (h : ∀ c ∈ cs, c.isDigit = true) :
    readDecimal cs = some (Nat.ofDigitChars 10 cs 0 : ℚ) := by
  have htake : cs.takeWhile Char.isDigit = cs := List.takeWhile_eq_self_iff.mpr h
  have hdrop : cs.dropWhile Char.isDigit = [] := List.dropWhile_eq_nil_iff.mpr h
  simp [readDecimal, htake, hdrop, readFraction, readDigits_ten hne h, readExponent]

/-- The digits of a natural number. -/
theorem isDigit_toDigits (n : ℕ) : ∀ c ∈ Nat.toDigits 10 n, c.isDigit = true := fun _ hc =>
  Nat.isDigit_of_mem_toDigits (by decide) (by decide) hc

theorem readPrefix_of_isDigit (h : ∀ c ∈ cs, c.isDigit = true) : readPrefix cs = none := by
  rw [readPrefix.eq_def]
  split
  · rename_i c cs
    have hc := toNat_of_isDigit (h c (by simp))
    have hne : ∀ d : Char, 57 < d.toNat → c ≠ d := fun d hd heq => by rw [heq] at hc; omega
    simp [hne 'x' (by decide), hne 'X' (by decide), hne 'o' (by decide), hne 'O' (by decide),
      hne 'b' (by decide), hne 'B' (by decide)]
  · rfl

theorem readSign_of_isDigit (h : ∀ c ∈ cs, c.isDigit = true) : readSign cs = (false, cs) := by
  rw [readSign.eq_def]
  split
  · rename_i cs
    have hc := toNat_of_isDigit (h '-' (by simp))
    exact absurd hc.1 (by decide)
  · rename_i cs
    have hc := toNat_of_isDigit (h '+' (by simp))
    exact absurd hc.1 (by decide)
  · rfl

/-- A signed numeral without blanks. -/
theorem numberOf_eq {negative : Bool} {m : ℕ} (hspace : ∀ c ∈ cs, isSpace c = false)
    (hdecimal : readPrefix cs = none) (hsign : readSign cs = (negative, Nat.toDigits 10 m)) :
    numberOf cs = some (nearestDouble (if negative then -(m : ℚ) else m)) := by
  have hdigits := isDigit_toDigits m
  have hne : cs ≠ [] := by
    rintro rfl
    have hnil : ([] : List Char) = Nat.toDigits 10 m := congrArg Prod.snd hsign
    exact absurd hnil.symm (by simp)
  have hinfinity : Nat.toDigits 10 m ≠ "Infinity".toList := fun heq => by
    have := hdigits 'I' (by rw [heq]; decide)
    simp at this
  have hvalue : readDecimal (Nat.toDigits 10 m) = some (m : ℚ) := by
    rw [readDecimal_of_isDigit (by simp) hdigits, Nat.ofDigitChars_ten_toDigits]
  rw [numberOf, trim_eq_self hspace, if_neg hne, hdecimal, hsign]
  simp only [if_neg hinfinity, hvalue, Option.map_some]

theorem toList_toString_ofNat (m : ℕ) :
    (toString (Int.ofNat m)).toList = Nat.toDigits 10 m := Nat.toList_repr

theorem toList_toString_negSucc (m : ℕ) :
    (toString (Int.negSucc m)).toList = '-' :: Nat.toDigits 10 (m + 1) := by
  have hrepr : toString (Int.negSucc m) = "-" ++ Nat.repr (m + 1) := rfl
  rw [hrepr, String.toList_append, Nat.toList_repr]
  rfl

theorem toList_toString_ne_nil (n : ℤ) : (toString n).toList ≠ [] := by
  cases n with
  | ofNat m =>
    rw [toList_toString_ofNat]
    simp
  | negSucc m =>
    rw [toList_toString_negSucc]
    exact List.cons_ne_nil _ _

/-- The characters of the text of an integer. -/
theorem mem_toList_toString {n : ℤ} (h : c ∈ (toString n).toList) :
    c = '-' ∨ c.isDigit = true := by
  cases n with
  | ofNat m =>
    rw [toList_toString_ofNat] at h
    exact .inr (isDigit_toDigits m c h)
  | negSucc m =>
    rw [toList_toString_negSucc, List.mem_cons] at h
    exact h.imp_right (isDigit_toDigits (m + 1) c)

/-- **The text of an integer is read back.** -/
theorem numberOf_toString {n : ℤ} (h : n.natAbs < 2 ^ 53) :
    numberOf (toString n).toList = some (JsNumber.ofRat n) := by
  have hspace : ∀ c ∈ (toString n).toList, isSpace c = false := by
    intro c hc
    rcases mem_toList_toString hc with rfl | hc
    · decide
    · exact isSpace_of_isDigit hc
  cases n with
  | ofNat m =>
    rw [toList_toString_ofNat] at hspace ⊢
    rw [numberOf_eq hspace (readPrefix_of_isDigit (isDigit_toDigits m))
      (readSign_of_isDigit (isDigit_toDigits m)), ← nearestDouble_intCast h]
    simp
  | negSucc m =>
    rw [toList_toString_negSucc] at hspace ⊢
    rw [numberOf_eq hspace rfl rfl, ← nearestDouble_intCast h]
    simp [Int.negSucc_eq]

end Integer

end SwaptoshiService
