import Mathlib.Data.List.Induction
import Mathlib.Data.List.TakeWhile
import Mathlib.Data.Char
import Mathlib.Tactic.Common
import Mathlib.Tactic.IntervalCases

/-!
# Bytes, hexadecimal text and integers

A buffer is a list of bytes. It is written as hexadecimal text, two lower case digits for a byte
(`toHex`), and read back from such text (`ofHex`), which stops at the first pair that is not
hexadecimal. Both ways the round trip is exact, and the text of two buffers of one length compares
like the buffers (`toHex_lt`).

Integers are written in a fixed number of bytes, the most significant byte first
(`writeUIntBE`, `readUIntBE`), which show its hexadecimal digits (`toHexChars_writeUIntBE`), and
their decimal text is read by `parseInt`. Texts that are joined by a separator are told apart by
`append_separator_inj`.
-/

namespace SwaptoshiService

/-! ### Hexadecimal text -/

/-- The value of a hexadecimal digit, of either case. -/
def hexValue (c : Char) : Option ℕ :=
  if '0' ≤ c ∧ c ≤ '9' then some (c.toNat - 48)
  else if 'a' ≤ c ∧ c ≤ 'f' then some (c.toNat - 87)
  else if 'A' ≤ c ∧ c ≤ 'F' then some (c.toNat - 55)
  else none

/-- A lower case hexadecimal digit. -/
def IsHexDigit (c : Char) : Prop := c ∈ "0123456789abcdef".toList

instance (c : Char) : Decidable (IsHexDigit c) := inferInstanceAs (Decidable (c ∈ _))

/-- The two digits of a byte. -/
def hexPair (b : UInt8) : List Char := [Nat.digitChar (b.toNat / 16), Nat.digitChar (b.toNat % 16)]

/-- `buffer.toString('hex')`, as characters. -/
def toHexChars (bs : List UInt8) : List Char := bs.flatMap hexPair

/-- `buffer.toString('hex')`. -/
def toHex (bs : List UInt8) : String := String.ofList (toHexChars bs)

/-- `Buffer.from(chars, 'hex')`. -/
def ofHexChars : List Char → List UInt8
  | high :: low :: rest =>
    match hexValue high, hexValue low with
    | some x, some y => UInt8.ofNat (16 * x + y) :: ofHexChars rest
    | _, _ => []
  | _ => []

/-- `Buffer.from(text, 'hex')`. -/
def ofHex (s : String) : List UInt8 := ofHexChars s.toList

theorem hexValue_digitChar {d : ℕ} (h : d < 16) : hexValue (Nat.digitChar d) = some d := by
  interval_cases d <;> decide

theorem isHexDigit_digitChar {d : ℕ} (h : d < 16) : IsHexDigit (Nat.digitChar d) := by
  interval_cases d <;> decide

theorem IsHexDigit.exists_digitChar {c : Char} (h : IsHexDigit c) :
    ∃ d < 16, c = Nat.digitChar d := by
  have hdigits : "0123456789abcdef".toList = (List.range 16).map Nat.digitChar := by decide
  rw [IsHexDigit, hdigits, List.mem_map] at h
  obtain ⟨d, hd, rfl⟩ := h
  exact ⟨d, List.mem_range.mp hd, rfl⟩

/-- Digit by digit. -/
theorem isHexDigit_of_all {s : String}
    (h : (s.toList.all fun c => decide (IsHexDigit c)) = true) : ∀ c ∈ s.toList, IsHexDigit c :=
  fun c hc => of_decide_eq_true (List.all_eq_true.mp h c hc)

theorem digitChar_lt {d d' : ℕ} (h : d < d') (h' : d' < 16) :
    Nat.digitChar d < Nat.digitChar d' := by
  have hall : ∀ d' < 16, ∀ d < d', Nat.digitChar d < Nat.digitChar d' := by decide
  exact hall d' h' d h

@[simp] theorem toHexChars_nil : toHexChars [] = [] := rfl

@[simp] theorem toHexChars_cons (b : UInt8) (bs : List UInt8) :
    toHexChars (b :: bs) =
      Nat.digitChar (b.toNat / 16) :: Nat.digitChar (b.toNat % 16) :: toHexChars bs := rfl

@[simp] theorem toHexChars_append (bs bs' : List UInt8) :
    toHexChars (bs ++ bs') = toHexChars bs ++ toHexChars bs' := List.flatMap_append

@[simp] theorem length_toHexChars (bs : List UInt8) : (toHexChars bs).length = 2 * bs.length := by
  induction bs with
  | nil => rfl
  | cons b bs ih =>
    rw [toHexChars_cons, List.length_cons, List.length_cons, ih, List.length_cons]
    omega

@[simp] theorem toList_toHex (bs : List UInt8) : (toHex bs).toList = toHexChars bs :=
  String.toList_ofList

@[simp] theorem length_toHex (bs : List UInt8) : (toHex bs).length = 2 * bs.length := by
  rw [← String.length_toList, toList_toHex, length_toHexChars]

theorem isHexDigit_of_mem_toHexChars {bs : List UInt8} {c : Char} (h : c ∈ toHexChars bs) :
    IsHexDigit c := by
  obtain ⟨b, -, hc⟩ := List.mem_flatMap.mp h
  have hb := b.toNat_lt
  simp only [hexPair, List.mem_cons, List.not_mem_nil, or_false] at hc
  rcases hc with rfl | rfl
  · exact isHexDigit_digitChar (by omega)
  · exact isHexDigit_digitChar (by omega)

/-- What is written is read back. -/
theorem ofHexChars_toHexChars (bs : List UInt8) : ofHexChars (toHexChars bs) = bs := by
  induction bs with
  | nil => rfl
  | cons b bs ih =>
    have hb := b.toNat_lt
    rw [toHexChars_cons, ofHexChars, hexValue_digitChar (by omega), hexValue_digitChar (by omega)]
    simp only [ih]
    rw [Nat.div_add_mod, UInt8.ofNat_toNat]

theorem ofHex_toHex (bs : List UInt8) : ofHex (toHex bs) = bs := by
  rw [ofHex, toList_toHex, ofHexChars_toHexChars]

/-- Text of an even number of digits is read completely. -/
theorem toHexChars_ofHexChars {cs : List Char} {n : ℕ} (hdigits : ∀ c ∈ cs, IsHexDigit c)
    (hlength : cs.length = 2 * n) :
    toHexChars (ofHexChars cs) = cs ∧ (ofHexChars cs).length = n := by
  induction n generalizing cs with
  | zero =>
    obtain rfl : cs = [] := List.length_eq_zero_iff.mp hlength
    exact ⟨rfl, rfl⟩
  | succ n ih =>
    obtain ⟨high, low, rest, rfl⟩ : ∃ high low rest, cs = high :: low :: rest := by
      match cs, hlength with
      | high :: low :: rest, _ => exact ⟨high, low, rest, rfl⟩
    obtain ⟨x, hx, rfl⟩ := (hdigits high (by simp)).exists_digitChar
    obtain ⟨y, hy, rfl⟩ := (hdigits low (by simp)).exists_digitChar
    have hlength' : rest.length = 2 * n := by
      simp only [List.length_cons] at hlength
      omega
    have hrest := ih (fun c hc => hdigits c (by simp [hc])) hlength'
    have hbyte : (UInt8.ofNat (16 * x + y)).toNat = 16 * x + y := by
      rw [UInt8.toNat_ofNat']
      omega
    have hread : ofHexChars (Nat.digitChar x :: Nat.digitChar y :: rest) =
        UInt8.ofNat (16 * x + y) :: ofHexChars rest := by
      rw [ofHexChars, hexValue_digitChar hx, hexValue_digitChar hy]
    have hhigh : (16 * x + y) / 16 = x := by omega
    have hlow : (16 * x + y) % 16 = y := by omega
    rw [hread, toHexChars_cons, hbyte, hhigh, hlow, hrest.1, List.length_cons, hrest.2]
    exact ⟨rfl, rfl⟩

/-- The text of buffers compares like the buffers. -/
theorem toHexChars_lt {bs bs' : List UInt8} (hlength : bs.length = bs'.length) (h : bs < bs') :
    toHexChars bs < toHexChars bs' := by
  induction bs generalizing bs' with
  | nil =>
    obtain rfl : bs' = [] := List.length_eq_zero_iff.mp hlength.symm
    simp at h
  | cons b bs ih =>
    obtain ⟨b', bs', rfl⟩ : ∃ b' bs'', bs' = b' :: bs'' := by
      match bs', hlength with
      | b' :: bs'', _ => exact ⟨b', bs'', rfl⟩
    have hb' := b'.toNat_lt
    rw [toHexChars_cons, toHexChars_cons, List.cons_lt_cons_iff, List.cons_lt_cons_iff]
    rcases List.cons_lt_cons_iff.mp h with hlt | ⟨rfl, hlt⟩
    · have hlt' : b.toNat < b'.toNat := hlt
      by_cases hhigh : b.toNat / 16 = b'.toNat / 16
      · refine .inr ⟨by rw [hhigh], .inl (digitChar_lt ?_ ?_)⟩
        · omega
        · omega
      · exact .inl (digitChar_lt (by omega) (by omega))
    · exact .inr ⟨rfl, .inr ⟨rfl, ih (Nat.succ.inj hlength) hlt⟩⟩

theorem toHex_lt {bs bs' : List UInt8} (hlength : bs.length = bs'.length) (h : bs < bs') :
    toHex bs < toHex bs' := by
  rw [String.lt_iff, toList_toHex, toList_toHex]
  exact toHexChars_lt hlength h

/-! ### Integers -/

/-- `buffer.writeUIntBE(n, 0, len)` of a number that fits. -/
def writeUIntBE : ℕ → ℕ → List UInt8
  | 0, _ => []
  | len + 1, n => writeUIntBE len (n / 256) ++ [UInt8.ofNat n]

/-- `buffer.readUIntBE(0, len)` of a buffer of `len` bytes. -/
def readUIntBE (bs : List UInt8) : ℕ := bs.foldl (fun n b => 256 * n + b.toNat) 0

@[simp] theorem length_writeUIntBE (len n : ℕ) : (writeUIntBE len n).length = len := by
  induction len generalizing n with
  | zero => rfl
  | succ len ih => rw [writeUIntBE, List.length_append, ih, List.length_singleton]

/-- The digits of a number, filled up with zeros. -/
def paddedDigits (m n : ℕ) : List Char :=
  List.replicate (m - (Nat.toDigits 16 n).length) '0' ++ Nat.toDigits 16 n

theorem paddedDigits_succ {m : ℕ} (hm : 1 ≤ m) (n : ℕ) :
    paddedDigits (m + 1) n = paddedDigits m (n / 16) ++ [Nat.digitChar (n % 16)] := by
  rw [paddedDigits, paddedDigits, List.append_assoc]
  by_cases hn : n < 16
  · have hzero : n / 16 = 0 := by omega
    rw [hzero, Nat.toDigits_zero, Nat.toDigits_of_lt_base hn, Nat.mod_eq_of_lt hn]
    obtain ⟨m, rfl⟩ := Nat.exists_eq_add_of_le' hm
    simp [List.replicate_succ']
  · rw [Nat.toDigits_of_base_le (by decide) (by omega), List.length_append, List.length_singleton,
      Nat.add_sub_add_right]

/-- The bytes of a number show its digits. -/
theorem toHexChars_writeUIntBE {len : ℕ} (hlen : 1 ≤ len) {n : ℕ} (h : n < 256 ^ len) :
    toHexChars (writeUIntBE len n) = paddedDigits (2 * len) n := by
  induction len, hlen using Nat.le_induction generalizing n with
  | base =>
    have hbyte : (UInt8.ofNat n).toNat = n := by
      rw [UInt8.toNat_ofNat']
      omega
    rw [paddedDigits_succ le_rfl, paddedDigits, Nat.toDigits_of_lt_base (by omega), writeUIntBE,
      writeUIntBE, List.nil_append, toHexChars_cons, hbyte]
    rfl
  | succ len hlen ih =>
    have hbyte : (UInt8.ofNat n).toNat = n % 256 := UInt8.toNat_ofNat'
    have hlt : n / 256 < 256 ^ len := by
      rw [pow_succ] at h
      exact Nat.div_lt_of_lt_mul (by rwa [mul_comm])
    have hdigit : n % 256 / 16 = n / 16 % 16 := by omega
    have hdigit' : n % 256 % 16 = n % 16 := by omega
    have hrest : n / 16 / 16 = n / 256 := by omega
    have hlength : 2 * (len + 1) = 2 * len + 1 + 1 := by omega
    rw [hlength, paddedDigits_succ (by omega), paddedDigits_succ (by omega), hrest, ← ih hlt,
      writeUIntBE, toHexChars_append, toHexChars_cons, hbyte, hdigit, hdigit', toHexChars_nil,
      List.append_assoc]
    rfl

theorem readUIntBE_append_singleton (bs : List UInt8) (b : UInt8) :
    readUIntBE (bs ++ [b]) = 256 * readUIntBE bs + b.toNat := by
  rw [readUIntBE, List.foldl_append]
  rfl

/-- A number that fits is read back. -/
theorem readUIntBE_writeUIntBE {len n : ℕ} (h : n < 256 ^ len) :
    readUIntBE (writeUIntBE len n) = n := by
  induction len generalizing n with
  | zero =>
    have : n = 0 := by omega
    rw [this]
    rfl
  | succ len ih =>
    rw [pow_succ] at h
    rw [writeUIntBE, readUIntBE_append_singleton, ih (Nat.div_lt_of_lt_mul (by omega)),
      UInt8.toNat_ofNat']
    omega

/-- Bytes that are read are written back. -/
theorem writeUIntBE_readUIntBE (bs : List UInt8) : writeUIntBE bs.length (readUIntBE bs) = bs := by
  induction bs using List.reverseRecOn with
  | nil => rfl
  | append_singleton bs b ih =>
    have hb := b.toNat_lt
    have hdiv : (256 * readUIntBE bs + b.toNat) / 256 = readUIntBE bs := by omega
    have hmod : UInt8.ofNat (256 * readUIntBE bs + b.toNat) = b := by
      refine UInt8.toNat_inj.mp ?_
      rw [UInt8.toNat_ofNat']
      omega
    rw [readUIntBE_append_singleton, List.length_append, List.length_singleton, writeUIntBE, hdiv,
      hmod, ih]

theorem readUIntBE_lt (bs : List UInt8) : readUIntBE bs < 256 ^ bs.length := by
  induction bs using List.reverseRecOn with
  | nil => decide
  | append_singleton bs b ih =>
    have hb := b.toNat_lt
    rw [readUIntBE_append_singleton, List.length_append, List.length_singleton, pow_succ]
    omega

/-! ### Decimal text -/

/-- `parseInt(text, 10)` of text without leading blanks; `none` is `NaN`. -/
def parseInt (s : String) : Option ℤ :=
  let digits (cs : List Char) : Option ℕ :=
    if (cs.takeWhile Char.isDigit).isEmpty then none
    else some (Nat.ofDigitChars 10 (cs.takeWhile Char.isDigit) 0)
  match s.toList with
  | '-' :: cs => (digits cs).map fun n => -(n : ℤ)
  | '+' :: cs => (digits cs).map Int.ofNat
  | cs => (digits cs).map Int.ofNat

/-- The decimal text of a number is read back. -/
theorem parseInt_toString (n : ℕ) : parseInt (toString n) = some (n : ℤ) := by
  have htext : (toString n).toList = Nat.toDigits 10 n := Nat.toList_repr
  have hdigit : ∀ c ∈ Nat.toDigits 10 n, c.isDigit = true := fun c hc =>
    Nat.isDigit_of_mem_toDigits (by decide) (by decide) hc
  have htake : (Nat.toDigits 10 n).takeWhile Char.isDigit = Nat.toDigits 10 n :=
    List.takeWhile_eq_self_iff.mpr hdigit
  rw [parseInt]
  simp only [htext]
  split
  · rename_i cs heq
    have := hdigit '-' (by simp [heq])
    simp at this
  · rename_i cs heq
    have := hdigit '+' (by simp [heq])
    simp at this
  · rw [htake, if_neg (by simp), Nat.ofDigitChars_ten_toDigits]
    rfl

theorem toString_nat_injective : Function.Injective (toString : ℕ → String) := fun n n' h => by
  have hint := congrArg parseInt h
  rw [parseInt_toString, parseInt_toString] at hint
  exact_mod_cast Option.some.inj hint

/-! ### The order of decimal texts -/

theorem toNat_of_isDigit {c : Char} (h : c.isDigit = true) :
    48 ≤ c.toNat ∧ c.toNat ≤ 57 := by
  simp only [Char.isDigit, Bool.and_eq_true, decide_eq_true_eq] at h
  exact ⟨h.1, h.2⟩

private theorem ofDigitChars_lt_pow {l : List Char} (h : ∀ c ∈ l, c.isDigit = true) :
    Nat.ofDigitChars 10 l 0 < 10 ^ l.length := by
  induction l with
  | nil => decide
  | cons c l ih =>
    have hrest := ih fun c' hc' => h c' (List.mem_cons_of_mem _ hc')
    have hdigit : c.toNat - '0'.toNat ≤ 9 := by
      have := (toNat_of_isDigit (h c List.mem_cons_self)).2
      have hzero : '0'.toNat = 48 := rfl
      omega
    have hle := Nat.mul_le_mul_left (10 ^ l.length) hdigit
    rw [Nat.ofDigitChars_cons, Nat.ofDigitChars_eq_ofDigitChars_zero, Nat.mul_zero, Nat.zero_add,
      List.length_cons, pow_succ]
    omega

/-- Texts of one length compare like the numbers. -/
private theorem lt_of_ofDigitChars_lt {l l' : List Char} (h : ∀ c ∈ l, c.isDigit = true)
    (h' : ∀ c ∈ l', c.isDigit = true) (hlength : l.length = l'.length)
    (hlt : Nat.ofDigitChars 10 l 0 < Nat.ofDigitChars 10 l' 0) : l < l' := by
  induction l generalizing l' with
  | nil =>
    obtain rfl : l' = [] := List.length_eq_zero_iff.mp hlength.symm
    exact absurd hlt (lt_irrefl _)
  | cons c l ih =>
    obtain ⟨c', l', rfl⟩ : ∃ c' l'', l' = c' :: l'' := by
      match l', hlength with
      | c' :: l'', _ => exact ⟨c', l'', rfl⟩
    have hl : ∀ x ∈ l, x.isDigit = true := fun x hx => h x (List.mem_cons_of_mem _ hx)
    have hl' : ∀ x ∈ l', x.isDigit = true := fun x hx => h' x (List.mem_cons_of_mem _ hx)
    have hlength' : l.length = l'.length := Nat.succ.inj hlength
    have hc := toNat_of_isDigit (h c List.mem_cons_self)
    have hc' := toNat_of_isDigit (h' c' List.mem_cons_self)
    have hbound := ofDigitChars_lt_pow hl
    have hbound' := ofDigitChars_lt_pow hl'
    have hzero : '0'.toNat = 48 := rfl
    rw [Nat.ofDigitChars_cons, Nat.ofDigitChars_cons, Nat.ofDigitChars_eq_ofDigitChars_zero,
      Nat.ofDigitChars_eq_ofDigitChars_zero (l := l'), hlength', hzero] at hlt
    rw [hlength'] at hbound
    rw [List.cons_lt_cons_iff]
    rcases lt_trichotomy c.toNat c'.toNat with hcc | hcc | hcc
    · exact .inl hcc
    · refine .inr ⟨Char.toNat_inj.mp hcc, ih hl hl' hlength' ?_⟩
      rw [hcc] at hlt
      omega
    · -- a greater first digit makes a greater number
      have hle : 10 ^ l'.length * (c'.toNat - 48 + 1) ≤ 10 ^ l'.length * (c.toNat - 48) :=
        Nat.mul_le_mul_left _ (by omega)
      rw [Nat.mul_add, Nat.mul_one] at hle
      simp only [Nat.mul_zero, Nat.zero_add] at hlt
      omega

theorem toString_lt_of_length_eq {n n' : ℕ} (hlength : (toString n).length = (toString n').length)
    (hlt : n < n') : toString n < toString n' := by
  have htext : ∀ m : ℕ, (toString m).toList = Nat.toDigits 10 m := fun m => Nat.toList_repr
  have hdigit : ∀ m, ∀ c ∈ Nat.toDigits 10 m, c.isDigit = true := fun m c hc =>
    Nat.isDigit_of_mem_toDigits (by decide) (by decide) hc
  rw [← String.length_toList, ← String.length_toList, htext, htext] at hlength
  rw [String.lt_iff, htext, htext]
  refine lt_of_ofDigitChars_lt (hdigit n) (hdigit n') hlength ?_
  rwa [Nat.ofDigitChars_ten_toDigits, Nat.ofDigitChars_ten_toDigits]

/-- A smaller number has no more digits. -/
theorem length_toString_le {n n' : ℕ} (h : n ≤ n') :
    (toString n).length ≤ (toString n').length := by
  have hpos : 0 < (toString n').length := Nat.length_repr_pos
  have hbound : n' < 10 ^ (toString n').length := (Nat.length_repr_le_iff hpos).mp le_rfl
  exact (Nat.length_repr_le_iff hpos).mpr (lt_of_le_of_lt h hbound)

/-! ### Separators -/

/-- A text is cut at the first separator. -/
theorem append_separator_inj {α : Type} {a : α} {l l' r r' : List α} (hl : a ∉ l) (hl' : a ∉ l')
    (h : l ++ a :: r = l' ++ a :: r') : l = l' ∧ r = r' := by
  induction l generalizing l' with
  | nil =>
    cases l' with
    | nil => exact ⟨rfl, (List.cons.inj h).2⟩
    | cons b l' => exact absurd List.mem_cons_self ((List.cons.inj h).1 ▸ hl')
  | cons b l ih =>
    cases l' with
    | nil => exact absurd List.mem_cons_self ((List.cons.inj h).1 ▸ hl)
    | cons b' l' =>
      obtain ⟨hb, h⟩ := List.cons.inj h
      obtain ⟨heq, hr⟩ := ih (fun hmem => hl (List.mem_cons_of_mem _ hmem))
        (fun hmem => hl' (List.mem_cons_of_mem _ hmem)) h
      exact ⟨by rw [hb, heq], hr⟩

/-- A list with a separator has two parts at least. -/
theorem exists_splitOn_of_mem {α : Type} [BEq α] [LawfulBEq α] {a : α} {l : List α} (h : a ∈ l) :
    ∃ r r' rs, l.splitOn a = r :: r' :: rs := by
  obtain ⟨r, t, rfl, hr⟩ := List.eq_append_cons_of_mem h
  obtain ⟨r', rs, ht⟩ := List.exists_cons_of_ne_nil (List.splitOn_ne_nil a t)
  exact ⟨r, r', rs, by rw [List.splitOn_append_cons_self_of_not_mem hr, ht]⟩

/-- Two parts are those around the only separator. -/
theorem splitOn_eq_pair_iff {α : Type} [BEq α] [LawfulBEq α] {a : α} {l r r' : List α} :
    l.splitOn a = [r, r'] ↔ l = r ++ a :: r' ∧ a ∉ r ∧ a ∉ r' := by
  constructor
  · intro h
    have hmem : a ∈ l := by
      by_contra hnot
      rw [List.splitOn_eq_singleton hnot] at h
      simp at h
    obtain ⟨s, t, rfl, hs⟩ := List.eq_append_cons_of_mem hmem
    rw [List.splitOn_append_cons_self_of_not_mem hs] at h
    obtain ⟨rfl, ht⟩ := List.cons.inj h
    have hnot : a ∉ t := fun hmem => by
      obtain ⟨u, u', us, hu⟩ := exists_splitOn_of_mem hmem
      rw [hu] at ht
      simp at ht
    rw [List.splitOn_eq_singleton hnot] at ht
    obtain rfl := (List.cons.inj ht).1
    exact ⟨rfl, hs, hnot⟩
  · rintro ⟨rfl, hr, hr'⟩
    rw [List.splitOn_append_cons_self_of_not_mem hr, List.splitOn_eq_singleton hr']

end SwaptoshiService
