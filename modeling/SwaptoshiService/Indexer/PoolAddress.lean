import Mathlib.Data.String.Basic
import Mathlib.Data.Sym.Sym2
import SwaptoshiService.Indexer.Env
import SwaptoshiService.Lib.Buffer

/-!
# Pool addresses

`indexer/utils/poolAddress.js` packs the key of a pool into twenty bytes: eight for each token, in
the order of their texts, and four for the fee. The order is decided on **hexadecimal text**, the
layout is in bytes, and the fee is decimal text on the outside.

`pool_address_codec` says that packing and unpacking are inverse to each other over the whole key
space, so that an address stands for one unordered pair of tokens and one fee. The `Env` of the
indexing jobs leaves both functions open; their `PoolKey` has the fee as a number
(`getPoolKey_text`).
-/

namespace SwaptoshiService

namespace PoolAddress

/-- `{ token0, token1, fee }`, the fee as decimal text. -/
structure Key where
  token0 : String
  token1 : String
  fee : String
  deriving DecidableEq, Repr

/-- An argument of `decodePoolAddress`. -/
inductive Encoded
  | buffer (bytes : List UInt8)
  | text (s : String)

/-- `Buffer.allocUnsafe(len)` with `writeUIntBE(value, 0, len)`: `NaN` is written as zero. -/
def writeNumber (len : ℕ) : Option ℤ → Except String (List UInt8)
  | none => .ok (writeUIntBE len 0)
  | some n =>
    if 0 ≤ n ∧ n < 256 ^ len then .ok (writeUIntBE len n.toNat) else .error "ERR_OUT_OF_RANGE"

/-- `buffer.readUIntBE(0, len)`. -/
def readNumber (len : ℕ) (bytes : List UInt8) : Except String ℕ :=
  if bytes.length < len then .error "ERR_BUFFER_OUT_OF_BOUNDS"
  else .ok (readUIntBE (bytes.take len))

/-- `getPoolKey(tokenA, tokenB, fee)`. -/
def getPoolKey (tokenA tokenB fee : String) : Except String Key :=
  if tokenA = tokenB then .error "same token address"
  else
    let token0 := if tokenA < tokenB then tokenA else tokenB
    let token1 := if tokenA < tokenB then tokenB else tokenA
    .ok ⟨token0, token1, fee⟩

/-- What `decodePoolAddress` reads from the bytes of an address. -/
def decodeBytes (pool : List UInt8) : Except String Key := do
  let fee ← readNumber 4 (pool.drop 16)
  return ⟨toHex (pool.take 8), toHex ((pool.drop 8).take 8), toString fee⟩

/-- `decodePoolAddress(poolAddress)`; `klayr32` is `getAddressFromKlayr32Address` of the package
`cryptography`. -/
def decodePoolAddress (klayr32 : String → Except String (List UInt8)) :
    Encoded → Except String Key
  | .buffer pool => decodeBytes pool
  | .text s => if s.length = 41 then klayr32 s >>= decodeBytes else decodeBytes (ofHex s)

/-- `'0'.repeat(16)`. -/
def zeros : String := String.ofList (List.replicate 16 '0')

/-- `computePoolAddress(key)`. -/
def computePoolAddress (key : Key) : Except String (List UInt8) := do
  if key.token0 = zeros ∧ key.token1 = zeros ∧ key.fee = "0" then throw "zero"
  if key.token0 > key.token1 then throw "invalid token0/token1"
  if key.token0 = "" then throw "invalid token0"
  let feeBuf ← writeNumber 4 (parseInt key.fee)
  return ofHex key.token0 ++ ofHex key.token1 ++ feeBuf

end PoolAddress

/-- The text of a token identifier: sixteen lower case hexadecimal digits. -/
def IsTokenID (s : String) : Prop := s.length = 16 ∧ ∀ c ∈ s.toList, IsHexDigit c

instance (s : String) : Decidable (IsTokenID s) :=
  decidable_of_iff (s.length = 16 ∧ (s.toList.all fun c => decide (IsHexDigit c)) = true)
    (and_congr_right fun _ => by simp [List.all_eq_true])

/-- Token identifiers. -/
def HexToken := { s : String // IsTokenID s }

instance : DecidableEq HexToken := inferInstanceAs (DecidableEq { s : String // IsTokenID s })

/-- Texts of sixteen characters: all that the DEX functions ask of a token. -/
def Token := { s : String // s.length = 16 }

instance : DecidableEq Token := inferInstanceAs (DecidableEq { s : String // s.length = 16 })

namespace HexToken

/-- A token identifier as a text of sixteen characters. -/
def toToken (t : HexToken) : Token := ⟨t.val, t.property.1⟩

/-- The eight bytes of a token identifier. -/
def bytes (t : HexToken) : List UInt8 := ofHex t.val

theorem toHex_bytes (t : HexToken) : toHex t.bytes = t.val := by
  have hlength : t.val.toList.length = 2 * 8 := by rw [String.length_toList, t.property.1]
  rw [bytes, toHex, ofHex, (toHexChars_ofHexChars t.property.2 hlength).1, String.ofList_toList]

@[simp] theorem length_bytes (t : HexToken) : t.bytes.length = 8 := by
  have hlength : t.val.toList.length = 2 * 8 := by rw [String.length_toList, t.property.1]
  exact (toHexChars_ofHexChars t.property.2 hlength).2

theorem bytes_injective : Function.Injective bytes := fun t t' h =>
  Subtype.ext (by rw [← toHex_bytes t, h, toHex_bytes])

theorem ne_empty (t : HexToken) : t.val ≠ "" := by
  intro h
  have hlength := t.property.1
  rw [h] at hlength
  exact absurd hlength (by decide)

end HexToken

namespace PoolAddress

variable {klayr32 : String → Except String (List UInt8)} {a b a' b' : HexToken} {fee fee' : ℕ}

/-- The fee of the model's `PoolKey` is the number that the text stands for. -/
theorem getPoolKey_text (tokenA tokenB : String) (fee : ℕ) :
    (getPoolKey tokenA tokenB (toString fee)).toOption =
      (SwaptoshiService.getPoolKey tokenA tokenB fee).map fun key =>
        ⟨key.token0, key.token1, toString key.fee⟩ := by
  rw [getPoolKey, SwaptoshiService.getPoolKey]
  split
  · rfl
  · split <;> rfl

/-! ### The layout -/

/-- The bytes of an address. -/
def layout (token0 token1 : HexToken) (fee : ℕ) : List UInt8 :=
  token0.bytes ++ token1.bytes ++ writeUIntBE 4 fee

theorem length_layout : (layout a b fee).length = 20 := by
  simp [layout]

/-- What is read from eight, eight and four bytes. -/
theorem decode_append {x y f : List UInt8} (hx : x.length = 8) (hy : y.length = 8)
    (hf : f.length = 4) :
    decodePoolAddress klayr32 (.buffer (x ++ y ++ f)) =
      .ok ⟨toHex x, toHex y, toString (readUIntBE f)⟩ := by
  have hfee : (x ++ y ++ f).drop 16 = f := List.drop_left' (by simp [hx, hy])
  have htoken0 : (x ++ y ++ f).take 8 = x := by
    rw [List.append_assoc]
    exact List.take_left' hx
  have htoken1 : ((x ++ y ++ f).drop 8).take 8 = y := by
    rw [List.append_assoc, List.drop_left' hx]
    exact List.take_left' hy
  have hread : readNumber 4 f = .ok (readUIntBE f) := by
    rw [readNumber, if_neg (by omega), List.take_of_length_le hf.le]
  rw [decodePoolAddress, decodeBytes, hfee, htoken0, htoken1, hread]
  rfl

theorem decode_layout (hfee : fee < 2 ^ 32) :
    decodePoolAddress klayr32 (.buffer (layout a b fee)) = .ok ⟨a.val, b.val, toString fee⟩ := by
  rw [layout, decode_append (by simp) (by simp) (by simp), a.toHex_bytes, b.toHex_bytes,
    readUIntBE_writeUIntBE (by omega)]

/-- Hexadecimal text of twenty bytes is not taken for a `klayr32` address. -/
theorem decode_toHex {x : List UInt8} (hx : x.length = 20) :
    decodePoolAddress klayr32 (.text (toHex x)) = decodePoolAddress klayr32 (.buffer x) := by
  have hne : (toHex x).length ≠ 41 := by
    rw [length_toHex, hx]
    decide
  simp only [decodePoolAddress, if_neg hne, ofHex_toHex]

theorem compute_layout (hlt : a.val < b.val) (hfee : fee < 2 ^ 32) :
    computePoolAddress ⟨a.val, b.val, toString fee⟩ = .ok (layout a b fee) := by
  have hzero : ¬ (a.val = zeros ∧ b.val = zeros ∧ toString fee = "0") := by
    rintro ⟨ha, hb, -⟩
    rw [ha, hb] at hlt
    exact lt_irrefl _ hlt
  have hwrite : writeNumber 4 (parseInt (toString fee)) = .ok (writeUIntBE 4 fee) := by
    rw [parseInt_toString, writeNumber, if_pos (by omega), Int.toNat_natCast]
  rw [computePoolAddress]
  simp only [hzero, if_false, not_lt_of_gt hlt, a.ne_empty, hwrite]
  rfl

/-- The tokens in the order of their texts. -/
theorem getPoolKey_eq (hne : a ≠ b) :
    ∃ token0 token1 : HexToken, token0.val < token1.val ∧ s(token0, token1) = s(a, b) ∧
      ∀ fee, getPoolKey a.val b.val fee = .ok ⟨token0.val, token1.val, fee⟩ ∧
        getPoolKey b.val a.val fee = .ok ⟨token0.val, token1.val, fee⟩ := by
  have hval : a.val ≠ b.val := fun h => hne (Subtype.ext h)
  rcases lt_or_gt_of_ne hval with hlt | hlt
  · refine ⟨a, b, hlt, rfl, fun fee => ⟨?_, ?_⟩⟩
    · rw [getPoolKey, if_neg hval, if_pos hlt, if_pos hlt]
    · rw [getPoolKey, if_neg hval.symm, if_neg (not_lt_of_gt hlt), if_neg (not_lt_of_gt hlt)]
  · refine ⟨b, a, hlt, Sym2.eq_swap, fun fee => ⟨?_, ?_⟩⟩
    · rw [getPoolKey, if_neg hval, if_neg (not_lt_of_gt hlt), if_neg (not_lt_of_gt hlt)]
    · rw [getPoolKey, if_neg hval.symm, if_pos hlt, if_pos hlt]

theorem layout_injective (hfee : fee < 2 ^ 32) (hfee' : fee' < 2 ^ 32)
    (h : layout a b fee = layout a' b' fee') : a = a' ∧ b = b' ∧ fee = fee' := by
  obtain ⟨htokens, hfees⟩ := List.append_inj h (by simp)
  obtain ⟨ha, hb⟩ := List.append_inj htokens (by simp)
  refine ⟨HexToken.bytes_injective ha, HexToken.bytes_injective hb, ?_⟩
  calc fee = readUIntBE (writeUIntBE 4 fee) := (readUIntBE_writeUIntBE (by omega)).symm
    _ = readUIntBE (writeUIntBE 4 fee') := by rw [hfees]
    _ = fee' := readUIntBE_writeUIntBE (by omega)

/-! ### The two round trips -/

/-- A key is packed, and unpacked from the bytes and from their text. -/
theorem key_round_trip (klayr32 : String → Except String (List UInt8)) (hne : a ≠ b)
    (hfee : fee < 2 ^ 32) :
    ∃ key address, getPoolKey a.val b.val (toString fee) = .ok key ∧
      getPoolKey b.val a.val (toString fee) = .ok key ∧ computePoolAddress key = .ok address ∧
      address.length = 20 ∧ decodePoolAddress klayr32 (.buffer address) = .ok key ∧
      decodePoolAddress klayr32 (.text (toHex address)) = .ok key := by
  obtain ⟨token0, token1, hlt, -, hkey⟩ := getPoolKey_eq hne
  refine ⟨_, _, (hkey _).1, (hkey _).2, compute_layout hlt hfee, length_layout,
    decode_layout hfee, ?_⟩
  rw [decode_toHex length_layout, decode_layout hfee]

/-- An address stands for one pair and one fee. -/
theorem address_injective (hne : a ≠ b) (hne' : a' ≠ b') (hfee : fee < 2 ^ 32)
    (hfee' : fee' < 2 ^ 32)
    (h : (getPoolKey a.val b.val (toString fee) >>= computePoolAddress) =
      (getPoolKey a'.val b'.val (toString fee') >>= computePoolAddress)) :
    s(a, b) = s(a', b') ∧ fee = fee' := by
  obtain ⟨token0, token1, hlt, hpair, hkey⟩ := getPoolKey_eq hne
  obtain ⟨token0', token1', hlt', hpair', hkey'⟩ := getPoolKey_eq hne'
  rw [(hkey _).1, (hkey' _).1] at h
  have hlayout : layout token0 token1 fee = layout token0' token1' fee' := by
    have h' := (compute_layout hlt hfee).symm.trans (h.trans (compute_layout hlt' hfee'))
    exact Except.ok.inj h'
  obtain ⟨rfl, rfl, rfl⟩ := layout_injective hfee hfee' hlayout
  exact ⟨hpair.symm.trans hpair', rfl⟩

/-- An address with ordered tokens is unpacked and packed again. -/
theorem address_round_trip (klayr32 : String → Except String (List UInt8)) {x : List UInt8}
    (hx : x.length = 20) (hlt : x.take 8 < (x.drop 8).take 8) :
    ∃ key, decodePoolAddress klayr32 (.buffer x) = .ok key ∧ computePoolAddress key = .ok x := by
  have hparts : x = x.take 8 ++ (x.drop 8).take 8 ++ x.drop 16 := by
    have hdrop : x.drop 16 = (x.drop 8).drop 8 := by rw [List.drop_drop]
    rw [hdrop, List.append_assoc, List.take_append_drop, List.take_append_drop]
  generalize htoken0 : x.take 8 = p at hparts hlt
  generalize htoken1 : (x.drop 8).take 8 = q at hparts hlt
  generalize hlast : x.drop 16 = f at hparts
  have hp : p.length = 8 := by rw [← htoken0, List.length_take, hx]; rfl
  have hq : q.length = 8 := by rw [← htoken1, List.length_take, List.length_drop, hx]; rfl
  have hf : f.length = 4 := by rw [← hlast, List.length_drop, hx]
  have htoken : ∀ {bs : List UInt8}, bs.length = 8 → IsTokenID (toHex bs) := by
    intro bs hbs
    refine ⟨by rw [length_toHex, hbs], fun c hc => ?_⟩
    rw [toList_toHex] at hc
    exact isHexDigit_of_mem_toHexChars hc
  have hlayout : layout ⟨toHex p, htoken hp⟩ ⟨toHex q, htoken hq⟩ (readUIntBE f) = x := by
    have hwrite : writeUIntBE 4 (readUIntBE f) = f := by
      rw [← hf]
      exact writeUIntBE_readUIntBE f
    have hbytes : layout ⟨toHex p, htoken hp⟩ ⟨toHex q, htoken hq⟩ (readUIntBE f) =
        ofHex (toHex p) ++ ofHex (toHex q) ++ writeUIntBE 4 (readUIntBE f) := rfl
    rw [hbytes, ofHex_toHex, ofHex_toHex, hwrite]
    exact hparts.symm
  have hfee : readUIntBE f < 2 ^ 32 := by
    have := readUIntBE_lt f
    rw [hf] at this
    omega
  have hcompute := compute_layout (a := ⟨toHex p, htoken hp⟩) (b := ⟨toHex q, htoken hq⟩)
    (toHex_lt (hp.trans hq.symm) hlt) hfee
  refine ⟨⟨toHex p, toHex q, toString (readUIntBE f)⟩, ?_, hcompute.trans (congrArg _ hlayout)⟩
  rw [hparts]
  exact decode_append hp hq hf

/-- **Packing and unpacking pool addresses.** -/
theorem pool_address_codec (klayr32 : String → Except String (List UInt8)) :
    (∀ (a b : HexToken) (fee : ℕ), a ≠ b → fee < 2 ^ 32 →
      ∃ key address, getPoolKey a.val b.val (toString fee) = .ok key ∧
        getPoolKey b.val a.val (toString fee) = .ok key ∧ computePoolAddress key = .ok address ∧
        address.length = 20 ∧ decodePoolAddress klayr32 (.buffer address) = .ok key ∧
        decodePoolAddress klayr32 (.text (toHex address)) = .ok key) ∧
    (∀ (a b a' b' : HexToken) (fee fee' : ℕ), a ≠ b → a' ≠ b' → fee < 2 ^ 32 → fee' < 2 ^ 32 →
      (getPoolKey a.val b.val (toString fee) >>= computePoolAddress) =
        (getPoolKey a'.val b'.val (toString fee') >>= computePoolAddress) →
      s(a, b) = s(a', b') ∧ fee = fee') ∧
    ∀ x : List UInt8, x.length = 20 → x.take 8 < (x.drop 8).take 8 →
      ∃ key, decodePoolAddress klayr32 (.buffer x) = .ok key ∧ computePoolAddress key = .ok x :=
  ⟨fun _ _ _ hne hfee => key_round_trip klayr32 hne hfee,
    fun _ _ _ _ _ _ hne hne' hfee hfee' => address_injective hne hne' hfee hfee',
    fun _ hx hlt => address_round_trip klayr32 hx hlt⟩

/-- The tokens of the pool between KLY and SWX on the test network. -/
def klyToken : HexToken := ⟨"0100000000000000", by decide⟩

@[inherit_doc klyToken]
def swxToken : HexToken := ⟨"0155555500000000", by decide⟩

theorem pool_address_codec_kly_swx :
    klyToken ≠ swxToken ∧
      ∃ key address, getPoolKey klyToken.val swxToken.val "3000" = .ok key ∧
        getPoolKey swxToken.val klyToken.val "3000" = .ok key ∧
        computePoolAddress key = .ok address ∧ address.length = 20 ∧
        decodePoolAddress (fun _ => .error "invalid address") (.buffer address) = .ok key ∧
        decodePoolAddress (fun _ => .error "invalid address") (.text (toHex address)) = .ok key :=
  ⟨by decide, (pool_address_codec fun _ => .error "invalid address").1 klyToken swxToken 3000
    (by decide) (by decide)⟩

end PoolAddress

end SwaptoshiService
