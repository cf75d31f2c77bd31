import Mathlib.Algebra.Order.Field.Rat
import Mathlib.Tactic.Ring
import SwaptoshiService.Indexer.PoolAddress
import SwaptoshiService.Processor.Dex

/-!
# Trading paths

A trading path (`indexer/utils/tradingPath.js`) is a hexadecimal text: a token, then for every hop
six digits of the fee and the next token. `decodeFirstPool` reads the first hop, `skipToken` drops
it, and `hasMultiplePools` says whether another one follows.

The offsets are right: going through a path visits the tokens of its route in order and stops
after the last hop (`pools_path`). The fee is not: `decodeFirstPool` makes a buffer of the six
digits **without saying that they are hexadecimal** and reads the codes of the first three
characters as a number. Only the fee `0x333333` is read as it was written
(`misreadFee_eq_iff`), so that is the only fee with which a route is recovered
(`trading_path_codec_iff`).
-/

namespace SwaptoshiService

namespace TradingPath

open PoolAddress (readNumber)

/-- `ADDR_SIZE`. -/
def addrSize : ℕ := 8

/-- `FEE_SIZE`. -/
def feeSize : ℕ := 3

/-- `NEXT_OFFSET`. -/
def nextOffset : ℕ := addrSize + feeSize

/-- `POP_OFFSET`. -/
def popOffset : ℕ := nextOffset + addrSize

/-- `MULTIPLE_POOLS_MIN_LENGTH`. -/
def multiplePoolsMinLength : ℕ := popOffset + nextOffset

/-- `text.substring(start, end)`. -/
def substring (s : String) (start stop : ℕ) : String :=
  String.ofList ((s.toList.drop start).take (stop - start))

/-- `Buffer.from(text)`: the bytes of its UTF-8 encoding. -/
def utf8Bytes (s : String) : List UInt8 := s.toList.flatMap String.utf8EncodeChar

/-- `hasMultiplePools(path)`. -/
def hasMultiplePools (path : String) : Bool := multiplePoolsMinLength * 2 ≤ path.length

/-- `numPools(path)`. -/
def numPools (path : String) : ℚ :=
  ((path.length : ℚ) - ((addrSize * 2 : ℕ) : ℚ)) / ((nextOffset * 2 : ℕ) : ℚ)

/-- `decodeFirstPool(path)`. -/
def decodeFirstPool (path : String) : Except String (String × String × String) := do
  let fee ← readNumber 3 (utf8Bytes (substring path (addrSize * 2) (addrSize * 2 + 6)))
  return (substring path 0 16, substring path (nextOffset * 2) (nextOffset * 2 + 16), toString fee)

/-- `skipToken(path)`. -/
def skipToken (path : String) : String := String.ofList (path.toList.drop (nextOffset * 2))

theorem length_skipToken (path : String) :
    (skipToken path).length = path.length - nextOffset * 2 := by
  rw [skipToken, String.length_ofList, List.length_drop, String.length_toList]

/-- A path with more than one pool gets shorter. -/
theorem length_skipToken_lt {path : String} (h : hasMultiplePools path = true) :
    (skipToken path).length < path.length := by
  have hlength : multiplePoolsMinLength * 2 ≤ path.length := of_decide_eq_true h
  have hmin : multiplePoolsMinLength = 30 := rfl
  have hnext : nextOffset = 11 := rfl
  rw [length_skipToken]
  omega

/-- Decode the first pool and skip a token as long as there are multiple pools. -/
def pools (path : String) : Except String (List (String × String × String)) := do
  let first ← decodeFirstPool path
  if _ : hasMultiplePools path = true then
    let rest ← pools (skipToken path)
    return first :: rest
  else return [first]
termination_by path.length
decreasing_by exact length_skipToken_lt ‹_›

end TradingPath

/-! ### Routes -/

/-- The column `feeHex` of a pool. -/
def feeHex (fee : ℕ) : String := toHex (writeUIntBE 3 fee)

/-- It is what `createPool` writes there. -/
theorem Dex.feeHex_eq {fee : ℕ} (h : fee < 2 ^ 24) :
    Dex.feeHex fee = some (SwaptoshiService.feeHex fee) := by
  rw [Dex.feeHex, if_pos h, SwaptoshiService.feeHex, toHex,
    toHexChars_writeUIntBE (by decide) (by omega)]
  rfl

/-- A route: a token, and for every hop the fee of the pool and the next token. -/
structure Route where
  start : Token
  hops : List (ℕ × Token)
  hops_ne_nil : hops ≠ []
  fee_lt : ∀ hop ∈ hops, hop.1 < 2 ^ 24

namespace Route

/-- The text of the hops. -/
def hopsText : List (ℕ × Token) → String
  | [] => ""
  | (fee, t) :: hops => feeHex fee ++ t.val ++ hopsText hops

/-- The path of a route, as `getRoute` concatenates it. -/
def path (r : Route) : String := r.start.val ++ hopsText r.hops

/-- The pools of a route that starts at `t`, the fees as `text` shows them. -/
def poolsFrom (text : ℕ → String) : Token → List (ℕ × Token) → List (String × String × String)
  | _, [] => []
  | t, (fee, t') :: hops => (t.val, t'.val, text fee) :: poolsFrom text t' hops

/-- The pools of a route with their fees. -/
def pools (r : Route) : List (String × String × String) := poolsFrom toString r.start r.hops

theorem length_poolsFrom (text : ℕ → String) (t : Token) (hops : List (ℕ × Token)) :
    (poolsFrom text t hops).length = hops.length := by
  induction hops generalizing t with
  | nil => rfl
  | cons hop hops ih => rw [poolsFrom, List.length_cons, ih, List.length_cons]

/-- Texts of fees that agree on the pools agree on the fees. -/
theorem poolsFrom_eq_iff {text text' : ℕ → String} {t : Token} {hops : List (ℕ × Token)} :
    poolsFrom text t hops = poolsFrom text' t hops ↔
      ∀ hop ∈ hops, text hop.1 = text' hop.1 := by
  induction hops generalizing t with
  | nil => simp [poolsFrom]
  | cons hop hops ih =>
    rw [poolsFrom, poolsFrom, List.cons_eq_cons, ih, List.forall_mem_cons]
    simp

end Route

namespace TradingPath

open Route
open PoolAddress (readNumber)

variable {t t' : Token} {fee : ℕ} {hops : List (ℕ × Token)}

/-! ### Offsets -/

theorem length_feeHex (fee : ℕ) : (feeHex fee).length = 6 := by
  rw [feeHex, length_toHex, length_writeUIntBE]

theorem length_hopsText (hops : List (ℕ × Token)) :
    (hopsText hops).length = 22 * hops.length := by
  induction hops with
  | nil => rfl
  | cons hop hops ih =>
    rw [hopsText, String.length_append, String.length_append, length_feeHex, hop.2.property, ih,
      List.length_cons]
    omega

theorem length_path (t : Token) (hops : List (ℕ × Token)) :
    (t.val ++ hopsText hops).length = 16 + 22 * hops.length := by
  rw [String.length_append, t.property, length_hopsText]

theorem hasMultiplePools_iff :
    hasMultiplePools (t.val ++ hopsText hops) = true ↔ 2 ≤ hops.length := by
  have hmin : multiplePoolsMinLength = 30 := rfl
  rw [hasMultiplePools, decide_eq_true_iff, length_path]
  omega

theorem numPools_eq : numPools (t.val ++ hopsText hops) = hops.length := by
  have haddr : addrSize * 2 = 16 := rfl
  have hnext : nextOffset * 2 = 22 := rfl
  rw [numPools, length_path, haddr, hnext]
  push_cast
  ring

theorem skipToken_path :
    skipToken (t.val ++ hopsText ((fee, t') :: hops)) = t'.val ++ hopsText hops := by
  have hdrop : (t.val ++ hopsText ((fee, t') :: hops)).toList.drop (nextOffset * 2) =
      t'.val.toList ++ (hopsText hops).toList := by
    rw [hopsText, ← String.append_assoc, ← String.append_assoc, String.toList_append,
      String.toList_append, List.append_assoc]
    refine List.drop_left' ?_
    rw [String.length_toList, String.length_append, t.property, length_feeHex]
    rfl
  rw [skipToken, hdrop, String.ofList_append, String.ofList_toList, String.ofList_toList]

/-- Cut a part out of three. -/
theorem substring_append {a b c : String} {start stop : ℕ} (ha : a.length = start)
    (hb : b.length = stop - start) : substring (a ++ b ++ c) start stop = b := by
  rw [substring, String.toList_append, String.toList_append, List.append_assoc,
    List.drop_left' (by rw [String.length_toList, ha]),
    List.take_left' (by rw [String.length_toList, hb]), String.ofList_toList]

theorem substring_path_tokenIn : substring (t.val ++ hopsText hops) 0 16 = t.val := by
  have happend : t.val ++ hopsText hops = "" ++ t.val ++ hopsText hops := by
    rw [String.empty_append]
  rw [happend]
  exact substring_append rfl t.property

theorem substring_path_fee : substring (t.val ++ hopsText ((fee, t') :: hops)) (addrSize * 2)
    (addrSize * 2 + 6) = feeHex fee := by
  have happend : t.val ++ hopsText ((fee, t') :: hops) =
      t.val ++ feeHex fee ++ (t'.val ++ hopsText hops) := by
    rw [hopsText, String.append_assoc, String.append_assoc]
  rw [happend]
  exact substring_append t.property (length_feeHex fee)

theorem substring_path_tokenOut : substring (t.val ++ hopsText ((fee, t') :: hops))
    (nextOffset * 2) (nextOffset * 2 + 16) = t'.val := by
  rw [hopsText, ← String.append_assoc, ← String.append_assoc]
  refine substring_append ?_ t'.property
  rw [String.length_append, t.property, length_feeHex]
  rfl

/-! ### The fee -/

/-- What `decodeFirstPool` reads as the fee. -/
def misreadFee (fee : ℕ) : ℕ := readUIntBE ((utf8Bytes (feeHex fee)).take 3)

/-- The code of a hexadecimal digit. -/
def digitCode (d : ℕ) : ℕ := if d < 10 then 48 + d else 87 + d

theorem utf8EncodeChar_digitChar {d : ℕ} (h : d < 16) :
    String.utf8EncodeChar (Nat.digitChar d) = [UInt8.ofNat (digitCode d)] := by
  interval_cases d <;> decide

/-- The codes of the digits of some bytes. -/
theorem flatMap_utf8_toHexChars (bs : List UInt8) :
    (toHexChars bs).flatMap String.utf8EncodeChar = bs.flatMap fun b =>
      [UInt8.ofNat (digitCode (b.toNat / 16)), UInt8.ofNat (digitCode (b.toNat % 16))] := by
  induction bs with
  | nil => rfl
  | cons b bs ih =>
    have hb := b.toNat_lt
    rw [toHexChars_cons, List.flatMap_cons, List.flatMap_cons, ih,
      utf8EncodeChar_digitChar (by omega), utf8EncodeChar_digitChar (by omega), List.flatMap_cons]
    rfl

theorem digitCode_lt {d : ℕ} (h : d < 16) : digitCode d < 256 := by
  rw [digitCode]
  split <;> omega

/-- The number is made of the codes of the first three digits. -/
theorem misreadFee_eq (fee : ℕ) (h : fee < 2 ^ 24) :
    misreadFee fee = 256 * (256 * digitCode (fee / 65536 / 16) + digitCode (fee / 65536 % 16)) +
      digitCode (fee / 256 % 256 / 16) := by
  have hbytes : writeUIntBE 3 fee =
      [UInt8.ofNat (fee / 256 / 256), UInt8.ofNat (fee / 256), UInt8.ofNat fee] := rfl
  have hfirst : (UInt8.ofNat (fee / 256 / 256)).toNat = fee / 65536 := by
    rw [UInt8.toNat_ofNat']
    omega
  have hsecond : (UInt8.ofNat (fee / 256)).toNat = fee / 256 % 256 := UInt8.toNat_ofNat'
  have hcode : ∀ {d : ℕ}, d < 16 → (UInt8.ofNat (digitCode d)).toNat = digitCode d := by
    intro d hd
    rw [UInt8.toNat_ofNat']
    exact Nat.mod_eq_of_lt (digitCode_lt hd)
  rw [misreadFee, utf8Bytes, feeHex, toList_toHex, flatMap_utf8_toHexChars, hbytes]
  simp only [List.flatMap_cons, List.cons_append, List.nil_append, List.take_succ_cons,
    List.take_zero, readUIntBE, List.foldl_cons, List.foldl_nil, hfirst, hsecond]
  rw [hcode (by omega), hcode (by omega), hcode (by omega)]
  omega

theorem digitCode_eq_high_iff {a : ℕ} : digitCode (a / 16) = a ↔ a = 51 := by
  rw [digitCode]
  split <;> omega

/-- **One fee is read as it was written**: the digit `3` has the code `0x33`. -/
theorem misreadFee_eq_iff (h : fee < 2 ^ 24) : misreadFee fee = fee ↔ fee = 0x333333 := by
  rw [misreadFee_eq fee h]
  constructor
  · intro heq
    have hx := digitCode_lt (d := fee / 65536 / 16) (by omega)
    have hy := digitCode_lt (d := fee / 65536 % 16) (by omega)
    have hz := digitCode_lt (d := fee / 256 % 256 / 16) (by omega)
    -- the bytes of the two numbers agree one by one
    have hfirst : digitCode (fee / 65536 / 16) = fee / 65536 := by omega
    have hsecond : digitCode (fee / 65536 % 16) = fee / 256 % 256 := by omega
    have hthird : digitCode (fee / 256 % 256 / 16) = fee % 256 := by omega
    have ha : fee / 65536 = 51 := digitCode_eq_high_iff.mp hfirst
    have hb : fee / 256 % 256 = 51 := by rw [← hsecond, ha]; rfl
    have hc : fee % 256 = 51 := by rw [← hthird, hb]; rfl
    omega
  · rintro rfl
    rfl

theorem decodeFirstPool_path : decodeFirstPool (t.val ++ hopsText ((fee, t') :: hops)) =
    .ok (t.val, t'.val, toString (misreadFee fee)) := by
  have hread : readNumber 3 (utf8Bytes (feeHex fee)) = .ok (misreadFee fee) := by
    refine if_neg ?_
    rw [utf8Bytes, feeHex, toList_toHex, flatMap_utf8_toHexChars]
    simp [List.length_flatMap]
  rw [decodeFirstPool, substring_path_fee, substring_path_tokenIn, substring_path_tokenOut, hread]
  rfl

/-! ### Going through a path -/

/-- The loop visits the pools of the route, in order and each once, but for the fees. -/
theorem pools_path (hne : hops ≠ []) : pools (t.val ++ hopsText hops) =
    .ok (poolsFrom (fun fee => toString (misreadFee fee)) t hops) := by
  induction hops generalizing t with
  | nil => exact absurd rfl hne
  | cons hop hops ih =>
    obtain ⟨fee, t'⟩ := hop
    rw [pools, decodeFirstPool_path]
    by_cases hmore : hops = []
    · have hlast : ¬ hasMultiplePools (t.val ++ hopsText ((fee, t') :: hops)) = true := by
        rw [hasMultiplePools_iff, hmore]
        simp
      rw [hmore] at hlast ⊢
      simp only [dif_neg hlast]
      rfl
    · have hmultiple : hasMultiplePools (t.val ++ hopsText ((fee, t') :: hops)) = true := by
        rw [hasMultiplePools_iff]
        have := List.length_pos_iff.mpr hmore
        rw [List.length_cons]
        omega
      have hskip : skipToken (t.val ++ hopsText ((fee, t') :: hops)) = t'.val ++ hopsText hops :=
        skipToken_path
      simp only [dif_pos hmultiple, hskip, ih hmore]
      rfl

/-- **When a route is recovered from its path.** -/
theorem trading_path_codec_iff (r : Route) :
    (pools r.path = .ok r.pools ∧ r.pools.length = r.hops.length ∧
      numPools r.path = r.hops.length ∧
      (hasMultiplePools r.path = true ↔ 2 ≤ r.hops.length)) ↔
      ∀ hop ∈ r.hops, hop.1 = 0x333333 := by
  have hpools : pools r.path = .ok r.pools ↔ ∀ hop ∈ r.hops, misreadFee hop.1 = hop.1 := by
    rw [Route.path, pools_path r.hops_ne_nil, Except.ok.injEq, Route.pools, poolsFrom_eq_iff]
    exact forall₂_congr fun hop _ => toString_nat_injective.eq_iff
  constructor
  · rintro ⟨hcodec, -⟩ hop hmem
    exact (misreadFee_eq_iff (r.fee_lt hop hmem)).mp (hpools.mp hcodec hop hmem)
  · intro hfees
    refine ⟨hpools.mpr fun hop hmem => (misreadFee_eq_iff (r.fee_lt hop hmem)).mpr (hfees hop hmem),
      length_poolsFrom _ _ _, numPools_eq, hasMultiplePools_iff⟩

/-- KLY to SWX through the pool with the fee 3000. -/
def klySwxRoute : Route :=
  ⟨PoolAddress.klyToken.toToken, [(3000, PoolAddress.swxToken.toToken)], by decide, by decide⟩

/-- The digits `000bb8` are read as the codes of three zeros. -/
theorem klySwx_fee_misread :
    ¬ ∀ r : Route, pools r.path = .ok r.pools ∧ r.pools.length = r.hops.length ∧
      numPools r.path = r.hops.length ∧ (hasMultiplePools r.path = true ↔ 2 ≤ r.hops.length) := by
  intro hreads
  have hread : pools klySwxRoute.path = .ok [("0100000000000000", "0155555500000000", "3158064")] :=
    pools_path klySwxRoute.hops_ne_nil
  have heq := Except.ok.inj ((hreads klySwxRoute).1.symm.trans hread)
  exact absurd heq (by decide)

end TradingPath

end SwaptoshiService
