import Mathlib.Algebra.Group.Nat.Defs
import Mathlib.Algebra.Order.Group.Unbundled.Int
import Mathlib.Data.Nat.Log
import Mathlib.Data.Rat.Defs

/-!
# Numbers in `decimal` columns

The indexer passes on-chain amounts, which the node delivers as decimal strings, through
JavaScript's `Number` before it writes them to a `decimal` column. `jsNumber n` is the integer
that ends up in the column: `n` is rounded to the nearest double (ties to even), and the double
is written out with the fewest significant digits that still denote it. Integers up to `2 ^ 53`
in absolute value survive unchanged (`jsNumber_of_le`). Prices are written to columns with eight
decimal places (`toDecimal`).
-/

namespace SwaptoshiService

/-- Round `n / 2 ^ e` to the nearest integer, ties to even. -/
def roundHalfEven (n e : ℕ) : ℕ :=
  let q := n / 2 ^ e
  let r := n % 2 ^ e
  if 2 * r < 2 ^ e ∨ (2 * r = 2 ^ e ∧ q % 2 = 0) then q else q + 1

/-- The double nearest to a natural number, as an integer. -/
def toDouble (n : ℕ) : ℕ :=
  if n < 2 ^ 53 then n
  else
    let e := Nat.log 2 n - 52
    roundHalfEven n e * 2 ^ e

/-- The decimal with `digits` significant digits that denotes the double `d` and is closest to
it, if there is one. -/
def decimalOf (d digits : ℕ) : Option ℕ :=
  let unit := 10 ^ (Nat.log 10 d + 1 - digits)
  let lo := d / unit * unit
  let hi := lo + unit
  if toDouble lo = d ∧ (toDouble hi ≠ d ∨ d - lo ≤ hi - d) then some lo
  else if toDouble hi = d then some hi
  else none

/-- The shortest decimal that denotes the double `d`; seventeen digits always suffice. -/
def shortestDecimal (d : ℕ) : ℕ :=
  ((List.range 17).findSome? fun i => decimalOf d (i + 1)).getD d

/-- `Number(n)`, written to a `decimal` column. -/
def jsNumber (n : ℤ) : ℤ :=
  if n.natAbs ≤ 2 ^ 53 then n else n.sign * shortestDecimal (toDouble n.natAbs)

/-- Integers in the safe range are kept. -/
theorem jsNumber_of_le {n : ℤ} (h : n.natAbs ≤ 2 ^ 53) : jsNumber n = n := by
  rw [jsNumber, if_pos h]

theorem jsNumber_neg (n : ℤ) : jsNumber (-n) = -jsNumber n := by
  rw [jsNumber, jsNumber, Int.natAbs_neg, Int.sign_neg]
  split
  · rfl
  · exact Int.neg_mul _ _

example : jsNumber (2 ^ 53 + 1) = 2 ^ 53 := by decide +kernel

example : jsNumber 123456789012345678901 = 123456789012345680000 := by decide +kernel

/-- A price, written to a `decimal(50, 8)` column: rounded to eight places, halves away from
zero. -/
def toDecimal (q : ℚ) : ℚ :=
  if q < 0 then -((-q * 10 ^ 8 + 1 / 2).floor : ℚ) / 10 ^ 8
  else ((q * 10 ^ 8 + 1 / 2).floor : ℚ) / 10 ^ 8

end SwaptoshiService
