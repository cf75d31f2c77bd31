import Mathlib.Data.Int.Bitwise
import Mathlib.Tactic.Linarith
import Mathlib.Tactic.Ring
import SwaptoshiService.Lib.Except

/-!
# Bounded integers

The classes of `indexer/utils/dexLib/int` keep an integer between the limits of a machine type:
`from` throws outside of them, and every operation takes its result back into them with `hof`,
silently. An `IntClass` is what `setup` computes for a class, and a `BoundedInt` is one of its
values.

The operations take one argument that the code does not have, what happens to a result that does
not fit: the code's own `hof` (`wraps`), or an error (`throws`). A computation that has the same
result with both is one in which nothing wraps around.
-/

namespace SwaptoshiService

/-! ### The classes -/

theorem two_pow_pos (n : ℕ) : (0 : ℤ) < 2 ^ n := pow_pos two_pos n

/-- The name and the limits of a class. -/
structure IntClass where
  name : String
  min : ℤ
  max : ℤ
  min_le_max : min ≤ max

/-- `Uint<bitSize>` -/
def uintClass (bitSize : ℕ) : IntClass where
  name := "uint" ++ toString bitSize
  min := 0
  max := 2 ^ bitSize - 1
  min_le_max := by linarith [two_pow_pos bitSize]

/-- `Int<bitSize>` -/
def intClass (bitSize : ℕ) : IntClass where
  name := "int" ++ toString bitSize
  min := -2 ^ (bitSize - 1)
  max := 2 ^ (bitSize - 1) - 1
  min_le_max := by linarith [two_pow_pos (bitSize - 1)]

abbrev uint160 : IntClass := uintClass 160

abbrev uint256 : IntClass := uintClass 256

abbrev int24 : IntClass := intClass 24

abbrev int256 : IntClass := intClass 256

/-- A value of a class. -/
@[ext]
structure BoundedInt (c : IntClass) where
  value : ℤ
  min_le : c.min ≤ value
  le_max : value ≤ c.max

/-- What happens to a result outside the limits. -/
inductive Overflow
  | wraps
  | throws

namespace IntClass

variable (c : IntClass)

/-- `from`, with the checks of the constructor. -/
def fromInt (value : ℤ) : Except String (BoundedInt c) :=
  if hmax : c.max < value then
    .error ("value " ++ toString value ++ " exceeds " ++ c.name ++ " maximum value of " ++
      toString c.max)
  else if hmin : value < c.min then
    .error ("value " ++ toString value ++ " exceeds " ++ c.name ++ " minimum value of " ++
      toString c.min)
  else .ok ⟨value, not_lt.mp hmin, not_lt.mp hmax⟩

/-- `hof`; the remainder has the sign of the dividend. -/
def hof (value : ℤ) : ℤ :=
  if value < c.min ∨ c.max < value then
    (((value - c.min).tmod (c.max - c.min + 1) + (c.max - c.min + 1)).tmod
      (c.max - c.min + 1)) + c.min
  else value

/-- `toBigNumber(hof(value))`, or an error instead of `hof`. -/
def settle (o : Overflow) (value : ℤ) : Except String (BoundedInt c) :=
  match o with
  | .wraps => c.fromInt (c.hof value)
  | .throws => if c.hof value = value then c.fromInt value else .error "overflow"

end IntClass

namespace BoundedInt

variable {c : IntClass} (o : Overflow) (x : BoundedInt c) (other : ℤ)

/-- `abs`, which does not go through `hof`. -/
def abs : Except String (BoundedInt c) :=
  if x.value < 0 then c.fromInt (x.value * -1) else .ok x

def add : Except String (BoundedInt c) := c.settle o (x.value + other)

def sub : Except String (BoundedInt c) := c.settle o (x.value - other)

def mul : Except String (BoundedInt c) := c.settle o (x.value * other)

def div : Except String (BoundedInt c) :=
  if other = 0 then .error "div: division-by-zero" else c.settle o (x.value.tdiv other)

def mod : Except String (BoundedInt c) :=
  if other = 0 then .error "mod: division-by-zero"
  else c.settle o ((x.value.tmod other + other).tmod other)

def and : Except String (BoundedInt c) := c.settle o (x.value.land other)

def or : Except String (BoundedInt c) := c.settle o (x.value.lor other)

def shl (bits : ℕ) : Except String (BoundedInt c) := c.settle o (x.value * 2 ^ bits)

/-- `shr`, which rounds down also below zero. -/
def shr (bits : ℕ) : Except String (BoundedInt c) := c.settle o (x.value >>> bits)

def eq : Bool := x.value == other

def lt : Bool := decide (x.value < other)

def lte : Bool := decide (x.value ≤ other)

def gt : Bool := decide (other < x.value)

def gte : Bool := decide (other ≤ x.value)

end BoundedInt

/-! ### Results that fit -/

namespace IntClass

variable {c : IntClass} {value : ℤ} {o : Overflow}

theorem fromInt_of_mem (hmin : c.min ≤ value) (hmax : value ≤ c.max) :
    c.fromInt value = .ok ⟨value, hmin, hmax⟩ := by
  rw [fromInt, dif_neg hmax.not_gt, dif_neg hmin.not_gt]

theorem fromInt_eq_error (h : value < c.min ∨ c.max < value) : ∃ e, c.fromInt value = .error e := by
  unfold fromInt
  split_ifs with hmax hmin
  · exact ⟨_, rfl⟩
  · exact ⟨_, rfl⟩
  · exact absurd h (by omega)

theorem hof_of_mem (hmin : c.min ≤ value) (hmax : value ≤ c.max) : c.hof value = value :=
  if_neg (by omega)

/-- What fits is the result, whatever happens to what does not. -/
theorem settle_of_mem (hmin : c.min ≤ value) (hmax : value ≤ c.max) :
    c.settle o value = .ok ⟨value, hmin, hmax⟩ := by
  cases o with
  | wraps => rw [settle, hof_of_mem hmin hmax, fromInt_of_mem hmin hmax]
  | throws => rw [settle, if_pos (hof_of_mem hmin hmax), fromInt_of_mem hmin hmax]

end IntClass

end SwaptoshiService
