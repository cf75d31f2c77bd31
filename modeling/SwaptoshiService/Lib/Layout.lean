import Mathlib.Algebra.BigOperators.Group.List.Basic
import Mathlib.Algebra.Order.BigOperators.Group.Finset
import Mathlib.Algebra.Order.BigOperators.Ring.Finset
import Mathlib.Algebra.Order.Field.Basic
import Mathlib.Order.Interval.Finset.Nat
import Mathlib.Tactic.Ring

/-!
# Items laid out one after another

A list of items, each with a size and a value, fills the positions from 0 on: the first item takes
as many positions as its size says, the next one follows. `valueAt` is the value at a position, 0
beyond the last item; `placed` lists the items with the positions they begin at. The sum of the
values over a window of positions is the sum over the items of value times overlap
(`sum_valueAt_Icc`).
-/

open Finset

namespace SwaptoshiService

namespace Layout

variable {α K : Type} (size : α → ℕ) (value : α → K)

/-- The value at a position. -/
def valueAt [Zero K] : List α → ℕ → K
  | [], _ => 0
  | a :: as, pos => if pos < size a then value a else valueAt as (pos - size a)

/-- The items with the positions they begin at, the first one at `start`. -/
def placed : ℕ → List α → List (ℕ × α)
  | _, [] => []
  | start, a :: as => (start, a) :: placed (start + size a) as

/-- How many of the `length` positions from `start` on are in the window. -/
def overlap (lower upper start length : ℕ) : ℕ :=
  min (start + length) (upper + 1) - max start lower

variable {size value} {items : List α} {lower upper start length pos : ℕ}

@[simp] theorem placed_nil : placed size start [] = [] := rfl

@[simp] theorem placed_cons {a : α} :
    placed size start (a :: items) = (start, a) :: placed size (start + size a) items := rfl

theorem le_of_mem_placed {p : ℕ × α} (hp : p ∈ placed size start items) : start ≤ p.1 := by
  induction items generalizing start with
  | nil => simp at hp
  | cons a as ih =>
    rcases List.mem_cons.mp hp with rfl | hp
    · exact le_rfl
    · exact (Nat.le_add_right _ _).trans (ih hp)

/-- The positions of an item that are in the window. -/
theorem card_filter_window : {pos ∈ Icc lower upper | start ≤ pos ∧ pos < start + length}.card =
    overlap lower upper start length := by
  have hfilter : {pos ∈ Icc lower upper | start ≤ pos ∧ pos < start + length} =
      Ico (max start lower) (min (start + length) (upper + 1)) := by
    ext pos
    simp only [mem_filter, mem_Icc, mem_Ico]
    omega
  rw [hfilter, Nat.card_Ico, overlap]

/-- A bound on the values of the items bounds the value at every position they fill. -/
theorem le_valueAt [Zero K] [LE K] {b : K} (h : ∀ a ∈ items, b ≤ value a)
    (hpos : pos < (items.map size).sum) : b ≤ valueAt size value items pos := by
  induction items generalizing pos with
  | nil => simp at hpos
  | cons a as ih =>
    rw [List.map_cons, List.sum_cons] at hpos
    rw [valueAt]
    split_ifs with hlt
    · exact h a List.mem_cons_self
    · exact ih (fun a ha => h a (List.mem_cons_of_mem _ ha)) (by omega)

theorem valueAt_le [Zero K] [LE K] {b : K} (h : ∀ a ∈ items, value a ≤ b) (hb : 0 ≤ b) :
    valueAt size value items pos ≤ b := by
  induction items generalizing pos with
  | nil => exact hb
  | cons a as ih =>
    rw [valueAt]
    split_ifs with hlt
    · exact h a List.mem_cons_self
    · exact ih fun a ha => h a (List.mem_cons_of_mem _ ha)

variable [Semiring K]

/-- **The sum over a window.** The induction is on the items, from any position on. -/
theorem sum_valueAt_from (items : List α) (start : ℕ) :
    ∑ pos ∈ Icc lower upper, (if start ≤ pos then valueAt size value items (pos - start) else 0) =
      ((placed size start items).map fun p =>
        (overlap lower upper p.1 (size p.2) : K) * value p.2).sum := by
  induction items generalizing start with
  | nil => simp [valueAt]
  | cons a as ih =>
    have hsplit : ∀ pos, (if start ≤ pos then valueAt size value (a :: as) (pos - start) else 0) =
        (if start ≤ pos ∧ pos < start + size a then value a else 0) +
          if start + size a ≤ pos then valueAt size value as (pos - (start + size a)) else 0 := by
      intro pos
      rw [valueAt]
      by_cases hstart : start ≤ pos
      · by_cases hlt : pos < start + size a
        · rw [if_pos hstart, if_pos (by omega), if_pos ⟨hstart, hlt⟩, if_neg (by omega), add_zero]
        · rw [if_pos hstart, if_neg (by omega), if_neg (by omega), if_pos (by omega), zero_add,
            Nat.sub_sub]
      · rw [if_neg hstart, if_neg (by omega), if_neg (by omega), add_zero]
    rw [sum_congr rfl fun pos _ => hsplit pos, sum_add_distrib, ih, ← sum_filter, sum_const,
      card_filter_window, nsmul_eq_mul]
    rfl

theorem sum_valueAt_Icc (items : List α) :
    ∑ pos ∈ Icc lower upper, valueAt size value items pos =
      ((placed size 0 items).map fun p =>
        (overlap lower upper p.1 (size p.2) : K) * value p.2).sum := by
  simpa using sum_valueAt_from items 0

end Layout

end SwaptoshiService
