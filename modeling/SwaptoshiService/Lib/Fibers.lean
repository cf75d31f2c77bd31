import Mathlib.Algebra.BigOperators.Group.Finset.Piecewise
import Mathlib.Algebra.BigOperators.Group.List.Basic

/-!
# Sums over a list, key by key

A list is split by a key of its elements. What is summed up for some of the keys is the sum over the
elements with one of these keys (`sum_fibers`). Two sums over parts of a list agree if and only if
they agree where the parts differ (`sum_filter_eq_iff`).
-/

open Finset

namespace SwaptoshiService

variable {α κ M : Type} [AddCommMonoid M]

/-- **Key by key.** -/
theorem sum_fibers [DecidableEq κ] (key : α → κ) (v : α → M) (keys : Finset κ) (P : κ → Prop)
    [DecidablePred P] {l : List α} (h : ∀ a ∈ l, key a ∈ keys) :
    ∑ k ∈ keys with P k, ((l.filter fun a => key a = k).map v).sum =
      ((l.filter fun a => P (key a)).map v).sum := by
  induction l with
  | nil => simp
  | cons a l ih =>
    rw [List.forall_mem_cons] at h
    have hfiber : ∀ k, (((a :: l).filter fun a => key a = k).map v).sum =
        (if key a = k then v a else 0) + ((l.filter fun a => key a = k).map v).sum := by
      intro k
      by_cases hk : key a = k <;> simp [hk]
    have hkey : ∑ k ∈ keys with P k, (if key a = k then v a else 0) =
        if P (key a) then v a else 0 := by
      rw [sum_ite_eq]
      simp [h.1]
    rw [sum_congr rfl fun k _ => hfiber k, sum_add_distrib, ih h.2, hkey]
    by_cases ha : P (key a) <;> simp [ha]

/-- A part of a list in two parts. -/
theorem sum_filter_and_add (p q : α → Prop) [DecidablePred p] [DecidablePred q] (v : α → M)
    (l : List α) :
    ((l.filter fun a => p a ∧ q a).map v).sum + ((l.filter fun a => p a ∧ ¬ q a).map v).sum =
      ((l.filter fun a => p a).map v).sum := by
  induction l with
  | nil => simp
  | cons a l ih =>
    rw [List.filter_cons, List.filter_cons, List.filter_cons]
    by_cases hp : p a
    · by_cases hq : q a
      · simp [hp, hq, ← ih, add_assoc]
      · simp [hp, hq, ← ih, add_left_comm]
    · simp [hp, ← ih]

/-- Where two parts of a list differ. -/
theorem sum_filter_eq_iff {M : Type} [AddCancelCommMonoid M] (p q : α → Prop) [DecidablePred p]
    [DecidablePred q] (v : α → M) (l : List α) :
    ((l.filter fun a => p a).map v).sum = ((l.filter fun a => q a).map v).sum ↔
      ((l.filter fun a => p a ∧ ¬ q a).map v).sum =
        ((l.filter fun a => q a ∧ ¬ p a).map v).sum := by
  have hcomm : (l.filter fun a => q a ∧ p a) = l.filter fun a => p a ∧ q a := by
    simp only [and_comm]
  rw [← sum_filter_and_add p q v l, ← sum_filter_and_add q p v l, hcomm, add_left_cancel_iff]

end SwaptoshiService
