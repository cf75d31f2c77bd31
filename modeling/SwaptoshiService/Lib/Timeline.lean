import Mathlib.Order.Defs.PartialOrder
import Mathlib.Tactic.Common

/-!
# Rows by time

A table with one row for each time, as a function. Rows are inserted **unless there is one** at
that time, and dropped after a time. `insertAt_dropAfter_iff` says exactly when an insertion and a
deletion leave no trace behind a later insertion.
-/

namespace SwaptoshiService

variable {τ β : Type} [DecidableEq τ]

/-- Insert a row at a time, unless there is one. -/
def insertAt (t : τ) (v : Option β) (rows : τ → Option β) : τ → Option β :=
  fun t' => if t' = t ∧ rows t = none then v else rows t'

/-- Drop all rows after a time, if told so. -/
def dropAfter [LT τ] [DecidableLT τ] (D : Prop) [Decidable D] (t : τ) (rows : τ → Option β) :
    τ → Option β :=
  fun t' => if D ∧ t < t' then none else rows t'

section Insert

variable {t t' : τ} {v : Option β} {rows : τ → Option β}

theorem insertAt_of_ne (h : t' ≠ t) : insertAt t v rows t' = rows t' :=
  if_neg fun hand => h hand.1

theorem insertAt_of_some {r : β} (h : rows t = some r) : insertAt t v rows t' = rows t' :=
  if_neg fun hand => by simp [h] at hand

theorem insertAt_of_none (h : rows t = none) : insertAt t v rows t = v := if_pos ⟨rfl, h⟩

/-- Inserting nothing changes nothing. -/
@[simp] theorem insertAt_none : insertAt t none rows = rows := by
  funext t'
  by_cases h : t' = t ∧ rows t = none
  · rw [insertAt, if_pos h, h.1, h.2]
  · exact if_neg h

end Insert

/-- **Undo.** A row is inserted at `t`, the rows after `t` are dropped, and a row is inserted at
`t'`. The result is that of the last insertion alone exactly when no other row is dropped that
does not come back, and no other row stays. -/
theorem insertAt_dropAfter_iff [Preorder τ] [DecidableLT τ] {D : Prop} [Decidable D] {t t' : τ}
    {v v' : Option β} {rows : τ → Option β} :
    insertAt t' v' (dropAfter D t (insertAt t v rows)) = insertAt t' v' rows ↔
      (D → ∀ a r, t < a → rows a = some r → a = t' ∧ v' = some r) ∧
        (rows t = none → ∀ r, v = some r → t' = t ∧ v' = some r) := by
  constructor
  · intro h
    refine ⟨fun hD a r hlt hr => ?_, fun hnone r hv => ?_⟩
    · have hdropped : dropAfter D t (insertAt t v rows) a = none := if_pos ⟨hD, hlt⟩
      have hat := congrFun h a
      by_cases ha : a = t'
      · subst ha
        rw [insertAt_of_none hdropped, insertAt_of_some hr, hr] at hat
        exact ⟨rfl, hat⟩
      · rw [insertAt_of_ne ha, insertAt_of_ne ha, hdropped, hr] at hat
        simp at hat
    · have hkept : dropAfter D t (insertAt t v rows) t = some r := by
        rw [dropAfter, if_neg fun hand => lt_irrefl t hand.2, insertAt_of_none hnone, hv]
      have hat := congrFun h t
      by_cases ht : t = t'
      · subst ht
        rw [insertAt_of_some hkept, hkept, insertAt_of_none hnone] at hat
        exact ⟨rfl, hat.symm⟩
      · rw [insertAt_of_ne ht, insertAt_of_ne ht, hkept, hnone] at hat
        simp at hat
  · rintro ⟨hdrop, hown⟩
    funext a
    -- Where a row is dropped it comes back, and the inserted row is the last one.
    by_cases hD : D ∧ t < a
    · have hdropped : dropAfter D t (insertAt t v rows) a = none := if_pos hD
      cases hr : rows a with
      | none =>
        by_cases ha : a = t'
        · subst ha
          rw [insertAt_of_none hdropped, insertAt_of_none hr]
        · rw [insertAt_of_ne ha, insertAt_of_ne ha, hdropped, hr]
      | some r =>
        obtain ⟨rfl, hv'⟩ := hdrop hD.1 a r hD.2 hr
        rw [insertAt_of_none hdropped, insertAt_of_some hr, hv', hr]
    · have hkept : dropAfter D t (insertAt t v rows) a = insertAt t v rows a := if_neg hD
      by_cases hat : a = t ∧ rows t = none
      · obtain ⟨rfl, hnone⟩ := hat
        rw [insertAt_of_none hnone] at hkept
        cases hv : v with
        | none =>
          rw [hv] at hkept
          by_cases ha : a = t'
          · subst ha
            rw [← hv, insertAt_of_none (by rw [hv]; exact hkept), insertAt_of_none hnone]
          · rw [← hv, insertAt_of_ne ha, insertAt_of_ne ha, hv, hkept, hnone]
        | some r =>
          obtain ⟨rfl, hv'⟩ := hown hnone r hv
          rw [hv] at hkept
          rw [← hv, insertAt_of_some (by rw [hv]; exact hkept), hv, hkept, insertAt_of_none hnone,
            hv']
      · rw [insertAt, if_neg hat] at hkept
        by_cases ha : a = t'
        · subst ha
          rw [insertAt, insertAt]
          simp only [true_and, hkept]
        · rw [insertAt_of_ne ha, insertAt_of_ne ha, hkept]

end SwaptoshiService
