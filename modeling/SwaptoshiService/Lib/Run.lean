import Mathlib.Logic.Basic

/-!
# Runs of a labelled transition system

`Run step ok s t`: from `s` the system reaches `t` by steps each of which meets the condition
`ok` on its label and on the state it is made in. `Run.invariant` is the induction rule for
safety: what holds at the start and survives every admissible step holds in every state reached.
-/

namespace SwaptoshiService

variable {σ α : Type}

/-- `t` is reached from `s` by steps that meet the condition. -/
inductive Run (step : σ → α → σ → Prop) (ok : σ → α → Prop) (s : σ) : σ → Prop
  | refl : Run step ok s s
  | tail {t t' : σ} {a : α} : Run step ok s t → step t a t' → ok t a → Run step ok s t'

namespace Run

variable {step : σ → α → σ → Prop} {ok ok' : σ → α → Prop} {s t u : σ}

/-- **Invariants.** -/
theorem invariant (I : σ → Prop) (hr : Run step ok s t) (hs : I s)
    (hstep : ∀ t a t', I t → ok t a → step t a t' → I t') : I t := by
  induction hr with
  | refl => exact hs
  | tail _ hst hok ih => exact hstep _ _ _ ih hok hst

theorem trans (h : Run step ok s t) (h' : Run step ok t u) : Run step ok s u := by
  induction h' with
  | refl => exact h
  | tail _ hst hok ih => exact ih.tail hst hok

theorem mono (h : Run step ok s t) (hok : ∀ s a, ok s a → ok' s a) : Run step ok' s t := by
  induction h with
  | refl => exact .refl
  | tail _ hst ha ih => exact ih.tail hst (hok _ _ ha)

end Run

/-- Any step is admissible. -/
def Unrestricted (_ : σ) (_ : α) : Prop := True

end SwaptoshiService
