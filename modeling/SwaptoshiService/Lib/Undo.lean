import Mathlib.Data.List.Basic
import Mathlib.Data.List.Induction

/-!
# Logs of absolute changes

A change overwrites a register and records what was there before it. The changes of one
register **chain** when each of them starts from what its predecessor left. Writing the new
values in order leaves the last of them (`overwrite_eq`); writing the recorded values in the
same order leaves what the *last* change found, which is where undoing in the wrong direction
goes astray.
-/

namespace SwaptoshiService

variable {ι β : Type}

/-- The first change starts from the given value, every other one from what its predecessor
leaves. -/
def ChainsFrom (before after : ι → β) : β → List ι → Prop
  | _, [] => True
  | v, c :: cs => before c = v ∧ ChainsFrom before after (after c) cs

namespace ChainsFrom

variable {before after : ι → β} {v : β} {cs : List ι}

theorem head {c : ι} (h : ChainsFrom before after v cs) (hc : cs.head? = some c) :
    before c = v := by
  cases cs with
  | nil => simp at hc
  | cons d ds =>
    obtain rfl : d = c := by simpa using hc
    exact h.1

/-- Changes that change nothing all start from the given value. -/
theorem before_eq (h : ChainsFrom before after v cs) (hsame : ∀ c ∈ cs, after c = before c) :
    ∀ c ∈ cs, before c = v := by
  induction cs generalizing v with
  | nil => simp
  | cons d ds ih =>
    obtain ⟨hd, hds⟩ := h
    rw [hsame d List.mem_cons_self, hd] at hds
    refine List.forall_mem_cons.mpr ⟨hd, ih hds fun c hc => ?_⟩
    exact hsame c (List.mem_cons_of_mem _ hc)

end ChainsFrom

instance decidableChainsFrom [DecidableEq β] (before after : ι → β) :
    (v : β) → (cs : List ι) → Decidable (ChainsFrom before after v cs)
  | _, [] => .isTrue trivial
  | v, c :: cs =>
    have := decidableChainsFrom before after (after c) cs
    inferInstanceAs (Decidable (before c = v ∧ ChainsFrom before after (after c) cs))

/-- Write the values of the changes that concern a register, one after the other. -/
def overwrite (p : ι → Prop) [DecidablePred p] (value : ι → β) (cs : List ι) (b : β) : β :=
  cs.foldl (fun b c => if p c then value c else b) b

section Overwrite

variable (p : ι → Prop) [DecidablePred p] (value : ι → β)

theorem overwrite_append (cs ds : List ι) (b : β) :
    overwrite p value (cs ++ ds) b = overwrite p value ds (overwrite p value cs b) :=
  List.foldl_append

/-- Of several values the last one stays. -/
theorem overwrite_eq (cs : List ι) (b : β) :
    overwrite p value cs b = ((cs.filter p).getLast?.map value).getD b := by
  induction cs using List.reverseRecOn with
  | nil => rfl
  | append_singleton cs c ih =>
    rw [overwrite_append, ih, overwrite, List.foldl_cons, List.foldl_nil, List.filter_append]
    by_cases hc : p c
    · simp [hc]
    · simp [hc]

end Overwrite

end SwaptoshiService
