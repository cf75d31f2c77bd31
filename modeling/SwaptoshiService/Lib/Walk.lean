import Mathlib.Data.List.Nodup
import Mathlib.Tactic.Common

/-!
# Walks in a directed multigraph

The edges of a graph are the values of a type with a source and a target; `E` says which of them
belong to the graph. A walk is a list of edges each of which starts where the one before ends
(`IsWalk`). A walk that comes back to a vertex can be cut short (`IsWalk.shortcut`), so a walk of
least length visits no vertex twice (`IsWalk.nodup_visited`).
-/

namespace SwaptoshiService

variable {ν ε : Type}

/-- The edges lead from one vertex to another. -/
def IsWalk (src dst : ε → ν) (E : ε → Prop) : ν → List ε → ν → Prop
  | a, [], b => a = b
  | a, e :: es, b => E e ∧ src e = a ∧ IsWalk src dst E (dst e) es b

/-- The vertices of a walk, in order. -/
def visited (dst : ε → ν) (a : ν) (es : List ε) : List ν := a :: es.map dst

namespace IsWalk

variable {src dst : ε → ν} {E : ε → Prop} {a b v : ν} {e : ε} {es es' : List ε}

theorem append_iff : IsWalk src dst E a (es ++ es') b ↔
    ∃ v, IsWalk src dst E a es v ∧ IsWalk src dst E v es' b := by
  induction es generalizing a with
  | nil => simp [IsWalk]
  | cons e es ih =>
    simp only [List.cons_append, IsWalk, ih]
    constructor
    · rintro ⟨hE, hsrc, v, hv, hrest⟩
      exact ⟨v, ⟨hE, hsrc, hv⟩, hrest⟩
    · rintro ⟨v, ⟨hE, hsrc, hv⟩, hrest⟩
      exact ⟨hE, hsrc, v, hv, hrest⟩

/-- One more edge at the end. -/
theorem concat_iff : IsWalk src dst E a (es ++ [e]) b ↔
    IsWalk src dst E a es (src e) ∧ E e ∧ dst e = b := by
  rw [append_iff]
  constructor
  · rintro ⟨v, hv, hE, rfl, rfl⟩
    exact ⟨hv, hE, rfl⟩
  · rintro ⟨hv, hE, rfl⟩
    exact ⟨src e, hv, hE, rfl, rfl⟩

theorem mem (h : IsWalk src dst E a es b) (he : e ∈ es) : E e := by
  induction es generalizing a with
  | nil => simp at he
  | cons e' es ih =>
    rcases List.mem_cons.mp he with rfl | he
    · exact h.1
    · exact ih h.2.2 he

/-- A walk can be cut at a vertex it visits. -/
theorem split (h : IsWalk src dst E a es b) (hv : v ∈ visited dst a es) :
    ∃ p r, es = p ++ r ∧ IsWalk src dst E a p v ∧ IsWalk src dst E v r b := by
  induction es generalizing a with
  | nil =>
    obtain rfl : v = a := by simpa [visited] using hv
    exact ⟨[], [], rfl, rfl, h⟩
  | cons e es ih =>
    rcases List.mem_cons.mp hv with rfl | hv
    · exact ⟨[], e :: es, rfl, rfl, h⟩
    · obtain ⟨p, r, rfl, hp, hr⟩ := ih h.2.2 hv
      exact ⟨e :: p, r, rfl, ⟨h.1, h.2.1, hp⟩, hr⟩

/-- Between two visits of one vertex nothing is lost. -/
theorem shortcut (h : IsWalk src dst E a es b) (hdup : ¬ (visited dst a es).Nodup) :
    ∃ es', IsWalk src dst E a es' b ∧ es'.length < es.length := by
  induction es generalizing a with
  | nil => simp [visited] at hdup
  | cons e es ih =>
    by_cases hmem : a ∈ visited dst (dst e) es
    · -- The walk comes back to where it starts: the rest after that is a walk.
      obtain ⟨p, r, rfl, -, hr⟩ := split h.2.2 hmem
      refine ⟨r, hr, ?_⟩
      rw [List.length_cons, List.length_append]
      omega
    · have hrest : ¬ (visited dst (dst e) es).Nodup := fun hnodup =>
        hdup (List.nodup_cons.mpr ⟨hmem, hnodup⟩)
      obtain ⟨es', hes', hlt⟩ := ih h.2.2 hrest
      refine ⟨e :: es', ⟨h.1, h.2.1, hes'⟩, ?_⟩
      rw [List.length_cons, List.length_cons]
      omega

/-- A walk of least length is simple. -/
theorem nodup_visited (h : IsWalk src dst E a es b)
    (hleast : ∀ es', IsWalk src dst E a es' b → es.length ≤ es'.length) :
    (visited dst a es).Nodup := by
  by_contra hdup
  obtain ⟨es', hes', hlt⟩ := h.shortcut hdup
  have := hleast es' hes'
  omega

end IsWalk

end SwaptoshiService
