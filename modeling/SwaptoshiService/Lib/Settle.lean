import Mathlib.Data.Set.Lattice
import SwaptoshiService.Lib.Interleave

/-!
# Goals that concurrent programs meet for good

Threads that work towards common goals do not disturb each other: every step keeps the goals that
are met already. `Meets I G X Y p` says that the program `p`, started with the goals `X` met and
run together with threads of this kind, succeeds with the goals `Y` met. What a thread may assume
after each of its steps is **all goals met at that moment**, since the other threads keep them.

An interleaving meets what its threads meet (`Meets.interleave`).
-/

namespace SwaptoshiService

namespace Async

variable {σ ε α β ι : Type} {I : σ → Prop} {G : ι → σ → Prop} {X Y Z : Set ι}

/-- From states with the invariant `I` and the goals `X` met, the program keeps the invariant and
every goal, and succeeds with the goals `Y` met. -/
def Meets (I : σ → Prop) (G : ι → σ → Prop) : Set ι → Set ι → Async σ ε α → Prop
  | X, Y, .pure _ => Y ⊆ X
  | _, _, .throw _ => False
  | X, Y, .step u n => ∀ s, I s → (∀ k ∈ X, G k s) →
      I (u s) ∧ (∀ k, G k s → G k (u s)) ∧ Meets I G {k | G k (u s)} Y (n s)

/-! ### Rules -/

section Rules

theorem Meets.mono {X' Y' : Set ι} {p : Async σ ε α} (hp : p.Meets I G X Y) (hX : X ⊆ X')
    (hY : Y' ⊆ Y) : p.Meets I G X' Y' := by
  induction p generalizing X X' with
  | pure a => exact (hY.trans hp).trans hX
  | throw e => exact hp
  | step u n ih =>
    intro s hs hgoals
    obtain ⟨hI, hkeep, hn⟩ := hp s hs fun k hk => hgoals k (hX hk)
    exact ⟨hI, hkeep, ih s hn (Set.Subset.refl _)⟩

/-- Goals that are met stay met. -/
theorem Meets.keep {p : Async σ ε α} (hp : p.Meets I G X Y) : p.Meets I G X (X ∪ Y) := by
  induction p generalizing X with
  | pure a => exact Set.union_subset (Set.Subset.refl X) hp
  | throw e => exact hp
  | step u n ih =>
    intro s hs hgoals
    obtain ⟨hI, hkeep, hn⟩ := hp s hs hgoals
    have hX : X ⊆ {k | G k (u s)} := fun k hk => hkeep k (hgoals k hk)
    exact ⟨hI, hkeep, (ih s hn).mono (Set.Subset.refl _) (Set.union_subset_union_left Y hX)⟩

/-- Goals that are met one by one are met together. -/
theorem Meets.gather {p : Async σ ε α} (hp : p.Meets I G X ∅)
    (h : ∀ k ∈ Y, p.Meets I G X {k}) : p.Meets I G X Y := by
  induction p generalizing X with
  | pure a => exact fun k hk => h k hk (Set.mem_singleton k)
  | throw e => exact hp
  | step u n ih =>
    intro s hs hgoals
    obtain ⟨hI, hkeep, hn⟩ := hp s hs hgoals
    exact ⟨hI, hkeep, ih s hn fun k hk => (h k hk s hs hgoals).2.2⟩

theorem Meets.bind {p : Async σ ε α} {f : α → Async σ ε β} (hp : p.Meets I G X Y)
    (hf : ∀ a, (f a).Meets I G Y Z) : (p >>= f).Meets I G X Z := by
  induction p generalizing X with
  | pure a => exact (hf a).mono hp (Set.Subset.refl Z)
  | throw e => exact hp
  | step u n ih =>
    intro s hs hgoals
    obtain ⟨hI, hkeep, hn⟩ := hp s hs hgoals
    exact ⟨hI, hkeep, ih s hn⟩

/-- What is read may show that a goal is met. -/
theorem meets_read_bind {f : σ → α} {k : α → Async σ ε β}
    (h : ∀ s, I s → (∀ i ∈ X, G i s) → (k (f s)).Meets I G {i | G i s} Y) :
    (read f >>= k).Meets I G X Y :=
  fun s hs hgoals => ⟨hs, fun _ hi => hi, h s hs hgoals⟩

theorem meets_act {u : σ → σ} (h : ∀ s, I s → (∀ i ∈ X, G i s) →
    I (u s) ∧ (∀ i, G i s → G i (u s)) ∧ ∀ i ∈ Y, G i (u s)) :
    (act u : Async σ ε Unit).Meets I G X Y :=
  fun s hs hgoals => ⟨(h s hs hgoals).1, (h s hs hgoals).2.1, (h s hs hgoals).2.2⟩

end Rules

/-! ### Runs -/

/-- Alone, the program succeeds with its goals met. -/
theorem Meets.run {p : Async σ ε α} (hp : p.Meets I G X Y) {s : σ} (hs : I s)
    (hX : ∀ k ∈ X, G k s) :
    ∃ a s', p.run s = (.ok a, s') ∧ I s' ∧ ∀ k ∈ Y, G k s' := by
  induction p generalizing X s with
  | pure a => exact ⟨a, s, rfl, hs, fun k hk => hX k (hp hk)⟩
  | throw e => exact hp.elim
  | step u n ih =>
    obtain ⟨hI, -, hn⟩ := hp s hs hX
    exact ih s hn hI fun _ hk => hk

section Pools

variable {ps : List (Async σ ε Unit)}

private theorem meets_serial (h : ∀ p ∈ ps, p.Meets I G X ∅)
    (hY : ∀ k ∈ Y, k ∈ X ∨ ∃ p ∈ ps, p.Meets I G X {k}) : (serial ps).Meets I G X Y := by
  induction ps generalizing X with
  | nil =>
    intro k hk
    rcases hY k hk with hX | ⟨p, hp, -⟩
    · exact hX
    · simp at hp
  | cons p ps ih =>
    -- After the first program its goals are met besides those that were met before.
    have hfirst : p.Meets I G X {k | p.Meets I G X {k}} :=
      Meets.gather (h p List.mem_cons_self) fun k hk => hk
    refine hfirst.keep.bind fun _ => ih (fun q hq => ?_) fun k hk => ?_
    · exact (h q (List.mem_cons_of_mem p hq)).mono Set.subset_union_left (Set.Subset.refl ∅)
    · rcases hY k hk with hX | ⟨q, hq, hmeets⟩
      · exact .inl (.inl hX)
      · rcases List.mem_cons.mp hq with rfl | hq
        · exact .inl (.inr hmeets)
        · exact .inr ⟨q, hq, hmeets.mono Set.subset_union_left (Set.Subset.refl {k})⟩

/-- **Interleavings** meet what their threads meet. -/
theorem Meets.interleave (sched : List ℕ) (h : ∀ p ∈ ps, p.Meets I G X ∅)
    (hY : ∀ k ∈ Y, k ∈ X ∨ ∃ p ∈ ps, p.Meets I G X {k}) :
    (interleave sched ps).Meets I G X Y := by
  induction sched generalizing ps X with
  | nil => exact meets_serial h hY
  | cons i sched ih =>
    rw [interleave_cons]
    rcases hi : ps[i]? with _ | ⟨a⟩ | ⟨e⟩ | ⟨u, n⟩
    · exact ih h hY
    · exact ih h hY
    · exact h _ (List.mem_of_getElem? hi)
    intro s hs hgoals
    obtain ⟨hI, hkeep, hn⟩ := h _ (List.mem_of_getElem? hi) s hs hgoals
    have hX : X ⊆ {k | G k (u s)} := fun k hk => hkeep k (hgoals k hk)
    have hlt : i < ps.length := (List.getElem?_eq_some_iff.mp hi).1
    refine ⟨hI, hkeep, ih (fun p hp => ?_) fun k hk => ?_⟩
    · rcases List.mem_or_eq_of_mem_set hp with hp | rfl
      · exact (h p hp).mono hX (Set.Subset.refl ∅)
      · exact hn
    · rcases hY k hk with hk | ⟨p, hp, hmeets⟩
      · exact .inl (hX hk)
      obtain ⟨j, hj⟩ := List.mem_iff_getElem?.mp hp
      by_cases hij : i = j
      · -- The thread that meets the goal moves.
        subst hij
        obtain rfl : p = .step u n := by simpa using hj.symm.trans hi
        exact .inr ⟨n s, List.mem_set hlt (n s), (hmeets s hs hgoals).2.2⟩
      · refine .inr ⟨p, ?_, hmeets.mono hX (Set.Subset.refl {k})⟩
        exact List.mem_of_getElem? (i := j) (by rwa [List.getElem?_set_ne hij])

end Pools

end Async

end SwaptoshiService
