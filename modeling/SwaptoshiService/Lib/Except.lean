import Mathlib.Tactic.Common

/-!
# Computations that succeed

What computations in `Except` have done when their result is `.ok`: a sequence has succeeded at each
of its steps (`bind_eq_ok_iff`), a traversal at each element (`mapM_eq_ok`).
-/

namespace SwaptoshiService

variable {ε α β : Type}

theorem ok_bind (a : α) (f : α → Except ε β) : (.ok a : Except ε α) >>= f = f a := rfl

theorem bind_eq_ok_iff {x : Except ε α} {f : α → Except ε β} {b : β} :
    x >>= f = .ok b ↔ ∃ a, x = .ok a ∧ f a = .ok b := by
  cases x with
  | error e => simp [bind, Except.bind]
  | ok a => simp [bind, Except.bind]

theorem map_eq_ok_iff {x : Except ε α} {f : α → β} {b : β} :
    x.map f = .ok b ↔ ∃ a, x = .ok a ∧ f a = b := by
  cases x with
  | error e => simp [Except.map]
  | ok a => simp [Except.map]

theorem pure_eq_ok_iff {a b : α} : (pure a : Except ε α) = .ok b ↔ a = b := by
  simp [pure, Except.pure]

/-- A traversal that succeeds has the results of the elements and no others. -/
theorem mapM_eq_ok {f : α → Except ε β} {l : List α} {l' : List β} (h : l.mapM f = .ok l') :
    (∀ x ∈ l, ∃ y ∈ l', f x = .ok y) ∧ ∀ y ∈ l', ∃ x ∈ l, f x = .ok y := by
  induction l generalizing l' with
  | nil =>
    obtain rfl := Except.ok.inj h
    simp
  | cons x l ih =>
    rw [List.mapM_cons] at h
    obtain ⟨y, hx, h⟩ := bind_eq_ok_iff.mp h
    obtain ⟨ys, hl, h⟩ := bind_eq_ok_iff.mp h
    obtain rfl := pure_eq_ok_iff.mp h
    obtain ⟨hfwd, hbwd⟩ := ih hl
    refine ⟨fun x' hx' => ?_, fun y' hy' => ?_⟩
    · rcases List.mem_cons.mp hx' with rfl | hx'
      · exact ⟨y, List.mem_cons_self, hx⟩
      · obtain ⟨y', hy', hfy⟩ := hfwd x' hx'
        exact ⟨y', List.mem_cons_of_mem _ hy', hfy⟩
    · rcases List.mem_cons.mp hy' with rfl | hy'
      · exact ⟨x, List.mem_cons_self, hx⟩
      · obtain ⟨x', hx', hfx⟩ := hbwd y' hy'
        exact ⟨x', List.mem_cons_of_mem _ hx', hfx⟩

/-- The results of a traversal that succeeds, all together. -/
theorem flatten_of_mapM_eq_ok {f : α → Except ε (List β)} {l : List α} {l' : List (List β)}
    (h : l.mapM f = .ok l') : l'.flatten = l.flatMap fun x => (f x).toOption.getD [] := by
  induction l generalizing l' with
  | nil =>
    obtain rfl := Except.ok.inj h
    rfl
  | cons x l ih =>
    rw [List.mapM_cons] at h
    obtain ⟨y, hx, h⟩ := bind_eq_ok_iff.mp h
    obtain ⟨ys, hl, h⟩ := bind_eq_ok_iff.mp h
    obtain rfl := pure_eq_ok_iff.mp h
    rw [List.flatten_cons, List.flatMap_cons, ih hl, hx]
    rfl

/-- A traversal whose steps all succeed. -/
theorem mapM_eq_ok_map {f : α → Except ε β} {g : α → β} {l : List α}
    (h : ∀ x ∈ l, f x = .ok (g x)) : l.mapM f = .ok (l.map g) := by
  induction l with
  | nil => rfl
  | cons x l ih =>
    rw [List.forall_mem_cons] at h
    rw [List.mapM_cons, h.1, ih h.2]
    rfl

/-- What the steps of a traversal yield, seen through `view`. -/
theorem exists_mapM_eq_ok_flatten {γ : Type} {f : α → Except ε (List β)} {g : α → List γ}
    {view : β → γ} {l : List α} (h : ∀ x ∈ l, ∃ ys, f x = .ok ys ∧ ys.map view = g x) :
    ∃ yss, l.mapM f = .ok yss ∧ yss.flatten.map view = l.flatMap g := by
  induction l with
  | nil => exact ⟨[], rfl, rfl⟩
  | cons x l ih =>
    rw [List.forall_mem_cons] at h
    obtain ⟨⟨ys, hys, hview⟩, hl⟩ := h
    obtain ⟨yss, hyss, hviews⟩ := ih hl
    refine ⟨ys :: yss, ?_, ?_⟩
    · rw [List.mapM_cons, hys, hyss]
      rfl
    · rw [List.flatten_cons, List.map_append, hview, hviews, List.flatMap_cons]

theorem exists_mapM_eq_ok {f : α → Except ε β} {l : List α} (h : ∀ x ∈ l, ∃ y, f x = .ok y) :
    ∃ l', l.mapM f = .ok l' := by
  induction l with
  | nil => exact ⟨[], rfl⟩
  | cons x l ih =>
    obtain ⟨y, hy⟩ := h x List.mem_cons_self
    obtain ⟨ys, hys⟩ := ih fun x' hx' => h x' (List.mem_cons_of_mem _ hx')
    exact ⟨y :: ys, by rw [List.mapM_cons, hy, hys]; rfl⟩

end SwaptoshiService
