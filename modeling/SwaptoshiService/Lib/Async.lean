import Mathlib.Data.List.Perm.Basic
import Mathlib.Logic.Function.Basic
import Mathlib.Order.Basic

/-!
# Asynchronous programs as trees of atomic steps

`Async σ ε α` embeds an asynchronous function over a shared state `σ`: between two suspension
points it performs one atomic state change and continues with what it read. A value is a tree
with the branches `pure`, `throw` and `step`; the `do` notation sequences programs and an
exception skips the rest.

`run` executes a program alone; `runFor n` gives the state after at most `n` atomic steps,
which is the state a failure at that point leaves behind. `All Q` says that every state change
the program may ever issue satisfies `Q`, and `Keeps I` that the program maintains the invariant
`I`; frame conditions and invariants of runs are derived from these two (`Keeps.run`,
`Keeps.runFor`).
-/

namespace SwaptoshiService

/-- An asynchronous program: finished, failed, or one atomic state change away from its
continuation, which may depend on the state the step saw. -/
inductive Async (σ ε α : Type) : Type
  | pure (a : α)
  | throw (e : ε)
  | step (upd : σ → σ) (next : σ → Async σ ε α)

namespace Async

variable {σ ε α β γ : Type}

/-- Sequencing; a failed program skips its continuation. -/
protected def bind : Async σ ε α → (α → Async σ ε β) → Async σ ε β
  | .pure a, f => f a
  | .throw e, _ => .throw e
  | .step u n, f => .step u fun s => (n s).bind f

instance : Monad (Async σ ε) where
  pure := .pure
  bind := Async.bind

@[simp] theorem pure_eq (a : α) : (Pure.pure a : Async σ ε α) = .pure a := rfl

@[simp] theorem pure_bind' (a : α) (f : α → Async σ ε β) : (.pure a >>= f) = f a := rfl

@[simp] theorem throw_bind (e : ε) (f : α → Async σ ε β) :
    ((.throw e : Async σ ε α) >>= f) = .throw e := rfl

@[simp] theorem step_bind (u : σ → σ) (n : σ → Async σ ε α) (f : α → Async σ ε β) :
    (.step u n >>= f) = .step u fun s => n s >>= f := rfl

theorem bind_pure_self (p : Async σ ε α) : (p >>= .pure) = p := by
  induction p with
  | pure a => rfl
  | throw e => rfl
  | step u n ih => simp only [step_bind, ih]

theorem bind_assoc' (p : Async σ ε α) (f : α → Async σ ε β) (g : β → Async σ ε γ) :
    (p >>= f >>= g) = p >>= fun a => f a >>= g := by
  induction p with
  | pure a => rfl
  | throw e => rfl
  | step u n ih => simp only [step_bind, ih]

instance : LawfulMonad (Async σ ε) :=
  LawfulMonad.mk' _ bind_pure_self (fun _ _ => rfl) bind_assoc'

/-- Take a value out of an option, or fail. -/
def ofOption (e : ε) : Option α → Async σ ε α
  | some a => .pure a
  | none => .throw e

@[simp] theorem ofOption_some (e : ε) (a : α) :
    (ofOption e (some a) : Async σ ε α) = .pure a := rfl

@[simp] theorem ofOption_none (e : ε) : (ofOption e none : Async σ ε α) = .throw e := rfl

/-- One atomic state change. -/
def act (u : σ → σ) : Async σ ε Unit := .step u fun _ => .pure ()

/-- One atomic observation. -/
def read (f : σ → α) : Async σ ε α := .step id fun s => .pure (f s)

/-! ### Execution -/

/-- Run a program alone to its end. -/
def run : Async σ ε α → σ → Except ε α × σ
  | .pure a, s => (.ok a, s)
  | .throw e, s => (.error e, s)
  | .step u n, s => (n s).run (u s)

@[simp] theorem run_pure (a : α) (s : σ) : (.pure a : Async σ ε α).run s = (.ok a, s) := rfl

@[simp] theorem run_throw (e : ε) (s : σ) : (.throw e : Async σ ε α).run s = (.error e, s) := rfl

@[simp] theorem run_step (u : σ → σ) (n : σ → Async σ ε α) (s : σ) :
    (.step u n : Async σ ε α).run s = (n s).run (u s) := rfl

theorem run_bind (p : Async σ ε α) (f : α → Async σ ε β) (s : σ) :
    (p >>= f).run s = match p.run s with
      | (.ok a, s') => (f a).run s'
      | (.error e, s') => (.error e, s') := by
  induction p generalizing s with
  | pure a => rfl
  | throw e => rfl
  | step u n ih => simpa only [step_bind, run_step] using ih s (u s)

/-- A sequence succeeds exactly when its parts do, one after the other. -/
theorem run_bind_ok {p : Async σ ε α} {f : α → Async σ ε β} {s s' : σ} {b : β} :
    (p >>= f).run s = (.ok b, s') ↔
      ∃ a t, p.run s = (.ok a, t) ∧ (f a).run t = (.ok b, s') := by
  rw [run_bind]
  rcases hp : p.run s with ⟨_ | a, t⟩ <;> simp [and_assoc]

theorem run_ofOption_bind_ok {e : ε} {o : Option α} {f : α → Async σ ε β} {s s' : σ} {b : β} :
    (ofOption e o >>= f).run s = (.ok b, s') ↔ ∃ a, o = some a ∧ (f a).run s = (.ok b, s') := by
  cases o <;> simp

/-- The state after at most `n` atomic steps. -/
def runFor : ℕ → Async σ ε α → σ → σ
  | 0, _, s => s
  | _ + 1, .pure _, s => s
  | _ + 1, .throw _, s => s
  | k + 1, .step u n, s => runFor k (n s) (u s)

@[simp] theorem runFor_zero (p : Async σ ε α) (s : σ) : runFor 0 p s = s := by
  cases p <;> rfl

/-! ### What a program may issue -/

/-- Every state change the program may issue satisfies `Q`. -/
def All (Q : (σ → σ) → Prop) : Async σ ε α → Prop
  | .pure _ => True
  | .throw _ => True
  | .step u n => Q u ∧ ∀ s, (n s).All Q

variable {Q : (σ → σ) → Prop}

@[simp] theorem all_pure (a : α) : (.pure a : Async σ ε α).All Q := trivial

@[simp] theorem all_throw (e : ε) : (.throw e : Async σ ε α).All Q := trivial

@[simp] theorem all_step {u : σ → σ} {n : σ → Async σ ε α} :
    (.step u n : Async σ ε α).All Q ↔ Q u ∧ ∀ s, (n s).All Q := Iff.rfl

@[simp] theorem all_act {u : σ → σ} : (act u : Async σ ε Unit).All Q ↔ Q u := by
  simp [act]

theorem All.bind {p : Async σ ε α} {f : α → Async σ ε β} (hp : p.All Q)
    (hf : ∀ a, (f a).All Q) : (p >>= f).All Q := by
  induction p with
  | pure a => exact hf a
  | throw e => trivial
  | step u n ih => exact ⟨hp.1, fun s => ih s (hp.2 s)⟩

theorem all_ofOption (e : ε) (o : Option α) : (ofOption e o : Async σ ε α).All Q := by
  cases o <;> trivial

theorem All.mono {Q' : (σ → σ) → Prop} {p : Async σ ε α} (hp : p.All Q)
    (h : ∀ u, Q u → Q' u) : p.All Q' := by
  induction p with
  | pure a => trivial
  | throw e => trivial
  | step u n ih => exact ⟨h u hp.1, fun s => ih s (hp.2 s)⟩

/-! ### Invariants -/

/-- From every state satisfying `I`, each state change the program may issue leads to a state
satisfying `I`. Unlike `All`, the program may rely on `I` for what it reads. -/
def Keeps (I : σ → Prop) : Async σ ε α → Prop
  | .pure _ => True
  | .throw _ => True
  | .step u n => ∀ s, I s → I (u s) ∧ (n s).Keeps I

section Keeps

variable {I : σ → Prop}

/-- What holds everywhere is kept. -/
theorem keeps_of_forall (h : ∀ s, I s) (p : Async σ ε α) : p.Keeps I := by
  induction p with
  | pure a => trivial
  | throw e => trivial
  | step u n ih => exact fun s _ => ⟨h (u s), ih s⟩

theorem keeps_read_bind {f : σ → α} {k : α → Async σ ε β} (h : ∀ s, I s → (k (f s)).Keeps I) :
    (read f >>= k).Keeps I := fun s hs => ⟨hs, h s hs⟩

theorem Keeps.bind {p : Async σ ε α} {f : α → Async σ ε β} (hp : p.Keeps I)
    (hf : ∀ a, (f a).Keeps I) : (p >>= f).Keeps I := by
  induction p with
  | pure a => exact hf a
  | throw e => trivial
  | step u n ih => exact fun s hs => ⟨(hp s hs).1, ih s (hp s hs).2⟩

theorem All.keeps {p : Async σ ε α} (hp : p.All fun u => ∀ s, I s → I (u s)) : p.Keeps I := by
  induction p with
  | pure a => trivial
  | throw e => trivial
  | step u n ih => exact fun s hs => ⟨hp.1 s hs, ih s (hp.2 s)⟩

/-- What a program keeps holds at the end of its run. -/
theorem Keeps.run {p : Async σ ε α} (hp : p.Keeps I) {s : σ} (hs : I s) : I (p.run s).2 := by
  induction p generalizing s with
  | pure a => exact hs
  | throw e => exact hs
  | step u n ih => exact ih s (hp s hs).2 (hp s hs).1

/-- What a program keeps holds wherever it is cut off. -/
theorem Keeps.runFor {p : Async σ ε α} (hp : p.Keeps I) (k : ℕ) {s : σ} (hs : I s) :
    I (p.runFor k s) := by
  induction k generalizing p s with
  | zero => simpa using hs
  | succ k ih =>
    cases p with
    | pure a => exact hs
    | throw e => exact hs
    | step u n => exact ih (hp s hs).2 (hp s hs).1

end Keeps

/-! ### Loops -/

/-- The order in which Bluebird's `map(xs, f, { concurrency: 1 })` calls `f`: on the first element
at once, and then on the waiting ones, which are taken off the **end** of their queue. -/
def mapOrder : List α → List α
  | [] => []
  | x :: xs => x :: xs.reverse

theorem mapOrder_perm (l : List α) : (mapOrder l).Perm l := by
  cases l with
  | nil => exact .nil
  | cons x xs => exact (List.reverse_perm xs).cons x

@[simp] theorem mem_mapOrder {l : List α} {a : α} : a ∈ mapOrder l ↔ a ∈ l :=
  (mapOrder_perm l).mem_iff

theorem mapOrder_map (f : α → β) (l : List α) : mapOrder (l.map f) = (mapOrder l).map f := by
  cases l with
  | nil => rfl
  | cons x xs => rw [mapOrder, List.map_cons, mapOrder, List.map_cons, List.map_reverse]

/-- What nested loops collect does not depend on the order, up to the order. -/
theorem mapOrder_flatMap_perm (l : List α) (g : α → List β) (f : α → β → List γ) :
    ((mapOrder l).flatMap fun a => (mapOrder (g a)).flatMap (f a)).Perm
      (l.flatMap fun a => (g a).flatMap (f a)) :=
  ((mapOrder_perm l).flatMap_right _).trans
    (List.Perm.flatMap_left l fun a _ => (mapOrder_perm (g a)).flatMap_right _)

/-- Run the programs one after another, in list order. -/
def serial : List (Async σ ε Unit) → Async σ ε Unit
  | [] => .pure ()
  | p :: ps => p >>= fun _ => serial ps

@[simp] theorem serial_nil : serial ([] : List (Async σ ε Unit)) = .pure () := rfl

@[simp] theorem serial_cons (p : Async σ ε Unit) (ps : List (Async σ ε Unit)) :
    serial (p :: ps) = p >>= fun _ => serial ps := rfl

theorem Keeps.serial {I : σ → Prop} {ps : List (Async σ ε Unit)} (h : ∀ p ∈ ps, p.Keeps I) :
    (serial ps).Keeps I := by
  induction ps with
  | nil => trivial
  | cons p ps ih =>
    exact (h p List.mem_cons_self).bind fun _ => ih fun q hq => h q (List.mem_cons_of_mem _ hq)

theorem All.serial {ps : List (Async σ ε Unit)} (h : ∀ p ∈ ps, p.All Q) :
    (serial ps).All Q := by
  induction ps with
  | nil => trivial
  | cons p ps ih =>
    exact (h p List.mem_cons_self).bind fun _ => ih fun q hq => h q (List.mem_cons_of_mem _ hq)

/-! ### What a successful run achieves -/

/-- Whenever the program succeeds, the states before and after it are related. -/
def Ensures (R : σ → σ → Prop) (p : Async σ ε α) : Prop :=
  ∀ s a s', p.run s = (.ok a, s') → R s s'

section Ensures

variable {R R' R'' : σ → σ → Prop}

theorem ensures_pure (a : α) (h : ∀ s, R s s) : Ensures R (.pure a : Async σ ε α) := by
  intro s b s' hrun
  obtain rfl : s = s' := (Prod.ext_iff.mp hrun).2
  exact h s

theorem ensures_throw (e : ε) : Ensures R (.throw e : Async σ ε α) := by
  intro s a s' hrun
  simp at hrun

theorem Ensures.bind {p : Async σ ε α} {f : α → Async σ ε β} (hp : Ensures R p)
    (hf : ∀ a, Ensures R' (f a)) (h : ∀ s t u, R s t → R' t u → R'' s u) :
    Ensures R'' (p >>= f) := by
  intro s b s' hrun
  obtain ⟨a, t, hpa, hfa⟩ := run_bind_ok.mp hrun
  exact h s t s' (hp s a t hpa) (hf a t b s' hfa)

theorem Ensures.mono {p : Async σ ε α} (hp : Ensures R p) (h : ∀ s s', R s s' → R' s s') :
    Ensures R' p := fun s a s' hrun => h s s' (hp s a s' hrun)

/-- The rest of a program may use what it was read from. -/
theorem ensures_read_bind {g : σ → α} {f : α → Async σ ε β}
    (h : ∀ a, Ensures (fun s s' => g s = a → R s s') (f a)) : Ensures R (read g >>= f) :=
  fun s b s' hrun => h (g s) s b s' hrun rfl

theorem ensures_ofOption_bind {e : ε} {o : Option α} {f : α → Async σ ε β}
    (h : ∀ a, o = some a → Ensures R (f a)) : Ensures R (ofOption e o >>= f) := by
  cases o with
  | none => exact ensures_throw e
  | some a => exact h a rfl

theorem ensures_act {u : σ → σ} (h : ∀ s, R s (u s)) : Ensures R (act u : Async σ ε Unit) := by
  intro s a s' hrun
  obtain rfl : u s = s' := (Prod.ext_iff.mp hrun).2
  exact h s

/-- A loop, with a relation that is indexed by the elements done so far. -/
theorem Ensures.serial_map {ι : Type} {R : List ι → σ → σ → Prop} {f : ι → Async σ ε Unit}
    {l : List ι} (hnil : ∀ s, R [] s s)
    (hcons : ∀ i l s t u, R [i] s t → R l t u → R (i :: l) s u)
    (h : ∀ i ∈ l, Ensures (R [i]) (f i)) : Ensures (R l) (serial (l.map f)) := by
  induction l with
  | nil => exact ensures_pure () hnil
  | cons i l ih =>
    exact (h i List.mem_cons_self).bind
      (fun _ => ih fun j hj => h j (List.mem_cons_of_mem _ hj)) (hcons i l)

/-- A loop whose passes keep an invariant and may rely on it. -/
theorem Ensures.serial_map_keeps {ι : Type} {I : σ → Prop} {R : List ι → σ → σ → Prop}
    {f : ι → Async σ ε Unit} {l : List ι} (hnil : ∀ s, R [] s s)
    (hcons : ∀ i l s t u, R [i] s t → R l t u → R (i :: l) s u)
    (hk : ∀ i ∈ l, (f i).Keeps I) (h : ∀ i ∈ l, Ensures (fun s s' => I s → R [i] s s') (f i)) :
    Ensures (fun s s' => I s → R l s s') (serial (l.map f)) := by
  have hboth : Ensures (fun s s' => I s → I s' ∧ R l s s') (serial (l.map f)) := by
    refine Ensures.serial_map (R := fun l s s' => I s → I s' ∧ R l s s')
      (fun s hs => ⟨hs, hnil s⟩) (fun i l s t u hi hl hs => ?_) fun i hi s a s' hrun hs => ?_
    · obtain ⟨ht, hR⟩ := hi hs
      exact ⟨(hl ht).1, hcons i l s t u hR (hl ht).2⟩
    · refine ⟨?_, h i hi s a s' hrun hs⟩
      simpa only [hrun] using (hk i hi).run hs
  exact hboth.mono fun s s' hR hs => (hR hs).2

end Ensures

/-! ### Success -/

/-- The program runs to its end. -/
def Succeeds (p : Async σ ε α) (s : σ) : Prop := ∃ a s', p.run s = (.ok a, s')

theorem succeeds_pure_iff (a : α) (s : σ) : (Pure.pure a : Async σ ε α).Succeeds s ↔ True :=
  iff_true_intro ⟨a, s, rfl⟩

theorem succeeds_ofOption_bind_iff {e : ε} {o : Option α} {f : α → Async σ ε β} {s : σ} :
    (ofOption e o >>= f).Succeeds s ↔ ∃ a, o = some a ∧ (f a).Succeeds s := by
  cases o <;> simp [Succeeds]

/-- A loop succeeds if every pass does and keeps what the others rely on. -/
theorem succeeds_serial {I : σ → Prop} {ps : List (Async σ ε Unit)} (hk : ∀ p ∈ ps, p.Keeps I)
    (h : ∀ p ∈ ps, ∀ s, I s → p.Succeeds s) {s : σ} (hs : I s) : (serial ps).Succeeds s := by
  induction ps generalizing s with
  | nil => exact ⟨(), s, rfl⟩
  | cons p ps ih =>
    obtain ⟨⟨⟩, t, hp⟩ := h p List.mem_cons_self s hs
    have ht : I t := by simpa only [hp] using (hk p List.mem_cons_self).run hs
    obtain ⟨⟨⟩, u, hu⟩ := ih (fun q hq => hk q (List.mem_cons_of_mem _ hq))
      (fun q hq => h q (List.mem_cons_of_mem _ hq)) ht
    exact ⟨(), u, run_bind_ok.mpr ⟨(), t, hp, hu⟩⟩

/-- If a loop succeeds, every pass succeeded from a state in which what the passes keep
holds. -/
theorem Succeeds.mem_serial {I : σ → Prop} {ps : List (Async σ ε Unit)}
    (hk : ∀ p ∈ ps, p.Keeps I) {s : σ} (h : (serial ps).Succeeds s) (hs : I s) :
    ∀ p ∈ ps, ∃ t, I t ∧ p.Succeeds t := by
  induction ps generalizing s with
  | nil => simp
  | cons p ps ih =>
    obtain ⟨⟨⟩, u, hu⟩ := h
    obtain ⟨⟨⟩, t, hp, ht⟩ := run_bind_ok.mp hu
    have hI : I t := by simpa only [hp] using (hk p List.mem_cons_self).run hs
    refine List.forall_mem_cons.mpr ⟨⟨s, hs, (), t, hp⟩, ?_⟩
    exact ih (fun q hq => hk q (List.mem_cons_of_mem _ hq)) ⟨(), u, ht⟩ hI

end Async

end SwaptoshiService
