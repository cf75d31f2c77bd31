import Mathlib.Data.List.Perm.Basic
import Mathlib.Data.List.Forall2
import SwaptoshiService.Lib.Effect

/-!
# What concurrent programs do to one row

A row is looked at through an observation `obs`, one column for instance. `Does obs L p`: whatever
the program reads on its way, by the time it succeeds the open transaction has made one of the
lists `L` of changes to what is observed of the row, and nothing was committed there (`Does.run`).
`DoesWhile I obs L p` says so for what the program reads in states with `I`. Programs that run
concurrently each make one of their lists, and the row is changed by all of them in **some** order
(`does_interleave`).
-/

namespace SwaptoshiService

/-- Changes made one after the other. -/
def replay {O : Type} (l : List (O → O)) (o : O) : O := l.foldl (fun o g => g o) o

section Replay

variable {O : Type}

@[simp] theorem replay_nil (o : O) : replay [] o = o := rfl

@[simp] theorem replay_cons (g : O → O) (l : List (O → O)) (o : O) :
    replay (g :: l) o = replay l (g o) := rfl

theorem replay_append (l l' : List (O → O)) (o : O) :
    replay (l ++ l') o = replay l' (replay l o) := by
  rw [replay, replay, replay, List.foldl_append]

end Replay

namespace Session

variable {κ : Type} {ρ : κ → Type} {c : κ} {O : Type} {obs : Option (ρ c) → O} {ε α β : Type}

/-- Nothing is committed under `c`, and the open transaction does `g` to what is observed of the
row there. -/
def Moves (obs : Option (ρ c) → O) (g : O → O) (w w' : Session κ ρ) : Prop :=
  w'.committed.get c = w.committed.get c ∧
    ∀ o, obs (w'.pending.act c o) = g (obs (w.pending.act c o))

theorem Moves.append {l l' : List (O → O)} {w v w' : Session κ ρ}
    (h : Moves obs (replay l) w v) (h' : Moves obs (replay l') v w') :
    Moves obs (replay (l ++ l')) w w' := by
  refine ⟨h'.1.trans h.1, fun o => ?_⟩
  rw [h'.2, h.2, replay_append]

theorem moves_nil (w : Session κ ρ) : Moves obs (replay []) w w := ⟨rfl, fun _ => rfl⟩

theorem SameAt.moves {w w' : Session κ ρ} (h : SameAt c w w') : Moves obs (replay []) w w' :=
  ⟨h.1, fun o => congrArg obs (h.2 o)⟩

/-- What the transaction shows of the row afterwards. -/
theorem Moves.view [DecidableEq κ] {g : O → O} {w w' : Session κ ρ} (h : Moves obs g w w') :
    obs ((w'.view .dbTrx).get c) = g (obs ((w.view .dbTrx).get c)) := by
  change obs (w'.pending.act c (w'.committed.get c)) =
    g (obs (w.pending.act c (w.committed.get c)))
  rw [h.1, h.2]

/-- On every path to its end that the states with `I` allow, the program makes one of the lists of
changes. -/
def DoesWhile (I : Session κ ρ → Prop) (obs : Option (ρ c) → O) :
    (List (O → O) → Prop) → Async (Session κ ρ) ε α → Prop
  | L, .pure _ => L []
  | _, .throw _ => True
  | L, .step u n => ∃ l, (∀ w, Moves obs (replay l) w (u w)) ∧
      ∀ w, I w → DoesWhile I obs (fun l' => L (l ++ l')) (n w)

/-- On every path to its end the program makes one of the lists of changes. -/
abbrev Does (obs : Option (ρ c) → O) :
    (List (O → O) → Prop) → Async (Session κ ρ) ε α → Prop := DoesWhile (fun _ => True) obs

variable {I I' : Session κ ρ → Prop} {L L' : List (O → O) → Prop}

/-! ### Rules -/

section Rules

theorem DoesWhile.mono {p : Async (Session κ ρ) ε α} (hp : DoesWhile I obs L p)
    (h : ∀ l, L l → L' l) : DoesWhile I obs L' p := by
  induction p generalizing L L' with
  | pure a => exact h [] hp
  | throw e => trivial
  | step u n ih =>
    obtain ⟨l, hu, hn⟩ := hp
    exact ⟨l, hu, fun w hw => ih w (hn w hw) fun l' => h (l ++ l')⟩

/-- Fewer states may be read. -/
theorem DoesWhile.weaken {p : Async (Session κ ρ) ε α} (hp : DoesWhile I obs L p)
    (h : ∀ w, I' w → I w) : DoesWhile I' obs L p := by
  induction p generalizing L with
  | pure a => exact hp
  | throw e => trivial
  | step u n ih =>
    obtain ⟨l, hu, hn⟩ := hp
    exact ⟨l, hu, fun w hw => ih w (hn w (h w hw))⟩

theorem DoesWhile.bind {p : Async (Session κ ρ) ε α} {f : α → Async (Session κ ρ) ε β}
    (hp : DoesWhile I obs L p) (hf : ∀ a l, L l → DoesWhile I obs (fun l' => L' (l ++ l')) (f a)) :
    DoesWhile I obs L' (p >>= f) := by
  induction p generalizing L L' with
  | pure a => exact hf a [] hp
  | throw e => trivial
  | step u n ih =>
    obtain ⟨l, hu, hn⟩ := hp
    refine ⟨l, hu, fun w hw => ih w (hn w hw) fun a l' hl' => ?_⟩
    exact (hf a (l ++ l') hl').mono fun l'' h => by rwa [← List.append_assoc]

theorem does_ofOption_bind {e : ε} {o : Option α} {f : α → Async (Session κ ρ) ε β}
    (h : ∀ a, o = some a → DoesWhile I obs L (f a)) :
    DoesWhile I obs L (Async.ofOption e o >>= f) := by
  cases o with
  | none => trivial
  | some a => exact h a rfl

variable [DecidableEq κ]

/-- A query that is answered in a state with `I`. -/
theorem doesWhile_query_bind {conn : Conn} {q : Store κ ρ → α}
    {f : α → Async (Session κ ρ) ε β}
    (h : ∀ w, I w → DoesWhile I obs L (f (q (w.view conn)))) :
    DoesWhile I obs L (query conn q >>= f) := ⟨[], moves_nil, h⟩

/-- A statement that changes what is observed. -/
theorem does_exec {st : Write κ ρ} {g : O → O} (hst : ∀ o, obs (st.act c o) = g (obs o))
    (h : L [g]) : DoesWhile I obs L (exec .dbTrx st : Async (Session κ ρ) ε Unit) :=
  ⟨[g], fun _ => ⟨rfl, fun _ => hst _⟩, fun _ _ => h⟩

/-- A statement on the row itself. -/
theorem does_point {f : Option (ρ c) → Option (ρ c)} {g : O → O} (hf : ∀ o, obs (f o) = g (obs o))
    (h : L [g]) : DoesWhile I obs L (exec .dbTrx (.point c f) : Async (Session κ ρ) ε Unit) :=
  does_exec (fun o => by rw [Write.point_act_self, hf]) h

/-- A statement on other columns of the row. -/
theorem does_point_unobserved {f : Option (ρ c) → Option (ρ c)} (hf : ∀ o, obs (f o) = obs o)
    (h : L []) : DoesWhile I obs L (exec .dbTrx (.point c f) : Async (Session κ ρ) ε Unit) :=
  ⟨[], fun _ => ⟨rfl, fun _ => (congrArg obs (Write.point_act_self c f _)).trans (hf _)⟩,
    fun _ _ => h⟩

/-- A statement on one row of a table, if it is the row that is looked at. -/
theorem does_point_at {ι : Type} (cell : ι → κ) (hcell : Function.Injective cell)
    (obs : (i : ι) → Option (ρ (cell i)) → O) {i j : ι} [Decidable (j = i)]
    {f : Option (ρ (cell j)) → Option (ρ (cell j))} {g : O → O}
    (hf : ∀ o, obs j (f o) = g (obs j o)) :
    DoesWhile I (obs i) (fun l => l = if j = i then [g] else [])
      (exec .dbTrx (.point (cell j) f) : Async (Session κ ρ) ε Unit) := by
  by_cases h : j = i
  · subst h
    exact does_point (g := g) hf (if_pos rfl).symm
  · have hfix : (Write.point (cell j) f : Write κ ρ).Fixes (cell i) :=
      Write.point_fixes (fun heq => h (hcell heq).symm) f
    exact ⟨[], fun w => (sameAt_send hfix w).moves, fun _ _ => (if_neg h).symm⟩

/-- What leaves the row alone does nothing to it. -/
theorem Confined.does {P : Conn → Write κ ρ → Prop} {p : Async (Session κ ρ) ε α}
    (hp : Confined P p) (hP : ∀ conn st, P conn st → st.Fixes c) (h : L []) :
    DoesWhile I obs L p := by
  induction p generalizing L with
  | pure a => exact h
  | throw e => trivial
  | step u n ih =>
    refine ⟨[], fun w => ?_, fun w _ => ih w (hp.2 w) h⟩
    rcases hp.1 with rfl | ⟨conn, st, hst, rfl⟩
    · exact moves_nil w
    · exact (sameAt_send (hP conn st hst) w).moves

/-- A part that leaves the row alone in front of the rest. -/
theorem Confined.does_bind {P : Conn → Write κ ρ → Prop} {p : Async (Session κ ρ) ε α}
    {f : α → Async (Session κ ρ) ε β} (hp : Confined P p)
    (hP : ∀ conn st, P conn st → st.Fixes c) (hf : ∀ a, DoesWhile I obs L (f a)) :
    DoesWhile I obs L (p >>= f) := by
  refine DoesWhile.bind (L := fun l => l = []) (hp.does hP rfl) ?_
  rintro a l rfl
  exact hf a

/-- A part that leaves the row alone behind the rest. -/
theorem DoesWhile.bind_confined {P : Conn → Write κ ρ → Prop} {p : Async (Session κ ρ) ε α}
    {f : α → Async (Session κ ρ) ε β} (hp : DoesWhile I obs L p) (hf : ∀ a, Confined P (f a))
    (hP : ∀ conn st, P conn st → st.Fixes c) : DoesWhile I obs L (p >>= f) := by
  refine hp.bind fun a l hl => (hf a).does hP ?_
  rwa [List.append_nil]

end Rules

/-! ### Runs -/

/-- Alone, the program makes one of its lists. -/
theorem DoesWhile.run {p : Async (Session κ ρ) ε α} (hp : DoesWhile I obs L p) (hI : p.Keeps I)
    {w w' : Session κ ρ} {a : α} (hw : I w) (hrun : p.run w = (.ok a, w')) :
    ∃ l, L l ∧ Moves obs (replay l) w w' := by
  induction p generalizing L w with
  | pure b =>
    obtain rfl : w = w' := (Prod.ext_iff.mp hrun).2
    exact ⟨[], hp, moves_nil w⟩
  | throw e => simp at hrun
  | step u n ih =>
    obtain ⟨l, hu, hn⟩ := hp
    obtain ⟨hw', hI'⟩ := hI w hw
    obtain ⟨l', hl', hmoves⟩ := ih w (hn w hw) hI' hw' hrun
    exact ⟨l ++ l', hl', (hu w).append hmoves⟩

theorem Does.run {p : Async (Session κ ρ) ε α} (hp : Does obs L p) {w w' : Session κ ρ} {a : α}
    (hrun : p.run w = (.ok a, w')) : ∃ l, L l ∧ Moves obs (replay l) w w' :=
  DoesWhile.run hp (Async.keeps_of_forall (fun _ => trivial) p) trivial hrun

section Pools

variable {ps : List (Async (Session κ ρ) ε Unit)} {Ls : List (List (O → O) → Prop)}

/-- The programs make these changes, one program after the other. -/
def InTurn (Ls : List (List (O → O) → Prop)) (l : List (O → O)) : Prop :=
  ∃ ls, List.Forall₂ (fun L l => L l) Ls ls ∧ l = ls.flatten

/-- The programs make these changes, in some order. -/
def Shuffled (Ls : List (List (O → O) → Prop)) (l : List (O → O)) : Prop :=
  ∃ ls, List.Forall₂ (fun L l => L l) Ls ls ∧ l.Perm ls.flatten

theorem InTurn.cons {l l' : List (O → O)} (h : L l) (h' : InTurn Ls l') :
    InTurn (L :: Ls) (l ++ l') := by
  obtain ⟨ls, hls, rfl⟩ := h'
  exact ⟨l :: ls, .cons h hls, rfl⟩

/-- Each program makes some changes. -/
theorem InTurn.exists_of_mem {α : Type} {L : α → List (O → O) → Prop} {as : List α}
    {l : List (O → O)} (h : InTurn (as.map L) l) {a : α} (ha : a ∈ as) : ∃ l', L a l' := by
  obtain ⟨ls, hls, -⟩ := h
  obtain ⟨i, hi, rfl⟩ := List.mem_iff_getElem.mp ha
  have hlength := hls.length_eq
  rw [List.length_map] at hlength
  have hget := hls.get (by simpa using hi) (hlength ▸ hi)
  exact ⟨_, by simpa using hget⟩

theorem InTurn.shuffled {l : List (O → O)} (h : InTurn Ls l) : Shuffled Ls l := by
  obtain ⟨ls, hls, rfl⟩ := h
  exact ⟨ls, hls, .refl _⟩

private theorem forall₂_eq_map {α : Type} {f : α → List (O → O)} {as : List α}
    {ls : List (List (O → O))} :
    List.Forall₂ (fun L l => L l) (as.map fun a l => l = f a) ls ↔ ls = as.map f := by
  induction as generalizing ls with
  | nil => simp
  | cons a as ih =>
    rw [List.map_cons, List.map_cons, List.forall₂_cons_left_iff]
    constructor
    · rintro ⟨l, ls', rfl, hls', rfl⟩
      rw [ih.mp hls']
    · rintro rfl
      exact ⟨f a, as.map f, rfl, ih.mpr rfl, rfl⟩

/-- Programs that each make a fixed list of changes. -/
theorem inTurn_map {α : Type} {f : α → List (O → O)} {as : List α} {l : List (O → O)} :
    InTurn (as.map fun a l => l = f a) l ↔ l = as.flatMap f := by
  simp only [InTurn, forall₂_eq_map, exists_eq_left, List.flatMap_def]

theorem shuffled_map {α : Type} {f : α → List (O → O)} {as : List α} {l : List (O → O)} :
    Shuffled (as.map fun a l => l = f a) l ↔ l.Perm (as.flatMap f) := by
  simp only [Shuffled, forall₂_eq_map, exists_eq_left, List.flatMap_def]

/-- Programs that each make a fixed list of changes in some order. -/
theorem InTurn.perm {α : Type} {f : α → List (O → O)} {as : List α} {l : List (O → O)}
    (h : InTurn (as.map fun a l => l.Perm (f a)) l) : l.Perm (as.flatMap f) := by
  induction as generalizing l with
  | nil =>
    obtain ⟨_, ⟨⟩, rfl⟩ := h
    exact .refl _
  | cons a as ih =>
    obtain ⟨_, ⟨⟩ | ⟨hl, hls⟩, rfl⟩ := h
    rw [List.flatten_cons, List.flatMap_cons]
    exact hl.append (ih ⟨_, hls, rfl⟩)

/-- One program after the other. -/
theorem does_serial (h : List.Forall₂ (fun p L => DoesWhile I obs L p) ps Ls) :
    DoesWhile I obs (InTurn Ls) (Async.serial ps) := by
  induction h with
  | nil => exact ⟨[], .nil, rfl⟩
  | cons hp _ ih => exact hp.bind fun _ l hl => ih.mono fun l' hl' => InTurn.cons hl hl'

/-- A thread of a pool makes its next step. -/
private theorem forall₂_advance (h : List.Forall₂ (fun p L => DoesWhile I obs L p) ps Ls)
    {i : ℕ} {u : Session κ ρ → Session κ ρ} {n : Session κ ρ → Async (Session κ ρ) ε Unit}
    (hi : ps[i]? = some (.step u n)) :
    ∃ l Ls', (∀ w, Moves obs (replay l) w (u w)) ∧
      (∀ w, I w → List.Forall₂ (fun p L => DoesWhile I obs L p) (ps.set i (n w)) Ls') ∧
      ∀ l', Shuffled Ls' l' → Shuffled Ls (l ++ l') := by
  induction h generalizing i with
  | nil => simp at hi
  | @cons p L ps Ls hp hps ih =>
    cases i with
    | zero =>
      obtain rfl : p = .step u n := by simpa using hi
      obtain ⟨l, hu, hn⟩ := hp
      refine ⟨l, (fun l' => L (l ++ l')) :: Ls, hu, fun w hw => .cons (hn w hw) hps, ?_⟩
      rintro l' ⟨_, ⟨⟩ | ⟨hl', hls⟩, hperm⟩
      rename_i l' ls
      refine ⟨(l ++ l') :: ls, .cons hl' hls, ?_⟩
      simpa using hperm.append_left l
    | succ i =>
      obtain ⟨l, Ls', hu, hps', hback⟩ := ih (by simpa using hi)
      refine ⟨l, L :: Ls', hu, fun w hw => .cons hp (hps' w hw), ?_⟩
      rintro m ⟨_, ⟨⟩ | ⟨hl', hls'⟩, hm⟩
      rename_i l' ls'
      obtain ⟨ls, hls, hperm⟩ := hback ls'.flatten ⟨ls', hls', .refl _⟩
      refine ⟨l' :: ls, .cons hl' hls, ?_⟩
      have hswap : (l ++ (l' ++ ls'.flatten)).Perm (l' ++ (l ++ ls'.flatten)) := by
        rw [← List.append_assoc, ← List.append_assoc]
        exact List.perm_append_comm.append_right _
      simpa using ((hm.append_left l).trans hswap).trans (hperm.append_left l')

/-- **Every interleaving** makes the changes of all programs, in some order. -/
theorem does_interleave (h : List.Forall₂ (fun p L => DoesWhile I obs L p) ps Ls) (sched : List ℕ) :
    DoesWhile I obs (Shuffled Ls) (Async.interleave sched ps) := by
  induction sched generalizing ps Ls with
  | nil => exact (does_serial h).mono fun _ hl => hl.shuffled
  | cons i sched ih =>
    rw [Async.interleave_cons]
    rcases hi : ps[i]? with _ | ⟨⟨⟩⟩ | ⟨e⟩ | ⟨u, n⟩
    · exact ih h
    · exact ih h
    · trivial
    · obtain ⟨l, Ls', hu, hps', hback⟩ := forall₂_advance h hi
      exact ⟨l, hu, fun w hw => (ih (hps' w hw)).mono hback⟩

end Pools

end Session

end SwaptoshiService
