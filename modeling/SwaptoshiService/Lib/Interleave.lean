import SwaptoshiService.Lib.Async

/-!
# Interleavings of asynchronous programs

`interleave sched ps` runs the programs `ps` concurrently: each entry of the schedule lets one
of them make one atomic step, and once the schedule is used up the rest runs in list order.
Every complete interleaving is obtained from some schedule. The first program that is found to
have failed makes the whole fail.

Two results carry the concurrency arguments:

* `run_interleave_eq_serial` — if the programs are pairwise `Independent` (their atomic steps
  commute and none changes what another reads), every interleaving succeeds exactly when the
  serial execution does, with the same final state;
* `All.interleave` — an interleaving issues no state change its threads do not issue.
-/

namespace SwaptoshiService

namespace Async

variable {σ ε α β : Type}

/-- Let the scheduled programs take turns, one atomic step at a time. -/
def interleave : List ℕ → List (Async σ ε Unit) → Async σ ε Unit
  | [], ps => serial ps
  | i :: sched, ps =>
    match ps[i]? with
    | some (.step u n) => .step u fun s => interleave sched (ps.set i (n s))
    | some (.throw e) => .throw e
    | _ => interleave sched ps

@[simp] theorem interleave_nil (ps : List (Async σ ε Unit)) :
    interleave [] ps = serial ps := rfl

theorem interleave_cons (i : ℕ) (sched : List ℕ) (ps : List (Async σ ε Unit)) :
    interleave (i :: sched) ps = match ps[i]? with
      | some (.step u n) => .step u fun s => interleave sched (ps.set i (n s))
      | some (.throw e) => .throw e
      | _ => interleave sched ps := rfl

variable {Q : (σ → σ) → Prop}

/-- An interleaving issues only what its threads issue. -/
theorem All.interleave {sched : List ℕ} {ps : List (Async σ ε Unit)} (h : ∀ p ∈ ps, p.All Q) :
    (interleave sched ps).All Q := by
  induction sched generalizing ps with
  | nil => exact All.serial h
  | cons i sched ih =>
    rw [interleave_cons]
    rcases hi : ps[i]? with _ | ⟨a⟩ | ⟨e⟩ | ⟨u, n⟩
    · exact ih h
    · exact ih h
    · trivial
    · have hp := h _ (List.mem_of_getElem? hi)
      refine ⟨hp.1, fun s => ih fun q hq => ?_⟩
      rcases List.mem_or_eq_of_mem_set hq with hq | rfl
      · exact h q hq
      · exact hp.2 s

/-- An interleaving keeps what all its threads keep. -/
theorem Keeps.interleave {I : σ → Prop} {sched : List ℕ} {ps : List (Async σ ε Unit)}
    (h : ∀ p ∈ ps, p.Keeps I) : (interleave sched ps).Keeps I := by
  induction sched generalizing ps with
  | nil => exact Keeps.serial h
  | cons i sched ih =>
    rw [interleave_cons]
    rcases hi : ps[i]? with _ | ⟨a⟩ | ⟨e⟩ | ⟨u, n⟩
    · exact ih h
    · exact ih h
    · trivial
    · have hp := h _ (List.mem_of_getElem? hi)
      refine fun s hs => ⟨(hp s hs).1, ih fun q hq => ?_⟩
      rcases List.mem_or_eq_of_mem_set hq with hq | rfl
      · exact h q hq
      · exact (hp s hs).2

/-! ### The atomic steps of a program -/

/-- `Node p u n`: somewhere in `p` the atomic step `u` continues with `n`. -/
inductive Node : Async σ ε α → (σ → σ) → (σ → Async σ ε α) → Prop
  | here {u : σ → σ} {n : σ → Async σ ε α} : Node (.step u n) u n
  | there {u : σ → σ} {n : σ → Async σ ε α} {v : σ → σ} {m : σ → Async σ ε α} (s : σ) :
      Node (n s) v m → Node (.step u n) v m

/-- Two programs are **independent** when every atomic step of one commutes with every atomic
step of the other and changes nothing the other reads. -/
def Independent (p : Async σ ε α) (q : Async σ ε β) : Prop :=
  ∀ u n v m, Node p u n → Node q v m →
    ∀ s, u (v s) = v (u s) ∧ n (v s) = n s ∧ m (u s) = m s

theorem Independent.symm {p : Async σ ε α} {q : Async σ ε β} (h : Independent p q) :
    Independent q p := fun u n v m hu hv s =>
  have := h v m u n hv hu s
  ⟨this.1.symm, this.2.2, this.2.1⟩

theorem Independent.next_left {u : σ → σ} {n : σ → Async σ ε α} {q : Async σ ε β}
    (h : Independent (.step u n) q) (s : σ) : Independent (n s) q :=
  fun v m v' m' hv hv' => h v m v' m' (.there s hv) hv'

theorem Independent.next_right {p : Async σ ε α} {u : σ → σ} {n : σ → Async σ ε β}
    (h : Independent p (.step u n)) (s : σ) : Independent p (n s) :=
  (h.symm.next_left s).symm

/-- A whole run commutes with a single step of an independent program, and does not change
what that step reads. -/
theorem Independent.run_step_comm {p : Async σ ε α} {u : σ → σ} {n : σ → Async σ ε β}
    (h : Independent p (.step u n)) (s : σ) :
    p.run (u s) = ((p.run s).1, u (p.run s).2) ∧ n (p.run s).2 = n s := by
  induction p generalizing s with
  | pure a => exact ⟨rfl, rfl⟩
  | throw e => exact ⟨rfl, rfl⟩
  | step v m ih =>
    have hvu := h v m u n .here .here s
    obtain ⟨hrun, hread⟩ := ih s (h.next_left s) (v s)
    have hn : n (v s) = n s := hvu.2.2
    simp only [run_step]
    refine ⟨?_, hread.trans hn⟩
    rw [hvu.2.1, hvu.1, hrun]

/-- The threads of a pool are independent of each other. -/
def PairwiseIndependent (ps : List (Async σ ε Unit)) : Prop := ps.Pairwise Independent

theorem PairwiseIndependent.advance {ps : List (Async σ ε Unit)} {i : ℕ} {u : σ → σ}
    {n : σ → Async σ ε Unit} (h : PairwiseIndependent ps) (hi : ps[i]? = some (.step u n))
    (s : σ) : PairwiseIndependent (ps.set i (n s)) := by
  induction ps generalizing i with
  | nil => simp at hi
  | cons p ps ih =>
    obtain ⟨hp, hps⟩ := List.pairwise_cons.mp h
    cases i with
    | zero =>
      obtain rfl : p = .step u n := by simpa using hi
      exact List.pairwise_cons.mpr ⟨fun q hq => (hp q hq).next_left s, hps⟩
    | succ i =>
      have hi' : ps[i]? = some (.step u n) := by simpa using hi
      refine List.pairwise_cons.mpr ⟨fun q hq => ?_, ih hps hi'⟩
      rcases List.mem_or_eq_of_mem_set hq with hq | rfl
      · exact hp q hq
      · exact (hp _ (List.mem_of_getElem? hi')).next_right s

/-- In a pool of independent threads the next step of any thread can be made first. -/
theorem PairwiseIndependent.run_serial_advance {ps : List (Async σ ε Unit)} {i : ℕ}
    {u : σ → σ} {n : σ → Async σ ε Unit} (h : PairwiseIndependent ps)
    (hi : ps[i]? = some (.step u n)) (s s' : σ) :
    (serial ps).run s = (.ok (), s') ↔ (serial (ps.set i (n s))).run (u s) = (.ok (), s') := by
  induction ps generalizing i s with
  | nil => simp at hi
  | cons p ps ih =>
    obtain ⟨hp, hps⟩ := List.pairwise_cons.mp h
    cases i with
    | zero =>
      obtain rfl : p = .step u n := by simpa using hi
      rfl
    | succ i =>
      have hi' : ps[i]? = some (.step u n) := by simpa using hi
      obtain ⟨hrun, hread⟩ := (hp _ (List.mem_of_getElem? hi')).run_step_comm s
      simp only [List.set_cons_succ, serial_cons, run_bind_ok, hrun]
      rcases hps' : p.run s with ⟨_ | ⟨⟨⟩⟩, t⟩
      · simp
      · simp only [hps'] at hread
        simpa [and_assoc, hread] using ih hps hi' t

/-- A pool with a failed thread does not succeed. -/
theorem serial_fails {ps : List (Async σ ε Unit)} {e : ε} (he : .throw e ∈ ps) (s s' : σ) :
    ¬ (serial ps).run s = (.ok (), s') := by
  induction ps generalizing s with
  | nil => simp at he
  | cons p ps ih =>
    rw [serial_cons, run_bind_ok]
    rintro ⟨⟨⟩, t, hp, ht⟩
    rcases List.mem_cons.mp he with rfl | he
    · simp at hp
    · exact ih he t ht

/-- **Independent threads interleave as if run serially.** -/
theorem run_interleave_eq_serial {ps : List (Async σ ε Unit)} (h : PairwiseIndependent ps)
    (sched : List ℕ) (s s' : σ) :
    (interleave sched ps).run s = (.ok (), s') ↔ (serial ps).run s = (.ok (), s') := by
  induction sched generalizing ps s with
  | nil => rfl
  | cons i sched ih =>
    rw [interleave_cons]
    rcases hi : ps[i]? with _ | ⟨⟨⟩⟩ | ⟨e⟩ | ⟨u, n⟩
    · exact ih h s
    · exact ih h s
    · refine iff_of_false (by simp) ?_
      exact serial_fails (List.mem_of_getElem? hi) s s'
    · rw [h.run_serial_advance hi, run_step]
      exact ih (h.advance hi s) (u s)

end Async

end SwaptoshiService
