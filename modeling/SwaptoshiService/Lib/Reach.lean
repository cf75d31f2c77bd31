import SwaptoshiService.Lib.Interleave

/-!
# What every interleaving reaches

Threads that write a shared row leave the value of the one that comes last. The rules here say
what is certain nevertheless, and what is not:

* `run_interleave_reaches` — if all threads are `Stable` (they fail only in the listed ways, keep
  the invariant, and do not spoil the goal once it is met) and one of them `Reaches` the goal on
  its way, the goal holds at the end of **every** interleaving that succeeds;
* `exists_run_last` — if the threads cannot fail, every one of them can be made to come last:
  **some** interleaving ends as if the others had finished before it started
  (`exists_run_last_of_succeeds` asks only that no order fails).
-/

namespace SwaptoshiService

namespace Async

variable {σ ε α β : Type}

/-- From states satisfying `I` the program fails only in ways listed by `E`, keeps `I`, and keeps
`Q` where it holds. -/
def Stable (E : ε → Prop) (I Q : σ → Prop) : Async σ ε α → Prop
  | .pure _ => True
  | .throw e => E e
  | .step u n => ∀ s, I s → I (u s) ∧ (Q s → Q (u s)) ∧ (n s).Stable E I Q

/-- From states satisfying `I` the program does not succeed without having made `Q` true by a
step of its own. -/
def Reaches (I Q : σ → Prop) : Async σ ε α → Prop
  | .pure _ => False
  | .throw _ => True
  | .step u n => ∀ s, I s → Q (u s) ∨ (n s).Reaches I Q

/-- No failure at all. -/
def NoFailure (_ : ε) : Prop := False

/-- Any failure. -/
def AnyFailure (_ : ε) : Prop := True

section Rules

variable {E : ε → Prop} {I Q : σ → Prop}

theorem stable_pure (a : α) : (Pure.pure a : Async σ ε α).Stable E I Q := trivial

theorem Stable.bind {p : Async σ ε α} {f : α → Async σ ε β} (hp : p.Stable E I Q)
    (hf : ∀ a, (f a).Stable E I Q) : (p >>= f).Stable E I Q := by
  induction p with
  | pure a => exact hf a
  | throw e => exact hp
  | step u n ih => exact fun s hs => ⟨(hp s hs).1, (hp s hs).2.1, ih s (hp s hs).2.2⟩

theorem stable_act {u : σ → σ} (h : ∀ s, I s → I (u s) ∧ (Q s → Q (u s))) :
    (act u : Async σ ε Unit).Stable E I Q := fun s hs => ⟨(h s hs).1, (h s hs).2, trivial⟩

theorem stable_read (f : σ → α) : (read f : Async σ ε α).Stable E I Q :=
  fun _ hs => ⟨hs, fun hq => hq, trivial⟩

theorem stable_read_bind {f : σ → α} {k : α → Async σ ε β}
    (h : ∀ s, I s → (k (f s)).Stable E I Q) : (read f >>= k).Stable E I Q :=
  fun s hs => ⟨hs, fun hq => hq, h s hs⟩

theorem stable_ofOption_bind {e : ε} {o : Option α} {k : α → Async σ ε β} (he : o = none → E e)
    (h : ∀ a, o = some a → (k a).Stable E I Q) : (ofOption e o >>= k).Stable E I Q := by
  cases o with
  | none => exact he rfl
  | some a => exact h a rfl

/-- A program all of whose state changes keep invariant and goal. -/
theorem All.stable {p : Async σ ε α}
    (hp : p.All fun u => ∀ s, I s → I (u s) ∧ (Q s → Q (u s))) : p.Stable AnyFailure I Q := by
  induction p with
  | pure a => trivial
  | throw e => trivial
  | step u n ih => exact fun s hs => ⟨(hp.1 s hs).1, (hp.1 s hs).2, ih s (hp.2 s)⟩

theorem Reaches.bind_left {p : Async σ ε α} (hp : p.Reaches I Q) (f : α → Async σ ε β) :
    (p >>= f).Reaches I Q := by
  induction p with
  | pure a => exact hp.elim
  | throw e => trivial
  | step u n ih => exact fun s hs => (hp s hs).imp_right fun h => ih s h

theorem Reaches.bind_right {p : Async σ ε α} (hp : p.Stable E I Q) {f : α → Async σ ε β}
    (hf : ∀ a, (f a).Reaches I Q) : (p >>= f).Reaches I Q := by
  induction p with
  | pure a => exact hf a
  | throw e => trivial
  | step u n ih => exact fun s hs => .inr (ih s (hp s hs).2.2)

theorem reaches_act {u : σ → σ} (h : ∀ s, I s → Q (u s)) :
    (act u : Async σ ε Unit).Reaches I Q := fun s hs => .inl (h s hs)

theorem reaches_read_bind {f : σ → α} {k : α → Async σ ε β}
    (h : ∀ s, I s → (k (f s)).Reaches I Q) : (read f >>= k).Reaches I Q :=
  fun s hs => .inr (h s hs)

theorem reaches_ofOption_bind {e : ε} {o : Option α} {k : α → Async σ ε β}
    (h : ∀ a, o = some a → (k a).Reaches I Q) : (ofOption e o >>= k).Reaches I Q := by
  cases o with
  | none => trivial
  | some a => exact h a rfl

end Rules

/-! ### Every interleaving -/

section Pools

variable {E : ε → Prop} {I Q : σ → Prop} {ps : List (Async σ ε Unit)}

/-- What a stable program ends with: a listed failure, or a state in which the goal holds if it
held before or if the program reaches it. -/
theorem Stable.run {p : Async σ ε α} (h : p.Stable E I Q) {s : σ} (hs : I s) :
    ∃ r s', p.run s = (r, s') ∧ I s' ∧ (∀ e, r = .error e → E e) ∧
      (∀ a, r = .ok a → Q s ∨ p.Reaches I Q → Q s') := by
  induction p generalizing s with
  | pure a =>
    refine ⟨.ok a, s, rfl, hs, fun e he => by simp at he, fun _ _ hq => ?_⟩
    exact hq.resolve_right fun hr => hr
  | throw e =>
    refine ⟨.error e, s, rfl, hs, fun e' he => ?_, fun a ha => by simp at ha⟩
    exact Except.error.inj he ▸ h
  | step u n ih =>
    obtain ⟨hI, hQ, hn⟩ := h s hs
    obtain ⟨r, s', hrun, hI', hE, hQ'⟩ := ih s hn hI
    refine ⟨r, s', hrun, hI', hE, fun a ha hq => hQ' a ha ?_⟩
    rcases hq with hq | hr
    · exact .inl (hQ hq)
    · exact hr s hs

/-- What a stable program that succeeds ends with. -/
theorem Stable.run_ok {p : Async σ ε α} (h : p.Stable E I Q) {s s' : σ} (hs : I s) {a : α}
    (hrun : p.run s = (.ok a, s')) : I s' ∧ (Q s ∨ p.Reaches I Q → Q s') := by
  obtain ⟨r, t, hrun', hI, -, hQ⟩ := h.run hs
  obtain ⟨rfl, rfl⟩ : r = .ok a ∧ t = s' := Prod.ext_iff.mp (hrun'.symm.trans hrun)
  exact ⟨hI, hQ a rfl⟩

private theorem stable_serial (h : ∀ p ∈ ps, p.Stable E I Q) : (serial ps).Stable E I Q := by
  induction ps with
  | nil => trivial
  | cons p ps ih =>
    exact (h p List.mem_cons_self).bind fun _ => ih fun q hq => h q (List.mem_cons_of_mem _ hq)

private theorem reaches_serial (h : ∀ p ∈ ps, p.Stable E I Q) (hr : ∃ p ∈ ps, p.Reaches I Q) :
    (serial ps).Reaches I Q := by
  induction ps with
  | nil => simp at hr
  | cons p ps ih =>
    obtain ⟨q, hq, hreach⟩ := hr
    rcases List.mem_cons.mp hq with rfl | hq
    · exact hreach.bind_left _
    · refine Reaches.bind_right (h p List.mem_cons_self) fun _ => ih (fun r hr => ?_)
        ⟨q, hq, hreach⟩
      exact h r (List.mem_cons_of_mem _ hr)

/-- An interleaving of stable threads is stable. -/
theorem Stable.interleave (sched : List ℕ) (h : ∀ p ∈ ps, p.Stable E I Q) :
    (interleave sched ps).Stable E I Q := by
  induction sched generalizing ps with
  | nil => exact stable_serial h
  | cons i sched ih =>
    rw [interleave_cons]
    rcases hi : ps[i]? with _ | ⟨a⟩ | ⟨e⟩ | ⟨u, n⟩
    · exact ih h
    · exact ih h
    · exact h _ (List.mem_of_getElem? hi)
    intro s hs
    obtain ⟨hI, hQ, hn⟩ := h _ (List.mem_of_getElem? hi) s hs
    refine ⟨hI, hQ, ih fun p hp => ?_⟩
    rcases List.mem_or_eq_of_mem_set hp with hp | rfl
    · exact h p hp
    · exact hn

/-- An interleaving reaches what one of its threads reaches. -/
theorem Reaches.interleave (sched : List ℕ) (h : ∀ p ∈ ps, p.Stable E I Q)
    (hr : ∃ p ∈ ps, p.Reaches I Q) : (interleave sched ps).Reaches I Q := by
  induction sched generalizing ps with
  | nil => exact reaches_serial h hr
  | cons i sched ih =>
    rw [interleave_cons]
    rcases hi : ps[i]? with _ | ⟨a⟩ | ⟨e⟩ | ⟨u, n⟩
    · exact ih h hr
    · exact ih h hr
    · trivial
    intro s hs
    obtain ⟨p, hp, hreach⟩ := hr
    obtain ⟨j, hj⟩ := List.mem_iff_getElem?.mp hp
    have hlt : i < ps.length := (List.getElem?_eq_some_iff.mp hi).1
    have hset : ∀ q ∈ ps.set i (n s), q.Stable E I Q := by
      intro q hq
      rcases List.mem_or_eq_of_mem_set hq with hq | rfl
      · exact h q hq
      · exact (h _ (List.mem_of_getElem? hi) s hs).2.2
    by_cases hij : i = j
    · -- The thread that reaches the goal moves.
      subst hij
      obtain rfl : p = .step u n := by simpa using hj.symm.trans hi
      exact (hreach s hs).imp_right fun hr => ih hset ⟨n s, List.mem_set hlt (n s), hr⟩
    · refine .inr (ih hset ⟨p, ?_, hreach⟩)
      exact List.mem_of_getElem? (i := j) (by rwa [List.getElem?_set_ne hij])

/-- **Certain goals.** A goal that one thread reaches and no thread spoils holds at the end of
every interleaving that succeeds. -/
theorem run_interleave_reaches {sched : List ℕ} (h : ∀ p ∈ ps, p.Stable E I Q)
    (hr : ∃ p ∈ ps, p.Reaches I Q) {s s' : σ} (hs : I s)
    (hrun : (interleave sched ps).run s = (.ok (), s')) : Q s' :=
  ((Stable.interleave sched h).run_ok hs hrun).2 (.inr (Reaches.interleave sched h hr))

/-- Threads that cannot fail succeed together, and keep the invariant. -/
theorem run_interleave_ok (sched : List ℕ) (h : ∀ p ∈ ps, p.Stable NoFailure I Q) {s : σ}
    (hs : I s) : ∃ s', (interleave sched ps).run s = (.ok (), s') ∧ I s' := by
  obtain ⟨r, s', hrun, hI, hE, -⟩ := (Stable.interleave sched h).run hs
  cases r with
  | error e => exact (hE e rfl).elim
  | ok a => exact ⟨s', hrun, hI⟩

/-! ### Some interleaving -/

/-- Let a thread run to its end. -/
private theorem exists_run_finish {j : ℕ} {q : Async σ ε Unit} (hj : ps[j]? = some q)
    (hq : q.Keeps I) {s : σ} (hs : I s) (hok : ∀ sched, (interleave sched ps).Succeeds s) :
    ∃ first t, I t ∧ ∀ rest, (interleave (first ++ rest) ps).run s =
      (interleave rest (ps.set j (.pure ()))).run t := by
  induction q generalizing ps s with
  | pure a =>
    refine ⟨[], s, hs, fun rest => ?_⟩
    have hsame : ps.set j (.pure ()) = ps := by
      refine List.ext_getElem? fun k => ?_
      rw [List.getElem?_set]
      split
      · rename_i hjk
        rw [← hjk, hj]
        simp [(List.getElem?_eq_some_iff.mp hj).1]
      · rfl
    rw [List.nil_append, hsame]
  | throw e =>
    obtain ⟨a, t, ht⟩ := hok [j]
    rw [interleave_cons, hj] at ht
    simp at ht
  | step u n ih =>
    obtain ⟨hI, hn⟩ := hq s hs
    have hlt : j < ps.length := (List.getElem?_eq_some_iff.mp hj).1
    have hnext : (ps.set j (n s))[j]? = some (n s) := by simp [hlt]
    have hok' : ∀ sched, (interleave sched (ps.set j (n s))).Succeeds (u s) := by
      intro sched
      have := hok (j :: sched)
      rwa [interleave_cons, hj] at this
    obtain ⟨first, t, ht, hrun⟩ := ih s hnext hn hI hok'
    refine ⟨j :: first, t, ht, fun rest => ?_⟩
    rw [List.cons_append, interleave_cons, hj]
    simpa only [run_step, List.set_set] using hrun rest

/-- The pool with the listed threads at their end. -/
private def finished (js : List ℕ) (ps : List (Async σ ε Unit)) : List (Async σ ε Unit) :=
  js.foldl (fun ps j => ps.set j (.pure ())) ps

private theorem getElem?_finished (js : List ℕ) (ps : List (Async σ ε Unit)) (k : ℕ) :
    (finished js ps)[k]? = if k ∈ js then ps[k]?.map fun _ => .pure () else ps[k]? := by
  induction js generalizing ps with
  | nil => simp [finished]
  | cons j js ih =>
    rw [finished, List.foldl_cons, ← finished, ih]
    by_cases hjk : j = k
    · subst hjk
      by_cases hlt : j < ps.length <;> simp [hlt]
    · have hkj : ¬ k = j := fun h => hjk h.symm
      simp [List.getElem?_set_ne hjk, hkj]

private theorem exists_run_finished {js : List ℕ}
    (h : ∀ j ∈ js, ∀ q, ps[j]? = some q → q.Keeps I) {s : σ} (hs : I s)
    (hok : ∀ sched, (interleave sched ps).Succeeds s) :
    ∃ first t, I t ∧ ∀ rest, (interleave (first ++ rest) ps).run s =
      (interleave rest (finished js ps)).run t := by
  induction js generalizing ps s with
  | nil => exact ⟨[], s, hs, fun rest => rfl⟩
  | cons j js ih =>
    rcases hj : ps[j]? with _ | q
    · have hout : ps.set j (.pure ()) = ps := List.set_eq_of_length_le (by simpa using hj)
      rw [finished, List.foldl_cons, hout]
      exact ih (fun k hk => h k (List.mem_cons_of_mem j hk)) hs hok
    obtain ⟨first, t, ht, hrun⟩ := exists_run_finish hj (h j List.mem_cons_self q hj) hs hok
    have hset : ∀ k ∈ js, ∀ q, (ps.set j (.pure ()))[k]? = some q → q.Keeps I := by
      intro k hk q hq
      by_cases hjk : j = k
      · subst hjk
        obtain ⟨-, rfl⟩ : j < ps.length ∧ .pure () = q := by simpa [List.getElem?_set] using hq
        trivial
      · rw [List.getElem?_set_ne hjk] at hq
        exact h k (List.mem_cons_of_mem j hk) q hq
    have hok' : ∀ sched, (interleave sched (ps.set j (.pure ()))).Succeeds t := by
      intro sched
      obtain ⟨a, s', hs'⟩ := hok (first ++ sched)
      exact ⟨a, s', (hrun sched).symm.trans hs'⟩
    obtain ⟨first', t', ht', hrun'⟩ := ih hset ht hok'
    refine ⟨first ++ first', t', ht', fun rest => ?_⟩
    rw [List.append_assoc, hrun, hrun']
    rfl

private theorem serial_pure (h : ∀ q ∈ ps, q = .pure ()) : serial ps = .pure () := by
  induction ps with
  | nil => rfl
  | cons q ps ih =>
    obtain rfl := h q List.mem_cons_self
    exact ih fun r hr => h r (List.mem_cons_of_mem _ hr)

private theorem serial_of_finished {i : ℕ} {p : Async σ ε Unit} (hi : ps[i]? = some p)
    (h : ∀ k q, ps[k]? = some q → k ≠ i → q = .pure ()) : serial ps = p := by
  induction ps generalizing i with
  | nil => simp at hi
  | cons q ps ih =>
    cases i with
    | zero =>
      obtain rfl : q = p := by simpa using hi
      have hrest : serial ps = .pure () := by
        refine serial_pure fun r hr => ?_
        obtain ⟨k, hk⟩ := List.mem_iff_getElem?.mp hr
        exact h (k + 1) r (by simpa using hk) (Nat.succ_ne_zero k)
      rw [serial_cons, hrest]
      exact bind_pure_self q
    | succ i =>
      obtain rfl := h 0 q (by simp) (by simp)
      refine ih (by simpa using hi) fun k q' hk hne => ?_
      exact h (k + 1) q' (by simpa using hk) (by simpa using hne)

/-- **Any thread may come last**, if no order fails. -/
theorem exists_run_last_of_succeeds {i : ℕ} {p : Async σ ε Unit} (hi : ps[i]? = some p)
    (h : ∀ j q, ps[j]? = some q → j ≠ i → q.Keeps I) {s : σ} (hs : I s)
    (hok : ∀ sched, (interleave sched ps).Succeeds s) :
    ∃ sched t, I t ∧ (interleave sched ps).run s = p.run t := by
  let others := (List.range ps.length).filter (· ≠ i)
  have hothers : ∀ j ∈ others, ∀ q, ps[j]? = some q → q.Keeps I :=
    fun j hj q hq => h j q hq (by simpa using (List.mem_filter.mp hj).2)
  obtain ⟨first, t, ht, hrun⟩ := exists_run_finished hothers hs hok
  refine ⟨first, t, ht, ?_⟩
  have hlast : serial (finished others ps) = p := by
    refine serial_of_finished (i := i) ?_ fun k q hk hne => ?_
    · simp [getElem?_finished, others, hi]
    · rw [getElem?_finished] at hk
      split at hk
      · obtain ⟨-, -, rfl⟩ := Option.map_eq_some_iff.mp hk
        rfl
      · rename_i hmem
        have hlt : k < ps.length := (List.getElem?_eq_some_iff.mp hk).1
        exact absurd (by simp [others, hlt, hne]) hmem
  have hrun' := hrun []
  rwa [List.append_nil, interleave_nil, hlast] at hrun'

theorem Stable.keeps {p : Async σ ε α} (h : p.Stable E I Q) : p.Keeps I := by
  induction p with
  | pure a => trivial
  | throw e => trivial
  | step u n ih => exact fun s hs => ⟨(h s hs).1, ih s (h s hs).2.2⟩

/-- Threads that cannot fail may come last. -/
theorem exists_run_last (h : ∀ p ∈ ps, p.Stable NoFailure I Q) {i : ℕ} {p : Async σ ε Unit}
    (hi : ps[i]? = some p) {s : σ} (hs : I s) :
    ∃ sched t, I t ∧ (interleave sched ps).run s = p.run t := by
  refine exists_run_last_of_succeeds hi (fun j q hq _ => ?_) hs fun sched => ?_
  · exact (h q (List.mem_of_getElem? hq)).keeps
  · obtain ⟨s', hrun, -⟩ := run_interleave_ok sched h hs
    exact ⟨(), s', hrun⟩

end Pools

end Async

end SwaptoshiService
