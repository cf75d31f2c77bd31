import SwaptoshiService.Lib.Session

/-!
# Footprints: what a program reads and which statements it sends

`Footprint R P p` says that the control flow of `p` depends only on the rows listed by `R` — a
row as seen through one of the two connections — and that `p` sends only statements satisfying
`P`. It is proved once for each program, along its syntax, and two facts follow from it:

* `Footprint.independent`: programs whose statements commute and that do not write what the
  other reads are independent, so their interleavings all agree with the serial execution;
* `Footprint.run_interleave_alone`: a program that runs among others which leave its rows alone
  ends, on these rows, as if it had run alone.
-/

namespace SwaptoshiService

namespace Session

variable {κ : Type} {ρ : κ → Type} [DecidableEq κ] {ε α β : Type}

/-- The two sessions show the same rows of `R`. -/
def Agree (R : Conn → κ → Prop) (w w' : Session κ ρ) : Prop :=
  ∀ conn c, R conn c → (w'.view conn).get c = (w.view conn).get c

/-- The program reads rows of `R` only and sends statements of `P` only. -/
def Footprint (R : Conn → κ → Prop) (P : Conn → Write κ ρ → Prop) :
    Async (Session κ ρ) ε α → Prop
  | .pure _ => True
  | .throw _ => True
  | .step u n => Sends P u ∧ (∀ w w', Agree R w w' → n w' = n w) ∧ ∀ w, Footprint R P (n w)

variable {R R' : Conn → κ → Prop} {P P' : Conn → Write κ ρ → Prop}

/-! ### Rules -/

theorem footprint_pure (a : α) : Footprint R P (.pure a : Async (Session κ ρ) ε α) := trivial

theorem footprint_throw (e : ε) : Footprint R P (.throw e : Async (Session κ ρ) ε α) := trivial

theorem footprint_ofOption (e : ε) (o : Option α) :
    Footprint R P (.ofOption e o : Async (Session κ ρ) ε α) := by
  cases o <;> trivial

theorem footprint_query {conn : Conn} {f : Store κ ρ → α}
    (h : ∀ s s' : Store κ ρ, (∀ c, R conn c → s'.get c = s.get c) → f s' = f s) :
    Footprint R P (query conn f : Async (Session κ ρ) ε α) :=
  ⟨.inl rfl, fun _ _ hw => congrArg Async.pure (h _ _ fun c => hw conn c), fun _ => trivial⟩

theorem footprint_findRow {conn : Conn} {c : κ} (h : R conn c) :
    Footprint R P (findRow conn c : Async (Session κ ρ) ε (Option (ρ c))) :=
  ⟨.inl rfl, fun _ _ hw => congrArg Async.pure (hw conn c h), fun _ => trivial⟩

theorem footprint_exec {conn : Conn} {st : Write κ ρ} (h : P conn st) :
    Footprint R P (exec conn st : Async (Session κ ρ) ε Unit) :=
  ⟨.inr ⟨conn, st, h, rfl⟩, fun _ _ _ => rfl, fun _ => trivial⟩

theorem footprint_modifyRow {conn : Conn} {c : κ} {f : ρ c → ρ c} (hR : R conn c)
    (hP : P conn (.point c (Option.map f))) :
    Footprint R P (modifyRow conn c f : Async (Session κ ρ) ε ℕ) := by
  refine ⟨.inr ⟨conn, _, hP, rfl⟩, fun w w' hw => ?_, fun _ => trivial⟩
  simp only [hw conn c hR]

theorem Footprint.bind {p : Async (Session κ ρ) ε α} {f : α → Async (Session κ ρ) ε β}
    (hp : Footprint R P p) (hf : ∀ a, Footprint R P (f a)) : Footprint R P (p >>= f) := by
  induction p with
  | pure a => exact hf a
  | throw e => trivial
  | step u n ih =>
    obtain ⟨hu, hn, hnext⟩ := hp
    exact ⟨hu, fun w w' hw => congrArg (· >>= f) (hn w w' hw), fun w => ih w (hnext w)⟩

/-- An option that is taken apart: the rest of the program may use what it holds. -/
theorem footprint_ofOption_bind {e : ε} {o : Option α} {f : α → Async (Session κ ρ) ε β}
    (h : ∀ a, o = some a → Footprint R P (f a)) : Footprint R P (Async.ofOption e o >>= f) := by
  cases o with
  | none => trivial
  | some a => exact h a rfl

theorem Footprint.mono {p : Async (Session κ ρ) ε α} (hp : Footprint R P p)
    (hR : ∀ conn c, R conn c → R' conn c) (hP : ∀ conn st, P conn st → P' conn st) :
    Footprint R' P' p := by
  induction p with
  | pure a => trivial
  | throw e => trivial
  | step u n ih =>
    obtain ⟨hu, hn, hnext⟩ := hp
    refine ⟨?_, fun w w' hw => hn w w' fun conn c hc => hw conn c (hR conn c hc),
      fun w => ih w (hnext w)⟩
    exact hu.imp_right fun ⟨conn, st, hst, hu⟩ => ⟨conn, st, hP conn st hst, hu⟩

theorem Footprint.serial {ps : List (Async (Session κ ρ) ε Unit)}
    (h : ∀ p ∈ ps, Footprint R P p) : Footprint R P (Async.serial ps) := by
  induction ps with
  | nil => trivial
  | cons p ps ih =>
    exact (h p List.mem_cons_self).bind fun _ =>
      ih fun q hq => h q (List.mem_cons_of_mem _ hq)

theorem Footprint.interleave {sched : List ℕ} {ps : List (Async (Session κ ρ) ε Unit)}
    (h : ∀ p ∈ ps, Footprint R P p) : Footprint R P (Async.interleave sched ps) := by
  induction sched generalizing ps with
  | nil => exact Footprint.serial h
  | cons i sched ih =>
    rw [Async.interleave_cons]
    rcases hi : ps[i]? with _ | ⟨a⟩ | ⟨e⟩ | ⟨u, n⟩
    · exact ih h
    · exact ih h
    · trivial
    · obtain ⟨hu, hn, hnext⟩ := h _ (List.mem_of_getElem? hi)
      refine ⟨hu, fun w w' hw => ?_, fun w => ih fun q hq => ?_⟩
      · simp only [hn w w' hw]
      rcases List.mem_or_eq_of_mem_set hq with hq | rfl
      · exact h q hq
      · exact hnext w

theorem Footprint.confined {p : Async (Session κ ρ) ε α} (hp : Footprint R P p) :
    Confined P p := by
  induction p with
  | pure a => trivial
  | throw e => trivial
  | step u n ih => exact ⟨hp.1, fun w => ih w (hp.2.2 w)⟩

/-! ### Independence -/

/-- No statement of `P` changes a row of `R`. A pending statement is invisible to the default
connection. -/
def Unseen (P : Conn → Write κ ρ → Prop) (R : Conn → κ → Prop) : Prop :=
  ∀ conn st, P conn st → ∀ conn' c, R conn' c →
    st.Fixes c ∨ (conn = .dbTrx ∧ conn' = .default)

/-- Statements sent on the same connection commute. -/
def StatementsCommute (P P' : Conn → Write κ ρ → Prop) : Prop :=
  ∀ conn st st', P conn st → P' conn st' → st.Commutes st'

theorem Unseen.agree (h : Unseen P R) {u : Session κ ρ → Session κ ρ} (hu : Sends P u)
    (w : Session κ ρ) : Agree R w (u w) := by
  rcases hu with rfl | ⟨conn, st, hst, rfl⟩
  · exact fun _ _ _ => rfl
  · intro conn' c hc
    rcases h conn st hst conn' c hc with hfix | ⟨rfl, rfl⟩
    · exact (sameAt_send hfix w).view conn'
    · rfl

private theorem send_comm (h : StatementsCommute P P') {u v : Session κ ρ → Session κ ρ}
    (hu : Sends P u) (hv : Sends P' v) (w : Session κ ρ) : u (v w) = v (u w) := by
  rcases hu with rfl | ⟨conn, st, hst, rfl⟩
  · rfl
  rcases hv with rfl | ⟨conn', st', hst', rfl⟩
  · rfl
  cases conn <;> cases conn'
  · simp only [send, (h _ _ _ hst hst').exec_comm]
  · rfl
  · rfl
  · simp only [send, ← Write.comp_assoc, (h _ _ _ hst hst').comp_comm]

private theorem Footprint.node {p : Async (Session κ ρ) ε α} (hp : Footprint R P p)
    {u : Session κ ρ → Session κ ρ} {n : Session κ ρ → Async (Session κ ρ) ε α}
    (h : Async.Node p u n) : Sends P u ∧ ∀ w w', Agree R w w' → n w' = n w := by
  induction h with
  | here => exact ⟨hp.1, hp.2.1⟩
  | there s _ ih => exact ih (hp.2.2 s)

/-- **Independence from footprints.** -/
theorem Footprint.independent {p : Async (Session κ ρ) ε α} {q : Async (Session κ ρ) ε β}
    (hp : Footprint R P p) (hq : Footprint R' P' q) (hcomm : StatementsCommute P P')
    (hpq : Unseen P R') (hqp : Unseen P' R) : Async.Independent p q := by
  intro u n v m hu hv w
  obtain ⟨hus, hun⟩ := hp.node hu
  obtain ⟨hvs, hvn⟩ := hq.node hv
  exact ⟨send_comm hcomm hus hvs w, hun _ _ (hqp.agree hvs w), hvn _ _ (hpq.agree hus w)⟩

/-! ### A program among others that leave its rows alone -/

/-- The two sessions agree on a set of rows, committed and pending. -/
def SameOn (S : κ → Prop) (w w' : Session κ ρ) : Prop := ∀ c, S c → SameAt c w w'

omit [DecidableEq κ] in
theorem SameOn.refl (S : κ → Prop) (w : Session κ ρ) : SameOn S w w :=
  fun c _ => SameAt.refl c w

omit [DecidableEq κ] in
theorem SameOn.trans {S : κ → Prop} {a b d : Session κ ρ} (h : SameOn S a b)
    (h' : SameOn S b d) : SameOn S a d := fun c hc => (h c hc).trans (h' c hc)

/-- The same statement sent in both sessions. -/
theorem SameOn.send {S : κ → Prop} {w w' : Session κ ρ} (h : SameOn S w w') (conn : Conn)
    (st : Write κ ρ) : SameOn S (send conn st w) (send conn st w') := by
  intro c hc
  cases conn with
  | default => exact ⟨congrArg (st.act c) (h c hc).1, (h c hc).2⟩
  | dbTrx => exact ⟨(h c hc).1, fun o => congrArg (st.act c) ((h c hc).2 o)⟩

private theorem SameOn.sends {S : κ → Prop} {w w' : Session κ ρ} (h : SameOn S w w')
    {u : Session κ ρ → Session κ ρ} (hu : Sends P u) : SameOn S (u w) (u w') := by
  rcases hu with rfl | ⟨conn, st, -, rfl⟩
  · exact h
  · exact h.send conn st

private theorem SameOn.agree {S : κ → Prop} {w w' : Session κ ρ} (h : SameOn S w w')
    (hR : ∀ conn c, R conn c → S c) : Agree R w w' :=
  fun conn c hc => (h c (hR conn c hc)).view conn

/-- Every statement of `P` leaves the rows of `S` alone. -/
def LeavesAlone (P : Conn → Write κ ρ → Prop) (S : κ → Prop) : Prop :=
  ∀ conn st, P conn st → ∀ c, S c → st.Fixes c

omit [DecidableEq κ] in
/-- A program that changes only rows of `W` leaves the rows outside `W` alone. -/
theorem leavesAlone_respects {W : Conn → κ → Prop} {S : κ → Prop}
    (h : ∀ conn c, W conn c → ¬ S c) :
    LeavesAlone (Respects W : Conn → Write κ ρ → Prop) S :=
  fun conn _ hst c hc => hst c fun hw => h conn c hw hc

theorem Confined.run_sameOn {S : κ → Prop} {q : Async (Session κ ρ) ε α} (hq : Confined P q)
    (hP : LeavesAlone P S) (w : Session κ ρ) : SameOn S w (q.run w).2 :=
  fun c hc => hq.run_sameAt (fun conn st hst => hP conn st hst c hc) w

/-- What leaves the rows of `S` alone ensures that they stay. -/
theorem Confined.ensures_sameOn {S : κ → Prop} {q : Async (Session κ ρ) ε α}
    (hq : Confined P q) (hP : LeavesAlone P S) : q.Ensures (SameOn S) := by
  intro w a w' hrun
  simpa only [hrun] using hq.run_sameOn hP w

/-- On the rows of `S` the connection shows the given store. -/
def Shows (conn : Conn) (S : κ → Prop) (s : Store κ ρ) (w : Session κ ρ) : Prop :=
  ∀ c, S c → (w.view conn).get c = s.get c

/-- What leaves the rows of `S` alone does not change what a connection shows of them. -/
theorem Confined.keeps_shows {S : κ → Prop} {q : Async (Session κ ρ) ε α} (hq : Confined P q)
    (hP : LeavesAlone P S) (conn : Conn) (s : Store κ ρ) : q.Keeps (Shows conn S s) := by
  refine Async.All.keeps (Async.All.mono hq fun u hu w hw c hc => ?_)
  rcases hu with rfl | ⟨conn', st, hst, rfl⟩
  · exact hw c hc
  · exact ((sameAt_send (hP conn' st hst c hc) w).view conn).trans (hw c hc)

private theorem Sends.sameOn {S : κ → Prop} (hP : LeavesAlone P S)
    {u : Session κ ρ → Session κ ρ} (hu : Sends P u) (w : Session κ ρ) : SameOn S w (u w) := by
  rcases hu with rfl | ⟨conn, st, hst, rfl⟩
  · exact SameOn.refl S w
  · exact fun c hc => sameAt_send (hP conn st hst c hc) w

/-! ### Footprints under an invariant -/

section Guarded

variable {I : Session κ ρ → Prop}

/-- The footprint of a program that keeps the invariant `I` and may rely on it: what it reads in
states without `I` does not count. -/
def FootprintIn (I : Session κ ρ → Prop) (R : Conn → κ → Prop) (P : Conn → Write κ ρ → Prop) :
    Async (Session κ ρ) ε α → Prop
  | .pure _ => True
  | .throw _ => True
  | .step u n => Sends P u ∧ (∀ w w', Agree R w w' → n w' = n w) ∧
      ∀ w, I w → I (u w) ∧ FootprintIn I R P (n w)

theorem footprintIn_pure (a : α) : FootprintIn I R P (.pure a : Async (Session κ ρ) ε α) := trivial

theorem footprintIn_query_bind {conn : Conn} {g : Store κ ρ → α} {f : α → Async (Session κ ρ) ε β}
    (h : ∀ s s' : Store κ ρ, (∀ c, R conn c → s'.get c = s.get c) → g s' = g s)
    (hf : ∀ w, I w → FootprintIn I R P (f (g (w.view conn)))) :
    FootprintIn I R P (query conn g >>= f) := by
  refine ⟨.inl rfl, fun w w' hw => ?_, fun w hw => ⟨hw, hf w hw⟩⟩
  exact congrArg f (h _ _ fun c => hw conn c)

theorem footprintIn_ofOption_bind {e : ε} {o : Option α} {f : α → Async (Session κ ρ) ε β}
    (h : ∀ a, o = some a → FootprintIn I R P (f a)) :
    FootprintIn I R P (Async.ofOption e o >>= f) := by
  cases o with
  | none => trivial
  | some a => exact h a rfl

theorem footprintIn_exec {conn : Conn} {st : Write κ ρ} (h : P conn st)
    (hI : ∀ w, I w → I (send conn st w)) :
    FootprintIn I R P (exec conn st : Async (Session κ ρ) ε Unit) :=
  ⟨.inr ⟨conn, st, h, rfl⟩, fun _ _ _ => rfl, fun w hw => ⟨hI w hw, trivial⟩⟩

theorem FootprintIn.bind {p : Async (Session κ ρ) ε α} {f : α → Async (Session κ ρ) ε β}
    (hp : FootprintIn I R P p) (hf : ∀ a, FootprintIn I R P (f a)) :
    FootprintIn I R P (p >>= f) := by
  induction p with
  | pure a => exact hf a
  | throw e => trivial
  | step u n ih =>
    obtain ⟨hu, hn, hnext⟩ := hp
    exact ⟨hu, fun w w' hw => congrArg (· >>= f) (hn w w' hw),
      fun w hw => ⟨(hnext w hw).1, ih w (hnext w hw).2⟩⟩

theorem FootprintIn.serial {ps : List (Async (Session κ ρ) ε Unit)}
    (h : ∀ p ∈ ps, FootprintIn I R P p) : FootprintIn I R P (Async.serial ps) := by
  induction ps with
  | nil => trivial
  | cons p ps ih =>
    exact (h p List.mem_cons_self).bind fun _ =>
      ih fun q hq => h q (List.mem_cons_of_mem _ hq)

theorem FootprintIn.mono {p : Async (Session κ ρ) ε α} (hp : FootprintIn I R P p)
    (hR : ∀ conn c, R conn c → R' conn c) (hP : ∀ conn st, P conn st → P' conn st) :
    FootprintIn I R' P' p := by
  induction p with
  | pure a => trivial
  | throw e => trivial
  | step u n ih =>
    obtain ⟨hu, hn, hnext⟩ := hp
    refine ⟨?_, fun w w' hw => hn w w' fun conn c hc => hw conn c (hR conn c hc),
      fun w hw => ⟨(hnext w hw).1, ih w (hnext w hw).2⟩⟩
    exact hu.imp_right fun ⟨conn, st, hst, hu⟩ => ⟨conn, st, hP conn st hst, hu⟩

theorem Footprint.footprintIn {p : Async (Session κ ρ) ε α} (hp : Footprint R P p) :
    FootprintIn (fun _ => True) R P p := by
  induction p with
  | pure a => trivial
  | throw e => trivial
  | step u n ih => exact ⟨hp.1, hp.2.1, fun w _ => ⟨trivial, ih w (hp.2.2 w)⟩⟩

/-- The program keeps the invariant and, as long as it holds, sends statements of `P` only. -/
def ConfinedIn (I : Session κ ρ → Prop) (P : Conn → Write κ ρ → Prop) :
    Async (Session κ ρ) ε α → Prop
  | .pure _ => True
  | .throw _ => True
  | .step u n => Sends P u ∧ ∀ w, I w → I (u w) ∧ ConfinedIn I P (n w)

theorem FootprintIn.confinedIn {p : Async (Session κ ρ) ε α} (hp : FootprintIn I R P p) :
    ConfinedIn I P p := by
  induction p with
  | pure a => trivial
  | throw e => trivial
  | step u n ih => exact ⟨hp.1, fun w hw => ⟨(hp.2.2 w hw).1, ih w (hp.2.2 w hw).2⟩⟩

theorem Confined.confinedIn {p : Async (Session κ ρ) ε α} (hp : Confined P p) :
    ConfinedIn (fun _ => True) P p := by
  induction p with
  | pure a => trivial
  | throw e => trivial
  | step u n ih => exact ⟨hp.1, fun w _ => ⟨trivial, ih w (hp.2 w)⟩⟩

/-- Rows the program's statements leave alone stay as they are, and so does the invariant. -/
theorem ConfinedIn.keeps_sameOn {S : κ → Prop} {p : Async (Session κ ρ) ε α}
    (hp : ConfinedIn I P p) (hP : LeavesAlone P S) (w₀ : Session κ ρ) :
    p.Keeps fun w => I w ∧ SameOn S w₀ w := by
  induction p with
  | pure a => trivial
  | throw e => trivial
  | step u n ih =>
    intro w hw
    obtain ⟨hu, hnext⟩ := hp
    exact ⟨⟨(hnext w hw.1).1, hw.2.trans (Sends.sameOn hP hu w)⟩, ih w (hnext w hw.1).2⟩

theorem ConfinedIn.run_sameOn {S : κ → Prop} {p : Async (Session κ ρ) ε α}
    (hp : ConfinedIn I P p) (hP : LeavesAlone P S) {w w' : Session κ ρ} {r : Except ε α}
    (hw : I w) (hrun : p.run w = (r, w')) : I w' ∧ SameOn S w w' := by
  simpa only [hrun] using (hp.keeps_sameOn hP w).run ⟨hw, SameOn.refl S w⟩

theorem ConfinedIn.run_invariant {p : Async (Session κ ρ) ε α} (hp : ConfinedIn I P p)
    {w w' : Session κ ρ} {r : Except ε α} (hw : I w) (hrun : p.run w = (r, w')) : I w' :=
  (hp.run_sameOn (S := fun _ => False) (fun _ _ _ _ hc => hc.elim) hw hrun).1

theorem ConfinedIn.serial {ps : List (Async (Session κ ρ) ε Unit)}
    (h : ∀ p ∈ ps, ConfinedIn I P p) : ConfinedIn I P (Async.serial ps) := by
  induction ps with
  | nil => trivial
  | cons p ps ih =>
    have hrest := ih fun q hq => h q (List.mem_cons_of_mem _ hq)
    have hp := h p List.mem_cons_self
    rw [Async.serial_cons]
    clear h ih
    induction p with
    | pure a => exact hrest
    | throw e => trivial
    | step u n ih => exact ⟨hp.1, fun w hw => ⟨(hp.2 w hw).1, ih w (hp.2 w hw).2⟩⟩

theorem FootprintIn.run_sameOn {S : κ → Prop} {p : Async (Session κ ρ) ε α}
    (hp : FootprintIn I R P p) (hR : ∀ conn c, R conn c → S c) {w w' : Session κ ρ} (hw : I w)
    (hw' : I w') (h : SameOn S w w') :
    (p.run w').1 = (p.run w).1 ∧ SameOn S (p.run w).2 (p.run w').2 := by
  induction p generalizing w w' with
  | pure a => exact ⟨rfl, h⟩
  | throw e => exact ⟨rfl, h⟩
  | step u n ih =>
    obtain ⟨hu, hn, hnext⟩ := hp
    have hpath : n w' = n w := hn w w' (h.agree hR)
    have hIw' : I (u w') := (hnext w' hw').1
    simp only [Async.run_step, hpath]
    exact ih w (hnext w hw).2 (hnext w hw).1 hIw' (h.sends hu)

private theorem run_serial_alone {S : κ → Prop} {p : Async (Session κ ρ) ε Unit}
    (hp : FootprintIn I R P p) (hR : ∀ conn c, R conn c → S c) (hP' : LeavesAlone P' S)
    {ps : List (Async (Session κ ρ) ε Unit)} {i : ℕ} (hi : ps[i]? = some p)
    (hq : ∀ j q, ps[j]? = some q → j ≠ i → ConfinedIn I P' q) {w₀ w w' : Session κ ρ}
    (hw₀ : I w₀) (hw : I w) (h : SameOn S w₀ w)
    (hrun : (Async.serial ps).run w = (.ok (), w')) :
    ∃ w₁, p.run w₀ = (.ok (), w₁) ∧ SameOn S w₁ w' := by
  induction ps generalizing i w₀ w with
  | nil => simp at hi
  | cons r ps ih =>
    rw [Async.serial_cons, Async.run_bind_ok] at hrun
    obtain ⟨⟨⟩, t, hr, ht⟩ := hrun
    cases i with
    | zero =>
      obtain rfl : r = p := by simpa using hi
      obtain ⟨hok, hsame⟩ := hp.run_sameOn hR hw₀ hw h
      rw [hr] at hok hsame
      -- The programs behind `p` leave its rows as `p` left them.
      have hrest : ConfinedIn I P' (Async.serial ps) := by
        refine ConfinedIn.serial fun q hmem => ?_
        obtain ⟨j, hj⟩ := List.mem_iff_getElem?.mp hmem
        exact hq (j + 1) q (by simpa using hj) (Nat.succ_ne_zero j)
      have htail := hrest.run_sameOn hP' (hp.confinedIn.run_invariant hw hr) ht
      exact ⟨(r.run w₀).2, Prod.ext hok.symm rfl, hsame.trans htail.2⟩
    | succ i =>
      obtain ⟨hIt, hhead⟩ := (hq 0 r (by simp) (Nat.succ_ne_zero i).symm).run_sameOn hP' hw hr
      refine ih (by simpa using hi) (fun j q hj hne => ?_) hw₀ hIt (h.trans hhead) ht
      exact hq (j + 1) q (by simpa using hj) (by omega)

/-- **Alone among others.** If every other thread leaves the rows of `S` alone, a thread that
reads nothing else ends on these rows as if it had run alone. -/
theorem FootprintIn.run_interleave_alone {S : κ → Prop} {p : Async (Session κ ρ) ε Unit}
    (hp : FootprintIn I R P p) (hR : ∀ conn c, R conn c → S c) (hP' : LeavesAlone P' S)
    {sched : List ℕ} {ps : List (Async (Session κ ρ) ε Unit)} {i : ℕ} (hi : ps[i]? = some p)
    (hq : ∀ j q, ps[j]? = some q → j ≠ i → ConfinedIn I P' q) {w₀ w w' : Session κ ρ}
    (hw₀ : I w₀) (hw : I w) (h : SameOn S w₀ w)
    (hrun : (Async.interleave sched ps).run w = (.ok (), w')) :
    ∃ w₁, p.run w₀ = (.ok (), w₁) ∧ SameOn S w₁ w' := by
  induction sched generalizing p ps w₀ w with
  | nil => exact run_serial_alone hp hR hP' hi hq hw₀ hw h hrun
  | cons k sched ih =>
    rw [Async.interleave_cons] at hrun
    rcases hk : ps[k]? with _ | ⟨⟨⟩⟩ | ⟨e⟩ | ⟨u, n⟩ <;> rw [hk] at hrun
    · exact ih hp hi hq hw₀ hw h hrun
    · exact ih hp hi hq hw₀ hw h hrun
    · simp at hrun
    rw [Async.run_step] at hrun
    have hlt : k < ps.length := (List.getElem?_eq_some_iff.mp hk).1
    by_cases hki : k = i
    · -- The thread itself moves.
      subst hki
      obtain rfl : p = .step u n := by simpa using hi.symm.trans hk
      obtain ⟨hu, hn, hnext⟩ := hp
      have hpath : n w = n w₀ := hn w₀ w (h.agree hR)
      rw [hpath] at hrun
      refine ih (hnext w₀ hw₀).2 (by simp [hlt]) (fun j q hj hne => ?_) (hnext w₀ hw₀).1
        (hnext w hw).1 (h.sends hu) hrun
      exact hq j q (by rwa [List.getElem?_set_ne (Ne.symm hne)] at hj) hne
    · -- Another thread moves.
      obtain ⟨hu, hnext⟩ := hq k _ hk hki
      refine ih hp (by rwa [List.getElem?_set_ne hki]) (fun j q hj hne => ?_) hw₀ (hnext w hw).1
        (h.trans (Sends.sameOn hP' hu w)) hrun
      by_cases hjk : j = k
      · subst hjk
        obtain rfl : n w = q := by simpa [hlt] using hj
        exact (hnext w hw).2
      · exact hq j q (by rwa [List.getElem?_set_ne (Ne.symm hjk)] at hj) hne

/-! ### Success among others -/

section Success

variable {reads : ℕ → Conn → κ → Prop} {sends : ℕ → Conn → Write κ ρ → Prop} {S : ℕ → κ → Prop}
  {ps : List (Async (Session κ ρ) ε Unit)}

private theorem succeeds_serial_of_alone
    (hfp : ∀ i p, ps[i]? = some p → FootprintIn I (reads i) (sends i) p)
    (hR : ∀ i conn c, reads i conn c → S i c) (hP : ∀ i j, i ≠ j → LeavesAlone (sends i) (S j))
    {w : Session κ ρ} (hw : I w) (hok : ∀ p ∈ ps, p.Succeeds w) :
    (Async.serial ps).Succeeds w := by
  induction ps generalizing reads sends S w with
  | nil => exact ⟨(), w, rfl⟩
  | cons p ps ih =>
    obtain ⟨⟨⟩, t, hp⟩ := hok p List.mem_cons_self
    have hfirst := hfp 0 p rfl
    have ht : I t := hfirst.confinedIn.run_invariant hw hp
    have hfp' : ∀ i q, ps[i]? = some q → FootprintIn I (reads (i + 1)) (sends (i + 1)) q :=
      fun i q hq => hfp (i + 1) q (by simpa using hq)
    have hok' : ∀ q ∈ ps, q.Succeeds t := by
      intro q hq
      obtain ⟨i, hi⟩ := List.mem_iff_getElem?.mp hq
      obtain ⟨⟨⟩, v, hv⟩ := hok q (List.mem_cons_of_mem p hq)
      have hsame := (hfirst.confinedIn.run_sameOn (hP 0 (i + 1) (by omega)) hw hp).2
      have hpath := ((hfp' i q hi).run_sameOn (hR (i + 1)) hw ht hsame).1
      exact ⟨(), (q.run t).2, Prod.ext (by rw [hpath, hv]) rfl⟩
    obtain ⟨⟨⟩, w', hw'⟩ := ih hfp' (fun i => hR (i + 1))
      (fun i j hij => hP (i + 1) (j + 1) (by omega)) ht hok'
    exact ⟨(), w', Async.run_bind_ok.mpr ⟨(), t, hp, hw'⟩⟩

/-- Threads that succeed alone succeed together, if each leaves alone what the others read. -/
theorem succeeds_interleave_of_alone (sched : List ℕ)
    (hfp : ∀ i p, ps[i]? = some p → FootprintIn I (reads i) (sends i) p)
    (hR : ∀ i conn c, reads i conn c → S i c) (hP : ∀ i j, i ≠ j → LeavesAlone (sends i) (S j))
    {w : Session κ ρ} (hw : I w) (hok : ∀ p ∈ ps, p.Succeeds w) :
    (Async.interleave sched ps).Succeeds w := by
  induction sched generalizing ps w with
  | nil => exact succeeds_serial_of_alone hfp hR hP hw hok
  | cons k sched ih =>
    rw [Async.interleave_cons]
    rcases hk : ps[k]? with _ | ⟨a⟩ | ⟨e⟩ | ⟨u, n⟩
    · exact ih hfp hw hok
    · exact ih hfp hw hok
    · obtain ⟨a, t, ht⟩ := hok _ (List.mem_of_getElem? hk)
      simp at ht
    obtain ⟨hu, hn, hnext⟩ := hfp k _ hk
    have hlt : k < ps.length := (List.getElem?_eq_some_iff.mp hk).1
    -- What a pool with one thread advanced holds at each place.
    have hset : ∀ i q, (ps.set k (n w))[i]? = some q →
        i = k ∧ q = n w ∨ i ≠ k ∧ ps[i]? = some q := by
      intro i q hi
      by_cases hik : i = k
      · subst hik
        exact .inl ⟨rfl, by simpa [hlt] using hi.symm⟩
      · exact .inr ⟨hik, by rwa [List.getElem?_set_ne (Ne.symm hik)] at hi⟩
    have hgoal : (Async.interleave sched (ps.set k (n w))).Succeeds (u w) := by
      refine ih (fun i q hi => ?_) (hnext w hw).1 fun q hq => ?_
      · rcases hset i q hi with ⟨rfl, rfl⟩ | ⟨-, hi⟩
        · exact (hnext w hw).2
        · exact hfp i q hi
      · obtain ⟨i, hi⟩ := List.mem_iff_getElem?.mp hq
        rcases hset i q hi with ⟨rfl, rfl⟩ | ⟨hne, hi⟩
        · exact hok _ (List.mem_of_getElem? hk)
        · obtain ⟨a, t, ht⟩ := hok q (List.mem_of_getElem? hi)
          have hsame := Sends.sameOn (hP k i (Ne.symm hne)) hu w
          have hpath := ((hfp i q hi).run_sameOn (hR i) hw (hnext w hw).1 hsame).1
          exact ⟨a, (q.run (u w)).2, Prod.ext (by rw [hpath, ht]) rfl⟩
    exact hgoal

end Success

end Guarded

/-- The rule for programs that rely on nothing. -/
theorem Footprint.run_interleave_alone {S : κ → Prop} {p : Async (Session κ ρ) ε Unit}
    (hp : Footprint R P p) (hR : ∀ conn c, R conn c → S c) (hP' : LeavesAlone P' S)
    {sched : List ℕ} {ps : List (Async (Session κ ρ) ε Unit)} {i : ℕ} (hi : ps[i]? = some p)
    (hq : ∀ j q, ps[j]? = some q → j ≠ i → Confined P' q) {w₀ w w' : Session κ ρ}
    (h : SameOn S w₀ w) (hrun : (Async.interleave sched ps).run w = (.ok (), w')) :
    ∃ w₁, p.run w₀ = (.ok (), w₁) ∧ SameOn S w₁ w' := by
  refine hp.footprintIn.run_interleave_alone hR hP' hi (fun j q hj hne => ?_) trivial trivial h hrun
  exact (hq j q hj hne).confinedIn

end Session

end SwaptoshiService
