import SwaptoshiService.Lib.Store
import SwaptoshiService.Lib.Interleave

/-!
# Database sessions: committed rows and one open transaction

A `Session` is what the clients of a transactional store share: the committed rows, and the
statements the open transaction has issued so far. A statement sent on the `default`
connection is committed at once; a statement sent on the `dbTrx` connection is kept pending,
is visible to that connection only, and reaches the committed rows with `commit` — or never,
with `rollback`. Reads on a connection see that connection's view.

`Session.Confined` is the footprint rule: a program that issues only statements fixing a set of
keys leaves these keys alone, committed and pending, in any interleaving and wherever it is
cut off.
-/

namespace SwaptoshiService

universe u v

/-- The connection a statement is sent on. -/
inductive Conn
  | default
  | dbTrx
  deriving DecidableEq, Repr

/-- The committed rows, and the composition of the open transaction's statements. -/
structure Session (κ : Type u) (ρ : κ → Type v) where
  committed : Store κ ρ
  pending : Write κ ρ

namespace Session

variable {κ : Type} {ρ : κ → Type}

/-- A session without an open transaction. -/
def ofStore (s : Store κ ρ) : Session κ ρ := ⟨s, .nop⟩

@[simp] theorem ofStore_committed (s : Store κ ρ) : (ofStore s).committed = s := rfl

@[simp] theorem ofStore_pending (s : Store κ ρ) : (ofStore s).pending = .nop := rfl

/-- Open a transaction. -/
def start (w : Session κ ρ) : Session κ ρ := ofStore w.committed

/-- Roll the open transaction back. -/
def rollback (w : Session κ ρ) : Session κ ρ := ofStore w.committed

@[simp] theorem rollback_committed (w : Session κ ρ) : w.rollback.committed = w.committed := rfl

variable [DecidableEq κ]

/-- What a connection sees. -/
def view (w : Session κ ρ) : Conn → Store κ ρ
  | .default => w.committed
  | .dbTrx => w.pending.exec w.committed

@[simp] theorem view_ofStore (s : Store κ ρ) (conn : Conn) : (ofStore s).view conn = s := by
  cases conn with
  | default => rfl
  | dbTrx => exact Write.nop_exec s

/-- Send a statement. -/
def send (conn : Conn) (st : Write κ ρ) (w : Session κ ρ) : Session κ ρ :=
  match conn with
  | .default => { w with committed := st.exec w.committed }
  | .dbTrx => { w with pending := st.comp w.pending }

@[simp] theorem send_default_committed (st : Write κ ρ) (w : Session κ ρ) :
    (send .default st w).committed = st.exec w.committed := rfl

@[simp] theorem send_default_pending (st : Write κ ρ) (w : Session κ ρ) :
    (send .default st w).pending = w.pending := rfl

@[simp] theorem send_dbTrx_committed (st : Write κ ρ) (w : Session κ ρ) :
    (send .dbTrx st w).committed = w.committed := rfl

@[simp] theorem send_dbTrx_pending (st : Write κ ρ) (w : Session κ ρ) :
    (send .dbTrx st w).pending = st.comp w.pending := rfl

/-- The open transaction sees its own statements. -/
theorem view_send_dbTrx_get (st : Write κ ρ) (w : Session κ ρ) (c : κ) :
    ((send .dbTrx st w).view .dbTrx).get c = st.act c ((w.view .dbTrx).get c) := rfl

/-- Commit the open transaction. -/
def commit (w : Session κ ρ) : Session κ ρ := ofStore (w.pending.exec w.committed)

@[simp] theorem commit_committed (w : Session κ ρ) :
    w.commit.committed = w.pending.exec w.committed := rfl

/-! ### Transactions -/

/-- Run a program inside a transaction: commit when it succeeds, roll back when it fails. With
`fault = some n` the program is cut off after `n` atomic steps and rolled back. -/
def transact {ε : Type} (fault : Option ℕ) (e : ε) (p : Async (Session κ ρ) ε Unit)
    (s : Store κ ρ) : Except ε Unit × Store κ ρ :=
  match fault with
  | some n => (.error e, (p.runFor n (ofStore s)).rollback.committed)
  | none =>
    match p.run (ofStore s) with
    | (.ok (), w) => (.ok (), w.commit.committed)
    | (.error e, w) => (.error e, w.rollback.committed)

/-- A transaction commits what its program leaves behind, or ends with the committed rows of a
state the program passed through. -/
theorem transact_cases {ε : Type} (fault : Option ℕ) (e : ε) (p : Async (Session κ ρ) ε Unit)
    (s : Store κ ρ) :
    (∃ w, fault = none ∧ p.run (ofStore s) = (.ok (), w) ∧
      transact fault e p s = (.ok (), w.commit.committed)) ∨
    ∃ e' w, transact fault e p s = (.error e', w.committed) ∧
      ∀ I : Session κ ρ → Prop, p.Keeps I → I (ofStore s) → I w := by
  unfold transact
  cases fault with
  | some n => exact .inr ⟨e, p.runFor n (ofStore s), rfl, fun I hp hs => hp.runFor n hs⟩
  | none =>
    rcases hrun : p.run (ofStore s) with ⟨e' | ⟨⟨⟩⟩, w⟩
    · refine .inr ⟨e', w, by simp, fun I hp hs => ?_⟩
      simpa only [hrun] using hp.run hs
    · exact .inl ⟨w, rfl, rfl, by simp⟩

/-- A transaction succeeds when its program runs to its end undisturbed. -/
theorem transact_ok {ε : Type} {fault : Option ℕ} {e : ε} {p : Async (Session κ ρ) ε Unit}
    {s s' : Store κ ρ} :
    transact fault e p s = (.ok (), s') ↔
      fault = none ∧ ∃ w, p.run (ofStore s) = (.ok (), w) ∧ w.commit.committed = s' := by
  unfold transact
  cases fault with
  | some n => simp
  | none => rcases hp : p.run (ofStore s) with ⟨_ | ⟨⟨⟩⟩, w⟩ <;> simp

/-! ### Programs over a session -/

section Programs

variable {ε α β : Type}

/-- Send one statement. -/
def exec (conn : Conn) (st : Write κ ρ) : Async (Session κ ρ) ε Unit := .act (send conn st)

/-- Read the row under one key. -/
def findRow (conn : Conn) (c : κ) : Async (Session κ ρ) ε (Option (ρ c)) :=
  .read fun w => (w.view conn).get c

/-- Read anything a connection sees. -/
def query (conn : Conn) (f : Store κ ρ → α) : Async (Session κ ρ) ε α :=
  .read fun w => f (w.view conn)

/-- Change the row under one key if there is one, and return the number of rows affected. -/
def modifyRow (conn : Conn) (c : κ) (f : ρ c → ρ c) : Async (Session κ ρ) ε ℕ :=
  .step (send conn (.point c (Option.map f))) fun w =>
    .pure (if ((w.view conn).get c).isSome then 1 else 0)

theorem run_exec_bind (conn : Conn) (st : Write κ ρ) (f : Unit → Async (Session κ ρ) ε α)
    (w : Session κ ρ) : (exec conn st >>= f).run w = (f ()).run (send conn st w) := rfl

theorem run_query_bind (conn : Conn) (g : Store κ ρ → α) (f : α → Async (Session κ ρ) ε β)
    (w : Session κ ρ) : (query conn g >>= f).run w = (f (g (w.view conn))).run w := rfl

theorem succeeds_exec_iff (conn : Conn) (st : Write κ ρ) (w : Session κ ρ) :
    (exec conn st : Async (Session κ ρ) ε Unit).Succeeds w ↔ True :=
  iff_true_intro ⟨(), _, rfl⟩

theorem succeeds_exec_bind_iff (conn : Conn) (st : Write κ ρ)
    (f : Unit → Async (Session κ ρ) ε α) (w : Session κ ρ) :
    (exec conn st >>= f).Succeeds w ↔ (f ()).Succeeds (send conn st w) := Iff.rfl

theorem succeeds_findRow_bind_iff (conn : Conn) (c : κ)
    (f : Option (ρ c) → Async (Session κ ρ) ε α) (w : Session κ ρ) :
    (findRow conn c >>= f).Succeeds w ↔ (f ((w.view conn).get c)).Succeeds w := Iff.rfl

end Programs

/-! ### Footprints -/

section Footprint

variable {ε α β : Type}

/-- A state change that sends a statement satisfying `P`, or changes nothing. -/
def Sends (P : Conn → Write κ ρ → Prop) (u : Session κ ρ → Session κ ρ) : Prop :=
  u = id ∨ ∃ conn st, P conn st ∧ u = send conn st

/-- Every statement the program may send satisfies `P`. -/
def Confined (P : Conn → Write κ ρ → Prop) (p : Async (Session κ ρ) ε α) : Prop :=
  p.All (Sends P)

variable {P : Conn → Write κ ρ → Prop}

theorem confined_pure (a : α) : Confined P (.pure a : Async (Session κ ρ) ε α) := trivial

theorem confined_throw (e : ε) : Confined P (.throw e : Async (Session κ ρ) ε α) := trivial

theorem confined_ofOption (e : ε) (o : Option α) :
    Confined P (.ofOption e o : Async (Session κ ρ) ε α) := Async.all_ofOption e o

theorem confined_read (f : Session κ ρ → α) :
    Confined P (.read f : Async (Session κ ρ) ε α) := ⟨.inl rfl, fun _ => trivial⟩

theorem confined_findRow (conn : Conn) (c : κ) :
    Confined P (findRow conn c : Async (Session κ ρ) ε (Option (ρ c))) := confined_read _

theorem confined_query (conn : Conn) (f : Store κ ρ → α) :
    Confined P (query conn f : Async (Session κ ρ) ε α) := confined_read _

theorem confined_exec {conn : Conn} {st : Write κ ρ} (h : P conn st) :
    Confined P (exec conn st : Async (Session κ ρ) ε Unit) :=
  ⟨.inr ⟨conn, st, h, rfl⟩, fun _ => trivial⟩

theorem confined_modifyRow {conn : Conn} {c : κ} {f : ρ c → ρ c}
    (h : P conn (.point c (Option.map f))) :
    Confined P (modifyRow conn c f : Async (Session κ ρ) ε ℕ) :=
  ⟨.inr ⟨conn, _, h, rfl⟩, fun _ => trivial⟩

theorem Confined.bind {p : Async (Session κ ρ) ε α} {f : α → Async (Session κ ρ) ε β}
    (hp : Confined P p) (hf : ∀ a, Confined P (f a)) : Confined P (p >>= f) :=
  Async.All.bind hp hf

theorem Confined.serial {ps : List (Async (Session κ ρ) ε Unit)} (h : ∀ p ∈ ps, Confined P p) :
    Confined P (Async.serial ps) := Async.All.serial h

theorem Confined.interleave {sched : List ℕ} {ps : List (Async (Session κ ρ) ε Unit)}
    (h : ∀ p ∈ ps, Confined P p) : Confined P (Async.interleave sched ps) :=
  Async.All.interleave h

theorem Confined.mono {P' : Conn → Write κ ρ → Prop} {p : Async (Session κ ρ) ε α}
    (hp : Confined P p) (h : ∀ conn st, P conn st → P' conn st) : Confined P' p :=
  Async.All.mono hp fun _ hu => hu.imp_right fun ⟨conn, st, hst, hu⟩ => ⟨conn, st, h _ _ hst, hu⟩

/-- The statement changes only keys that `W` lists for its connection. -/
def Respects (W : Conn → κ → Prop) (conn : Conn) (st : Write κ ρ) : Prop :=
  ∀ c, ¬ W conn c → st.Fixes c

/-- A larger list of keys is no stronger a promise. -/
theorem Confined.widen {W W' : Conn → κ → Prop} {p : Async (Session κ ρ) ε α}
    (hp : Confined (Respects W) p) (h : ∀ conn c, W conn c → W' conn c) :
    Confined (Respects W') p :=
  hp.mono fun conn _ hst c hc => hst c fun hw => hc (h conn c hw)

/-- The part of a session under one key: its committed row, and what the open transaction
makes of it. -/
def SameAt (c : κ) (w w' : Session κ ρ) : Prop :=
  w'.committed.get c = w.committed.get c ∧ ∀ o, w'.pending.act c o = w.pending.act c o

omit [DecidableEq κ] in
theorem SameAt.refl (c : κ) (w : Session κ ρ) : SameAt c w w := ⟨rfl, fun _ => rfl⟩

omit [DecidableEq κ] in
theorem SameAt.trans {c : κ} {a b d : Session κ ρ} (h : SameAt c a b) (h' : SameAt c b d) :
    SameAt c a d := ⟨h'.1.trans h.1, fun o => (h'.2 o).trans (h.2 o)⟩

omit [DecidableEq κ] in
theorem SameAt.symm {c : κ} {a b : Session κ ρ} (h : SameAt c a b) : SameAt c b a :=
  ⟨h.1.symm, fun o => (h.2 o).symm⟩

/-- A statement that fixes a key does not change the session there. -/
theorem sameAt_send {conn : Conn} {st : Write κ ρ} {c : κ} (h : st.Fixes c)
    (w : Session κ ρ) : SameAt c w (send conn st w) := by
  cases conn with
  | default => exact ⟨h _, fun _ => rfl⟩
  | dbTrx => exact ⟨rfl, fun o => h _⟩

theorem SameAt.view {c : κ} {w w' : Session κ ρ} (h : SameAt c w w') (conn : Conn) :
    (w'.view conn).get c = (w.view conn).get c := by
  cases conn with
  | default => exact h.1
  | dbTrx => simp only [Session.view, Write.exec_get, h.1, h.2]

theorem view_send_point_of_ne {c c' : κ} (h : c' ≠ c) (conn conn' : Conn)
    (f : Option (ρ c) → Option (ρ c)) (w : Session κ ρ) :
    ((send conn (.point c f) w).view conn').get c' = (w.view conn').get c' :=
  (sameAt_send (Write.point_fixes h f) w).view conn'

private theorem sends_sameAt {c : κ} (hP : ∀ conn st, P conn st → st.Fixes c)
    {u : Session κ ρ → Session κ ρ} (hu : Sends P u) (w₀ : Session κ ρ) :
    ∀ w, SameAt c w₀ w → SameAt c w₀ (u w) := by
  rcases hu with rfl | ⟨conn, st, hst, rfl⟩
  · exact fun _ h => h
  · exact fun w h => h.trans (sameAt_send (hP conn st hst) w)

private theorem Confined.keeps_sameAt {p : Async (Session κ ρ) ε α} (hp : Confined P p) {c : κ}
    (hP : ∀ conn st, P conn st → st.Fixes c) (w : Session κ ρ) : p.Keeps (SameAt c w) :=
  Async.All.keeps (Async.All.mono hp fun _ hu => sends_sameAt hP hu w)

/-- **Frame.** A program all of whose statements fix a key leaves the session there alone. -/
theorem Confined.run_sameAt {p : Async (Session κ ρ) ε α} (hp : Confined P p) {c : κ}
    (hP : ∀ conn st, P conn st → st.Fixes c) (w : Session κ ρ) : SameAt c w (p.run w).2 :=
  (hp.keeps_sameAt hP w).run (SameAt.refl c w)

/-- A program whose statements on the default connection fix a key keeps its committed row. -/
theorem Confined.keeps_committed_get {p : Async (Session κ ρ) ε α} (hp : Confined P p) {c : κ}
    (hP : ∀ st, P .default st → st.Fixes c) (o : Option (ρ c)) :
    p.Keeps fun w => w.committed.get c = o := by
  refine Async.All.keeps (Async.All.mono hp fun u hu w hw => ?_)
  rcases hu with rfl | ⟨conn, st, hst, rfl⟩
  · exact hw
  · cases conn with
    | default => exact (hP st hst _).trans hw
    | dbTrx => exact hw

/-- A program whose statements in the transaction fix a key leaves what the transaction makes of
it. -/
theorem Confined.keeps_pending_act {p : Async (Session κ ρ) ε α} (hp : Confined P p) {c : κ}
    (hP : ∀ st, P .dbTrx st → st.Fixes c) (g : Option (ρ c) → Option (ρ c)) :
    p.Keeps fun w => ∀ o, w.pending.act c o = g o := by
  refine Async.All.keeps (Async.All.mono hp fun u hu w hw o => ?_)
  rcases hu with rfl | ⟨conn, st, hst, rfl⟩
  · exact hw o
  · cases conn with
    | default => exact hw o
    | dbTrx => exact (hP st hst _).trans (hw o)

/-- The committed rows are the given ones. -/
def CommittedIs (s : Store κ ρ) (w : Session κ ρ) : Prop := w.committed = s

/-- A program whose statements on the default connection change nothing keeps the committed
rows. -/
theorem Confined.keeps_committed {p : Async (Session κ ρ) ε α} (hp : Confined P p)
    (hP : ∀ st, P .default st → ∀ c, st.Fixes c) (s : Store κ ρ) : p.Keeps (CommittedIs s) := by
  refine Async.All.keeps (Async.All.mono hp fun u hu w hw => ?_)
  rcases hu with rfl | ⟨conn, st, hst, rfl⟩
  · exact hw
  · cases conn with
    | default =>
      have hfix : st.exec w.committed = w.committed :=
        Store.ext_get fun c => hP st hst c (w.committed.get c)
      exact hfix.trans hw
    | dbTrx => exact hw

end Footprint

end Session

end SwaptoshiService
