import SwaptoshiService.Indexer.KlyusdPrices
import SwaptoshiService.Lib.Run
import SwaptoshiService.Lib.Settle

/-!
# The historical KLYUSD prices and their queues

`addGenesisPriceIndex` leaves the historical jobs to queues that run several jobs at a time and
try a job that **failed** once more, up to five times in all. Meanwhile the live jobs of the
blocks write to the same tables. `QueueStep` lists what may happen next: an attempt starts with
an answer of the market, a program makes one atomic step, an attempt fails or completes, a live
job arrives. A failed attempt does not take back what it wrote, and the statements it has in
flight may still be executed.

A job whose first candle has a row is taken to be done already. No candle is lost in the runs in
which this is so whenever an attempt looks (`no_candle_lost`), and any look that finds the first
row but not all of them loses one.
-/

namespace SwaptoshiService

open Session

/-- An attempt at a historical job. -/
structure Attempt where
  job : PreviousJob
  /-- The attempts that remain to the job if this one fails. -/
  attemptsLeft : ℕ
  /-- What the market returned for the batch. -/
  klyCandles : List Candle
  /-- The attempt has made its first step, which looks up the row of the first candle. -/
  looked : Bool
  /-- What remains to be done. -/
  rest : Prog Unit

/-- The tables and the queues. -/
structure PriceQueues where
  session : DBSession
  /-- The jobs that wait for an attempt, with the number of attempts left. -/
  waiting : List (PreviousJob × ℕ)
  active : List Attempt
  /-- The live jobs, and what failed attempts still have in flight. -/
  loose : List (Prog Unit)
  /-- The jobs that completed, with the candles they got from the market. -/
  completed : List (PreviousJob × List Candle)

/-- The steps of the queues; those of an attempt carry its place. -/
inductive QueueAction
  | start
  | advance (i : ℕ)
  | complete
  | fail
  | live
  | advanceLoose
  | other

/-- One step. -/
inductive QueueStep (env : Env) : PriceQueues → QueueAction → PriceQueues → Prop
  | start {s : PriceQueues} {job : PreviousJob} {n : ℕ} (i : ℕ) (order : List ℕ) (market : Market)
      (hi : s.waiting[i]? = some (job, n + 1)) :
      QueueStep env s .start
        { s with
          waiting := s.waiting.eraseIdx i
          active := ⟨job, n, (job.candles env market).getD [], false,
            job.program env order market⟩ :: s.active }
  | advance {s : PriceQueues} {a : Attempt} {u : DBSession → DBSession}
      {n : DBSession → Prog Unit} (i : ℕ) (hi : s.active[i]? = some a) (ha : a.rest = .step u n) :
      QueueStep env s (.advance i)
        { s with
          session := u s.session
          active := s.active.set i { a with looked := true, rest := n s.session } }
  | complete {s : PriceQueues} {a : Attempt} (i : ℕ) (hi : s.active[i]? = some a)
      (ha : a.rest = .pure ()) :
      QueueStep env s .complete
        { s with
          active := s.active.eraseIdx i
          completed := (a.job, a.klyCandles) :: s.completed }
  /-- A statement or a request fails, the attempt times out or its process dies. -/
  | fail {s : PriceQueues} {a : Attempt} (i : ℕ) (hi : s.active[i]? = some a) :
      QueueStep env s .fail
        { s with
          waiting := (a.job, a.attemptsLeft) :: s.waiting
          active := s.active.eraseIdx i
          loose := a.rest :: s.loose }
  | live {s : PriceQueues} (order : List ℕ) (market : Market) (timestamp : ℕ) :
      QueueStep env s .live
        { s with loose := indexCurrentKLYUSDPrice env order market timestamp :: s.loose }
  | advanceLoose {s : PriceQueues} {u : DBSession → DBSession} {n : DBSession → Prog Unit} (i : ℕ)
      (hi : s.loose[i]? = some (.step u n)) :
      QueueStep env s .advanceLoose
        { s with session := u s.session, loose := s.loose.set i (n s.session) }
  /-- The rest of the indexer leaves the KLYUSD tables alone. -/
  | other {s : PriceQueues} (w : DBSession) (h : ∀ (job : PreviousJob) (t : ℕ),
      w.committed.get (job.cell t) = s.session.committed.get (job.cell t)) :
      QueueStep env s .other { s with session := w }

namespace PriceQueues

/-- The historical jobs have just been enqueued, with five attempts each. -/
def genesis (env : Env) (timestamp currentTimestamp : ℕ) (session : DBSession) : PriceQueues :=
  { session
    waiting := (addGenesisPriceIndex env timestamp currentTimestamp).map fun job => (job, 5)
    active := []
    loose := []
    completed := [] }

/-- The candle has a row in the table of the job, at its start time. -/
def HasRow (s : PriceQueues) (job : PreviousJob) (c : Candle) : Prop :=
  (s.session.committed.get (job.cell c.start)).isSome

/-- Every candle of every completed batch has a row. -/
def NoCandleLost (s : PriceQueues) : Prop :=
  ∀ job klyCandles, (job, klyCandles) ∈ s.completed → ∀ c ∈ klyCandles, s.HasRow job c

/-- An attempt that looks up its first candle and finds a row **skips nothing**: all candles of
its batch have rows already. -/
def SkipsNothing (s : PriceQueues) : QueueAction → Prop
  | .advance i => ∀ a c, s.active[i]? = some a → a.looked = false → a.klyCandles.head? = some c →
      s.HasRow a.job c → ∀ c' ∈ a.klyCandles, s.HasRow a.job c'
  | _ => True

end PriceQueues

/-! ### Programs that only add rows -/

/-- The statement removes no row. -/
def Adds (_ : Conn) (st : Stmt) : Prop := ∀ c r, (st.act c (some r)).isSome

/-- A KLYUSD row is there; the goals that the jobs work towards. -/
def KlyusdRow (k : PreviousJob × ℕ) (w : DBSession) : Prop :=
  (w.committed.get (k.1.cell k.2)).isSome

/-- No invariant besides the goals. -/
private def Anything (_ : DBSession) : Prop := True

private theorem adds_upsertRow (conn : Conn) (c : Cell) [Inhabited (Row c)] (set : Row c → Row c) :
    Adds conn (Table.upsertRow c set) := by
  intro c' r
  by_cases hc : c' = c
  · subst hc
    rw [Table.upsertRow_act_self]
    rfl
  · rw [Table.upsertRow_fixes hc]
    rfl

private theorem klyusdRow_send {conn : Conn} {st : Stmt} (h : Adds conn st)
    {k : PreviousJob × ℕ} {w : DBSession} (hk : KlyusdRow k w) : KlyusdRow k (send conn st w) := by
  cases conn with
  | default =>
    obtain ⟨r, hr⟩ := Option.isSome_iff_exists.mp hk
    rw [KlyusdRow, send_default_committed, Write.exec_get, hr]
    exact h _ r
  | dbTrx => exact hk

private theorem klyusdRow_sends {u : DBSession → DBSession} (h : Sends Adds u)
    {k : PreviousJob × ℕ} {w : DBSession} (hk : KlyusdRow k w) : KlyusdRow k (u w) := by
  obtain rfl | ⟨conn, st, hst, rfl⟩ := h
  · exact hk
  · exact klyusdRow_send hst hk

private theorem confined_upsert_adds {conn : Conn} {c : Cell} [Inhabited (Row c)]
    {set : Row c → Row c} : Confined Adds (Table.upsert conn c set : Prog Unit) :=
  confined_exec (adds_upsertRow conn c set)

private theorem confined_indexKLYUSDTickPrice (env : Env) (market : Market) (timestamp : ℕ) :
    Confined Adds (indexKLYUSDTickPrice env market timestamp) := by
  refine (confined_findRow _ _).bind fun row => ?_
  split
  · exact confined_pure ()
  refine ((confined_ofOption _ _).bind fun _ => confined_pure _).bind fun value => ?_
  split
  · split
    · exact confined_pure ()
    · exact confined_upsert_adds
  · exact confined_pure ()

private theorem confined_indexOhlc_adds (env : Env) (timestamp : ℕ) (pair timeframe : String) :
    Confined Adds (indexOhlc env .default timestamp pair timeframe) := by
  refine (confined_findRow _ _).bind fun row => ?_
  split
  · exact confined_pure ()
  refine (confined_query _ _).bind fun ohlc => ?_
  split
  · exact confined_upsert_adds
  · exact confined_pure ()

/-- The live job removes no row. -/
private theorem confined_indexCurrentKLYUSDPrice (env : Env) (order : List ℕ) (market : Market)
    (timestamp : ℕ) : Confined Adds (indexCurrentKLYUSDPrice env order market timestamp) := by
  refine (confined_indexKLYUSDTickPrice _ _ _).bind fun _ => Confined.interleave fun p hp => ?_
  obtain ⟨timeframe, -, rfl⟩ := List.mem_map.mp hp
  exact confined_indexOhlc_adds _ _ _ _

/-! ### The programs of the historical jobs -/

/-- The rows of the candles of a batch. -/
def batchRows (job : PreviousJob) (klyCandles : List Candle) : Set (PreviousJob × ℕ) :=
  {k | ∃ c ∈ klyCandles, k = (job, c.start)}

private theorem meets_upsert (job : PreviousJob) (t : ℕ) (r : Row (job.cell t))
    (X : Set (PreviousJob × ℕ)) :
    (Table.upsert .default (job.cell t) (fun _ => r) : Prog Unit).Meets Anything KlyusdRow X
      {(job, t)} := by
  refine Async.meets_act fun w _ _ => ⟨trivial, fun k hk => ?_, fun k hk => ?_⟩
  · exact klyusdRow_send (adds_upsertRow _ _ _) hk
  · obtain rfl : k = (job, t) := hk
    rw [KlyusdRow, send_default_committed, Write.exec_get, Table.upsertRow_act_self]
    rfl

/-- What the candles after the first look come to. -/
private theorem indexPreviousCandles_cons (order : List ℕ) (job : PreviousJob)
    (row : (c : Candle) → Row (job.cell c.start)) (c : Candle) (cs : List Candle) :
    ∃ p, (indexPreviousCandles order job.cell row (c :: cs) = .step id fun w =>
        if (w.committed.get (job.cell c.start)).isSome then .pure () else p) ∧
      Confined Adds p ∧ ∀ X, p.Meets Anything KlyusdRow X (batchRows job (c :: cs)) := by
  refine ⟨Async.interleave order ((c :: cs).map fun c =>
    Table.upsert .default (job.cell c.start) fun _ => row c), rfl, ?_, fun X => ?_⟩
  · refine Confined.interleave fun p hp => ?_
    obtain ⟨c', -, rfl⟩ := List.mem_map.mp hp
    exact confined_upsert_adds
  · refine Async.Meets.interleave order (fun p hp => ?_) fun k hk => .inr ?_
    · obtain ⟨c', -, rfl⟩ := List.mem_map.mp hp
      exact (meets_upsert job c'.start (row c') X).mono (Set.Subset.refl X) (Set.empty_subset _)
    · obtain ⟨c', hc', rfl⟩ := hk
      exact ⟨_, List.mem_map_of_mem hc', meets_upsert job c'.start (row c') X⟩

/-- A historical job fails at once, has nothing to do, or looks up its first candle and then
either stops or writes the whole batch. -/
private theorem program_cases (env : Env) (order : List ℕ) (market : Market) (job : PreviousJob) :
    (job.candles env market = none ∧ job.program env order market = .throw marketUnavailable) ∨
    (job.candles env market = some [] ∧ job.program env order market = .pure ()) ∨
    ∃ c cs p, job.candles env market = some (c :: cs) ∧
      (job.program env order market = .step id fun w =>
        if (w.committed.get (job.cell c.start)).isSome then .pure () else p) ∧
      Confined Adds p ∧ ∀ X, p.Meets Anything KlyusdRow X (batchRows job (c :: cs)) := by
  have hprogram : ∃ f : List Candle → Prog Unit, f [] = .pure () ∧
      (job.program env order market = .ofOption marketUnavailable (job.candles env market) >>= f) ∧
      ∀ c cs, ∃ p, (f (c :: cs) = .step id fun w =>
          if (w.committed.get (job.cell c.start)).isSome then .pure () else p) ∧
        Confined Adds p ∧ ∀ X, p.Meets Anything KlyusdRow X (batchRows job (c :: cs)) := by
    have hnil : ∀ (cell : ℕ → Cell) [∀ t, Inhabited (Row (cell t))]
        (row : (c : Candle) → Row (cell c.start)),
        indexPreviousCandles order cell row [] = .pure () := by
      intro cell _ row
      induction order with
      | nil => rfl
      | cons i order ih => exact ih
    cases job with
    | tick lo hi =>
      exact ⟨_, hnil _ _, rfl, indexPreviousCandles_cons order (.tick lo hi) Candle.tick⟩
    | ohlc timeframe lo hi =>
      exact ⟨_, hnil _ _, rfl,
        indexPreviousCandles_cons order (.ohlc timeframe lo hi) Candle.ohlc⟩
  obtain ⟨f, hnil, hprog, hcons⟩ := hprogram
  rcases hc : job.candles env market with _ | _ | ⟨c, cs⟩
  · rw [hprog, hc]
    exact .inl ⟨rfl, rfl⟩
  · rw [hprog, hc]
    exact .inr (.inl ⟨rfl, hnil⟩)
  · obtain ⟨p, hp, hadds, hmeets⟩ := hcons c cs
    rw [hprog, hc]
    exact .inr (.inr ⟨c, cs, p, rfl, hp, hadds, hmeets⟩)

/-! ### Runs -/

section Runs

variable {env : Env}

/-- An attempt that has looked will have written its batch when it ends; before that it is at its
very beginning. -/
structure Attempt.Sound (env : Env) (w : DBSession) (a : Attempt) : Prop where
  adds : Confined Adds a.rest
  fresh : a.looked = false → ∃ order market,
    a.klyCandles = (a.job.candles env market).getD [] ∧ a.rest = a.job.program env order market
  meets : a.looked = true → ∃ X, (∀ k ∈ X, KlyusdRow k w) ∧
    a.rest.Meets Anything KlyusdRow X (batchRows a.job a.klyCandles)

/-- The invariant of the runs. -/
structure PriceQueues.Sound (env : Env) (s : PriceQueues) : Prop where
  active : ∀ a ∈ s.active, a.Sound env s.session
  loose : ∀ p ∈ s.loose, Confined Adds p
  kept : s.NoCandleLost

private theorem Attempt.Sound.mono {w w' : DBSession} {a : Attempt} (h : a.Sound env w)
    (hw : ∀ k, KlyusdRow k w → KlyusdRow k w') : a.Sound env w' := by
  refine ⟨h.adds, h.fresh, fun hl => ?_⟩
  obtain ⟨X, hX, hmeets⟩ := h.meets hl
  exact ⟨X, fun k hk => hw k (hX k hk), hmeets⟩

private theorem noCandleLost_mono {s : PriceQueues} {w : DBSession} (h : s.NoCandleLost)
    (hw : ∀ k, KlyusdRow k s.session → KlyusdRow k w) :
    ({ s with session := w } : PriceQueues).NoCandleLost :=
  fun job klyCandles hjob c hc => hw (job, c.start) (h job klyCandles hjob c hc)

/-- A fresh attempt is sound. -/
private theorem sound_start (order : List ℕ) (market : Market) (job : PreviousJob) (n : ℕ)
    (w : DBSession) :
    Attempt.Sound env w
      ⟨job, n, (job.candles env market).getD [], false, job.program env order market⟩ := by
  refine ⟨?_, fun _ => ⟨order, market, rfl, rfl⟩, fun h => absurd h Bool.false_ne_true⟩
  obtain ⟨-, hp⟩ | ⟨-, hp⟩ | ⟨c, cs, p, -, hp, hadds, -⟩ := program_cases env order market job
  · exact hp ▸ confined_throw _
  · exact hp ▸ confined_pure ()
  · refine hp ▸ ⟨.inl rfl, fun w => ?_⟩
    dsimp only
    split
    · exact confined_pure ()
    · exact hadds

/-- **One step of an attempt.** The first one looks; under the condition what it skips has been
written already. -/
private theorem sound_advance {s : PriceQueues} {i : ℕ} {a : Attempt} {u : DBSession → DBSession}
    {n : DBSession → Prog Unit} (h : a.Sound env s.session) (hi : s.active[i]? = some a)
    (ha : a.rest = .step u n) (hskip : s.SkipsNothing (.advance i)) :
    Attempt.Sound env (u s.session) { a with looked := true, rest := n s.session } := by
  have hadds : Confined Adds (.step u n) := ha ▸ h.adds
  refine ⟨hadds.2 s.session, fun hl => absurd hl.symm Bool.false_ne_true, fun _ => ?_⟩
  cases hl : a.looked with
  | true =>
    obtain ⟨X, hX, hmeets⟩ := h.meets hl
    rw [ha] at hmeets
    exact ⟨_, fun k hk => hk, (hmeets s.session trivial hX).2.2⟩
  | false =>
    obtain ⟨order, market, hc, hp⟩ := h.fresh hl
    obtain ⟨-, hp'⟩ | ⟨-, hp'⟩ | ⟨c, cs, p, hcs, hp', -, hmeets⟩ :=
      program_cases env order market a.job
    · rw [ha, hp'] at hp
      cases hp
    · rw [ha, hp'] at hp
      cases hp
    rw [ha, hp'] at hp
    obtain ⟨rfl, rfl⟩ : u = id ∧ n = _ := Async.step.inj hp
    have hcandles : a.klyCandles = c :: cs := by rw [hc, hcs, Option.getD_some]
    simp only [hcandles, id]
    split
    · rename_i hrow
      refine ⟨{k | KlyusdRow k s.session}, fun k hk => hk, ?_⟩
      rintro - ⟨c', hc', rfl⟩
      exact hskip a c hi hl (by rw [hcandles, List.head?_cons]) hrow c' (hcandles ▸ hc')
    · exact ⟨∅, fun k hk => absurd hk (Set.notMem_empty k), hmeets ∅⟩

/-- An attempt that completes has written its batch. -/
private theorem hasRow_complete {s : PriceQueues} {a : Attempt} (h : a.Sound env s.session)
    (ha : a.rest = .pure ()) : ∀ c ∈ a.klyCandles, s.HasRow a.job c := by
  intro c hc
  cases hl : a.looked with
  | true =>
    obtain ⟨X, hX, hmeets⟩ := h.meets hl
    rw [ha] at hmeets
    exact hX (a.job, c.start) (hmeets ⟨c, hc, rfl⟩)
  | false =>
    obtain ⟨order, market, hcandles, hp⟩ := h.fresh hl
    obtain ⟨hnone, -⟩ | ⟨hnil, -⟩ | ⟨c', cs, p, -, hp', -⟩ :=
      program_cases env order market a.job
    · rw [hcandles, hnone] at hc
      simp at hc
    · rw [hcandles, hnil] at hc
      simp at hc
    · rw [ha, hp'] at hp
      cases hp

/-- **One step of the queues.** -/
private theorem sound_step {s s' : PriceQueues} {act : QueueAction} (h : s.Sound env)
    (hok : s.SkipsNothing act) (hstep : QueueStep env s act s') : s'.Sound env := by
  cases hstep with
  | start i order market hi =>
    refine ⟨fun a ha => ?_, h.loose, h.kept⟩
    rcases List.mem_cons.mp ha with rfl | ha
    · exact sound_start order market _ _ _
    · exact h.active a ha
  | @advance a u n i hi ha =>
    have hmem : a ∈ s.active := List.mem_of_getElem? hi
    have hadds : Confined Adds (.step u n) := ha ▸ (h.active a hmem).adds
    have hrows : ∀ k, KlyusdRow k s.session → KlyusdRow k (u s.session) :=
      fun k => klyusdRow_sends hadds.1
    refine ⟨fun b hb => ?_, h.loose, noCandleLost_mono h.kept hrows⟩
    rcases List.mem_or_eq_of_mem_set hb with hb | rfl
    · exact (h.active b hb).mono hrows
    · exact sound_advance (h.active a hmem) hi ha hok
  | @complete a i hi ha =>
    have hmem : a ∈ s.active := List.mem_of_getElem? hi
    refine ⟨fun b hb => h.active b (List.mem_of_mem_eraseIdx hb), h.loose, ?_⟩
    -- The job that is done now has looked, or written, all its rows.
    intro job klyCandles hjob
    rcases List.mem_cons.mp hjob with hjob | hjob
    · obtain ⟨rfl, rfl⟩ := Prod.mk.inj hjob
      exact hasRow_complete (h.active a hmem) ha
    · exact h.kept job klyCandles hjob
  | @fail a i hi =>
    -- Writes that are under way go on when the attempt fails.
    refine ⟨fun b hb => h.active b (List.mem_of_mem_eraseIdx hb), fun p hp => ?_, h.kept⟩
    rcases List.mem_cons.mp hp with rfl | hp
    · exact (h.active a (List.mem_of_getElem? hi)).adds
    · exact h.loose p hp
  | live order market timestamp =>
    refine ⟨h.active, fun p hp => ?_, h.kept⟩
    rcases List.mem_cons.mp hp with rfl | hp
    · exact confined_indexCurrentKLYUSDPrice env order market timestamp
    · exact h.loose p hp
  | @advanceLoose u n i hi =>
    have hadds : Confined Adds (.step u n) := h.loose _ (List.mem_of_getElem? hi)
    have hrows : ∀ k, KlyusdRow k s.session → KlyusdRow k (u s.session) :=
      fun k => klyusdRow_sends hadds.1
    refine ⟨fun a ha => (h.active a ha).mono hrows, fun p hp => ?_, noCandleLost_mono h.kept hrows⟩
    rcases List.mem_or_eq_of_mem_set hp with hp | rfl
    · exact h.loose p hp
    · exact hadds.2 s.session
  | other w hw =>
    have hrows : ∀ k, KlyusdRow k s.session → KlyusdRow k w := fun k hk => by
      rw [KlyusdRow, hw k.1 k.2]
      exact hk
    exact ⟨fun a ha => (h.active a ha).mono hrows, h.loose, noCandleLost_mono h.kept hrows⟩

/-- A look that finds the first row but not all of them loses a candle: the attempt is done. -/
private theorem lost_of_skips {s : PriceQueues} (h : s.Sound env) {i : ℕ}
    (hskip : ¬ s.SkipsNothing (.advance i)) :
    ∃ s', Run (QueueStep env) Unrestricted s s' ∧ ¬ s'.NoCandleLost := by
  simp only [PriceQueues.SkipsNothing, not_forall] at hskip
  obtain ⟨a, c, hi, hl, hhead, hrow, c', hc', hlost⟩ := hskip
  obtain ⟨order, market, hcandles, hp⟩ := (h.active a (List.mem_of_getElem? hi)).fresh hl
  obtain ⟨hnone, -⟩ | ⟨hnil, -⟩ | ⟨c₀, cs, p, hcs, hp', -⟩ := program_cases env order market a.job
  · rw [hcandles, hnone] at hc'
    simp at hc'
  · rw [hcandles, hnil] at hc'
    simp at hc'
  obtain rfl : c₀ = c := by simpa [hcandles, hcs] using hhead
  have hlt : i < s.active.length := (List.getElem?_eq_some_iff.mp hi).1
  have hlook : QueueStep env s (.advance i) _ := .advance i hi (hp.trans hp')
  refine ⟨_, (Run.refl.tail hlook trivial).tail
    (.complete i (List.getElem?_set_self hlt) (by exact if_pos hrow)) trivial,
    fun hkept => hlost ?_⟩
  exact hkept a.job a.klyCandles List.mem_cons_self c' hc'

variable {timestamp currentTimestamp : ℕ} {session : DBSession} {s : PriceQueues}

private theorem sound_genesis :
    (PriceQueues.genesis env timestamp currentTimestamp session).Sound env :=
  ⟨fun _ ha => absurd ha List.not_mem_nil, fun _ hp => absurd hp List.not_mem_nil,
    fun _ _ hjob => absurd hjob List.not_mem_nil⟩

/-- **No historical candle is lost** in a run in which every attempt that finds a row for its
first candle skips nothing; a look that would skip something can be followed by the loss of a
candle. -/
theorem no_candle_lost (hrun : Run (QueueStep env) PriceQueues.SkipsNothing
      (.genesis env timestamp currentTimestamp session) s) :
    s.NoCandleLost ∧ ∀ i, ¬ s.SkipsNothing (.advance i) →
      ∃ s', Run (QueueStep env) Unrestricted s s' ∧ ¬ s'.NoCandleLost := by
  have hsound : s.Sound env :=
    hrun.invariant (PriceQueues.Sound env) sound_genesis fun _ _ _ => sound_step
  exact ⟨hsound.kept, fun i => lost_of_skips hsound⟩

end Runs

/-! ### Two runs -/

/-- The queues have completed all historical jobs of a chain. -/
def PriceQueues.AllCompleted (env : Env) (timestamp currentTimestamp : ℕ) (s : PriceQueues) :
    Prop :=
  ∀ job ∈ addGenesisPriceIndex env timestamp currentTimestamp,
    ∃ klyCandles, (job, klyCandles) ∈ s.completed

/-- Hourly candles besides the ticks of every minute. -/
def hourlyEnv : Env := { (default : Env) with ohlcTimeframes := ["1h"] }

/-- The candles of the first two minutes. -/
def minutes : List Candle := [⟨0, 1, 1, 1, 1⟩, ⟨60, 2, 2, 2, 2⟩]

/-- The candle of the first hour. -/
def hour : Candle := ⟨0, 1, 2, 1, 2⟩

/-- A market that knows no more. -/
def twoMinutes : Market := fun interval _ _ =>
  if interval = "1m" then some minutes else some [hour]

private theorem hourlyEnv_jobs :
    addGenesisPriceIndex hourlyEnv 0 120 = [.tick 0 43199, .ohlc "1h" 0 2591999] := by
  decide

private theorem allCompleted_hourly {s : PriceQueues}
    (h : s.completed = [(.ohlc "1h" 0 2591999, [hour]), (.tick 0 43199, minutes)]) :
    s.AllCompleted hourlyEnv 0 120 := by
  intro job hjob
  rw [hourlyEnv_jobs, List.mem_pair] at hjob
  rcases hjob with rfl | rfl
  · exact ⟨minutes, by simp [h]⟩
  · exact ⟨[hour], by simp [h]⟩

/-- The first attempt at the ticks fails between its two upserts. -/
private theorem exists_run_retry :
    ∃ s, Run (QueueStep hourlyEnv) Unrestricted (.genesis hourlyEnv 0 120 (.ofStore .empty)) s ∧
      s.completed = [(.ohlc "1h" 0 2591999, [hour]), (.tick 0 43199, minutes)] ∧
      s.session.committed.get (.tickPrice "klyusd" 60) = none :=
  ⟨_, Run.refl.tail (.start 0 [] twoMinutes rfl) trivial
    |>.tail (.advance 0 rfl rfl) trivial
    |>.tail (.advance 0 rfl rfl) trivial
    |>.tail (.fail 0 rfl) trivial
    -- The second attempt finds the row of the first candle.
    |>.tail (.start 0 [] twoMinutes rfl) trivial
    |>.tail (.advance 0 rfl rfl) trivial
    |>.tail (.complete 0 rfl rfl) trivial
    |>.tail (.start 0 [] twoMinutes rfl) trivial
    |>.tail (.advance 0 rfl rfl) trivial
    |>.tail (.advance 0 rfl rfl) trivial
    |>.tail (.complete 0 rfl rfl) trivial, rfl, rfl⟩

/-- A historical job that fails halfway and is tried again leaves the rest of its batch out. -/
theorem retry_loses_candle :
    ¬ ∀ (env : Env) (timestamp currentTimestamp : ℕ) (session : DBSession) (s : PriceQueues),
      Run (QueueStep env) Unrestricted (.genesis env timestamp currentTimestamp session) s →
      s.AllCompleted env timestamp currentTimestamp → s.NoCandleLost := by
  intro h
  obtain ⟨s, hrun, hcompleted, hnone⟩ := exists_run_retry
  have hkept := h _ _ _ _ s hrun (allCompleted_hourly hcompleted)
  have hrow : s.HasRow (.tick 0 43199) ⟨60, 2, 2, 2, 2⟩ :=
    hkept _ minutes (by simp [hcompleted]) _ (by simp [minutes])
  rw [PriceQueues.HasRow, PreviousJob.cell, hnone] at hrow
  exact absurd hrow Bool.false_ne_true

private theorem skipsNothing_of_looked {s : PriceQueues} {i : ℕ} {a : Attempt}
    (hi : s.active[i]? = some a) (hl : a.looked = true) : s.SkipsNothing (.advance i) := by
  intro b c hb hfresh
  obtain rfl : a = b := Option.some.inj (hi.symm.trans hb)
  rw [hl] at hfresh
  exact absurd hfresh.symm Bool.false_ne_true

private theorem skipsNothing_of_absent {s : PriceQueues} {i : ℕ} {a : Attempt} {c : Candle}
    (hi : s.active[i]? = some a) (hc : a.klyCandles.head? = some c)
    (hnone : s.session.committed.get (a.job.cell c.start) = none) :
    s.SkipsNothing (.advance i) := by
  intro b c' hb _ hc' hrow
  obtain rfl : a = b := Option.some.inj (hi.symm.trans hb)
  obtain rfl : c = c' := Option.some.inj (hc.symm.trans hc')
  rw [PriceQueues.HasRow, hnone] at hrow
  exact absurd hrow Bool.false_ne_true

/-- An attempt that fails between its look and its first upsert does no harm. -/
theorem no_candle_lost_hourly :
    ∃ s, Run (QueueStep hourlyEnv) PriceQueues.SkipsNothing
        (.genesis hourlyEnv 0 120 (.ofStore .empty)) s ∧
      s.AllCompleted hourlyEnv 0 120 ∧ s.NoCandleLost := by
  have hrun : ∃ s, Run (QueueStep hourlyEnv) PriceQueues.SkipsNothing
      (.genesis hourlyEnv 0 120 (.ofStore .empty)) s ∧
      s.completed = [(.ohlc "1h" 0 2591999, [hour]), (.tick 0 43199, minutes)] :=
    ⟨_, Run.refl.tail (.start 0 [] twoMinutes rfl) (by trivial)
      |>.tail (.advance 0 rfl rfl) (skipsNothing_of_absent rfl rfl rfl)
      |>.tail (.fail 0 rfl) (by trivial)
      |>.tail (.start 0 [] twoMinutes rfl) (by trivial)
      |>.tail (.advance 0 rfl rfl) (skipsNothing_of_absent rfl rfl rfl)
      |>.tail (.advance 0 rfl rfl) (skipsNothing_of_looked rfl rfl)
      |>.tail (.advance 0 rfl rfl) (skipsNothing_of_looked rfl rfl)
      |>.tail (.complete 0 rfl rfl) (by trivial)
      |>.tail (.start 0 [] twoMinutes rfl) (by trivial)
      |>.tail (.advance 0 rfl rfl) (skipsNothing_of_absent rfl rfl rfl)
      |>.tail (.advance 0 rfl rfl) (skipsNothing_of_looked rfl rfl)
      |>.tail (.complete 0 rfl rfl) (by trivial), rfl⟩
  obtain ⟨s, hrun, hcompleted⟩ := hrun
  exact ⟨s, hrun, allCompleted_hourly hcompleted, (no_candle_lost hrun).1⟩

end SwaptoshiService
