import SwaptoshiService.Indexer.DeleteBlocks
import SwaptoshiService.Lib.Run

/-!
# Requested deletions on their way through the queues

A deletion is requested by a delete-block message in the event message queue
(`messageProcessor.js`) or by a direct call of `scheduleBlockDeletion`, and is carried out by a
job of the `deleteIndexedBlocks` queue. Both processors catch their errors. Only on the last
allowed attempt do they put the work back into the queue; on every earlier one the error is
**swallowed**: the promise resolves, the queue takes the job for completed, and no further attempt
is made. The counter `attemptsMade` grows only when the promise of the processor rejects.

`DeletionStep` follows the jobs through both queues. No deletion is lost in a run in which no
attempt fails before its last allowed one (`deletions_not_lost`); a single earlier failure
loses one (`deletion_lost`).
-/

namespace SwaptoshiService

/-- The fields of a block that a deletion job carries. -/
structure BlockRef where
  id : BlockID
  height : ℕ
  deriving DecidableEq, Repr

/-- A delete-block job of the event message queue: waiting, active or to be retried. `scheduled`
notes that `deleteBlockProcessor` has called `scheduleBlockDeletion` in the current attempt. -/
structure EventJob where
  block : BlockRef
  attemptsMade : ℕ
  scheduled : Bool
  deriving DecidableEq, Repr

/-- A job of the `deleteIndexedBlocks` queue. `committed` notes that `deleteIndexedBlocks` has
committed in the current attempt. -/
structure DeleteJob where
  blocks : List BlockRef
  attemptsMade : ℕ
  committed : Bool
  deriving DecidableEq, Repr

/-- The tables, the two queues, and a record of what was requested and what was committed. -/
structure DeletionState where
  db : DB
  eventQueue : List EventJob
  deleteQueue : List DeleteJob
  requested : List BlockRef
  committed : List BlockRef

/-- What happens to the queues. -/
inductive DeletionAction
  | message (b : BlockRef)
  | request (bs : List BlockRef)
  | schedule (j : EventJob)
  | finishEvent (j : EventJob)
  | failEvent (j : EventJob)
  | rejectEvent (j : EventJob)
  | commit (j : DeleteJob)
  | finishDelete (j : DeleteJob)
  | failDelete (j : DeleteJob)
  | rejectDelete (j : DeleteJob)
  | other

/-- One step, with the number of attempts that the options of the queues allow. -/
inductive DeletionStep (attempts : ℕ) : DeletionState → DeletionAction → DeletionState → Prop
  /-- A delete-block message arrives. -/
  | message {s : DeletionState} (b : BlockRef) :
      DeletionStep attempts s (.message b)
        { s with eventQueue := s.eventQueue ++ [⟨b, 0, false⟩], requested := b :: s.requested }
  /-- `scheduleBlockDeletion` is called directly. -/
  | request {s : DeletionState} (bs : List BlockRef) :
      DeletionStep attempts s (.request bs)
        { s with deleteQueue := s.deleteQueue ++ [⟨bs, 0, false⟩], requested := bs ++ s.requested }
  /-- `deleteBlockProcessor` calls `scheduleBlockDeletion`. -/
  | schedule {s : DeletionState} {j : EventJob} (hj : j ∈ s.eventQueue) :
      DeletionStep attempts s (.schedule j)
        { s with
          eventQueue := s.eventQueue.erase j ++ [{ j with scheduled := true }]
          deleteQueue := s.deleteQueue ++ [⟨[j.block], 0, false⟩] }
  /-- `deleteBlockProcessor` returns. -/
  | finishEvent {s : DeletionState} {j : EventJob} (hj : j ∈ s.eventQueue)
      (hs : j.scheduled = true) :
      DeletionStep attempts s (.finishEvent j) { s with eventQueue := s.eventQueue.erase j }
  /-- `deleteBlockProcessor` throws: the error is caught, and the job completes. -/
  | failEvent {s : DeletionState} {j : EventJob} (hj : j ∈ s.eventQueue) :
      DeletionStep attempts s (.failEvent j)
        { s with eventQueue := s.eventQueue.erase j ++
            if j.attemptsMade = attempts - 1 then [⟨j.block, 0, false⟩] else [] }
  /-- The promise of the processor rejects, by its timeout or in the error handler. -/
  | rejectEvent {s : DeletionState} {j : EventJob} (hj : j ∈ s.eventQueue) :
      DeletionStep attempts s (.rejectEvent j)
        { s with eventQueue := s.eventQueue.erase j ++
            if j.attemptsMade + 1 < attempts then [⟨j.block, j.attemptsMade + 1, false⟩] else [] }
  /-- `deleteIndexedBlocks` commits. -/
  | commit {s : DeletionState} {j : DeleteJob} {env : Env} {view : DeletionView} {db : DB}
      (hj : j ∈ s.deleteQueue)
      (hrun : deleteIndexedBlocks env view none (j.blocks.map (·.height)) s.db = (.ok (), db)) :
      DeletionStep attempts s (.commit j)
        { s with
          db
          deleteQueue := s.deleteQueue.erase j ++ [{ j with committed := true }]
          committed := j.blocks ++ s.committed }
  /-- `deleteIndexedBlocks` returns. -/
  | finishDelete {s : DeletionState} {j : DeleteJob} (hj : j ∈ s.deleteQueue)
      (hc : j.committed = true) :
      DeletionStep attempts s (.finishDelete j) { s with deleteQueue := s.deleteQueue.erase j }
  /-- `deleteIndexedBlocks` throws, before or after its commit: the wrapper catches the error,
  and the job completes. -/
  | failDelete {s : DeletionState} {j : DeleteJob} {db : DB} (hj : j ∈ s.deleteQueue)
      (hrun : (j.committed = true ∧ db = s.db) ∨ ∃ env view fault e,
        deleteIndexedBlocks env view fault (j.blocks.map (·.height)) s.db = (.error e, db)) :
      DeletionStep attempts s (.failDelete j)
        { s with
          db
          deleteQueue := s.deleteQueue.erase j ++
            if j.attemptsMade = attempts - 1 then [⟨j.blocks, 0, false⟩] else [] }
  /-- The promise of the wrapper rejects, by its timeout or in one of the handlers. -/
  | rejectDelete {s : DeletionState} {j : DeleteJob} (hj : j ∈ s.deleteQueue) :
      DeletionStep attempts s (.rejectDelete j)
        { s with deleteQueue := s.deleteQueue.erase j ++
            if j.attemptsMade + 1 < attempts then [⟨j.blocks, j.attemptsMade + 1, false⟩] else [] }
  /-- Other jobs change the tables. -/
  | other {s : DeletionState} (db : DB) : DeletionStep attempts s .other { s with db }

namespace DeletionState

/-- The deletion has been committed, or a job of the `deleteIndexedBlocks` queue carries it. -/
def Scheduled (s : DeletionState) (b : BlockRef) : Prop :=
  b ∈ s.committed ∨ ∃ j ∈ s.deleteQueue, b ∈ j.blocks

/-- The deletion has been committed, or a job of one of the queues carries it. -/
def Kept (s : DeletionState) (b : BlockRef) : Prop :=
  s.Scheduled b ∨ ∃ j ∈ s.eventQueue, j.block = b

/-- A failing attempt either has done its work already or is followed by another one. -/
def NotSwallowed (attempts : ℕ) (_ : DeletionState) : DeletionAction → Prop
  | .failEvent j => j.scheduled = true ∨ j.attemptsMade = attempts - 1
  | .rejectEvent j => j.scheduled = true ∨ j.attemptsMade + 1 < attempts
  | .failDelete j => j.committed = true ∨ j.attemptsMade = attempts - 1
  | .rejectDelete j => j.committed = true ∨ j.attemptsMade + 1 < attempts
  | _ => True

/-- The invariant: every requested deletion is kept, event jobs that have scheduled their
deletion may go, and so may deletion jobs that have committed theirs. -/
structure Accounted (s : DeletionState) : Prop where
  kept : ∀ b ∈ s.requested, s.Kept b
  scheduled : ∀ j ∈ s.eventQueue, j.scheduled = true → s.Scheduled j.block
  committed : ∀ j ∈ s.deleteQueue, j.committed = true → ∀ b ∈ j.blocks, b ∈ s.committed

variable {s : DeletionState}

/-- A job leaves the event queue and others take its place. -/
private theorem Accounted.replaceEvent (hs : s.Accounted) {j : EventJob}
    {extra : List EventJob} (hkeep : s.Scheduled j.block ∨ ∃ j' ∈ extra, j'.block = j.block)
    (hextra : ∀ j' ∈ extra, j'.scheduled = true → s.Scheduled j'.block) :
    Accounted { s with eventQueue := s.eventQueue.erase j ++ extra } where
  kept b hb := by
    rcases hs.kept b hb with h | ⟨j', hj', rfl⟩
    · exact .inl h
    by_cases heq : j' = j
    · subst heq
      rcases hkeep with h | ⟨j'', hj'', h⟩
      · exact .inl h
      · exact .inr ⟨j'', List.mem_append_right _ hj'', h⟩
    · exact .inr ⟨j', List.mem_append_left _ ((List.mem_erase_of_ne heq).mpr hj'), rfl⟩
  scheduled j' hj' hsched := by
    rcases List.mem_append.mp hj' with h | h
    · exact hs.scheduled j' (List.mem_of_mem_erase h) hsched
    · exact hextra j' h hsched
  committed := hs.committed

/-- A job leaves the deletion queue, others take its place, and more may be committed. -/
private theorem Accounted.replaceDelete (hs : s.Accounted) {j : DeleteJob}
    {extra : List DeleteJob} {db : DB} {committed : List BlockRef}
    (hsub : ∀ b ∈ s.committed, b ∈ committed)
    (hkeep : ∀ b ∈ j.blocks, b ∈ committed ∨ ∃ j' ∈ extra, b ∈ j'.blocks)
    (hextra : ∀ j' ∈ extra, j'.committed = true → ∀ b ∈ j'.blocks, b ∈ committed) :
    Accounted { s with db, committed, deleteQueue := s.deleteQueue.erase j ++ extra } := by
  -- A scheduled deletion stays scheduled.
  have hsched : ∀ b, s.Scheduled b → Scheduled
      { s with db, committed, deleteQueue := s.deleteQueue.erase j ++ extra } b := by
    rintro b (hb | ⟨j', hj', hb⟩)
    · exact .inl (hsub b hb)
    by_cases heq : j' = j
    · subst heq
      rcases hkeep b hb with h | ⟨j'', hj'', h⟩
      · exact .inl h
      · exact .inr ⟨j'', List.mem_append_right _ hj'', h⟩
    · exact .inr ⟨j', List.mem_append_left _ ((List.mem_erase_of_ne heq).mpr hj'), hb⟩
  refine ⟨fun b hb => (hs.kept b hb).imp_left (hsched b), fun j' hj' h =>
    hsched _ (hs.scheduled j' hj' h), fun j' hj' hc b hb => ?_⟩
  rcases List.mem_append.mp hj' with h | h
  · exact hsub b (hs.committed j' (List.mem_of_mem_erase h) hc b hb)
  · exact hextra j' h hc b hb

/-- A job is added to the deletion queue. -/
private theorem Accounted.addDelete (hs : s.Accounted) {bs : List BlockRef}
    {requested : List BlockRef} (hreq : ∀ b ∈ requested, b ∈ s.requested ∨ b ∈ bs) :
    Accounted { s with requested, deleteQueue := s.deleteQueue ++ [⟨bs, 0, false⟩] } := by
  have hsched : ∀ b, s.Scheduled b → Scheduled
      { s with requested, deleteQueue := s.deleteQueue ++ [⟨bs, 0, false⟩] } b := by
    rintro b (hb | ⟨j, hj, hb⟩)
    · exact .inl hb
    · exact .inr ⟨j, List.mem_append_left _ hj, hb⟩
  refine ⟨fun b hb => ?_, fun j hj h => hsched _ (hs.scheduled j hj h), fun j hj hc => ?_⟩
  · rcases hreq b hb with h | h
    · exact (hs.kept b h).imp_left (hsched b)
    · exact .inl (.inr ⟨_, List.mem_append_right _ (List.mem_singleton_self _), h⟩)
  · rcases List.mem_append.mp hj with h | h
    · exact hs.committed j h hc
    · rw [List.mem_singleton.mp h] at hc
      simp at hc

private theorem mem_ite_singleton {α : Type} {p : Prop} [Decidable p] {a b : α}
    (h : b ∈ if p then [a] else []) : b = a := by
  split at h
  · exact List.mem_singleton.mp h
  · simp at h

private theorem mem_ite_of_pos {α : Type} {p : Prop} [Decidable p] {a : α} (h : p) :
    a ∈ if p then [a] else [] := by
  rw [if_pos h]
  exact List.mem_singleton_self a

/-- **Step.** No step that is not swallowed loses a deletion. -/
theorem Accounted.step {attempts : ℕ} {s' : DeletionState} {a : DeletionAction}
    (hs : s.Accounted) (hok : s.NotSwallowed attempts a) (hstep : DeletionStep attempts s a s') :
    s'.Accounted := by
  cases hstep with
  | message b =>
    refine ⟨fun b' hb' => ?_, fun j hj h => ?_, hs.committed⟩
    · rcases List.mem_cons.mp hb' with rfl | hb'
      · exact .inr ⟨_, List.mem_append_right _ (List.mem_singleton_self _), rfl⟩
      · exact (hs.kept b' hb').imp_right fun ⟨j, hj, h⟩ => ⟨j, List.mem_append_left _ hj, h⟩
    · rcases List.mem_append.mp hj with hj | hj
      · exact hs.scheduled j hj h
      · rw [List.mem_singleton.mp hj] at h
        simp at h
  | request bs => exact hs.addDelete fun b hb => (List.mem_append.mp hb).symm
  | @schedule j hj =>
    -- First the deletion job, then the note in the event job.
    have hadd : Accounted { s with deleteQueue := s.deleteQueue ++ [⟨[j.block], 0, false⟩] } :=
      hs.addDelete fun b hb => .inl hb
    have hsched : Scheduled { s with deleteQueue := s.deleteQueue ++ [⟨[j.block], 0, false⟩] }
        j.block :=
      .inr ⟨_, List.mem_append_right _ (List.mem_singleton_self _), List.mem_singleton_self _⟩
    refine hadd.replaceEvent (.inl hsched) fun j' hj' _ => ?_
    rw [List.mem_singleton.mp hj']
    exact hsched
  | @finishEvent j hj hsched =>
    have h : Accounted { s with eventQueue := s.eventQueue.erase j ++ [] } :=
      hs.replaceEvent (.inl (hs.scheduled j hj hsched)) (by simp)
    rwa [List.append_nil] at h
  | @failEvent j hj =>
    refine hs.replaceEvent ?_ fun j' hj' h => ?_
    · rcases hok with h | h
      · exact .inl (hs.scheduled j hj h)
      · exact .inr ⟨_, mem_ite_of_pos h, rfl⟩
    · rw [mem_ite_singleton hj'] at h
      simp at h
  | @rejectEvent j hj =>
    refine hs.replaceEvent ?_ fun j' hj' h => ?_
    · rcases hok with h | h
      · exact .inl (hs.scheduled j hj h)
      · exact .inr ⟨_, mem_ite_of_pos h, rfl⟩
    · rw [mem_ite_singleton hj'] at h
      simp at h
  | @commit j env view db hj hrun =>
    refine hs.replaceDelete (fun b hb => List.mem_append_right _ hb)
      (fun b hb => .inl (List.mem_append_left _ hb)) fun j' hj' _ b hb => ?_
    rw [List.mem_singleton.mp hj'] at hb
    exact List.mem_append_left _ hb
  | @finishDelete j hj hc =>
    have h : Accounted { s with deleteQueue := s.deleteQueue.erase j ++ [] } :=
      hs.replaceDelete (fun b hb => hb) (fun b hb => .inl (hs.committed j hj hc b hb)) (by simp)
    rwa [List.append_nil] at h
  | @failDelete j db hj hrun =>
    refine hs.replaceDelete (fun b hb => hb) (fun b hb => ?_) fun j' hj' h => ?_
    · rcases hok with h | h
      · exact .inl (hs.committed j hj h b hb)
      · exact .inr ⟨_, mem_ite_of_pos h, hb⟩
    · rw [mem_ite_singleton hj'] at h
      simp at h
  | @rejectDelete j hj =>
    refine hs.replaceDelete (fun b hb => hb) (fun b hb => ?_) fun j' hj' h => ?_
    · rcases hok with h | h
      · exact .inl (hs.committed j hj h b hb)
      · exact .inr ⟨_, mem_ite_of_pos h, hb⟩
    · rw [mem_ite_singleton hj'] at h
      simp at h
  | other db => exact ⟨hs.kept, hs.scheduled, hs.committed⟩

end DeletionState

/-- Empty queues. -/
def DeletionState.initial (db : DB) : DeletionState := ⟨db, [], [], [], []⟩

/-- **No deletion is lost** in a run in which no failure is swallowed: in every state reached,
each requested deletion has been committed or has a job in one of the queues that carries it. -/
theorem deletions_not_lost {attempts : ℕ} {db : DB} {s : DeletionState}
    (hrun : Run (DeletionStep attempts) (DeletionState.NotSwallowed attempts)
      (.initial db) s) {b : BlockRef} (hb : b ∈ s.requested) :
    b ∈ s.committed ∨ (∃ j ∈ s.deleteQueue, b ∈ j.blocks) ∨ ∃ j ∈ s.eventQueue, j.block = b := by
  have hinit : (DeletionState.initial db).Accounted := by
    constructor <;> simp [DeletionState.initial]
  have hs := hrun.invariant DeletionState.Accounted hinit fun t a t' ht hok hstep =>
    ht.step hok hstep
  exact or_assoc.mp (hs.kept b hb)

/-- A message whose first attempt runs into its timeout is kept for the next one. -/
theorem deletions_not_lost_retry :
    (⟨"a", 1⟩ : BlockRef) ∈ ([] : List BlockRef) ∨
      (∃ j ∈ ([] : List DeleteJob), (⟨"a", 1⟩ : BlockRef) ∈ j.blocks) ∨
      ∃ j ∈ [(⟨⟨"a", 1⟩, 1, false⟩ : EventJob)], j.block = ⟨"a", 1⟩ := by
  have hrun : Run (DeletionStep 5) (DeletionState.NotSwallowed 5) (.initial .empty)
      ⟨.empty, [⟨⟨"a", 1⟩, 1, false⟩], [], [⟨"a", 1⟩], []⟩ := by
    exact Run.refl.tail (.message ⟨"a", 1⟩) (by trivial)
      |>.tail (.rejectEvent (j := ⟨⟨"a", 1⟩, 0, false⟩) (by decide)) (by exact .inr (by decide))
  exact deletions_not_lost hrun (by decide)

/-- A deadlock in the first attempt of a deletion, and an error of `deleteBlockProcessor` in the
first attempt of a message: neither deletion is committed, and both queues are empty. -/
theorem deletion_lost :
    ∃ s, Run (DeletionStep 5) Unrestricted (.initial .empty) s ∧
      ∀ b ∈ [(⟨"a", 1⟩ : BlockRef), ⟨"b", 2⟩], b ∈ s.requested ∧
        ¬ (b ∈ s.committed ∨ (∃ j ∈ s.deleteQueue, b ∈ j.blocks) ∨
          ∃ j ∈ s.eventQueue, j.block = b) := by
  have hdeadlock : deleteIndexedBlocks default ⟨fun _ => none, fun _ => [], fun _ => []⟩ (some 0)
      [1] .empty = (.error outsideFailure, .empty) := rfl
  have hrun : Run (DeletionStep 5) Unrestricted (.initial .empty)
      ⟨.empty, [], [], [⟨"b", 2⟩, ⟨"a", 1⟩], []⟩ :=
    Run.refl.tail (.request [⟨"a", 1⟩]) trivial
      |>.tail (.failDelete (j := ⟨[⟨"a", 1⟩], 0, false⟩) (by decide)
        (.inr ⟨default, _, some 0, _, hdeadlock⟩)) trivial
      |>.tail (.message ⟨"b", 2⟩) trivial
      |>.tail (.failEvent (j := ⟨⟨"b", 2⟩, 0, false⟩) (by decide)) trivial
  exact ⟨_, hrun, by simp⟩

end SwaptoshiService
