import Mathlib.Data.List.Basic
import Mathlib.Data.List.Infix
import Mathlib.Data.Nat.Notation
import SwaptoshiService.Lib.Run

/-!
# Refreshing account balances

Token events name the accounts whose balances have changed. `indexBlock` and `deleteIndexedBlocks`
(`blockchain-indexer/shared/indexer/blockchainIndex.js`) collect the entries `address_tokenID` of
these events in a local variable and add them to the Redis set `accountBalanceUpdate` after their
commit; `triggerAccountsBalanceUpdate` (`accountBalanceIndex.js`) takes a batch from the set and
passes the entries to `updateAccountBalances` one after the other. When a call fails, what is left
of the batch goes back into the set.

A deletion job has **one variable for all of its blocks**, and each block with events overwrites it.
`balance_refresh_kept`: no entry is lost in the runs in which every entry of a deleted block is also
one of the last block with events, or is waiting anyway, and in which no job fails between its
commit and the scheduling; the first job for which this does not hold loses an entry.

A call of `updateAccountBalances` counts from its start: what is committed while it runs is
committed after it.
-/

namespace SwaptoshiService

/-- An address, with the token identifier after an underscore if there is one. -/
abbrev AddressToken := String

/-- An event with the keys and values of its data. -/
structure RawEvent where
  module : String
  data : List (String × String)
  deriving DecidableEq, Repr

/-- The value of a key, unless it is empty. -/
def RawEvent.value (event : RawEvent) (key : String) : Option String :=
  (event.data.lookup key).filter (· ≠ "")

/-- `eventData.tokenID || eventData.messageFeeTokenID`. -/
def RawEvent.tokenID (event : RawEvent) : Option String :=
  (event.value "tokenID").or (event.value "messageFeeTokenID")

/-- The keys that hold an address: `key.toLowerCase().includes('address')`. -/
def isAddressKey (key : String) : Bool := decide ("address".toList <:+: key.toLower.toList)

/-- The entries that one token event names. -/
def RawEvent.addressTokens (event : RawEvent) : List AddressToken :=
  event.data.filterMap fun (key, address) =>
    if isAddressKey key then
      some (match event.tokenID with
        | some tokenID => address ++ "_" ++ tokenID
        | none => address)
    else none

/-- `getAddressesFromTokenEvents(events)`; an event may be missing. -/
def getAddressesFromTokenEvents (events : List (Option RawEvent)) : List AddressToken :=
  (events.filterMap fun event => event.filter (·.module = "token")).flatMap RawEvent.addressTokens

/-- `addressesToUpdateBalance` after the blocks of a deletion job: a block with events overwrites
it. -/
def addressesToUpdateBalance (blocks : List (List (Option RawEvent))) : List AddressToken :=
  blocks.foldl (fun addresses events =>
    if events = [] then addresses else getAddressesFromTokenEvents events) []

/-- What happened, as far as it matters for the balances. -/
inductive BalanceRecord
  /-- A job was committed; its blocks name these entries. -/
  | committed (entries : List AddressToken)
  /-- A call of `updateAccountBalances` that succeeded. -/
  | refreshed (entry : AddressToken)
  deriving DecidableEq, Repr

/-- The Redis set, the running jobs and what happened so far, latest first. -/
structure BalanceQueue where
  accountBalanceUpdate : List AddressToken
  /-- What is left of the batches of the running triggers. -/
  triggers : List (List AddressToken)
  /-- The entries of the jobs that are committed and have not scheduled them yet. -/
  jobs : List (List AddressToken)
  history : List BalanceRecord
  deriving DecidableEq, Repr

/-- The entry was named by a committed block and has not been refreshed since. -/
def Owed (entry : AddressToken) : List BalanceRecord → Prop
  | [] => False
  | .committed entries :: history => entry ∈ entries ∨ Owed entry history
  | .refreshed entry' :: history => entry ≠ entry' ∧ Owed entry history

/-- The steps: the commit of a job, a job that fails after its commit, or something else. -/
inductive BalanceAction
  | indexBlock (events : List (Option RawEvent))
  | deleteIndexedBlocks (blocks : List (List (Option RawEvent)))
  | fail (job : ℕ)
  | other
  deriving DecidableEq, Repr

namespace BalanceQueue

def empty : BalanceQueue := ⟨[], [], [], []⟩

/-- `redis.sadd`. -/
def sadd (entries : List AddressToken) (s : BalanceQueue) : BalanceQueue :=
  { s with accountBalanceUpdate := entries ++ s.accountBalanceUpdate }

/-- A job commits: its blocks name `named`, and it will schedule `addresses`. -/
def commit (named addresses : List AddressToken) (s : BalanceQueue) : BalanceQueue :=
  { s with jobs := addresses :: s.jobs, history := .committed named :: s.history }

/-- The entry is in the set, in a batch that is being worked on, or about to be scheduled. -/
def Waiting (s : BalanceQueue) (entry : AddressToken) : Prop :=
  entry ∈ s.accountBalanceUpdate ∨ (∃ entries ∈ s.triggers, entry ∈ entries) ∨
    ∃ entries ∈ s.jobs, entry ∈ entries

def NoneLost (s : BalanceQueue) : Prop := ∀ entry, Owed entry s.history → s.Waiting entry

end BalanceQueue

/-- One step of a job or of a trigger. -/
inductive BalanceStep (batchSize : ℕ) : BalanceQueue → BalanceAction → BalanceQueue → Prop
  | indexBlock {s : BalanceQueue} (events : List (Option RawEvent)) :
      BalanceStep batchSize s (.indexBlock events)
        (s.commit (getAddressesFromTokenEvents events) (getAddressesFromTokenEvents events))
  | deleteIndexedBlocks {s : BalanceQueue} (blocks : List (List (Option RawEvent))) :
      BalanceStep batchSize s (.deleteIndexedBlocks blocks)
        (s.commit (blocks.flatMap getAddressesFromTokenEvents) (addressesToUpdateBalance blocks))
  /-- `scheduleAddressesBalanceUpdate`, after the commit has been verified. -/
  | schedule {s : BalanceQueue} {addresses : List AddressToken} (j : ℕ)
      (h : s.jobs[j]? = some addresses) :
      BalanceStep batchSize s .other { s.sadd addresses with jobs := s.jobs.eraseIdx j }
  | fail {s : BalanceQueue} (j : ℕ) :
      BalanceStep batchSize s (.fail j) { s with jobs := s.jobs.eraseIdx j }
  /-- `triggerAccountsBalanceUpdate` takes a batch. -/
  | spop {s : BalanceQueue} (batch : List AddressToken) (hsize : batch.length ≤ batchSize)
      (h : ∀ entry ∈ batch, entry ∈ s.accountBalanceUpdate) :
      BalanceStep batchSize s .other
        { s with
          accountBalanceUpdate := s.accountBalanceUpdate.filter (· ∉ batch)
          triggers := batch :: s.triggers }
  | refresh {s : BalanceQueue} {entry : AddressToken} {entries : List AddressToken} (j : ℕ)
      (h : s.triggers[j]? = some (entry :: entries)) :
      BalanceStep batchSize s .other
        { s with triggers := s.triggers.set j entries, history := .refreshed entry :: s.history }
  /-- The call fails: the entry is pushed back and the rest of the batch is rescheduled. -/
  | refreshFails {s : BalanceQueue} {entry : AddressToken} {entries : List AddressToken} (j : ℕ)
      (h : s.triggers[j]? = some (entry :: entries)) :
      BalanceStep batchSize s .other
        { s.sadd (entries ++ [entry]) with triggers := s.triggers.eraseIdx j }
  | finish {s : BalanceQueue} (j : ℕ) (h : s.triggers[j]? = some []) :
      BalanceStep batchSize s .other { s with triggers := s.triggers.eraseIdx j }

namespace BalanceQueue

/-- Every entry of a deleted block is scheduled or waiting anyway, and so are the entries of a job
that fails after its commit. -/
def Kept (s : BalanceQueue) : BalanceAction → Prop
  | .indexBlock _ => True
  | .deleteIndexedBlocks blocks =>
    ∀ entry ∈ blocks.flatMap getAddressesFromTokenEvents,
      entry ∈ addressesToUpdateBalance blocks ∨ s.Waiting entry
  | .fail j => ∀ addresses, s.jobs[j]? = some addresses → ∀ entry ∈ addresses,
      Owed entry s.history → Waiting { s with jobs := s.jobs.eraseIdx j } entry
  | .other => True

variable {batchSize : ℕ} {s s' : BalanceQueue} {act : BalanceAction} {entry : AddressToken}

/-- A list of entries is at the given place, or it stays when that place is removed. -/
private theorem mem_eraseIdx_or {l : List (List AddressToken)} {entries : List AddressToken} (j : ℕ)
    (h : entries ∈ l) : l[j]? = some entries ∨ entries ∈ l.eraseIdx j := by
  obtain ⟨i, hi⟩ := List.mem_iff_getElem?.1 h
  by_cases hij : i = j
  · subst hij
    exact .inl hi
  · exact .inr (List.mem_eraseIdx_iff_getElem?.2 ⟨i, hij, hi⟩)

/-- A trigger ends, and what is left of its batch is in the set. -/
private theorem Waiting.endTrigger {set : List AddressToken} (h : s.Waiting entry) (j : ℕ)
    (hset : ∀ entry ∈ s.accountBalanceUpdate, entry ∈ set)
    (hbatch : ∀ entries, s.triggers[j]? = some entries → ∀ entry ∈ entries, entry ∈ set) :
    Waiting { s with accountBalanceUpdate := set, triggers := s.triggers.eraseIdx j } entry := by
  rcases h with hin | ⟨entries, hentries, hin⟩ | hjob
  · exact .inl (hset entry hin)
  · rcases mem_eraseIdx_or j hentries with hj | hrest
    · exact .inl (hbatch entries hj entry hin)
    · exact .inr (.inl ⟨entries, hrest, hin⟩)
  · exact .inr (.inr hjob)

/-- A commit keeps what is waiting. -/
private theorem Waiting.commit (h : s.Waiting entry) (named addresses : List AddressToken) :
    (s.commit named addresses).Waiting entry := by
  rcases h with hin | htrigger | ⟨entries, hentries, hin⟩
  · exact .inl hin
  · exact .inr (.inl htrigger)
  · exact .inr (.inr ⟨entries, List.mem_cons_of_mem _ hentries, hin⟩)

/-- A commit loses nothing if and only if what its blocks name is scheduled or waiting. -/
private theorem NoneLost.commit_iff (h : s.NoneLost) (named addresses : List AddressToken) :
    (s.commit named addresses).NoneLost ↔
      ∀ entry ∈ named, entry ∈ addresses ∨ s.Waiting entry := by
  constructor
  · intro h' entry hnamed
    rcases h' entry (.inl hnamed) with hin | htrigger | ⟨entries, hentries, hin⟩
    · exact .inr (.inl hin)
    · exact .inr (.inr (.inl htrigger))
    · rcases List.mem_cons.1 hentries with rfl | hentries
      · exact .inl hin
      · exact .inr (.inr (.inr ⟨entries, hentries, hin⟩))
  · intro hkept entry howed
    rcases howed with hnamed | howed
    · rcases hkept entry hnamed with hscheduled | hwaiting
      · exact .inr (.inr ⟨addresses, List.mem_cons_self, hscheduled⟩)
      · exact hwaiting.commit named addresses
    · exact (h entry howed).commit named addresses

/-- One step loses no entry if and only if it meets the condition. -/
theorem NoneLost.step_iff (h : s.NoneLost) (hstep : BalanceStep batchSize s act s') :
    s'.NoneLost ↔ s.Kept act := by
  cases hstep with
  | indexBlock events =>
    refine ⟨fun _ => trivial, fun _ => (h.commit_iff _ _).2 fun entry hnamed => .inl hnamed⟩
  | deleteIndexedBlocks blocks => exact h.commit_iff _ _
  | @schedule addresses j hj =>
    refine ⟨fun _ => trivial, fun _ entry howed => ?_⟩
    rcases h entry howed with hin | htrigger | ⟨entries, hentries, hin⟩
    · exact .inl (List.mem_append_right _ hin)
    · exact .inr (.inl htrigger)
    · rcases mem_eraseIdx_or j hentries with hj' | hrest
      · obtain rfl := Option.some.inj (hj.symm.trans hj')
        exact .inl (List.mem_append_left _ hin)
      · exact .inr (.inr ⟨entries, hrest, hin⟩)
  | fail j =>
    constructor
    · intro h' addresses _ entry _ howed
      exact h' entry howed
    · intro hkept entry howed
      rcases h entry howed with hin | htrigger | ⟨entries, hentries, hin⟩
      · exact .inl hin
      · exact .inr (.inl htrigger)
      · rcases mem_eraseIdx_or j hentries with hj | hrest
        · exact hkept entries hj entry hin howed
        · exact .inr (.inr ⟨entries, hrest, hin⟩)
  | spop batch hsize hbatch =>
    refine ⟨fun _ => trivial, fun _ entry howed => ?_⟩
    rcases h entry howed with hin | ⟨entries, hentries, hin⟩ | hjob
    · by_cases hmem : entry ∈ batch
      · exact .inr (.inl ⟨batch, List.mem_cons_self, hmem⟩)
      · exact .inl (List.mem_filter.2 ⟨hin, by simpa using hmem⟩)
    · exact .inr (.inl ⟨entries, List.mem_cons_of_mem _ hentries, hin⟩)
    · exact .inr (.inr hjob)
  | @refresh refreshed rest j hj =>
    refine ⟨fun _ => trivial, fun _ entry howed => ?_⟩
    obtain ⟨hne, howed⟩ := howed
    rcases h entry howed with hin | ⟨entries, hentries, hin⟩ | hjob
    · exact .inl hin
    · -- The entry is in the batch that goes on, or in another one.
      obtain ⟨i, hi⟩ := List.mem_iff_getElem?.1 hentries
      by_cases hij : j = i
      · subst hij
        obtain rfl := Option.some.inj (hj.symm.trans hi)
        have hlt := (List.getElem?_eq_some_iff.1 hj).1
        refine .inr (.inl ⟨rest, List.mem_iff_getElem?.2 ⟨j, List.getElem?_set_self hlt⟩, ?_⟩)
        exact (List.mem_cons.1 hin).resolve_left hne
      · refine .inr (.inl ⟨entries, List.mem_iff_getElem?.2 ⟨i, ?_⟩, hin⟩)
        exact (List.getElem?_set_ne hij).trans hi
    · exact .inr (.inr hjob)
  | @refreshFails failed rest j hj =>
    refine ⟨fun _ => trivial, fun _ entry howed => ?_⟩
    refine (h entry howed).endTrigger j (fun _ hin => List.mem_append_right _ hin) ?_
    intro entries hentries entry hin
    obtain rfl := Option.some.inj (hj.symm.trans hentries)
    refine List.mem_append_left _ (List.mem_append.2 ?_)
    rcases List.mem_cons.1 hin with rfl | hrest
    · exact .inr (List.mem_singleton_self entry)
    · exact .inl hrest
  | finish j hj =>
    refine ⟨fun _ => trivial, fun _ entry howed => ?_⟩
    refine (h entry howed).endTrigger j (fun _ hin => hin) ?_
    intro entries hentries entry hin
    obtain rfl := Option.some.inj (hj.symm.trans hentries)
    exact absurd hin List.not_mem_nil

/-- **No refresh is lost** in every run whose deletion jobs meet the condition: an entry that a
committed block names and that has not been refreshed since is waiting, and when no job and no
trigger is running it is in the set. The first step that does not meet the condition loses an entry.
-/
theorem balance_refresh_kept (hrun : Run (BalanceStep batchSize) Kept empty s) :
    s.NoneLost ∧
    (s.triggers = [] → s.jobs = [] →
      ∀ entry, Owed entry s.history → entry ∈ s.accountBalanceUpdate) ∧
    ∀ act s', BalanceStep batchSize s act s' → (s'.NoneLost ↔ s.Kept act) := by
  have hempty : empty.NoneLost := fun _ howed => howed.elim
  have hs : s.NoneLost := hrun.invariant NoneLost hempty
    fun _ _ _ h hok hstep => (h.step_iff hstep).2 hok
  refine ⟨hs, fun htriggers hjobs entry howed => ?_, fun act s' hstep => hs.step_iff hstep⟩
  rcases hs entry howed with hin | ⟨entries, hentries, -⟩ | ⟨entries, hentries, -⟩
  · exact hin
  · rw [htriggers] at hentries
    exact absurd hentries List.not_mem_nil
  · rw [hjobs] at hentries
    exact absurd hentries List.not_mem_nil

/-- A transfer from `a` to `b`. -/
def transferEvent : Option RawEvent :=
  some ⟨"token", [("senderAddress", "a"), ("recipientAddress", "b"), ("tokenID", "t")]⟩

/-- Tokens are burnt by `c`. -/
def burnEvent : Option RawEvent := some ⟨"token", [("address", "c"), ("tokenID", "t")]⟩

private theorem addresses_transfer :
    getAddressesFromTokenEvents [transferEvent] = ["a_t", "b_t"] := by
  decide +kernel

private theorem addresses_burn : getAddressesFromTokenEvents [burnEvent] = ["c_t"] := by
  decide +kernel

/-- What the two blocks name, and what their deletion schedules. -/
private theorem addresses_deleted :
    [[transferEvent], [burnEvent]].flatMap getAddressesFromTokenEvents = ["a_t", "b_t", "c_t"] ∧
      addressesToUpdateBalance [[transferEvent], [burnEvent]] = ["c_t"] := by
  decide +kernel

/-- A block is indexed and its entries are scheduled. -/
private theorem run_indexed : Run (BalanceStep 10) Kept empty
    ⟨["a_t", "b_t"], [], [], [.committed ["a_t", "b_t"]]⟩ := by
  have hindex : Run (BalanceStep 10) Kept empty
      ⟨[], [], [["a_t", "b_t"]], [.committed ["a_t", "b_t"]]⟩ := by
    rw [← addresses_transfer]
    exact Run.refl.tail (.indexBlock [transferEvent]) trivial
  have hschedule := @BalanceStep.schedule 10
    ⟨[], [], [["a_t", "b_t"]], [.committed ["a_t", "b_t"]]⟩ _ 0 rfl
  exact hindex.tail hschedule trivial

/-- Two blocks are deleted while the entries of the first one are still waiting. -/
private theorem run_deleted : Run (BalanceStep 10) Kept empty
    ⟨["c_t", "a_t", "b_t"], [], [], [.committed ["a_t", "b_t", "c_t"],
      .committed ["a_t", "b_t"]]⟩ := by
  obtain ⟨hnamed, hscheduled⟩ := addresses_deleted
  have hdelete : Run (BalanceStep 10) Kept empty ⟨["a_t", "b_t"], [], [["c_t"]],
      [.committed ["a_t", "b_t", "c_t"], .committed ["a_t", "b_t"]]⟩ := by
    rw [← hnamed, ← hscheduled]
    refine run_indexed.tail (.deleteIndexedBlocks [[transferEvent], [burnEvent]])
      fun entry hentry => ?_
    rw [hnamed] at hentry
    rw [hscheduled]
    simp only [List.mem_cons, List.not_mem_nil, or_false] at hentry
    rcases hentry with rfl | rfl | rfl
    · exact .inr (.inl (by simp))
    · exact .inr (.inl (by simp))
    · exact .inl (by simp)
  have hschedule := @BalanceStep.schedule 10 ⟨["a_t", "b_t"], [], [["c_t"]],
    [.committed ["a_t", "b_t", "c_t"], .committed ["a_t", "b_t"]]⟩ _ 0 rfl
  exact hdelete.tail hschedule trivial

/-- What has happened in the end: a trigger has refreshed one of the entries. -/
def deletedHistory : List BalanceRecord :=
  [.refreshed "a_t", .committed ["a_t", "b_t", "c_t"], .committed ["a_t", "b_t"]]

private theorem run_refreshed : Run (BalanceStep 10) Kept empty
    ⟨["c_t", "b_t"], [], [], deletedHistory⟩ := by
  have hspop := @BalanceStep.spop 10 ⟨["c_t", "a_t", "b_t"], [], [], deletedHistory.tail⟩
    ["a_t"] (by decide) (by decide)
  have hrefresh := @BalanceStep.refresh 10 ⟨["c_t", "b_t"], [["a_t"]], [], deletedHistory.tail⟩
    _ _ 0 rfl
  have hfinish := @BalanceStep.finish 10 ⟨["c_t", "b_t"], [[]], [], deletedHistory⟩ 0 rfl
  exact ((run_deleted.tail hspop trivial).tail hrefresh trivial).tail hfinish trivial

theorem balance_refresh_kept_deleted :
    NoneLost ⟨["c_t", "b_t"], [], [], deletedHistory⟩ ∧ Owed "b_t" deletedHistory :=
  ⟨(balance_refresh_kept run_refreshed).1, by decide, .inl (by decide)⟩

/-- Two blocks are deleted by one job: the entries of the first one are lost. -/
theorem deletion_loses_refresh :
    ¬ ∀ (batchSize : ℕ) (s : BalanceQueue), Run (BalanceStep batchSize) Unrestricted empty s →
      s.triggers = [] → s.jobs = [] →
      ∀ entry, Owed entry s.history → entry ∈ s.accountBalanceUpdate := by
  intro h
  have hdelete : Run (BalanceStep 10) Unrestricted empty
      (empty.commit _ (addressesToUpdateBalance [[transferEvent], [burnEvent]])) :=
    Run.refl.tail (.deleteIndexedBlocks [[transferEvent], [burnEvent]]) trivial
  have hrun := hdelete.tail (.schedule 0 rfl) trivial
  have howed : Owed "a_t" [.committed ([[transferEvent], [burnEvent]].flatMap
      getAddressesFromTokenEvents)] := by
    refine .inl (List.mem_flatMap.2 ⟨[transferEvent], List.mem_cons_self, ?_⟩)
    rw [addresses_transfer]
    exact List.mem_cons_self
  have hin := h 10 _ hrun rfl rfl "a_t" howed
  replace hin : "a_t" ∈ getAddressesFromTokenEvents [burnEvent] ++ [] := hin
  rw [addresses_burn] at hin
  exact absurd hin (by decide)

end BalanceQueue

end SwaptoshiService
