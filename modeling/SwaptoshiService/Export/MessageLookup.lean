import SwaptoshiService.Export.Chronology

/-!
# The transaction that brought a message

An event of a message from another chain has the ID of the message as its first topic. Which
transaction brought the message is in its `token:beforeCCCExecution` event, and
`getEntriesByChronology` looks for that among the events before the one at hand, from the nearest
one on, and in the events of the block otherwise.

The loop `let j = i - 1; while (j--)` tests `j` before it counts down, and reads after it: the first
index it reads is `i - 2`. So **the event just before is never looked at**, and at the very first
event `j` is -1, which counts as true, and the loop reads the index -2, where there is no event.

`MessageLookup` has all that the search does: what it reads, what it asks the indexer for, and its
result. `resolves_iff` says when this is what it is meant to do.
-/

namespace SwaptoshiService

namespace Export

/-- What the search for the transaction of a message does. -/
structure MessageLookup where
  /-- The indexes of `sortedEvents` that are read. -/
  reads : List ℤ
  /-- The heights whose events the indexer is asked for. -/
  queries : List ℕ
  result : Except String (Option String × List Event)

/-- The indexes that the loop reads from `j` on. -/
def searchReads (events : List Event) (ccmID : String) : ℕ → List ℤ
  | 0 => []
  | j + 1 => (j : ℤ) :: match events[j]? with
    | some prevEvent =>
      if prevEvent.isBeforeCCCExecution ccmID then [] else searchReads events ccmID j
    | none => []

/-- The indexes that the search from the event `i` reads. -/
def previousReads (events : List Event) (ccmID : String) : ℕ → List ℤ
  | 0 => [-2]
  | i + 1 => searchReads events ccmID i

section Lookup

variable (env : Env) (sortedEvents : List Event) (ccmID : String)

/-- The ID of the transaction, from the events of the block. -/
def transactionIDFromBlock (e : Event) : Except String (Option String × List Event) :=
  let eventsForHeight := env.getEvents e.block.height
  match eventsForHeight.find? (Event.isBeforeCCCExecution ccmID) with
  | some ev => pure (getTransactionIDFromTopic0 ev.topic0, eventsForHeight)
  | none => throw ("CCU transactionID cannot be determined for ccmID " ++ ccmID ++ ".")

/-- The search from the event `i`. -/
def lookupMessage (i : ℕ) (e : Event) : MessageLookup :=
  let reads := previousReads sortedEvents ccmID i
  match findPrevious sortedEvents ccmID i with
  | .error message => ⟨reads, [], .error message⟩
  | .ok (some prevEvent) => ⟨reads, [], pure (getTransactionIDFromTopic0 prevEvent.topic0, [])⟩
  | .ok none => ⟨reads, [e.block.height], transactionIDFromBlock env ccmID e⟩

/-- The nearest `token:beforeCCCExecution` event of the message before the event `i`. -/
def nearestBefore (i : ℕ) : Option Event :=
  (sortedEvents.take i).reverse.find? (Event.isBeforeCCCExecution ccmID)

/-- The search does what it is meant to: it stays among the events before the event `i` and takes
the nearest one, without asking the indexer, and only without one it asks for the events of the
block. -/
structure ResolvesMessage (i : ℕ) (e : Event) (lookup : MessageLookup) : Prop where
  reads : ∀ j ∈ lookup.reads, 0 ≤ j ∧ j < i
  nearest : ∀ prevEvent, nearestBefore sortedEvents ccmID i = some prevEvent →
    lookup.queries = [] ∧ lookup.result = .ok (getTransactionIDFromTopic0 prevEvent.topic0, [])
  fallback : nearestBefore sortedEvents ccmID i = none →
    lookup.queries = [e.block.height] ∧ lookup.result = transactionIDFromBlock env ccmID e

/-- The event `i` is not the first one, and the event just before it says nothing about the message,
or nothing else than the nearest one before that. -/
def AdjacentUnneeded (i : ℕ) : Prop :=
  i ≠ 0 ∧ ∀ prevEvent, sortedEvents[i - 1]? = some prevEvent →
    prevEvent.isBeforeCCCExecution ccmID = true →
      (nearestBefore sortedEvents ccmID (i - 1)).map (getTransactionIDFromTopic0 ·.topic0) =
        some (getTransactionIDFromTopic0 prevEvent.topic0)

end Lookup

section Resolution

variable {env : Env} {sortedEvents : List Event} {ccmID : String} {e prevEvent : Event} {i n : ℕ}

/-- The search is the one that finds the transaction of an event. -/
theorem transactionIDOf_eq_lookup (hccm : getCcmIDFromTopic0 e.topic0 = some ccmID) (i : ℕ) :
    transactionIDOf env sortedEvents i e = (lookupMessage env sortedEvents ccmID i e).result := by
  rw [transactionIDOf, hccm, lookupMessage]
  simp only
  cases hprevious : findPrevious sortedEvents ccmID i with
  | error message => rfl
  | ok found =>
    cases found with
    | none => rfl
    | some prevEvent => rfl

theorem nearestBefore_succ (h : sortedEvents[i]? = some prevEvent) :
    nearestBefore sortedEvents ccmID (i + 1) =
      if prevEvent.isBeforeCCCExecution ccmID then some prevEvent
      else nearestBefore sortedEvents ccmID i := by
  rw [nearestBefore, List.take_add_one, h, Option.toList_some, List.reverse_append,
    List.reverse_singleton, List.singleton_append, List.find?_cons]
  split <;> simp_all [nearestBefore]

/-- **The loop** finds the nearest event below the index that it starts from. -/
theorem searchBack_eq (h : n ≤ sortedEvents.length) :
    searchBack sortedEvents ccmID n = .ok (nearestBefore sortedEvents ccmID n) := by
  induction n with
  | zero => rfl
  | succ n ih =>
    have hget : sortedEvents[n]? = some sortedEvents[n] := List.getElem?_eq_getElem h
    rw [searchBack, eventAt, hget, nearestBefore_succ hget, ih (Nat.le_of_succ_le h)]
    simp only [bind, Except.bind, pure, Except.pure]
    split_ifs <;> rfl

theorem mem_searchReads {j : ℤ} (h : j ∈ searchReads sortedEvents ccmID n) : 0 ≤ j ∧ j < n := by
  induction n with
  | zero => exact absurd h List.not_mem_nil
  | succ n ih =>
    rw [searchReads, List.mem_cons] at h
    rcases h with rfl | h
    · omega
    · split at h
      · split_ifs at h
        · exact absurd h List.not_mem_nil
        · have hbounds := ih h
          omega
      · exact absurd h List.not_mem_nil

/-- What the search from the event after the event `i` does: it skips the event `i`. -/
theorem lookupMessage_succ (h : i ≤ sortedEvents.length) :
    lookupMessage env sortedEvents ccmID (i + 1) e =
      match nearestBefore sortedEvents ccmID i with
      | some prevEvent => ⟨searchReads sortedEvents ccmID i, [],
          .ok (getTransactionIDFromTopic0 prevEvent.topic0, [])⟩
      | none => ⟨searchReads sortedEvents ccmID i, [e.block.height],
          transactionIDFromBlock env ccmID e⟩ := by
  rw [lookupMessage, findPrevious, searchBack_eq h]
  cases nearestBefore sortedEvents ccmID i <;> rfl

/-- **When the transaction of a message is found as it should be.** -/
theorem resolves_iff (he : sortedEvents[i]? = some e)
    (hccm : getCcmIDFromTopic0 e.topic0 = some ccmID) :
    transactionIDOf env sortedEvents i e = (lookupMessage env sortedEvents ccmID i e).result ∧
      (ResolvesMessage env sortedEvents ccmID i e (lookupMessage env sortedEvents ccmID i e) ↔
        AdjacentUnneeded sortedEvents ccmID i) := by
  refine ⟨transactionIDOf_eq_lookup hccm i, ?_⟩
  obtain ⟨hlt, -⟩ := List.getElem?_eq_some_iff.mp he
  cases i with
  | zero =>
    -- The index -2 is read.
    refine iff_of_false (fun h => ?_) fun h => h.1 rfl
    have hbounds := h.reads (-2) List.mem_cons_self
    omega
  | succ i =>
    have hget : sortedEvents[i]? = some sortedEvents[i] := List.getElem?_eq_getElem (by omega)
    have hnearest : nearestBefore sortedEvents ccmID (i + 1) = _ := nearestBefore_succ hget
    have hreads : ∀ j ∈ searchReads sortedEvents ccmID i, 0 ≤ j ∧ j < ((i + 1 : ℕ) : ℤ) := by
      intro j hj
      have hbounds := mem_searchReads hj
      omega
    rw [AdjacentUnneeded, Nat.add_sub_cancel, hget, lookupMessage_succ (by omega)]
    simp only [Option.some.injEq, forall_eq', ne_eq, Nat.succ_ne_zero, not_false_eq_true, true_and]
    by_cases hadjacent : sortedEvents[i].isBeforeCCCExecution ccmID = true
    · rw [if_pos hadjacent] at hnearest
      constructor
      · intro h _
        obtain ⟨hqueries, hresult⟩ := h.nearest _ hnearest
        cases hbefore : nearestBefore sortedEvents ccmID i with
        | none => simp [hbefore] at hqueries
        | some earlier =>
          simp only [hbefore] at hresult
          exact congrArg some (Prod.mk.inj (Except.ok.inj hresult)).1
      · intro h
        obtain ⟨earlier, hbefore, hsame⟩ := Option.map_eq_some_iff.mp (h hadjacent)
        rw [hbefore]
        refine ⟨hreads, fun prevEvent hprev => ⟨rfl, ?_⟩, fun hnone => ?_⟩
        · obtain rfl := Option.some.inj (hnearest.symm.trans hprev)
          simp only [hsame]
        · rw [hnearest] at hnone
          exact absurd hnone (by simp)
    · -- The event that is skipped is not looked for.
      rw [if_neg hadjacent] at hnearest
      refine iff_of_true ?_ fun h => absurd h hadjacent
      rw [← hnearest]
      cases hbefore : nearestBefore sortedEvents ccmID (i + 1) with
      | none =>
        refine ⟨hreads, fun prevEvent hprev => ?_, fun _ => ⟨rfl, rfl⟩⟩
        exact absurd (hbefore.symm.trans hprev) (by simp)
      | some earlier =>
        refine ⟨hreads, fun prevEvent hprev => ⟨rfl, ?_⟩, fun hnone => ?_⟩
        · obtain rfl := Option.some.inj (hbefore.symm.trans hprev)
          rfl
        · exact absurd (hbefore.symm.trans hnone) (by simp)

end Resolution

/-! ### A message and the transaction that brought it -/

/-- The block of the transaction. -/
def relayBlock : BlockInfo :=
  ⟨"227c65bb47ba5a061a98ea9c459be750ba4e66a36c68e2c45b096fdeb6bb29fc", 1745, 1689785580⟩

/-- A message. -/
def relayedCcmID : String := "efcbab90c4769dc47029412010ef76623722678f446a7417f59fed998a6407de"

/-- The event that says which transaction brought the message. -/
def relayEvent : Event where
  data := .beforeCCCExecution relayedCcmID "0400000000000000"
  topic0 := txIDPrefix ++ "d41e8fbb909fdf44ffccef6f5b0fb5edf853f0dcf699243a0a92403d2a4f1d1d"
  otherTopics := []
  block := relayBlock

/-- An event of the message. -/
def messageEvent : Event :=
  ⟨.ccmProcessed "04000001" "04000000", ccmIDPrefix ++ relayedCcmID, [], relayBlock⟩

/-- An indexer that has the event of the block. -/
def relayEnv : Env where
  currentChainID := "04000000"
  feeTokenID := "0400000000000000"
  posTokenID := "0400000000000000"
  getTransactions _ := []
  getBlocks _ := []
  getEvents _ := [relayEvent]
  getAllEventsInAsc _ := [relayEvent]
  dateFromTimestamp _ := "2023-07-19"
  timeFromTimestamp _ := "16:53:00"
  publicKeyCache _ _ := none

theorem getCcmIDFromTopic0_messageEvent :
    getCcmIDFromTopic0 messageEvent.topic0 = some relayedCcmID := by
  decide +kernel

/-- With another event in between the transaction is found. -/
theorem resolves_second_next :
    let events := [relayEvent, messageEvent, messageEvent]
    events[2]? = some messageEvent ∧ getCcmIDFromTopic0 messageEvent.topic0 = some relayedCcmID ∧
      ResolvesMessage relayEnv events relayedCcmID 2 messageEvent
        (lookupMessage relayEnv events relayedCcmID 2 messageEvent) := by
  intro events
  have he : events[2]? = some messageEvent := rfl
  refine ⟨he, getCcmIDFromTopic0_messageEvent,
    (resolves_iff he getCcmIDFromTopic0_messageEvent).2.mpr ⟨by decide, ?_⟩⟩
  intro prevEvent hprev hbefore
  obtain rfl := Option.some.inj hprev
  exact absurd hbefore (by decide)

/-- The event just before is not looked at, and the first event makes the search throw. -/
theorem adjacent_not_read :
    (lookupMessage relayEnv [relayEvent, messageEvent] relayedCcmID 1 messageEvent).queries =
        [1745] ∧
      ¬ ResolvesMessage relayEnv [relayEvent, messageEvent] relayedCcmID 1 messageEvent
        (lookupMessage relayEnv [relayEvent, messageEvent] relayedCcmID 1 messageEvent) ∧
      (lookupMessage relayEnv [messageEvent] relayedCcmID 0 messageEvent).result =
        .error "Cannot read properties of undefined (reading 'module')" ∧
      ¬ ResolvesMessage relayEnv [messageEvent] relayedCcmID 0 messageEvent
        (lookupMessage relayEnv [messageEvent] relayedCcmID 0 messageEvent) := by
  have hnearest : nearestBefore [relayEvent, messageEvent] relayedCcmID 1 = some relayEvent := by
    decide +kernel
  have hqueries : (lookupMessage relayEnv [relayEvent, messageEvent] relayedCcmID 1
      messageEvent).queries = [1745] := rfl
  refine ⟨hqueries, fun h => ?_, rfl, fun h => ?_⟩
  · exact absurd (hqueries.symm.trans (h.nearest _ hnearest).1) (by simp)
  · have hbounds := h.reads (-2) List.mem_cons_self
    omega

end Export

end SwaptoshiService
