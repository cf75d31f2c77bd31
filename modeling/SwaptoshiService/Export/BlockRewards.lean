import Mathlib.Algebra.BigOperators.Group.List.Basic
import Mathlib.Algebra.Ring.Int.Defs
import SwaptoshiService.Export.Chronology

/-!
# The rewards for generated blocks

A block reward is minted for the generator of the block by an event with the default topic. Of a
validator with stakes of others a part of it is locked at once, by the next event of the block, and
the export has an entry for each of the two parts.

`getEntriesByChronology` takes **whatever event comes next** in the list for that event: the list
has the events of one account only, so the next one may be of another block, and of the last one
there is none, and the export throws. `rewards_exported_iff` says for which lists the rewards are
exported as they should be.
-/

namespace SwaptoshiService

namespace Export

/-- The amount that the event mints for the address as a block reward, if it does. -/
def Event.rewardFor (address : String) (e : Event) : Option ℤ :=
  match e.data with
  | .mint amount =>
    if e.topic0.length = lengthDefaultTopic ∧ e.topics[1]? = some address then some amount else none
  | _ => none

/-- The amount that the event locks for the address, if it does. -/
def Event.lockFor (address : String) (e : Event) : Option ℤ :=
  match e.data with
  | .lock lockAddress amount => if lockAddress = address then some amount else none
  | _ => none

/-- The note of the locked part of a reward. -/
def lockedRewardNote : String := "Block generation reward (custodial shared rewards locked)"

section Rewards

variable (env : Env) (address : String) (sortedBlocks : List Block)
  (sortedTransactions : List Transaction) (sortedEvents : List Event)

/-- The amount that the event after the event `i` locks, if it is of the same block. -/
def lockedNext (i : ℕ) (e : Event) : Option ℤ :=
  (sortedEvents[i + 1]?.filter fun next => next.block.id = e.block.id).bind (Event.lockFor address)

/-- The block rewards of the address are exported. -/
structure RewardsExported : Prop where
  /-- The entries for a reward add up to it, and there is one for a locked part if and only if the
  next event of the block locks a part. -/
  entries : ∀ i e amount, sortedEvents[i]? = some e → e.rewardFor address = some amount →
    ∃ es, eventEntries env address sortedBlocks sortedTransactions sortedEvents i e = .ok es ∧
      (es.map fun entry => entry.amount.getD 0).sum = amount ∧
      ((∃ entry ∈ es, entry.note = some lockedRewardNote) ↔
        (lockedNext address sortedEvents i e).isSome)
  /-- Unless another event makes it throw, the export does not throw, and has these entries. -/
  result : (∀ i e, sortedEvents[i]? = some e → e.rewardFor address = none → ∃ es,
      eventEntries env address sortedBlocks sortedTransactions sortedEvents i e = .ok es) →
    ∃ entries, getEntriesByChronology env address sortedBlocks sortedTransactions sortedEvents =
        .ok entries ∧
      ∀ i e es, sortedEvents[i]? = some e →
        eventEntries env address sortedBlocks sortedTransactions sortedEvents i e = .ok es →
          ∀ entry ∈ es, entry ∈ entries

/-- The block of each reward is known, and after the reward comes another event, which is of the
same block if it locks something for the address. -/
def RewardsPaired : Prop :=
  ∀ i e, sortedEvents[i]? = some e → (e.rewardFor address).isSome →
    (∃ b ∈ sortedBlocks, b.id = e.block.id) ∧
      ∃ next, sortedEvents[i + 1]? = some next ∧
        ((next.lockFor address).isSome → next.block.id = e.block.id)

end Rewards

section Entries

variable {env : Env} {address : String} {sortedBlocks : List Block}
  {sortedTransactions : List Transaction} {sortedEvents : List Event} {e next : Event}
  {amount : ℤ} {i : ℕ}

/-! ### The entries for a reward -/

theorem lockedAfter_eq (h : sortedEvents[i + 1]? = some next) :
    lockedAfter address sortedEvents i = .ok (next.lockFor address) := by
  rw [lockedAfter, eventAt, h, Event.lockFor]
  cases hdata : next.data <;> simp [bind, Except.bind, pure, Except.pure, hdata]

/-- After the last event there is none. -/
theorem lockedAfter_eq_error (h : sortedEvents[i + 1]? = none) :
    lockedAfter address sortedEvents i =
      .error "Cannot read properties of undefined (reading 'module')" := by
  rw [lockedAfter, eventAt, h]
  rfl

theorem eventEntries_of_reward (h : e.rewardFor address = some amount) (i : ℕ) :
    eventEntries env address sortedBlocks sortedTransactions sortedEvents i e =
      (lockedAfter address sortedEvents i >>= fun lockedAmount =>
        getBlockRewardEntries env address amount lockedAmount
          (sortedBlocks.find? fun b => b.id = e.block.id)) := by
  rw [Event.rewardFor] at h
  split at h
  · next minted hdata =>
    split_ifs at h with htopics
    obtain rfl := Option.some.inj h
    have hnot : ¬ (e.topic0.length = lengthID + txIDPrefix.length ∨
        e.topic0.length = lengthID + ccmIDPrefix.length) := by
      rw [htopics.1]
      decide
    rw [eventEntries]
    simp only
    rw [if_neg hnot, if_pos htopics.1, blockEntries, hdata]
    simp only
    rw [if_pos htopics.2]
  · simp at h

/-- The entries for a reward in a block that is known: one, or two of which one is locked. -/
theorem getBlockRewardEntries_some (env : Env) (address : String) (amount : ℤ)
    (lockedAmount : Option ℤ) (block : Block) :
    ∃ es, getBlockRewardEntries env address amount lockedAmount (some block) = .ok es ∧
      (es.map fun entry => entry.amount.getD 0).sum = amount ∧
      ((∃ entry ∈ es, entry.note = some lockedRewardNote) ↔ lockedAmount.isSome) := by
  have hnote : ¬ "Block generation reward (commission + self-stake)" = lockedRewardNote := by decide
  cases lockedAmount with
  | none =>
    refine ⟨_, rfl, ?_, ?_⟩
    · simp
    · simp [hnote]
  | some locked =>
    refine ⟨_, rfl, ?_, ?_⟩
    · simp
    · simp [lockedRewardNote]

theorem getBlockRewardEntries_none (env : Env) (address : String) (amount : ℤ)
    (lockedAmount : Option ℤ) (es : List Entry) :
    getBlockRewardEntries env address amount lockedAmount none ≠ .ok es := by
  intro h
  obtain ⟨block, hblock, -⟩ := bind_eq_ok_iff.mp h
  exact absurd hblock (by simp [readBlock, throw, throwThe, MonadExceptOf.throw])

theorem isSome_lockedNext_iff (h : sortedEvents[i + 1]? = some next) :
    (lockedNext address sortedEvents i e).isSome ↔
      next.block.id = e.block.id ∧ (next.lockFor address).isSome := by
  rw [lockedNext, h, Option.filter]
  by_cases hblock : next.block.id = e.block.id <;> simp [hblock]

/-- **One reward**: it is exported if and only if its block is known, and after it comes another
event, which is of the same block if it locks something. -/
theorem reward_exported_iff (h : e.rewardFor address = some amount) :
    (∃ es, eventEntries env address sortedBlocks sortedTransactions sortedEvents i e = .ok es ∧
      (es.map fun entry => entry.amount.getD 0).sum = amount ∧
      ((∃ entry ∈ es, entry.note = some lockedRewardNote) ↔
        (lockedNext address sortedEvents i e).isSome)) ↔
      (∃ b ∈ sortedBlocks, b.id = e.block.id) ∧
        ∃ next, sortedEvents[i + 1]? = some next ∧
          ((next.lockFor address).isSome → next.block.id = e.block.id) := by
  rw [eventEntries_of_reward h]
  cases hnext : sortedEvents[i + 1]? with
  | none =>
    -- The next event is read and is not there.
    simp [lockedAfter_eq_error hnext, bind, Except.bind]
  | some next =>
    rw [lockedAfter_eq hnext]
    simp only [bind, Except.bind, Option.some.injEq, exists_eq_left']
    cases hblock : sortedBlocks.find? fun b => b.id = e.block.id with
    | none =>
      refine iff_of_false ?_ ?_
      · rintro ⟨es, hes, -⟩
        exact getBlockRewardEntries_none _ _ _ _ _ hes
      · rintro ⟨⟨b, hb, hid⟩, -⟩
        have hnot := List.find?_eq_none.mp hblock b hb
        simp [hid] at hnot
    | some block =>
      have hknown : ∃ b ∈ sortedBlocks, b.id = e.block.id :=
        ⟨block, List.mem_of_find?_eq_some hblock, by simpa using List.find?_some hblock⟩
      obtain ⟨es, hes, hsum, hlocked⟩ :=
        getBlockRewardEntries_some env address amount (next.lockFor address) block
      have hiff : ∀ es',
          Except.ok es = (Except.ok es' : Except String (List Entry)) ↔ es' = es := by
        simp [eq_comm]
      simp only [hes, hiff, exists_eq_left, hsum, hlocked, isSome_lockedNext_iff hnext, true_and,
        hknown]
      grind

/-! ### The export -/

/-- **When the block rewards are exported.** -/
theorem rewards_exported_iff (env : Env) (address : String) (sortedBlocks : List Block)
    (sortedTransactions : List Transaction) (sortedEvents : List Event) :
    RewardsExported env address sortedBlocks sortedTransactions sortedEvents ↔
      RewardsPaired address sortedBlocks sortedEvents := by
  constructor
  · intro h i e he hreward
    obtain ⟨amount, hamount⟩ := Option.isSome_iff_exists.mp hreward
    exact (reward_exported_iff hamount).mp (h.entries i e amount he hamount)
  · intro h
    have hentries : ∀ i e amount, sortedEvents[i]? = some e → e.rewardFor address = some amount →
        ∃ es, eventEntries env address sortedBlocks sortedTransactions sortedEvents i e = .ok es ∧
          (es.map fun entry => entry.amount.getD 0).sum = amount ∧
          ((∃ entry ∈ es, entry.note = some lockedRewardNote) ↔
            (lockedNext address sortedEvents i e).isSome) := fun i e amount he hamount =>
      (reward_exported_iff hamount).mpr (h i e he (by rw [hamount]; rfl))
    refine ⟨hentries, fun hothers => ?_⟩
    have hall : ∀ p ∈ sortedEvents.zipIdx, ∃ es, eventEntries env address sortedBlocks
        sortedTransactions sortedEvents p.2 p.1 = .ok es := by
      intro p hp
      have hget : sortedEvents[p.2]? = some p.1 := List.mk_mem_zipIdx_iff_getElem?.mp hp
      cases hreward : p.1.rewardFor address with
      | none => exact hothers p.2 p.1 hget hreward
      | some amount =>
        obtain ⟨es, hes, -⟩ := hentries p.2 p.1 amount hget hreward
        exact ⟨es, hes⟩
    obtain ⟨entriesOf, hmap⟩ := exists_mapM_eq_ok hall
    refine ⟨dropDuplicatesDeep entriesOf.flatten, bind_eq_ok_iff.mpr ⟨entriesOf, hmap, rfl⟩, ?_⟩
    intro i e es he hes entry hentry
    obtain ⟨es', hmem, hes'⟩ := (mapM_eq_ok hmap).1 (e, i) (List.mk_mem_zipIdx_iff_getElem?.mpr he)
    obtain rfl : es = es' := Except.ok.inj (hes.symm.trans hes')
    rw [dropDuplicatesDeep, List.mem_eraseDups, List.mem_flatten]
    exact ⟨es, hmem, hentry⟩

end Entries

/-! ### A reward at the end, and one before the events of another block -/

/-- The address of a validator. -/
def validatorAddress : String := "klyxud8mwmw4et3zhrr6cee9q4d8thhe2b3x6yqdp"

/-- A block of the validator. -/
def rewardedBlock : Block where
  id := "227c65bb47ba5a061a98ea9c459be750ba4e66a36c68e2c45b096fdeb6bb29fc"
  height := 1745
  timestamp := 1689785580
  generatorPublicKey := "1a315a7c7ccfb44ee0730f22cac4370307a7ef29710b938cff52e653cac753ad"

/-- The reward for the block. -/
def rewardEvent : Event where
  data := .mint 100000000
  topic0 := "03"
  otherTopics := [validatorAddress]
  block := rewardedBlock.toBlockInfo

/-- In another block the fee of a transaction of the validator is locked. -/
def laterLockEvent : Event where
  data := .lock validatorAddress 167000
  topic0 := txIDPrefix ++ "d41e8fbb909fdf44ffccef6f5b0fb5edf853f0dcf699243a0a92403d2a4f1d1d"
  otherTopics := [validatorAddress]
  block :=
    ⟨"5a5a7aa5b9bee7d2a2a53ab3b2cb06e1b6dd0ce0e1bd5ef5ac2b59b5bb3d4a0f", 1760, 1689785730⟩

/-- An indexer that is asked for nothing. -/
def rewardEnv : Env where
  currentChainID := "04000000"
  feeTokenID := "0400000000000000"
  posTokenID := "0400000000000000"
  getTransactions _ := []
  getBlocks _ := []
  getEvents _ := []
  getAllEventsInAsc _ := []
  dateFromTimestamp _ := "2023-07-19"
  timeFromTimestamp _ := "16:53:00"
  publicKeyCache _ _ := none

/-- A reward as the last event makes the export throw; before the lock of a fee in another block it
is exported with a locked part. -/
theorem reward_unpaired :
    getEntriesByChronology rewardEnv validatorAddress [rewardedBlock] [] [rewardEvent] =
        .error "Cannot read properties of undefined (reading 'module')" ∧
      ¬ RewardsExported rewardEnv validatorAddress [rewardedBlock] [] [rewardEvent] ∧
      (∃ es, eventEntries rewardEnv validatorAddress [rewardedBlock] []
          [rewardEvent, laterLockEvent] 0 rewardEvent = .ok es ∧
        es.map Entry.amount = [some 99833000, some 167000]) ∧
      ¬ RewardsExported rewardEnv validatorAddress [rewardedBlock] []
        [rewardEvent, laterLockEvent] := by
  have hreward : rewardEvent.rewardFor validatorAddress = some 100000000 := by decide +kernel
  have hlock : laterLockEvent.lockFor validatorAddress = some 167000 := by decide +kernel
  refine ⟨by decide +kernel, fun h => ?_, ⟨_, rfl, rfl⟩, fun h => ?_⟩
  · obtain ⟨-, next, hnext, -⟩ :=
      (reward_exported_iff hreward).mp (h.entries 0 rewardEvent 100000000 rfl hreward)
    exact absurd hnext (by simp)
  · obtain ⟨-, next, hnext, hblock⟩ :=
      (reward_exported_iff hreward).mp (h.entries 0 rewardEvent 100000000 rfl hreward)
    obtain rfl := Option.some.inj hnext
    exact absurd (hblock (by rw [hlock]; rfl)) (by decide)

end Export

end SwaptoshiService
