import Mathlib.Algebra.Ring.Int.Defs
import SwaptoshiService.Indexer.Env
import SwaptoshiService.Lib.Total

/-!
# Indexing the events of a block

What `indexBlock` and `deleteIndexedBlocks` derive from the events of a block besides the effects
of its transactions: the rows of `events` and `event_topics`
(`getEventsInfoToIndex` of `indexer/utils/events.js`), the rewards of the block generator, and
the total amounts locked in the token module (`updateTotalLockedAmounts` of
`indexer/utils/blockchainIndex.js`).

The totals are kept by read-modify-write on the key-value table, the read being issued
**outside** the transaction.
-/

namespace SwaptoshiService

open Async (ofOption)

/-! ### Rows of `events` and `event_topics` -/

/-- The topic starts with `EVENT_TOPIC_PREFIX.CCM_ID` and has the length of an identifier. -/
def isCCMTopic (topic : String) : Bool :=
  topic.toList.take 2 == ['0', '5'] && topic.length == 66

/-- The payload is a command execution result. -/
def EventData.isExecutionResult : EventData → Bool
  | .commandExecutionResult _ _ => true
  | _ => false

/-- The transaction that a CCM topic belongs to: the first topic, less its prefix, of the next
command execution result; `none` is a `TypeError`. -/
def ccmTransactionID (rest : List Event) : Option String := do
  let result ← rest.find? (·.data.isExecutionResult)
  let topic ← result.topics.head?
  if topic.length = 66 then some (String.ofList (topic.toList.drop 2)) else some topic

/-- The topics indexed for the first event of a list. -/
def eventTopics (e : Event) (rest : List Event) : Option (List String) := do
  let topics ← e.topics.mapM fun topic =>
    if isCCMTopic topic then (ccmTransactionID (e :: rest)).map fun t => [topic, t]
    else some [topic]
  match e.data with
  | .rewardsAssigned validatorAddress => some (topics.flatten ++ [validatorAddress])
  | _ => some topics.flatten

/-- The event row of an event; the whole event is stored while its block is not final, or when
events are persisted. -/
def eventRow (env : Env) (header : BlockHeader) (e : Event) : EventRow :=
  { blockID := header.id
    height := header.height
    index := e.index
    timestamp := header.timestamp
    eventStr := if !header.isFinal || env.isPersistEvents then some e else none }

/-- The `eventTopicsInfo` of `getEventsInfoToIndex(block, events)`. -/
def eventTopicsInfo : List Event → Option (List (String × String))
  | [] => some []
  | e :: rest => do
    let topics ← eventTopics e rest
    let others ← eventTopicsInfo rest
    some (topics.map (fun t => (e.id, t)) ++ others)

/-- Upsert the rows of `events` and `event_topics`. -/
def indexEvents (env : Env) (header : BlockHeader) (events : List Event) : Prog Unit := do
  let topics ← ofOption .typeError (eventTopicsInfo events)
  Async.serial (events.map fun e =>
    Table.upsert .dbTrx (.event e.id) fun _ => eventRow env header e)
  Async.serial (topics.map fun (id, topic) =>
    Table.upsert .dbTrx (.eventTopic id topic) fun r => r)

/-- The topic rows of a list of events. -/
def topicsOfEvents (events : List Event) (c : Cell) : Row c → Bool :=
  match c with
  | .eventTopic id _ => fun _ => events.any (·.id == id)
  | _ => fun _ => false

/-- The event rows of a list of events. -/
def rowsOfEvents (events : List Event) (c : Cell) : Row c → Bool :=
  match c with
  | .event id => fun _ => events.any (·.id == id)
  | _ => fun _ => false

/-- Delete the rows of `events` and `event_topics`. -/
def deleteEvents (events : List Event) : Prog Unit := do
  let _ ← ofOption Failure.typeError (eventTopicsInfo events)
  Session.exec .dbTrx (Table.deleteWhere (topicsOfEvents events))
  Session.exec .dbTrx (Table.deleteWhere (rowsOfEvents events))

/-! ### Counters of the block generator -/

/-- Add to the number of generated blocks. -/
def addGeneratedBlocks (n : ℤ) (r : ValidatorRow) : ValidatorRow :=
  { r with generatedBlocks := r.generatedBlocks + n }

/-- Count a block for its generator. -/
def incrementGeneratedBlocks (generatorAddress : Address) : Prog Unit := do
  let numRowsAffected ← Table.increment .dbTrx (.validator generatorAddress)
    (addGeneratedBlocks 1)
  if numRowsAffected = 0 then
    Table.upsert .dbTrx (.validator generatorAddress) fun r => { r with generatedBlocks := 1 }
  else pure ()

/-- Uncount a block for its generator. -/
def decrementGeneratedBlocks (generatorAddress : Address) : Prog Unit :=
  Table.modify .dbTrx (.validator generatorAddress) (addGeneratedBlocks (-1))

/-- The reward of a block: the amount of its first `rewardMinted` event. -/
def blockReward (events : List Event) : ℕ :=
  (events.findSome? fun e => e.data.rewardMinted?).getD 0

/-- The commission with its height that `calcCommissionAmount` finds. The column `height` holds
text: it is compared as a number, but the rows are sorted as text. -/
def latestCommission (db : DB) (address : Address) : ℕ → Option (ℕ × ℕ)
  | 0 => none
  | height + 1 =>
    let latest := latestCommission db address height
    match db.get (.commission address height) with
    | none => latest
    | some r =>
      if latest.all fun (h, _) => toString h < toString height then some (height, r.commission)
      else latest

/-- `MAX_COMMISSION`. -/
def maxCommission : ℕ := 10000

/-- `calcCommissionAmount(generatorAddress, blockHeight, blockReward)`, in whole units. -/
def calcCommissionAmount (db : DB) (generatorAddress : Address) (blockHeight blockReward : ℕ) : ℕ :=
  blockReward * (latestCommission db generatorAddress blockHeight).elim 0 Prod.snd / maxCommission

/-- The amount of a stake, if it is on the validator. -/
def stakeOn (validatorAddress : Address) : (c : Cell) → Row c → ℤ
  | .stake v _, r => if v = validatorAddress then r.amount else 0
  | _, _ => 0

/-- `calcSelfStakeReward(generatorAddress, blockReward, commissionAmount)`, in whole units. -/
def calcSelfStakeReward (db : DB) (generatorAddress : Address) (blockReward commissionAmount : ℕ) :
    ℤ :=
  let selfStakes : ℤ := (db.get (.stake generatorAddress generatorAddress)).elim 0 StakeRow.amount
  let totalStakes := db.total (stakeOn generatorAddress)
  if totalStakes ≤ 0 then 0
  else (blockReward - commissionAmount) * selfStakes / totalStakes

/-- Add (`sign = 1`) or subtract (`sign = -1`) the generator's share of the block reward, the two
amounts as `Number`s. -/
def updateGeneratorRewards (sign : ℤ) (header : BlockHeader) (events : List Event) : Prog Unit :=
  let reward := blockReward events
  if reward = 0 then pure ()
  else do
    let commissionAmount ← Session.query .default fun db =>
      calcCommissionAmount db header.generatorAddress header.height reward
    let selfStakeReward ← Session.query .default fun db =>
      calcSelfStakeReward db header.generatorAddress reward commissionAmount
    Table.modify .dbTrx (.validator header.generatorAddress) fun r =>
      { r with totalCommission := r.totalCommission + sign * jsNumber commissionAmount }
    Table.modify .dbTrx (.validator header.generatorAddress) fun r =>
      { r with totalSelfStakeRewards := r.totalSelfStakeRewards + sign * jsNumber selfStakeReward }

/-! ### Locked amounts -/

namespace EventData

/-- The token of a `lock` or `unlock` event. -/
def lockToken? : EventData → Option TokenID
  | lock tokenID _ => some tokenID
  | unlock tokenID _ => some tokenID
  | _ => none

/-- What an event adds to the locked amount of a token. -/
def lockedChange (tokenID : TokenID) : EventData → ℤ
  | lock t amount => if t = tokenID then amount else 0
  | unlock t amount => if t = tokenID then -amount else 0
  | _ => 0

end EventData

/-- What a list of events adds to the locked amount of a token. -/
def lockedAmountChange (events : List Event) (tokenID : TokenID) : ℤ :=
  (events.map fun e => e.data.lockedChange tokenID).sum

/-- The keys of `tokenIDLockedAmountChangeMap`, in insertion order. -/
def lockedTokens (events : List Event) : List TokenID :=
  (events.filterMap fun e => e.data.lockToken?).eraseDups

/-- `tokenIDLockedAmountChangeMap`, with the given sign. -/
def lockedAmountChangeMap (sign : ℤ) (events : List Event) : List (TokenID × ℤ) :=
  (lockedTokens events).map fun t => (t, sign * lockedAmountChange events t)

/-- `updateTotalLockedAmounts(tokenIDLockedAmountChangeMap, dbTrx)`. -/
def updateTotalLockedAmounts (sched : List ℕ) (changes : List (TokenID × ℤ)) : Prog Unit :=
  Async.interleave sched (changes.map fun (tokenID, change) =>
    updateTotal (.totalLocked tokenID) change)

/-! ### What event indexing may change -/

section Footprints

open Session

variable {env : Env} {W : Conn → Cell → Prop}

theorem indexEvents_confined (header : BlockHeader) (events : List Event)
    (h : ∀ c, c.table = .events ∨ c.table = .eventTopics → W .dbTrx c) :
    Confined (Respects W) (indexEvents env header events) := by
  refine (confined_ofOption _ _).bind fun topics => Confined.bind (Confined.serial fun p hp => ?_)
    fun _ => Confined.serial fun p hp => ?_
  · obtain ⟨e, -, rfl⟩ := List.mem_map.mp hp
    exact Table.confined_upsert (h _ (.inl rfl))
  · obtain ⟨⟨id, topic⟩, -, rfl⟩ := List.mem_map.mp hp
    exact Table.confined_upsert (h _ (.inr rfl))

private theorem topicsOfEvents_table {events : List Event} (c : Cell) (r : Row c)
    (h : topicsOfEvents events c r = true) : c.table = .eventTopics := by
  cases c with
  | eventTopic id t => rfl
  | _ => exact absurd h Bool.false_ne_true

private theorem rowsOfEvents_table {events : List Event} (c : Cell) (r : Row c)
    (h : rowsOfEvents events c r = true) : c.table = .events := by
  cases c with
  | event id => rfl
  | _ => exact absurd h Bool.false_ne_true

theorem deleteEvents_confined (events : List Event)
    (h : ∀ c, c.table = .events ∨ c.table = .eventTopics → W .dbTrx c) :
    Confined (Respects W) (deleteEvents events) := by
  refine (confined_ofOption _ _).bind fun _ => Confined.bind (Table.confined_deleteWhere
    fun c r hc => ?_) fun _ => Table.confined_deleteWhere fun c r hc => ?_
  · exact h c (.inr (topicsOfEvents_table c r hc))
  · exact h c (.inl (rowsOfEvents_table c r hc))

theorem incrementGeneratedBlocks_confined (a : Address) (h : W .dbTrx (.validator a)) :
    Confined (Respects W) (incrementGeneratedBlocks a) := by
  refine (Table.confined_increment h).bind fun n => ?_
  split
  · exact Table.confined_upsert h
  · exact confined_pure ()

theorem updateGeneratorRewards_confined (sign : ℤ) (header : BlockHeader) (events : List Event)
    (h : W .dbTrx (.validator header.generatorAddress)) :
    Confined (Respects W) (updateGeneratorRewards sign header events) := by
  unfold updateGeneratorRewards
  dsimp only
  split
  · exact confined_pure ()
  · exact (confined_query _ _).bind fun _ => (confined_query _ _).bind fun _ =>
      (Table.confined_modify h).bind fun _ => Table.confined_modify h

theorem updateTotal_confined {key : KVKey} {amount : ℤ} (h : W .dbTrx (.kv key)) :
    Confined (Respects W) (updateTotal key amount) :=
  Table.confined_find.bind fun _ => Table.confined_upsert h

theorem updateTotalLockedAmounts_confined (sched : List ℕ) (changes : List (TokenID × ℤ))
    (h : ∀ t ∈ changes.map Prod.fst, W .dbTrx (.kv (.totalLocked t))) :
    Confined (Respects W) (updateTotalLockedAmounts sched changes) := by
  refine Confined.interleave fun p hp => ?_
  obtain ⟨⟨t, d⟩, ht, rfl⟩ := List.mem_map.mp hp
  exact updateTotal_confined (h t (List.mem_map_of_mem ht))

end Footprints

end SwaptoshiService
