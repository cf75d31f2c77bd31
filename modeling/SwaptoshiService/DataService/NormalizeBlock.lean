import Mathlib.Algebra.BigOperators.Group.List.Basic
import Mathlib.Algebra.BigOperators.Ring.List
import Mathlib.Algebra.GroupWithZero.Nat
import SwaptoshiService.Jobs.EventCache

/-!
# Formatting a block

`normalizeBlock` (`blockchain-indexer/shared/dataService/business/blocks.js`) adds to a block the
number of its events, its reward and totals over its transactions. The number and the reward are
read from the row of `blocks` **at the height of the block**; without a row, they are taken from the
events, which for a deleted block are asked for by its ID (`getEventsByBlockID`), and else by the
height (`getEventsByHeight`). Around a reorganisation the row, the cache entry of the height and the
node may all speak of another block, and of a deleted block without events in the cache and the
table nothing is known, which is taken for a block without events.

`normalizeBlock_iff`: the block is formatted with its own data if and only if the source that is
asked has them (`Describes`). The totals over the transactions are right in any case
(`normalizeBlock_totals`).
-/

namespace SwaptoshiService

/-! ### The index -/

/-- What `normalizeBlock` reads: the tables, the chain of the node, and the two caches. The entries
of the second cache come from a column that may be `NULL`. -/
structure FormatWorld where
  db : DB
  /-- The events in the order in which the database answers them. -/
  eventIDs : List String
  mem_eventIDs : ∀ id, id ∈ eventIDs ↔ db.get (.event id) ≠ none
  eventIDs_nodup : eventIDs.Nodup
  chain : ℕ → Option Block
  eventCache : ℕ → Option (List Event)
  eventCacheByBlockID : BlockID → Option (List (Option Event))

/-- What else a formatted block depends on. -/
structure FormatEnv where
  finalizedHeight : ℕ
  genesisHeight : ℕ
  genesisAssetsLength : ℕ
  /-- The public key and the name of an indexed account. -/
  indexedAccount : Address → Option (Option String × Option String)
  getNameByAddress : Address → Option String

namespace FormatWorld

variable (s : FormatWorld)

/-- `eventsTable.find({ blockID }, ['eventStr'])`. -/
def findEventStrs (id : BlockID) : List (Option Event) :=
  ((s.eventIDs.filterMap fun eventID => s.db.get (.event eventID)).filter
    fun row : EventRow => row.blockID = id).map EventRow.eventStr

/-- `getEventsByHeight(height)`; `none` if the node does not answer. `eventsOf` gives the events of
a block. -/
def getEventsByHeight (eventsOf : BlockID → List Event) (height : ℕ) :
    Option (List Event × FormatWorld) :=
  match s.eventCache height with
  | some events => some (events, s)
  | none => (s.chain height).map fun block =>
    let events := eventsOf block.header.id
    (events, { s with eventCache := Function.update s.eventCache height (some events) })

/-- `getEventsByBlockID(blockID)`. -/
def getEventsByBlockID (id : BlockID) : List (Option Event) × FormatWorld :=
  match s.eventCacheByBlockID id with
  | some events => (events, s)
  | none =>
    let events := s.findEventStrs id
    if events = [] then ([], s)
    else (events,
      { s with eventCacheByBlockID := Function.update s.eventCacheByBlockID id (some events) })

end FormatWorld

/-! ### The formatted block -/

/-- `events.find(e => …)` for the event of the block reward, and its amount: `none` inside for no
such event, and `none` when an entry that is `null` comes before it, which has no `module`. -/
def findReward : List (Option Event) → Option (Option ℕ)
  | [] => some none
  | none :: _ => none
  | some e :: events =>
    match e.data.rewardMinted? with
    | some amount => some (some amount)
    | none => findReward events

/-- The sums that the transactions are added to. -/
structure BlockTotals where
  size : ℕ
  totalForged : ℕ
  totalBurnt : ℕ
  networkFee : ℤ
  deriving DecidableEq, Repr

/-- A transaction is added. -/
def BlockTotals.addTransaction (t : BlockTotals) (tx : Transaction) : BlockTotals where
  size := t.size + tx.size
  totalForged := t.totalForged + tx.fee
  totalBurnt := t.totalBurnt + tx.minFee
  networkFee := t.networkFee + ((tx.fee : ℤ) - tx.minFee)

/-- The generator of a formatted block. -/
structure BlockGenerator where
  address : Address
  publicKey : Option String
  name : Option String
  deriving DecidableEq, Repr

/-- A formatted block. -/
structure FormattedBlock extends BlockTotals where
  header : BlockHeader
  generator : Option BlockGenerator
  isFinal : Bool
  numberOfTransactions : ℕ
  numberOfAssets : ℕ
  numberOfEvents : ℕ
  reward : Option ℕ
  /-- The transactions, each with its `moduleCommand`. -/
  transactions : List (Transaction × String)
  assets : List String
  deriving DecidableEq, Repr

section Normalize

variable (env : FormatEnv) (eventsOf : BlockID → List Event)

/-- `block.generator`; an empty address has none. -/
def blockGenerator (address : Address) : Option BlockGenerator :=
  if address = "" then none
  else
    let info := env.indexedAccount address
    some { address
           publicKey := info.bind Prod.fst
           name := match info.bind Prod.snd with
            | some name => if name = "" then env.getNameByAddress address else some name
            | none => env.getNameByAddress address }

/-- `numberOfEvents` and `reward`; `none` when it throws. -/
def eventFigures (s : FormatWorld) (header : BlockHeader) (isDeletedBlock : Bool) :
    Option ((ℕ × Option ℕ) × FormatWorld) :=
  match s.db.get (.block header.height) with
  | some row => some ((row.numberOfEvents, some row.reward), s)
  | none =>
    let found := if isDeletedBlock then some (s.getEventsByBlockID header.id)
      else (s.getEventsByHeight eventsOf header.height).map fun (events, s') =>
        (events.map some, s')
    match found with
    | none => none
    | some (events, s') => (findReward events).map fun reward => ((events.length, reward), s')

/-- `normalizeBlock(originalBlock, isDeletedBlock)`; `none` when it throws. -/
def normalizeBlock (s : FormatWorld) (block : Block) (isDeletedBlock : Bool) :
    Option (FormattedBlock × FormatWorld) :=
  (eventFigures eventsOf s block.header isDeletedBlock).map fun ((numberOfEvents, reward), s') =>
    let totals := block.transactions.foldl BlockTotals.addTransaction ⟨0, reward.getD 0, 0, 0⟩
    ({ totals with
      header := block.header
      generator := blockGenerator env block.header.generatorAddress
      isFinal := decide (block.header.height ≤ env.finalizedHeight)
      numberOfTransactions := block.transactions.length
      numberOfAssets := if block.header.height ≠ env.genesisHeight then block.assetsModules.length
        else env.genesisAssetsLength
      numberOfEvents
      reward
      transactions := block.transactions.map fun tx => (tx, tx.module ++ ":" ++ tx.command)
      assets := block.assetsModules }, s')

/-- The block that `newBlockProcessor` formats. -/
def formatNewBlock (s : FormatWorld) (block : Block) : Option (FormattedBlock × FormatWorld) :=
  normalizeBlock env eventsOf s block false

/-- The block that `deleteBlockProcessor` formats: it is given **the header only**. -/
def formatDeletedBlock (s : FormatWorld) (header : BlockHeader) :
    Option (FormattedBlock × FormatWorld) :=
  normalizeBlock env eventsOf s ⟨header, [], []⟩ true

end Normalize

/-! ### The totals -/

/-- The sum over the transactions. -/
def sumOver (f : Transaction → ℕ) (txs : List Transaction) : ℕ := (txs.map f).sum

theorem foldl_addTransaction (txs : List Transaction) (t : BlockTotals) :
    txs.foldl BlockTotals.addTransaction t =
      { size := t.size + sumOver Transaction.size txs
        totalForged := t.totalForged + sumOver Transaction.fee txs
        totalBurnt := t.totalBurnt + sumOver Transaction.minFee txs
        networkFee := t.networkFee +
          ((sumOver Transaction.fee txs : ℤ) - sumOver Transaction.minFee txs) } := by
  induction txs generalizing t with
  | nil => simp [sumOver]
  | cons tx txs ih =>
    have hcons : ∀ f : Transaction → ℕ, sumOver f (tx :: txs) = f tx + sumOver f txs :=
      fun f => by rw [sumOver, sumOver, List.map_cons, List.sum_cons]
    rw [List.foldl_cons, ih]
    simp only [BlockTotals.addTransaction, hcons, BlockTotals.mk.injEq, Nat.cast_add]
    omega

variable {env : FormatEnv} {eventsOf : BlockID → List Event} {s s' : FormatWorld} {block : Block}
  {isDeletedBlock : Bool} {formatted : FormattedBlock}

/-- **The totals**: whatever the index holds, the fees of the transactions that are given are
forged beside the reported reward, and they are burnt or paid to the network. -/
theorem normalizeBlock_totals
    (h : normalizeBlock env eventsOf s block isDeletedBlock = some (formatted, s')) :
    formatted.totalForged = formatted.reward.getD 0 + sumOver Transaction.fee block.transactions ∧
      (formatted.totalBurnt : ℤ) + formatted.networkFee =
        sumOver Transaction.fee block.transactions := by
  obtain ⟨⟨⟨numberOfEvents, reward⟩, s''⟩, -, heq⟩ := Option.map_eq_some_iff.mp h
  obtain ⟨rfl, -⟩ := Prod.mk.inj heq
  simp [foldl_addTransaction]

/-! ### The source that is asked -/

/-- How many events a block has, and its reward. -/
def eventFiguresOf (events : List Event) : ℕ × ℕ := (events.length, blockReward events)

/-- The same for events that may be `null`. -/
def eventFiguresOf? (events : List (Option Event)) : Option (ℕ × ℕ) :=
  (findReward events).map fun reward => (events.length, reward.getD 0)

/-- What is asked for the number of events and the reward has those of the block: the row at its
height; if there is none, the events that are cached or stored under the ID of a deleted block, and
else the events that are cached for the height, or those of the block that the node holds there. -/
def FormatWorld.Describes (s : FormatWorld) (eventsOf : BlockID → List Event)
    (header : BlockHeader) (isDeletedBlock : Bool) : Prop :=
  let own := eventFiguresOf (eventsOf header.id)
  match s.db.get (.block header.height) with
  | some row => (row.numberOfEvents, row.reward) = own
  | none =>
    if isDeletedBlock then
      eventFiguresOf? ((s.eventCacheByBlockID header.id).getD (s.findEventStrs header.id)) =
        some own
    else
      match s.eventCache header.height with
      | some events => eventFiguresOf events = own
      | none => ∃ b, s.chain header.height = some b ∧ eventFiguresOf (eventsOf b.header.id) = own

/-- The formatted block has the number of events and the reward of the block, and the totals over
its transactions; no reward counts as zero. -/
structure FormattedBlock.ReportsOwn (formatted : FormattedBlock) (eventsOf : BlockID → List Event)
    (block : Block) : Prop where
  numberOfEvents : formatted.numberOfEvents = (eventsOf block.header.id).length
  reward : formatted.reward.getD 0 = blockReward (eventsOf block.header.id)
  totalForged : formatted.totalForged = blockReward (eventsOf block.header.id) +
    sumOver Transaction.fee block.transactions
  fees : (formatted.totalBurnt : ℤ) + formatted.networkFee =
    sumOver Transaction.fee block.transactions

theorem findReward_map_some (events : List Event) :
    findReward (events.map some) = some (events.findSome? fun e => e.data.rewardMinted?) := by
  induction events with
  | nil => rfl
  | cons e events ih =>
    rw [List.map_cons, findReward, ih, List.findSome?_cons]
    cases e.data.rewardMinted? <;> rfl

theorem getEventsByBlockID_fst (s : FormatWorld) (id : BlockID) :
    (s.getEventsByBlockID id).1 = (s.eventCacheByBlockID id).getD (s.findEventStrs id) := by
  rw [FormatWorld.getEventsByBlockID]
  cases s.eventCacheByBlockID id with
  | some events => rfl
  | none =>
    by_cases hnil : s.findEventStrs id = []
    · simp [hnil]
    · simp [hnil]

/-- The figures are those of the source that is asked. -/
theorem describes_iff (header : BlockHeader) : s.Describes eventsOf header isDeletedBlock ↔
    ∃ figures s', eventFigures eventsOf s header isDeletedBlock = some (figures, s') ∧
      (figures.1, figures.2.getD 0) = eventFiguresOf (eventsOf header.id) := by
  rw [FormatWorld.Describes, eventFigures]
  cases hrow : s.db.get (.block header.height) with
  | some row => simp
  | none =>
    cases isDeletedBlock with
    | true =>
      simp only [if_true]
      rw [← getEventsByBlockID_fst, eventFiguresOf?]
      cases findReward (s.getEventsByBlockID header.id).1 <;> simp
    | false =>
      rw [FormatWorld.getEventsByHeight]
      cases hcache : s.eventCache header.height with
      | some events => simp [findReward_map_some, eventFiguresOf, blockReward]
      | none =>
        cases hchain : s.chain header.height with
        | none => simp
        | some b => simp [findReward_map_some, eventFiguresOf, blockReward]

/-- **A block is formatted with its own data** exactly if the source that is asked has them. -/
theorem normalizeBlock_iff (env : FormatEnv) (eventsOf : BlockID → List Event) (s : FormatWorld)
    (block : Block) (isDeletedBlock : Bool) :
    (∃ formatted s', normalizeBlock env eventsOf s block isDeletedBlock = some (formatted, s') ∧
      formatted.ReportsOwn eventsOf block) ↔ s.Describes eventsOf block.header isDeletedBlock := by
  rw [describes_iff]
  constructor
  · rintro ⟨formatted, s', h, hown⟩
    obtain ⟨⟨⟨numberOfEvents, reward⟩, s''⟩, hfigures, heq⟩ := Option.map_eq_some_iff.mp h
    obtain ⟨rfl, rfl⟩ := Prod.mk.inj heq
    exact ⟨_, _, hfigures, Prod.ext hown.numberOfEvents hown.reward⟩
  · rintro ⟨⟨numberOfEvents, reward⟩, s', hfigures, hown⟩
    obtain ⟨hnumber, hreward⟩ := Prod.mk.inj hown
    have h : normalizeBlock env eventsOf s block isDeletedBlock = some (_, s') :=
      Option.map_eq_some_iff.mpr ⟨_, hfigures, rfl⟩
    obtain ⟨hforged, hfees⟩ := normalizeBlock_totals h
    exact ⟨_, s', h, hnumber, hreward, hforged.trans (congrArg (· + _) hreward), hfees⟩

/-! ### A fork -/

/-- Block `a` is indexed at the height 1. -/
def forkWorld : FormatWorld where
  db := (Table.upsertRow (.block 1) fun _ => { id := "a", numberOfEvents := 1, reward := 5 } :
    Stmt).exec .empty
  eventIDs := []
  mem_eventIDs id := by
    have hne : Cell.event id ≠ Cell.block 1 := by simp
    simp [Table.upsertRow, Write.exec, Write.point_act_of_ne hne]
  eventIDs_nodup := List.nodup_nil
  chain := chainOf "b"
  eventCache _ := none
  eventCacheByBlockID _ := none

/-- Nothing is known beside the blocks. -/
def bareEnv : FormatEnv := ⟨0, 0, 0, fun _ => none, fun _ => none⟩

/-- Block `b`, which has no events, is formatted with the event and the reward of block `a`. -/
theorem fork_reports_other_block :
    (normalizeBlock bareEnv rewardOfA forkWorld (emptyBlock "b") false).map
      (fun r => (r.1.numberOfEvents, r.1.reward)) = some (1, some 5) ∧
    rewardOfA "b" = [] ∧
    ¬ ∃ formatted s', normalizeBlock bareEnv rewardOfA forkWorld (emptyBlock "b") false =
      some (formatted, s') ∧ formatted.ReportsOwn rewardOfA (emptyBlock "b") := by
  refine ⟨rfl, by decide, ?_⟩
  rintro ⟨formatted, s', h, hown⟩
  have hone : (normalizeBlock bareEnv rewardOfA forkWorld (emptyBlock "b") false).map
      (fun r => r.1.numberOfEvents) = some 1 := rfl
  rw [h, Option.map_some, hown.numberOfEvents] at hone
  revert hone
  decide

/-! ### Runs of the indexer -/

/-- A block that the node holds and that is not indexed is formatted with its own data, in every run
in which the node replaces blocks only at heights without a cache entry. -/
theorem formatNewBlock_of_run {eventsOf : BlockID → List Event} {db : DB} {chain : ℕ → Option Block}
    (hchain : ∀ h b, chain h = some b → b.header.height = h) {t : EventWorld}
    (hrun : Run (EventStep eventsOf) EventWorld.NothingStale
      ⟨db, chain, fun _ => none, fun _ => none, []⟩ t)
    {s : FormatWorld} (hchains : s.chain = t.chain) (hcaches : s.eventCache = t.eventCache)
    {block : Block} (hblock : t.chain block.header.height = some block)
    (hrow : s.db.get (.block block.header.height) = none) (env : FormatEnv) :
    ∃ formatted s', formatNewBlock env eventsOf s block = some (formatted, s') ∧
      formatted.ReportsOwn eventsOf block := by
  have hfresh := hrun.invariant (EventWorld.Fresh eventsOf) (EventWorld.fresh_init db hchain)
    fun t a t' ht hok hstep => ht.step hok hstep
  rw [formatNewBlock, normalizeBlock_iff, FormatWorld.Describes, hrow, hchains, hcaches]
  cases hcache : t.eventCache block.header.height with
  | some events =>
    obtain ⟨b, hb, rfl⟩ := hfresh.cache _ _ hcache
    rw [Option.some_injective _ (hblock.symm.trans hb)]
    rfl
  | none => exact ⟨block, hblock, rfl⟩

end SwaptoshiService
