import SwaptoshiService.Indexer.DeleteBlocks
import SwaptoshiService.Lib.Run

/-!
# The event caches

`getEventsByHeight` (`dataService/business/events.js`) answers from an LRU cache keyed by height
before it asks the node; a second cache is keyed by block identifier. Deleting a block clears its
entry in the second cache only: `deleteEventsFromCache`, which would clear the entry of its
height, is **never called**. After a reorganisation the entry of a height may therefore still hold
the events of the block that used to be there, and `indexBlock` uses them for the new one
(`stale_events_used`).

The events are the block's own in every run in which the node switches to other blocks only at
heights without a cache entry (`indexed_with_own_events`).

The branch of `getEventsByHeight` that reads the database is dead code: it asks for
`config.isPersistEvents`, which is not set (the option is `config.db.isPersistEvents`).
-/

namespace SwaptoshiService

/-- The tables, the chain of the node, the two caches, and a record of the blocks that were
handed to the indexer together with the events that were used for them. -/
structure EventWorld where
  db : DB
  chain : ℕ → Option Block
  eventCache : ℕ → Option (List Event)
  eventCacheByBlockID : BlockID → Option (List Event)
  used : List (Block × List Event)

namespace EventWorld

/-- `getEventsByHeight(height)`: the cached events, or else those of the block that the node
holds at the height, which are cached. `eventsOf` gives the events the node holds for a
block; `none` is a failed request. -/
def getEventsByHeight (eventsOf : BlockID → List Event) (height : ℕ) (s : EventWorld) :
    Option (List Event × EventWorld) :=
  match s.eventCache height with
  | some events => some (events, s)
  | none => (s.chain height).map fun block =>
    let events := eventsOf block.header.id
    (events, { s with eventCache := Function.update s.eventCache height (some events) })

/-- `cacheEventsByBlockID(blockID, events)`. -/
def cacheEventsByBlockID (id : BlockID) (events : List Event) (s : EventWorld) : EventWorld :=
  { s with eventCacheByBlockID := Function.update s.eventCacheByBlockID id (some events) }

/-- `deleteEventsFromCacheByBlockID(blockID)` for several blocks. -/
def deleteEventsFromCacheByBlockID (ids : List BlockID) (s : EventWorld) : EventWorld :=
  { s with eventCacheByBlockID := fun id => if id ∈ ids then none else s.eventCacheByBlockID id }

end EventWorld

/-- What happens to the caches. -/
inductive EventAction
  | switchChain (chain : ℕ → Option Block)
  | query (height : ℕ)
  | evict (height : ℕ)
  | evictByBlockID (id : BlockID)
  | index
  | delete

/-- One step: a whole job, a request that goes through the cache by height, an entry dropped by
the LRU policy, or a reorganisation. The block that `indexBlock` fetches is normalised with a
request of its own for the events of its height, which is a `query` before the job. -/
inductive EventStep (eventsOf : BlockID → List Event) :
    EventWorld → EventAction → EventWorld → Prop
  | switchChain {s : EventWorld} (chain : ℕ → Option Block)
      (hchain : ∀ h b, chain h = some b → b.header.height = h) :
      EventStep eventsOf s (.switchChain chain) { s with chain }
  | query {s s' : EventWorld} {height : ℕ} {events : List Event}
      (h : s.getEventsByHeight eventsOf height = some (events, s')) :
      EventStep eventsOf s (.query height) s'
  | evict {s : EventWorld} (height : ℕ) :
      EventStep eventsOf s (.evict height)
        { s with eventCache := Function.update s.eventCache height none }
  | evictByBlockID {s : EventWorld} (id : BlockID) :
      EventStep eventsOf s (.evictByBlockID id)
        { s with eventCacheByBlockID := Function.update s.eventCacheByBlockID id none }
  /-- `indexBlock` gets as far as its transaction. -/
  | index {s s' : EventWorld} (env : Env) (order : List ℕ) (currentHeight : ℕ)
      (assets : GenesisAssets) (fault : Option ℕ) (jobHeight : ℕ) (block : Block)
      (events : List Event)
      (hchoose : chooseBlock env ⟨currentHeight, s.chain⟩ jobHeight s.db = .ok (.index block))
      (hevents : s.getEventsByHeight eventsOf block.header.height = some (events, s')) :
      EventStep eventsOf s .index
        { s'.cacheEventsByBlockID block.header.id events with
          db := (indexBlock env order ⟨currentHeight, s.chain⟩ assets (fun _ => events) fault
            jobHeight s.db).2
          used := (block, events) :: s.used }
  /-- `deleteIndexedBlocks`. -/
  | delete {s : EventWorld} (env : Env) (view : DeletionView) (fault : Option ℕ)
      (heights : List ℕ) :
      EventStep eventsOf s .delete
        { s.deleteEventsFromCacheByBlockID ((getBlocksToDelete heights s.db).map (·.2.id)) with
          db := (deleteIndexedBlocks env view fault heights s.db).2 }

namespace EventWorld

variable {eventsOf : BlockID → List Event} {s : EventWorld}

/-- The node does not replace a block whose height has a cache entry. -/
def NothingStale (s : EventWorld) : EventAction → Prop
  | .switchChain chain => ∀ h, s.eventCache h ≠ none → chain h = s.chain h
  | _ => True

/-- The invariant: the node answers with blocks of the height it is asked for, every cache entry
holds the events of the block that the node holds at the height, and only own events were
used. -/
structure Fresh (eventsOf : BlockID → List Event) (s : EventWorld) : Prop where
  chain_height : ∀ h b, s.chain h = some b → b.header.height = h
  cache : ∀ h events, s.eventCache h = some events →
    ∃ b, s.chain h = some b ∧ events = eventsOf b.header.id
  used : ∀ b events, (b, events) ∈ s.used → events = eventsOf b.header.id

/-- Asking for events keeps the caches fresh, and answers with the events of the block that the
node holds. -/
theorem Fresh.getEventsByHeight (hs : s.Fresh eventsOf) {height : ℕ} {events : List Event}
    {s' : EventWorld} (h : s.getEventsByHeight eventsOf height = some (events, s')) :
    s'.Fresh eventsOf ∧ s'.used = s.used ∧
      ∃ b, s.chain height = some b ∧ events = eventsOf b.header.id := by
  rw [EventWorld.getEventsByHeight] at h
  split at h
  · rename_i cached hcache
    obtain ⟨rfl, rfl⟩ := Prod.mk.inj (Option.some_injective _ h)
    exact ⟨hs, rfl, hs.cache height cached hcache⟩
  · obtain ⟨b, hb, heq⟩ := Option.map_eq_some_iff.mp h
    obtain ⟨rfl, rfl⟩ := Prod.mk.inj heq
    refine ⟨⟨hs.chain_height, fun h' events' hc => ?_, hs.used⟩, rfl, b, hb, rfl⟩
    by_cases hh : h' = height
    · subst hh
      exact ⟨b, hb, by simpa using hc.symm⟩
    · exact hs.cache h' events' (by simpa [Function.update_of_ne hh] using hc)

/-- **Step.** If the node replaces no block with a cache entry, the caches stay fresh. -/
theorem Fresh.step {a : EventAction} {s' : EventWorld} (hs : s.Fresh eventsOf)
    (hok : s.NothingStale a) (hstep : EventStep eventsOf s a s') : s'.Fresh eventsOf := by
  cases hstep with
  | switchChain chain hchain =>
    refine ⟨hchain, fun h events hc => ?_, hs.used⟩
    have hsame : chain h = s.chain h := hok h fun hnone => by
      rw [show s.eventCache h = some events from hc] at hnone
      simp at hnone
    rw [show (({ s with chain } : EventWorld).chain h) = s.chain h from hsame]
    exact hs.cache h events hc
  | query h => exact (hs.getEventsByHeight h).1
  | evict height =>
    refine ⟨hs.chain_height, fun h events hc => ?_, hs.used⟩
    by_cases hh : h = height
    · subst hh
      simp at hc
    · exact hs.cache h events (by simpa [Function.update_of_ne hh] using hc)
  | evictByBlockID id => exact ⟨hs.chain_height, hs.cache, hs.used⟩
  | index env order currentHeight assets fault jobHeight block events hchoose hevents =>
    obtain ⟨hs₁, -, b, hb, rfl⟩ := hs.getEventsByHeight hevents
    refine ⟨hs₁.chain_height, hs₁.cache, fun b' events' hmem => ?_⟩
    rcases List.mem_cons.mp hmem with heq | hmem
    · -- The block that was fetched is the one the node holds at its height.
      obtain ⟨rfl, rfl⟩ := Prod.mk.inj heq
      have hblock := (chooseBlock_index hchoose).1
      have hheight := hs.chain_height _ _ hblock
      rw [hheight] at hb
      rw [Option.some_injective _ (hblock.symm.trans hb)]
    · exact hs.used b' events' hmem
  | delete env view fault heights => exact ⟨hs.chain_height, hs.cache, hs.used⟩

end EventWorld

/-- Without cache entries everything is fresh. -/
theorem EventWorld.fresh_init {eventsOf : BlockID → List Event} (db : DB)
    {chain : ℕ → Option Block} (hchain : ∀ h b, chain h = some b → b.header.height = h) :
    EventWorld.Fresh eventsOf ⟨db, chain, fun _ => none, fun _ => none, []⟩ := by
  refine ⟨hchain, ?_, ?_⟩ <;> simp

/-- **Every block is indexed with its own events** in a run in which the node replaces blocks
only at heights without a cache entry. -/
theorem indexed_with_own_events {eventsOf : BlockID → List Event} {db : DB}
    {chain : ℕ → Option Block} (hchain : ∀ h b, chain h = some b → b.header.height = h)
    {s : EventWorld} (hrun : Run (EventStep eventsOf) EventWorld.NothingStale
      ⟨db, chain, fun _ => none, fun _ => none, []⟩ s) {b : Block} {events : List Event}
    (h : (b, events) ∈ s.used) : events = eventsOf b.header.id := by
  have hs := hrun.invariant (EventWorld.Fresh eventsOf) (EventWorld.fresh_init db hchain)
    fun t a t' ht hok hstep => ht.step hok hstep
  exact hs.used b events h

/-! ### A reorganisation -/

/-- A block without transactions above the genesis block. -/
def emptyBlock (id : BlockID) : Block :=
  ⟨⟨id, 1, 10, "generator", "genesis", 0, false⟩, [], []⟩

/-- The node holds a block at height 1. -/
def chainOf (id : BlockID) (h : ℕ) : Option Block := if h = 1 then some (emptyBlock id) else none

/-- The block `a` minted a reward, every other block has no events. -/
def rewardOfA (id : BlockID) : List Event :=
  if id = "a" then [⟨"e", 0, 1, [], .rewardMinted 5⟩] else []

/-- Before the block is indexed. -/
def beforeReorg : EventWorld :=
  ⟨(Table.upsertRow (.block 0) fun _ => { id := "genesis" } : Stmt).exec .empty, chainOf "a",
    fun _ => none, fun _ => none, []⟩

private theorem chainOf_height (id : BlockID) (h : ℕ) (b : Block) (hb : chainOf id h = some b) :
    b.header.height = h := by
  rw [chainOf] at hb
  split at hb
  · rw [← Option.some_injective _ hb]
    exact (‹h = 1›).symm
  · simp at hb

/-- The entry of height 1. -/
def cachedA : ℕ → Option (List Event) := Function.update (fun _ => none) 1 (some (rewardOfA "a"))

/-- After the block `a` is indexed. -/
def afterA : EventWorld :=
  ⟨(indexBlock default [] ⟨1, chainOf "a"⟩ ⟨[], [], [], [], [], [], [], []⟩
      (fun _ => rewardOfA "a") none 1 beforeReorg.db).2, chainOf "a",
    cachedA, Function.update (fun _ => none) "a" (some (rewardOfA "a")),
    [(emptyBlock "a", rewardOfA "a")]⟩

private theorem index_a : EventStep rewardOfA beforeReorg .index afterA := by
  have hchoose : chooseBlock default ⟨1, beforeReorg.chain⟩ 1 beforeReorg.db =
      .ok (.index (emptyBlock "a")) := rfl
  have hevents : beforeReorg.getEventsByHeight rewardOfA 1 = some (rewardOfA "a",
      { beforeReorg with eventCache := cachedA }) := rfl
  exact EventStep.index default [] 1 ⟨[], [], [], [], [], [], [], []⟩ none 1 _ _ hchoose hevents

theorem indexed_with_own_events_first :
    Run (EventStep rewardOfA) EventWorld.NothingStale beforeReorg afterA ∧
      ∀ b events, (b, events) ∈ afterA.used → events = rewardOfA b.header.id := by
  have hok : EventWorld.NothingStale beforeReorg .index := trivial
  refine ⟨Run.refl.tail index_a hok, fun b events h => ?_⟩
  exact indexed_with_own_events (chainOf_height "a") (Run.refl.tail index_a hok) h

/-- The node switches from block `a` to block `b`, `a` is deleted, and `b` is indexed with the
events of `a`. -/
theorem stale_events_used :
    ∃ s, Run (EventStep rewardOfA) Unrestricted beforeReorg s ∧
      ∃ b events, (b, events) ∈ s.used ∧ events ≠ rewardOfA b.header.id := by
  have hrun := (Run.refl.tail index_a trivial : Run _ Unrestricted beforeReorg afterA)
    |>.tail (.switchChain (chainOf "b") (chainOf_height "b")) trivial
    |>.tail (.delete default ⟨fun _ => some (emptyBlock "a"), fun _ => rewardOfA "a", fun _ => []⟩
      none [1]) trivial
    |>.tail (.index default [] 1 ⟨[], [], [], [], [], [], [], []⟩ none 1 (emptyBlock "b")
      (rewardOfA "a") rfl rfl) trivial
  exact ⟨_, hrun, emptyBlock "b", rewardOfA "a", List.mem_cons_self, by decide⟩

end SwaptoshiService
