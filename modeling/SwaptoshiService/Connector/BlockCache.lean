import Mathlib.Data.List.Basic
import Mathlib.Data.List.Count
import Mathlib.Data.Nat.Notation
import Mathlib.Logic.Function.Basic
import Mathlib.Logic.Relation

/-!
# The block cache of the connector

The connector (`blockchain-connector/shared/sdk/cache.js`) keeps the blocks that were not final when
it got them. They are put into a waitlist, and `cacheBlocksFromWaitlist` writes them one by one:
first a row for each transaction, with the id of the block, and then the block itself. A block whose
writing fails goes back to the head of the waitlist. `cacheCleanup` looks for the blocks that have
expired, and deletes their transactions and then the blocks. Blocks and transactions are looked up
meanwhile, by two requests for a transaction.

`block_cache` says what holds in any interleaving of these: no block is lost, doubled or overtaken
in the waitlist, what is found is what was asked for, and what has been stored is found until it
expires.
-/

namespace SwaptoshiService

namespace BlockCache

/-- A transaction; `data` is what is left of it. -/
structure Transaction (π : Type) where
  id : String
  data : π

structure Block (π : Type) where
  id : String
  height : ℕ
  timestamp : ℕ
  transactions : List (Transaction π)

/-- A row of the table `blocks`. -/
structure BlockRow (π : Type) where
  timestamp : ℕ
  block : Block π

/-- Where `cacheBlocksFromWaitlist` is: its timer runs, its loop goes on, or a block is being
written, of which some transactions are left. -/
inductive Writer (π : Type)
  | idle
  | looping (numErrors : ℕ)
  | writing (numErrors : ℕ) (block : Block π) (left : List (Transaction π))

/-- Where a call of `cacheCleanup` is, with the ids of the blocks that have expired. -/
inductive Cleanup
  | found (blockIDs : List String)
  | transactionsDeleted (blockIDs : List String)

/-- The waitlist and the two tables, with who is at work on them. -/
structure World (π : Type) where
  blockCacheWaitlist : List (Block π)
  writer : Writer π
  /-- `getBlocksCache()`, by `id`. -/
  blocks : String → Option (BlockRow π)
  /-- `getTrxIDtoBlockIDCache()`: `blockID` by `transactionID`. -/
  trxIDToBlockID : String → Option String
  cleanups : ℕ → Option Cleanup
  /-- What was put into the waitlist since the connector started, and what was written. -/
  pushed : List (Block π)
  written : List (Block π)
  /-- What was ever put into the waitlist, and what was written. -/
  added : List (Block π)
  stored : List (Block π)
  /-- The limits of the cleanups so far. -/
  expiries : List ℕ

section Code

variable {π : Type}

/-- `cacheBlocksIfEnabled(blocks)`, when the node has told its finalized height. -/
def World.cacheBlocksIfEnabled (finalizedHeight : ℕ) (blocks : List (Block π)) (s : World π) :
    World π :=
  let pushed := blocks.filter fun block => finalizedHeight < block.height
  { s with
    blockCacheWaitlist := s.blockCacheWaitlist ++ pushed
    pushed := s.pushed ++ pushed
    added := s.added ++ pushed }

/-- `getBlockByIDFromCache(id)` -/
def World.getBlockByIDFromCache (s : World π) (id : String) : Option (Block π) :=
  (s.blocks id).map BlockRow.block

/-- The second request of `getTransactionByIDFromCache(transactionID)`. -/
def World.findTransaction (s : World π) (blockID transactionID : String) :
    Option (Transaction π) :=
  (s.getBlockByIDFromCache blockID).bind fun block =>
    block.transactions.find? fun tx => tx.id = transactionID

/-- `getBlockByID(id)`: what is not in the cache is asked of the node. -/
def World.getBlockByID (node : String → Block π) (s : World π) (id : String) : Block π :=
  (s.getBlockByIDFromCache id).getD (node id)

/-- `getBlocksByIDs(ids)`. The blocks are asked for one after another, and the cache may be another
each time. -/
def getBlocksByIDs (node : String → Block π) (genesisBlockId : String) (worlds : ℕ → World π)
    (ids : List String) : List (Block π) :=
  match ids.findIdx? (· = genesisBlockId) with
  | some genesisBlockIndex =>
    let remainingIDs := ids.filter (· ≠ genesisBlockId)
    let genesisBlock := node genesisBlockId
    if remainingIDs.length = 0 then [genesisBlock]
    else (remainingIDs.mapIdx fun i => (worlds i).getBlockByID node).insertIdx genesisBlockIndex
      genesisBlock
  | none => ids.mapIdx fun i => (worlds i).getBlockByID node

end Code

/-! ### Steps -/

/-- What can happen next, for a node with these blocks. -/
inductive Step {π : Type} (node : String → Block π) : World π → World π → Prop
  | add {s : World π} (finalizedHeight : ℕ) (blocks : List (Block π))
      (h : ∀ block ∈ blocks, node block.id = block) :
      Step node s (s.cacheBlocksIfEnabled finalizedHeight blocks)
  /-- The timer is over. -/
  | start {s : World π} (h : s.writer = .idle) : Step node s { s with writer := .looping 0 }
  | shift {s : World π} {numErrors : ℕ} {block : Block π} {rest : List (Block π)}
      (h : s.writer = .looping numErrors) (hlist : s.blockCacheWaitlist = block :: rest) :
      Step node s
        { s with
          blockCacheWaitlist := rest
          writer := .writing numErrors block block.transactions }
  | upsertTransaction {s : World π} {numErrors : ℕ} {block : Block π} {tx : Transaction π}
      {left : List (Transaction π)} (h : s.writer = .writing numErrors block (tx :: left)) :
      Step node s
        { s with
          writer := .writing numErrors block left
          trxIDToBlockID := Function.update s.trxIDToBlockID tx.id (some block.id) }
  | upsertBlock {s : World π} {numErrors : ℕ} {block : Block π}
      (h : s.writer = .writing numErrors block []) :
      Step node s
        { s with
          writer := .looping numErrors
          blocks := Function.update s.blocks block.id (some ⟨block.timestamp, block⟩)
          written := s.written ++ [block]
          stored := s.stored ++ [block] }
  /-- A write fails, and the block goes back to where it was. -/
  | fail {s : World π} {numErrors : ℕ} {block : Block π} {left : List (Transaction π)}
      (h : s.writer = .writing numErrors block left) :
      Step node s
        { s with
          blockCacheWaitlist := block :: s.blockCacheWaitlist
          writer := if 3 < numErrors then .idle else .looping (numErrors + 1) }
  | finish {s : World π} {numErrors : ℕ} (h : s.writer = .looping numErrors)
      (hlist : s.blockCacheWaitlist = []) : Step node s { s with writer := .idle }
  /-- A cleanup begins: `timestamp` up to a limit. -/
  | find {s : World π} (i limit : ℕ) (blockIDs : List String)
      (h : ∀ id, id ∈ blockIDs ↔ ∃ row, s.blocks id = some row ∧ row.timestamp ≤ limit) :
      Step node s
        { s with
          cleanups := Function.update s.cleanups i (some (.found blockIDs))
          expiries := limit :: s.expiries }
  | deleteTransactions {s : World π} {i : ℕ} {blockIDs : List String}
      (h : s.cleanups i = some (.found blockIDs)) :
      Step node s
        { s with
          cleanups := Function.update s.cleanups i (some (.transactionsDeleted blockIDs))
          trxIDToBlockID := fun id => (s.trxIDToBlockID id).filter (· ∉ blockIDs) }
  | deleteBlocks {s : World π} {i : ℕ} {blockIDs : List String}
      (h : s.cleanups i = some (.transactionsDeleted blockIDs)) :
      Step node s
        { s with
          cleanups := Function.update s.cleanups i none
          blocks := fun id => if id ∈ blockIDs then none else s.blocks id }
  /-- A cleanup fails. -/
  | dropCleanup {s : World π} (i : ℕ) :
      Step node s { s with cleanups := Function.update s.cleanups i none }

  /-- The connector starts anew, with the tables as they are. -/
  | restart {s : World π} :
      Step node s
        { s with
          blockCacheWaitlist := []
          writer := .idle
          cleanups := fun _ => none
          pushed := []
          written := [] }

/-! ### What holds in every run -/

section Sound

variable {π : Type} {node : String → Block π} {s t : World π} {id : String} {block : Block π}

/-- The block that is being written. -/
def Writer.inHand : Writer π → List (Block π)
  | .writing _ block _ => [block]
  | _ => []

@[simp] theorem Writer.inHand_idle : (idle : Writer π).inHand = [] := rfl

@[simp] theorem Writer.inHand_looping (numErrors : ℕ) :
    (looping numErrors : Writer π).inHand = [] := rfl

@[simp] theorem Writer.inHand_writing (numErrors : ℕ) (block : Block π)
    (left : List (Transaction π)) : (writing numErrors block left).inHand = [block] := rfl

def Cleanup.blockIDs : Cleanup → List String
  | .found blockIDs => blockIDs
  | .transactionsDeleted blockIDs => blockIDs

def Block.Has (block : Block π) (transactionID : String) : Prop :=
  ∃ tx ∈ block.transactions, tx.id = transactionID

/-- No cleanup has found the block expired. -/
def World.Live (s : World π) (block : Block π) : Prop :=
  ∀ limit ∈ s.expiries, limit < block.timestamp

/-- If no block with the transaction has expired, then one is known. -/
def World.Indexed (s : World π) (transactionID : String) : Prop :=
  (∀ block ∈ s.added, block.Has transactionID → s.Live block) →
    ∃ block ∈ s.added, block.Has transactionID ∧ s.trxIDToBlockID transactionID = some block.id

/-- **The invariant.** -/
structure World.Sound (node : String → Block π) (s : World π) : Prop where
  nodes : ∀ block ∈ s.added, node block.id = block
  order : s.pushed = s.written ++ s.writer.inHand ++ s.blockCacheWaitlist
  pushed_added : s.pushed ⊆ s.added
  written_stored : s.written ⊆ s.stored
  stored_added : s.stored ⊆ s.added
  rows : ∀ id row, s.blocks id = some row →
    row.block.id = id ∧ row.timestamp = row.block.timestamp ∧ row.block ∈ s.stored
  kept : ∀ block ∈ s.stored, s.Live block → (s.blocks block.id).isSome
  cleanups : ∀ i c, s.cleanups i = some c → ∀ id ∈ c.blockIDs, ¬ s.Live (node id)
  indexed : ∀ block ∈ s.stored, ∀ tx ∈ block.transactions, s.Indexed tx.id
  writing : ∀ n block left, s.writer = .writing n block left →
    ∃ done, block.transactions = done ++ left ∧ ∀ tx ∈ done, s.Indexed tx.id

/-- Nothing is forgotten. -/
structure World.Later (s t : World π) : Prop where
  added : s.added ⊆ t.added
  stored : s.stored ⊆ t.stored
  expiries : s.expiries ⊆ t.expiries

theorem World.Later.live (h : s.Later t) (hlive : t.Live block) : s.Live block :=
  fun limit hlimit => hlive limit (h.expiries hlimit)

/-- **Rows are kept** of blocks that have not expired. -/
theorem World.Indexed.later (h : s.Indexed id) (hlater : s.Later t)
    (hrow : ∀ block ∈ t.added, t.Live block → block.Has id →
      s.trxIDToBlockID id = some block.id → t.trxIDToBlockID id = some block.id) :
    t.Indexed id := by
  intro hlive
  obtain ⟨block, hmem, hhas, hget⟩ :=
    h fun block hmem hhas => hlater.live (hlive block (hlater.added hmem) hhas)
  have hmem' := hlater.added hmem
  exact ⟨block, hmem', hhas, hrow block hmem' (hlive block hmem' hhas) hhas hget⟩

theorem Step.later (h : Step node s t) : s.Later t := by
  cases h with
  | add => exact ⟨List.subset_append_left _ _, List.Subset.refl _, List.Subset.refl _⟩
  | upsertBlock =>
    exact ⟨List.Subset.refl _, List.subset_append_left _ _, List.Subset.refl _⟩
  | find => exact ⟨List.Subset.refl _, List.Subset.refl _, List.subset_cons_self _ _⟩
  | _ => exact ⟨List.Subset.refl _, List.Subset.refl _, List.Subset.refl _⟩

namespace World.Sound

theorem inHand_mem (h : s.Sound node) {n : ℕ} {left : List (Transaction π)}
    (hwriter : s.writer = .writing n block left) : block ∈ s.added := by
  refine h.pushed_added ?_
  rw [h.order, hwriter]
  exact List.mem_append_left _ (List.mem_append_right _ (List.mem_singleton_self block))

theorem writing_of (h : s.Sound node) (hindexed : ∀ {id}, s.Indexed id → t.Indexed id) {n : ℕ}
    {left : List (Transaction π)} (hwriter : s.writer = .writing n block left) :
    ∃ done, block.transactions = done ++ left ∧ ∀ tx ∈ done, t.Indexed tx.id := by
  obtain ⟨done, hsplit, hdone⟩ := h.writing n block left hwriter
  exact ⟨done, hsplit, fun tx htx => hindexed (hdone tx htx)⟩

/-- A block that has not expired is not among those that are deleted. -/
theorem notMem_blockIDs (h : s.Sound node) {i : ℕ} {c : Cleanup}
    (hc : s.cleanups i = some c) (hmem : block ∈ s.added) (hlive : s.Live block) :
    block.id ∉ c.blockIDs := by
  intro hid
  have hdead := h.cleanups i c hc block.id hid
  rw [h.nodes block hmem] at hdead
  exact hdead hlive

/-- Cleanups come and go. -/
theorem setCleanup (h : s.Sound node) (i : ℕ) (c? : Option Cleanup)
    (hc : ∀ c, c? = some c → ∀ id ∈ c.blockIDs, ¬ s.Live (node id)) :
    World.Sound node { s with cleanups := Function.update s.cleanups i c? } := by
  refine { h with cleanups := fun j c hget => ?_ }
  by_cases hj : j = i
  · subst hj
    exact hc c (by simpa using hget)
  · exact h.cleanups j c (by simpa [Function.update_of_ne hj] using hget)

end World.Sound

/-- **One step.** -/
theorem Step.sound (hstep : Step node s t) (h : s.Sound node) : t.Sound node := by
  have hlater := hstep.later
  cases hstep with
  | add finalizedHeight blocks hnode =>
    have hindexed {id : String} (hid : s.Indexed id) :
        (s.cacheBlocksIfEnabled finalizedHeight blocks).Indexed id :=
      hid.later hlater fun _ _ _ _ hget => hget
    refine { h with
      nodes := ?_
      order := ?_
      pushed_added := List.append_subset.mpr
        ⟨List.Subset.trans h.pushed_added hlater.added, List.subset_append_right _ _⟩
      stored_added := List.Subset.trans h.stored_added hlater.added
      indexed := ?_
      writing := ?_ }
    · intro block hmem
      rcases List.mem_append.mp hmem with hold | hnew
      · exact h.nodes block hold
      · exact hnode block (List.mem_of_mem_filter hnew)
    · rw [World.cacheBlocksIfEnabled, h.order, List.append_assoc]
    · exact fun block hmem tx htx => hindexed (h.indexed block hmem tx htx)
    · exact fun n block left hwriter => h.writing_of hindexed hwriter
  | start hwriter =>
    refine { h with order := ?_, writing := ?_ }
    · simp [h.order, hwriter]
    · rintro _ _ _ ⟨⟩
  | @shift numErrors block rest hwriter hlist =>
    refine { h with order := ?_, writing := ?_ }
    · simp [h.order, hwriter, hlist]
    · rintro _ _ _ ⟨⟩
      exact ⟨[], rfl, fun _ htx => absurd htx List.not_mem_nil⟩
  | @upsertTransaction numErrors block tx left hwriter =>
    have hmem := h.inHand_mem hwriter
    obtain ⟨done, hsplit, hdone⟩ := h.writing _ _ _ hwriter
    have hhas : block.Has tx.id :=
      ⟨tx, hsplit ▸ List.mem_append_right _ List.mem_cons_self, rfl⟩
    -- The id is given to this block, which has it: rows of other ids stay.
    have hindexed {id : String} (hid : id ≠ tx.id → s.Indexed id) : World.Indexed
        { s with
          writer := .writing numErrors block left
          trxIDToBlockID := Function.update s.trxIDToBlockID tx.id (some block.id) } id := by
      by_cases heq : id = tx.id
      · subst heq
        exact fun _ => ⟨block, hmem, hhas, Function.update_self ..⟩
      · exact (hid heq).later hlater fun _ _ _ _ hget =>
          (Function.update_of_ne heq ..).trans hget
    refine { h with order := ?_, indexed := ?_, writing := ?_ }
    · simp [h.order, hwriter]
    · exact fun block' hmem' tx' htx' => hindexed fun _ => h.indexed block' hmem' tx' htx'
    · rintro _ _ _ ⟨⟩
      refine ⟨done ++ [tx], by rw [hsplit, List.append_assoc, List.singleton_append],
        fun tx' htx' => hindexed fun hne => ?_⟩
      rcases List.mem_append.mp htx' with hold | hnew
      · exact hdone tx' hold
      · exact absurd (congrArg Transaction.id (List.mem_singleton.mp hnew)) hne
  | @upsertBlock numErrors block hwriter =>
    -- Nothing is left of the block: the ids written are those of all its transactions.
    obtain ⟨done, hsplit, hdone⟩ := h.writing _ _ _ hwriter
    rw [List.append_nil] at hsplit
    have hmem := h.inHand_mem hwriter
    refine { h with
      order := ?_
      written_stored := List.append_subset.mpr
        ⟨List.Subset.trans h.written_stored hlater.stored, List.subset_append_right _ _⟩
      stored_added := List.append_subset_of_subset_of_subset h.stored_added (by simpa using hmem)
      rows := ?_
      kept := ?_
      indexed := ?_
      writing := ?_ }
    · simp [h.order, hwriter]
    · intro id row hget
      by_cases hid : id = block.id
      · subst hid
        obtain rfl : ⟨block.timestamp, block⟩ = row := by simpa using hget
        exact ⟨rfl, rfl, List.mem_append_right _ (List.mem_singleton_self block)⟩
      · obtain ⟨hrow, htime, hmem⟩ :=
          h.rows id row (by simpa [Function.update_of_ne hid] using hget)
        exact ⟨hrow, htime, List.mem_append_left _ hmem⟩
    · intro block' hmem hlive
      by_cases hid : block'.id = block.id
      · simp [hid]
      · rcases List.mem_append.mp hmem with hold | hnew
        · simpa [Function.update_of_ne hid] using h.kept block' hold hlive
        · exact absurd (congrArg Block.id (List.mem_singleton.mp hnew)) hid
    · intro block' hmem tx htx
      rcases List.mem_append.mp hmem with hold | hnew
      · exact h.indexed block' hold tx htx
      · obtain rfl := List.mem_singleton.mp hnew
        exact hdone tx (hsplit ▸ htx)
    · rintro _ _ _ ⟨⟩
  | @fail numErrors block left hwriter =>
    refine { h with order := ?_, writing := ?_ }
    · have hidle :
          (if 3 < numErrors then Writer.idle else .looping (numErrors + 1)).inHand =
            ([] : List (Block π)) := by
        split_ifs <;> rfl
      simp [h.order, hwriter, hidle]
    · intro _ _ _ hwriting
      split_ifs at hwriting
  | finish hwriter hlist =>
    refine { h with order := ?_, writing := ?_ }
    · simp [h.order, hwriter]
    · rintro _ _ _ ⟨⟩
  | find i limit blockIDs hfound =>
    have hindexed {id : String} (hid : s.Indexed id) :
        World.Indexed { s with expiries := limit :: s.expiries } id :=
      hid.later ⟨hlater.added, hlater.stored, hlater.expiries⟩ fun _ _ _ _ hget => hget
    have hold (block : Block π)
        (hlive : World.Live { s with expiries := limit :: s.expiries } block) : s.Live block :=
      fun limit' hlimit' => hlive limit' (List.mem_cons_of_mem _ hlimit')
    have hexpired : World.Sound node { s with expiries := limit :: s.expiries } :=
      { h with
        kept := fun block hmem hlive => h.kept block hmem (hold block hlive)
        cleanups := fun j c hc id hid hlive => h.cleanups j c hc id hid (hold _ hlive)
        indexed := fun block hmem tx htx => hindexed (h.indexed block hmem tx htx)
        writing := fun n block left hwriter => h.writing_of hindexed hwriter }
    refine hexpired.setCleanup i _ fun c hc id hid hlive => ?_
    -- A block that is found is older than the limit, which is now among the expiries.
    obtain rfl := Option.some.inj hc
    obtain ⟨row, hrow, hle⟩ := (hfound id).mp hid
    obtain ⟨hrowid, htime, hmem⟩ := h.rows id row hrow
    have hnode : node id = row.block := by rw [← hrowid, h.nodes _ (h.stored_added hmem)]
    rw [hnode] at hlive
    exact absurd (hlive limit List.mem_cons_self) (Nat.not_lt.mpr (htime ▸ hle))
  | @deleteTransactions i blockIDs hcleanup =>
    have hindexed {id : String} (hid : s.Indexed id) : World.Indexed
        { s with trxIDToBlockID := fun id => (s.trxIDToBlockID id).filter (· ∉ blockIDs) } id :=
      hid.later ⟨hlater.added, hlater.stored, hlater.expiries⟩ fun block hmem hlive _ hget => by
        -- A cleanup names no block that is live.
        have hnot : block.id ∉ blockIDs := h.notMem_blockIDs hcleanup hmem hlive
        simp [hget, hnot]
    have hdeleted : World.Sound node
        { s with trxIDToBlockID := fun id => (s.trxIDToBlockID id).filter (· ∉ blockIDs) } :=
      { h with
        indexed := fun block hmem tx htx => hindexed (h.indexed block hmem tx htx)
        writing := fun n block left hwriter => h.writing_of hindexed hwriter }
    refine hdeleted.setCleanup i _ fun c hc id hid => ?_
    obtain rfl := Option.some.inj hc
    exact h.cleanups i _ hcleanup id hid
  | @deleteBlocks i blockIDs hcleanup =>
    have hdeleted : World.Sound node
        { s with blocks := fun id => if id ∈ blockIDs then none else s.blocks id } :=
      { h with
        rows := fun id row hget => h.rows id row (by
          simpa using (Option.ite_none_left_eq_some.mp hget).2)
        kept := fun block hmem hlive => by
          have hnot : block.id ∉ blockIDs :=
            h.notMem_blockIDs hcleanup (h.stored_added hmem) hlive
          simpa [hnot] using h.kept block hmem hlive }
    exact hdeleted.setCleanup i none fun _ hc => absurd hc (Option.some_ne_none _).symm
  | dropCleanup i => exact h.setCleanup i none fun _ hc => absurd hc (Option.some_ne_none _).symm
  | restart =>
    refine { h with
      order := rfl
      pushed_added := List.nil_subset _
      written_stored := List.nil_subset _
      cleanups := fun _ _ hc => absurd hc (Option.some_ne_none _).symm
      writing := ?_ }
    rintro _ _ _ ⟨⟩

/-- Nothing has been cached. -/
def World.empty : World π where
  blockCacheWaitlist := []
  writer := .idle
  blocks _ := none
  trxIDToBlockID _ := none
  cleanups _ := none
  pushed := []
  written := []
  added := []
  stored := []
  expiries := []

theorem World.empty_sound : (World.empty : World π).Sound node where
  nodes _ hmem := absurd hmem List.not_mem_nil
  order := rfl
  pushed_added := List.Subset.refl _
  written_stored := List.Subset.refl _
  stored_added := List.Subset.refl _
  rows _ _ hget := absurd hget (Option.some_ne_none _).symm
  kept _ hmem _ := absurd hmem List.not_mem_nil
  cleanups _ _ hc := absurd hc (Option.some_ne_none _).symm
  indexed _ hmem _ _ := absurd hmem List.not_mem_nil
  writing := by rintro _ _ _ ⟨⟩

/-- What the connector comes to from nothing. -/
def Reachable (node : String → Block π) (s : World π) : Prop :=
  Relation.ReflTransGen (Step node) .empty s

/-- **One step after another.** -/
theorem Reachable.sound (h : Reachable node s) : s.Sound node := by
  induction h with
  | refl => exact World.empty_sound
  | tail _ hstep ih => exact hstep.sound ih

theorem later_of_steps (h : Relation.ReflTransGen (Step node) s t) : s.Later t := by
  induction h with
  | refl => exact ⟨List.Subset.refl _, List.Subset.refl _, List.Subset.refl _⟩
  | tail _ hstep ih =>
    have hlater := hstep.later
    exact ⟨List.Subset.trans ih.added hlater.added, List.Subset.trans ih.stored hlater.stored,
      List.Subset.trans ih.expiries hlater.expiries⟩

namespace World.Sound

variable {blockID transactionID : String} {tx : Transaction π}

/-- A cached block is the block of the node. -/
theorem getBlockByIDFromCache_eq_some (h : s.Sound node)
    (hget : s.getBlockByIDFromCache id = some block) : node id = block ∧ block ∈ s.stored := by
  obtain ⟨row, hrow, rfl⟩ := Option.map_eq_some_iff.mp hget
  obtain ⟨hid, -, hmem⟩ := h.rows id row hrow
  exact ⟨by rw [← hid, h.nodes _ (h.stored_added hmem)], hmem⟩

theorem getBlockByID_eq (h : s.Sound node) (id : String) : s.getBlockByID node id = node id := by
  rw [World.getBlockByID]
  cases hget : s.getBlockByIDFromCache id with
  | none => rfl
  | some block => exact (h.getBlockByIDFromCache_eq_some hget).1.symm

theorem getBlockByIDFromCache_of_live (h : s.Sound node) (hmem : block ∈ s.stored)
    (hlive : s.Live block) : s.getBlockByIDFromCache block.id = some block := by
  obtain ⟨row, hrow⟩ := Option.isSome_iff_exists.mp (h.kept block hmem hlive)
  have hget : s.getBlockByIDFromCache block.id = some row.block := congrArg (Option.map _) hrow
  rw [hget, ← (h.getBlockByIDFromCache_eq_some hget).1, h.nodes block (h.stored_added hmem)]

theorem findTransaction_eq_some (h : s.Sound node)
    (hget : s.findTransaction blockID transactionID = some tx) :
    tx.id = transactionID ∧ tx ∈ (node blockID).transactions ∧ node blockID ∈ s.stored := by
  obtain ⟨block, hblock, hfind⟩ := Option.bind_eq_some_iff.mp hget
  obtain ⟨rfl, hmem⟩ := h.getBlockByIDFromCache_eq_some hblock
  have hid := List.find?_some hfind
  exact ⟨of_decide_eq_true hid, List.mem_of_find?_eq_some hfind, hmem⟩

theorem findTransaction_isSome (h : s.Sound node) (hmem : block ∈ s.stored)
    (hlive : s.Live block) (hhas : block.Has transactionID) :
    (s.findTransaction block.id transactionID).isSome := by
  obtain ⟨tx, htx, hid⟩ := hhas
  rw [World.findTransaction, h.getBlockByIDFromCache_of_live hmem hlive, Option.bind_some,
    List.find?_isSome]
  exact ⟨tx, htx, decide_eq_true hid⟩

end World.Sound

end Sound

/-- **The block cache.** In every run, the blocks that were pushed since the connector started are
those that are written, that in hand and those in the waitlist, in their order. A block that is
found under an id is the block of the node with this id; one that was ever stored is found until a
cleanup finds it expired. A transaction that is found has the id that was asked for, and is in a
block that was stored; and one of a block that was stored is found, by requests in `t` and in `u`,
if all blocks that have it are stored by then, and have not expired. -/
theorem block_cache {π : Type} {node : String → Block π} {t u : World π} (ht : Reachable node t)
    (hu : Relation.ReflTransGen (Step node) t u) :
    (t.pushed = t.written ++ t.writer.inHand ++ t.blockCacheWaitlist ∧ t.written ⊆ t.stored) ∧
    (∀ id block, t.getBlockByIDFromCache id = some block → node id = block ∧ block ∈ t.stored) ∧
    (∀ block ∈ t.stored, t.Live block → t.getBlockByIDFromCache block.id = some block) ∧
    (∀ blockID transactionID tx, u.findTransaction blockID transactionID = some tx →
      tx.id = transactionID ∧ tx ∈ (node blockID).transactions ∧ node blockID ∈ u.stored) ∧
    ∀ block ∈ t.stored, ∀ tx ∈ block.transactions,
      (∀ block' ∈ u.added, block'.Has tx.id → block' ∈ u.stored ∧ u.Live block') →
        ∃ blockID, t.trxIDToBlockID tx.id = some blockID ∧
          (u.findTransaction blockID tx.id).isSome := by
  have hsound := ht.sound
  have hsound' : u.Sound node := Reachable.sound (ht.trans hu)
  have hlater := later_of_steps hu
  refine ⟨⟨hsound.order, hsound.written_stored⟩,
    fun _ _ hget => hsound.getBlockByIDFromCache_eq_some hget,
    fun _ hmem hlive => hsound.getBlockByIDFromCache_of_live hmem hlive,
    fun _ _ _ hget => hsound'.findTransaction_eq_some hget, fun block hmem tx htx hall => ?_⟩
  obtain ⟨block', hmem', hhas, hrow⟩ := hsound.indexed block hmem tx htx fun block' hmem' hhas =>
    hlater.live (hall block' (hlater.added hmem') hhas).2
  obtain ⟨hstored, hlive⟩ := hall block' (hlater.added hmem') hhas
  exact ⟨block'.id, hrow, hsound'.findTransaction_isSome hstored hlive hhas⟩

/-- A node whose blocks have one transaction. -/
def sampleNode (id : String) : Block Unit := ⟨id, 5, 100, [⟨"transfer", ()⟩]⟩

/-- A block of it has been written. -/
def sampleWorld : World Unit where
  blockCacheWaitlist := []
  writer := .looping 0
  blocks := Function.update (fun _ => none) "block" (some ⟨100, sampleNode "block"⟩)
  trxIDToBlockID := Function.update (fun _ => none) "transfer" (some "block")
  cleanups _ := none
  pushed := [sampleNode "block"]
  written := [sampleNode "block"]
  added := [sampleNode "block"]
  stored := [sampleNode "block"]
  expiries := []

/-- It went through the waitlist. -/
theorem reachable_sampleWorld : Reachable sampleNode sampleWorld := by
  have hadd : Reachable sampleNode (World.empty.cacheBlocksIfEnabled 3 [sampleNode "block"]) :=
    Relation.ReflTransGen.refl.tail (.add 3 _ fun _ hmem => List.mem_singleton.mp hmem ▸ rfl)
  have hstored := (((hadd.tail (.start rfl)).tail (.shift rfl rfl)).tail
    (.upsertTransaction rfl)).tail (.upsertBlock rfl)
  exact hstored

theorem block_cache_sample : ∃ s : World Unit, Reachable sampleNode s ∧
    ∃ blockID, s.trxIDToBlockID "transfer" = some blockID ∧
      (s.findTransaction blockID "transfer").isSome := by
  refine ⟨_, reachable_sampleWorld, ?_⟩
  obtain ⟨-, -, -, -, hfound⟩ := block_cache reachable_sampleWorld .refl
  refine hfound (sampleNode "block") (List.mem_singleton_self _) ⟨"transfer", ()⟩
    (List.mem_singleton_self _) fun block hmem _ => ⟨hmem, fun _ hlimit => ?_⟩
  exact absurd hlimit List.not_mem_nil

/-! ### Blocks by their ids -/

section ByIDs

variable {π : Type} {node : String → Block π} {genesisBlockId : String} {worlds : ℕ → World π}

theorem mapIdx_getBlockByID (hworlds : ∀ i, Reachable node (worlds i)) (ids : List String) :
    (ids.mapIdx fun i => (worlds i).getBlockByID node) = ids.map node := by
  refine List.ext_getElem (by simp) fun i hi hi' => ?_
  rw [List.getElem_mapIdx, List.getElem_map, (hworlds i).sound.getBlockByID_eq]

theorem insertIdx_append_length {α : Type} (l l' : List α) (a : α) :
    (l ++ l').insertIdx l.length a = l ++ a :: l' := by
  induction l with
  | nil => rfl
  | cons b l ih => rw [List.cons_append, List.length_cons, List.insertIdx_succ_cons, ih,
      List.cons_append]

theorem filter_ne_of_notMem {ids : List String} (h : genesisBlockId ∉ ids) :
    ids.filter (· ≠ genesisBlockId) = ids :=
  List.filter_eq_self.mpr fun id hid => decide_eq_true fun heq : id = genesisBlockId =>
    h (heq ▸ hid)

theorem findIdx?_of_notMem {ids : List String} (h : genesisBlockId ∉ ids) :
    ids.findIdx? (· = genesisBlockId) = none :=
  List.findIdx?_eq_none_iff.mpr fun id hid => decide_eq_false fun heq : id = genesisBlockId =>
    h (heq ▸ hid)

/-- Where the genesis block is asked for more than once, it comes once. -/
theorem getBlocksByIDs_append_cons (hworlds : ∀ i, Reachable node (worlds i))
    {before : List String} (hbefore : genesisBlockId ∉ before) (after : List String) :
    getBlocksByIDs node genesisBlockId worlds (before ++ genesisBlockId :: after) =
      (before ++ genesisBlockId :: after.filter (· ≠ genesisBlockId)).map node := by
  have hindex : (before ++ genesisBlockId :: after).findIdx? (· = genesisBlockId) =
      some before.length := by
    simp [List.findIdx?_append, List.findIdx?_cons, findIdx?_of_notMem hbefore]
  have hremaining : (before ++ genesisBlockId :: after).filter (· ≠ genesisBlockId) =
      before ++ after.filter (· ≠ genesisBlockId) := by
    rw [List.filter_append, filter_ne_of_notMem hbefore, List.filter_cons_of_neg (by simp)]
  rw [getBlocksByIDs, hindex]
  simp only [hremaining, mapIdx_getBlockByID hworlds]
  split_ifs with hempty
  · obtain ⟨rfl, hafter⟩ := List.append_eq_nil_iff.mp (List.length_eq_zero_iff.mp hempty)
    rw [hafter]
    rfl
  · have hlength : before.length = (before.map node).length := (List.length_map ..).symm
    rw [List.map_append, List.map_append, List.map_cons, hlength, insertIdx_append_length]

/-- **Blocks by their ids.** Whatever happens to the cache between the requests, the blocks come in
the order of the ids if and only if the genesis block is asked for at most once. -/
theorem getBlocksByIDs_eq_map_iff (hworlds : ∀ i, Reachable node (worlds i)) (ids : List String) :
    getBlocksByIDs node genesisBlockId worlds ids = ids.map node ↔
      ids.count genesisBlockId ≤ 1 := by
  by_cases hmem : genesisBlockId ∈ ids
  · obtain ⟨before, after, rfl, hbefore⟩ := List.eq_append_cons_of_mem hmem
    have hcount : (before ++ genesisBlockId :: after).count genesisBlockId =
        after.count genesisBlockId + 1 := by
      rw [List.count_append, List.count_eq_zero_of_not_mem hbefore, List.count_cons_self,
        Nat.zero_add]
    have hone : after.count genesisBlockId + 1 ≤ 1 ↔ genesisBlockId ∉ after := by
      rw [Nat.succ_le_succ_iff, Nat.le_zero, List.count_eq_zero]
    rw [getBlocksByIDs_append_cons hworlds hbefore, hcount, hone]
    constructor
    · intro heq hafter
      have hlength : (after.filter (· ≠ genesisBlockId)).length = after.length := by
        simpa using congrArg List.length heq
      have hkeep := List.length_filter_eq_length_iff.mp hlength genesisBlockId hafter
      exact of_decide_eq_true hkeep rfl
    · intro hafter
      rw [filter_ne_of_notMem hafter]
  · rw [getBlocksByIDs, findIdx?_of_notMem hmem]
    simp [mapIdx_getBlockByID hworlds, List.count_eq_zero_of_not_mem hmem]

/-- The genesis block between two others, of which the second one is cached meanwhile. -/
theorem getBlocksByIDs_sample :
    (sampleWorld.getBlockByIDFromCache "block").isSome ∧
      getBlocksByIDs sampleNode "genesis" (fun i => if i = 0 then .empty else sampleWorld)
        ["other", "genesis", "block"] =
          [sampleNode "other", sampleNode "genesis", sampleNode "block"] := by
  refine ⟨by decide, (getBlocksByIDs_eq_map_iff (fun i => ?_) ["other", "genesis", "block"]).mpr
    (by decide)⟩
  split_ifs
  · exact .refl
  · exact reachable_sampleWorld

end ByIDs

end BlockCache

end SwaptoshiService
