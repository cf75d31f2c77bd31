import SwaptoshiService.Lib.Replay
import SwaptoshiService.Lib.Run
import SwaptoshiService.Jobs.TransactionRecords

/-!
# Indexed blocks as a stack

The blocks indexed above genesis form a stack, the highest block on top: a job that indexes a
block pushes it, and a job that deletes blocks pops them from the top
(`indexedBlocks_of_indexed`, `indexedBlocks_of_deleted`).

For a row that only processors write, the two lemmas `indexed_does` and `deleted_does` reduce what
a whole job does to it to what the hooks of single transactions do: all changes of the transactions
of the new block, in some order, and the reverting changes of the deleted blocks, blocks and
transactions in the order in which the job maps over them (`mapOrder`).
-/

namespace SwaptoshiService

open Session
open Async (mapOrder mapOrder_map mem_mapOrder)

/-! ### The stack -/

/-- The blocks indexed above genesis, the highest one first. -/
def Network.indexedBlocks (net : Network) (db : DB) : List (ℕ × BlockRow) :=
  getBlocksToDelete [net.genesisHeight + 1] db

section Stack

variable {net : Network} {last : ℕ} {db db' : DB}

/-- `getBlocksToDelete` lists the blocks from the highest one down. -/
theorem getBlocksToDelete_descending (heights : List ℕ) (db : DB) :
    (getBlocksToDelete heights db).Pairwise fun p q => q.1 < p.1 := by
  rw [getBlocksToDelete]
  split
  · exact .nil
  refine List.Pairwise.filterMap _ (R := fun h k => k < h) ?_ ?_
  · intro h k hlt p hp q hq
    obtain ⟨r, -, rfl⟩ := Option.map_eq_some_iff.mp hp
    obtain ⟨r', -, rfl⟩ := Option.map_eq_some_iff.mp hq
    exact hlt
  · exact (List.pairwise_reverse.mpr List.pairwise_lt_range).filter _

/-- A descending list is determined by its members. -/
theorem descending_ext {l l' : List (ℕ × BlockRow)}
    (hl : l.Pairwise fun p q => q.1 < p.1) (hl' : l'.Pairwise fun p q => q.1 < p.1)
    (h : ∀ p, p ∈ l ↔ p ∈ l') : l = l' := by
  have hnodup : ∀ {l : List (ℕ × BlockRow)}, (l.Pairwise fun p q => q.1 < p.1) → l.Nodup :=
    fun hl => hl.imp fun {p q} hlt heq => by
      rw [heq] at hlt
      exact lt_irrefl _ hlt
  have hperm : l.Perm l' := (List.perm_ext_iff_of_nodup (hnodup hl) (hnodup hl')).mpr h
  refine hperm.eq_of_pairwise (fun p q _ _ h₁ h₂ => ?_) hl hl'
  exact absurd h₁ (not_lt.mpr h₂.le)

theorem mem_indexedBlocks {h : ℕ} {r : BlockRow} :
    (h, r) ∈ net.indexedBlocks db ↔ net.genesisHeight < h ∧ db.get (.block h) = some r := by
  rw [Network.indexedBlocks, mem_getBlocksToDelete]
  constructor
  · rintro ⟨lowest, hmin, hle, hr⟩
    obtain rfl : net.genesisHeight + 1 = lowest := Option.some.inj hmin
    exact ⟨hle, hr⟩
  · rintro ⟨hlt, hr⟩
    exact ⟨_, rfl, hlt, hr⟩

theorem indexedBlocks_descending :
    (net.indexedBlocks db).Pairwise fun p q => q.1 < p.1 := getBlocksToDelete_descending _ db

/-- Indexing pushes a block. -/
theorem indexedBlocks_of_indexed (hs : net.GapFree last db) {row : BlockRow}
    (hnew : db'.get (.block (last + 1)) = some row)
    (hold : ∀ h ≠ last + 1, db'.get (.block h) = db.get (.block h)) :
    net.indexedBlocks db' = (last + 1, row) :: net.indexedBlocks db := by
  have hbelow : ∀ p ∈ net.indexedBlocks db, p.1 < last + 1 := by
    rintro ⟨h, r⟩ hp
    have hle := ((hs.rows h).mp (by simp [(mem_indexedBlocks.mp hp).2])).2
    exact Nat.lt_succ_of_le hle
  refine descending_ext indexedBlocks_descending
    (List.pairwise_cons.mpr ⟨hbelow, indexedBlocks_descending⟩) ?_
  rintro ⟨h, r⟩
  rw [List.mem_cons, mem_indexedBlocks, mem_indexedBlocks, Prod.mk.injEq]
  by_cases hh : h = last + 1
  · subst hh
    have hnone : ¬ db.get (.block (last + 1)) = some r := fun hr =>
      lt_irrefl _ (hbelow _ (mem_indexedBlocks.mpr ⟨Nat.lt_succ_of_le hs.genesis_le, hr⟩))
    have hgt : net.genesisHeight < last + 1 := Nat.lt_succ_of_le hs.genesis_le
    simp [hnew, hnone, hgt, eq_comm]
  · rw [hold h hh]
    simp [hh]

/-- Deletion pops the deleted blocks. -/
theorem indexedBlocks_of_deleted {cut : ℕ} {heights : List ℕ} (hcut : net.genesisHeight < cut)
    (hmem : ∀ h r, (h, r) ∈ getBlocksToDelete heights db ↔ cut ≤ h ∧ db.get (.block h) = some r)
    (hget : ∀ h, db'.get (.block h) = if cut ≤ h then none else db.get (.block h)) :
    net.indexedBlocks db = getBlocksToDelete heights db ++ net.indexedBlocks db' := by
  have hkept : ∀ h r, (h, r) ∈ net.indexedBlocks db' ↔
      net.genesisHeight < h ∧ h < cut ∧ db.get (.block h) = some r := by
    intro h r
    rw [mem_indexedBlocks, hget]
    split
    · simp [*]
    · rename_i hlt
      simp [not_le.mp hlt]
  refine descending_ext indexedBlocks_descending (List.pairwise_append.mpr
    ⟨getBlocksToDelete_descending _ _, indexedBlocks_descending, ?_⟩) ?_
  · rintro ⟨h, r⟩ hp ⟨h', r'⟩ hp'
    exact ((hkept h' r').mp hp').2.1.trans_le ((hmem h r).mp hp).1
  · rintro ⟨h, r⟩
    rw [List.mem_append, mem_indexedBlocks, hmem, hkept]
    constructor
    · rintro ⟨hgt, hr⟩
      rcases Nat.lt_or_ge h cut with hlt | hle
      · exact .inr ⟨hgt, hlt, hr⟩
      · exact .inl ⟨hle, hr⟩
    · rintro (⟨hle, hr⟩ | ⟨hgt, -, hr⟩)
      · exact ⟨hcut.trans_le hle, hr⟩
      · exact ⟨hgt, hr⟩

/-- The stack is read off the table `blocks`. -/
theorem indexedBlocks_congr (h : ∀ n, db'.get (.block n) = db.get (.block n)) :
    net.indexedBlocks db' = net.indexedBlocks db := by
  refine descending_ext indexedBlocks_descending indexedBlocks_descending ?_
  rintro ⟨n, r⟩
  rw [mem_indexedBlocks, mem_indexedBlocks, h n]

/-- A job that leaves the guarded tables alone leaves the stack alone. -/
theorem SameGuarded.indexedBlocks_eq (h : SameGuarded db db') :
    net.indexedBlocks db' = net.indexedBlocks db :=
  indexedBlocks_congr fun n => h (.block n) (by simp [Cell.table, guardedTables])

/-- Above genesis nothing is indexed at first. -/
theorem indexedBlocks_genesis (h : net.GapFree net.genesisHeight db) :
    net.indexedBlocks db = [] := by
  refine List.eq_nil_iff_forall_not_mem.mpr fun ⟨n, r⟩ hp => ?_
  obtain ⟨hgt, hr⟩ := mem_indexedBlocks.mp hp
  have := ((h.rows n).mp (by simp [hr])).2
  omega

end Stack

/-! ### Rows that only processors write -/

section Rows

variable {net : Network} {env : Env} {db : DB} {c : Cell} {O : Type}
  {obs : Option (Row c) → O}

/-- The function of a transaction does what the hook of its command does to rows other than that
of the transaction. -/
theorem processTransaction_does (hct : c.table ≠ .transactions) {header : BlockHeader}
    {events : List Event} {tx : Transaction} {index : ℕ} {I : DBSession → Prop}
    {L : List (O → O) → Prop}
    (h : ∀ status, getTransactionExecutionStatus tx events = some status →
      DoesWhile I obs L (applyTransaction env header events (indexedTx env index tx status))) :
    DoesWhile I obs L (processTransaction env header events tx index) := by
  refine does_ofOption_bind fun status hstatus => Confined.does_bind
    (Table.confined_upsert (W := fun _ c => c.table = .transactions) rfl)
    (fun _ _ hst => hst c hct) fun _ => h status hstatus

/-- **Indexing** a block makes the changes of all its transactions: in block order if they are
not interleaved, in some order else. What they read of guarded tables is what the job found. -/
theorem indexed_does (hc : ProcessorOnly c) {order : List ℕ} {assets : GenesisAssets}
    {block : Block} {events : List Event} (hne : block.header.height ≠ env.genesisHeight)
    {A : Transaction → List (O → O) → Prop}
    (hA : ∀ i, ∀ tx ∈ block.transactions, DoesWhile (fun w => SameGuarded db w.committed) obs
      (A tx) (processTransaction env block.header events tx i))
    {w : DBSession}
    (hrun : (indexBlockTrx env order assets block events).run (ofStore db) = (.ok (), w)) :
    ∃ l, Shuffled (block.transactions.map A) l ∧
      (order = [] → InTurn (block.transactions.map A) l) ∧
      obs (w.commit.committed.get c) = replay l (obs (db.get c)) := by
  obtain ⟨v, hv, hsame⟩ := indexBlockTrx_stages_of_ne hne hrun
  have hkeeps : (processTransactions env order block.header events block.transactions).Keeps
      fun w => SameGuarded db w.committed := keeps_guarded processTransactions_guarded db
  have hprogs : List.Forall₂ (fun p L => DoesWhile (fun w => SameGuarded db w.committed) obs L p)
      (transactionPrograms env block.header events block.transactions)
      (block.transactions.map A) := by
    refine List.forall₂_iff_get.mpr ⟨by simp [transactionPrograms], fun i hi hi' => ?_⟩
    simpa [transactionPrograms] using hA i _ (List.getElem_mem (by simpa using hi'))
  have hchanges : ∃ l, (Shuffled (block.transactions.map A) l ∧
      (order = [] → InTurn (block.transactions.map A) l)) ∧
        Moves obs (replay l) (ofStore db) v := by
    by_cases horder : order = []
    · rw [processTransactions, horder] at hv hkeeps
      obtain ⟨l, hl, hmoves⟩ := (does_serial hprogs).run hkeeps (fun _ _ => rfl) hv
      exact ⟨l, ⟨hl.shuffled, fun _ => hl⟩, hmoves⟩
    · obtain ⟨l, hl, hmoves⟩ := (does_interleave hprogs order).run hkeeps (fun _ _ => rfl) hv
      exact ⟨l, ⟨hl, fun h => absurd h horder⟩, hmoves⟩
  obtain ⟨l, ⟨hl, hserial⟩, hmoves⟩ := hchanges
  refine ⟨l, hl, hserial, ?_⟩
  have hend := (hmoves.append (hsame c hc).moves).view
  rwa [List.append_nil, view_ofStore] at hend

/-- The transactions that a deletion job reverts are those of the block, with the status from its
events and without a sender. -/
theorem fetched_of_map {id : BlockID} {txs : List IndexedTx}
    (h : txs.map some = (net.block id).transactions.mapIdx fun index tx =>
      (getTransactionExecutionStatus tx (net.events id)).map fun executionStatus =>
        ({ tx with index, senderAddress := none, executionStatus } : IndexedTx)) :
    txs.map (·.toTransaction) = (net.block id).transactions ∧ ∀ tx ∈ txs, tx.senderAddress = none ∧
      getTransactionExecutionStatus tx.toTransaction (net.events id) = some tx.executionStatus := by
  have hat : ∀ i (hi : i < txs.length) (hi' : i < (net.block id).transactions.length),
      txs[i].toTransaction = (net.block id).transactions[i] ∧ txs[i].senderAddress = none ∧
        getTransactionExecutionStatus txs[i].toTransaction (net.events id) =
          some txs[i].executionStatus := by
    intro i hi hi'
    have hget : some txs[i] = (getTransactionExecutionStatus (net.block id).transactions[i]
        (net.events id)).map fun executionStatus => ({ (net.block id).transactions[i] with
          index := i, senderAddress := none, executionStatus } : IndexedTx) := by
      have hi₁ : i < (txs.map some).length := by simpa using hi
      have hleft : (txs.map some)[i] = some txs[i] := by simp
      rw [← hleft]
      simp only [h, List.getElem_mapIdx]
    obtain ⟨status, hstatus, heq⟩ := Option.map_eq_some_iff.mp hget.symm
    rw [← heq]
    exact ⟨rfl, rfl, hstatus⟩
  have hlength : txs.length = (net.block id).transactions.length := by
    simpa using congrArg List.length h
  refine ⟨List.ext_getElem (by simpa using hlength) fun i hi hi' => ?_, fun tx htx => ?_⟩
  · rw [List.getElem_map]
    exact (hat i (by simpa using hi) hi').1
  · obtain ⟨i, hi, rfl⟩ := List.mem_iff_getElem.mp htx
    exact (hat i hi (hlength ▸ hi)).2

/-- What reverting one transaction of a deleted block does, for all that the job may fetch. -/
def RevertDoes (net : Network) (env : Env) (obs : Option (Row c) → O)
    (B : ℕ × BlockRow → Transaction → List (O → O) → Prop) (p : ℕ × BlockRow) : Prop :=
  ∀ tx : IndexedTx, tx.toTransaction ∈ (net.block p.2.id).transactions → tx.senderAddress = none →
    getTransactionExecutionStatus tx.toTransaction (net.events p.2.id) =
      some tx.executionStatus →
    Does obs (B p tx.toTransaction)
      (revertTransaction env (headerOfRow p.1 p.2) (net.events p.2.id) tx)

/-- Deleting a block makes the reverting changes of its transactions, one transaction at a time, and
then does the rest. -/
theorem deleteBlock_reverts (hct : c.table ≠ .transactions) {view : DeletionView}
    (hview : net.Serves view) (hrec : Recorded net db) {height : ℕ}
    {row : BlockRow} (hheight : net.genesisHeight < height)
    (hrow : db.get (.block height) = some row)
    {B : ℕ × BlockRow → Transaction → List (O → O) → Prop}
    (hB : RevertDoes net env obs B (height, row)) {w w' : DBSession}
    (hw : SameGuarded db w.committed)
    (hrun : (deleteBlock env view height row).run w = (.ok (), w')) :
    ∃ l v, InTurn ((mapOrder (net.block row.id).transactions).map (B (height, row))) l ∧
      Moves obs (replay l) w v ∧ SameGuarded db v.committed ∧
      (deleteBlockRest env height row (net.events row.id)).run v = (.ok (), w') := by
  have hblock : (w.committed.get (.block height)).isSome := by
    rw [hw _ (by simp [Cell.table, guardedTables]), hrow]
    rfl
  obtain ⟨txs, v, htxs, hv, hrest⟩ := deleteBlock_run hblock hrun
  obtain ⟨htrans, hfetched⟩ := fetched_of_map
    (hrec.getTransactionsByBlockID hview hheight hrow hw htxs)
  rw [hview.events] at hv hrest
  have hprogs : List.Forall₂ (fun p L => Does obs L p)
      ((mapOrder txs).map (revertTransaction env (headerOfRow height row) (net.events row.id)))
      ((mapOrder txs).map fun tx => B (height, row) tx.toTransaction) := by
    rw [List.forall₂_map_left_iff, List.forall₂_map_right_iff, List.forall₂_same]
    intro tx htx
    rw [mem_mapOrder] at htx
    have hmem : tx.toTransaction ∈ (net.block row.id).transactions :=
      htrans ▸ List.mem_map_of_mem htx
    exact hB tx hmem (hfetched tx htx).1 (hfetched tx htx).2
  obtain ⟨l, hl, hmoves⟩ := Does.run (does_serial hprogs) hv
  -- The fetched rows are the block's transactions in their order, so `mapOrder` is the same.
  refine ⟨l, _, ?_, ?_, ?_, hrest⟩
  · rw [← htrans, mapOrder_map, List.map_map]
    exact hl
  · have hdelete : SameAt c v
        (send .dbTrx (Table.deleteWhere (transactionsOfBlock row.id v.committed)) v) := by
      refine sameAt_send (Table.deleteWhere_fixes fun r => Bool.eq_false_iff.mpr fun hr => ?_) v
      cases c with
      | transaction id => exact hct rfl
      | _ => simp [transactionsOfBlock] at hr
    simpa using hmoves.append hdelete.moves
  · have hreverted : Confined (Respects guardedWrites) (revertTransactions env
        (headerOfRow height row) (net.events row.id) txs) :=
      revertTransactions_confined fun _ _ _ => processorWrites_guarded
    have hcommitted := (keeps_guarded hreverted db).run hw
    rw [hv] at hcommitted
    exact hcommitted

private theorem deleteBlock_does (hc : ProcessorOnly c) (hct : c.table ≠ .transactions)
    {view : DeletionView} (hview : net.Serves view) (hrec : Recorded net db) {height : ℕ}
    {row : BlockRow} (hheight : net.genesisHeight < height)
    (hrow : db.get (.block height) = some row)
    {B : ℕ × BlockRow → Transaction → List (O → O) → Prop}
    (hB : RevertDoes net env obs B (height, row)) {w w' : DBSession}
    (hw : SameGuarded db w.committed)
    (hrun : (deleteBlock env view height row).run w = (.ok (), w')) :
    ∃ l, InTurn ((mapOrder (net.block row.id).transactions).map (B (height, row))) l ∧
      Moves obs (replay l) w w' := by
  obtain ⟨l, v, hl, hmoves, -, hrest⟩ := deleteBlock_reverts hct hview hrec hheight hrow hB hw hrun
  refine ⟨l, hl, ?_⟩
  have hsame := deleteBlockRest_offProcessors.ensures_sameOn (leavesAlone_respects fun _ _ h => h)
    v () w' hrest
  simpa using hmoves.append (hsame c hc).moves

/-- Deletion changes a row block by block. -/
theorem deleted_moves (hcb : c.table ≠ .blocks) {view : DeletionView}
    {blocks : List (ℕ × BlockRow)} {B : ℕ × BlockRow → List (O → O) → Prop}
    (hB : ∀ p ∈ blocks, ∀ w w', SameGuarded db w.committed →
      (deleteBlock env view p.1 p.2).run w = (.ok (), w') →
        ∃ l, B p l ∧ Moves obs (replay l) w w') {w : DBSession}
    (hrun : (deleteIndexedBlocksTrx env view blocks).run (ofStore db) = (.ok (), w)) :
    ∃ l, InTurn ((mapOrder blocks).map B) l ∧
      obs (w.commit.committed.get c) = replay l (obs (db.get c)) := by
  obtain ⟨⟨⟩, v, hloop, hlast⟩ := Async.run_bind_ok.mp hrun
  -- Each block is deleted from tables whose guarded rows are still those of `db`.
  have hmoves : ∃ l, InTurn ((mapOrder blocks).map B) l ∧
      Moves obs (replay l) (ofStore db) v := by
    refine Async.Ensures.serial_map_keeps (I := fun w => SameGuarded db w.committed)
      (R := fun bs w w' => ∃ l, InTurn (bs.map B) l ∧ Moves obs (replay l) w w')
      (fun w => ⟨[], ⟨[], .nil, rfl⟩, moves_nil w⟩) ?_
      (fun p _ => keeps_guarded deleteBlock_guarded db) ?_ _ _ _ hloop fun _ _ => rfl
    · rintro p bs w t w' ⟨l, hl, hm⟩ ⟨l', hl', hm'⟩
      refine ⟨l ++ l', ?_, hm.append hm'⟩
      obtain ⟨_, ⟨⟩ | ⟨hfirst, ⟨⟩⟩, rfl⟩ := hl
      rw [List.flatten_cons, List.flatten_nil, List.append_nil]
      exact InTurn.cons hfirst hl'
    · rintro p hmem w a w' hrun hw
      obtain ⟨l, hl, hm⟩ := hB p (mem_mapOrder.mp hmem) w w' hw hrun
      exact ⟨l, ⟨[l], .cons hl .nil, by simp⟩, hm⟩
  obtain ⟨l, hl, hm⟩ := hmoves
  refine ⟨l, hl, ?_⟩
  obtain rfl : send .dbTrx (Table.deleteWhere (blocksWithIDs (blocks.map (·.2.id)))) v = w :=
    (Prod.ext_iff.mp hlast).2
  have hrest : SameAt c v
      (send .dbTrx (Table.deleteWhere (blocksWithIDs (blocks.map (·.2.id)))) v) := by
    refine sameAt_send (Table.deleteWhere_fixes fun r => Bool.eq_false_iff.mpr fun hr => ?_) v
    cases c with
    | block h => exact hcb rfl
    | _ => simp [blocksWithIDs] at hr
  have hend := (hm.append hrest.moves).view
  rwa [List.append_nil, view_ofStore] at hend

/-- **Deletion** makes the reverting changes of the transactions, one block at a time and within a
block one transaction at a time. -/
theorem deleted_does (hc : ProcessorOnly c) (hct : c.table ≠ .transactions) {view : DeletionView}
    (hview : net.Serves view) (hrec : Recorded net db) {blocks : List (ℕ × BlockRow)}
    (hblocks : ∀ h r, (h, r) ∈ blocks → net.genesisHeight < h ∧ db.get (.block h) = some r)
    {B : ℕ × BlockRow → Transaction → List (O → O) → Prop}
    (hB : ∀ p ∈ blocks, RevertDoes net env obs B p) {w : DBSession}
    (hrun : (deleteIndexedBlocksTrx env view blocks).run (ofStore db) = (.ok (), w)) :
    ∃ l, InTurn ((mapOrder blocks).map fun p =>
        InTurn ((mapOrder (net.block p.2.id).transactions).map (B p))) l ∧
      obs (w.commit.committed.get c) = replay l (obs (db.get c)) := by
  refine deleted_moves (fun hcb => ?_) (fun p hp w w' hw hrun => ?_) hrun
  · rcases hc with hc | ⟨t, rfl⟩ | ⟨t, rfl⟩
    · simp [hcb, processorOnlyTables] at hc
    · simp [Cell.table] at hcb
    · simp [Cell.table] at hcb
  · obtain ⟨hheight, hrow⟩ := hblocks p.1 p.2 hp
    exact deleteBlock_does hc hct hview hrec hheight hrow (hB p hp) hw hrun

/-! ### Changes that do not depend on what is read -/

/-- Indexing a block whose transactions each make a fixed list of changes. -/
theorem indexed_changes (hc : ProcessorOnly c) {order : List ℕ} {assets : GenesisAssets}
    {block : Block} {events : List Event} (hne : block.header.height ≠ env.genesisHeight)
    {f : Transaction → List (O → O)}
    (hf : ∀ i, ∀ tx ∈ block.transactions, DoesWhile (fun w => SameGuarded db w.committed) obs
      (fun l => l = f tx) (processTransaction env block.header events tx i))
    {w : DBSession}
    (hrun : (indexBlockTrx env order assets block events).run (ofStore db) = (.ok (), w)) :
    ∃ l, l.Perm (block.transactions.flatMap f) ∧
      (order = [] → l = block.transactions.flatMap f) ∧
      obs (w.commit.committed.get c) = replay l (obs (db.get c)) := by
  obtain ⟨l, hl, hserial, hobs⟩ := indexed_does hc hne hf hrun
  exact ⟨l, shuffled_map.mp hl, fun h => inTurn_map.mp (hserial h), hobs⟩

/-- Deleting blocks whose transactions are each reverted by a fixed list of changes. -/
theorem deleted_changes (hc : ProcessorOnly c) (hct : c.table ≠ .transactions)
    {view : DeletionView} (hview : net.Serves view) (hrec : Recorded net db)
    {blocks : List (ℕ × BlockRow)}
    (hblocks : ∀ h r, (h, r) ∈ blocks → net.genesisHeight < h ∧ db.get (.block h) = some r)
    {f : ℕ × BlockRow → Transaction → List (O → O)}
    (hf : ∀ p ∈ blocks, RevertDoes net env obs (fun p tx l => l = f p tx) p) {w : DBSession}
    (hrun : (deleteIndexedBlocksTrx env view blocks).run (ofStore db) = (.ok (), w)) :
    obs (w.commit.committed.get c) =
      replay ((mapOrder blocks).flatMap fun p =>
        (mapOrder (net.block p.2.id).transactions).flatMap (f p)) (obs (db.get c)) := by
  obtain ⟨l, hl, hobs⟩ := deleted_does hc hct hview hrec hblocks hf hrun
  have hfun : (fun p : ℕ × BlockRow => InTurn ((mapOrder (net.block p.2.id).transactions).map
      fun tx l => l = f p tx)) =
        fun p l => l = (mapOrder (net.block p.2.id).transactions).flatMap (f p) :=
    funext fun p => funext fun l => propext inTurn_map
  rw [hfun, inTurn_map] at hl
  rwa [hl] at hobs

end Rows

/-! ### What is known of the stack in every state reached -/

/-- The transactions of the blocks of a stack. -/
def Network.transactionsOf (net : Network) (stack : List (ℕ × BlockRow)) :
    List ((ℕ × BlockRow) × Transaction) :=
  stack.flatMap fun p => (net.block p.2.id).transactions.map fun tx => (p, tx)

/-- What every run of a network keeps: the rows of the transactions are there, the rows of
`blocks` are those of the blocks, and no transaction is indexed twice. -/
structure Tracked (net : Network) (db : DB) : Prop where
  recorded : Recorded net db
  rows : ∀ p ∈ net.indexedBlocks db, p.2 = blockRow (net.block p.2.id) (net.events p.2.id)
  distinct : ((net.transactionsOf (net.indexedBlocks db)).map (·.2.id)).Nodup

section Tracked

variable {net : Network} {last : ℕ} {db' : DB}

theorem Network.mem_transactionsOf {stack : List (ℕ × BlockRow)} {p : ℕ × BlockRow}
    {tx : Transaction} :
    (p, tx) ∈ net.transactionsOf stack ↔ p ∈ stack ∧ tx ∈ (net.block p.2.id).transactions := by
  simp [Network.transactionsOf]

theorem Network.transactionsOf_append (stack stack' : List (ℕ × BlockRow)) :
    net.transactionsOf (stack ++ stack') = net.transactionsOf stack ++ net.transactionsOf stack' :=
  List.flatMap_append

theorem tracked_genesis {db : DB} (h : net.GapFree net.genesisHeight db) : Tracked net db where
  recorded := recorded_genesis h
  rows := by simp [indexedBlocks_genesis h]
  distinct := by simp [indexedBlocks_genesis h, Network.transactionsOf]

/-- **Step.** -/
theorem Job.Outcome.tracked {j : Job} {s : Ledger} (ho : j.Outcome net last s.db db')
    (hj : j.Fresh net s) (hs : net.GapFree last s.db) (h : Tracked net s.db) :
    Tracked net db' := by
  refine ⟨ho.recorded hj hs h.recorded, ?_, ?_⟩
  · cases ho with
    | @indexed env _ node _ _ _ jobHeight block w henv hchosen hheight hblock hrun hnew hold =>
      rw [indexedBlocks_of_indexed hs hnew hold]
      refine List.forall_mem_cons.mpr ⟨?_, h.rows⟩
      have hid : (blockRow block (net.events block.header.id)).id = block.header.id := rfl
      rw [hid, hblock]
    | @deleted env view _ heights cut w henv hview hcut hmem hrun hget =>
      intro p hp
      refine h.rows p ?_
      rw [indexedBlocks_of_deleted hcut hmem hget]
      exact List.mem_append_right _ hp
    | idle hsame =>
      rw [hsame.indexedBlocks_eq]
      exact h.rows
  · cases ho with
    | @indexed env _ node _ _ _ jobHeight block w henv hchosen hheight hblock hrun hnew hold =>
      -- A transaction of the new block is in no block that is indexed.
      obtain ⟨hnodup, hfresh⟩ := hj block (by rwa [hs.heightToIndex])
      have hid : (blockRow block (net.events block.header.id)).id = block.header.id := rfl
      rw [indexedBlocks_of_indexed hs hnew hold, Network.transactionsOf, List.flatMap_cons,
        List.map_append, List.nodup_append, hid, hblock]
      refine ⟨by simpa [Function.comp_def] using hnodup, h.distinct, ?_⟩
      intro a ha b hb
      obtain ⟨⟨p, tx⟩, hq, rfl⟩ := List.mem_map.mp ha
      obtain ⟨⟨⟨n, r⟩, tx'⟩, hq', rfl⟩ := List.mem_map.mp hb
      obtain ⟨tx, htx, heq⟩ := List.mem_map.mp hq
      obtain ⟨rfl, rfl⟩ := Prod.mk.inj heq
      obtain ⟨hp', htx'⟩ := net.mem_transactionsOf.mp hq'
      exact hfresh n r (mem_indexedBlocks.mp hp').2 _ htx _ htx'
    | @deleted env view _ heights cut w henv hview hcut hmem hrun hget =>
      have hdistinct := h.distinct
      rw [indexedBlocks_of_deleted hcut hmem hget, Network.transactionsOf, List.flatMap_append,
        List.map_append, List.nodup_append] at hdistinct
      exact hdistinct.2.1
    | idle hsame =>
      rw [hsame.indexedBlocks_eq]
      exact h.distinct

/-- **Invariants of runs.** What every job keeps holds in every state reached. -/
theorem Run.tracked {ok : Ledger → Job → Prop} {s₀ s : Ledger} (I : DB → Prop)
    (h₀ : net.GapFree net.genesisHeight s₀.db) (hI : I s₀.db)
    (hstep : ∀ last s j db', net.GapFree last s.db → Tracked net s.db → Tracked net db' →
      ok s j → j.Outcome net last s.db db' → I s.db → I db')
    (hrun : Run Job.Step (fun s j => j.Answered net ∧ j.Fresh net s ∧ ok s j) s₀ s) : I s.db := by
  refine (hrun.invariant (fun s => (∃ last, net.GapFree last s.db) ∧ Tracked net s.db ∧ I s.db)
    ⟨⟨_, h₀⟩, tracked_genesis h₀, hI⟩ ?_).2.2
  rintro s j s' ⟨⟨last, hs⟩, htracked, h⟩ ⟨hanswered, hfresh, hok⟩ rfl
  have ho := Job.outcome hanswered hs
  have htracked' := ho.tracked hfresh hs htracked
  exact ⟨ho.gapFree hs, htracked', hstep last s j _ hs htracked htracked' hok ho h⟩

end Tracked

end SwaptoshiService
