import SwaptoshiService.Lib.Reach
import SwaptoshiService.Jobs.IndexedChain

/-!
# The table `transactions` over whole runs

A deletion job takes the execution status of the transactions it reverts from the index. For
that to be the status they were applied with, every transaction of an indexed block must still
have the row that `indexBlock` wrote for it (`Recorded`). The rows are written concurrently with
the effects of the transactions, rewritten by some of these, and deleted by block; in every run
of a network whose chains contain no transaction twice they are all there
(`Job.Outcome.recorded`), and the transactions that a deletion job reverts are those of the block,
with the status from its events (`Recorded.getTransactionsByBlockID`).
-/

namespace SwaptoshiService

open Session

/-! ### Rows that only processors write -/

/-- The tables that only the processors of transactions write, genesis apart. -/
def processorOnlyTables : List TableName :=
  [.transactions, .stakes, .commissions, .position, .tvl, .tokenFactory]

/-- The rows that only the processors of transactions write, genesis apart. -/
def ProcessorOnly (c : Cell) : Prop :=
  c.table ∈ processorOnlyTables ∨ (∃ t, c = .kv (.totalStaked t)) ∨
    ∃ t, c = .kv (.totalSelfStaked t)

theorem processorOnly_transaction (id : TxID) : ProcessorOnly (.transaction id) :=
  .inl (by simp [Cell.table, processorOnlyTables])

/-- All other rows. -/
def offProcessors : Conn → Cell → Prop := fun _ c => ¬ ProcessorOnly c

section ProcessorOnly

variable {env : Env} {events : List Event}

private theorem offProcessors_of_table {conn : Conn} {c : Cell} (h : c.table ∉ processorOnlyTables)
    (h' : c.table ≠ .keyValueStore) : offProcessors conn c := by
  rintro (hc | ⟨t, rfl⟩ | ⟨t, rfl⟩)
  · exact h hc
  · exact h' rfl
  · exact h' rfl

private theorem priceWrites_offProcessors (conn : Conn) (c : Cell) (h : priceWrites conn c) :
    offProcessors conn c := by
  rcases h with h | h | h <;>
    exact offProcessors_of_table (by simp [h, processorOnlyTables]) (by simp [h])

private theorem swapWrites_offProcessors (conn : Conn) (c : Cell) (h : swapWrites conn c) :
    offProcessors conn c := by
  cases conn with
  | dbTrx =>
    have ht : c.table = .volume := h
    exact offProcessors_of_table (by simp [ht, processorOnlyTables]) (by simp [ht])
  | default =>
    rcases h with h | h <;>
      exact offProcessors_of_table (by simp [h, processorOnlyTables]) (by simp [h])

private theorem totalLocked_offProcessors (conn : Conn) (t : TokenID) :
    offProcessors conn (.kv (.totalLocked t)) := by
  simp [offProcessors, ProcessorOnly, processorOnlyTables, Cell.table]

/-- What indexing a block does after its transactions are processed. -/
def indexBlockRest (env : Env) (block : Block) (events : List Event) : Prog Unit := do
  incrementGeneratedBlocks block.header.generatorAddress
  indexBlockEvents env block.header events
  indexPrices env block.header
  applySwapEvent env (env.sched (.swapEvents block.header.id)) block.header events
  Table.upsert .dbTrx (.block block.header.height) fun _ => blockRow block events

/-- Indexing a block brings the genesis assets, processes the transactions, and does the rest. -/
theorem indexBlockTrx_run {order : List ℕ} {assets : GenesisAssets} {block : Block}
    {w w' : DBSession}
    (hrun : (indexBlockTrx env order assets block events).run w = (.ok (), w')) :
    ∃ u v, (indexGenesisAssets env assets block.header).run w = (.ok (), u) ∧
      (processTransactions env order block.header events block.transactions).run u = (.ok (), v) ∧
      (indexBlockRest env block events).run v = (.ok (), w') := by
  rw [indexBlockTrx, indexBlockBody] at hrun
  simp only [bind_assoc] at hrun
  obtain ⟨⟨⟩, u, hu, hrun⟩ := Async.run_bind_ok.mp hrun
  obtain ⟨⟨⟩, v, hv, hrest⟩ := Async.run_bind_ok.mp hrun
  exact ⟨u, v, hu, hv, hrest⟩

/-- Above genesis there are no assets. -/
theorem indexBlockTrx_run_of_ne {order : List ℕ} {assets : GenesisAssets} {block : Block}
    {w w' : DBSession} (hne : block.header.height ≠ env.genesisHeight)
    (hrun : (indexBlockTrx env order assets block events).run w = (.ok (), w')) :
    ∃ v, (processTransactions env order block.header events block.transactions).run w =
      (.ok (), v) ∧ (indexBlockRest env block events).run v = (.ok (), w') := by
  obtain ⟨u, v, hu, hv, hrest⟩ := indexBlockTrx_run hrun
  rw [indexGenesisAssets, if_neg hne] at hu
  obtain rfl : w = u := (Prod.ext_iff.mp hu).2
  exact ⟨v, hv, hrest⟩

/-- The rest changes none of these rows. -/
theorem indexBlockRest_offProcessors {block : Block} :
    Confined (Respects offProcessors) (indexBlockRest env block events) := by
  refine (incrementGeneratedBlocks_confined _ ?_).bind fun _ =>
    (indexBlockEvents_confined ?_ ?_ fun t _ => totalLocked_offProcessors _ t).bind fun _ =>
    (indexPrices_confined priceWrites_offProcessors).bind fun _ =>
    ((applySwapEvent_confined _ events).widen swapWrites_offProcessors).bind fun _ =>
    Table.confined_upsert ?_
  · simp [offProcessors, ProcessorOnly, processorOnlyTables, Cell.table]
  · rintro c (hc | hc) <;>
      exact offProcessors_of_table (by simp [hc, processorOnlyTables]) (by simp [hc])
  · simp [offProcessors, ProcessorOnly, processorOnlyTables, Cell.table]
  · simp [offProcessors, ProcessorOnly, processorOnlyTables, Cell.table]

/-- Indexing a block changes these rows while the genesis assets and the transactions are
processed, and not afterwards. -/
theorem indexBlockTrx_stages {order : List ℕ} {assets : GenesisAssets} {block : Block}
    {w w' : DBSession}
    (hrun : (indexBlockTrx env order assets block events).run w = (.ok (), w')) :
    ∃ u v, (indexGenesisAssets env assets block.header).run w = (.ok (), u) ∧
      (processTransactions env order block.header events block.transactions).run u = (.ok (), v) ∧
      SameOn ProcessorOnly v w' := by
  obtain ⟨u, v, hu, hv, hrest⟩ := indexBlockTrx_run hrun
  refine ⟨u, v, hu, hv, ?_⟩
  exact indexBlockRest_offProcessors.ensures_sameOn (leavesAlone_respects fun _ _ h => h) v () w'
    hrest

/-- Above genesis there are no assets, and the transactions come first. -/
theorem indexBlockTrx_stages_of_ne {order : List ℕ} {assets : GenesisAssets} {block : Block}
    {w w' : DBSession} (hne : block.header.height ≠ env.genesisHeight)
    (hrun : (indexBlockTrx env order assets block events).run w = (.ok (), w')) :
    ∃ v, (processTransactions env order block.header events block.transactions).run w =
      (.ok (), v) ∧ SameOn ProcessorOnly v w' := by
  obtain ⟨v, hv, hrest⟩ := indexBlockTrx_run_of_ne hne hrun
  refine ⟨v, hv, ?_⟩
  exact indexBlockRest_offProcessors.ensures_sameOn (leavesAlone_respects fun _ _ h => h) v () w'
    hrest

/-- What deleting a block does after its transactions are reverted and their rows deleted. -/
def deleteBlockRest (env : Env) (height : ℕ) (row : BlockRow) (events : List Event) :
    Prog Unit := do
  decrementGeneratedBlocks row.generatorAddress
  deleteBlockEvents env (headerOfRow height row) events
  revertSwapEvent env (env.sched (.swapEvents row.id)) (headerOfRow height row) events
  deletePriceIndex env (headerOfRow height row)

theorem deleteBlockRest_guarded {height : ℕ} {row : BlockRow} :
    Confined (Respects guardedWrites) (deleteBlockRest env height row events) := by
  have hdb := guardedWrites_dbTrx
  exact (Table.confined_modify (hdb _)).bind fun _ =>
    (deleteBlockEvents_confined (fun c _ => hdb c) (hdb _) fun t _ => hdb _).bind fun _ =>
    Confined.bind ((revertSwapEvent_confined _ _).widen swapWrites_guarded) fun _ =>
      (deletePriceIndex_confined _).widen priceWrites_guarded

/-- Deleting an indexed block reverts its transactions, deletes their rows, and does the rest. -/
theorem deleteBlock_run {view : DeletionView} {height : ℕ} {row : BlockRow} {w w' : DBSession}
    (hrow : (w.committed.get (.block height)).isSome)
    (hrun : (deleteBlock env view height row).run w = (.ok (), w')) :
    ∃ txs v, getTransactionsByBlockID view row.id w.committed = some txs ∧
      (revertTransactions env (headerOfRow height row) (view.eventsByID row.id) txs).run w =
        (.ok (), v) ∧
      (deleteBlockRest env height row (view.eventsByID row.id)).run
        (send .dbTrx (Table.deleteWhere (transactionsOfBlock row.id v.committed)) v) =
          (.ok (), w') := by
  rw [deleteBlock] at hrun
  rw [Table.run_find_bind, if_neg (by simpa [Session.view] using Option.isSome_iff_ne_none.mp hrow),
    run_query_bind] at hrun
  obtain ⟨txs, htxs, hrun⟩ := Async.run_ofOption_bind_ok.mp hrun
  obtain ⟨⟨⟩, v, hv, hrun⟩ := Async.run_bind_ok.mp hrun
  rw [run_query_bind, run_exec_bind] at hrun
  exact ⟨txs, v, htxs, hv, hrun⟩

/-- The rest changes none of these rows. -/
theorem deleteBlockRest_offProcessors {height : ℕ} {row : BlockRow} :
    Confined (Respects offProcessors) (deleteBlockRest env height row events) := by
  refine (Table.confined_modify ?_).bind fun _ =>
    (deleteBlockEvents_confined ?_ ?_ fun t _ => totalLocked_offProcessors _ t).bind fun _ =>
    ((revertSwapEvent_confined _ _).widen swapWrites_offProcessors).bind fun _ =>
    (deletePriceIndex_confined _).widen priceWrites_offProcessors
  · simp [offProcessors, ProcessorOnly, processorOnlyTables, Cell.table]
  · rintro c (hc | hc) <;>
      exact offProcessors_of_table (by simp [hc, processorOnlyTables]) (by simp [hc])
  · simp [offProcessors, ProcessorOnly, processorOnlyTables, Cell.table]

/-- Deleting an indexed block changes these rows while its transactions are reverted and when
their rows are deleted. -/
theorem deleteBlock_stages {view : DeletionView} {height : ℕ} {row : BlockRow} {w w' : DBSession}
    (hrow : (w.committed.get (.block height)).isSome)
    (hrun : (deleteBlock env view height row).run w = (.ok (), w')) :
    ∃ txs v, getTransactionsByBlockID view row.id w.committed = some txs ∧
      (revertTransactions env (headerOfRow height row) (view.eventsByID row.id) txs).run w =
        (.ok (), v) ∧
      SameOn ProcessorOnly
        (send .dbTrx (Table.deleteWhere (transactionsOfBlock row.id v.committed)) v) w' := by
  obtain ⟨txs, v, htxs, hv, hrest⟩ := deleteBlock_run hrow hrun
  refine ⟨txs, v, htxs, hv, ?_⟩
  exact deleteBlockRest_offProcessors.ensures_sameOn (leavesAlone_respects fun _ _ h => h) _ () w'
    hrest

end ProcessorOnly

/-! ### Records -/

/-- Every transaction of a block indexed above genesis has its row, which names the block and the
status that its events show. -/
def Recorded (net : Network) (db : DB) : Prop :=
  ∀ h r, net.genesisHeight < h → db.get (.block h) = some r →
    ∀ tx ∈ (net.block r.id).transactions, ∃ status row,
      getTransactionExecutionStatus tx (net.events r.id) = some status ∧
        db.get (.transaction tx.id) = some row ∧ IsRecord r.id status row

/-- Above genesis there is nothing to record at first. -/
theorem recorded_genesis {net : Network} {db : DB} (h : net.GapFree net.genesisHeight db) :
    Recorded net db := by
  intro n r hn hr
  have := ((h.rows n).mp (by simp [hr])).2
  omega

/-- The block that is next has no transaction twice, and none that is in an indexed block. -/
def Job.Fresh (net : Network) (s : Ledger) : Job → Prop
  | .index _ _ node _ _ _ jobHeight => ∀ b, node.block (heightToIndex s.db jobHeight) = some b →
      (b.transactions.map (·.id)).Nodup ∧ ∀ h r, s.db.get (.block h) = some r →
        ∀ tx ∈ b.transactions, ∀ tx' ∈ (net.block r.id).transactions, tx.id ≠ tx'.id
  | .delete _ _ _ _ => True

section Index

variable {env : Env} {header : BlockHeader} {events : List Event} {order : List ℕ}
  {txs : List Transaction} {u v : DBSession}

/-- The row of a transaction, as the job sees it, names its block and its status. -/
def ShowsRecord (header : BlockHeader) (events : List Event) (tx : Transaction) (w : DBSession) :
    Prop :=
  ∃ status row, getTransactionExecutionStatus tx events = some status ∧
    (w.view .dbTrx).get (.transaction tx.id) = some row ∧ IsRecord header.id status row

private theorem processTransaction_keepsRecord {tx : Transaction} {index : ℕ}
    {status : ExecutionStatus} (h : getTransactionExecutionStatus tx events = some status) :
    Confined (KeepsRecord header.id tx.id status)
      (processTransaction env header events tx index) := by
  rw [processTransaction]
  rw [h, Async.ofOption_some, Async.pure_bind']
  have happly : Confined (KeepsRecord header.id tx.id status)
      (applyTransaction env header events (indexedTx env index tx status)) :=
    @applyTransaction_keepsRecord env header events (indexedTx env index tx status)
  exact Confined.bind (confined_exec (keepsRecord_upsert fun r => ⟨rfl, rfl⟩)) fun _ => happly

/-- What the function of one transaction sends does not spoil the record of another one. -/
private theorem ShowsRecord.send {tx tx' : Transaction} (heq : tx'.id = tx.id → tx' = tx)
    {status' : ExecutionStatus} (hstatus : getTransactionExecutionStatus tx' events = some status')
    {conn : Conn} {st : Stmt} (hst : KeepsRecord header.id tx'.id status' conn st) {w : DBSession}
    (h : ShowsRecord header events tx w) : ShowsRecord header events tx (send conn st w) := by
  obtain ⟨status, row, hs, hrow, hrec⟩ := h
  by_cases hfix : tx.id ≠ tx'.id ∨ conn = .default
  · refine ⟨status, row, hs, ?_, hrec⟩
    rw [(sameAt_send (hst.1 tx.id hfix) w).view .dbTrx, hrow]
  · obtain ⟨hid, hconn⟩ := not_or.mp hfix
    obtain rfl := heq (not_not.mp hid).symm
    obtain rfl : status' = status := Option.some_injective _ (hstatus.symm.trans hs)
    obtain ⟨row', hrow', hrec'⟩ := hst.2 row hrec
    refine ⟨status', row', hs, ?_, hrec'⟩
    cases conn with
    | default => exact absurd rfl hconn
    | dbTrx => exact (congrArg (st.act _) hrow).trans hrow'

/-- Whatever the interleaving, every transaction of the block ends up with its record. -/
theorem processTransactions_showsRecord (hnodup : (txs.map (·.id)).Nodup)
    (hrun : (processTransactions env order header events txs).run u = (.ok (), v))
    {tx : Transaction} (htx : tx ∈ txs) : ShowsRecord header events tx v := by
  refine Async.run_interleave_reaches (E := Async.AnyFailure) (I := fun _ => True) (fun p hp => ?_)
    ?_ trivial hrun
  · obtain ⟨i, hi, rfl⟩ := List.mem_mapIdx.mp hp
    cases hstatus : getTransactionExecutionStatus txs[i] events with
    | none =>
      rw [processTransaction]
      rw [hstatus]
      trivial
    | some status =>
      refine Async.All.stable (Async.All.mono (processTransaction_keepsRecord hstatus) ?_)
      rintro f (rfl | ⟨conn, st, hst, rfl⟩) w -
      · exact ⟨trivial, id⟩
      · refine ⟨trivial, ShowsRecord.send (fun hid => ?_) hstatus hst⟩
        exact List.inj_on_of_nodup_map hnodup (List.getElem_mem hi) htx hid
  · obtain ⟨i, hi, rfl⟩ := List.mem_iff_getElem.mp htx
    refine ⟨_, List.mem_mapIdx.mpr ⟨i, hi, rfl⟩, ?_⟩
    rw [processTransaction]
    cases hstatus : getTransactionExecutionStatus txs[i] events with
    | none => trivial
    | some status =>
      refine Async.Reaches.bind_left (Async.reaches_act fun w _ => ?_) _
      have hrow := view_send_dbTrx_get (Table.upsertRow (.transaction txs[i].id) (setTransaction
        header (indexedTx env i txs[i] status) (env.addressFromPublicKey txs[i].senderPublicKey)))
        w (.transaction txs[i].id)
      rw [Table.upsertRow_act_self] at hrow
      exact ⟨status, _, hstatus, hrow, rfl, rfl⟩

/-- The rows of other transactions stay. -/
theorem processTransactions_sameAt {id : TxID} (hid : ∀ tx ∈ txs, id ≠ tx.id)
    (hrun : (processTransactions env order header events txs).run u = (.ok (), v)) :
    SameAt (.transaction id) u v := by
  have hconf : Confined (fun _ st => st.Fixes (.transaction id))
      (processTransactions env order header events txs) := by
    refine Confined.interleave fun p hp => ?_
    obtain ⟨i, hi, rfl⟩ := List.mem_mapIdx.mp hp
    cases hstatus : getTransactionExecutionStatus txs[i] events with
    | none =>
      rw [processTransaction]
      rw [hstatus]
      exact confined_throw _
    | some status =>
      exact (processTransaction_keepsRecord hstatus).mono fun conn st hst =>
        hst.1 id (.inl (hid _ (List.getElem_mem hi)))
  simpa only [hrun] using hconf.run_sameAt (fun _ _ hst => hst) u

end Index

section Delete

variable {net : Network} {env : Env} {view : DeletionView} {id : BlockID} {db : DB}
  {txs : List IndexedTx}

private theorem mapM_eq_some {α : Type} {l : List (Option α)} {xs : List α}
    (h : (l.mapM fun o => o) = some xs) : xs.map some = l := by
  induction l generalizing xs with
  | nil =>
    obtain rfl : [] = xs := by simpa using h
    rfl
  | cons o l ih =>
    obtain ⟨x, rfl, ys, hys, rfl⟩ : ∃ x, o = some x ∧ ∃ ys, (l.mapM fun o => o) = some ys ∧
        x :: ys = xs := by
      simpa [Option.bind_eq_some_iff] using h
    rw [List.map_cons, ih hys]

/-- The transactions of a block, as a deletion job fetches them. -/
theorem getTransactionsByBlockID_eq (hview : net.Serves view)
    (h : getTransactionsByBlockID view id db = some txs) :
    txs.map some = (net.block id).transactions.mapIdx fun i tx =>
      formatTransaction view db (net.block id) i tx := by
  obtain ⟨b, hb, htxs⟩ := Option.bind_eq_some_iff.mp h
  rw [← hview.block id b hb]
  exact mapM_eq_some htxs

theorem getTransactionsByBlockID_sender (hview : net.Serves view)
    (h : getTransactionsByBlockID view id db = some txs) :
    ∀ tx ∈ txs, tx.senderAddress = none := by
  intro tx htx
  have hmem : some tx ∈ txs.map some := List.mem_map_of_mem htx
  rw [getTransactionsByBlockID_eq hview h] at hmem
  obtain ⟨i, hi, hformat⟩ := List.mem_mapIdx.mp hmem
  obtain ⟨status, -, rfl⟩ := Option.map_eq_some_iff.mp hformat
  rfl

/-- The transactions of an indexed block come with the status that its events show. -/
theorem Recorded.getTransactionsByBlockID (hrec : Recorded net db) (hview : net.Serves view)
    {height : ℕ} {row : BlockRow} (hheight : net.genesisHeight < height)
    (hrow : db.get (.block height) = some row) {db' : DB}
    (hsame : SameGuarded db db')
    (h : SwaptoshiService.getTransactionsByBlockID view row.id db' = some txs) :
    txs.map some = (net.block row.id).transactions.mapIdx fun index tx =>
      (getTransactionExecutionStatus tx (net.events row.id)).map fun executionStatus =>
        ({ tx with index, senderAddress := none, executionStatus } : IndexedTx) := by
  rw [getTransactionsByBlockID_eq hview h]
  refine List.ext_getElem (by simp) fun i hi _ => ?_
  simp only [List.getElem_mapIdx]
  obtain ⟨status, r, hstatus, hr, -, hrs⟩ :=
    hrec height row hheight hrow _ (List.getElem_mem (by simpa using hi))
  have hr' := (hsame _ (by simp [Cell.table, guardedTables])).trans hr
  simp only [formatTransaction, hr', hstatus, hrs]

/-- The rows of transactions of other blocks stay while a block is deleted. -/
private theorem deleteBlock_sameAt (hview : net.Serves view) {height : ℕ} {row : BlockRow}
    {txID : TxID} {r : TransactionRow} (hr : r.blockID ≠ row.id) {w w' : DBSession}
    (hblock : (w.committed.get (.block height)).isSome)
    (htx : w.committed.get (.transaction txID) = some r)
    (hrun : (deleteBlock env view height row).run w = (.ok (), w')) :
    SameAt (.transaction txID) w w' := by
  obtain ⟨txs, v, htxs, hv, hsame⟩ := deleteBlock_stages hblock hrun
  have hrevert : SameAt (.transaction txID) w v := by
    have hconf : Confined (Respects fun _ c => c.table ≠ .transactions) (revertTransactions env
        (headerOfRow height row) (view.eventsByID row.id) txs) := by
      refine Confined.serial fun p hp => ?_
      obtain ⟨tx, hmem, rfl⟩ := List.mem_map.mp hp
      exact revertTransaction_transactions
        (getTransactionsByBlockID_sender hview htxs tx (Async.mem_mapOrder.mp hmem))
    simpa only [hv] using hconf.run_sameAt (fun _ _ hst => hst _ fun h => h rfl) w
  have hdelete : (Table.deleteWhere (transactionsOfBlock row.id v.committed) : Stmt).Fixes
      (.transaction txID) := by
    refine Table.deleteWhere_fixes fun _ => ?_
    have hv' : v.committed.get (.transaction txID) = some r := hrevert.1.trans htx
    simp [transactionsOfBlock, hv', hr]
  exact (hrevert.trans (sameAt_send hdelete v)).trans (hsame _ (processorOnly_transaction txID))

/-- The rows of transactions of blocks that stay are kept by a deletion job. -/
theorem deleteIndexedBlocksTrx_transaction (hview : net.Serves view)
    {blocks : List (ℕ × BlockRow)} (hblocks : ∀ h r, (h, r) ∈ blocks → db.get (.block h) = some r)
    {txID : TxID} {r : TransactionRow} (htx : db.get (.transaction txID) = some r)
    (hr : ∀ p ∈ blocks, r.blockID ≠ p.2.id) {w : DBSession}
    (hrun : (deleteIndexedBlocksTrx env view blocks).run (ofStore db) = (.ok (), w)) :
    w.commit.committed.get (.transaction txID) = some r := by
  obtain ⟨⟨⟩, v, hloop, hlast⟩ := Async.run_bind_ok.mp hrun
  have hv : SameAt (.transaction txID) (ofStore db) v := by
    refine Async.Ensures.serial_map_keeps (I := fun w => SameGuarded db w.committed)
      (R := fun _ => SameAt (Cell.transaction txID)) (SameAt.refl _)
      (fun _ _ _ _ _ h h' => SameAt.trans h h')
      (fun p _ => keeps_guarded deleteBlock_guarded db) ?_ _ _ _ hloop fun _ _ => rfl
    rintro ⟨h, row⟩ hmem w a w' hrun hw
    rw [Async.mem_mapOrder] at hmem
    refine deleteBlock_sameAt hview (hr _ hmem) ?_ ?_ hrun
    · rw [hw _ (by simp [Cell.table, guardedTables]), hblocks h row hmem]
      rfl
    · rw [hw _ (by simp [Cell.table, guardedTables]), htx]
  have hw : SameAt (.transaction txID) v w := by
    obtain rfl := (Prod.ext_iff.mp hlast).2
    exact sameAt_send (Table.deleteWhere_fixes fun _ => rfl) v
  exact ((hv.trans hw).view .dbTrx).trans htx

end Delete

/-- **Step.** Every job of a network whose chains contain no transaction twice keeps the
records. -/
theorem Job.Outcome.recorded {net : Network} {last : ℕ} {j : Job} {s : Ledger} {db' : DB}
    (ho : j.Outcome net last s.db db') (hj : j.Fresh net s) (hs : net.GapFree last s.db)
    (h : Recorded net s.db) : Recorded net db' := by
  cases ho with
  | @indexed env _ node _ _ _ jobHeight block w henv hchosen hheight hblock hrun hnew hold =>
    obtain ⟨hnodup, hfresh⟩ := hj block (by rwa [hs.heightToIndex])
    obtain ⟨v, hv, hsame⟩ :=
      indexBlockTrx_stages_of_ne (hs.ne_genesisHeight henv hheight) hrun
    intro n r hn hr tx htx
    by_cases hlast : n = last + 1
    · -- The new block: its records were written by this job.
      subst hlast
      obtain rfl : blockRow block (net.events block.header.id) = r :=
        Option.some_injective _ (hnew.symm.trans hr)
      simp only [blockRow, hblock] at htx ⊢
      obtain ⟨status, row, hstatus, hrow, hrec⟩ := processTransactions_showsRecord hnodup hv htx
      have hkept := hsame _ (processorOnly_transaction tx.id)
      exact ⟨status, row, hstatus, (hkept.view .dbTrx).trans hrow, hrec⟩
    · rw [hold n hlast] at hr
      obtain ⟨status, row, hstatus, hrow, hrec⟩ := h n r hn hr tx htx
      refine ⟨status, row, hstatus, ?_, hrec⟩
      have hother := processTransactions_sameAt
        (fun tx' htx' => (hfresh n r hr tx' htx' tx htx).symm) hv
      have hkept := hother.trans (hsame _ (processorOnly_transaction tx.id))
      exact (hkept.view .dbTrx).trans hrow
  | @deleted env view _ heights cut w henv hview hcut hmem hrun hget =>
    intro n r hn hr tx htx
    rw [hget] at hr
    split at hr
    · simp at hr
    rename_i hlt
    obtain ⟨status, row, hstatus, hrow, hrec⟩ := h n r hn hr tx htx
    refine ⟨status, row, hstatus, ?_, hrec⟩
    refine deleteIndexedBlocksTrx_transaction hview (fun n' r' hp => ((hmem n' r').mp hp).2) hrow
      ?_ hrun
    rintro ⟨n', r'⟩ hp hid
    obtain ⟨hle, hr'⟩ := (hmem n' r').mp hp
    -- Blocks of different heights have different identifiers.
    have hheight := hs.height_id n' r' hr'
    rw [← hid, hrec.1, hs.height_id n r hr] at hheight
    omega
  | idle hsame =>
    intro n r hn hr tx htx
    rw [hsame _ (by simp [Cell.table, guardedTables])] at hr
    obtain ⟨status, row, hstatus, hrow, hrec⟩ := h n r hn hr tx htx
    exact ⟨status, row, hstatus, (hsame _ (by simp [Cell.table, guardedTables])).trans hrow, hrec⟩

/-! ### The first of two blocks -/

section TwoBlocks

variable {txs : BlockID → List Transaction} {events : BlockID → List Event} {s : Ledger}

/-- On top of genesis the block `a` is next. -/
theorem blockAt_genesis (hgap : (twoBlockNetwork txs events).GapFree 0 s.db) {b : Block}
    (hb : (twoBlockNetwork txs events).blockAt (heightToIndex s.db 1) = some b) :
    b = (twoBlockNetwork txs events).block "a" := by
  rw [hgap.heightToIndex] at hb
  exact (Option.some_injective _ hb).symm

theorem indexNext_fresh (hgap : (twoBlockNetwork txs events).GapFree 0 s.db)
    (hnodup : ((txs "a").map (·.id)).Nodup) (hothers : ∀ id ≠ "a", id ≠ "b" → txs id = []) :
    (twoBlockNetwork txs events).indexNext.Fresh (twoBlockNetwork txs events) s := by
  simp only [Network.indexNext, Job.Fresh]
  intro b hb
  obtain rfl := blockAt_genesis hgap hb
  refine ⟨hnodup, fun h r hr tx _ tx' htx' => ?_⟩
  -- Only the genesis block is indexed, and it has no transactions.
  have hlow := (hgap.rows h).mp (by simp [hr])
  have hheight := hgap.height_id h r hr
  have hnil : txs r.id = [] := by
    refine hothers r.id (fun ha => ?_) fun hb => ?_
    · have hone : (twoBlockNetwork txs events).heightOf r.id = 1 := by
        simp [Network.heightOf, twoBlockNetwork, ha]
      omega
    · have htwo : (twoBlockNetwork txs events).heightOf r.id = 2 := by
        simp [Network.heightOf, twoBlockNetwork, hb]
      omega
  simp [twoBlockNetwork, hnil] at htx'

end TwoBlocks

end SwaptoshiService
