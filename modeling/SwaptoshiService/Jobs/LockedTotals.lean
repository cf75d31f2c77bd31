import SwaptoshiService.Lib.Run
import SwaptoshiService.Lib.Total
import SwaptoshiService.Indexer.Totals
import SwaptoshiService.Jobs.IndexedChain

/-!
# The total locked amounts over whole runs

For every token the key-value table is to hold the amount locked at genesis plus what the events
of the indexed blocks lock and unlock. A job that indexes one block keeps this. A job that deletes
several blocks updates one row several times inside one transaction, each time from the
**committed** value, so that only the update of the block deleted last counts
(`second_lock_not_taken_back`). The totals stay exact in every run whose deletion jobs have no
more than one update that matters for a token (`locked_totals_exact`).
-/

namespace SwaptoshiService

open Session
open Async (mapOrder mapOrder_perm mem_mapOrder)

/-! ### One job -/

section Effects

variable {env : Env} {t : TokenID} {α β : Type}

/-- Every row but that of the locked amount of a token. -/
private def offLocked (t : TokenID) : Conn → Cell → Prop := fun _ c => c ≠ .kv (.totalLocked t)

private theorem offLocked_nil {p : Prog α} (hp : Confined (Respects (offLocked t)) p) :
    p.Ensures (LastUpdate (.totalLocked t) []) :=
  ensures_lastUpdate_nil hp fun _ h => h rfl

private theorem offLocked_bind {p : Prog α} {f : α → Prog β} {l : List ℤ}
    (hp : Confined (Respects (offLocked t)) p)
    (hf : ∀ a, (f a).Ensures (LastUpdate (.totalLocked t) l)) :
    (p >>= f).Ensures (LastUpdate (.totalLocked t) l) :=
  (offLocked_nil hp).bind hf lastUpdate_append

private theorem bind_offLocked {p : Prog α} {f : α → Prog β} {l : List ℤ}
    (hp : p.Ensures (LastUpdate (.totalLocked t) l))
    (hf : ∀ a, Confined (Respects (offLocked t)) (f a)) :
    (p >>= f).Ensures (LastUpdate (.totalLocked t) l) := by
  refine hp.bind (fun a => offLocked_nil (hf a)) fun s u v h h' => ?_
  simpa using lastUpdate_append s u v h h'

private theorem offLocked_of_table {conn : Conn} {c : Cell} (h : c.table ≠ .keyValueStore) :
    offLocked t conn c := by
  rintro rfl
  exact h rfl

private theorem processorWrites_offLocked {cmd : Command} (conn : Conn) (c : Cell)
    (h : processorWrites env cmd conn c) : offLocked t conn c := by
  cases conn with
  | default =>
    refine offLocked_of_table ?_
    rcases h.2 with h | h <;> simp [h]
  | dbTrx =>
    rintro rfl
    simpa using (h.2.2.1 rfl).2

private theorem priceWrites_offLocked (conn : Conn) (c : Cell) (h : priceWrites conn c) :
    offLocked t conn c := by
  refine offLocked_of_table ?_
  rcases h with h | h | h <;> simp [h]

private theorem swapWrites_offLocked (conn : Conn) (c : Cell) (h : swapWrites conn c) :
    offLocked t conn c := by
  refine offLocked_of_table ?_
  cases conn with
  | dbTrx => simp [show c.table = _ from h]
  | default => rcases h with h | h <;> simp [h]

/-- Indexing a block above genesis adds what its events lock. -/
theorem ensures_indexBlockTrx {order : List ℕ} {assets : GenesisAssets} {block : Block}
    {events : List Event} (hheight : block.header.height ≠ env.genesisHeight) :
    (indexBlockTrx env order assets block events).Ensures
      (LastUpdate (.totalLocked t) (lockedUpdates 1 events t)) := by
  have hevents : (indexBlockEvents env block.header events).Ensures
      (LastUpdate (.totalLocked t) (lockedUpdates 1 events t)) := by
    rw [indexBlockEvents]
    split
    · rename_i hempty
      obtain rfl : events = [] := List.isEmpty_iff.mp hempty
      exact offLocked_nil (confined_pure ())
    · refine offLocked_bind (indexEvents_confined _ _ ?_) fun _ =>
        offLocked_bind (updateGeneratorRewards_confined _ _ _ ?_) fun _ =>
        ensures_lockedAmounts _ _ _
      · rintro c (hc | hc) <;> exact offLocked_of_table (by simp [hc])
      · exact offLocked_of_table (by simp [Cell.table])
  refine bind_offLocked (offLocked_bind (indexGenesisAssets_confined _ fun h => absurd h hheight)
    fun _ => offLocked_bind (processTransactions_confined ?_ ?_) fun _ =>
    offLocked_bind (incrementGeneratedBlocks_confined _ ?_) fun _ =>
    bind_offLocked hevents fun _ =>
    (indexPrices_confined priceWrites_offLocked).bind fun _ =>
    (applySwapEvent_confined _ events).widen swapWrites_offLocked) fun _ =>
    Table.confined_upsert ?_
  · exact fun tx _ => offLocked_of_table (by simp [Cell.table])
  · exact fun tx _ _ => processorWrites_offLocked
  · exact offLocked_of_table (by simp [Cell.table])
  · exact offLocked_of_table (by simp [Cell.table])

/-- Reverting a block that is indexed takes off what its events lock. -/
theorem ensures_deleteBlock {view : DeletionView} {height : ℕ} {row : BlockRow} :
    (deleteBlock env view height row).Ensures fun w w' =>
      (w.committed.get (.block height)).isSome →
        LastUpdate (.totalLocked t) (lockedUpdates (-1) (view.eventsByID row.id) t) w w' := by
  have hevents : (deleteBlockEvents env (headerOfRow height row) (view.eventsByID row.id)).Ensures
      (LastUpdate (.totalLocked t) (lockedUpdates (-1) (view.eventsByID row.id) t)) := by
    rw [deleteBlockEvents]
    split
    · rename_i hempty
      rw [List.isEmpty_iff.mp hempty]
      exact offLocked_nil (confined_pure ())
    · refine offLocked_bind (deleteEvents_confined _ ?_) fun _ =>
        offLocked_bind (updateGeneratorRewards_confined _ _ _ ?_) fun _ =>
        ensures_lockedAmounts _ _ _
      · rintro c (hc | hc) <;> exact offLocked_of_table (by simp [hc])
      · exact offLocked_of_table (by simp [Cell.table])
  refine Async.ensures_read_bind fun found => ?_
  split
  -- A block without a row is skipped.
  · rename_i hnone
    intro w a w' _ hfound hsome
    rw [Option.isNone_iff_eq_none.mp hnone] at hfound
    simp [show w.committed.get (.block height) = none from hfound] at hsome
  refine Async.Ensures.mono (offLocked_bind (confined_query _ _) fun txs =>
    offLocked_bind (confined_ofOption _ _) fun txs =>
    offLocked_bind (revertTransactions_confined ?_) fun _ =>
    offLocked_bind (confined_query _ _) fun db =>
    offLocked_bind (deleteTransactionRows_confined _ _ ?_) fun _ =>
    offLocked_bind (Table.confined_modify ?_) fun _ =>
    bind_offLocked hevents fun _ =>
    ((revertSwapEvent_confined _ _).widen swapWrites_offLocked).bind fun _ =>
    (deletePriceIndex_confined _).widen priceWrites_offLocked) fun w w' h _ _ => h
  · exact fun tx _ _ => processorWrites_offLocked
  · exact fun c hc => offLocked_of_table (by simp [hc])
  · exact offLocked_of_table (by simp [Cell.table])

/-- The updates of the locked amount of a token made by a job that deletes these blocks. -/
def deletedUpdates (net : Network) (t : TokenID) (blocks : List (ℕ × BlockRow)) : List ℤ :=
  blocks.flatMap fun (_, r) => lockedUpdates (-1) (net.events r.id) t

/-- The sum does not depend on the order of the blocks. -/
theorem sum_deletedUpdates_mapOrder {net : Network} (blocks : List (ℕ × BlockRow)) :
    (deletedUpdates net t (mapOrder blocks)).sum = (deletedUpdates net t blocks).sum :=
  ((mapOrder_perm blocks).flatMap_right _).sum_eq

theorem sum_deletedUpdates {net : Network} (blocks : List (ℕ × BlockRow)) :
    (deletedUpdates net t blocks).sum =
      -(blocks.map fun p => lockedAmountChange (net.events p.2.id) t).sum := by
  induction blocks with
  | nil => rfl
  | cons p blocks ih =>
    have hcons : deletedUpdates net t (p :: blocks) =
        lockedUpdates (-1) (net.events p.2.id) t ++ deletedUpdates net t blocks := rfl
    rw [hcons, List.sum_append, ih, sum_lockedUpdates, List.map_cons, List.sum_cons]
    omega

/-- Deleting blocks updates the row once for each block with a lock or unlock event, in the order
in which they are deleted. -/
theorem ensures_deleteIndexedBlocksTrx {net : Network} {view : DeletionView}
    (hview : net.Serves view) {db : DB} {blocks : List (ℕ × BlockRow)}
    (hblocks : ∀ h r, (h, r) ∈ blocks → db.get (.block h) = some r) :
    (deleteIndexedBlocksTrx env view blocks).Ensures fun w w' => SameGuarded db w.committed →
      LastUpdate (.totalLocked t) (deletedUpdates net t (mapOrder blocks)) w w' := by
  have hloop : (Async.serial ((mapOrder blocks).map fun (h, r) =>
      deleteBlock env view h r)).Ensures fun w w' => SameGuarded db w.committed →
        LastUpdate (.totalLocked t) (deletedUpdates net t (mapOrder blocks)) w w' := by
    refine Async.Ensures.serial_map_keeps (I := fun w => SameGuarded db w.committed)
      (R := fun l => LastUpdate (.totalLocked t) (deletedUpdates net t l))
      (fun w => lastUpdate_nil (SameAt.refl _ w)) (fun p l w v w' hp hl => ?_)
      (fun p _ => keeps_guarded deleteBlock_guarded db) ?_
    · simpa [deletedUpdates] using lastUpdate_append w v w' hp hl
    · rintro ⟨h, r⟩ hmem w a w' hrun hw
      have hrow : (w.committed.get (.block h)).isSome := by
        rw [hw _ (by simp [Cell.table, guardedTables]), hblocks h r (mem_mapOrder.mp hmem)]
        rfl
      have hupd := ensures_deleteBlock (t := t) w a w' hrun hrow
      rw [hview.events] at hupd
      simpa [deletedUpdates] using hupd
  refine hloop.bind (fun _ => offLocked_nil (t := t) (Table.confined_deleteWhere ?_))
    fun w v w' hl hv hw => ?_
  · rintro c r hc rfl
    simp [blocksWithIDs] at hc
  · simpa using lastUpdate_append w v w' (hl hw) hv

end Effects

/-! ### Runs -/

/-- What a row of `blocks` above the genesis height adds to the locked amount of a token. -/
def lockedWeight (net : Network) (t : TokenID) (c : Cell) : Row c → ℤ :=
  match c with
  | .block h => fun r =>
    if net.genesisHeight < h then lockedAmountChange (net.events r.id) t else 0
  | _ => fun _ => 0

/-- For every token the key-value table holds the amount after genesis plus the sum of what the
events of the blocks indexed above genesis lock, less what they unlock. -/
def LockedExact (net : Network) (genesis db : DB) : Prop :=
  ∀ t, totalAt db (.totalLocked t) =
    totalAt genesis (.totalLocked t) + db.total (lockedWeight net t)

/-- A deletion job loses no update: for every token the updates before the last one cancel, in the
order in which the blocks are deleted. In particular if at most one of the deleted blocks has lock
or unlock events of the token. -/
def Job.LocksCancel (net : Network) (s : Ledger) : Job → Prop
  | .index _ _ _ _ _ _ _ => True
  | .delete _ _ _ heights =>
    ∀ t, (deletedUpdates net t (mapOrder (getBlocksToDelete heights s.db))).dropLast.sum = 0

section Runs

variable {net : Network} {last : ℕ} {genesis db db' : DB}

private theorem weight_other {t : TokenID} {c : Cell} (h : c.table ≠ .blocks) (db : DB) :
    db.weight (lockedWeight net t) c = 0 := by
  refine Store.weight_of_zero fun r => ?_
  cases c with
  | block n => exact absurd rfl h
  | _ => rfl

/-- The sum is over the rows of `blocks`. -/
private theorem weight_congr_blocks {t : TokenID} {c : Cell}
    (h : ∀ n, c = .block n → db'.get (.block n) = db.get (.block n)) :
    db'.weight (lockedWeight net t) c = db.weight (lockedWeight net t) c := by
  cases c with
  | block n => exact Store.weight_congr (h n rfl)
  | _ => rw [weight_other (by simp [Cell.table]), weight_other (by simp [Cell.table])]

private theorem LockedExact.indexed (h : LockedExact net genesis db) (hs : net.GapFree last db)
    {block : Block} (hbase : ∀ t, totalAt db' (.totalLocked t) =
      totalAt db (.totalLocked t) + lockedAmountChange (net.events block.header.id) t)
    (hnew : db'.get (.block (last + 1)) = some (blockRow block (net.events block.header.id)))
    (hold : ∀ n ≠ last + 1, db'.get (.block n) = db.get (.block n)) :
    LockedExact net genesis db' := by
  intro t
  have hnone : db.get (.block (last + 1)) = none := by
    have hnot : ¬ (db.get (.block (last + 1))).isSome := fun hsome => by
      have := ((hs.rows _).mp hsome).2
      omega
    simpa using hnot
  have hothers : ∀ c ≠ Cell.block (last + 1),
      db'.weight (lockedWeight net t) c = db.weight (lockedWeight net t) c := fun c hc =>
    weight_congr_blocks fun n hn => hold n fun h => hc (by rw [hn, h])
  have htotal := Store.total_of_only (Cell.block (last + 1)) hothers
  rw [Store.weight_of_some hnew, Store.weight_of_none hnone, sub_zero] at htotal
  have hgt : net.genesisHeight < last + 1 := Nat.lt_succ_of_le hs.genesis_le
  have hweight : lockedWeight net t (.block (last + 1))
      (blockRow block (net.events block.header.id)) =
        lockedAmountChange (net.events block.header.id) t := if_pos hgt
  rw [hbase, h t, htotal, hweight, add_assoc]

private theorem LockedExact.deleted (h : LockedExact net genesis db) {cut : ℕ}
    {heights : List ℕ} (hcut : net.genesisHeight < cut)
    (hmem : ∀ n r, (n, r) ∈ getBlocksToDelete heights db ↔ cut ≤ n ∧ db.get (.block n) = some r)
    (hget : ∀ n, db'.get (.block n) = if cut ≤ n then none else db.get (.block n))
    (hbase : ∀ t, totalAt db' (.totalLocked t) = totalAt db (.totalLocked t) +
      (deletedUpdates net t (getBlocksToDelete heights db)).sum) :
    LockedExact net genesis db' := by
  intro t
  let blocks := getBlocksToDelete heights db
  have hcells : (blocks.map fun p => Cell.block p.1).Nodup := by
    have hinj : Function.Injective Cell.block := fun a b hab => Cell.block.inj hab
    simpa [Function.comp_def] using (getBlocksToDelete_nodup heights db).map hinj
  have htotal : db'.total (lockedWeight net t) = db.total (lockedWeight net t) - _ :=
    Store.total_of_removed hcells (fun c hc => ?_) fun c hc => weight_congr_blocks fun n hn => ?_
  · have hsum : ((blocks.map fun p => Cell.block p.1).map (db.weight (lockedWeight net t))).sum =
        -(deletedUpdates net t blocks).sum := by
      rw [sum_deletedUpdates, neg_neg, List.map_map]
      refine congrArg List.sum (List.map_congr_left fun ⟨n, r⟩ hp => ?_)
      obtain ⟨hle, hr⟩ := (hmem n r).mp hp
      exact (Store.weight_of_some hr).trans (if_pos (hcut.trans_le hle))
    rw [hbase, h t, htotal, hsum, sub_neg_eq_add, add_assoc]
  · obtain ⟨⟨n, r⟩, hp, rfl⟩ := List.mem_map.mp hc
    refine Store.weight_of_none ?_
    rw [hget, if_pos ((hmem n r).mp hp).1]
  · rw [hget]
    split
    · rename_i hle
      by_contra hne
      obtain ⟨r, hr⟩ := Option.ne_none_iff_exists'.mp (Ne.symm hne)
      exact hc (List.mem_map.mpr ⟨(n, r), (hmem n r).mpr ⟨hle, hr⟩, hn.symm⟩)
    · rfl

/-- **Step.** A job whose updates before the last one cancel keeps the totals exact. -/
theorem Job.Outcome.lockedExact {j : Job} {s : Ledger} (ho : j.Outcome net last s.db db')
    (hj : j.LocksCancel net s) (hs : net.GapFree last s.db)
    (h : LockedExact net genesis s.db) : LockedExact net genesis db' := by
  cases ho with
  | @indexed env _ _ _ _ _ _ block w henv hchosen hheight hblock hrun hnew hold =>
    refine h.indexed hs (fun t => ?_) hnew hold
    have hne := hs.ne_genesisHeight henv hheight
    have hupd := ensures_indexBlockTrx (t := t) hne _ _ _ hrun
    rw [hupd.commit]
    have hlast : (lockedUpdates 1 (net.events block.header.id) t).getLast?.getD 0 =
        (lockedUpdates 1 (net.events block.header.id) t).sum := by
      rw [lockedUpdates]
      split <;> simp
    rw [hlast, sum_lockedUpdates, one_mul]
  | @deleted env view _ heights cut w henv hview hcut hmem hrun hget =>
    refine h.deleted hcut hmem hget fun t => ?_
    have hupd := ensures_deleteIndexedBlocksTrx (t := t) hview
      (fun n r hp => ((hmem n r).mp hp).2) _ _ _ hrun fun _ _ => rfl
    rw [hupd.commit, (getLast?_getD_eq_sum_iff _).mpr (hj t), sum_deletedUpdates_mapOrder]
  | idle hsame =>
    intro t
    have hkv : totalAt db' (.totalLocked t) = totalAt s.db (.totalLocked t) := by
      rw [totalAt, totalAt, hsame _ (by simp [Cell.table, guardedTables])]
    rw [hkv, h t]
    refine congrArg _ (Store.total_congr fun c => weight_congr_blocks fun n _ => ?_).symm
    exact hsame _ (by simp [Cell.table, guardedTables])

/-- **The total locked amounts are exact.** From tables that hold the genesis block alone, in
every state reached by jobs of the network whose deletions lose no update, the locked amount of
every token is its value after genesis plus the sum of lock minus unlock amounts over the events
of exactly the blocks indexed above genesis. -/
theorem locked_totals_exact {s₀ s : Ledger} (h₀ : net.GapFree net.genesisHeight s₀.db)
    (hrun : Run Job.Step (fun s j => j.Answered net ∧ j.LocksCancel net s) s₀ s) :
    LockedExact net s₀.db s.db := by
  have hinit : LockedExact net s₀.db s₀.db := by
    intro t
    have hzero : s₀.db.total (lockedWeight net t) =
        (Store.empty : DB).total (lockedWeight net t) := by
      refine Store.total_congr fun c => ?_
      rw [Store.weight_of_none (Store.get_empty c)]
      cases c with
      | block n =>
        cases hr : s₀.db.get (.block n) with
        | none => exact Store.weight_of_none hr
        | some r =>
          have hn := (h₀.rows n).mp (by simp [hr])
          exact (Store.weight_of_some hr).trans (if_neg (by omega))
      | _ => exact weight_other (by simp [Cell.table]) _
    rw [hzero, Store.total_empty, add_zero]
  refine (hrun.invariant (fun s => (∃ last, net.GapFree last s.db) ∧ LockedExact net s₀.db s.db)
    ⟨⟨_, h₀⟩, hinit⟩ ?_).2
  rintro s j s' ⟨⟨last, hs⟩, h⟩ ⟨hanswered, hcancel⟩ rfl
  have ho := Job.outcome hanswered hs
  exact ⟨ho.gapFree hs, ho.lockedExact hcancel hs h⟩

end Runs

/-- Both blocks lock 5 of one token. -/
def lockNetwork : Network :=
  twoBlockNetwork (fun _ => []) fun id => [⟨id ++ "0", 0, 0, [], .lock "kly" 5⟩]

/-- The tables after the first block is indexed. -/
def afterFirstLock : Ledger := lockNetwork.indexNext.run genesisLedger

/-- The tables after both blocks are indexed. -/
def afterBothLocks : Ledger := lockNetwork.indexNext.run afterFirstLock

/-- Both blocks are indexed, and the upper one is deleted. -/
theorem locked_totals_exact_upper :
    LockedExact lockNetwork genesisLedger.db
      ((lockNetwork.deleteFrom 2).run afterBothLocks).db := by
  have hblocks : getBlocksToDelete [2] afterBothLocks.db =
      [(2, blockRow (lockNetwork.block "b") (lockNetwork.events "b"))] := by decide +kernel
  refine locked_totals_exact gapFree_genesisLedger
    (((Run.refl.tail (a := lockNetwork.indexNext) rfl ⟨indexNext_answered, trivial⟩).tail
      (a := lockNetwork.indexNext) rfl ⟨indexNext_answered, trivial⟩).tail
      (a := lockNetwork.deleteFrom 2) rfl ⟨deleteFrom_answered (by decide), fun t => ?_⟩)
  rw [hblocks]
  simp only [mapOrder, List.reverse_nil, deletedUpdates, List.flatMap_cons, List.flatMap_nil,
    List.append_nil, lockedUpdates]
  split <;> rfl

/-- One job deletes both blocks, and the row keeps the 5 that the upper one had locked. -/
theorem second_lock_not_taken_back :
    ∃ s, Run Job.Step (fun _ j => j.Answered lockNetwork) genesisLedger s ∧
      s.db.get (.block 1) = none ∧ s.db.get (.block 2) = none ∧
      totalAt genesisLedger.db (.totalLocked "kly") = 0 ∧
      totalAt s.db (.totalLocked "kly") = 5 ∧ ¬ LockedExact lockNetwork genesisLedger.db s.db := by
  have hrun : Run Job.Step (fun _ j => j.Answered lockNetwork) genesisLedger
      ((lockNetwork.deleteFrom 1).run afterBothLocks) := by
    refine Run.tail (t := afterBothLocks) (Run.tail (t := afterFirstLock)
      (Run.tail .refl rfl ?_) rfl ?_) rfl ?_
    · exact indexNext_answered
    · exact indexNext_answered
    · exact deleteFrom_answered (by decide)
  refine ⟨_, hrun, by decide +kernel, by decide +kernel, by decide +kernel, by decide +kernel,
    fun h => ?_⟩
  have hkly := h "kly"
  revert hkly
  decide +kernel

end SwaptoshiService
