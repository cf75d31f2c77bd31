import SwaptoshiService.Jobs.BlocksTable

/-!
# Jobs that follow one network

A `Network` is what the answers of the node have in common during a run: a block identifier
determines its block and its events, and addresses and the staking token do not change. Which
chain the node follows may change at any time.

`Job.outcome` lists everything a job of such a run can do to a table without gaps: index the
block on top, delete the blocks from some height on, or leave the **guarded** tables alone, which
are written through the transaction only. All that is derived about runs goes through this list.
-/

namespace SwaptoshiService

open Session

/-! ### Tables written on the transaction only -/

/-- The tables that are never written without the transaction. -/
def guardedTables : List TableName :=
  [.blocks, .transactions, .stakes, .keyValueStore, .validators, .commissions, .position, .tvl,
    .volume, .tokenFactory, .registeredDexToken]

/-- The guarded rows are written through `dbTrx` only. -/
def guardedWrites : Conn → Cell → Prop := fun conn c => conn = .default → c.table ∉ guardedTables

/-- The two databases hold the same guarded rows. -/
def SameGuarded (db db' : DB) : Prop := ∀ c : Cell, c.table ∈ guardedTables → db'.get c = db.get c

section Guarded

variable {env : Env}

theorem guardedWrites_dbTrx (c : Cell) : guardedWrites .dbTrx c := by
  simp [guardedWrites]

theorem priceWrites_guarded (conn : Conn) (c : Cell) (h : priceWrites conn c) :
    guardedWrites conn c := by
  rintro -
  rcases h with h | h | h <;> simp [h, guardedTables]

theorem swapWrites_guarded (conn : Conn) (c : Cell) (h : swapWrites conn c) :
    guardedWrites conn c := by
  rintro rfl
  rcases h with h | h <;> simp [h, guardedTables]

theorem processorWrites_guarded {cmd : Command} (conn : Conn) (c : Cell)
    (h : processorWrites env cmd conn c) : guardedWrites conn c := by
  rintro rfl
  rcases h.2 with h | h <;> simp [h, guardedTables]

theorem processTransactions_guarded {order : List ℕ} {header : BlockHeader} {events : List Event}
    {txs : List Transaction} :
    Confined (Respects guardedWrites) (processTransactions env order header events txs) :=
  processTransactions_confined (fun _ _ => guardedWrites_dbTrx _)
    fun _ _ _ => processorWrites_guarded

theorem indexBlockTrx_guarded {order : List ℕ} {assets : GenesisAssets} {block : Block}
    {events : List Event} :
    Confined (Respects guardedWrites) (indexBlockTrx env order assets block events) := by
  have hgenesis : ∀ conn c, Genesis.genesisWrites assets.validators conn c →
      guardedWrites conn c := by
    rintro conn c hw rfl
    simp [hw.1, guardedTables]
  have hdb := guardedWrites_dbTrx
  refine Confined.bind (((indexGenesisAssets_confined assets fun _ => hgenesis).bind fun _ =>
    processTransactions_guarded.bind fun _ =>
    (incrementGeneratedBlocks_confined _ (hdb _)).bind fun _ =>
    (indexBlockEvents_confined (fun c _ => hdb c) (hdb _) fun t _ => hdb _).bind fun _ =>
    (indexPrices_confined priceWrites_guarded).bind fun _ =>
    (applySwapEvent_confined _ events).widen swapWrites_guarded)) fun _ =>
    Table.confined_upsert (hdb _)

theorem deleteBlock_guarded {view : DeletionView} {height : ℕ} {row : BlockRow} :
    Confined (Respects guardedWrites) (deleteBlock env view height row) := by
  have hdb := guardedWrites_dbTrx
  refine Table.confined_find.bind fun found => ?_
  split
  · exact confined_pure ()
  refine (confined_query _ _).bind fun txs => (confined_ofOption _ _).bind fun txs =>
    (revertTransactions_confined ?_).bind fun _ => (confined_query _ _).bind fun db =>
    (deleteTransactionRows_confined _ _ fun c _ => hdb c).bind fun _ =>
    (Table.confined_modify (hdb _)).bind fun _ =>
    (deleteBlockEvents_confined (fun c _ => hdb c) (hdb _) fun t _ => hdb _).bind fun _ =>
    Confined.bind ((revertSwapEvent_confined _ _).widen swapWrites_guarded) fun _ =>
      (deletePriceIndex_confined _).widen priceWrites_guarded
  exact fun tx _ _ => processorWrites_guarded

theorem deleteIndexedBlocksTrx_guarded {view : DeletionView} {blocks : List (ℕ × BlockRow)} :
    Confined (Respects guardedWrites) (deleteIndexedBlocksTrx env view blocks) := by
  refine Confined.bind (Confined.serial fun p hp => ?_) fun _ => Table.confined_deleteWhere
    fun c _ _ => guardedWrites_dbTrx c
  obtain ⟨⟨h, r⟩, -, rfl⟩ := List.mem_map.mp hp
  exact deleteBlock_guarded

/-- While a job runs, the committed guarded rows do not change. -/
theorem keeps_guarded {α : Type} {p : Prog α} (hp : Confined (Respects guardedWrites) p) (db : DB) :
    p.Keeps fun w => SameGuarded db w.committed := by
  refine Async.All.keeps (Async.All.mono hp fun u hu w hw c hc => ?_)
  rcases hu with rfl | ⟨conn, st, hst, rfl⟩
  · exact hw c hc
  · cases conn with
    | default => exact (hst c (fun h => h rfl hc) _).trans (hw c hc)
    | dbTrx => exact hw c hc

private theorem transact_guarded {fault : Option ℕ} {e e' : Failure} {p : Prog Unit}
    (hp : Confined (Respects guardedWrites) p) {db db' : DB}
    (h : transact fault e p db = (.error e', db')) : SameGuarded db db' := by
  rcases transact_cases fault e p db with ⟨w, -, -, heq⟩ | ⟨e'', w, heq, hkeep⟩
  · simp [h] at heq
  · obtain rfl : db' = w.committed := (Prod.ext_iff.mp (h.symm.trans heq)).2
    exact hkeep _ (keeps_guarded hp db) fun _ _ => rfl

end Guarded

/-! ### Networks -/

/-- What does not change during a run. -/
structure Network where
  genesisHeight : ℕ
  posTokenID : TokenID
  addressFromPublicKey : String → Address
  /-- The block with an identifier. -/
  block : BlockID → Block
  /-- The events of the block with an identifier. -/
  events : BlockID → List Event

namespace Network

/-- The height of the block with an identifier. -/
def heightOf (net : Network) (id : BlockID) : ℕ := (net.block id).header.height

/-- The environment of a job belongs to the network. -/
structure Configures (net : Network) (env : Env) : Prop where
  genesisHeight : env.genesisHeight = net.genesisHeight
  posTokenID : env.posTokenID = net.posTokenID
  addressFromPublicKey : env.addressFromPublicKey = net.addressFromPublicKey

/-- The node and the event store answer a deletion job with what belongs to the identifiers. -/
structure Serves (net : Network) (view : DeletionView) : Prop where
  block : ∀ id b, view.blockByID id = some b → b = net.block id
  events : ∀ id, view.eventsByID id = net.events id

end Network

/-- The job is answered by the network: the node returns blocks of the height it is asked for,
and every block comes with its own events. Deletion jobs are for blocks above the genesis
height. -/
def Job.Answered (net : Network) : Job → Prop
  | .index env _ node _ events _ _ => net.Configures env ∧ ∀ h b, node.block h = some b →
      b.header.height = h ∧ net.block b.header.id = b ∧ events b = net.events b.header.id
  | .delete env view _ heights => net.Configures env ∧ net.Serves view ∧
      ∀ h ∈ heights, net.genesisHeight < h

/-- The table `blocks` of a run over the network has no gaps and ends at a height. -/
abbrev Network.GapFree (net : Network) (last : ℕ) (db : DB) : Prop :=
  SwaptoshiService.GapFree net.genesisHeight net.heightOf last db

/-- **Everything a job can do** to tables whose last indexed height is `last`. -/
inductive Job.Outcome (net : Network) (last : ℕ) (db : DB) : Job → DB → Prop
  | indexed {env : Env} {order : List ℕ} {node : NodeView} {assets : GenesisAssets}
      {events : Block → List Event} {fault : Option ℕ} {jobHeight : ℕ} {block : Block}
      {w : DBSession} (henv : net.Configures env) (hchosen : node.block (last + 1) = some block)
      (hheight : block.header.height = last + 1) (hblock : net.block block.header.id = block)
      (hrun : (indexBlockTrx env order assets block (net.events block.header.id)).run
        (ofStore db) = (.ok (), w))
      (hnew : w.commit.committed.get (.block (last + 1)) =
        some (blockRow block (net.events block.header.id)))
      (hold : ∀ h ≠ last + 1, w.commit.committed.get (.block h) = db.get (.block h)) :
      Outcome net last db (.index env order node assets events fault jobHeight) w.commit.committed
  | deleted {env : Env} {view : DeletionView} {fault : Option ℕ} {heights : List ℕ} {cut : ℕ}
      {w : DBSession} (henv : net.Configures env) (hview : net.Serves view)
      (hcut : net.genesisHeight < cut)
      (hmem : ∀ h r, (h, r) ∈ getBlocksToDelete heights db ↔
        cut ≤ h ∧ db.get (.block h) = some r)
      (hrun : (deleteIndexedBlocksTrx env view (getBlocksToDelete heights db)).run (ofStore db) =
        (.ok (), w))
      (hget : ∀ h, w.commit.committed.get (.block h) =
        if cut ≤ h then none else db.get (.block h)) :
      Outcome net last db (.delete env view fault heights) w.commit.committed
  | idle {j : Job} {db' : DB} (h : SameGuarded db db') : Outcome net last db j db'

section Outcome

variable {net : Network} {last : ℕ} {s : Ledger}

/-- The next block is not the genesis block. -/
theorem Network.GapFree.ne_genesisHeight {db : DB} {env : Env} {n : ℕ} (hs : net.GapFree last db)
    (henv : net.Configures env) (hn : n = last + 1) : n ≠ env.genesisHeight := by
  have := hs.genesis_le
  rw [hn, henv.genesisHeight]
  omega

/-- The deleted blocks are stored ones, and the genesis block is not among them. -/
theorem stored_of_deleted {db : DB} {cut : ℕ} {heights : List ℕ} (hcut : net.genesisHeight < cut)
    (hmem : ∀ h r, (h, r) ∈ getBlocksToDelete heights db ↔ cut ≤ h ∧ db.get (.block h) = some r)
    (n : ℕ) (r : BlockRow) (hp : (n, r) ∈ getBlocksToDelete heights db) :
    net.genesisHeight < n ∧ db.get (.block n) = some r :=
  ⟨hcut.trans_le ((hmem n r).mp hp).1, ((hmem n r).mp hp).2⟩

theorem indexBlock_committed {env : Env} {order : List ℕ} {node : NodeView}
    {assets : GenesisAssets} {events : Block → List Event} {fault : Option ℕ} {jobHeight : ℕ}
    {db db' : DB} {block : Block}
    (h : indexBlock env order node assets events fault jobHeight db =
      (.ok (.index block), db')) :
    ∃ w, (indexBlockTrx env order assets block (events block)).run (ofStore db) = (.ok (), w) ∧
      w.commit.committed = db' := by
  rw [indexBlock] at h
  split at h
  · rename_i b hchoose
    rcases ht : transact fault outsideFailure (indexBlockTrx env order assets b (events b)) db with
      ⟨_ | ⟨⟨⟩⟩, db''⟩ <;> simp only [ht, Except.map, Prod.mk.injEq, reduceCtorEq, false_and,
        Except.ok.injEq, Decision.index.injEq] at h
    obtain ⟨rfl, rfl⟩ := h
    exact (transact_ok.mp ht).2
  · rename_i hnot
    exact absurd (Prod.ext_iff.mp h).1 (hnot block)

private theorem indexBlock_uncommitted {env : Env} {order : List ℕ} {node : NodeView}
    {assets : GenesisAssets} {events : Block → List Event} {fault : Option ℕ} {jobHeight : ℕ}
    {db db' : DB} {r : Except Failure Decision}
    (h : indexBlock env order node assets events fault jobHeight db = (r, db'))
    (hr : ∀ block, r ≠ .ok (.index block)) : SameGuarded db db' := by
  rw [indexBlock] at h
  split at h
  · rename_i b hchoose
    rcases ht : transact fault outsideFailure (indexBlockTrx env order assets b (events b)) db with
      ⟨e | ⟨⟨⟩⟩, db''⟩ <;> simp only [ht, Except.map, Prod.mk.injEq] at h
    · obtain ⟨-, rfl⟩ := h
      exact transact_guarded indexBlockTrx_guarded ht
    · exact absurd h.1.symm (hr b)
  · obtain ⟨-, rfl⟩ := Prod.ext_iff.mp h
    exact fun _ _ => rfl

theorem Job.outcome {j : Job} (hj : j.Answered net) (hs : net.GapFree last s.db) :
    j.Outcome net last s.db (j.run s).db := by
  cases j with
  | index env order node assets events fault jobHeight =>
    obtain ⟨henv, hnode⟩ := hj
    have hheight : heightToIndex s.db jobHeight = last + 1 := hs.heightToIndex jobHeight
    rcases indexBlock_blocks env order node assets events fault jobHeight s.db with
      ⟨block, db, hchoose, hrun, hnew, hold⟩ | ⟨r, db, hrun, hr, -⟩
    · have hblock := (chooseBlock_index hchoose).1
      rw [hheight] at hblock
      obtain ⟨hbh, hbid, hev⟩ := hnode _ _ hblock
      obtain ⟨w, hw, rfl⟩ := indexBlock_committed hrun
      rw [hbh, hev] at hnew
      rw [hbh] at hold
      rw [hev] at hw
      simp only [Job.run, hrun]
      exact .indexed henv hblock hbh hbid hw hnew hold
    · have heq : (Job.run s (.index env order node assets events fault jobHeight)).db = db := by
        simp only [Job.run, hrun]
      rw [heq]
      exact .idle (indexBlock_uncommitted hrun hr)
  | delete env view fault heights =>
    obtain ⟨henv, hview, hheights⟩ := hj
    rcases deleteIndexedBlocks_blocks env view fault heights s.db with
      ⟨db, hrun, hrows⟩ | ⟨e, db, hrun, -⟩
    · simp only [Job.run, hrun]
      obtain ⟨-, w, hw, rfl⟩ := transact_ok.mp hrun
      obtain ⟨cut, hcut, hmem⟩ : ∃ cut, net.genesisHeight < cut ∧ ∀ h r,
          (h, r) ∈ getBlocksToDelete heights s.db ↔ cut ≤ h ∧ s.db.get (.block h) = some r := by
        cases hmin : heights.min? with
        | some lowest =>
          exact ⟨lowest, hheights _ (List.min?_mem hmin), fun h r => by
            simp [mem_getBlocksToDelete, hmin]⟩
        | none =>
          -- Nothing is deleted, and nothing is indexed above `last`.
          refine ⟨last + 1, Nat.lt_succ_of_le hs.genesis_le, fun h r => ?_⟩
          simp only [mem_getBlocksToDelete, hmin, reduceCtorEq, false_and, exists_false, false_iff]
          rintro ⟨hle, hr⟩
          have := ((hs.rows h).mp (by simp [hr])).2
          omega
      exact .deleted henv hview hcut hmem hw (hs.get_deleted hmem hrows)
    · simp only [Job.run, hrun]
      exact .idle (transact_guarded deleteIndexedBlocksTrx_guarded hrun)

/-- Every job leaves a table without gaps. -/
theorem Job.Outcome.gapFree {j : Job} {db db' : DB} (h : j.Outcome net last db db')
    (hs : net.GapFree last db) : ∃ last', net.GapFree last' db' := by
  cases h with
  | indexed henv hchosen hheight hblock hrun hnew hold =>
    refine ⟨last + 1, hs.extend ?_ hnew hold⟩
    rw [Network.heightOf, blockRow, hblock, hheight]
  | deleted henv hview hcut hmem hrun hget => exact ⟨_, hs.truncate hcut hget⟩
  | idle h => exact ⟨last, hs.sameBlocks fun n => h _ (by simp [Cell.table, guardedTables])⟩

end Outcome

/-- One whole job. -/
def Job.Step (s : Ledger) (j : Job) (s' : Ledger) : Prop := s' = j.run s

/-! ### Two blocks on top of genesis -/

/-- A network with the blocks `a` at height 1 and `b` at height 2. -/
def twoBlockNetwork (txs : BlockID → List Transaction) (events : BlockID → List Event) :
    Network where
  genesisHeight := 0
  posTokenID := "kly"
  addressFromPublicKey := id
  block id :=
    ⟨⟨id, if id = "a" then 1 else if id = "b" then 2 else 0, 10, "generator",
      if id = "b" then "a" else "genesis", 0, false⟩, txs id, []⟩
  events := events

/-- The blocks `a` and `b` by height. -/
def Network.blockAt (net : Network) (height : ℕ) : Option Block :=
  if height = 1 then some (net.block "a") else if height = 2 then some (net.block "b") else none

/-- The job that indexes the next block. -/
def Network.indexNext (net : Network) : Job :=
  .index default [] ⟨2, net.blockAt⟩ ⟨[], [], [], [], [], [], [], []⟩
    (fun b => net.events b.header.id) none 1

/-- The job that deletes the blocks from a height on. -/
def Network.deleteFrom (net : Network) (height : ℕ) : Job :=
  .delete default ⟨fun id => some (net.block id), net.events, fun _ => []⟩ none [height]

/-- The job in another environment. -/
def Job.withEnv (env : Env) : Job → Job
  | .index _ order node assets events fault jobHeight =>
    .index env order node assets events fault jobHeight
  | .delete _ view fault heights => .delete env view fault heights

theorem Job.Answered.withEnv {net : Network} {j : Job} {env : Env} (h : j.Answered net)
    (henv : net.Configures env) : (j.withEnv env).Answered net := by
  cases j with
  | index _ _ _ _ _ _ _ => exact ⟨henv, h.2⟩
  | delete _ _ _ _ => exact ⟨henv, h.2⟩

section TwoBlocks

variable {txs : BlockID → List Transaction} {events : BlockID → List Event}

private theorem configures_twoBlockNetwork : (twoBlockNetwork txs events).Configures default :=
  ⟨rfl, rfl, rfl⟩

theorem indexNext_answered :
    (twoBlockNetwork txs events).indexNext.Answered (twoBlockNetwork txs events) := by
  refine ⟨configures_twoBlockNetwork, fun h b hb => ?_⟩
  simp only [Network.blockAt] at hb
  split at hb
  · obtain rfl := Option.some_injective _ hb
    simp [twoBlockNetwork, *]
  split at hb
  · obtain rfl := Option.some_injective _ hb
    simp [twoBlockNetwork, *]
  · simp at hb

theorem deleteFrom_answered {height : ℕ} (h : 0 < height) :
    ((twoBlockNetwork txs events).deleteFrom height).Answered (twoBlockNetwork txs events) := by
  refine ⟨configures_twoBlockNetwork,
    ⟨fun id b hb => (Option.some_injective _ hb).symm, fun _ => rfl⟩,
    fun n hn => ?_⟩
  rw [List.mem_singleton.mp hn]
  exact h

theorem gapFree_genesisLedger : (twoBlockNetwork txs events).GapFree 0 genesisLedger.db where
  genesis_le := le_rfl
  rows h := by
    by_cases hh : h = 0
    · subst hh
      simp [show genesisLedger.db.get (.block 0) = some _ from rfl, twoBlockNetwork]
    · have hnone : genesisLedger.db.get (.block h) = none :=
        Write.point_act_of_ne (by simpa using hh) _ _
      simp [hnone, hh]
  height_id h r hr := by
    by_cases hh : h = 0
    · subst hh
      obtain rfl := Option.some_injective _ hr
      rfl
    · have hnone : genesisLedger.db.get (.block h) = none :=
        Write.point_act_of_ne (by simpa using hh) _ _
      simp [hnone] at hr

/-- Other rows do not matter. -/
theorem gapFree_withRows {st : Stmt} (h : ∀ n, st.Fixes (.block n)) :
    (twoBlockNetwork txs events).GapFree 0 (st.exec genesisLedger.db) :=
  gapFree_genesisLedger.sameBlocks fun n => h n _

end TwoBlocks

end SwaptoshiService
