import SwaptoshiService.Indexer.IndexBlock

/-!
# The transactions of a block, in any order

`indexBlock` processes the transactions of a block concurrently, so the steps of their
processors interleave freely. The outcome does not depend on the interleaving when the
footprints of the transactions are pairwise `Compatible` (`indexBlock_order`): no transaction
writes a row another one reads or overwrites. Two transactions that overwrite the same row leave
the value of the one that happens to come last (`later_liquidity_lost`).
-/

namespace SwaptoshiService

open Session

/-- What the function for one transaction reads and writes. -/
def transactionTouches (env : Env) (header : BlockHeader) (events : List Event)
    (tx : Transaction) (index : ℕ) : List Touch :=
  match getTransactionExecutionStatus tx events with
  | none => []
  | some status =>
    .set .dbTrx (.transaction tx.id) ::
      applyTouches env header events (indexedTx env index tx status)

theorem processTransaction_within (env : Env) (header : BlockHeader) (events : List Event)
    (tx : Transaction) (index : ℕ) :
    Within env (transactionTouches env header events tx index)
      (processTransaction env header events tx index) := by
  refine within_ofOption_bind fun status hstatus => ?_
  simp only [transactionTouches, hstatus]
  refine (within_upsert ?_).bind fun _ => applyTransaction_within.mono ?_
  · exact List.mem_cons_self
  · exact List.subset_cons_self _ _

/-- No two transactions of the block get in each other's way. -/
def NoConflict (env : Env) (header : BlockHeader) (events : List Event)
    (txs : List Transaction) : Prop :=
  (txs.mapIdx fun index tx => transactionTouches env header events tx index).Pairwise Compatible

section Order

variable {env : Env} {header : BlockHeader} {events : List Event} {txs : List Transaction}

theorem NoConflict.pairwiseIndependent (h : NoConflict env header events txs) :
    Async.PairwiseIndependent (transactionPrograms env header events txs) := by
  rw [NoConflict] at h
  rw [Async.PairwiseIndependent, transactionPrograms]
  rw [List.pairwise_iff_getElem] at h ⊢
  intro i j hi hj hij
  have hcomp := h i j (by simpa using hi) (by simpa using hj) hij
  simp only [List.getElem_mapIdx] at hcomp ⊢
  exact Footprint.independent (processTransaction_within env header events _ _)
    (processTransaction_within env header events _ _) hcomp.commute hcomp.unseen
    hcomp.symm.unseen

/-- Processing the transactions in any interleaving succeeds exactly when processing them one
after another in block order does, and leaves the same session behind. -/
theorem NoConflict.run_processTransactions (h : NoConflict env header events txs)
    (order : List ℕ) (w w' : DBSession) :
    (processTransactions env order header events txs).run w = (.ok (), w') ↔
      (Async.serial (transactionPrograms env header events txs)).run w = (.ok (), w') :=
  Async.run_interleave_eq_serial h.pairwiseIndependent order w w'

private theorem run_indexBlockTrx {order : List ℕ} {assets : GenesisAssets} {block : Block}
    (h : NoConflict env block.header events block.transactions) (w w' : DBSession) :
    (indexBlockTrx env order assets block events).run w = (.ok (), w') ↔
      (indexBlockTrx env [] assets block events).run w = (.ok (), w') := by
  unfold indexBlockTrx indexBlockBody
  simp only [bind_assoc, Async.run_bind_ok]
  refine exists_congr fun _ => exists_congr fun v => and_congr_right fun _ =>
    exists_congr fun ⟨⟩ => exists_congr fun v' => and_congr_left fun _ => ?_
  exact h.run_processTransactions order v v'

end Order

/-- **Order of transactions.** If no two transactions of the block are in conflict, a job
commits under any interleaving of their steps exactly when it commits with the transactions
processed one after another in block order, and with the same tables. -/
theorem indexBlock_order {env : Env} {node : NodeView} {assets : GenesisAssets}
    {events : Block → List Event} {jobHeight : ℕ} {db : DB}
    (h : ∀ block, chooseBlock env node jobHeight db = .ok (.index block) →
      NoConflict env block.header (events block) block.transactions)
    (fault : Option ℕ) (order : List ℕ) (decision : Decision) (db' : DB) :
    indexBlock env order node assets events fault jobHeight db = (.ok decision, db') ↔
      indexBlock env [] node assets events fault jobHeight db = (.ok decision, db') := by
  unfold indexBlock
  split
  · rename_i block hchoose
    have hsame : ∀ db', transact fault outsideFailure
        (indexBlockTrx env order assets block (events block)) db = (.ok (), db') ↔
        transact fault outsideFailure
          (indexBlockTrx env [] assets block (events block)) db = (.ok (), db') := by
      intro db'
      simp only [transact_ok, run_indexBlockTrx (h block hchoose)]
    have hmap : ∀ x : Except Failure Unit × DB,
        (x.1.map fun _ => Decision.index block, x.2) = (.ok decision, db') ↔
          x = (.ok (), db') ∧ decision = .index block := by
      rintro ⟨_ | ⟨⟨⟩⟩, db''⟩
      · simp [Except.map]
      · simp [Except.map, and_comm, eq_comm]
    exact (hmap _).trans ((and_congr_left fun _ => hsame db').trans (hmap _).symm)
  · rfl

/-! ### Two blocks -/

/-- A node with one block above the genesis block, which holds two transactions. -/
def twoTransactionNode (module command : String) (first second : Command)
    (hfirst : first.FitsName module command := by decide)
    (hsecond : second.FitsName module command := by decide) : NodeView :=
  ⟨1, fun _ => some ⟨⟨"first", 1, 10, "generator", "genesis", 0, false⟩,
    [⟨"a", module, command, first, "alice", 0, 0, 0, 0, hfirst⟩,
      ⟨"b", module, command, second, "bob", 0, 0, 0, 0, hsecond⟩],
    []⟩⟩

/-- Both transactions succeed. -/
def bothSuccessful (module : String) : List Event :=
  [⟨"ra", 0, 1, ["04a"], .commandExecutionResult module true⟩,
    ⟨"rb", 1, 1, ["04b"], .commandExecutionResult module true⟩]

/-- Two commission changes of different validators are processed with their steps interleaved,
with the same result as one after the other. -/
theorem indexBlock_order_commissions :
    let node := twoTransactionNode "pos" "changeCommission" (.changeCommission 5)
      (.changeCommission 7)
    ∀ decision db', indexBlock default [1, 0, 1] node ⟨[], [], [], [], [], [], [], []⟩
        (fun _ => bothSuccessful "pos") none 1 onePoolDB = (.ok decision, db') ↔
      indexBlock default [] node ⟨[], [], [], [], [], [], [], []⟩
        (fun _ => bothSuccessful "pos") none 1 onePoolDB = (.ok decision, db') := by
  intro node decision db'
  refine indexBlock_order (fun block hchoose => ?_) none [1, 0, 1] decision db'
  obtain rfl := Decision.index.inj (Except.ok.inj hchoose)
  exact List.pairwise_pair.mpr (by decide)

/-- Two `increaseLiquidity` on one pool: the first raises the net liquidity at tick 10 from 0 to
5, the second from 5 to 12. -/
def increaseTwice : List Event :=
  bothSuccessful "dex" ++
    [⟨"m", 2, 1, ["04a"], .dexMint ⟨10, 20, 5, -5, 0, 0⟩⟩,
      ⟨"i", 3, 1, ["04a"], .increaseLiquidity ⟨"nft", "alice", 5, 1, 1⟩⟩,
      ⟨"n", 4, 1, ["04b"], .dexMint ⟨10, 20, 12, -12, 5, -5⟩⟩,
      ⟨"j", 5, 1, ["04b"], .increaseLiquidity ⟨"nft", "bob", 7, 1, 1⟩⟩]

/-- Index the block with the two transactions. -/
def increaseTwiceJob (order : List ℕ) : Except Failure Decision × DB :=
  indexBlock onePoolEnv order
    (twoTransactionNode "dex" "increaseLiquidity" (.dexIncreaseLiquidity "pool")
      (.dexIncreaseLiquidity "pool"))
    ⟨[], [], [], [], [], [], [], []⟩ (fun _ => increaseTwice) none 1 onePoolDB

/-- If the second transaction overtakes the first one, its tick is lost. -/
theorem later_liquidity_lost :
    (increaseTwiceJob []).2.get (.tick "pool" 10) = some ⟨12⟩ ∧
      (increaseTwiceJob (List.replicate 10 1)).1.toOption.isSome ∧
      (increaseTwiceJob (List.replicate 10 1)).2.get (.tick "pool" 10) = some ⟨5⟩ := by
  decide +kernel

end SwaptoshiService
