import SwaptoshiService.Jobs.DeletionCompletes
import SwaptoshiService.Jobs.GeneratorCounters

/-!
# Undoing registrations

`registerValidator` and `registerMultisignature` take the address of the sender from
`tx.senderAddress`. `indexBlock` fills the field in; `formatTransactionsInBlock`, through which
`deleteIndexedBlocks` fetches the transactions it reverts, **does not**. The first hook then
upserts a row without its primary key, the second calls a method of `undefined`, and the job
fails. `changeCommission` computes the address from the public key and is reverted, except that
a row that was there before the block is gone afterwards.

The row of the block's generator in `validators` is written by both jobs as well: it is created when
the first block of the generator is indexed, and stays.

`registration_undo_iff` says which blocks are undone when they are indexed and deleted again.
-/

namespace SwaptoshiService

open Session Async

/-- The command registers a validator, a commission or a multisignature group. -/
def Command.registers : Command → Bool
  | .registerValidator _ _ _ _ | .changeCommission _ | .registerMultisignature _ _ => true
  | _ => false

/-- The hooks of the command write no registration, no stake and no token, and reverting it cannot
fail. -/
def Command.independent : Command → Bool
  | .tokenTransfer _ | .tokenTransferCrossChain _ _ _ | .registerMainchain | .registerSidechain _ _
  | .terminateSidechainForLiveness _ | .tokenFactoryMint _ _ | .tokenFactoryBurn _ _
  | .tokenFactorySetAttributes | .other => true
  | _ => false

/-- The transaction succeeded, as the events of its block show. -/
def Transaction.succeeded (events : List Event) (tx : Transaction) : Prop :=
  getTransactionExecutionStatus tx events = some .successful

/-- The registration columns of `accounts`. -/
def registrationAt (db : DB) (address : Address) : Option (Option String × Bool) :=
  (db.get (.account address) : Option AccountRow).map fun r => (r.name, r.isValidator)

/-- The two databases agree on the registration columns of `accounts` and on the rows of
`validators`, `commissions` and `multisignature`. -/
structure SameRegistrations (db db' : DB) : Prop where
  accounts : ∀ a, registrationAt db' a = registrationAt db a
  validators : ∀ a, db'.get (.validator a) = db.get (.validator a)
  commissions : ∀ a h, db'.get (.commission a h) = db.get (.commission a h)
  multisignature : ∀ id, db'.get (.multisignature id) = db.get (.multisignature id)

/-- Deleting the block from the top of the index completes and restores the registrations. -/
def Undone (env : Env) (view : DeletionView) (db : DB) (p : ℕ × BlockRow) (db₁ : DB) : Prop :=
  ∃ db₂, deleteIndexedBlocks env view none [p.1] db₁ = (.ok (), db₂) ∧ SameRegistrations db db₂

/-- No successful transaction of the block registers a validator or a group with members, and no
commission row is there yet that a successful `changeCommission` overwrites. -/
structure Undoable (net : Network) (p : ℕ × BlockRow) (db : DB) : Prop where
  validators : ∀ tx ∈ (net.block p.2.id).transactions, tx.succeeded (net.events p.2.id) →
    ∀ name blsKey pop key, tx.params ≠ .registerValidator name blsKey pop key
  members : ∀ tx ∈ (net.block p.2.id).transactions, tx.succeeded (net.events p.2.id) →
    ∀ mandatory optional, tx.params = .registerMultisignature mandatory optional →
      mandatory ++ optional = []
  commissions : ∀ tx ∈ (net.block p.2.id).transactions, tx.succeeded (net.events p.2.id) →
    ∀ c, tx.params = .changeCommission c →
      db.get (.commission (net.addressFromPublicKey tx.senderPublicKey) p.1) = none

/-- The other successful transactions of the block have nothing to do with registrations. -/
def Network.RegistersOnly (net : Network) (p : ℕ × BlockRow) : Prop :=
  ∀ tx ∈ (net.block p.2.id).transactions, tx.succeeded (net.events p.2.id) →
    tx.params.registers = true ∨ tx.params.independent = true

/-! ### The transactions as the deletion job fetches them -/

section Fetched

variable {events : List Event} {txs : List Transaction}

/-- The transactions of a block without the addresses of their senders, with the status that the
events show. -/
def fetched (events : List Event) (txs : List Transaction) : List IndexedTx :=
  txs.mapIdx fun index tx => { tx with
    index
    senderAddress := none
    executionStatus := (getTransactionExecutionStatus tx events).getD .failed }

private theorem mapM_map_some {α : Type} (l : List α) :
    ((l.map some).mapM fun o => o) = some l := by
  induction l with
  | nil => rfl
  | cons a l ih => simp [ih]

/-- The deletion job fetches the transactions of an indexed block. -/
theorem Recorded.getTransactionsByBlockID_fetched {net : Network} {db : DB} {p : ℕ × BlockRow}
    (hrec : Recorded net db) (hheight : net.genesisHeight < p.1)
    (hrow : db.get (.block p.1) = some p.2) {view : DeletionView} (hview : net.Serves view)
    (hserved : (view.blockByID p.2.id).isSome) :
    SwaptoshiService.getTransactionsByBlockID view p.2.id db =
      some (fetched (net.events p.2.id) (net.block p.2.id).transactions) := by
  obtain ⟨block, hblock⟩ := Option.isSome_iff_exists.mp hserved
  have hformat : (block.transactions.mapIdx fun i tx => formatTransaction view db block i tx) =
      (fetched (net.events p.2.id) block.transactions).map some := by
    refine List.ext_getElem (by simp [fetched]) fun i hi _ => ?_
    have hlt : i < block.transactions.length := by simpa using hi
    have hmem : block.transactions[i] ∈ (net.block p.2.id).transactions := by
      rw [← hview.block _ _ hblock]
      exact List.getElem_mem hlt
    obtain ⟨status, row, hstatus, hget, -, hrs⟩ := hrec p.1 p.2 hheight hrow _ hmem
    simp only [List.getElem_mapIdx, List.getElem_map, fetched, formatTransaction, hget, hstatus,
      hrs, Option.map_some, Option.getD_some]
  rw [SwaptoshiService.getTransactionsByBlockID]
  rw [hblock]
  change (block.transactions.mapIdx fun i tx => formatTransaction view db block i tx).mapM
    (fun o => o) = _
  rw [hformat, mapM_map_some, hview.block _ _ hblock]

/-- A fetched transaction is one of the block, and it succeeded if that one did. -/
theorem mem_fetched {tf : IndexedTx} (h : tf ∈ fetched events txs) :
    ∃ tx ∈ txs, tf.toTransaction = tx ∧ tf.senderAddress = none ∧
      (tf.isSuccessful = true ↔ tx.succeeded events) := by
  obtain ⟨i, hi, rfl⟩ := List.mem_mapIdx.mp h
  refine ⟨_, List.getElem_mem hi, rfl, rfl, ?_⟩
  cases hs : getTransactionExecutionStatus txs[i] events <;>
    simp [IndexedTx.isSuccessful, Transaction.succeeded, hs]

theorem exists_fetched {tx : Transaction} (htx : tx ∈ txs) (hs : tx.succeeded events) :
    ∃ tf ∈ fetched events txs, tf.toTransaction = tx ∧ tf.senderAddress = none ∧
      tf.isSuccessful = true := by
  obtain ⟨i, hi, rfl⟩ := List.mem_iff_getElem.mp htx
  refine ⟨_, List.mem_mapIdx.mpr ⟨i, hi, rfl⟩, rfl, rfl, ?_⟩
  have hstatus : getTransactionExecutionStatus txs[i] events = some .successful := hs
  simp [IndexedTx.isSuccessful, hstatus]

end Fetched

/-! ### Reverting without the address of the sender -/

section Revert

variable {env : Env} {header : BlockHeader} {events : List Event} {tf : IndexedTx}
  {w w' : DBSession}

theorem revertRegisterValidator_fails (hs : tf.isSuccessful = true)
    (hsender : tf.senderAddress = none) :
    ¬ (Pos.revertRegisterValidator env header tf).Succeeds w := by
  rw [Pos.revertRegisterValidator, ifSuccessful, if_pos hs, hsender]
  rintro ⟨a, w', hrun⟩
  have hthrow := congrArg Prod.fst hrun
  simp at hthrow

/-- Without the address of the sender there are no memberships, unless there are no keys. -/
theorem resolveMultisignatureMemberships_none (hsender : tf.senderAddress = none)
    (mandatory optional : List String) :
    Pos.resolveMultisignatureMemberships env tf mandatory optional =
      if mandatory ++ optional = [] then some [] else none := by
  rw [Pos.resolveMultisignatureMemberships, hsender]
  cases mandatory ++ optional with
  | nil => rfl
  | cons key keys => simp

theorem revertRegisterMultisignature_succeeds (hs : tf.isSuccessful = true)
    (hsender : tf.senderAddress = none) (mandatory optional : List String) :
    (Pos.revertRegisterMultisignature env tf mandatory optional).Succeeds w ↔
      mandatory ++ optional = [] := by
  rw [Pos.revertRegisterMultisignature, ifSuccessful, if_pos hs, succeeds_ofOption_bind_iff,
    resolveMultisignatureMemberships_none hsender]
  constructor
  · rintro ⟨ms, hms, -⟩
    by_contra hkeys
    rw [if_neg hkeys] at hms
    simp at hms
  · intro hkeys
    rw [if_pos hkeys]
    exact ⟨[], rfl, (), w, rfl⟩

/-- The commission rows that reverting a transaction may remove. -/
def IndexedTx.changesCommission (env : Env) (tx : IndexedTx) (a : Address) (c : ℕ) : Prop :=
  tx.isSuccessful = true ∧ tx.params = .changeCommission c ∧
    env.addressFromPublicKey tx.senderPublicKey = a

/-- A commission row is kept or removed, and it is removed if it carries a value that one of the
transactions set. -/
def CommissionReverted (env : Env) (a : Address) (h : ℕ) (txs : List IndexedTx)
    (w w' : DBSession) : Prop :=
  let row (w : DBSession) : Option CommissionRow := (w.view .dbTrx).get (.commission a h)
  (row w' = none ∨ row w' = row w) ∧
    ∀ c, row w = some ⟨c⟩ → (∃ tx ∈ txs, tx.changesCommission env a c) → row w' = none

private theorem CommissionReverted.trans {a : Address} {h : ℕ} {tx : IndexedTx}
    {txs : List IndexedTx} {v : DBSession} (h₁ : CommissionReverted env a h [tx] w v)
    (h₂ : CommissionReverted env a h txs v w') : CommissionReverted env a h (tx :: txs) w w' := by
  obtain ⟨hkeep₁, hgone₁⟩ := h₁
  obtain ⟨hkeep₂, hgone₂⟩ := h₂
  refine ⟨?_, fun c hc ⟨tx', hmem, htx'⟩ => ?_⟩
  · rcases hkeep₂ with hnone | hsame
    · exact .inl hnone
    · rw [hsame]
      exact hkeep₁
  · -- The row is removed by the first transaction, or still there for the others.
    rcases hkeep₁ with hnone | hsame
    · rcases hkeep₂ with h | h
      · exact h
      · rw [h, hnone]
    · rcases List.mem_cons.mp hmem with rfl | hmem
      · have hv := hgone₁ c hc ⟨tx', List.mem_singleton_self tx', htx'⟩
        rcases hkeep₂ with h | h
        · exact h
        · rw [h, hv]
      · exact hgone₂ c (hsame.trans hc) ⟨tx', hmem, htx'⟩

private theorem commissionReverted_of_sameAt {a : Address} {h : ℕ}
    (hsame : SameAt (.commission a h) w w')
    (hnot : ∀ c, ¬ tf.changesCommission env a c) : CommissionReverted env a h [tf] w w' := by
  refine ⟨.inr (hsame.view .dbTrx), fun c _ ⟨tx, hmem, htx⟩ => ?_⟩
  rw [List.mem_singleton] at hmem
  subst hmem
  exact absurd htx (hnot c)

private theorem revertTransaction_changeCommission {c : ℕ} (hs : tf.isSuccessful = true)
    (hp : tf.params = .changeCommission c) :
    revertTransaction env header events tf = Table.delete .dbTrx
      (.commission (env.addressFromPublicKey tf.senderPublicKey) header.height)
        fun r => decide (r.commission = c) := by
  have hcmd : revertTransaction env header events tf =
      Pos.revertChangeCommission env header tf c := by rw [revertTransaction_eq, revertHook, hp]
  rw [hcmd, Pos.revertChangeCommission, ifSuccessful, if_pos hs]

private theorem ensures_revertChangeCommission {a : Address} {c : ℕ}
    (hs : tf.isSuccessful = true) (hp : tf.params = .changeCommission c) :
    (revertTransaction env header events tf).Ensures
      (CommissionReverted env a header.height [tf]) := by
  rw [revertTransaction_changeCommission hs hp]
  refine ensures_act fun w => ?_
  by_cases ha : env.addressFromPublicKey tf.senderPublicKey = a
  · subst ha
    -- The row is deleted if it has the commission of the transaction.
    have hrow : ((send .dbTrx (Table.deleteRowIf
        (.commission (env.addressFromPublicKey tf.senderPublicKey) header.height)
          fun r : CommissionRow => decide (r.commission = c)) w).view .dbTrx).get
          (.commission (env.addressFromPublicKey tf.senderPublicKey) header.height) =
        ((w.view .dbTrx).get (.commission (env.addressFromPublicKey tf.senderPublicKey)
          header.height) : Option CommissionRow).filter fun r => !decide (r.commission = c) := by
      rw [view_send_dbTrx_get, Table.deleteRowIf, Write.point_act_self]
    refine ⟨?_, fun c' hc' ⟨tx, hmem, htx⟩ => ?_⟩
    · dsimp only
      rw [hrow]
      cases hget : ((w.view .dbTrx).get (.commission (env.addressFromPublicKey tf.senderPublicKey)
          header.height) : Option CommissionRow) with
      | none => exact .inl rfl
      | some r => by_cases hr : r.commission = c <;> simp [Option.filter, hr]
    · rw [List.mem_singleton] at hmem
      subst hmem
      obtain ⟨-, hp', -⟩ := htx
      obtain rfl : c = c' := Command.changeCommission.inj (hp.symm.trans hp')
      dsimp only at hc' ⊢
      rw [hrow, hc']
      simp [Option.filter]
  · refine commissionReverted_of_sameAt (sameAt_send (Table.deleteRowIf_fixes ?_) w) ?_
    · intro heq
      exact ha (Cell.commission.inj heq).1.symm
    · rintro c' ⟨-, -, ha'⟩
      exact ha ha'

/-- What reverting a transaction does to a commission row of the block. -/
private theorem commissionReverted_revertTransaction {a : Address}
    (hsender : tf.senderAddress = none) :
    (revertTransaction env header events tf).Ensures
      (CommissionReverted env a header.height [tf]) := by
  by_cases hs : tf.isSuccessful = true
  · cases hp : tf.params with
    | changeCommission c => exact ensures_revertChangeCommission hs hp
    | registerValidator name blsKey pop key =>
      intro w b w' hrun
      rw [revertTransaction_eq, revertHook, hp] at hrun
      exact absurd ⟨b, w', hrun⟩ (revertRegisterValidator_fails hs hsender)
    | _ =>
      -- The hook of any other command writes other tables.
      have hconf : Confined (Respects fun _ c => c.table ≠ .commissions)
          (revertTransaction env header events tf) := by
        refine revertTransaction_tables fun _ c hc hct => ?_
        simpa [hp, Command.tables, hct] using hc.2
      intro w b w' hrun
      refine commissionReverted_of_sameAt ?_ ?_
      · simpa only [hrun] using hconf.run_sameAt (fun _ _ hst => hst _ fun h => h rfl) w
      · rintro c ⟨-, hp', -⟩
        simp [hp] at hp'
  · rw [revertTransaction_of_failed hs]
    refine ensures_pure () fun w => commissionReverted_of_sameAt (SameAt.refl _ w) ?_
    exact fun c hc => hs hc.1

/-- Reverting the transactions of a block, as they are fetched, removes a commission row with a
value that one of them set. -/
private theorem commissionReverted_revertTransactions {txs : List Transaction} {a : Address} :
    (revertTransactions env header events (fetched events txs)).Ensures
      (CommissionReverted env a header.height (mapOrder (fetched events txs))) := by
  refine Ensures.serial_map (R := CommissionReverted env a header.height)
    (fun w => ⟨.inr rfl, fun c _ ⟨tx, hmem, _⟩ => absurd hmem List.not_mem_nil⟩)
    (fun tx l w t w' h₁ h₂ => h₁.trans h₂) fun tf htf => ?_
  obtain ⟨-, -, -, hsender, -⟩ := mem_fetched (mem_mapOrder.mp htf)
  exact commissionReverted_revertTransaction hsender

/-- The tables that the hooks of independent commands write. -/
def independentTables : List TableName :=
  [.transactions, .blockchainApps, .tokenFactory, .tokenMetadata]

theorem Command.independent_tables {cmd : Command} (h : cmd.independent = true) :
    cmd.tables ⊆ independentTables := by
  cases cmd <;> first
    | exact absurd h Bool.false_ne_true
    | simp [Command.tables, independentTables]

private theorem succeeds_ifSuccessful_exec {conn : Conn} {st : Stmt} :
    (ifSuccessful tf (Session.exec conn st)).Succeeds w := by
  rw [ifSuccessful]
  split
  · exact ⟨(), send conn st w, rfl⟩
  · exact ⟨(), w, rfl⟩

/-- Reverting an independent transaction cannot fail. -/
private theorem revertTransaction_succeeds_of_independent (h : tf.params.independent = true) :
    (revertTransaction env header events tf).Succeeds w := by
  rw [revertTransaction_eq, revertHook]
  cases hp : tf.params with
  | registerMainchain | registerSidechain chainID name => exact succeeds_ifSuccessful_exec
  | terminateSidechainForLiveness chainID => exact succeeds_ifSuccessful_exec
  | tokenFactoryMint tokenId distribution | tokenFactoryBurn tokenId amount =>
    exact succeeds_ifSuccessful_exec
  | tokenTransfer _ | tokenTransferCrossChain _ _ _ | tokenFactorySetAttributes | other =>
    exact ⟨(), w, rfl⟩
  | _ => simp [hp, Command.independent] at h

end Revert

/-! ### Applying the registrations of a block -/

section Apply

variable {env : Env} {header : BlockHeader} {events : List Event} {order : List ℕ}
  {txs : List Transaction} {db db₁ db₂ : DB} {a : Address}

/-- A successful transaction of the block sets this commission. -/
def SetsCommission (env : Env) (events : List Event) (txs : List Transaction) (a : Address)
    (c : ℕ) : Prop :=
  ∃ tx ∈ txs, tx.succeeded events ∧ tx.params = .changeCommission c ∧
    env.addressFromPublicKey tx.senderPublicKey = a

/-- The statement leaves the commission row alone or writes a value that the block sets. -/
private def CommissionWrite (env : Env) (events : List Event) (txs : List Transaction)
    (cell : Address × ℕ) (conn : Conn) (st : Stmt) : Prop :=
  st.Fixes (.commission cell.1 cell.2) ∨ (conn = .dbTrx ∧ ∃ c,
    SetsCommission env events txs cell.1 c ∧ ∀ o, st.act (.commission cell.1 cell.2) o = some ⟨c⟩)

/-- No successful transaction registers a validator. -/
private def NoValidator (events : List Event) (txs : List Transaction) : Prop :=
  ∀ tx ∈ txs, tx.succeeded events → ∀ name blsKey pop key,
    tx.params ≠ .registerValidator name blsKey pop key

private theorem applyTransaction_changeCommission {tx : IndexedTx} {c : ℕ}
    (hs : tx.isSuccessful = true) (hp : tx.params = .changeCommission c) :
    applyTransaction env header events tx = Table.upsert .dbTrx
      (.commission (env.addressFromPublicKey tx.senderPublicKey) header.height) fun _ => ⟨c⟩ := by
  have hcmd : applyTransaction env header events tx =
      Pos.applyChangeCommission env header tx c := by rw [applyTransaction_eq, applyHook, hp]
  rw [hcmd, Pos.applyChangeCommission, ifSuccessful, if_pos hs]

private theorem commissionWrite_of_fixes {conn : Conn} {st : Stmt} {h : ℕ}
    (hst : st.Fixes (.commission a h)) : CommissionWrite env events txs (a, h) conn st := .inl hst

private theorem processTransaction_commission (h : NoValidator events txs) {tx : Transaction}
    (htx : tx ∈ txs) (index : ℕ) :
    Confined (CommissionWrite env events txs (a, header.height))
      (processTransaction env header events tx index) := by
  refine processTransaction_sends (fun set => ?_) fun hs => ?_
  · exact commissionWrite_of_fixes (Table.upsertRow_fixes (by simp))
  have hok : (indexedTx env index tx .successful).isSuccessful = true := rfl
  have hparams : (indexedTx env index tx .successful).params = tx.params := rfl
  cases hp : tx.params with
  | changeCommission c =>
    rw [applyTransaction_changeCommission hok hp]
    refine confined_exec ?_
    by_cases ha : env.addressFromPublicKey tx.senderPublicKey = a
    · refine .inr ⟨rfl, c, ⟨tx, htx, hs, hp, ha⟩, fun o => ?_⟩
      subst ha
      exact Table.upsertRow_act_self _ _ o
    · refine commissionWrite_of_fixes (Table.upsertRow_fixes fun heq => ha ?_)
      exact (Cell.commission.inj heq).1.symm
  | registerValidator name blsKey pop key => exact absurd hp (h tx htx hs _ _ _ _)
  | _ =>
    have hconf : Confined (Respects fun _ c => c.table ≠ .commissions)
        (applyTransaction env header events (indexedTx env index tx .successful)) := by
      refine applyTransaction_tables fun _ c hc hct => ?_
      simpa [hparams, hp, Command.tables, hct] using hc.2
    exact Confined.mono hconf fun conn st hst => commissionWrite_of_fixes (hst _ fun h => h rfl)

/-- The commission row of an account whose commission the block sets. -/
private def HoldsSet (env : Env) (events : List Event) (txs : List Transaction) (a : Address)
    (h : ℕ) (w : DBSession) : Prop :=
  ∃ c, SetsCommission env events txs a c ∧ (w.view .dbTrx).get (.commission a h) = some ⟨c⟩

private theorem CommissionWrite.holdsSet {h : ℕ} {conn : Conn} {st : Stmt}
    (hst : CommissionWrite env events txs (a, h) conn st) (w : DBSession)
    (hw : HoldsSet env events txs a h w) : HoldsSet env events txs a h (send conn st w) := by
  rcases hst with hfix | ⟨rfl, c, hc, hact⟩
  · obtain ⟨c, hc, hget⟩ := hw
    exact ⟨c, hc, ((sameAt_send hfix w).view .dbTrx).trans hget⟩
  · exact ⟨c, hc, hact _⟩

/-- Whatever the interleaving, the row ends up with one of the values that the block sets. -/
private theorem processTransactions_holdsSet (h : NoValidator events txs) {c : ℕ}
    (hc : SetsCommission env events txs a c) {w w' : DBSession}
    (hrun : (processTransactions env order header events txs).run w = (.ok (), w')) :
    HoldsSet env events txs a header.height w' := by
  refine run_interleave_reaches (E := AnyFailure) (I := fun _ => True) (fun p hp => ?_) ?_ trivial
    hrun
  · obtain ⟨i, hi, rfl⟩ := List.mem_mapIdx.mp hp
    have hsends : Confined (CommissionWrite env events txs (a, header.height))
        (processTransaction env header events txs[i] i) :=
      processTransaction_commission h (List.getElem_mem hi) i
    refine All.stable (All.mono hsends ?_)
    rintro u (rfl | ⟨conn, st, hst, rfl⟩) s -
    · exact ⟨trivial, id⟩
    · exact ⟨trivial, hst.holdsSet s⟩
  · obtain ⟨tx, htx, hs, hp, ha⟩ := hc
    obtain ⟨i, hi, rfl⟩ := List.mem_iff_getElem.mp htx
    refine ⟨_, List.mem_mapIdx.mpr ⟨i, hi, rfl⟩, ?_⟩
    have hstatus : getTransactionExecutionStatus txs[i] events = some .successful := hs
    have hok : (indexedTx env i txs[i] .successful).isSuccessful = true := rfl
    rw [processTransaction]
    rw [hstatus, ofOption_some, pure_bind']
    refine Reaches.bind_right (E := AnyFailure) (stable_act fun s _ => ⟨trivial, ?_⟩) fun _ => ?_
    · exact (commissionWrite_of_fixes (Table.upsertRow_fixes (by simp))).holdsSet s
    · rw [applyTransaction_changeCommission hok hp]
      refine reaches_act fun s _ => ⟨c, ⟨_, htx, hs, hp, ha⟩, ?_⟩
      subst ha
      exact (view_send_dbTrx_get _ _ _).trans (Table.upsertRow_act_self _ _ _)

end Apply

/-! ### Blocks in which no revert fails -/

section Revertible

variable {env : Env} {header : BlockHeader} {events : List Event} {order : List ℕ}
  {txs : List Transaction} {tf : IndexedTx} {w w' : DBSession} {c : Cell}

/-- The successful transactions of the block are reverted without fail. -/
private def Revertible (events : List Event) (txs : List Transaction) : Prop :=
  ∀ tx ∈ txs, tx.succeeded events → (∃ c, tx.params = .changeCommission c) ∨
    tx.params = .registerMultisignature [] [] ∨ tx.params.independent = true

private theorem Undoable.revertible {net : Network} {p : ℕ × BlockRow} {db : DB}
    (h : Undoable net p db) (hothers : net.RegistersOnly p) :
    Revertible (net.events p.2.id) (net.block p.2.id).transactions := by
  intro tx htx hs
  rcases hothers tx htx hs with hcmd | hcmd
  · cases hp : tx.params with
    | changeCommission c => exact .inl ⟨c, rfl⟩
    | registerValidator name blsKey pop key => exact absurd hp (h.validators tx htx hs _ _ _ _)
    | registerMultisignature mandatory optional =>
      obtain ⟨rfl, rfl⟩ := List.append_eq_nil_iff.mp (h.members tx htx hs _ _ hp)
      exact .inr (.inl rfl)
    | _ => simp [hp, Command.registers] at hcmd
  · exact .inr (.inr hcmd)

private theorem Revertible.noValidator (h : Revertible events txs) : NoValidator events txs := by
  intro tx htx hs name blsKey pop key hp
  rcases h tx htx hs with ⟨c, hp'⟩ | hp' | hp'
  · simp [hp] at hp'
  · simp [hp] at hp'
  · simp [hp, Command.independent] at hp'

/-- The tables that such transactions write. -/
private theorem Revertible.tables (h : Revertible events txs) {tx : Transaction} (htx : tx ∈ txs)
    (hs : tx.succeeded events) :
    tx.params.tables ⊆ .commissions :: .multisignature :: independentTables := by
  rcases h tx htx hs with ⟨c, hp⟩ | hp | hp
  · simp [hp, Command.tables]
  · simp [hp, Command.tables]
  · intro t ht
    exact List.mem_cons_of_mem _ (List.mem_cons_of_mem _ (Command.independent_tables hp ht))

private theorem applyTransaction_noMembers (hs : tf.isSuccessful = true)
    (hp : tf.params = .registerMultisignature [] []) :
    applyTransaction env header events tf = pure () := by
  have hcmd : applyTransaction env header events tf =
      Pos.applyRegisterMultisignature env tf [] [] := by rw [applyTransaction_eq, applyHook, hp]
  rw [hcmd, Pos.applyRegisterMultisignature, ifSuccessful, if_pos hs]
  rfl

private theorem revertTransaction_noMembers (hs : tf.isSuccessful = true)
    (hp : tf.params = .registerMultisignature [] []) :
    revertTransaction env header events tf = pure () := by
  have hcmd : revertTransaction env header events tf =
      Pos.revertRegisterMultisignature env tf [] [] := by rw [revertTransaction_eq, revertHook, hp]
  rw [hcmd, Pos.revertRegisterMultisignature, ifSuccessful, if_pos hs]
  rfl

private theorem fixes_of_independentTables {conn : Conn} {st : Stmt}
    (hst : Respects (fun _ c => c.table ∈ independentTables) conn st)
    (hc : c.table ∉ independentTables) : st.Fixes c := hst c hc

/-- Processing such transactions registers no token. -/
private theorem Revertible.offTokens (h : Revertible events txs) :
    Confined (Respects fun _ c => ¬ isToken c)
      (processTransactions env order header events txs) := by
  have htables : ∀ c : Cell, c.table ∈ .commissions :: .multisignature :: independentTables →
      ¬ isToken c := by
    intro c hc ht
    rw [isToken] at ht
    simp [ht, independentTables] at hc
  refine Confined.interleave fun p hp => ?_
  obtain ⟨i, hi, rfl⟩ := List.mem_mapIdx.mp hp
  refine processTransaction_sends (fun set => ?_) fun hs => ?_
  · exact Table.respects_point (by simp [isToken, Cell.table])
  · exact applyTransaction_tables fun _ c hc =>
      htables c (h.tables (List.getElem_mem hi) hs hc.2)

/-- The rows that processing such transactions leaves alone. -/
private theorem Revertible.processTransactions_sameAt (h : Revertible events txs)
    (hrun : (processTransactions env order header events txs).run w = (.ok (), w'))
    (hc : c.table ∉ independentTables)
    (hset : ∀ a n, c = .commission a n → n = header.height → ∀ v,
      ¬ SetsCommission env events txs a v) : SameAt c w w' := by
  have hconf : Confined (fun _ st => st.Fixes c)
      (processTransactions env order header events txs) := by
    refine Confined.interleave fun p hp => ?_
    obtain ⟨i, hi, rfl⟩ := List.mem_mapIdx.mp hp
    refine processTransaction_sends (fun set => ?_) fun hs => ?_
    · refine Table.upsertRow_fixes fun heq => hc ?_
      simp [heq, Cell.table, independentTables]
    have hok : (indexedTx env i txs[i] .successful).isSuccessful = true := rfl
    rcases h _ (List.getElem_mem hi) hs with ⟨v, hp⟩ | hp | hp
    · rw [applyTransaction_changeCommission hok hp]
      refine confined_exec (Table.upsertRow_fixes fun heq => ?_)
      exact hset _ _ heq rfl v ⟨_, List.getElem_mem hi, hs, hp, rfl⟩
    · rw [applyTransaction_noMembers hok hp]
      exact confined_pure ()
    · have happly : Confined (Respects fun _ c => c.table ∈ independentTables)
          (applyTransaction env header events (indexedTx env i txs[i] .successful)) :=
        applyTransaction_tables fun _ c hc => Command.independent_tables hp hc.2
      exact Confined.mono happly fun _ _ hst => fixes_of_independentTables hst hc
  simpa only [hrun] using hconf.run_sameAt (fun _ _ hst => hst) w

/-- A fetched transaction of such a block. -/
private theorem Revertible.fetched (h : Revertible events txs) (env : Env)
    (htf : tf ∈ fetched events txs) (hs : tf.isSuccessful = true) :
    (∃ c, tf.params = .changeCommission c ∧ SetsCommission env events txs
      (env.addressFromPublicKey tf.senderPublicKey) c) ∨
      tf.params = .registerMultisignature [] [] ∨ tf.params.independent = true := by
  obtain ⟨tx, htx, rfl, -, hiff⟩ := mem_fetched htf
  rcases h _ htx (hiff.mp hs) with ⟨c, hp⟩ | hp
  · exact .inl ⟨c, hp, _, htx, hiff.mp hs, hp, rfl⟩
  · exact .inr hp

/-- The revert loop runs to its end. -/
private theorem Revertible.revertTransactions_succeeds (h : Revertible events txs) (env : Env)
    (header : BlockHeader) (w : DBSession) :
    (revertTransactions env header events (SwaptoshiService.fetched events txs)).Succeeds w := by
  refine succeeds_serial (I := fun _ => True) (fun p _ => keeps_of_forall (fun _ => trivial) p)
    (fun p hp s _ => ?_) trivial
  obtain ⟨tf, htf, rfl⟩ := List.mem_map.mp hp
  rw [mem_mapOrder] at htf
  by_cases hs : tf.isSuccessful = true
  · rcases h.fetched env htf hs with ⟨c, hp, -⟩ | hp | hp
    · rw [revertTransaction_changeCommission hs hp]
      exact ⟨(), _, rfl⟩
    · rw [revertTransaction_noMembers hs hp]
      exact ⟨(), s, rfl⟩
    · exact revertTransaction_succeeds_of_independent hp
  · rw [revertTransaction_of_failed hs]
    exact ⟨(), s, rfl⟩

/-- The rows that reverting such transactions leaves alone. -/
private theorem Revertible.revertTransactions_sameAt (h : Revertible events txs)
    (hrun : (revertTransactions env header events (SwaptoshiService.fetched events txs)).run w =
      (.ok (), w'))
    (hc : c.table ∉ independentTables)
    (hset : ∀ a n, c = .commission a n → n = header.height → ∀ v,
      ¬ SetsCommission env events txs a v) : SameAt c w w' := by
  have hconf : Confined (fun _ st => st.Fixes c)
      (revertTransactions env header events (SwaptoshiService.fetched events txs)) := by
    refine Confined.serial fun p hp => ?_
    obtain ⟨tf, htf, rfl⟩ := List.mem_map.mp hp
    rw [mem_mapOrder] at htf
    by_cases hs : tf.isSuccessful = true
    · rcases h.fetched env htf hs with ⟨v, hp, hv⟩ | hp | hp
      · rw [revertTransaction_changeCommission hs hp]
        refine confined_exec (Table.deleteRowIf_fixes fun heq => ?_)
        exact hset _ _ heq rfl v hv
      · rw [revertTransaction_noMembers hs hp]
        exact confined_pure ()
      · have hrevert : Confined (Respects fun _ c => c.table ∈ independentTables)
            (revertTransaction env header events tf) :=
          revertTransaction_tables fun _ c hc => Command.independent_tables hp hc.2
        exact Confined.mono hrevert fun _ _ hst => fixes_of_independentTables hst hc
    · rw [revertTransaction_of_failed hs]
      exact confined_pure ()
  simpa only [hrun] using hconf.run_sameAt (fun _ _ hst => hst) w

end Revertible

/-! ### What the jobs do besides -/

section Besides

variable {env : Env} {events : List Event}

/-- The rows that a job may write besides the effects of the transactions: no registration, except
the row of the block's generator, no stake and no token. -/
private def besides (generator : Address) : Conn → Cell → Prop := fun _ c =>
  c.table ∉ [.accounts, .commissions, .multisignature, .stakes, .registeredDexToken] ∧
    (c.table = .validators → c = .validator generator)

private theorem besides_of_table {generator : Address} {conn : Conn} {c : Cell}
    (h : c.table ∉ [.accounts, .commissions, .multisignature, .stakes, .registeredDexToken,
      .validators]) :
    besides generator conn c := by
  simp only [List.mem_cons, List.not_mem_nil, or_false, not_or] at h
  simp [besides, h]

private theorem priceWrites_besides {generator : Address} (conn : Conn) (c : Cell)
    (h : priceWrites conn c) : besides generator conn c := by
  rcases h with h | h | h <;> exact besides_of_table (by simp [h])

private theorem swapWrites_besides {generator : Address} (conn : Conn) (c : Cell)
    (h : swapWrites conn c) : besides generator conn c := by
  cases conn with
  | dbTrx =>
    have ht : c.table = .volume := h
    exact besides_of_table (by simp [ht])
  | default => rcases h with h | h <;> exact besides_of_table (by simp [h])

private theorem indexBlockRest_besides (env : Env) (block : Block) (events : List Event) :
    Confined (Respects (besides block.header.generatorAddress))
      (indexBlockRest env block events) := by
  refine (incrementGeneratedBlocks_confined _ ?_).bind fun _ =>
    (indexBlockEvents_confined ?_ ?_ fun t _ => ?_).bind fun _ =>
    (indexPrices_confined priceWrites_besides).bind fun _ =>
    ((applySwapEvent_confined _ events).widen swapWrites_besides).bind fun _ =>
    Table.confined_upsert ?_
  · simp [besides, Cell.table]
  · rintro c (hc | hc) <;> exact besides_of_table (by simp [hc])
  · simp [besides, Cell.table]
  · exact besides_of_table (by simp [Cell.table])
  · exact besides_of_table (by simp [Cell.table])

private theorem deleteBlockRest_besides (env : Env) (height : ℕ) (row : BlockRow)
    (events : List Event) :
    Confined (Respects (besides row.generatorAddress))
      (deleteBlockRest env height row events) := by
  refine (Table.confined_modify ?_).bind fun _ =>
    (deleteBlockEvents_confined ?_ ?_ fun t _ => ?_).bind fun _ =>
    ((revertSwapEvent_confined _ _).widen swapWrites_besides).bind fun _ =>
    (deletePriceIndex_confined _).widen priceWrites_besides
  · simp [besides, Cell.table]
  · rintro c (hc | hc) <;> exact besides_of_table (by simp [hc])
  · simp [besides, Cell.table, headerOfRow]
  · exact besides_of_table (by simp [Cell.table])

end Besides

/-! ### The columns of a validator that are not counted -/

section Keys

variable {env : Env} {header : BlockHeader} {events : List Event} {a : Address}

/-- Name and keys of a validator. -/
private def keys (r : ValidatorRow) : String × Option String × Option String × Option String :=
  (r.name, r.blsKey, r.proofOfPossession, r.generatorKey)

private theorem validatorRow_ext {r r' : ValidatorRow} (hkeys : keys r = keys r')
    (hcounters : counters r = counters r') : r = r' := by
  obtain ⟨name, bls, pop, key, blocks, commission, rewards⟩ := r
  obtain ⟨name', bls', pop', key', blocks', commission', rewards'⟩ := r'
  simp only [keys, counters, Prod.mk.injEq] at hkeys hcounters
  simp [hkeys, hcounters]

/-- A statement on the transaction that keeps the name and the keys of a validator that is
there. -/
private def KeepsKeys (a : Address) (conn : Conn) (st : Stmt) : Prop :=
  st.Fixes (.validator a) ∨ (conn = .dbTrx ∧ ∀ r : ValidatorRow, ∃ r' : ValidatorRow,
    st.act (.validator a) (some r) = some r' ∧ keys r' = keys r)

private theorem keepsKeys_upsert {b : Address} {set : ValidatorRow → ValidatorRow}
    (hset : ∀ r, keys (set r) = keys r) :
    KeepsKeys a .dbTrx (Table.upsertRow (.validator b) set) := by
  by_cases hb : Cell.validator a = .validator b
  · obtain rfl := Cell.validator.inj hb
    exact .inr ⟨rfl, fun r => ⟨set r, Table.upsertRow_act_self _ _ _, hset r⟩⟩
  · exact .inl (Table.upsertRow_fixes hb)

private theorem keepsKeys_update {b : Address} {f : ValidatorRow → ValidatorRow}
    (hf : ∀ r, keys (f r) = keys r) :
    KeepsKeys a .dbTrx (Table.updateRow (.validator b) f) := by
  by_cases hb : Cell.validator a = .validator b
  · obtain rfl := Cell.validator.inj hb
    exact .inr ⟨rfl, fun r => ⟨f r, Table.updateRow_act_self _ _ _, hf r⟩⟩
  · exact .inl (Table.updateRow_fixes hb)

private theorem keepsKeys_of_confined {p : Prog Unit}
    (hp : Confined (Respects fun _ c => c.table ≠ .validators) p) : Confined (KeepsKeys a) p :=
  Confined.mono hp fun _ _ hst => .inl (hst _ fun h => h rfl)

/-- After such statements the validator is there with its name and keys. -/
private theorem keys_of_run {p : Prog Unit} (hp : Confined (KeepsKeys a) p) {w w' : DBSession}
    (hrun : p.run w = (.ok (), w')) {r : ValidatorRow}
    (hr : (w.view .dbTrx).get (.validator a) = some r) :
    ∃ r' : ValidatorRow, (w'.view .dbTrx).get (.validator a) = some r' ∧ keys r' = keys r := by
  have hkeeps : p.Keeps fun w => ∃ r' : ValidatorRow,
      (w.view .dbTrx).get (.validator a) = some r' ∧ keys r' = keys r := by
    refine All.keeps (All.mono hp fun u hu s hs => ?_)
    obtain ⟨r', hr', hkeys⟩ := hs
    rcases hu with rfl | ⟨conn, st, hst | ⟨rfl, hst⟩, rfl⟩
    · exact ⟨r', hr', hkeys⟩
    · exact ⟨r', ((sameAt_send hst s).view .dbTrx).trans hr', hkeys⟩
    · obtain ⟨r'', hact, hkeys'⟩ := hst r'
      refine ⟨r'', ?_, hkeys'.trans hkeys⟩
      rw [view_send_dbTrx_get, hr', hact]
  simpa only [hrun] using hkeeps.run ⟨r, hr, rfl⟩

private theorem updateGeneratorRewards_keepsKeys {sign : ℤ} :
    Confined (KeepsKeys a) (updateGeneratorRewards sign header events) := by
  unfold updateGeneratorRewards
  dsimp only
  split
  · exact confined_pure ()
  · refine (confined_query _ _).bind fun _ => (confined_query _ _).bind fun _ =>
      (confined_exec (keepsKeys_update fun r => ?_)).bind fun _ =>
      confined_exec (keepsKeys_update fun r => ?_)
    · rfl
    · rfl

private theorem priceWrites_offValidators (conn : Conn) (c : Cell) (h : priceWrites conn c) :
    c.table ≠ .validators := by
  rcases h with h | h | h <;> simp [h]

private theorem swapWrites_offValidators (conn : Conn) (c : Cell) (h : swapWrites conn c) :
    c.table ≠ .validators := by
  cases conn with
  | dbTrx =>
    have ht : c.table = .volume := h
    simp [ht]
  | default => rcases h with h | h <;> simp [h]

private theorem updateTotalLockedAmounts_keepsKeys {sched : List ℕ}
    {changes : List (TokenID × ℤ)} :
    Confined (KeepsKeys a) (updateTotalLockedAmounts sched changes) :=
  keepsKeys_of_confined (updateTotalLockedAmounts_confined sched changes fun _ _ => by
    simp [Cell.table])

private theorem indexBlockRest_keepsKeys {block : Block} :
    Confined (KeepsKeys a) (indexBlockRest env block events) := by
  refine Confined.bind ?_ fun _ => Confined.bind ?_ fun _ => Confined.bind ?_ fun _ =>
    Confined.bind ?_ fun _ => keepsKeys_of_confined (Table.confined_upsert (by simp [Cell.table]))
  · refine Confined.bind (confined_modifyRow (keepsKeys_update fun r => rfl)) fun n => ?_
    split
    · exact confined_exec (keepsKeys_upsert fun r => rfl)
    · exact confined_pure ()
  · rw [indexBlockEvents]
    split
    · exact confined_pure ()
    · refine Confined.bind (keepsKeys_of_confined (indexEvents_confined _ _ ?_)) fun _ =>
        updateGeneratorRewards_keepsKeys.bind fun _ => updateTotalLockedAmounts_keepsKeys
      rintro c (hc | hc) <;> simp [hc]
  · exact keepsKeys_of_confined (indexPrices_confined priceWrites_offValidators)
  · exact keepsKeys_of_confined
      ((applySwapEvent_confined _ events).widen swapWrites_offValidators)

private theorem deleteBlockRest_keepsKeys {height : ℕ} {row : BlockRow} :
    Confined (KeepsKeys a) (deleteBlockRest env height row events) := by
  refine Confined.bind (confined_exec (keepsKeys_update fun r => rfl)) fun _ =>
    Confined.bind ?_ fun _ => Confined.bind ?_ fun _ => ?_
  · rw [deleteBlockEvents]
    split
    · exact confined_pure ()
    · refine Confined.bind (keepsKeys_of_confined (deleteEvents_confined _ ?_)) fun _ =>
        updateGeneratorRewards_keepsKeys.bind fun _ => updateTotalLockedAmounts_keepsKeys
      rintro c (hc | hc) <;> simp [hc]
  · exact keepsKeys_of_confined
      ((revertSwapEvent_confined _ events).widen swapWrites_offValidators)
  · exact keepsKeys_of_confined ((deletePriceIndex_confined _).widen priceWrites_offValidators)

end Keys

/-! ### The two jobs -/

section Jobs

variable {net : Network} {env env' : Env} {view : DeletionView} {db db₁ db₂ : DB} {last : ℕ}
  {p : ℕ × BlockRow}

/-- A job has indexed the block on top; the databases are those before and after it. -/
structure IndexedOnTop (net : Network) (env : Env) (p : ℕ × BlockRow) (db db₁ : DB) : Prop where
  configured : net.Configures env
  above : net.genesisHeight < p.1
  height : (net.block p.2.id).header.height = p.1
  row : p.2 = blockRow (net.block p.2.id) (net.events p.2.id)
  stored : db₁.get (.block p.1) = some p.2
  top : getBlocksToDelete [p.1] db₁ = [p]
  recorded : Recorded net db₁
  run : ∃ order assets w, (indexBlockTrx env order assets (net.block p.2.id)
    (net.events p.2.id)).run (ofStore db) = (.ok (), w) ∧ w.commit.committed = db₁

/-- From the highest height on there is one block. -/
private theorem getBlocksToDelete_last (h : net.GapFree last db) {row : BlockRow}
    (hrow : db.get (.block last) = some row) : getBlocksToDelete [last] db = [(last, row)] := by
  refine descending_ext (getBlocksToDelete_descending _ _) (List.pairwise_singleton _ _) ?_
  rintro ⟨n, r⟩
  rw [mem_getBlocksToDelete, List.mem_singleton, Prod.mk.injEq]
  constructor
  · rintro ⟨lowest, hmin, hle, hr⟩
    obtain rfl : last = lowest := by simpa using hmin
    obtain rfl : n = last := le_antisymm ((h.rows n).mp (by simp [hr])).2 hle
    exact ⟨rfl, Option.some_injective _ (hr.symm.trans hrow)⟩
  · rintro ⟨rfl, rfl⟩
    exact ⟨n, rfl, le_rfl, hrow⟩

/-- A job that pushes a block on the stack has indexed it. -/
theorem indexedOnTop_of_push {s : Ledger} {order : List ℕ} {node : NodeView}
    {assets : GenesisAssets} {events : Block → List Event} {fault : Option ℕ} {jobHeight : ℕ}
    (h₀ : net.GapFree last s.db) (hrec : Recorded net s.db)
    (hj : (Job.index env order node assets events fault jobHeight).Answered net)
    (hfresh : (Job.index env order node assets events fault jobHeight).Fresh net s)
    (hpush : net.indexedBlocks ((Job.index env order node assets events fault jobHeight).run s).db =
      p :: net.indexedBlocks s.db) :
    IndexedOnTop net env p s.db
      ((Job.index env order node assets events fault jobHeight).run s).db := by
  have ho := Job.outcome hj h₀
  have hrecorded := ho.recorded hfresh h₀ hrec
  generalize ((Job.index env order node assets events fault jobHeight).run s).db = db₁
    at ho hrecorded hpush ⊢
  cases ho with
  | @indexed _ _ _ _ _ _ _ block w henv hchosen hheight hblock hrun hnew hold =>
    rw [indexedBlocks_of_indexed h₀ hnew hold] at hpush
    obtain rfl : (last + 1, blockRow block (net.events block.header.id)) = p :=
      (List.cons.inj hpush).1
    have hid : (blockRow block (net.events block.header.id)).id = block.header.id := rfl
    have hgap : net.GapFree (last + 1) w.commit.committed := by
      refine h₀.extend ?_ hnew hold
      rw [Network.heightOf, hid, hblock, hheight]
    have hgenesis := h₀.genesis_le
    refine ⟨henv, ?_, ?_, ?_, hnew, getBlocksToDelete_last hgap hnew, hrecorded, order, assets, w,
      ?_, rfl⟩
    · exact Nat.lt_succ_of_le hgenesis
    · rw [hid, hblock, hheight]
    · rw [hid, hblock]
    · rw [hid, hblock]
      exact hrun
  | idle hsame =>
    rw [hsame.indexedBlocks_eq] at hpush
    exact absurd (congrArg List.length hpush) (by simp)

namespace IndexedOnTop

variable (h : IndexedOnTop net env p db db₁)

include h

theorem ne_genesisHeight : (net.block p.2.id).header.height ≠ env.genesisHeight := by
  rw [h.height, h.configured.genesisHeight]
  exact h.above.ne'

theorem generatorAddress : (net.block p.2.id).header.generatorAddress = p.2.generatorAddress :=
  (congrArg BlockRow.generatorAddress h.row).symm

/-- Deleting the block reverts its transactions, deletes their rows, does the rest, and deletes the
row of the block. -/
theorem deleteIndexedBlocks_iff (hview : net.Serves view)
    (hserved : (view.blockByID p.2.id).isSome) :
    deleteIndexedBlocks env' view none [p.1] db₁ = (.ok (), db₂) ↔
      ∃ v w, (revertTransactions env' (headerOfRow p.1 p.2) (net.events p.2.id)
          (fetched (net.events p.2.id) (net.block p.2.id).transactions)).run (ofStore db₁) =
            (.ok (), v) ∧
        (deleteBlockRest env' p.1 p.2 (net.events p.2.id)).run
          (send .dbTrx (Table.deleteWhere (transactionsOfBlock p.2.id v.committed)) v) =
            (.ok (), w) ∧
        (send .dbTrx (Table.deleteWhere (blocksWithIDs [p.2.id])) w).commit.committed = db₂ := by
  have hfetch := h.recorded.getTransactionsByBlockID_fetched h.above h.stored hview hserved
  have hstored : (ofStore db₁).committed.get (.block p.1) = some p.2 := h.stored
  rw [deleteIndexedBlocks, transact_ok, h.top]
  constructor
  · rintro ⟨-, w, hrun, rfl⟩
    obtain ⟨⟨⟩, u, hloop, hlast⟩ := Async.run_bind_ok.mp hrun
    obtain ⟨⟨⟩, u', hblock, hu⟩ := Async.run_bind_ok.mp hloop
    obtain rfl : u' = u := (Prod.ext_iff.mp hu).2
    obtain ⟨txs, v, htxs, hv, hrest⟩ := deleteBlock_run (by rw [hstored]; rfl) hblock
    obtain rfl : fetched (net.events p.2.id) (net.block p.2.id).transactions = txs :=
      Option.some_injective _ (hfetch.symm.trans htxs)
    rw [hview.events] at hv hrest
    obtain rfl := (Prod.ext_iff.mp hlast).2
    exact ⟨v, u', hv, hrest, rfl⟩
  · rintro ⟨v, w, hv, hrest, rfl⟩
    have hblock : (deleteBlock env' view p.1 p.2).run (ofStore db₁) = (.ok (), w) := by
      rw [deleteBlock, Table.run_find_bind, view_ofStore]
      rw [h.stored, if_neg (by simp), run_query_bind, view_ofStore, hfetch, ofOption_some,
        pure_bind', hview.events]
      exact Async.run_bind_ok.mpr ⟨(), v, hv, hrest⟩
    refine ⟨rfl, _, Async.run_bind_ok.mpr ⟨(), w, ?_, rfl⟩, rfl⟩
    exact Async.run_bind_ok.mpr ⟨(), w, hblock, rfl⟩

omit h in
/-- Once a row is left alone by the rest of the deletion, the deletion leaves it as reverting the
transactions did. -/
theorem get_of_deleted {v w : DBSession} {c : Cell} (hblock : c.table ≠ .blocks)
    (htx : c.table ≠ .transactions) (hc : ¬ besides p.2.generatorAddress .dbTrx c)
    (hrest : (deleteBlockRest env' p.1 p.2 (net.events p.2.id)).run
      (send .dbTrx (Table.deleteWhere (transactionsOfBlock p.2.id v.committed)) v) = (.ok (), w)) :
    (send .dbTrx (Table.deleteWhere (blocksWithIDs [p.2.id])) w).commit.committed.get c =
      (v.view .dbTrx).get c := by
  have hrows : SameAt c v
      (send .dbTrx (Table.deleteWhere (transactionsOfBlock p.2.id v.committed)) v) := by
    refine sameAt_send (Table.deleteWhere_fixes fun r => ?_) v
    cases c with
    | transaction id => exact absurd rfl htx
    | _ => rfl
  generalize send .dbTrx (Table.deleteWhere (transactionsOfBlock p.2.id v.committed)) v = t
    at hrest hrows
  have hsame : SameAt c t w := by
    have hrun := (deleteBlockRest_besides env' p.1 p.2 (net.events p.2.id)).run_sameAt
      (fun _ _ hst => hst c hc) t
    rwa [hrest] at hrun
  have hrow : SameAt c w (send .dbTrx (Table.deleteWhere (blocksWithIDs [p.2.id])) w) := by
    refine sameAt_send (Table.deleteWhere_fixes fun r => ?_) w
    cases c with
    | block n => exact absurd rfl hblock
    | _ => rfl
  exact ((hrows.trans hsame).trans hrow).view .dbTrx

/-- After indexing and deleting the block, a commission row that it sets is gone. -/
private theorem commission_gone (henv' : net.Configures env')
    (hno : NoValidator (net.events p.2.id) (net.block p.2.id).transactions) {v w : DBSession}
    (hv : (revertTransactions env' (headerOfRow p.1 p.2) (net.events p.2.id)
      (fetched (net.events p.2.id) (net.block p.2.id).transactions)).run (ofStore db₁) =
        (.ok (), v))
    (hrest : (deleteBlockRest env' p.1 p.2 (net.events p.2.id)).run
      (send .dbTrx (Table.deleteWhere (transactionsOfBlock p.2.id v.committed)) v) = (.ok (), w))
    {a : Address} {c : ℕ}
    (hc : SetsCommission env (net.events p.2.id) (net.block p.2.id).transactions a c) :
    (send .dbTrx (Table.deleteWhere (blocksWithIDs [p.2.id])) w).commit.committed.get
      (.commission a p.1) = none := by
  obtain ⟨order, assets, u, hrun, hdb₁⟩ := h.run
  obtain ⟨t, ht, hindexed⟩ := indexBlockTrx_run_of_ne h.ne_genesisHeight hrun
  -- Indexing leaves a value that one of the transactions has set ...
  obtain ⟨c', ⟨tx, htx, hs, hp, ha⟩, hget⟩ := processTransactions_holdsSet hno hc ht
  have hkept : SameAt (.commission a p.1) t u := by
    have hsame := (indexBlockRest_besides env (net.block p.2.id) (net.events p.2.id)).run_sameAt
      (fun _ _ hst => hst (.commission a p.1) (by simp [besides, Cell.table])) t
    rwa [hindexed] at hsame
  have hset : db₁.get (.commission a p.1) = some ⟨c'⟩ := by
    rw [← hdb₁]
    rw [h.height] at hget
    exact (hkept.view .dbTrx).trans hget
  -- ... and the revert of that transaction removes it.
  have hreverted : CommissionReverted env' a p.1 _ (ofStore db₁) v :=
    commissionReverted_revertTransactions (ofStore db₁) () v hv
  obtain ⟨tf, htf, rfl, -, hok⟩ := exists_fetched htx hs
  have ha' : env'.addressFromPublicKey tf.senderPublicKey = a := by
    rw [henv'.addressFromPublicKey, ← h.configured.addressFromPublicKey, ha]
  rw [get_of_deleted (by simp [Cell.table]) (by simp [Cell.table]) (by simp [besides, Cell.table])
    hrest]
  exact hreverted.2 c' hset ⟨tf, mem_mapOrder.mpr htf, hok, hp, ha'⟩

/-- A block that is undone has no transaction whose revert throws, and sets no commission row that
was there before. -/
theorem undoable_of_undone (henv' : net.Configures env') (hview : net.Serves view)
    (hserved : (view.blockByID p.2.id).isSome) (hundone : Undone env' view db p db₁) :
    Undoable net p db := by
  obtain ⟨db₂, hdelete, hsame⟩ := hundone
  obtain ⟨v, w, hv, hrest, hdb₂⟩ := (h.deleteIndexedBlocks_iff hview hserved).mp hdelete
  -- Every successful transaction was reverted, in some state.
  have hall : ∀ tx ∈ (net.block p.2.id).transactions, tx.succeeded (net.events p.2.id) →
      ∃ tf : IndexedTx, ∃ s, tf.toTransaction = tx ∧ tf.senderAddress = none ∧
        tf.isSuccessful = true ∧
        (revertTransaction env' (headerOfRow p.1 p.2) (net.events p.2.id) tf).Succeeds s := by
    intro tx htx hs
    obtain ⟨tf, htf, heq, hsender, hok⟩ := exists_fetched htx hs
    obtain ⟨s, -, hsucceeds⟩ := Succeeds.mem_serial (I := fun _ => True)
      (fun q _ => keeps_of_forall (fun _ => trivial) q) ⟨(), v, hv⟩ trivial _
      (List.mem_map_of_mem (mem_mapOrder.mpr htf))
    exact ⟨tf, s, heq, hsender, hok, hsucceeds⟩
  have hvalidators : NoValidator (net.events p.2.id) (net.block p.2.id).transactions := by
    intro tx htx hs name blsKey pop key hp
    obtain ⟨tf, s, rfl, hsender, hok, hsucceeds⟩ := hall tx htx hs
    rw [revertTransaction_eq, revertHook, hp] at hsucceeds
    exact revertRegisterValidator_fails hok hsender hsucceeds
  refine ⟨hvalidators, fun tx htx hs mandatory optional hp => ?_, fun tx htx hs c hp => ?_⟩
  · obtain ⟨tf, s, rfl, hsender, hok, hsucceeds⟩ := hall tx htx hs
    rw [revertTransaction_eq, revertHook, hp] at hsucceeds
    exact (revertRegisterMultisignature_succeeds hok hsender _ _).mp hsucceeds
  · rw [← hsame.commissions, ← hdb₂]
    refine h.commission_gone henv' hvalidators hv hrest ⟨tx, htx, hs, hp, ?_⟩
    rw [h.configured.addressFromPublicKey]

/-- Once a row is left alone by the rest of the indexing, the job leaves it as processing the
transactions did. -/
private theorem exists_processed : ∃ order t,
    (processTransactions env order (net.block p.2.id).header (net.events p.2.id)
      (net.block p.2.id).transactions).run (ofStore db) = (.ok (), t) ∧
    ∀ c, ¬ besides p.2.generatorAddress .dbTrx c → db₁.get c = (t.view .dbTrx).get c := by
  obtain ⟨order, assets, u, hrun, hdb₁⟩ := h.run
  obtain ⟨t, ht, hindexed⟩ := indexBlockTrx_run_of_ne h.ne_genesisHeight hrun
  refine ⟨order, t, ht, fun c hc => ?_⟩
  have hsame := (indexBlockRest_besides env (net.block p.2.id) (net.events p.2.id)).run_sameAt
      (fun _ _ hst => hst c (by rwa [h.generatorAddress])) t
  rw [hindexed] at hsame
  rw [← hdb₁]
  exact hsame.view .dbTrx

private theorem setsCommission_env (henv' : net.Configures env') {a : Address} {c : ℕ}
    (hc : SetsCommission env' (net.events p.2.id) (net.block p.2.id).transactions a c) :
    SetsCommission env (net.events p.2.id) (net.block p.2.id).transactions a c := by
  obtain ⟨tx, htx, hs, hp, ha⟩ := hc
  refine ⟨tx, htx, hs, hp, ?_⟩
  rw [h.configured.addressFromPublicKey, ← henv'.addressFromPublicKey, ha]

section Revertible

variable (hrev : Revertible (net.events p.2.id) (net.block p.2.id).transactions)

include hrev

/-- The rows that indexing a block of registrations leaves alone. -/
private theorem get_of_indexed {c : Cell} (hc : c.table ∉ independentTables)
    (hbesides : ¬ besides p.2.generatorAddress .dbTrx c)
    (hset : ∀ a n, c = .commission a n → n = p.1 → ∀ v,
      ¬ SetsCommission env (net.events p.2.id) (net.block p.2.id).transactions a v) :
    db₁.get c = db.get c := by
  obtain ⟨order, t, ht, hkept⟩ := h.exists_processed
  have hsame : SameAt c (ofStore db) t :=
    hrev.processTransactions_sameAt ht hc (by rwa [h.height])
  rw [hkept c hbesides, hsame.view .dbTrx, view_ofStore]

private theorem lookedUp : LookedUp env (net.events p.2.id) db := by
  obtain ⟨order, assets, u, hrun, -⟩ := h.run
  exact lookedUp_of_indexed h.ne_genesisHeight hrev.offTokens hrun

/-- Deleting such a block completes. -/
private theorem deletion_succeeds (hdecode : env'.decodePoolAddress = env.decodePoolAddress)
    (hview : net.Serves view) (hserved : (view.blockByID p.2.id).isSome) :
    ∃ db₂, deleteIndexedBlocks env' view none [p.1] db₁ = (.ok (), db₂) := by
  have hlooked : LookedUp env' (net.events p.2.id) db := by
    obtain ⟨htopics, htokens⟩ := h.lookedUp hrev
    refine ⟨htopics, fun e he => ?_⟩
    rw [TokensKnown, hdecode]
    exact htokens e he
  obtain ⟨⟨⟩, v, hv⟩ := hrev.revertTransactions_succeeds env' (headerOfRow p.1 p.2)
    (ofStore db₁)
  -- The tokens are those before the block.
  have htokens : Shows .dbTrx isToken db
      (send .dbTrx (Table.deleteWhere (transactionsOfBlock p.2.id v.committed)) v) := by
    intro c hc
    have htable : c.table = .registeredDexToken := hc
    have hnot : ∀ a n, c ≠ .commission a n := by
      rintro a n rfl
      simp [Cell.table] at htable
    have hindexed : db₁.get c = db.get c :=
      h.get_of_indexed hrev (by simp [htable, independentTables]) (by simp [besides, htable])
        fun a n heq => absurd heq (hnot a n)
    have hreverted : SameAt c (ofStore db₁) v :=
      hrev.revertTransactions_sameAt hv (by simp [htable, independentTables])
        fun a n heq => absurd heq (hnot a n)
    have hdeleted : SameAt c v
        (send .dbTrx (Table.deleteWhere (transactionsOfBlock p.2.id v.committed)) v) := by
      refine sameAt_send (Table.deleteWhere_fixes fun r => ?_) v
      cases c with
      | transaction id => simp [Cell.table] at htable
      | _ => rfl
    exact ((hreverted.trans hdeleted).view .dbTrx).trans hindexed
  obtain ⟨⟨⟩, w, hrest⟩ := deleteBlockRest_succeeds hlooked p.1 p.2 htokens
  exact ⟨_, (h.deleteIndexedBlocks_iff hview hserved).mpr ⟨v, w, hv, hrest, rfl⟩⟩

/-- The rows that indexing and deleting such a block leave alone. -/
private theorem get_of_both (henv' : net.Configures env') (hview : net.Serves view)
    (hserved : (view.blockByID p.2.id).isSome)
    (hdelete : deleteIndexedBlocks env' view none [p.1] db₁ = (.ok (), db₂)) {c : Cell}
    (hblock : c.table ≠ .blocks) (hc : c.table ∉ independentTables)
    (hbesides : ¬ besides p.2.generatorAddress .dbTrx c)
    (hset : ∀ a n, c = .commission a n → n = p.1 → ∀ v,
      ¬ SetsCommission env (net.events p.2.id) (net.block p.2.id).transactions a v) :
    db₂.get c = db.get c := by
  obtain ⟨v, w, hv, hrest, rfl⟩ := (h.deleteIndexedBlocks_iff hview hserved).mp hdelete
  have htx : c.table ≠ .transactions := by
    intro heq
    simp [heq, independentTables] at hc
  have hreverted : SameAt c (ofStore db₁) v := by
    refine hrev.revertTransactions_sameAt hv hc fun a n heq hn v hv => ?_
    exact hset a n heq hn v (h.setsCommission_env henv' hv)
  rw [get_of_deleted hblock htx hbesides hrest, hreverted.view .dbTrx, view_ofStore,
    h.get_of_indexed hrev hc hbesides hset]

omit h in
/-- Without registrations of keys nothing but the block itself is taken off the counters. -/
private theorem counterUndos_eq :
    net.counterUndos db₁ p.2.generatorAddress p =
      [.taken (blockCounters db₁ (headerOfRow p.1 p.2) (net.events p.2.id))] := by
  have hkeys : ∀ tx ∈ mapOrder (net.block p.2.id).transactions,
      net.keyUndos p.2.id p.2.generatorAddress tx = [] := by
    intro tx htx
    have hnone : net.keyUndo p.2.id tx = none := by
      rw [Network.keyUndo]
      split
      · rename_i hs
        rcases hrev tx (mem_mapOrder.mp htx) hs with ⟨c, hp⟩ | hp | hp
        · rw [hp]
        · rw [hp]
        · cases hcmd : tx.params <;> simp [hcmd, Command.independent] at hp ⊢
      · rfl
    simp [Network.keyUndos, hnone]
  rw [Network.counterUndos, List.flatMap_eq_nil_iff.mpr hkeys, List.nil_append, blockUndos,
    if_pos (by rfl)]

/-- The block counts the same for its generator when it is deleted. -/
private theorem blockCounters_deleted :
    blockCounters db₁ (headerOfRow p.1 p.2) (net.events p.2.id) =
      countedFor p.2.generatorAddress db (net.block p.2.id).header (net.events p.2.id) := by
  have hcommissions : ∀ k < p.1, db₁.get (.commission p.2.generatorAddress k) =
      db.get (.commission p.2.generatorAddress k) := by
    intro k hk
    refine h.get_of_indexed hrev (by simp [Cell.table, independentTables])
      (by simp [besides, Cell.table]) fun a n heq hn v _ => ?_
    obtain ⟨-, rfl⟩ := Cell.commission.inj heq
    exact hk.ne hn
  have hstakes : ∀ staker, db₁.get (.stake p.2.generatorAddress staker) =
      db.get (.stake p.2.generatorAddress staker) := fun staker =>
    h.get_of_indexed hrev (by simp [Cell.table, independentTables])
      (by simp [besides, Cell.table]) (by simp)
  have hgenerator : (headerOfRow p.1 p.2).generatorAddress = p.2.generatorAddress := rfl
  have hheight : (headerOfRow p.1 p.2).height = p.1 := rfl
  rw [countedFor, if_pos h.generatorAddress, blockCounters_eq_calc, blockCounters_eq_calc,
    hgenerator, hheight, h.generatorAddress, h.height, calcCommissionAmount_congr hcommissions,
    calcSelfStakeReward_congr hstakes]

/-- Indexing counts the block for its generator, and deleting it takes the same off again. -/
private theorem counters_of_both (henv' : net.Configures env') (hview : net.Serves view)
    (hdelete : deleteIndexedBlocks env' view none [p.1] db₁ = (.ok (), db₂)) :
    countersOf (db₂.get (.validator p.2.generatorAddress)) =
      some (countersAt db p.2.generatorAddress) := by
  obtain ⟨order, assets, u, hrun, rfl⟩ := h.run
  obtain ⟨hsum, hpresent⟩ := counted_of_indexed (v := p.2.generatorAddress) h.ne_genesisHeight hrun
  obtain ⟨-, w, hw, rfl⟩ := transact_ok.mp hdelete
  rw [h.top] at hw
  have hdeleted := countersOf_of_deleted (v := p.2.generatorAddress) henv' hview h.recorded
    (fun n r (hp : (n, r) ∈ [p]) => by
      obtain rfl : (n, r) = p := by simpa using hp
      exact ⟨h.above, h.stored⟩) hw
  have horder : mapOrder [p] = [p] := rfl
  rw [horder, List.flatMap_singleton, counterUndos_eq hrev, h.blockCounters_deleted hrev]
    at hdeleted
  have hcounted : countedFor p.2.generatorAddress db (net.block p.2.id).header
      (net.events p.2.id) ≠ 0 := by
    rw [countedFor, if_pos h.generatorAddress]
    exact fun hzero => one_ne_zero (congrArg Prod.fst hzero)
  obtain ⟨o, ho⟩ := Option.isSome_iff_exists.mp (hpresent (.inr hcounted))
  have ho' : o = countersAt db p.2.generatorAddress +
      countedFor p.2.generatorAddress db (net.block p.2.id).header (net.events p.2.id) := by
    rw [← Option.getD_some (a := o) (b := 0)]
    rwa [ho] at hsum
  rw [hdeleted, ho, ho']
  exact congrArg some (add_sub_cancel_right _ _)

/-- The generator keeps its name and keys, if it was there before the block. -/
private theorem keys_of_both (hview : net.Serves view)
    (hserved : (view.blockByID p.2.id).isSome)
    (hdelete : deleteIndexedBlocks env' view none [p.1] db₁ = (.ok (), db₂)) {r : ValidatorRow}
    (hr : db.get (.validator p.2.generatorAddress) = some r) :
    ∃ r' : ValidatorRow, db₂.get (.validator p.2.generatorAddress) = some r' ∧
      keys r' = keys r := by
  obtain ⟨v, w, hv, hrest, rfl⟩ := (h.deleteIndexedBlocks_iff hview hserved).mp hdelete
  obtain ⟨order, assets, u, hrun, rfl⟩ := h.run
  obtain ⟨t, ht, hindexed⟩ := indexBlockTrx_run_of_ne h.ne_genesisHeight hrun
  have hprocessed : SameAt (.validator p.2.generatorAddress) (ofStore db) t :=
    hrev.processTransactions_sameAt ht (by simp [Cell.table, independentTables]) (by simp)
  obtain ⟨r₁, hr₁, hkeys₁⟩ := keys_of_run indexBlockRest_keepsKeys hindexed
    ((hprocessed.view .dbTrx).trans hr)
  have hreverted : SameAt (.validator p.2.generatorAddress) (ofStore u.commit.committed) v :=
    hrev.revertTransactions_sameAt hv (by simp [Cell.table, independentTables]) (by simp)
  have hrows : SameAt (.validator p.2.generatorAddress) v
      (send .dbTrx (Table.deleteWhere (transactionsOfBlock p.2.id v.committed)) v) :=
    sameAt_send (Table.deleteWhere_fixes fun _ => rfl) v
  obtain ⟨r₂, hr₂, hkeys₂⟩ := keys_of_run deleteBlockRest_keepsKeys hrest
    (((hreverted.trans hrows).view .dbTrx).trans hr₁)
  have hlast : SameAt (.validator p.2.generatorAddress) w
      (send .dbTrx (Table.deleteWhere (blocksWithIDs [p.2.id])) w) :=
    sameAt_send (Table.deleteWhere_fixes fun _ => rfl) w
  exact ⟨r₂, (hlast.view .dbTrx).trans hr₂, hkeys₂.trans hkeys₁⟩

/-- Deleting the block restores the registrations. -/
private theorem sameRegistrations (hundoable : Undoable net p db) (henv' : net.Configures env')
    (hview : net.Serves view) (hserved : (view.blockByID p.2.id).isSome)
    (hgenerator : (db.get (.validator p.2.generatorAddress)).isSome)
    (hdelete : deleteIndexedBlocks env' view none [p.1] db₁ = (.ok (), db₂)) :
    SameRegistrations db db₂ := by
  have hboth : ∀ c : Cell, c.table ∉ .blocks :: independentTables →
      ¬ besides p.2.generatorAddress .dbTrx c →
      (∀ a n, c = .commission a n → n = p.1 → ∀ v,
        ¬ SetsCommission env (net.events p.2.id) (net.block p.2.id).transactions a v) →
      db₂.get c = db.get c := fun c hc =>
    h.get_of_both hrev henv' hview hserved hdelete (fun heq => hc (by simp [heq]))
      fun hmem => hc (List.mem_cons_of_mem _ hmem)
  refine ⟨fun a => ?_, fun a => ?_, fun a n => ?_, fun id => ?_⟩
  · have hrow : db₂.get (.account a) = db.get (.account a) :=
      hboth _ (by simp [Cell.table, independentTables]) (by simp [besides, Cell.table]) (by simp)
    rw [registrationAt, registrationAt, hrow]
  · by_cases ha : a = p.2.generatorAddress
    · -- The row of the generator is written by both jobs.
      subst ha
      obtain ⟨r, hr⟩ := Option.isSome_iff_exists.mp hgenerator
      obtain ⟨r', hr', hkeys⟩ := h.keys_of_both hrev hview hserved hdelete hr
      have hcounters := h.counters_of_both hrev henv' hview hdelete
      rw [countersAt, hr', hr] at hcounters
      rw [hr', hr]
      exact congrArg some (validatorRow_ext hkeys (Option.some_injective _ hcounters))
    · refine hboth _ (by simp [Cell.table, independentTables]) ?_ (by simp)
      simp [besides, Cell.table, ha]
  · by_cases hset : n = p.1 ∧ ∃ c, SetsCommission env (net.events p.2.id)
        (net.block p.2.id).transactions a c
    · -- The revert removes the row, and it was not there before the block.
      obtain ⟨rfl, c, hc⟩ := hset
      obtain ⟨v, w, hv, hrest, rfl⟩ := (h.deleteIndexedBlocks_iff hview hserved).mp hdelete
      rw [h.commission_gone henv' hrev.noValidator hv hrest hc]
      obtain ⟨tx, htx, hs, hp, rfl⟩ := hc
      rw [h.configured.addressFromPublicKey]
      exact (hundoable.commissions tx htx hs c hp).symm
    · refine hboth _ (by simp [Cell.table, independentTables]) (by simp [besides, Cell.table])
        fun a' n' heq hn v hv => hset ?_
      obtain ⟨rfl, rfl⟩ := Cell.commission.inj heq
      exact ⟨hn, v, hv⟩
  · exact hboth _ (by simp [Cell.table, independentTables]) (by simp [besides, Cell.table])
      (by simp)

end Revertible

end IndexedOnTop

end Jobs

/-! ### A validator, a group and a commission -/

/-- A network whose block `a` contains the given transactions, all of them successful. -/
def registrationNetwork (txs : List Transaction) : Network :=
  twoBlockNetwork (fun id => if id = "a" then txs else []) fun id => if id = "a" then
    txs.map fun tx =>
      ⟨tx.id ++ "Event", 0, 1, [txTopic tx.id], .commandExecutionResult tx.module true⟩ else []

/-- The node and the event store answer with what belongs to the identifiers. -/
def Network.servingView (net : Network) : DeletionView :=
  ⟨fun id => some (net.block id), net.events, fun _ => []⟩

/-- Index the block `a`. -/
def indexRegistrations (txs : List Transaction) (s : Ledger) : DB :=
  ((registrationNetwork txs).indexNext.run s).db

/-- Delete it again. -/
def deleteRegistrations (txs : List Transaction) (s : Ledger) : Except Failure Unit × DB :=
  deleteIndexedBlocks default (registrationNetwork txs).servingView none [1]
    (indexRegistrations txs s)

/-- The row of the block `a`. -/
def registrationRow (txs : List Transaction) : BlockRow :=
  blockRow ((registrationNetwork txs).block "a") ((registrationNetwork txs).events "a")

/-- The generator of the block was in `validators` before. -/
def generatorLedger : Ledger :=
  ⟨(Table.upsertRow (.validator "generator") fun r => { r with name := "generator" } : Stmt).exec
    genesisLedger.db, fun _ => none⟩

/-- A change of commission. -/
def commissionTx : Transaction :=
  ⟨"t", "pos", "changeCommission", .changeCommission 500, "alice", 0, 0, 0, 0, by decide⟩

/-- A token transfer in the same block. -/
def otherTransferTx : Transaction :=
  ⟨"u", "token", "transfer", .tokenTransfer ⟨"kly", 7, "carol", ""⟩, "bob", 0, 0, 0, 0, by decide⟩

/-- A registration of a validator. -/
def validatorTx : Transaction :=
  ⟨"t", "pos", "registerValidator", .registerValidator "alice" "bls" "pop" "key", "alice", 0, 0, 0,
    0, by decide⟩

/-- A registration of a group with one member. -/
def groupTx : Transaction :=
  ⟨"t", "auth", "registerMultisignature", .registerMultisignature ["bob"] [], "alice", 0, 0, 0, 0,
    by decide⟩

end SwaptoshiService
