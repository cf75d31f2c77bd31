import SwaptoshiService.Processor.Dispatch

/-!
# Which tables the processors write

The footprints of all processors, read off table by table. Only `mint`, `increaseLiquidity` and
`decreaseLiquidity` send statements on the default connection, and only to `tick` and `pool`;
they leave the registered tokens alone. Only `stake` changes `stakes` and the key-value table,
and there only the two staking totals. No processor writes to `blocks`, to the event tables, or
to the price and volume tables.
-/

namespace SwaptoshiService

open Session

/-- The commands that change the liquidity of a pool. -/
def Command.isLiquidity : Command → Bool
  | .dexMint _ _ _ => true
  | .dexIncreaseLiquidity _ => true
  | .dexDecreaseLiquidity _ => true
  | _ => false

/-- The command is `pos:stake`. -/
def Command.isStake : Command → Bool
  | .stake _ => true
  | _ => false

/-- The rows of the registered tokens. -/
def isToken (c : Cell) : Prop := c.table = .registeredDexToken

/-- The tables that processors write on the transaction. -/
def processorTables : List TableName :=
  [.transactions, .validators, .accounts, .commissions, .stakes, .multisignature,
    .blockchainApps, .ccu, .keyValueStore, .registeredDexToken, .pool, .position, .tvl,
    .tokenFactory, .tokenMetadata]

/-- The rows a processor may write through each connection. -/
def processorWrites (env : Env) (cmd : Command) : Conn → Cell → Prop
  | .default, c => cmd.isLiquidity ∧ (c.table = .tick ∨ c.table = .pool)
  | .dbTrx, c => c.table ∈ processorTables ∧ (c.table = .stakes → cmd.isStake) ∧
      (c.table = .keyValueStore → cmd.isStake ∧
        (c = .kv (.totalStaked env.posTokenID) ∨ c = .kv (.totalSelfStaked env.posTokenID))) ∧
      (isToken c → cmd.isLiquidity = false)

/-- The touches that `processorWrites` has room for. -/
private def Permits (env : Env) (cmd : Command) : Touch → Prop
  | .read _ _ => True
  | .scan _ _ => True
  | .set conn c => processorWrites env cmd conn c
  | .add conn c => processorWrites env cmd conn c
  | .syncPool => cmd.isLiquidity

variable {env : Env} {header : BlockHeader} {events : List Event} {tx : IndexedTx}

private theorem commandTouches_permits :
    ∀ t ∈ commandTouches env header events tx, Permits env tx.params t := by
  rw [commandTouches]
  cases tx.params <;>
    simp only [mintTouches, liquidityTouches, tvlTouches, tickTouches, createPoolTouches,
      stakeTouches, tokenCreateTouches, setAttributesTouches, List.forall_mem_append,
      List.forall_mem_cons, List.forall_mem_map, List.forall_mem_flatMap, List.not_mem_nil,
      IsEmpty.forall_iff, implies_true, and_true]
    <;> simp [Permits, processorWrites, isToken, Cell.table, processorTables, Command.isLiquidity,
      Command.isStake]

/-- Every row a processor writes is one its command may write. -/
theorem writes_applyTouches {conn : Conn} {c : Cell}
    (h : writes (applyTouches env header events tx) conn c) :
    tx.isSuccessful = true ∧ processorWrites env tx.params conn c := by
  rw [applyTouches] at h
  split at h
  · refine ⟨‹_›, ?_⟩
    rcases h with h | h | ⟨h, rfl, hc⟩
    · exact commandTouches_permits _ h
    · exact commandTouches_permits _ h
    · exact ⟨commandTouches_permits _ h, .inr hc⟩
  · simp [writes] at h

/-- A program within a list of touches changes only the rows listed as written. -/
theorem Within.confined {α : Type} {F : List Touch} {p : Prog α} (h : Within env F p)
    {W : Conn → Cell → Prop} (hW : ∀ conn c, writes F conn c → W conn c) :
    Confined (Respects W) p :=
  Confined.mono (Footprint.confined h) fun conn _ hst c hc =>
    hst.fixes fun hw => hc (hW conn c hw)

theorem applyTransaction_confined {W : Conn → Cell → Prop}
    (hW : tx.isSuccessful = true → ∀ conn c, processorWrites env tx.params conn c → W conn c) :
    Confined (Respects W) (applyTransaction env header events tx) := by
  refine applyTransaction_within.confined fun conn c hw => ?_
  obtain ⟨hs, hp⟩ := writes_applyTouches hw
  exact hW hs conn c hp

theorem revertTransaction_confined {W : Conn → Cell → Prop}
    (hW : tx.isSuccessful = true → ∀ conn c, processorWrites env tx.params conn c → W conn c) :
    Confined (Respects W) (revertTransaction env header events tx) := by
  refine revertTransaction_within.confined fun conn c hw => ?_
  obtain ⟨hs, hp⟩ := writes_applyTouches hw
  exact hW hs conn c hp

/-- No processor writes to a table outside its list. -/
theorem processorWrites_table {cmd : Command} {conn : Conn} {c : Cell}
    (h : processorWrites env cmd conn c) : c.table = .tick ∨ c.table ∈ processorTables := by
  cases conn with
  | default =>
    rcases h.2 with ht | ht
    · exact .inl ht
    · rw [ht]
      exact .inr (by decide)
  | dbTrx => exact .inr h.1

/-! ### The tables of each command -/

/-- The tables that the hooks of a command write. -/
def Command.tables : Command → List TableName
  | .registerMultisignature _ _ => [.multisignature]
  | .registerValidator _ _ _ _ => [.accounts, .validators, .transactions, .commissions]
  | .changeCommission _ => [.commissions]
  | .stake _ => [.stakes, .keyValueStore]
  | .updateGeneratorKey _ | .registerKeys _ _ _ => [.accounts, .validators]
  | .registerMainchain | .registerSidechain _ _ => [.blockchainApps]
  | .terminateSidechainForLiveness _ => [.blockchainApps]
  | .submitCrossChainUpdate _ => [.blockchainApps, .ccu]
  | .tokenTransfer _ | .tokenTransferCrossChain _ _ _ => [.transactions]
  | .nftTransfer | .dexBurn => [.position]
  | .dexCreatePool => [.registeredDexToken, .pool]
  | .dexMint _ _ _ | .dexIncreaseLiquidity _ | .dexDecreaseLiquidity _ =>
    [.position, .tvl, .tick, .pool]
  | .tokenFactoryCreate | .tokenFactorySetAttributes => [.tokenFactory, .tokenMetadata]
  | .tokenFactoryMint _ _ | .tokenFactoryBurn _ _ => [.tokenFactory]
  | .other => []

/-- The touch stays within a list of tables. -/
private def InTables (tables : List TableName) : Touch → Prop
  | .set _ c => c.table ∈ tables
  | .add _ c => c.table ∈ tables
  | .syncPool => .pool ∈ tables
  | _ => True

private theorem commandTouches_inTables :
    ∀ t ∈ commandTouches env header events tx, InTables tx.params.tables t := by
  rw [commandTouches]
  cases tx.params <;>
    simp only [mintTouches, liquidityTouches, tvlTouches, tickTouches, createPoolTouches,
      stakeTouches, tokenCreateTouches, setAttributesTouches, List.forall_mem_append,
      List.forall_mem_cons, List.forall_mem_map, List.forall_mem_flatMap, List.not_mem_nil,
      IsEmpty.forall_iff, implies_true, and_true]
    <;> simp [InTables, Command.tables, Cell.table]

private theorem writes_tables {conn : Conn} {c : Cell}
    (h : writes (applyTouches env header events tx) conn c) :
    tx.isSuccessful = true ∧ c.table ∈ tx.params.tables := by
  rw [applyTouches] at h
  split at h
  · refine ⟨‹_›, ?_⟩
    rcases h with h | h | ⟨h, -, hc⟩
    · exact commandTouches_inTables _ h
    · exact commandTouches_inTables _ h
    · rw [hc]
      exact commandTouches_inTables _ h
  · simp [writes] at h

/-- The rows that a transaction may change: none if it failed, else rows of the tables of its
command. -/
def IndexedTx.mayWrite (tx : IndexedTx) (c : Cell) : Prop :=
  tx.isSuccessful = true ∧ c.table ∈ tx.params.tables

theorem applyTransaction_tables {W : Conn → Cell → Prop}
    (hW : ∀ conn c, tx.mayWrite c → W conn c) :
    Confined (Respects W) (applyTransaction env header events tx) :=
  applyTransaction_within.confined fun conn c hw => hW conn c (writes_tables hw)

theorem revertTransaction_tables {W : Conn → Cell → Prop}
    (hW : ∀ conn c, tx.mayWrite c → W conn c) :
    Confined (Respects W) (revertTransaction env header events tx) :=
  revertTransaction_within.confined fun conn c hw => hW conn c (writes_tables hw)

/-! ### The parts of the liquidity hooks -/

section Parts

variable {W : Conn → Cell → Prop} {poolAddress : Address}

theorem addTVL_confined {txID : TxID} {i : ℕ} {row : TVLRow} {token : Option TokenRow}
    (h : W .dbTrx (.tvl txID i)) : Confined (Respects W) (Dex.addTVL txID i row token) :=
  (Table.confined_upsert h).bind fun _ =>
    (confined_ofOption _ token).bind fun _ => confined_pure ()

theorem removeTVL_confined {txID : TxID} {i : ℕ} {row : TVLRow} {token : Option TokenRow}
    (h : W .dbTrx (.tvl txID i)) : Confined (Respects W) (Dex.removeTVL txID i row token) :=
  (Table.confined_delete h).bind fun _ =>
    (confined_ofOption _ token).bind fun _ => confined_pure ()

theorem updateTicks_confined {d : LiquidityData} (h : ∀ t, W .default (.tick poolAddress t)) :
    Confined (Respects W) (Dex.updateTicks poolAddress d) :=
  (Table.confined_upsert (h _)).bind fun _ => Table.confined_upsert (h _)

theorem revertTicks_confined {d : LiquidityData} (h : ∀ t, W .default (.tick poolAddress t)) :
    Confined (Respects W) (Dex.revertTicks poolAddress d) :=
  (Table.confined_upsert (h _)).bind fun _ => Table.confined_upsert (h _)

theorem addLiquidity_confined {tokenId : String} {amount : ℤ} (h : W .dbTrx (.position tokenId)) :
    Confined (Respects W) (Dex.addLiquidity tokenId amount) := Table.confined_modify h

theorem syncPoolData_confined (h : ∀ c : Cell, c.table = .pool → W .default c) :
    Confined (Respects W) (Dex.syncPoolData env poolAddress) := by
  have hsync : ∀ inverted state, Respects W .default
      (Dex.syncStatement poolAddress inverted state) := by
    intro inverted state c hc
    exact syncStatement_fixes fun hpool => hc (h c hpool)
  exact (confined_exec (hsync _ _)).bind fun _ => confined_exec (hsync _ _)

end Parts

/-! ### The row of the transaction itself -/

/-- The commands whose hook writes the row of the transaction again. -/
def Command.rewritesRow : Command → Bool
  | .registerValidator _ _ _ _ => true
  | .tokenTransfer _ => true
  | .tokenTransferCrossChain _ _ _ => true
  | _ => false

/-- The touches of a hook that has at most its own transaction row to write. -/
private def OwnRow (tx : IndexedTx) : Touch → Prop
  | .set conn c => ∀ id, c = .transaction id →
      conn = .dbTrx ∧ id = tx.id ∧ tx.params.rewritesRow = true
  | .add _ c => ∀ id, c ≠ .transaction id
  | _ => True

private theorem commandTouches_ownRow :
    ∀ t ∈ commandTouches env header events tx, OwnRow tx t := by
  rw [commandTouches]
  cases hp : tx.params <;>
    simp only [mintTouches, liquidityTouches, tvlTouches, tickTouches, createPoolTouches,
      stakeTouches, tokenCreateTouches, setAttributesTouches, List.forall_mem_append,
      List.forall_mem_cons, List.forall_mem_map, List.forall_mem_flatMap, List.not_mem_nil,
      IsEmpty.forall_iff, implies_true, and_true]
    <;> simp [OwnRow, hp, Command.rewritesRow]

/-- Of all rows of `transactions`, a hook writes at most the one of its transaction. -/
theorem writes_transaction {conn : Conn} {id : TxID}
    (h : writes (applyTouches env header events tx) conn (.transaction id)) :
    conn = .dbTrx ∧ id = tx.id ∧ tx.params.rewritesRow = true := by
  rw [applyTouches] at h
  split at h
  · rcases h with h | h | ⟨-, -, hc⟩
    · exact commandTouches_ownRow _ h id rfl
    · exact absurd rfl (commandTouches_ownRow _ h id)
    · simp [Cell.table] at hc
  · simp [writes] at h

/-- The touches of a hook that writes commissions at one height only. -/
private def AtHeight (height : ℕ) : Touch → Prop
  | .set _ c => ∀ a k, c = .commission a k → k = height
  | .add _ c => ∀ a k, c ≠ .commission a k
  | _ => True

private theorem commandTouches_atHeight :
    ∀ t ∈ commandTouches env header events tx, AtHeight header.height t := by
  rw [commandTouches]
  cases tx.params <;>
    simp only [mintTouches, liquidityTouches, tvlTouches, tickTouches, createPoolTouches,
      stakeTouches, tokenCreateTouches, setAttributesTouches, List.forall_mem_append,
      List.forall_mem_cons, List.forall_mem_map, List.forall_mem_flatMap, List.not_mem_nil,
      IsEmpty.forall_iff, implies_true, and_true]
    <;> simp [AtHeight]

/-- Commissions are written at the height of the block. -/
theorem writes_commission {conn : Conn} {a : Address} {k : ℕ}
    (h : writes (applyTouches env header events tx) conn (.commission a k)) :
    k = header.height := by
  rw [applyTouches] at h
  split at h
  · rcases h with h | h | ⟨-, -, hc⟩
    · exact commandTouches_atHeight _ h a k rfl
    · exact absurd rfl (commandTouches_atHeight _ h a k)
    · simp [Cell.table] at hc
  · simp [writes] at h

/-- The row names the block and the execution status. -/
def IsRecord (blockID : BlockID) (status : ExecutionStatus) (r : TransactionRow) : Prop :=
  r.blockID = blockID ∧ r.executionStatus = status

/-- The statement leaves the rows of all other transactions alone; it may write the row of this
one, but not another block or status into it. -/
def KeepsRecord (blockID : BlockID) (txID : TxID) (status : ExecutionStatus) (conn : Conn)
    (st : Stmt) : Prop :=
  (∀ id, id ≠ txID ∨ conn = .default → st.Fixes (.transaction id)) ∧
    ∀ r, IsRecord blockID status r →
      ∃ r', st.act (.transaction txID) (some r) = some r' ∧ IsRecord blockID status r'

theorem keepsRecord_of_fixes {blockID : BlockID} {txID : TxID} {status : ExecutionStatus}
    {conn : Conn} {st : Stmt} (h : ∀ id, st.Fixes (.transaction id)) :
    KeepsRecord blockID txID status conn st :=
  ⟨fun id _ => h id, fun r hr => ⟨r, h txID (some r), hr⟩⟩

theorem keepsRecord_upsert {blockID : BlockID} {txID : TxID} {status : ExecutionStatus}
    {set : TransactionRow → TransactionRow} (h : ∀ r, IsRecord blockID status (set r)) :
    KeepsRecord blockID txID status .dbTrx (Table.upsertRow (.transaction txID) set) := by
  refine ⟨fun id hid => Table.upsertRow_fixes fun heq => ?_, fun r _ => ⟨_, ?_, h r⟩⟩
  · simp [Cell.transaction.inj heq] at hid
  · rw [Table.upsertRow_act_self]
    rfl

private theorem confined_ifSuccessful {P : Conn → Stmt → Prop} {p : Prog Unit}
    (h : Confined P p) : Confined P (ifSuccessful tx p) := by
  rw [ifSuccessful]
  split
  · exact h
  · exact confined_pure ()

private theorem confined_upsert_record {set : TransactionRow → TransactionRow}
    (h : ∀ r, IsRecord header.id tx.executionStatus (set r)) :
    Confined (KeepsRecord header.id tx.id tx.executionStatus)
      (Table.upsert .dbTrx (.transaction tx.id) set : Prog Unit) :=
  confined_exec (keepsRecord_upsert h)

private theorem confined_upsert_other {c : Cell} [Inhabited (Row c)] {set : Row c → Row c}
    (h : c.table ≠ .transactions) :
    Confined (KeepsRecord header.id tx.id tx.executionStatus)
      (Table.upsert .dbTrx c set : Prog Unit) := by
  refine confined_exec (keepsRecord_of_fixes fun id => Table.upsertRow_fixes fun heq => h ?_)
  rw [← heq]
  rfl

/-- The hooks keep block and status in the row of their transaction. -/
theorem applyTransaction_keepsRecord :
    Confined (KeepsRecord header.id tx.id tx.executionStatus)
      (applyTransaction env header events tx) := by
  by_cases hr : tx.params.rewritesRow = true
  · rw [applyTransaction_eq, applyHook]
    cases hp : tx.params with
    | registerValidator name blsKey pop generatorKey =>
      refine confined_ifSuccessful ((confined_ofOption _ _).bind fun address =>
        (confined_upsert_other ?_).bind fun _ => (confined_upsert_other ?_).bind fun _ =>
        Confined.bind (confined_upsert_record ?_) fun _ => confined_upsert_other ?_)
      · simp [Cell.table]
      · simp [Cell.table]
      · exact fun r => ⟨rfl, rfl⟩
      · simp [Cell.table]
    | tokenTransfer params =>
      refine confined_ifSuccessful ((confined_ofOption _ _).bind fun sender =>
        confined_upsert_record ?_)
      exact fun r => ⟨rfl, rfl⟩
    | tokenTransferCrossChain params chainID fee =>
      refine confined_ifSuccessful ((confined_ofOption _ _).bind fun sender =>
        confined_upsert_record ?_)
      exact fun r => ⟨rfl, rfl⟩
    | _ => simp [hp, Command.rewritesRow] at hr
  · refine Confined.mono (Footprint.confined applyTransaction_within) fun conn st hst =>
      keepsRecord_of_fixes fun id => hst.fixes fun hw => hr ?_
    exact (writes_transaction hw).2.2

/-- Reverting a transaction, as the deletion job fetches it, leaves `transactions` alone. -/
theorem revertTransaction_transactions (hsender : tx.senderAddress = none) :
    Confined (Respects fun _ c => c.table ≠ .transactions)
      (revertTransaction env header events tx) := by
  by_cases hr : tx.params.rewritesRow = true
  · rw [revertTransaction_eq, revertHook]
    cases hp : tx.params with
    | registerValidator name blsKey pop generatorKey =>
      refine confined_ifSuccessful ?_
      rw [hsender]
      exact confined_throw _
    | tokenTransfer params => exact confined_pure ()
    | tokenTransferCrossChain params chainID fee => exact confined_pure ()
    | _ => simp [hp, Command.rewritesRow] at hr
  · refine revertTransaction_within.confined fun conn c hw hc => hr ?_
    cases c with
    | transaction id => exact (writes_transaction hw).2.2
    | _ => simp [Cell.table] at hc

end SwaptoshiService
