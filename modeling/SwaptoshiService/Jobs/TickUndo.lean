import SwaptoshiService.Indexer.DeleteBlocks
import SwaptoshiService.Jobs.TransactionOrder
import SwaptoshiService.Lib.Undo

/-!
# Undoing the ticks of a block

The liquidity commands write the net liquidity at two ticks as an absolute value: the one after
the event when they are applied, the one before it when they are reverted. `deleteIndexedBlocks`
does **not** revert the transactions of a block in the opposite order: it begins with the first one
(`mapOrder`). Where that one shares a tick with a later transaction, the value that is left is the
one before an event in the middle of the block, not the one before the block (`tick_undo_iff`).
-/

namespace SwaptoshiService

open Session Async

/-- What a liquidity event says about one tick. -/
structure TickChange where
  poolAddress : Address
  tick : ℤ
  before : ℤ
  after : ℤ
  deriving DecidableEq, Repr

namespace TickChange

/-- The row of the tick. -/
def cell (c : TickChange) : Cell := .tick c.poolAddress c.tick

/-- The two ticks of a `mint` or `burn` event, in the order in which they are written. -/
def ofData (poolAddress : Address) (d : LiquidityData) : List TickChange :=
  [⟨poolAddress, d.tickLower, d.lowerLiquidityNetBefore, d.lowerLiquidityNet⟩,
    ⟨poolAddress, d.tickUpper, d.upperLiquidityNetBefore, d.upperLiquidityNet⟩]

end TickChange

/-- The ticks that a transaction writes. -/
def tickChanges (env : Env) (events : List Event) (tx : IndexedTx) : List TickChange :=
  if tx.isSuccessful then
    match tx.params with
    | .dexMint tokenA tokenB fee => (getPoolKey tokenA tokenB fee).toList.flatMap fun key =>
      (parseSingleEvent events EventData.dexMint? tx.id).toList.flatMap
        (TickChange.ofData (env.poolAddress key))
    | .dexIncreaseLiquidity poolAddress =>
      (parseSingleEvent events EventData.dexMint? tx.id).toList.flatMap
        (TickChange.ofData poolAddress)
    | .dexDecreaseLiquidity poolAddress =>
      (parseSingleEvent events EventData.dexBurn? tx.id).toList.flatMap
        (TickChange.ofData poolAddress)
    | _ => []
  else []

/-! ### What writing ticks does to the table -/

/-- The row of a tick after a list of changes was written with the given value. -/
def writeTicks (value : TickChange → ℤ) (changes : List TickChange) (pool : Address) (tick : ℤ)
    (row : Option TickRow) : Option TickRow :=
  overwrite (fun c : TickChange => c.poolAddress = pool ∧ c.tick = tick)
    (fun c => some ⟨jsNumber (value c)⟩) changes row

/-- The committed ticks change as if the list were written, and the open transaction does
nothing to ticks that it did not do before. -/
def WritesTicks (value : TickChange → ℤ) (changes : List TickChange) (w w' : DBSession) : Prop :=
  ∀ pool tick,
    w'.committed.get (.tick pool tick) =
        writeTicks value changes pool tick (w.committed.get (.tick pool tick)) ∧
      ∀ o, w'.pending.act (.tick pool tick) o = w.pending.act (.tick pool tick) o

section Effects

variable {env : Env} {header : BlockHeader} {events : List Event} {tx : IndexedTx}
  {value : TickChange → ℤ}

theorem writesTicks_append {cs ds : List TickChange} (w₀ w₁ w₂ : DBSession)
    (h : WritesTicks value cs w₀ w₁) (h' : WritesTicks value ds w₁ w₂) :
    WritesTicks value (cs ++ ds) w₀ w₂ := by
  intro pool tick
  refine ⟨?_, fun o => ((h' pool tick).2 o).trans ((h pool tick).2 o)⟩
  rw [(h' pool tick).1, (h pool tick).1, writeTicks, writeTicks, writeTicks, overwrite_append]

/-- Rows outside the table `tick` do not matter. -/
theorem writesTicks_nil {w w' : DBSession} (h : SameOn (fun c => c.table = .tick) w w') :
    WritesTicks value [] w w' := fun pool tick => h (.tick pool tick) rfl

theorem ensures_writesTicks_nil {α : Type} {p : Prog α} {W : Conn → Cell → Prop}
    (hp : Confined (Respects W) p) (hW : ∀ conn c, W conn c → c.table ≠ .tick) :
    p.Ensures (WritesTicks value []) := by
  intro w a w' hrun
  exact writesTicks_nil (hp.ensures_sameOn (leavesAlone_respects hW) w a w' hrun)

/-- A part that writes no ticks in front of one that does. -/
theorem writesTicks_nil_bind {α β : Type} {p : Prog α} {f : α → Prog β} {cs : List TickChange}
    (hp : p.Ensures (WritesTicks value [])) (hf : ∀ a, (f a).Ensures (WritesTicks value cs)) :
    (p >>= f).Ensures (WritesTicks value cs) :=
  hp.bind hf fun w₀ w₁ w₂ h h' => by simpa using writesTicks_append w₀ w₁ w₂ h h'

/-- A part that writes no ticks behind one that does. -/
theorem writesTicks_bind_nil {α β : Type} {p : Prog α} {f : α → Prog β} {cs : List TickChange}
    (hp : p.Ensures (WritesTicks value cs)) (hf : ∀ a, (f a).Ensures (WritesTicks value [])) :
    (p >>= f).Ensures (WritesTicks value cs) :=
  hp.bind hf fun w₀ w₁ w₂ h h' => by simpa using writesTicks_append w₀ w₁ w₂ h h'

theorem ensures_upsertTick (c : TickChange) :
    (Dex.upsertTick c.poolAddress c.tick (value c)).Ensures (WritesTicks value [c]) := by
  refine ensures_act fun w => ?_
  intro pool tick
  refine ⟨?_, fun _ => rfl⟩
  rw [send_default_committed, Write.exec_get, writeTicks, overwrite, List.foldl_cons,
    List.foldl_nil]
  by_cases hc : c.poolAddress = pool ∧ c.tick = tick
  · obtain ⟨rfl, rfl⟩ := hc
    rw [if_pos ⟨rfl, rfl⟩, Table.upsertRow_act_self]
  · rw [if_neg hc]
    refine Table.upsertRow_fixes (fun heq => hc ?_) _
    simpa [eq_comm] using heq

theorem ensures_updateTicks (poolAddress : Address) (d : LiquidityData) :
    (Dex.updateTicks poolAddress d).Ensures
      (WritesTicks TickChange.after (TickChange.ofData poolAddress d)) :=
  (ensures_upsertTick ⟨poolAddress, d.tickLower, d.lowerLiquidityNetBefore,
    d.lowerLiquidityNet⟩).bind (fun _ => ensures_upsertTick ⟨poolAddress, d.tickUpper,
      d.upperLiquidityNetBefore, d.upperLiquidityNet⟩) writesTicks_append

theorem ensures_revertTicks (poolAddress : Address) (d : LiquidityData) :
    (Dex.revertTicks poolAddress d).Ensures
      (WritesTicks TickChange.before (TickChange.ofData poolAddress d)) :=
  (ensures_upsertTick ⟨poolAddress, d.tickLower, d.lowerLiquidityNetBefore,
    d.lowerLiquidityNet⟩).bind (fun _ => ensures_upsertTick ⟨poolAddress, d.tickUpper,
      d.upperLiquidityNetBefore, d.upperLiquidityNet⟩) writesTicks_append

/-! ### What the liquidity commands do to the table -/

/-- Every row outside the table `tick`. -/
private def offTick : Conn → Cell → Prop := fun _ c => c.table ≠ .tick

private theorem offTick_nil {α : Type} {p : Prog α} (hp : Confined (Respects offTick) p) :
    p.Ensures (WritesTicks value []) :=
  ensures_writesTicks_nil hp fun _ _ h => h

private theorem confined_addTVL {txID : TxID} {i : ℕ} {row : TVLRow} {token : Option TokenRow} :
    Confined (Respects offTick) (Dex.addTVL txID i row token) :=
  addTVL_confined (by simp [offTick, Cell.table])

private theorem confined_removeTVL {txID : TxID} {i : ℕ} {row : TVLRow}
    {token : Option TokenRow} : Confined (Respects offTick) (Dex.removeTVL txID i row token) :=
  removeTVL_confined (by simp [offTick, Cell.table])

private theorem confined_syncPoolData {poolAddress : Address} :
    Confined (Respects offTick) (Dex.syncPoolData env poolAddress) :=
  syncPoolData_confined fun c hc => by simp [offTick, hc]

private theorem confined_addLiquidity {tokenId : String} {amount : ℤ} :
    Confined (Respects offTick) (Dex.addLiquidity tokenId amount) :=
  addLiquidity_confined (by simp [offTick, Cell.table])

theorem ensures_applyMint {tokenA tokenB : TokenID} {fee : ℕ} (hs : tx.isSuccessful = true)
    (hp : tx.params = .dexMint tokenA tokenB fee) :
    (Dex.applyMint env header tx tokenA tokenB fee events).Ensures
      (WritesTicks TickChange.after (tickChanges env events tx)) := by
  rw [Dex.applyMint, ifSuccessful, if_pos hs]
  refine ensures_ofOption_bind fun key hkey => ensures_ofOption_bind fun increase _ =>
    ensures_ofOption_bind fun mint hmint => ensures_ofOption_bind fun tokenURI _ => ?_
  have hchanges : tickChanges env events tx = TickChange.ofData (env.poolAddress key) mint := by
    simp [tickChanges, hs, hp, hkey, hmint]
  rw [hchanges]
  refine writesTicks_nil_bind (offTick_nil (Table.confined_upsert ?_)) fun _ => ?_
  · simp [offTick, Cell.table]
  refine writesTicks_nil_bind (offTick_nil Table.confined_find) fun token0 =>
    writesTicks_nil_bind (offTick_nil Table.confined_find) fun token1 =>
    writesTicks_nil_bind (offTick_nil confined_addTVL) fun _ =>
    writesTicks_nil_bind (offTick_nil confined_addTVL) fun _ => ?_
  exact writesTicks_bind_nil (ensures_updateTicks _ _) fun _ => offTick_nil confined_syncPoolData

theorem ensures_revertMint {tokenA tokenB : TokenID} {fee : ℕ} (hs : tx.isSuccessful = true)
    (hp : tx.params = .dexMint tokenA tokenB fee) :
    (Dex.revertMint env header tx tokenA tokenB fee events).Ensures
      (WritesTicks TickChange.before (tickChanges env events tx)) := by
  rw [Dex.revertMint, ifSuccessful, if_pos hs]
  refine ensures_ofOption_bind fun increase _ =>
    writesTicks_nil_bind (offTick_nil (Table.confined_deleteByPrimaryKey ?_)) fun _ => ?_
  · simp [offTick, Cell.table]
  refine ensures_ofOption_bind fun key hkey =>
    writesTicks_nil_bind (offTick_nil Table.confined_find) fun token0 =>
    writesTicks_nil_bind (offTick_nil Table.confined_find) fun token1 =>
    writesTicks_nil_bind (offTick_nil confined_removeTVL) fun _ =>
    writesTicks_nil_bind (offTick_nil confined_removeTVL) fun _ =>
    ensures_ofOption_bind fun mint hmint => ?_
  have hchanges : tickChanges env events tx = TickChange.ofData (env.poolAddress key) mint := by
    simp [tickChanges, hs, hp, hkey, hmint]
  rw [hchanges]
  exact writesTicks_bind_nil (ensures_revertTicks _ _) fun _ => offTick_nil confined_syncPoolData

theorem ensures_applyLiquidity {k : Dex.LiquidityChange} {poolAddress : Address}
    (hs : tx.isSuccessful = true) (hp : tickChanges env events tx =
      (parseSingleEvent events k.ticks? tx.id).toList.flatMap (TickChange.ofData poolAddress)) :
    (Dex.applyLiquidity k env header tx poolAddress events).Ensures
      (WritesTicks TickChange.after (tickChanges env events tx)) := by
  rw [Dex.applyLiquidity, ifSuccessful, if_pos hs]
  refine writesTicks_nil_bind (offTick_nil Table.confined_find) fun token0 =>
    writesTicks_nil_bind (offTick_nil Table.confined_find) fun token1 =>
    ensures_ofOption_bind fun change _ =>
    writesTicks_nil_bind (offTick_nil confined_addTVL) fun _ =>
    writesTicks_nil_bind (offTick_nil confined_addTVL) fun _ =>
    ensures_ofOption_bind fun ticks hticks => ?_
  simp only [hp, hticks, Option.toList_some, List.flatMap_singleton]
  exact writesTicks_bind_nil (ensures_updateTicks _ _) fun _ =>
    writesTicks_nil_bind (offTick_nil confined_addLiquidity) fun _ =>
    offTick_nil confined_syncPoolData

theorem ensures_revertLiquidity {k : Dex.LiquidityChange} {poolAddress : Address}
    (hs : tx.isSuccessful = true) (hp : tickChanges env events tx =
      (parseSingleEvent events k.ticks? tx.id).toList.flatMap (TickChange.ofData poolAddress)) :
    (Dex.revertLiquidity k env header tx poolAddress events).Ensures
      (WritesTicks TickChange.before (tickChanges env events tx)) := by
  rw [Dex.revertLiquidity, ifSuccessful, if_pos hs]
  refine writesTicks_nil_bind (offTick_nil Table.confined_find) fun token0 =>
    writesTicks_nil_bind (offTick_nil Table.confined_find) fun token1 =>
    ensures_ofOption_bind fun change _ =>
    writesTicks_nil_bind (offTick_nil confined_removeTVL) fun _ =>
    writesTicks_nil_bind (offTick_nil confined_removeTVL) fun _ =>
    ensures_ofOption_bind fun ticks hticks => ?_
  simp only [hp, hticks, Option.toList_some, List.flatMap_singleton]
  exact writesTicks_bind_nil (ensures_revertTicks _ _) fun _ =>
    writesTicks_nil_bind (offTick_nil confined_addLiquidity) fun _ =>
    offTick_nil confined_syncPoolData

/-- Only successful liquidity commands write ticks. -/
theorem tickChanges_eq_nil (h : tx.isSuccessful = true → tx.params.isLiquidity = false) :
    tickChanges env events tx = [] := by
  rw [tickChanges]
  split
  · cases hp : tx.params <;> simp_all [Command.isLiquidity]
  · rfl

private theorem processorWrites_offTick (h : tx.isSuccessful = true → tx.params.isLiquidity = false)
    (hs : tx.isSuccessful = true) (conn : Conn) (c : Cell)
    (hw : processorWrites env tx.params conn c) : offTick conn c := by
  intro hc
  cases conn with
  | default => simp [processorWrites, h hs] at hw
  | dbTrx => simp [processorWrites, hc, processorTables] at hw

theorem ensures_applyTransaction :
    (applyTransaction env header events tx).Ensures
      (WritesTicks TickChange.after (tickChanges env events tx)) := by
  by_cases h : tx.isSuccessful = true → tx.params.isLiquidity = false
  · rw [tickChanges_eq_nil h]
    exact offTick_nil (applyTransaction_confined (processorWrites_offTick h))
  obtain ⟨hs, hl⟩ := Classical.not_imp.mp h
  rw [applyTransaction_eq, applyHook]
  cases hp : tx.params with
  | dexMint tokenA tokenB fee => exact ensures_applyMint hs hp
  | dexIncreaseLiquidity poolAddress =>
    exact ensures_applyLiquidity hs (by simp [tickChanges, hs, hp, Dex.increaseLiquidity])
  | dexDecreaseLiquidity poolAddress =>
    exact ensures_applyLiquidity hs (by simp [tickChanges, hs, hp, Dex.decreaseLiquidity])
  | _ => simp [hp, Command.isLiquidity] at hl

theorem ensures_revertTransaction :
    (revertTransaction env header events tx).Ensures
      (WritesTicks TickChange.before (tickChanges env events tx)) := by
  by_cases h : tx.isSuccessful = true → tx.params.isLiquidity = false
  · rw [tickChanges_eq_nil h]
    exact offTick_nil (revertTransaction_confined (processorWrites_offTick h))
  obtain ⟨hs, hl⟩ := Classical.not_imp.mp h
  rw [revertTransaction_eq, revertHook]
  cases hp : tx.params with
  | dexMint tokenA tokenB fee => exact ensures_revertMint hs hp
  | dexIncreaseLiquidity poolAddress =>
    exact ensures_revertLiquidity hs (by simp [tickChanges, hs, hp, Dex.increaseLiquidity])
  | dexDecreaseLiquidity poolAddress =>
    exact ensures_revertLiquidity hs (by simp [tickChanges, hs, hp, Dex.decreaseLiquidity])
  | _ => simp [hp, Command.isLiquidity] at hl

end Effects

/-! ### A block, applied and reverted -/

/-- A transaction as the deletion job fetches it, without the address of its sender. -/
def IndexedTx.forked (tx : IndexedTx) : IndexedTx := { tx with senderAddress := none }

/-- Apply the transactions of a block, one after the other, in block order. -/
def applyTransactions (env : Env) (header : BlockHeader) (events : List Event)
    (txs : List IndexedTx) : Prog Unit :=
  Async.serial (txs.map (applyTransaction env header events))

/-- Apply the transactions of a block in a transaction of the database. -/
def applyBlock (env : Env) (header : BlockHeader) (events : List Event) (txs : List IndexedTx)
    (db : DB) : Except Failure Unit × DB :=
  transact none outsideFailure (applyTransactions env header events txs) db

/-- Run the revert loop of `deleteIndexedBlocks` on the transactions of a block. -/
def revertBlock (env : Env) (header : BlockHeader) (events : List Event) (txs : List IndexedTx)
    (db : DB) : Except Failure Unit × DB :=
  transact none outsideFailure
    (revertTransactions env header events (txs.map IndexedTx.forked)) db

/-- Apply one transaction in a transaction of the database. -/
def applyAlone (env : Env) (header : BlockHeader) (events : List Event) (tx : IndexedTx)
    (db : DB) : Except Failure Unit × DB :=
  transact none outsideFailure (applyTransaction env header events tx) db

/-- Revert one transaction, as the deletion job fetches it, in a transaction of the database. -/
def revertAlone (env : Env) (header : BlockHeader) (events : List Event) (tx : IndexedTx)
    (db : DB) : Except Failure Unit × DB :=
  transact none outsideFailure (revertTransaction env header events tx.forked) db

/-- The net liquidity at a tick; there is none where there is no row. -/
def liquidityNetAt (db : DB) (pool : Address) (tick : ℤ) : ℤ :=
  (db.get (.tick pool tick) : Option TickRow).elim 0 TickRow.liquidityNet

/-- The ticks that the transactions of a block write, in block order. -/
def blockChanges (env : Env) (events : List Event) (txs : List IndexedTx) : List TickChange :=
  txs.flatMap (tickChanges env events)

/-- The changes of one tick. -/
def changesAt (pool : Address) (tick : ℤ) (changes : List TickChange) : List TickChange :=
  changes.filter fun c => c.poolAddress = pool ∧ c.tick = tick

/-- The events of the block chain, on every tick, from what the table holds. -/
def Chained (db : DB) (changes : List TickChange) : Prop :=
  ∀ pool tick, ChainsFrom TickChange.before TickChange.after (liquidityNetAt db pool tick)
    (changesAt pool tick changes)

/-- On every tick of the block, the value before the event that is reverted last is, as a
`Number`, the value before the first event. -/
def LastBeforeIsFirst (env : Env) (events : List Event) (txs : List IndexedTx) : Prop :=
  ∀ pool tick first last,
    (changesAt pool tick (blockChanges env events txs)).head? = some first →
    (changesAt pool tick (blockChanges env events (mapOrder txs))).getLast? = some last →
      jsNumber last.before = first.before

/-- The order of the transactions does not matter for which changes there are. -/
theorem mem_blockChanges_mapOrder {env : Env} {events : List Event} {txs : List IndexedTx}
    {c : TickChange} :
    c ∈ blockChanges env events (mapOrder txs) ↔ c ∈ blockChanges env events txs := by
  simp [blockChanges]

/-- A block that touches every tick once, with values that a `Number` holds, meets the
condition. -/
theorem lastBeforeIsFirst_of_nodup {env : Env} {events : List Event} {txs : List IndexedTx}
    (honce : ((blockChanges env events txs).map TickChange.cell).Nodup)
    (hsafe : ∀ c ∈ blockChanges env events txs, c.before.natAbs ≤ 2 ^ 53) :
    LastBeforeIsFirst env events txs := by
  intro pool tick first last hfirst hlast
  have hf : first ∈ blockChanges env events txs ∧ first.cell = .tick pool tick := by
    simpa [changesAt, TickChange.cell] using List.mem_of_head? hfirst
  have hl : last ∈ blockChanges env events txs ∧ last.cell = .tick pool tick := by
    rw [← mem_blockChanges_mapOrder]
    simpa [changesAt, TickChange.cell] using List.mem_of_getLast? hlast
  obtain rfl := List.inj_on_of_nodup_map honce hf.1 hl.1 (hf.2.trans hl.2.symm)
  exact jsNumber_of_le (hsafe _ hf.1)

/-- Whether events chain is seen at the ticks they touch. -/
theorem chained_iff {db : DB} {changes : List TickChange} :
    Chained db changes ↔ ∀ c ∈ changes, ChainsFrom TickChange.before TickChange.after
      (liquidityNetAt db c.poolAddress c.tick) (changesAt c.poolAddress c.tick changes) := by
  refine ⟨fun h c _ => h _ _, fun h pool tick => ?_⟩
  cases hat : changesAt pool tick changes with
  | nil => trivial
  | cons c cs =>
    have hc : c ∈ changesAt pool tick changes := by simp [hat]
    obtain ⟨hmem, rfl, rfl⟩ : c ∈ changes ∧ c.poolAddress = pool ∧ c.tick = tick := by
      simpa [changesAt] using hc
    exact hat ▸ h c hmem

instance (db : DB) (changes : List TickChange) : Decidable (Chained db changes) :=
  decidable_of_iff _ chained_iff.symm

section Block

variable {env : Env} {header : BlockHeader} {events : List Event} {txs : List IndexedTx}
  {value : TickChange → ℤ} {db db₁ db₂ : DB}

private theorem get_of_writesTicks {p : Prog Unit} {changes : List TickChange}
    (hp : p.Ensures (WritesTicks value changes))
    (hrun : transact none outsideFailure p db = (.ok (), db₁)) (pool : Address) (tick : ℤ) :
    db₁.get (.tick pool tick) = writeTicks value changes pool tick (db.get (.tick pool tick)) := by
  obtain ⟨-, w, hw, rfl⟩ := transact_ok.mp hrun
  obtain ⟨hget, hpending⟩ := hp _ _ _ hw pool tick
  rw [commit_committed, Write.exec_get, hpending, ofStore_pending, Write.nop_act, hget,
    ofStore_committed]

theorem ensures_applyTransactions :
    (applyTransactions env header events txs).Ensures
      (WritesTicks TickChange.after (blockChanges env events txs)) := by
  refine Ensures.serial_map (R := fun l => WritesTicks _ (blockChanges env events l))
    (fun w => writesTicks_nil (SameOn.refl _ w)) (fun tx l w₀ w₁ w₂ h h' => ?_) (fun tx _ => ?_)
  · simpa [blockChanges] using writesTicks_append w₀ w₁ w₂ h h'
  · simpa [blockChanges] using ensures_applyTransaction

theorem ensures_revertTransactions :
    (revertTransactions env header events (txs.map IndexedTx.forked)).Ensures
      (WritesTicks TickChange.before (blockChanges env events (mapOrder txs))) := by
  rw [revertTransactions, mapOrder_map, List.map_map]
  refine Ensures.serial_map (R := fun l => WritesTicks _ (blockChanges env events l))
    (fun w => writesTicks_nil (SameOn.refl _ w)) (fun tx l w₀ w₁ w₂ h h' => ?_) (fun tx _ => ?_)
  · simpa [blockChanges] using writesTicks_append w₀ w₁ w₂ h h'
  · have hsame : tickChanges env events tx.forked = tickChanges env events tx := rfl
    rw [show blockChanges env events [tx] = tickChanges env events tx.forked by
      simp [blockChanges, hsame]]
    exact ensures_revertTransaction

/-- A tick that no reverted event touches is touched by no event. -/
private theorem changesAt_mapOrder_eq_nil {pool : Address} {tick : ℤ}
    (h : changesAt pool tick (blockChanges env events (mapOrder txs)) = []) :
    changesAt pool tick (blockChanges env events txs) = [] := by
  rw [changesAt, List.filter_eq_nil_iff] at h ⊢
  exact fun c hc => h c (mem_blockChanges_mapOrder.mpr hc)

/-- What is left at a tick after the block was applied and reverted. -/
theorem liquidityNetAt_revertBlock
    (happly : applyBlock env header events txs db = (.ok (), db₁))
    (hrevert : revertBlock env header events txs db₁ = (.ok (), db₂)) (pool : Address)
    (tick : ℤ) :
    liquidityNetAt db₂ pool tick =
      ((changesAt pool tick (blockChanges env events (mapOrder txs))).getLast?.map fun c =>
        jsNumber c.before).getD (liquidityNetAt db pool tick) := by
  have h₁ := get_of_writesTicks ensures_applyTransactions happly pool tick
  have h₂ := get_of_writesTicks ensures_revertTransactions hrevert pool tick
  rw [writeTicks, overwrite_eq, ← changesAt] at h₁ h₂
  rw [liquidityNetAt, h₂, h₁, liquidityNetAt]
  cases hlast : (changesAt pool tick (blockChanges env events (mapOrder txs))).getLast? with
  | none =>
    rw [changesAt_mapOrder_eq_nil (List.getLast?_eq_none_iff.mp hlast)]
    rfl
  | some c => rfl

/-! ### Reverting succeeds -/

section Success

variable {tx : IndexedTx} {w : DBSession}

/-- What `mint` needs to be applied. -/
theorem applyMint_succeeds {tokenA tokenB : TokenID} {fee : ℕ} (hs : tx.isSuccessful = true) :
    (Dex.applyMint env header tx tokenA tokenB fee events).Succeeds w ↔
      ∃ key, getPoolKey tokenA tokenB fee = some key ∧
      ∃ increase, parseSingleEvent events EventData.increaseLiquidity? tx.id = some increase ∧
      ∃ mint, parseSingleEvent events EventData.dexMint? tx.id = some mint ∧
      ∃ tokenURI, parseSingleEvent events EventData.tokenURICreated? tx.id = some tokenURI ∧
      ∃ token0, (w.view .dbTrx).get (.token key.token0) = some token0 ∧
      ∃ token1, (w.view .dbTrx).get (.token key.token1) = some token1 := by
  rw [Dex.applyMint, ifSuccessful, if_pos hs]
  simp only [Table.find, Table.upsert, Dex.addTVL, Dex.updateTicks, Dex.upsertTick,
    Dex.syncPoolData, bind_assoc, pure_bind, succeeds_ofOption_bind_iff,
    succeeds_findRow_bind_iff, succeeds_exec_bind_iff, succeeds_exec_iff, and_true]
  simp (disch := simp) only [Table.upsertRow, view_send_point_of_ne]

/-- What `mint` needs to be reverted. -/
theorem revertMint_succeeds {tokenA tokenB : TokenID} {fee : ℕ} (hs : tx.isSuccessful = true) :
    (Dex.revertMint env header tx tokenA tokenB fee events).Succeeds w ↔
      ∃ increase, parseSingleEvent events EventData.increaseLiquidity? tx.id = some increase ∧
      ∃ key, getPoolKey tokenA tokenB fee = some key ∧
      ∃ token0, (w.view .dbTrx).get (.token key.token0) = some token0 ∧
      ∃ token1, (w.view .dbTrx).get (.token key.token1) = some token1 ∧
      ∃ mint, parseSingleEvent events EventData.dexMint? tx.id = some mint := by
  rw [Dex.revertMint, ifSuccessful, if_pos hs]
  simp only [Table.find, Table.upsert, Table.delete, Table.deleteByPrimaryKey, Dex.removeTVL,
    Dex.revertTicks, Dex.upsertTick, Dex.syncPoolData, bind_assoc, pure_bind,
    succeeds_ofOption_bind_iff, succeeds_findRow_bind_iff, succeeds_exec_bind_iff,
    succeeds_exec_iff, and_true]
  simp (disch := simp) only [Table.deleteRow, view_send_point_of_ne]

/-- The change has its events, and the tokens of its pool are registered. -/
private def LiquidityReady (k : Dex.LiquidityChange) (env : Env) (events : List Event)
    (txID : TxID) (poolAddress : Address) (w : DBSession) : Prop :=
  ∃ change, parseSingleEvent events k.position? txID = some change ∧
    ∃ token0, (w.view .dbTrx).get (.token (env.decodePoolAddress poolAddress).token0) =
      some token0 ∧
    ∃ token1, (w.view .dbTrx).get (.token (env.decodePoolAddress poolAddress).token1) =
      some token1 ∧
    ∃ ticks, parseSingleEvent events k.ticks? txID = some ticks

private theorem applyLiquidity_succeeds {k : Dex.LiquidityChange} {poolAddress : Address}
    (hs : tx.isSuccessful = true) :
    (Dex.applyLiquidity k env header tx poolAddress events).Succeeds w ↔
      LiquidityReady k env events tx.id poolAddress w := by
  rw [Dex.applyLiquidity, ifSuccessful, if_pos hs]
  simp only [Table.find, Table.upsert, Table.modify, Dex.addTVL, Dex.updateTicks,
    Dex.upsertTick, Dex.addLiquidity, Dex.syncPoolData, bind_assoc, pure_bind,
    succeeds_ofOption_bind_iff, succeeds_findRow_bind_iff, succeeds_exec_bind_iff,
    succeeds_exec_iff, and_true, LiquidityReady]

private theorem revertLiquidity_succeeds {k : Dex.LiquidityChange} {poolAddress : Address}
    (hs : tx.isSuccessful = true) :
    (Dex.revertLiquidity k env header tx poolAddress events).Succeeds w ↔
      LiquidityReady k env events tx.id poolAddress w := by
  rw [Dex.revertLiquidity, ifSuccessful, if_pos hs]
  simp only [Table.find, Table.upsert, Table.delete, Table.modify, Dex.removeTVL,
    Dex.revertTicks, Dex.upsertTick, Dex.addLiquidity, Dex.syncPoolData, bind_assoc, pure_bind,
    succeeds_ofOption_bind_iff, succeeds_findRow_bind_iff, succeeds_exec_bind_iff,
    succeeds_exec_iff, and_true, LiquidityReady]

private theorem LiquidityReady.of_shows {k : Dex.LiquidityChange} {txID : TxID}
    {poolAddress : Address} {v : DBSession} {db : DB} (hw : Shows .dbTrx isToken db w)
    (hv : Shows .dbTrx isToken db v) (h : LiquidityReady k env events txID poolAddress w) :
    LiquidityReady k env events txID poolAddress v := by
  obtain ⟨change, hc, t₀, h₀, t₁, h₁, ticks, ht⟩ := h
  rw [hw (.token _) rfl] at h₀ h₁
  refine ⟨change, hc, t₀, ?_, t₁, ?_, ticks, ht⟩
  · rw [hv (.token _) rfl, h₀]
  · rw [hv (.token _) rfl, h₁]

/-- A liquidity command that was applied can be reverted as long as the tokens stay. -/
private theorem revertTransaction_succeeds {v : DBSession} {db : DB}
    (hl : tx.isSuccessful = true → tx.params.isLiquidity = true)
    (hw : Shows .dbTrx isToken db w) (hv : Shows .dbTrx isToken db v)
    (h : (applyTransaction env header events tx).Succeeds w) :
    (revertTransaction env header events tx.forked).Succeeds v := by
  by_cases hs : tx.isSuccessful = true
  · have hs' : tx.forked.isSuccessful = true := hs
    rw [applyTransaction_eq, applyHook] at h
    rw [revertTransaction_eq, revertHook]
    have hparams : tx.forked.params = tx.params := rfl
    rw [hparams]
    cases hp : tx.params with
    | dexMint tokenA tokenB fee =>
      simp only [hp, applyMint_succeeds hs] at h
      obtain ⟨key, hkey, increase, hi, mint, hm, -, -, t₀, h₀, t₁, h₁⟩ := h
      rw [hw (.token _) rfl] at h₀ h₁
      refine (revertMint_succeeds hs').mpr ⟨increase, hi, key, hkey, t₀, ?_, t₁, ?_, mint, hm⟩
      · rw [hv (.token _) rfl, h₀]
      · rw [hv (.token _) rfl, h₁]
    | dexIncreaseLiquidity poolAddress =>
      simp only [hp, applyLiquidity_succeeds hs] at h
      exact (revertLiquidity_succeeds hs').mpr (h.of_shows hw hv)
    | dexDecreaseLiquidity poolAddress =>
      simp only [hp, applyLiquidity_succeeds hs] at h
      exact (revertLiquidity_succeeds hs').mpr (h.of_shows hw hv)
    | _ => simp [hs, hp, Command.isLiquidity] at hl
  · have hnone : revertTransaction env header events tx.forked = pure () :=
      revertTransaction_of_failed hs
    rw [hnone]
    exact (succeeds_pure_iff () v).mpr trivial

private theorem processorWrites_offTokens {cmd : Command} (h : cmd.isLiquidity = true)
    (conn : Conn) (c : Cell) (hw : processorWrites env cmd conn c) : ¬ isToken c := by
  intro hc
  cases conn with
  | default =>
    rw [isToken] at hc
    simp [processorWrites, hc] at hw
  | dbTrx => simp [processorWrites, hc, h] at hw

end Success

/-- **Reverting succeeds.** If a block of liquidity commands was applied, the revert loop runs to
its end. -/
theorem revertBlock_succeeds
    (hl : ∀ tx ∈ txs, tx.isSuccessful = true → tx.params.isLiquidity = true)
    (happly : applyBlock env header events txs db = (.ok (), db₁)) :
    ∃ db₂, revertBlock env header events txs db₁ = (.ok (), db₂) := by
  obtain ⟨-, w, hw, rfl⟩ := transact_ok.mp happly
  have htokens : LeavesAlone (Respects fun _ c => ¬ isToken c : Conn → Stmt → Prop) isToken :=
    leavesAlone_respects fun _ _ h => h
  -- The registered tokens are the same all along.
  have hk : ∀ p ∈ txs.map (applyTransaction env header events),
      p.Keeps (Shows .dbTrx isToken db) := by
    intro p hp
    obtain ⟨tx, htx, rfl⟩ := List.mem_map.mp hp
    exact (applyTransaction_confined fun hs conn c =>
      processorWrites_offTokens (hl tx htx hs) conn c).keeps_shows htokens .dbTrx db
  have hk' : ∀ p ∈ (txs.map IndexedTx.forked).map (revertTransaction env header events),
      p.Keeps (Shows .dbTrx isToken db) := by
    intro p hp
    obtain ⟨_, hmem, rfl⟩ := List.mem_map.mp hp
    obtain ⟨tx, htx, rfl⟩ := List.mem_map.mp hmem
    have hl' : tx.forked.isSuccessful = true → tx.forked.params.isLiquidity = true := hl tx htx
    exact (revertTransaction_confined fun hs conn c =>
      processorWrites_offTokens (hl' hs) conn c).keeps_shows htokens .dbTrx db
  have hstart : Shows .dbTrx isToken db (ofStore db) := fun c _ => rfl
  have hend : Shows .dbTrx isToken db w := by
    have hrun := (Keeps.serial hk).run hstart
    rw [applyTransactions] at hw
    rwa [hw] at hrun
  have hpasses := Succeeds.mem_serial hk ⟨(), w, hw⟩ hstart
  obtain ⟨⟨⟩, v, hv⟩ : (revertTransactions env header events (txs.map IndexedTx.forked)).Succeeds
      (ofStore w.commit.committed) := by
    rw [revertTransactions, mapOrder_map]
    refine succeeds_serial (fun p hp => hk' p ?_) (fun p hp v hv => ?_) hend
    · obtain ⟨_, hmem, rfl⟩ := List.mem_map.mp hp
      exact List.mem_map_of_mem (by simpa using hmem)
    obtain ⟨_, hmem, rfl⟩ := List.mem_map.mp hp
    obtain ⟨tx, htx, rfl⟩ := List.mem_map.mp hmem
    rw [mem_mapOrder] at htx
    obtain ⟨u, hu, hsucc⟩ := hpasses _ (List.mem_map_of_mem htx)
    exact revertTransaction_succeeds (hl tx htx) hu hv hsucc
  exact ⟨_, transact_ok.mpr ⟨rfl, v, hv, rfl⟩⟩

/-- **Undoing the ticks of a block.** Let the events of an applied block chain. If the block has
only liquidity commands, the revert loop runs to its end; and whenever it does, it restores the
net liquidity of all ticks exactly if, on every tick, the value before the event that is reverted
last is the value before the first one. -/
theorem tick_undo_iff (hchain : Chained db (blockChanges env events txs))
    (happly : applyBlock env header events txs db = (.ok (), db₁)) :
    ((∀ tx ∈ txs, tx.isSuccessful = true → tx.params.isLiquidity = true) →
      ∃ db₂, revertBlock env header events txs db₁ = (.ok (), db₂)) ∧
    ∀ db₂, revertBlock env header events txs db₁ = (.ok (), db₂) →
      ((∀ pool tick, liquidityNetAt db₂ pool tick = liquidityNetAt db pool tick) ↔
        LastBeforeIsFirst env events txs) := by
  refine ⟨fun hl => revertBlock_succeeds hl happly, fun db₂ hrevert => ?_⟩
  have hnet := liquidityNetAt_revertBlock happly hrevert
  constructor
  · intro h pool tick first last hfirst hlast
    have hlast' : liquidityNetAt db₂ pool tick = jsNumber last.before := by
      rw [hnet, hlast, Option.map_some, Option.getD_some]
    rw [← hlast', h, (hchain pool tick).head hfirst]
  · intro h pool tick
    rw [hnet]
    cases hlast : (changesAt pool tick (blockChanges env events (mapOrder txs))).getLast? with
    | none => rfl
    | some last =>
      obtain ⟨first, hfirst⟩ : ∃ first,
          (changesAt pool tick (blockChanges env events txs)).head? = some first := by
        have hmem : last ∈ changesAt pool tick (blockChanges env events txs) := by
          have hlast' := List.mem_of_getLast? hlast
          rw [changesAt, List.mem_filter] at hlast' ⊢
          exact ⟨mem_blockChanges_mapOrder.mp hlast'.1, hlast'.2⟩
        cases hat : changesAt pool tick (blockChanges env events txs) with
        | nil => simp [hat] at hmem
        | cons c cs => exact ⟨c, rfl⟩
      rw [Option.map_some, Option.getD_some, h pool tick first last hfirst hlast,
        (hchain pool tick).head hfirst]

end Block

/-! ### Two increases at one tick -/

/-- A successful `increaseLiquidity` on the pool. -/
def increaseTx (id : TxID) (index : ℕ) : IndexedTx :=
  ⟨⟨id, "dex", "increaseLiquidity", .dexIncreaseLiquidity "pool", "alice", 0, 0, 0, 0,
    Command.dexIncreaseLiquidity_fits "pool"⟩, index, some "alice", .successful⟩

/-- The header of the block. -/
def increaseHeader : BlockHeader := ⟨"first", 1, 10, "generator", "genesis", 0, false⟩

/-- The first of the two increases alone is undone. -/
theorem tick_undo_iff_once :
    let db₁ := (applyBlock onePoolEnv increaseHeader increaseTwice [increaseTx "a" 0] onePoolDB).2
    let db₂ := (revertBlock onePoolEnv increaseHeader increaseTwice [increaseTx "a" 0] db₁).2
    liquidityNetAt db₁ "pool" 10 = 5 ∧
      ∀ pool tick, liquidityNetAt db₂ pool tick = liquidityNetAt onePoolDB pool tick := by
  intro db₁ db₂
  have happly : applyBlock onePoolEnv increaseHeader increaseTwice [increaseTx "a" 0] onePoolDB =
      (.ok (), db₁) := rfl
  have hrevert : revertBlock onePoolEnv increaseHeader increaseTwice [increaseTx "a" 0] db₁ =
      (.ok (), db₂) := rfl
  have hundo := (tick_undo_iff (by decide +kernel) happly).2 db₂ hrevert
  refine ⟨by decide +kernel, hundo.mpr (lastBeforeIsFirst_of_nodup ?_ ?_)⟩
  · decide +kernel
  · decide +kernel

/-- Two increases at one tick: the net liquidity goes from 0 to 5 and on to 12, and reverting the
block leaves it at 5. -/
theorem second_increase_not_undone :
    let txs := [increaseTx "a" 0, increaseTx "b" 1]
    let applied := applyBlock onePoolEnv increaseHeader increaseTwice txs onePoolDB
    let reverted := revertBlock onePoolEnv increaseHeader increaseTwice txs applied.2
    Chained onePoolDB (blockChanges onePoolEnv increaseTwice txs) ∧
      applied.1 = .ok () ∧ reverted.1 = .ok () ∧
      liquidityNetAt onePoolDB "pool" 10 = 0 ∧ liquidityNetAt applied.2 "pool" 10 = 12 ∧
      liquidityNetAt reverted.2 "pool" 10 = 5 := by
  refine ⟨by decide +kernel, rfl, rfl, by decide +kernel, by decide +kernel, by decide +kernel⟩

end SwaptoshiService
