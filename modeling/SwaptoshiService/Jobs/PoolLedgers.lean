import SwaptoshiService.Lib.Posting
import SwaptoshiService.Lib.Total
import SwaptoshiService.Jobs.BlockHistory

/-!
# The ledgers of the pools over whole runs

The table `tvl` has two rows for every liquidity transaction, one for each token of the pool, and
the table `volume` one row for every swap event. Both are written when a block is indexed and
deleted, matched by all columns, when it is deleted. In every state reached the rows are those of
genesis and of the indexed blocks, no more and no less (`ledgers_booked`). The amounts of `tvl`
pass through `Number`, those of `volume` do not: the sums of `tvl` are the exact ones precisely
when the rounding errors of the indexed blocks cancel (`ledgers_exact_iff`).
-/

namespace SwaptoshiService

open Session

/-! ### Entries -/

/-- How pool addresses and pool keys belong together. -/
structure Pools where
  address : PoolKey → Address
  key : Address → PoolKey

/-- The environment encodes pool addresses in this way. -/
structure Pools.Configures (pools : Pools) (env : Env) : Prop where
  address : env.poolAddress = pools.address
  key : env.decodePoolAddress = pools.key

/-- The job runs with these pool addresses. -/
def Job.UsesPools (pools : Pools) : Job → Prop
  | .index env _ _ _ _ _ _ => pools.Configures env
  | .delete env _ _ _ => pools.Configures env

/-- An amount of a token that goes into a pool, or out of it. -/
structure TVLEntry where
  poolAddress : Address
  tokenId : TokenID
  amount : ℤ
  deriving DecidableEq, Repr

/-- The row of an entry. -/
def TVLEntry.row (e : TVLEntry) (time : ℕ) (sender : Address) : TVLRow :=
  { time, sender, poolAddress := e.poolAddress, amount := jsNumber e.amount, tokenId := e.tokenId }

namespace Network

/-- The entries of a transaction of a block, for the two tokens of its pool. -/
def tvlPair (net : Network) (pools : Pools) (id : BlockID) (tx : Transaction) :
    Option (TVLEntry × TVLEntry) :=
  let liquidity (k : Dex.LiquidityChange) (poolAddress : Address) : Option (TVLEntry × TVLEntry) :=
    (parseSingleEvent (net.events id) k.position? tx.id).map fun d =>
      (⟨poolAddress, (pools.key poolAddress).token0, k.sign * d.amount0⟩,
        ⟨poolAddress, (pools.key poolAddress).token1, k.sign * d.amount1⟩)
  if getTransactionExecutionStatus tx (net.events id) = some .successful then
    match tx.params with
    | .dexMint tokenA tokenB fee => do
      let key ← getPoolKey tokenA tokenB fee
      let d ← parseSingleEvent (net.events id) EventData.increaseLiquidity? tx.id
      pure (⟨pools.address key, key.token0, d.amount0⟩, ⟨pools.address key, key.token1, d.amount1⟩)
    | .dexIncreaseLiquidity poolAddress => liquidity Dex.increaseLiquidity poolAddress
    | .dexDecreaseLiquidity poolAddress => liquidity Dex.decreaseLiquidity poolAddress
    | _ => none
  else none

/-- The entry of a transaction with an index. -/
def tvlEntry (net : Network) (pools : Pools) (id : BlockID) (tx : Transaction) :
    ℕ → Option TVLEntry
  | 0 => (net.tvlPair pools id tx).map Prod.fst
  | 1 => (net.tvlPair pools id tx).map Prod.snd
  | _ => none

/-- The row of a transaction of a block with an index. -/
def tvlRow (net : Network) (pools : Pools) (id : BlockID) (tx : Transaction) (i : ℕ) :
    Option TVLRow :=
  (net.tvlEntry pools id tx i).map fun e =>
    e.row (net.block id).header.timestamp (net.addressFromPublicKey tx.senderPublicKey)

end Network

/-! ### What the hooks do to a row of `tvl` -/

/-- A row of `tvl`, as a whole. -/
def tvlOf {t : TxID} {i : ℕ} (o : Option (Row (.tvl t i))) : Option TVLRow := o

section Hooks

variable {net : Network} {pools : Pools} {env : Env} {header : BlockHeader} {events : List Event}
  {tx : IndexedTx} {txID : TxID} {i : ℕ}

/-- The change of a row that is written, if it is the row looked at. -/
private def ifRow (txID : TxID) (i : ℕ) (txID' : TxID) (i' : ℕ)
    (g : Option TVLRow → Option TVLRow) : List (Option TVLRow → Option TVLRow) :=
  if txID' = txID ∧ i' = i then [g] else []

private def offTVL : Conn → Cell → Prop := fun _ c => c.table ≠ .tvl

private theorem offTVL_fixes (conn : Conn) (st : Stmt) (hst : Respects offTVL conn st) :
    st.Fixes (.tvl txID i) := hst _ fun h => h rfl

private theorem does_offTVL {α β : Type} {p : Prog α} {f : α → Prog β}
    {L : List (Option TVLRow → Option TVLRow) → Prop} (hp : Confined (Respects offTVL) p)
    (hf : ∀ a, Does (tvlOf (t := txID) (i := i)) L (f a)) :
    Does (tvlOf (t := txID) (i := i)) L (p >>= f) := hp.does_bind offTVL_fixes hf

private theorem tvl_injective : Function.Injective fun p : TxID × ℕ => Cell.tvl p.1 p.2 :=
  fun _ _ h => Prod.ext (Cell.tvl.inj h).1 (Cell.tvl.inj h).2

/-- A statement on one row, followed by the debug line. -/
private theorem does_logged {txID' : TxID} {i' : ℕ} {g : Option TVLRow → Option TVLRow}
    {token : Option TokenRow} :
    Does (tvlOf (t := txID) (i := i)) (fun l => l = ifRow txID i txID' i' g)
      (do
        Session.exec .dbTrx (.point (.tvl txID' i') g)
        let _ ← Async.ofOption Failure.typeError token : Prog Unit) := by
  have hpoint : Does (tvlOf (t := txID) (i := i)) (fun l => l = ifRow txID i txID' i' g)
      (Session.exec .dbTrx (.point (.tvl txID' i') g) : Prog Unit) := by
    have hrow : ifRow txID i txID' i' g = if (txID', i') = (txID, i) then [g] else [] := by
      simp only [ifRow, Prod.mk.injEq]
    rw [hrow]
    exact does_point_at (fun p : TxID × ℕ => Cell.tvl p.1 p.2) tvl_injective
      (fun p => tvlOf (t := p.1) (i := p.2)) fun _ => rfl
  exact hpoint.bind_confined (P := Respects offTVL)
    (fun _ => (confined_ofOption _ token).bind fun _ => confined_pure ()) offTVL_fixes

private theorem does_addTVL {txID' : TxID} {i' : ℕ} {row : TVLRow} {token : Option TokenRow} :
    Does (tvlOf (t := txID) (i := i)) (fun l => l = ifRow txID i txID' i' fun _ => some row)
      (Dex.addTVL txID' i' row token) := does_logged

private theorem does_removeTVL {txID' : TxID} {i' : ℕ} {row : TVLRow} {token : Option TokenRow} :
    Does (tvlOf (t := txID) (i := i))
      (fun l => l = ifRow txID i txID' i' fun o => o.filter fun r => !decide (r = row))
      (Dex.removeTVL txID' i' row token) := does_logged

/-- Both rows of a transaction, in front of a part that leaves the table alone. -/
private theorem does_both {p q : Prog Unit} {r : Unit → Prog Unit}
    {g h : Option TVLRow → Option TVLRow} {txID' : TxID}
    (hp : Does (tvlOf (t := txID) (i := i)) (fun l => l = ifRow txID i txID' 0 g) p)
    (hq : Does (tvlOf (t := txID) (i := i)) (fun l => l = ifRow txID i txID' 1 h) q)
    (hr : ∀ a, Confined (Respects offTVL) (r a)) :
    Does (tvlOf (t := txID) (i := i))
      (fun l => l = ifRow txID i txID' 0 g ++ ifRow txID i txID' 1 h)
      (p >>= fun _ => q >>= r) := by
  refine hp.bind fun _ l hl => (hq.mono fun l' hl' => ?_).bind_confined hr offTVL_fixes
  rw [hl, hl']

/-- What a transaction of a block does to the row looked at. -/
private def rowChanges (net : Network) (pools : Pools) (id : BlockID) (txID : TxID) (i : ℕ)
    (g : TVLRow → Option TVLRow → Option TVLRow) (tx : Transaction) :
    List (Option TVLRow → Option TVLRow) :=
  if tx.id = txID then ((net.tvlRow pools id tx i).map g).toList else []

private theorem ifRow_both (txID : TxID) (i : ℕ) {id : BlockID} {tx : Transaction}
    {e₀ e₁ : TVLEntry} (h : net.tvlPair pools id tx = some (e₀, e₁)) {time : ℕ} {sender : Address}
    (htime : time = (net.block id).header.timestamp)
    (hsender : sender = net.addressFromPublicKey tx.senderPublicKey)
    (g : TVLRow → Option TVLRow → Option TVLRow) :
    ifRow txID i tx.id 0 (g (e₀.row time sender)) ++ ifRow txID i tx.id 1 (g (e₁.row time sender)) =
      rowChanges net pools id txID i g tx := by
  subst htime hsender
  unfold ifRow rowChanges
  by_cases ht : tx.id = txID
  · match i with
    | 0 => simp [ht, Network.tvlRow, Network.tvlEntry, h]
    | 1 => simp [ht, Network.tvlRow, Network.tvlEntry, h]
    | i + 2 => simp [ht, Network.tvlRow, Network.tvlEntry]
  · simp [ht]

private theorem rowChanges_of_none {id : BlockID} {tx : Transaction}
    (h : net.tvlPair pools id tx = none) (g : TVLRow → Option TVLRow → Option TVLRow) :
    rowChanges net pools id txID i g tx = [] := by
  have hrow : net.tvlRow pools id tx i = none := by
    match i with
    | 0 => simp [Network.tvlRow, Network.tvlEntry, h]
    | 1 => simp [Network.tvlRow, Network.tvlEntry, h]
    | i + 2 => rfl
  simp [rowChanges, hrow]

private theorem ticks_offTVL {poolAddress : Address} (t : ℤ) :
    offTVL .default (.tick poolAddress t) := by
  simp [offTVL, Cell.table]

private theorem sync_offTVL {poolAddress : Address} :
    Confined (Respects offTVL) (Dex.syncPoolData env poolAddress) :=
  syncPoolData_confined fun c hc => by simp [offTVL, hc]

private theorem tvl_of_tables {cmd : Command} (h : .tvl ∉ cmd.tables) (conn : Conn) (c : Cell)
    (hc : c.table ∈ cmd.tables) : offTVL conn c := by
  intro ht
  rw [ht] at hc
  exact h hc

/-- A failed transaction has no entries. -/
private theorem tvlPair_of_failed {id : BlockID} (hs : tx.isSuccessful ≠ true)
    (hstatus : getTransactionExecutionStatus tx.toTransaction (net.events id) =
      some tx.executionStatus) : net.tvlPair pools id tx.toTransaction = none := by
  have hne : tx.executionStatus ≠ .successful := by
    simpa [IndexedTx.isSuccessful] using hs
  simp [Network.tvlPair, hstatus, hne]

section Apply

variable {id : BlockID} (henv : net.Configures env) (hpools : pools.Configures env)
  (htime : header.timestamp = (net.block id).header.timestamp)

include henv hpools htime

private theorem does_applyMint_tvl {tokenA tokenB : TokenID} {fee : ℕ} (hs : tx.isSuccessful = true)
    (hok : getTransactionExecutionStatus tx.toTransaction (net.events id) = some .successful)
    (hp : tx.params = .dexMint tokenA tokenB fee) :
    Does (tvlOf (t := txID) (i := i))
      (fun l => l = rowChanges net pools id txID i postRow tx.toTransaction)
      (Dex.applyMint env header tx tokenA tokenB fee (net.events id)) := by
  rw [Dex.applyMint, ifSuccessful, if_pos hs]
  refine does_ofOption_bind fun key hkey => does_ofOption_bind fun d hd =>
    does_ofOption_bind fun mint _ => does_ofOption_bind fun tokenURI _ =>
    does_offTVL (Table.confined_upsert (by simp [offTVL, Cell.table])) fun _ =>
    does_offTVL Table.confined_find fun t₀ => does_offTVL Table.confined_find fun t₁ => ?_
  have hpair : net.tvlPair pools id tx.toTransaction =
      some (⟨pools.address key, key.token0, d.amount0⟩,
        ⟨pools.address key, key.token1, d.amount1⟩) := by
    simp [Network.tvlPair, hok, hp, hkey, hd]
  have hboth := ifRow_both txID i hpair htime
    (congrFun henv.addressFromPublicKey tx.senderPublicKey) postRow
  rw [← hboth, ← hpools.address]
  exact does_both does_addTVL does_addTVL fun _ =>
    (updateTicks_confined ticks_offTVL).bind fun _ => sync_offTVL

private theorem does_revertMint_tvl {tokenA tokenB : TokenID} {fee : ℕ}
    (hs : tx.isSuccessful = true)
    (hok : getTransactionExecutionStatus tx.toTransaction (net.events id) = some .successful)
    (hp : tx.params = .dexMint tokenA tokenB fee) :
    Does (tvlOf (t := txID) (i := i))
      (fun l => l = rowChanges net pools id txID i unpostRow tx.toTransaction)
      (Dex.revertMint env header tx tokenA tokenB fee (net.events id)) := by
  rw [Dex.revertMint, ifSuccessful, if_pos hs]
  refine does_ofOption_bind fun d hd =>
    does_offTVL (Table.confined_deleteByPrimaryKey (by simp [offTVL, Cell.table])) fun _ =>
    does_ofOption_bind fun key hkey =>
    does_offTVL Table.confined_find fun t₀ => does_offTVL Table.confined_find fun t₁ => ?_
  have hpair : net.tvlPair pools id tx.toTransaction =
      some (⟨pools.address key, key.token0, d.amount0⟩,
        ⟨pools.address key, key.token1, d.amount1⟩) := by
    simp [Network.tvlPair, hok, hp, hkey, hd]
  have hboth := ifRow_both txID i hpair htime
    (congrFun henv.addressFromPublicKey tx.senderPublicKey) unpostRow
  rw [← hboth, ← hpools.address]
  exact does_both does_removeTVL does_removeTVL fun _ => (confined_ofOption _ _).bind fun mint =>
    (revertTicks_confined ticks_offTVL).bind fun _ => sync_offTVL

private theorem does_applyLiquidity_tvl {k : Dex.LiquidityChange} {poolAddress : Address}
    (hs : tx.isSuccessful = true)
    (hpair : net.tvlPair pools id tx.toTransaction =
      (parseSingleEvent (net.events id) k.position? tx.id).map fun d =>
        (⟨poolAddress, (pools.key poolAddress).token0, k.sign * d.amount0⟩,
          ⟨poolAddress, (pools.key poolAddress).token1, k.sign * d.amount1⟩)) :
    Does (tvlOf (t := txID) (i := i))
      (fun l => l = rowChanges net pools id txID i postRow tx.toTransaction)
      (Dex.applyLiquidity k env header tx poolAddress (net.events id)) := by
  rw [Dex.applyLiquidity, ifSuccessful, if_pos hs]
  refine does_offTVL Table.confined_find fun t₀ => does_offTVL Table.confined_find fun t₁ =>
    does_ofOption_bind fun d hd => ?_
  rw [hd, Option.map_some] at hpair
  have hboth := ifRow_both txID i hpair htime
    (congrFun henv.addressFromPublicKey tx.senderPublicKey) postRow
  rw [← hboth, ← hpools.key]
  exact does_both does_addTVL does_addTVL fun _ => (confined_ofOption _ _).bind fun ticks =>
    (updateTicks_confined ticks_offTVL).bind fun _ =>
    (addLiquidity_confined (by simp [offTVL, Cell.table])).bind fun _ => sync_offTVL

private theorem does_revertLiquidity_tvl {k : Dex.LiquidityChange} {poolAddress : Address}
    (hs : tx.isSuccessful = true)
    (hpair : net.tvlPair pools id tx.toTransaction =
      (parseSingleEvent (net.events id) k.position? tx.id).map fun d =>
        (⟨poolAddress, (pools.key poolAddress).token0, k.sign * d.amount0⟩,
          ⟨poolAddress, (pools.key poolAddress).token1, k.sign * d.amount1⟩)) :
    Does (tvlOf (t := txID) (i := i))
      (fun l => l = rowChanges net pools id txID i unpostRow tx.toTransaction)
      (Dex.revertLiquidity k env header tx poolAddress (net.events id)) := by
  rw [Dex.revertLiquidity, ifSuccessful, if_pos hs]
  refine does_offTVL Table.confined_find fun t₀ => does_offTVL Table.confined_find fun t₁ =>
    does_ofOption_bind fun d hd => ?_
  rw [hd, Option.map_some] at hpair
  have hboth := ifRow_both txID i hpair htime
    (congrFun henv.addressFromPublicKey tx.senderPublicKey) unpostRow
  rw [← hboth, ← hpools.key]
  exact does_both does_removeTVL does_removeTVL fun _ => (confined_ofOption _ _).bind fun ticks =>
    (revertTicks_confined ticks_offTVL).bind fun _ =>
    (addLiquidity_confined (by simp [offTVL, Cell.table])).bind fun _ => sync_offTVL

/-- **Applying** a transaction writes its rows. -/
theorem does_applyTransaction_tvl (tx : IndexedTx)
    (hstatus : getTransactionExecutionStatus tx.toTransaction (net.events id) =
      some tx.executionStatus) :
    Does (tvlOf (t := txID) (i := i))
      (fun l => l = rowChanges net pools id txID i postRow tx.toTransaction)
      (applyTransaction env header (net.events id) tx) := by
  by_cases hs : tx.isSuccessful = true
  swap
  · rw [applyTransaction_of_failed hs, rowChanges_of_none (tvlPair_of_failed hs hstatus)]
    exact rfl
  have hok : getTransactionExecutionStatus tx.toTransaction (net.events id) =
      some .successful := by
    rw [hstatus]
    simpa [IndexedTx.isSuccessful] using hs
  cases hp : tx.params with
  | dexMint tokenA tokenB fee =>
    rw [applyTransaction_eq, applyHook, hp]
    exact does_applyMint_tvl henv hpools htime hs hok hp
  | dexIncreaseLiquidity poolAddress =>
    rw [applyTransaction_eq, applyHook, hp]
    refine does_applyLiquidity_tvl henv hpools htime hs ?_
    rw [Network.tvlPair, if_pos hok, hp]
  | dexDecreaseLiquidity poolAddress =>
    rw [applyTransaction_eq, applyHook, hp]
    refine does_applyLiquidity_tvl henv hpools htime hs ?_
    rw [Network.tvlPair, if_pos hok, hp]
  | _ =>
    rw [rowChanges_of_none (by simp [Network.tvlPair, hp])]
    refine Confined.does (applyTransaction_tables fun conn c hc =>
      tvl_of_tables ?_ conn c hc.2) offTVL_fixes rfl
    simp [hp, Command.tables]

/-- **Reverting** a transaction deletes its rows. -/
theorem does_revertTransaction_tvl
    (hstatus : getTransactionExecutionStatus tx.toTransaction (net.events id) =
      some tx.executionStatus) :
    Does (tvlOf (t := txID) (i := i))
      (fun l => l = rowChanges net pools id txID i unpostRow tx.toTransaction)
      (revertTransaction env header (net.events id) tx) := by
  by_cases hs : tx.isSuccessful = true
  swap
  · rw [revertTransaction_of_failed hs, rowChanges_of_none (tvlPair_of_failed hs hstatus)]
    exact rfl
  have hok : getTransactionExecutionStatus tx.toTransaction (net.events id) =
      some .successful := by
    rw [hstatus]
    simpa [IndexedTx.isSuccessful] using hs
  cases hp : tx.params with
  | dexMint tokenA tokenB fee =>
    rw [revertTransaction_eq, revertHook, hp]
    exact does_revertMint_tvl henv hpools htime hs hok hp
  | dexIncreaseLiquidity poolAddress =>
    rw [revertTransaction_eq, revertHook, hp]
    refine does_revertLiquidity_tvl henv hpools htime hs ?_
    rw [Network.tvlPair, if_pos hok, hp]
  | dexDecreaseLiquidity poolAddress =>
    rw [revertTransaction_eq, revertHook, hp]
    refine does_revertLiquidity_tvl henv hpools htime hs ?_
    rw [Network.tvlPair, if_pos hok, hp]
  | _ =>
    rw [rowChanges_of_none (by simp [Network.tvlPair, hp])]
    refine Confined.does (revertTransaction_tables fun conn c hc =>
      tvl_of_tables ?_ conn c hc.2) offTVL_fixes rfl
    simp [hp, Command.tables]

end Apply

end Hooks

/-! ### What swap events do to a row of `volume` -/

/-- A row of `volume`, as a whole. -/
def volumeOf {h i : ℕ} (o : Option (Row (.volume h i))) : Option VolumeRow := o

section Swaps

variable {env : Env} {header : BlockHeader} {h i : ℕ}

/-- What a swap event does to the row looked at. -/
private def swapChanges (h i : ℕ) (g : VolumeRow → Option VolumeRow → Option VolumeRow)
    (header : BlockHeader) (e : SwapEvent) : List (Option VolumeRow → Option VolumeRow) :=
  if (e.height, e.index) = (h, i) then [g (volumeRow header e)] else []

private def offVolume : Conn → Cell → Prop := fun _ c => c.table ≠ .volume

private theorem offVolume_fixes (conn : Conn) (st : Stmt) (hst : Respects offVolume conn st) :
    st.Fixes (.volume h i) := hst _ fun h => h rfl

private theorem does_processSwap {volume : SwapEvent → Prog Unit} {state : SwapEvent → PoolState}
    {e : SwapEvent} {L : List (Option VolumeRow → Option VolumeRow) → Prop}
    (hv : Does (volumeOf (h := h) (i := i)) L (volume e)) :
    Does (volumeOf (h := h) (i := i)) L (processSwap env volume state e) := by
  refine Confined.does_bind (P := Respects offVolume) Table.confined_find offVolume_fixes fun t₀ =>
    Confined.does_bind (P := Respects offVolume) Table.confined_find offVolume_fixes fun t₁ =>
    hv.bind_confined (P := Respects offVolume) (fun _ => ?_) offVolume_fixes
  refine (confined_ofOption _ t₀).bind fun r₀ => (confined_ofOption _ t₁).bind fun r₁ =>
    Confined.bind ((Table.confined_update ?_).bind fun _ => Table.confined_update ?_) fun _ =>
    (updateCurrentPrice_confined ?_).bind fun _ => updateCurrentPrice_confined ?_
  all_goals simp [offVolume, Cell.table]

/-- A statement on the row of an event. -/
private theorem does_swapRow {e : SwapEvent} {g : VolumeRow → Option VolumeRow → Option VolumeRow} :
    Does (volumeOf (h := h) (i := i)) (fun l => l = swapChanges h i g header e)
      (Session.exec .dbTrx (.point (.volume e.height e.index) (g (volumeRow header e))) :
        Prog Unit) := by
  have hinj : Function.Injective fun p : ℕ × ℕ => Cell.volume p.1 p.2 :=
    fun _ _ h => Prod.ext (Cell.volume.inj h).1 (Cell.volume.inj h).2
  exact does_point_at (fun p : ℕ × ℕ => Cell.volume p.1 p.2) hinj
    (fun p => volumeOf (h := p.1) (i := p.2)) fun _ => rfl

private theorem does_swaps {f : SwapEvent → Prog Unit}
    {g : VolumeRow → Option VolumeRow → Option VolumeRow} {es : List SwapEvent}
    (hf : ∀ e, Does (volumeOf (h := h) (i := i)) (fun l => l = swapChanges h i g header e) (f e))
    (sched : List ℕ) : Does (volumeOf (h := h) (i := i))
      (fun l => l.Perm (es.flatMap (swapChanges h i g header)))
      (Async.interleave sched (es.map f)) := by
  have hpool : List.Forall₂ (fun p L => Does (volumeOf (h := h) (i := i)) L p) (es.map f)
      (es.map fun e l => l = swapChanges h i g header e) := by
    rw [List.forall₂_map_left_iff, List.forall₂_map_right_iff, List.forall₂_same]
    exact fun e _ => hf e
  exact (does_interleave hpool sched).mono fun l hl => shuffled_map.mp hl

private theorem does_applySwapEvent {sched : List ℕ} {events : List Event} :
    Does (volumeOf (h := h) (i := i))
      (fun l => l.Perm ((swapEvents events).flatMap (swapChanges h i postRow header)))
      (applySwapEvent env sched header events) :=
  does_swaps (fun _ => does_processSwap does_swapRow) sched

private theorem does_revertSwapEvent {sched : List ℕ} {events : List Event} :
    Does (volumeOf (h := h) (i := i))
      (fun l => l.Perm ((swapEvents events).flatMap (swapChanges h i unpostRow header)))
      (revertSwapEvent env sched header events) :=
  does_swaps (fun _ => does_processSwap does_swapRow) sched

private theorem processorWrites_offVolume {cmd : Command} (conn : Conn) (c : Cell)
    (hw : processorWrites env cmd conn c) : offVolume conn c := by
  intro hc
  rcases processorWrites_table hw with ht | ht
  · simp [hc] at ht
  · simp [hc, processorTables] at ht

private theorem priceWrites_offVolume (conn : Conn) (c : Cell) (hw : priceWrites conn c) :
    offVolume conn c := by
  rcases hw with hw | hw | hw <;> simp [offVolume, hw]

/-- **Indexing** a block writes the rows of its swap events. -/
theorem does_indexBlockTrx_volume {order : List ℕ} {assets : GenesisAssets} {block : Block}
    {events : List Event} (hne : block.header.height ≠ env.genesisHeight) :
    Does (volumeOf (h := h) (i := i))
      (fun l => l.Perm ((swapEvents events).flatMap (swapChanges h i postRow block.header)))
      (indexBlockTrx env order assets block events) := by
  rw [indexBlockTrx, indexBlockBody]
  simp only [bind_assoc]
  refine Confined.does_bind (indexGenesisAssets_confined assets (W := offVolume)
      fun heq => absurd heq hne) offVolume_fixes fun _ =>
    Confined.does_bind (processTransactions_confined (W := offVolume) ?_ ?_) offVolume_fixes
      fun _ =>
    Confined.does_bind (incrementGeneratedBlocks_confined (W := offVolume) _ ?_) offVolume_fixes
      fun _ =>
    Confined.does_bind (indexBlockEvents_confined (W := offVolume) ?_ ?_ ?_) offVolume_fixes
      fun _ =>
    Confined.does_bind (indexPrices_confined priceWrites_offVolume) offVolume_fixes fun _ =>
    does_applySwapEvent.bind_confined (fun _ => Table.confined_upsert (W := offVolume) ?_)
      offVolume_fixes
  · exact fun tx _ => by simp [offVolume, Cell.table]
  · exact fun tx _ _ => processorWrites_offVolume
  · simp [offVolume, Cell.table]
  · rintro c (hc | hc) <;> simp [offVolume, hc]
  · simp [offVolume, Cell.table]
  · exact fun t _ => by simp [offVolume, Cell.table]
  · simp [offVolume, Cell.table]

/-- **Deleting** an indexed block deletes the rows of its swap events. -/
private theorem deleteBlock_volume {view : DeletionView} {height : ℕ} {row : BlockRow}
    {w w' : DBSession} (hrow : (w.committed.get (.block height)).isSome)
    (hrun : (deleteBlock env view height row).run w = (.ok (), w')) :
    ∃ l, l.Perm ((swapEvents (view.eventsByID row.id)).flatMap
        (swapChanges h i unpostRow (headerOfRow height row))) ∧
      Moves (volumeOf (h := h) (i := i)) (replay l) w w' := by
  obtain ⟨txs, v, -, hv, hrest⟩ := deleteBlock_run hrow hrun
  have hrevert : SameAt (.volume h i) w v := by
    have hconf : Confined (Respects offVolume) (revertTransactions env (headerOfRow height row)
        (view.eventsByID row.id) txs) :=
      revertTransactions_confined fun tx _ _ => processorWrites_offVolume
    simpa only [hv] using hconf.run_sameAt offVolume_fixes w
  have hdelete : SameAt (.volume h i) v
      (send .dbTrx (Table.deleteWhere (transactionsOfBlock row.id v.committed)) v) :=
    sameAt_send (Table.deleteWhere_fixes fun r => rfl) v
  have hdoes : Does (volumeOf (h := h) (i := i))
      (fun l => l.Perm ((swapEvents (view.eventsByID row.id)).flatMap
        (swapChanges h i unpostRow (headerOfRow height row))))
      (deleteBlockRest env height row (view.eventsByID row.id)) := by
    refine Confined.does_bind (Table.confined_modify (W := offVolume) ?_) offVolume_fixes fun _ =>
      Confined.does_bind (deleteBlockEvents_confined (W := offVolume) ?_ ?_ ?_) offVolume_fixes
        fun _ =>
      does_revertSwapEvent.bind_confined
        (fun _ => (deletePriceIndex_confined _).widen priceWrites_offVolume) offVolume_fixes
    · simp [offVolume, Cell.table]
    · rintro c (hc | hc) <;> simp [offVolume, hc]
    · simp [offVolume, Cell.table]
    · exact fun t _ => by simp [offVolume, Cell.table]
  obtain ⟨l, hl, hmoves⟩ := hdoes.run hrest
  refine ⟨l, hl, ?_⟩
  simpa using (hrevert.trans hdelete).moves.append hmoves

end Swaps

/-! ### The rows of the indexed blocks -/

/-- The swap events of the blocks of a stack. -/
def Network.swapsOf (net : Network) (stack : List (ℕ × BlockRow)) :
    List ((ℕ × BlockRow) × SwapEvent) :=
  stack.flatMap fun p => (swapEvents (net.events p.2.id)).map fun e => (p, e)

/-- The node numbers the events of a block and gives them its height. -/
structure Network.Numbered (net : Network) : Prop where
  height : ∀ id, ∀ e ∈ net.events id, e.height = net.heightOf id
  index : ∀ id, ((net.events id).map (·.index)).Nodup

/-- After genesis there is no row of a later block. -/
structure LedgersEmpty (net : Network) (db : DB) : Prop where
  tvl : ∀ id, ∀ tx ∈ (net.block id).transactions, ∀ i, db.get (.tvl tx.id i) = none
  volume : ∀ h i, net.genesisHeight < h → db.get (.volume h i) = none

/-- The rows of `tvl` with an index are those of the transactions of a stack, and those of
genesis. -/
def TVLPosted (net : Network) (pools : Pools) (genesis db : DB) (i : ℕ)
    (stack : List (ℕ × BlockRow)) : Prop :=
  Posted (fun q : (ℕ × BlockRow) × Transaction => q.2.id)
    (fun q => net.tvlRow pools q.1.2.id q.2 i) (fun txID => tvlOf (genesis.get (.tvl txID i)))
    (fun txID => tvlOf (db.get (.tvl txID i))) (net.transactionsOf stack)

/-- The rows of `volume` are those of the swap events of a stack, one for each event, with its
amounts. -/
def VolumePosted (net : Network) (genesis db : DB) (stack : List (ℕ × BlockRow)) : Prop :=
  Posted (fun q : (ℕ × BlockRow) × SwapEvent => (q.2.height, q.2.index))
    (fun q => some (volumeRow (net.block q.1.2.id).header q.2))
    (fun k => volumeOf (genesis.get (.volume k.1 k.2)))
    (fun k => volumeOf (db.get (.volume k.1 k.2))) (net.swapsOf stack)

/-- Both ledgers hold the rows of the indexed blocks and of genesis. -/
structure LedgersBooked (net : Network) (pools : Pools) (genesis db : DB) : Prop where
  tvl : ∀ i, TVLPosted net pools genesis db i (net.indexedBlocks db)
  volume : VolumePosted net genesis db (net.indexedBlocks db)

section Steps

variable {net : Network} {pools : Pools} {last : ℕ} {genesis db db' : DB}

/-- Swap events keep height and number of their event. -/
private theorem mem_swapEvents {events : List Event} {e : SwapEvent} (h : e ∈ swapEvents events) :
    ∃ e' ∈ events, e'.height = e.height ∧ e'.index = e.index := by
  obtain ⟨e', he', heq⟩ := List.mem_filterMap.mp h
  split at heq
  · obtain rfl := Option.some_injective _ heq
    exact ⟨e', he', rfl, rfl⟩
  · simp at heq

private theorem swapEvents_index_sublist (events : List Event) :
    ((swapEvents events).map (·.index)).Sublist (events.map (·.index)) := by
  induction events with
  | nil => exact .refl _
  | cons e events ih =>
    rw [swapEvents, List.filterMap_cons]
    split
    · exact ih.cons _
    · rename_i e' heq
      split at heq
      · obtain rfl := Option.some_injective _ heq
        exact ih.cons_cons _
      · simp at heq

/-- The events of one block have different keys. -/
private theorem Network.Numbered.nodup_block (hnum : net.Numbered) (id : BlockID) :
    ((swapEvents (net.events id)).map fun e => (e.height, e.index)).Nodup := by
  have hindex := (hnum.index id).sublist (swapEvents_index_sublist (net.events id))
  refine List.Nodup.of_map Prod.snd ?_
  rwa [List.map_map]

/-- The events of a stack have different keys. -/
private theorem Network.Numbered.nodup_swapsOf (hnum : net.Numbered)
    {stack : List (ℕ × BlockRow)} (hdesc : stack.Pairwise fun p q => q.1 < p.1)
    (hheight : ∀ p ∈ stack, net.heightOf p.2.id = p.1) :
    ((net.swapsOf stack).map fun q => (q.2.height, q.2.index)).Nodup := by
  induction stack with
  | nil => exact List.nodup_nil
  | cons p stack ih =>
    obtain ⟨hlt, hdesc⟩ := List.pairwise_cons.mp hdesc
    rw [Network.swapsOf, List.flatMap_cons, List.map_append, List.nodup_append]
    refine ⟨?_, ih hdesc fun q hq => hheight q (List.mem_cons_of_mem _ hq), ?_⟩
    · rw [List.map_map]
      exact hnum.nodup_block p.2.id
    · intro a ha b hb heq
      obtain ⟨⟨p', e⟩, hq, rfl⟩ := List.mem_map.mp ha
      obtain ⟨e, he, hpe⟩ := List.mem_map.mp hq
      obtain ⟨rfl, rfl⟩ := Prod.mk.inj hpe
      obtain ⟨⟨p'', e''⟩, hq'', rfl⟩ := List.mem_map.mp hb
      obtain ⟨p₂, hp₂, hq₂⟩ := List.mem_flatMap.mp hq''
      obtain ⟨e₂, he₂, hpe₂⟩ := List.mem_map.mp hq₂
      obtain ⟨rfl, rfl⟩ := Prod.mk.inj hpe₂
      obtain ⟨e₀, he₀, hh₀, -⟩ := mem_swapEvents he
      obtain ⟨e₃, he₃, hh₃, -⟩ := mem_swapEvents he₂
      have h₁ := hnum.height _ e₀ he₀
      have h₂ := hnum.height _ e₃ he₃
      rw [hheight p List.mem_cons_self] at h₁
      rw [hheight p₂ (List.mem_cons_of_mem _ hp₂)] at h₂
      have h₃ := hlt p₂ hp₂
      have h₄ := (Prod.mk.inj heq).1
      dsimp only at h₄
      omega

/-- The changes of the blocks of a stack are those of their transactions. -/
private theorem postings_transactionsOf {txID : TxID} {i : ℕ}
    {g : TVLRow → Option TVLRow → Option TVLRow} (stack : List (ℕ × BlockRow)) :
    postings (fun q : (ℕ × BlockRow) × Transaction => q.2.id)
        (fun q => net.tvlRow pools q.1.2.id q.2 i) g txID (net.transactionsOf stack) =
      stack.flatMap fun p =>
        (net.block p.2.id).transactions.flatMap (rowChanges net pools p.2.id txID i g) := by
  simp only [postings, Network.transactionsOf, List.flatMap_assoc, List.flatMap_map]
  rfl

/-- The changes of the blocks of a stack are those of their swap events. -/
private theorem postings_swapsOf {h i : ℕ} {g : VolumeRow → Option VolumeRow → Option VolumeRow}
    (stack : List (ℕ × BlockRow)) :
    postings (fun q : (ℕ × BlockRow) × SwapEvent => (q.2.height, q.2.index))
        (fun q => some (volumeRow (net.block q.1.2.id).header q.2)) g (h, i) (net.swapsOf stack) =
      stack.flatMap fun p =>
        (swapEvents (net.events p.2.id)).flatMap (swapChanges h i g (net.block p.2.id).header) := by
  simp only [postings, Network.swapsOf, List.flatMap_assoc, List.flatMap_map]
  rfl

private theorem tvl_processorOnly {txID : TxID} {i : ℕ} : ProcessorOnly (.tvl txID i) :=
  .inl (by simp [Cell.table, processorOnlyTables])

/-- Rows keep the time of their block. -/
private theorem Tracked.timestamp (h : Tracked net db) {p : ℕ × BlockRow}
    (hp : p ∈ net.indexedBlocks db) : p.2.timestamp = (net.block p.2.id).header.timestamp :=
  congrArg BlockRow.timestamp (h.rows p hp)

/-- The volume row of an event depends on the time of its block only. -/
private theorem swapChanges_headerOfRow {h i : ℕ}
    {g : VolumeRow → Option VolumeRow → Option VolumeRow} (htracked : Tracked net db)
    {p : ℕ × BlockRow} (hp : p ∈ net.indexedBlocks db) :
    swapChanges h i g (headerOfRow p.1 p.2) = swapChanges h i g (net.block p.2.id).header := by
  have hrow : volumeRow (headerOfRow p.1 p.2) = volumeRow (net.block p.2.id).header := by
    have htime : (headerOfRow p.1 p.2).timestamp = (net.block p.2.id).header.timestamp :=
      htracked.timestamp hp
    funext e
    rw [volumeRow, volumeRow, htime]
  funext e
  rw [swapChanges, swapChanges, hrow]

/-- **Step**, for `tvl`. -/
private theorem Job.Outcome.tvlPosted {j : Job} {s : Ledger} (ho : j.Outcome net last s.db db')
    (hj : j.UsesPools pools) (hs : net.GapFree last s.db) (htracked : Tracked net s.db)
    (htracked' : Tracked net db') (hempty : LedgersEmpty net genesis) {i : ℕ}
    (h : TVLPosted net pools genesis s.db i (net.indexedBlocks s.db)) :
    TVLPosted net pools genesis db' i (net.indexedBlocks db') := by
  have hbase : ∀ (stack : List (ℕ × BlockRow)), ∀ q ∈ net.transactionsOf stack,
      tvlOf (genesis.get (.tvl q.2.id i)) = none := fun stack q hq =>
    hempty.tvl q.1.2.id q.2 (net.mem_transactionsOf.mp hq).2 i
  cases ho with
  | @indexed env order node assets _ _ jobHeight block w henv hchosen hheight hblock hrun hnew
      hold =>
    have hne := hs.ne_genesisHeight henv hheight
    have hstack : net.indexedBlocks w.commit.committed =
        [(last + 1, blockRow block (net.events block.header.id))] ++ net.indexedBlocks s.db :=
      indexedBlocks_of_indexed hs hnew hold
    -- No transaction is in two indexed blocks, so a posting is not made twice.
    have hdistinct := htracked'.distinct
    rw [hstack, Network.transactionsOf_append, List.map_append, List.nodup_append] at hdistinct
    obtain ⟨hnodup, -, hapart⟩ := hdistinct
    rw [hstack, TVLPosted, Network.transactionsOf_append]
    refine Posted.post h hnodup (fun a ha b hb => ?_) (hbase _) fun txID => ?_
    · exact (hapart _ (List.mem_map_of_mem ha) _ (List.mem_map_of_mem hb)).symm
    · have hdoes : ∀ n, ∀ tx ∈ block.transactions,
          DoesWhile (fun w => SameGuarded s.db w.committed) (tvlOf (t := txID) (i := i))
            (fun l => l = rowChanges net pools block.header.id txID i postRow tx)
            (processTransaction env block.header (net.events block.header.id) tx n) :=
        fun n tx _ => processTransaction_does (by simp [Cell.table]) fun status hstatus =>
          (does_applyTransaction_tvl henv hj (by rw [hblock]) (indexedTx env n tx status)
            hstatus).weaken fun _ _ => trivial
      obtain ⟨l, hperm, -, hobs⟩ := indexed_changes tvl_processorOnly hne hdoes hrun
      refine ⟨l, ?_, hobs⟩
      have hid : (blockRow block (net.events block.header.id)).id = block.header.id := rfl
      rw [postings_transactionsOf, List.flatMap_singleton, hid, hblock]
      exact hperm
  | @deleted env view _ heights cut w henv hview hcut hmem hrun hget =>
    have hstack := indexedBlocks_of_deleted hcut hmem hget
    have hdistinct := htracked.distinct
    rw [hstack, Network.transactionsOf_append] at hdistinct
    rw [hstack, TVLPosted, Network.transactionsOf_append] at h
    have hblocks := stored_of_deleted hcut hmem
    refine Posted.unpost h hdistinct (hbase _) fun txID => ?_
    have hdoes : ∀ p ∈ getBlocksToDelete heights s.db, RevertDoes net env
        (tvlOf (t := txID) (i := i))
        (fun p tx l => l = rowChanges net pools p.2.id txID i unpostRow tx) p := by
      intro p hp tx _ _ hstatus
      have hmem' : p ∈ net.indexedBlocks s.db := hstack ▸ List.mem_append_left _ hp
      exact does_revertTransaction_tvl henv hj (htracked.timestamp hmem') hstatus
    rw [postings_transactionsOf]
    exact ⟨_, Async.mapOrder_flatMap_perm _ _ _, deleted_changes tvl_processorOnly
      (by simp [Cell.table]) hview htracked.recorded hblocks hdoes hrun⟩
  | idle hsame =>
    rw [hsame.indexedBlocks_eq]
    have hget : ∀ txID, tvlOf (db'.get (.tvl txID i)) = tvlOf (s.db.get (.tvl txID i)) :=
      fun txID => congrArg tvlOf (hsame _ (by simp [Cell.table, guardedTables]))
    simpa only [TVLPosted, hget] using h

/-- The swap events of a stack above another one. -/
private theorem swapsOf_append (stack stack' : List (ℕ × BlockRow)) :
    net.swapsOf (stack ++ stack') = net.swapsOf stack ++ net.swapsOf stack' :=
  List.flatMap_append

/-- The events of the indexed blocks have different keys. -/
private theorem Network.Numbered.nodup_indexed (hnum : net.Numbered) (hs : net.GapFree last db) :
    ((net.swapsOf (net.indexedBlocks db)).map fun q => (q.2.height, q.2.index)).Nodup :=
  hnum.nodup_swapsOf indexedBlocks_descending fun p hp =>
    hs.height_id p.1 p.2 (mem_indexedBlocks.mp hp).2

/-- Genesis has no rows of events of indexed blocks. -/
private theorem LedgersEmpty.base (hempty : LedgersEmpty net genesis) (hnum : net.Numbered)
    (hs : net.GapFree last db) {q : (ℕ × BlockRow) × SwapEvent}
    (hq : q ∈ net.swapsOf (net.indexedBlocks db)) :
    volumeOf (genesis.get (.volume q.2.height q.2.index)) = none := by
  obtain ⟨p, hp, hq⟩ := List.mem_flatMap.mp hq
  obtain ⟨e, he, rfl⟩ := List.mem_map.mp hq
  obtain ⟨e', he', hheight, -⟩ := mem_swapEvents he
  obtain ⟨hgt, hrow⟩ := mem_indexedBlocks.mp hp
  have hh := hnum.height _ e' he'
  rw [hs.height_id _ _ hrow, hheight] at hh
  exact hempty.volume e.height e.index (hh ▸ hgt)

/-- **Step**, for `volume`. -/
private theorem Job.Outcome.volumePosted {j : Job} {s : Ledger} (ho : j.Outcome net last s.db db')
    (hs : net.GapFree last s.db) (htracked : Tracked net s.db) (hempty : LedgersEmpty net genesis)
    (hnum : net.Numbered) (h : VolumePosted net genesis s.db (net.indexedBlocks s.db)) :
    VolumePosted net genesis db' (net.indexedBlocks db') := by
  obtain ⟨last', hs'⟩ := ho.gapFree hs
  have hnodup' := hnum.nodup_indexed hs'
  have hbase' := fun q => hempty.base hnum hs' (q := q)
  cases ho with
  | @indexed env order node assets _ _ jobHeight block w henv hchosen hheight hblock hrun hnew
      hold =>
    have hne := hs.ne_genesisHeight henv hheight
    have hstack : net.indexedBlocks w.commit.committed =
        [(last + 1, blockRow block (net.events block.header.id))] ++ net.indexedBlocks s.db :=
      indexedBlocks_of_indexed hs hnew hold
    rw [hstack, swapsOf_append, List.map_append, List.nodup_append] at hnodup'
    obtain ⟨hnodup, -, hapart⟩ := hnodup'
    rw [hstack, swapsOf_append] at hbase'
    rw [hstack, VolumePosted, swapsOf_append]
    refine Posted.post h hnodup (fun a ha b hb => ?_)
      (fun q hq => hbase' q (List.mem_append_left _ hq)) fun k => ?_
    · exact (hapart _ (List.mem_map_of_mem ha) _ (List.mem_map_of_mem hb)).symm
    · obtain ⟨l, hperm, hmoves⟩ := (does_indexBlockTrx_volume (h := k.1) (i := k.2) hne).run hrun
      refine ⟨l, ?_, ?_⟩
      · have hid : (blockRow block (net.events block.header.id)).id = block.header.id := rfl
        rw [postings_swapsOf, List.flatMap_singleton, hid, hblock]
        exact hperm
      · have hview := hmoves.view
        rwa [view_ofStore] at hview
  | @deleted env view _ heights cut w henv hview hcut hmem hrun hget =>
    have hstack := indexedBlocks_of_deleted hcut hmem hget
    have hnodup := hnum.nodup_indexed hs
    have hbase := fun q => hempty.base hnum hs (q := q)
    rw [hstack, swapsOf_append] at hnodup hbase
    rw [hstack, VolumePosted, swapsOf_append] at h
    refine Posted.unpost h hnodup (fun q hq => hbase q (List.mem_append_left _ hq)) fun k => ?_
    have hblock : ∀ p ∈ getBlocksToDelete heights s.db, ∀ v v', SameGuarded s.db v.committed →
        (deleteBlock env view p.1 p.2).run v = (.ok (), v') →
          ∃ l, l.Perm ((swapEvents (net.events p.2.id)).flatMap
              (swapChanges k.1 k.2 unpostRow (net.block p.2.id).header)) ∧
            Moves (volumeOf (h := k.1) (i := k.2)) (replay l) v v' := by
      intro p hp v v' hv hrun
      have hmem' : p ∈ net.indexedBlocks s.db := hstack ▸ List.mem_append_left _ hp
      have hrow : (v.committed.get (.block p.1)).isSome := by
        rw [hv _ (by simp [Cell.table, guardedTables]), (mem_indexedBlocks.mp hmem').2]
        rfl
      -- The events are read again, with the header of the row instead of that of the block.
      obtain ⟨l, hperm, hmoves⟩ := deleteBlock_volume (h := k.1) (i := k.2) hrow hrun
      rw [hview.events, swapChanges_headerOfRow htracked hmem'] at hperm
      exact ⟨l, hperm, hmoves⟩
    obtain ⟨l, hturn, hobs⟩ := deleted_moves (by simp [Cell.table]) hblock hrun
    refine ⟨l, ?_, hobs⟩
    rw [postings_swapsOf]
    exact hturn.perm.trans ((Async.mapOrder_perm _).flatMap_right _)
  | idle hsame =>
    rw [hsame.indexedBlocks_eq]
    have hget : ∀ k : ℕ × ℕ,
        volumeOf (db'.get (.volume k.1 k.2)) = volumeOf (s.db.get (.volume k.1 k.2)) :=
      fun k => congrArg volumeOf (hsame _ (by simp [Cell.table, guardedTables]))
    simpa only [VolumePosted, hget] using h

end Steps

/-! ### Sums -/

namespace Network

/-- The entries of the blocks of a stack. -/
def tvlEntries (net : Network) (pools : Pools) (stack : List (ℕ × BlockRow)) : List TVLEntry :=
  (net.transactionsOf stack).flatMap fun q =>
    (net.tvlEntry pools q.1.2.id q.2 0).toList ++ (net.tvlEntry pools q.1.2.id q.2 1).toList

end Network

/-- What an entry counts for a token in a pool. -/
def TVLEntry.share (f : ℤ → ℤ) (pool : Address) (token : TokenID) (e : TVLEntry) : ℤ :=
  if e.poolAddress = pool ∧ e.tokenId = token then f e.amount else 0

/-- The amount of a token that entries add to a pool. -/
def tvlAmount (pool : Address) (token : TokenID) (entries : List TVLEntry) : ℤ :=
  (entries.map (TVLEntry.share id pool token)).sum

/-- What `Number` adds to the amount of a token that entries add to a pool. -/
def tvlError (pool : Address) (token : TokenID) (entries : List TVLEntry) : ℤ :=
  (entries.map (TVLEntry.share (fun a => jsNumber a - a) pool token)).sum

/-- The amount of a row of `tvl`, if it is about the token in the pool. -/
def tvlWeight (pool : Address) (token : TokenID) : (c : Cell) → Row c → ℤ
  | .tvl _ _, r => if r.poolAddress = pool ∧ r.tokenId = token then r.amount else 0
  | _, _ => 0

/-- Amounts in the safe range are not rounded. -/
theorem tvlError_of_le {pool : Address} {token : TokenID} {entries : List TVLEntry}
    (h : ∀ e ∈ entries, e.amount.natAbs ≤ 2 ^ 53) : tvlError pool token entries = 0 := by
  refine List.sum_eq_zero fun x hx => ?_
  obtain ⟨e, he, rfl⟩ := List.mem_map.mp hx
  rw [TVLEntry.share, jsNumber_of_le (h e he), sub_self, ite_self]

section Sums

variable {net : Network} {pools : Pools} {genesis db : DB} {pool : Address} {token : TokenID}

/-- What is booked is the exact amount and the rounding error. -/
private theorem sum_share_jsNumber (entries : List TVLEntry) :
    (entries.map (TVLEntry.share jsNumber pool token)).sum =
      tvlAmount pool token entries + tvlError pool token entries := by
  rw [tvlAmount, tvlError, ← List.sum_map_add]
  congr 1
  refine List.map_congr_left fun e _ => ?_
  simp only [TVLEntry.share, id]
  split
  · omega
  · rfl

/-- The row of an entry weighs what `Number` makes of its amount. -/
private theorem weight_tvl (pool : Address) (token : TokenID) {txID : TxID} {i : ℕ}
    {o : Option TVLEntry} {time : ℕ} {sender : Address}
    (h : tvlOf (db.get (.tvl txID i)) = o.map fun e => e.row time sender) :
    db.weight (tvlWeight pool token) (.tvl txID i) =
      (o.toList.map (TVLEntry.share jsNumber pool token)).sum := by
  have hget : db.get (.tvl txID i) = o.map fun e => e.row time sender := h
  cases o with
  | none => exact Store.weight_of_none hget
  | some e =>
    rw [Store.weight_of_some hget, Option.toList_some, List.map_singleton, List.sum_singleton]
    rfl

/-- The cells of the rows of transactions. -/
private def tvlCells (qs : List ((ℕ × BlockRow) × Transaction)) : List Cell :=
  qs.flatMap fun q => [.tvl q.2.id 0, .tvl q.2.id 1]

private theorem mem_tvlCells {qs : List ((ℕ × BlockRow) × Transaction)} {c : Cell} :
    c ∈ tvlCells qs ↔ ∃ q ∈ qs, c = .tvl q.2.id 0 ∨ c = .tvl q.2.id 1 := by
  simp [tvlCells]

private theorem nodup_tvlCells {qs : List ((ℕ × BlockRow) × Transaction)}
    (h : (qs.map (·.2.id)).Nodup) : (tvlCells qs).Nodup := by
  induction qs with
  | nil => exact List.nodup_nil
  | cons q qs ih =>
    rw [List.map_cons, List.nodup_cons] at h
    rw [tvlCells, List.flatMap_cons, ← tvlCells, List.nodup_append]
    refine ⟨by simp, ih h.2, fun a ha b hb heq => h.1 ?_⟩
    subst heq
    obtain ⟨q', hq', hcell⟩ := mem_tvlCells.mp hb
    have hid : q.2.id = q'.2.id := by
      rcases hcell with rfl | rfl <;> simpa [eq_comm] using ha
    rw [hid]
    exact List.mem_map_of_mem hq'

/-- The rows of transactions add up to what `Number` makes of the amounts. -/
private theorem sum_weight_tvlCells {qs : List ((ℕ × BlockRow) × Transaction)}
    (h : ∀ i, ∀ q ∈ qs, tvlOf (db.get (.tvl q.2.id i)) = net.tvlRow pools q.1.2.id q.2 i) :
    ((tvlCells qs).map (db.weight (tvlWeight pool token))).sum =
      ((qs.flatMap fun q => (net.tvlEntry pools q.1.2.id q.2 0).toList ++
        (net.tvlEntry pools q.1.2.id q.2 1).toList).map
          (TVLEntry.share jsNumber pool token)).sum := by
  induction qs with
  | nil => rfl
  | cons q qs ih =>
    have hq := fun i => weight_tvl pool token (h i q List.mem_cons_self)
    have hrest := ih fun i q' hq' => h i q' (List.mem_cons_of_mem _ hq')
    simp only [tvlCells, List.flatMap_cons, List.map_append, List.sum_append, List.map_cons,
      List.map_nil, List.sum_cons, List.sum_nil] at hrest ⊢
    rw [hq 0, hq 1, hrest]
    omega

/-- Other rows are those of genesis. -/
private theorem weight_off_tvlCells (hempty : LedgersEmpty net genesis)
    (h : ∀ i, TVLPosted net pools genesis db i (net.indexedBlocks db)) {c : Cell}
    (hc : c ∉ tvlCells (net.transactionsOf (net.indexedBlocks db))) :
    genesis.weight (tvlWeight pool token) c = db.weight (tvlWeight pool token) c := by
  cases c with
  | tvl txID i =>
    refine Store.weight_congr ?_
    by_cases hmem : ∃ q ∈ net.transactionsOf (net.indexedBlocks db), q.2.id = txID
    · obtain ⟨q, hq, rfl⟩ := hmem
      have hpresent := (h i).present q hq
      have hgone := hempty.tvl q.1.2.id q.2 (net.mem_transactionsOf.mp hq).2 i
      match i with
      | 0 => exact absurd (mem_tvlCells.mpr ⟨q, hq, .inl rfl⟩) hc
      | 1 => exact absurd (mem_tvlCells.mpr ⟨q, hq, .inr rfl⟩) hc
      | i + 2 => exact hgone.trans hpresent.symm
    · exact ((h i).absent txID fun q hq heq => hmem ⟨q, hq, heq⟩).symm
  | _ => rw [Store.weight_of_zero fun _ => rfl, Store.weight_of_zero fun _ => rfl]

/-- The rows of the indexed blocks add up to what `Number` makes of the amounts. -/
private theorem tvl_total (pool : Address) (token : TokenID)
    (h : ∀ i, TVLPosted net pools genesis db i (net.indexedBlocks db))
    (htracked : Tracked net db) (hempty : LedgersEmpty net genesis) :
    db.total (tvlWeight pool token) = genesis.total (tvlWeight pool token) +
      (tvlAmount pool token (net.tvlEntries pools (net.indexedBlocks db)) +
        tvlError pool token (net.tvlEntries pools (net.indexedBlocks db))) := by
  have hgone : ∀ i, ∀ q ∈ net.transactionsOf (net.indexedBlocks db),
      genesis.get (.tvl q.2.id i) = none := fun i q hq =>
    hempty.tvl q.1.2.id q.2 (net.mem_transactionsOf.mp hq).2 i
  have hremoved : genesis.total (tvlWeight pool token) = db.total (tvlWeight pool token) -
      ((tvlCells (net.transactionsOf (net.indexedBlocks db))).map
        (db.weight (tvlWeight pool token))).sum := by
    refine Store.total_of_removed (nodup_tvlCells htracked.distinct) (fun c hc => ?_)
      fun c hc => weight_off_tvlCells hempty h hc
    obtain ⟨q, hq, rfl | rfl⟩ := mem_tvlCells.mp hc
    · exact Store.weight_of_none (hgone 0 q hq)
    · exact Store.weight_of_none (hgone 1 q hq)
  rw [hremoved, sum_weight_tvlCells fun i q hq => (h i).present q hq, ← Network.tvlEntries,
    sum_share_jsNumber]
  omega

end Sums

/-! ### Runs -/

/-- The sums of `tvl` are those of genesis with the exact amounts of the indexed blocks, and
`volume` holds one row for each of their swap events, with its amounts. -/
structure LedgersExact (net : Network) (pools : Pools) (genesis db : DB) : Prop where
  tvl : ∀ pool token, db.total (tvlWeight pool token) = genesis.total (tvlWeight pool token) +
    tvlAmount pool token (net.tvlEntries pools (net.indexedBlocks db))
  volume : VolumePosted net genesis db (net.indexedBlocks db)

/-- The rows of both ledgers are the same. -/
structure SameLedgers (db db' : DB) : Prop where
  tvl : ∀ txID i, db'.get (.tvl txID i) = db.get (.tvl txID i)
  volume : ∀ h i, db'.get (.volume h i) = db.get (.volume h i)

/-- The jobs of the runs. -/
def Job.KeepsLedgers (net : Network) (pools : Pools) (s : Ledger) (j : Job) : Prop :=
  j.Answered net ∧ j.Fresh net s ∧ j.UsesPools pools

section Runs

variable {net : Network} {pools : Pools} {genesis db db' : DB} {s₀ s : Ledger}

/-- What a table holds is determined by the items posted. -/
private theorem LedgersBooked.same (h : LedgersBooked net pools genesis db)
    (h' : LedgersBooked net pools genesis db')
    (hstack : net.indexedBlocks db' = net.indexedBlocks db) : SameLedgers db db' := by
  have htvl := h'.tvl
  have hvolume := h'.volume
  rw [hstack] at htvl hvolume
  exact ⟨fun txID i => (htvl i).unique (h.tvl i) txID, fun n i => hvolume.unique h.volume (n, i)⟩

/-- The rows of both ledgers are those of genesis and of the indexed blocks, in every state
reached. -/
theorem ledgers_booked (h₀ : net.GapFree net.genesisHeight s₀.db) (hempty : LedgersEmpty net s₀.db)
    (hnum : net.Numbered) (hrun : Run Job.Step (Job.KeepsLedgers net pools) s₀ s) :
    Tracked net s.db ∧ LedgersBooked net pools s₀.db s.db := by
  refine Run.tracked (fun db => Tracked net db ∧ LedgersBooked net pools s₀.db db) h₀
    ⟨tracked_genesis h₀, ?_⟩ (fun last s j db' hs htracked htracked' hpools ho h => ?_) hrun
  · refine ⟨fun i => ?_, ?_⟩
    · rw [indexedBlocks_genesis h₀]
      exact posted_nil
    · rw [indexedBlocks_genesis h₀]
      exact posted_nil
  · refine ⟨htracked', fun i => ?_, ho.volumePosted hs htracked hempty hnum h.2.volume⟩
    exact ho.tvlPosted hpools hs htracked htracked' hempty (h.2.tvl i)

/-- **The ledgers are exact precisely when the rounding errors cancel.** In every state reached by
jobs of the network, the sums of `tvl` are the exact ones, `volume` holds the rows of the swap
events of the indexed blocks, and going on and deleting again what was added removes the very rows
that were added, if and only if for every pool and token the rounding errors of the indexed blocks
add up to nothing. -/
theorem ledgers_exact_iff (h₀ : net.GapFree net.genesisHeight s₀.db)
    (hempty : LedgersEmpty net s₀.db) (hnum : net.Numbered)
    (hrun : Run Job.Step (Job.KeepsLedgers net pools) s₀ s) :
    (LedgersExact net pools s₀.db s.db ∧ ∀ s', Run Job.Step (Job.KeepsLedgers net pools) s s' →
        net.indexedBlocks s'.db = net.indexedBlocks s.db → SameLedgers s.db s'.db) ↔
      ∀ pool token, tvlError pool token (net.tvlEntries pools (net.indexedBlocks s.db)) = 0 := by
  obtain ⟨htracked, hbooked⟩ := ledgers_booked h₀ hempty hnum hrun
  have htotal := fun pool token => tvl_total pool token hbooked.tvl htracked hempty
  constructor
  · rintro ⟨hexact, -⟩ pool token
    have hsum := hexact.tvl pool token
    rw [htotal] at hsum
    omega
  · intro herror
    refine ⟨⟨fun pool token => ?_, hbooked.volume⟩, fun s' hrun' hstack => ?_⟩
    · rw [htotal, herror, add_zero]
    · exact hbooked.same (ledgers_booked h₀ hempty hnum (hrun.trans hrun')).2 hstack

end Runs

/-! ### Amounts above the safe range -/

/-- Block `a` adds the same amount of both tokens to the pool. -/
def liquidityNetwork (amount : ℕ) : Network :=
  twoBlockNetwork
    (fun id => if id = "a" then
      [⟨"t", "dex", "increaseLiquidity", .dexIncreaseLiquidity "pool", "alice", 0, 0, 0, 0,
        Command.dexIncreaseLiquidity_fits "pool"⟩]
      else [])
    fun id => if id = "a" then
      [⟨"0", 0, 1, [txTopic "t"], .commandExecutionResult "dex" true⟩,
        ⟨"1", 1, 1, [txTopic "t"], .dexMint ⟨10, 20, 5, -5, 0, 0⟩⟩,
        ⟨"2", 2, 1, [txTopic "t"], .increaseLiquidity ⟨"nft", "alice", 5, amount, amount⟩⟩] else []

/-- The tables after genesis, with the tokens of the pool. -/
def tokenLedger : Ledger :=
  ⟨(Write.all [Table.upsertRow (.token "btc") fun _ => { symbol := "BTC", decimal := 8 },
    Table.upsertRow (.token "kly") fun _ => { symbol := "KLY", decimal := 8 }] : Stmt).exec
      genesisLedger.db, fun _ => none⟩

/-- One pool. -/
def onePool : Pools := ⟨onePoolEnv.poolAddress, onePoolEnv.decodePoolAddress⟩

/-- The state after block `a` is indexed. -/
def liquidityAdded (amount : ℕ) : Ledger :=
  ((liquidityNetwork amount).indexNext.withEnv onePoolEnv).run tokenLedger

section Witness

variable {amount : ℕ}

private theorem gapFree_tokenLedger : (liquidityNetwork amount).GapFree 0 tokenLedger.db := by
  refine gapFree_withRows fun n => Write.all_fixes fun st hst => ?_
  rcases List.mem_pair.mp hst with rfl | rfl <;> exact Table.upsertRow_fixes (by simp)

private theorem ledgersEmpty_tokenLedger :
    LedgersEmpty (liquidityNetwork amount) tokenLedger.db where
  tvl _ _ _ _ := rfl
  volume _ _ _ := rfl

private theorem numbered_liquidityNetwork : (liquidityNetwork amount).Numbered where
  height id e he := by
    by_cases hid : id = "a"
    · subst hid
      simp [liquidityNetwork, twoBlockNetwork] at he
      rcases he with rfl | rfl | rfl <;> rfl
    · simp [liquidityNetwork, twoBlockNetwork, hid] at he
  index id := by
    by_cases hid : id = "a"
    · subst hid
      change [0, 1, 2].Nodup
      decide
    · simp [liquidityNetwork, twoBlockNetwork, hid]

private theorem run_liquidityAdded : Run Job.Step
    (Job.KeepsLedgers (liquidityNetwork amount) onePool)
    tokenLedger (liquidityAdded amount) := by
  refine .tail .refl rfl ⟨indexNext_answered.withEnv ⟨rfl, rfl, rfl⟩, ?_, ⟨rfl, rfl⟩⟩
  exact indexNext_fresh gapFree_tokenLedger (by simp) fun id ha _ => if_neg ha

end Witness

/-- Amounts in the safe range are added exactly. -/
theorem ledgers_exact_iff_seven :
    LedgersExact (liquidityNetwork 7) onePool tokenLedger.db (liquidityAdded 7).db ∧
      tvlAmount "pool" "btc" ((liquidityNetwork 7).tvlEntries onePool
        ((liquidityNetwork 7).indexedBlocks (liquidityAdded 7).db)) = 7 := by
  have hentries : (liquidityNetwork 7).tvlEntries onePool
      ((liquidityNetwork 7).indexedBlocks (liquidityAdded 7).db) =
        [⟨"pool", "btc", 7⟩, ⟨"pool", "kly", 7⟩] := by decide +kernel
  refine ⟨((ledgers_exact_iff gapFree_tokenLedger ledgersEmpty_tokenLedger
    numbered_liquidityNetwork run_liquidityAdded).mpr fun pool token => ?_).1, ?_⟩
  · rw [hentries]
    exact tvlError_of_le (by simp)
  · rw [hentries]
    rfl

/-- One more than `2 ^ 53` is added, and the table has `2 ^ 53`. -/
theorem tvl_rounded :
    Run Job.Step (Job.KeepsLedgers (liquidityNetwork (2 ^ 53 + 1)) onePool) tokenLedger
        (liquidityAdded (2 ^ 53 + 1)) ∧
      tokenLedger.db.total (tvlWeight "pool" "btc") = 0 ∧
      tvlAmount "pool" "btc" ((liquidityNetwork (2 ^ 53 + 1)).tvlEntries onePool
        ((liquidityNetwork (2 ^ 53 + 1)).indexedBlocks (liquidityAdded (2 ^ 53 + 1)).db)) =
          2 ^ 53 + 1 ∧
      (liquidityAdded (2 ^ 53 + 1)).db.total (tvlWeight "pool" "btc") = 2 ^ 53 ∧
      ¬ LedgersExact (liquidityNetwork (2 ^ 53 + 1)) onePool tokenLedger.db
        (liquidityAdded (2 ^ 53 + 1)).db := by
  have hbefore : tokenLedger.db.total (tvlWeight "pool" "btc") = 0 := by decide +kernel
  have hamount : tvlAmount "pool" "btc" ((liquidityNetwork (2 ^ 53 + 1)).tvlEntries onePool
      ((liquidityNetwork (2 ^ 53 + 1)).indexedBlocks (liquidityAdded (2 ^ 53 + 1)).db)) =
        2 ^ 53 + 1 := by decide +kernel
  have hafter : (liquidityAdded (2 ^ 53 + 1)).db.total (tvlWeight "pool" "btc") = 2 ^ 53 := by
    decide +kernel
  refine ⟨run_liquidityAdded, hbefore, hamount, hafter, fun h => ?_⟩
  have hsum := h.tvl "pool" "btc"
  rw [hbefore, hamount, hafter] at hsum
  simp at hsum

end SwaptoshiService
