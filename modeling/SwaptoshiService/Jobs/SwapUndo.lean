import SwaptoshiService.Indexer.DeleteBlocks
import SwaptoshiService.Lib.Reach
import SwaptoshiService.Lib.Undo

/-!
# Swaps, in any order, and back

`applySwapEvent` and `revertSwapEvent` run one function for every swap event of a block, all at
the same time, and each function overwrites both rows of its pool with the tick, liquidity and
price of **its own** event. Which event comes last is left to chance, so a pool keeps the right
values under every order exactly if it has at most one swap in the block, or if none of its swaps
changes its tick or liquidity (`swap_undo_iff`).
-/

namespace SwaptoshiService

open Session Async

/-! ### Pools and their swaps -/

/-- The key under which a pool is stored in one of its two orientations. -/
def PoolKey.oriented (key : PoolKey) : Bool → PoolKey
  | false => key
  | true => ⟨key.token1, key.token0, key.fee⟩

/-- The tokens of a pool are ordered, as `getPoolKey` leaves them. -/
def PoolKey.Ordered (key : PoolKey) : Prop := key.token0 < key.token1

/-- Ordered pools share no rows. -/
theorem PoolKey.oriented_inj {key key' : PoolKey} (h : key.Ordered) (h' : key'.Ordered)
    {i i' : Bool} (heq : key.oriented i = key'.oriented i') : key = key' ∧ i = i' := by
  obtain ⟨a, b, f⟩ := key
  obtain ⟨a', b', f'⟩ := key'
  cases i <;> cases i' <;> simp only [oriented, PoolKey.mk.injEq] at heq
  · exact ⟨by simp [heq], rfl⟩
  · obtain ⟨rfl, rfl, -⟩ := heq
    exact absurd h' (lt_asymm h)
  · obtain ⟨rfl, rfl, -⟩ := heq
    exact absurd h' (lt_asymm h)
  · exact ⟨by simp [heq], rfl⟩

theorem PoolKey.Ordered.token_ne {key : PoolKey} (h : key.Ordered) (inverted : Bool) :
    (key.oriented inverted).token0 ≠ (key.oriented inverted).token1 := by
  cases inverted with
  | false => exact ne_of_lt h
  | true => exact ne_of_gt h

namespace SwapEvent

/-- The pool of a swap event. -/
def key (env : Env) (e : SwapEvent) : PoolKey := env.decodePoolAddress e.poolAddress

/-- The state of the pool before the swap. -/
def before (e : SwapEvent) : PoolState := ⟨e.data.liquidityBefore, e.data.tickBefore⟩

/-- The state of the pool after the swap. -/
def after (e : SwapEvent) : PoolState := ⟨e.data.liquidity, e.data.tick⟩

end SwapEvent

/-- The swaps of one pool, in block order. -/
def swapsAt (env : Env) (key : PoolKey) (es : List SwapEvent) : List SwapEvent :=
  es.filter fun e => e.key env = key

/-- The columns that swaps write: liquidity and tick, and the price. -/
def PoolRow.columns (r : PoolRow) : PoolState × ℚ := (⟨r.liquidity, r.tick⟩, r.price)

/-- The columns of the row under a key. -/
def columnsAt (db : DB) (k : PoolKey) : Option (PoolState × ℚ) :=
  (db.get (.pool k.token0 k.token1 k.fee) : Option PoolRow).map PoolRow.columns

/-- The decimals of a registered token. -/
def registeredDecimal (db : DB) (t : TokenID) : ℕ :=
  (db.get (.token t) : Option TokenRow).elim 0 TokenRow.decimal

/-- A state together with the price that its tick stands for. -/
def priced (env : Env) (db : DB) (key : PoolKey) (state : PoolState) (inverted : Bool) :
    PoolState × ℚ :=
  (state, env.getPriceAtTick state.tick (registeredDecimal db key.token0)
    (registeredDecimal db key.token1) inverted)

/-- Both rows of a pool hold a state, and the price that its tick stands for. -/
def PoolHolds (env : Env) (db : DB) (key : PoolKey) (state : PoolState) (db' : DB) : Prop :=
  ∀ inverted, columnsAt db' (key.oriented inverted) = some (priced env db key state inverted)

/-- The swaps of a block on pools that are in the table, with their tokens; the events of each
pool chain from the state in its two rows. -/
structure ChainedSwaps (env : Env) (db : DB) (es : List SwapEvent) : Prop where
  ordered : ∀ e ∈ es, (e.key env).Ordered
  tokens : ∀ e ∈ es, (db.get (.token (e.key env).token0)).isSome ∧
    (db.get (.token (e.key env).token1)).isSome
  chain : ∀ e ∈ es, ∀ inverted, ∃ c, columnsAt db ((e.key env).oriented inverted) = some c ∧
    ChainsFrom SwapEvent.before SwapEvent.after c.1 (swapsAt env (e.key env) es)

/-! ### What the functions for the events do -/

/-- What holds while swaps are processed: the tokens stay, the open transaction leaves the pools
alone, and the pools stay in the table. -/
structure SwapInv (env : Env) (db : DB) (es : List SwapEvent) (w : DBSession) : Prop where
  tokens : Shows .dbTrx isToken db w
  pending : ∀ t₀ t₁ fee o, w.pending.act (.pool t₀ t₁ fee) o = o
  rows : ∀ e ∈ es, ∀ inverted, (columnsAt w.committed ((e.key env).oriented inverted)).isSome

section Programs

variable {env : Env} {header : BlockHeader} {db : DB} {es : List SwapEvent} {e : SwapEvent}
  {k : PoolKey} {v : PoolState × ℚ}

theorem SwapInv.send {w : DBSession} (h : SwapInv env db es w) {conn : Conn} {st : Stmt}
    (htoken : ∀ c, isToken c → st.Fixes c)
    (htrx : conn = .dbTrx → ∀ t₀ t₁ fee, st.Fixes (.pool t₀ t₁ fee))
    (hrow : ∀ t₀ t₁ fee o, (st.act (.pool t₀ t₁ fee) o).isSome = o.isSome) :
    SwapInv env db es (send conn st w) := by
  refine ⟨fun c hc => ?_, fun t₀ t₁ fee o => ?_, fun e he inverted => ?_⟩
  · exact ((sameAt_send (htoken c hc) w).view .dbTrx).trans (h.tokens c hc)
  · cases conn with
    | default => exact h.pending t₀ t₁ fee o
    | dbTrx => rw [send_dbTrx_pending, Write.comp_act, h.pending, htrx rfl]
  · cases conn with
    | default =>
      have hsome := h.rows e he inverted
      simpa [columnsAt, hrow] using hsome
    | dbTrx => exact h.rows e he inverted

/-- The goal: a row of the table `pool` shows the given columns. -/
def RowShows (k : PoolKey) (v : PoolState × ℚ) (w : DBSession) : Prop :=
  columnsAt w.committed k = some v

/-- A statement outside `pool` and the tokens. -/
theorem stable_exec_outside {conn : Conn} {st : Stmt} (htoken : ∀ c, isToken c → st.Fixes c)
    (hpool : ∀ t₀ t₁ fee, st.Fixes (.pool t₀ t₁ fee)) :
    (Session.exec conn st : Prog Unit).Stable NoFailure (SwapInv env db es) (RowShows k v) := by
  refine stable_act fun w hw =>
    ⟨hw.send htoken (fun _ => hpool) fun t₀ t₁ fee o => ?_, fun hq => ?_⟩
  · rw [hpool t₀ t₁ fee o]
  · cases conn with
    | default => simpa [RowShows, columnsAt, hpool k.token0 k.token1 k.fee _] using hq
    | dbTrx => exact hq

theorem pool_cell_inj {k k' : PoolKey}
    (h : Cell.pool k.token0 k.token1 k.fee = .pool k'.token0 k'.token1 k'.fee) : k = k' := by
  obtain ⟨a, b, f⟩ := k
  obtain ⟨a', b', f'⟩ := k'
  simpa using h

/-- The columns after the update of one pool row. -/
theorem columnsAt_updateRow (db : DB) (k k' : PoolKey) (price : ℚ) (state : PoolState) :
    columnsAt ((Table.updateRow (.pool k'.token0 k'.token1 k'.fee) (setPool price state) :
      Stmt).exec db) k =
    if k = k' then (columnsAt db k).map fun _ => (state, price) else columnsAt db k := by
  unfold columnsAt
  split
  · rename_i heq
    subst heq
    rw [Write.exec_get, Table.updateRow_act_self, Option.map_map, Option.map_map]
    rfl
  · rename_i hne
    rw [Write.exec_get, Table.updateRow_fixes fun h => hne (pool_cell_inj h)]

private theorem swapInv_updatePool {k' : PoolKey} {price : ℚ} {state : PoolState} {w : DBSession}
    (hw : SwapInv env db es w) : SwapInv env db es (Session.send .default
      (Table.updateRow (.pool k'.token0 k'.token1 k'.fee) (setPool price state)) w) := by
  refine hw.send (fun c hc => Table.updateRow_fixes fun heq => ?_) (fun h => by simp at h)
    fun t₀ t₁ fee o => ?_
  · simp [isToken, heq, Cell.table] at hc
  · by_cases hcell : Cell.pool t₀ t₁ fee = .pool k'.token0 k'.token1 k'.fee
    · obtain ⟨rfl, rfl, rfl⟩ := Cell.pool.inj hcell
      rw [Table.updateRow_act_self, Option.isSome_map]
    · rw [Table.updateRow_fixes hcell]

/-- Updating a row does not spoil the goal if it writes the goal, or another row. -/
theorem stable_updatePool {k' : PoolKey} {price : ℚ} {state : PoolState}
    (h : k = k' → (state, price) = v) :
    (Table.update .default (.pool k'.token0 k'.token1 k'.fee) (setPool price state) :
      Prog Unit).Stable NoFailure (SwapInv env db es) (RowShows k v) := by
  refine stable_act fun w hw => ⟨swapInv_updatePool hw, fun hq => ?_⟩
  rw [RowShows, send_default_committed, columnsAt_updateRow]
  split
  · rename_i heq
    have hsome : columnsAt w.committed k = some v := hq
    rw [hsome, Option.map_some, h heq]
  · exact hq

/-- Updating the row of a pool that is there reaches the goal. -/
theorem reaches_updatePool {inverted : Bool} {price : ℚ} {state : PoolState} (he : e ∈ es)
    (hk : k = (e.key env).oriented inverted) (h : (state, price) = v) :
    (Table.update .default (.pool k.token0 k.token1 k.fee) (setPool price state) :
      Prog Unit).Reaches (SwapInv env db es) (RowShows k v) := by
  refine reaches_act fun w hw => ?_
  obtain ⟨c, hc⟩ := Option.isSome_iff_exists.mp (hw.rows e he inverted)
  rw [RowShows, send_default_committed, columnsAt_updateRow, if_pos rfl, hk, hc, ← h]
  rfl

theorem stable_updatePoolRows {key : PoolKey} {d₀ d₁ : ℕ} {state : PoolState}
    (h : ∀ inverted, k = key.oriented inverted →
      (state, env.getPriceAtTick state.tick d₀ d₁ inverted) = v) :
    (updatePoolRows env key d₀ d₁ state).Stable NoFailure (SwapInv env db es) (RowShows k v) :=
  (stable_updatePool (h false)).bind fun _ => stable_updatePool (h true)

theorem reaches_updatePoolRows {d₀ d₁ : ℕ} {state : PoolState} {inverted : Bool} (he : e ∈ es)
    (hk : k = (e.key env).oriented inverted)
    (h : ∀ inverted, k = (e.key env).oriented inverted →
      (state, env.getPriceAtTick state.tick d₀ d₁ inverted) = v) :
    (updatePoolRows env (e.key env) d₀ d₁ state).Reaches (SwapInv env db es) (RowShows k v) := by
  cases inverted with
  | false =>
    subst hk
    exact (reaches_updatePool he rfl (h false rfl)).bind_left _
  | true =>
    refine Reaches.bind_right (stable_updatePool (h false)) fun _ => ?_
    subst hk
    exact reaches_updatePool he rfl (h true rfl)

private theorem stable_updateCurrentPrice (t : TokenID) :
    (updateCurrentPrice env t).Stable NoFailure (SwapInv env db es) (RowShows k v) := by
  rw [updateCurrentPrice]
  split
  · exact stable_pure ()
  · refine (stable_read _).bind fun price => stable_exec_outside (fun c hc => ?_)
      fun t₀ t₁ fee => ?_
    · refine Table.updateRow_fixes fun heq => ?_
      simp [isToken, heq, Cell.table] at hc
    · exact Table.updateRow_fixes (by simp)

/-- What the functions for the events do besides leaves tokens and pools alone. -/
def VolumeOnly (volume : SwapEvent → Prog Unit) : Prop :=
  ∀ (env : Env) db es k v e, (volume e).Stable NoFailure (SwapInv env db es) (RowShows k v)

/-- The decimals that the function for an event reads. -/
private theorem SwapInv.find_token {w : DBSession} (hw : SwapInv env db es w) {t : TokenID}
    (ht : (db.get (.token t)).isSome) :
    ∃ r : TokenRow, (w.view .dbTrx).get (.token t) = some r ∧
      r.decimal = registeredDecimal db t := by
  obtain ⟨r, hr⟩ := Option.isSome_iff_exists.mp ht
  refine ⟨r, (hw.tokens (.token t) rfl).trans hr, ?_⟩
  rw [registeredDecimal, hr]
  rfl

variable {volume : SwapEvent → Prog Unit} {state : SwapEvent → PoolState}

/-- The function for an event does not spoil a goal that it does not contradict. -/
theorem stable_processSwap (hv : VolumeOnly volume)
    (ht : (db.get (.token (e.key env).token0)).isSome ∧
      (db.get (.token (e.key env).token1)).isSome)
    (h : ∀ inverted, k = (e.key env).oriented inverted →
      priced env db (e.key env) (state e) inverted = v) :
    (processSwap env volume state e).Stable NoFailure (SwapInv env db es) (RowShows k v) := by
  refine stable_read_bind fun w hw => stable_read_bind fun w' hw' => ?_
  obtain ⟨r₀, hr₀, hd₀⟩ := hw.find_token ht.1
  obtain ⟨r₁, hr₁, hd₁⟩ := hw'.find_token ht.2
  rw [SwapEvent.key] at hr₀ hr₁
  rw [hr₀, hr₁]
  refine (hv env db es k v e).bind fun _ => (stable_updatePoolRows fun inverted hk => ?_).bind
    fun _ => (stable_updateCurrentPrice _).bind fun _ => stable_updateCurrentPrice _
  rw [hd₀, hd₁]
  exact h inverted hk

/-- The function for an event writes both rows of its pool. -/
theorem reaches_processSwap (hv : VolumeOnly volume)
    (ht : (db.get (.token (e.key env).token0)).isSome ∧
      (db.get (.token (e.key env).token1)).isSome)
    (h : ∀ inverted, k = (e.key env).oriented inverted →
      priced env db (e.key env) (state e) inverted = v)
    (he : e ∈ es) {inverted : Bool} (hk : k = (e.key env).oriented inverted) :
    (processSwap env volume state e).Reaches (SwapInv env db es) (RowShows k v) := by
  refine reaches_read_bind fun w hw => reaches_read_bind fun w' hw' => ?_
  obtain ⟨r₀, hr₀, hd₀⟩ := hw.find_token ht.1
  obtain ⟨r₁, hr₁, hd₁⟩ := hw'.find_token ht.2
  rw [SwapEvent.key] at hr₀ hr₁
  rw [hr₀, hr₁]
  refine Reaches.bind_right (hv env db es k v e) fun _ => ?_
  rw [ofOption_some, pure_bind', ofOption_some, pure_bind']
  refine (reaches_updatePoolRows he hk fun inverted hk => ?_).bind_left _
  rw [hd₀, hd₁]
  exact h inverted hk

end Programs

/-! ### All events of a block -/

section Blocks

variable {env : Env} {header : BlockHeader} {events : List Event} {db db' : DB}
  {es : List SwapEvent} {volume : SwapEvent → Prog Unit} {state : SwapEvent → PoolState}

/-- Process the swaps of a block concurrently, in a transaction of the database. -/
def processSwaps (env : Env) (volume : SwapEvent → Prog Unit) (state : SwapEvent → PoolState)
    (order : List ℕ) (es : List SwapEvent) (db : DB) : Except Failure Unit × DB :=
  transact none outsideFailure
    (Async.interleave order (es.map (processSwap env volume state))) db

/-- Before the block and between applying and reverting it. -/
theorem ChainedSwaps.swapInv (h : ChainedSwaps env db es) : SwapInv env db es (ofStore db) := by
  refine ⟨fun c _ => rfl, fun t₀ t₁ fee o => rfl, fun e he inverted => ?_⟩
  obtain ⟨c, hc, -⟩ := h.chain e he inverted
  exact Option.isSome_iff_exists.mpr ⟨c, hc⟩

theorem SwapInv.commit {w : DBSession} (h : SwapInv env db es w) :
    SwapInv env db es (ofStore w.commit.committed) := by
  refine ⟨fun c hc => h.tokens c hc, fun t₀ t₁ fee o => rfl, fun e he inverted => ?_⟩
  have hrow := h.rows e he inverted
  simpa [columnsAt, h.pending] using hrow

theorem SwapInv.columnsAt_commit {w : DBSession} (h : SwapInv env db es w) (k : PoolKey) :
    columnsAt w.commit.committed k = columnsAt w.committed k := by
  simp [columnsAt, h.pending]

private theorem stable_all (h : ChainedSwaps env db es) (hv : VolumeOnly volume) {k : PoolKey}
    {v : PoolState × ℚ} (hk : ∀ e ∈ es, ∀ inverted, k = (e.key env).oriented inverted →
      priced env db (e.key env) (state e) inverted = v) :
    ∀ p ∈ es.map (processSwap env volume state),
      p.Stable NoFailure (SwapInv env db es) (RowShows k v) := by
  intro p hp
  obtain ⟨e, he, rfl⟩ := List.mem_map.mp hp
  exact stable_processSwap hv (h.tokens e he) (hk e he)

/-- A goal about no pool at all, for runs where only success matters. -/
private theorem stable_none (h : ChainedSwaps env db es) (hv : VolumeOnly volume)
    (v : PoolState × ℚ) : ∀ p ∈ es.map (processSwap env volume state),
      p.Stable NoFailure (SwapInv env db es) (RowShows ⟨"", "", 0⟩ v) := by
  refine stable_all h hv fun e he inverted hk => absurd ?_ ((h.ordered e he).token_ne inverted)
  rw [← hk]

private theorem priced_of_oriented (h : ChainedSwaps env db es) {e e' : SwapEvent} (he : e ∈ es)
    (he' : e' ∈ es) {i i' : Bool}
    (hk : (e.key env).oriented i = (e'.key env).oriented i')
    (hstate : e'.key env = e.key env → state e' = state e) :
    priced env db (e'.key env) (state e') i' = priced env db (e.key env) (state e) i := by
  obtain ⟨hkey, rfl⟩ := PoolKey.oriented_inj (h.ordered e he) (h.ordered e' he') hk
  rw [hstate hkey.symm, hkey]

private theorem processSwaps_ok {order : List ℕ} {w : DBSession}
    (hrun : (Async.interleave order (es.map (processSwap env volume state))).run (ofStore db') =
      (.ok (), w)) :
    processSwaps env volume state order es db' = (.ok (), w.commit.committed) :=
  transact_ok.mpr ⟨rfl, w, hrun, rfl⟩

/-- **Certainty.** No order fails, and if all swaps of a pool bring the same state, both rows of
the pool hold it in the end, whatever the order. -/
theorem processSwaps_holds (h : ChainedSwaps env db es) (hv : VolumeOnly volume)
    (hdb : SwapInv env db es (ofStore db')) (order : List ℕ) :
    ∃ db'', processSwaps env volume state order es db' = (.ok (), db'') ∧
      SwapInv env db es (ofStore db'') ∧
      ∀ e ∈ es, (∀ e' ∈ es, e'.key env = e.key env → state e' = state e) →
        PoolHolds env db (e.key env) (state e) db'' := by
  obtain ⟨w, hrun, hw⟩ := run_interleave_ok order (stable_none h hv (⟨0, 0⟩, 0)) hdb
  refine ⟨_, processSwaps_ok hrun, hw.commit, fun e he hsame inverted => ?_⟩
  have hk : ∀ e' ∈ es, ∀ i', (e.key env).oriented inverted = (e'.key env).oriented i' →
      priced env db (e'.key env) (state e') i' = priced env db (e.key env) (state e) inverted :=
    fun e' he' i' hk => priced_of_oriented h he he' hk (hsame e' he')
  rw [hw.columnsAt_commit]
  refine run_interleave_reaches (stable_all h hv hk) ⟨_, List.mem_map_of_mem he, ?_⟩ hdb hrun
  exact reaches_processSwap hv (h.tokens e he) (hk e he) he rfl

/-- **Chance.** For every event there is an order that leaves its state behind. -/
theorem exists_processSwaps_holds (h : ChainedSwaps env db es) (hv : VolumeOnly volume)
    (hdb : SwapInv env db es (ofStore db')) {e : SwapEvent} (he : e ∈ es) :
    ∃ order db'', processSwaps env volume state order es db' = (.ok (), db'') ∧
      PoolHolds env db (e.key env) (state e) db'' := by
  obtain ⟨i, hi⟩ := List.mem_iff_getElem?.mp
    (List.mem_map_of_mem (f := processSwap env volume state) he)
  obtain ⟨order, w₀, hw₀, hrun⟩ := exists_run_last (stable_none h hv (⟨0, 0⟩, 0)) hi hdb
  -- The function for the event runs alone, from a session that the others left behind.
  have halone : ∀ inverted, ∃ w, (processSwap env volume state e).run w₀ = (.ok (), w) ∧
      SwapInv env db es w ∧ RowShows ((e.key env).oriented inverted)
        (priced env db (e.key env) (state e) inverted) w := by
    intro inverted
    have hk : ∀ i', (e.key env).oriented inverted = (e.key env).oriented i' →
        priced env db (e.key env) (state e) i' = priced env db (e.key env) (state e) inverted :=
      fun i' hk => priced_of_oriented h he he hk fun _ => rfl
    obtain ⟨r, w, hw, hinv, hfail, hgoal⟩ := (stable_processSwap hv (h.tokens e he) hk).run hw₀
    cases r with
    | error e => exact (hfail e rfl).elim
    | ok a =>
      exact ⟨w, hw, hinv, hgoal a rfl (.inr (reaches_processSwap hv (h.tokens e he) hk he rfl))⟩
  obtain ⟨w, hw, hinv, -⟩ := halone false
  refine ⟨order, _, processSwaps_ok (hrun.trans hw), fun inverted => ?_⟩
  obtain ⟨w', hw', -, hshows⟩ := halone inverted
  obtain rfl : w = w' := (Prod.ext_iff.mp (hw.symm.trans hw')).2
  rw [hinv.columnsAt_commit]
  exact hshows

private theorem volumeOnly_point {conn : SwapEvent → Conn}
    {f : (e : SwapEvent) → Option VolumeRow → Option VolumeRow} :
    VolumeOnly fun e => Session.exec (conn e) (.point (.volume e.height e.index) (f e)) := by
  refine fun env db es k v e => stable_exec_outside (fun c hc => Write.point_fixes ?_ _)
    fun t₀ t₁ fee => Write.point_fixes (by simp) _
  rintro rfl
  simp [isToken, Cell.table] at hc

end Blocks

/-- The block keeps the rows of its pools right under every order: after applying its swaps both
rows of every pool hold the state of the pool's last swap, and after reverting them the state
from before, each time with the price that the tick stands for. -/
def SwapsUndone (env : Env) (header : BlockHeader) (events : List Event) (db : DB) : Prop :=
  ∀ order order', ∃ db₁ db₂,
    transact none outsideFailure (applySwapEvent env order header events) db = (.ok (), db₁) ∧
    transact none outsideFailure (revertSwapEvent env order' header events) db₁ = (.ok (), db₂) ∧
    (∀ key last, (swapsAt env key (swapEvents events)).getLast? = some last →
      PoolHolds env db key last.after db₁) ∧
    ∀ e ∈ swapEvents events, ∀ inverted c,
      columnsAt db ((e.key env).oriented inverted) = some c →
        columnsAt db₂ ((e.key env).oriented inverted) =
          some (priced env db (e.key env) c.1 inverted)

/-- Every pool has at most one swap in the block, or none of its swaps changes its state. -/
def SingleOrIdle (env : Env) (es : List SwapEvent) : Prop :=
  ∀ key, (swapsAt env key es).length ≤ 1 ∨ ∀ e ∈ swapsAt env key es, e.after = e.before

section Undo

variable {env : Env} {header : BlockHeader} {events : List Event} {db db₁ : DB}
  {es : List SwapEvent}

private theorem volumeOnly_apply : VolumeOnly fun e => Table.upsert .dbTrx
    (.volume e.height e.index) fun _ => volumeRow header e := volumeOnly_point

private theorem volumeOnly_revert : VolumeOnly fun e => Table.delete .dbTrx
    (.volume e.height e.index) fun r => decide (r = volumeRow header e) := volumeOnly_point

private theorem mem_swapsAt {key : PoolKey} {e : SwapEvent} :
    e ∈ swapsAt env key es ↔ e ∈ es ∧ e.key env = key := by simp [swapsAt]

/-- Under the condition, the swaps of a pool agree on the state after and on the state before
them, which is the one in the table. -/
theorem SingleOrIdle.agree (hc : SingleOrIdle env es) (h : ChainedSwaps env db es)
    {e : SwapEvent} (he : e ∈ es) {inverted : Bool} {c : PoolState × ℚ}
    (hrow : columnsAt db ((e.key env).oriented inverted) = some c) :
    (∀ e' ∈ es, e'.key env = e.key env → e'.after = e.after) ∧
      ∀ e' ∈ es, e'.key env = e.key env → e'.before = c.1 := by
  obtain ⟨c', hc', hchain⟩ := h.chain e he inverted
  obtain rfl : c' = c := by simpa [hrow] using hc'.symm
  have hmem : e ∈ swapsAt env (e.key env) es := mem_swapsAt.mpr ⟨he, rfl⟩
  rcases hc (e.key env) with hone | hidle
  · obtain ⟨d, hd⟩ : ∃ d, swapsAt env (e.key env) es = [d] := by
      refine List.length_eq_one_iff.mp (le_antisymm hone ?_)
      exact List.length_pos_of_mem hmem
    have heq : ∀ e' ∈ es, e'.key env = e.key env → e' = d := by
      intro e' he' hkey
      have hmem' : e' ∈ swapsAt env (e.key env) es := mem_swapsAt.mpr ⟨he', hkey⟩
      simpa [hd] using hmem'
    refine ⟨fun e' he' hkey => ?_, fun e' he' hkey => ?_⟩
    · rw [heq e' he' hkey, heq e he rfl]
    · rw [heq e' he' hkey]
      rw [hd] at hchain
      exact hchain.1
  · have hbefore := hchain.before_eq hidle
    refine ⟨fun e' he' hkey => ?_, fun e' he' hkey => hbefore e' (mem_swapsAt.mpr ⟨he', hkey⟩)⟩
    have hmem' := mem_swapsAt.mpr ⟨he', hkey⟩
    rw [hidle e' hmem', hidle e hmem, hbefore e' hmem', hbefore e hmem]

/-- The condition is enough. -/
theorem SingleOrIdle.swapsUndone (hc : SingleOrIdle env (swapEvents events))
    (h : ChainedSwaps env db (swapEvents events)) : SwapsUndone env header events db := by
  intro order order'
  obtain ⟨db₁, happly, hinv, hafter⟩ := processSwaps_holds h volumeOnly_apply h.swapInv order
  obtain ⟨db₂, hrevert, -, hbefore⟩ := processSwaps_holds h volumeOnly_revert hinv order'
  refine ⟨db₁, db₂, happly, hrevert, fun key last hlast => ?_, fun e he inverted c hrow => ?_⟩
  · obtain ⟨hmem, rfl⟩ := mem_swapsAt.mp (List.mem_of_getLast? hlast)
    obtain ⟨c, hrow, -⟩ := h.chain last hmem false
    exact hafter last hmem (hc.agree h hmem hrow).1
  · have hagree := (hc.agree h he hrow).2
    have hholds := hbefore e he fun e' he' hkey =>
      (hagree e' he' hkey).trans (hagree e he rfl).symm
    exact (hholds inverted).trans
      (congrArg (fun st => some (priced env db (e.key env) st inverted)) (hagree e he rfl))

private theorem PoolHolds.state_eq {key : PoolKey} {state state' : PoolState} {db' : DB}
    (h : PoolHolds env db key state db') (h' : PoolHolds env db key state' db') :
    state = state' := by
  have heq := (h false).symm.trans (h' false)
  exact (Prod.ext_iff.mp (Option.some.inj heq)).1

/-- What holds under every order holds when a given swap is applied last. -/
private theorem SwapsUndone.after_eq (hu : SwapsUndone env header events db)
    (h : ChainedSwaps env db (swapEvents events)) {key : PoolKey} {e last : SwapEvent}
    (he : e ∈ swapsAt env key (swapEvents events))
    (hlast : (swapsAt env key (swapEvents events)).getLast? = some last) :
    e.after = last.after := by
  obtain ⟨hmem, rfl⟩ := mem_swapsAt.mp he
  obtain ⟨order, db', hrun, hholds⟩ := exists_processSwaps_holds h volumeOnly_apply h.swapInv hmem
  obtain ⟨db₁, -, happly, -, ha, -⟩ := hu order []
  obtain rfl : db' = db₁ := (Prod.ext_iff.mp (hrun.symm.trans happly)).2
  exact hholds.state_eq (ha _ last hlast)

/-- What holds under every order holds when a given swap is reverted last. -/
private theorem SwapsUndone.before_eq (hu : SwapsUndone env header events db)
    (h : ChainedSwaps env db (swapEvents events)) {e : SwapEvent} (he : e ∈ swapEvents events)
    {c : PoolState × ℚ} (hrow : columnsAt db ((e.key env).oriented false) = some c) :
    e.before = c.1 := by
  obtain ⟨db₁, happly, hinv, -⟩ := processSwaps_holds h volumeOnly_apply h.swapInv []
  obtain ⟨order, db', hrun, hholds⟩ := exists_processSwaps_holds h volumeOnly_revert hinv he
  obtain ⟨db₁', db₂, happly', hrevert, -, hb⟩ := hu [] order
  obtain rfl : db₁ = db₁' := (Prod.ext_iff.mp (happly.symm.trans happly')).2
  obtain rfl : db' = db₂ := (Prod.ext_iff.mp (hrun.symm.trans hrevert)).2
  have heq := (hholds false).symm.trans (hb e he false c hrow)
  exact (Prod.ext_iff.mp (Option.some.inj heq)).1

/-- The condition is needed. -/
theorem SwapsUndone.singleOrIdle (hu : SwapsUndone env header events db)
    (h : ChainedSwaps env db (swapEvents events)) : SingleOrIdle env (swapEvents events) := by
  intro key
  cases hl : swapsAt env key (swapEvents events) with
  | nil => exact .inl (Nat.zero_le _)
  | cons e₁ rest =>
    cases hrest : rest with
    | nil => exact .inl le_rfl
    | cons e₂ rest' =>
      rw [hrest] at hl
      rw [← hl]
      refine .inr fun e he => ?_
      have h₁ : e₁ ∈ swapsAt env key (swapEvents events) := by simp [hl]
      have h₂ : e₂ ∈ swapsAt env key (swapEvents events) := by simp [hl]
      obtain ⟨hmem, rfl⟩ := mem_swapsAt.mp he
      obtain ⟨c, hrow, hchain⟩ := h.chain e hmem false
      have hbefore : ∀ e' ∈ swapsAt env (e.key env) (swapEvents events), e'.before = c.1 := by
        intro e' he'
        obtain ⟨hmem', hkey⟩ := mem_swapsAt.mp he'
        exact hu.before_eq h hmem' (by rw [hkey, hrow])
      obtain ⟨last, hlast⟩ : ∃ last,
          (swapsAt env (e.key env) (swapEvents events)).getLast? = some last :=
        ⟨_, List.getLast?_eq_some_getLast (List.ne_nil_of_mem he)⟩
      -- The second swap starts from what the first one leaves.
      have hfirst : e₂.before = e₁.after := by
        rw [hl] at hchain
        exact hchain.2.1
      calc e.after = last.after := hu.after_eq h he hlast
        _ = e₁.after := (hu.after_eq h h₁ hlast).symm
        _ = e₂.before := hfirst.symm
        _ = c.1 := hbefore e₂ h₂
        _ = e.before := (hbefore e he).symm

/-- **Swaps of a block.** For a block whose swaps chain on every pool, applying and reverting them
leaves the right rows under every order exactly if every pool has at most one swap in the block,
or only swaps that change neither its tick nor its liquidity. -/
theorem swap_undo_iff (h : ChainedSwaps env db (swapEvents events)) :
    SwapsUndone env header events db ↔ SingleOrIdle env (swapEvents events) :=
  ⟨fun hu => hu.singleOrIdle h, fun hc => hc.swapsUndone h⟩

end Undo

/-! ### Two swaps on one pool -/

/-- The token pair `btc`, `kly` with a pool whose tick is 0 and whose liquidity is 100. -/
def swapDB : DB :=
  (Write.all [Table.upsertRow (.pool "btc" "kly" 3000) fun r => { r with liquidity := 100 },
    Table.upsertRow (.pool "kly" "btc" 3000) fun r => { r with liquidity := 100 }] : Stmt).exec
    onePoolDB

/-- A swap that moves the tick of the pool; the liquidity stays. -/
def tickSwap (index : ℕ) (tickBefore tick : ℤ) : Event :=
  ⟨"", index, 1, ["", "pool"],
    .swap ⟨"alice", "alice", 1, -1, tick, tickBefore, 100, 100, 0, 0, 0, 0⟩⟩

/-- The header of the block. -/
def swapHeader : BlockHeader := ⟨"first", 1, 10, "generator", "genesis", 0, false⟩

private theorem chainedSwaps_swapDB {es : List SwapEvent}
    (hchain : ChainsFrom SwapEvent.before SwapEvent.after ⟨100, 0⟩ es) :
    ChainedSwaps onePoolEnv swapDB es where
  ordered _ _ := show "btc" < "kly" by decide
  tokens _ _ := ⟨rfl, rfl⟩
  chain e _ inverted := by
    have hall : swapsAt onePoolEnv (e.key onePoolEnv) es = es :=
      List.filter_eq_self.mpr fun _ _ => decide_eq_true rfl
    rw [hall]
    cases inverted with
    | false => exact ⟨(⟨100, 0⟩, 0), rfl, hchain⟩
    | true => exact ⟨(⟨100, 0⟩, 0), rfl, hchain⟩

/-- One swap is applied and undone under every order. -/
theorem swap_undo_iff_once : SwapsUndone onePoolEnv swapHeader [tickSwap 0 0 7] swapDB := by
  refine (swap_undo_iff (chainedSwaps_swapDB (by decide))).mpr fun key => .inl ?_
  exact List.length_filter_le _ _

/-- Two swaps that move the tick from 0 to 7 and on to 9: if the second one is faster, the pool
stays at 7. -/
theorem second_swap_overtaken :
    let events := [tickSwap 0 0 7, tickSwap 1 7 9]
    let applied := transact none outsideFailure
      (applySwapEvent onePoolEnv (List.replicate 9 1) swapHeader events) swapDB
    ChainedSwaps onePoolEnv swapDB (swapEvents events) ∧ applied.1 = .ok () ∧
      columnsAt applied.2 ⟨"btc", "kly", 3000⟩ = some (⟨100, 7⟩, 0) ∧
      ¬ SwapsUndone onePoolEnv swapHeader events swapDB := by
  intro events applied
  have hcolumns : columnsAt applied.2 ⟨"btc", "kly", 3000⟩ = some (⟨100, 7⟩, 0) := by
    decide +kernel
  refine ⟨chainedSwaps_swapDB (by decide), rfl, hcolumns, fun hu => ?_⟩
  obtain ⟨db₁, -, happly, -, ha, -⟩ := hu (List.replicate 9 1) []
  obtain rfl : applied.2 = db₁ := congrArg Prod.snd happly
  have hlast := ha ⟨"btc", "kly", 3000⟩ _ rfl false
  rw [PoolKey.oriented, hcolumns] at hlast
  exact absurd hlast (by decide +kernel)

end SwaptoshiService
