import Mathlib.Data.Rat.Floor
import SwaptoshiService.Jobs.CreationUndo
import SwaptoshiService.Jobs.SwapUndo
import SwaptoshiService.Lib.Run

/-!
# The two rows of a pool

Every pool is stored twice, once for each orientation, and four places write parts of the two
rows: genesis indexing and `createPool` insert them on `dbTrx`; swaps and their reverts update
tick, liquidity and price on the default connection; `syncPoolData`, at the end of the liquidity
commands and of their reverts, overwrites tick and liquidity with what the node answers at that
moment and **leaves the price as it was**.

`pools_coherent` follows the two rows through any sequence of these operations, in transactions of
any length. They agree, and carry the prices of their tick, as long as

* the node answers `syncPoolData` with a tick that stands for the stored prices,
* the swaps of one pool in a block agree on what they write, since they are processed at the same
  time and which of them comes last is left to chance for **each row**,
* a token of a new pool that is not committed yet has eight decimals, since `createPool` prices the
  pool with the default argument of `getPriceAtTick` then, and no token changes its decimals.
-/

namespace SwaptoshiService

open Session Async

/-! ### Coherent rows -/

/-- The cell of a pool row. -/
abbrev PoolKey.cell (k : PoolKey) : Cell := .pool k.token0 k.token1 k.fee

/-- Orientation and address, which no update touches. -/
def PoolRow.ident (r : PoolRow) : Bool × Address := (r.inverted, r.poolAddress)

/-- Orientation and address of the row under a key. -/
def identAt (db : DB) (k : PoolKey) : Option (Bool × Address) :=
  (db.get k.cell : Option PoolRow).map PoolRow.ident

/-- The decimals of a token, if it is registered. -/
def decimalAt (db : DB) (t : TokenID) : Option ℕ :=
  (db.get (.token t) : Option TokenRow).map TokenRow.decimal

/-- Of every pool there is no row, or both rows have the same tick and liquidity, the tokens are
registered, and the prices are those of the tick for the registered decimals. -/
def PoolsCoherent (env : Env) (db : DB) : Prop :=
  ∀ key : PoolKey, key.Ordered →
    (∀ inverted, columnsAt db (key.oriented inverted) = none) ∨
    ((decimalAt db key.token0).isSome ∧ (decimalAt db key.token1).isSome ∧
      ∃ state, PoolHolds env db key state db)

/-- Both rows of a pool are there, with the prices that their tick stands for. -/
structure PoolStored (env : Env) (db : DB) (key : PoolKey) (address : Address)
    (state : PoolState) : Prop where
  token0 : (decimalAt db key.token0).isSome
  token1 : (decimalAt db key.token1).isSome
  ident : ∀ inverted, identAt db (key.oriented inverted) = some (inverted, address)
  holds : PoolHolds env db key state db

/-- The pool is not in the table, or both of its rows are. -/
def PoolSound (env : Env) (db : DB) (key : PoolKey) : Prop :=
  (∀ inverted, identAt db (key.oriented inverted) = none) ∨
    ∃ address state, PoolStored env db key address state

/-- What the open transaction does to the rows of a pool: nothing, or it has written both. -/
def PoolPending (w : DBSession) (key : PoolKey) : Prop :=
  (∀ inverted o, w.pending.act (key.oriented inverted).cell o = o) ∨
    ∀ inverted, ∃ r, ∀ o, w.pending.act (key.oriented inverted).cell o = some r

/-- What every completed operation keeps. -/
structure PoolRowsInv (env : Env) (w : DBSession) : Prop where
  tokens : ∀ t n, decimalAt w.committed t = some n → decimalAt (w.view .dbTrx) t = some n
  pending : ∀ key : PoolKey, key.Ordered → PoolPending w key
  sound : ∀ key : PoolKey, key.Ordered → PoolSound env (w.view .dbTrx) key

section Rows

variable {env : Env} {db db' : DB} {w w' : DBSession} {key k : PoolKey} {t : TokenID} {n : ℕ}
  {address : Address} {state : PoolState}

theorem registeredDecimal_of_decimalAt (h : decimalAt db t = some n) :
    registeredDecimal db t = n := by
  obtain ⟨r, hr, rfl⟩ := Option.map_eq_some_iff.mp h
  rw [registeredDecimal, hr]
  rfl

theorem registeredDecimal_eq (h : (decimalAt db t).isSome)
    (hdec : ∀ n, decimalAt db t = some n → decimalAt db' t = some n) :
    registeredDecimal db' t = registeredDecimal db t := by
  obtain ⟨n, hn⟩ := Option.isSome_iff_exists.mp h
  rw [registeredDecimal_of_decimalAt hn, registeredDecimal_of_decimalAt (hdec n hn)]

theorem columnsAt_map_const {α : Type} (db : DB) (k : PoolKey) (a : α) :
    ((columnsAt db k).map fun _ => a) = (identAt db k).map fun _ => a := by
  rw [columnsAt, identAt]
  rw [Option.map_map, Option.map_map]
  rfl

theorem columnsAt_eq_none (h : identAt db k = none) : columnsAt db k = none := by
  have hmap := columnsAt_map_const db k ()
  rw [h] at hmap
  simpa using hmap

theorem identAt_congr (h : db'.get k.cell = db.get k.cell) : identAt db' k = identAt db k :=
  congrArg (Option.map PoolRow.ident) h

theorem columnsAt_congr (h : db'.get k.cell = db.get k.cell) : columnsAt db' k = columnsAt db k :=
  congrArg (Option.map PoolRow.columns) h

theorem PoolSound.coherent (h : ∀ key : PoolKey, key.Ordered → PoolSound env db key) :
    PoolsCoherent env db := by
  intro key hkey
  rcases h key hkey with hnone | ⟨address, state, hstored⟩
  · exact .inl fun inverted => columnsAt_eq_none (hnone inverted)
  · exact .inr ⟨hstored.token0, hstored.token1, state, hstored.holds⟩

/-- Other decimals do not matter, as long as registered tokens keep theirs. -/
theorem PoolStored.of_columns (h : PoolStored env db key address state)
    (hdec : ∀ t n, decimalAt db t = some n → decimalAt db' t = some n)
    (hident : ∀ inverted, identAt db' (key.oriented inverted) =
      identAt db (key.oriented inverted)) {state' : PoolState}
    (hcolumns : ∀ inverted, columnsAt db' (key.oriented inverted) =
      some (priced env db key state' inverted)) : PoolStored env db' key address state' := by
  have hsome : ∀ t, (decimalAt db t).isSome → (decimalAt db' t).isSome := by
    intro t ht
    obtain ⟨n, hn⟩ := Option.isSome_iff_exists.mp ht
    rw [hdec t n hn]
    rfl
  refine ⟨hsome _ h.token0, hsome _ h.token1, fun inverted => (hident inverted).trans
    (h.ident inverted), fun inverted => ?_⟩
  rw [hcolumns, priced, priced, registeredDecimal_eq h.token0 (hdec _),
    registeredDecimal_eq h.token1 (hdec _)]

/-- Nothing else matters. -/
theorem PoolSound.of_get (h : PoolSound env db key)
    (hdec : ∀ t n, decimalAt db t = some n → decimalAt db' t = some n)
    (hrow : ∀ inverted, db'.get (key.oriented inverted).cell =
      db.get (key.oriented inverted).cell) : PoolSound env db' key := by
  rcases h with hnone | ⟨address, state, hstored⟩
  · exact .inl fun inverted => (identAt_congr (hrow inverted)).trans (hnone inverted)
  · refine .inr ⟨address, state, hstored.of_columns hdec
      (fun inverted => identAt_congr (hrow inverted)) fun inverted => ?_⟩
    exact (columnsAt_congr (hrow inverted)).trans (hstored.holds inverted)

end Rows

/-! ### Rows that are not touched -/

/-- The rows of pools and tokens. -/
def OfPools (c : Cell) : Prop := c.table = .pool ∨ c.table = .registeredDexToken

/-- Everything else. -/
def offPools : Conn → Cell → Prop := fun _ c => ¬ OfPools c

section Frame

variable {env : Env} {w w' : DBSession}

theorem sameOn_of_offPools {α : Type} {p : Prog α} (hp : Confined (Respects offPools) p) {a : α}
    (hrun : p.run w = (.ok a, w')) : SameOn OfPools w w' :=
  hp.ensures_sameOn (leavesAlone_respects fun _ _ h => h) w a w' hrun

theorem decimalAt_of_sameOn (h : SameOn OfPools w w') (conn : Conn) (t : TokenID) :
    decimalAt (w'.view conn) t = decimalAt (w.view conn) t :=
  congrArg (Option.map TokenRow.decimal) ((h (.token t) (.inr rfl)).view conn)

/-- The transaction does to a pool what it did before. -/
theorem PoolPending.of_act {key : PoolKey} (h : PoolPending w key)
    (hact : ∀ inverted o, w'.pending.act (key.oriented inverted).cell o =
      w.pending.act (key.oriented inverted).cell o) : PoolPending w' key := by
  rcases h with hplain | hfresh
  · exact .inl fun inverted o => (hact inverted o).trans (hplain inverted o)
  · refine .inr fun inverted => ?_
    obtain ⟨r, hr⟩ := hfresh inverted
    exact ⟨r, fun o => (hact inverted o).trans (hr o)⟩

theorem PoolRowsInv.of_sameOn (h : PoolRowsInv env w) (hs : SameOn OfPools w w') :
    PoolRowsInv env w' := by
  have hpool : ∀ k : PoolKey, SameAt k.cell w w' := fun k => hs k.cell (.inl rfl)
  refine ⟨fun t n hn => ?_, fun key hkey => ?_, fun key hkey => ?_⟩
  · rw [decimalAt_of_sameOn hs .dbTrx]
    exact h.tokens t n ((decimalAt_of_sameOn hs .default t).symm.trans hn)
  · exact (h.pending key hkey).of_act fun inverted o => (hpool _).2 o
  · refine (h.sound key hkey).of_get (fun t n hn => ?_) fun inverted => (hpool _).view .dbTrx
    exact (decimalAt_of_sameOn hs .dbTrx t).trans hn

/-- An operation that leaves the tokens and the open transaction alone. Rows that the transaction
has written hide what becomes of the committed ones, so only the pools it has not written matter. -/
theorem PoolRowsInv.of_committed (h : PoolRowsInv env w)
    (hdec : ∀ conn t, decimalAt (w'.view conn) t = decimalAt (w.view conn) t)
    (hact : ∀ (k : PoolKey) (o : Option PoolRow), w'.pending.act k.cell o = w.pending.act k.cell o)
    (hsound : ∀ key : PoolKey, key.Ordered →
      (∀ inverted, (w.view .dbTrx).get (key.oriented inverted).cell =
        w.committed.get (key.oriented inverted).cell) →
      (∀ inverted, (w'.view .dbTrx).get (key.oriented inverted).cell =
        w'.committed.get (key.oriented inverted).cell) →
      PoolSound env (w'.view .dbTrx) key) : PoolRowsInv env w' := by
  refine ⟨fun t n hn => ?_, fun key hkey => ?_, fun key hkey => ?_⟩
  · rw [hdec .dbTrx]
    exact h.tokens t n ((hdec .default t).symm.trans hn)
  · exact (h.pending key hkey).of_act fun inverted o => hact _ o
  · rcases h.pending key hkey with hplain | hfresh
    · exact hsound key hkey (fun inverted => hplain inverted _)
        fun inverted => (hact _ _).trans (hplain inverted _)
    · refine (h.sound key hkey).of_get (fun t n hn => (hdec .dbTrx t).trans hn) fun inverted => ?_
      obtain ⟨r, hr⟩ := hfresh inverted
      exact ((hact _ _).trans (hr _)).trans (hr _).symm

/-- Only the prices depend on the environment. -/
theorem PoolRowsInv.of_prices {env' : Env} (h : PoolRowsInv env w)
    (hprice : env'.getPriceAtTick = env.getPriceAtTick) : PoolRowsInv env' w := by
  refine ⟨h.tokens, h.pending, fun key hkey => (h.sound key hkey).imp_right ?_⟩
  rintro ⟨address, state, hstored⟩
  refine ⟨address, state, hstored.token0, hstored.token1, hstored.ident, fun inverted => ?_⟩
  rw [hstored.holds, priced, priced, hprice]

theorem poolInv_empty : PoolRowsInv env (ofStore .empty) :=
  ⟨fun _ _ hn => hn, fun _ _ => .inl fun _ _ => rfl, fun _ _ => .inl fun _ => rfl⟩

/-- Committing changes nothing that the transaction sees. -/
theorem PoolRowsInv.commit (h : PoolRowsInv env w) : PoolRowsInv env w.commit :=
  ⟨fun _ _ hn => hn, fun _ _ => .inl fun _ _ => rfl, fun key hkey =>
    (h.sound key hkey).of_get (fun _ _ hn => hn) fun _ => rfl⟩

end Frame

/-! ### Synchronising a pool with the node -/

/-- The node's tick stands for the same prices as the tick in the committed rows of the pool. -/
def StandsForPrices (env : Env) (w : DBSession) (address : Address) (state : PoolState) : Prop :=
  ∀ key : PoolKey, key.Ordered → ∀ inverted (r : PoolRow),
    w.committed.get (key.oriented inverted).cell = some r → r.poolAddress = address →
    (priced env (w.view .dbTrx) key state inverted).2 =
      (priced env (w.view .dbTrx) key ⟨r.liquidity, r.tick⟩ inverted).2

section Sync

variable {env : Env} {w w' : DBSession} {address : Address} {state : PoolState}

/-- Both statements of `syncPoolData`. -/
def synced (address : Address) (state : PoolState) (w : DBSession) : DBSession :=
  send .default (Dex.syncStatement address true state)
    (send .default (Dex.syncStatement address false state) w)

theorem syncRow_syncRow (r : PoolRow) :
    Dex.syncRow address true state (Dex.syncRow address false state r) =
      if r.poolAddress = address then { r with liquidity := state.liquidity, tick := state.tick }
      else r := by
  by_cases haddress : r.poolAddress = address
  · cases hinv : r.inverted <;> simp [Dex.syncRow, haddress, hinv]
  · simp [Dex.syncRow, haddress]

/-- What becomes of a committed row. -/
theorem synced_committed_get (k : PoolKey) :
    ((synced address state w).committed.get k.cell : Option PoolRow) =
      (w.committed.get k.cell : Option PoolRow).map fun r =>
        if r.poolAddress = address then { r with liquidity := state.liquidity, tick := state.tick }
        else r := by
  have hget : ((synced address state w).committed.get k.cell : Option PoolRow) =
      ((w.committed.get k.cell : Option PoolRow).map (Dex.syncRow address false state)).map
        (Dex.syncRow address true state) := by
    rw [synced, send_default_committed, send_default_committed, Write.exec_get, Write.exec_get]
    cases w.committed.get k.cell <;> rfl
  rw [hget, Option.map_map]
  exact congrArg (Option.map · _) (funext fun r => syncRow_syncRow r)

theorem synced_sameAt {c : Cell} (h : c.table ≠ .pool) : SameAt c w (synced address state w) :=
  (sameAt_send (syncStatement_fixes h) w).trans (sameAt_send (syncStatement_fixes h) _)

/-- Both rows of a pool are reached, or none. -/
private theorem PoolStored.synced {key : PoolKey} {address' : Address} {stored : PoolState}
    (h : PoolStored env (w.view .dbTrx) key address' stored) (hkey : key.Ordered)
    (hprices : StandsForPrices env w address state)
    (hdec : ∀ conn t, decimalAt ((synced address state w).view conn) t = decimalAt (w.view conn) t)
    (hview : ∀ inverted, (w.view .dbTrx).get (key.oriented inverted).cell =
      w.committed.get (key.oriented inverted).cell)
    (hview' : ∀ inverted, ((synced address state w).view .dbTrx).get (key.oriented inverted).cell =
      (synced address state w).committed.get (key.oriented inverted).cell) :
    PoolStored env ((synced address state w).view .dbTrx) key address'
      (if address' = address then state else stored) := by
  refine h.of_columns (fun t n hn => (hdec .dbTrx t).trans hn) (fun inverted => ?_)
    fun inverted => ?_
  · rw [identAt, identAt, hview', synced_committed_get, hview, Option.map_map]
    refine congrArg (Option.map · _) (funext fun r => ?_)
    simp only [Function.comp_apply]
    split <;> rfl
  obtain ⟨r, hr, hident⟩ := Option.map_eq_some_iff.mp (h.ident inverted)
  have hcolumns := h.holds inverted
  have haddress : r.poolAddress = address' := (Prod.ext_iff.mp hident).2
  rw [columnsAt, hr, Option.map_some] at hcolumns
  rw [hview] at hr
  rw [columnsAt, hview', synced_committed_get, hr, Option.map_some, Option.map_some]
  by_cases heq : address' = address
  · -- The statements write the tick and leave the price, which the new tick stands for as well.
    have hr' : (⟨r.liquidity, r.tick⟩, r.price) = priced env (w.view .dbTrx) key stored
        inverted := Option.some.inj hcolumns
    have hstate : (⟨r.liquidity, r.tick⟩ : PoolState) = stored := congrArg Prod.fst hr'
    have hprice := hprices key hkey inverted r hr (haddress.trans heq)
    rw [hstate] at hprice
    rw [if_pos (haddress.trans heq), if_pos heq]
    exact congrArg some (Prod.ext rfl ((congrArg Prod.snd hr').trans hprice.symm))
  · have hne : r.poolAddress ≠ address := fun h => heq (haddress.symm.trans h)
    rw [if_neg hne, if_neg heq]
    exact hcolumns

/-- Rows that are pending are not reached; of the others both are, or none. -/
theorem PoolRowsInv.of_synced (h : PoolRowsInv env w)
    (hprices : StandsForPrices env w address state) : PoolRowsInv env (synced address state w) := by
  have hdec : ∀ conn t, decimalAt ((synced address state w).view conn) t =
      decimalAt (w.view conn) t := fun conn t =>
    congrArg (Option.map TokenRow.decimal) ((synced_sameAt (by simp [Cell.table])).view conn)
  refine h.of_committed hdec (fun _ _ => rfl) fun key hkey hview hview' => ?_
  rcases h.sound key hkey with hnone | ⟨address', stored, hstored⟩
  · refine .inl fun inverted => ?_
    have hrow := hnone inverted
    rw [identAt, hview, Option.map_eq_none_iff] at hrow
    rw [identAt, hview', synced_committed_get, hrow]
    rfl
  · exact .inr ⟨address', _, hstored.synced hkey hprices hdec hview hview'⟩

end Sync

/-! ### The liquidity commands -/

/-- The pool that a transaction synchronises with the node. -/
def IndexedTx.syncedPool (env : Env) (tx : IndexedTx) : Option Address :=
  if tx.isSuccessful then
    match tx.params with
    | .dexMint tokenA tokenB fee => (getPoolKey tokenA tokenB fee).map env.poolAddress
    | .dexIncreaseLiquidity poolAddress => some poolAddress
    | .dexDecreaseLiquidity poolAddress => some poolAddress
    | _ => none
  else none

/-- Nothing happens to the rows of pools and tokens but `syncPoolData` of the given pool. -/
def SyncsPool (env : Env) (pool : Option Address) (w w' : DBSession) : Prop :=
  ∃ address, pool = some address ∧
    SameOn OfPools (synced address (env.getPool (env.decodePoolAddress address)) w) w'

section Liquidity

variable {env : Env} {header : BlockHeader} {events : List Event} {tx : IndexedTx}
  {address : Address} {pool : Option Address} {w w' : DBSession}

private theorem offPools_bind {α β : Type} {p : Prog α} {f : α → Prog β}
    (hp : Confined (Respects offPools) p) (hf : ∀ a, (f a).Ensures (SyncsPool env pool)) :
    (p >>= f).Ensures (SyncsPool env pool) := by
  refine (hp.ensures_sameOn (leavesAlone_respects fun _ _ h => h)).bind hf fun _ _ _ h h' => ?_
  obtain ⟨address, hpool, hsame⟩ := h'
  exact ⟨address, hpool, ((h.send .default _).send .default _).trans hsame⟩

private theorem ensures_syncPoolData (hpool : pool = some address) :
    (Dex.syncPoolData env address).Ensures (SyncsPool env pool) := by
  intro w a w' hrun
  obtain ⟨-, rfl⟩ := Prod.ext_iff.mp hrun
  exact ⟨address, hpool, SameOn.refl _ _⟩

private theorem addTVL_offPools {txID : TxID} {i : ℕ} {row : TVLRow} {token : Option TokenRow} :
    Confined (Respects offPools) (Dex.addTVL txID i row token) :=
  addTVL_confined (by simp [offPools, OfPools, Cell.table])

private theorem removeTVL_offPools {txID : TxID} {i : ℕ} {row : TVLRow} {token : Option TokenRow} :
    Confined (Respects offPools) (Dex.removeTVL txID i row token) :=
  removeTVL_confined (by simp [offPools, OfPools, Cell.table])

private theorem updateTicks_offPools {d : LiquidityData} :
    Confined (Respects offPools) (Dex.updateTicks address d) :=
  updateTicks_confined fun t => by simp [offPools, OfPools, Cell.table]

private theorem revertTicks_offPools {d : LiquidityData} :
    Confined (Respects offPools) (Dex.revertTicks address d) :=
  revertTicks_confined fun t => by simp [offPools, OfPools, Cell.table]

private theorem addLiquidity_offPools {tokenId : String} {amount : ℤ} :
    Confined (Respects offPools) (Dex.addLiquidity tokenId amount) :=
  addLiquidity_confined (by simp [offPools, OfPools, Cell.table])

private theorem position_offPools {tokenId : String} :
    offPools .dbTrx (.position tokenId) := by simp [offPools, OfPools, Cell.table]

theorem applyMint_syncs {tokenA tokenB : TokenID} {fee : ℕ} (hs : tx.isSuccessful = true) :
    (Dex.applyMint env header tx tokenA tokenB fee events).Ensures
      (SyncsPool env ((getPoolKey tokenA tokenB fee).map env.poolAddress)) := by
  rw [Dex.applyMint, ifSuccessful, if_pos hs]
  refine ensures_ofOption_bind fun key hkey => ensures_ofOption_bind fun increase _ =>
    ensures_ofOption_bind fun mint _ => ensures_ofOption_bind fun tokenURI _ => ?_
  refine offPools_bind (Table.confined_upsert position_offPools) fun _ =>
    offPools_bind Table.confined_find fun token0 =>
    offPools_bind Table.confined_find fun token1 =>
    offPools_bind addTVL_offPools fun _ => offPools_bind addTVL_offPools fun _ =>
    offPools_bind updateTicks_offPools fun _ => ensures_syncPoolData ?_
  rw [hkey, Option.map_some]

theorem revertMint_syncs {tokenA tokenB : TokenID} {fee : ℕ} (hs : tx.isSuccessful = true) :
    (Dex.revertMint env header tx tokenA tokenB fee events).Ensures
      (SyncsPool env ((getPoolKey tokenA tokenB fee).map env.poolAddress)) := by
  rw [Dex.revertMint, ifSuccessful, if_pos hs]
  refine ensures_ofOption_bind fun increase _ =>
    offPools_bind (Table.confined_deleteByPrimaryKey position_offPools) fun _ =>
    ensures_ofOption_bind fun key hkey => ?_
  refine offPools_bind Table.confined_find fun token0 =>
    offPools_bind Table.confined_find fun token1 =>
    offPools_bind removeTVL_offPools fun _ => offPools_bind removeTVL_offPools fun _ =>
    ensures_ofOption_bind fun mint _ =>
    offPools_bind revertTicks_offPools fun _ => ensures_syncPoolData ?_
  rw [hkey, Option.map_some]

theorem applyLiquidity_syncs {k : Dex.LiquidityChange} (hs : tx.isSuccessful = true) :
    (Dex.applyLiquidity k env header tx address events).Ensures
      (SyncsPool env (some address)) := by
  rw [Dex.applyLiquidity, ifSuccessful, if_pos hs]
  refine offPools_bind Table.confined_find fun token0 =>
    offPools_bind Table.confined_find fun token1 => ensures_ofOption_bind fun change _ =>
    offPools_bind addTVL_offPools fun _ => offPools_bind addTVL_offPools fun _ =>
    ensures_ofOption_bind fun ticks _ => ?_
  exact offPools_bind updateTicks_offPools fun _ => offPools_bind addLiquidity_offPools fun _ =>
    ensures_syncPoolData rfl

theorem revertLiquidity_syncs {k : Dex.LiquidityChange} (hs : tx.isSuccessful = true) :
    (Dex.revertLiquidity k env header tx address events).Ensures
      (SyncsPool env (some address)) := by
  rw [Dex.revertLiquidity, ifSuccessful, if_pos hs]
  refine offPools_bind Table.confined_find fun token0 =>
    offPools_bind Table.confined_find fun token1 => ensures_ofOption_bind fun change _ =>
    offPools_bind removeTVL_offPools fun _ => offPools_bind removeTVL_offPools fun _ =>
    ensures_ofOption_bind fun ticks _ => ?_
  exact offPools_bind revertTicks_offPools fun _ => offPools_bind addLiquidity_offPools fun _ =>
    ensures_syncPoolData rfl

/-- The tables of the other commands. -/
private theorem offPools_of_mayWrite
    (h : tx.isSuccessful = true → tx.params.isLiquidity = false ∧ tx.params ≠ .dexCreatePool)
    (conn : Conn) (c : Cell) (hc : tx.mayWrite c) : offPools conn c := by
  obtain ⟨hs, ht⟩ := hc
  obtain ⟨hl, hcreate⟩ := h hs
  rintro (hc | hc) <;> rw [hc] at ht <;> cases hp : tx.params <;>
    simp [hp, Command.tables, Command.isLiquidity] at ht hl hcreate

/-- The hook of a transaction that creates no pool. -/
theorem applyTransaction_syncs (hcreate : tx.isSuccessful = true → tx.params ≠ .dexCreatePool) :
    (applyTransaction env header events tx).Ensures fun w w' =>
      SameOn OfPools w w' ∨ SyncsPool env (tx.syncedPool env) w w' := by
  by_cases h : tx.isSuccessful = true → tx.params.isLiquidity = false
  · have hconf : Confined (Respects offPools) (applyTransaction env header events tx) :=
      applyTransaction_tables (offPools_of_mayWrite fun hs => ⟨h hs, hcreate hs⟩)
    exact fun w a w' hrun => .inl (sameOn_of_offPools hconf hrun)
  obtain ⟨hs, hl⟩ := Classical.not_imp.mp h
  refine Ensures.mono (R := SyncsPool env (tx.syncedPool env)) ?_ fun _ _ => .inr
  rw [applyTransaction_eq, applyHook]
  cases hp : tx.params with
  | dexMint tokenA tokenB fee =>
    simp only [IndexedTx.syncedPool, hs, hp, if_true]
    exact applyMint_syncs hs
  | dexIncreaseLiquidity poolAddress =>
    simp only [IndexedTx.syncedPool, hs, hp, if_true]
    exact applyLiquidity_syncs hs
  | dexDecreaseLiquidity poolAddress =>
    simp only [IndexedTx.syncedPool, hs, hp, if_true]
    exact applyLiquidity_syncs hs
  | _ => simp [hp, Command.isLiquidity] at hl

/-- A successful `createPool` is never reverted to the end. -/
theorem revertTransaction_syncs :
    (revertTransaction env header events tx).Ensures fun w w' =>
      SameOn OfPools w w' ∨ SyncsPool env (tx.syncedPool env) w w' := by
  by_cases h : tx.isSuccessful = true → tx.params.isLiquidity = false ∧ tx.params ≠ .dexCreatePool
  · have hconf : Confined (Respects offPools) (revertTransaction env header events tx) :=
      revertTransaction_tables (offPools_of_mayWrite h)
    exact fun w a w' hrun => .inl (sameOn_of_offPools hconf hrun)
  obtain ⟨hs, hl⟩ := Classical.not_imp.mp h
  refine Ensures.mono (R := SyncsPool env (tx.syncedPool env)) ?_ fun _ _ => .inr
  rw [revertTransaction_eq, revertHook]
  cases hp : tx.params with
  | dexMint tokenA tokenB fee =>
    simp only [IndexedTx.syncedPool, hs, hp, if_true]
    exact revertMint_syncs hs
  | dexIncreaseLiquidity poolAddress =>
    simp only [IndexedTx.syncedPool, hs, hp, if_true]
    exact revertLiquidity_syncs hs
  | dexDecreaseLiquidity poolAddress =>
    simp only [IndexedTx.syncedPool, hs, hp, if_true]
    exact revertLiquidity_syncs hs
  | dexCreatePool => exact fun w a w' hrun => (revertCreatePool_fails hs ⟨a, w', hrun⟩).elim
  | _ => simp [hp, Command.isLiquidity] at hl

/-- **Synchronising keeps the rows coherent** if the node's tick stands for the stored prices. -/
theorem PoolRowsInv.syncsPool (h : PoolRowsInv env w)
    (hprices : ∀ address, pool = some address →
      StandsForPrices env w address (env.getPool (env.decodePoolAddress address)))
    (heffect : SameOn OfPools w w' ∨ SyncsPool env pool w w') : PoolRowsInv env w' := by
  rcases heffect with hsame | ⟨address, hpool, hsame⟩
  · exact h.of_sameOn hsame
  · exact (h.of_synced (hprices address hpool)).of_sameOn hsame

end Liquidity

/-! ### Swaps -/

/-- The swaps of a pool whose rows are committed agree on what they write. -/
def SwapsAgree (env : Env) (state : SwapEvent → PoolState) (es : List SwapEvent) (db : DB) :
    Prop :=
  ∀ e ∈ es, ∀ e' ∈ es, e'.key env = e.key env → (identAt db (e.key env)).isSome →
    state e' = state e

section Swaps

variable {env : Env} {key : PoolKey} {target : PoolState} {w₀ w w' : DBSession}
  {es : List SwapEvent} {e : SwapEvent} {volume : SwapEvent → Prog Unit}
  {state : SwapEvent → PoolState}

/-- While swaps are processed, tokens keep their decimals and the rows of a pool stay. -/
structure SwapFrame (w₀ : DBSession) (key : PoolKey) (w : DBSession) : Prop where
  tokens : ∀ t, decimalAt (w.view .dbTrx) t = decimalAt (w₀.view .dbTrx) t
  ident : ∀ inverted, identAt w.committed (key.oriented inverted) =
    identAt w₀.committed (key.oriented inverted)

/-- The goal: a row that is there has the columns of the given state. -/
def RowReaches (env : Env) (w₀ : DBSession) (key : PoolKey) (target : PoolState) (inverted : Bool)
    (w : DBSession) : Prop :=
  columnsAt w.committed (key.oriented inverted) =
    (identAt w₀.committed (key.oriented inverted)).map fun _ =>
      priced env (w₀.view .dbTrx) key target inverted

theorem identAt_updateRow (db : DB) (k k' : PoolKey) (price : ℚ) (state : PoolState) :
    identAt ((Table.updateRow k'.cell (setPool price state) : Stmt).exec db) k = identAt db k := by
  unfold identAt
  by_cases hcell : k.cell = k'.cell
  · obtain rfl := pool_cell_inj hcell
    rw [Write.exec_get, Table.updateRow_act_self, Option.map_map]
    rfl
  · rw [Write.exec_get, Table.updateRow_fixes hcell]

theorem SwapFrame.of_sameOn (h : SwapFrame w₀ key w) (hs : SameOn OfPools w w') :
    SwapFrame w₀ key w' :=
  ⟨fun t => (decimalAt_of_sameOn hs .dbTrx t).trans (h.tokens t), fun inverted =>
    (identAt_congr (hs (key.oriented inverted).cell (.inl rfl)).1).trans (h.ident inverted)⟩

theorem RowReaches.of_sameOn {inverted : Bool} (h : RowReaches env w₀ key target inverted w)
    (hs : SameOn OfPools w w') : RowReaches env w₀ key target inverted w' :=
  (columnsAt_congr (hs (key.oriented inverted).cell (.inl rfl)).1).trans h

/-- What leaves pools and tokens alone spoils nothing. -/
theorem stable_of_offPools {α : Type} {p : Prog α} (hp : Confined (Respects offPools) p)
    (inverted : Bool) :
    p.Stable AnyFailure (SwapFrame w₀ key) (RowReaches env w₀ key target inverted) := by
  refine All.stable (All.mono hp fun u hu w hw => ?_)
  have hs : SameOn OfPools w (u w) := by
    rcases hu with rfl | ⟨conn, st, hst, rfl⟩
    · exact SameOn.refl _ _
    · exact fun c hc => sameAt_send (hst c fun h => h hc) w
  exact ⟨hw.of_sameOn hs, fun hq => hq.of_sameOn hs⟩

private theorem SwapFrame.updatePool (h : SwapFrame w₀ key w) (k : PoolKey) (price : ℚ)
    (state : PoolState) : SwapFrame w₀ key (Session.send .default
      (Table.updateRow k.cell (setPool price state)) w) := by
  refine ⟨fun t => ?_, fun inverted => (identAt_updateRow _ _ _ _ _).trans (h.ident inverted)⟩
  have hsame : SameAt (.token t) w
      (Session.send .default (Table.updateRow k.cell (setPool price state)) w) :=
    sameAt_send (Table.updateRow_fixes (by simp)) w
  exact (congrArg (Option.map TokenRow.decimal) (hsame.view .dbTrx)).trans (h.tokens t)

/-- An update writes the goal, or another row. -/
private theorem stable_updatePoolRow {k : PoolKey} {price : ℚ} {state : PoolState} {inverted : Bool}
    (h : key.oriented inverted = k → (identAt w₀.committed (key.oriented inverted)).isSome →
      (state, price) = priced env (w₀.view .dbTrx) key target inverted) :
    (Table.update .default k.cell (setPool price state) : Prog Unit).Stable AnyFailure
      (SwapFrame w₀ key) (RowReaches env w₀ key target inverted) := by
  refine stable_act fun w hw => ⟨hw.updatePool k price state, fun hq => ?_⟩
  rw [RowReaches, send_default_committed, columnsAt_updateRow]
  split
  · rename_i hk
    rw [hq, Option.map_map]
    cases hrow : identAt w₀.committed (key.oriented inverted) with
    | none => rfl
    | some i => exact congrArg some (h hk (by simp [hrow]))
  · exact hq

private theorem reaches_updatePoolRow {price : ℚ} {state : PoolState} {inverted : Bool}
    (h : (identAt w₀.committed (key.oriented inverted)).isSome →
      (state, price) = priced env (w₀.view .dbTrx) key target inverted) :
    (Table.update .default (key.oriented inverted).cell (setPool price state) : Prog Unit).Reaches
      (SwapFrame w₀ key) (RowReaches env w₀ key target inverted) := by
  refine reaches_act fun w hw => ?_
  rw [RowReaches, send_default_committed, columnsAt_updateRow, if_pos rfl, columnsAt_map_const,
    hw.ident]
  cases hrow : identAt w₀.committed (key.oriented inverted) with
  | none => rfl
  | some i => exact congrArg some (h (by simp [hrow]))

/-- The decimals that a swap reads are the registered ones. -/
private theorem SwapFrame.registeredDecimal_eq (h : SwapFrame w₀ key w) {t : TokenID} {r : TokenRow}
    (hr : (w.view .dbTrx).get (.token t) = some r) :
    registeredDecimal (w₀.view .dbTrx) t = r.decimal := by
  refine registeredDecimal_of_decimalAt ((h.tokens t).symm.trans ?_)
  rw [decimalAt, hr]
  rfl

variable (hv : ∀ e, Confined (Respects offPools) (volume e)) (hkey : key.Ordered)

include hv hkey in
/-- The function for a swap of this pool writes the goal, one of another pool leaves it alone. -/
private theorem stable_processSwapRow (he : (e.key env).Ordered)
    (h : e.key env = key → (∃ inverted, (identAt w₀.committed (key.oriented inverted)).isSome) →
      state e = target) (inverted : Bool) :
    (processSwap env volume state e).Stable AnyFailure (SwapFrame w₀ key)
      (RowReaches env w₀ key target inverted) := by
  refine stable_read_bind fun w hw => stable_read_bind fun w' hw' =>
    (stable_of_offPools (hv e) inverted).bind fun _ =>
    stable_ofOption_bind (fun _ => trivial) fun r₀ hr₀ =>
    stable_ofOption_bind (fun _ => trivial) fun r₁ hr₁ => ?_
  have hrow : ∀ i, key.oriented inverted = (e.key env).oriented i →
      (identAt w₀.committed (key.oriented inverted)).isSome →
      (state e, env.getPriceAtTick (state e).tick r₀.decimal r₁.decimal i) =
        priced env (w₀.view .dbTrx) key target inverted := by
    intro i hk hsome
    obtain ⟨heq, rfl⟩ := PoolKey.oriented_inj hkey he hk
    rw [← h heq.symm ⟨_, hsome⟩, priced, heq, SwapEvent.key, hw.registeredDecimal_eq hr₀,
      hw'.registeredDecimal_eq hr₁]
  refine Stable.bind ((stable_updatePoolRow (hrow false)).bind fun _ =>
    stable_updatePoolRow (hrow true)) fun _ => ?_
  refine (stable_of_offPools (updateCurrentPrice_confined ?_) inverted).bind fun _ =>
    stable_of_offPools (updateCurrentPrice_confined ?_) inverted
  all_goals simp [offPools, OfPools, Cell.table]

include hv in
private theorem reaches_processSwapRow (he : e.key env = key)
    (h : (∃ inverted, (identAt w₀.committed (key.oriented inverted)).isSome) → state e = target)
    (hkey : key.Ordered) (inverted : Bool) :
    (processSwap env volume state e).Reaches (SwapFrame w₀ key)
      (RowReaches env w₀ key target inverted) := by
  subst he
  refine reaches_read_bind fun w hw => reaches_read_bind fun w' hw' =>
    Reaches.bind_right (stable_of_offPools (hv e) inverted) fun _ =>
    reaches_ofOption_bind fun r₀ hr₀ => reaches_ofOption_bind fun r₁ hr₁ =>
    Reaches.bind_left ?_ _
  have hrow : ∀ i, (identAt w₀.committed ((e.key env).oriented i)).isSome →
      (state e, env.getPriceAtTick (state e).tick r₀.decimal r₁.decimal i) =
        priced env (w₀.view .dbTrx) (e.key env) target i := by
    intro i hsome
    rw [← h ⟨_, hsome⟩, priced, SwapEvent.key, hw.registeredDecimal_eq hr₀,
      hw'.registeredDecimal_eq hr₁]
  cases inverted with
  | false => exact (reaches_updatePoolRow (hrow false)).bind_left _
  | true =>
    refine Reaches.bind_right (stable_updatePoolRow (fun hk => ?_)) fun _ =>
      reaches_updatePoolRow (hrow true)
    have hk' : (e.key env).oriented true = (e.key env).oriented false := hk
    exact absurd (PoolKey.oriented_inj hkey hkey hk').2 (by simp)

/-- What swaps leave alone: the tokens, and what the transaction does to pools. -/
private theorem swapWrites_frame {p : Prog Unit} (hp : Confined (Respects swapWrites) p)
    (hrun : p.run w = (.ok (), w')) :
    (∀ conn t, decimalAt (w'.view conn) t = decimalAt (w.view conn) t) ∧
      ∀ (k : PoolKey) o, w'.pending.act k.cell o = w.pending.act k.cell o := by
  have hw' : (p.run w).2 = w' := congrArg Prod.snd hrun
  constructor
  · intro conn t
    have hsame := hp.run_sameAt (c := .token t) (fun conn st hst => hst _ ?_) w
    · rw [hw'] at hsame
      exact congrArg (Option.map TokenRow.decimal) (hsame.view conn)
    · cases conn <;> simp [swapWrites, Cell.table]
  · intro k
    have hkeep := (hp.keeps_pending_act (c := k.cell) (fun st hst => hst _ ?_)
      (w.pending.act k.cell)).run (s := w) fun _ => rfl
    · rw [hw'] at hkeep
      exact hkeep
    · simp [swapWrites, Cell.table]

include hv hkey in
/-- The rows end with the state that the swaps of the pool agree on, if there are any. -/
private theorem rowReaches_swaps {order : List ℕ} (hordered : ∀ e ∈ es, (e.key env).Ordered)
    (hrun : (Async.interleave order (es.map (processSwap env volume state))).run w = (.ok (), w'))
    (htarget : ∀ e ∈ es, e.key env = key →
      (∃ inverted, (identAt w.committed (key.oriented inverted)).isSome) → state e = target)
    (hstart : (∀ inverted, RowReaches env w key target inverted w) ∨ ∃ e ∈ es, e.key env = key) :
    SwapFrame w key w' ∧ ∀ inverted, RowReaches env w key target inverted w' := by
  have hframe : SwapFrame w key w := ⟨fun _ => rfl, fun _ => rfl⟩
  have hstable : ∀ inverted, ∀ p ∈ es.map (processSwap env volume state),
      p.Stable AnyFailure (SwapFrame w key) (RowReaches env w key target inverted) := by
    intro inverted p hp
    obtain ⟨e, he, rfl⟩ := List.mem_map.mp hp
    exact stable_processSwapRow hv hkey (hordered e he) (htarget e he) inverted
  have hend : ∀ inverted, SwapFrame w key w' ∧ RowReaches env w key target inverted w' := by
    intro inverted
    obtain ⟨hI, hQ⟩ := (Stable.interleave order (hstable inverted)).run_ok hframe hrun
    refine ⟨hI, hQ ?_⟩
    rcases hstart with hstart | ⟨e, he, heq⟩
    · exact .inl (hstart inverted)
    · refine .inr (Reaches.interleave order (hstable inverted) ⟨_, List.mem_map_of_mem he, ?_⟩)
      exact reaches_processSwapRow hv heq (htarget e he heq) hkey inverted
  exact ⟨(hend false).1, fun inverted => (hend inverted).2⟩

include hv in
/-- **Swaps keep the rows coherent** in any order if those of one pool agree. -/
theorem PoolRowsInv.swaps (h : PoolRowsInv env w) {order : List ℕ}
    (hconf : Confined (Respects swapWrites)
      (Async.interleave order (es.map (processSwap env volume state))))
    (hordered : ∀ e ∈ es, (e.key env).Ordered) (hagree : SwapsAgree env state es w.committed)
    (hrun : (Async.interleave order (es.map (processSwap env volume state))).run w =
      (.ok (), w')) : PoolRowsInv env w' := by
  obtain ⟨hdec, hact⟩ := swapWrites_frame hconf hrun
  refine h.of_committed hdec hact fun key hkey hview hview' => ?_
  -- A pool has no rows, which swaps do not create, or two that agree with one state.
  rcases h.sound key hkey with hnone | ⟨address, stored, hstored⟩
  · have hnone' : ∀ inverted, identAt w.committed (key.oriented inverted) = none := fun inverted =>
      (identAt_congr (hview inverted)).symm.trans (hnone inverted)
    have hstart : ∀ inverted, RowReaches env w key ⟨0, 0⟩ inverted w := by
      intro inverted
      rw [RowReaches, hnone', columnsAt_eq_none (hnone' inverted)]
      rfl
    have habsent : ¬ ∃ inverted, (identAt w.committed (key.oriented inverted)).isSome := by
      simp [hnone']
    obtain ⟨hend, -⟩ := rowReaches_swaps hv hkey hordered hrun
      (fun _ _ _ hsome => absurd hsome habsent) (.inl hstart)
    refine .inl fun inverted => ?_
    rw [identAt_congr (hview' inverted), hend.ident, hnone']
  · have hident : ∀ inverted, identAt w.committed (key.oriented inverted) =
        some (inverted, address) := fun inverted =>
      (identAt_congr (hview inverted)).symm.trans (hstored.ident inverted)
    obtain ⟨target, htarget, hstart⟩ : ∃ target, (∀ e ∈ es, e.key env = key →
          (∃ inverted, (identAt w.committed (key.oriented inverted)).isSome) →
            state e = target) ∧
        ((∀ inverted, RowReaches env w key target inverted w) ∨ ∃ e ∈ es, e.key env = key) := by
      by_cases hswap : ∃ e ∈ es, e.key env = key
      · obtain ⟨e, he, heq⟩ := hswap
        refine ⟨state e, fun e' he' heq' _ => hagree e he e' he' (heq'.trans heq.symm) ?_,
          .inr ⟨e, he, heq⟩⟩
        have hsome := hident false
        rw [heq]
        exact Option.isSome_iff_exists.mpr ⟨_, hsome⟩
      · refine ⟨stored, fun e he heq => absurd ⟨e, he, heq⟩ hswap, .inl fun inverted => ?_⟩
        rw [RowReaches, hident, ← columnsAt_congr (hview inverted)]
        exact hstored.holds inverted
    obtain ⟨hend, hrows⟩ := rowReaches_swaps hv hkey hordered hrun htarget hstart
    refine .inr ⟨address, target, hstored.of_columns (fun t n hn => (hdec .dbTrx t).trans hn)
      (fun inverted => ?_) fun inverted => ?_⟩
    · rw [identAt_congr (hview' inverted), hend.ident, identAt_congr (hview inverted)]
    · rw [columnsAt_congr (hview' inverted), hrows inverted, hident]
      rfl

end Swaps

/-! ### Registering tokens -/

/-- The listed tokens agree on their decimals, also with what is registered. -/
def KeepsDecimals (db : DB) (tokens : List TokenRegisteredData) : Prop :=
  ∀ d ∈ tokens, (∀ d' ∈ tokens, d'.tokenId = d.tokenId → d'.decimal = d.decimal) ∧
    ∀ n, decimalAt db d.tokenId = some n → n = d.decimal

section Tokens

variable {env : Env} {w w' : DBSession} {tokens : List TokenRegisteredData}
  {row : TokenRegisteredData → TokenRow} {sched : List ℕ}

/-- Register tokens, all at the same time. -/
def registerTokens (sched : List ℕ) (row : TokenRegisteredData → TokenRow)
    (tokens : List TokenRegisteredData) : Prog Unit :=
  Async.interleave sched (tokens.map fun d => Table.upsert .dbTrx (.token d.tokenId) fun _ => row d)

private theorem registerTokens_confined (sched : List ℕ) (row : TokenRegisteredData → TokenRow)
    (tokens : List TokenRegisteredData) : Confined (Respects fun conn c =>
      conn = .dbTrx ∧ c.table = .registeredDexToken) (registerTokens sched row tokens) := by
  refine Confined.interleave fun p hp => ?_
  obtain ⟨d, -, rfl⟩ := List.mem_map.mp hp
  exact Table.confined_upsert ⟨rfl, rfl⟩

/-- A token whose registrations agree has their decimals in the end. -/
private theorem decimalAt_registerTokens (hrow : ∀ d, (row d).decimal = d.decimal) {t : TokenID}
    {n : ℕ} (hsame : ∀ d ∈ tokens, d.tokenId = t → d.decimal = n)
    (h : decimalAt (w.view .dbTrx) t = some n ∨ ∃ d ∈ tokens, d.tokenId = t)
    (hrun : (registerTokens sched row tokens).run w = (.ok (), w')) :
    decimalAt (w'.view .dbTrx) t = some n := by
  have hwrite : ∀ d ∈ tokens, ∀ v : DBSession, d.tokenId = t →
      decimalAt ((Session.send .dbTrx (Table.upsertRow (.token d.tokenId) fun _ => row d) v).view
        .dbTrx) t = some n := by
    rintro d hd v rfl
    rw [decimalAt, view_send_dbTrx_get, Table.upsertRow_act_self, Option.map_some, hrow,
      hsame d hd rfl]
  have hstable : ∀ p ∈ tokens.map (fun d => (Table.upsert .dbTrx (.token d.tokenId) fun _ =>
      row d : Prog Unit)), p.Stable AnyFailure (fun _ => True)
        fun v => decimalAt (v.view .dbTrx) t = some n := by
    intro p hp
    obtain ⟨d, hd, rfl⟩ := List.mem_map.mp hp
    refine stable_act fun v _ => ⟨trivial, fun hv => ?_⟩
    by_cases ht : d.tokenId = t
    · exact hwrite d hd v ht
    · have hsame : SameAt (.token t) v
          (Session.send .dbTrx (Table.upsertRow (.token d.tokenId) fun _ => row d) v) :=
        sameAt_send (Table.upsertRow_fixes (by simpa using Ne.symm ht)) v
      exact (congrArg (Option.map TokenRow.decimal) (hsame.view .dbTrx)).trans hv
  refine ((Stable.interleave sched hstable).run_ok trivial hrun).2
    (h.imp_right fun ⟨d, hd, ht⟩ => ?_)
  refine Reaches.interleave sched hstable ⟨_, List.mem_map_of_mem hd, ?_⟩
  exact reaches_act fun v _ => hwrite d hd v ht

/-- **Registering tokens keeps the rows coherent** if no decimals change; afterwards the listed
tokens have the listed decimals. -/
theorem PoolRowsInv.of_registerTokens (h : PoolRowsInv env w)
    (hrow : ∀ d, (row d).decimal = d.decimal) (hkeeps : KeepsDecimals (w.view .dbTrx) tokens)
    (hrun : (registerTokens sched row tokens).run w = (.ok (), w')) :
    PoolRowsInv env w' ∧
      (∀ t n, decimalAt (w.view .dbTrx) t = some n → decimalAt (w'.view .dbTrx) t = some n) ∧
      (∀ t, decimalAt w'.committed t = decimalAt w.committed t) ∧
      ∀ d ∈ tokens, decimalAt (w'.view .dbTrx) d.tokenId = some d.decimal := by
  have hw' : ((registerTokens sched row tokens).run w).2 = w' :=
    congrArg Prod.snd hrun
  have hpool : ∀ k : PoolKey, SameAt k.cell w w' := by
    intro k
    have hsame := (registerTokens_confined sched row tokens).run_sameAt (c := k.cell)
      (fun conn st hst => hst _ (by simp [Cell.table])) w
    rwa [hw'] at hsame
  have hcommitted : ∀ t, decimalAt w'.committed t = decimalAt w.committed t := by
    intro t
    have hkeep := ((registerTokens_confined sched row tokens).keeps_committed_get
      (c := .token t) (fun st hst => hst _ (by simp)) (w.committed.get (.token t))).run (s := w) rfl
    rw [hw'] at hkeep
    exact congrArg (Option.map TokenRow.decimal) hkeep
  have hdec : ∀ t n, decimalAt (w.view .dbTrx) t = some n →
      decimalAt (w'.view .dbTrx) t = some n := by
    intro t n hn
    refine decimalAt_registerTokens hrow (fun d hd ht => ?_) (.inl hn) hrun
    subst ht
    exact ((hkeeps d hd).2 n hn).symm
  refine ⟨⟨fun t n hn => ?_, fun key hkey => ?_, fun key hkey => ?_⟩, hdec, hcommitted,
    fun d hd => ?_⟩
  · exact hdec t n (h.tokens t n ((hcommitted t).symm.trans hn))
  · exact (h.pending key hkey).of_act fun inverted o => (hpool _).2 o
  · exact (h.sound key hkey).of_get hdec fun inverted => (hpool _).view .dbTrx
  · exact decimalAt_registerTokens hrow (hkeeps d hd).1 (.inr ⟨d, hd, rfl⟩) hrun

end Tokens

/-! ### New pools -/

/-- The row that the transaction has written under a key, whatever was there. -/
def RowWritten (key : PoolKey) (inverted : Bool) (S : PoolRow → Prop) (w : DBSession) : Prop :=
  ∃ r : PoolRow, (∀ o, w.pending.act (key.oriented inverted).cell o = some r) ∧ S r

/-- The row carries the given state, and the price that its tick stands for. -/
structure RowFor (env : Env) (db : DB) (key : PoolKey) (address : Address) (state : PoolState)
    (inverted : Bool) (r : PoolRow) : Prop where
  token0 : (decimalAt db key.token0).isSome
  token1 : (decimalAt db key.token1).isSome
  ident : r.ident = (inverted, address)
  columns : r.columns = priced env db key state inverted

/-- The rows of the listed pools, on `dbTrx`. -/
def poolRowsOf (keys : List PoolKey) : Conn → Cell → Prop := fun conn c =>
  conn = .dbTrx ∧ ∃ key ∈ keys, ∃ inverted, c = (key.oriented inverted).cell

/-- Both rows of a pool, one after the other. -/
def insertPool (key : PoolKey) (row : Bool → PoolRow) : Prog Unit := do
  Table.upsert .dbTrx (key.oriented false).cell fun _ => row false
  Table.upsert .dbTrx (key.oriented true).cell fun _ => row true

section Creation

variable {env : Env} {header : BlockHeader} {events : List Event} {tx : IndexedTx}
  {w w' : DBSession} {key : PoolKey} {keys : List PoolKey} {row : Bool → PoolRow}

theorem oriented_of_cell {key key' : PoolKey} (hkey : key.Ordered) (hkey' : key'.Ordered)
    {i i' : Bool} (hcell : (key.oriented i).cell = (key'.oriented i').cell) :
    key = key' ∧ i = i' := PoolKey.oriented_inj hkey hkey' (pool_cell_inj hcell)

private theorem decimalAt_of_sameAt (h : ∀ t, SameAt (.token t) w w') (conn : Conn) (t : TokenID) :
    decimalAt (w'.view conn) t = decimalAt (w.view conn) t :=
  congrArg (Option.map TokenRow.decimal) ((h t).view conn)

/-- A pool is stored once both of its rows are written. -/
private theorem poolStored_of_written {address : Address} {state : PoolState}
    (htoken : ∀ t, SameAt (.token t) w w')
    (hrow : ∀ inverted,
      RowWritten key inverted (RowFor env (w.view .dbTrx) key address state inverted) w') :
    PoolStored env (w'.view .dbTrx) key address state := by
  have hget : ∀ inverted, ∃ r : PoolRow,
      (w'.view .dbTrx).get (key.oriented inverted).cell = some r ∧
      RowFor env (w.view .dbTrx) key address state inverted r := by
    intro inverted
    obtain ⟨r, hr, hfor⟩ := hrow inverted
    exact ⟨r, hr _, hfor⟩
  obtain ⟨r, -, hfor⟩ := hget false
  refine ⟨?_, ?_, fun inverted => ?_, fun inverted => ?_⟩
  · rw [decimalAt_of_sameAt htoken]
    exact hfor.token0
  · rw [decimalAt_of_sameAt htoken]
    exact hfor.token1
  · obtain ⟨r, hr, hfor⟩ := hget inverted
    rw [identAt, hr, Option.map_some, hfor.ident]
  · obtain ⟨r, hr, hfor⟩ := hget inverted
    have hreg : ∀ t, registeredDecimal (w'.view .dbTrx) t =
        registeredDecimal (w.view .dbTrx) t := by
      intro t
      unfold registeredDecimal
      rw [(htoken t).view .dbTrx]
    rw [columnsAt, hr, Option.map_some, hfor.columns, priced, priced, hreg, hreg]

/-- **New pools keep the rows coherent** if both rows of each of them are written with the price
of their tick; they may replace others. -/
theorem PoolRowsInv.inserted (h : PoolRowsInv env w) (hkeys : ∀ key ∈ keys, key.Ordered)
    {p : Prog Unit} (hp : Confined (Respects (poolRowsOf keys)) p) (hrun : p.run w = (.ok (), w'))
    (hwritten : ∀ key ∈ keys, ∃ address state, ∀ inverted,
      RowWritten key inverted (RowFor env (w.view .dbTrx) key address state inverted) w') :
    PoolRowsInv env w' := by
  have hsame : ∀ c, (∀ key ∈ keys, ∀ inverted, c ≠ (key.oriented inverted).cell) →
      SameAt c w w' := by
    intro c hc
    have hrun' := hp.run_sameAt (c := c) (fun conn st hst => hst _ ?_) w
    · rwa [hrun] at hrun'
    · rintro ⟨-, key, hmem, inverted, hcell⟩
      exact hc key hmem inverted hcell
  have htoken : ∀ t, SameAt (.token t) w w' := fun t => hsame _ fun _ _ _ => by simp
  have hdec := decimalAt_of_sameAt htoken
  have hother : ∀ key : PoolKey, key.Ordered → key ∉ keys → ∀ inverted,
      SameAt (key.oriented inverted).cell w w' := by
    intro key hkey hnot inverted
    refine hsame _ fun key' hmem inverted' hcell => hnot ?_
    rwa [(oriented_of_cell hkey (hkeys key' hmem) hcell).1]
  refine ⟨fun t n hn => ?_, fun key hkey => ?_, fun key hkey => ?_⟩
  · rw [hdec .dbTrx]
    exact h.tokens t n ((hdec .default t).symm.trans hn)
  · by_cases hmem : key ∈ keys
    · obtain ⟨address, state, hrow⟩ := hwritten key hmem
      refine .inr fun inverted => ?_
      obtain ⟨r, hr, -⟩ := hrow inverted
      exact ⟨r, hr⟩
    · exact (h.pending key hkey).of_act fun inverted o => (hother key hkey hmem inverted).2 o
  · by_cases hmem : key ∈ keys
    · obtain ⟨address, state, hrow⟩ := hwritten key hmem
      exact .inr ⟨address, state, poolStored_of_written htoken hrow⟩
    · exact (h.sound key hkey).of_get (fun t n hn => (hdec .dbTrx t).trans hn) fun inverted =>
        (hother key hkey hmem inverted).view .dbTrx

theorem insertPool_confined (hmem : key ∈ keys) :
    Confined (Respects (poolRowsOf keys)) (insertPool key row) :=
  (Table.confined_upsert ⟨rfl, key, hmem, false, rfl⟩).bind fun _ =>
    Table.confined_upsert ⟨rfl, key, hmem, true, rfl⟩

private theorem rowWritten_upsert {key' : PoolKey} {i inverted : Bool} {S : PoolRow → Prop}
    (heq : key = key' ∧ inverted = i) (h : S (row i)) (w : DBSession) :
    RowWritten key inverted S
      (Session.send .dbTrx (Table.upsertRow (key'.oriented i).cell fun _ => row i) w) := by
  obtain ⟨rfl, rfl⟩ := heq
  refine ⟨row inverted, fun o => ?_, h⟩
  rw [send_dbTrx_pending, Write.comp_act, Table.upsertRow_act_self]

/-- A row that is to be written is not spoiled by another pool, nor by the pool itself. -/
private theorem stable_upsertPool {key' : PoolKey} (hkey : key.Ordered) (hkey' : key'.Ordered)
    {i inverted : Bool} {S : PoolRow → Prop} (h : key = key' ∧ inverted = i → S (row i)) :
    (Table.upsert .dbTrx (key'.oriented i).cell fun _ => row i : Prog Unit).Stable AnyFailure
      (fun _ => True) (RowWritten key inverted S) := by
  refine stable_act fun w _ => ⟨trivial, fun ⟨r, hr, hS⟩ => ?_⟩
  by_cases heq : key = key' ∧ inverted = i
  · exact rowWritten_upsert heq (h heq) w
  · have hfix : (Table.upsertRow (key'.oriented i).cell fun _ => row i : Stmt).Fixes
        (key.oriented inverted).cell :=
      Table.upsertRow_fixes fun hcell => heq (oriented_of_cell hkey hkey' hcell)
    refine ⟨r, fun o => ?_, hS⟩
    rw [send_dbTrx_pending, Write.comp_act, hfix, hr]

theorem stable_insertPool {key' : PoolKey} (hkey : key.Ordered) (hkey' : key'.Ordered)
    {inverted : Bool} {S : PoolRow → Prop} (h : key = key' → S (row inverted)) :
    (insertPool key' row).Stable AnyFailure (fun _ => True) (RowWritten key inverted S) :=
  (stable_upsertPool hkey hkey' fun ⟨heq, hi⟩ => hi ▸ h heq).bind fun _ =>
    stable_upsertPool hkey hkey' fun ⟨heq, hi⟩ => hi ▸ h heq

theorem reaches_insertPool (hkey : key.Ordered) {inverted : Bool} {S : PoolRow → Prop}
    (h : S (row inverted)) :
    (insertPool key row).Reaches (fun _ => True) (RowWritten key inverted S) := by
  cases inverted with
  | false => exact (reaches_act fun w _ => rowWritten_upsert ⟨rfl, rfl⟩ h w).bind_left _
  | true =>
    refine Reaches.bind_right (E := AnyFailure) (stable_upsertPool hkey hkey fun ⟨_, hi⟩ => ?_)
      fun _ => reaches_act fun w _ => rowWritten_upsert ⟨rfl, rfl⟩ h w
    exact absurd hi (by simp)

/-- No token changes its decimals, and a token of the new pool that is not committed yet has the
decimals that `getPriceAtTick` falls back to. -/
structure CreatesCoherent (events : List Event) (tx : IndexedTx) (w : DBSession) : Prop where
  keeps : KeepsDecimals (w.view .dbTrx) (parseEvents events EventData.tokenRegistered? tx.id)
  fallback : ∀ created, parseSingleEvent events EventData.poolCreated? tx.id = some created →
    ∀ t, t = created.token0 ∨ t = created.token1 → decimalAt w.committed t = none →
    ∀ d ∈ parseEvents events EventData.tokenRegistered? tx.id, d.tokenId = t → d.decimal = 8

/-- The decimals that `createPool` uses are those that are registered then. -/
private theorem decimalAt_of_tokenDecimals {registered : List TokenRegisteredData} {t : TokenID}
    {n : ℕ} (h : PoolRowsInv env w) (hreg : ∀ d ∈ registered,
      decimalAt (w.view .dbTrx) d.tokenId = some d.decimal)
    (hfallback : decimalAt w.committed t = none → ∀ d ∈ registered, d.tokenId = t → d.decimal = 8)
    (hn : Dex.tokenDecimals (w.committed.get (.token t)) registered t = some n) :
    decimalAt (w.view .dbTrx) t = some n := by
  cases hrow : (w.committed.get (.token t) : Option TokenRow) with
  | some r =>
    rw [hrow] at hn
    refine h.tokens t n ?_
    rw [decimalAt, hrow]
    exact hn
  | none =>
    have hnone : decimalAt w.committed t = none := by
      rw [decimalAt, hrow]
      rfl
    rw [hrow, Dex.tokenDecimals] at hn
    split at hn
    · rename_i hany
      obtain ⟨d, hd, ht⟩ := List.any_eq_true.mp hany
      have ht' : d.tokenId = t := by simpa using ht
      obtain rfl : 8 = n := Option.some.inj hn
      rw [← hfallback hnone d hd ht', ← ht']
      exact hreg d hd
    · simp at hn

/-- **`createPool` keeps the rows coherent** if the decimals it finds are the registered ones. -/
theorem PoolRowsInv.applyCreatePool (h : PoolRowsInv env w) (hs : tx.isSuccessful = true)
    (hordered : ∀ created, parseSingleEvent events EventData.poolCreated? tx.id = some created →
      created.token0 < created.token1) (hc : CreatesCoherent events tx w)
    (hrun : (Dex.applyCreatePool env header tx events).run w = (.ok (), w')) :
    PoolRowsInv env w' := by
  rw [Dex.applyCreatePool, ifSuccessful, if_pos hs] at hrun
  obtain ⟨⟨⟩, v, hv, hrun⟩ := run_bind_ok.mp hrun
  have hv' : (registerTokens (env.sched (.registeredTokens tx.id)) (fun d =>
      { symbol := d.symbol, decimal := d.decimal, logo := env.tokenLogo d.tokenId })
      (parseEvents events EventData.tokenRegistered? tx.id)).run w = (.ok (), v) := hv
  obtain ⟨hinv, -, hcommitted, hreg⟩ := h.of_registerTokens (fun _ => rfl) hc.keeps hv'
  obtain ⟨created, hcreated, hrun⟩ := run_ofOption_bind_ok.mp hrun
  obtain ⟨feeHex, -, hrun⟩ := run_ofOption_bind_ok.mp hrun
  rw [Table.run_find_bind, Table.run_find_bind] at hrun
  obtain ⟨tick, -, hrun⟩ := run_ofOption_bind_ok.mp hrun
  obtain ⟨decimals0, hd₀, hrun⟩ := run_ofOption_bind_ok.mp hrun
  obtain ⟨decimals1, hd₁, hrun⟩ := run_ofOption_bind_ok.mp hrun
  have hfallback := hc.fallback created hcreated
  -- The decimals that are found are those of the rows, which are there by now.
  have ht₀ : decimalAt (v.view .dbTrx) created.token0 = some decimals0 :=
    decimalAt_of_tokenDecimals hinv hreg
      (fun hnone => hfallback _ (.inl rfl) ((hcommitted _).symm.trans hnone)) hd₀
  have ht₁ : decimalAt (v.view .dbTrx) created.token1 = some decimals1 :=
    decimalAt_of_tokenDecimals hinv hreg
      (fun hnone => hfallback _ (.inr rfl) ((hcommitted _).symm.trans hnone)) hd₁
  let key : PoolKey := ⟨created.token0, created.token1, created.fee⟩
  let row : Bool → PoolRow := Dex.poolRow env header created feeHex tick decimals0 decimals1
  have hkey : key.Ordered := hordered created hcreated
  have hfor : ∀ i, RowFor env (v.view .dbTrx) key created.poolAddress ⟨0, tick⟩ i (row i) := by
    refine fun i => ⟨Option.isSome_iff_exists.mpr ⟨_, ht₀⟩, Option.isSome_iff_exists.mpr ⟨_, ht₁⟩,
      rfl, ?_⟩
    rw [priced, registeredDecimal_of_decimalAt ht₀, registeredDecimal_of_decimalAt ht₁]
    rfl
  have hrun' : (insertPool key row).run v = (.ok (), w') := hrun
  have hkeys : ∀ key' ∈ [key], key'.Ordered := by
    intro key' hmem
    rw [List.mem_singleton.mp hmem]
    exact hkey
  refine hinv.inserted hkeys (insertPool_confined List.mem_cons_self) hrun' fun key' hmem => ?_
  obtain rfl := List.mem_singleton.mp hmem
  refine ⟨created.poolAddress, ⟨0, tick⟩, fun inverted => ?_⟩
  exact ((stable_insertPool hkey hkey fun _ => hfor inverted).run_ok trivial hrun').2
    (.inr (reaches_insertPool hkey (hfor inverted)))

end Creation

/-! ### Genesis -/

/-- The key of a genesis pool. -/
def GenesisPool.key (p : GenesisPool) : PoolKey := ⟨p.token0, p.token1, p.fee⟩

section GenesisPools

variable {env : Env} {header : BlockHeader} {assets : GenesisAssets} {w w' : DBSession}
  {tokens : List TokenRegisteredData} {pools : List GenesisPool} {p : GenesisPool}

/-- Whatever survives the look-ups holds of the hook, if it holds of the two statements. -/
private theorem indexDexPool_of_insertPool {X : Prog Unit → Prop}
    (hoption : ∀ {α : Type} (e : Failure) (o : Option α) (k : α → Prog Unit),
      (∀ a, o = some a → X (k a)) → X (ofOption e o >>= k))
    (h : ∀ feeHex token0 token1, token0 ∈ tokens → token1 ∈ tokens → token0.tokenId = p.token0 →
      token1.tokenId = p.token1 → X (insertPool p.key
        (Genesis.genesisPoolRow env header p feeHex token0.decimal token1.decimal))) :
    X (Genesis.indexDexPool env header tokens p) := by
  refine hoption _ _ _ fun feeHex _ => hoption _ _ _ fun token0 h₀ => hoption _ _ _ fun token1 h₁ =>
    h feeHex token0 token1 (List.mem_of_find?_eq_some h₀) (List.mem_of_find?_eq_some h₁) ?_ ?_
  · simpa using List.find?_some h₀
  · simpa using List.find?_some h₁

private theorem indexDexPool_confined {keys : List PoolKey} (hmem : p.key ∈ keys) :
    Confined (Respects (poolRowsOf keys)) (Genesis.indexDexPool env header tokens p) :=
  indexDexPool_of_insertPool
    (fun e o k hk => by
      cases o with
      | none => exact confined_throw e
      | some a => exact hk a rfl)
    fun _ _ _ _ _ _ _ => insertPool_confined hmem

/-- **The genesis pools**, all at the same time. -/
theorem PoolRowsInv.indexDexPools (h : PoolRowsInv env w) {sched : List ℕ}
    (hordered : ∀ p ∈ pools, p.key.Ordered) (hnodup : (pools.map GenesisPool.key).Nodup)
    (hreg : ∀ d ∈ tokens, decimalAt (w.view .dbTrx) d.tokenId = some d.decimal)
    (hrun : (Async.interleave sched (pools.map (Genesis.indexDexPool env header tokens))).run w =
      (.ok (), w')) : PoolRowsInv env w' := by
  have hkeys : ∀ key ∈ pools.map GenesisPool.key, key.Ordered := by
    intro key hmem
    obtain ⟨p, hp, rfl⟩ := List.mem_map.mp hmem
    exact hordered p hp
  refine h.inserted hkeys (Confined.interleave fun q hq => ?_) hrun fun key hmem => ?_
  · obtain ⟨p, hp, rfl⟩ := List.mem_map.mp hq
    exact indexDexPool_confined (List.mem_map_of_mem hp)
  obtain ⟨p, hp, rfl⟩ := List.mem_map.mp hmem
  refine ⟨env.poolAddress p.key, ⟨p.liquidity, p.tick⟩, fun inverted => ?_⟩
  -- Pools with this key are this one, so whoever writes the row writes what is wanted.
  have hfor : ∀ q ∈ pools, p.key = q.key → ∀ feeHex token0 token1, token0 ∈ tokens →
      token1 ∈ tokens → token0.tokenId = q.token0 → token1.tokenId = q.token1 →
      RowFor env (w.view .dbTrx) p.key (env.poolAddress p.key) ⟨p.liquidity, p.tick⟩ inverted
        (Genesis.genesisPoolRow env header q feeHex token0.decimal token1.decimal inverted) := by
    intro q hq hkey feeHex token0 token1 h₀ h₁ ht₀ ht₁
    obtain rfl := List.inj_on_of_nodup_map hnodup hp hq hkey
    have hd₀ : decimalAt (w.view .dbTrx) p.token0 = some token0.decimal := ht₀ ▸ hreg token0 h₀
    have hd₁ : decimalAt (w.view .dbTrx) p.token1 = some token1.decimal := ht₁ ▸ hreg token1 h₁
    refine ⟨Option.isSome_iff_exists.mpr ⟨_, hd₀⟩, Option.isSome_iff_exists.mpr ⟨_, hd₁⟩, rfl, ?_⟩
    rw [priced, GenesisPool.key, registeredDecimal_of_decimalAt hd₀,
      registeredDecimal_of_decimalAt hd₁]
    rfl
  refine run_interleave_reaches (E := AnyFailure) (I := fun _ => True) (fun q hmem => ?_)
    ⟨_, List.mem_map_of_mem hp, ?_⟩ trivial hrun
  · obtain ⟨q, hq, rfl⟩ := List.mem_map.mp hmem
    refine indexDexPool_of_insertPool
      (fun e o k hk => stable_ofOption_bind (fun _ => trivial) hk) ?_
    intro feeHex token0 token1 h₀ h₁ ht₀ ht₁
    exact stable_insertPool (hordered p hp) (hordered q hq) fun hkey =>
      hfor q hq hkey feeHex token0 token1 h₀ h₁ ht₀ ht₁
  · refine indexDexPool_of_insertPool (fun e o k hk => reaches_ofOption_bind hk) ?_
    intro feeHex token0 token1 h₀ h₁ ht₀ ht₁
    exact reaches_insertPool (hordered p hp) (hfor p hp rfl feeHex token0 token1 h₀ h₁ ht₀ ht₁)

/-- **Genesis indexing keeps the rows coherent.** -/
theorem PoolRowsInv.indexGenesisBlockAssets (h : PoolRowsInv env w)
    (hordered : ∀ p ∈ assets.pools, p.key.Ordered)
    (hnodup : (assets.pools.map GenesisPool.key).Nodup)
    (hkeeps : KeepsDecimals (w.view .dbTrx) assets.tokens)
    (hrun : (Genesis.indexGenesisBlockAssets env header assets).run w = (.ok (), w')) :
    PoolRowsInv env w' := by
  rw [Genesis.indexGenesisBlockAssets] at hrun
  obtain ⟨⟨⟩, w₁, h₁, hrun⟩ := run_bind_ok.mp hrun
  obtain ⟨⟨⟩, w₂, h₂, hrun⟩ := run_bind_ok.mp hrun
  obtain ⟨⟨⟩, w₃, h₃, hrun⟩ := run_bind_ok.mp hrun
  obtain ⟨⟨⟩, w₄, h₄, hrun⟩ := run_bind_ok.mp hrun
  obtain ⟨⟨⟩, w₅, h₅, hrun⟩ := run_bind_ok.mp hrun
  obtain ⟨⟨⟩, w₆, h₆, hrun⟩ := run_bind_ok.mp hrun
  obtain ⟨⟨⟩, w₇, h₇, h₈⟩ := run_bind_ok.mp hrun
  -- Only tokens and pools are written here, all else leaves their rows alone.
  have hs₁ : SameOn OfPools w w₁ := by
    refine sameOn_of_offPools (updateTotalLockedAmounts_confined _ _ fun t _ => ?_) h₁
    simp [offPools, OfPools, Cell.table]
  have hs₂ : SameOn OfPools w₁ w₂ := by
    refine sameOn_of_offPools (Genesis.indexPosValidatorsInfo_confined (fun _ _ => ?_)
      fun _ _ => ?_) h₂
    all_goals simp [offPools, OfPools, Cell.table]
  have hs₃ : SameOn OfPools w₂ w₃ := by
    refine sameOn_of_offPools (Genesis.indexPosStakesInfo_confined _ (fun _ _ => ?_)
      fun _ => ?_) h₃
    all_goals simp [offPools, OfPools, Cell.table]
  have hs₄ : SameOn OfPools w₃ w₄ := by
    refine sameOn_of_offPools (Genesis.confined_map (Genesis.indexFactory_confined (fun _ => ?_)
      fun _ => ?_)) h₄
    all_goals simp [offPools, OfPools, Cell.table]
  have hs : SameOn OfPools w w₄ := ((hs₁.trans hs₂).trans hs₃).trans hs₄
  have hkeeps' : KeepsDecimals (w₄.view .dbTrx) assets.tokens := by
    refine fun d hd => ⟨(hkeeps d hd).1, fun n hn => (hkeeps d hd).2 n ?_⟩
    exact (decimalAt_of_sameOn hs .dbTrx _).symm.trans hn
  have h₅' : (registerTokens (env.sched (.genesis "tokens")) (fun t =>
      { symbol := t.symbol, decimal := t.decimal,
        logo := some ((env.tokenLogo t.tokenId).getD (env.logoUrl t.symbol "svg")) })
      assets.tokens).run w₄ = (.ok (), w₅) := h₅
  obtain ⟨hinv₅, -, -, hreg⟩ := (h.of_sameOn hs).of_registerTokens (fun _ => rfl) hkeeps' h₅'
  have hs₆ : SameOn OfPools w₅ w₆ := by
    refine sameOn_of_offPools (Genesis.confined_map fun t => Table.confined_upsert ?_) h₆
    simp [offPools, OfPools, Cell.table]
  have hinv₇ : PoolRowsInv env w₇ := by
    refine (hinv₅.of_sameOn hs₆).indexDexPools hordered hnodup (fun d hd => ?_) h₇
    exact (decimalAt_of_sameOn hs₆ .dbTrx _).trans (hreg d hd)
  refine hinv₇.of_sameOn (sameOn_of_offPools (Genesis.confined_map
    (Genesis.indexNFTPosition_confined (fun _ => ?_) (fun _ _ => ?_) header assets.pools)) h₈)
  all_goals simp [offPools, OfPools, Cell.table]

end GenesisPools

/-! ### Runs -/

/-- The operations that write pools, with what they receive. `apply` and `revert` are the hooks of
any transaction, `createPool`, `mint`, `increaseLiquidity` and `decreaseLiquidity` among them; they
carry the node's answers to `dex_getPool`. `commit` ends a transaction of the database. -/
inductive PoolOp
  | genesis (header : BlockHeader) (assets : GenesisAssets)
  | apply (getPool : PoolKey → PoolState) (header : BlockHeader) (events : List Event)
      (tx : IndexedTx)
  | revert (getPool : PoolKey → PoolState) (header : BlockHeader) (events : List Event)
      (tx : IndexedTx)
  | applySwaps (header : BlockHeader) (events : List Event)
  | revertSwaps (header : BlockHeader) (events : List Event)
  | commit

namespace PoolOp

/-- What an operation runs, given the order of its concurrent steps. -/
def program (env : Env) (order : List ℕ) : PoolOp → Prog Unit
  | genesis header assets => Genesis.indexGenesisBlockAssets env header assets
  | apply getPool header events tx => applyTransaction { env with getPool } header events tx
  | revert getPool header events tx => revertTransaction { env with getPool } header events tx
  | applySwaps header events => applySwapEvent env order header events
  | revertSwaps header events => revertSwapEvent env order header events
  | commit => Async.act Session.commit

/-- What the chain promises: the tokens of a pool are ordered, and the genesis block has no pool
twice. -/
def WellFormed (env : Env) : PoolOp → Prop
  | genesis _ assets => (∀ p ∈ assets.pools, p.key.Ordered) ∧
      (assets.pools.map GenesisPool.key).Nodup
  | apply _ _ events tx =>
      ∀ created, parseSingleEvent events EventData.poolCreated? tx.id = some created →
        created.token0 < created.token1
  | revert _ _ _ _ => True
  | applySwaps _ events => ∀ e ∈ swapEvents events, (e.key env).Ordered
  | revertSwaps _ events => ∀ e ∈ swapEvents events, (e.key env).Ordered
  | commit => True

/-- The node's tick stands for the prices of the pool that a transaction synchronises. -/
def NodeAgrees (env : Env) (getPool : PoolKey → PoolState) (tx : IndexedTx) (w : DBSession) :
    Prop :=
  ∀ address, tx.syncedPool env = some address →
    StandsForPrices env w address (getPool (env.decodePoolAddress address))

/-- The condition under which an operation keeps the rows coherent. -/
def Harmless (env : Env) (w : DBSession) : PoolOp → Prop
  | genesis _ assets => KeepsDecimals (w.view .dbTrx) assets.tokens
  | apply getPool _ events tx => NodeAgrees env getPool tx w ∧
      (tx.isSuccessful = true → tx.params = .dexCreatePool → CreatesCoherent events tx w)
  | revert getPool _ _ tx => NodeAgrees env getPool tx w
  | applySwaps _ events => SwapsAgree env SwapEvent.after (swapEvents events) w.committed
  | revertSwaps _ events => SwapsAgree env SwapEvent.before (swapEvents events) w.committed
  | commit => True

end PoolOp

/-- An operation is completed, whatever the order of its concurrent steps. -/
def PoolOpStep (env : Env) (w : DBSession) (op : PoolOp) (w' : DBSession) : Prop :=
  ∃ sched order, (op.program { env with sched } order).run w = (.ok (), w')

section Runs

variable {env : Env} {w w' : DBSession} {op : PoolOp}

private theorem volume_offPools (e : SwapEvent) : offPools .dbTrx (.volume e.height e.index) := by
  simp [offPools, OfPools, Cell.table]

/-- **One completed operation.** -/
theorem PoolRowsInv.step (h : PoolRowsInv env w) (hop : op.WellFormed env)
    (hharmless : op.Harmless env w) (hstep : PoolOpStep env w op w') : PoolRowsInv env w' := by
  obtain ⟨sched, order, hrun⟩ := hstep
  cases op with
  | genesis header assets =>
    have h' : PoolRowsInv { env with sched } w := h.of_prices rfl
    have hend := h'.indexGenesisBlockAssets hop.1 hop.2 hharmless hrun
    exact hend.of_prices rfl
  | apply getPool header events tx =>
    have h' : PoolRowsInv { env with sched, getPool } w := h.of_prices rfl
    by_cases hcreate : tx.isSuccessful = true → tx.params ≠ .dexCreatePool
    · have hend := h'.syncsPool hharmless.1 (applyTransaction_syncs hcreate w () w' hrun)
      exact hend.of_prices rfl
    · obtain ⟨hs, hp⟩ := Classical.not_imp.mp hcreate
      rw [not_not] at hp
      simp only [PoolOp.program, applyTransaction_eq, applyHook, hp] at hrun
      have hend := h'.applyCreatePool hs hop (hharmless.2 hs hp) hrun
      exact hend.of_prices rfl
  | revert getPool header events tx =>
    have h' : PoolRowsInv { env with sched, getPool } w := h.of_prices rfl
    have hend := h'.syncsPool hharmless (revertTransaction_syncs w () w' hrun)
    exact hend.of_prices rfl
  | applySwaps header events =>
    have h' : PoolRowsInv { env with sched } w := h.of_prices rfl
    have hend := h'.swaps (fun e => Table.confined_upsert (volume_offPools e))
      (applySwapEvent_confined order events) hop hharmless hrun
    exact hend.of_prices rfl
  | revertSwaps header events =>
    have h' : PoolRowsInv { env with sched } w := h.of_prices rfl
    have hend := h'.swaps (fun e => Table.confined_delete (volume_offPools e))
      (revertSwapEvent_confined order events) hop hharmless hrun
    exact hend.of_prices rfl
  | commit =>
    obtain rfl : w.commit = w' := congrArg Prod.snd hrun
    exact h.commit

/-- **The two rows of every pool.** After any sequence of completed operations that meet the
condition, in transactions of any length and with any order of their concurrent steps, the two
rows of every pool have the same tick and liquidity, and the prices that the tick stands for. -/
theorem pools_coherent (hrun : Run (PoolOpStep env)
    (fun w op => op.WellFormed env ∧ op.Harmless env w) (ofStore .empty) w) :
    PoolsCoherent env (w.view .dbTrx) := by
  refine PoolSound.coherent (hrun.invariant (PoolRowsInv env) poolInv_empty ?_).sound
  intro w op w' h hop hstep
  exact h.step hop.1 hop.2 hstep

end Runs

/-! ### A pool whose tick moves -/

/-- `getPriceAtTick`: the price to as many decimal places as the token has, rounded half up. -/
def priceAtTick (tick : ℤ) (decimals0 decimals1 : ℕ) (inverted : Bool) : ℚ :=
  let price : ℚ := (10001 / 10000) ^ tick * 10 ^ ((decimals1 : ℤ) - decimals0)
  let places : ℕ := if inverted then decimals1 else decimals0
  ⌊(if inverted then price⁻¹ else price) * 10 ^ places + 1 / 2⌋ / 10 ^ places

/-- A network with one pool, and prices. -/
def pricedEnv : Env :=
  { onePoolEnv with poolAddress := fun _ => "pool", getPriceAtTick := priceAtTick }

/-- A genesis block with the pool, at tick 0 and with liquidity 100. -/
def pairedGenesis : PoolOp :=
  .genesis increaseHeader
    { users := [], validators := [], stakers := [], factories := []
      tokens := [⟨"btc", "BTC", 8⟩, ⟨"kly", "KLY", 8⟩]
      ticks := []
      pools := [⟨"btc", "kly", 3000, 60, 0, 100⟩]
      nfts := [] }

/-- The tables after it. -/
def paired : DBSession := ((pairedGenesis.program pricedEnv []).run (ofStore .empty)).2.commit

/-- An increase to liquidity 150, after which the node reports the given tick. -/
def increaseOp (tick : ℤ) : PoolOp :=
  .apply (fun _ => ⟨150, tick⟩) increaseHeader increaseTwice (increaseTx "a" 0)

def increased (tick : ℤ) : DBSession := (((increaseOp tick).program pricedEnv []).run paired).2

private theorem pairedGenesis_wellFormed : pairedGenesis.WellFormed pricedEnv := by
  refine ⟨fun p hp => ?_, by decide +kernel⟩
  obtain rfl := List.mem_singleton.mp hp
  exact (by decide : "btc" < "kly")

private theorem pairedGenesis_harmless : pairedGenesis.Harmless pricedEnv (ofStore .empty) := by
  refine fun d hd => ⟨?_, fun n hn => ?_⟩
  · revert d
    decide +kernel
  · simp [decimalAt] at hn

private theorem increaseOp_wellFormed (tick : ℤ) : (increaseOp tick).WellFormed pricedEnv := by
  intro created hcreated
  have hnone : parseSingleEvent increaseTwice EventData.poolCreated? (increaseTx "a" 0).id = none :=
    rfl
  rw [hnone] at hcreated
  simp at hcreated

/-- All pool rows are at tick 0. -/
private theorem paired_tick {k : PoolKey} {r : PoolRow}
    (hr : paired.committed.get k.cell = some r) : r.tick = 0 := by
  have hcells : ∀ c ∈ paired.committed.keys, c.table = .pool →
      c = .pool "btc" "kly" 3000 ∨ c = .pool "kly" "btc" 3000 := by decide +kernel
  have hmem : k.cell ∈ paired.committed.keys := by
    rw [Store.mem_keys, hr]
    rfl
  have hticks : (paired.committed.get (.pool "btc" "kly" 3000) : Option PoolRow).map PoolRow.tick =
      some 0 ∧ (paired.committed.get (.pool "kly" "btc" 3000) : Option PoolRow).map PoolRow.tick =
      some 0 := by decide +kernel
  have htick : (paired.committed.get k.cell : Option PoolRow).map PoolRow.tick = some 0 := by
    obtain ⟨token0, token1, fee⟩ := k
    rcases hcells _ hmem rfl with hk | hk
    · obtain ⟨rfl, rfl, rfl⟩ := Cell.pool.inj hk
      exact hticks.1
    · obtain ⟨rfl, rfl, rfl⟩ := Cell.pool.inj hk
      exact hticks.2
  rw [hr] at htick
  exact Option.some.inj htick

private theorem increaseOp_harmless : (increaseOp 0).Harmless pricedEnv paired := by
  refine ⟨fun address _ key _ inverted r hr _ => ?_, fun _ hp => ?_⟩
  · rw [priced, priced, paired_tick hr]
  · simp [increaseTx] at hp

private theorem pairedGenesis_step : PoolOpStep pricedEnv (ofStore .empty) pairedGenesis
    ((pairedGenesis.program pricedEnv []).run (ofStore .empty)).2 := ⟨fun _ => [], [], rfl⟩

private theorem commit_step (w : DBSession) : PoolOpStep pricedEnv w .commit w.commit :=
  ⟨fun _ => [], [], rfl⟩

/-- An increase at an unmoved tick: both rows have the new liquidity, and the price of tick 0. -/
theorem pools_coherent_increased :
    columnsAt ((increased 0).view .dbTrx) ⟨"btc", "kly", 3000⟩ = some (⟨150, 0⟩, 1) ∧
      PoolsCoherent pricedEnv ((increased 0).view .dbTrx) := by
  refine ⟨by decide +kernel, pools_coherent (Run.tail (Run.tail (Run.tail .refl
    pairedGenesis_step ⟨pairedGenesis_wellFormed, pairedGenesis_harmless⟩)
    (commit_step _) ⟨trivial, trivial⟩)
    ⟨fun _ => [], [], rfl⟩ ⟨increaseOp_wellFormed 0, increaseOp_harmless⟩)⟩

/-- The node is at tick 1 already when the increase is indexed: the rows take its tick and keep the
price of tick 0. -/
theorem synced_tick_without_price :
    ¬ ∀ w, Run (PoolOpStep pricedEnv) (fun _ op => op.WellFormed pricedEnv) (ofStore .empty) w →
      PoolsCoherent pricedEnv (w.view .dbTrx) := by
  intro h
  have hcoherent := h (increased 1) (Run.tail (Run.tail (Run.tail .refl pairedGenesis_step
    pairedGenesis_wellFormed) (commit_step _) trivial) ⟨fun _ => [], [], rfl⟩
    (increaseOp_wellFormed 1)) ⟨"btc", "kly", 3000⟩ (by decide : "btc" < "kly")
  have hcolumns : columnsAt ((increased 1).view .dbTrx) ⟨"btc", "kly", 3000⟩ =
      some (⟨150, 1⟩, 1) := by decide +kernel
  rcases hcoherent with hnone | ⟨-, -, state, hholds⟩
  · have hnone' := hnone false
    rw [PoolKey.oriented, hcolumns] at hnone'
    simp at hnone'
  · have hrow := hholds false
    rw [PoolKey.oriented, hcolumns] at hrow
    have hrow' := Option.some.inj hrow
    have hstate : (⟨150, 1⟩ : PoolState) = state := congrArg Prod.fst hrow'
    have hprice := congrArg Prod.snd hrow'
    rw [priced, ← hstate] at hprice
    revert hprice
    decide +kernel

end SwaptoshiService
