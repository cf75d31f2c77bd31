import SwaptoshiService.Lib.Run
import SwaptoshiService.Lib.Total
import SwaptoshiService.Indexer.Totals
import SwaptoshiService.Jobs.BlockHistory
import SwaptoshiService.Jobs.TransactionOrder

/-!
# The staking totals over whole runs

The rows of `stakes` are kept by increments, the totals `total_staked` and `total_self_staked` by
read-modify-write on the key-value table, with the read **outside** the transaction. A second
stake transaction in the same database transaction overwrites the update of the first
(`second_stake_not_counted`). The rows, unlike the totals, take the amounts as JavaScript `Number`s.
In every run in which a job indexes at most one successful stake transaction, with amounts that a
`Number` keeps, and the changes that a deletion job reverts before its last one cancel, the totals
are the sums over the table (`stake_totals_exact`).
-/

namespace SwaptoshiService

open Session Pos
open Async (mapOrder mapOrder_map mapOrder_perm mem_mapOrder)

/-! ### Sums over the table -/

/-- Which stakes a total counts, by validator and staker. -/
abbrev StakeFilter := Address → Address → Bool

/-- All stakes. -/
def anyStake : StakeFilter := fun _ _ => true

/-- The stakes of validators on themselves. -/
def selfStake : StakeFilter := fun validator staker => staker = validator

/-- What a row of `stakes` counts. -/
def stakeWeight (P : StakeFilter) (c : Cell) : Row c → ℤ :=
  match c with
  | .stake validator staker => fun r => if P validator staker then r.amount else 0
  | _ => fun _ => 0

/-- What a list of entries adds to a total. -/
def movedAmount (P : StakeFilter) (es : List StakeEntry) : ℤ :=
  (es.map fun e => if P e.validatorAddress e.stakerAddress then e.amount else 0).sum

@[simp] theorem movedAmount_nil (P : StakeFilter) : movedAmount P [] = 0 := rfl

@[simp] theorem movedAmount_append (P : StakeFilter) (es es' : List StakeEntry) :
    movedAmount P (es ++ es') = movedAmount P es + movedAmount P es' := by
  simp [movedAmount]

theorem movedAmount_flatten (P : StakeFilter) (l : List (List StakeEntry)) :
    movedAmount P l.flatten = (l.map (movedAmount P)).sum := by
  induction l with
  | nil => rfl
  | cons es l ih => simp [ih]

theorem totalStakeChange_eq (es : List StakeEntry) :
    totalStakeChange es = movedAmount anyStake es := by
  simp [totalStakeChange, movedAmount, anyStake]

theorem totalSelfStakeChange_eq (es : List StakeEntry) :
    totalSelfStakeChange es = movedAmount selfStake es := by
  induction es with
  | nil => rfl
  | cons e es ih =>
    simp only [totalSelfStakeChange, movedAmount, selfStake, List.filter_cons, List.map_cons,
      List.sum_cons] at ih ⊢
    split <;> simp_all

theorem movedAmount_perm (P : StakeFilter) {es es' : List StakeEntry} (h : es.Perm es') :
    movedAmount P es = movedAmount P es' := (h.map _).sum_eq

/-- A `Number` keeps the amount. -/
def Pos.StakeEntry.Kept (e : StakeEntry) : Prop := jsNumber e.amount = e.amount

instance Pos.StakeEntry.decidableKept (e : StakeEntry) : Decidable e.Kept :=
  inferInstanceAs (Decidable (_ = _))

/-- The entry that takes an entry back. -/
def Pos.StakeEntry.negate (e : StakeEntry) : StakeEntry := { e with amount := -e.amount }

theorem movedAmount_negate (P : StakeFilter) (es : List StakeEntry) :
    movedAmount P (es.map StakeEntry.negate) = -movedAmount P es := by
  induction es with
  | nil => rfl
  | cons e es ih =>
    simp only [movedAmount, StakeEntry.negate, List.map_cons, List.map_map, List.sum_cons,
      Function.comp_def] at ih ⊢
    rw [ih]
    split <;> omega

/-- The cell of an entry. -/
abbrev Pos.StakeEntry.cell (e : StakeEntry) : Cell := .stake e.validatorAddress e.stakerAddress

/-! ### What the processors do to the table -/

/-- The entries were added to the table: every sum moves by their amounts, no row disappears, and
the rows of the entries are there. -/
structure StakesMove (es : List StakeEntry) (w w' : DBSession) : Prop where
  total : ∀ P, (w'.view .dbTrx).total (stakeWeight P) =
    (w.view .dbTrx).total (stakeWeight P) + movedAmount P es
  persist : ∀ c : Cell, c.table = .stakes → ((w.view .dbTrx).get c).isSome →
    ((w'.view .dbTrx).get c).isSome
  present : ∀ e ∈ es, ((w'.view .dbTrx).get e.cell).isSome

section Moves

variable {w t w' : DBSession}

private theorem stakeWeight_other {P : StakeFilter} {c : Cell} (h : c.table ≠ .stakes) (db : DB) :
    db.weight (stakeWeight P) c = 0 := by
  refine Store.weight_of_zero fun r => ?_
  cases c with
  | stake v s => exact absurd rfl h
  | _ => rfl

theorem StakesMove.trans {es es' : List StakeEntry} (h : StakesMove es w t)
    (h' : StakesMove es' t w') : StakesMove (es ++ es') w w' where
  total P := by rw [h'.total, h.total, movedAmount_append, add_assoc]
  persist c hc hsome := h'.persist c hc (h.persist c hc hsome)
  present e he := by
    rcases List.mem_append.mp he with he | he
    · exact h'.persist _ rfl (h.present e he)
    · exact h'.present e he

/-- The order of the entries does not matter. -/
theorem StakesMove.perm {es es' : List StakeEntry} (h : StakesMove es w w') (hp : es.Perm es') :
    StakesMove es' w w' where
  total P := by rw [h.total, movedAmount_perm P hp]
  persist := h.persist
  present e he := h.present e (hp.mem_iff.mpr he)

/-- Nothing moves where the table stays. -/
theorem stakesMove_nil (h : ∀ c : Cell, c.table = .stakes → SameAt c w w') :
    StakesMove [] w w' where
  total P := by
    rw [movedAmount_nil, add_zero]
    refine Store.total_congr fun c => ?_
    by_cases hc : c.table = .stakes
    · exact Store.weight_congr ((h c hc).view .dbTrx)
    · rw [stakeWeight_other hc, stakeWeight_other hc]
  persist c hc hsome := by rwa [(h c hc).view .dbTrx]
  present e he := by simp at he

/-- One row is written with the amount of an entry added. -/
theorem stakesMove_of_row {e : StakeEntry}
    (hrow : (w'.view .dbTrx).get e.cell =
      some ⟨((w.view .dbTrx).get e.cell).elim 0 (fun r : StakeRow => r.amount) + e.amount⟩)
    (hsame : ∀ c ≠ e.cell, SameAt c w w') : StakesMove [e] w w' where
  total P := by
    rw [Store.total_of_only e.cell fun c hc => Store.weight_congr ((hsame c hc).view .dbTrx)]
    refine congrArg _ ?_
    rw [Store.weight_of_some hrow]
    cases hold : (w.view .dbTrx).get e.cell with
    | none =>
      rw [Store.weight_of_none hold]
      simp [stakeWeight, movedAmount]
    | some r =>
      rw [Store.weight_of_some hold]
      simp only [stakeWeight, movedAmount, Option.elim_some, List.map_cons, List.map_nil,
        List.sum_cons, List.sum_nil]
      split <;> omega
  persist c hc hsome := by
    by_cases hce : c = e.cell
    · rw [hce]
      exact Option.isSome_iff_exists.mpr ⟨_, hrow⟩
    · rwa [(hsame c hce).view .dbTrx]
  present e' he' := by
    rw [List.mem_singleton.mp he']
    exact Option.isSome_iff_exists.mpr ⟨_, hrow⟩

end Moves

section Processors

variable {env : Env} {α β : Type}

theorem ensures_incrementStakeTrx {e : StakeEntry} (he : e.Kept) :
    (incrementStakeTrx e).Ensures (StakesMove [e]) := by
  intro w a w' hrun
  rw [incrementStakeTrx, he] at hrun
  have hrun' : (if (if ((w.view .dbTrx).get e.cell).isSome then 1 else 0) = 0 then
      Table.upsert .dbTrx e.cell fun _ => (⟨e.amount⟩ : StakeRow) else pure () : Prog Unit).run
        (send .dbTrx (Table.updateRow e.cell (addStake _ _ e.amount)) w) = (.ok a, w') := hrun
  have hsame : ∀ c ≠ e.cell, SameAt c w
      (send .dbTrx (Table.updateRow e.cell (addStake _ _ e.amount)) w) :=
    fun c hc => sameAt_send (Table.updateRow_fixes hc) w
  have hrow := view_send_dbTrx_get (Table.updateRow e.cell (addStake _ _ e.amount)) w e.cell
  rw [Table.updateRow_act_self] at hrow
  cases hold : (w.view .dbTrx).get e.cell with
  | none =>
    rw [hold] at hrun' hrow
    obtain rfl : send .dbTrx (Table.upsertRow e.cell fun _ => (⟨e.amount⟩ : StakeRow))
        (send .dbTrx (Table.updateRow e.cell (addStake _ _ e.amount)) w) = w' :=
      (Prod.ext_iff.mp hrun').2
    refine stakesMove_of_row ?_ fun c hc =>
      (hsame c hc).trans (sameAt_send (Table.upsertRow_fixes hc) _)
    rw [view_send_dbTrx_get, Table.upsertRow_act_self, hold, Option.elim_none, zero_add]
  | some r =>
    rw [hold] at hrun' hrow
    obtain rfl : send .dbTrx (Table.updateRow e.cell (addStake _ _ e.amount)) w = w' :=
      (Prod.ext_iff.mp hrun').2
    refine stakesMove_of_row ?_ hsame
    rw [hrow, hold]
    rfl

/-- An entry is taken back from a row that is there. -/
theorem ensures_decrementStakeTrx {e : StakeEntry} (he : e.Kept) :
    (decrementStakeTrx e).Ensures fun w w' =>
      ((w.view .dbTrx).get e.cell).isSome → StakesMove [e.negate] w w' := by
  intro w a w' hrun hsome
  rw [decrementStakeTrx, he] at hrun
  obtain rfl : send .dbTrx (Table.updateRow e.cell (addStake _ _ (-e.amount))) w = w' :=
    (Prod.ext_iff.mp hrun).2
  obtain ⟨r, hr⟩ := Option.isSome_iff_exists.mp hsome
  refine stakesMove_of_row ?_ fun c hc => sameAt_send (Table.updateRow_fixes hc) w
  have hrow := view_send_dbTrx_get (Table.updateRow e.cell (addStake _ _ (-e.amount))) w e.cell
  rw [Table.updateRow_act_self, hr] at hrow
  simp only [StakeEntry.negate]
  rw [hrow, hr]
  rfl

theorem ensures_incrementStakes {es : List StakeEntry} (hes : ∀ e ∈ es, e.Kept) :
    (Async.serial ((mapOrder es).map incrementStakeTrx) : Prog Unit).Ensures (StakesMove es) := by
  refine Async.Ensures.mono (Async.Ensures.serial_map (R := StakesMove)
    (fun _ => stakesMove_nil fun c _ => SameAt.refl c _) (fun _ _ _ _ _ h h' => h.trans h')
    fun e he => ensures_incrementStakeTrx (hes e (mem_mapOrder.mp he))) fun _ _ h => ?_
  exact h.perm (mapOrder_perm es)

theorem ensures_decrementStakes {es : List StakeEntry} (hes : ∀ e ∈ es, e.Kept) :
    (Async.serial ((mapOrder es).map decrementStakeTrx) : Prog Unit).Ensures fun w w' =>
      (∀ e ∈ es, ((w.view .dbTrx).get e.cell).isSome) →
        StakesMove (es.map StakeEntry.negate) w w' := by
  refine Async.Ensures.mono (Async.Ensures.serial_map (l := mapOrder es) (R := fun es w w' =>
    (∀ e ∈ es, ((w.view .dbTrx).get e.cell).isSome) →
      StakesMove (es.map StakeEntry.negate) w w') ?_ ?_ ?_) fun _ _ h hpresent => ?_
  · exact fun w _ => stakesMove_nil fun c _ => SameAt.refl c w
  · intro e es w t w' he hes hpresent
    have hmove := he fun e' he' => hpresent e' (by simp [List.mem_singleton.mp he'])
    refine hmove.trans (hes fun e' he' => ?_)
    exact hmove.persist _ rfl (hpresent e' (List.mem_cons_of_mem _ he'))
  · intro e he w a w' hrun hpresent
    exact ensures_decrementStakeTrx (hes e (mem_mapOrder.mp he)) w a w' hrun
      (hpresent e List.mem_cons_self)
  · exact (h fun e he => hpresent e (mem_mapOrder.mp he)).perm ((mapOrder_perm es).map _)

end Processors

/-! ### What the processors do to table and totals -/

/-- The rows of the stakes and of their totals. -/
def stakingRows (token : TokenID) (c : Cell) : Prop :=
  c.table = .stakes ∨ c = .kv (.totalStaked token) ∨ c = .kv (.totalSelfStaked token)

/-- The effect of stake transactions, each given by its entries: the table takes all of them, of
the updates of a total the last one remains. -/
structure StakeEffect (token : TokenID) (l : List (List StakeEntry)) (w w' : DBSession) :
    Prop where
  move : StakesMove l.flatten w w'
  staked : LastUpdate (.totalStaked token) (l.map (movedAmount anyStake)) w w'
  selfStaked : LastUpdate (.totalSelfStaked token) (l.map (movedAmount selfStake)) w w'

/-- The rows of the entries are there, and `Number`s keep the amounts. -/
def RowsPresent (l : List (List StakeEntry)) (db : DB) : Prop :=
  ∀ es ∈ l, ∀ e ∈ es, (db.get e.cell).isSome ∧ e.Kept

/-- The effect of taking stake transactions back. -/
def StakesReverted (token : TokenID) (l : List (List StakeEntry)) (w w' : DBSession) : Prop :=
  RowsPresent l (w.view .dbTrx) → StakeEffect token (l.map (·.map StakeEntry.negate)) w w'

section Effects

variable {token : TokenID} {α β : Type} {l l' : List (List StakeEntry)} {w t w' : DBSession}

theorem StakeEffect.trans (h : StakeEffect token l w t) (h' : StakeEffect token l' t w') :
    StakeEffect token (l ++ l') w w' where
  move := by
    rw [List.flatten_append]
    exact h.move.trans h'.move
  staked := by
    rw [List.map_append]
    exact lastUpdate_append w t w' h.staked h'.staked
  selfStaked := by
    rw [List.map_append]
    exact lastUpdate_append w t w' h.selfStaked h'.selfStaked

theorem stakeEffect_nil (h : SameOn (stakingRows token) w w') : StakeEffect token [] w w' where
  move := stakesMove_nil fun c hc => h c (.inl hc)
  staked := lastUpdate_nil (h _ (.inr (.inl rfl)))
  selfStaked := lastUpdate_nil (h _ (.inr (.inr rfl)))

theorem RowsPresent.move {es : List StakeEntry} (h : RowsPresent l (w.view .dbTrx))
    (hm : StakesMove es w w') : RowsPresent l (w'.view .dbTrx) :=
  fun es hes e he => ⟨hm.persist _ rfl (h es hes e he).1, (h es hes e he).2⟩

theorem StakesReverted.trans (h : StakesReverted token l w t) (h' : StakesReverted token l' t w') :
    StakesReverted token (l ++ l') w w' := by
  intro hpresent
  have heff := h fun es hes => hpresent es (List.mem_append_left _ hes)
  rw [List.map_append]
  refine heff.trans (h' (RowsPresent.move (fun es hes => ?_) heff.move))
  exact hpresent es (List.mem_append_right _ hes)

theorem stakesReverted_nil (h : SameOn (stakingRows token) w w') : StakesReverted token [] w w' :=
  fun _ => stakeEffect_nil h

/-- Moving the rows of `stakes`, then adding the amounts to both totals. -/
theorem ensures_moveAndUpdate (token : TokenID) {move : Prog Unit} {C : DBSession → Prop}
    {es : List StakeEntry}
    (hmove : move.Ensures fun w w' => C w → StakesMove es w w')
    (hconf : Confined (Respects fun _ c => c.table = .stakes) move) :
    (do
      move
      updateTotal (.totalStaked token) (movedAmount anyStake es)
      updateTotal (.totalSelfStaked token) (movedAmount selfStake es) : Prog Unit).Ensures
        fun w w' => C w → StakeEffect token [es] w w' := by
  intro w a w' hrun hC
  obtain ⟨⟨⟩, t, ht, hrun⟩ := Async.run_bind_ok.mp hrun
  obtain ⟨⟨⟩, t', ht', hlast⟩ := Async.run_bind_ok.mp hrun
  have hkv : ∀ key, LastUpdate key [] w t := fun key =>
    ensures_lastUpdate_nil hconf (fun _ h => by simp [Cell.table] at h) w () t ht
  have hother : ∀ {key key' : KVKey} {change : ℤ} {v v' : DBSession}, key' ≠ key →
      (updateTotal key' change).run v = (.ok (), v') → LastUpdate key [] v v' := by
    intro key key' change v v' hne hv
    exact ensures_lastUpdate_nil (updateTotal_confined (W := fun _ c => c = .kv key') rfl)
      (fun _ h => hne (Cell.kv.inj h).symm) v () v' hv
  have hstakes : ∀ {key : KVKey} {change : ℤ} {v v' : DBSession},
      (updateTotal key change).run v = (.ok (), v') → StakesMove [] v v' := by
    intro key change v v' hv
    have hkey : Confined (Respects fun _ c => c = .kv key) (updateTotal key change) :=
      updateTotal_confined rfl
    refine stakesMove_nil fun c hc => ?_
    simpa only [hv] using hkey.run_sameAt (fun _ _ hst => hst c fun heq => by
      simp [show c = .kv key from heq, Cell.table] at hc) v
  refine ⟨?_, ?_, ?_⟩
  · simpa using ((hmove w () t ht hC).trans (hstakes ht')).trans (hstakes hlast)
  · simpa using lastUpdate_append _ _ _ (lastUpdate_append _ _ _ (hkv _)
      (ensures_updateTotal _ t () t' ht')) (hother (by simp) hlast)
  · simpa using lastUpdate_append _ _ _ (lastUpdate_append _ _ _ (hkv _)
      (hother (by simp) ht')) (ensures_updateTotal _ t' a w' hlast)

end Effects

/-! ### Transactions -/

/-- The entries of a successful stake transaction, as the processors receive it. -/
def indexedStakes (env : Env) (tx : IndexedTx) : Option (List StakeEntry) :=
  match tx.params with
  | .stake stakes => if tx.isSuccessful then some (getStakeIndexingInfo env tx stakes) else none
  | _ => none

section Transactions

variable {env : Env} {header : BlockHeader} {events : List Event} {tx : IndexedTx}

private theorem confined_increments (es : List StakeEntry) :
    Confined (Respects fun _ c => c.table = .stakes)
      (Async.serial ((mapOrder es).map incrementStakeTrx) : Prog Unit) := by
  refine Confined.serial fun p hp => ?_
  obtain ⟨e, -, rfl⟩ := List.mem_map.mp hp
  refine Confined.bind (Table.confined_increment ?_) fun n => ?_
  · rfl
  split
  · exact Table.confined_upsert rfl
  · exact confined_pure ()

private theorem confined_decrements (es : List StakeEntry) :
    Confined (Respects fun _ c => c.table = .stakes)
      (Async.serial ((mapOrder es).map decrementStakeTrx) : Prog Unit) := by
  refine Confined.serial fun p hp => ?_
  obtain ⟨e, -, rfl⟩ := List.mem_map.mp hp
  exact Table.confined_modify rfl

/-- Every processor but that of a successful stake leaves the rows alone. -/
private theorem processorWrites_offStaking (h : indexedStakes env tx = none)
    (hs : tx.isSuccessful = true) (conn : Conn) (c : Cell)
    (hw : processorWrites env tx.params conn c) : ¬ stakingRows env.posTokenID c := by
  have hstake : tx.params.isStake = false := by
    rw [indexedStakes] at h
    cases hp : tx.params with
    | stake stakes => simp [hp, hs] at h
    | _ => rfl
  intro hrow
  have hguarded : c.table = .stakes ∨ c.table = .keyValueStore := by
    rcases hrow with hc | rfl | rfl
    · exact .inl hc
    · exact .inr rfl
    · exact .inr rfl
  cases conn with
  | default => rcases hguarded with hc | hc <;> simp [processorWrites, hc] at hw
  | dbTrx =>
    rcases hguarded with hc | hc
    · simp [hw.2.1 hc] at hstake
    · simp [(hw.2.2.1 hc).1] at hstake

theorem ensures_applyTransaction_stakes {es : List StakeEntry}
    (h : indexedStakes env tx = some es) (hes : ∀ e ∈ es, e.Kept) :
    (applyTransaction env header events tx).Ensures (StakeEffect env.posTokenID [es]) := by
  rw [indexedStakes] at h
  split at h
  · rename_i stakes hp
    split at h
    · rename_i hs
      obtain rfl := Option.some_injective _ h
      have heff := ensures_moveAndUpdate env.posTokenID (C := fun _ => True)
        ((ensures_incrementStakes hes).mono fun _ _ h _ => h)
        (confined_increments _)
      rw [← totalStakeChange_eq, ← totalSelfStakeChange_eq] at heff
      simp only [applyTransaction_eq, applyHook, hp, applyStake, ifSuccessful, hs, if_true]
      exact heff.mono fun _ _ h => h trivial
    · simp at h
  · simp at h

theorem ensures_revertTransaction_stakes :
    (revertTransaction env header events tx).Ensures
      (StakesReverted env.posTokenID (indexedStakes env tx).toList) := by
  cases h : indexedStakes env tx with
  | none =>
    refine Async.Ensures.mono (Confined.ensures_sameOn (revertTransaction_confined
      (W := fun _ c => ¬ stakingRows env.posTokenID c) fun hs => processorWrites_offStaking h hs)
      (leavesAlone_respects fun _ _ h => h)) fun _ _ => stakesReverted_nil
  | some es =>
    rw [indexedStakes] at h
    split at h
    · rename_i stakes hp
      split at h
      · rename_i hs
        obtain rfl := Option.some_injective _ h
        have heff := ensures_moveAndUpdate env.posTokenID (C := fun w =>
            ∀ e ∈ getStakeIndexingInfo env tx stakes,
              ((w.view .dbTrx).get e.cell).isSome ∧ e.Kept)
          (fun w a w' hrun hC => ensures_decrementStakes (fun e he => (hC e he).2) w a w' hrun
            fun e he => (hC e he).1) (confined_decrements _)
        rw [movedAmount_negate, movedAmount_negate, ← totalStakeChange_eq,
          ← totalSelfStakeChange_eq] at heff
        simp only [revertTransaction_eq, revertHook, hp, revertStake, ifSuccessful, hs, if_true]
        exact heff.mono fun _ _ h hpresent => h (hpresent _ (by simp))
      · simp at h
    · simp at h

end Transactions

/-! ### Indexing a block -/

namespace Network

/-- The entries of a transaction of a block, if it is a successful stake. -/
def stakesIn (net : Network) (id : BlockID) (tx : Transaction) : Option (List StakeEntry) :=
  match tx.params with
  | .stake stakes =>
    if getTransactionExecutionStatus tx (net.events id) = some .successful then
      some (stakes.map fun s =>
        ⟨net.addressFromPublicKey tx.senderPublicKey, s.validatorAddress, s.amount⟩)
    else none
  | _ => none

/-- The successful stake transactions of a block, in block order. -/
def stakesOf (net : Network) (id : BlockID) : List (List StakeEntry) :=
  (net.block id).transactions.filterMap (net.stakesIn id)

/-- The successful stake transactions of a block, in the order in which a deletion reverts them. -/
def revertedStakes (net : Network) (id : BlockID) : List (List StakeEntry) :=
  (mapOrder (net.block id).transactions).filterMap (net.stakesIn id)

theorem mem_revertedStakes {net : Network} {id : BlockID} {es : List StakeEntry} :
    es ∈ net.revertedStakes id ↔ es ∈ net.stakesOf id :=
  ((mapOrder_perm _).filterMap _).mem_iff

end Network

section Index

variable {net : Network} {env : Env} {id : BlockID}

/-- Applied with the status from the events, a transaction has the entries of the network. -/
theorem indexedStakes_eq (henv : net.Configures env) (id : BlockID) (tx : IndexedTx)
    (hstatus : getTransactionExecutionStatus tx.toTransaction (net.events id) =
      some tx.executionStatus) : indexedStakes env tx = net.stakesIn id tx.toTransaction := by
  rw [indexedStakes, Network.stakesIn]
  split
  · simp [hstatus, IndexedTx.isSuccessful, getStakeIndexingInfo, henv.addressFromPublicKey]
  · rfl

private theorem processTransaction_offStaking (henv : net.Configures env) {header : BlockHeader}
    {tx : Transaction} {index : ℕ} (h : net.stakesIn id tx = none) :
    Confined (Respects fun _ c => ¬ stakingRows net.posTokenID c)
      (processTransaction env header (net.events id) tx index) := by
  refine processTransaction_confined (by simp [stakingRows, Cell.table]) fun hs conn c hw => ?_
  rw [← henv.posTokenID]
  have hstakes := indexedStakes_eq henv id (indexedTx env index tx .successful) hs
  exact processorWrites_offStaking (hstakes.trans h) rfl conn c hw

private theorem ensures_processTransaction (henv : net.Configures env) {header : BlockHeader}
    {tx : Transaction} {index : ℕ} {es : List StakeEntry} (h : net.stakesIn id tx = some es)
    (hes : ∀ e ∈ es, e.Kept) :
    (processTransaction env header (net.events id) tx index).Ensures
      (StakeEffect net.posTokenID [es]) := by
  refine Async.ensures_ofOption_bind fun status hstatus => ?_
  have hstakes := indexedStakes_eq henv id (indexedTx env index tx status) hstatus
  have happly :
      (applyTransaction env header (net.events id) (indexedTx env index tx status)).Ensures
      (StakeEffect env.posTokenID [es]) :=
        ensures_applyTransaction_stakes (hstakes.trans h) hes
  rw [henv.posTokenID] at happly
  have hupsert : (Table.upsert .dbTrx (.transaction tx.id) (setTransaction header
      (indexedTx env index tx status) (env.addressFromPublicKey tx.senderPublicKey)) :
        Prog Unit).Ensures (StakeEffect net.posTokenID []) := by
    refine Async.Ensures.mono (Confined.ensures_sameOn (Table.confined_upsert
      (W := fun _ c => c.table = .transactions) rfl) (leavesAlone_respects ?_))
      fun _ _ => stakeEffect_nil
    rintro - c hc (h | rfl | rfl)
    · simp [hc] at h
    · simp [Cell.table] at hc
    · simp [Cell.table] at hc
  exact hupsert.bind (fun _ => happly) fun _ _ _ h h' => h.trans h'

/-- The function of a stake transaction reads nothing but staking rows. -/
private theorem reads_stakingRows (henv : net.Configures env) {header : BlockHeader}
    {tx : Transaction} {index : ℕ} {es : List StakeEntry} (h : net.stakesIn id tx = some es)
    (conn : Conn) (c : Cell)
    (hr : reads (transactionTouches env header (net.events id) tx index) conn c) :
    stakingRows net.posTokenID c := by
  rw [Network.stakesIn] at h
  split at h
  · rename_i stakes hp
    split at h
    · rename_i hs
      simp only [transactionTouches, hs, applyTouches, IndexedTx.isSuccessful, indexedTx,
        commandTouches, hp, stakeTouches, reads, beq_self_eq_true, if_true, henv.posTokenID] at hr
      rcases hr with hr | hr
      · simp only [List.mem_cons, reduceCtorEq, List.mem_append, List.mem_flatMap, Touch.read.injEq,
          List.not_mem_nil, or_false, false_or, exists_eq_or_imp, exists_eq_left] at hr
        rcases hr with ⟨e, -, -, rfl⟩ | ⟨-, rfl⟩ | ⟨-, rfl⟩
        · exact .inl rfl
        · exact .inr (.inl rfl)
        · exact .inr (.inr rfl)
      · simp at hr
    · simp at h
  · simp at h

/-- **Indexing.** With at most one successful stake transaction in the block, table and totals
move together. -/
theorem processTransactions_stakes (henv : net.Configures env) {order : List ℕ} {block : Block}
    (hblock : net.block block.header.id = block)
    (hone : (net.stakesOf block.header.id).length ≤ 1)
    (hkept : ∀ es ∈ net.stakesOf block.header.id, ∀ e ∈ es, e.Kept) {u v : DBSession}
    (hrun : (processTransactions env order block.header (net.events block.header.id)
      block.transactions).run u = (.ok (), v)) :
    StakeEffect net.posTokenID (net.stakesOf block.header.id) u v := by
  rw [Network.stakesOf, hblock] at hone hkept ⊢
  cases hstakes : block.transactions.filterMap (net.stakesIn block.header.id) with
  | nil =>
    have hnone := List.filterMap_eq_nil_iff.mp hstakes
    have hconf : Confined (Respects fun _ c => ¬ stakingRows net.posTokenID c)
        (processTransactions env order block.header (net.events block.header.id)
          block.transactions) := by
      refine Confined.interleave fun p hp => ?_
      obtain ⟨i, hi, rfl⟩ := List.mem_mapIdx.mp hp
      exact processTransaction_offStaking henv (hnone _ (List.getElem_mem hi))
    exact stakeEffect_nil (hconf.ensures_sameOn (leavesAlone_respects fun _ _ h => h) u () v hrun)
  | cons es rest =>
    -- One transaction stakes, and no other program of the block writes staking rows.
    obtain rfl : rest = [] := by
      rw [hstakes] at hone
      simpa using hone
    obtain ⟨l₁, tx, l₂, htxs, hl₁, htx, hl₂⟩ := List.filterMap_eq_cons_iff.mp hstakes
    have hl₂ := List.filterMap_eq_nil_iff.mp hl₂
    have hprog : (transactionPrograms env block.header (net.events block.header.id)
        block.transactions)[l₁.length]? = some (processTransaction env block.header
          (net.events block.header.id) tx l₁.length) := by
      simp [transactionPrograms, htxs]
    have hothers : ∀ j q, (transactionPrograms env block.header (net.events block.header.id)
        block.transactions)[j]? = some q → j ≠ l₁.length →
          Confined (Respects fun _ c => ¬ stakingRows net.posTokenID c) q := by
      intro j q hq hne
      obtain ⟨hj, rfl⟩ := List.getElem?_eq_some_iff.mp hq
      simp only [transactionPrograms, List.getElem_mapIdx]
      refine processTransaction_offStaking henv ?_
      simp only [htxs]
      rcases Nat.lt_or_gt_of_ne hne with hlt | hgt
      · rw [List.getElem_append_left hlt]
        exact hl₁ _ (List.getElem_mem hlt)
      · obtain ⟨k, rfl⟩ : ∃ k, j = l₁.length + (k + 1) := ⟨j - l₁.length - 1, by omega⟩
        rw [List.getElem_append_right (by omega)]
        simp only [Nat.add_sub_cancel_left, List.getElem_cons_succ]
        exact hl₂ _ (List.getElem_mem _)
    obtain ⟨w₁, hw₁, hsame⟩ := (processTransaction_within env block.header
      (net.events block.header.id) tx l₁.length).run_interleave_alone
      (reads_stakingRows henv htx) (leavesAlone_respects fun _ _ h => h) hprog hothers
      (SameOn.refl _ u) hrun
    have hes : ∀ e ∈ es, e.Kept := hkept es (by simp [hstakes])
    simpa using (ensures_processTransaction henv htx hes u () w₁ hw₁).trans
      (stakeEffect_nil hsame)

end Index

/-! ### Deleting blocks -/

section Delete

variable {net : Network} {env : Env} {view : DeletionView} {db : DB}

private theorem ensures_revertTransactions_stakes {header : BlockHeader} {events : List Event}
    (txs : List IndexedTx) :
    (revertTransactions env header events txs).Ensures
      (StakesReverted env.posTokenID ((mapOrder txs).filterMap (indexedStakes env))) := by
  refine Async.Ensures.serial_map
    (R := fun l => StakesReverted env.posTokenID (l.filterMap (indexedStakes env)))
    (fun w => stakesReverted_nil (SameOn.refl _ w)) (fun tx l w t w' h h' => ?_) fun tx _ => ?_
  · have hsplit : (tx :: l).filterMap (indexedStakes env) =
        [tx].filterMap (indexedStakes env) ++ l.filterMap (indexedStakes env) := by
      rw [← List.filterMap_append, List.singleton_append]
    rw [hsplit]
    exact h.trans h'
  · have hsingle : [tx].filterMap (indexedStakes env) = (indexedStakes env tx).toList := by
      cases h : indexedStakes env tx <;> simp [h]
    rw [hsingle]
    exact ensures_revertTransaction_stakes

/-- The stake transactions that a deletion job reverts are those of the block. -/
private theorem filterMap_indexedStakes (henv : net.Configures env) {id : BlockID}
    {txs : List IndexedTx}
    (h : txs.map some = (net.block id).transactions.mapIdx fun index tx =>
      (getTransactionExecutionStatus tx (net.events id)).map fun executionStatus =>
        ({ tx with index, senderAddress := none, executionStatus } : IndexedTx)) :
    (mapOrder txs).filterMap (indexedStakes env) = net.revertedStakes id := by
  obtain ⟨htrans, hfetched⟩ := fetched_of_map h
  rw [Network.revertedStakes, ← htrans, mapOrder_map, List.filterMap_map]
  refine List.filterMap_congr fun tx htx => ?_
  exact indexedStakes_eq henv id tx (hfetched tx (mem_mapOrder.mp htx)).2

private theorem stakingRows_processorOnly {c : Cell} (h : stakingRows net.posTokenID c) :
    ProcessorOnly c := by
  rcases h with h | rfl | rfl
  · exact .inl (by simp [h, processorOnlyTables])
  · exact .inr (.inl ⟨_, rfl⟩)
  · exact .inr (.inr ⟨_, rfl⟩)

private theorem fixes_staking {p : (c : Cell) → Row c → Bool} {c : Cell}
    (hp : ∀ c r, p c r = true → c.table = .transactions ∨ c.table = .blocks)
    (h : stakingRows net.posTokenID c) : (Table.deleteWhere p : Stmt).Fixes c := by
  refine Table.deleteWhere_fixes fun r => Bool.eq_false_iff.mpr fun hr => ?_
  have htable := hp c r hr
  rcases h with hc | rfl | rfl
  · simp [hc] at htable
  · simp [Cell.table] at htable
  · simp [Cell.table] at htable

private theorem deleteBlock_stakes (henv : net.Configures env) (hview : net.Serves view)
    (hrec : Recorded net db) {height : ℕ} {row : BlockRow} (hheight : net.genesisHeight < height)
    (hrow : db.get (.block height) = some row) {w w' : DBSession}
    (hw : SameGuarded db w.committed)
    (hrun : (deleteBlock env view height row).run w = (.ok (), w')) :
    StakesReverted net.posTokenID (net.revertedStakes row.id) w w' := by
  have hblock : (w.committed.get (.block height)).isSome := by
    rw [hw _ (by simp [Cell.table, guardedTables]), hrow]
    rfl
  obtain ⟨txs, v, htxs, hv, hsame⟩ := deleteBlock_stages hblock hrun
  have hrevert := ensures_revertTransactions_stakes txs w () v hv
  rw [henv.posTokenID, filterMap_indexedStakes henv
    (hrec.getTransactionsByBlockID hview hheight hrow hw htxs)] at hrevert
  have hrest : SameOn (stakingRows net.posTokenID) v w' := by
    intro c hc
    refine (sameAt_send (fixes_staking (fun c r hr => .inl ?_) hc) v).trans
      (hsame c (stakingRows_processorOnly hc))
    cases c with
    | transaction id => rfl
    | _ => simp [transactionsOfBlock] at hr
  simpa using hrevert.trans (stakesReverted_nil hrest)

/-- **Deletion.** A deletion job reverts the stake transactions of all its blocks. -/
theorem deleteIndexedBlocksTrx_stakes (henv : net.Configures env) (hview : net.Serves view)
    (hrec : Recorded net db) {blocks : List (ℕ × BlockRow)}
    (hblocks : ∀ h r, (h, r) ∈ blocks → net.genesisHeight < h ∧ db.get (.block h) = some r)
    {w : DBSession}
    (hrun : (deleteIndexedBlocksTrx env view blocks).run (ofStore db) = (.ok (), w)) :
    StakesReverted net.posTokenID ((mapOrder blocks).flatMap fun p => net.revertedStakes p.2.id)
      (ofStore db) w := by
  obtain ⟨⟨⟩, v, hloop, hlast⟩ := Async.run_bind_ok.mp hrun
  have hv : StakesReverted net.posTokenID
      ((mapOrder blocks).flatMap fun p => net.revertedStakes p.2.id) (ofStore db) v := by
    refine Async.Ensures.serial_map_keeps (I := fun w => SameGuarded db w.committed)
      (R := fun l => StakesReverted net.posTokenID (l.flatMap fun p => net.revertedStakes p.2.id))
      (fun w => stakesReverted_nil (SameOn.refl _ w)) (fun p l w t w' h h' => ?_)
      (fun p _ => keeps_guarded deleteBlock_guarded db) ?_ _ _ _ hloop fun _ _ => rfl
    · simpa using h.trans h'
    · rintro ⟨h, r⟩ hmem w a w' hrun hw
      obtain ⟨hheight, hrow⟩ := hblocks h r (mem_mapOrder.mp hmem)
      simpa using deleteBlock_stakes henv hview hrec hheight hrow hw hrun
  obtain rfl : send .dbTrx (Table.deleteWhere (blocksWithIDs (blocks.map (·.2.id)))) v = w :=
    (Prod.ext_iff.mp hlast).2
  have hrest : SameOn (stakingRows net.posTokenID) v (send .dbTrx
      (Table.deleteWhere (blocksWithIDs (blocks.map (·.2.id)))) v) := by
    intro c hc
    refine sameAt_send (fixes_staking (fun c r hr => .inr ?_) hc) v
    cases c with
    | block h => rfl
    | _ => simp [blocksWithIDs] at hr
  simpa using hv.trans (stakesReverted_nil hrest)

end Delete

/-! ### Genesis -/

section Genesis

variable {env : Env}

/-- Entries of different rows are inserted into a table without these rows. -/
private theorem ensures_insertStakes {es : List StakeEntry} (hnodup : (es.map (·.cell)).Nodup) :
    (Async.serial (es.map fun e => Table.upsert .dbTrx (.stake e.validatorAddress e.stakerAddress)
        fun _ => ⟨e.amount⟩) : Prog Unit).Ensures fun w w' =>
      (∀ e ∈ es, (w.view .dbTrx).get e.cell = none) → StakesMove es w w' := by
  induction es with
  | nil => exact Async.ensures_pure () fun w _ => stakesMove_nil fun c _ => SameAt.refl c w
  | cons e es ih =>
    rw [List.map_cons, List.nodup_cons] at hnodup
    intro w a w' hrun habsent
    obtain ⟨⟨⟩, t, ht, hrest⟩ := Async.run_bind_ok.mp hrun
    obtain rfl : send .dbTrx (Table.upsertRow e.cell fun _ => (⟨e.amount⟩ : StakeRow)) w = t :=
      (Prod.ext_iff.mp ht).2
    have hsame : ∀ c ≠ e.cell, SameAt c w
        (send .dbTrx (Table.upsertRow e.cell fun _ => (⟨e.amount⟩ : StakeRow)) w) :=
      fun c hc => sameAt_send (Table.upsertRow_fixes hc) w
    have hmove : StakesMove [e] w
        (send .dbTrx (Table.upsertRow e.cell fun _ => (⟨e.amount⟩ : StakeRow)) w) := by
      refine stakesMove_of_row ?_ hsame
      rw [view_send_dbTrx_get, Table.upsertRow_act_self, habsent e List.mem_cons_self,
        Option.elim_none, zero_add]
    refine hmove.trans (ih hnodup.2 _ _ _ hrest fun e' he' => ?_)
    have hne : e'.cell ≠ e.cell := fun heq => hnodup.1 (List.mem_map.mpr ⟨e', he', heq⟩)
    rw [(hsame _ hne).view .dbTrx]
    exact habsent e' (List.mem_cons_of_mem _ he')

private theorem ensures_indexPosStakesInfo {stakers : List GenesisStaker}
    (hnodup : ((Genesis.allStakes stakers).map (·.cell)).Nodup) :
    (Genesis.indexPosStakesInfo env stakers).Ensures fun w w' =>
      (∀ e ∈ Genesis.allStakes stakers, (w.view .dbTrx).get e.cell = none) →
        StakeEffect env.posTokenID [Genesis.allStakes stakers] w w' := by
  have heff := ensures_moveAndUpdate env.posTokenID (ensures_insertStakes hnodup)
    (Confined.serial fun p hp => ?_)
  · rw [← totalStakeChange_eq, ← totalSelfStakeChange_eq] at heff
    exact heff
  · obtain ⟨e, -, rfl⟩ := List.mem_map.mp hp
    exact Table.confined_upsert rfl

/-- Of the genesis assets, the stakes alone reach the staking rows. -/
private theorem indexGenesisBlockAssets_stages (net : Network) {header : BlockHeader}
    {assets : GenesisAssets}
    {w w' : DBSession}
    (hrun : (Genesis.indexGenesisBlockAssets env header assets).run w = (.ok (), w')) :
    ∃ u v, SameOn (stakingRows net.posTokenID) w u ∧
      (Genesis.indexPosStakesInfo env assets.stakers).run u = (.ok (), v) ∧
      SameOn (stakingRows net.posTokenID) v w' := by
  have hoff : ∀ (conn : Conn) (c : Cell), c.table ∈ Genesis.genesisTables →
      ¬ stakingRows net.posTokenID c := by
    rintro conn c hc (h | rfl | rfl)
    · simp [h, Genesis.genesisTables] at hc
    · simp [Cell.table, Genesis.genesisTables] at hc
    · simp [Cell.table, Genesis.genesisTables] at hc
  rw [Genesis.indexGenesisBlockAssets] at hrun
  obtain ⟨⟨⟩, t, ht, hrun⟩ := Async.run_bind_ok.mp hrun
  obtain ⟨⟨⟩, u, hu, hrun⟩ := Async.run_bind_ok.mp hrun
  obtain ⟨⟨⟩, v, hv, hrest⟩ := Async.run_bind_ok.mp hrun
  have htokens : Confined (Respects fun _ c => ¬ stakingRows net.posTokenID c)
      (Genesis.indexTokenModuleAssets env assets.users) :=
    updateTotalLockedAmounts_confined _ _ fun t _ => by simp [stakingRows, Cell.table]
  have hvalidators : Confined (Respects fun _ c => ¬ stakingRows net.posTokenID c)
      (Genesis.indexPosValidatorsInfo env assets.validators) :=
    Genesis.indexPosValidatorsInfo_confined (fun _ a => by simp [stakingRows, Cell.table])
      fun _ _ => by simp [stakingRows, Cell.table]
  refine ⟨u, v, ?_, hv, ?_⟩
  · exact (htokens.ensures_sameOn (leavesAlone_respects fun _ _ h => h) w () t ht).trans
      (hvalidators.ensures_sameOn (leavesAlone_respects fun _ _ h => h) t () u hu)
  · exact (Genesis.indexTokensAndPools_confined header assets
      (W := fun _ c => ¬ stakingRows net.posTokenID c) (hoff .dbTrx)).ensures_sameOn
      (leavesAlone_respects fun _ _ h => h) v () w' hrest

end Genesis

/-! ### Runs -/

/-- The totals are the sums of the amounts over all rows of `stakes`, and over the rows of
validators that stake on themselves. -/
def StakesExact (net : Network) (db : DB) : Prop :=
  totalAt db (.totalStaked net.posTokenID) = db.total (stakeWeight anyStake) ∧
    totalAt db (.totalSelfStaked net.posTokenID) = db.total (stakeWeight selfStake)

/-- Every stake that an indexed block made has its row, and a `Number` keeps its amount. -/
def StakesPresent (net : Network) (db : DB) : Prop :=
  ∀ h r, net.genesisHeight < h → db.get (.block h) = some r → RowsPresent (net.stakesOf r.id) db

/-- The tables that a genesis job commits to an empty database. The genesis block has no
transactions and no stake twice. -/
def AfterGenesis (net : Network) (db : DB) : Prop :=
  ∃ env order node assets events block, net.Configures env ∧
    indexBlock env order node assets events none net.genesisHeight Store.empty =
      (.ok (.index block), db) ∧
    block.header.height = net.genesisHeight ∧ net.block block.header.id = block ∧
    block.transactions = [] ∧ ((Genesis.allStakes assets.stakers).map (·.cell)).Nodup

/-- The job loses no update of a total: it indexes at most one successful stake transaction, with
amounts that a `Number` keeps, or the changes it reverts before the last one cancel. -/
def Job.StakesCancel (net : Network) (s : Ledger) : Job → Prop
  | .index _ _ node _ _ _ jobHeight => ∀ b, node.block (heightToIndex s.db jobHeight) = some b →
      (net.stakesOf b.header.id).length ≤ 1 ∧ ∀ es ∈ net.stakesOf b.header.id, ∀ e ∈ es, e.Kept
  | .delete _ _ _ heights =>
    let reverted :=
      (mapOrder (getBlocksToDelete heights s.db)).flatMap fun p => net.revertedStakes p.2.id
    (reverted.map (movedAmount anyStake)).dropLast.sum = 0 ∧
      (reverted.map (movedAmount selfStake)).dropLast.sum = 0

section Runs

variable {net : Network} {last : ℕ} {db db' : DB}

/-- If of the updates the last one carries all, the totals stay exact. -/
private theorem StakesExact.effect (h : StakesExact net db) {l : List (List StakeEntry)}
    {w : DBSession} (heff : StakeEffect net.posTokenID l (ofStore db) w)
    (hall : (l.map (movedAmount anyStake)).dropLast.sum = 0)
    (hself : (l.map (movedAmount selfStake)).dropLast.sum = 0) :
    StakesExact net w.commit.committed := by
  have htotal : ∀ P, w.commit.committed.total (stakeWeight P) =
      db.total (stakeWeight P) + (l.map (movedAmount P)).sum := by
    intro P
    have hmove := heff.move.total P
    rw [view_ofStore, movedAmount_flatten] at hmove
    exact hmove
  refine ⟨?_, ?_⟩
  · rw [heff.staked.commit, htotal, (getLast?_getD_eq_sum_iff _).mpr hall, h.1]
  · rw [heff.selfStaked.commit, htotal, (getLast?_getD_eq_sum_iff _).mpr hself, h.2]

private theorem dropLast_sum_of_le_one {l : List (List StakeEntry)} (h : l.length ≤ 1)
    (P : StakeFilter) : (l.map (movedAmount P)).dropLast.sum = 0 := by
  match l, h with
  | [], _ => rfl
  | [es], _ => rfl

private theorem dropLast_sum_negate {l : List (List StakeEntry)} {P : StakeFilter}
    (h : (l.map (movedAmount P)).dropLast.sum = 0) :
    ((l.map (·.map StakeEntry.negate)).map (movedAmount P)).dropLast.sum = 0 := by
  have hmap : (l.map (·.map StakeEntry.negate)).map (movedAmount P) =
      (l.map (movedAmount P)).map fun x => -x := by
    simp [Function.comp_def, movedAmount_negate]
  rw [hmap, ← List.map_dropLast, ← List.sum_neg, h, neg_zero]

/-- **Step.** -/
theorem Job.Outcome.stakesExact {j : Job} {s : Ledger} (ho : j.Outcome net last s.db db')
    (hj : j.StakesCancel net s) (hs : net.GapFree last s.db) (hrec : Recorded net s.db)
    (hpresent : StakesPresent net s.db) (h : StakesExact net s.db) :
    StakesExact net db' ∧ StakesPresent net db' := by
  cases ho with
  | @indexed env _ node assets _ _ jobHeight block w henv hchosen hheight hblock hrun hnew hold =>
    obtain ⟨hone, hkept⟩ := hj block (by rwa [hs.heightToIndex])
    obtain ⟨v, hv, hsame⟩ :=
      indexBlockTrx_stages_of_ne (hs.ne_genesisHeight henv hheight) hrun
    have heff : StakeEffect net.posTokenID (net.stakesOf block.header.id) (ofStore s.db) w := by
      simpa using (processTransactions_stakes henv hblock hone hkept hv).trans
        (stakeEffect_nil fun c hc => hsame c (stakingRows_processorOnly hc))
    refine ⟨h.effect heff (dropLast_sum_of_le_one hone _) (dropLast_sum_of_le_one hone _), ?_⟩
    -- The rows of the new block are there since it was applied, those of the others stay.
    intro n r hn hr
    by_cases hlast : n = last + 1
    · subst hlast
      obtain rfl : blockRow block (net.events block.header.id) = r :=
        Option.some_injective _ (hnew.symm.trans hr)
      exact fun es hes e he =>
        ⟨heff.move.present e (List.mem_flatten.mpr ⟨es, hes, he⟩), hkept es hes e he⟩
    · rw [hold n hlast] at hr
      exact RowsPresent.move (w := ofStore s.db) (hpresent n r hn hr) heff.move
  | @deleted env view _ heights cut w henv hview hcut hmem hrun hget =>
    have hblocks := stored_of_deleted hcut hmem
    have heff := deleteIndexedBlocksTrx_stakes henv hview hrec hblocks hrun (by
      intro es hes
      obtain ⟨⟨n, r⟩, hp, hes⟩ := List.mem_flatMap.mp hes
      obtain ⟨hheight, hrow⟩ := hblocks n r (mem_mapOrder.mp hp)
      exact hpresent n r hheight hrow es (Network.mem_revertedStakes.mp hes))
    -- All but the last of the increments are lost, and they cancel.
    refine ⟨h.effect heff (dropLast_sum_negate hj.1) (dropLast_sum_negate hj.2), ?_⟩
    intro n r hn hr
    rw [hget] at hr
    split at hr
    · simp at hr
    · exact RowsPresent.move (w := ofStore s.db) (hpresent n r hn hr) heff.move
  | idle hsame =>
    have hstakes : ∀ c : Cell, c.table = .stakes → db'.get c = s.db.get c := fun c hc =>
      hsame c (by simp [hc, guardedTables])
    have htotal : ∀ P, db'.total (stakeWeight P) = s.db.total (stakeWeight P) := by
      intro P
      refine Store.total_congr fun c => ?_
      by_cases hc : c.table = .stakes
      · exact Store.weight_congr (hstakes c hc)
      · rw [stakeWeight_other hc, stakeWeight_other hc]
    have hkv : ∀ key, totalAt db' key = totalAt s.db key := fun key => by
      rw [totalAt, totalAt, hsame _ (by simp [Cell.table, guardedTables])]
    refine ⟨⟨by rw [hkv, htotal, h.1], by rw [hkv, htotal, h.2]⟩, fun n r hn hr es hes e he => ?_⟩
    rw [hsame _ (by simp [Cell.table, guardedTables])] at hr
    rw [hstakes _ rfl]
    exact hpresent n r hn hr es hes e he

/-- Genesis indexing leaves exact totals. -/
theorem AfterGenesis.stakesExact (h : AfterGenesis net db) :
    net.GapFree net.genesisHeight db ∧ StakesExact net db := by
  obtain ⟨env, order, node, assets, events, block, henv, hindex, hheight, hblock, htxs, hnodup⟩ := h
  refine ⟨?_, ?_⟩
  · rcases indexBlock_blocks env order node assets events none net.genesisHeight Store.empty with
      ⟨b, db₁, -, hrun, hnew, hold⟩ | ⟨r, db₁, hrun, hr, -⟩
    · obtain ⟨hb, rfl⟩ := Prod.ext_iff.mp (hrun.symm.trans hindex)
      obtain rfl : b = block := Decision.index.inj (Except.ok.inj hb)
      rw [hheight] at hnew hold
      refine ⟨le_rfl, fun n => ?_, fun n r hr => ?_⟩
      · by_cases hn : n = net.genesisHeight
        · subst hn
          simp [hnew]
        · rw [hold n hn, Store.get_empty]
          simp only [Option.isSome_none, Bool.false_eq_true, false_iff]
          omega
      · by_cases hn : n = net.genesisHeight
        · subst hn
          obtain rfl := Option.some_injective _ (hnew.symm.trans hr)
          simp [Network.heightOf, blockRow, hblock, hheight]
        · rw [hold n hn, Store.get_empty] at hr
          simp at hr
    · exact absurd (Prod.ext_iff.mp (hrun.symm.trans hindex)).1 (hr block)
  · obtain ⟨w, hw, rfl⟩ := indexBlock_committed hindex
    obtain ⟨u, v, hu, hv, hsame⟩ := indexBlockTrx_stages hw
    rw [indexGenesisAssets, if_pos (hheight.trans henv.genesisHeight.symm)] at hu
    obtain ⟨t, t', ht, hstakes, ht'⟩ := indexGenesisBlockAssets_stages net hu
    -- The stakers are written to empty tables; the transactions, of which there are none, follow.
    have hempty : StakesExact net Store.empty := ⟨by simp [totalAt], by simp [totalAt]⟩
    have hgenesis := ensures_indexPosStakesInfo hnodup _ _ _ hstakes fun e _ => by
      rw [(ht e.cell (.inl rfl)).view .dbTrx, view_ofStore, Store.get_empty]
    rw [henv.posTokenID] at hgenesis
    have hnothing : SameOn (stakingRows net.posTokenID) u v := by
      have hconf : Confined (Respects fun _ _ => False) (processTransactions env order block.header
          (events block) block.transactions) := by
        refine Confined.interleave fun p hp => ?_
        simp [transactionPrograms, htxs] at hp
      exact hconf.ensures_sameOn (leavesAlone_respects fun _ _ h => h.elim) u () v hv
    have hrest : SameOn (stakingRows net.posTokenID) t' w :=
      (ht'.trans hnothing).trans fun c hc => hsame c (stakingRows_processorOnly hc)
    have heff := ((stakeEffect_nil ht).trans hgenesis).trans (stakeEffect_nil hrest)
    exact hempty.effect (l := [Genesis.allStakes assets.stakers]) (by simpa using heff) rfl rfl

/-- **The staking totals are exact.** After indexing genesis, in every state reached by jobs of
the network that lose no update, `total_staked` and `total_self_staked` are the sums over the
table `stakes`. -/
theorem stake_totals_exact {s₀ s : Ledger} (h₀ : AfterGenesis net s₀.db)
    (hrun : Run Job.Step
      (fun s j => j.Answered net ∧ j.Fresh net s ∧ j.StakesCancel net s) s₀ s) :
    StakesExact net s.db := by
  obtain ⟨hgap, hexact⟩ := h₀.stakesExact
  have hnone : ∀ {n : ℕ} {r : BlockRow}, net.genesisHeight < n → s₀.db.get (.block n) ≠ some r := by
    intro n r hn hr
    have := (hgap.rows n).mp (by simp [hr])
    omega
  refine (hrun.invariant (fun s => (∃ last, net.GapFree last s.db) ∧ Recorded net s.db ∧
    StakesPresent net s.db ∧ StakesExact net s.db)
    ⟨⟨_, hgap⟩, recorded_genesis hgap, ?_, hexact⟩ ?_).2.2.2
  · exact fun n r hn hr => absurd hr (hnone hn)
  · rintro s j s' ⟨⟨last, hs⟩, hrec, hpresent, h⟩ ⟨hanswered, hfresh, hcancel⟩ rfl
    have ho := Job.outcome hanswered hs
    obtain ⟨hexact', hpresent'⟩ := ho.stakesExact hcancel hs hrec hpresent h
    exact ⟨ho.gapFree hs, ho.recorded hfresh hs hrec, hpresent', hexact'⟩

end Runs

/-! ### Two stakes in one block -/

/-- A stake of 7 on a validator. -/
def stakeTx (id : TxID) (validator : Address) : Transaction :=
  ⟨id, "pos", "stake", .stake [⟨validator, 7⟩], "alice", 0, 0, 0, 0,
    by simp [Command.FitsName, processorKeys, Command.registered]⟩

/-- Block `a` contains successful stakes with these identifiers, each on a validator of its
own. -/
def stakeNetwork (ids : List TxID) : Network :=
  twoBlockNetwork (fun id => if id = "a" then ids.map fun t => stakeTx t (t ++ "Validator") else [])
    fun id => if id = "a" then ids.map fun t =>
      ⟨t ++ "Event", 0, 1, [txTopic t], .commandExecutionResult "pos" true⟩ else []

/-- A validator stakes 10 on itself and 5 on another one. -/
def stakeAssets : GenesisAssets :=
  ⟨[], [], [⟨"alice", [⟨"alice", 10⟩, ⟨"bob", 5⟩]⟩], [], [], [], [], []⟩

/-- The tables after genesis. -/
def stakeGenesis (net : Network) : Ledger :=
  ⟨(indexBlock default [] ⟨0, fun _ => some (net.block "genesis")⟩ stakeAssets (fun _ => []) none 0
    Store.empty).2, fun _ => none⟩

private theorem afterGenesis_stakeGenesis (ids : List TxID) :
    AfterGenesis (stakeNetwork ids) (stakeGenesis (stakeNetwork ids)).db :=
  ⟨default, [], _, stakeAssets, _, (stakeNetwork ids).block "genesis", ⟨rfl, rfl, rfl⟩,
    Prod.ext rfl rfl, rfl, rfl, rfl, by decide⟩

section Witness

variable {ids : List TxID}

private theorem gapFree_stakeGenesis :
    (stakeNetwork ids).GapFree 0 (stakeGenesis (stakeNetwork ids)).db :=
  (afterGenesis_stakeGenesis ids).stakesExact.1

private theorem fresh_stakeNetwork (hids : ids.Nodup) :
    (stakeNetwork ids).indexNext.Fresh (stakeNetwork ids) (stakeGenesis (stakeNetwork ids)) := by
  refine indexNext_fresh gapFree_stakeGenesis ?_ fun id ha _ => if_neg ha
  simpa [stakeTx, Function.comp_def] using hids

private theorem answered_stakeNetwork :
    (stakeNetwork ids).indexNext.Answered (stakeNetwork ids) := indexNext_answered

end Witness

/-- The block with one stake is indexed and deleted again. -/
theorem stake_totals_exact_once :
    StakesExact (stakeNetwork ["t"])
      (((stakeNetwork ["t"]).deleteFrom 1).run
        ((stakeNetwork ["t"]).indexNext.run (stakeGenesis (stakeNetwork ["t"])))).db := by
  have honly : getBlocksToDelete [1]
      ((stakeNetwork ["t"]).indexNext.run (stakeGenesis (stakeNetwork ["t"]))).db =
        [(1, blockRow ((stakeNetwork ["t"]).block "a") ((stakeNetwork ["t"]).events "a"))] := by
    decide +kernel
  have hindex : (stakeNetwork ["t"]).indexNext.StakesCancel (stakeNetwork ["t"])
      (stakeGenesis (stakeNetwork ["t"])) := by
    simp only [Network.indexNext, Job.StakesCancel]
    intro b hb
    obtain rfl := blockAt_genesis gapFree_stakeGenesis hb
    decide
  have hdelete : ((stakeNetwork ["t"]).deleteFrom 1).StakesCancel (stakeNetwork ["t"])
      ((stakeNetwork ["t"]).indexNext.run (stakeGenesis (stakeNetwork ["t"]))) := by
    simp only [Network.deleteFrom, Job.StakesCancel, honly]
    decide
  refine stake_totals_exact (afterGenesis_stakeGenesis ["t"])
    (Run.tail (t := (stakeNetwork ["t"]).indexNext.run (stakeGenesis (stakeNetwork ["t"])))
      (Run.tail .refl rfl ?_) rfl ?_)
  · exact ⟨answered_stakeNetwork, fresh_stakeNetwork (by decide), hindex⟩
  · exact ⟨deleteFrom_answered (by decide), trivial, hdelete⟩

/-- Two stakes of 7 in one block: the table gains 14, the total 7. -/
theorem second_stake_not_counted :
    AfterGenesis (stakeNetwork ["t", "u"]) (stakeGenesis (stakeNetwork ["t", "u"])).db ∧
      ∃ s, Run Job.Step (fun s j => j.Answered (stakeNetwork ["t", "u"]) ∧
          j.Fresh (stakeNetwork ["t", "u"]) s) (stakeGenesis (stakeNetwork ["t", "u"])) s ∧
        totalAt s.db (.totalStaked "kly") = 22 ∧ s.db.total (stakeWeight anyStake) = 29 ∧
        ¬ StakesExact (stakeNetwork ["t", "u"]) s.db := by
  have htotal : totalAt ((stakeNetwork ["t", "u"]).indexNext.run
      (stakeGenesis (stakeNetwork ["t", "u"]))).db (.totalStaked "kly") = 22 := by decide +kernel
  have hsum : ((stakeNetwork ["t", "u"]).indexNext.run
      (stakeGenesis (stakeNetwork ["t", "u"]))).db.total (stakeWeight anyStake) = 29 := by
    decide +kernel
  refine ⟨afterGenesis_stakeGenesis _, _, Run.tail .refl rfl
    ⟨answered_stakeNetwork, fresh_stakeNetwork (by decide)⟩, htotal, hsum, fun h => ?_⟩
  have hexact : (22 : ℤ) = 29 := htotal.symm.trans (h.1.trans hsum)
  exact absurd hexact (by decide)

end SwaptoshiService
