import Mathlib.Algebra.BigOperators.Group.List.Basic
import Mathlib.Algebra.Group.Prod
import Mathlib.Data.List.DropRight
import SwaptoshiService.Jobs.BlockHistory

/-!
# The counters of block generators under undo

Indexing a block adds to the counters of its generator: one block, the commission and the reward of
the self-stake. The two amounts are not stored. Deleting blocks computes them again, from what is
committed when the deletion starts.

The commission is the same then, because the query looks below the height of the block only. The
stakes are those after **all** the deleted blocks, not those before the block, so the reward of the
self-stake need not be the same: the counters return exactly when for every validator its shares of
the rewards add up to the same with the stakes at the two times (`counters_undone_iff`). Reverting
the legacy command `registerKeys` deletes the row of the validator, with the counters.
-/

namespace SwaptoshiService

open Session
open Async (mapOrder mapOrder_perm mem_mapOrder)

/-! ### Counters -/

/-- Generated blocks, commission and self-stake rewards of a validator. -/
def counters (r : ValidatorRow) : ℤ × ℤ × ℤ :=
  (r.generatedBlocks, r.totalCommission, r.totalSelfStakeRewards)

/-- Presence and counters of a validator in the table. -/
def countersOf {v : Address} (o : Option (Row (.validator v))) : Option (ℤ × ℤ × ℤ) :=
  Option.map counters o

/-- The counters of a validator; without a row they are zero. -/
def countersAt (db : DB) (v : Address) : ℤ × ℤ × ℤ := (countersOf (db.get (.validator v))).getD 0

/-- One block; of its reward the commission, in units of 1/10000; and of the rest the part for the
stake of the validator on itself, among all stakes on it. -/
def shareCounters (reward commission : ℕ) (selfStakes totalStakes : ℤ) : ℤ × ℤ × ℤ :=
  let commissionAmount := reward * commission / maxCommission
  (1, jsNumber commissionAmount, jsNumber
    (if totalStakes ≤ 0 then 0 else (reward - commissionAmount) * selfStakes / totalStakes))

/-- The stake of a validator on itself. -/
def selfStakesAt (db : DB) (v : Address) : ℤ :=
  (db.get (.stake v v) : Option StakeRow).elim 0 StakeRow.amount

/-- What a block counts for its generator, with the commission and the stakes in the given
tables. -/
def blockCounters (db : DB) (header : BlockHeader) (events : List Event) : ℤ × ℤ × ℤ :=
  shareCounters (blockReward events)
    ((latestCommission db header.generatorAddress header.height).elim 0 Prod.snd)
    (selfStakesAt db header.generatorAddress) (db.total (stakeOn header.generatorAddress))

/-- What a block counts for a validator. -/
def countedFor (v : Address) (db : DB) (header : BlockHeader) (events : List Event) :
    ℤ × ℤ × ℤ :=
  if header.generatorAddress = v then blockCounters db header events else 0

/-- The counters grow by an amount; a row stays, and one is there after something was counted. -/
def Counted (k : ℤ × ℤ × ℤ) (o o' : Option (ℤ × ℤ × ℤ)) : Prop :=
  o'.getD 0 = o.getD 0 + k ∧ (o.isSome ∨ k ≠ 0 → o'.isSome)

theorem counted_zero (o : Option (ℤ × ℤ × ℤ)) : Counted 0 o o := by simp [Counted]

theorem Counted.trans {k k' : ℤ × ℤ × ℤ} {o o' o'' : Option (ℤ × ℤ × ℤ)} (h : Counted k o o')
    (h' : Counted k' o' o'') : Counted (k + k') o o'' := by
  refine ⟨?_, fun hpresent => h'.2 ?_⟩
  · rw [h'.1, h.1, add_assoc]
  · by_cases hk' : k' = 0
    · rw [hk', add_zero] at hpresent
      exact .inl (h.2 hpresent)
    · exact .inr hk'

section Rewards

variable {db db' : DB} {header : BlockHeader} {events : List Event}

/-- The commission is looked up below a height. -/
theorem latestCommission_congr {a : Address} {height : ℕ}
    (h : ∀ k < height, db'.get (.commission a k) = db.get (.commission a k)) :
    latestCommission db' a height = latestCommission db a height := by
  induction height with
  | zero => rfl
  | succ height ih =>
    rw [latestCommission, latestCommission, h height (Nat.lt_succ_self _),
      ih fun k hk => h k (Nat.lt_succ_of_lt hk)]

theorem calcCommissionAmount_congr {a : Address} {height reward : ℕ}
    (h : ∀ k < height, db'.get (.commission a k) = db.get (.commission a k)) :
    calcCommissionAmount db' a height reward = calcCommissionAmount db a height reward := by
  rw [calcCommissionAmount, calcCommissionAmount, latestCommission_congr h]

theorem calcSelfStakeReward_congr {a : Address} {reward commissionAmount : ℕ}
    (h : ∀ s, db'.get (.stake a s) = db.get (.stake a s)) :
    calcSelfStakeReward db' a reward commissionAmount =
      calcSelfStakeReward db a reward commissionAmount := by
  have htotal : db'.total (stakeOn a) = db.total (stakeOn a) := by
    refine Store.total_congr fun c => ?_
    cases c with
    | stake v s =>
      by_cases hv : v = a
      · subst hv
        exact Store.weight_congr (h s)
      · rw [Store.weight_of_zero fun r => if_neg hv, Store.weight_of_zero fun r => if_neg hv]
    | _ => rw [Store.weight_of_zero fun _ => rfl, Store.weight_of_zero fun _ => rfl]
  rw [calcSelfStakeReward, calcSelfStakeReward, htotal, h a]

/-- These are the amounts that the jobs compute. -/
theorem blockCounters_eq_calc :
    blockCounters db header events =
      (1, jsNumber (calcCommissionAmount db header.generatorAddress header.height
          (blockReward events)),
        jsNumber (calcSelfStakeReward db header.generatorAddress (blockReward events)
          (calcCommissionAmount db header.generatorAddress header.height
            (blockReward events)))) := rfl

theorem calcCommissionAmount_guarded (h : SameGuarded db db') (a : Address) (height reward : ℕ) :
    calcCommissionAmount db' a height reward = calcCommissionAmount db a height reward :=
  calcCommissionAmount_congr fun k _ => h _ (by simp [Cell.table, guardedTables])

theorem calcSelfStakeReward_guarded (h : SameGuarded db db') (a : Address)
    (reward commissionAmount : ℕ) :
    calcSelfStakeReward db' a reward commissionAmount =
      calcSelfStakeReward db a reward commissionAmount :=
  calcSelfStakeReward_congr fun s => h _ (by simp [Cell.table, guardedTables])

end Rewards

/-! ### What processors do to the counters -/

section Hooks

variable {net : Network} {env : Env} {header : BlockHeader} {events : List Event}
  {tx : IndexedTx} {v : Address} {I : DBSession → Prop}

private def offValidator (v : Address) : Conn → Cell → Prop := fun _ c => c ≠ .validator v

private theorem offValidator_fixes (conn : Conn) (st : Stmt)
    (hst : Respects (offValidator v) conn st) : st.Fixes (.validator v) := hst _ fun h => h rfl

/-- A statement on the row of one validator, if it is the one looked at. -/
private theorem does_validatorRow {a : Address}
    {f : Option ValidatorRow → Option ValidatorRow}
    {g : Option (ℤ × ℤ × ℤ) → Option (ℤ × ℤ × ℤ)}
    (hf : ∀ r, (f r).map counters = g (r.map counters)) :
    DoesWhile I (countersOf (v := v)) (fun l => l = if a = v then [g] else [])
      (Session.exec .dbTrx (.point (.validator a) f) : Prog Unit) :=
  does_point_at Cell.validator (fun _ _ => Cell.validator.inj) (fun v => countersOf (v := v)) hf

/-- Create the row if it is missing. -/
private def ensureRow (o : Option (ℤ × ℤ × ℤ)) : Option (ℤ × ℤ × ℤ) := some (o.getD 0)

/-- An upsert of other columns. -/
private theorem does_upsertValidator {a : Address} {set : ValidatorRow → ValidatorRow}
    (hset : ∀ r, counters (set r) = counters r) :
    DoesWhile I (countersOf (v := v)) (fun l => l = if a = v then [ensureRow] else [])
      (Table.upsert .dbTrx (.validator a) set : Prog Unit) := by
  refine does_validatorRow fun r => ?_
  cases r with
  | none => exact congrArg some (hset _)
  | some r => exact congrArg some (hset r)

private theorem does_ifSuccessful {p : Prog Unit}
    {L : List (Option (ℤ × ℤ × ℤ) → Option (ℤ × ℤ × ℤ)) → Prop} (h₀ : L [])
    (h : DoesWhile I (countersOf (v := v)) L p) :
    DoesWhile I (countersOf (v := v)) L (ifSuccessful tx p) := by
  rw [ifSuccessful]
  split
  · exact h
  · exact h₀

/-- The changes keep the counters, though they may create the row. -/
private def KeepCounters (l : List (Option (ℤ × ℤ × ℤ) → Option (ℤ × ℤ × ℤ))) : Prop :=
  ∀ g ∈ l, ∀ o, Counted 0 o (g o)

private theorem keepCounters_nil : KeepCounters [] := by simp [KeepCounters]

private theorem keepCounters_ensureRow {a : Address}
    (l : List (Option (ℤ × ℤ × ℤ) → Option (ℤ × ℤ × ℤ)))
    (hl : l = if a = v then [ensureRow] else []) : KeepCounters l := by
  subst hl
  split
  · simp [KeepCounters, Counted, ensureRow]
  · exact keepCounters_nil

/-- Applying a transaction keeps the counters. -/
private theorem applyTransaction_keepCounters :
    DoesWhile I (countersOf (v := v)) KeepCounters (applyTransaction env header events tx) := by
  have hoff : ∀ c : Cell, c.table ≠ .validators → offValidator v .dbTrx c := by
    rintro c hc rfl
    exact hc rfl
  by_cases htable : .validators ∈ tx.params.tables
  · rw [applyTransaction_eq, applyHook]
    cases hp : tx.params with
    | registerValidator name blsKey pop generatorKey =>
      refine does_ifSuccessful keepCounters_nil (does_ofOption_bind fun address _ =>
        Confined.does_bind (Table.confined_upsert (hoff _ (by simp [Cell.table])))
          offValidator_fixes fun _ =>
        DoesWhile.bind_confined (P := Respects (offValidator v))
          ((does_upsertValidator ?_).mono keepCounters_ensureRow) (fun _ => ?_)
          offValidator_fixes)
      · exact fun r => rfl
      · exact Confined.bind (Table.confined_upsert (hoff _ (by simp [Cell.table]))) fun _ =>
          Table.confined_upsert (hoff _ (by simp [Cell.table]))
    | updateGeneratorKey generatorKey =>
      refine does_ifSuccessful keepCounters_nil (Confined.does_bind
        (Table.confined_upsert (hoff _ (by simp [Cell.table]))) offValidator_fixes fun _ =>
        (does_upsertValidator ?_).mono keepCounters_ensureRow)
      exact fun r => rfl
    | registerKeys blsKey pop generatorKey =>
      refine does_ifSuccessful keepCounters_nil (Confined.does_bind
        (Table.confined_upsert (hoff _ (by simp [Cell.table]))) offValidator_fixes fun _ =>
        (does_upsertValidator ?_).mono keepCounters_ensureRow)
      exact fun r => rfl
    | _ => simp [hp, Command.tables] at htable
  · have hconf : Confined (Respects (offValidator v)) (applyTransaction env header events tx) := by
      refine applyTransaction_tables fun conn c hc => ?_
      rintro rfl
      exact htable hc.2
    exact hconf.does offValidator_fixes keepCounters_nil

/-- What deletion does to the counters of one validator. -/
inductive CounterUndo
  /-- The row is deleted. -/
  | deleted
  /-- The row is created if it is missing. -/
  | ensured
  /-- A block is taken off the row, if there is one. -/
  | taken (amount : ℤ × ℤ × ℤ)
  deriving DecidableEq, Repr

namespace CounterUndo

/-- The change. -/
def act : CounterUndo → Option (ℤ × ℤ × ℤ) → Option (ℤ × ℤ × ℤ)
  | deleted, _ => none
  | ensured, o => some (o.getD 0)
  | taken amount, o => o.map (· - amount)

/-- The amount that is taken off. -/
def amount : CounterUndo → ℤ × ℤ × ℤ
  | taken amount => amount
  | _ => 0

end CounterUndo

/-- Reverting a transaction of a block on the row of its sender: the keys that `registerKeys`
registered go with the row, and `updateGeneratorKey` leaves a row behind. -/
def Network.keyUndo (net : Network) (id : BlockID) (tx : Transaction) : Option CounterUndo :=
  if getTransactionExecutionStatus tx (net.events id) = some .successful then
    match tx.params with
    | .registerKeys _ _ _ => some .deleted
    | .updateGeneratorKey _ => some .ensured
    | _ => none
  else none

/-- Reverting a transaction of a block on the row of a validator. -/
def Network.keyUndos (net : Network) (id : BlockID) (v : Address) (tx : Transaction) :
    List CounterUndo :=
  if net.addressFromPublicKey tx.senderPublicKey = v then (net.keyUndo id tx).toList else []

private theorem revertTransaction_keyUndos (henv : net.Configures env) {id : BlockID}
    (hsender : tx.senderAddress = none)
    (hstatus : getTransactionExecutionStatus tx.toTransaction (net.events id) =
      some tx.executionStatus) :
    DoesWhile I (countersOf (v := v))
      (fun l => l = (net.keyUndos id v tx.toTransaction).map CounterUndo.act)
      (revertTransaction env header events tx) := by
  have hoff : ∀ c : Cell, c.table ≠ .validators → offValidator v .dbTrx c := by
    rintro c hc rfl
    exact hc rfl
  by_cases htable : tx.mayWrite (.validator v)
  · obtain ⟨hs, htable⟩ := htable
    have hsucc : getTransactionExecutionStatus tx.toTransaction (net.events id) =
        some .successful := by
      rw [hstatus]
      simpa [IndexedTx.isSuccessful] using hs
    rw [revertTransaction_eq, revertHook]
    cases hp : tx.params with
    | registerValidator name blsKey pop generatorKey =>
      -- A stored transaction has no `senderAddress`: the hook throws.
      rw [Pos.revertRegisterValidator, ifSuccessful, if_pos hs, hsender]
      trivial
    | updateGeneratorKey generatorKey =>
      rw [Pos.revertUpdateGeneratorKey, ifSuccessful, if_pos hs, henv.addressFromPublicKey]
      refine (does_upsertValidator ?_).mono fun l hl => hl.trans ?_
      · exact fun r => rfl
      · simp only [Network.keyUndos, Network.keyUndo, hsucc, if_true, hp]
        split <;> rfl
    | registerKeys blsKey pop generatorKey =>
      rw [Pos.revertRegisterKeys, ifSuccessful, if_pos hs, henv.addressFromPublicKey]
      -- `registerKeys` is reverted by deleting the row, with the counters in it.
      refine Confined.does_bind (Table.confined_upsert (hoff _ (by simp [Cell.table])))
        offValidator_fixes fun _ => (does_validatorRow (g := fun _ => none) ?_).mono
          fun l hl => hl.trans ?_
      · exact fun r => rfl
      · simp only [Network.keyUndos, Network.keyUndo, hsucc, if_true, hp]
        split <;> rfl
    | _ => simp [hp, Command.tables, Cell.table] at htable
  · have hconf : Confined (Respects (offValidator v)) (revertTransaction env header events tx) := by
      refine revertTransaction_tables fun conn c hc => ?_
      rintro rfl
      exact htable hc
    refine hconf.does offValidator_fixes ?_
    have hnone : net.keyUndo id tx.toTransaction = none := by
      rw [Network.keyUndo]
      split
      · rename_i hsucc
        have hs : tx.isSuccessful = true := by
          rw [hstatus] at hsucc
          simpa [IndexedTx.isSuccessful] using hsucc
        cases hp : tx.params with
        | registerKeys blsKey pop generatorKey =>
          exact absurd ⟨hs, by simp [hp, Command.tables, Cell.table]⟩ htable
        | updateGeneratorKey generatorKey =>
          exact absurd ⟨hs, by simp [hp, Command.tables, Cell.table]⟩ htable
        | _ => rfl
      · rfl
    simp [Network.keyUndos, hnone]

end Hooks

/-! ### What a block counts -/

section Blocks

variable {net : Network} {env : Env} {header : BlockHeader} {events : List Event}
  {v : Address} {db : DB}

/-- The rewards that a block counts for its generator. -/
private def rewardCounters (db : DB) (header : BlockHeader) (events : List Event) : ℤ × ℤ × ℤ :=
  (0, (blockCounters db header events).2)

private theorem blockCounters_eq :
    blockCounters db header events = (1, 0, 0) + rewardCounters db header events := by
  simp [blockCounters_eq_calc, rewardCounters]

private theorem rewardCounters_of_noReward (h : blockReward events = 0) :
    rewardCounters db header events = 0 := by
  simp [rewardCounters, blockCounters, shareCounters, h, jsNumber]

/-- The rewards are added to, or taken off, the row of the generator. -/
private theorem updateGeneratorRewards_does (sign : ℤ) :
    DoesWhile (fun w => SameGuarded db w.committed) (countersOf (v := header.generatorAddress))
      (fun l => ∀ o, replay l o = o.map (· + sign • rewardCounters db header events))
      (updateGeneratorRewards sign header events) := by
  unfold updateGeneratorRewards
  dsimp only
  split
  · rename_i hreward
    intro o
    rw [rewardCounters_of_noReward hreward, zsmul_zero]
    simp
  refine doesWhile_query_bind fun w hw => doesWhile_query_bind fun w' hw' => ?_
  simp only [Session.view, calcCommissionAmount_guarded hw, calcSelfStakeReward_guarded hw']
  generalize hcommission : calcCommissionAmount db header.generatorAddress header.height
    (blockReward events) = commissionAmount
  generalize hself : calcSelfStakeReward db header.generatorAddress (blockReward events)
    commissionAmount = selfStakeReward
  refine DoesWhile.bind (does_point (g := Option.map (· + (0, sign * jsNumber commissionAmount, 0)))
    (L := fun l => l = [Option.map (· + (0, sign * jsNumber commissionAmount, 0))])
    (fun o => ?_) rfl) ?_
  · cases o with
    | none => rfl
    | some r => simp [countersOf, counters]
  · rintro - l rfl
    refine does_point (g := Option.map (· + (0, 0, sign * jsNumber selfStakeReward)))
      (fun o => ?_) fun o => ?_
    · cases o with
      | none => rfl
      | some r => simp [countersOf, counters]
    · cases o with
      | none => rfl
      | some k => simp [rewardCounters, blockCounters_eq_calc, hcommission, hself, add_assoc]

private theorem offValidator_of_table {conn : Conn} {c : Cell} (h : c.table ≠ .validators) :
    offValidator v conn c := by
  rintro rfl
  exact h rfl

/-- The part of a job that is skipped without events. -/
private theorem generatorRewards_does (sign : ℤ) {before after : Prog Unit}
    (hbefore : Confined (Respects (offValidator header.generatorAddress)) before)
    (hafter : Confined (Respects (offValidator header.generatorAddress)) after) :
    DoesWhile (fun w => SameGuarded db w.committed) (countersOf (v := header.generatorAddress))
      (fun l => ∀ o, replay l o = o.map (· + sign • rewardCounters db header events))
      (if events.isEmpty then pure () else do
        before
        updateGeneratorRewards sign header events
        after) := by
  split
  · rename_i hempty
    have hreward : blockReward events = 0 := by
      rw [List.isEmpty_iff.mp hempty]
      rfl
    intro o
    rw [rewardCounters_of_noReward hreward, zsmul_zero]
    simp
  · exact hbefore.does_bind offValidator_fixes fun _ =>
      (updateGeneratorRewards_does sign).bind_confined (fun _ => hafter) offValidator_fixes

private theorem deleteEvents_offValidator :
    Confined (Respects (offValidator v)) (deleteEvents events) := by
  refine deleteEvents_confined events ?_
  rintro c (hc | hc) <;> exact offValidator_of_table (by simp [hc])

private theorem indexEvents_offValidator :
    Confined (Respects (offValidator v)) (indexEvents env header events) := by
  refine indexEvents_confined header events ?_
  rintro c (hc | hc) <;> exact offValidator_of_table (by simp [hc])

private theorem updateTotalLockedAmounts_offValidator {sched : List ℕ}
    {changes : List (TokenID × ℤ)} :
    Confined (Respects (offValidator v)) (updateTotalLockedAmounts sched changes) :=
  updateTotalLockedAmounts_confined sched changes fun _ _ =>
    offValidator_of_table (by simp [Cell.table])

private theorem priceWrites_offValidator (conn : Conn) (c : Cell) (h : priceWrites conn c) :
    offValidator v conn c := by
  rcases h with h | h | h <;> exact offValidator_of_table (by simp [h])

private theorem swapWrites_offValidator (conn : Conn) (c : Cell) (h : swapWrites conn c) :
    offValidator v conn c := by
  cases conn with
  | dbTrx =>
    have ht : c.table = .volume := h
    exact offValidator_of_table (by simp [ht])
  | default => rcases h with h | h <;> exact offValidator_of_table (by simp [h])

/-- A deleted block is taken off its generator. -/
def blockUndos (db : DB) (v : Address) (header : BlockHeader) (events : List Event) :
    List CounterUndo :=
  if header.generatorAddress = v then [.taken (blockCounters db header events)] else []

private theorem deleteBlockRest_does {height : ℕ} {row : BlockRow} :
    DoesWhile (fun w => SameGuarded db w.committed) (countersOf (v := v))
      (fun l => ∀ o, replay l o =
        replay ((blockUndos db v (headerOfRow height row) events).map CounterUndo.act) o)
      (deleteBlockRest env height row events) := by
  have hswap : Confined (Respects (offValidator v)) (revertSwapEvent env
      (env.sched (.swapEvents row.id)) (headerOfRow height row) events) :=
    (revertSwapEvent_confined _ _).widen swapWrites_offValidator
  have hprice : Confined (Respects (offValidator v))
      (deletePriceIndex env (headerOfRow height row)) :=
    (deletePriceIndex_confined _).widen priceWrites_offValidator
  by_cases hv : row.generatorAddress = v
  · subst hv
    have hundo : blockUndos db row.generatorAddress (headerOfRow height row) events =
        [.taken (blockCounters db (headerOfRow height row) events)] := if_pos rfl
    -- One generated block less, then the rewards that the events tell of.
    refine DoesWhile.bind (does_point (g := Option.map (· - (1, 0, 0)))
      (L := fun l => l = [Option.map (· - (1, 0, 0))]) (fun o => ?_) rfl) ?_
    · cases o with
      | none => rfl
      | some r => simp [countersOf, counters, addGeneratedBlocks, sub_eq_add_neg]
    · rintro - l rfl
      have hevents : DoesWhile (fun w => SameGuarded db w.committed)
          (countersOf (v := row.generatorAddress))
          (fun l => ∀ o, replay l o = o.map
            (· + (-1 : ℤ) • rewardCounters db (headerOfRow height row) events))
          (deleteBlockEvents env (headerOfRow height row) events) :=
        @generatorRewards_does (headerOfRow height row) events db (-1) _ _
          deleteEvents_offValidator updateTotalLockedAmounts_offValidator
      refine (hevents.bind_confined (fun _ => hswap.bind fun _ => hprice)
        offValidator_fixes).mono fun l hl o => ?_
      rw [hundo, List.singleton_append, replay_cons, hl]
      cases o with
      | none => rfl
      | some k =>
        refine congrArg some ?_
        dsimp only
        rw [blockCounters_eq, neg_one_zsmul, ← sub_eq_add_neg, sub_sub]
  · have hconf : Confined (Respects (offValidator v)) (deleteBlockRest env height row events) := by
      refine (Table.confined_modify ?_).bind fun _ =>
        (deleteBlockEvents_confined ?_ ?_ fun t _ => ?_).bind fun _ =>
        hswap.bind fun _ => hprice
      · simpa [offValidator] using hv
      · rintro c (hc | hc) <;> exact offValidator_of_table (by simp [hc])
      · simpa [offValidator, headerOfRow] using hv
      · exact offValidator_of_table (by simp [Cell.table])
    refine hconf.does offValidator_fixes fun o => ?_
    rw [blockUndos, if_neg (by simpa [headerOfRow] using hv)]
    rfl

/-- What the job sees of the counters of a validator. -/
private def viewCounters (w : DBSession) (v : Address) : Option (ℤ × ℤ × ℤ) :=
  countersOf ((w.view .dbTrx).get (.validator v))

private theorem processTransactions_counters {order : List ℕ} {txs : List Transaction}
    {w w' : DBSession}
    (hrun : (processTransactions env order header events txs).run w = (.ok (), w')) :
    Counted 0 (viewCounters w v) (viewCounters w' v) := by
  have hprogs : List.Forall₂ (fun p L => Does (countersOf (v := v)) L p)
      (transactionPrograms env header events txs) (txs.map fun _ => KeepCounters) := by
    refine List.forall₂_iff_get.mpr ⟨by simp [transactionPrograms], fun i hi hi' => ?_⟩
    simpa [transactionPrograms] using processTransaction_does (by simp [Cell.table])
      fun status _ => applyTransaction_keepCounters
  obtain ⟨l, ⟨ls, hls, hperm⟩, hmoves⟩ := Does.run (does_interleave hprogs order) hrun
  have hkeep : KeepCounters l := by
    intro g hg
    obtain ⟨l', hl', hg⟩ := List.mem_flatten.mp (hperm.mem_iff.mp hg)
    obtain ⟨i, hi, rfl⟩ := List.mem_iff_getElem.mp hl'
    have hget := hls.get (hls.length_eq ▸ hi) hi
    exact (by simpa using hget : KeepCounters ls[i]) g hg
  rw [viewCounters, viewCounters, hmoves.view]
  clear hmoves hperm
  generalize countersOf ((w.view .dbTrx).get (.validator v)) = o
  induction l generalizing o with
  | nil => exact counted_zero o
  | cons g l ih =>
    rw [replay_cons]
    have hrest := ih (fun g' hg' => hkeep g' (List.mem_cons_of_mem g hg')) (g o)
    simpa using (hkeep g List.mem_cons_self o).trans hrest

/-- A block is counted, whether the generator has a row or not. -/
private theorem incrementGeneratedBlocks_counters {w w' : DBSession} {a : Address}
    (hrun : (incrementGeneratedBlocks a).run w = (.ok (), w')) :
    viewCounters w' a = some ((viewCounters w a).getD 0 + (1, 0, 0)) := by
  have hrun' : (if (if ((w.view .dbTrx).get (.validator a)).isSome then 1 else 0) = 0 then
      Table.upsert .dbTrx (.validator a) fun r : ValidatorRow => { r with generatedBlocks := 1 }
      else pure () : Prog Unit).run
        (send .dbTrx (Table.updateRow (.validator a) (addGeneratedBlocks 1)) w) =
          (.ok (), w') := hrun
  have hrow := view_send_dbTrx_get (Table.updateRow (.validator a) (addGeneratedBlocks 1)) w
    (.validator a)
  rw [Table.updateRow_act_self] at hrow
  unfold viewCounters
  cases hold : (w.view .dbTrx).get (.validator a) with
  | none =>
    rw [hold] at hrun' hrow
    obtain rfl : send .dbTrx (Table.upsertRow (.validator a)
        fun r : ValidatorRow => { r with generatedBlocks := 1 })
        (send .dbTrx (Table.updateRow (.validator a) (addGeneratedBlocks 1)) w) = w' :=
      (Prod.ext_iff.mp hrun').2
    rw [view_send_dbTrx_get, Table.upsertRow_act_self, hrow]
    rfl
  | some r =>
    rw [hold] at hrun' hrow
    obtain rfl : send .dbTrx (Table.updateRow (.validator a) (addGeneratedBlocks 1)) w = w' :=
      (Prod.ext_iff.mp hrun').2
    rw [hrow]
    simp [countersOf, counters, addGeneratedBlocks]

/-- The block and its rewards are counted for the generator. -/
private theorem countBlock_counters {w w' : DBSession} (hw : SameGuarded db w.committed)
    (hrun : (incrementGeneratedBlocks header.generatorAddress >>= fun _ =>
      indexBlockEvents env header events).run w = (.ok (), w')) :
    Counted (countedFor v db header events) (viewCounters w v) (viewCounters w' v) := by
  by_cases hv : header.generatorAddress = v
  · subst hv
    obtain ⟨⟨⟩, u, hu, hrest⟩ := Async.run_bind_ok.mp hrun
    -- The rewards are computed from committed rows, and no hook writes these before the commit.
    have hguarded : SameGuarded db u.committed := by
      have hkeep := (keeps_guarded (incrementGeneratedBlocks_confined header.generatorAddress
        (guardedWrites_dbTrx _)) db).run hw
      rwa [hu] at hkeep
    have hkeeps : (indexBlockEvents env header events).Keeps
        fun w => SameGuarded db w.committed :=
      keeps_guarded (indexBlockEvents_confined (fun c _ => guardedWrites_dbTrx c)
        (guardedWrites_dbTrx _) fun t _ => guardedWrites_dbTrx _) db
    have hdoes : DoesWhile (fun w => SameGuarded db w.committed)
        (countersOf (v := header.generatorAddress))
        (fun l => ∀ o, replay l o = o.map (· + (1 : ℤ) • rewardCounters db header events))
        (indexBlockEvents env header events) :=
      generatorRewards_does 1 indexEvents_offValidator updateTotalLockedAmounts_offValidator
    obtain ⟨l, hl, hmoves⟩ := hdoes.run hkeeps hguarded hrest
    have hevents : viewCounters w' header.generatorAddress =
        (viewCounters u header.generatorAddress).map (· + rewardCounters db header events) := by
      rw [viewCounters, hmoves.view, hl, one_zsmul]
      rfl
    rw [hevents, incrementGeneratedBlocks_counters hu, Option.map_some, countedFor, if_pos rfl,
      blockCounters_eq]
    exact ⟨by rw [Option.getD_some, add_assoc], fun _ => rfl⟩
  · have hconf : Confined (Respects (offValidator v))
        (incrementGeneratedBlocks header.generatorAddress >>= fun _ =>
          indexBlockEvents env header events) := by
      refine (incrementGeneratedBlocks_confined _ ?_).bind fun _ =>
        indexBlockEvents_confined ?_ ?_ fun t _ => ?_
      · simpa [offValidator] using hv
      · rintro c (hc | hc) <;> exact offValidator_of_table (by simp [hc])
      · simpa [offValidator] using hv
      · exact offValidator_of_table (by simp [Cell.table])
    have hat : SameAt (.validator v) w w' := by
      simpa only [hrun] using hconf.run_sameAt offValidator_fixes w
    rw [viewCounters, viewCounters, hat.view, countedFor, if_neg hv]
    exact counted_zero _

/-- **Indexing** adds what the block counts, computed from the tables that the job found. -/
theorem counted_of_indexed {order : List ℕ} {assets : GenesisAssets} {block : Block}
    (hne : block.header.height ≠ env.genesisHeight) {w : DBSession}
    (hrun : (indexBlockTrx env order assets block events).run (ofStore db) = (.ok (), w)) :
    Counted (countedFor v db block.header events) (countersOf (db.get (.validator v)))
      (countersOf (w.commit.committed.get (.validator v))) := by
  rw [indexBlockTrx, indexBlockBody] at hrun
  simp only [bind_assoc] at hrun
  obtain ⟨⟨⟩, w₀, hw₀, hrun⟩ := Async.run_bind_ok.mp hrun
  obtain rfl : ofStore db = w₀ := by
    rw [indexGenesisAssets, if_neg hne] at hw₀
    exact (Prod.ext_iff.mp hw₀).2
  obtain ⟨⟨⟩, w₁, hw₁, hrun⟩ := Async.run_bind_ok.mp hrun
  obtain ⟨⟨⟩, w₂, hw₂, hrun⟩ := Async.run_bind_ok.mp hrun
  obtain ⟨⟨⟩, w₃, hw₃, hrest⟩ := Async.run_bind_ok.mp hrun
  have hguarded : SameGuarded db w₁.committed := by
    have hconf : Confined (Respects guardedWrites)
        (processTransactions env order block.header events block.transactions) :=
      processTransactions_guarded
    have hkeep := (keeps_guarded hconf db).run (s := ofStore db) fun _ _ => rfl
    rwa [hw₁] at hkeep
  have hcount := countBlock_counters (v := v) hguarded
    (Async.run_bind_ok.mpr ⟨(), w₂, hw₂, hw₃⟩)
  -- What follows the events leaves the row of the validator alone.
  have hconf : Confined (Respects (offValidator v)) (do
      indexPrices env block.header
      applySwapEvent env (env.sched (.swapEvents block.header.id)) block.header events
      Table.upsert .dbTrx (.block block.header.height) fun _ => blockRow block events :
        Prog Unit) :=
    (indexPrices_confined priceWrites_offValidator).bind fun _ =>
      ((applySwapEvent_confined _ events).widen swapWrites_offValidator).bind fun _ =>
      Table.confined_upsert (offValidator_of_table (by simp [Cell.table]))
  have hat : SameAt (.validator v) w₃ w := by
    simpa only [hrest] using hconf.run_sameAt offValidator_fixes w₃
  have hstart : viewCounters (ofStore db) v = countersOf (db.get (.validator v)) := by
    rw [viewCounters, view_ofStore]
  have hend : countersOf (w.commit.committed.get (.validator v)) = viewCounters w₃ v := by
    rw [viewCounters, ← hat.view]
    rfl
  have htxs := processTransactions_counters (v := v) hw₁
  rw [hstart] at htxs
  rw [hend, ← zero_add (countedFor v db block.header events)]
  exact htxs.trans hcount

/-- What deleting a block does to the counters of a validator. Its transactions are reverted first,
in the order in which the job maps over them, and the amounts come from the given tables. -/
def Network.counterUndos (net : Network) (db : DB) (v : Address) (p : ℕ × BlockRow) :
    List CounterUndo :=
  (mapOrder (net.block p.2.id).transactions).flatMap (net.keyUndos p.2.id v) ++
    blockUndos db v (headerOfRow p.1 p.2) (net.events p.2.id)

private theorem deleteBlock_counters (henv : net.Configures env) {view : DeletionView}
    (hview : net.Serves view) (hrec : Recorded net db) {p : ℕ × BlockRow}
    (hheight : net.genesisHeight < p.1) (hrow : db.get (.block p.1) = some p.2)
    {w w' : DBSession} (hw : SameGuarded db w.committed)
    (hrun : (deleteBlock env view p.1 p.2).run w = (.ok (), w')) :
    ∃ l, (∀ o, replay l o = replay ((net.counterUndos db v p).map CounterUndo.act) o) ∧
      Moves (countersOf (v := v)) (replay l) w w' := by
  have hB : RevertDoes net env (countersOf (v := v))
      (fun p tx l => l = (net.keyUndos p.2.id v tx).map CounterUndo.act) (p.1, p.2) :=
    fun tx _ hsender hstatus => revertTransaction_keyUndos henv hsender hstatus
  obtain ⟨l, u, hl, hmoves, hu, hrest⟩ :=
    deleteBlock_reverts (by simp [Cell.table]) hview hrec hheight hrow hB hw hrun
  obtain ⟨l', hl', hmoves'⟩ := (deleteBlockRest_does (v := v)).run
    (keeps_guarded deleteBlockRest_guarded db) hu hrest
  refine ⟨l ++ l', fun o => ?_, hmoves.append hmoves'⟩
  rw [replay_append, hl', inTurn_map.mp hl, Network.counterUndos, List.map_append, replay_append,
    List.map_flatMap]

/-- **Deletion** takes the blocks off the counters, in the order in which the job maps over
them. -/
theorem countersOf_of_deleted (henv : net.Configures env) {view : DeletionView}
    (hview : net.Serves view) (hrec : Recorded net db) {blocks : List (ℕ × BlockRow)}
    (hblocks : ∀ h r, (h, r) ∈ blocks → net.genesisHeight < h ∧ db.get (.block h) = some r)
    {w : DBSession}
    (hrun : (deleteIndexedBlocksTrx env view blocks).run (ofStore db) = (.ok (), w)) :
    countersOf (w.commit.committed.get (.validator v)) =
      replay (((mapOrder blocks).flatMap (net.counterUndos db v)).map CounterUndo.act)
        (countersOf (db.get (.validator v))) := by
  have hB : ∀ p ∈ blocks, ∀ w w', SameGuarded db w.committed →
      (deleteBlock env view p.1 p.2).run w = (.ok (), w') →
        ∃ l, (∀ o, replay l o = replay ((net.counterUndos db v p).map CounterUndo.act) o) ∧
          Moves (countersOf (v := v)) (replay l) w w' := fun p hp w w' hw hrun =>
    deleteBlock_counters henv hview hrec (hblocks p.1 p.2 hp).1 (hblocks p.1 p.2 hp).2 hw hrun
  obtain ⟨l, hl, hobs⟩ := deleted_moves (by simp [Cell.table]) hB hrun
  rw [hobs]
  -- Block by block the two lists of changes do the same.
  clear hobs hrun hblocks hB
  generalize countersOf (db.get (.validator v)) = o
  generalize mapOrder blocks = mapped at hl ⊢
  induction mapped generalizing l o with
  | nil =>
    obtain ⟨_, ⟨⟩, rfl⟩ := hl
    rfl
  | cons p mapped ih =>
    obtain ⟨_, ⟨⟩ | ⟨hfirst, hrest⟩, rfl⟩ := hl
    rw [List.flatMap_cons, List.map_append, replay_append, List.flatten_cons, replay_append,
      hfirst, ih _ _ ⟨_, hrest, rfl⟩]

end Blocks

/-! ### What is left after deletion -/

namespace CounterUndo

/-- The changes to a row that was deleted and then created anew: after the last deletion of the
row, from the first one that creates it on. -/
def sinceRecreated (us : List CounterUndo) : List CounterUndo :=
  (us.rtakeWhile (· ≠ deleted)).dropWhile (· ≠ ensured)

/-- While the row is not deleted, the amounts are taken off. -/
theorem replay_of_kept {us : List CounterUndo} (hkept : deleted ∉ us)
    {o : Option (ℤ × ℤ × ℤ)} (ho : o.isSome ∨ ∀ u ∈ us, u.amount = 0) :
    (replay (us.map act) o).getD 0 = o.getD 0 - (us.map amount).sum := by
  induction us generalizing o with
  | nil => simp
  | cons u us ih =>
    have hrest : deleted ∉ us := fun h => hkept (List.mem_cons_of_mem u h)
    rw [List.map_cons, replay_cons, List.map_cons, List.sum_cons]
    cases u with
    | deleted => exact absurd List.mem_cons_self hkept
    | ensured =>
      rw [ih hrest (.inl rfl)]
      simp [act, amount]
    | taken k =>
      rcases ho with ho | ho
      · obtain ⟨k', rfl⟩ := Option.isSome_iff_exists.mp ho
        rw [ih hrest (.inl rfl)]
        simp [act, amount, sub_sub]
      · have hk : k = 0 := ho _ List.mem_cons_self
        rw [ih hrest (.inr fun u hu => ho u (List.mem_cons_of_mem _ hu)), hk]
        simp [act, amount]

/-- Once the row is deleted, only what is taken off a new row counts. -/
theorem replay_of_deleted {us : List CounterUndo} (hdeleted : deleted ∈ us)
    (o : Option (ℤ × ℤ × ℤ)) :
    replay (us.map act) o = if sinceRecreated us = [] then none
      else some (-((sinceRecreated us).map amount).sum) := by
  induction us using List.reverseRecOn with
  | nil => simp at hdeleted
  | append_singleton us u ih =>
    rw [List.map_append, replay_append, List.map_singleton, replay_cons, replay_nil]
    by_cases hu : u = deleted
    · subst hu
      have hempty : sinceRecreated (us ++ [deleted]) = [] := by
        simp [sinceRecreated]
      rw [hempty, if_pos rfl]
      rfl
    -- A later statement counts once a row is there again.
    · have hbefore : deleted ∈ us := by
        rcases List.mem_append.mp hdeleted with h | h
        · exact h
        · exact absurd (List.mem_singleton.mp h).symm hu
      have hsince : sinceRecreated (us ++ [u]) = if sinceRecreated us = [] then
          [u].dropWhile (· ≠ ensured) else sinceRecreated us ++ [u] := by
        rw [sinceRecreated, List.rtakeWhile_concat, if_pos (by simpa using hu),
          List.dropWhile_append]
        simp only [List.isEmpty_iff]
        rfl
      rw [ih hbefore, hsince]
      by_cases hnone : sinceRecreated us = []
      · rw [if_pos hnone, if_pos hnone]
        cases u with
        | deleted => exact absurd rfl hu
        | ensured => simp [act, amount]
        | taken k => simp [act]
      · rw [if_neg hnone, if_neg hnone, if_neg (by simp)]
        cases u with
        | deleted => exact absurd rfl hu
        | ensured => simp [act, amount]
        | taken k => simp [act, amount, sub_eq_add_neg, add_comm]

end CounterUndo

/-! ### Indexing blocks and deleting them again -/

/-- What a block counts for a validator, computed from the given tables. -/
def Network.countedFor (net : Network) (v : Address) (db : DB) (p : ℕ × BlockRow) : ℤ × ℤ × ℤ :=
  SwaptoshiService.countedFor v db (headerOfRow p.1 p.2) (net.events p.2.id)

/-- Jobs that each index the next block. The trace holds the blocks, the highest one first, each
with the tables that its job found. -/
inductive IndexRun (net : Network) (s₀ : Ledger) : List ((ℕ × BlockRow) × DB) → Ledger → Prop
  | nil : IndexRun net s₀ [] s₀
  | index {trace : List ((ℕ × BlockRow) × DB)} {s : Ledger} {j : Job} {p : ℕ × BlockRow}
      (h : IndexRun net s₀ trace s) (hj : j.Answered net) (hfresh : j.Fresh net s)
      (hpush : net.indexedBlocks (j.run s).db = p :: net.indexedBlocks s.db) :
      IndexRun net s₀ ((p, s.db) :: trace) (j.run s)

section Runs

variable {net : Network} {s₀ s : Ledger} {last : ℕ} {v : Address} {db db' : DB}
  {trace : List ((ℕ × BlockRow) × DB)}

/-- A job that pushes a block indexes it. -/
private theorem Job.Outcome.pushed {j : Job} {p : ℕ × BlockRow} (ho : j.Outcome net last db db')
    (hs : net.GapFree last db)
    (hpush : net.indexedBlocks db' = p :: net.indexedBlocks db) :
    p.1 = last + 1 ∧ (∀ v, Counted (net.countedFor v db p) (countersOf (db.get (.validator v)))
        (countersOf (db'.get (.validator v)))) ∧
      ∀ a k, k ≠ last + 1 → db'.get (.commission a k) = db.get (.commission a k) := by
  cases ho with
  | @indexed env order node assets events fault jobHeight block w henv hchosen hheight hblock hrun
      hnew hold =>
    rw [indexedBlocks_of_indexed hs hnew hold] at hpush
    obtain ⟨rfl, -⟩ := List.cons.inj hpush
    have hne := hs.ne_genesisHeight henv hheight
    refine ⟨rfl, fun v => ?_, fun a k hk => ?_⟩
    · have hcounted := counted_of_indexed (v := v) hne hrun
      have heq : net.countedFor v db (last + 1, blockRow block (net.events block.header.id)) =
          SwaptoshiService.countedFor v db block.header (net.events block.header.id) := by
        rw [Network.countedFor, ← hheight]
        rfl
      rw [heq]
      exact hcounted
    · -- Commissions are written at the height of the block only.
      have hc : ProcessorOnly (.commission a k) := .inl (by simp [Cell.table, processorOnlyTables])
      have hconf : ∀ tx, Confined (Respects fun _ c => c ≠ .commission a k)
          (applyTransaction env block.header (net.events block.header.id) tx) := by
        refine fun tx => applyTransaction_within.confined fun conn c hw => ?_
        rintro rfl
        exact hk ((writes_commission hw).trans hheight)
      have hA : ∀ i, ∀ tx ∈ block.transactions,
          DoesWhile (fun w => SameGuarded db w.committed)
            (fun o : Option (Row (.commission a k)) => o) (fun l => l = [])
            (processTransaction env block.header (net.events block.header.id) tx i) := fun i tx _ =>
        processTransaction_does (by simp [Cell.table])
          fun status _ => (hconf _).does (fun _ _ hst => hst _ fun h => h rfl) rfl
      obtain ⟨l, hl, -, hobs⟩ := indexed_changes (f := fun _ => []) hc hne hA hrun
      rw [List.flatMap_eq_nil_iff.mpr fun _ _ => rfl] at hl
      have hnil : l = [] := List.perm_nil.mp hl
      rw [hobs, hnil, replay_nil]
  | deleted henv hview hcut hmem hrun hget =>
    have hlength := congrArg List.length hpush
    rw [indexedBlocks_of_deleted hcut hmem hget, List.length_cons, List.length_append] at hlength
    omega
  | idle hsame =>
    have hlength := congrArg List.length hpush
    rw [hsame.indexedBlocks_eq,
      List.length_cons] at hlength
    omega

/-- What is known after jobs that index blocks. -/
structure IndexRun.Facts (net : Network) (s₀ : Ledger) (trace : List ((ℕ × BlockRow) × DB))
    (s : Ledger) : Prop where
  gapFree : ∃ last, net.GapFree last s.db
  tracked : Tracked net s.db
  stack : net.indexedBlocks s.db = trace.map (·.1) ++ net.indexedBlocks s₀.db
  counted : ∀ v, Counted (trace.map fun e => net.countedFor v e.2 e.1).sum
    (countersOf (s₀.db.get (.validator v))) (countersOf (s.db.get (.validator v)))
  present : ∀ e ∈ trace, (countersOf (s.db.get (.validator e.1.2.generatorAddress))).isSome
  /-- The commissions that count for a block are those that its job found. -/
  commissions : ∀ e ∈ trace, ∀ a k, k < e.1.1 →
    s.db.get (.commission a k) = e.2.get (.commission a k)

private theorem countedFor_generator_ne_zero {p : ℕ × BlockRow} :
    net.countedFor p.2.generatorAddress db p ≠ 0 := by
  intro h
  rw [Network.countedFor, SwaptoshiService.countedFor, if_pos (by rfl)] at h
  exact one_ne_zero (congrArg Prod.fst h)

/-- **Run.** -/
theorem IndexRun.facts (h : IndexRun net s₀ trace s) (h₀ : net.GapFree last s₀.db)
    (ht : Tracked net s₀.db) : IndexRun.Facts net s₀ trace s := by
  induction h with
  | nil =>
    exact ⟨⟨last, h₀⟩, ht, rfl, fun v => counted_zero _, by simp, by simp⟩
  | @index trace s j p _ hj hfresh hpush ih =>
    obtain ⟨⟨n, hgap⟩, htracked, hstack, hcounted, hpresent, hcommissions⟩ := ih
    have ho := Job.outcome hj hgap
    obtain ⟨hheight, hcount, hkept⟩ := ho.pushed hgap hpush
    refine ⟨ho.gapFree hgap, ho.tracked hfresh hgap htracked, ?_, fun v => ?_, ?_, ?_⟩
    · rw [hpush, hstack]
      rfl
    · rw [List.map_cons, List.sum_cons, add_comm]
      exact (hcounted v).trans (hcount v)
    · refine List.forall_mem_cons.mpr ⟨?_, fun e he => ?_⟩
      · exact (hcount _).2 (.inr countedFor_generator_ne_zero)
      · exact (hcount _).2 (.inl (hpresent e he))
    · refine List.forall_mem_cons.mpr ⟨fun a k hk => ?_, fun e he a k hk => ?_⟩
      · exact hkept a k (hheight ▸ hk.ne)
      · -- The block is below the one that is indexed now.
        have hmem : e.1 ∈ net.indexedBlocks s.db := by
          rw [hstack]
          exact List.mem_append_left _ (List.mem_map_of_mem he)
        have hrow := (mem_indexedBlocks.mp hmem).2
        have hle : e.1.1 ≤ n := ((hgap.rows e.1.1).mp (by rw [hrow]; rfl)).2
        rw [hkept a k (by omega), hcommissions e he a k hk]

/-- The commission is the same when the block is deleted. -/
private theorem IndexRun.Facts.commission (h : IndexRun.Facts net s₀ trace s)
    {e : (ℕ × BlockRow) × DB} (he : e ∈ trace) :
    (net.countedFor v s.db e.1).1 = (net.countedFor v e.2 e.1).1 ∧
      (net.countedFor v s.db e.1).2.1 = (net.countedFor v e.2 e.1).2.1 := by
  have hcommission : calcCommissionAmount s.db e.1.2.generatorAddress e.1.1
      (blockReward (net.events e.1.2.id)) = calcCommissionAmount e.2 e.1.2.generatorAddress e.1.1
        (blockReward (net.events e.1.2.id)) :=
    calcCommissionAmount_congr fun k hk => h.commissions e he _ k hk
  unfold Network.countedFor SwaptoshiService.countedFor
  split
  · exact ⟨rfl, congrArg (fun n : ℕ => jsNumber n) hcommission⟩
  · exact ⟨rfl, rfl⟩

private theorem amount_keyUndos {id : BlockID} {tx : Transaction} {u : CounterUndo}
    (hu : u ∈ net.keyUndos id v tx) : u.amount = 0 := by
  rw [Network.keyUndos, Network.keyUndo] at hu
  split at hu
  · split at hu
    · split at hu <;> simp at hu <;> subst hu <;> rfl
    · simp at hu
  · simp at hu

private theorem sum_amount_counterUndos (p : ℕ × BlockRow) :
    ((net.counterUndos db v p).map CounterUndo.amount).sum = net.countedFor v db p := by
  have hkeys : (((mapOrder (net.block p.2.id).transactions).flatMap (net.keyUndos p.2.id v)).map
      CounterUndo.amount).sum = 0 := by
    refine List.sum_eq_zero fun k hk => ?_
    obtain ⟨u, hu, rfl⟩ := List.mem_map.mp hk
    obtain ⟨tx, -, hu⟩ := List.mem_flatMap.mp hu
    exact amount_keyUndos hu
  rw [Network.counterUndos, List.map_append, List.sum_append, hkeys, zero_add, blockUndos,
    Network.countedFor, SwaptoshiService.countedFor]
  split
  · simp [CounterUndo.amount]
  · rfl

private theorem amount_counterUndos {p : ℕ × BlockRow} (hp : p.2.generatorAddress ≠ v)
    {u : CounterUndo} (hu : u ∈ net.counterUndos db v p) : u.amount = 0 := by
  rcases List.mem_append.mp hu with hu | hu
  · obtain ⟨tx, -, hu⟩ := List.mem_flatMap.mp hu
    exact amount_keyUndos hu
  · rw [blockUndos, if_neg (by simpa [headerOfRow] using hp)] at hu
    simp at hu

/-- What deleting the blocks of a trace does to the counters of a validator, with the amounts from
the tables at the start of the deletion. -/
def Network.undosOf (net : Network) (db : DB) (v : Address)
    (trace : List ((ℕ × BlockRow) × DB)) : List CounterUndo :=
  (mapOrder trace).flatMap fun e => net.counterUndos db v e.1

private theorem sum_amount_undosOf :
    ((net.undosOf db v trace).map CounterUndo.amount).sum =
      (trace.map fun e => net.countedFor v db e.1).sum := by
  rw [← ((mapOrder_perm trace).map _).sum_eq, Network.undosOf]
  induction mapOrder trace with
  | nil => rfl
  | cons e deleted ih =>
    rw [List.flatMap_cons, List.map_append, List.sum_append, sum_amount_counterUndos,
      List.map_cons, List.sum_cons, ih]

/-- The condition for the counters of a validator to return, when the deletion starts with the
given tables. -/
def Network.CountersReturn (net : Network) (start : DB) (trace : List ((ℕ × BlockRow) × DB))
    (db : DB) (v : Address) : Prop :=
  if CounterUndo.deleted ∈ net.undosOf db v trace then
    countersAt start v =
      -((CounterUndo.sinceRecreated (net.undosOf db v trace)).map CounterUndo.amount).sum
  else
    (trace.map fun e => (net.countedFor v e.2 e.1).2.2).sum =
      (trace.map fun e => (net.countedFor v db e.1).2.2).sum

/-- A job that brings back the stack deletes the blocks of the trace. -/
private theorem IndexRun.Facts.deleted (h : IndexRun.Facts net s₀ trace s) {j : Job}
    (hj : j.Answered net) (hpop : net.indexedBlocks (j.run s).db = net.indexedBlocks s₀.db) :
    countersOf ((j.run s).db.get (.validator v)) =
      replay ((net.undosOf s.db v trace).map CounterUndo.act)
        (countersOf (s.db.get (.validator v))) := by
  obtain ⟨⟨n, hgap⟩, htracked, hstack, -, -, -⟩ := h
  have ho := Job.outcome hj hgap
  generalize (j.run s).db = db' at ho hpop ⊢
  cases ho with
  | @indexed env order node assets events fault jobHeight block w henv hchosen hheight hblock hrun
      hnew hold =>
    have hlength := congrArg List.length hpop
    rw [indexedBlocks_of_indexed hgap hnew hold, hstack, List.length_cons,
      List.length_append] at hlength
    omega
  | @deleted env view fault heights cut w henv hview hcut hmem hrun hget =>
    have hblocks : getBlocksToDelete heights s.db = trace.map (·.1) := by
      have happend := indexedBlocks_of_deleted hcut hmem hget
      rw [hstack, hpop] at happend
      exact (List.append_cancel_right happend).symm
    have hreplay := countersOf_of_deleted (v := v) henv hview htracked.recorded
      (stored_of_deleted hcut hmem) hrun
    rw [hreplay, hblocks, Async.mapOrder_map, List.flatMap_map]
    rfl
  | idle hsame =>
    have hempty : trace = [] := by
      have hlength := congrArg List.length hpop
      rw [hsame.indexedBlocks_eq, hstack,
        List.length_append, List.length_map] at hlength
      exact List.length_eq_zero_iff.mp (by omega)
    rw [hempty, hsame _ (by simp [Cell.table, guardedTables])]
    rfl

/-- Sums of triples that differ in the last component only. -/
private theorem sum_eq_iff_last {α : Type} {l : List α} {f g : α → ℤ × ℤ × ℤ}
    (h : ∀ a ∈ l, (f a).1 = (g a).1 ∧ (f a).2.1 = (g a).2.1) :
    (l.map f).sum = (l.map g).sum ↔
      (l.map fun a => (f a).2.2).sum = (l.map fun a => (g a).2.2).sum := by
  have hsub : (l.map f).sum - (l.map g).sum =
      (0, 0, (l.map fun a => (f a).2.2).sum - (l.map fun a => (g a).2.2).sum) := by
    induction l with
    | nil => rfl
    | cons a l ih =>
      obtain ⟨hfirst, hsecond⟩ := h a List.mem_cons_self
      have hhead : f a - g a = (0, 0, (f a).2.2 - (g a).2.2) :=
        Prod.ext (by simp [hfirst]) (Prod.ext (by simp [hsecond]) (by simp))
      simp only [List.map_cons, List.sum_cons, add_sub_add_comm]
      rw [ih fun b hb => h b (List.mem_cons_of_mem a hb), hhead]
      simp
  rw [← sub_eq_zero, hsub]
  simp [sub_eq_zero]

private theorem IndexRun.Facts.counters_iff (h : IndexRun.Facts net s₀ trace s) {j : Job}
    (hj : j.Answered net) (hpop : net.indexedBlocks (j.run s).db = net.indexedBlocks s₀.db) :
    countersAt (j.run s).db v = countersAt s₀.db v ↔ net.CountersReturn s₀.db trace s.db v := by
  rw [countersAt, h.deleted hj hpop, Network.CountersReturn]
  split
  · rename_i hdeleted
    rw [CounterUndo.replay_of_deleted hdeleted]
    split
    · rename_i hempty
      rw [hempty]
      simp [eq_comm]
    · rw [Option.getD_some, eq_comm]
  · rename_i hkept
    have hpresent : (countersOf (s.db.get (.validator v))).isSome ∨
        ∀ u ∈ net.undosOf s.db v trace, u.amount = 0 := by
      by_cases hany : ∃ e ∈ trace, e.1.2.generatorAddress = v
      · obtain ⟨e, he, rfl⟩ := hany
        exact .inl (h.present e he)
      · refine .inr fun u hu => ?_
        obtain ⟨e, he, hu⟩ := List.mem_flatMap.mp hu
        exact amount_counterUndos (fun hv => hany ⟨e, mem_mapOrder.mp he, hv⟩) hu
    rw [CounterUndo.replay_of_kept hkept hpresent, (h.counted v).1, sum_amount_undosOf]
    have hagree : ∀ e ∈ trace, (net.countedFor v e.2 e.1).1 = (net.countedFor v s.db e.1).1 ∧
        (net.countedFor v e.2 e.1).2.1 = (net.countedFor v s.db e.1).2.1 := fun e he =>
      ⟨(h.commission he).1.symm, (h.commission he).2.symm⟩
    rw [← sum_eq_iff_last hagree, ← countersAt, add_sub_assoc, add_eq_left, sub_eq_zero]

/-- **Undo of the counters**: blocks are indexed from some state on, and one job deletes them
again. All counters are what they were **if and only if** for every validator the shares of its
self-stake add up to the same with the stakes before the blocks and with those at the start of the
deletion; for a validator whose keys the blocks register, if nothing was counted before, apart from
what is taken off a row that was created anew. -/
theorem counters_undone_iff {net : Network} {last : ℕ} {s₀ s : Ledger}
    {trace : List ((ℕ × BlockRow) × DB)} {j : Job} (h₀ : net.GapFree last s₀.db)
    (ht : Tracked net s₀.db) (hindexed : IndexRun net s₀ trace s) (hj : j.Answered net)
    (hpop : net.indexedBlocks (j.run s).db = net.indexedBlocks s₀.db) :
    (∀ v, countersAt (j.run s).db v = countersAt s₀.db v) ↔
      ∀ v, net.CountersReturn s₀.db trace s.db v :=
  forall_congr' fun _ => (hindexed.facts h₀ ht).counters_iff hj hpop

end Runs

/-! ### A stake in the deleted block -/

/-- Block `a` mints a reward of 10 and contains the transactions, all of them successful. -/
def rewardNetwork (txs : List Transaction) : Network :=
  twoBlockNetwork (fun id => if id = "a" then txs else []) fun id => if id = "a" then
    ⟨"rewardEvent", 0, 1, [], .rewardMinted 10⟩ :: txs.map fun tx =>
      ⟨tx.id ++ "Event", 1, 1, [txTopic tx.id], .commandExecutionResult "pos" true⟩ else []

/-- The generator of the block has a stake of 10 on itself. -/
def selfStakeLedger : Ledger :=
  ⟨(Table.upsertRow (.stake "generator" "generator") fun _ => ⟨10⟩ : Stmt).exec genesisLedger.db,
    fun _ => none⟩

/-- A stake of 10 on the generator. -/
def otherStakeTx : Transaction :=
  ⟨"t", "pos", "stake", .stake [⟨"generator", 10⟩], "alice", 0, 0, 0, 0, by decide⟩

section Witness

variable {txs : List Transaction}

private theorem gapFree_selfStakeLedger : (rewardNetwork txs).GapFree 0 selfStakeLedger.db :=
  gapFree_withRows fun _ => Table.upsertRow_fixes (by simp)

private theorem indexRun_rewardNetwork (hnodup : (txs.map (·.id)).Nodup) {p : ℕ × BlockRow}
    (hpush : (rewardNetwork txs).indexedBlocks
      ((rewardNetwork txs).indexNext.run selfStakeLedger).db =
        p :: (rewardNetwork txs).indexedBlocks selfStakeLedger.db) :
    IndexRun (rewardNetwork txs) selfStakeLedger [(p, selfStakeLedger.db)]
      ((rewardNetwork txs).indexNext.run selfStakeLedger) := by
  refine .index .nil indexNext_answered ?_ hpush
  exact indexNext_fresh gapFree_selfStakeLedger (by simpa using hnodup) fun id ha _ => if_neg ha

end Witness

/-- A block with a reward and no stakes is indexed and deleted again. -/
theorem counters_undone_reward :
    (rewardNetwork []).GapFree 0 selfStakeLedger.db ∧
      ∀ v, countersAt (((rewardNetwork []).deleteFrom 1).run
        ((rewardNetwork []).indexNext.run selfStakeLedger)).db v =
          countersAt selfStakeLedger.db v := by
  refine ⟨gapFree_selfStakeLedger,
    (counters_undone_iff gapFree_selfStakeLedger (tracked_genesis gapFree_selfStakeLedger)
      (indexRun_rewardNetwork (by decide)
        (p := (1, blockRow ((rewardNetwork []).block "a") ((rewardNetwork []).events "a")))
        (by decide +kernel))
      (deleteFrom_answered (by decide)) (by decide +kernel)).mpr fun v => ?_⟩
  by_cases hv : v = "generator"
  · subst hv
    rw [Network.CountersReturn, if_neg (by decide +kernel)]
    decide +kernel
  · have hcounted : ∀ db, (rewardNetwork []).countedFor v db (1, blockRow
        ((rewardNetwork []).block "a") ((rewardNetwork []).events "a")) = 0 :=
      fun db => if_neg (Ne.symm hv)
    have hundos : ∀ db, (rewardNetwork []).counterUndos db v (1, blockRow
        ((rewardNetwork []).block "a") ((rewardNetwork []).events "a")) = [] :=
      fun db => congrArg ([] ++ ·) (if_neg (Ne.symm hv))
    rw [Network.CountersReturn, if_neg (by simp [Network.undosOf, hundos])]
    simp [hcounted]

/-- The stakes of the deletion include the stake of the block, and half of the reward stays. -/
theorem stake_changes_reward :
    (rewardNetwork [otherStakeTx]).GapFree 0 selfStakeLedger.db ∧
      Tracked (rewardNetwork [otherStakeTx]) selfStakeLedger.db ∧
      IndexRun (rewardNetwork [otherStakeTx]) selfStakeLedger
        [((1, blockRow ((rewardNetwork [otherStakeTx]).block "a")
          ((rewardNetwork [otherStakeTx]).events "a")), selfStakeLedger.db)]
        ((rewardNetwork [otherStakeTx]).indexNext.run selfStakeLedger) ∧
      ((rewardNetwork [otherStakeTx]).deleteFrom 1).Answered (rewardNetwork [otherStakeTx]) ∧
      (rewardNetwork [otherStakeTx]).indexedBlocks
        (((rewardNetwork [otherStakeTx]).deleteFrom 1).run
          ((rewardNetwork [otherStakeTx]).indexNext.run selfStakeLedger)).db =
            (rewardNetwork [otherStakeTx]).indexedBlocks selfStakeLedger.db ∧
      countersAt selfStakeLedger.db "generator" = (0, 0, 0) ∧
      countersAt (((rewardNetwork [otherStakeTx]).deleteFrom 1).run
        ((rewardNetwork [otherStakeTx]).indexNext.run selfStakeLedger)).db "generator" =
          (0, 0, 5) := by
  refine ⟨gapFree_selfStakeLedger, tracked_genesis gapFree_selfStakeLedger,
    indexRun_rewardNetwork (by decide) (by decide +kernel), deleteFrom_answered (by decide),
    by decide +kernel, by decide +kernel, by decide +kernel⟩

end SwaptoshiService
