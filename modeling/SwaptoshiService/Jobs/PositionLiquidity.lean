import SwaptoshiService.Lib.Effect
import SwaptoshiService.Lib.Run
import SwaptoshiService.Jobs.TickUndo

/-!
# The liquidity of positions

`mint` writes the liquidity of a new position, `increaseLiquidity` and `decreaseLiquidity` add to
it and take from it, and the reverting hooks do the opposite. Every amount passes through
`Number` on its way into the table, so the column holds the sum of the **rounded** amounts of the
transactions currently applied, whatever was applied and reverted in between. It is the exact sum
precisely when the rounding errors of these transactions cancel (`liquidity_exact_iff`).
-/

namespace SwaptoshiService

open Session Async

/-! ### What a transaction does to a position -/

/-- What a liquidity command does to the liquidity of a position. -/
structure PositionChange where
  tokenId : String
  /-- The position is created. -/
  mints : Bool
  sign : ℤ
  amount : ℕ
  deriving DecidableEq, Repr

namespace PositionChange

/-- The liquidity that is added on chain. -/
def exact (c : PositionChange) : ℤ := c.sign * c.amount

/-- The liquidity that is added in the table. -/
def booked (c : PositionChange) : ℤ := c.sign * jsNumber c.amount

/-- The liquidity of the position, given the amount its command adds on chain. -/
def ofData (mints : Bool) (sign : ℤ) (d : PositionData) : PositionChange :=
  ⟨d.tokenId, mints, sign, d.liquidity⟩

end PositionChange

/-- The change of a position that a transaction makes, read off its event. -/
def positionChange (events : List Event) (tx : IndexedTx) : Option PositionChange :=
  match tx.params with
  | .dexMint _ _ _ =>
    (parseSingleEvent events EventData.increaseLiquidity? tx.id).map (.ofData true 1)
  | .dexIncreaseLiquidity _ =>
    (parseSingleEvent events EventData.increaseLiquidity? tx.id).map (.ofData false 1)
  | .dexDecreaseLiquidity _ =>
    (parseSingleEvent events EventData.decreaseLiquidity? tx.id).map (.ofData false (-1))
  | _ => none

/-- Add to the liquidity in a row. -/
def addToRow (amount : ℤ) (r : PositionRow) : PositionRow :=
  { r with liquidity := r.liquidity + amount }

section Effects

variable {env : Env} {header : BlockHeader} {events : List Event} {tx : IndexedTx}
  {db db' : DB} {t : String}

/-- Every row but one of a position. -/
def offPosition (t : String) : Conn → Cell → Prop := fun _ c => c ≠ .position t

private theorem offPosition_id {α : Type} {p : Prog α}
    (hp : Confined (Respects (offPosition t)) p) :
    p.Ensures (ActsAt (.position t) fun o => o) :=
  hp.ensures_actsAt fun _ _ hst => hst _ fun h => h rfl

private theorem sync_id {poolAddress : Address} :
    (Dex.syncPoolData env poolAddress).Ensures (ActsAt (.position t) fun o => o) := by
  refine offPosition_id (syncPoolData_confined fun c hc => ?_)
  rintro rfl
  simp [Cell.table] at hc

private theorem addTVL_id {txID : TxID} {i : ℕ} {row : TVLRow} {token : Option TokenRow} :
    (Dex.addTVL txID i row token).Ensures (ActsAt (.position t) fun o => o) :=
  offPosition_id (addTVL_confined (by simp [offPosition]))

private theorem removeTVL_id {txID : TxID} {i : ℕ} {row : TVLRow} {token : Option TokenRow} :
    (Dex.removeTVL txID i row token).Ensures (ActsAt (.position t) fun o => o) :=
  offPosition_id (removeTVL_confined (by simp [offPosition]))

private theorem find_id {c : Cell} :
    (Table.find .dbTrx c : Prog (Option (Row c))).Ensures (ActsAt (.position t) fun o => o) :=
  offPosition_id Table.confined_find

/-- What becomes of the row of a position `t` when a function is applied to one row. -/
def onPosition (tokenId : String) (f : Option PositionRow → Option PositionRow) (t : String) :
    Option PositionRow → Option PositionRow := if t = tokenId then f else fun o => o

/-- The open transaction applies a function to the row of one position. -/
def ActsOn (tokenId : String) (f : Option PositionRow → Option PositionRow) (w w' : DBSession) :
    Prop := ∀ t, ActsAt (.position t) (onPosition tokenId f t) w w'

/-- One statement on the row of a position. -/
private theorem ensures_point {tokenId : String}
    {f : Option PositionRow → Option PositionRow} :
    (Session.exec .dbTrx (.point (.position tokenId) f) : Prog Unit).Ensures
      (ActsAt (.position t) (onPosition tokenId f t)) := by
  refine ensures_actsAt_exec fun o => ?_
  rw [onPosition]
  by_cases ht : t = tokenId
  · subst ht
    rw [if_pos rfl, Write.point_act_self]
  · have hne : Cell.position t ≠ Cell.position tokenId := by simpa using ht
    rw [if_neg ht]
    exact Write.point_act_of_ne hne f o

/-- The row that `mint` writes. -/
def mintedRow (env : Env) (poolAddress : Address) (increase : PositionData) (mint : LiquidityData)
    (tokenURI : String) : PositionRow :=
  let metadata := env.getMetadata poolAddress increase.tokenId
  { collectionId := env.collectionId increase.tokenId
    owner := some increase.ownerAddress
    name := metadata.name
    description := metadata.description
    image := metadata.image
    tickUpper := mint.tickUpper
    tickLower := mint.tickLower
    liquidity := jsNumber increase.liquidity
    tokenURI }

/-- `mint` writes a row with the owner and the rounded liquidity. -/
theorem ensures_applyMint_position {tokenA tokenB : TokenID} {fee : ℕ}
    (hs : tx.isSuccessful = true) :
    (Dex.applyMint env header tx tokenA tokenB fee events).Ensures fun w w' =>
      ∃ d r, parseSingleEvent events EventData.increaseLiquidity? tx.id = some d ∧
        r.liquidity = jsNumber d.liquidity ∧ r.owner = some d.ownerAddress ∧
        ActsOn d.tokenId (fun _ => some r) w w' := by
  rw [Dex.applyMint, ifSuccessful, if_pos hs]
  refine ensures_ofOption_bind fun key hkey => ensures_ofOption_bind fun increase hincrease =>
    ensures_ofOption_bind fun mint hmint => ensures_ofOption_bind fun tokenURI _ => ?_
  intro w a w' hrun
  refine ⟨increase, mintedRow env (env.poolAddress key) increase mint tokenURI, hincrease, rfl, rfl,
    fun t => ?_⟩
  refine ensures_actsAt_left ensures_point (fun _ => ?_) w a w' hrun
  refine ensures_actsAt_right find_id fun t₀ => ensures_actsAt_right find_id fun t₁ =>
    ensures_actsAt_right addTVL_id fun _ => ensures_actsAt_right addTVL_id fun _ =>
    ensures_actsAt_right (offPosition_id (updateTicks_confined fun _ => ?_)) fun _ => sync_id
  simp [offPosition]

/-- `increaseLiquidity` and `decreaseLiquidity` add the rounded liquidity. -/
theorem ensures_applyLiquidity_position {k : Dex.LiquidityChange} {poolAddress : Address}
    (hs : tx.isSuccessful = true) :
    (Dex.applyLiquidity k env header tx poolAddress events).Ensures fun w w' =>
      ∃ d, parseSingleEvent events k.position? tx.id = some d ∧
        ActsOn d.tokenId (Option.map (addToRow (k.sign * jsNumber d.liquidity))) w w' := by
  rw [Dex.applyLiquidity, ifSuccessful, if_pos hs]
  intro w a w' hrun
  rw [Table.run_find_bind, Table.run_find_bind] at hrun
  obtain ⟨change, hchange, hrun⟩ := run_ofOption_bind_ok.mp hrun
  refine ⟨change, hchange, fun t => ?_⟩
  refine ensures_actsAt_right addTVL_id (fun _ => ensures_actsAt_right addTVL_id fun _ =>
    ensures_ofOption_bind fun ticks _ => ensures_actsAt_right
      (offPosition_id (updateTicks_confined fun _ => ?_)) fun _ =>
      ensures_actsAt_left ensures_point fun _ => sync_id) w a w' hrun
  simp [offPosition]

/-- Reverting `mint` deletes the row. -/
theorem ensures_revertMint_position {tokenA tokenB : TokenID} {fee : ℕ}
    (hs : tx.isSuccessful = true) :
    (Dex.revertMint env header tx tokenA tokenB fee events).Ensures fun w w' =>
      ∃ d, parseSingleEvent events EventData.increaseLiquidity? tx.id = some d ∧
        ActsOn d.tokenId (fun _ => none) w w' := by
  rw [Dex.revertMint, ifSuccessful, if_pos hs]
  refine ensures_ofOption_bind fun increase hincrease => ?_
  intro w a w' hrun
  refine ⟨increase, hincrease, fun t => ?_⟩
  refine ensures_actsAt_left ensures_point (fun _ => ensures_ofOption_bind fun key _ => ?_) w a w'
    hrun
  refine ensures_actsAt_right find_id fun t₀ => ensures_actsAt_right find_id fun t₁ =>
    ensures_actsAt_right removeTVL_id fun _ => ensures_actsAt_right removeTVL_id fun _ =>
    ensures_ofOption_bind fun mint _ => ensures_actsAt_right
      (offPosition_id (revertTicks_confined fun _ => ?_)) fun _ => sync_id
  simp [offPosition]

/-- Reverting `increaseLiquidity` and `decreaseLiquidity` takes the rounded liquidity off. -/
theorem ensures_revertLiquidity_position {k : Dex.LiquidityChange}
    {poolAddress : Address} (hs : tx.isSuccessful = true) :
    (Dex.revertLiquidity k env header tx poolAddress events).Ensures fun w w' =>
      ∃ d, parseSingleEvent events k.position? tx.id = some d ∧
        ActsOn d.tokenId (Option.map (addToRow (-(k.sign * jsNumber d.liquidity)))) w w' := by
  rw [Dex.revertLiquidity, ifSuccessful, if_pos hs]
  intro w a w' hrun
  rw [Table.run_find_bind, Table.run_find_bind] at hrun
  obtain ⟨change, hchange, hrun⟩ := run_ofOption_bind_ok.mp hrun
  refine ⟨change, hchange, fun t => ?_⟩
  refine ensures_actsAt_right removeTVL_id (fun _ => ensures_actsAt_right removeTVL_id fun _ =>
    ensures_ofOption_bind fun ticks _ => ensures_actsAt_right
      (offPosition_id (revertTicks_confined fun _ => ?_)) fun _ =>
      ensures_actsAt_left ensures_point fun _ => sync_id) w a w' hrun
  simp [offPosition]

/-- The row of a position after its change was applied, given the row before. -/
def PositionChange.Applied (c : PositionChange) (o o' : Option PositionRow) : Prop :=
  if c.mints then ∃ r, o' = some r ∧ r.liquidity = c.booked else o' = o.map (addToRow c.booked)

/-- The row of a position after its change was reverted. -/
def PositionChange.revert (c : PositionChange) (o : Option PositionRow) : Option PositionRow :=
  if c.mints then none else o.map (addToRow (-c.booked))

/-- The two databases differ at most in the row of one position. -/
def OnlyPosition (tokenId : String) (db db' : DB) : Prop :=
  ∀ t ≠ tokenId, db'.get (.position t) = db.get (.position t)

/-- A transaction that acts on one position leaves the others alone. -/
theorem ActsOn.commit {tokenId : String} {w : DBSession}
    {f : Option PositionRow → Option PositionRow} (h : ActsOn tokenId f (ofStore db) w) :
    w.commit.committed.get (.position tokenId) = f (db.get (.position tokenId)) ∧
      OnlyPosition tokenId db w.commit.committed := by
  refine ⟨?_, fun t ht => ?_⟩
  · have hview := (h tokenId).view
    rwa [onPosition, if_pos rfl] at hview
  · have hview := (h t).view
    rwa [onPosition, if_neg ht] at hview

/-- **Applying a liquidity command** changes the row of its position as its event says, up to
rounding. -/
theorem applyAlone_position (hs : tx.isSuccessful = true)
    (hl : tx.params.isLiquidity = true) (h : applyAlone env header events tx db = (.ok (), db')) :
    ∃ c, positionChange events tx = some c ∧ OnlyPosition c.tokenId db db' ∧
      c.Applied (db.get (.position c.tokenId)) (db'.get (.position c.tokenId)) := by
  obtain ⟨-, w, hw, rfl⟩ := transact_ok.mp h
  rw [applyTransaction_eq, applyHook] at hw
  cases hp : tx.params with
  | dexMint tokenA tokenB fee =>
    rw [hp] at hw
    obtain ⟨d, r, hd, hr, -, hacts⟩ := ensures_applyMint_position hs _ _ _ hw
    obtain ⟨hself, hothers⟩ := hacts.commit
    refine ⟨.ofData true 1 d, by simp [positionChange, hp, hd], hothers, r, hself, ?_⟩
    rw [hr, PositionChange.booked, PositionChange.ofData, one_mul]
  | dexIncreaseLiquidity poolAddress =>
    rw [hp] at hw
    obtain ⟨d, hd, hacts⟩ := ensures_applyLiquidity_position hs _ _ _ hw
    obtain ⟨hself, hothers⟩ := hacts.commit
    have hd' : parseSingleEvent events EventData.increaseLiquidity? tx.id = some d := hd
    exact ⟨.ofData false 1 d, by simp [positionChange, hp, hd'], hothers, hself⟩
  | dexDecreaseLiquidity poolAddress =>
    rw [hp] at hw
    obtain ⟨d, hd, hacts⟩ := ensures_applyLiquidity_position hs _ _ _ hw
    obtain ⟨hself, hothers⟩ := hacts.commit
    have hd' : parseSingleEvent events EventData.decreaseLiquidity? tx.id = some d := hd
    exact ⟨.ofData false (-1) d, by simp [positionChange, hp, hd'], hothers, hself⟩
  | _ => simp [hp, Command.isLiquidity] at hl

/-- **Reverting a liquidity command** takes back what applying it did. -/
theorem revertAlone_position (hs : tx.isSuccessful = true)
    (hl : tx.params.isLiquidity = true)
    (h : revertAlone env header events tx db = (.ok (), db')) :
    ∃ c, positionChange events tx = some c ∧ OnlyPosition c.tokenId db db' ∧
      db'.get (.position c.tokenId) = c.revert (db.get (.position c.tokenId)) := by
  obtain ⟨-, w, hw, rfl⟩ := transact_ok.mp h
  have hs' : tx.forked.isSuccessful = true := hs
  have hparams : tx.forked.params = tx.params := rfl
  rw [revertTransaction_eq, revertHook] at hw
  rw [hparams] at hw
  cases hp : tx.params with
  | dexMint tokenA tokenB fee =>
    rw [hp] at hw
    obtain ⟨d, hd, hacts⟩ := ensures_revertMint_position hs' _ _ _ hw
    obtain ⟨hself, hothers⟩ := hacts.commit
    have hd' : parseSingleEvent events EventData.increaseLiquidity? tx.id = some d := hd
    exact ⟨.ofData true 1 d, by simp [positionChange, hp, hd'], hothers, hself⟩
  | dexIncreaseLiquidity poolAddress =>
    rw [hp] at hw
    obtain ⟨d, hd, hacts⟩ := ensures_revertLiquidity_position hs' _ _ _ hw
    obtain ⟨hself, hothers⟩ := hacts.commit
    have hd' : parseSingleEvent events EventData.increaseLiquidity? tx.id = some d := hd
    exact ⟨.ofData false 1 d, by simp [positionChange, hp, hd'], hothers, hself⟩
  | dexDecreaseLiquidity poolAddress =>
    rw [hp] at hw
    obtain ⟨d, hd, hacts⟩ := ensures_revertLiquidity_position hs' _ _ _ hw
    obtain ⟨hself, hothers⟩ := hacts.commit
    have hd' : parseSingleEvent events EventData.decreaseLiquidity? tx.id = some d := hd
    exact ⟨.ofData false (-1) d, by simp [positionChange, hp, hd'], hothers, hself⟩
  | _ => simp [hp, Command.isLiquidity] at hl

end Effects

/-! ### Runs -/

/-- A transaction together with the block and the events it was applied with. -/
structure AppliedTx where
  header : BlockHeader
  events : List Event
  tx : IndexedTx

/-- The change of a position that the transaction made. -/
def AppliedTx.change (e : AppliedTx) : Option PositionChange := positionChange e.events e.tx

/-- The transactions currently applied, the last one first, and the tables. -/
structure LiquidityState where
  applied : List AppliedTx
  db : DB

/-- A liquidity command is applied, or the last applied one is reverted. -/
inductive LiquidityOp
  | apply (env : Env) (e : AppliedTx)
  | revert (env : Env)

/-- One operation that completes. -/
def LiquidityState.Step (s : LiquidityState) : LiquidityOp → LiquidityState → Prop
  | .apply env e, s' => e.tx.isSuccessful = true ∧ e.tx.params.isLiquidity = true ∧
      applyAlone env e.header e.events e.tx s.db = (.ok (), s'.db) ∧ s'.applied = e :: s.applied
  | .revert env, s' => ∃ e, s.applied = e :: s'.applied ∧
      revertAlone env e.header e.events e.tx s.db = (.ok (), s'.db)

/-- What the chain promises of a successful transaction: `mint` creates a position that is not
there yet, the other two commands change one that is. -/
def LiquidityState.Sound (s : LiquidityState) : LiquidityOp → Prop
  | .apply _ e => ∀ c, e.change = some c →
      (s.db.get (.position c.tokenId)).isSome = !c.mints
  | .revert _ => True

/-- The stored liquidity of a position; there is none where there is no row. -/
def liquidityAt (db : DB) (t : String) : ℤ :=
  (db.get (.position t) : Option PositionRow).elim 0 PositionRow.liquidity

/-- The changes of one position, last one first. -/
def changesOf (t : String) (l : List AppliedTx) : List PositionChange :=
  (l.filterMap AppliedTx.change).filter fun c => c.tokenId = t

/-- The liquidity that transactions add to a position, less what they remove. -/
def exactSum (t : String) (l : List AppliedTx) : ℤ :=
  ((changesOf t l).map PositionChange.exact).sum

/-- What the table books for them. -/
def bookedSum (t : String) (l : List AppliedTx) : ℤ :=
  ((changesOf t l).map PositionChange.booked).sum

/-- The rounding errors of the transactions on a position, added up. -/
def roundingError (t : String) (l : List AppliedTx) : ℤ :=
  ((changesOf t l).map fun c => c.sign * (jsNumber c.amount - c.amount)).sum

theorem bookedSum_eq (t : String) (l : List AppliedTx) :
    bookedSum t l = exactSum t l + roundingError t l := by
  rw [bookedSum, exactSum, roundingError]
  induction changesOf t l with
  | nil => rfl
  | cons c cs ih =>
    have hc : c.booked = c.exact + c.sign * (jsNumber c.amount - c.amount) := by
      rw [PositionChange.booked, PositionChange.exact, ← Int.mul_add, add_sub_cancel]
    rw [List.map_cons, List.map_cons, List.map_cons, List.sum_cons, List.sum_cons, List.sum_cons,
      ih, hc]
    omega

/-- Amounts in the safe range are not rounded. -/
theorem roundingError_of_le {t : String} {l : List AppliedTx}
    (h : ∀ e ∈ l, ∀ c, e.change = some c → c.amount ≤ 2 ^ 53) : roundingError t l = 0 := by
  refine List.sum_eq_zero fun x hx => ?_
  obtain ⟨c, hc, rfl⟩ := List.mem_map.mp hx
  obtain ⟨e, he, hec⟩ := List.mem_filterMap.mp (List.mem_filter.mp hc).1
  have hsafe : jsNumber (c.amount : ℤ) = c.amount := jsNumber_of_le (by simpa using h e he c hec)
  rw [hsafe, sub_self, Int.mul_zero]

section Runs

variable {s₀ s s' : LiquidityState} {t : String} {e : AppliedTx} {c : PositionChange}
  {l : List AppliedTx}

private theorem bookedSum_cons_self (hc : e.change = some c) (ht : c.tokenId = t) :
    bookedSum t (e :: l) = c.booked + bookedSum t l := by
  simp [bookedSum, changesOf, hc, ht]

private theorem bookedSum_cons_of_ne (hc : e.change = some c) (ht : c.tokenId ≠ t) :
    bookedSum t (e :: l) = bookedSum t l := by
  simp [bookedSum, changesOf, hc, ht]

/-- One of the transactions creates the position. -/
private def Minted (t : String) (l : List AppliedTx) : Prop :=
  ∃ e ∈ l, ∃ c, e.change = some c ∧ c.mints = true ∧ c.tokenId = t

private theorem minted_cons (hc : e.change = some c) :
    Minted t (e :: l) ↔ (c.mints = true ∧ c.tokenId = t) ∨ Minted t l := by
  constructor
  · rintro ⟨e', hmem, c', hc', hm⟩
    rcases List.mem_cons.mp hmem with rfl | hmem
    · obtain rfl : c = c' := Option.some_injective _ (hc.symm.trans hc')
      exact .inl hm
    · exact .inr ⟨e', hmem, c', hc', hm⟩
  · rintro (hm | ⟨e', hmem, hm⟩)
    · exact ⟨e, List.mem_cons_self, c, hc, hm⟩
    · exact ⟨e', List.mem_cons_of_mem _ hmem, hm⟩

/-- Every applied transaction succeeded; where it creates a position, nothing below it concerns
that position, and where it does not, the position is created below it or was there at the
start. -/
private def SoundStack (db : DB) : List AppliedTx → Prop
  | [] => True
  | e :: l => e.tx.isSuccessful = true ∧ e.tx.params.isLiquidity = true ∧
    (∀ c, e.change = some c → if c.mints then
      db.get (.position c.tokenId) = none ∧ changesOf c.tokenId l = []
      else (db.get (.position c.tokenId)).isSome ∨ Minted c.tokenId l) ∧ SoundStack db l

/-- A position with a change was there at the start or is created. -/
private theorem SoundStack.present {db : DB} (h : SoundStack db l) (hne : changesOf t l ≠ []) :
    (db.get (.position t)).isSome ∨ Minted t l := by
  induction l with
  | nil => simp [changesOf] at hne
  | cons e l ih =>
    obtain ⟨-, -, hchange, hl⟩ := h
    have hbelow : Minted t l → Minted t (e :: l) :=
      fun ⟨e', hmem, hm⟩ => ⟨e', List.mem_cons_of_mem _ hmem, hm⟩
    cases hc : e.change with
    | none =>
      have hne' : changesOf t l ≠ [] := by simpa [changesOf, hc] using hne
      exact (ih hl hne').imp_right hbelow
    | some c =>
      by_cases ht : c.tokenId = t
      · subst ht
        have hcase := hchange c hc
        by_cases hm : c.mints = true
        · exact .inr ((minted_cons hc).mpr (.inl ⟨hm, rfl⟩))
        · rw [if_neg hm] at hcase
          exact hcase.imp_right hbelow
      · have hne' : changesOf t l ≠ [] := by simpa [changesOf, hc, ht] using hne
        exact (ih hl hne').imp_right hbelow

/-- What holds in every state reached. -/
private structure Booked (s₀ s : LiquidityState) : Prop where
  stack : SoundStack s₀.db s.applied
  present : ∀ t, (s.db.get (.position t)).isSome ↔
    (s₀.db.get (.position t)).isSome ∨ Minted t s.applied
  total : ∀ t, liquidityAt s.db t = liquidityAt s₀.db t + bookedSum t s.applied

private theorem liquidityAt_of_none {db : DB} (h : db.get (.position t) = none) :
    liquidityAt db t = 0 := by
  rw [liquidityAt, h, Option.elim_none]

private theorem liquidityAt_of_some {db : DB} {r : PositionRow}
    (h : db.get (.position t) = some r) : liquidityAt db t = r.liquidity := by
  rw [liquidityAt, h, Option.elim_some]

/-- Adding to the row of a position that is there adds to its liquidity. -/
private theorem liquidityAt_addToRow {db db' : DB} {amount : ℤ}
    (hsome : (db.get (.position t)).isSome)
    (h : db'.get (.position t) = (db.get (.position t)).map (addToRow amount)) :
    liquidityAt db' t = liquidityAt db t + amount := by
  obtain ⟨r, hr⟩ := Option.isSome_iff_exists.mp hsome
  rw [hr, Option.map_some] at h
  rw [liquidityAt_of_some h, liquidityAt_of_some hr, addToRow]

private theorem liquidityAt_congr {db db' : DB}
    (h : db'.get (.position t) = db.get (.position t)) :
    liquidityAt db' t = liquidityAt db t := by
  rw [liquidityAt, liquidityAt, h]

private theorem not_minted_of_changesOf_nil (h : changesOf t l = []) : ¬ Minted t l := by
  rintro ⟨e, hmem, c, hc, -, ht⟩
  have hin : c ∈ changesOf t l :=
    List.mem_filter.mpr ⟨List.mem_filterMap.mpr ⟨e, hmem, hc⟩, by simpa using ht⟩
  rw [h] at hin
  exact List.not_mem_nil hin

/-- Where a position is not there, nothing applied concerns it and it was not there at the
start. -/
private theorem Booked.absent (h : Booked s₀ s) (ht : s.db.get (.position t) = none) :
    s₀.db.get (.position t) = none ∧ changesOf t s.applied = [] := by
  have hnot : ¬ ((s₀.db.get (.position t)).isSome ∨ Minted t s.applied) := by
    rw [← h.present t, ht]
    simp
  refine ⟨by simpa using fun hsome => hnot (.inl hsome), ?_⟩
  by_contra hne
  exact hnot (h.stack.present hne)

/-- Creating a position keeps the books. -/
private theorem Booked.apply_mint (h : Booked s₀ s) (hs : e.tx.isSuccessful = true)
    (hl : e.tx.params.isLiquidity = true) (hc : e.change = some c) (hm : c.mints = true)
    (habsent : s.db.get (.position c.tokenId) = none) (hothers : OnlyPosition c.tokenId s.db s'.db)
    (hrow : c.Applied (s.db.get (.position c.tokenId)) (s'.db.get (.position c.tokenId)))
    (hstack : s'.applied = e :: s.applied) : Booked s₀ s' := by
  obtain ⟨hstart, hnil⟩ := h.absent habsent
  rw [PositionChange.Applied, if_pos hm] at hrow
  obtain ⟨r, hr, hliquidity⟩ := hrow
  refine ⟨?_, fun t => ?_, fun t => ?_⟩
  · rw [hstack]
    refine ⟨hs, hl, fun c' hc' => ?_, h.stack⟩
    obtain rfl : c = c' := Option.some_injective _ (hc.symm.trans hc')
    rw [if_pos hm]
    exact ⟨hstart, hnil⟩
  · rw [hstack, minted_cons hc]
    by_cases ht : c.tokenId = t
    · subst ht
      simp [hr, hm]
    · rw [hothers t (Ne.symm ht), h.present t]
      simp [ht]
  · rw [hstack]
    by_cases ht : c.tokenId = t
    · subst ht
      have hzero : bookedSum c.tokenId s.applied = 0 := by simp [bookedSum, hnil]
      rw [bookedSum_cons_self hc rfl, hzero, liquidityAt_of_some hr, liquidityAt_of_none hstart,
        hliquidity]
      omega
    · rw [bookedSum_cons_of_ne hc ht, liquidityAt_congr (hothers t (Ne.symm ht)), h.total t]

/-- Changing a position that is there keeps the books. -/
private theorem Booked.apply_change (h : Booked s₀ s) (hs : e.tx.isSuccessful = true)
    (hl : e.tx.params.isLiquidity = true) (hc : e.change = some c) (hm : c.mints ≠ true)
    (hthere : (s.db.get (.position c.tokenId)).isSome)
    (hothers : OnlyPosition c.tokenId s.db s'.db)
    (hrow : c.Applied (s.db.get (.position c.tokenId)) (s'.db.get (.position c.tokenId)))
    (hstack : s'.applied = e :: s.applied) : Booked s₀ s' := by
  rw [PositionChange.Applied, if_neg hm] at hrow
  refine ⟨?_, fun t => ?_, fun t => ?_⟩
  · rw [hstack]
    refine ⟨hs, hl, fun c' hc' => ?_, h.stack⟩
    obtain rfl : c = c' := Option.some_injective _ (hc.symm.trans hc')
    rw [if_neg hm]
    exact (h.present _).mp hthere
  · have hsame : (s'.db.get (.position t)).isSome = (s.db.get (.position t)).isSome := by
      by_cases ht : c.tokenId = t
      · subst ht
        rw [hrow, Option.isSome_map]
      · rw [hothers t (Ne.symm ht)]
    rw [hstack, minted_cons hc, hsame, h.present t]
    simp [hm]
  · rw [hstack]
    by_cases ht : c.tokenId = t
    · subst ht
      rw [bookedSum_cons_self hc rfl, liquidityAt_addToRow hthere hrow, h.total]
      omega
    · rw [bookedSum_cons_of_ne hc ht, liquidityAt_congr (hothers t (Ne.symm ht)), h.total t]

/-- Reverting the last transaction keeps the books. -/
private theorem Booked.revert (h : Booked s₀ s) (hstack : s.applied = e :: s'.applied)
    (hc : e.change = some c) (hothers : OnlyPosition c.tokenId s.db s'.db)
    (hrow : s'.db.get (.position c.tokenId) = c.revert (s.db.get (.position c.tokenId))) :
    Booked s₀ s' := by
  have hsound := h.stack
  rw [hstack] at hsound
  obtain ⟨-, -, hchange, hbelow⟩ := hsound
  have hcase := hchange c hc
  have htotal := h.total
  have hpresent := h.present
  rw [hstack] at htotal hpresent
  -- the other positions: neither the row nor the books change
  have hoff : ∀ t, c.tokenId ≠ t → (((s'.db.get (.position t)).isSome ↔
      (s₀.db.get (.position t)).isSome ∨ Minted t s'.applied) ∧
      liquidityAt s'.db t = liquidityAt s₀.db t + bookedSum t s'.applied) := by
    intro t ht
    have hsame := hothers t (Ne.symm ht)
    rw [liquidityAt_congr hsame, htotal t, bookedSum_cons_of_ne hc ht, hsame, hpresent t,
      minted_cons hc]
    simp [ht]
  -- its own position
  have hon : ((s'.db.get (.position c.tokenId)).isSome ↔
      (s₀.db.get (.position c.tokenId)).isSome ∨ Minted c.tokenId s'.applied) ∧
      liquidityAt s'.db c.tokenId =
        liquidityAt s₀.db c.tokenId + bookedSum c.tokenId s'.applied := by
    by_cases hm : c.mints = true
    · rw [if_pos hm] at hcase
      rw [PositionChange.revert, if_pos hm] at hrow
      have hnot := not_minted_of_changesOf_nil hcase.2
      have hzero : bookedSum c.tokenId s'.applied = 0 := by simp [bookedSum, hcase.2]
      rw [liquidityAt_of_none hrow, liquidityAt_of_none hcase.1, hzero, hrow, hcase.1]
      simp [hnot]
    · rw [if_neg hm] at hcase
      rw [PositionChange.revert, if_neg hm] at hrow
      have hthere : (s.db.get (.position c.tokenId)).isSome :=
        (hpresent _).mpr (hcase.imp_right fun hmint => (minted_cons hc).mpr (.inr hmint))
      refine ⟨?_, ?_⟩
      · rw [hrow, Option.isSome_map, hpresent, minted_cons hc]
        simp [hm]
      · rw [liquidityAt_addToRow hthere hrow, htotal, bookedSum_cons_self hc rfl]
        omega
  refine ⟨hbelow, fun t => ?_, fun t => ?_⟩
  · by_cases ht : c.tokenId = t
    · subst ht
      exact hon.1
    · exact (hoff t ht).1
  · by_cases ht : c.tokenId = t
    · subst ht
      exact hon.2
    · exact (hoff t ht).2

/-- Every step keeps the books. -/
private theorem Booked.step (h : Booked s₀ s) {op : LiquidityOp} (hstep : s.Step op s')
    (hsound : s.Sound op) : Booked s₀ s' := by
  cases op with
  | apply env e =>
    obtain ⟨hs, hl, happly, hstack⟩ := hstep
    obtain ⟨c, hc, hothers, hrow⟩ := applyAlone_position hs hl happly
    have hthere := hsound c hc
    by_cases hm : c.mints = true
    · have habsent : s.db.get (.position c.tokenId) = none := by simpa [hm] using hthere
      exact h.apply_mint hs hl hc hm habsent hothers hrow hstack
    · exact h.apply_change hs hl hc hm (by simpa [hm] using hthere) hothers hrow hstack
  | revert env =>
    obtain ⟨e, hstack, hrevert⟩ := hstep
    have hstack' := h.stack
    rw [hstack] at hstack'
    obtain ⟨hs, hl, -, -⟩ := hstack'
    obtain ⟨c, hc, hothers, hrow⟩ := revertAlone_position hs hl hrevert
    exact h.revert hstack hc hothers hrow

/-- The books hold in every state reached. -/
private theorem booked_run (h₀ : s₀.applied = [])
    (hrun : Run LiquidityState.Step LiquidityState.Sound s₀ s) : Booked s₀ s := by
  refine hrun.invariant (Booked s₀) ⟨?_, ?_, ?_⟩ fun _ _ _ h hsound hstep => h.step hstep hsound
  · rw [h₀]
    trivial
  · simp [h₀, Minted]
  · simp [h₀, bookedSum, changesOf]

/-- **The stored liquidity is the exact one precisely when the rounding errors cancel.** After any
run of liquidity commands and of reverts of the last one, the liquidity of every position is what
the transactions currently applied add to it on chain, if and only if for every position the
rounding errors of their amounts add up to nothing. -/
theorem liquidity_exact_iff (h₀ : s₀.applied = [])
    (hrun : Run LiquidityState.Step LiquidityState.Sound s₀ s) :
    (∀ t, liquidityAt s.db t = liquidityAt s₀.db t + exactSum t s.applied) ↔
      ∀ t, roundingError t s.applied = 0 := by
  have hbooked := booked_run h₀ hrun
  refine forall_congr' fun t => ?_
  rw [hbooked.total t, bookedSum_eq]
  omega

end Runs

/-! ### A position above the safe range -/

/-- A successful `mint`. -/
def mintTx : IndexedTx :=
  ⟨⟨"m", "dex", "mint", .dexMint "btc" "kly" 3000, "alice", 0, 0, 0, 0, by decide⟩, 0, some "alice",
    .successful⟩

/-- The events of the `mint` of a position. -/
def mintEvents (liquidity : ℕ) : List Event :=
  [⟨"0", 0, 1, [txTopic "m"], .increaseLiquidity ⟨"nft", "alice", liquidity, 1, 1⟩⟩,
    ⟨"1", 1, 1, [txTopic "m"], .dexMint ⟨10, 20, liquidity, -liquidity, 0, 0⟩⟩,
    ⟨"2", 2, 1, [txTopic "m"], .tokenURICreated "uri"⟩]

/-- The `mint`, with its events. -/
def mintOf (liquidity : ℕ) : AppliedTx := ⟨increaseHeader, mintEvents liquidity, mintTx⟩

/-- The tables after it was applied. -/
def mintedDB (liquidity : ℕ) : DB :=
  (applyAlone onePoolEnv increaseHeader (mintEvents liquidity) mintTx onePoolDB).2

/-- Applying the `mint` is a run. -/
theorem run_mintOf (liquidity : ℕ) : Run LiquidityState.Step LiquidityState.Sound
    ⟨[], onePoolDB⟩ ⟨[mintOf liquidity], mintedDB liquidity⟩ := by
  refine .tail (a := .apply onePoolEnv (mintOf liquidity)) .refl ⟨rfl, rfl, ?_, rfl⟩ ?_
  · exact Prod.ext rfl rfl
  · rintro c hc
    obtain rfl : PositionChange.ofData true 1 ⟨"nft", "alice", liquidity, 1, 1⟩ = c :=
      Option.some_injective _ hc
    rfl

/-- A position minted in the safe range has its liquidity. -/
theorem liquidity_exact_iff_seven :
    Run LiquidityState.Step LiquidityState.Sound ⟨[], onePoolDB⟩ ⟨[mintOf 7], mintedDB 7⟩ ∧
      ∀ t, liquidityAt (mintedDB 7) t = liquidityAt onePoolDB t + exactSum t [mintOf 7] := by
  refine ⟨run_mintOf 7,
    (liquidity_exact_iff rfl (run_mintOf 7)).mpr fun t => roundingError_of_le ?_⟩
  rintro e he c hc
  obtain rfl : e = mintOf 7 := by simpa using he
  obtain rfl : PositionChange.ofData true 1 ⟨"nft", "alice", 7, 1, 1⟩ = c :=
    Option.some_injective _ hc
  simp [PositionChange.ofData]

/-- A position is minted with one more than `2 ^ 53`, and the table has `2 ^ 53`. -/
theorem liquidity_rounded :
    Run LiquidityState.Step LiquidityState.Sound ⟨[], onePoolDB⟩
        ⟨[mintOf (2 ^ 53 + 1)], mintedDB (2 ^ 53 + 1)⟩ ∧
      liquidityAt onePoolDB "nft" = 0 ∧ exactSum "nft" [mintOf (2 ^ 53 + 1)] = 2 ^ 53 + 1 ∧
      liquidityAt (mintedDB (2 ^ 53 + 1)) "nft" = 2 ^ 53 :=
  ⟨run_mintOf _, rfl, by decide +kernel, by decide +kernel⟩

end SwaptoshiService
