import Mathlib.Algebra.BigOperators.Group.List.Lemmas
import Mathlib.Algebra.GroupWithZero.Nat
import SwaptoshiService.Jobs.BlockHistory

/-!
# The supply of factory tokens over whole runs

`tokenCreate` inserts a row with the created amount, `tokenMint` and `burn` add to the supply of a
row that is there, as JavaScript `Number`s. `tokenCreate` deliberately inserts nothing if the
factory has no metadata or no logo, or if name or symbol are taken, and then the token has no supply
(`created_without_row`). A token whose row was inserted, and before whose row nothing else was
processed, has in every state reached the created amount with what the indexed blocks mint and burn
(`supply_exact`), if `Number`s keep these amounts.

A block with a `tokenCreate` cannot be deleted, because reverting it throws; so the deleted blocks
have mints and burns only.
-/

namespace SwaptoshiService

open Session
open Async (mapOrder mapOrder_flatMap_perm mem_mapOrder)

/-! ### Events -/

/-- What a transaction does to a factory token. -/
inductive SupplyEvent
  | created (amount : ℕ)
  | added (amount : ℤ)
  | attributeSet (key : String)
  deriving DecidableEq, Repr

/-- The amount that is minted, or burned. -/
def SupplyEvent.amount : SupplyEvent → ℤ
  | .created _ => 0
  | .added amount => amount
  | .attributeSet _ => 0

/-- A `Number` keeps the amount. -/
def SupplyEvent.Kept (e : SupplyEvent) : Prop := jsNumber e.amount = e.amount

instance SupplyEvent.decidableKept (e : SupplyEvent) : Decidable e.Kept :=
  inferInstanceAs (Decidable (_ = _))

namespace Network

/-- The factory token that a transaction of a block creates, mints, burns or gives an attribute. -/
def supplyEvent (net : Network) (id : BlockID) (tx : Transaction) :
    Option (TokenID × SupplyEvent) :=
  if getTransactionExecutionStatus tx (net.events id) = some .successful then
    match tx.params with
    | .tokenFactoryCreate =>
      (parseSingleEvent (net.events id) EventData.factoryCreated? tx.id).map
        fun (tokenId, _, amount) => (tokenId, .created amount)
    | .tokenFactoryMint tokenId distribution => some (tokenId, .added distribution.sum)
    | .tokenFactoryBurn tokenId amount => some (tokenId, .added (-amount))
    | .tokenFactorySetAttributes =>
      (parseSingleEvent (net.events id) EventData.factorySetAttributes? tx.id).map
        fun (tokenId, key) => (tokenId, .attributeSet key)
    | _ => none
  else none

/-- What a transaction of a block does to one token. -/
def supplyEventAt (net : Network) (id : BlockID) (t : TokenID) (tx : Transaction) :
    Option SupplyEvent :=
  (net.supplyEvent id tx).bind fun (tokenId, e) => if tokenId = t then some e else none

/-- The events of one token in a block, in block order. -/
def supplyEvents (net : Network) (id : BlockID) (t : TokenID) : List SupplyEvent :=
  (net.block id).transactions.filterMap (net.supplyEventAt id t)

/-- A block of the stack creates the token. -/
def Created (net : Network) (t : TokenID) (stack : List (ℕ × BlockRow)) : Prop :=
  ∃ p ∈ stack, ∃ a, .created a ∈ net.supplyEvents p.2.id t

/-- What the blocks of a stack mint of a token, less what they burn. -/
def supplyAdded (net : Network) (t : TokenID) (stack : List (ℕ × BlockRow)) : ℤ :=
  (stack.map fun p => ((net.supplyEvents p.2.id t).map SupplyEvent.amount).sum).sum

end Network

/-- Presence and supply of a token in the table. -/
def supplyOf {t : TokenID} (o : Option (Row (.tokenFactory t))) : Option (Option ℤ) :=
  Option.map TokenFactoryRow.supply o

/-- The supply of a token that an indexed block created is the created amount with what the
indexed blocks mint and burn. -/
def SupplyExact (net : Network) (t : TokenID) (db : DB) : Prop :=
  ∀ p ∈ net.indexedBlocks db, ∀ a : ℕ, .created a ∈ net.supplyEvents p.2.id t →
    supplyOf (db.get (.tokenFactory t)) =
      some (some (a + net.supplyAdded t (net.indexedBlocks db)))

/-- `tokenCreate` inserts a row: the factory has metadata and a logo, name and symbol are not
taken. -/
def TokenFactory.inserts (env : Env) (t : TokenID) (db : DB) : Bool :=
  match (env.getFactory t).metadata with
  | none => false
  | some metadata => isTokenAvailable env metadata db && (env.getFactory t).svg.isSome

/-! ### What the hooks do to the supply -/

namespace SupplyEvent

/-- What processing an event does to the supply of its token. -/
def changes (env : Env) (t : TokenID) (db : DB) :
    SupplyEvent → List (Option (Option ℤ) → Option (Option ℤ))
  | .created amount => if TokenFactory.inserts env t db then [fun _ => some (some amount)] else []
  | .added amount => [Option.map (Option.map (· + jsNumber amount))]
  | .attributeSet key =>
    -- An upsert without a supply creates a row whose supply is `NULL`.
    if key = "metadata" ∧ (env.getFactory t).metadata.isSome then [fun o => some (o.getD none)]
    else []

/-- What reverting an event does to the supply of its token. -/
def unchanges : SupplyEvent → List (Option (Option ℤ) → Option (Option ℤ))
  | .created _ => []
  | .added amount => [Option.map (Option.map (· + jsNumber (-amount)))]
  | .attributeSet _ => []

end SupplyEvent

section Hooks

variable {net : Network} {env : Env} {header : BlockHeader} {events : List Event} {db : DB}
  {tx : IndexedTx} {t : TokenID} {I : DBSession → Prop}

private def offFactory (t : TokenID) : Conn → Cell → Prop := fun _ c => c ≠ .tokenFactory t

private theorem offFactory_fixes (conn : Conn) (st : Stmt)
    (hst : Respects (offFactory t) conn st) : st.Fixes (.tokenFactory t) := hst _ fun h => h rfl

/-- A statement on the row of one token, if the token is the one looked at. -/
private theorem does_factoryRow {tokenId : TokenID}
    {f : Option TokenFactoryRow → Option TokenFactoryRow}
    {g : Option (Option ℤ) → Option (Option ℤ)}
    (hf : ∀ r, (f r).map TokenFactoryRow.supply = g (r.map TokenFactoryRow.supply)) :
    DoesWhile I (supplyOf (t := t)) (fun l => l = if tokenId = t then [g] else [])
      (Session.exec .dbTrx (.point (.tokenFactory tokenId) f) : Prog Unit) :=
  does_point_at Cell.tokenFactory (fun _ _ => Cell.tokenFactory.inj) (fun t => supplyOf (t := t)) hf

private theorem does_addSupply {tokenId : TokenID} {amount : ℤ} :
    DoesWhile I (supplyOf (t := t))
      (fun l => l = if tokenId = t then [Option.map (Option.map (· + jsNumber amount))] else [])
      (TokenFactory.addSupply tokenId amount) := by
  refine does_factoryRow fun r => ?_
  cases r <;> rfl

private theorem upsertMetadata_offFactory {tokenId : TokenID} {tokenName : String} :
    Confined (Respects (offFactory t)) (TokenFactory.upsertMetadata tokenId tokenName) :=
  Table.confined_upsert (by simp [offFactory])

/-- Names are available in all states of the job or in none. -/
private theorem isTokenAvailable_congr {metadata : FactoryMetadata} {db' : DB}
    (h : SameGuarded db db') : TokenFactory.isTokenAvailable env metadata db' =
      TokenFactory.isTokenAvailable env metadata db := by
  have hrows : existsRow (TokenFactory.takesName metadata) db' =
      existsRow (TokenFactory.takesName metadata) db := by
    refine existsRow_congr (fun c r hr => takesName_table hr) fun c hc => h c ?_
    rcases hc with hc | hc <;> simp [hc, guardedTables]
  rw [TokenFactory.isTokenAvailable, TokenFactory.isTokenAvailable, hrows]

private theorem does_createToken {tokenId : TokenID} {owner : Address} {amount : ℕ} :
    DoesWhile (fun w => SameGuarded db w.committed) (supplyOf (t := t))
      (fun l => l = if tokenId = t then (SupplyEvent.created amount).changes env t db else [])
      (TokenFactory.createToken env tokenId owner amount (env.getFactory tokenId)) := by
  rw [TokenFactory.createToken]
  cases hmetadata : (env.getFactory tokenId).metadata with
  | none =>
    have hchanges : tokenId = t → (SupplyEvent.created amount).changes env t db = [] := by
      rintro rfl
      simp [SupplyEvent.changes, TokenFactory.inserts, hmetadata]
    exact (ite_eq_right_iff.mpr hchanges).symm
  | some metadata =>
    refine doesWhile_query_bind fun w hw => ?_
    rw [show w.view .default = w.committed from rfl, isTokenAvailable_congr hw]
    have hchanges : tokenId = t → (SupplyEvent.created amount).changes env t db =
        if !TokenFactory.isTokenAvailable env metadata db || (env.getFactory tokenId).svg.isNone
          then [] else [fun _ => some (some (amount : ℤ))] := by
      rintro rfl
      rw [SupplyEvent.changes, TokenFactory.inserts, hmetadata]
      by_cases havailable : TokenFactory.isTokenAvailable env metadata db = true <;>
        cases hsvg : (env.getFactory tokenId).svg <;> simp [havailable]
    by_cases hearly : (!TokenFactory.isTokenAvailable env metadata db ||
        (env.getFactory tokenId).svg.isNone) = true
    · rw [if_pos hearly]
      refine Eq.symm (ite_eq_right_iff.mpr fun ht => ?_)
      rw [hchanges ht, if_pos hearly]
    · rw [if_neg hearly]
      refine DoesWhile.bind_confined ?_ (fun _ => upsertMetadata_offFactory) offFactory_fixes
      refine DoesWhile.mono (does_factoryRow (g := fun _ => some (some (amount : ℤ)))
        fun r => rfl) fun l hl => hl.trans ?_
      by_cases ht : tokenId = t
      · rw [if_pos ht, if_pos ht, hchanges ht, if_neg hearly]
      · rw [if_neg ht, if_neg ht]

private theorem does_setAttributes {tokenId : TokenID} {key : String} (hs : tx.isSuccessful = true)
    (hevent : parseSingleEvent events EventData.factorySetAttributes? tx.id = some (tokenId, key)) :
    DoesWhile I (supplyOf (t := t))
      (fun l => l = if tokenId = t then (SupplyEvent.attributeSet key).changes env t db else [])
      (TokenFactory.applyFactorySetAttributes env tx events) := by
  rw [TokenFactory.applyFactorySetAttributes, ifSuccessful, if_pos hs, hevent, Async.ofOption_some]
  -- `svg` throws or does nothing, and of the other keys only `metadata` writes the row.
  change DoesWhile I _ _ (if key = "svg" then _ else _)
  by_cases hsvg : key = "svg"
  · rw [if_pos hsvg]
    have hnone :
        (if tokenId = t then (SupplyEvent.attributeSet key).changes env t db else []) = [] := by
      simp [SupplyEvent.changes, hsvg]
    rw [hnone]
    split
    · exact rfl
    · exact ⟨[], moves_nil, fun _ _ => trivial⟩
  · rw [if_neg hsvg]
    by_cases hkey : key = "metadata"
    · rw [if_pos hkey]
      cases hmetadata : (env.getFactory tokenId).metadata with
      | none =>
        refine Eq.symm (ite_eq_right_iff.mpr ?_)
        rintro rfl
        simp [SupplyEvent.changes, hmetadata]
      | some metadata =>
        refine DoesWhile.bind_confined ?_ (fun _ => upsertMetadata_offFactory) offFactory_fixes
        refine DoesWhile.mono (does_factoryRow (g := fun o => some (o.getD none)) fun r => ?_)
          fun l hl => hl.trans ?_
        · cases r <;> rfl
        · by_cases ht : tokenId = t
          · subst ht
            simp [SupplyEvent.changes, hkey, hmetadata]
          · rw [if_neg ht, if_neg ht]
    · rw [if_neg hkey]
      simp [SupplyEvent.changes, hkey, DoesWhile]

/-- What the event of a transaction means for one token. -/
private theorem ite_supplyEvent {id : BlockID} {tx : Transaction} {tokenId : TokenID}
    {e : SupplyEvent} (h : net.supplyEvent id tx = some (tokenId, e))
    (f : SupplyEvent → List (Option (Option ℤ) → Option (Option ℤ))) :
    (if tokenId = t then f e else []) = (net.supplyEventAt id t tx).toList.flatMap f := by
  by_cases ht : tokenId = t <;> simp [Network.supplyEventAt, h, ht]

private theorem supplyEventAt_none {id : BlockID} {tx : Transaction}
    (h : net.supplyEvent id tx = none) : net.supplyEventAt id t tx = none := by
  rw [Network.supplyEventAt, h, Option.bind_none]

/-- Mints and burns create nothing. -/
private theorem supplyEventAt_ne_created {id : BlockID} {tx : Transaction} {tokenId : TokenID}
    {amount : ℤ} (h : net.supplyEvent id tx = some (tokenId, .added amount)) (a : ℕ) :
    net.supplyEventAt id t tx ≠ some (.created a) := by
  by_cases ht : tokenId = t <;> simp [Network.supplyEventAt, h, ht]

/-- A failed transaction does nothing to a token. -/
private theorem supplyEvent_of_failed {id : BlockID} (hs : tx.isSuccessful ≠ true)
    (hstatus : getTransactionExecutionStatus tx.toTransaction (net.events id) =
      some tx.executionStatus) : net.supplyEvent id tx.toTransaction = none := by
  have hne : tx.executionStatus ≠ .successful := by
    simpa [IndexedTx.isSuccessful] using hs
  simp [Network.supplyEvent, hstatus, hne]

/-- The other commands do not touch factory tokens. -/
private theorem factory_of_tables {cmd : Command} (h : .tokenFactory ∉ cmd.tables)
    (conn : Conn) (c : Cell) (hc : c.table ∈ cmd.tables) : offFactory t conn c := by
  rintro rfl
  exact h hc

/-- **Applying** a transaction does to the supply of a token what its event says. -/
theorem does_applyTransaction_supply {id : BlockID} (tx : IndexedTx)
    (hstatus : getTransactionExecutionStatus tx.toTransaction (net.events id) =
      some tx.executionStatus) :
    DoesWhile (fun w => SameGuarded db w.committed) (supplyOf (t := t))
      (fun l => l = (net.supplyEventAt id t tx.toTransaction).toList.flatMap
        (SupplyEvent.changes env t db))
      (applyTransaction env header (net.events id) tx) := by
  -- Only successful transactions have an effect, and an event that says so.
  by_cases hs : tx.isSuccessful = true
  swap
  · rw [applyTransaction_of_failed hs, supplyEventAt_none (supplyEvent_of_failed hs hstatus)]
    exact rfl
  have hok : getTransactionExecutionStatus tx.toTransaction (net.events id) =
      some .successful := by
    rw [hstatus]
    simpa [IndexedTx.isSuccessful] using hs
  cases hp : tx.params with
  | tokenFactoryCreate =>
    rw [applyTransaction_eq, applyHook, hp]
    dsimp only
    rw [TokenFactory.applyTokenCreate, ifSuccessful, if_pos hs]
    refine does_ofOption_bind fun d hd => ?_
    obtain ⟨tokenId, owner, amount⟩ := d
    have hevent : net.supplyEvent id tx.toTransaction = some (tokenId, .created amount) := by
      rw [Network.supplyEvent, if_pos hok, hp]
      simp [hd]
    rw [← ite_supplyEvent hevent]
    exact does_createToken
  | tokenFactoryMint tokenId distribution =>
    have hevent : net.supplyEvent id tx.toTransaction =
        some (tokenId, .added distribution.sum) := by
      rw [Network.supplyEvent, if_pos hok, hp]
    rw [applyTransaction_eq, applyHook, hp, ← ite_supplyEvent hevent]
    dsimp only
    rw [TokenFactory.applyTokenMint, ifSuccessful, if_pos hs]
    exact does_addSupply
  | tokenFactoryBurn tokenId amount =>
    have hevent : net.supplyEvent id tx.toTransaction = some (tokenId, .added (-amount)) := by
      rw [Network.supplyEvent, if_pos hok, hp]
    rw [applyTransaction_eq, applyHook, hp, ← ite_supplyEvent hevent]
    dsimp only
    rw [TokenFactory.applyTokenBurn, ifSuccessful, if_pos hs]
    exact does_addSupply
  | tokenFactorySetAttributes =>
    rw [applyTransaction_eq, applyHook, hp]
    dsimp only
    cases hd : parseSingleEvent (net.events id) EventData.factorySetAttributes? tx.id with
    | none =>
      rw [TokenFactory.applyFactorySetAttributes, ifSuccessful, if_pos hs, hd]
      exact trivial
    | some d =>
      obtain ⟨tokenId, key⟩ := d
      have hevent : net.supplyEvent id tx.toTransaction = some (tokenId, .attributeSet key) := by
        rw [Network.supplyEvent, if_pos hok, hp]
        simp [hd]
      rw [← ite_supplyEvent hevent]
      exact does_setAttributes hs hd
  | _ =>
    rw [supplyEventAt_none (by simp [Network.supplyEvent, hp])]
    refine Confined.does (applyTransaction_tables fun conn c hc =>
      factory_of_tables ?_ conn c hc.2) offFactory_fixes rfl
    simp [hp, Command.tables]

/-- **Reverting** a transaction takes minted and burned amounts back. -/
theorem does_revertTransaction_supply {id : BlockID}
    (hstatus : getTransactionExecutionStatus tx.toTransaction (net.events id) =
      some tx.executionStatus) :
    Does (supplyOf (t := t))
      (fun l => (∀ a, net.supplyEventAt id t tx.toTransaction ≠ some (.created a)) ∧
        l = (net.supplyEventAt id t tx.toTransaction).toList.flatMap SupplyEvent.unchanges)
      (revertTransaction env header (net.events id) tx) := by
  by_cases hs : tx.isSuccessful = true
  swap
  · rw [revertTransaction_of_failed hs, supplyEventAt_none (supplyEvent_of_failed hs hstatus)]
    exact ⟨by simp, rfl⟩
  have hok : getTransactionExecutionStatus tx.toTransaction (net.events id) =
      some .successful := by
    rw [hstatus]
    simpa [IndexedTx.isSuccessful] using hs
  cases hp : tx.params with
  | tokenFactoryCreate =>
    rw [revertTransaction_eq, revertHook, hp]
    dsimp only
    rw [TokenFactory.revertTokenCreate, ifSuccessful, if_pos hs]
    -- The hook always throws, so nothing is claimed of a run that succeeds.
    exact does_ofOption_bind fun d hd => ⟨[], moves_nil, fun _ _ => trivial⟩
  | tokenFactoryMint tokenId distribution =>
    have hevent : net.supplyEvent id tx.toTransaction =
        some (tokenId, .added distribution.sum) := by
      rw [Network.supplyEvent, if_pos hok, hp]
    rw [revertTransaction_eq, revertHook, hp, ← ite_supplyEvent hevent]
    dsimp only
    rw [TokenFactory.revertTokenMint, ifSuccessful, if_pos hs]
    exact does_addSupply.mono fun l hl => ⟨supplyEventAt_ne_created hevent, hl⟩
  | tokenFactoryBurn tokenId amount =>
    have hevent : net.supplyEvent id tx.toTransaction = some (tokenId, .added (-amount)) := by
      rw [Network.supplyEvent, if_pos hok, hp]
    rw [revertTransaction_eq, revertHook, hp, ← ite_supplyEvent hevent]
    dsimp only
    rw [TokenFactory.revertTokenBurn, ifSuccessful, if_pos hs]
    refine does_addSupply.mono fun l hl => ⟨supplyEventAt_ne_created hevent, hl.trans ?_⟩
    rw [SupplyEvent.unchanges, neg_neg]
  | tokenFactorySetAttributes =>
    rw [revertTransaction_eq, revertHook, hp]
    cases hd : parseSingleEvent (net.events id) EventData.factorySetAttributes? tx.id with
    | none =>
      rw [supplyEventAt_none (by simp [Network.supplyEvent, hp, hd])]
      exact ⟨by simp, rfl⟩
    | some d =>
      have hevent : net.supplyEvent id tx.toTransaction = some (d.1, .attributeSet d.2) := by
        rw [Network.supplyEvent, if_pos hok, hp]
        simp [hd]
      refine ⟨fun a => ?_, ?_⟩
      · by_cases ht : d.1 = t <;> simp [Network.supplyEventAt, hevent, ht]
      · simp [← ite_supplyEvent hevent, SupplyEvent.unchanges]
  | _ =>
    rw [supplyEventAt_none (by simp [Network.supplyEvent, hp])]
    refine Confined.does (revertTransaction_tables fun conn c hc =>
      factory_of_tables ?_ conn c hc.2) offFactory_fixes ⟨by simp, rfl⟩
    simp [hp, Command.tables]

end Hooks

/-! ### Runs -/

/-- What the chain guarantees of the events of a token in a block: it is created once, before
anything else happens to it. -/
structure SupplyLawful (created : Prop) (es : List SupplyEvent) : Prop where
  once : created → ∀ a, .created a ∉ es
  first : ¬ created → es = [] ∨ ∃ a rest, es = .created a :: rest ∧ ∀ b, .created b ∉ rest

/-- The job indexes a block with lawful events of the token, whose amounts a `Number` keeps. If it
creates the token, a row is inserted, and nothing of the block that is about the token overtakes the
insert. -/
def Job.SupplyKept (net : Network) (t : TokenID) (s : Ledger) : Job → Prop
  | .index env order node _ _ _ jobHeight =>
    ∀ b, node.block (heightToIndex s.db jobHeight) = some b →
      SupplyLawful (net.Created t (net.indexedBlocks s.db)) (net.supplyEvents b.header.id t) ∧
      (∀ e ∈ net.supplyEvents b.header.id t, e.Kept) ∧
      ∀ a rest, net.supplyEvents b.header.id t = .created a :: rest →
        TokenFactory.inserts env t s.db = true ∧ (order = [] ∨ rest = [])
  | .delete _ _ _ _ => True

section Runs

variable {net : Network} {env : Env} {last : ℕ} {db db' : DB} {t : TokenID}

/-- What a change adds to a supply. -/
private def gain (g : Option (Option ℤ) → Option (Option ℤ)) : ℤ :=
  ((g (some (some 0))).getD none).getD 0

/-- Changes that each add their gain, in whatever order. -/
private theorem replay_gains {l l' : List (Option (Option ℤ) → Option (Option ℤ))}
    (hperm : l.Perm l') (h : ∀ g ∈ l', ∀ v, g (some (some v)) = some (some (v + gain g))) (v : ℤ) :
    replay l (some (some v)) = some (some (v + (l'.map gain).sum)) := by
  rw [← (hperm.map gain).sum_eq]
  have hl : ∀ g ∈ l, ∀ v, g (some (some v)) = some (some (v + gain g)) := fun g hg =>
    h g (hperm.mem_iff.mp hg)
  clear h hperm
  induction l generalizing v with
  | nil => simp
  | cons g l ih =>
    rw [replay_cons, hl g List.mem_cons_self, ih _ fun g' hg' => hl g' (List.mem_cons_of_mem _ hg')]
    rw [List.map_cons, List.sum_cons, add_assoc]

/-- Events that create nothing add their amounts. -/
private theorem gain_changes {e : SupplyEvent} (hkept : e.Kept) (he : ∀ a, e ≠ .created a) :
    (∀ g ∈ e.changes env t db, ∀ v, g (some (some v)) = some (some (v + gain g))) ∧
      ((e.changes env t db).map gain).sum = e.amount := by
  cases e with
  | created a => exact absurd rfl (he a)
  | added amount =>
    have hamount : jsNumber amount = amount := hkept
    simp [SupplyEvent.changes, SupplyEvent.amount, gain, hamount]
  | attributeSet key =>
    rw [SupplyEvent.changes]
    split <;> simp [SupplyEvent.amount, gain]

private theorem gain_unchanges {e : SupplyEvent} (hkept : e.Kept) :
    (∀ g ∈ e.unchanges, ∀ v, g (some (some v)) = some (some (v + gain g))) ∧
      (e.unchanges.map gain).sum = -e.amount := by
  cases e with
  | added amount =>
    have hamount : jsNumber amount = amount := hkept
    simp [SupplyEvent.unchanges, SupplyEvent.amount, gain, jsNumber_neg, hamount]
  | _ => simp [SupplyEvent.unchanges, SupplyEvent.amount]

/-- The changes of events, one after the other, add up. -/
private theorem sum_gains {f : SupplyEvent → List (Option (Option ℤ) → Option (Option ℤ))}
    {n : SupplyEvent → ℤ} {es : List SupplyEvent}
    (h : ∀ e ∈ es, (∀ g ∈ f e, ∀ v, g (some (some v)) = some (some (v + gain g))) ∧
      ((f e).map gain).sum = n e) :
    (∀ g ∈ es.flatMap f, ∀ v, g (some (some v)) = some (some (v + gain g))) ∧
      ((es.flatMap f).map gain).sum = (es.map n).sum := by
  refine ⟨fun g hg => ?_, ?_⟩
  · obtain ⟨e, he, hg⟩ := List.mem_flatMap.mp hg
    exact (h e he).1 g hg
  · induction es with
    | nil => rfl
    | cons e es ih =>
      rw [List.flatMap_cons, List.map_append, List.sum_append, (h e List.mem_cons_self).2,
        ih fun e' he' => h e' (List.mem_cons_of_mem _ he'), List.map_cons, List.sum_cons]

/-- A block without a creation adds what it mints and burns. -/
private theorem replay_added {l : List (Option (Option ℤ) → Option (Option ℤ))}
    {es : List SupplyEvent} (hperm : l.Perm (es.flatMap (SupplyEvent.changes env t db)))
    (hkept : ∀ e ∈ es, e.Kept) (hes : ∀ a, .created a ∉ es) (v : ℤ) :
    replay l (some (some v)) = some (some (v + (es.map SupplyEvent.amount).sum)) := by
  obtain ⟨hgains, hsum⟩ := sum_gains (f := SupplyEvent.changes env t db) (n := SupplyEvent.amount)
    fun e he => gain_changes (hkept e he) fun a hea => hes a (hea ▸ he)
  rw [replay_gains hperm hgains, hsum]

private theorem factory_processorOnly : ProcessorOnly (.tokenFactory t) :=
  .inl (by simp [Cell.table, processorOnlyTables])

/-- The changes of transactions are those of their events. -/
private theorem flatMap_supplyEvents
    (f : SupplyEvent → List (Option (Option ℤ) → Option (Option ℤ))) (id : BlockID) :
    ((net.block id).transactions.flatMap fun tx =>
      (net.supplyEventAt id t tx).toList.flatMap f) = (net.supplyEvents id t).flatMap f := by
  rw [Network.supplyEvents]
  induction (net.block id).transactions with
  | nil => rfl
  | cons tx txs ih => cases h : net.supplyEventAt id t tx <;> simp [h, ih]

/-- The supply is exact, `Number`s keep all amounts, and nothing was indexed of a token that no
block created. -/
structure SupplyBooked (net : Network) (t : TokenID) (db : DB) : Prop where
  exact : SupplyExact net t db
  kept : ∀ p ∈ net.indexedBlocks db, ∀ e ∈ net.supplyEvents p.2.id t, e.Kept
  unborn : ¬ net.Created t (net.indexedBlocks db) →
    ∀ p ∈ net.indexedBlocks db, net.supplyEvents p.2.id t = []

private theorem supplyAdded_cons (p : ℕ × BlockRow) (stack : List (ℕ × BlockRow)) :
    net.supplyAdded t (p :: stack) =
      ((net.supplyEvents p.2.id t).map SupplyEvent.amount).sum + net.supplyAdded t stack := by
  rw [Network.supplyAdded, List.map_cons, List.sum_cons, Network.supplyAdded]

private theorem supplyAdded_append (stack stack' : List (ℕ × BlockRow)) :
    net.supplyAdded t (stack ++ stack') = net.supplyAdded t stack + net.supplyAdded t stack' := by
  rw [Network.supplyAdded, List.map_append, List.sum_append, Network.supplyAdded,
    Network.supplyAdded]

private theorem supplyAdded_eq (stack : List (ℕ × BlockRow)) : net.supplyAdded t stack =
    ((stack.flatMap fun p => net.supplyEvents p.2.id t).map SupplyEvent.amount).sum := by
  induction stack with
  | nil => rfl
  | cons p stack ih =>
    rw [supplyAdded_cons, ih, List.flatMap_cons, List.map_append, List.sum_append]

private theorem supplyAdded_of_unborn {stack : List (ℕ × BlockRow)}
    (h : ∀ p ∈ stack, net.supplyEvents p.2.id t = []) : net.supplyAdded t stack = 0 := by
  refine List.sum_eq_zero fun x hx => ?_
  obtain ⟨p, hp, rfl⟩ := List.mem_map.mp hx
  rw [h p hp]
  rfl

/-- The block that creates the token inserts its row first. -/
private theorem replay_created {order : List ℕ}
    {l : List (Option (Option ℤ) → Option (Option ℤ))} {a : ℕ} {rest : List SupplyEvent}
    (hperm : l.Perm ((.created a :: rest).flatMap (SupplyEvent.changes env t db)))
    (hserial : order = [] → l = (.created a :: rest).flatMap (SupplyEvent.changes env t db))
    (hinserts : TokenFactory.inserts env t db = true) (horder : order = [] ∨ rest = [])
    (hkept : ∀ e ∈ rest, e.Kept) (hrest : ∀ b, .created b ∉ rest) (o : Option (Option ℤ)) :
    replay l o = some (some (a + (rest.map SupplyEvent.amount).sum)) := by
  have hcreated : (SupplyEvent.created a).changes env t db = [fun _ => some (some (a : ℤ))] := by
    rw [SupplyEvent.changes, if_pos hinserts]
  rw [List.flatMap_cons, hcreated] at hperm hserial
  have hl : l = [fun _ => some (some (a : ℤ))] ++
      rest.flatMap (SupplyEvent.changes env t db) := by
    rcases horder with hnil | hnil
    · exact hserial hnil
    · subst hnil
      simpa using hperm
  rw [hl, replay_append]
  exact replay_added (.refl _) hkept hrest a

/-- **Step**, for a job that indexes a block. -/
private theorem SupplyBooked.indexed {order : List ℕ} {p : ℕ × BlockRow}
    {l : List (Option (Option ℤ) → Option (Option ℤ))} (h : SupplyBooked net t db)
    (hstack : net.indexedBlocks db' = p :: net.indexedBlocks db)
    (hlawful : SupplyLawful (net.Created t (net.indexedBlocks db)) (net.supplyEvents p.2.id t))
    (hkept : ∀ e ∈ net.supplyEvents p.2.id t, e.Kept)
    (hcreate : ∀ a rest, net.supplyEvents p.2.id t = .created a :: rest →
      TokenFactory.inserts env t db = true ∧ (order = [] ∨ rest = []))
    (hperm : l.Perm ((net.supplyEvents p.2.id t).flatMap (SupplyEvent.changes env t db)))
    (hserial : order = [] →
      l = (net.supplyEvents p.2.id t).flatMap (SupplyEvent.changes env t db))
    (hobs : supplyOf (db'.get (.tokenFactory t)) = replay l (supplyOf (db.get (.tokenFactory t)))) :
    SupplyBooked net t db' := by
  have hall : ∀ q ∈ net.indexedBlocks db', ∀ e ∈ net.supplyEvents q.2.id t, e.Kept := by
    rw [hstack]
    exact List.forall_mem_cons.mpr ⟨hkept, h.kept⟩
  by_cases hcreated : net.Created t (net.indexedBlocks db)
  -- Created before: the block only adds. Created here: the row starts with the created amount.
  · have hnone := hlawful.once hcreated
    refine ⟨?_, hall, ?_⟩
    · intro q hq a ha
      rw [hstack] at hq
      rcases List.mem_cons.mp hq with rfl | hq
      · exact absurd ha (hnone a)
      · rw [hobs, h.exact q hq a ha, replay_added hperm hkept hnone, hstack, supplyAdded_cons,
          add_assoc, add_comm (net.supplyAdded t _)]
    · obtain ⟨q, hq, a, ha⟩ := hcreated
      exact fun hnot => absurd ⟨q, hstack ▸ List.mem_cons_of_mem _ hq, a, ha⟩ hnot
  · have hold : ∀ q ∈ net.indexedBlocks db, ∀ a, .created a ∉ net.supplyEvents q.2.id t :=
      fun q hq a ha => hcreated ⟨q, hq, a, ha⟩
    rcases hlawful.first hcreated with hnil | ⟨a, rest, hes, hrest⟩
    · refine ⟨fun q hq a ha => ?_, hall, fun _ q hq => ?_⟩
      · rw [hstack] at hq
        rcases List.mem_cons.mp hq with rfl | hq
        · simp [hnil] at ha
        · exact absurd ha (hold q hq a)
      · rw [hstack] at hq
        rcases List.mem_cons.mp hq with rfl | hq
        · exact hnil
        · exact h.unborn hcreated q hq
    · obtain ⟨hinserts, horder⟩ := hcreate a rest hes
      refine ⟨fun q hq b hb => ?_, hall, fun hnot => absurd ⟨p, ?_, a, ?_⟩ hnot⟩
      · rw [hstack] at hq
        rcases List.mem_cons.mp hq with rfl | hq
        · rw [hes] at hperm hserial hkept hb
          obtain rfl : b = a := by
            rcases List.mem_cons.mp hb with hb | hb
            · exact SupplyEvent.created.inj hb
            · exact absurd hb (hrest b)
          rw [hobs, replay_created hperm hserial hinserts horder
            (List.forall_mem_cons.mp hkept).2 hrest, hstack, supplyAdded_cons,
            supplyAdded_of_unborn (h.unborn hcreated), hes, List.map_cons, List.sum_cons,
            SupplyEvent.amount, zero_add, add_zero]
        · exact absurd hb (hold q hq b)
      · rw [hstack]
        exact List.mem_cons_self
      · rw [hes]
        exact List.mem_cons_self

/-- **Step**, for a job that deletes blocks, none of which created the token. -/
private theorem SupplyBooked.deleted {blocks : List (ℕ × BlockRow)}
    {l : List (Option (Option ℤ) → Option (Option ℤ))} (h : SupplyBooked net t db)
    (hstack : net.indexedBlocks db = blocks ++ net.indexedBlocks db')
    (hnone : ∀ p ∈ blocks, ∀ a, .created a ∉ net.supplyEvents p.2.id t)
    (hperm : l.Perm
      (blocks.flatMap fun p => (net.supplyEvents p.2.id t).flatMap SupplyEvent.unchanges))
    (hobs : supplyOf (db'.get (.tokenFactory t)) = replay l (supplyOf (db.get (.tokenFactory t)))) :
    SupplyBooked net t db' := by
  refine ⟨fun p hp a ha => ?_, fun p hp => h.kept p (hstack ▸ List.mem_append_right _ hp),
    fun hnot p hp => ?_⟩
  · have hmem : p ∈ net.indexedBlocks db := hstack ▸ List.mem_append_right _ hp
    have hunchanges : ∀ e ∈ blocks.flatMap fun p => net.supplyEvents p.2.id t,
        (∀ g ∈ e.unchanges, ∀ v, g (some (some v)) = some (some (v + gain g))) ∧
          (e.unchanges.map gain).sum = -e.amount := by
      intro e he
      obtain ⟨q, hq, he⟩ := List.mem_flatMap.mp he
      exact gain_unchanges (h.kept q (hstack ▸ List.mem_append_left _ hq) e he)
    obtain ⟨hgains, hsum⟩ := sum_gains hunchanges
    have hback : ((blocks.flatMap fun p => net.supplyEvents p.2.id t).map
        fun e => -e.amount).sum = -net.supplyAdded t blocks := by
      rw [supplyAdded_eq, List.sum_neg, List.map_map]
      rfl
    rw [← List.flatMap_assoc] at hperm
    rw [hobs, h.exact p hmem a ha, replay_gains hperm hgains, hsum, hback, hstack,
      supplyAdded_append]
    congr 2
    omega
  · refine h.unborn ?_ p (hstack ▸ List.mem_append_right _ hp)
    rintro ⟨q, hq, a, ha⟩
    rw [hstack] at hq
    rcases List.mem_append.mp hq with hq | hq
    · exact hnone q hq a ha
    · exact hnot ⟨q, hq, a, ha⟩

/-- **Step.** -/
theorem Job.Outcome.supplyBooked {j : Job} {s : Ledger} (ho : j.Outcome net last s.db db')
    (hj : j.SupplyKept net t s) (hs : net.GapFree last s.db) (hrec : Recorded net s.db)
    (h : SupplyBooked net t s.db) : SupplyBooked net t db' := by
  cases ho with
  | @indexed env order node assets _ _ jobHeight block w henv hchosen hheight hblock hrun hnew
      hold =>
    have hne := hs.ne_genesisHeight henv hheight
    obtain ⟨hlawful, hkept, hcreate⟩ := hj block (by rwa [hs.heightToIndex])
    have hdoes : ∀ i, ∀ tx ∈ block.transactions,
        DoesWhile (fun w => SameGuarded s.db w.committed) (supplyOf (t := t))
          (fun l => l = (net.supplyEventAt block.header.id t tx).toList.flatMap
            (SupplyEvent.changes env t s.db))
          (processTransaction env block.header (net.events block.header.id) tx i) :=
      fun i tx _ => processTransaction_does (by simp [Cell.table]) fun status hstatus =>
        does_applyTransaction_supply (indexedTx env i tx status) hstatus
    obtain ⟨l, hperm, hserial, hobs⟩ := indexed_changes factory_processorOnly hne hdoes hrun
    have hchanges : (block.transactions.flatMap fun tx =>
        (net.supplyEventAt block.header.id t tx).toList.flatMap (SupplyEvent.changes env t s.db)) =
          (net.supplyEvents block.header.id t).flatMap (SupplyEvent.changes env t s.db) := by
      rw [← flatMap_supplyEvents, hblock]
    rw [hchanges] at hperm hserial
    exact h.indexed (indexedBlocks_of_indexed hs hnew hold) hlawful hkept hcreate hperm
      hserial hobs
  | @deleted env view _ heights cut w henv hview hcut hmem hrun hget =>
    have hblocks := stored_of_deleted hcut hmem
    have hdoes : ∀ p ∈ getBlocksToDelete heights s.db, RevertDoes net env (supplyOf (t := t))
        (fun p tx l => (∀ a, net.supplyEventAt p.2.id t tx ≠ some (.created a)) ∧
          l = (net.supplyEventAt p.2.id t tx).toList.flatMap SupplyEvent.unchanges) p :=
      fun p _ tx _ _ hstatus => does_revertTransaction_supply hstatus
    obtain ⟨l, hl, -⟩ := deleted_does factory_processorOnly (by simp [Cell.table]) hview hrec
      hblocks hdoes hrun
    have hunchanges : ((mapOrder (getBlocksToDelete heights s.db)).flatMap fun p =>
        (mapOrder (net.block p.2.id).transactions).flatMap fun tx =>
          (net.supplyEventAt p.2.id t tx).toList.flatMap SupplyEvent.unchanges).Perm
        ((getBlocksToDelete heights s.db).flatMap fun p =>
          (net.supplyEvents p.2.id t).flatMap SupplyEvent.unchanges) := by
      simpa only [flatMap_supplyEvents] using mapOrder_flatMap_perm
        (getBlocksToDelete heights s.db) (fun p => (net.block p.2.id).transactions)
        fun p tx => (net.supplyEventAt p.2.id t tx).toList.flatMap SupplyEvent.unchanges
    refine h.deleted (indexedBlocks_of_deleted hcut hmem hget) (fun p hp a ha => ?_) hunchanges ?_
    · -- Reverting a creation throws, so that a job which succeeds has met none.
      obtain ⟨tx, htx, hevent⟩ := List.mem_filterMap.mp ha
      obtain ⟨l', hl'⟩ := hl.exists_of_mem (mem_mapOrder.mpr hp)
      obtain ⟨-, hnone, -⟩ := hl'.exists_of_mem (mem_mapOrder.mpr htx)
      exact hnone a hevent
    · have hdoes' : ∀ p ∈ getBlocksToDelete heights s.db, RevertDoes net env (supplyOf (t := t))
          (fun p tx l => l = (net.supplyEventAt p.2.id t tx).toList.flatMap
            SupplyEvent.unchanges) p :=
        fun p hp tx htx hsender hstatus => (hdoes p hp tx htx hsender hstatus).mono
          fun _ hl => hl.2
      exact deleted_changes factory_processorOnly (by simp [Cell.table]) hview hrec hblocks hdoes'
        hrun
  | idle hsame =>
    have hstack : net.indexedBlocks db' = net.indexedBlocks s.db :=
      hsame.indexedBlocks_eq
    have hrow : db'.get (.tokenFactory t) = s.db.get (.tokenFactory t) :=
      hsame _ (by simp [Cell.table, guardedTables])
    refine ⟨?_, ?_, ?_⟩
    · rw [SupplyExact, hstack, hrow]
      exact h.exact
    · rw [hstack]
      exact h.kept
    · rw [hstack]
      exact h.unborn

/-- **The supply of a created token.** From tables that hold the genesis block alone, in every
state reached by jobs of the network that insert the row of the token before anything else happens
to it, with amounts that `Number`s keep, the supply of the token, if an indexed block created it, is
the created amount with what the indexed blocks mint and burn. -/
theorem supply_exact {s₀ s : Ledger} (h₀ : net.GapFree net.genesisHeight s₀.db)
    (hrun : Run Job.Step (fun s j => j.Answered net ∧ j.Fresh net s ∧ j.SupplyKept net t s) s₀ s) :
    SupplyExact net t s.db := by
  refine (Run.tracked (SupplyBooked net t) h₀ ⟨fun p hp => ?_, fun p hp => ?_, fun _ p hp => ?_⟩
    (fun last s j db' hs htracked _ hkept ho h =>
      ho.supplyBooked hkept hs htracked.recorded h) hrun).exact
  · simp [indexedBlocks_genesis h₀] at hp
  · simp [indexedBlocks_genesis h₀] at hp
  · simp [indexedBlocks_genesis h₀] at hp

end Runs

/-! ### A token with a row, and one without -/

/-- Block `a` creates 100 units of the token `tok`, block `b` mints 7. -/
def factoryNetwork : Network :=
  twoBlockNetwork
    (fun id =>
      if id = "a" then
        [⟨"c", "tokenFactory", "tokenCreate", .tokenFactoryCreate, "alice", 0, 0, 0, 0,
          Command.tokenFactoryCreate_fits⟩]
      else if id = "b" then
        [⟨"m", "tokenFactory", "tokenMint", .tokenFactoryMint "tok" [3, 4], "alice", 1, 0, 0, 0,
          by decide⟩]
      else [])
    fun id =>
      if id = "a" then
        [⟨"0", 0, 1, [txTopic "c"], .commandExecutionResult "tokenFactory" true⟩,
          ⟨"1", 1, 1, [txTopic "c"], .factoryCreated "tok" "alice" 100⟩]
      else if id = "b" then
        [⟨"2", 0, 2, [txTopic "m"], .commandExecutionResult "tokenFactory" true⟩]
      else []

/-- The factory of the token has metadata and a logo. -/
def factoryEnv : Env :=
  { (default : Env) with getFactory := fun _ => ⟨some ⟨"Token", "", 8, "tok", "TOK"⟩, some "svg"⟩ }

/-- The job that indexes the next block, with this factory. -/
def indexWithFactory : Job := factoryNetwork.indexNext.withEnv factoryEnv

section Witness

private theorem transactions_of_ne {id : BlockID} (ha : id ≠ "a") (hb : id ≠ "b") :
    (factoryNetwork.block id).transactions = [] := by
  simp [factoryNetwork, twoBlockNetwork, ha, hb]

private theorem fresh_genesisLedger : factoryNetwork.indexNext.Fresh factoryNetwork genesisLedger :=
  indexNext_fresh gapFree_genesisLedger (by decide) fun id ha hb => by simp [ha, hb]

private theorem answered_indexWithFactory : indexWithFactory.Answered factoryNetwork :=
  indexNext_answered.withEnv ⟨rfl, rfl, rfl⟩

/-- After the first job, block `b` is next. -/
private theorem next_created {b : Block}
    (h : factoryNetwork.blockAt (heightToIndex (indexWithFactory.run genesisLedger).db 1) =
      some b) :
    b = factoryNetwork.block "b" := by
  have hheight : heightToIndex (indexWithFactory.run genesisLedger).db 1 = 2 := by decide +kernel
  rw [hheight] at h
  exact (Option.some_injective _ h).symm

private theorem fresh_created :
    indexWithFactory.Fresh factoryNetwork (indexWithFactory.run genesisLedger) := by
  have hgenesis : factoryNetwork.GapFree 0 genesisLedger.db := gapFree_genesisLedger
  obtain ⟨last, hgap⟩ := (Job.outcome answered_indexWithFactory hgenesis).gapFree hgenesis
  intro b hb
  obtain rfl := next_created hb
  refine ⟨by decide, fun h r hr tx htx tx' htx' => ?_⟩
  obtain rfl := List.mem_singleton.mp htx
  by_cases ha : r.id = "a"
  · rw [ha] at htx'
    obtain rfl := List.mem_singleton.mp htx'
    decide
  by_cases hb : r.id = "b"
  · have hheight := hgap.height_id h r hr
    rw [hb] at hheight
    have hnone : (indexWithFactory.run genesisLedger).db.get (.block 2) = none := by
      decide +kernel
    obtain rfl : 2 = h := hheight
    simp [hnone] at hr
  · simp [transactions_of_ne ha hb] at htx'

private theorem kept_genesisLedger :
    indexWithFactory.SupplyKept factoryNetwork "tok" genesisLedger := by
  intro b hb
  have hblock : b = factoryNetwork.block "a" := blockAt_genesis gapFree_genesisLedger hb
  have hevents : factoryNetwork.supplyEvents b.header.id "tok" = [.created 100] := by
    rw [hblock]
    decide +kernel
  have hgenesis : factoryNetwork.indexedBlocks genesisLedger.db = [] :=
    indexedBlocks_genesis gapFree_genesisLedger
  rw [hevents, hgenesis]
  refine ⟨⟨fun hcreated => ?_, fun _ => .inr ⟨100, [], rfl, by simp⟩⟩, by decide,
    fun a rest heq => ?_⟩
  · obtain ⟨p, hp, -⟩ := hcreated
    simp at hp
  · exact ⟨by decide +kernel, .inl rfl⟩

private theorem kept_created :
    indexWithFactory.SupplyKept factoryNetwork "tok" (indexWithFactory.run genesisLedger) := by
  intro b hb
  obtain rfl := next_created hb
  have hevents : factoryNetwork.supplyEvents (factoryNetwork.block "b").header.id "tok" =
      [.added 7] := by decide +kernel
  have hcreated : factoryNetwork.Created "tok"
      (factoryNetwork.indexedBlocks (indexWithFactory.run genesisLedger).db) := by
    have hstack : factoryNetwork.indexedBlocks (indexWithFactory.run genesisLedger).db =
        [(1, blockRow (factoryNetwork.block "a") (factoryNetwork.events "a"))] := by
      decide +kernel
    have hcreate : .created 100 ∈ factoryNetwork.supplyEvents "a" "tok" := by decide +kernel
    exact ⟨_, hstack ▸ List.mem_singleton_self _, 100, hcreate⟩
  rw [hevents]
  exact ⟨⟨fun _ => by simp, fun hnot => absurd hcreated hnot⟩, by decide, by simp⟩

end Witness

/-- The token is created and indexed, and 7 units of it are minted. -/
theorem supply_exact_minted :
    SupplyExact factoryNetwork "tok"
        (indexWithFactory.run (indexWithFactory.run genesisLedger)).db ∧
      supplyOf ((indexWithFactory.run (indexWithFactory.run genesisLedger)).db.get
        (.tokenFactory "tok")) = some (some 107) := by
  refine ⟨supply_exact gapFree_genesisLedger
    (Run.tail (t := indexWithFactory.run genesisLedger) (Run.tail .refl rfl ?_) rfl ?_),
    by decide +kernel⟩
  · exact ⟨answered_indexWithFactory, fresh_genesisLedger, kept_genesisLedger⟩
  · exact ⟨answered_indexWithFactory, fresh_created, kept_created⟩

/-- The factory has no metadata, and the token that was created has no row. -/
theorem created_without_row :
    ∃ s, Run Job.Step (fun s j => j.Answered factoryNetwork ∧ j.Fresh factoryNetwork s)
        genesisLedger s ∧
      factoryNetwork.Created "tok" (factoryNetwork.indexedBlocks s.db) ∧
      s.db.get (.tokenFactory "tok") = none ∧ ¬ SupplyExact factoryNetwork "tok" s.db := by
  have hrun : Run Job.Step (fun s j => j.Answered factoryNetwork ∧ j.Fresh factoryNetwork s)
      genesisLedger (factoryNetwork.indexNext.run genesisLedger) :=
    Run.tail .refl rfl ⟨indexNext_answered, fresh_genesisLedger⟩
  have hstack : factoryNetwork.indexedBlocks (factoryNetwork.indexNext.run genesisLedger).db =
      [(1, blockRow (factoryNetwork.block "a") (factoryNetwork.events "a"))] := by decide +kernel
  have hevents : .created 100 ∈ factoryNetwork.supplyEvents "a" "tok" := by decide +kernel
  have hnone :
      (factoryNetwork.indexNext.run genesisLedger).db.get (.tokenFactory "tok") = none := by
    decide +kernel
  have hmem : (1, blockRow (factoryNetwork.block "a") (factoryNetwork.events "a")) ∈
      factoryNetwork.indexedBlocks (factoryNetwork.indexNext.run genesisLedger).db := by
    rw [hstack]
    exact List.mem_singleton_self _
  refine ⟨_, hrun, ⟨_, hmem, 100, hevents⟩, hnone, fun h => ?_⟩
  have hsupply := h _ hmem 100 hevents
  rw [hnone] at hsupply
  simp [supplyOf] at hsupply

end SwaptoshiService
