import SwaptoshiService.Jobs.BlockHistory
import SwaptoshiService.Jobs.PositionLiquidity

/-!
# The owners of positions over whole runs

A position is in the table from the `mint` of its token on, and its owner is the one of the last
ownership event of the indexed blocks: the owner it was minted for, the recipient of an NFT
`transfer`, or nobody after a `burn` (`claimedOwner`). The processors write the owner by upsert,
so a transfer or a burn **creates** the row of a token that has none, a burn writes the text
`null`, and the reverting hooks write an owner read off the event or off the sender, in the order of
`mapOrder`, so that the event which decides need not be the first one. The table is right in every
state reached by jobs that keep clear of these (`owners_exact`).
-/

namespace SwaptoshiService

open Session
open Async (mapOrder mem_mapOrder)

/-! ### Ownership events -/

/-- An event in the life of a token. -/
inductive OwnerChange
  | mint (owner : Address)
  | transfer (sender recipient : Address)
  | burn (sender : Address)
  deriving DecidableEq, Repr

namespace OwnerChange

/-- Who owns the token afterwards. -/
def owner : OwnerChange → Option Address
  | mint owner => some owner
  | transfer _ recipient => some recipient
  | burn _ => none

/-- The token is burned. -/
def isBurn : OwnerChange → Bool
  | burn _ => true
  | _ => false

/-- The token is minted. -/
def isMint : OwnerChange → Bool
  | mint _ => true
  | _ => false

/-- Presence and owner of the token after the event: a `mint` creates it, the other events are
about tokens that are there. -/
def claimed (e : OwnerChange) (o : Option (Option Address)) : Option (Option Address) :=
  if e.isMint then some e.owner else o.map fun _ => e.owner

/-- What applying the event leaves in the table. -/
def booked (e : OwnerChange) : Option (Option Address) := some (Table.castString e.owner)

/-- What reverting the event leaves in the table. -/
def unbooked : OwnerChange → Option (Option Address)
  | mint _ => none
  | transfer sender _ => some (some sender)
  | burn sender => some (some sender)

end OwnerChange

namespace Network

/-- The token that a transaction of a block mints, transfers or burns. -/
def ownerChange (net : Network) (id : BlockID) (tx : Transaction) :
    Option (String × OwnerChange) :=
  if getTransactionExecutionStatus tx (net.events id) = some .successful then
    match tx.params with
    | .dexMint _ _ _ =>
      (parseSingleEvent (net.events id) EventData.increaseLiquidity? tx.id).map fun d =>
        (d.tokenId, .mint d.ownerAddress)
    | .nftTransfer =>
      (parseSingleEvent (net.events id) EventData.nftTransfer? tx.id).map
        fun (nftID, sender, recipient) => (nftID, .transfer sender recipient)
    | .dexBurn =>
      (parseSingleEvent (net.events id) EventData.tokenURIDestroyed? tx.id).map fun tokenId =>
        (tokenId, .burn (net.addressFromPublicKey tx.senderPublicKey))
    | _ => none
  else none

/-- What a transaction of a block does to the owner of one token. -/
def ownerChangeAt (net : Network) (id : BlockID) (t : String) (tx : Transaction) :
    Option OwnerChange :=
  (net.ownerChange id tx).bind fun (tokenId, e) => if tokenId = t then some e else none

/-- The ownership events of one token in a block, in block order. -/
def ownerChanges (net : Network) (id : BlockID) (t : String) : List OwnerChange :=
  (net.block id).transactions.filterMap (net.ownerChangeAt id t)

/-- The ownership events of one token in some blocks, in the order in which a job that deletes the
blocks reverts them. -/
def revertedChanges (net : Network) (blocks : List (ℕ × BlockRow)) (t : String) :
    List OwnerChange :=
  (mapOrder blocks).flatMap fun p =>
    (mapOrder (net.block p.2.id).transactions).filterMap (net.ownerChangeAt p.2.id t)

end Network

/-- Presence and owner of a position in the table. -/
def ownerOf {t : String} (o : Option (Row (.position t))) : Option (Option Address) :=
  Option.map PositionRow.owner o

/-- Presence and owner of a token after the blocks of a stack. -/
def claimedOwner (net : Network) (genesis : DB) (t : String) :
    List (ℕ × BlockRow) → Option (Option Address)
  | [] => ownerOf (genesis.get (.position t))
  | p :: below => (net.ownerChanges p.2.id t).foldl (fun o e => e.claimed o)
      (claimedOwner net genesis t below)

/-- The table holds exactly the tokens minted by genesis and the indexed blocks, each with its
owner. -/
def OwnersExact (net : Network) (genesis db : DB) : Prop :=
  ∀ t, ownerOf (db.get (.position t)) = claimedOwner net genesis t (net.indexedBlocks db)

/-! ### What the hooks do to the owner -/

section Hooks

variable {net : Network} {env : Env} {header : BlockHeader} {events : List Event}
  {tx : IndexedTx} {t : String}

/-- The changes that write the owner of `t`, if the token is `t`. -/
private def ifToken (t tokenId : String) (o : Option (Option Address)) :
    List (Option (Option Address) → Option (Option Address)) :=
  if tokenId = t then [fun _ => o] else []

private theorem offPosition_fixes (conn : Conn) (st : Stmt)
    (hst : Respects (offPosition t) conn st) : st.Fixes (.position t) := hst _ fun h => h rfl

private theorem does_offPosition {α β : Type} {p : Prog α} {f : α → Prog β}
    {L : List (Option (Option Address) → Option (Option Address)) → Prop}
    (hp : Confined (Respects (offPosition t)) p) (hf : ∀ a, Does (ownerOf (t := t)) L (f a)) :
    Does (ownerOf (t := t)) L (p >>= f) := hp.does_bind offPosition_fixes hf

/-- A statement on the row of one position that leaves an owner, or no row. -/
private theorem does_setPosition {tokenId : String} {o : Option (Option Address)}
    {f : Option PositionRow → Option PositionRow} (hf : ∀ r, (f r).map PositionRow.owner = o) :
    Does (ownerOf (t := t)) (fun l => l = ifToken t tokenId o)
      (Session.exec .dbTrx (.point (.position tokenId) f) : Prog Unit) :=
  does_point_at Cell.position (fun _ _ => Cell.position.inj) (fun t => ownerOf (t := t)) hf

private theorem does_setOwner {tokenId : String} {owner : Option Address} :
    Does (ownerOf (t := t)) (fun l => l = ifToken t tokenId (some (Table.castString owner)))
      (Dex.setOwner tokenId owner) := does_setPosition fun _ => rfl

/-- Adding to the liquidity keeps the owner. -/
private theorem does_addLiquidity {tokenId : String} {amount : ℤ} :
    Does (ownerOf (t := t)) (fun l => l = []) (Dex.addLiquidity tokenId amount) := by
  by_cases ht : tokenId = t
  · subst ht
    refine does_point_unobserved (fun o => ?_) rfl
    cases o with
    | none => rfl
    | some r => rfl
  · exact (addLiquidity_confined (by simpa [offPosition] using ht)).does offPosition_fixes rfl

private theorem ticks_offPosition {poolAddress : Address} (t' : ℤ) :
    offPosition t .default (.tick poolAddress t') := by
  simp [offPosition]

private theorem sync_offPosition {poolAddress : Address} :
    Confined (Respects (offPosition t)) (Dex.syncPoolData env poolAddress) := by
  refine syncPoolData_confined fun c hc => ?_
  rintro rfl
  simp [Cell.table] at hc

private theorem does_applyMint_owner {tokenA tokenB : TokenID} {fee : ℕ}
    (hs : tx.isSuccessful = true) :
    Does (ownerOf (t := t)) (fun l => ∃ d,
        parseSingleEvent events EventData.increaseLiquidity? tx.id = some d ∧
          l = ifToken t d.tokenId (some (some d.ownerAddress)))
      (Dex.applyMint env header tx tokenA tokenB fee events) := by
  rw [Dex.applyMint, ifSuccessful, if_pos hs]
  refine does_ofOption_bind fun key _ => does_ofOption_bind fun increase hincrease =>
    does_ofOption_bind fun mint _ => does_ofOption_bind fun tokenURI _ => ?_
  refine ((does_setPosition fun _ => rfl).mono fun l hl => ⟨increase, hincrease, hl⟩).bind_confined
    (P := Respects (offPosition t)) (fun _ => ?_) offPosition_fixes
  refine Table.confined_find.bind fun t₀ => Table.confined_find.bind fun t₁ =>
    (addTVL_confined (by simp [offPosition])).bind fun _ =>
    (addTVL_confined (by simp [offPosition])).bind fun _ =>
    (updateTicks_confined ticks_offPosition).bind fun _ => sync_offPosition

private theorem does_revertMint_owner {tokenA tokenB : TokenID} {fee : ℕ}
    (hs : tx.isSuccessful = true) :
    Does (ownerOf (t := t)) (fun l => ∃ d,
        parseSingleEvent events EventData.increaseLiquidity? tx.id = some d ∧
          l = ifToken t d.tokenId none)
      (Dex.revertMint env header tx tokenA tokenB fee events) := by
  rw [Dex.revertMint, ifSuccessful, if_pos hs]
  refine does_ofOption_bind fun increase hincrease => ?_
  refine ((does_setPosition fun _ => rfl).mono fun l hl => ⟨increase, hincrease, hl⟩).bind_confined
    (P := Respects (offPosition t)) (fun _ => ?_) offPosition_fixes
  refine (confined_ofOption _ _).bind fun key => Table.confined_find.bind fun t₀ =>
    Table.confined_find.bind fun t₁ =>
    (removeTVL_confined (by simp [offPosition])).bind fun _ =>
    (removeTVL_confined (by simp [offPosition])).bind fun _ =>
    (confined_ofOption _ _).bind fun mint =>
    (revertTicks_confined ticks_offPosition).bind fun _ => sync_offPosition

private theorem does_applyLiquidity_owner {k : Dex.LiquidityChange} {poolAddress : Address}
    (hs : tx.isSuccessful = true) :
    Does (ownerOf (t := t)) (fun l => l = [])
      (Dex.applyLiquidity k env header tx poolAddress events) := by
  rw [Dex.applyLiquidity, ifSuccessful, if_pos hs]
  refine does_offPosition Table.confined_find fun t₀ =>
    does_offPosition Table.confined_find fun t₁ => does_ofOption_bind fun change _ =>
    does_offPosition (addTVL_confined (by simp [offPosition])) fun _ =>
    does_offPosition (addTVL_confined (by simp [offPosition])) fun _ =>
    does_ofOption_bind fun ticks _ =>
    does_offPosition (updateTicks_confined ticks_offPosition) fun _ =>
    does_addLiquidity.bind_confined (fun _ => sync_offPosition) offPosition_fixes

private theorem does_revertLiquidity_owner {k : Dex.LiquidityChange} {poolAddress : Address}
    (hs : tx.isSuccessful = true) :
    Does (ownerOf (t := t)) (fun l => l = [])
      (Dex.revertLiquidity k env header tx poolAddress events) := by
  rw [Dex.revertLiquidity, ifSuccessful, if_pos hs]
  refine does_offPosition Table.confined_find fun t₀ =>
    does_offPosition Table.confined_find fun t₁ => does_ofOption_bind fun change _ =>
    does_offPosition (removeTVL_confined (by simp [offPosition])) fun _ =>
    does_offPosition (removeTVL_confined (by simp [offPosition])) fun _ =>
    does_ofOption_bind fun ticks _ =>
    does_offPosition (revertTicks_confined ticks_offPosition) fun _ =>
    does_addLiquidity.bind_confined (fun _ => sync_offPosition) offPosition_fixes

/-- The other commands do not touch positions. -/
private theorem position_of_tables {cmd : Command} (h : .position ∉ cmd.tables)
    (conn : Conn) (c : Cell) (hc : c.table ∈ cmd.tables) : offPosition t conn c := by
  rintro rfl
  exact h hc

/-- The change that a transaction makes when it is applied. -/
private def bookedChange (net : Network) (id : BlockID) (t : String) (tx : Transaction) :
    List (Option (Option Address) → Option (Option Address)) :=
  (net.ownerChangeAt id t tx).toList.map fun e _ => e.booked

/-- The change that a transaction makes when it is reverted. -/
private def unbookedChange (net : Network) (id : BlockID) (t : String) (tx : Transaction) :
    List (Option (Option Address) → Option (Option Address)) :=
  (net.ownerChangeAt id t tx).toList.map fun e _ => e.unbooked

private theorem ifToken_eq {id : BlockID} {tx : Transaction} {tokenId : String} {e : OwnerChange}
    (h : net.ownerChange id tx = some (tokenId, e)) (f : OwnerChange → Option (Option Address)) :
    ifToken t tokenId (f e) = (net.ownerChangeAt id t tx).toList.map fun e _ => f e := by
  rw [ifToken]
  by_cases ht : tokenId = t <;> simp [Network.ownerChangeAt, h, ht]

private theorem ownerChangeAt_none {id : BlockID} {tx : Transaction}
    (h : net.ownerChange id tx = none) : net.ownerChangeAt id t tx = none := by
  rw [Network.ownerChangeAt, h, Option.bind_none]

/-- A failed transaction is no ownership event. -/
private theorem ownerChange_of_failed {id : BlockID} (hs : tx.isSuccessful ≠ true)
    (hstatus : getTransactionExecutionStatus tx.toTransaction (net.events id) =
      some tx.executionStatus) : net.ownerChange id tx.toTransaction = none := by
  have hne : tx.executionStatus ≠ .successful := by
    simpa [IndexedTx.isSuccessful] using hs
  simp [Network.ownerChange, hstatus, hne]

/-- **Applying** a transaction writes the owner of its token. -/
theorem does_applyTransaction_owner {id : BlockID} (tx : IndexedTx)
    (hstatus : getTransactionExecutionStatus tx.toTransaction (net.events id) =
      some tx.executionStatus) :
    Does (ownerOf (t := t)) (fun l => l = bookedChange net id t tx.toTransaction)
      (applyTransaction env header (net.events id) tx) := by
  by_cases hs : tx.isSuccessful = true
  swap
  · rw [applyTransaction_of_failed hs, bookedChange,
      ownerChangeAt_none (ownerChange_of_failed hs hstatus)]
    exact rfl
  have hok : getTransactionExecutionStatus tx.toTransaction (net.events id) =
      some .successful := by
    rw [hstatus]
    simpa [IndexedTx.isSuccessful] using hs
  -- commands that are no ownership event
  have hnone : net.ownerChange id tx.toTransaction = none →
      Does (ownerOf (t := t)) (fun l => l = [])
        (applyTransaction env header (net.events id) tx) →
      Does (ownerOf (t := t)) (fun l => l = bookedChange net id t tx.toTransaction)
        (applyTransaction env header (net.events id) tx) := by
    intro hnone h
    rwa [bookedChange, ownerChangeAt_none hnone]
  cases hp : tx.params with
  | dexMint tokenA tokenB fee =>
    rw [applyTransaction_eq, applyHook, hp]
    refine (does_applyMint_owner hs).mono ?_
    rintro l ⟨d, hd, rfl⟩
    have hchange : net.ownerChange id tx.toTransaction =
        some (d.tokenId, .mint d.ownerAddress) := by
      simp [Network.ownerChange, hok, hp, hd]
    exact ifToken_eq hchange OwnerChange.booked
  | nftTransfer =>
    rw [applyTransaction_eq, applyHook, hp]
    simp only [Dex.applyNFTTransfer, ifSuccessful, hs, if_true]
    refine does_ofOption_bind fun d hd => ?_
    obtain ⟨nftID, sender, recipient⟩ := d
    refine does_setOwner.mono ?_
    rintro l rfl
    have hchange : net.ownerChange id tx.toTransaction =
        some (nftID, .transfer sender recipient) := by
      simp [Network.ownerChange, hok, hp, hd]
    exact ifToken_eq hchange OwnerChange.booked
  | dexBurn =>
    rw [applyTransaction_eq, applyHook, hp]
    simp only [Dex.applyBurn, ifSuccessful, hs, if_true]
    refine does_ofOption_bind fun tokenId hd => ?_
    refine does_setOwner.mono ?_
    rintro l rfl
    have hchange : net.ownerChange id tx.toTransaction =
        some (tokenId, .burn (net.addressFromPublicKey tx.senderPublicKey)) := by
      simp [Network.ownerChange, hok, hp, hd]
    exact ifToken_eq hchange OwnerChange.booked
  | dexIncreaseLiquidity poolAddress =>
    refine hnone (by simp [Network.ownerChange, hp]) ?_
    rw [applyTransaction_eq, applyHook, hp]
    exact does_applyLiquidity_owner hs
  | dexDecreaseLiquidity poolAddress =>
    refine hnone (by simp [Network.ownerChange, hp]) ?_
    rw [applyTransaction_eq, applyHook, hp]
    exact does_applyLiquidity_owner hs
  | _ =>
    refine hnone (by simp [Network.ownerChange, hp]) (Confined.does (applyTransaction_tables
      fun conn c hc => position_of_tables ?_ conn c hc.2) offPosition_fixes rfl)
    simp [hp, Command.tables]

/-- **Reverting** a transaction writes the owner that the event names, or deletes the row. -/
theorem does_revertTransaction_owner {id : BlockID} (henv : net.Configures env)
    (hstatus : getTransactionExecutionStatus tx.toTransaction (net.events id) =
      some tx.executionStatus) :
    Does (ownerOf (t := t)) (fun l => l = unbookedChange net id t tx.toTransaction)
      (revertTransaction env header (net.events id) tx) := by
  by_cases hs : tx.isSuccessful = true
  swap
  · rw [revertTransaction_of_failed hs, unbookedChange,
      ownerChangeAt_none (ownerChange_of_failed hs hstatus)]
    exact rfl
  have hok : getTransactionExecutionStatus tx.toTransaction (net.events id) =
      some .successful := by
    rw [hstatus]
    simpa [IndexedTx.isSuccessful] using hs
  -- Without an event the row is not touched.
  have hnone : net.ownerChange id tx.toTransaction = none →
      Does (ownerOf (t := t)) (fun l => l = [])
        (revertTransaction env header (net.events id) tx) →
      Does (ownerOf (t := t)) (fun l => l = unbookedChange net id t tx.toTransaction)
        (revertTransaction env header (net.events id) tx) := by
    intro hnone h
    rwa [unbookedChange, ownerChangeAt_none hnone]
  cases hp : tx.params with
  | dexMint tokenA tokenB fee =>
    rw [revertTransaction_eq, revertHook, hp]
    refine (does_revertMint_owner hs).mono ?_
    rintro l ⟨d, hd, rfl⟩
    have hchange : net.ownerChange id tx.toTransaction =
        some (d.tokenId, .mint d.ownerAddress) := by
      simp [Network.ownerChange, hok, hp, hd]
    exact ifToken_eq hchange OwnerChange.unbooked
  | nftTransfer =>
    rw [revertTransaction_eq, revertHook, hp]
    simp only [Dex.revertNFTTransfer, ifSuccessful, hs, if_true]
    refine does_ofOption_bind fun d hd => ?_
    obtain ⟨nftID, sender, recipient⟩ := d
    refine does_setOwner.mono ?_
    rintro l rfl
    have hchange : net.ownerChange id tx.toTransaction =
        some (nftID, .transfer sender recipient) := by
      simp [Network.ownerChange, hok, hp, hd]
    exact ifToken_eq hchange OwnerChange.unbooked
  | dexBurn =>
    rw [revertTransaction_eq, revertHook, hp]
    simp only [Dex.revertBurn, ifSuccessful, hs, if_true, henv.addressFromPublicKey]
    refine does_ofOption_bind fun tokenId hd => ?_
    refine does_setOwner.mono ?_
    rintro l rfl
    have hchange : net.ownerChange id tx.toTransaction =
        some (tokenId, .burn (net.addressFromPublicKey tx.senderPublicKey)) := by
      simp [Network.ownerChange, hok, hp, hd]
    exact ifToken_eq hchange OwnerChange.unbooked
  | dexIncreaseLiquidity poolAddress =>
    refine hnone (by simp [Network.ownerChange, hp]) ?_
    rw [revertTransaction_eq, revertHook, hp]
    exact does_revertLiquidity_owner hs
  | dexDecreaseLiquidity poolAddress =>
    refine hnone (by simp [Network.ownerChange, hp]) ?_
    rw [revertTransaction_eq, revertHook, hp]
    exact does_revertLiquidity_owner hs
  | _ =>
    refine hnone (by simp [Network.ownerChange, hp]) (Confined.does (revertTransaction_tables
      fun conn c hc => position_of_tables ?_ conn c hc.2) offPosition_fixes rfl)
    simp [hp, Command.tables]

end Hooks

/-! ### Runs -/

/-- The ownership events of a token in a block that is indexed: nobody burns it, it is there or
minted first, and the transactions are processed in block order or all leave the same owner. -/
structure OwnersOrdered (order : List ℕ) (known : Prop) (es : List OwnerChange) : Prop where
  unburned : ∀ e ∈ es, e.isBurn = false
  known : ∀ e, es.head? = some e → known ∨ e.isMint = true
  ordered : order = [] ∨ ∀ e ∈ es, ∀ e' ∈ es, e.owner = e'.owner

/-- The job keeps clear of what the processors get wrong. Of the ownership events of a token in the
deleted blocks, the one that is reverted last is the `mint` of a token that is not there below these
blocks, or the transfer by who owns the token there. -/
def Job.OwnersKept (net : Network) (genesis : DB) (s : Ledger) : Job → Prop
  | .index _ order node _ _ _ jobHeight =>
    ∀ b, node.block (heightToIndex s.db jobHeight) = some b → ∀ t,
      OwnersOrdered order (s.db.get (.position t)).isSome (net.ownerChanges b.header.id t)
  | .delete _ _ _ heights => ∀ below,
      net.indexedBlocks s.db = getBlocksToDelete heights s.db ++ below → ∀ t e,
        (net.revertedChanges (getBlocksToDelete heights s.db) t).getLast? = some e →
          e.unbooked = claimedOwner net genesis t below

section Runs

variable {net : Network} {last : ℕ} {genesis db db' : DB} {t : String}

/-- Where the last write decides. -/
private theorem replay_owners (f : OwnerChange → Option (Option Address)) (es : List OwnerChange)
    (o : Option (Option Address)) :
    replay (es.map fun e _ => f e) o = (es.getLast?.map f).getD o := by
  induction es using List.reverseRecOn with
  | nil => rfl
  | append_singleton es e _ => simp [replay_append]

private theorem replay_same {v : Option (Option Address)}
    {l : List (Option (Option Address) → Option (Option Address))} (hne : l ≠ [])
    (h : ∀ g ∈ l, g = fun _ => v) (o : Option (Option Address)) : replay l o = v := by
  obtain ⟨l', g, rfl⟩ := (List.eq_nil_or_concat l).resolve_left hne
  rw [List.concat_eq_append, replay_append, h g (by simp)]
  rfl

/-- Events of a token that is there, or that is minted first, leave the owner of the last one. -/
private theorem foldl_claimed {es : List OwnerChange} {o : Option (Option Address)}
    (h : ∀ e, es.head? = some e → o.isSome ∨ e.isMint = true) {e : OwnerChange}
    (hlast : es.getLast? = some e) : es.foldl (fun o e => e.claimed o) o = some e.owner := by
  induction es generalizing o with
  | nil => simp at hlast
  | cons a es ih =>
    have hfirst : a.claimed o = some a.owner := by
      rw [OwnerChange.claimed]
      split
      · rfl
      · rename_i hmint
        obtain ⟨x, rfl⟩ := Option.isSome_iff_exists.mp ((h a rfl).resolve_right hmint)
        rfl
    rw [List.foldl_cons, hfirst]
    cases es with
    | nil =>
      obtain rfl : a = e := by simpa using hlast
      rfl
    | cons b es =>
      refine ih (fun _ _ => .inl rfl) ?_
      rwa [List.getLast?_cons_cons] at hlast

private theorem booked_of_unburned {e : OwnerChange} (h : e.isBurn = false) :
    e.booked = some e.owner := by
  cases e with
  | burn sender => simp [OwnerChange.isBurn] at h
  | _ => rfl

private theorem flatMap_changes (f : OwnerChange → Option (Option Address)) (id : BlockID)
    (txs : List Transaction) :
    (txs.flatMap fun tx =>
        (net.ownerChangeAt id t tx).toList.map fun e (_ : Option (Option Address)) => f e) =
      (txs.filterMap (net.ownerChangeAt id t)).map fun e _ => f e := by
  induction txs with
  | nil => rfl
  | cons tx txs ih => cases h : net.ownerChangeAt id t tx <;> simp [h, ih]

private theorem position_processorOnly : ProcessorOnly (.position t) :=
  .inl (by simp [Cell.table, processorOnlyTables])

/-- Whatever the order of the writes, the block leaves the claimed owner. -/
private theorem OwnersOrdered.replay {order : List ℕ} {es : List OwnerChange}
    {o : Option (Option Address)} (h : OwnersOrdered order o.isSome es)
    {l : List (Option (Option Address) → Option (Option Address))}
    (hperm : l.Perm (es.map fun e _ => e.booked))
    (hserial : order = [] → l = es.map fun e _ => e.booked) :
    SwaptoshiService.replay l o = es.foldl (fun o e => e.claimed o) o := by
  cases hlast : es.getLast? with
  | none =>
    obtain rfl : es = [] := by simpa using hlast
    obtain rfl : l = [] := by simpa using hperm
    rfl
  | some e =>
    rw [foldl_claimed h.known hlast]
    have hmem : e ∈ es := List.mem_of_getLast? hlast
    rcases h.ordered with hnil | hsame
    · rw [hserial hnil, replay_owners, hlast, Option.map_some, Option.getD_some,
        booked_of_unburned (h.unburned e hmem)]
    · refine replay_same (fun hl => ?_) (fun g hg => ?_) o
      · rw [hl, List.nil_perm, List.map_eq_nil_iff] at hperm
        simp [hperm] at hmem
      · obtain ⟨e', he', rfl⟩ := List.mem_map.mp (hperm.mem_iff.mp hg)
        rw [booked_of_unburned (h.unburned e' he'), hsame e' he' e hmem]

/-- Blocks without ownership events of a token leave its owner. -/
private theorem claimedOwner_of_unchanged {blocks rest : List (ℕ × BlockRow)}
    (h : net.revertedChanges blocks t = []) :
    claimedOwner net genesis t (blocks ++ rest) = claimedOwner net genesis t rest := by
  have hnone : ∀ p ∈ blocks, net.ownerChanges p.2.id t = [] := by
    intro p hp
    have hp' := List.flatMap_eq_nil_iff.mp h p (mem_mapOrder.mpr hp)
    rw [List.filterMap_eq_nil_iff] at hp'
    exact List.filterMap_eq_nil_iff.mpr fun tx htx => hp' tx (mem_mapOrder.mpr htx)
  clear h
  induction blocks with
  | nil => rfl
  | cons p blocks ih =>
    rw [List.cons_append, claimedOwner, hnone p List.mem_cons_self, List.foldl_nil]
    exact ih fun q hq => hnone q (List.mem_cons_of_mem _ hq)

/-- If the event that is reverted last leads back to the owner below the deleted blocks, reverting
all of them does. -/
private theorem replay_undone {blocks rest : List (ℕ × BlockRow)}
    (h : ∀ e, (net.revertedChanges blocks t).getLast? = some e →
      e.unbooked = claimedOwner net genesis t rest) :
    replay ((net.revertedChanges blocks t).map fun e _ => e.unbooked)
      (claimedOwner net genesis t (blocks ++ rest)) = claimedOwner net genesis t rest := by
  rw [replay_owners]
  cases hlast : (net.revertedChanges blocks t).getLast? with
  | none =>
    rw [Option.map_none, Option.getD_none]
    exact claimedOwner_of_unchanged (List.getLast?_eq_none_iff.mp hlast)
  | some e => rw [Option.map_some, Option.getD_some, h e hlast]

/-- **Step.** -/
theorem Job.Outcome.ownersExact {j : Job} {s : Ledger} (ho : j.Outcome net last s.db db')
    (hj : j.OwnersKept net genesis s) (hs : net.GapFree last s.db) (hrec : Recorded net s.db)
    (h : OwnersExact net genesis s.db) : OwnersExact net genesis db' := by
  intro t
  cases ho with
  | @indexed env order node assets _ _ jobHeight block w henv hchosen hheight hblock hrun hnew
      hold =>
    have hne := hs.ne_genesisHeight henv hheight
    have hordered := hj block (by rwa [hs.heightToIndex]) t
    have hdoes : ∀ i, ∀ tx ∈ block.transactions,
        DoesWhile (fun w => SameGuarded s.db w.committed) (ownerOf (t := t))
          (fun l => l = bookedChange net block.header.id t tx)
          (processTransaction env block.header (net.events block.header.id) tx i) :=
      fun i tx _ => processTransaction_does (by simp [Cell.table]) fun status hstatus =>
        (does_applyTransaction_owner (indexedTx env i tx status) hstatus).weaken
          fun _ _ => trivial
    obtain ⟨l, hperm, hserial, hobs⟩ := indexed_changes position_processorOnly hne hdoes hrun
    have hchanges : (block.transactions.flatMap fun tx =>
        bookedChange net block.header.id t tx) =
          (net.ownerChanges block.header.id t).map fun e _ => e.booked := by
      rw [Network.ownerChanges, hblock]
      exact flatMap_changes OwnerChange.booked _ _
    have hsome : (ownerOf (s.db.get (.position t))).isSome = (s.db.get (.position t)).isSome :=
      Option.isSome_map
    rw [hchanges] at hperm hserial
    rw [← hsome] at hordered
    rw [indexedBlocks_of_indexed hs hnew hold, hobs, hordered.replay hperm hserial, h t]
    rfl
  | @deleted env view _ heights cut w henv hview hcut hmem hrun hget =>
    have hstack := indexedBlocks_of_deleted hcut hmem hget
    have hblocks := stored_of_deleted hcut hmem
    have hdoes : ∀ p ∈ getBlocksToDelete heights s.db, RevertDoes net env (ownerOf (t := t))
        (fun p tx l => l = unbookedChange net p.2.id t tx) p := fun p _ tx _ _ hstatus =>
      does_revertTransaction_owner henv hstatus
    have hobs := deleted_changes position_processorOnly (by simp [Cell.table]) hview hrec hblocks
      hdoes hrun
    have hchanges : ((mapOrder (getBlocksToDelete heights s.db)).flatMap fun p =>
        (mapOrder (net.block p.2.id).transactions).flatMap (unbookedChange net p.2.id t)) =
          (net.revertedChanges (getBlocksToDelete heights s.db) t).map fun e _ => e.unbooked := by
      rw [Network.revertedChanges, List.map_flatMap]
      exact List.flatMap_congr fun p _ => flatMap_changes OwnerChange.unbooked _ _
    -- The event that is reverted last decides.
    rw [hobs, hchanges, h t, hstack]
    exact replay_undone fun e he => hj _ hstack t e he
  | idle hsame =>
    rw [hsame _ (by simp [Cell.table, guardedTables]), h t,
      hsame.indexedBlocks_eq]

/-- **Positions and their owners.** From tables that hold the genesis block alone, in every state
reached by jobs of the network that keep clear of what the processors get wrong, the table holds
exactly the tokens minted by genesis and the indexed blocks, each with the owner that its last
ownership event leaves. -/
theorem owners_exact {s₀ s : Ledger} (h₀ : net.GapFree net.genesisHeight s₀.db)
    (hrun : Run Job.Step (fun s j => j.Answered net ∧ j.Fresh net s ∧
      j.OwnersKept net s₀.db s) s₀ s) : OwnersExact net s₀.db s.db := by
  refine Run.tracked (OwnersExact net s₀.db) h₀ (fun t => ?_)
    (fun last s j db' hs htracked _ hkept ho h => ho.ownersExact hkept hs htracked.recorded h) hrun
  rw [indexedBlocks_genesis h₀]
  rfl

end Runs

/-! ### A transfer, and a burn -/

/-- Block `a` has one successful transaction about the token `nft`, sent by `alice`. -/
def ownerNetwork (module command : String) (params : Command) (data : EventData)
    (hfits : params.FitsName module command := by decide) : Network :=
  twoBlockNetwork (fun id => if id = "a" then
      [⟨"t", module, command, params, "alice", 0, 0, 0, 0, hfits⟩] else [])
    fun id => if id = "a" then
      [⟨"0", 0, 1, [txTopic "t"], .commandExecutionResult module true⟩,
        ⟨"1", 1, 1, [txTopic "t"], data⟩] else []

/-- The token is transferred to `bob`. -/
def transferNetwork : Network :=
  ownerNetwork "nft" "transfer" .nftTransfer (.nftTransfer "nft" "alice" "bob")

/-- The token is burned. -/
def burnNetwork : Network := ownerNetwork "dex" "burn" .dexBurn (.tokenURIDestroyed "nft")

/-- The tables after genesis, with one position of `alice`. -/
def positionLedger : Ledger :=
  ⟨(Table.upsertRow (.position "nft") fun r => { r with owner := some "alice" } : Stmt).exec
    genesisLedger.db, fun _ => none⟩

section Witness

variable {module command : String} {params : Command} {data : EventData}
  {hfits : params.FitsName module command}

private theorem gapFree_positionLedger :
    (ownerNetwork module command params data hfits).GapFree 0 positionLedger.db :=
  gapFree_withRows fun _ => Table.upsertRow_fixes (by simp)

private theorem fresh_positionLedger :
    (ownerNetwork module command params data hfits).indexNext.Fresh
      (ownerNetwork module command params data hfits) positionLedger :=
  indexNext_fresh gapFree_positionLedger (by simp) fun id ha _ => if_neg ha

end Witness

/-- The ownership events of the block with the transfer. -/
private theorem ownerChanges_transfer (t : String) : transferNetwork.ownerChanges "a" t =
    if t = "nft" then [.transfer "alice" "bob"] else [] := by
  have hchange : transferNetwork.ownerChange "a"
      ⟨"t", "nft", "transfer", .nftTransfer, "alice", 0, 0, 0, 0, by decide⟩ =
      some ("nft", .transfer "alice" "bob") := by decide +kernel
  by_cases ht : t = "nft"
  · subst ht
    decide +kernel
  · have hnone : transferNetwork.ownerChangeAt "a" t
        ⟨"t", "nft", "transfer", .nftTransfer, "alice", 0, 0, 0, 0, by decide⟩ = none := by
      simp [Network.ownerChangeAt, hchange, Ne.symm ht]
    have htxs : (transferNetwork.block "a").transactions =
        [⟨"t", "nft", "transfer", .nftTransfer, "alice", 0, 0, 0, 0, by decide⟩] := rfl
    simp [Network.ownerChanges, htxs, hnone, ht]

/-- The block with the transfer is indexed and deleted again. -/
theorem owners_exact_transfer :
    OwnersExact transferNetwork positionLedger.db
      ((transferNetwork.deleteFrom 1).run (transferNetwork.indexNext.run positionLedger)).db := by
  have hstack : transferNetwork.indexedBlocks (transferNetwork.indexNext.run positionLedger).db =
      [(1, blockRow (transferNetwork.block "a") (transferNetwork.events "a"))] := by decide +kernel
  have hindex : transferNetwork.indexNext.OwnersKept transferNetwork positionLedger.db
      positionLedger := by
    simp only [Network.indexNext, Job.OwnersKept]
    intro b hb t
    obtain rfl := blockAt_genesis gapFree_positionLedger hb
    have hchanges : transferNetwork.ownerChanges (transferNetwork.block "a").header.id t =
        if t = "nft" then [.transfer "alice" "bob"] else [] := ownerChanges_transfer t
    change OwnersOrdered [] _
      (transferNetwork.ownerChanges (transferNetwork.block "a").header.id t)
    rw [hchanges]
    by_cases ht : t = "nft"
    · subst ht
      refine ⟨fun e he => ?_, fun _ _ => .inl rfl, .inl rfl⟩
      obtain rfl : e = .transfer "alice" "bob" := by simpa using he
      rfl
    · rw [if_neg ht]
      exact ⟨by simp, by simp, .inl rfl⟩
  have hdelete : (transferNetwork.deleteFrom 1).OwnersKept transferNetwork positionLedger.db
      (transferNetwork.indexNext.run positionLedger) := by
    simp only [Network.deleteFrom, Job.OwnersKept, hstack]
    intro below hbelow t e he
    have hblocks : getBlocksToDelete [1] (transferNetwork.indexNext.run positionLedger).db =
        [(1, blockRow (transferNetwork.block "a") (transferNetwork.events "a"))] := by
      decide +kernel
    obtain rfl : below = [] := by simpa [hblocks] using hbelow
    have hchanges : transferNetwork.revertedChanges
        [(1, blockRow (transferNetwork.block "a") (transferNetwork.events "a"))] t =
          if t = "nft" then [.transfer "alice" "bob"] else [] := by
      rw [← ownerChanges_transfer t]
      exact List.append_nil _
    rw [hblocks, hchanges] at he
    by_cases ht : t = "nft"
    · subst ht
      obtain rfl : OwnerChange.transfer "alice" "bob" = e := by simpa using he
      rfl
    · simp [ht] at he
  refine owners_exact gapFree_positionLedger
    (Run.tail (t := transferNetwork.indexNext.run positionLedger) (Run.tail .refl rfl ?_) rfl ?_)
  · exact ⟨indexNext_answered, fresh_positionLedger, hindex⟩
  · exact ⟨deleteFrom_answered (by decide), trivial, hdelete⟩

/-- After the burn the owner is the text `null`. -/
theorem burned_owner_is_text :
    ∃ s, Run Job.Step (fun s j => j.Answered burnNetwork ∧ j.Fresh burnNetwork s)
        positionLedger s ∧
      claimedOwner burnNetwork positionLedger.db "nft" (burnNetwork.indexedBlocks s.db) =
        some none ∧
      ownerOf (s.db.get (.position "nft")) = some (some "null") ∧
      ¬ OwnersExact burnNetwork positionLedger.db s.db := by
  have hclaimed : claimedOwner burnNetwork positionLedger.db "nft"
      (burnNetwork.indexedBlocks (burnNetwork.indexNext.run positionLedger).db) = some none := by
    decide +kernel
  have hrow : ownerOf ((burnNetwork.indexNext.run positionLedger).db.get (.position "nft")) =
      some (some "null") := by decide +kernel
  have hwrong : ¬ OwnersExact burnNetwork positionLedger.db
      (burnNetwork.indexNext.run positionLedger).db := by
    intro h
    have hnft := h "nft"
    rw [hclaimed, hrow] at hnft
    simp at hnft
  exact ⟨_, Run.tail .refl rfl ⟨indexNext_answered, fresh_positionLedger⟩, hclaimed, hrow, hwrong⟩

end SwaptoshiService
