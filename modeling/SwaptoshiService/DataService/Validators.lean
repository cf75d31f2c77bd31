import Mathlib.Algebra.Group.Nat.Even
import Mathlib.Data.List.InsertIdx
import Mathlib.Data.List.Lex
import Mathlib.Data.List.Nodup
import SwaptoshiService.Indexer.Chain
import SwaptoshiService.Lib.Run

/-!
# The validator list

`validatorList` (`blockchain-indexer/shared/dataService/pos/validators.js`) is kept up to date by
one listener for new and for deleted blocks. It collects the addresses that the block's PoS
transactions name, asks the node for them, and then decides **from list membership alone** what to
do with each validator of the answer: on a new block it is appended or replaced, on a deleted block
it is removed if it is in the list, whatever the transaction was, and appended otherwise.

`validator_list_coherent`: new blocks keep the list coherent with the node; a deleted block does so
if and only if it undoes no registration and names every registered validator an even number of
times.
-/

namespace SwaptoshiService

/-- The PoS transactions, with the addresses that the listener reads off them. The sender stands for
`getKlayr32AddressFromPublicKey(tx.senderPublicKey)`, the generator for that of the decoded
`header1`. -/
inductive PosTransaction
  | registerValidator (sender : Address)
  | changeCommission (sender : Address)
  | stake (validatorAddresses : List Address)
  | reportMisbehavior (generatorAddress : Address)
  | other
  deriving DecidableEq, Repr

/-- `VALIDATOR_STATUS`. -/
inductive ValidatorStatus
  | active
  | standby
  | banned
  | punished
  | ineligible
  deriving DecidableEq, Repr

/-- An entry of the list. The node's answers have no status and no rank. -/
structure Validator where
  address : Address
  validatorWeight : ℕ
  generatedBlocks : Option ℤ
  rewards : Option ℤ
  status : Option ValidatorStatus
  rank : Option ℕ
  deriving DecidableEq, Repr

/-- What the node knows of the validators. -/
structure PosNode where
  validator : Address → Option Validator
  address_eq : ∀ {address v}, validator address = some v → v.address = address

namespace PosNode

def Registered (node : PosNode) (address : Address) : Prop := node.validator address ≠ none

/-- One answer for each asked address that is registered. -/
def getPosValidators (node : PosNode) (addresses : List Address) : List Validator :=
  addresses.filterMap node.validator

end PosNode

/-- The parts of a block that the listener reads. -/
structure PosBlock where
  generatorAddress : Address
  reward : Option ℤ
  transactions : List PosTransaction
  deriving DecidableEq, Repr

inductive BlockEventType
  | newBlock
  | deleteBlock
  deriving DecidableEq, Repr

/-- The addresses that a transaction adds to `updatedValidatorAddresses`. -/
def PosTransaction.updatedAddresses : PosTransaction → List Address
  | .registerValidator sender => [sender]
  | .changeCommission sender => [sender]
  | .stake validatorAddresses => validatorAddresses
  | .reportMisbehavior generatorAddress => [generatorAddress]
  | .other => []

def PosBlock.updatedValidatorAddresses (block : PosBlock) : List Address :=
  block.transactions.flatMap PosTransaction.updatedAddresses

def PosBlock.includesMisbehaviorTx (block : PosBlock) : Bool :=
  block.transactions.any fun
    | .reportMisbehavior _ => true
    | _ => false

/-! ### The listener -/

section Listener

variable (getHexAddress : Address → List ℕ)

/-- `Buffer.compare`. -/
def bufferCompare (x y : List ℕ) : ℤ :=
  if x < y then -1 else if y < x then 1 else 0

def validatorComparator (a b : Validator) : ℤ :=
  let diff := (b.validatorWeight : ℤ) - a.validatorWeight
  if diff ≠ 0 then diff else bufferCompare (getHexAddress b.address) (getHexAddress a.address)

def computeValidatorRank (validatorList : List Validator) : List Validator :=
  (validatorList.mergeSort fun a b => decide (validatorComparator getHexAddress a b ≤ 0)).mapIdx
    fun index validator => { validator with rank := some (index + 1) }

/-- What the listener does with one validator of the answer. -/
def updateEntry (eventType : BlockEventType) (validatorList : List Validator)
    (validator : Validator) : List Validator :=
  match validatorList.findIdx? (·.address == validator.address), eventType with
  | some validatorIndex, .deleteBlock => validatorList.eraseIdx validatorIndex
  | none, _ => validatorList ++ [validator]
  | some validatorIndex, .newBlock =>
    validatorList.modify validatorIndex fun acc => { validator with status := acc.status }

/-- The counters of the block's generator. Without a reward the sum throws, after the first one has
been changed. -/
def updateGenerator (eventType : BlockEventType) (block : PosBlock) (validator : Validator) :
    Validator :=
  let sign : ℤ := if eventType = .newBlock then 1 else -1
  match validator.generatedBlocks, validator.rewards with
  | some generatedBlocks, some rewards =>
    if generatedBlocks = 0 then validator
    else
      { validator with
        generatedBlocks := some (generatedBlocks + sign)
        rewards := some (match block.reward with
          | some reward => rewards + sign * reward
          | none => rewards) }
  | _, _ => validator

/-- `updateValidatorCacheListener(eventType, block)`; `status` stands for what
`computeValidatorStatus` finds. -/
def updateValidatorCache (status : Validator → ValidatorStatus) (eventType : BlockEventType)
    (block : PosBlock) (node : PosNode) (validatorList : List Validator) : List Validator :=
  let updated :=
    if block.updatedValidatorAddresses = [] then validatorList
    else
      let ranked := computeValidatorRank getHexAddress
        ((node.getPosValidators block.updatedValidatorAddresses).foldl (updateEntry eventType)
          validatorList)
      if block.includesMisbehaviorTx then
        ranked.map fun validator => { validator with status := some (status validator) }
      else ranked
  updated.modify (updated.findIdx (·.address == block.generatorAddress))
    (updateGenerator eventType block)

end Listener

/-! ### Events -/

/-- A node that has executed the block: a validator stays registered, and a new one comes with a
registration. The data of the validators may change in any way. -/
structure PosNode.Executes (block : PosBlock) (node node' : PosNode) : Prop where
  kept : ∀ address, node.Registered address → node'.Registered address
  new : ∀ address, node'.Registered address →
    node.Registered address ∨ .registerValidator address ∈ block.transactions

/-- The node and the list. -/
structure ValidatorCache where
  node : PosNode
  validatorList : List Validator

/-- An event, with what the node knows when it is asked. -/
structure BlockEvent where
  eventType : BlockEventType
  block : PosBlock
  node : PosNode

/-- A block is executed or undone by the node, and the listener runs. -/
inductive ValidatorStep (getHexAddress : Address → List ℕ) :
    ValidatorCache → BlockEvent → ValidatorCache → Prop
  | newBlock {s : ValidatorCache} {block : PosBlock} {node : PosNode}
      (status : Validator → ValidatorStatus) (h : s.node.Executes block node) :
      ValidatorStep getHexAddress s ⟨.newBlock, block, node⟩
        ⟨node, updateValidatorCache getHexAddress status .newBlock block node s.validatorList⟩
  | deleteBlock {s : ValidatorCache} {block : PosBlock} {node : PosNode}
      (status : Validator → ValidatorStatus) (h : node.Executes block s.node) :
      ValidatorStep getHexAddress s ⟨.deleteBlock, block, node⟩
        ⟨node, updateValidatorCache getHexAddress status .deleteBlock block node s.validatorList⟩

/-! ### Addresses -/

/-- A changed entry that keeps what is looked at. -/
private theorem map_modify_eq {α β : Type} {l : List α} {i : ℕ} {f : α → α} {g : α → β}
    (h : ∀ a, l[i]? = some a → g (f a) = g a) : (l.modify i f).map g = l.map g := by
  apply List.ext_getElem?
  intro j
  rw [List.getElem?_map, List.getElem?_map, List.getElem?_modify]
  rcases hj : l[j]? with _ | a
  · rfl
  · by_cases hij : i = j
    · subst hij
      simp [h a hj]
    · simp [hij]

private theorem findIdx?_address (validatorList : List Validator) (address : Address) :
    validatorList.findIdx? (·.address == address) =
      (validatorList.map Validator.address).idxOf? address := by
  rw [List.idxOf?, List.findIdx?_map]
  rfl

/-- A new block adds the address if it is missing. -/
theorem addresses_updateEntry_newBlock (validatorList : List Validator) (validator : Validator) :
    (updateEntry .newBlock validatorList validator).map Validator.address =
      if validator.address ∈ validatorList.map Validator.address then
        validatorList.map Validator.address
      else validatorList.map Validator.address ++ [validator.address] := by
  rcases hidx : (validatorList.map Validator.address).idxOf? validator.address with _ | i
  · simp only [updateEntry, findIdx?_address, hidx]
    rw [if_neg (List.idxOf?_eq_none_iff.1 hidx), List.map_append]
    rfl
  · simp only [updateEntry, findIdx?_address, hidx]
    obtain ⟨hi, heq, -⟩ := List.idxOf?_eq_some_iff.1 hidx
    rw [if_pos (heq ▸ List.getElem_mem hi)]
    refine map_modify_eq fun acc hacc => ?_
    rw [List.getElem_map] at heq
    rw [List.getElem?_eq_getElem (by simpa using hi), Option.some_inj] at hacc
    rw [← hacc, heq]

/-- A deleted block removes the address, or adds it if it is missing. -/
theorem addresses_updateEntry_deleteBlock (validatorList : List Validator)
    (validator : Validator) :
    (updateEntry .deleteBlock validatorList validator).map Validator.address =
      if validator.address ∈ validatorList.map Validator.address then
        (validatorList.map Validator.address).erase validator.address
      else validatorList.map Validator.address ++ [validator.address] := by
  rcases hidx : (validatorList.map Validator.address).idxOf? validator.address with _ | i
  · simp only [updateEntry, findIdx?_address, hidx]
    rw [if_neg (List.idxOf?_eq_none_iff.1 hidx), List.map_append]
    rfl
  · simp only [updateEntry, findIdx?_address, hidx]
    obtain ⟨hi, heq, -⟩ := List.idxOf?_eq_some_iff.1 hidx
    rw [if_pos (heq ▸ List.getElem_mem hi), List.erase_eq_eraseIdx, hidx]
    exact (List.eraseIdx_map ..).symm

/-- After a new block the addresses are those of the list and of the answer. -/
theorem mem_addresses_newBlock (answer : List Validator) {validatorList : List Validator}
    (h : (validatorList.map Validator.address).Nodup) :
    ((answer.foldl (updateEntry .newBlock) validatorList).map Validator.address).Nodup ∧
    ∀ address,
      address ∈ (answer.foldl (updateEntry .newBlock) validatorList).map Validator.address ↔
      address ∈ validatorList.map Validator.address ∨ address ∈ answer.map Validator.address := by
  induction answer generalizing validatorList with
  | nil => exact ⟨h, fun address => by simp⟩
  | cons validator answer ih =>
    have hstep := addresses_updateEntry_newBlock validatorList validator
    have hnodup :
        ((updateEntry .newBlock validatorList validator).map Validator.address).Nodup := by
      rw [hstep]
      split
      · exact h
      · rename_i hmem
        exact List.nodup_append.2 ⟨h, List.nodup_singleton _, by grind⟩
    obtain ⟨hnodup', hmem'⟩ := ih hnodup
    refine ⟨hnodup', fun address => (hmem' address).trans ?_⟩
    rw [hstep]
    split <;> grind

/-- After a deleted block an address is in the list if it was and is answered an even number of
times, or it was not and is answered an odd number of times. -/
theorem mem_addresses_deleteBlock (answer : List Validator) {validatorList : List Validator}
    (h : (validatorList.map Validator.address).Nodup) :
    ((answer.foldl (updateEntry .deleteBlock) validatorList).map Validator.address).Nodup ∧
    ∀ address,
      address ∈ (answer.foldl (updateEntry .deleteBlock) validatorList).map Validator.address ↔
        (address ∈ validatorList.map Validator.address ↔
          Even ((answer.map Validator.address).count address)) := by
  induction answer generalizing validatorList with
  | nil => exact ⟨h, fun address => by simp⟩
  | cons validator answer ih =>
    have hstep := addresses_updateEntry_deleteBlock validatorList validator
    have hnodup :
        ((updateEntry .deleteBlock validatorList validator).map Validator.address).Nodup := by
      rw [hstep]
      split
      · exact h.erase _
      · rename_i hmem
        exact List.nodup_append.2 ⟨h, List.nodup_singleton _, by grind⟩
    -- An entry takes its address out of the list, or puts it in.
    have htoggle : ∀ address,
        address ∈ (updateEntry .deleteBlock validatorList validator).map Validator.address ↔
          (address ∈ validatorList.map Validator.address ↔ address ≠ validator.address) := by
      intro address
      rw [hstep]
      split
      · rw [h.mem_erase_iff]
        grind
      · grind
    obtain ⟨hnodup', hmem'⟩ := ih hnodup
    refine ⟨hnodup', fun address => (hmem' address).trans ?_⟩
    rw [htoggle, List.map_cons, List.count_cons]
    by_cases heq : validator.address = address
    · rw [if_pos (by simpa using heq), Nat.even_add_one]
      simp only [heq, ne_eq, not_true, iff_false]
      tauto
    · rw [if_neg (by simpa using heq), Nat.add_zero]
      simp only [Ne.symm heq, ne_eq, not_false_eq_true, iff_true]

namespace ValidatorCache

/-- A validator is ranked before another: it has more weight, or the same and the larger address. -/
def RankedBefore (getHexAddress : Address → List ℕ) (v w : Validator) : Prop :=
  w.validatorWeight < v.validatorWeight ∨
    w.validatorWeight = v.validatorWeight ∧ getHexAddress w.address ≤ getHexAddress v.address

/-- Ranks are `1..n`, in order. -/
structure Ranked (getHexAddress : Address → List ℕ) (validatorList : List Validator) : Prop where
  ranks : validatorList.map Validator.rank =
    (List.range validatorList.length).map fun index => some (index + 1)
  ordered : validatorList.Pairwise (RankedBefore getHexAddress)

/-- The list has exactly the registered validators, each once, and is ranked. -/
structure Coherent (getHexAddress : Address → List ℕ) (s : ValidatorCache) : Prop where
  registered : ∀ address,
    address ∈ s.validatorList.map Validator.address ↔ s.node.Registered address
  once : (s.validatorList.map Validator.address).Nodup
  ranked : Ranked getHexAddress s.validatorList

/-- A deleted block undoes no registration and names every registered validator an even number of
times. -/
def Harmless (s : ValidatorCache) (e : BlockEvent) : Prop :=
  match e.eventType with
  | .newBlock => True
  | .deleteBlock =>
    (∀ address, s.node.Registered address → e.node.Registered address) ∧
    ∀ address, e.node.Registered address →
      Even (e.block.updatedValidatorAddresses.count address)

/-! ### Ranks -/

section Ranks

variable {getHexAddress : Address → List ℕ}

private theorem bufferCompare_le_zero {x y : List ℕ} : bufferCompare x y ≤ 0 ↔ x ≤ y := by
  rw [bufferCompare]
  split
  · rename_i hlt
    exact ⟨fun _ => hlt.le, fun _ => by decide⟩
  · rename_i hnlt
    split
    · rename_i hgt
      exact ⟨fun h => absurd h (by decide), fun h => absurd hgt (not_lt.2 h)⟩
    · rename_i hngt
      exact ⟨fun _ => not_lt.1 hngt, fun _ => Int.le_refl 0⟩

theorem validatorComparator_le_zero {v w : Validator} :
    validatorComparator getHexAddress v w ≤ 0 ↔ RankedBefore getHexAddress v w := by
  rw [validatorComparator, RankedBefore]
  by_cases hdiff : (w.validatorWeight : ℤ) - v.validatorWeight = 0
  · have heq : w.validatorWeight = v.validatorWeight := by omega
    rw [if_neg (by simpa using hdiff), bufferCompare_le_zero]
    simp [heq]
  · rw [if_pos hdiff]
    constructor
    · intro hle
      left
      omega
    · rintro (hlt | ⟨heq, -⟩) <;> omega

private theorem rankedBefore_trans {u v w : Validator} (huv : RankedBefore getHexAddress u v)
    (hvw : RankedBefore getHexAddress v w) : RankedBefore getHexAddress u w := by
  rcases huv with huv | ⟨huv, hhex⟩ <;> rcases hvw with hvw | ⟨hvw, hhex'⟩
  · exact .inl (by omega)
  · exact .inl (by omega)
  · exact .inl (by omega)
  · exact .inr ⟨by omega, hhex'.trans hhex⟩

private theorem rankedBefore_total (v w : Validator) :
    RankedBefore getHexAddress v w ∨ RankedBefore getHexAddress w v := by
  rcases Nat.lt_trichotomy v.validatorWeight w.validatorWeight with hlt | heq | hgt
  · exact .inr (.inl hlt)
  · rcases le_total (getHexAddress v.address) (getHexAddress w.address) with hle | hle
    · exact .inr (.inr ⟨heq, hle⟩)
    · exact .inl (.inr ⟨heq.symm, hle⟩)
  · exact .inl (.inl hgt)

theorem ranked_computeValidatorRank (validatorList : List Validator) :
    Ranked getHexAddress (computeValidatorRank getHexAddress validatorList) where
  ranks := by
    apply List.ext_getElem?
    intro index
    simp only [computeValidatorRank, List.getElem?_map, List.getElem?_mapIdx, List.length_mapIdx]
    rcases Nat.lt_or_ge index (validatorList.mergeSort fun a b =>
      decide (validatorComparator getHexAddress a b ≤ 0)).length with hlt | hge
    · rw [List.getElem?_eq_getElem hlt, List.getElem?_range hlt]
      rfl
    · rw [List.getElem?_eq_none hge, List.getElem?_eq_none (by simpa using hge)]
      rfl
  ordered := by
    have hsorted := @List.pairwise_mergeSort _
      (fun a b => decide (validatorComparator getHexAddress a b ≤ 0))
      (fun u v w huv hvw => by
        rw [decide_eq_true_iff, validatorComparator_le_zero] at huv hvw ⊢
        exact rankedBefore_trans huv hvw)
      (fun v w => by
        rw [Bool.or_eq_true, decide_eq_true_iff, decide_eq_true_iff, validatorComparator_le_zero,
          validatorComparator_le_zero]
        exact rankedBefore_total v w) validatorList
    rw [List.pairwise_iff_getElem] at hsorted ⊢
    intro i j hi hj hij
    simp only [computeValidatorRank, List.length_mapIdx] at hi hj
    have hle := hsorted i j hi hj hij
    rw [decide_eq_true_iff, validatorComparator_le_zero] at hle
    simp only [computeValidatorRank, List.getElem_mapIdx]
    exact hle

theorem addresses_computeValidatorRank (validatorList : List Validator) :
    ((computeValidatorRank getHexAddress validatorList).map Validator.address).Perm
      (validatorList.map Validator.address) := by
  have hmap : (computeValidatorRank getHexAddress validatorList).map Validator.address =
      (validatorList.mergeSort fun a b =>
        decide (validatorComparator getHexAddress a b ≤ 0)).map Validator.address := by
    apply List.ext_getElem?
    intro index
    simp only [computeValidatorRank, List.getElem?_map, List.getElem?_mapIdx, Option.map_map]
    rfl
  rw [hmap]
  exact (List.mergeSort_perm _ _).map _

/-- What ranks and order depend on. -/
def key (v : Validator) : Address × ℕ × Option ℕ := (v.address, v.validatorWeight, v.rank)

private theorem addresses_of_keys {l l' : List Validator} (h : l.map key = l'.map key) :
    l.map Validator.address = l'.map Validator.address := by
  have hfst := congrArg (List.map Prod.fst) h
  simpa [key, Function.comp_def] using hfst

theorem Ranked.of_keys {l l' : List Validator} (h : l.map key = l'.map key)
    (hl : Ranked getHexAddress l) : Ranked getHexAddress l' where
  ranks := by
    have hranks := congrArg (List.map fun k => k.2.2) h
    have hlength := congrArg List.length h
    simp only [List.map_map, List.length_map] at hranks hlength
    rw [← hlength, ← hl.ranks]
    exact hranks.symm
  ordered := by
    have hkeys : (l.map key).Pairwise fun k m =>
        m.2.1 < k.2.1 ∨ m.2.1 = k.2.1 ∧ getHexAddress m.1 ≤ getHexAddress k.1 :=
      List.pairwise_map.2 hl.ordered
    rw [h, List.pairwise_map] at hkeys
    exact hkeys

/-! ### The listener -/

private theorem key_updateGenerator (eventType : BlockEventType) (block : PosBlock)
    (v : Validator) : key (updateGenerator eventType block v) = key v := by
  rw [updateGenerator]
  split
  · split <;> rfl
  · rfl

/-- The list with the updates that an event makes to the entries it names. -/
private theorem keys_updateValidatorCache (status : Validator → ValidatorStatus)
    (eventType : BlockEventType)
    (block : PosBlock) (node : PosNode) (validatorList : List Validator) :
    (updateValidatorCache getHexAddress status eventType block node validatorList).map key =
      (if block.updatedValidatorAddresses = [] then validatorList
        else computeValidatorRank getHexAddress
          ((node.getPosValidators block.updatedValidatorAddresses).foldl (updateEntry eventType)
            validatorList)).map key := by
  rw [updateValidatorCache]
  refine (map_modify_eq fun v _ => key_updateGenerator eventType block v).trans ?_
  split
  · rfl
  · split
    · rw [List.map_map]
      rfl
    · rfl

theorem ranked_updateValidatorCache (status : Validator → ValidatorStatus)
    (eventType : BlockEventType) (block : PosBlock) (node : PosNode)
    {validatorList : List Validator} (h : Ranked getHexAddress validatorList) :
    Ranked getHexAddress
      (updateValidatorCache getHexAddress status eventType block node validatorList) := by
  refine Ranked.of_keys
    (keys_updateValidatorCache status eventType block node validatorList).symm ?_
  split
  · exact h
  · exact ranked_computeValidatorRank _

/-- The addresses are those after the updates. -/
theorem addresses_updateValidatorCache (status : Validator → ValidatorStatus)
    (eventType : BlockEventType) (block : PosBlock) (node : PosNode)
    (validatorList : List Validator) :
    ((updateValidatorCache getHexAddress status eventType block node validatorList).map
      Validator.address).Perm
    (((node.getPosValidators block.updatedValidatorAddresses).foldl (updateEntry eventType)
      validatorList).map Validator.address) := by
  rw [addresses_of_keys (keys_updateValidatorCache status eventType block node validatorList)]
  split
  · rename_i hnone
    rw [hnone]
    exact .refl _
  · exact addresses_computeValidatorRank _

end Ranks

/-! ### The answer of the node -/

section Answer

variable {node : PosNode} {address : Address}

theorem mem_getPosValidators {addresses : List Address} :
    address ∈ (node.getPosValidators addresses).map Validator.address ↔
      address ∈ addresses ∧ node.Registered address := by
  rw [PosNode.getPosValidators, List.mem_map]
  constructor
  · rintro ⟨v, hv, rfl⟩
    obtain ⟨address, hmem, hanswer⟩ := List.mem_filterMap.1 hv
    rw [node.address_eq hanswer]
    refine ⟨hmem, ?_⟩
    rw [PosNode.Registered, hanswer]
    exact Option.some_ne_none v
  · rintro ⟨hmem, hregistered⟩
    obtain ⟨v, hv⟩ := Option.ne_none_iff_exists'.1 hregistered
    exact ⟨v, List.mem_filterMap.2 ⟨address, hmem, hv⟩, node.address_eq hv⟩

/-- A registered validator is answered as often as it is asked for. -/
theorem count_getPosValidators (h : node.Registered address) (addresses : List Address) :
    ((node.getPosValidators addresses).map Validator.address).count address =
      addresses.count address := by
  induction addresses with
  | nil => rfl
  | cons address' addresses ih =>
    rw [PosNode.getPosValidators] at ih ⊢
    rw [List.count_cons, ← ih, List.filterMap_cons]
    split
    · rename_i hnone
      have hne : address' ≠ address := by
        rintro rfl
        exact h hnone
      simp [hne]
    · rename_i v hv
      rw [List.map_cons, List.count_cons, node.address_eq hv]

theorem count_getPosValidators_of_not (h : ¬ node.Registered address)
    (addresses : List Address) :
    ((node.getPosValidators addresses).map Validator.address).count address = 0 := by
  refine List.count_eq_zero_of_not_mem fun hmem => ?_
  exact h (mem_getPosValidators.1 hmem).2

end Answer

/-! ### Runs -/

section Runs

variable {getHexAddress : Address → List ℕ} {s s' s₀ : ValidatorCache} {e : BlockEvent}

private theorem updatedAddresses_of_register {block : PosBlock} {address : Address}
    (h : .registerValidator address ∈ block.transactions) :
    address ∈ block.updatedValidatorAddresses :=
  List.mem_flatMap.2 ⟨_, h, List.mem_singleton_self address⟩

/-- One event keeps the list coherent if and only if it is harmless. -/
theorem Coherent.step_iff (h : s.Coherent getHexAddress)
    (hstep : ValidatorStep getHexAddress s e s') :
    s'.Coherent getHexAddress ↔ s.Harmless e := by
  cases hstep with
  | @newBlock block node status hnode =>
    refine ⟨fun _ => trivial, fun _ => ?_⟩
    have hperm := @addresses_updateValidatorCache getHexAddress status .newBlock block node
      s.validatorList
    obtain ⟨hnodup, hmem⟩ := mem_addresses_newBlock
      (node.getPosValidators block.updatedValidatorAddresses) h.once
    have hranked := ranked_updateValidatorCache status .newBlock block node h.ranked
    refine ⟨fun address => ?_, hperm.nodup_iff.2 hnodup, hranked⟩
    rw [hperm.mem_iff, hmem, h.registered, mem_getPosValidators]
    constructor
    · rintro (hold | ⟨-, hnew⟩)
      · exact hnode.kept address hold
      · exact hnew
    · intro hnew
      rcases hnode.new address hnew with hold | hregister
      · exact .inl hold
      · exact .inr ⟨updatedAddresses_of_register hregister, hnew⟩
  | @deleteBlock block node status hnode =>
    have hperm := @addresses_updateValidatorCache getHexAddress status .deleteBlock block node
      s.validatorList
    obtain ⟨hnodup, hmem⟩ := mem_addresses_deleteBlock
      (node.getPosValidators block.updatedValidatorAddresses) h.once
    have hranked := ranked_updateValidatorCache status .deleteBlock block node h.ranked
    -- A deleted block toggles each of its addresses as often as the node answers for it.
    constructor
    · intro hcoherent
      have hregistered : ∀ address, node.Registered address ↔
          (s.node.Registered address ↔ Even (((node.getPosValidators
            block.updatedValidatorAddresses).map Validator.address).count address)) := by
        intro address
        rw [← hcoherent.registered, hperm.mem_iff, hmem, h.registered]
      refine ⟨fun address hold => ?_, fun address hnew => ?_⟩
      · by_contra hnot
        have hiff := hregistered address
        rw [count_getPosValidators_of_not hnot] at hiff
        exact hnot (hiff.2 ⟨fun _ => Even.zero, fun _ => hold⟩)
      · have hiff := (hregistered address).1 hnew
        rw [count_getPosValidators hnew] at hiff
        exact hiff.1 (hnode.kept address hnew)
    · rintro ⟨hkept, heven⟩
      refine ⟨fun address => ?_, hperm.nodup_iff.2 hnodup, hranked⟩
      rw [hperm.mem_iff, hmem, h.registered]
      by_cases hnew : node.Registered address
      · rw [count_getPosValidators hnew]
        exact ⟨fun _ => hnew, fun _ => ⟨fun _ => heven address hnew,
          fun _ => hnode.kept address hnew⟩⟩
      · rw [count_getPosValidators_of_not hnew]
        refine ⟨fun hiff => hkept address (hiff.2 Even.zero), fun h' => absurd h' hnew⟩

/-- **The validator list stays coherent** with the node in every run whose deleted blocks are
harmless: it has exactly the registered validators, each once, ranked `1..n` by weight and address.
The first deleted block that is not harmless breaks this. -/
theorem validator_list_coherent (h₀ : s₀.Coherent getHexAddress)
    (hrun : Run (ValidatorStep getHexAddress) Harmless s₀ s) :
    s.Coherent getHexAddress ∧ ∀ e s', ValidatorStep getHexAddress s e s' →
      (s'.Coherent getHexAddress ↔ s.Harmless e) := by
  have hs : s.Coherent getHexAddress := hrun.invariant (Coherent getHexAddress) h₀
    fun _ _ _ h hok hstep => (h.step_iff hstep).2 hok
  exact ⟨hs, fun e s' hstep => hs.step_iff hstep⟩

/-- A node that knows the given validators. -/
def nodeOf (validators : List Validator) : PosNode where
  validator address := validators.find? (·.address == address)
  address_eq h := by simpa using List.find?_some h

/-- One validator is registered. -/
def single : ValidatorCache :=
  ⟨nodeOf [⟨"v", 5, none, none, none, none⟩], [⟨"v", 5, none, none, none, some 1⟩]⟩

/-- An address as a list of numbers. -/
def charCodes (address : Address) : List ℕ := address.toList.map Char.toNat

/-- A block with a stake for it. -/
def stakeBlock : PosBlock := ⟨"g", none, [.stake ["v"]]⟩

private theorem registered_single (address : Address) :
    single.node.Registered address ↔ address = "v" := by
  have hsome : single.node.validator address ≠ none ↔ "v" = address := by simp [single, nodeOf]
  exact hsome.trans eq_comm

private theorem coherent_single (getHexAddress : Address → List ℕ) :
    single.Coherent getHexAddress where
  registered address := by
    rw [registered_single]
    exact List.mem_singleton
  once := List.nodup_singleton _
  ranked := ⟨rfl, List.pairwise_singleton _ _⟩

private theorem executes_single : single.node.Executes stakeBlock single.node :=
  ⟨fun _ h => h, fun _ h => .inl h⟩

/-- Two validators; the weight of the second one may change. -/
def pairNode (weight : ℕ) : PosNode :=
  nodeOf [⟨"v", 5, none, none, none, none⟩, ⟨"w", weight, none, none, none, none⟩]

/-- The list before the second validator gains weight. -/
def pair : ValidatorCache :=
  ⟨pairNode 3, [⟨"v", 5, none, none, none, some 1⟩, ⟨"w", 3, none, none, none, some 2⟩]⟩

/-- A block with two stakes for the second validator. -/
def doubleStakeBlock : PosBlock := ⟨"v", some 1, [.stake ["w"], .stake ["w"]]⟩

private theorem registered_pairNode {weight : ℕ} {address : Address} :
    (pairNode weight).Registered address ↔ address = "v" ∨ address = "w" := by
  have hsome : (pairNode weight).validator address ≠ none ↔ "v" = address ∨ "w" = address := by
    rw [← Option.isSome_iff_ne_none, pairNode, nodeOf, List.find?_isSome]
    simp
  rw [PosNode.Registered, hsome, eq_comm, @eq_comm _ "w"]

private theorem coherent_pair : pair.Coherent charCodes where
  registered address := by
    rw [show pair.node = pairNode 3 from rfl, registered_pairNode]
    simp [pair]
  once := by decide
  ranked := ⟨rfl, by simp [pair, RankedBefore]⟩

private theorem executes_pairNode {weight weight' : ℕ} :
    (pairNode weight).Executes doubleStakeBlock (pairNode weight') :=
  ⟨fun _ h => registered_pairNode.mpr (registered_pairNode.mp h),
    fun _ h => .inl (registered_pairNode.mpr (registered_pairNode.mp h))⟩

/-- The list after the block. -/
def pairAfter : ValidatorCache :=
  ⟨pairNode 9, updateValidatorCache charCodes (fun _ => .active) .newBlock doubleStakeBlock
    (pairNode 9) pair.validatorList⟩

private theorem addresses_pairAfter : pairAfter.validatorList.map (·.address) = ["w", "v"] := by
  have haddresses : doubleStakeBlock.updatedValidatorAddresses = ["w", "w"] := by decide
  have hmisbehavior : doubleStakeBlock.includesMisbehaviorTx = false := by decide
  have hfold : ((pairNode 9).getPosValidators ["w", "w"]).foldl (updateEntry .newBlock)
      pair.validatorList =
        [⟨"v", 5, none, none, none, some 1⟩, ⟨"w", 9, none, none, none, none⟩] := by rfl
  have hranked : computeValidatorRank charCodes
      [⟨"v", 5, none, none, none, some 1⟩, ⟨"w", 9, none, none, none, none⟩] =
        [⟨"w", 9, none, none, none, some 1⟩, ⟨"v", 5, none, none, none, some 2⟩] := by
    simp [computeValidatorRank, List.mergeSort, validatorComparator]
  rw [pairAfter, updateValidatorCache, haddresses, hmisbehavior, hfold, hranked]
  rfl

/-- The block changes the ranks. Its deletion is harmless, as it names the validator twice. -/
theorem validator_list_coherent_stakes :
    pairAfter.validatorList.map (·.address) = ["w", "v"] ∧
      (⟨pairNode 3, updateValidatorCache charCodes (fun _ => .active) .deleteBlock
        doubleStakeBlock (pairNode 3) pairAfter.validatorList⟩ : ValidatorCache).Coherent
          charCodes := by
  refine ⟨addresses_pairAfter, (validator_list_coherent coherent_pair ((Run.refl.tail
    (.newBlock (fun _ => .active) executes_pairNode) trivial).tail
    (.deleteBlock (fun _ => .active) executes_pairNode) ⟨fun _ h => ?_, fun address _ => ?_⟩)).1⟩
  · exact registered_pairNode.mpr (registered_pairNode.mp h)
  · by_cases haddress : address = "w"
    · subst haddress
      decide
    · rw [List.count_eq_zero.mpr (by simp [doubleStakeBlock, haddress,
        PosBlock.updatedValidatorAddresses, PosTransaction.updatedAddresses])]
      exact Even.zero

/-- The block with the stake is deleted: the validator is removed although it stays registered. -/
theorem deleted_stake_removes_validator :
    ¬ ∀ (getHexAddress : Address → List ℕ) (s₀ s : ValidatorCache), s₀.Coherent getHexAddress →
      Run (ValidatorStep getHexAddress) Unrestricted s₀ s → s.Coherent getHexAddress := by
  intro h
  have hstep := @ValidatorStep.deleteBlock charCodes single stakeBlock _ (fun _ => .active)
    executes_single
  have hcoherent := h _ _ _ (coherent_single charCodes) (Run.refl.tail hstep trivial)
  have heven := (((coherent_single _).step_iff hstep).1 hcoherent).2 "v"
    ((registered_single "v").2 rfl)
  exact absurd heven (by decide)

end Runs

end ValidatorCache

end SwaptoshiService
