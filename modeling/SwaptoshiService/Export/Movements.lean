import Mathlib.Algebra.Ring.Int.Defs
import SwaptoshiService.Export.EntryKinds
import SwaptoshiService.Lib.Keyed

/-!
# Movements that are exported once

The entries of the events of an account have no event index. At the end `getEntriesByChronology`
drops all but the first of equal entries (`dropDuplicatesDeep`), so two events that say **the same
about the same transaction** have one entry together: two equal transfers that one cross-chain
update brings, or two equal rewards that one transaction assigns.

Two events are `Twins` if their entries agree in all they are made of. An entry is also made of the
public keys that were known when its event was worked on. `nothing_lost_iff`: every movement of a
history is exported, and the amounts of each token add up, if and only if no two of its events are
twins.
-/

namespace SwaptoshiService

namespace Export

/-! ### Twins -/

section Twins

variable (env : Env) (address : String) (sortedBlocks : List Block)
  (sortedTransactions : List Transaction) (sortedEvents : List Event)

/-- A transaction has one ID and an ID one transaction, wherever it is found. -/
def KnownByID : Prop :=
  ∀ id id' tx tx', transactionOf env sortedTransactions id = .ok tx →
    transactionOf env sortedTransactions id' = .ok tx' → tx.id = tx'.id → tx = tx'

/-- The same public key is known for the address at both events. -/
def SameKey (i j : ℕ) (holder : String) : Prop :=
  env.publicKeyCache i holder = env.publicKeyCache j holder

/-- The entry for the `token:lock` event `i` is that for a `token:transferCrossChain` event `j` of
the same transaction, which has another command. -/
structure LockAsTransfer (tx : Transaction) (i j : ℕ) (senderAddress receivingChainID : String) :
    Prop where
  command : tx.moduleCommand ≠ tokenTransferCrossChain
  sender : senderAddress = address ∧ tx.sender.address = address
  senderPublicKey : tx.senderPublicKey = some tx.sender.publicKey
  block : ∃ block, blockOf env sortedBlocks tx.block.id = some block ∧
    env.entryAt tx.block (some tx.id) = env.entryAt block.toBlockInfo (some tx.id)
  recipient : orNull tx.params.recipientAddress = tx.params.recipientAddress
  recipientPublicKey : recipientKey env i tx tx.params.recipientAddress =
    recipientKey env j tx tx.params.recipientAddress
  note : orNull tx.params.data = tx.params.data
  chainIDs : resolveChainIDs tx env.currentChainID =
    (some env.currentChainID, some receivingChainID)

/-- The events `i` and `j` of one transaction say the same. -/
inductive SameMovement (tx : Transaction) (i j : ℕ) (e e' : Event) (other other' : List Event) :
    Prop
  | lock {lockAddress lockAddress' : String} {amount amount' : ℤ}
    (he : e.data = .lock lockAddress amount) (he' : e'.data = .lock lockAddress' amount')
    (hcommand : tx.moduleCommand ≠ tokenTransferCrossChain)
    (hkey : recipientKey env i tx (orNull tx.params.recipientAddress) =
      recipientKey env j tx (orNull tx.params.recipientAddress))
  | lockTransfer {lockAddress senderAddress receivingChainID : String} {amount : ℤ}
    (he : e.data = .lock lockAddress amount)
    (he' : e'.data = .transferCrossChain senderAddress receivingChainID)
    (h : LockAsTransfer env address sortedBlocks tx i j senderAddress receivingChainID)
  | transferLock {lockAddress senderAddress receivingChainID : String} {amount : ℤ}
    (he : e.data = .transferCrossChain senderAddress receivingChainID)
    (he' : e'.data = .lock lockAddress amount)
    (h : LockAsTransfer env address sortedBlocks tx j i senderAddress receivingChainID)
  | transferCrossChain {receivingChainID receivingChainID' : String}
    (he : e.data = .transferCrossChain address receivingChainID)
    (he' : e'.data = .transferCrossChain address receivingChainID')
    (h : (ccmSendSuccessOf env tx).isSome ∨ (receivingChainID = receivingChainID' ∧
      recipientKey env i tx tx.params.recipientAddress =
        recipientKey env j tx tx.params.recipientAddress))
  | generatorFee {senderAddress : String} {amount : ℤ}
    (he : e.data = .generatorFeeProcessed senderAddress address amount)
    (he' : e'.data = .generatorFeeProcessed senderAddress address amount)
    (hamount : amount ≠ 0) (hkey : SameKey env i j address)
  | incoming {data : CcmTransferData}
    (he : e.data = .ccmTransfer data) (he' : e'.data = .ccmTransfer data)
    (hrecipient : data.recipientAddress = address)
    (hchain : data.receivingChainID = env.currentChainID) (hresult : data.result = 0)
    (hsender : SameKey env i j data.senderAddress) (hkey : SameKey env i j address)
  | relayerFee {ccmID ccmID' : String} {amount : ℤ}
    (he : e.data = .relayerFeeProcessed ccmID amount)
    (he' : e'.data = .relayerFeeProcessed ccmID' amount) (hamount : amount ≠ 0)
    (htoken : messageFeeTokenIDOf (sortedEvents ++ other) ccmID (getCcmIDFromTopic0 e.topic0) =
      messageFeeTokenIDOf (sortedEvents ++ other') ccmID' (getCcmIDFromTopic0 e'.topic0))
    (hchains : ccmChainIDsOf (sortedEvents ++ other) e.topic0 (getCcmIDFromTopic0 e.topic0) =
      ccmChainIDsOf (sortedEvents ++ other') e'.topic0 (getCcmIDFromTopic0 e'.topic0))
    (hkey : SameKey env i j address)
  | reclaim {amount : ℤ}
    (he : e.data = .accountReclaimed amount) (he' : e'.data = .accountReclaimed amount)
    (htopic : e.topics[2]? = some address) (htopic' : e'.topics[2]? = some address)
    (hkey : SameKey env i j address)
  | punishment {punished punished' senderAddress recipientAddress : String} {amount : ℤ}
    (he : e.data = .validatorPunished punished) (he' : e'.data = .validatorPunished punished')
    (hpunished : address = punished ↔ address = punished')
    (htransfer : transferOf (sortedEvents ++ other) tx =
      some (senderAddress, recipientAddress, amount))
    (htransfer' : transferOf (sortedEvents ++ other') tx =
      some (senderAddress, recipientAddress, amount))
    (hsender : SameKey env i j senderAddress) (hrecipient : SameKey env i j recipientAddress)
  | sharedReward {stakerAddress validatorAddress : String} {amount : ℤ}
    (he : e.data = .rewardsAssigned stakerAddress validatorAddress amount)
    (he' : e'.data = .rewardsAssigned stakerAddress validatorAddress amount)
    (hkey : SameKey env i j validatorAddress)

/-- The events `i` and `j` are block rewards of which a part is exported alike. -/
structure SameReward (i j : ℕ) (e e' : Event) : Prop where
  amounts : ∃ amount amount', e.rewardFor address = some amount ∧
    e'.rewardFor address = some amount' ∧
    ∃ locked locked', lockedAfter address sortedEvents i = .ok locked ∧
      lockedAfter address sortedEvents j = .ok locked' ∧
      (amount - locked.getD 0 = amount' - locked'.getD 0 ∨
        ∃ part, locked = some part ∧ locked' = some part)
  blocks : ∃ b b', (sortedBlocks.find? fun b => b.id = e.block.id) = some b ∧
    (sortedBlocks.find? fun b => b.id = e'.block.id) = some b' ∧
    env.entryAt b.toBlockInfo none = env.entryAt b'.toBlockInfo none ∧
    b.generatorPublicKey = b'.generatorPublicKey

/-- The events `i` and `j` have an entry in common. -/
def Twins (i j : ℕ) (e e' : Event) : Prop :=
  (∃ tx other other', PartOf env sortedTransactions sortedEvents i e tx other ∧
    PartOf env sortedTransactions sortedEvents j e' tx other' ∧
    SameMovement env address sortedBlocks sortedEvents tx i j e e' other other') ∨
  SameReward env address sortedBlocks sortedEvents i j e e'

/-- The entries of all events that yield some. -/
def producedEntries : List Entry :=
  sortedEvents.zipIdx.flatMap fun p => (eventEntries env address sortedBlocks sortedTransactions
    sortedEvents p.2 p.1).toOption.getD []

/-- The sum of the amounts of a token. -/
def tokenSum (tokenID : String) (entries : List Entry) : ℤ :=
  ((entries.filter fun entry => entry.amountTokenID = some tokenID).map
    fun entry => entry.amount.getD 0).sum

/-- The exported entries are those that the events yield, and their amounts add up to the same. -/
structure NothingLost (entries : List Entry) : Prop where
  separate : entries.Perm
    (producedEntries env address sortedBlocks sortedTransactions sortedEvents)
  sums : ∀ tokenID, tokenSum tokenID entries = tokenSum tokenID
    (producedEntries env address sortedBlocks sortedTransactions sortedEvents)

end Twins

/-! ### Entries in common -/

section Common

variable {env : Env} {address : String} {tx : Transaction} {block : Option Block} {i j : ℕ}
  {es es' : List Entry}

theorem getPublicKeyByAddress_some (env : Env) (i : ℕ) (holder : String) :
    env.getPublicKeyByAddress i (some holder) = env.publicKeyCache i holder := rfl

theorem common_generatorFee {s s' g g' : String} {n n' : ℤ}
    (h : getGeneratorFeeEntries env i address s g n tx block = .ok es)
    (h' : getGeneratorFeeEntries env j address s' g' n' tx block = .ok es') :
    (∃ x ∈ es, x ∈ es') ↔
      g = address ∧ g' = address ∧ s = s' ∧ n = n' ∧ n ≠ 0 ∧ SameKey env i j address := by
  rw [getGeneratorFeeEntries] at h h'
  split_ifs at h with hg hn
  · obtain rfl := pure_eq_ok_iff.mp h
    simp [hg]
  · obtain rfl := pure_eq_ok_iff.mp h
    simp [hn]
  split_ifs at h' with hg' hn'
  · obtain rfl := pure_eq_ok_iff.mp h'
    simp [hg']
  · obtain rfl := pure_eq_ok_iff.mp h'
    simp only [List.not_mem_nil, and_false, exists_false, false_iff]
    rintro ⟨-, -, -, rfl, hn, -⟩
    exact hn hn'
  obtain ⟨b, hb, h⟩ := bind_eq_ok_iff.mp h
  obtain ⟨b', hb', h'⟩ := bind_eq_ok_iff.mp h'
  obtain rfl := Except.ok.inj (hb.symm.trans hb')
  obtain rfl := pure_eq_ok_iff.mp h
  obtain rfl := pure_eq_ok_iff.mp h'
  obtain rfl := not_not.mp hg
  obtain rfl := not_not.mp hg'
  simp only [List.mem_singleton, exists_eq_left, Entry.mk.injEq, Option.some.injEq, SameKey,
    getPublicKeyByAddress_some, Env.entryAt]
  grind

theorem common_incoming {d d' : CcmTransferData}
    (hd : d.recipientAddress = address ∧ d.receivingChainID = env.currentChainID)
    (hd' : d'.recipientAddress = address ∧ d'.receivingChainID = env.currentChainID)
    (h : getIncomingTransferCCEntries env i address d tx block = .ok es)
    (h' : getIncomingTransferCCEntries env j address d' tx block = .ok es') :
    (∃ x ∈ es, x ∈ es') ↔
      d = d' ∧ d.result = 0 ∧ SameKey env i j d.senderAddress ∧ SameKey env i j address := by
  rw [getIncomingTransferCCEntries] at h h'
  split_ifs at h with hr
  · obtain rfl := pure_eq_ok_iff.mp h
    simp [hr]
  split_ifs at h' with hr'
  · obtain rfl := pure_eq_ok_iff.mp h'
    simp only [List.not_mem_nil, and_false, exists_false, false_iff]
    rintro ⟨rfl, hr, -⟩
    exact hr' hr
  obtain ⟨b, hb, h⟩ := bind_eq_ok_iff.mp h
  obtain ⟨b', hb', h'⟩ := bind_eq_ok_iff.mp h'
  obtain rfl := Except.ok.inj (hb.symm.trans hb')
  obtain rfl := pure_eq_ok_iff.mp h
  obtain rfl := pure_eq_ok_iff.mp h'
  obtain ⟨sender, recipient, token, amount, chain, result⟩ := d
  obtain ⟨sender', recipient', token', amount', chain', result'⟩ := d'
  simp only [not_not] at hd hd' hr hr'
  obtain ⟨rfl, rfl⟩ := hd
  obtain ⟨rfl, rfl⟩ := hd'
  subst hr hr'
  simp only [List.mem_singleton, exists_eq_left, Entry.mk.injEq, Option.some.injEq, SameKey,
    getPublicKeyByAddress_some, Env.entryAt, CcmTransferData.mk.injEq]
  grind

theorem common_relayerFee {n n' : ℤ} {t t' c c' r r' : String}
    (h : getMessageFeeEntries env i address n tx block t c r = .ok es)
    (h' : getMessageFeeEntries env j address n' tx block t' c' r' = .ok es') :
    (∃ x ∈ es, x ∈ es') ↔
      n = n' ∧ n ≠ 0 ∧ t = t' ∧ (c, r) = (c', r') ∧ SameKey env i j address := by
  rw [getMessageFeeEntries] at h h'
  split_ifs at h with hn
  · obtain rfl := pure_eq_ok_iff.mp h
    simp [hn]
  split_ifs at h' with hn'
  · obtain rfl := pure_eq_ok_iff.mp h'
    simp only [List.not_mem_nil, and_false, exists_false, false_iff]
    rintro ⟨rfl, hn, -⟩
    exact hn hn'
  obtain ⟨b, hb, h⟩ := bind_eq_ok_iff.mp h
  obtain ⟨b', hb', h'⟩ := bind_eq_ok_iff.mp h'
  obtain rfl := Except.ok.inj (hb.symm.trans hb')
  obtain rfl := pure_eq_ok_iff.mp h
  obtain rfl := pure_eq_ok_iff.mp h'
  simp only [List.mem_singleton, exists_eq_left, Entry.mk.injEq, Option.some.injEq, SameKey,
    getPublicKeyByAddress_some, Env.entryAt, Prod.mk.injEq]
  grind

theorem common_reclaim {n n' : ℤ}
    (h : getLegacyAccountReclaimEntries env i address n tx block = .ok es)
    (h' : getLegacyAccountReclaimEntries env j address n' tx block = .ok es') :
    (∃ x ∈ es, x ∈ es') ↔ n = n' ∧ SameKey env i j address := by
  obtain ⟨b, hb, h⟩ := bind_eq_ok_iff.mp h
  obtain ⟨b', hb', h'⟩ := bind_eq_ok_iff.mp h'
  obtain rfl := Except.ok.inj (hb.symm.trans hb')
  obtain rfl := pure_eq_ok_iff.mp h
  obtain rfl := pure_eq_ok_iff.mp h'
  simp [SameKey, getPublicKeyByAddress_some, Env.entryAt]

/-- The note tells whether the address is the validator that is punished. -/
theorem common_punishment {p p' : String} {transfer transfer' : Option (String × String × ℤ)}
    (h : getPomEntries env i address transfer p tx block = .ok es)
    (h' : getPomEntries env j address transfer' p' tx block = .ok es') :
    (∃ x ∈ es, x ∈ es') ↔ (address = p ↔ address = p') ∧ ∃ s r n, transfer = some (s, r, n) ∧
      transfer' = some (s, r, n) ∧ SameKey env i j s ∧ SameKey env i j r := by
  obtain ⟨b, hb, h⟩ := bind_eq_ok_iff.mp h
  obtain ⟨b', hb', h'⟩ := bind_eq_ok_iff.mp h'
  obtain rfl := Except.ok.inj (hb.symm.trans hb')
  match transfer, transfer' with
  | none, _ => exact absurd h (by simp [throw, throwThe, MonadExceptOf.throw])
  | some _, none => exact absurd h' (by simp [throw, throwThe, MonadExceptOf.throw])
  | some (s, r, n), some (s', r', n') =>
    obtain rfl := pure_eq_ok_iff.mp h
    obtain rfl := pure_eq_ok_iff.mp h'
    simp only [List.mem_singleton, exists_eq_left, Entry.mk.injEq, Option.some.injEq, SameKey,
      getPublicKeyByAddress_some, Env.entryAt]
    by_cases hp : address = p <;> by_cases hp' : address = p' <;> simp [hp, hp'] <;> grind

theorem common_sharedReward {s s' v v' : String} {n n' : ℤ}
    (h : getSharedRewardsAssignedEntries env i address s v n tx block = .ok es)
    (h' : getSharedRewardsAssignedEntries env j address s' v' n' tx block = .ok es') :
    (∃ x ∈ es, x ∈ es') ↔ s = s' ∧ v = v' ∧ n = n' ∧ SameKey env i j v := by
  obtain ⟨b, hb, h⟩ := bind_eq_ok_iff.mp h
  obtain ⟨b', hb', h'⟩ := bind_eq_ok_iff.mp h'
  obtain rfl := Except.ok.inj (hb.symm.trans hb')
  obtain rfl := pure_eq_ok_iff.mp h
  obtain rfl := pure_eq_ok_iff.mp h'
  simp only [List.mem_singleton, exists_eq_left, Entry.mk.injEq, Option.some.injEq, SameKey,
    getPublicKeyByAddress_some, Env.entryAt]
  by_cases hs : address = s <;> by_cases hs' : address = s' <;> simp [hs, hs'] <;> grind

theorem common_lock (h : lockEntries env address i tx = .ok es)
    (h' : lockEntries env address j tx = .ok es') :
    (∃ x ∈ es, x ∈ es') ↔ tx.moduleCommand ≠ tokenTransferCrossChain ∧
      recipientKey env i tx (orNull tx.params.recipientAddress) =
        recipientKey env j tx (orNull tx.params.recipientAddress) := by
  rcases lockEntries_eq_ok h with ⟨hcommand, rfl⟩ | ⟨hcommand, amount, fee, hamount, hfee, rfl⟩
  · simp [hcommand]
  rcases lockEntries_eq_ok h' with ⟨hcommand', -⟩ | ⟨-, amount', fee', hamount', hfee', rfl⟩
  · exact absurd hcommand' hcommand
  obtain rfl := Except.ok.inj (hamount.symm.trans hamount')
  obtain rfl := Except.ok.inj (hfee.symm.trans hfee')
  simp [transactionEntry, hcommand]

theorem common_outgoing {r r' : String}
    (h : getOutgoingTransferCCEntries env i address r (ccmSendSuccessOf env tx) tx block = .ok es)
    (h' : getOutgoingTransferCCEntries env j address r' (ccmSendSuccessOf env tx) tx block =
      .ok es') :
    (∃ x ∈ es, x ∈ es') ↔ (ccmSendSuccessOf env tx).isSome ∨
      (r = r' ∧ recipientKey env i tx tx.params.recipientAddress =
        recipientKey env j tx tx.params.recipientAddress) := by
  obtain ⟨b, amount, fee, feeEntries, rfl, hamount, hfee, rfl, hccm⟩ :=
    getOutgoingTransferCCEntries_eq_ok h
  obtain ⟨b', amount', fee', feeEntries', hb, hamount', hfee', rfl, hccm'⟩ :=
    getOutgoingTransferCCEntries_eq_ok h'
  obtain rfl := Option.some.inj hb
  obtain rfl := Except.ok.inj (hamount.symm.trans hamount')
  obtain rfl := Except.ok.inj (hfee.symm.trans hfee')
  rcases hccm with ⟨hnone, rfl⟩ | ⟨chain, feeEntry, hsome, hentry, rfl⟩
  · rcases hccm' with ⟨-, rfl⟩ | ⟨chain', feeEntry', hsome', -⟩
    · simp [outgoingEntry, hnone, and_comm]
    · simp [hnone] at hsome'
  · rcases hccm' with ⟨hnone', -⟩ | ⟨chain', feeEntry', hsome', hentry', rfl⟩
    · simp [hsome] at hnone'
    · obtain rfl := Option.some.inj (hsome.symm.trans hsome')
      obtain rfl := Except.ok.inj (hentry.symm.trans hentry')
      simp [hsome]

theorem common_lock_outgoing {sortedBlocks : List Block} {r : String}
    (h : lockEntries env address i tx = .ok es)
    (h' : getOutgoingTransferCCEntries env j address r (ccmSendSuccessOf env tx) tx
      (blockOf env sortedBlocks tx.block.id) = .ok es') :
    (∃ x ∈ es, x ∈ es') ↔ LockAsTransfer env address sortedBlocks tx i j address r := by
  rcases lockEntries_eq_ok h with ⟨hcommand, rfl⟩ | ⟨hcommand, amount, fee, hamount, hfee, rfl⟩
  · simp only [List.not_mem_nil, false_and, exists_false, false_iff]
    exact fun hsame => hsame.command hcommand
  obtain ⟨b, amount', fee', feeEntries, hb, hamount', hfee', rfl, hccm⟩ :=
    getOutgoingTransferCCEntries_eq_ok h'
  obtain rfl := Except.ok.inj (hamount.symm.trans hamount')
  obtain rfl := Except.ok.inj (hfee.symm.trans hfee')
  -- An entry for a message fee has no amount.
  have hfeeEntries : transactionEntry env i tx amount fee ∉ feeEntries := by
    rcases hccm with ⟨-, rfl⟩ | ⟨chain, feeEntry, -, hentry, rfl⟩
    · exact List.not_mem_nil
    · intro hmem
      have hnone := (messageFeeEntry_eq_ok hentry).1
      rw [← List.mem_singleton.mp hmem] at hnone
      cases hnone
  have hentry : (∃ x ∈ [transactionEntry env i tx amount fee],
      x ∈ outgoingEntry env j address r tx b amount fee :: feeEntries) ↔
      transactionEntry env i tx amount fee = outgoingEntry env j address r tx b amount fee := by
    simp [hfeeEntries]
  rw [hentry]
  constructor
  · intro heq
    simp only [transactionEntry, outgoingEntry, Entry.mk.injEq, Option.some.injEq, true_and,
      Env.entryAt] at heq
    obtain ⟨hdate, htime, hheight, hsender, hkey, hrecipient, hrecipientKey, hnote, hsending,
      hreceiving⟩ := heq
    refine ⟨hcommand, ⟨rfl, hsender⟩, hkey, ⟨b, hb, ?_⟩, hrecipient, ?_, hnote, ?_⟩
    · rw [Env.entryAt, Env.entryAt, hdate, htime, hheight]
    · rw [← hrecipientKey, hrecipient]
    · exact Prod.ext hsending hreceiving
  · intro hsame
    obtain ⟨b', hb', hentryAt⟩ := hsame.block
    obtain rfl := Option.some.inj (hb.symm.trans hb')
    rw [transactionEntry, outgoingEntry, hentryAt, hsame.recipient, hsame.note, hsame.chainIDs,
      hsame.sender.2, hsame.senderPublicKey, hsame.recipientPublicKey]

/-- The entries for a block reward have their parts in common. -/
theorem common_blockReward {amount amount' : ℤ} {locked locked' : Option ℤ} {b b' : Block}
    (h : getBlockRewardEntries env address amount locked (some b) = .ok es)
    (h' : getBlockRewardEntries env address amount' locked' (some b') = .ok es') :
    (∃ x ∈ es, x ∈ es') ↔
      (env.entryAt b.toBlockInfo none = env.entryAt b'.toBlockInfo none ∧
        b.generatorPublicKey = b'.generatorPublicKey) ∧
      (amount - locked.getD 0 = amount' - locked'.getD 0 ∨
        ∃ part, locked = some part ∧ locked' = some part) := by
  cases locked <;> cases locked' <;> obtain rfl := Except.ok.inj h <;>
    obtain rfl := Except.ok.inj h' <;> simp [Env.entryAt] <;> grind

end Common

/-! ### Events with an entry in common -/

section Movement

variable {env : Env} {address : String} {sortedBlocks : List Block}
  {sortedTransactions : List Transaction} {sortedEvents : List Event} {i j : ℕ} {e e' : Event}
  {tx : Transaction} {other other' : List Event} {es es' : List Entry}

/-- A branch that is taken if and only if there are entries. -/
theorem of_mem_ite {p : Prop} [Decidable p] {m : Except String (List Entry)} {x : Entry}
    (h : (if p then m else pure []) = .ok es) (hx : x ∈ es) : p ∧ m = .ok es := by
  split_ifs at h with hp
  · exact ⟨hp, h⟩
  · obtain rfl := pure_eq_ok_iff.mp h
    exact absurd hx List.not_mem_nil

theorem sameMovement_of_mem {x : Entry}
    (h : movementEntries env address sortedBlocks sortedEvents i e tx other = .ok es)
    (h' : movementEntries env address sortedBlocks sortedEvents j e' tx other' = .ok es')
    (hx : x ∈ es) (hx' : x ∈ es') :
    SameMovement env address sortedBlocks sortedEvents tx i j e e' other other' := by
  have hkind : e'.data.kind = e.data.kind :=
    ((described_movement h').kind x hx').symm.trans ((described_movement h).kind x hx)
  have hcommon : ∃ x ∈ es, x ∈ es' := ⟨x, hx, hx'⟩
  have hsome : e.data.kind ≠ none ∧ e.data.kind ≠ some .blockReward := by
    refine not_or.mp fun hnone => ?_
    obtain rfl := Except.ok.inj ((movementEntries_eq_nil hnone).symm.trans h)
    exact absurd hx List.not_mem_nil
  -- The kinds agree: of all pairs of events these are left, with a lock and a cross-chain transfer
  -- counting as one kind.
  match he : e.data, he' : e'.data, hkind, hsome with
  | .lock _ _, .lock _ _, _, _ =>
    rw [movementEntries_lock he] at h
    rw [movementEntries_lock he'] at h'
    obtain ⟨hcommand, hkey⟩ := (common_lock h h').mp hcommon
    exact .lock he he' hcommand hkey
  | .lock _ _, .transferCrossChain s r, _, _ =>
    rw [movementEntries_lock he] at h
    rw [movementEntries_transferCrossChain he'] at h'
    obtain ⟨rfl, h'⟩ := of_mem_ite h' hx'
    exact .lockTransfer he he' ((common_lock_outgoing h h').mp hcommon)
  | .transferCrossChain s r, .lock _ _, _, _ =>
    rw [movementEntries_transferCrossChain he] at h
    rw [movementEntries_lock he'] at h'
    obtain ⟨rfl, h⟩ := of_mem_ite h hx
    exact .transferLock he he' ((common_lock_outgoing h' h).mp ⟨x, hx', hx⟩)
  | .transferCrossChain s r, .transferCrossChain s' r', _, _ =>
    rw [movementEntries_transferCrossChain he] at h
    rw [movementEntries_transferCrossChain he'] at h'
    obtain ⟨rfl, h⟩ := of_mem_ite h hx
    obtain ⟨rfl, h'⟩ := of_mem_ite h' hx'
    exact .transferCrossChain he he' ((common_outgoing h h').mp hcommon)
  | .generatorFeeProcessed s g n, .generatorFeeProcessed s' g' n', _, _ =>
    rw [movementEntries_generatorFee he] at h
    rw [movementEntries_generatorFee he'] at h'
    obtain ⟨rfl, rfl, rfl, rfl, hamount, hkey⟩ := (common_generatorFee h h').mp hcommon
    exact .generatorFee he he' hamount hkey
  | .ccmTransfer data, .ccmTransfer data', _, _ =>
    rw [movementEntries_incoming he] at h
    rw [movementEntries_incoming he'] at h'
    obtain ⟨hdata, h⟩ := of_mem_ite h hx
    obtain ⟨hdata', h'⟩ := of_mem_ite h' hx'
    obtain ⟨rfl, hresult, hsender, hkey⟩ := (common_incoming hdata hdata' h h').mp hcommon
    exact .incoming he he' hdata.1 hdata.2 hresult hsender hkey
  | .relayerFeeProcessed c n, .relayerFeeProcessed c' n', _, _ =>
    obtain ⟨t, s, r, ht, hchains, h⟩ := movementEntries_relayerFee he h
    obtain ⟨t', s', r', ht', hchains', h'⟩ := movementEntries_relayerFee he' h'
    obtain ⟨rfl, hamount, rfl, heq, hkey⟩ := (common_relayerFee h h').mp hcommon
    exact .relayerFee he he' hamount (ht.trans ht'.symm) (hchains.trans (heq ▸ hchains'.symm)) hkey
  | .accountReclaimed n, .accountReclaimed n', _, _ =>
    rw [movementEntries_reclaim he] at h
    rw [movementEntries_reclaim he'] at h'
    obtain ⟨htopic, h⟩ := of_mem_ite h hx
    obtain ⟨htopic', h'⟩ := of_mem_ite h' hx'
    obtain ⟨rfl, hkey⟩ := (common_reclaim h h').mp hcommon
    exact .reclaim he he' htopic htopic' hkey
  | .validatorPunished p, .validatorPunished p', _, _ =>
    rw [movementEntries_punishment he] at h
    rw [movementEntries_punishment he'] at h'
    obtain ⟨hpunished, s, r, n, ht, ht', hsender, hrecipient⟩ :=
      (common_punishment h h').mp hcommon
    exact .punishment he he' hpunished ht ht' hsender hrecipient
  | .rewardsAssigned s v n, .rewardsAssigned s' v' n', _, _ =>
    rw [movementEntries_sharedReward he] at h
    rw [movementEntries_sharedReward he'] at h'
    obtain ⟨rfl, rfl, rfl, hkey⟩ := (common_sharedReward h h').mp hcommon
    exact .sharedReward he he' hkey

theorem exists_mem_of_sameMovement
    (h : movementEntries env address sortedBlocks sortedEvents i e tx other = .ok es)
    (h' : movementEntries env address sortedBlocks sortedEvents j e' tx other' = .ok es')
    (hsame : SameMovement env address sortedBlocks sortedEvents tx i j e e' other other') :
    ∃ x ∈ es, x ∈ es' := by
  cases hsame with
  | lock he he' hcommand hkey =>
    rw [movementEntries_lock he] at h
    rw [movementEntries_lock he'] at h'
    exact (common_lock h h').mpr ⟨hcommand, hkey⟩
  | lockTransfer he he' htransfer =>
    obtain rfl := htransfer.sender.1
    rw [movementEntries_lock he] at h
    rw [movementEntries_transferCrossChain he', if_pos rfl] at h'
    exact (common_lock_outgoing h h').mpr htransfer
  | transferLock he he' htransfer =>
    obtain rfl := htransfer.sender.1
    rw [movementEntries_transferCrossChain he, if_pos rfl] at h
    rw [movementEntries_lock he'] at h'
    obtain ⟨x, hx', hx⟩ := (common_lock_outgoing h' h).mpr htransfer
    exact ⟨x, hx, hx'⟩
  | transferCrossChain he he' hsame =>
    rw [movementEntries_transferCrossChain he, if_pos rfl] at h
    rw [movementEntries_transferCrossChain he', if_pos rfl] at h'
    exact (common_outgoing h h').mpr hsame
  | generatorFee he he' hamount hkey =>
    rw [movementEntries_generatorFee he] at h
    rw [movementEntries_generatorFee he'] at h'
    exact (common_generatorFee h h').mpr ⟨rfl, rfl, rfl, rfl, hamount, hkey⟩
  | incoming he he' hrecipient hchain hresult hsender hkey =>
    rw [movementEntries_incoming he, if_pos ⟨hrecipient, hchain⟩] at h
    rw [movementEntries_incoming he', if_pos ⟨hrecipient, hchain⟩] at h'
    exact (common_incoming ⟨hrecipient, hchain⟩ ⟨hrecipient, hchain⟩ h h').mpr
      ⟨rfl, hresult, hsender, hkey⟩
  | relayerFee he he' hamount htoken hchains hkey =>
    obtain ⟨t, s, r, ht, hsr, h⟩ := movementEntries_relayerFee he h
    obtain ⟨t', s', r', ht', hsr', h'⟩ := movementEntries_relayerFee he' h'
    refine (common_relayerFee h h').mpr ⟨rfl, hamount, ?_, ?_, hkey⟩
    · exact Except.ok.inj (ht.symm.trans (htoken.trans ht'))
    · exact Except.ok.inj (hsr.symm.trans (hchains.trans hsr'))
  | reclaim he he' htopic htopic' hkey =>
    rw [movementEntries_reclaim he, if_pos htopic] at h
    rw [movementEntries_reclaim he', if_pos htopic'] at h'
    exact (common_reclaim h h').mpr ⟨rfl, hkey⟩
  | punishment he he' hpunished htransfer htransfer' hsender hrecipient =>
    rw [movementEntries_punishment he] at h
    rw [movementEntries_punishment he'] at h'
    exact (common_punishment h h').mpr
      ⟨hpunished, _, _, _, htransfer, htransfer', hsender, hrecipient⟩
  | sharedReward he he' hkey =>
    rw [movementEntries_sharedReward he] at h
    rw [movementEntries_sharedReward he'] at h'
    exact (common_sharedReward h h').mpr ⟨rfl, rfl, rfl, hkey⟩

theorem common_event (hknown : KnownByID env sortedTransactions)
    (h : eventEntries env address sortedBlocks sortedTransactions sortedEvents i e = .ok es)
    (h' : eventEntries env address sortedBlocks sortedTransactions sortedEvents j e' = .ok es') :
    (∃ x ∈ es, x ∈ es') ↔
      Twins env address sortedBlocks sortedTransactions sortedEvents i j e e' := by
  constructor
  · rintro ⟨x, hx, hx'⟩
    -- Both are parts of transactions or both are rewards, since only the first name a transaction.
    rcases partOf_or_rewardFor h hx with ⟨tx, other, hpart⟩ | ⟨amount, hreward⟩ <;>
      rcases partOf_or_rewardFor h' hx' with ⟨tx', other', hpart'⟩ | ⟨amount', hreward'⟩
    · rw [eventEntries_of_partOf hpart] at h
      rw [eventEntries_of_partOf hpart'] at h'
      obtain ⟨id, -, htx⟩ := contextOf_eq_ok hpart.context
      obtain ⟨id', -, htx'⟩ := contextOf_eq_ok hpart'.context
      have hid := ((described_movement h).id x hx).symm.trans ((described_movement h').id x hx')
      obtain rfl := hknown id id' tx tx' htx htx' (Option.some.inj hid)
      exact .inl ⟨tx, other, other', hpart, hpart', sameMovement_of_mem h h' hx hx'⟩
    · rw [eventEntries_of_partOf hpart] at h
      obtain ⟨locked, b, -, -, h'⟩ := eventEntries_of_reward_eq_ok hreward' h'
      have hid := ((described_movement h).id x hx).symm.trans ((described_blockReward h').id x hx')
      cases hid
    · obtain ⟨locked, b, -, -, h⟩ := eventEntries_of_reward_eq_ok hreward h
      rw [eventEntries_of_partOf hpart'] at h'
      have hid := ((described_blockReward h).id x hx).symm.trans ((described_movement h').id x hx')
      cases hid
    · obtain ⟨locked, b, hlocked, hb, h⟩ := eventEntries_of_reward_eq_ok hreward h
      obtain ⟨locked', b', hlocked', hb', h'⟩ := eventEntries_of_reward_eq_ok hreward' h'
      obtain ⟨⟨hat, hkey⟩, hparts⟩ := (common_blockReward h h').mp ⟨x, hx, hx'⟩
      exact .inr ⟨⟨amount, amount', hreward, hreward', locked, locked', hlocked, hlocked', hparts⟩,
        b, b', hb, hb', hat, hkey⟩
  · rintro (⟨tx, other, other', hpart, hpart', hsame⟩ | ⟨hamounts, b, b', hb, hb', hat, hkey⟩)
    · rw [eventEntries_of_partOf hpart] at h
      rw [eventEntries_of_partOf hpart'] at h'
      exact exists_mem_of_sameMovement h h' hsame
    · obtain ⟨amount, amount', hreward, hreward', locked, locked', hlocked, hlocked', hparts⟩ :=
        hamounts
      obtain ⟨_, _, hlocked₂, hb₂, h⟩ := eventEntries_of_reward_eq_ok hreward h
      obtain ⟨_, _, hlocked₂', hb₂', h'⟩ := eventEntries_of_reward_eq_ok hreward' h'
      obtain rfl := Except.ok.inj (hlocked.symm.trans hlocked₂)
      obtain rfl := Except.ok.inj (hlocked'.symm.trans hlocked₂')
      obtain rfl := Option.some.inj (hb.symm.trans hb₂)
      obtain rfl := Option.some.inj (hb'.symm.trans hb₂')
      exact (common_blockReward h h').mpr ⟨⟨hat, hkey⟩, hparts⟩

/-- **When no movement is lost.** -/
theorem nothing_lost_iff {entries : List Entry} (hknown : KnownByID env sortedTransactions)
    (hresult : getEntriesByChronology env address sortedBlocks sortedTransactions sortedEvents =
      .ok entries) :
    NothingLost env address sortedBlocks sortedTransactions sortedEvents entries ↔
      ∀ i j e e', i < j → sortedEvents[i]? = some e → sortedEvents[j]? = some e' →
        ¬ Twins env address sortedBlocks sortedTransactions sortedEvents i j e e' := by
  have hall := exists_getEntriesByChronology_iff.mp ⟨entries, hresult⟩
  have hget : ∀ i e, sortedEvents[i]? = some e → ∃ es, eventEntries env address sortedBlocks
      sortedTransactions sortedEvents i e = .ok es ∧ (eventEntries env address sortedBlocks
        sortedTransactions sortedEvents i e).toOption.getD [] = es := by
    intro i e he
    obtain ⟨es, hes⟩ := hall (e, i) (List.mk_mem_zipIdx_iff_getElem?.mpr he)
    exact ⟨es, hes, by rw [hes]; rfl⟩
  obtain ⟨entriesOf, hmap, hdrop⟩ := bind_eq_ok_iff.mp hresult
  obtain rfl := pure_eq_ok_iff.mp hdrop
  have hproduced : entriesOf.flatten =
      producedEntries env address sortedBlocks sortedTransactions sortedEvents :=
    flatten_of_mapM_eq_ok hmap
  have hlost : NothingLost env address sortedBlocks sortedTransactions sortedEvents
      (dropDuplicatesDeep entriesOf.flatten) ↔
      (producedEntries env address sortedBlocks sortedTransactions sortedEvents).Nodup := by
    rw [dropDuplicatesDeep, hproduced, ← eraseDups_perm_iff]
    refine ⟨NothingLost.separate, fun hperm => ⟨hperm, fun tokenID => ?_⟩⟩
    exact ((hperm.filter _).map _).sum_eq
  rw [hlost, producedEntries, nodup_flatMap_zipIdx_iff]
  constructor
  · rintro ⟨-, hdisjoint⟩ i j e e' hij he he' htwins
    obtain ⟨es, hes, hyield⟩ := hget i e he
    obtain ⟨es', hes', hyield'⟩ := hget j e' he'
    obtain ⟨x, hx, hx'⟩ := (common_event hknown hes hes').mpr htwins
    have hapart := hdisjoint i j e e' hij he he'
    rw [hyield, hyield'] at hapart
    exact hapart hx hx'
  · intro hapart
    refine ⟨fun i e he => ?_, fun i j e e' hij he he' => ?_⟩
    · obtain ⟨es, hes, hyield⟩ := hget i e he
      rw [hyield]
      exact nodup_eventEntries hes
    · obtain ⟨es, hes, hyield⟩ := hget i e he
      obtain ⟨es', hes', hyield'⟩ := hget j e' he'
      rw [hyield, hyield']
      exact fun x hx hx' =>
        hapart i j e e' hij he he' ((common_event hknown hes hes').mp ⟨x, hx, hx'⟩)

end Movement

/-! ### Two messages of one cross-chain update -/

/-- The account that receives. -/
def receiver : String := "klyguo9kqnea2zsfo3a6qppozsxsg92nuuma3p7ad"

/-- The update that brings both messages. -/
def updateTransaction : Transaction where
  id := "d41e8fbb909fdf44ffccef6f5b0fb5edf853f0dcf699243a0a92403d2a4f1d1d"
  moduleCommand := "interoperability:submitMainchainCrossChainUpdate"
  fee := some 165000
  executionStatus := "successful"
  sender := ⟨"klyxud8mwmw4et3zhrr6cee9q4d8thhe2b3x6yqdp",
    "1a315a7c7ccfb44ee0730f22cac4370307a7ef29710b938cff52e653cac753ad"⟩
  params := { sendingChainID := some "04000001" }
  block := rewardedBlock.toBlockInfo

/-- Two messages. -/
def messageIDs : String × String :=
  ("efcbab90c4769dc47029412010ef76623722678f446a7417f59fed998a6407de",
    "37d3b6d9ba4a4bd0aac2a35fd13ac7a6d6c2e1c1d5d0ac6b2ee75a0f1c3a5f7e")

/-- The transfer that a message makes. -/
def transferEvent (ccmID : String) (amount : ℤ) : Event where
  data := .ccmTransfer
    { senderAddress := "klyxud8mwmw4et3zhrr6cee9q4d8thhe2b3x6yqdp"
      recipientAddress := receiver
      tokenID := "0400000000000000"
      amount := amount
      receivingChainID := "04000000"
      result := 0 }
  topic0 := ccmIDPrefix ++ ccmID
  otherTopics := [receiver]
  block := rewardedBlock.toBlockInfo

/-- An earlier event of the account. -/
def earlierEvent : Event where
  data := .other "token" "initializeUserAccount"
  topic0 := txIDPrefix ++ updateTransaction.id
  otherTopics := [receiver]
  block := rewardedBlock.toBlockInfo

/-- The update announces a message before its commands. -/
def announceEvent (ccmID : String) : Event where
  data := .beforeCCCExecution ccmID "0400000000000000"
  topic0 := txIDPrefix ++ updateTransaction.id
  otherTopics := []
  block := rewardedBlock.toBlockInfo

/-- An indexer that has the events of the block. -/
def updateEnv : Env :=
  { rewardEnv with getEvents := fun _ => [announceEvent messageIDs.1, announceEvent messageIDs.2] }

/-- The events of the account: each message transfers an amount. -/
def transferEvents (amount amount' : ℤ) : List Event :=
  [earlierEvent, transferEvent messageIDs.1 amount, transferEvent messageIDs.2 amount']

theorem knownByID_updateTransaction : KnownByID updateEnv [updateTransaction] := by
  have honly : ∀ id tx, transactionOf updateEnv [updateTransaction] id = .ok tx →
      tx = updateTransaction := by
    intro id tx htx
    rw [transactionOf, List.find?_singleton] at htx
    split_ifs at htx
    · exact (pure_eq_ok_iff.mp htx).symm
    · cases htx
  intro id id' tx tx' htx htx' _
  rw [honly id tx htx, honly id' tx' htx']

/-- Different amounts are told apart. -/
theorem not_twins_transferEvents {amount amount' : ℤ} (hne : amount ≠ amount') {i j : ℕ}
    {e e' : Event} (hij : i < j) (he : (transferEvents amount amount')[i]? = some e)
    (he' : (transferEvents amount amount')[j]? = some e') :
    ¬ Twins updateEnv receiver [rewardedBlock] [updateTransaction]
      (transferEvents amount amount') i j e e' := by
  have hdata : ((transferEvents amount amount').map Event.data).Nodup := by
    simp [transferEvents, earlierEvent, transferEvent, hne]
  have hapart : e.data ≠ e'.data := by
    obtain ⟨hj, -⟩ := List.getElem?_eq_some_iff.mp he'
    have hget := List.nodup_iff_getElem?_ne_getElem?.mp hdata i j hij (by simpa using hj)
    rw [List.getElem?_map, List.getElem?_map, he, he'] at hget
    exact fun heq => hget (congrArg some heq)
  have hkind : e.data.kind = none ∨ e.data.kind = some .incoming := by
    have hmem := List.mem_of_getElem? he
    simp only [transferEvents, List.mem_cons, List.not_mem_nil, or_false] at hmem
    rcases hmem with rfl | rfl | rfl
    · exact .inl rfl
    · exact .inr rfl
    · exact .inr rfl
  rintro (⟨tx, other, other', -, -, hsame⟩ | ⟨⟨_, _, hreward, -⟩, -⟩)
  · cases hsame <;> simp_all [EventData.kind]
  · rw [Event.rewardFor] at hreward
    split at hreward <;> simp_all [EventData.kind]

/-- The amounts are the sum of the entries for different amounts. -/
theorem nothing_lost_apart : ∃ entries,
    KnownByID updateEnv [updateTransaction] ∧
      getEntriesByChronology updateEnv receiver [rewardedBlock] [updateTransaction]
        (transferEvents 100000000 200000000) = .ok entries ∧
      NothingLost updateEnv receiver [rewardedBlock] [updateTransaction]
        (transferEvents 100000000 200000000) entries := by
  have hamounts : (getEntriesByChronology updateEnv receiver [rewardedBlock] [updateTransaction]
      (transferEvents 100000000 200000000)).map (·.map Entry.amount) =
        .ok [some 100000000, some 200000000] := by decide +kernel
  obtain ⟨entries, hresult, -⟩ := map_eq_ok_iff.mp hamounts
  refine ⟨entries, knownByID_updateTransaction, hresult,
    (nothing_lost_iff knownByID_updateTransaction hresult).mpr ?_⟩
  exact fun i j e e' => not_twins_transferEvents (by decide)

/-- Of two equal transfers only one is exported. -/
theorem equal_transfers_merged : ∃ entries,
    getEntriesByChronology updateEnv receiver [rewardedBlock] [updateTransaction]
        (transferEvents 100000000 100000000) = .ok entries ∧
      entries.map Entry.amount = [some 100000000] ∧
      (producedEntries updateEnv receiver [rewardedBlock] [updateTransaction]
        (transferEvents 100000000 100000000)).map Entry.amount =
          [some 100000000, some 100000000] ∧
      ¬ NothingLost updateEnv receiver [rewardedBlock] [updateTransaction]
        (transferEvents 100000000 100000000) entries := by
  obtain ⟨hmerged, hproduced⟩ :
      (getEntriesByChronology updateEnv receiver [rewardedBlock] [updateTransaction]
        (transferEvents 100000000 100000000)).map (·.map Entry.amount) = .ok [some 100000000] ∧
      (producedEntries updateEnv receiver [rewardedBlock] [updateTransaction]
        (transferEvents 100000000 100000000)).map Entry.amount =
          [some 100000000, some 100000000] := by decide +kernel
  obtain ⟨entries, hresult, hamounts⟩ := map_eq_ok_iff.mp hmerged
  refine ⟨entries, hresult, hamounts, hproduced, fun h => ?_⟩
  -- One amount is no permutation of two.
  have hlength := (h.separate.map Entry.amount).length_eq
  rw [hamounts, hproduced] at hlength
  simp at hlength

end Export

end SwaptoshiService
