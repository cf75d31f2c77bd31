import Mathlib.Data.List.Nodup
import SwaptoshiService.Export.BlockRewards

/-!
# Kinds of entries

An event that is exported is of one kind: a payment, a fee, a reward and so on. All its entries are
of this kind, and are entries of the transaction of the event, or of none if it is a block reward
(`described_movement`, `described_blockReward`). The kind can be read off an entry: only payments
have a fee, and the notes tell the others apart.
-/

namespace SwaptoshiService

namespace Export

/-! ### Kinds of movements -/

/-- What an entry is about. -/
inductive MovementKind
  | payment
  | generatorFee
  | incoming
  | relayerFee
  | reclaim
  | punishment
  | sharedReward
  | blockReward
deriving DecidableEq

/-- What an event is about, if it has an entry at all. -/
def EventData.kind : EventData → Option MovementKind
  | .lock _ _ | .transferCrossChain _ _ => some .payment
  | .generatorFeeProcessed _ _ _ => some .generatorFee
  | .ccmTransfer _ => some .incoming
  | .relayerFeeProcessed _ _ => some .relayerFee
  | .accountReclaimed _ => some .reclaim
  | .validatorPunished _ => some .punishment
  | .rewardsAssigned _ _ _ => some .sharedReward
  | .mint _ => some .blockReward
  | _ => none

/-- The notes of the entries without a fee. -/
def noteKinds : List (String × MovementKind) :=
  [("Message Fee", .payment),
    ("Generator Fee", .generatorFee),
    ("Incoming CCM from specified CCU transactionID", .incoming),
    ("Message fee for relayer", .relayerFee),
    ("Legacy account balance reclaimed", .reclaim),
    ("PoM punishment validator reward deduction", .punishment),
    ("PoM successful report reward", .punishment),
    ("Custodial shared rewards transfer to the staker", .sharedReward),
    ("Block generation reward (commission + self-stake)", .blockReward),
    ("Block generation reward (custodial shared rewards locked)", .blockReward)]

/-- The kind of an entry: only payments have a fee, and the note tells the others apart. -/
def Entry.kind (x : Entry) : Option MovementKind :=
  if x.fee.isSome then some .payment else x.note.bind fun note => List.lookup note noteKinds

/-! ### Events of a transaction -/

section Context

variable (env : Env) (address : String) (sortedBlocks : List Block)
  (sortedTransactions : List Transaction) (sortedEvents : List Event)

/-- The transaction of the event `i`, and `otherNecessaryEvents`. -/
def contextOf (i : ℕ) (e : Event) : Except String (Transaction × List Event) := do
  let (transactionID, otherNecessaryEvents) ← transactionIDOf env sortedEvents i e
  let tx ← transactionOf env sortedTransactions transactionID
  pure (tx, otherNecessaryEvents)

/-- The event `i` is worked on as one of the transaction. -/
structure PartOf (i : ℕ) (e : Event) (tx : Transaction) (other : List Event) : Prop where
  length : e.topic0.length = lengthID + txIDPrefix.length ∨
    e.topic0.length = lengthID + ccmIDPrefix.length
  context : contextOf env sortedTransactions sortedEvents i e = .ok (tx, other)
  /-- Only shared rewards do without the prefix. -/
  topic : (hasID txIDPrefix e.topic0 ∨ hasID ccmIDPrefix e.topic0) ∨
    e.data.kind = some .sharedReward

/-- The entries for an event of a transaction, of one kind. -/
def movementEntries (i : ℕ) (e : Event) (tx : Transaction) (other : List Event) :
    Except String (List Entry) :=
  if e.data.kind = some .sharedReward then
    sharedRewardEntries env address i e tx (blockOf env sortedBlocks tx.block.id)
  else
    transactionEntries env address sortedEvents i e tx (blockOf env sortedBlocks tx.block.id) other

end Context

/-! ### The entries for payments -/

section Payments

variable {env : Env} {address : String} {tx : Transaction} {block : Option Block} {i : ℕ}
  {es : List Entry}

/-- The public key of the recipient of a transaction. -/
def recipientKey (env : Env) (i : ℕ) (tx : Transaction) (recipientAddress : Option String) :
    Option String :=
  (orNull tx.recipientPublicKey).or (env.getPublicKeyByAddress i recipientAddress)

/-- The entry for a transaction with the amount and the fee. -/
def transactionEntry (env : Env) (i : ℕ) (tx : Transaction) (amount : Option ℤ) (fee : ℤ) : Entry :=
  { env.entryAt tx.block (some tx.id) with
    moduleCommand := some tx.moduleCommand
    fee := some fee
    txFeeTokenID := some env.feeTokenID
    amount := amount
    amountTokenID := tx.params.tokenID
    senderAddress := some tx.sender.address
    senderPublicKey := tx.senderPublicKey
    recipientAddress := orNull tx.params.recipientAddress
    recipientPublicKey := recipientKey env i tx (orNull tx.params.recipientAddress)
    note := orNull tx.params.data
    sendingChainID := (resolveChainIDs tx env.currentChainID).1
    receivingChainID := (resolveChainIDs tx env.currentChainID).2 }

theorem formatTransaction_eq_ok {x : Entry} (h : formatTransaction env i address tx = .ok x) :
    ∃ amount fee, normalizeTransactionAmount address tx env.currentChainID = .ok amount ∧
      normalizeTransactionFee address tx = .ok fee ∧ x = transactionEntry env i tx amount fee := by
  obtain ⟨amount, hamount, h⟩ := bind_eq_ok_iff.mp h
  obtain ⟨fee, hfee, h⟩ := bind_eq_ok_iff.mp h
  exact ⟨amount, fee, hamount, hfee, (pure_eq_ok_iff.mp h).symm⟩

/-- A transfer to oneself has a second entry without a fee, which throws. -/
theorem lockEntries_eq_ok (h : lockEntries env address i tx = .ok es) :
    (tx.moduleCommand = tokenTransferCrossChain ∧ es = []) ∨
      (tx.moduleCommand ≠ tokenTransferCrossChain ∧ ∃ amount fee,
        normalizeTransactionAmount address tx env.currentChainID = .ok amount ∧
          normalizeTransactionFee address tx = .ok fee ∧
            es = [transactionEntry env i tx amount fee]) := by
  rw [lockEntries] at h
  split_ifs at h with hcommand hself
  · exact .inl ⟨hcommand, (pure_eq_ok_iff.mp h).symm⟩
  · obtain ⟨entry, -, h⟩ := bind_eq_ok_iff.mp h
    obtain ⟨dupEntry, hdup, -⟩ := bind_eq_ok_iff.mp h
    obtain ⟨_, _, -, hfee, -⟩ := formatTransaction_eq_ok hdup
    obtain ⟨_, hfee, -⟩ := bind_eq_ok_iff.mp hfee
    exact absurd hfee (by simp [bigInt, throw, throwThe, MonadExceptOf.throw])
  · obtain ⟨entry, hentry, h⟩ := bind_eq_ok_iff.mp h
    obtain ⟨amount, fee, hamount, hfee, rfl⟩ := formatTransaction_eq_ok hentry
    exact .inr ⟨hcommand, amount, fee, hamount, hfee, (pure_eq_ok_iff.mp h).symm⟩

/-- The entry for an outgoing transfer with the amount and the fee. -/
def outgoingEntry (env : Env) (i : ℕ) (address receivingChainID : String) (tx : Transaction)
    (block : Block) (amount : Option ℤ) (fee : ℤ) : Entry :=
  { env.entryAt block.toBlockInfo (some tx.id) with
    moduleCommand := some tx.moduleCommand
    fee := some fee
    txFeeTokenID := some env.feeTokenID
    amount := amount
    amountTokenID := tx.params.tokenID
    senderAddress := some address
    senderPublicKey := some tx.sender.publicKey
    recipientAddress := tx.params.recipientAddress
    recipientPublicKey := recipientKey env i tx tx.params.recipientAddress
    note := tx.params.data
    sendingChainID := some env.currentChainID
    receivingChainID := some receivingChainID }

theorem getOutgoingTransferCCEntries_eq_ok {r : String} {ccm : Option String}
    (h : getOutgoingTransferCCEntries env i address r ccm tx block = .ok es) :
    ∃ b amount fee feeEntries, block = some b ∧
      normalizeTransactionAmount address tx env.currentChainID = .ok amount ∧
      normalizeTransactionFee address tx = .ok fee ∧
      es = outgoingEntry env i address r tx b amount fee :: feeEntries ∧
      (ccm = none ∧ feeEntries = [] ∨ ∃ chain feeEntry, ccm = some chain ∧
        messageFeeEntry env chain tx b = .ok feeEntry ∧ feeEntries = [feeEntry]) := by
  obtain ⟨b, hb, h⟩ := bind_eq_ok_iff.mp h
  obtain ⟨fee, hfee, h⟩ := bind_eq_ok_iff.mp h
  obtain ⟨amount, hamount, h⟩ := bind_eq_ok_iff.mp h
  have hblock : block = some b := by
    cases block with
    | none => exact absurd hb (by simp [readBlock, throw, throwThe, MonadExceptOf.throw])
    | some b' => exact congrArg some (pure_eq_ok_iff.mp hb)
  cases ccm with
  | none =>
    exact ⟨b, amount, fee, [], hblock, hamount, hfee, (pure_eq_ok_iff.mp h).symm, .inl ⟨rfl, rfl⟩⟩
  | some chain =>
    obtain ⟨feeEntry, hentry, h⟩ := bind_eq_ok_iff.mp h
    exact ⟨b, amount, fee, [feeEntry], hblock, hamount, hfee, (pure_eq_ok_iff.mp h).symm,
      .inr ⟨chain, feeEntry, rfl, hentry, rfl⟩⟩

/-- The entry for the message fee has no fee itself. -/
theorem messageFeeEntry_eq_ok {chain : String} {b : Block} {x : Entry}
    (h : messageFeeEntry env chain tx b = .ok x) :
    x.fee = none ∧ x.note = some "Message Fee" ∧ x.transactionID = some tx.id := by
  obtain ⟨fee, -, h⟩ := bind_eq_ok_iff.mp h
  obtain rfl := pure_eq_ok_iff.mp h
  exact ⟨rfl, rfl, rfl⟩

end Payments

/-! ### The entries for an event -/

section Movement

variable {env : Env} {address : String} {sortedBlocks : List Block}
  {sortedTransactions : List Transaction} {sortedEvents : List Event} {i : ℕ} {e : Event}
  {tx : Transaction} {other : List Event} {es : List Entry}

theorem contextOf_eq_ok (h : contextOf env sortedTransactions sortedEvents i e = .ok (tx, other)) :
    ∃ id, transactionIDOf env sortedEvents i e = .ok (id, other) ∧
      transactionOf env sortedTransactions id = .ok tx := by
  obtain ⟨⟨id, others⟩, hid, h⟩ := bind_eq_ok_iff.mp h
  obtain ⟨tx', htx, h⟩ := bind_eq_ok_iff.mp h
  obtain ⟨rfl, rfl⟩ := Prod.mk.inj (pure_eq_ok_iff.mp h)
  exact ⟨id, hid, htx⟩

theorem transactionEntries_of_sharedReward {block : Option Block}
    (h : e.data.kind = some .sharedReward) :
    transactionEntries env address sortedEvents i e tx block other = .ok [] := by
  cases hdata : e.data <;> simp [hdata, EventData.kind] at h
  rw [transactionEntries, hdata]
  rfl

theorem sharedRewardEntries_of_kind_ne {block : Option Block}
    (h : e.data.kind ≠ some .sharedReward) :
    sharedRewardEntries env address i e tx block = .ok [] := by
  rw [sharedRewardEntries]
  split
  · next hdata => exact absurd (by rw [hdata]; rfl) h
  · rfl

theorem eventEntries_of_partOf
    (h : PartOf env sortedTransactions sortedEvents i e tx other) :
    eventEntries env address sortedBlocks sortedTransactions sortedEvents i e =
      movementEntries env address sortedBlocks sortedEvents i e tx other := by
  obtain ⟨id, hid, htx⟩ := contextOf_eq_ok h.context
  rw [eventEntries, movementEntries]
  simp only [if_pos h.length, hid, htx, bind, Except.bind]
  by_cases hshared : e.data.kind = some .sharedReward
  · rw [if_pos hshared, transactionEntries_of_sharedReward hshared]
    cases sharedRewardEntries env address i e tx (blockOf env sortedBlocks tx.block.id) <;>
      simp [pure, Except.pure]
  · rw [if_neg hshared, if_pos (h.topic.resolve_right hshared),
      sharedRewardEntries_of_kind_ne hshared]
    cases transactionEntries env address sortedEvents i e tx (blockOf env sortedBlocks tx.block.id)
      other <;> simp [pure, Except.pure]

/-- An event with an entry is one of a transaction or a block reward. -/
theorem partOf_or_rewardFor {x : Entry}
    (h : eventEntries env address sortedBlocks sortedTransactions sortedEvents i e = .ok es)
    (hx : x ∈ es) :
    (∃ tx other, PartOf env sortedTransactions sortedEvents i e tx other) ∨
      ∃ amount, e.rewardFor address = some amount := by
  rw [eventEntries] at h
  simp only at h
  by_cases hlength : e.topic0.length = lengthID + txIDPrefix.length ∨
      e.topic0.length = lengthID + ccmIDPrefix.length
  · rw [if_pos hlength] at h
    obtain ⟨⟨id, other⟩, hid, h⟩ := bind_eq_ok_iff.mp h
    obtain ⟨tx, htx, h⟩ := bind_eq_ok_iff.mp h
    have hcontext : contextOf env sortedTransactions sortedEvents i e = .ok (tx, other) := by
      rw [contextOf, hid]
      simp only [bind, Except.bind, htx, pure, Except.pure]
    refine .inl ⟨tx, other, hlength, hcontext, ?_⟩
    -- Without the prefix and without shared rewards there are no entries.
    by_contra hnone
    obtain ⟨hlabel, hkind⟩ := not_or.mp hnone
    rw [if_neg hlabel, sharedRewardEntries_of_kind_ne hkind] at h
    obtain rfl := pure_eq_ok_iff.mp h
    exact absurd hx List.not_mem_nil
  rw [if_neg hlength] at h
  split_ifs at h with hdefault
  · rw [blockEntries] at h
    split at h
    · next amount hdata =>
      split_ifs at h with htopic
      · exact .inr ⟨amount, by rw [Event.rewardFor, hdata]; exact if_pos ⟨hdefault, htopic⟩⟩
      · obtain rfl := pure_eq_ok_iff.mp h
        exact absurd hx List.not_mem_nil
    · obtain rfl := pure_eq_ok_iff.mp h
      exact absurd hx List.not_mem_nil
  · obtain rfl := pure_eq_ok_iff.mp h
    exact absurd hx List.not_mem_nil

theorem movementEntries_lock {a : String} {n : ℤ} (he : e.data = .lock a n) :
    movementEntries env address sortedBlocks sortedEvents i e tx other =
      lockEntries env address i tx := by
  simp [movementEntries, transactionEntries, he, EventData.kind]

theorem movementEntries_transferCrossChain {s r : String}
    (he : e.data = .transferCrossChain s r) :
    movementEntries env address sortedBlocks sortedEvents i e tx other =
      if s = address then getOutgoingTransferCCEntries env i address r (ccmSendSuccessOf env tx) tx
        (blockOf env sortedBlocks tx.block.id)
      else pure [] := by
  simp [movementEntries, transactionEntries, he, EventData.kind]

theorem movementEntries_generatorFee {s g : String} {n : ℤ}
    (he : e.data = .generatorFeeProcessed s g n) :
    movementEntries env address sortedBlocks sortedEvents i e tx other =
      getGeneratorFeeEntries env i address s g n tx (blockOf env sortedBlocks tx.block.id) := by
  simp [movementEntries, transactionEntries, he, EventData.kind]

theorem movementEntries_incoming {data : CcmTransferData} (he : e.data = .ccmTransfer data) :
    movementEntries env address sortedBlocks sortedEvents i e tx other =
      if data.recipientAddress = address ∧ data.receivingChainID = env.currentChainID then
        getIncomingTransferCCEntries env i address data tx (blockOf env sortedBlocks tx.block.id)
      else pure [] := by
  simp [movementEntries, transactionEntries, he, EventData.kind]

theorem movementEntries_relayerFee {c : String} {n : ℤ} (he : e.data = .relayerFeeProcessed c n)
    (h : movementEntries env address sortedBlocks sortedEvents i e tx other = .ok es) :
    ∃ t s r, messageFeeTokenIDOf (sortedEvents ++ other) c (getCcmIDFromTopic0 e.topic0) = .ok t ∧
      ccmChainIDsOf (sortedEvents ++ other) e.topic0 (getCcmIDFromTopic0 e.topic0) = .ok (s, r) ∧
      getMessageFeeEntries env i address n tx (blockOf env sortedBlocks tx.block.id) t s r =
        .ok es := by
  simp only [movementEntries, transactionEntries, he, EventData.kind, reduceCtorEq, if_false,
    Option.some.injEq] at h
  obtain ⟨t, ht, h⟩ := bind_eq_ok_iff.mp h
  obtain ⟨⟨s, r⟩, hchains, h⟩ := bind_eq_ok_iff.mp h
  exact ⟨t, s, r, ht, hchains, h⟩

theorem movementEntries_reclaim {n : ℤ} (he : e.data = .accountReclaimed n) :
    movementEntries env address sortedBlocks sortedEvents i e tx other =
      if e.topics[2]? = some address then
        getLegacyAccountReclaimEntries env i address n tx (blockOf env sortedBlocks tx.block.id)
      else pure [] := by
  simp [movementEntries, transactionEntries, he, EventData.kind]

theorem movementEntries_punishment {p : String} (he : e.data = .validatorPunished p) :
    movementEntries env address sortedBlocks sortedEvents i e tx other =
      getPomEntries env i address (transferOf (sortedEvents ++ other) tx) p tx
        (blockOf env sortedBlocks tx.block.id) := by
  simp [movementEntries, transactionEntries, he, EventData.kind]

theorem movementEntries_sharedReward {s v : String} {n : ℤ}
    (he : e.data = .rewardsAssigned s v n) :
    movementEntries env address sortedBlocks sortedEvents i e tx other =
      getSharedRewardsAssignedEntries env i address s v n tx
        (blockOf env sortedBlocks tx.block.id) := by
  simp [movementEntries, sharedRewardEntries, he, EventData.kind]

/-- The other events have no entry. -/
theorem movementEntries_eq_nil (he : e.data.kind = none ∨ e.data.kind = some .blockReward) :
    movementEntries env address sortedBlocks sortedEvents i e tx other = .ok [] := by
  cases hdata : e.data <;> simp [hdata, EventData.kind] at he <;>
    simp [movementEntries, transactionEntries, hdata, EventData.kind, pure, Except.pure]

/-! ### What the entries of an event are like -/

/-- The entries of an event: they are of its kind, of its transaction, and not equal. -/
structure Described (kind : Option MovementKind) (id : Option String) (es : List Entry) : Prop where
  nodup : es.Nodup
  kind : ∀ x ∈ es, x.kind = kind
  id : ∀ x ∈ es, x.transactionID = id

theorem Described.nil {kind : Option MovementKind} {id : Option String} : Described kind id [] :=
  ⟨List.nodup_nil, by simp, by simp⟩

theorem Described.single {kind : Option MovementKind} {id : Option String} {x : Entry}
    (hkind : x.kind = kind) (hid : x.transactionID = id) : Described kind id [x] :=
  ⟨List.nodup_singleton x, by simpa using hkind, by simpa using hid⟩

theorem Described.pair {kind : Option MovementKind} {id : Option String} {x y : Entry} (hxy : x ≠ y)
    (hx : x.kind = kind) (hy : y.kind = kind) (hxid : x.transactionID = id)
    (hyid : y.transactionID = id) : Described kind id [x, y] :=
  ⟨by simpa using hxy, by simp [hx, hy], by simp [hxid, hyid]⟩

theorem described_lock (h : lockEntries env address i tx = .ok es) :
    Described (some .payment) (some tx.id) es := by
  rcases lockEntries_eq_ok h with ⟨-, rfl⟩ | ⟨-, amount, fee, -, -, rfl⟩
  · exact .nil
  · exact .single rfl rfl

theorem described_outgoing {r : String} {ccm : Option String} {block : Option Block}
    (h : getOutgoingTransferCCEntries env i address r ccm tx block = .ok es) :
    Described (some .payment) (some tx.id) es := by
  obtain ⟨b, amount, fee, feeEntries, -, -, -, rfl, hccm⟩ := getOutgoingTransferCCEntries_eq_ok h
  rcases hccm with ⟨-, rfl⟩ | ⟨chain, feeEntry, -, hentry, rfl⟩
  · exact .single rfl rfl
  · obtain ⟨hfee, hnote, hid⟩ := messageFeeEntry_eq_ok hentry
    refine .pair ?_ rfl ?_ rfl hid
    · rintro rfl
      cases hfee
    · rw [Entry.kind, hfee, hnote]
      rfl

theorem described_generatorFee {s g : String} {n : ℤ} {block : Option Block}
    (h : getGeneratorFeeEntries env i address s g n tx block = .ok es) :
    Described (some .generatorFee) (some tx.id) es := by
  rw [getGeneratorFeeEntries] at h
  split_ifs at h
  · obtain rfl := pure_eq_ok_iff.mp h
    exact .nil
  · obtain rfl := pure_eq_ok_iff.mp h
    exact .nil
  · obtain ⟨b, -, h⟩ := bind_eq_ok_iff.mp h
    obtain rfl := pure_eq_ok_iff.mp h
    exact .single rfl rfl

theorem described_incoming {data : CcmTransferData} {block : Option Block}
    (h : getIncomingTransferCCEntries env i address data tx block = .ok es) :
    Described (some .incoming) (some tx.id) es := by
  rw [getIncomingTransferCCEntries] at h
  split_ifs at h
  · obtain rfl := pure_eq_ok_iff.mp h
    exact .nil
  · obtain ⟨b, -, h⟩ := bind_eq_ok_iff.mp h
    obtain rfl := pure_eq_ok_iff.mp h
    exact .single rfl rfl

theorem described_relayerFee {n : ℤ} {t c r : String} {block : Option Block}
    (h : getMessageFeeEntries env i address n tx block t c r = .ok es) :
    Described (some .relayerFee) (some tx.id) es := by
  rw [getMessageFeeEntries] at h
  split_ifs at h
  · obtain rfl := pure_eq_ok_iff.mp h
    exact .nil
  · obtain ⟨b, -, h⟩ := bind_eq_ok_iff.mp h
    obtain rfl := pure_eq_ok_iff.mp h
    exact .single rfl rfl

theorem described_reclaim {n : ℤ} {block : Option Block}
    (h : getLegacyAccountReclaimEntries env i address n tx block = .ok es) :
    Described (some .reclaim) (some tx.id) es := by
  obtain ⟨b, -, h⟩ := bind_eq_ok_iff.mp h
  obtain rfl := pure_eq_ok_iff.mp h
  exact .single rfl rfl

theorem described_punishment {p : String} {transfer : Option (String × String × ℤ)}
    {block : Option Block} (h : getPomEntries env i address transfer p tx block = .ok es) :
    Described (some .punishment) (some tx.id) es := by
  obtain ⟨b, -, h⟩ := bind_eq_ok_iff.mp h
  match transfer with
  | none => exact absurd h (by simp [throw, throwThe, MonadExceptOf.throw])
  | some (s, r, n) =>
    obtain rfl := pure_eq_ok_iff.mp h
    refine .single ?_ rfl
    -- The note says which of the two the address is.
    by_cases hp : address = p
    · simp only [if_pos hp]
      rfl
    · simp only [if_neg hp]
      rfl

theorem described_sharedReward {s v : String} {n : ℤ} {block : Option Block}
    (h : getSharedRewardsAssignedEntries env i address s v n tx block = .ok es) :
    Described (some .sharedReward) (some tx.id) es := by
  obtain ⟨b, -, h⟩ := bind_eq_ok_iff.mp h
  obtain rfl := pure_eq_ok_iff.mp h
  exact .single rfl rfl

theorem described_movement
    (h : movementEntries env address sortedBlocks sortedEvents i e tx other = .ok es) :
    Described e.data.kind (some tx.id) es := by
  rw [movementEntries] at h
  split_ifs at h with hshared
  · rw [hshared]
    rw [sharedRewardEntries] at h
    split at h
    · exact described_sharedReward h
    · obtain rfl := pure_eq_ok_iff.mp h
      exact .nil
  rw [transactionEntries] at h
  simp only at h
  split at h
  case h_1 hdata =>
    rw [hdata]
    exact described_lock h
  case h_2 hdata =>
    rw [hdata]
    exact described_generatorFee h
  case h_3 hdata =>
    rw [hdata]
    split_ifs at h
    · exact described_outgoing h
    · obtain rfl := pure_eq_ok_iff.mp h
      exact .nil
  case h_4 hdata =>
    rw [hdata]
    split_ifs at h
    · exact described_incoming h
    · obtain rfl := pure_eq_ok_iff.mp h
      exact .nil
  case h_5 hdata =>
    rw [hdata]
    obtain ⟨t, -, h⟩ := bind_eq_ok_iff.mp h
    obtain ⟨chains, -, h⟩ := bind_eq_ok_iff.mp h
    exact described_relayerFee h
  case h_6 hdata =>
    rw [hdata]
    split_ifs at h
    · exact described_reclaim h
    · obtain rfl := pure_eq_ok_iff.mp h
      exact .nil
  case h_7 hdata =>
    rw [hdata]
    exact described_punishment h
  case h_8 =>
    obtain rfl := pure_eq_ok_iff.mp h
    exact .nil

theorem described_blockReward {amount : ℤ} {locked : Option ℤ} {b : Block}
    (h : getBlockRewardEntries env address amount locked (some b) = .ok es) :
    Described (some .blockReward) none es := by
  cases locked with
  | none =>
    obtain rfl := Except.ok.inj h
    exact .single rfl rfl
  | some part =>
    obtain rfl := Except.ok.inj h
    exact .pair (by simp) rfl rfl rfl rfl

theorem eventEntries_of_reward_eq_ok {amount : ℤ} (hreward : e.rewardFor address = some amount)
    (h : eventEntries env address sortedBlocks sortedTransactions sortedEvents i e = .ok es) :
    ∃ locked b, lockedAfter address sortedEvents i = .ok locked ∧
      (sortedBlocks.find? fun b => b.id = e.block.id) = some b ∧
      getBlockRewardEntries env address amount locked (some b) = .ok es := by
  rw [eventEntries_of_reward hreward] at h
  obtain ⟨locked, hlocked, h⟩ := bind_eq_ok_iff.mp h
  cases hb : sortedBlocks.find? fun b => b.id = e.block.id with
  | none =>
    rw [hb] at h
    exact absurd h (getBlockRewardEntries_none env address amount locked es)
  | some b => exact ⟨locked, b, hlocked, rfl, hb ▸ h⟩

theorem nodup_eventEntries
    (h : eventEntries env address sortedBlocks sortedTransactions sortedEvents i e = .ok es) :
    es.Nodup := by
  rcases List.eq_nil_or_concat es with rfl | ⟨l, x, hes⟩
  · exact List.nodup_nil
  have hx : x ∈ es := by simp [hes]
  rcases partOf_or_rewardFor h hx with ⟨tx, other, hpart⟩ | ⟨amount, hreward⟩
  · rw [eventEntries_of_partOf hpart] at h
    exact (described_movement h).nodup
  · obtain ⟨locked, b, -, -, h⟩ := eventEntries_of_reward_eq_ok hreward h
    exact (described_blockReward h).nodup

end Movement

end Export

end SwaptoshiService
