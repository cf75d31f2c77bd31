import SwaptoshiService.Export.Entries

/-!
# The history in the order of events

`getEntriesByChronology` (`transactionsExport.js`) goes through the events of an account in their
order, finds the transaction and the block an event belongs to, and adds the entries for the event.
Which entries these are depends on the module and the name of the event, and on the length and the
prefix of its first topic: of the ID of a transaction, of the ID of a message from another chain, or
of neither. At the end equal entries are dropped (`dropDuplicatesDeep`).

An event is worked on with the whole list of events at hand, but without the entries so far. So
the history is complete if and only if no event throws (`exists_getEntriesByChronology_iff`), and
has the entries of its events.
-/

namespace SwaptoshiService

namespace Export

/-! ### Topics -/

/-- `LENGTH_ID`. -/
def lengthID : ℕ := 64

/-- `LENGTH_DEFAULT_TOPIC`. -/
def lengthDefaultTopic : ℕ := 2

/-- `EVENT_TOPIC_PREFIX.TX_ID`. -/
def txIDPrefix : String := "04"

/-- `EVENT_TOPIC_PREFIX.CCM_ID`. -/
def ccmIDPrefix : String := "05"

/-- `topic0.startsWith(topicPrefix) && topic0.length === topicPrefix.length + LENGTH_ID`. -/
def hasID (topicPrefix topic0 : String) : Prop :=
  topicPrefix.toList <+: topic0.toList ∧ topic0.length = topicPrefix.length + lengthID

instance (topicPrefix topic0 : String) : Decidable (hasID topicPrefix topic0) :=
  inferInstanceAs (Decidable (_ ∧ _))

/-- The ID in a topic, if it is of the kind of the prefix. -/
def idFromTopic0 (topicPrefix topic0 : String) : Option String :=
  if hasID topicPrefix topic0 then
    some (String.ofList (topic0.toList.drop topicPrefix.length))
  else none

/-- `getTransactionIDFromTopic0(topic0)`. -/
def getTransactionIDFromTopic0 (topic0 : String) : Option String := idFromTopic0 txIDPrefix topic0

/-- `getCcmIDFromTopic0(topic0)`. -/
def getCcmIDFromTopic0 (topic0 : String) : Option String := idFromTopic0 ccmIDPrefix topic0

/-! ### Looking for events -/

/-- The `token:beforeCCCExecution` event of a message. -/
def Event.isBeforeCCCExecution (ccmID : String) (e : Event) : Bool :=
  match e.data with
  | .beforeCCCExecution id _ => id = ccmID
  | _ => false

/-- An access to `sortedEvents[j].module`. -/
def eventAt (events : List Event) (j : ℕ) : Except String Event :=
  match events[j]? with
  | some e => pure e
  | none => throw "Cannot read properties of undefined (reading 'module')"

/-- The loop `while (j--)`. -/
def searchBack (events : List Event) (ccmID : String) : ℕ → Except String (Option Event)
  | 0 => pure none
  | j + 1 => do
    let prevEvent ← eventAt events j
    if prevEvent.isBeforeCCCExecution ccmID then pure (some prevEvent)
    else searchBack events ccmID j

/-- The search through the events before the event `i`, from `j = i - 1`. -/
def findPrevious (events : List Event) (ccmID : String) (i : ℕ) :
    Except String (Option Event) :=
  match i with
  -- `j` is -1 and goes on to -2, where there is no event.
  | 0 => throw "Cannot read properties of undefined (reading 'module')"
  | i + 1 => searchBack events ccmID i

section Events

variable (env : Env) (addressFromParams : String) (sortedBlocks : List Block)
  (sortedTransactions : List Transaction) (sortedEvents : List Event)

/-- The ID of the transaction of the event `i`, and `otherNecessaryEvents`. -/
def transactionIDOf (i : ℕ) (e : Event) : Except String (Option String × List Event) :=
  match getCcmIDFromTopic0 e.topic0 with
  | none => pure (getTransactionIDFromTopic0 e.topic0, [])
  | some ccmID => do
    match ← findPrevious sortedEvents ccmID i with
    | some prevEvent => pure (getTransactionIDFromTopic0 prevEvent.topic0, [])
    | none =>
      let eventsForHeight := env.getEvents e.block.height
      match eventsForHeight.find? (Event.isBeforeCCCExecution ccmID) with
      | some ev => pure (getTransactionIDFromTopic0 ev.topic0, eventsForHeight)
      | none => throw ("CCU transactionID cannot be determined for ccmID " ++ ccmID ++ ".")

/-- The transaction with the ID. -/
def transactionOf (transactionID : Option String) : Except String Transaction :=
  match (sortedTransactions.find? fun t => some t.id = transactionID).or
      (env.getTransactions transactionID).head? with
  | some tx => pure tx
  | none => throw "Cannot read properties of undefined (reading 'block')"

/-- The block with the ID. -/
def blockOf (blockID : String) : Option Block :=
  (sortedBlocks.find? fun b => b.id = blockID).or (env.getBlocks blockID).head?

/-- `messageFeeTokenID` of the message of a `fee:relayerFeeProcessed` event. -/
def messageFeeTokenIDOf (events : List Event) (dataCcmID : String) (ccmID : Option String) :
    Except String String :=
  match events.findSome? fun e => match e.data with
    | .beforeCCCExecution id messageFeeTokenID =>
      if id = dataCcmID then some messageFeeTokenID else none
    | _ => none with
  | some messageFeeTokenID => pure messageFeeTokenID
  | none => throw
      ("messageFeeTokenID cannot be determined for ccmID " ++ ccmID.getD "null" ++ ".")

/-- `sendingChainID` and `receivingChainID` of the message with the topic. -/
def ccmChainIDsOf (events : List Event) (topic0 : String) (ccmID : Option String) :
    Except String (String × String) :=
  match events.findSome? fun e => match e.data with
    | .ccmProcessed sendingChainID receivingChainID =>
      if e.topic0 = topic0 then some (sendingChainID, receivingChainID) else none
    | _ => none with
  | some chainIDs => pure chainIDs
  | none => throw ("sendingChainID & receivingChainID cannot be determined for ccmID " ++
      ccmID.getD "null" ++ ".")

/-- The `interoperability:ccmSendSuccess` event of a transaction: its receiving chain. -/
def ccmSendSuccessOf (tx : Transaction) : Option String :=
  (env.getAllEventsInAsc tx.block.height).findSome? fun e => match e.data with
    | .ccmSendSuccess receivingChainID =>
      if txIDPrefix ++ tx.id ∈ e.topics then some receivingChainID else none
    | _ => none

/-- The first `token:transfer` event of a transaction. -/
def transferOf (events : List Event) (tx : Transaction) : Option (String × String × ℤ) :=
  events.findSome? fun e => match e.data with
    | .transfer senderAddress recipientAddress amount =>
      if tx.id.toList <:+ e.topic0.toList then some (senderAddress, recipientAddress, amount)
      else none
    | _ => none

/-! ### The entries for an event -/

/-- The entries for a `token:lock` event, which every transaction emits first. -/
def lockEntries (i : ℕ) (tx : Transaction) : Except String (List Entry) :=
  if tx.moduleCommand = tokenTransferCrossChain then pure []
  else do
    let entry ← formatTransaction env i addressFromParams tx
    if checkIfSelfTokenTransfer tx then
      let dupTx := { tx with fee := none, isSelfTokenTransferCredit := true }
      let dupEntry ← formatTransaction env i addressFromParams dupTx
      pure [entry, dupEntry]
    else pure [entry]

/-- The entries for the event `i` of a transaction or of a message. -/
def transactionEntries (i : ℕ) (e : Event) (tx : Transaction) (block : Option Block)
    (otherNecessaryEvents : List Event) : Except String (List Entry) :=
  let events := sortedEvents ++ otherNecessaryEvents
  let ccmID := getCcmIDFromTopic0 e.topic0
  match e.data with
  | .lock _ _ => lockEntries env addressFromParams i tx
  | .generatorFeeProcessed senderAddress generatorAddress generatorAmount =>
    getGeneratorFeeEntries env i addressFromParams senderAddress generatorAddress generatorAmount
      tx block
  | .transferCrossChain senderAddress receivingChainID =>
    if senderAddress = addressFromParams then
      getOutgoingTransferCCEntries env i addressFromParams receivingChainID
        (ccmSendSuccessOf env tx) tx block
    else pure []
  | .ccmTransfer data =>
    if data.recipientAddress = addressFromParams ∧ data.receivingChainID = env.currentChainID then
      getIncomingTransferCCEntries env i addressFromParams data tx block
    else pure []
  | .relayerFeeProcessed dataCcmID relayerAmount => do
    let messageFeeTokenID ← messageFeeTokenIDOf events dataCcmID ccmID
    let (sendingChainID, receivingChainID) ← ccmChainIDsOf events e.topic0 ccmID
    getMessageFeeEntries env i addressFromParams relayerAmount tx block messageFeeTokenID
      sendingChainID receivingChainID
  | .accountReclaimed amount =>
    if e.topics[2]? = some addressFromParams then
      getLegacyAccountReclaimEntries env i addressFromParams amount tx block
    else pure []
  | .validatorPunished address =>
    getPomEntries env i addressFromParams (transferOf events tx) address tx block
  | _ => pure []

/-- The entries for the shared rewards that are assigned by an event. -/
def sharedRewardEntries (i : ℕ) (e : Event) (tx : Transaction) (block : Option Block) :
    Except String (List Entry) :=
  match e.data with
  | .rewardsAssigned stakerAddress validatorAddress amount =>
    getSharedRewardsAssignedEntries env i addressFromParams stakerAddress validatorAddress amount tx
      block
  | _ => pure []

/-- The amount that the event after the event `i` locks for the address, if it does. -/
def lockedAfter (i : ℕ) : Except String (Option ℤ) := do
  let nextEvent ← eventAt sortedEvents (i + 1)
  match nextEvent.data with
  | .lock address amount => pure (if address = addressFromParams then some amount else none)
  | _ => pure none

/-- The entries for the event `i` with the default topic. -/
def blockEntries (i : ℕ) (e : Event) : Except String (List Entry) :=
  match e.data with
  | .mint amount =>
    if e.topics[1]? = some addressFromParams then do
      let lockedAmount ← lockedAfter addressFromParams sortedEvents i
      getBlockRewardEntries env addressFromParams amount lockedAmount
        (sortedBlocks.find? fun b => b.id = e.block.id)
    else pure []
  | _ => pure []

/-- The entries for the event `i`. -/
def eventEntries (i : ℕ) (e : Event) : Except String (List Entry) :=
  let lengthTopic0 := e.topic0.length
  if lengthTopic0 = lengthID + txIDPrefix.length ∨
      lengthTopic0 = lengthID + ccmIDPrefix.length then do
    let (transactionID, otherNecessaryEvents) ← transactionIDOf env sortedEvents i e
    let tx ← transactionOf env sortedTransactions transactionID
    let block := blockOf env sortedBlocks tx.block.id
    let entries ←
      if hasID txIDPrefix e.topic0 ∨ hasID ccmIDPrefix e.topic0 then
        transactionEntries env addressFromParams sortedEvents i e tx block otherNecessaryEvents
      else pure []
    let sharedEntries ← sharedRewardEntries env addressFromParams i e tx block
    pure (entries ++ sharedEntries)
  else if lengthTopic0 = lengthDefaultTopic then
    blockEntries env addressFromParams sortedBlocks sortedEvents i e
  else pure []

/-- `dropDuplicatesDeep(arr)`: the first of equal elements stays. -/
def dropDuplicatesDeep (arr : List Entry) : List Entry := arr.eraseDups

/-- `getEntriesByChronology(params, sortedBlocks, sortedTransactions, sortedEvents)`. -/
def getEntriesByChronology : Except String (List Entry) := do
  let entries ← sortedEvents.zipIdx.mapM fun (e, i) =>
    eventEntries env addressFromParams sortedBlocks sortedTransactions sortedEvents i e
  pure (dropDuplicatesDeep entries.flatten)

end Events

/-! ### Events of a transaction -/

section Lemmas

variable {env : Env} {addressFromParams : String} {sortedBlocks : List Block}
  {sortedTransactions : List Transaction} {sortedEvents : List Event} {id : String}

theorem toList_txIDPrefix_append (id : String) :
    (txIDPrefix ++ id).toList = '0' :: '4' :: id.toList := by
  rw [String.toList_append]
  rfl

theorem hasID_txIDPrefix (hid : id.length = lengthID) : hasID txIDPrefix (txIDPrefix ++ id) := by
  refine ⟨?_, by rw [String.length_append, hid]⟩
  rw [String.toList_append]
  exact List.prefix_append _ _

theorem getTransactionIDFromTopic0_append (hid : id.length = lengthID) :
    getTransactionIDFromTopic0 (txIDPrefix ++ id) = some id := by
  rw [getTransactionIDFromTopic0, idFromTopic0, if_pos (hasID_txIDPrefix hid),
    toList_txIDPrefix_append]
  exact congrArg some (String.ofList_toList)

theorem getCcmIDFromTopic0_append (id : String) : getCcmIDFromTopic0 (txIDPrefix ++ id) = none := by
  rw [getCcmIDFromTopic0, idFromTopic0, if_neg]
  rintro ⟨hstart, -⟩
  rw [toList_txIDPrefix_append] at hstart
  have hchars : ccmIDPrefix.toList = ['0', '5'] := rfl
  simp [hchars] at hstart

/-- The topic of a transaction leads to the transaction. -/
theorem eventEntries_of_transaction {e : Event} {tx : Transaction} (hid : id.length = lengthID)
    (htopic : e.topic0 = txIDPrefix ++ id)
    (htx : (sortedTransactions.find? fun t => some t.id = some id) = some tx) (i : ℕ) :
    eventEntries env addressFromParams sortedBlocks sortedTransactions sortedEvents i e = (do
      let entries ← transactionEntries env addressFromParams sortedEvents i e tx
        (blockOf env sortedBlocks tx.block.id) []
      let sharedEntries ← sharedRewardEntries env addressFromParams i e tx
        (blockOf env sortedBlocks tx.block.id)
      pure (entries ++ sharedEntries)) := by
  have hlength : e.topic0.length = lengthID + txIDPrefix.length := by
    rw [htopic, String.length_append, hid, Nat.add_comm]
  have htransaction : transactionIDOf env sortedEvents i e = .ok (some id, []) := by
    rw [transactionIDOf, htopic, getCcmIDFromTopic0_append, getTransactionIDFromTopic0_append hid]
    rfl
  have hfound : transactionOf env sortedTransactions (some id) = .ok tx := by
    rw [transactionOf, htx]
    rfl
  rw [eventEntries]
  simp only
  rw [if_pos (.inl hlength), htransaction]
  simp only [bind, Except.bind]
  rw [hfound]
  simp only
  rw [if_pos (.inl (htopic ▸ hasID_txIDPrefix hid))]

/-- **A history is complete** if and only if no event throws. -/
theorem exists_getEntriesByChronology_iff :
    (∃ entries, getEntriesByChronology env addressFromParams sortedBlocks sortedTransactions
        sortedEvents = .ok entries) ↔
      ∀ p ∈ sortedEvents.zipIdx, ∃ entries, eventEntries env addressFromParams sortedBlocks
        sortedTransactions sortedEvents p.2 p.1 = .ok entries := by
  constructor
  · rintro ⟨entries, hentries⟩ p hp
    obtain ⟨entriesOf, hmap, -⟩ := bind_eq_ok_iff.mp hentries
    obtain ⟨entries, -, heq⟩ := (mapM_eq_ok hmap).1 p hp
    exact ⟨entries, heq⟩
  · intro hall
    obtain ⟨entriesOf, hmap⟩ := exists_mapM_eq_ok hall
    exact ⟨dropDuplicatesDeep entriesOf.flatten, bind_eq_ok_iff.mpr ⟨entriesOf, hmap, rfl⟩⟩

end Lemmas

end Export

end SwaptoshiService
