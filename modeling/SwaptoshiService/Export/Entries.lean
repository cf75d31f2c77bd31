import Mathlib.Data.Int.Notation
import SwaptoshiService.Lib.Except

/-!
# Entries of an account history

The export service writes the history of an account as a list of entries. This module has what
entries are made of: blocks, transactions and events as the indexer answers them, the helpers that
choose the sign and the fee of an entry (`helpers/transaction.js`), and the functions that make the
entries for the different events (`transactionsExport.js`).

Amounts are decimal texts in the source and integers here; `none` is `null` or `undefined`, and an
access to a property of `undefined` throws.
-/

namespace SwaptoshiService

namespace Export

/-! ### Blocks, transactions and events -/

/-- `tx.block`. -/
structure BlockInfo where
  id : String
  height : ℕ
  timestamp : ℤ
deriving DecidableEq

/-- A block; `generatorPublicKey` is `block.generator.publicKey`. -/
structure Block extends BlockInfo where
  generatorPublicKey : String
deriving DecidableEq

/-- The parameters of a transaction that are read here. -/
structure TxParams where
  tokenID : Option String := none
  amount : Option ℤ := none
  recipientAddress : Option String := none
  sendingChainID : Option String := none
  receivingChainID : Option String := none
  data : Option String := none
  messageFee : Option ℤ := none
  messageFeeTokenID : Option String := none
deriving DecidableEq

/-- `tx.sender`. -/
structure Sender where
  address : String
  publicKey : String
deriving DecidableEq

/-- A transaction; `recipientPublicKey` is `tx.meta.recipient.publicKey`. -/
structure Transaction where
  id : String
  moduleCommand : String
  fee : Option ℤ
  executionStatus : String
  sender : Sender
  senderPublicKey : Option String := none
  params : TxParams
  block : BlockInfo
  recipientPublicKey : Option String := none
  sendingChainID : Option String := none
  isSelfTokenTransferCredit : Bool := false
  isIncomingCrossChainTransferTransaction : Bool := false
deriving DecidableEq

/-- The data of `token:ccmTransfer`. -/
structure CcmTransferData where
  senderAddress : String
  recipientAddress : String
  tokenID : String
  amount : ℤ
  receivingChainID : String
  result : ℕ
deriving DecidableEq

/-- The data of an event, one constructor for each module and name that is looked for; those of
`ccmProcessed` and `ccmSendSuccess` are in `data.ccm`. -/
inductive EventData
  | lock (address : String) (amount : ℤ)
  | mint (amount : ℤ)
  | transfer (senderAddress recipientAddress : String) (amount : ℤ)
  | transferCrossChain (senderAddress receivingChainID : String)
  | ccmTransfer (data : CcmTransferData)
  | beforeCCCExecution (ccmID messageFeeTokenID : String)
  | ccmProcessed (sendingChainID receivingChainID : String)
  | ccmSendSuccess (receivingChainID : String)
  | generatorFeeProcessed (senderAddress generatorAddress : String) (generatorAmount : ℤ)
  | relayerFeeProcessed (ccmID : String) (relayerAmount : ℤ)
  | accountReclaimed (amount : ℤ)
  | validatorPunished (address : String)
  | rewardsAssigned (stakerAddress validatorAddress : String) (amount : ℤ)
  | other (module name : String)
deriving DecidableEq

/-- An event. It has one topic at least. -/
structure Event where
  data : EventData
  topic0 : String
  otherTopics : List String
  block : BlockInfo
deriving DecidableEq

/-- `e.topics`. -/
def Event.topics (e : Event) : List String := e.topic0 :: e.otherTopics

/-- An entry of the history. -/
structure Entry where
  date : String
  time : String
  blockHeight : ℕ
  transactionID : Option String := none
  moduleCommand : Option String := none
  fee : Option ℤ := none
  txFeeTokenID : Option String := none
  amount : Option ℤ := none
  amountTokenID : Option String := none
  senderAddress : Option String := none
  senderPublicKey : Option String := none
  recipientAddress : Option String := none
  recipientPublicKey : Option String := none
  note : Option String := none
  sendingChainID : Option String := none
  receivingChainID : Option String := none
deriving DecidableEq

/-- What the export asks for elsewhere. -/
structure Env where
  currentChainID : String
  feeTokenID : String
  posTokenID : String
  /-- `getTransactions({ id }).data`. -/
  getTransactions : Option String → List Transaction
  /-- `getBlocks({ id }).data`. -/
  getBlocks : String → List Block
  /-- `getEvents({ height }).data`, the first page of the events of a block. -/
  getEvents : ℕ → List Event
  /-- `getAllEventsInAsc({ height })`. -/
  getAllEventsInAsc : ℕ → List Event
  dateFromTimestamp : ℤ → String
  timeFromTimestamp : ℤ → String
  /-- What the cache of public keys holds for an address while the event with this index is worked
  on. -/
  publicKeyCache : ℕ → String → Option String

/-- `getPublicKeyByAddress(address)`. -/
def Env.getPublicKeyByAddress (env : Env) (i : ℕ) (address : Option String) : Option String :=
  address.bind (env.publicKeyCache i)

/-! ### Amounts and fees -/

/-- `` `${MODULE.TOKEN}:${COMMAND.TRANSFER}` ``. -/
def tokenTransfer : String := "token:transfer"

/-- `` `${MODULE.TOKEN}:${COMMAND.TRANSFER_CROSS_CHAIN}` ``. -/
def tokenTransferCrossChain : String := "token:transferCrossChain"

/-- `BigInt(value)`; `missing` is what the value is when it is none. -/
def bigInt (missing : String) (value : Option ℤ) : Except String ℤ :=
  match value with
  | some n => pure n
  | none => throw ("Cannot convert " ++ missing ++ " to a BigInt")

/-- `text || null`. -/
def orNull (text : Option String) : Option String := text.filter (· ≠ "")

/-- `normalizeTransactionAmount(address, tx, currentChainID)`. -/
def normalizeTransactionAmount (address : String) (tx : Transaction) (currentChainID : String) :
    Except String (Option ℤ) :=
  if tx.moduleCommand ∉ [tokenTransfer, tokenTransferCrossChain] ∨
      tx.executionStatus ≠ "successful" then
    pure none
  else do
    let amount ← bigInt "undefined" tx.params.amount
    if tx.moduleCommand = tokenTransferCrossChain then
      pure (some (if tx.params.receivingChainID ≠ some currentChainID then -amount else amount))
    else
      let isTokenTransfer := tx.moduleCommand = tokenTransfer
      let isRecipient := isTokenTransfer ∧ some address = tx.params.recipientAddress
      let isSelfTransfer := isTokenTransfer ∧ some tx.sender.address = tx.params.recipientAddress
      pure (some (if (isTokenTransfer ∧ isRecipient ∧ ¬ isSelfTransfer) ∨
          (isTokenTransfer ∧ isRecipient ∧ isSelfTransfer ∧ tx.isSelfTokenTransferCredit) ∨
          tx.isIncomingCrossChainTransferTransaction then amount else -amount))

/-- `normalizeTransactionFee(addressFromParams, tx)`. -/
def normalizeTransactionFee (addressFromParams : String) (tx : Transaction) :
    Except String ℤ := do
  let fee ← bigInt "null" tx.fee
  let txFee := -fee
  if tx.moduleCommand ≠ tokenTransfer then pure txFee
  else
    let isRecipient := some addressFromParams = tx.params.recipientAddress
    pure (if isRecipient ∨ tx.isIncomingCrossChainTransferTransaction then 0 else txFee)

/-- `normalizeMessageFee(tx)`. -/
def normalizeMessageFee (tx : Transaction) : Except String ℤ := do
  let messageFee ← bigInt "undefined" tx.params.messageFee
  pure (-messageFee)

/-- `checkIfSelfTokenTransfer(tx)`. -/
def checkIfSelfTokenTransfer (tx : Transaction) : Prop :=
  tx.moduleCommand = tokenTransfer ∧ some tx.sender.address = tx.params.recipientAddress

instance (tx : Transaction) : Decidable (checkIfSelfTokenTransfer tx) :=
  inferInstanceAs (Decidable (_ ∧ _))

/-- `resolveReceivingChainID(tx, currentChainID)`. -/
def resolveReceivingChainID (tx : Transaction) (currentChainID : String) : Option String :=
  if tx.moduleCommand = tokenTransferCrossChain then tx.params.receivingChainID
  else some currentChainID

/-- `resolveChainIDs(tx, currentChainID)`: the sending and the receiving chain. -/
def resolveChainIDs (tx : Transaction) (currentChainID : String) :
    Option String × Option String :=
  if tx.moduleCommand = tokenTransfer ∨ tx.moduleCommand = tokenTransferCrossChain ∨
      tx.isIncomingCrossChainTransferTransaction then
    (some ((orNull tx.sendingChainID).getD currentChainID),
      resolveReceivingChainID tx currentChainID)
  else (some currentChainID, some currentChainID)

/-! ### The entries for an event -/

section Builders

variable (env : Env) (i : ℕ) (addressFromParams : String)

/-- An access to `block.timestamp`. -/
def readBlock (block : Option Block) : Except String Block :=
  match block with
  | some block => pure block
  | none => throw "Cannot read properties of undefined (reading 'timestamp')"

/-- The date, the time and the height of an entry, and its transaction. -/
def Env.entryAt (block : BlockInfo) (transactionID : Option String) : Entry where
  date := env.dateFromTimestamp block.timestamp
  time := env.timeFromTimestamp block.timestamp
  blockHeight := block.height
  transactionID := transactionID

/-- `formatTransaction(addressFromParams, tx, currentChainID, txFeeTokenID)`. -/
def formatTransaction (tx : Transaction) : Except String Entry := do
  let amount ← normalizeTransactionAmount addressFromParams tx env.currentChainID
  let fee ← normalizeTransactionFee addressFromParams tx
  let recipientAddress := orNull tx.params.recipientAddress
  let chainIDs := resolveChainIDs tx env.currentChainID
  pure { env.entryAt tx.block (some tx.id) with
    moduleCommand := some tx.moduleCommand
    fee := some fee
    txFeeTokenID := some env.feeTokenID
    amount := amount
    amountTokenID := tx.params.tokenID
    senderAddress := some tx.sender.address
    senderPublicKey := tx.senderPublicKey
    recipientAddress := recipientAddress
    recipientPublicKey :=
      (orNull tx.recipientPublicKey).or (env.getPublicKeyByAddress i recipientAddress)
    note := orNull tx.params.data
    sendingChainID := chainIDs.1
    receivingChainID := chainIDs.2 }

/-- `getGeneratorFeeEntries(addressFromParams, genFeeEvent, tx, block)`. -/
def getGeneratorFeeEntries (senderAddress generatorAddress : String) (generatorAmount : ℤ)
    (tx : Transaction) (block : Option Block) : Except String (List Entry) :=
  if generatorAddress ≠ addressFromParams then pure []
  else if generatorAmount = 0 then pure []
  else do
    let block ← readBlock block
    pure [{ env.entryAt block.toBlockInfo (some tx.id) with
      amount := some generatorAmount
      amountTokenID := some env.feeTokenID
      senderAddress := some senderAddress
      senderPublicKey := some tx.sender.publicKey
      recipientAddress := some generatorAddress
      recipientPublicKey := env.getPublicKeyByAddress i (some generatorAddress)
      note := some "Generator Fee"
      sendingChainID := some env.currentChainID
      receivingChainID := some env.currentChainID }]

/-- The entry for the message fee of an outgoing transfer. -/
def messageFeeEntry (ccmReceivingChainID : String) (tx : Transaction) (block : Block) :
    Except String Entry := do
  let messageFee ← normalizeMessageFee tx
  pure { env.entryAt block.toBlockInfo (some tx.id) with
    amount := some messageFee
    amountTokenID := tx.params.messageFeeTokenID
    senderAddress := some tx.sender.address
    senderPublicKey := some tx.sender.publicKey
    note := some "Message Fee"
    sendingChainID := some env.currentChainID
    receivingChainID := some ccmReceivingChainID }

/-- `getOutgoingTransferCCEntries(...)`; `ccmReceivingChainID` is the receiving chain of the
message, if a `ccmSendSuccess` event was found. -/
def getOutgoingTransferCCEntries (receivingChainID : String) (ccmReceivingChainID : Option String)
    (tx : Transaction) (block : Option Block) : Except String (List Entry) := do
  let block ← readBlock block
  let fee ← normalizeTransactionFee addressFromParams tx
  let amount ← normalizeTransactionAmount addressFromParams tx env.currentChainID
  let entry : Entry := { env.entryAt block.toBlockInfo (some tx.id) with
    moduleCommand := some tx.moduleCommand
    fee := some fee
    txFeeTokenID := some env.feeTokenID
    amount := amount
    amountTokenID := tx.params.tokenID
    senderAddress := some addressFromParams
    senderPublicKey := some tx.sender.publicKey
    recipientAddress := tx.params.recipientAddress
    recipientPublicKey := (orNull tx.recipientPublicKey).or
      (env.getPublicKeyByAddress i tx.params.recipientAddress)
    note := tx.params.data
    sendingChainID := some env.currentChainID
    receivingChainID := some receivingChainID }
  match ccmReceivingChainID with
  | none => pure [entry]
  | some ccmReceivingChainID => do
    let feeEntry ← messageFeeEntry env ccmReceivingChainID tx block
    pure [entry, feeEntry]

/-- `getIncomingTransferCCEntries(addressFromParams, ccmTransferEvent, tx, block)`. -/
def getIncomingTransferCCEntries (data : CcmTransferData) (tx : Transaction)
    (block : Option Block) : Except String (List Entry) :=
  if data.result ≠ 0 then pure []
  else do
    let block ← readBlock block
    pure [{ env.entryAt block.toBlockInfo (some tx.id) with
      amount := some data.amount
      amountTokenID := some data.tokenID
      senderAddress := some data.senderAddress
      senderPublicKey := env.getPublicKeyByAddress i (some data.senderAddress)
      recipientAddress := some addressFromParams
      recipientPublicKey := env.getPublicKeyByAddress i (some addressFromParams)
      note := some "Incoming CCM from specified CCU transactionID"
      sendingChainID := tx.params.sendingChainID
      receivingChainID := some data.receivingChainID }]

/-- `getMessageFeeEntries(...)`. -/
def getMessageFeeEntries (relayerAmount : ℤ) (tx : Transaction) (block : Option Block)
    (messageFeeTokenID sendingChainID receivingChainID : String) : Except String (List Entry) :=
  if relayerAmount = 0 then pure []
  else do
    let block ← readBlock block
    pure [{ env.entryAt block.toBlockInfo (some tx.id) with
      moduleCommand := some tx.moduleCommand
      amount := some relayerAmount
      amountTokenID := some messageFeeTokenID
      recipientAddress := some addressFromParams
      recipientPublicKey := env.getPublicKeyByAddress i (some addressFromParams)
      note := some "Message fee for relayer"
      sendingChainID := some sendingChainID
      receivingChainID := some receivingChainID }]

/-- `getLegacyAccountReclaimEntries(addressFromParams, accountReclaimedEvent, tx, block)`. -/
def getLegacyAccountReclaimEntries (amount : ℤ) (tx : Transaction) (block : Option Block) :
    Except String (List Entry) := do
  let block ← readBlock block
  pure [{ env.entryAt block.toBlockInfo (some tx.id) with
    amount := some amount
    amountTokenID := some env.feeTokenID
    recipientAddress := some addressFromParams
    recipientPublicKey := env.getPublicKeyByAddress i (some addressFromParams)
    note := some "Legacy account balance reclaimed"
    sendingChainID := some env.currentChainID
    receivingChainID := some env.currentChainID }]

/-- `getPomEntries(...)`; `transfer` are the sender, the recipient and the amount of the
`token:transfer` event that was found. -/
def getPomEntries (transfer : Option (String × String × ℤ)) (punishedAddress : String)
    (tx : Transaction) (block : Option Block) : Except String (List Entry) := do
  let isPunishedValidator := addressFromParams = punishedAddress
  let block ← readBlock block
  match transfer with
  | none => throw "Cannot read properties of undefined (reading 'data')"
  | some (senderAddress, recipientAddress, amount) =>
    pure [{ env.entryAt block.toBlockInfo (some tx.id) with
      amount := some (if isPunishedValidator then -amount else amount)
      amountTokenID := some env.posTokenID
      senderAddress := some senderAddress
      senderPublicKey := env.getPublicKeyByAddress i (some senderAddress)
      recipientAddress := some recipientAddress
      recipientPublicKey := env.getPublicKeyByAddress i (some recipientAddress)
      note := some (if isPunishedValidator then "PoM punishment validator reward deduction"
        else "PoM successful report reward")
      sendingChainID := some env.currentChainID
      receivingChainID := some env.currentChainID }]

/-- `getSharedRewardsAssignedEntries(addressFromParams, rewardsAssignedEvent, tx, block)`. -/
def getSharedRewardsAssignedEntries (stakerAddress validatorAddress : String) (amount : ℤ)
    (tx : Transaction) (block : Option Block) : Except String (List Entry) := do
  let isStaker := addressFromParams = stakerAddress
  let block ← readBlock block
  pure [{ env.entryAt block.toBlockInfo (some tx.id) with
    amount := some (if isStaker then amount else -amount)
    amountTokenID := some env.posTokenID
    senderAddress := some validatorAddress
    senderPublicKey := env.getPublicKeyByAddress i (some validatorAddress)
    recipientAddress := some stakerAddress
    recipientPublicKey := some tx.sender.publicKey
    note := some "Custodial shared rewards transfer to the staker"
    sendingChainID := some env.currentChainID
    receivingChainID := some env.currentChainID }]

/-- `getBlockRewardEntries(...)`; `lockedAmount` is the amount of the `token:lock` event, if there
is one. -/
def getBlockRewardEntries (mintedAmount : ℤ) (lockedAmount : Option ℤ) (block : Option Block) :
    Except String (List Entry) := do
  let sharedReward := lockedAmount.getD 0
  let commissionAndSelfStakeReward := mintedAmount - sharedReward
  let block ← readBlock block
  let commonEntryProperties : Entry := { env.entryAt block.toBlockInfo none with
    amountTokenID := some env.posTokenID
    recipientAddress := some addressFromParams
    recipientPublicKey := some block.generatorPublicKey
    sendingChainID := some env.currentChainID
    receivingChainID := some env.currentChainID }
  let entry : Entry := { commonEntryProperties with
    amount := some commissionAndSelfStakeReward
    note := some "Block generation reward (commission + self-stake)" }
  match lockedAmount with
  | none => pure [entry]
  | some _ => pure [entry, { commonEntryProperties with
      amount := some sharedReward
      note := some "Block generation reward (custodial shared rewards locked)" }]

end Builders

end Export

end SwaptoshiService
