import SwaptoshiService.FeeEstimator.DynamicFeesLIP
import SwaptoshiService.Lib.Buffer
import SwaptoshiService.Lib.Except

/-!
# Fee estimates for a transaction

`estimateTransactionFees` (`dataService/business/transactionsEstimateFees.js`) checks a transaction,
has the node format it with mocked signatures, and answers the minimum fee together with its
breakdown, for a transfer to another chain also the fee of the message. `FeeNode` holds what the
node, the registry and the receiving chain answer; the node is trusted to compute the minimum fee
from the size (`FormatsFees`).

Two things go wrong. The priorities are written to `transaction.fee` of the response itself, which
has **no property `transaction`**: as soon as an estimate is not zero, every call throws. And the
breakdown of the message fee lists the buffer bytes, which the amount does not include.
`fees_estimated_iff` says when neither happens.
-/

namespace SwaptoshiService

/-! ### The answers -/

/-- `extraCommandFees` of `getTokenConstants`. -/
structure ExtraCommandFees where
  userAccountInitializationFee : ℕ
  escrowAccountInitializationFee : ℕ

/-- The channel of another chain. -/
structure ChannelInfo where
  messageFeeTokenID : String
  minReturnFeePerByte : ℕ

/-- The parameters of a transaction that are read here. -/
structure EstimateParams where
  tokenID : Option String
  amount : Option ℕ
  recipientAddress : String
  receivingChainID : String
  messageFee : Option ℕ
  messageFeeTokenID : Option String

/-- The transaction of a request. Its properties `fee`, `signatures` and `id` are never used. -/
structure EstimateTransaction where
  module : String
  command : String
  senderPublicKey : String
  params : EstimateParams

/-- The result of `mockTransaction`. -/
structure MockedTransaction extends EstimateTransaction where
  fee : ℕ
  signatures : List String
  id : String

/-- The answer of the connector's `formatTransaction`. -/
structure FormattedTransaction extends MockedTransaction where
  minFee : ℕ
  size : ℕ

/-- An event of a dry run. -/
structure DryRunEvent where
  name : String
  ccm : String
  code : ℕ

/-- The answer of a dry run. -/
structure DryRun where
  errorMessage : Option String
  events : List DryRunEvent

/-- What is asked for. -/
structure FeeNode where
  addressFromPublicKey : String → String
  /-- `tokenHasUserAccount`. -/
  isExists (tokenID address : String) : Bool
  availableBalance (address tokenID : String) : ℕ
  /-- The schema of a command: what `validator.validate` has against the parameters. -/
  commandSchema : String → Option (EstimateParams → Option String)
  /-- The numbers of mandatory and optional keys; `none` if the request fails. -/
  authAccount : String → Option (ℕ × ℕ)
  randomSignature : ℕ → String
  randomID : String
  currentChainID : String
  getChannel : String → Except String ChannelInfo
  extraCommandFees : ExtraCommandFees
  /-- The service of an application, from its metadata. -/
  serviceURL : String → Option String
  receivingFees : String → ExtraCommandFees
  tokenHasEscrowAccount (tokenID escrowChainID : String) : Bool
  receivingIsExists (serviceURL tokenID address : String) : Bool
  validatorRegistrationFee : ℕ
  chainRegistrationFee : ℕ
  formatTransaction : MockedTransaction → ℕ → FormattedTransaction
  dryRunTransaction (transaction : FormattedTransaction) (skipVerify : Bool) : DryRun
  encodeCCM : String → String

/-- `getFeeEstimates()`. -/
structure FeeEstimateState extends FeePerByte where
  feeTokenID : String
  minFeePerByte : ℕ

/-- What is thrown. -/
inductive EstimateFailure
  | validationException (message : String)
  | typeError
  deriving DecidableEq, Repr

/-! ### The response -/

/-- Amounts under their property names. -/
abbrev FeeParts := List (String × ℕ)

/-- The sum of the amounts. -/
def FeeParts.total (parts : FeeParts) : ℕ := (parts.map Prod.snd).sum

/-- `calcDynamicFeeEstimates(estimatePerByte, minFee, size)`. -/
structure DynamicFeeEstimates where
  low : ℤ
  medium : ℤ
  high : ℤ
  deriving DecidableEq, Repr

/-- `transaction.fee`. -/
structure TransactionFee where
  tokenID : String
  minimum : ℕ
  priority : Option DynamicFeeEstimates

/-- `params.messageFee`. -/
structure MessageFee where
  tokenID : String
  amount : ℕ

/-- `breakdown.params.messageFee`. -/
structure MessageFeeBreakdown where
  ccmByteFee : ℕ
  additionalFees : FeeParts

/-- `breakdown.fee.minimum`. -/
structure MinimumFeeBreakdown where
  byteFee : ℕ
  additionalFees : FeeParts

/-- `estimateTransactionFeesRes`. Nothing ever sets a property `transaction` next to `data` and
`meta`. -/
structure EstimateFeesResponse where
  messageFee : Option MessageFee
  fee : TransactionFee
  messageFeeBreakdown : Option MessageFeeBreakdown
  minimumBreakdown : MinimumFeeBreakdown
  transaction : Option TransactionFee

/-! ### The steps -/

/-- `transaction.module === MODULE.TOKEN` and
`transaction.command === COMMAND.TRANSFER_CROSS_CHAIN`. -/
def EstimateTransaction.isCrossChain (transaction : EstimateTransaction) : Bool :=
  transaction.module == "token" && transaction.command == "transferCrossChain"

/-- `resolveChannelInfo`. -/
def resolveChannelInfo (node : FeeNode) (inputChainID : String) :
    Except EstimateFailure ChannelInfo :=
  if inputChainID = node.currentChainID then
    .error (.validationException
      "Channel info cannot be determined when receivingChainID and currentChainID are same.")
  else
    match node.getChannel inputChainID with
    | .ok channelInfo => .ok channelInfo
    | .error error => .error (.validationException
        s!"Error while retrieving channel info for the chain: {inputChainID}.\nError: {error}")

/-- `mockTransaction`. -/
def mockTransaction (node : FeeNode) (transaction : EstimateTransaction)
    (numberOfSignatures : ℕ) : Except EstimateFailure MockedTransaction := do
  let mocked : MockedTransaction :=
    { transaction with
      fee := 0
      signatures := (List.range numberOfSignatures).map node.randomSignature
      id := node.randomID }
  if transaction.isCrossChain then
    let channelInfo ← resolveChannelInfo node transaction.params.receivingChainID
    return if channelInfo.messageFeeTokenID = "" then mocked else
      { mocked with params :=
        { transaction.params with
          messageFee := some 0
          messageFeeTokenID := some channelInfo.messageFeeTokenID } }
  else return mocked

/-- `getNumberOfSignatures`. -/
def getNumberOfSignatures (node : FeeNode) (address : String) : ℕ :=
  match node.authAccount address with
  | some (mandatoryKeys, optionalKeys) =>
    if mandatoryKeys + optionalKeys = 0 then 1 else mandatoryKeys + optionalKeys
  | none => 1

/-- `CCM_SENT_FAILED_ERROR_MESSAGE`. -/
def ccmSentFailedErrorMessage : ℕ → Option String
  | 1 => some "Receiving chain is not active."
  | 11 => some "Failed to pay message fee."
  | 12 => some "Invalid params provided."
  | 13 => some "Invalid CCM format."
  | 14 => some "Sending chain cannot be the receiving chain."
  | _ => none

/-- `getCcmBuffer` of a transfer to another chain. -/
def getCcmBuffer (node : FeeNode) (transaction : FormattedTransaction) :
    Except EstimateFailure (List UInt8) :=
  match (node.dryRunTransaction transaction true).events.find? (·.name == "ccmSendSuccess") with
  | some ccmSendSuccess => .ok (ofHex (node.encodeCCM ccmSendSuccess.ccm))
  | none =>
    let dryRunResult := node.dryRunTransaction transaction false
    match dryRunResult.errorMessage with
    | some errorMessage => .error (.validationException errorMessage)
    | none =>
      match dryRunResult.events.find? (·.name == "ccmSentFailed") with
      | some ccmSentFailed =>
        .error (.validationException ((ccmSentFailedErrorMessage ccmSentFailed.code).getD ""))
      | none => .ok []

/-- `Math.round`: halves go up. -/
def mathRound (x : ℚ) : ℤ := ⌊x + 1 / 2⌋

def calcDynamicFeeEstimates (estimatePerByte : FeePerByte) (minFee size : ℕ) :
    DynamicFeeEstimates where
  low := minFee + mathRound (estimatePerByte.low * size)
  medium := minFee + mathRound (estimatePerByte.med * size)
  high := minFee + mathRound (estimatePerByte.high * size)

/-- What `calcAdditionalFees` returns; `messageFee` is the user account initialization fee under
`params.messageFee`. -/
structure AdditionalFees where
  fee : FeeParts
  messageFee : Option ℕ
  total : ℕ

/-- No additional fees. -/
def AdditionalFees.none : AdditionalFees := ⟨[], .none, 0⟩

/-- One additional fee. -/
def AdditionalFees.single (property : String) (amount : ℕ) : AdditionalFees :=
  ⟨[(property, amount)], .none, amount⟩

/-- The branch of `calcAdditionalFees` for a transfer to another chain. -/
def calcCrossChainFees (node : FeeNode) (params : EstimateParams) :
    Except EstimateFailure AdditionalFees := do
  match node.serviceURL params.receivingChainID with
  | none => .error (.validationException (s!"Application off-chain metadata is not available " ++
      s!"for the chain: {params.receivingChainID}."))
  | some receivingServiceURL =>
    let extraCommandFees := node.receivingFees receivingServiceURL
    match params.tokenID with
    | none => .error .typeError
    | some tokenID =>
      let additionalFees :=
        if node.currentChainID.toList.isPrefixOf tokenID.toList &&
            !node.tokenHasEscrowAccount tokenID params.receivingChainID then
          AdditionalFees.single "escrowAccountInitializationFee"
            extraCommandFees.escrowAccountInitializationFee
        else .none
      return if node.receivingIsExists receivingServiceURL tokenID params.recipientAddress then
          additionalFees
        else { additionalFees with
          messageFee := some extraCommandFees.userAccountInitializationFee }

/-- `calcAdditionalFees`. -/
def calcAdditionalFees (node : FeeNode) (transaction : MockedTransaction) :
    Except EstimateFailure AdditionalFees :=
  if transaction.module = "token" then
    if transaction.command = "transfer" then
      .ok (if node.isExists (transaction.params.tokenID.getD "") transaction.params.recipientAddress
        then .none
        else .single "userAccountInitializationFee"
          node.extraCommandFees.userAccountInitializationFee)
    else if transaction.command = "transferCrossChain" then
      calcCrossChainFees node transaction.params
    else .ok .none
  else if transaction.module = "pos" then
    .ok (if transaction.command = "registerValidator" then
      .single "validatorRegistrationFee" node.validatorRegistrationFee else .none)
  else if transaction.module = "interoperability" then
    .ok (if transaction.command = "registerMainchain" ∨ transaction.command = "registerSidechain"
      then .single "chainRegistrationFee" node.chainRegistrationFee else .none)
  else .ok .none

/-- The defaults that `validateTransactionParams` puts into the transaction. -/
def EstimateTransaction.withMessageFee (transaction : EstimateTransaction) : EstimateTransaction :=
  if transaction.isCrossChain then
    { transaction with params :=
      { transaction.params with
        messageFee := some (transaction.params.messageFee.getD 10000000)
        messageFeeTokenID := some (transaction.params.messageFeeTokenID.getD "0000000000000000") } }
  else transaction

/-- The check of the balance, if there is a `tokenID`. Without an amount `BigInt` throws. -/
def validateBalance (node : FeeNode) (transaction : EstimateTransaction) :
    Except EstimateFailure Unit :=
  match transaction.params.tokenID with
  | none => .ok ()
  | some tokenID =>
    if tokenID = "" then .ok () else
    let senderAddress := node.addressFromPublicKey transaction.senderPublicKey
    match transaction.params.amount with
    | none => .error .typeError
    | some amount =>
      if node.availableBalance senderAddress tokenID < amount then
        .error (.validationException (s!"{senderAddress} has insufficient balance for {tokenID} " ++
          "to send the transaction."))
      else .ok ()

/-- `validateTransactionParams`; the transaction has its defaults afterwards. -/
def validateTransactionParams (node : FeeNode) (transaction : EstimateTransaction) :
    Except EstimateFailure EstimateTransaction := do
  let transaction := transaction.withMessageFee
  validateBalance node transaction
  let moduleCommand := transaction.module ++ ":" ++ transaction.command
  match node.commandSchema moduleCommand with
  | none => .error (.validationException (moduleCommand ++ " is not a valid transaction."))
  | some validate =>
    match validate transaction.params with
    | some err => .error (.validationException err)
    | none => return transaction

/-- `validateUserHasTokenAccount`. -/
def validateUserHasTokenAccount (node : FeeNode) (tokenID address : String) :
    Except EstimateFailure Unit :=
  if node.isExists tokenID address then .ok ()
  else .error (.validationException (s!"{address} has no balance for tokenID: {tokenID}, " ++
    "necessary to make this transaction. Please top-up the account with some balance and retry."))

/-- The buffer bytes next to other fees, if a buffer is configured. -/
def withBufferBytes (bufferBytesLength minFeePerByte : ℕ) (additionalFees : FeeParts) : FeeParts :=
  if bufferBytesLength = 0 then additionalFees
  else additionalFees ++ [("bufferBytes", bufferBytesLength * minFeePerByte)]

/-- The part of `estimateTransactionFees` for transfers to another chain: the message fee, its
breakdown and the transaction, formatted again with the message fee. -/
def estimateMessageFee (node : FeeNode) (bufferBytesLength minFeePerByte : ℕ)
    (senderAddress : String) (trxWithMockProps : MockedTransaction)
    (additionalFees : AdditionalFees) (formattedTransaction : FormattedTransaction) :
    Except EstimateFailure (FormattedTransaction × MessageFee × MessageFeeBreakdown) := do
  let channelInfo ← resolveChannelInfo node trxWithMockProps.params.receivingChainID
  validateUserHasTokenAccount node channelInfo.messageFeeTokenID senderAddress
  let ccmBuffer ← getCcmBuffer node { formattedTransaction with fee := formattedTransaction.minFee }
  let ccmByteFee := ccmBuffer.length * channelInfo.minReturnFeePerByte
  let totalMessageFee := ccmByteFee + additionalFees.messageFee.getD 0
  let formattedTransaction := node.formatTransaction
    { trxWithMockProps with params :=
      { trxWithMockProps.params with
        messageFeeTokenID := some channelInfo.messageFeeTokenID
        messageFee := some totalMessageFee } } additionalFees.total
  return (formattedTransaction, ⟨channelInfo.messageFeeTokenID, totalMessageFee⟩,
    ⟨ccmByteFee, withBufferBytes bufferBytesLength minFeePerByte
      (additionalFees.messageFee.toList.map ("userAccountInitializationFee", ·))⟩)

/-- `estimateTransactionFeesRes.transaction.fee.priority = dynamicFeeEstimates`. -/
def EstimateFeesResponse.setPriority (res : EstimateFeesResponse)
    (dynamicFeeEstimates : DynamicFeeEstimates) : Except EstimateFailure EstimateFeesResponse :=
  match res.transaction with
  | none => .error .typeError
  | some fee => .ok { res with transaction := some { fee with priority := dynamicFeeEstimates } }

/-- The response, from the formatted transaction on. -/
def estimateResponse (bufferBytesLength : ℕ) (feeEstimatePerByte : FeeEstimateState)
    (additionalFees : AdditionalFees) (formattedTransaction : FormattedTransaction)
    (messageFee : Option (MessageFee × MessageFeeBreakdown)) :
    Except EstimateFailure EstimateFeesResponse :=
  let estimatedMinFee :=
    formattedTransaction.minFee + bufferBytesLength * feeEstimatePerByte.minFeePerByte
  let res : EstimateFeesResponse :=
    { messageFee := messageFee.map Prod.fst
      fee := ⟨feeEstimatePerByte.feeTokenID, estimatedMinFee, none⟩
      messageFeeBreakdown := messageFee.map Prod.snd
      minimumBreakdown :=
        { byteFee := formattedTransaction.size * feeEstimatePerByte.minFeePerByte
          additionalFees := withBufferBytes bufferBytesLength feeEstimatePerByte.minFeePerByte
            additionalFees.fee }
      transaction := none }
  if feeEstimatePerByte.low ≠ 0 ∨ feeEstimatePerByte.med ≠ 0 ∨ feeEstimatePerByte.high ≠ 0 then
    res.setPriority (calcDynamicFeeEstimates feeEstimatePerByte.toFeePerByte estimatedMinFee
      formattedTransaction.size)
  else .ok res

/-- `estimateTransactionFees`. -/
def estimateTransactionFees (node : FeeNode) (bufferBytesLength : ℕ)
    (feeEstimatePerByte : FeeEstimateState) (transaction : EstimateTransaction) :
    Except EstimateFailure EstimateFeesResponse := do
  let senderAddress := node.addressFromPublicKey transaction.senderPublicKey
  validateUserHasTokenAccount node feeEstimatePerByte.feeTokenID senderAddress
  let transaction ← validateTransactionParams node transaction
  let numberOfSignatures := getNumberOfSignatures node senderAddress
  let trxWithMockProps ← mockTransaction node transaction numberOfSignatures
  let additionalFees ← calcAdditionalFees node trxWithMockProps
  let formattedTransaction := node.formatTransaction trxWithMockProps additionalFees.total
  if transaction.isCrossChain then
    let (formattedTransaction, messageFee) ← estimateMessageFee node bufferBytesLength
      feeEstimatePerByte.minFeePerByte senderAddress trxWithMockProps additionalFees
      formattedTransaction
    estimateResponse bufferBytesLength feeEstimatePerByte additionalFees formattedTransaction
      messageFee
  else
    estimateResponse bufferBytesLength feeEstimatePerByte additionalFees formattedTransaction none

/-! ### What is asked of an estimate -/

/-- The minimum fee that the connector computes. -/
def FormatsFees (node : FeeNode) (minFeePerByte : ℕ) : Prop :=
  ∀ transaction additionalFee, (node.formatTransaction transaction additionalFee).minFee =
    (node.formatTransaction transaction additionalFee).size * minFeePerByte + additionalFee

/-- A parameter `tokenID` comes with an amount. -/
def EstimateTransaction.HasAmount (tx : EstimateTransaction) : Prop :=
  ∀ tokenID, tx.params.tokenID = some tokenID → tokenID ≠ "" → tx.params.amount.isSome

/-- The dry runs show a message that is sent, or at least no failure. -/
def DryRunSucceeds (node : FeeNode) (t : FormattedTransaction) : Prop :=
  ((node.dryRunTransaction t true).events.find? (·.name == "ccmSendSuccess")).isSome ∨
    ((node.dryRunTransaction t false).errorMessage = none ∧
      (node.dryRunTransaction t false).events.find? (·.name == "ccmSentFailed") = none)

/-- The channel of a transfer to another chain: there is one, and the sender has an account for
the fee of the message. -/
structure ValidChannel (node : FeeNode) (tx : EstimateTransaction) (channel : ChannelInfo) :
    Prop where
  otherChain : tx.params.receivingChainID ≠ node.currentChainID
  getChannel : node.getChannel tx.params.receivingChainID = .ok channel
  account : node.isExists channel.messageFeeTokenID
    (node.addressFromPublicKey tx.senderPublicKey) = true

/-- A transfer to another chain that can be made. -/
structure ValidCrossChain (node : FeeNode) (tx : EstimateTransaction) : Prop where
  channel : ∃ channel, ValidChannel node tx channel
  metadata : (node.serviceURL tx.params.receivingChainID).isSome
  tokenID : tx.params.tokenID.isSome
  dryRun : ∀ signatures mocked additionalFees,
    mockTransaction node tx.withMessageFee signatures = .ok mocked →
    calcAdditionalFees node mocked = .ok additionalFees →
    DryRunSucceeds node
      { node.formatTransaction mocked additionalFees.total with
        fee := (node.formatTransaction mocked additionalFees.total).minFee }

/-- The sender can pay the fee and the amount, and the parameters are those of the command. -/
structure ValidTransaction (node : FeeNode) (feeTokenID : String) (tx : EstimateTransaction) :
    Prop where
  account : node.isExists feeTokenID (node.addressFromPublicKey tx.senderPublicKey) = true
  balance : ∀ tokenID amount, tx.params.tokenID = some tokenID → tx.params.amount = some amount →
    amount ≤ node.availableBalance (node.addressFromPublicKey tx.senderPublicKey) tokenID
  schema : ∃ validate, node.commandSchema (tx.module ++ ":" ++ tx.command) = some validate ∧
    validate tx.withMessageFee.params = none
  crossChain : tx.isCrossChain = true → ValidCrossChain node tx

/-- Some estimate is not zero. -/
def FeePerByte.NonZero (est : FeePerByte) : Prop := est.low ≠ 0 ∨ est.med ≠ 0 ∨ est.high ≠ 0

/-- The amounts are the sums of their breakdowns, and there are priorities, not below the minimum,
if and only if some estimate is not zero. -/
structure FeesEstimated (crossChain : Bool) (est : FeePerByte) (res : EstimateFeesResponse) :
    Prop where
  minimum : res.fee.minimum =
    res.minimumBreakdown.byteFee + res.minimumBreakdown.additionalFees.total
  messageFee : crossChain = true → ∃ fee breakdown, res.messageFee = some fee ∧
    res.messageFeeBreakdown = some breakdown ∧
    fee.amount = breakdown.ccmByteFee + breakdown.additionalFees.total
  priority_iff : res.fee.priority.isSome ↔ est.NonZero
  minimum_le : ∀ p, res.fee.priority = some p →
    res.fee.minimum ≤ p.low ∧ res.fee.minimum ≤ p.medium ∧ res.fee.minimum ≤ p.high

section Estimates

variable {node : FeeNode} {est : FeeEstimateState} {tx : EstimateTransaction}
  {bufferBytesLength minFeePerByte signatures : ℕ} {mocked : MockedTransaction}
  {additionalFees : AdditionalFees} {channel : ChannelInfo}

/-! ### Parts and their sums -/

@[simp] theorem FeeParts.total_nil : FeeParts.total [] = 0 := rfl

@[simp] theorem FeeParts.total_append (parts parts' : FeeParts) :
    FeeParts.total (parts ++ parts') = parts.total + parts'.total := by
  simp [FeeParts.total]

@[simp] theorem FeeParts.total_singleton (property : String) (amount : ℕ) :
    FeeParts.total [(property, amount)] = amount := by
  simp [FeeParts.total]

theorem total_withBufferBytes (parts : FeeParts) :
    (withBufferBytes bufferBytesLength minFeePerByte parts).total =
      parts.total + bufferBytesLength * minFeePerByte := by
  rw [withBufferBytes]
  split_ifs with hzero
  · rw [hzero, zero_mul, add_zero]
  · rw [FeeParts.total_append, FeeParts.total_singleton]

theorem total_messageFee (fee : Option ℕ) :
    FeeParts.total (fee.toList.map ("userAccountInitializationFee", ·)) = fee.getD 0 := by
  cases fee <;> simp

theorem calcCrossChainFees_total {params : EstimateParams}
    (h : calcCrossChainFees node params = .ok additionalFees) :
    additionalFees.total = additionalFees.fee.total := by
  rw [calcCrossChainFees] at h
  split at h
  · simp at h
  · split at h
    · simp at h
    · obtain rfl := pure_eq_ok_iff.mp h
      split_ifs <;> rfl

/-- The total that the node adds is the sum of the parts that the breakdown lists. -/
theorem calcAdditionalFees_total (h : calcAdditionalFees node mocked = .ok additionalFees) :
    additionalFees.total = additionalFees.fee.total := by
  rw [calcAdditionalFees] at h
  split_ifs at h <;> first
    | exact calcCrossChainFees_total h
    | obtain rfl := Except.ok.inj h; rfl

/-! ### The checks of a valid transaction -/

@[simp] theorem withMessageFee_isCrossChain (tx : EstimateTransaction) :
    tx.withMessageFee.isCrossChain = tx.isCrossChain := by
  rw [EstimateTransaction.withMessageFee]
  split_ifs <;> rfl

theorem withMessageFee_fields (tx : EstimateTransaction) :
    tx.withMessageFee.module = tx.module ∧ tx.withMessageFee.command = tx.command ∧
      tx.withMessageFee.senderPublicKey = tx.senderPublicKey ∧
      tx.withMessageFee.params.tokenID = tx.params.tokenID ∧
      tx.withMessageFee.params.amount = tx.params.amount ∧
      tx.withMessageFee.params.receivingChainID = tx.params.receivingChainID := by
  rw [EstimateTransaction.withMessageFee]
  split_ifs <;> exact ⟨rfl, rfl, rfl, rfl, rfl, rfl⟩

/-- What the mocked properties leave as it was. -/
theorem mockTransaction_fields (h : mockTransaction node tx signatures = .ok mocked) :
    mocked.module = tx.module ∧ mocked.command = tx.command ∧
      mocked.params.tokenID = tx.params.tokenID ∧
      mocked.params.receivingChainID = tx.params.receivingChainID := by
  rw [mockTransaction] at h
  split_ifs at h
  · obtain ⟨channelInfo, -, h⟩ := bind_eq_ok_iff.mp h
    obtain rfl := pure_eq_ok_iff.mp h
    split_ifs <;> exact ⟨rfl, rfl, rfl, rfl⟩
  · obtain rfl := pure_eq_ok_iff.mp h
    exact ⟨rfl, rfl, rfl, rfl⟩

theorem ValidChannel.resolveChannelInfo_eq (h : ValidChannel node tx channel) :
    resolveChannelInfo node tx.params.receivingChainID = .ok channel := by
  rw [resolveChannelInfo, if_neg h.otherChain, h.getChannel]

theorem exists_getCcmBuffer {t : FormattedTransaction} (h : DryRunSucceeds node t) :
    ∃ ccmBuffer, getCcmBuffer node t = .ok ccmBuffer := by
  rw [getCcmBuffer]
  cases hsent : (node.dryRunTransaction t true).events.find? (·.name == "ccmSendSuccess") with
  | some ccmSendSuccess => exact ⟨_, rfl⟩
  | none =>
    rcases h with hsome | ⟨herror, hfailed⟩
    · simp [hsent] at hsome
    · exact ⟨[], by simp only [herror, hfailed]⟩

/-- The balance is enough, if it can be compared. -/
theorem validateBalance_eq_ok_iff {feeTokenID : String}
    (h : ValidTransaction node feeTokenID tx) :
    validateBalance node tx.withMessageFee = .ok () ↔ tx.HasAmount := by
  obtain ⟨-, -, hkey, htoken, hamount, -⟩ := withMessageFee_fields tx
  rw [validateBalance, EstimateTransaction.HasAmount]
  rw [htoken, hamount, hkey]
  -- Without a token ID, or with an empty one, no balance is compared.
  cases htokenID : tx.params.tokenID with
  | none => simp
  | some tokenID =>
    by_cases hempty : tokenID = ""
    · simp [hempty]
    · cases hvalue : tx.params.amount with
      | none => simp [hempty]
      | some amount =>
        have hle := h.balance tokenID amount htokenID hvalue
        simp [hempty, hle.not_gt]

theorem ValidTransaction.validateTransactionParams_eq {feeTokenID : String}
    (h : ValidTransaction node feeTokenID tx) (hamount : tx.HasAmount) :
    validateTransactionParams node tx = .ok tx.withMessageFee := by
  obtain ⟨hmodule, hcommand, -, -, -, -⟩ := withMessageFee_fields tx
  obtain ⟨validate, hschema, hnone⟩ := h.schema
  simp only [validateTransactionParams, (validateBalance_eq_ok_iff h).mpr hamount, hmodule,
    hcommand, hschema, hnone]
  rfl

theorem isCrossChain_iff {tx : EstimateTransaction} :
    tx.isCrossChain = true ↔ tx.module = "token" ∧ tx.command = "transferCrossChain" := by
  simp [EstimateTransaction.isCrossChain]

theorem calcAdditionalFees_of_crossChain (h : mocked.isCrossChain = true) :
    calcAdditionalFees node mocked = calcCrossChainFees node mocked.params := by
  obtain ⟨hmodule, hcommand⟩ := isCrossChain_iff.mp h
  rw [calcAdditionalFees, if_pos hmodule, if_neg (by simp [hcommand]), if_pos hcommand]

theorem exists_calcAdditionalFees (h : ¬ mocked.isCrossChain = true) :
    ∃ additionalFees, calcAdditionalFees node mocked = .ok additionalFees := by
  rw [calcAdditionalFees]
  split_ifs <;> first
    | exact ⟨_, rfl⟩
    | exact absurd (isCrossChain_iff.mpr ⟨‹_›, ‹_›⟩) h

/-- A valid transaction can be mocked, and its additional fees be found. -/
theorem ValidTransaction.exists_additionalFees {feeTokenID : String}
    (h : ValidTransaction node feeTokenID tx) (signatures : ℕ) :
    ∃ mocked additionalFees, mockTransaction node tx.withMessageFee signatures = .ok mocked ∧
      calcAdditionalFees node mocked = .ok additionalFees := by
  obtain ⟨hmodule, hcommand, -, htoken, -, hchain⟩ := withMessageFee_fields tx
  have hmock : ∃ mocked, mockTransaction node tx.withMessageFee signatures = .ok mocked := by
    rw [mockTransaction]
    rw [withMessageFee_isCrossChain, hchain]
    split_ifs with hcross
    · obtain ⟨channel, hchannel⟩ := (h.crossChain hcross).channel
      exact ⟨_, bind_eq_ok_iff.mpr ⟨channel, hchannel.resolveChannelInfo_eq, rfl⟩⟩
    · exact ⟨_, rfl⟩
  obtain ⟨mocked, hmocked⟩ := hmock
  obtain ⟨hmodule', hcommand', htoken', hchain'⟩ := mockTransaction_fields hmocked
  have hfees : ∃ additionalFees, calcAdditionalFees node mocked = .ok additionalFees := by
    by_cases hcross : mocked.isCrossChain = true
    · have hcross' : tx.isCrossChain = true := by
        rw [isCrossChain_iff, ← hmodule, ← hcommand, ← hmodule', ← hcommand']
        exact isCrossChain_iff.mp hcross
      obtain ⟨serviceURL, hurl⟩ := Option.isSome_iff_exists.mp (h.crossChain hcross').metadata
      obtain ⟨tokenID, hsome⟩ := Option.isSome_iff_exists.mp (h.crossChain hcross').tokenID
      rw [calcAdditionalFees_of_crossChain hcross]
      simp only [calcCrossChainFees, hchain', hchain, htoken', htoken, hurl, hsome]
      exact ⟨_, rfl⟩
    · exact exists_calcAdditionalFees hcross
  obtain ⟨additionalFees, hadditional⟩ := hfees
  exact ⟨mocked, additionalFees, hmocked, hadditional⟩

/-! ### The response -/

/-- The message fee of a valid transfer to another chain, and its breakdown: the buffer bytes are
in the second only. -/
theorem ValidCrossChain.exists_estimateMessageFee (h : ValidCrossChain node tx)
    (hmocked : mockTransaction node tx.withMessageFee signatures = .ok mocked)
    (hadditional : calcAdditionalFees node mocked = .ok additionalFees) :
    ∃ t fee breakdown, estimateMessageFee node bufferBytesLength minFeePerByte
        (node.addressFromPublicKey tx.senderPublicKey) mocked additionalFees
        (node.formatTransaction mocked additionalFees.total) =
          .ok (node.formatTransaction t additionalFees.total, fee, breakdown) ∧
      breakdown.ccmByteFee + breakdown.additionalFees.total =
        fee.amount + bufferBytesLength * minFeePerByte := by
  obtain ⟨-, -, -, -, -, hchain⟩ := withMessageFee_fields tx
  obtain ⟨-, -, -, hchain'⟩ := mockTransaction_fields hmocked
  obtain ⟨channel, hchannel⟩ := h.channel
  obtain ⟨ccmBuffer, hbuffer⟩ := exists_getCcmBuffer (h.dryRun _ _ _ hmocked hadditional)
  have hresolve : resolveChannelInfo node mocked.params.receivingChainID = .ok channel := by
    rw [hchain', hchain]
    exact hchannel.resolveChannelInfo_eq
  have haccount : validateUserHasTokenAccount node channel.messageFeeTokenID
      (node.addressFromPublicKey tx.senderPublicKey) = .ok () := if_pos hchannel.account
  rw [estimateMessageFee]
  refine ⟨_, _, _, bind_eq_ok_iff.mpr ⟨channel, hresolve, bind_eq_ok_iff.mpr ⟨(), haccount,
    bind_eq_ok_iff.mpr ⟨ccmBuffer, hbuffer, rfl⟩⟩⟩, ?_⟩
  rw [total_withBufferBytes, total_messageFee, add_assoc]

/-- **The response** is only returned without priorities. -/
theorem estimateResponse_estimated_iff {t : FormattedTransaction} {crossChain : Bool}
    {messageFee : Option (MessageFee × MessageFeeBreakdown)}
    (ht : t.minFee = t.size * est.minFeePerByte + additionalFees.fee.total)
    (hmessage : crossChain = true → ∃ fee breakdown, messageFee = some (fee, breakdown) ∧
      breakdown.ccmByteFee + breakdown.additionalFees.total =
        fee.amount + bufferBytesLength * est.minFeePerByte) :
    (∃ res, estimateResponse bufferBytesLength est additionalFees t messageFee = .ok res ∧
        FeesEstimated crossChain est.toFeePerByte res) ↔
      ¬ est.NonZero ∧ (crossChain = true → bufferBytesLength * est.minFeePerByte = 0) := by
  rw [estimateResponse]
  by_cases hzero : est.NonZero
  · -- The priorities are set on a property that the response does not have.
    have hif : est.low ≠ 0 ∨ est.med ≠ 0 ∨ est.high ≠ 0 := hzero
    simp [hif, EstimateFeesResponse.setPriority, hzero]
  · have hif : ¬ (est.low ≠ 0 ∨ est.med ≠ 0 ∨ est.high ≠ 0) := hzero
    simp only [if_neg hif, hzero, not_false_eq_true, true_and]
    constructor
    · rintro ⟨res, hres, hfees⟩ hcross
      obtain rfl := Except.ok.inj hres
      obtain ⟨fee, breakdown, hsome, hsum⟩ := hmessage hcross
      obtain ⟨fee', breakdown', hfee, hbreakdown, hamount⟩ := hfees.messageFee hcross
      rw [hsome] at hfee hbreakdown
      obtain rfl := Option.some.inj hfee
      obtain rfl := Option.some.inj hbreakdown
      rw [hamount] at hsum
      exact Nat.left_eq_add.mp hsum
    · intro hbuffer
      refine ⟨_, rfl, ?_, fun hcross => ?_, by simp [hzero], by simp⟩
      · dsimp only
        rw [total_withBufferBytes, ht, add_assoc]
      · obtain ⟨fee, breakdown, rfl, hsum⟩ := hmessage hcross
        refine ⟨fee, breakdown, rfl, rfl, ?_⟩
        rw [hsum, hbuffer hcross, add_zero]

/-- **When the fees of a valid transaction are estimated.** -/
theorem fees_estimated_iff (hformat : FormatsFees node est.minFeePerByte)
    (hvalid : ValidTransaction node est.feeTokenID tx) (bufferBytesLength : ℕ) :
    (∃ res, estimateTransactionFees node bufferBytesLength est tx = .ok res ∧
        FeesEstimated tx.isCrossChain est.toFeePerByte res) ↔
      ¬ est.NonZero ∧ (tx.isCrossChain = true → bufferBytesLength * est.minFeePerByte = 0) ∧
        tx.HasAmount := by
  by_cases hamount : tx.HasAmount
  · -- Every call up to the response succeeds.
    obtain ⟨mocked, additionalFees, hmocked, hadditional⟩ := hvalid.exists_additionalFees
      (getNumberOfSignatures node (node.addressFromPublicKey tx.senderPublicKey))
    have htotal := calcAdditionalFees_total hadditional
    have haccount : validateUserHasTokenAccount node est.feeTokenID
        (node.addressFromPublicKey tx.senderPublicKey) = .ok () := if_pos hvalid.account
    have hrun : estimateTransactionFees node bufferBytesLength est tx =
        if tx.isCrossChain then do
          let (formattedTransaction, messageFee) ← estimateMessageFee node bufferBytesLength
            est.minFeePerByte (node.addressFromPublicKey tx.senderPublicKey) mocked additionalFees
            (node.formatTransaction mocked additionalFees.total)
          estimateResponse bufferBytesLength est additionalFees formattedTransaction messageFee
        else estimateResponse bufferBytesLength est additionalFees
          (node.formatTransaction mocked additionalFees.total) none := by
      rw [estimateTransactionFees]
      simp only [haccount, hvalid.validateTransactionParams_eq hamount, hmocked, hadditional,
        withMessageFee_isCrossChain, bind, Except.bind]
    have hfees : ∀ t, (node.formatTransaction t additionalFees.total).minFee =
        (node.formatTransaction t additionalFees.total).size * est.minFeePerByte +
          additionalFees.fee.total := fun t => htotal ▸ hformat t additionalFees.total
    simp only [hamount, and_true]
    by_cases hcross : tx.isCrossChain = true
    · obtain ⟨t, fee, breakdown, hmessage, hsum⟩ :=
        (hvalid.crossChain hcross).exists_estimateMessageFee hmocked hadditional
      rw [hrun, if_pos hcross, hmessage]
      exact estimateResponse_estimated_iff (hfees t) fun _ => ⟨fee, breakdown, rfl, hsum⟩
    · rw [hrun, if_neg hcross]
      exact estimateResponse_estimated_iff (hfees mocked) fun h => absurd h hcross
  · -- The balance cannot be compared with an amount that is missing.
    simp only [hamount, and_false, iff_false]
    rintro ⟨res, hres, -⟩
    obtain ⟨-, -, hres⟩ := bind_eq_ok_iff.mp hres
    obtain ⟨tx', hparams, -⟩ := bind_eq_ok_iff.mp hres
    obtain ⟨⟨⟩, hbalance, -⟩ := bind_eq_ok_iff.mp hparams
    exact hamount ((validateBalance_eq_ok_iff hvalid).mp hbalance)

end Estimates

/-! ### A transfer -/

/-- A node on the chain `00000000`, on which everybody has an account, and the channel to another
chain. A transaction has 100 bytes and pays 1000 for each. -/
def transferNode : FeeNode where
  addressFromPublicKey key := key
  isExists _ _ := true
  availableBalance _ _ := 10
  commandSchema _ := some fun _ => none
  authAccount _ := none
  randomSignature _ := "signature"
  randomID := "id"
  currentChainID := "00000000"
  getChannel _ := .ok ⟨"0000000000000000", 1000⟩
  extraCommandFees := ⟨5000000, 5000000⟩
  serviceURL _ := some "https://service"
  receivingFees _ := ⟨5000000, 5000000⟩
  tokenHasEscrowAccount _ _ := true
  receivingIsExists _ _ _ := true
  validatorRegistrationFee := 1000000000
  chainRegistrationFee := 1000000000
  formatTransaction t additionalFee := { t with minFee := 100 * 1000 + additionalFee, size := 100 }
  dryRunTransaction _ _ := ⟨none, [⟨"ccmSendSuccess", "ccm", 0⟩]⟩
  encodeCCM _ := "00ff"

/-- A transfer of 1, on the chain or to another one. -/
def transferOf (command : String) : EstimateTransaction :=
  ⟨"token", command, "alice", ⟨some "0000000000000000", some 1, "bob", "00000001", none, none⟩⟩

/-- The estimates of the node's chain. -/
def estimatesOf (low : ℚ) : FeeEstimateState := ⟨⟨low, low, low⟩, "0000000000000000", 1000⟩

theorem transferNode_formats : FormatsFees transferNode 1000 := fun _ _ => rfl

theorem transferOf_valid (command : String) :
    ValidTransaction transferNode "0000000000000000" (transferOf command) := by
  refine ⟨rfl, fun tokenID amount _ hamount => ?_, ⟨_, rfl, rfl⟩, fun _ => ?_⟩
  · obtain rfl := Option.some.inj hamount
    exact Nat.le_of_ble_eq_true rfl
  · refine ⟨⟨_, ?_, rfl, rfl⟩, rfl, rfl, fun _ _ _ _ _ => .inl rfl⟩
    exact (by decide : "00000001" ≠ "00000000")

/-- A transfer to another chain, without a buffer and with estimates that are zero. -/
theorem fees_estimated_crossChain :
    FormatsFees transferNode (estimatesOf 0).minFeePerByte ∧
      ValidTransaction transferNode (estimatesOf 0).feeTokenID (transferOf "transferCrossChain") ∧
      ∃ res, estimateTransactionFees transferNode 0 (estimatesOf 0)
          (transferOf "transferCrossChain") = .ok res ∧
        FeesEstimated (transferOf "transferCrossChain").isCrossChain (estimatesOf 0).toFeePerByte
          res := by
  refine ⟨transferNode_formats, transferOf_valid _, (fees_estimated_iff transferNode_formats
    (transferOf_valid _) 0).mpr ⟨?_, fun _ => rfl, fun _ _ _ => rfl⟩⟩
  simp [FeePerByte.NonZero, estimatesOf]

/-- With an estimate of 1 for a byte every transfer throws; with a buffer of 10 bytes the message
fee is 2000 and its breakdown adds up to 12000. -/
theorem transfer_estimates_fail :
    ValidTransaction transferNode "0000000000000000" (transferOf "transfer") ∧
      estimateTransactionFees transferNode 0 (estimatesOf 1) (transferOf "transfer") =
        .error .typeError ∧
      ∃ res fee breakdown, estimateTransactionFees transferNode 10 (estimatesOf 0)
          (transferOf "transferCrossChain") = .ok res ∧ res.messageFee = some fee ∧
        res.messageFeeBreakdown = some breakdown ∧ fee.amount = 2000 ∧
        breakdown.ccmByteFee + breakdown.additionalFees.total = 12000 := by
  refine ⟨transferOf_valid _, rfl, _, _, _, rfl, rfl, rfl, ?_, ?_⟩ <;> decide

end SwaptoshiService
