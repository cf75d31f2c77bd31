import Mathlib.Data.Rat.Defs

/-!
# What the node delivers: events, transactions and blocks

The data the indexer receives from the node, as the functions of `blockchain-indexer/shared`
read it. An event carries a payload whose constructor stands for the event's module and name,
so the lookups `parseSingleEvent` and `parseEvents` (`indexer/utils/events.js`) take a selector
in place of the two strings. A transaction carries its command with the decoded parameters;
the constructors of `Command` are the module/command pairs for which a transaction processor
with an effect exists, `Command.other` stands for all others.

Amounts that the source holds as `BigInt` or as decimal strings are integers here.
-/

namespace SwaptoshiService

abbrev Address := String

abbrev TokenID := String

abbrev BlockID := String

abbrev TxID := String

abbrev ChainID := String

/-! ### Events -/

/-- Payload of the `dex` events `mint` and `burn`: the two ticks and the net liquidity at each
of them after and before the change. -/
structure LiquidityData where
  tickLower : ℤ
  tickUpper : ℤ
  lowerLiquidityNet : ℤ
  upperLiquidityNet : ℤ
  lowerLiquidityNetBefore : ℤ
  upperLiquidityNetBefore : ℤ
  deriving DecidableEq, Repr

/-- Payload of the `dex` events `increaseLiquidity` and `decreaseLiquidity`. -/
structure PositionData where
  tokenId : String
  ownerAddress : Address
  liquidity : ℕ
  amount0 : ℕ
  amount1 : ℕ
  deriving DecidableEq, Repr

/-- Payload of the `dex` event `swap`. -/
structure SwapData where
  senderAddress : Address
  recipientAddress : Address
  amount0 : ℤ
  amount1 : ℤ
  tick : ℤ
  tickBefore : ℤ
  liquidity : ℕ
  liquidityBefore : ℕ
  feeGrowthGlobal0X128 : ℕ
  feeGrowthGlobal0X128Before : ℕ
  feeGrowthGlobal1X128 : ℕ
  feeGrowthGlobal1X128Before : ℕ
  deriving DecidableEq, Repr

/-- Payload of the `dex` event `poolCreated`. -/
structure PoolCreatedData where
  token0 : TokenID
  token1 : TokenID
  fee : ℕ
  tickSpacing : ℕ
  poolAddress : Address
  deriving DecidableEq, Repr

/-- Payload of the `dex` event `tokenRegistered`. -/
structure TokenRegisteredData where
  tokenId : TokenID
  symbol : String
  decimal : ℕ
  deriving DecidableEq, Repr

/-- Event payloads, one constructor for each module and name the indexer looks for. -/
inductive EventData
  | commandExecutionResult (module : String) (success : Bool)
  | dexMint (d : LiquidityData)
  | dexBurn (d : LiquidityData)
  | increaseLiquidity (d : PositionData)
  | decreaseLiquidity (d : PositionData)
  | tokenURICreated (tokenURI : String)
  | tokenURIDestroyed (tokenId : String)
  | poolCreated (d : PoolCreatedData)
  | poolInitialized (tick : ℤ)
  | tokenRegistered (d : TokenRegisteredData)
  | swap (d : SwapData)
  | nftTransfer (nftID : String) (senderAddress recipientAddress : Address)
  | factoryCreated (tokenId : TokenID) (ownerAddress : Address) (amount : ℕ)
  | factorySetAttributes (tokenId : TokenID) (key : String)
  | rewardMinted (amount : ℕ)
  | lock (tokenID : TokenID) (amount : ℕ)
  | unlock (tokenID : TokenID) (amount : ℕ)
  | rewardsAssigned (validatorAddress : Address)
  | initializeUserAccount (address : Address) (initializationFee : ℕ)
  | initializeEscrowAccount (address : Address) (initializationFee : ℕ)
  | other (module name : String)
  deriving DecidableEq, Repr

/-- An event as the connector formats it. -/
structure Event where
  id : String
  index : ℕ
  height : ℕ
  topics : List String
  data : EventData
  deriving DecidableEq, Repr

/-- `EVENT_TOPIC_PREFIX.TX_ID.concat(txID)`. -/
def txTopic (txID : TxID) : String := "04" ++ txID

/-- `parseSingleEvent(events, module, name, topic)`: the payload of the first event of the
given module and name that carries the transaction's topic. -/
def parseSingleEvent {α : Type} (events : List Event) (sel : EventData → Option α)
    (txID : TxID) : Option α :=
  events.findSome? fun e => if txTopic txID ∈ e.topics then sel e.data else none

/-- `parseEvents(events, module, name, topic)`. -/
def parseEvents {α : Type} (events : List Event) (sel : EventData → Option α)
    (txID : TxID) : List α :=
  events.filterMap fun e => if txTopic txID ∈ e.topics then sel e.data else none

namespace EventData

/-- Selector of `dex` events named `mint`. -/
def dexMint? : EventData → Option LiquidityData
  | dexMint d => some d
  | _ => none

/-- Selector of `dex` events named `burn`. -/
def dexBurn? : EventData → Option LiquidityData
  | dexBurn d => some d
  | _ => none

def increaseLiquidity? : EventData → Option PositionData
  | increaseLiquidity d => some d
  | _ => none

def decreaseLiquidity? : EventData → Option PositionData
  | decreaseLiquidity d => some d
  | _ => none

def tokenURICreated? : EventData → Option String
  | tokenURICreated u => some u
  | _ => none

def tokenURIDestroyed? : EventData → Option String
  | tokenURIDestroyed t => some t
  | _ => none

def poolCreated? : EventData → Option PoolCreatedData
  | poolCreated d => some d
  | _ => none

def poolInitialized? : EventData → Option ℤ
  | poolInitialized t => some t
  | _ => none

def tokenRegistered? : EventData → Option TokenRegisteredData
  | tokenRegistered d => some d
  | _ => none

def nftTransfer? : EventData → Option (String × Address × Address)
  | nftTransfer n s r => some (n, s, r)
  | _ => none

def factoryCreated? : EventData → Option (TokenID × Address × ℕ)
  | factoryCreated t o a => some (t, o, a)
  | _ => none

def factorySetAttributes? : EventData → Option (TokenID × String)
  | factorySetAttributes t k => some (t, k)
  | _ => none

/-- The amount of a `rewardMinted` event. -/
def rewardMinted? : EventData → Option ℕ
  | rewardMinted a => some a
  | _ => none

end EventData

/-- A swap event with the event fields `applySwapEvent` reads; `topics[1]` is the pool
address. -/
structure SwapEvent where
  height : ℕ
  index : ℕ
  poolAddress : Address
  data : SwapData
  deriving DecidableEq, Repr

/-- `parseEvents(events, MODULE_NAME_DEX, EVENT_NAME_SWAP)`. -/
def swapEvents (events : List Event) : List SwapEvent :=
  events.filterMap fun e =>
    match e.data with
    | .swap d => some ⟨e.height, e.index, e.topics.getD 1 "", d⟩
    | _ => none

/-! ### Transactions and blocks -/

/-- One entry of the `stakes` parameter of a `pos:stake` transaction. -/
structure StakeParam where
  validatorAddress : Address
  amount : ℤ
  deriving DecidableEq, Repr

/-- Parameters of the token transfers that are copied into the transaction row. -/
structure TransferParams where
  tokenID : TokenID
  amount : ℕ
  recipientAddress : Address
  data : String
  deriving DecidableEq, Repr

/-- The commands with a transaction processor that has an effect, with their parameters. -/
inductive Command
  | registerMultisignature (mandatoryKeys optionalKeys : List String)
  | registerValidator (name blsKey proofOfPossession generatorKey : String)
  | changeCommission (newCommission : ℕ)
  | stake (stakes : List StakeParam)
  | updateGeneratorKey (generatorKey : String)
  | registerKeys (blsKey proofOfPossession generatorKey : String)
  | registerMainchain
  | registerSidechain (chainID : ChainID) (name : String)
  | terminateSidechainForLiveness (chainID : ChainID)
  | submitCrossChainUpdate (sendingChainID : ChainID)
  | tokenTransfer (params : TransferParams)
  | tokenTransferCrossChain (params : TransferParams) (receivingChainID : ChainID)
      (messageFee : ℕ)
  | nftTransfer
  | dexCreatePool
  | dexMint (token0 token1 : TokenID) (fee : ℕ)
  | dexBurn
  | dexIncreaseLiquidity (poolAddress : Address)
  | dexDecreaseLiquidity (poolAddress : Address)
  | tokenFactoryCreate
  | tokenFactoryMint (tokenId : TokenID) (distribution : List ℕ)
  | tokenFactoryBurn (tokenId : TokenID) (amount : ℕ)
  | tokenFactorySetAttributes
  | other
  deriving DecidableEq, Repr

/-- The keys of `moduleProcessorMap` under which the processor of a command is registered: the
`MODULE_NAME` of its module and the `COMMAND_NAME` of its file. -/
def Command.registered : Command → List (String × String)
  | .registerMultisignature _ _ => [("auth", "registerMultisignature")]
  | .registerValidator _ _ _ _ => [("pos", "registerValidator")]
  | .changeCommission _ => [("pos", "changeCommission")]
  | .stake _ => [("pos", "stake")]
  | .updateGeneratorKey _ => [("pos", "updateGeneratorKey")]
  | .registerKeys _ _ _ => [("legacy", "registerKeys")]
  | .registerMainchain => [("interoperability", "registerMainchain")]
  | .registerSidechain _ _ => [("interoperability", "registerSidechain")]
  | .terminateSidechainForLiveness _ => [("interoperability", "terminateSidechainForLiveness")]
  | .submitCrossChainUpdate _ =>
    [("interoperability", "submitMainchainCrossChainUpdate"),
      ("interoperability", "submitSidechainCrossChainUpdate")]
  | .tokenTransfer _ => [("token", "transfer")]
  | .tokenTransferCrossChain _ _ _ => [("token", "transferCrossChain")]
  | .nftTransfer => [("nft", "transfer")]
  | .dexCreatePool => [("dex", "createPool")]
  | .dexMint _ _ _ => [("dex", "mint")]
  | .dexBurn => [("dex", "burn")]
  | .dexIncreaseLiquidity _ => [("dex", "increaseLiquidity")]
  | .dexDecreaseLiquidity _ => [("dex", "decreaseLiquidity")]
  | .tokenFactoryCreate => [("tokenFactory", "tokenCreate")]
  | .tokenFactoryMint _ _ => [("tokenFactory", "tokenMint")]
  -- `tokenBurn.js` registers itself as `burn`, unlike its siblings.
  | .tokenFactoryBurn _ _ => [("tokenFactory", "burn")]
  | .tokenFactorySetAttributes => [("tokenFactory", "factorySetAttributes")]
  | .other => []

/-- All keys that lead to a processor with an effect. -/
def processorKeys : List (String × String) :=
  [("auth", "registerMultisignature"), ("pos", "registerValidator"), ("pos", "changeCommission"),
    ("pos", "stake"), ("pos", "updateGeneratorKey"), ("legacy", "registerKeys"),
    ("interoperability", "registerMainchain"), ("interoperability", "registerSidechain"),
    ("interoperability", "terminateSidechainForLiveness"),
    ("interoperability", "submitMainchainCrossChainUpdate"),
    ("interoperability", "submitSidechainCrossChainUpdate"), ("token", "transfer"),
    ("token", "transferCrossChain"), ("nft", "transfer"), ("dex", "createPool"), ("dex", "mint"),
    ("dex", "burn"), ("dex", "increaseLiquidity"), ("dex", "decreaseLiquidity"),
    ("tokenFactory", "tokenCreate"), ("tokenFactory", "tokenMint"), ("tokenFactory", "burn"),
    ("tokenFactory", "factorySetAttributes")]

/-- The parameters are those of the command that a transaction names: `other` stands for all
commands without a processor that has an effect. -/
def Command.FitsName (module command : String) (params : Command) : Prop :=
  if (module, command) ∈ processorKeys then (module, command) ∈ params.registered
  else params = .other

instance (module command : String) (params : Command) :
    Decidable (params.FitsName module command) :=
  inferInstanceAs (Decidable (if (module, command) ∈ processorKeys then
    (module, command) ∈ params.registered else params = .other))

theorem Command.dexCreatePool_fits : dexCreatePool.FitsName "dex" "createPool" := by decide

theorem Command.dexIncreaseLiquidity_fits (poolAddress : Address) :
    (dexIncreaseLiquidity poolAddress).FitsName "dex" "increaseLiquidity" := by
  simp [FitsName, processorKeys, registered]

theorem Command.tokenFactoryCreate_fits :
    tokenFactoryCreate.FitsName "tokenFactory" "tokenCreate" := by decide

/-- A transaction of a block. -/
structure Transaction where
  id : TxID
  module : String
  command : String
  params : Command
  senderPublicKey : String
  nonce : ℕ
  fee : ℕ
  minFee : ℕ
  size : ℕ
  fitsName : params.FitsName module command := by decide
  deriving DecidableEq, Repr

/-- Module and command of a transaction lead to the processor of its parameters, if there is
one. -/
theorem Transaction.mem_registered (tx : Transaction) (h : tx.params ≠ .other) :
    (tx.module, tx.command) ∈ tx.params.registered := by
  have hfits := tx.fitsName
  rw [Command.FitsName] at hfits
  split at hfits
  · exact hfits
  · exact absurd hfits h

/-- `TRANSACTION_STATUS`, as far as it applies to included transactions. -/
inductive ExecutionStatus
  | successful
  | failed
  deriving DecidableEq, Repr

/-- The commandExecutionResult payload of a given module. -/
def EventData.executionResult? (module : String) : EventData → Option Bool
  | .commandExecutionResult m success => if m = module then some success else none
  | _ => none

/-- `getTransactionExecutionStatus(tx, events)` (`utils/transactions.js`): read off the first
command execution result of the transaction's module that carries its topic, with or without
the prefix; `none` is the thrown "Event unavailable" error. -/
def getTransactionExecutionStatus (tx : Transaction) (events : List Event) :
    Option ExecutionStatus :=
  (events.findSome? fun e =>
    if txTopic tx.id ∈ e.topics ∨ tx.id ∈ e.topics then e.data.executionResult? tx.module
    else none).map fun success => if success then .successful else .failed

/-- The block header fields the processors read. -/
structure BlockHeader where
  id : BlockID
  height : ℕ
  timestamp : ℕ
  generatorAddress : Address
  previousBlockID : BlockID
  size : ℕ
  isFinal : Bool
  deriving DecidableEq, Repr

/-- A block as `getBlockByHeight` and `getBlockByID` return it. -/
structure Block where
  header : BlockHeader
  transactions : List Transaction
  assetsModules : List String
  deriving DecidableEq, Repr

end SwaptoshiService
