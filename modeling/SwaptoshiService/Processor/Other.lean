import Mathlib.Algebra.GroupWithZero.Nat
import SwaptoshiService.Indexer.Env

/-!
# Transaction processors of the interoperability, token and token factory modules

The hooks of `transactionProcessor/interoperability`, `transactionProcessor/token` and
`transactionProcessor/tokenFactory`; all their statements are sent on `dbTrx`.
-/

namespace SwaptoshiService

open Async (ofOption)

/-! ### Token transfers -/

/-- The initialization fee of an event for the recipient that carries the bare identifier of
the transaction as a topic. -/
def initializationFee (events : List Event) (sel : EventData → Option (Address × ℕ))
    (tx : IndexedTx) (recipient : Address) : Option ℕ :=
  events.findSome? fun e =>
    match sel e.data with
    | some (address, fee) => if address = recipient ∧ tx.id ∈ e.topics then some fee else none
    | none => none

/-- Selector of events named `initializeUserAccount`. -/
def EventData.initializeUserAccount? : EventData → Option (Address × ℕ)
  | .initializeUserAccount a f => some (a, f)
  | _ => none

/-- Selector of events named `initializeEscrowAccount`. -/
def EventData.initializeEscrowAccount? : EventData → Option (Address × ℕ)
  | .initializeEscrowAccount a f => some (a, f)
  | _ => none

namespace Token

/-- `applyTransaction` of `transfer` and `transferCrossChain`: the row is written again with
the parameters merged in, and with the minimum fee corrected when the transfer initialised an
account. -/
def applyTransferWith (sel : EventData → Option (Address × ℕ)) (env : Env)
    (header : BlockHeader) (tx : IndexedTx) (params : TransferParams)
    (receivingChainID : Option ChainID) (messageFee : Option ℕ) (events : List Event) :
    Prog Unit := ifSuccessful tx do
  let minFee :=
    match initializationFee events sel tx params.recipientAddress with
    | some fee => env.minFee tx.toTransaction fee
    | none => tx.minFee
  let senderAddress ←
    ofOption (.error "Column 'senderAddress' cannot be null") tx.senderAddress
  Table.upsert .dbTrx (.transaction tx.id) fun r =>
    let r' := setTransaction header tx senderAddress r
    { r' with
      recipientAddress := some params.recipientAddress
      tokenID := some params.tokenID
      amount := some params.amount
      data := some params.data
      receivingChainID := receivingChainID.or r'.receivingChainID
      messageFee := messageFee.or r'.messageFee
      minFee }

/-- `applyTransaction` of `transfer`. -/
def applyTransfer (env : Env) (header : BlockHeader) (tx : IndexedTx) (params : TransferParams)
    (events : List Event) : Prog Unit :=
  applyTransferWith EventData.initializeUserAccount? env header tx params none none events

/-- `applyTransaction` of `transferCrossChain`. -/
def applyTransferCrossChain (env : Env) (header : BlockHeader) (tx : IndexedTx)
    (params : TransferParams) (receivingChainID : ChainID) (messageFee : ℕ)
    (events : List Event) : Prog Unit :=
  applyTransferWith EventData.initializeEscrowAccount? env header tx params
    (some receivingChainID) (some messageFee) events

end Token

/-! ### Interoperability -/

namespace Interoperability

/-- Upsert the row of a registered chain. -/
def registerChain (env : Env) (header : BlockHeader) (tx : IndexedTx) (chainID : ChainID)
    (chainName : String) : Prog Unit :=
  Table.upsert .dbTrx (.blockchainApp chainID) fun _ =>
    { chainName
      status := (env.getChainInfo chainID).status
      address := env.addressFromPublicKey tx.senderPublicKey
      lastUpdated := header.timestamp
      lastCertificateHeight := header.height }

/-- `applyTransaction` of `registerMainchain`. -/
def applyRegisterMainchain (env : Env) (header : BlockHeader) (tx : IndexedTx) : Prog Unit :=
  ifSuccessful tx do
  registerChain env header tx env.mainchainID (env.getChainInfo env.mainchainID).name

/-- `applyTransaction` of `registerSidechain`. -/
def applyRegisterSidechain (env : Env) (header : BlockHeader) (tx : IndexedTx)
    (chainID : ChainID) (name : String) : Prog Unit := ifSuccessful tx do
  registerChain env header tx chainID name

/-- `revertTransaction` of `registerMainchain` and `registerSidechain`. -/
def revertRegisterChain (tx : IndexedTx) (chainID : ChainID) : Prog Unit := ifSuccessful tx do
  Table.deleteByPrimaryKey .dbTrx (.blockchainApp chainID)

/-- `applyTransaction` and `revertTransaction` of `terminateSidechainForLiveness`. -/
def terminateSidechain (env : Env) (tx : IndexedTx) (chainID : ChainID) : Prog Unit :=
  ifSuccessful tx do
  Table.upsert .dbTrx (.blockchainApp chainID) fun r =>
    { r with status := (env.getChainInfo chainID).status }

/-- Write status and last certificate of a chain. -/
def updateChain (env : Env) (chainID : ChainID) (lastUpdated lastCertificateHeight : ℕ) :
    Prog Unit :=
  Table.upsert .dbTrx (.blockchainApp chainID) fun r =>
    { r with status := (env.getChainInfo chainID).status, lastUpdated, lastCertificateHeight }

/-- `applyTransaction` of `submitMainchainCrossChainUpdate` and
`submitSidechainCrossChainUpdate`. -/
def applyCrossChainUpdate (env : Env) (header : BlockHeader) (tx : IndexedTx)
    (sendingChainID : ChainID) : Prog Unit := ifSuccessful tx do
  updateChain env sendingChainID header.timestamp header.height
  Table.upsert .dbTrx (.ccu tx.id) fun _ => ⟨header.height, some sendingChainID⟩

/-- `revertTransaction` of the cross-chain updates: the chain falls back to its previous
update, and without one the read of `prevTransaction.block` throws. -/
def revertCrossChainUpdate (env : Env) (header : BlockHeader) (tx : IndexedTx)
    (sendingChainID : ChainID) : Prog Unit := ifSuccessful tx do
  let (timestamp, height) ←
    ofOption .typeError (env.previousCCU sendingChainID header.height)
  updateChain env sendingChainID timestamp height

end Interoperability

/-! ### Token factory -/

namespace TokenFactory

/-- Add to the supply of a token that is in the table, with the amount as a `Number`; `NULL` stays
`NULL`. -/
def addSupply (tokenId : TokenID) (amount : ℤ) : Prog Unit :=
  Table.modify .dbTrx (.tokenFactory tokenId) fun r =>
    { r with supply := r.supply.map (· + jsNumber amount) }

/-- `applyTransaction` of `tokenMint`. -/
def applyTokenMint (tx : IndexedTx) (tokenId : TokenID) (distribution : List ℕ) : Prog Unit :=
  ifSuccessful tx do
  addSupply tokenId distribution.sum

/-- `revertTransaction` of `tokenMint`. -/
def revertTokenMint (tx : IndexedTx) (tokenId : TokenID) (distribution : List ℕ) : Prog Unit :=
  ifSuccessful tx do
  addSupply tokenId (-distribution.sum)

/-- `applyTransaction` of `tokenBurn`. -/
def applyTokenBurn (tx : IndexedTx) (tokenId : TokenID) (amount : ℕ) : Prog Unit :=
  ifSuccessful tx do
  addSupply tokenId (-amount)

/-- `revertTransaction` of `tokenBurn`. -/
def revertTokenBurn (tx : IndexedTx) (tokenId : TokenID) (amount : ℕ) : Prog Unit :=
  ifSuccessful tx do
  addSupply tokenId amount

/-- The `token_metadata` row of a factory token. -/
def upsertMetadata (tokenId : TokenID) (tokenName : String) : Prog Unit :=
  Table.upsert .dbTrx (.tokenMetadata tokenId) fun _ =>
    ⟨"swaptoshi", tokenNetwork tokenId, tokenName⟩

/-- The rows that make a token name or symbol unavailable. -/
def takesName (metadata : FactoryMetadata) (c : Cell) : Row c → Bool :=
  match c with
  | .tokenFactory _ => fun r =>
    r.metadata.any fun m =>
      m.tokenName == metadata.tokenName || m.symbol == metadata.symbol.toUpper
  | .token _ => fun r => r.symbol == metadata.symbol.toUpper
  | _ => fun _ => false

/-- `isTokenAvailable(metadata)` (`dataService/tokenFactory`) on the rows it sees. -/
def isTokenAvailable (env : Env) (metadata : FactoryMetadata) (db : DB) : Bool :=
  !existsRow (takesName metadata) db && !env.registryHasName metadata.tokenName

/-- Upsert the rows of a new factory token, unless its attributes are incomplete or its name
or symbol is taken. -/
def createToken (env : Env) (tokenId : TokenID) (owner : Address) (amount : ℕ)
    (attributes : FactoryAttributes) : Prog Unit :=
  match attributes.metadata with
  | none => pure ()
  | some metadata => do
    let available ← Session.query .default (isTokenAvailable env metadata)
    if !available || attributes.svg.isNone then pure ()
    else
      Table.upsert .dbTrx (.tokenFactory tokenId) fun _ =>
        { owner
          supply := some amount
          metadata := some (env.registryToken tokenId metadata)
          logoPng := some (env.logoUrl metadata.symbol "png")
          logoSvg := some (env.logoUrl metadata.symbol "svg") }
      upsertMetadata tokenId metadata.tokenName

/-- `applyTransaction` of `tokenCreate`. -/
def applyTokenCreate (env : Env) (tx : IndexedTx) (events : List Event) : Prog Unit :=
  ifSuccessful tx do
  let (tokenId, owner, amount) ←
    ofOption .typeError (parseSingleEvent events EventData.factoryCreated? tx.id)
  createToken env tokenId owner amount (env.getFactory tokenId)

/-- `revertTransaction` of `tokenCreate`. The result of `find` is an array, which is never
falsy and has no `symbol`, so `metadata.symbol.toLowerCase()` throws. -/
def revertTokenCreate (tx : IndexedTx) (events : List Event) : Prog Unit := ifSuccessful tx do
  let (tokenId, _, _) ←
    ofOption .typeError (parseSingleEvent events EventData.factoryCreated? tx.id)
  let _ ← Table.find .default (.tokenFactory tokenId)
  Async.throw .typeError

/-- `applyTransaction` of `factorySetAttributes`. For the key `svg` the result of `find` is
again an array without a `symbol`. -/
def applyFactorySetAttributes (env : Env) (tx : IndexedTx) (events : List Event) : Prog Unit :=
  ifSuccessful tx do
  let (tokenId, key) ←
    ofOption .typeError (parseSingleEvent events EventData.factorySetAttributes? tx.id)
  let attributes := env.getFactory tokenId
  if key = "svg" then
    if attributes.svg.isNone then pure ()
    else
      let _ ← Table.find .default (.tokenFactory tokenId)
      Async.throw .typeError
  else if key = "metadata" then
    match attributes.metadata with
    | none => pure ()
    | some metadata =>
      Table.upsert .dbTrx (.tokenFactory tokenId) fun r => { r with metadata := some metadata }
      upsertMetadata tokenId metadata.tokenName
  else pure ()

end TokenFactory

end SwaptoshiService
