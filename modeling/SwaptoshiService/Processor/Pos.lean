import Mathlib.Algebra.Ring.Int.Defs
import SwaptoshiService.Indexer.Env

/-!
# Transaction processors of the PoS, auth and legacy modules

The hooks of `transactionProcessor/pos`, `transactionProcessor/auth` and
`transactionProcessor/legacy`. Every statement is sent on `dbTrx`; the totals in the key-value
table are an exception on the read side: `keyValueTable.get` is called without the transaction
and sees committed rows only. `increment` and `decrement` of a table pass the amount on as a
JavaScript `Number`.
-/

namespace SwaptoshiService

namespace Pos

open Async (ofOption mapOrder)

/-! ### Stakes -/

/-- One entry of the `stakes` table. -/
structure StakeEntry where
  stakerAddress : Address
  validatorAddress : Address
  amount : ℤ
  deriving DecidableEq

/-- `getStakeIndexingInfo(tx)`. -/
def getStakeIndexingInfo (env : Env) (tx : IndexedTx) (stakes : List StakeParam) :
    List StakeEntry :=
  stakes.map fun s => ⟨env.addressFromPublicKey tx.senderPublicKey, s.validatorAddress, s.amount⟩

/-- Add an amount to a stake row. -/
def addStake (validatorAddress stakerAddress : Address) (amount : ℤ) :
    Row (.stake validatorAddress stakerAddress) → Row (.stake validatorAddress stakerAddress) :=
  fun r => ⟨r.amount + amount⟩

/-- `incrementStakeTrx(stake, trx)`. -/
def incrementStakeTrx (e : StakeEntry) : Prog Unit := do
  let numRowsAffected ← Table.increment .dbTrx (.stake e.validatorAddress e.stakerAddress)
    (addStake e.validatorAddress e.stakerAddress (jsNumber e.amount))
  if numRowsAffected = 0 then
    Table.upsert .dbTrx (.stake e.validatorAddress e.stakerAddress) fun _ => ⟨e.amount⟩
  else pure ()

/-- `decrementStakeTrx(stake, trx)`. -/
def decrementStakeTrx (e : StakeEntry) : Prog Unit :=
  Table.modify .dbTrx (.stake e.validatorAddress e.stakerAddress)
    (addStake e.validatorAddress e.stakerAddress (-jsNumber e.amount))

/-- The stake that a list of entries adds. -/
def totalStakeChange (es : List StakeEntry) : ℤ := (es.map (·.amount)).sum

/-- The self-stake that a list of entries adds. -/
def totalSelfStakeChange (es : List StakeEntry) : ℤ :=
  ((es.filter fun e => e.stakerAddress = e.validatorAddress).map (·.amount)).sum

/-- `updateTotalStake(changeAmount, dbTrx)`. -/
def updateTotalStake (env : Env) (changeAmount : ℤ) : Prog Unit :=
  updateTotal (.totalStaked env.posTokenID) changeAmount

/-- `updateTotalSelfStake(changeAmount, dbTrx)`. -/
def updateTotalSelfStake (env : Env) (changeAmount : ℤ) : Prog Unit :=
  updateTotal (.totalSelfStaked env.posTokenID) changeAmount

/-- `applyTransaction` of `stake`. -/
def applyStake (env : Env) (tx : IndexedTx) (stakes : List StakeParam) : Prog Unit :=
  ifSuccessful tx do
  let entries := getStakeIndexingInfo env tx stakes
  Async.serial ((mapOrder entries).map incrementStakeTrx)
  updateTotalStake env (totalStakeChange entries)
  updateTotalSelfStake env (totalSelfStakeChange entries)

/-- `revertTransaction` of `stake`. -/
def revertStake (env : Env) (tx : IndexedTx) (stakes : List StakeParam) : Prog Unit :=
  ifSuccessful tx do
  let entries := getStakeIndexingInfo env tx stakes
  Async.serial ((mapOrder entries).map decrementStakeTrx)
  updateTotalStake env (-totalStakeChange entries)
  updateTotalSelfStake env (-totalSelfStakeChange entries)

/-! ### Validators -/

/-- The keys that registration writes to the `validators` table. -/
structure ValidatorKeys where
  blsKey : Option String
  proofOfPossession : Option String
  generatorKey : Option String

/-- Write the keys of a validator. -/
def setKeys (keys : ValidatorKeys) (r : ValidatorRow) : ValidatorRow :=
  { r with
    blsKey := keys.blsKey
    proofOfPossession := keys.proofOfPossession
    generatorKey := keys.generatorKey }

/-- `applyTransaction` of `registerValidator`. -/
def applyRegisterValidator (env : Env) (header : BlockHeader) (tx : IndexedTx)
    (name blsKey proofOfPossession generatorKey : String) : Prog Unit := ifSuccessful tx do
  let address ← ofOption (.error "Column 'address' cannot be null") tx.senderAddress
  Table.upsert .dbTrx (.account address) fun r =>
    { r with publicKey := some tx.senderPublicKey, name := some name, isValidator := true }
  Table.upsert .dbTrx (.validator address) fun r =>
    { setKeys ⟨some blsKey, some proofOfPossession, some generatorKey⟩ r with name }
  Table.upsert .dbTrx (.transaction tx.id) fun r =>
    { setTransaction header tx address r with
      minFee := env.minFee tx.toTransaction env.validatorRegistrationFee }
  Table.upsert .dbTrx (.commission address header.height) fun _ => ⟨env.defaultCommission⟩

/-- `revertTransaction` of `registerValidator`. -/
def revertRegisterValidator (env : Env) (header : BlockHeader) (tx : IndexedTx) : Prog Unit :=
  ifSuccessful tx do
  let address ← ofOption (.error "Column 'address' cannot be null") tx.senderAddress
  Table.upsert .dbTrx (.account address) fun r =>
    { r with
      publicKey := some tx.senderPublicKey
      name := Table.castString none
      isValidator := false }
  Table.deleteByPrimaryKey .dbTrx (.validator address)
  Table.delete .dbTrx (.commission address header.height) fun r =>
    decide (r.commission = env.defaultCommission)

/-- `applyTransaction` of `changeCommission`. -/
def applyChangeCommission (env : Env) (header : BlockHeader) (tx : IndexedTx)
    (newCommission : ℕ) : Prog Unit := ifSuccessful tx do
  Table.upsert .dbTrx (.commission (env.addressFromPublicKey tx.senderPublicKey) header.height)
    fun _ => ⟨newCommission⟩

/-- `revertTransaction` of `changeCommission`. -/
def revertChangeCommission (env : Env) (header : BlockHeader) (tx : IndexedTx)
    (newCommission : ℕ) : Prog Unit := ifSuccessful tx do
  Table.delete .dbTrx (.commission (env.addressFromPublicKey tx.senderPublicKey) header.height)
    fun r => decide (r.commission = newCommission)

/-- `applyTransaction` of `updateGeneratorKey`. -/
def applyUpdateGeneratorKey (env : Env) (tx : IndexedTx) (generatorKey : String) : Prog Unit :=
  ifSuccessful tx do
  let address := env.addressFromPublicKey tx.senderPublicKey
  Table.upsert .dbTrx (.account address) fun r =>
    { r with publicKey := some tx.senderPublicKey, isValidator := true }
  Table.upsert .dbTrx (.validator address) fun r => { r with generatorKey := some generatorKey }

/-- `revertTransaction` of `updateGeneratorKey`. -/
def revertUpdateGeneratorKey (env : Env) (tx : IndexedTx) : Prog Unit := ifSuccessful tx do
  Table.upsert .dbTrx (.validator (env.addressFromPublicKey tx.senderPublicKey)) fun r =>
    { r with generatorKey := Table.castString none }

/-- `applyTransaction` of the legacy `registerKeys`. -/
def applyRegisterKeys (env : Env) (tx : IndexedTx)
    (blsKey proofOfPossession generatorKey : String) : Prog Unit := ifSuccessful tx do
  let address := env.addressFromPublicKey tx.senderPublicKey
  Table.upsert .dbTrx (.account address) fun r =>
    { r with publicKey := some tx.senderPublicKey, isValidator := true }
  Table.upsert .dbTrx (.validator address)
    (setKeys ⟨some blsKey, some proofOfPossession, some generatorKey⟩)

/-- `revertTransaction` of the legacy `registerKeys`. -/
def revertRegisterKeys (env : Env) (tx : IndexedTx) : Prog Unit := ifSuccessful tx do
  let address := env.addressFromPublicKey tx.senderPublicKey
  Table.upsert .dbTrx (.account address) fun r =>
    { r with publicKey := some tx.senderPublicKey, isValidator := true }
  Table.deleteByPrimaryKey .dbTrx (.validator address)

/-! ### Multisignature accounts -/

/-- `resolveMultisignatureMemberships(tx)`: the identifier and the row of every membership;
`none` is the `TypeError` of `tx.senderAddress.concat` for the first key. -/
def resolveMultisignatureMemberships (env : Env) (tx : IndexedTx)
    (mandatoryKeys optionalKeys : List String) : Option (List (String × MultisignatureRow)) :=
  (mandatoryKeys ++ optionalKeys).mapM fun key => tx.senderAddress.map fun groupAddress =>
    let memberAddress := env.addressFromPublicKey key
    (groupAddress ++ "_" ++ memberAddress, ⟨groupAddress, memberAddress⟩)

/-- `applyTransaction` of `registerMultisignature`. -/
def applyRegisterMultisignature (env : Env) (tx : IndexedTx)
    (mandatoryKeys optionalKeys : List String) : Prog Unit := ifSuccessful tx do
  let memberships ← ofOption .typeError
    (resolveMultisignatureMemberships env tx mandatoryKeys optionalKeys)
  Async.serial (memberships.map fun m =>
    Table.upsert .dbTrx (.multisignature m.1) fun _ => m.2)

/-- `revertTransaction` of `registerMultisignature`. -/
def revertRegisterMultisignature (env : Env) (tx : IndexedTx)
    (mandatoryKeys optionalKeys : List String) : Prog Unit := ifSuccessful tx do
  let memberships ← ofOption .typeError
    (resolveMultisignatureMemberships env tx mandatoryKeys optionalKeys)
  Async.serial (memberships.map fun m => Table.deleteByPrimaryKey .dbTrx (.multisignature m.1))

end Pos

end SwaptoshiService
