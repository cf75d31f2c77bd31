import SwaptoshiService.Indexer.Env

/-!
# Transaction processors of the DEX and NFT modules

The `applyTransaction` and `revertTransaction` hooks of `transactionProcessor/dex` and
`transactionProcessor/nft`. Each table call carries the connection it is sent on: the source
passes `dbTrx` to the position, TVL, token and pool-creation statements, and **leaves it out** of
the `tick` upserts and of the pool updates of `syncPoolData`, which therefore commit on their
own.

The debug lines between the statements read `token0.symbol` and `token1.symbol`; with a token
missing from `registered_dex_token` they throw a `TypeError`, and that is where these hooks
fail.
-/

namespace SwaptoshiService

namespace Dex

open Async (ofOption)

/-! ### `syncPoolData` -/

/-- Overwrite liquidity and tick of a pool row with the given address and orientation. -/
def syncRow (poolAddress : Address) (inverted : Bool) (state : PoolState) (r : PoolRow) :
    PoolRow :=
  if r.poolAddress = poolAddress ∧ r.inverted = inverted then
    { r with liquidity := state.liquidity, tick := state.tick }
  else r

/-- The update of `syncPoolData` for one orientation. -/
def syncStatement (poolAddress : Address) (inverted : Bool) (state : PoolState) : Stmt :=
  Table.updateWhere fun c =>
    match c with
    | .pool _ _ _ => syncRow poolAddress inverted state
    | _ => id

/-- `syncPoolData(poolAddress)` (`indexer/utils/dexSync.js`). -/
def syncPoolData (env : Env) (poolAddress : Address) : Prog Unit := do
  let state := env.getPool (env.decodePoolAddress poolAddress)
  Session.exec .default (syncStatement poolAddress false state)
  Session.exec .default (syncStatement poolAddress true state)

/-! ### Liquidity -/

/-- One TVL row of a transaction. -/
def tvlRow (header : BlockHeader) (sender poolAddress : Address) (amount : ℤ)
    (tokenId : TokenID) : TVLRow :=
  { time := header.timestamp, sender, poolAddress, amount, tokenId }

/-- Upsert a TVL row and log it with the token's symbol. -/
def addTVL (txID : TxID) (index : ℕ) (row : TVLRow) (token : Option TokenRow) :
    Prog Unit := do
  Table.upsert .dbTrx (.tvl txID index) fun _ => row
  let _ ← ofOption Failure.typeError token

/-- Delete a TVL row, matched by all its columns, and log it with the token's symbol. -/
def removeTVL (txID : TxID) (index : ℕ) (row : TVLRow) (token : Option TokenRow) :
    Prog Unit := do
  Table.delete .dbTrx (.tvl txID index) fun r => decide (r = row)
  let _ ← ofOption Failure.typeError token

/-- Write the net liquidity of a tick, on the default connection. -/
def upsertTick (poolAddress : Address) (tick liquidityNet : ℤ) : Prog Unit :=
  Table.upsert .default (.tick poolAddress tick) fun _ => ⟨jsNumber liquidityNet⟩

/-- Write both ticks as they are after the event. -/
def updateTicks (poolAddress : Address) (d : LiquidityData) : Prog Unit := do
  upsertTick poolAddress d.tickLower d.lowerLiquidityNet
  upsertTick poolAddress d.tickUpper d.upperLiquidityNet

/-- Write both ticks as they were before the event. -/
def revertTicks (poolAddress : Address) (d : LiquidityData) : Prog Unit := do
  upsertTick poolAddress d.tickLower d.lowerLiquidityNetBefore
  upsertTick poolAddress d.tickUpper d.upperLiquidityNetBefore

/-- `applyTransaction` of `mint`. -/
def applyMint (env : Env) (header : BlockHeader) (tx : IndexedTx) (tokenA tokenB : TokenID)
    (fee : ℕ) (events : List Event) : Prog Unit := ifSuccessful tx do
  let poolKey ← ofOption (.error "same token address") (getPoolKey tokenA tokenB fee)
  let senderAddress := env.addressFromPublicKey tx.senderPublicKey
  let poolAddress := env.poolAddress poolKey
  let increase ← ofOption .typeError (parseSingleEvent events EventData.increaseLiquidity? tx.id)
  let metadata := env.getMetadata poolAddress increase.tokenId
  let mint ← ofOption .typeError (parseSingleEvent events EventData.dexMint? tx.id)
  let tokenURI ← ofOption .typeError (parseSingleEvent events EventData.tokenURICreated? tx.id)
  Table.upsert .dbTrx (.position increase.tokenId) fun _ =>
    { collectionId := env.collectionId increase.tokenId
      owner := some increase.ownerAddress
      name := metadata.name
      description := metadata.description
      image := metadata.image
      tickUpper := mint.tickUpper
      tickLower := mint.tickLower
      liquidity := jsNumber increase.liquidity
      tokenURI }
  let token0 ← Table.find .dbTrx (.token poolKey.token0)
  let token1 ← Table.find .dbTrx (.token poolKey.token1)
  addTVL tx.id 0
    (tvlRow header senderAddress poolAddress (jsNumber increase.amount0) poolKey.token0) token0
  addTVL tx.id 1
    (tvlRow header senderAddress poolAddress (jsNumber increase.amount1) poolKey.token1) token1
  updateTicks poolAddress mint
  syncPoolData env poolAddress

/-- `revertTransaction` of `mint`. -/
def revertMint (env : Env) (header : BlockHeader) (tx : IndexedTx) (tokenA tokenB : TokenID)
    (fee : ℕ) (events : List Event) : Prog Unit := ifSuccessful tx do
  let increase ← ofOption .typeError (parseSingleEvent events EventData.increaseLiquidity? tx.id)
  Table.deleteByPrimaryKey .dbTrx (.position increase.tokenId)
  let poolKey ← ofOption (.error "same token address") (getPoolKey tokenA tokenB fee)
  let senderAddress := env.addressFromPublicKey tx.senderPublicKey
  let poolAddress := env.poolAddress poolKey
  let token0 ← Table.find .dbTrx (.token poolKey.token0)
  let token1 ← Table.find .dbTrx (.token poolKey.token1)
  removeTVL tx.id 0
    (tvlRow header senderAddress poolAddress (jsNumber increase.amount0) poolKey.token0) token0
  removeTVL tx.id 1
    (tvlRow header senderAddress poolAddress (jsNumber increase.amount1) poolKey.token1) token1
  let mint ← ofOption .typeError (parseSingleEvent events EventData.dexMint? tx.id)
  revertTicks poolAddress mint
  syncPoolData env poolAddress

/-- What tells `increaseLiquidity` from `decreaseLiquidity`: the two events, and the sign with
which amounts and liquidity are booked. -/
structure LiquidityChange where
  ticks? : EventData → Option LiquidityData
  position? : EventData → Option PositionData
  sign : ℤ

/-- The change made by `increaseLiquidity`. -/
def increaseLiquidity : LiquidityChange :=
  ⟨EventData.dexMint?, EventData.increaseLiquidity?, 1⟩

/-- The change made by `decreaseLiquidity`. -/
def decreaseLiquidity : LiquidityChange :=
  ⟨EventData.dexBurn?, EventData.decreaseLiquidity?, -1⟩

/-- Add to the liquidity of a position that is in the table. -/
def addLiquidity (tokenId : String) (amount : ℤ) : Prog Unit :=
  Table.modify .dbTrx (.position tokenId) fun r => { r with liquidity := r.liquidity + amount }

/-- `applyTransaction` of `increaseLiquidity` and `decreaseLiquidity`. -/
def applyLiquidity (k : LiquidityChange) (env : Env) (header : BlockHeader) (tx : IndexedTx)
    (poolAddress : Address) (events : List Event) : Prog Unit := ifSuccessful tx do
  let poolKey := env.decodePoolAddress poolAddress
  let senderAddress := env.addressFromPublicKey tx.senderPublicKey
  let token0 ← Table.find .dbTrx (.token poolKey.token0)
  let token1 ← Table.find .dbTrx (.token poolKey.token1)
  let change ← ofOption .typeError (parseSingleEvent events k.position? tx.id)
  addTVL tx.id 0 (tvlRow header senderAddress poolAddress (jsNumber (k.sign * change.amount0))
    poolKey.token0) token0
  addTVL tx.id 1 (tvlRow header senderAddress poolAddress (jsNumber (k.sign * change.amount1))
    poolKey.token1) token1
  let ticks ← ofOption .typeError (parseSingleEvent events k.ticks? tx.id)
  updateTicks poolAddress ticks
  addLiquidity change.tokenId (k.sign * jsNumber change.liquidity)
  syncPoolData env poolAddress

/-- `revertTransaction` of `increaseLiquidity` and `decreaseLiquidity`. -/
def revertLiquidity (k : LiquidityChange) (env : Env) (header : BlockHeader) (tx : IndexedTx)
    (poolAddress : Address) (events : List Event) : Prog Unit := ifSuccessful tx do
  let poolKey := env.decodePoolAddress poolAddress
  let senderAddress := env.addressFromPublicKey tx.senderPublicKey
  let token0 ← Table.find .dbTrx (.token poolKey.token0)
  let token1 ← Table.find .dbTrx (.token poolKey.token1)
  let change ← ofOption .typeError (parseSingleEvent events k.position? tx.id)
  removeTVL tx.id 0 (tvlRow header senderAddress poolAddress
    (jsNumber (k.sign * change.amount0)) poolKey.token0) token0
  removeTVL tx.id 1 (tvlRow header senderAddress poolAddress
    (jsNumber (k.sign * change.amount1)) poolKey.token1) token1
  let ticks ← ofOption .typeError (parseSingleEvent events k.ticks? tx.id)
  revertTicks poolAddress ticks
  addLiquidity change.tokenId (-(k.sign * jsNumber change.liquidity))
  syncPoolData env poolAddress

/-! ### Pools and positions -/

/-- The fee as three big-endian bytes in hexadecimal; `none` is the `RangeError` of
`writeUIntBE`. -/
def feeHex (fee : ℕ) : Option String :=
  if fee < 2 ^ 24 then
    let digits := Nat.toDigits 16 fee
    some (String.ofList (List.replicate (6 - digits.length) '0' ++ digits))
  else none

/-- One of the two rows of a pool. -/
def poolRow (env : Env) (header : BlockHeader) (created : PoolCreatedData) (feeHex : String)
    (tick : ℤ) (decimals0 decimals1 : ℕ) (inverted : Bool) : PoolRow :=
  { inverted
    created := header.timestamp
    poolAddress := created.poolAddress
    collectionId := env.computePoolId created.poolAddress
    feeHex
    tickSpacing := created.tickSpacing
    tick
    liquidity := 0
    price := env.getPriceAtTick tick decimals0 decimals1 inverted }

/-- The decimals of a token: from its row on the default connection, else from the event that
registers it. The event object has no field `decimal` of its own, so `getPriceAtTick` then falls
back to its default argument. -/
def tokenDecimals (row : Option TokenRow) (registered : List TokenRegisteredData)
    (tokenId : TokenID) : Option ℕ :=
  match row with
  | some r => some r.decimal
  | none => if registered.any (·.tokenId == tokenId) then some 8 else none

/-- Register one token of a `createPool` transaction. -/
def registerToken (env : Env) (d : TokenRegisteredData) : Prog Unit :=
  Table.upsert .dbTrx (.token d.tokenId) fun _ =>
    { symbol := d.symbol, decimal := d.decimal, logo := env.tokenLogo d.tokenId }

/-- `applyTransaction` of `createPool`. -/
def applyCreatePool (env : Env) (header : BlockHeader) (tx : IndexedTx) (events : List Event) :
    Prog Unit := ifSuccessful tx do
  let registered := parseEvents events EventData.tokenRegistered? tx.id
  Async.interleave (env.sched (.registeredTokens tx.id)) (registered.map (registerToken env))
  let created ← ofOption .typeError (parseSingleEvent events EventData.poolCreated? tx.id)
  let feeHex ← ofOption (.error "The value is out of range") (feeHex created.fee)
  let token0 ← Table.find .default (.token created.token0)
  let token1 ← Table.find .default (.token created.token1)
  let tick ← ofOption .typeError (parseSingleEvent events EventData.poolInitialized? tx.id)
  let decimals0 ← ofOption .typeError (tokenDecimals token0 registered created.token0)
  let decimals1 ← ofOption .typeError (tokenDecimals token1 registered created.token1)
  Table.upsert .dbTrx (.pool created.token0 created.token1 created.fee) fun _ =>
    poolRow env header created feeHex tick decimals0 decimals1 false
  Table.upsert .dbTrx (.pool created.token1 created.token0 created.fee) fun _ =>
    poolRow env header created feeHex tick decimals0 decimals1 true

/-- A value of the primary key of `pool`. -/
inductive PoolKeyValue
  | token (tokenId : TokenID)
  | fee (fee : ℕ)

/-- The row with this primary key. -/
def poolCell? : List PoolKeyValue → Option Cell
  | [.token token0, .token token1, .fee fee] => some (.pool token0 token1 fee)
  | _ => none

/-- `poolTable.deleteByPrimaryKey([token0, token1, fee], dbTrx)`. The list is flat, so each of the
three values stands for a primary key. -/
def deletePool (token0 token1 : TokenID) (fee : ℕ) : Prog Unit :=
  Table.deleteByPrimaryKeys .dbTrx ["token0", "token1", "fee"] poolCell? .error
    ([.token token0, .token token1, .fee fee].map fun value => [value])

theorem deletePool_eq (token0 token1 : TokenID) (fee : ℕ) :
    deletePool token0 token1 fee = Async.throw (.error "Operand should contain 3 column(s)") :=
  Table.deleteByPrimaryKeys_flat (by simp) (by decide)

/-- `revertTransaction` of `createPool`. -/
def revertCreatePool (tx : IndexedTx) (events : List Event) : Prog Unit := ifSuccessful tx do
  let registered := parseEvents events EventData.tokenRegistered? tx.id
  Async.serial (registered.map fun d => Table.deleteByPrimaryKey .dbTrx (.token d.tokenId))
  let created ← ofOption .typeError (parseSingleEvent events EventData.poolCreated? tx.id)
  deletePool created.token0 created.token1 created.fee
  deletePool created.token1 created.token0 created.fee

/-- Set the owner of a position. -/
def setOwner (tokenId : String) (owner : Option Address) : Prog Unit :=
  Table.upsert .dbTrx (.position tokenId) fun r => { r with owner := Table.castString owner }

/-- `applyTransaction` of `burn`. -/
def applyBurn (tx : IndexedTx) (events : List Event) : Prog Unit := ifSuccessful tx do
  let tokenId ← ofOption .typeError (parseSingleEvent events EventData.tokenURIDestroyed? tx.id)
  setOwner tokenId none

/-- `revertTransaction` of `burn`. -/
def revertBurn (env : Env) (tx : IndexedTx) (events : List Event) : Prog Unit :=
  ifSuccessful tx do
  let tokenId ← ofOption .typeError (parseSingleEvent events EventData.tokenURIDestroyed? tx.id)
  setOwner tokenId (some (env.addressFromPublicKey tx.senderPublicKey))

/-- `applyTransaction` of the NFT `transfer`. -/
def applyNFTTransfer (tx : IndexedTx) (events : List Event) : Prog Unit := ifSuccessful tx do
  let (nftID, _, recipient) ←
    ofOption .typeError (parseSingleEvent events EventData.nftTransfer? tx.id)
  setOwner nftID (some recipient)

/-- `revertTransaction` of the NFT `transfer`. -/
def revertNFTTransfer (tx : IndexedTx) (events : List Event) : Prog Unit := ifSuccessful tx do
  let (nftID, sender, _) ←
    ofOption .typeError (parseSingleEvent events EventData.nftTransfer? tx.id)
  setOwner nftID (some sender)

end Dex

end SwaptoshiService
