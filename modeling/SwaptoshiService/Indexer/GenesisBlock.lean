import Mathlib.Algebra.Ring.Int.Defs
import SwaptoshiService.Indexer.EventIndex
import SwaptoshiService.Processor.Other
import SwaptoshiService.Processor.Pos
import SwaptoshiService.Processor.Dex

/-!
# Genesis assets

`indexGenesisBlockAssets` (`indexer/genesisBlock.js`) fills the tables from the assets of the
genesis block: locked balances, validators and stakes, token factories, DEX tokens, ticks, pools,
and NFT positions. `GenesisAssets` holds the sub-stores that the connector returns, with the
attributes already decoded.

Every statement runs on `dbTrx`, except that the accounts of the validators with a valid
generator key are upserted without it.
-/

namespace SwaptoshiService

open Async (ofOption)

/-- An entry of the users sub-store of the token module. -/
structure GenesisUser where
  tokenID : TokenID
  lockedBalances : List ℕ

/-- An entry of the validators sub-store of the PoS module. -/
structure GenesisValidator where
  address : Address
  generatorKey : String
  commission : ℕ

/-- An entry of the stakers sub-store of the PoS module. -/
structure GenesisStaker where
  address : Address
  stakes : List StakeParam

/-- An entry of the factory sub-store, with the total supply found for its token. -/
structure GenesisFactory where
  tokenId : TokenID
  owner : Address
  attributes : FactoryAttributes
  totalSupply : Option ℕ

/-- An entry of the tick sub-store of the DEX module. -/
structure GenesisTick where
  poolAddress : Address
  tick : ℤ
  liquidityNet : ℤ

/-- An entry of the pool sub-store of the DEX module. -/
structure GenesisPool where
  token0 : TokenID
  token1 : TokenID
  fee : ℕ
  tickSpacing : ℕ
  tick : ℤ
  liquidity : ℕ

/-- The DEX attribute of an NFT, with the amounts of the position it stands for. -/
structure GenesisPosition where
  token0 : TokenID
  token1 : TokenID
  fee : ℕ
  tickLower : ℤ
  tickUpper : ℤ
  liquidity : ℕ
  amount0 : ℕ
  amount1 : ℕ
  tokenURI : String

/-- An entry of the NFT sub-store. -/
structure GenesisNFT where
  nftID : String
  owner : Address
  position : Option GenesisPosition

/-- The assets of the genesis block. -/
structure GenesisAssets where
  users : List GenesisUser
  validators : List GenesisValidator
  stakers : List GenesisStaker
  factories : List GenesisFactory
  tokens : List TokenRegisteredData
  ticks : List GenesisTick
  pools : List GenesisPool
  nfts : List GenesisNFT

namespace Genesis

/-- `INVALID_ED25519_KEY`. -/
def invalidEd25519Key : String :=
  "ffffffffffffffffffffffffffffffffffffffffffffffffffffffffffffffff"

/-- `isGeneratorKeyValid(generatorKey)`. -/
def isGeneratorKeyValid (generatorKey : String) : Bool := generatorKey != invalidEd25519Key

/-- `tokenIDLockedAmountChangeMap` of the genesis users. -/
def lockedAmounts (users : List GenesisUser) : List (TokenID × ℤ) :=
  let tokens := ((users.filter fun u => !u.lockedBalances.isEmpty).map (·.tokenID)).eraseDups
  tokens.map fun t =>
    (t, ((users.filter fun u => u.tokenID = t).map fun u => (u.lockedBalances.sum : ℤ)).sum)

/-- `indexTokenModuleAssets(dbTrx)`. -/
def indexTokenModuleAssets (env : Env) (users : List GenesisUser) : Prog Unit :=
  updateTotalLockedAmounts (env.sched (.genesis "token")) (lockedAmounts users)

/-- Index the account of a validator, without the transaction. -/
def indexValidatorAccount (env : Env) (v : GenesisValidator) : Prog Unit :=
  if isGeneratorKeyValid v.generatorKey then
    Table.upsert .default (.account (env.addressFromPublicKey v.generatorKey)) fun r =>
      { r with publicKey := some v.generatorKey }
  else pure ()

/-- `indexPosValidatorsInfo(numValidators, dbTrx)`. -/
def indexPosValidatorsInfo (env : Env) (validators : List GenesisValidator) : Prog Unit := do
  Async.interleave (env.sched (.genesis "validators"))
    (validators.map (indexValidatorAccount env))
  Async.serial (validators.map fun v =>
    Table.upsert .dbTrx (.commission v.address env.genesisHeight) fun _ => ⟨v.commission⟩)

/-- The stakes of the genesis block. -/
def allStakes (stakers : List GenesisStaker) : List Pos.StakeEntry :=
  stakers.flatMap fun s => s.stakes.map fun p => ⟨s.address, p.validatorAddress, p.amount⟩

/-- `indexPosStakesInfo(numStakers, dbTrx)`. -/
def indexPosStakesInfo (env : Env) (stakers : List GenesisStaker) : Prog Unit := do
  let stakes := allStakes stakers
  Async.serial (stakes.map fun e =>
    Table.upsert .dbTrx (.stake e.validatorAddress e.stakerAddress) fun _ => ⟨e.amount⟩)
  Pos.updateTotalStake env (Pos.totalStakeChange stakes)
  Pos.updateTotalSelfStake env (Pos.totalSelfStakeChange stakes)

/-- The rows of one factory, unless its attributes are incomplete or its name is taken. -/
def indexFactory (env : Env) (f : GenesisFactory) : Prog Unit :=
  match f.attributes.metadata with
  | none => pure ()
  | some metadata => do
    let available ← Session.query .default (TokenFactory.isTokenAvailable env metadata)
    if !available then pure ()
    else
      let totalSupply ← ofOption (.error ("error indexing factory from genesis assets with " ++
        "tokenId " ++ f.tokenId ++ ": supply info not found")) f.totalSupply
      if f.attributes.svg.isNone then pure ()
      else
        Table.upsert .dbTrx (.tokenFactory f.tokenId) fun _ =>
          { owner := f.owner
            supply := some (jsNumber totalSupply)
            metadata := some { metadata with symbol := metadata.symbol.toUpper }
            logoPng := some (env.logoUrl metadata.symbol "png")
            logoSvg := some (env.logoUrl metadata.symbol "svg") }
        TokenFactory.upsertMetadata f.tokenId metadata.tokenName

/-- `indexDexRegisteredTokenInfo(numTokens, dbTrx)`. -/
def indexDexToken (env : Env) (t : TokenRegisteredData) : Prog Unit :=
  Table.upsert .dbTrx (.token t.tokenId) fun _ =>
    { symbol := t.symbol
      decimal := t.decimal
      logo := some ((env.tokenLogo t.tokenId).getD (env.logoUrl t.symbol "svg")) }

/-- `indexDexTickInfo(numTick, dbTrx)`. -/
def indexDexTick (t : GenesisTick) : Prog Unit :=
  Table.upsert .dbTrx (.tick t.poolAddress t.tick) fun _ => ⟨jsNumber t.liquidityNet⟩

/-- One of the two rows of a genesis pool. -/
def genesisPoolRow (env : Env) (header : BlockHeader) (p : GenesisPool) (feeHex : String)
    (decimals0 decimals1 : ℕ) (inverted : Bool) : PoolRow :=
  let poolAddress := env.poolAddress ⟨p.token0, p.token1, p.fee⟩
  { inverted
    created := header.timestamp
    poolAddress
    collectionId := env.computePoolId poolAddress
    feeHex
    tickSpacing := p.tickSpacing
    tick := p.tick
    liquidity := p.liquidity
    price := env.getPriceAtTick p.tick decimals0 decimals1 inverted }

/-- The error for a pool whose token is not among the genesis tokens. -/
def tokenNotFound (tokenId : TokenID) : Failure :=
  .error ("error when indexing dex pools: data for token " ++ tokenId ++
    " is not found on tokenSymbolSubstore")

/-- `indexDexPoolInfo(numPools, numTokens, blockHeader, dbTrx)`. -/
def indexDexPool (env : Env) (header : BlockHeader) (tokens : List TokenRegisteredData)
    (p : GenesisPool) : Prog Unit := do
  let feeHex ← ofOption (.error "The value is out of range") (Dex.feeHex p.fee)
  let token0 ← ofOption (tokenNotFound p.token0) (tokens.find? (·.tokenId == p.token0))
  let token1 ← ofOption (tokenNotFound p.token1) (tokens.find? (·.tokenId == p.token1))
  Table.upsert .dbTrx (.pool p.token0 p.token1 p.fee) fun _ =>
    genesisPoolRow env header p feeHex token0.decimal token1.decimal false
  Table.upsert .dbTrx (.pool p.token1 p.token0 p.fee) fun _ =>
    genesisPoolRow env header p feeHex token0.decimal token1.decimal true

/-- `indexNFTPositionInfo(numTokens, numPools, blockHeader, dbTrx)`. -/
def indexNFTPosition (env : Env) (header : BlockHeader) (pools : List GenesisPool)
    (n : GenesisNFT) : Prog Unit :=
  match n.position with
  | none => pure ()
  | some p => do
    let poolAddress := env.poolAddress ⟨p.token0, p.token1, p.fee⟩
    let metadata := env.getMetadata poolAddress n.nftID
    Table.upsert .dbTrx (.position n.nftID) fun _ =>
      { collectionId := env.collectionId n.nftID
        owner := some n.owner
        name := metadata.name
        description := metadata.description
        image := metadata.image
        tickUpper := p.tickUpper
        tickLower := p.tickLower
        liquidity := jsNumber p.liquidity
        tokenURI := p.tokenURI }
    let _ ← ofOption (.error ("error indexing genesis NFT with id " ++ n.nftID ++
        ": poolAddress not found"))
      (pools.find? fun q => q.token0 == p.token0 && q.token1 == p.token1 && q.fee == p.fee)
    Table.upsert .dbTrx (.tvl ("genesisNFT_" ++ n.nftID) 0) fun _ =>
      ⟨header.timestamp, n.owner, poolAddress, jsNumber p.amount0, p.token0⟩
    Table.upsert .dbTrx (.tvl ("genesisNFT_" ++ n.nftID) 1) fun _ =>
      ⟨header.timestamp, n.owner, poolAddress, jsNumber p.amount1, p.token1⟩

/-- `indexGenesisBlockAssets(blockHeader, dbTrx)`. -/
def indexGenesisBlockAssets (env : Env) (header : BlockHeader) (assets : GenesisAssets) :
    Prog Unit := do
  indexTokenModuleAssets env assets.users
  indexPosValidatorsInfo env assets.validators
  indexPosStakesInfo env assets.stakers
  Async.interleave (env.sched (.genesis "factories")) (assets.factories.map (indexFactory env))
  Async.interleave (env.sched (.genesis "tokens")) (assets.tokens.map (indexDexToken env))
  Async.interleave (env.sched (.genesis "ticks")) (assets.ticks.map indexDexTick)
  Async.interleave (env.sched (.genesis "pools"))
    (assets.pools.map (indexDexPool env header assets.tokens))
  Async.interleave (env.sched (.genesis "nfts"))
    (assets.nfts.map (indexNFTPosition env header assets.pools))

/-! ### What genesis indexing may change -/

section Footprints

open Session

/-- The accounts of the validators are written on the default connection. -/
def genesisWrites (validators : List GenesisValidator) : Conn → Cell → Prop
  | .default, c => c.table = .accounts ∧ validators.any (isGeneratorKeyValid ·.generatorKey)
  | .dbTrx, c => c.table ≠ .blocks

/-- The tables besides `stakes` and `key_value_store` that are filled on the transaction. -/
def genesisTables : List TableName :=
  [.commissions, .tokenFactory, .tokenMetadata, .registeredDexToken, .tick, .pool, .position, .tvl]

variable {env : Env} {W : Conn → Cell → Prop}

theorem indexFactory_confined (hfactory : ∀ t, W .dbTrx (.tokenFactory t))
    (hmetadata : ∀ t, W .dbTrx (.tokenMetadata t)) (f : GenesisFactory) :
    Confined (Respects W) (indexFactory env f) := by
  rw [indexFactory]
  split
  · exact confined_pure ()
  · refine (confined_query _ _).bind fun available => ?_
    split
    · exact confined_pure ()
    · refine (confined_ofOption _ _).bind fun supply => ?_
      split
      · exact confined_pure ()
      · exact (Table.confined_upsert (hfactory _)).bind fun _ => Table.confined_upsert (hmetadata _)

theorem indexNFTPosition_confined (hposition : ∀ t, W .dbTrx (.position t))
    (htvl : ∀ txID i, W .dbTrx (.tvl txID i)) (header : BlockHeader) (pools : List GenesisPool)
    (n : GenesisNFT) : Confined (Respects W) (indexNFTPosition env header pools n) := by
  rw [indexNFTPosition]
  split
  · exact confined_pure ()
  · exact (Table.confined_upsert (hposition _)).bind fun _ => (confined_ofOption _ _).bind fun _ =>
      (Table.confined_upsert (htvl _ _)).bind fun _ => Table.confined_upsert (htvl _ _)

theorem indexPosValidatorsInfo_confined {validators : List GenesisValidator}
    (haccount : validators.any (isGeneratorKeyValid ·.generatorKey) → ∀ a, W .default (.account a))
    (hcommission : ∀ a height, W .dbTrx (.commission a height)) :
    Confined (Respects W) (indexPosValidatorsInfo env validators) := by
  refine Confined.bind (Confined.interleave fun p hp => ?_) fun _ =>
    Confined.serial fun p hp => ?_
  · obtain ⟨v, hv, rfl⟩ := List.mem_map.mp hp
    rw [indexValidatorAccount]
    split
    · rename_i hkey
      exact Table.confined_upsert (haccount (List.any_eq_true.mpr ⟨v, hv, hkey⟩) _)
    · exact confined_pure ()
  · obtain ⟨v, -, rfl⟩ := List.mem_map.mp hp
    exact Table.confined_upsert (hcommission _ _)

theorem indexPosStakesInfo_confined (stakers : List GenesisStaker)
    (hstake : ∀ v s, W .dbTrx (.stake v s)) (hkv : ∀ k, W .dbTrx (.kv k)) :
    Confined (Respects W) (indexPosStakesInfo env stakers) := by
  refine Confined.bind (Confined.serial fun p hp => ?_) fun _ =>
    (updateTotal_confined (hkv _)).bind fun _ => updateTotal_confined (hkv _)
  obtain ⟨e, -, rfl⟩ := List.mem_map.mp hp
  exact Table.confined_upsert (hstake _ _)

theorem confined_map {α : Type} {sched : List ℕ} {f : α → Prog Unit} {l : List α}
    {P : Conn → Stmt → Prop} (h : ∀ a, Confined P (f a)) :
    Confined P (Async.interleave sched (l.map f)) := by
  refine Confined.interleave fun p hp => ?_
  obtain ⟨a, -, rfl⟩ := List.mem_map.mp hp
  exact h a

/-- What follows the stakes. -/
theorem indexTokensAndPools_confined (header : BlockHeader) (assets : GenesisAssets)
    (hW : ∀ c : Cell, c.table ∈ genesisTables → W .dbTrx c) :
    Confined (Respects W) (do
      Async.interleave (env.sched (.genesis "factories"))
        (assets.factories.map (indexFactory env))
      Async.interleave (env.sched (.genesis "tokens")) (assets.tokens.map (indexDexToken env))
      Async.interleave (env.sched (.genesis "ticks")) (assets.ticks.map indexDexTick)
      Async.interleave (env.sched (.genesis "pools"))
        (assets.pools.map (indexDexPool env header assets.tokens))
      Async.interleave (env.sched (.genesis "nfts"))
        (assets.nfts.map (indexNFTPosition env header assets.pools)) : Prog Unit) := by
  refine Confined.bind (confined_map (indexFactory_confined (fun _ => hW _ ?_) fun _ => hW _ ?_))
    fun _ => Confined.bind (confined_map fun t => Table.confined_upsert (hW _ ?_)) fun _ =>
    Confined.bind (confined_map fun t => Table.confined_upsert (hW _ ?_)) fun _ =>
    Confined.bind (confined_map fun p => ?_) fun _ =>
    confined_map (indexNFTPosition_confined (fun _ => hW _ ?_) (fun _ _ => hW _ ?_) header
      assets.pools)
  any_goals simp [Cell.table, genesisTables]
  · refine (confined_ofOption _ _).bind fun _ => (confined_ofOption _ _).bind fun _ =>
      (confined_ofOption _ _).bind fun _ => (Table.confined_upsert (hW _ ?_)).bind fun _ =>
      Table.confined_upsert (hW _ ?_)
    all_goals simp [Cell.table, genesisTables]

theorem indexGenesisBlockAssets_confined (header : BlockHeader) (assets : GenesisAssets) :
    Confined (Respects (genesisWrites assets.validators))
      (indexGenesisBlockAssets env header assets) := by
  have hW : ∀ c : Cell, c.table ∈ genesisTables → genesisWrites assets.validators .dbTrx c := by
    intro c hc heq
    simp [heq, genesisTables] at hc
  refine Confined.bind (updateTotalLockedAmounts_confined _ _ fun t _ => ?_) fun _ =>
    Confined.bind (indexPosValidatorsInfo_confined (fun h _ => ⟨rfl, h⟩) fun _ _ => ?_) fun _ =>
    Confined.bind (indexPosStakesInfo_confined assets.stakers (fun _ _ => ?_) fun _ => ?_)
    fun _ => indexTokensAndPools_confined header assets hW
  all_goals simp [genesisWrites, Cell.table]

end Footprints

end Genesis

end SwaptoshiService
