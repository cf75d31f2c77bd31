import SwaptoshiService.Framework.Database
import SwaptoshiService.Indexer.Chain

/-!
# The tables of the indexer

Every row of the MySQL database is addressed by a `Cell`: its table together with its primary
key, as the files of `database/schema` and `database/dynamic-schema` declare them. `Row c` is
the type of the columns stored under `c` besides the primary key; the default row holds the
declared default values (`NULL` is `none`), which is what an insert with fewer columns leaves in
the others.

The database itself is a `Store` over these cells, so each primary key holds at most one row.
-/

namespace SwaptoshiService

/-- The keys of `key_value_store` that the indexing jobs use: `KV_STORE_KEY.PREFIX.*` followed
by a token identifier. -/
inductive KVKey
  | totalStaked (tokenID : TokenID)
  | totalSelfStaked (tokenID : TokenID)
  | totalLocked (tokenID : TokenID)
  deriving DecidableEq, Repr

/-- A table together with a primary key of it. -/
inductive Cell
  | block (height : ℕ)
  | transaction (id : TxID)
  | event (id : String)
  | eventTopic (eventID topic : String)
  | validator (address : Address)
  | account (address : Address)
  | commission (address : Address) (height : ℕ)
  | stake (validatorAddress stakerAddress : Address)
  | multisignature (id : String)
  | blockchainApp (chainID : ChainID)
  | ccu (transactionID : TxID)
  | kv (key : KVKey)
  | token (tokenId : TokenID)
  | pool (token0 token1 : TokenID) (fee : ℕ)
  | tick (poolAddress : Address) (tick : ℤ)
  | position (tokenId : String)
  | tvl (transactionId : TxID) (index : ℕ)
  | volume (height index : ℕ)
  | lastPrice (tokenId : TokenID)
  | tickPrice (pair : String) (time : ℕ)
  | ohlc (pair timeframe : String) (time : ℕ)
  | tokenFactory (tokenID : TokenID)
  | tokenMetadata (tokenID : TokenID)
  deriving DecidableEq, Repr

/-- The tables; all `tick_{pair}` tables count as one, and so do the `ohlc` tables. -/
inductive TableName
  | blocks
  | transactions
  | events
  | eventTopics
  | validators
  | accounts
  | commissions
  | stakes
  | multisignature
  | blockchainApps
  | ccu
  | keyValueStore
  | registeredDexToken
  | pool
  | tick
  | position
  | tvl
  | volume
  | lastPrice
  | tickPrice
  | ohlc
  | tokenFactory
  | tokenMetadata
  deriving DecidableEq, Repr

/-- The table of a cell. -/
def Cell.table : Cell → TableName
  | block _ => .blocks
  | transaction _ => .transactions
  | event _ => .events
  | eventTopic _ _ => .eventTopics
  | validator _ => .validators
  | account _ => .accounts
  | commission _ _ => .commissions
  | stake _ _ => .stakes
  | multisignature _ => .multisignature
  | blockchainApp _ => .blockchainApps
  | ccu _ => .ccu
  | kv _ => .keyValueStore
  | token _ => .registeredDexToken
  | pool _ _ _ => .pool
  | tick _ _ => .tick
  | position _ => .position
  | tvl _ _ => .tvl
  | volume _ _ => .volume
  | lastPrice _ => .lastPrice
  | tickPrice _ _ => .tickPrice
  | ohlc _ _ _ => .ohlc
  | tokenFactory _ => .tokenFactory
  | tokenMetadata _ => .tokenMetadata

/-! ### Columns -/

/-- Table `blocks`. -/
structure BlockRow where
  id : BlockID := ""
  timestamp : ℕ := 0
  generatorAddress : Address := ""
  size : ℕ := 0
  isFinal : Bool := false
  assetsModules : List String := []
  numberOfEvents : ℕ := 0
  reward : ℕ := 0
  deriving DecidableEq, Repr, Inhabited

/-- Table `transactions`. -/
structure TransactionRow where
  height : ℕ := 0
  moduleCommand : String := ""
  nonce : ℕ := 0
  blockID : BlockID := ""
  timestamp : ℕ := 0
  senderAddress : Address := ""
  recipientAddress : Option Address := none
  tokenID : Option TokenID := none
  amount : Option ℕ := none
  receivingChainID : Option ChainID := none
  messageFee : Option ℕ := none
  data : Option String := none
  size : ℕ := 0
  fee : ℕ := 0
  minFee : ℕ := 0
  executionStatus : ExecutionStatus := .failed
  index : ℕ := 0
  deriving DecidableEq, Repr, Inhabited

/-- Table `events`; the columns `name` and `module`, which no indexing job reads, are left
out. -/
structure EventRow where
  blockID : BlockID := ""
  height : ℕ := 0
  index : ℕ := 0
  timestamp : ℕ := 0
  eventStr : Option Event := none
  deriving DecidableEq, Repr, Inhabited

/-- Table `validators`. -/
structure ValidatorRow where
  name : String := ""
  blsKey : Option String := none
  proofOfPossession : Option String := none
  generatorKey : Option String := none
  generatedBlocks : ℤ := 0
  totalCommission : ℤ := 0
  totalSelfStakeRewards : ℤ := 0
  deriving DecidableEq, Repr, Inhabited

/-- Table `accounts`. -/
structure AccountRow where
  publicKey : Option String := none
  name : Option String := none
  isValidator : Bool := false
  deriving DecidableEq, Repr, Inhabited

/-- Table `commissions`. -/
structure CommissionRow where
  commission : ℕ := 0
  deriving DecidableEq, Repr, Inhabited

/-- Table `stakes`. -/
structure StakeRow where
  amount : ℤ := 0
  deriving DecidableEq, Repr, Inhabited

/-- Table `multisignature`. -/
structure MultisignatureRow where
  groupAddress : Address := ""
  memberAddress : Address := ""
  deriving DecidableEq, Repr, Inhabited

/-- Table `blockchain_apps`. -/
structure BlockchainAppRow where
  chainName : String := ""
  status : String := ""
  address : Address := ""
  lastUpdated : ℕ := 0
  lastCertificateHeight : ℕ := 0
  deriving DecidableEq, Repr, Inhabited

/-- Table `ccu`. -/
structure CCURow where
  height : ℕ := 0
  sendingChainID : Option ChainID := none
  deriving DecidableEq, Repr, Inhabited

/-- Table `registered_dex_token`. -/
structure TokenRow where
  symbol : String := ""
  decimal : ℕ := 0
  logo : Option String := none
  deriving DecidableEq, Repr, Inhabited

/-- Table `pool`; every pool has one row for each orientation. -/
structure PoolRow where
  inverted : Bool := false
  created : ℕ := 0
  poolAddress : Address := ""
  collectionId : String := ""
  feeHex : String := ""
  tickSpacing : ℕ := 0
  tick : ℤ := 0
  liquidity : ℕ := 0
  price : ℚ := 0
  deriving DecidableEq, Repr, Inhabited

/-- Table `tick`. -/
structure TickRow where
  liquidityNet : ℤ := 0
  deriving DecidableEq, Repr, Inhabited

/-- Table `position`. -/
structure PositionRow where
  collectionId : String := ""
  owner : Option Address := none
  name : String := ""
  description : String := ""
  image : String := ""
  tickUpper : ℤ := 0
  tickLower : ℤ := 0
  liquidity : ℤ := 0
  tokenURI : String := ""
  deriving DecidableEq, Repr, Inhabited

/-- Table `tvl`. -/
structure TVLRow where
  time : ℕ := 0
  sender : Address := ""
  poolAddress : Address := ""
  amount : ℤ := 0
  tokenId : TokenID := ""
  deriving DecidableEq, Repr, Inhabited

/-- Table `volume`. -/
structure VolumeRow where
  poolAddress : Address := ""
  sender : Address := ""
  recipient : Address := ""
  time : ℕ := 0
  amount0 : ℤ := 0
  amount1 : ℤ := 0
  feeGrowth0 : ℤ := 0
  feeGrowth1 : ℤ := 0
  deriving DecidableEq, Repr, Inhabited

/-- Table `last_price`. -/
structure LastPriceRow where
  updatedOn : ℕ := 0
  current : ℚ := 0
  h1 : ℚ := 0
  h24 : ℚ := 0
  d7 : ℚ := 0
  d30 : ℚ := 0
  y1 : ℚ := 0
  deriving DecidableEq, Repr, Inhabited

/-- Tables `tick_{pair}`. -/
structure TickPriceRow where
  value : ℚ := 0
  deriving DecidableEq, Repr, Inhabited

/-- Tables `ohlc_{pair}_{timeframe}`. -/
structure OhlcRow where
  «open» : ℚ := 0
  high : ℚ := 0
  low : ℚ := 0
  close : ℚ := 0
  deriving DecidableEq, Repr, Inhabited

/-- The attributes of a token factory that the `metadata` attribute encodes. -/
structure FactoryMetadata where
  tokenName : String
  description : String
  decimal : ℕ
  baseDenom : String
  symbol : String
  deriving DecidableEq, Repr, Inhabited

/-- Table `token_factory`. -/
structure TokenFactoryRow where
  owner : Address := ""
  supply : Option ℤ := none
  metadata : Option FactoryMetadata := none
  logoPng : Option String := none
  logoSvg : Option String := none
  deriving DecidableEq, Repr, Inhabited

/-- Table `token_metadata`. -/
structure TokenMetadataRow where
  chainName : String := ""
  network : String := ""
  tokenName : String := ""
  deriving DecidableEq, Repr, Inhabited

/-- The columns stored under a cell. -/
@[reducible]
def Row : Cell → Type
  | .block _ => BlockRow
  | .transaction _ => TransactionRow
  | .event _ => EventRow
  | .eventTopic _ _ => Unit
  | .validator _ => ValidatorRow
  | .account _ => AccountRow
  | .commission _ _ => CommissionRow
  | .stake _ _ => StakeRow
  | .multisignature _ => MultisignatureRow
  | .blockchainApp _ => BlockchainAppRow
  | .ccu _ => CCURow
  | .kv _ => ℤ
  | .token _ => TokenRow
  | .pool _ _ _ => PoolRow
  | .tick _ _ => TickRow
  | .position _ => PositionRow
  | .tvl _ _ => TVLRow
  | .volume _ _ => VolumeRow
  | .lastPrice _ => LastPriceRow
  | .tickPrice _ _ => TickPriceRow
  | .ohlc _ _ _ => OhlcRow
  | .tokenFactory _ => TokenFactoryRow
  | .tokenMetadata _ => TokenMetadataRow

/-- The committed rows of the database. -/
abbrev DB := Store Cell Row

/-- The database with the transaction that a job has open. -/
abbrev DBSession := Session Cell Row

/-- Some row satisfies the condition: `(await table.find(...)).length > 0`. -/
def existsRow (p : (c : Cell) → Row c → Bool) (db : DB) : Bool :=
  decide (∃ c ∈ db.keys, (db.get c).any (p c))

/-- A search that matches rows of a set of cells only sees these cells. -/
theorem existsRow_congr {p : (c : Cell) → Row c → Bool} {S : Cell → Prop}
    (hp : ∀ c r, p c r = true → S c) {s s' : DB} (h : ∀ c, S c → s'.get c = s.get c) :
    existsRow p s' = existsRow p s := by
  have key : ∀ t : DB, (∃ c ∈ t.keys, (t.get c).any (p c)) ↔
      ∃ c r, S c ∧ t.get c = some r ∧ p c r = true := by
    intro t
    constructor
    · rintro ⟨c, -, hc⟩
      cases hr : t.get c with
      | none => simp [hr] at hc
      | some r =>
        have hpr : p c r = true := by simpa [hr] using hc
        exact ⟨c, r, hp c r hpr, hr, hpr⟩
    · rintro ⟨c, r, -, hr, hpr⟩
      refine ⟨c, (t.mem_keys c).mpr (by simp [hr]), ?_⟩
      simp [hr, hpr]
  refine decide_eq_decide.mpr ((key s').trans (Iff.trans ?_ (key s).symm))
  refine exists_congr fun c => exists_congr fun r => and_congr_right fun hc => ?_
  rw [h c hc]

/-- What an indexing function throws. -/
inductive Failure
  | typeError
  | error (message : String)
  deriving DecidableEq, Repr

/-- An asynchronous function of the indexer. -/
abbrev Prog (α : Type) := Async DBSession Failure α

/-- A statement on the tables of the indexer. -/
abbrev Stmt := Write Cell Row

end SwaptoshiService
