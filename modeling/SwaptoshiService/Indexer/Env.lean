import Mathlib.Data.Finset.Union
import Mathlib.Data.List.Sort
import Mathlib.Data.String.Basic
import SwaptoshiService.Framework.Number
import SwaptoshiService.Indexer.Schema

/-!
# What the indexing jobs ask for outside the database

`Env` collects the answers a job gets from code that is not part of the indexer: the node's
endpoints, the application registry, the address and NFT encodings of the `cryptography`
package, the decimal arithmetic behind `getPriceAtTick`, and the configuration. Values that the
source computes by querying tables through helpers of `dataService` are functions of the rows the
query sees.

The second half of the module holds the pure helpers of `indexer/utils` and
`dataService/dex/timestamp.js` that the processors share.
-/

namespace SwaptoshiService

/-- `{ token0, token1, fee }`. -/
structure PoolKey where
  token0 : TokenID
  token1 : TokenID
  fee : ℕ
  deriving DecidableEq, Repr

/-- The answer of `dex_getMetadata`. -/
structure NFTMetadata where
  name : String
  description : String
  image : String
  deriving DecidableEq, Repr

/-- The part of the answer of `dex_getPool` that is read. -/
structure PoolState where
  liquidity : ℕ
  tick : ℤ
  deriving DecidableEq, Repr

/-- The `metadata` and `svg` entries of the attributes of a token factory. -/
structure FactoryAttributes where
  metadata : Option FactoryMetadata
  svg : Option String
  deriving DecidableEq, Repr

/-- The answer of `getChainInfo`. -/
structure ChainInfo where
  name : String
  status : String
  deriving DecidableEq, Repr

/-- The calls of `BluebirdPromise.map` whose elements run concurrently, besides the one over the
transactions of a block. -/
inductive Site
  | registeredTokens (txID : TxID)
  | lockedAmounts (blockID : BlockID)
  | swapEvents (blockID : BlockID)
  | priceTokens (blockID : BlockID)
  | ohlcTimeframes (tokenId : TokenID)
  | genesis (module : String)
  deriving DecidableEq, Repr

/-- Answers from outside the database. -/
structure Env where
  /-- The order in which the concurrent steps of a `map` are made. -/
  sched : Site → List ℕ
  genesisHeight : ℕ
  klyTokenID : TokenID
  /-- `getPosTokenID()`. -/
  posTokenID : TokenID
  mainchainID : ChainID
  /-- `getKlayr32AddressFromPublicKey`. -/
  addressFromPublicKey : String → Address
  /-- `getKlayr32AddressFromHexAddress(computePoolAddress(poolKey))`. -/
  poolAddress : PoolKey → Address
  decodePoolAddress : Address → PoolKey
  computePoolId : Address → String
  /-- `decodeNFTId(tokenId).collectionId`. -/
  collectionId : String → String
  /-- `dex_getMetadata`. -/
  getMetadata : Address → String → NFTMetadata
  /-- `dex_getPool`. -/
  getPool : PoolKey → PoolState
  /-- `getPriceAtTick(tick, decimals0, decimals1, inverted)`, as a `decimal(50, 8)` holds it. -/
  getPriceAtTick : ℤ → ℕ → ℕ → Bool → ℚ
  /-- `getPrice(base, quote)` (`dataService/dex/priceQuoter.js`) on the rows it sees. -/
  getPrice : DB → TokenID → TokenID → ℚ
  /-- `getLastPrice(pair, time)` on the rows it sees; `none` when one of its entries is
  falsy. -/
  getLastPrice : DB → String → ℕ → Option LastPriceRow
  /-- `tokenTable.find()`: the registered tokens, in the order the query returns them. -/
  listTokens : DB → List TokenID
  /-- The query returns every row, and only rows. -/
  mem_listTokens : ∀ db t, t ∈ listTokens db ↔ (db.get (.token t)).isSome
  /-- The order in which the candles of a query without `ORDER BY` come. -/
  rowOrder : List OhlcRow → List OhlcRow
  rowOrder_perm : ∀ rows, (rowOrder rows).Perm rows
  /-- The logo that `getTokenFactoriesMeta` finds, or `null`. -/
  tokenLogo : TokenID → Option String
  getChainInfo : ChainID → ChainInfo
  /-- Timestamp and height of the transaction that a cross-chain update at a height falls back
  to when it is reverted, searched among the rows committed before the job. -/
  previousCCU : ChainID → ℕ → Option (ℕ × ℕ)
  defaultCommission : ℕ
  validatorRegistrationFee : ℕ
  /-- `formatTransaction(tx, additionalFee).minFee`. -/
  minFee : Transaction → ℕ → ℕ
  /-- `tokenFactory_getFactory`. -/
  getFactory : TokenID → FactoryAttributes
  /-- The application registry lists a token of this name. -/
  registryHasName : String → Bool
  /-- The entry of the application registry, which overrides the on-chain metadata. -/
  registryToken : TokenID → FactoryMetadata → FactoryMetadata
  /-- `` `${SERVICE_URL}/static/img/logo/${symbol.toLowerCase()}.${extension}` ``. -/
  logoUrl : String → String → String
  /-- `config.dex.tickTimeframe`. -/
  tickTimeframe : String
  /-- `config.dex.lastPriceInterval`. -/
  lastPriceInterval : String
  /-- `config.dex.ohlcTimeframes`. -/
  ohlcTimeframes : List String
  /-- `config.db.isPersistEvents`. -/
  isPersistEvents : Bool

/-- Put identifiers in alphabetical order. -/
def inOrder (s : Multiset String) : List String :=
  Quot.liftOn s (List.insertionSort (· ≤ ·)) fun _ _ h =>
    ((List.perm_insertionSort _ _).trans
      (h.trans (List.perm_insertionSort _ _).symm)).eq_of_sortedLE
      List.sortedLE_insertionSort List.sortedLE_insertionSort

theorem mem_inOrder {s : Multiset String} {t : String} : t ∈ inOrder s ↔ t ∈ s :=
  Quot.inductionOn s fun _ => List.mem_insertionSort _

/-- The registered tokens in the order of their primary keys. -/
def tokensInOrder (db : DB) : List TokenID :=
  inOrder (db.keys.biUnion fun c => match c with
    | .token t => {t}
    | _ => ∅).val

theorem mem_tokensInOrder (db : DB) (t : TokenID) :
    t ∈ tokensInOrder db ↔ (db.get (.token t)).isSome := by
  rw [tokensInOrder, mem_inOrder, Finset.mem_val, Finset.mem_biUnion, ← db.mem_keys]
  constructor
  · rintro ⟨c, hc, ht⟩
    cases c with
    | token t' =>
      obtain rfl : t = t' := by simpa using ht
      exact hc
    | _ => simp at ht
  · exact fun h => ⟨_, h, by simp⟩

/-- An idle network: public keys are their own addresses, there is no liquidity and no price,
and every `map` runs its elements in turn. -/
instance : Inhabited Env where
  default :=
    { sched := fun _ => []
      genesisHeight := 0
      klyTokenID := "kly"
      posTokenID := "kly"
      mainchainID := "00000000"
      addressFromPublicKey := id
      poolAddress := fun key => key.token0 ++ "_" ++ key.token1 ++ "_" ++ toString key.fee
      decodePoolAddress := fun _ => ⟨"", "", 0⟩
      computePoolId := id
      collectionId := id
      getMetadata := fun _ _ => ⟨"", "", ""⟩
      getPool := fun _ => ⟨0, 0⟩
      getPriceAtTick := fun _ _ _ _ => 0
      getPrice := fun _ _ _ => 0
      getLastPrice := fun _ _ _ => none
      listTokens := tokensInOrder
      mem_listTokens := mem_tokensInOrder
      rowOrder := id
      rowOrder_perm := .refl
      tokenLogo := fun _ => none
      getChainInfo := fun _ => ⟨"", ""⟩
      previousCCU := fun _ _ => none
      defaultCommission := 10000
      validatorRegistrationFee := 0
      minFee := fun tx additionalFee => tx.minFee + additionalFee
      getFactory := fun _ => ⟨none, none⟩
      registryHasName := fun _ => false
      registryToken := fun _ m => m
      logoUrl := fun symbol extension => symbol ++ "." ++ extension
      tickTimeframe := "1m"
      lastPriceInterval := "1m"
      ohlcTimeframes := []
      isPersistEvents := false }

/-- The same network with one pool. -/
def onePoolEnv : Env := { (default : Env) with decodePoolAddress := fun _ => ⟨"btc", "kly", 3000⟩ }

/-- The genesis block and the tokens of the pool, indexed. -/
def onePoolDB : DB :=
  (Write.all [Table.upsertRow (.block 0) fun _ => { id := "genesis" },
    Table.upsertRow (.token "btc") fun _ => { symbol := "BTC", decimal := 8 },
    Table.upsertRow (.token "kly") fun _ => { symbol := "KLY", decimal := 8 }] : Stmt).exec .empty

/-- `getPoolKey(tokenA, tokenB, fee)`; `none` is the thrown `same token address`. -/
def getPoolKey (tokenA tokenB : TokenID) (fee : ℕ) : Option PoolKey :=
  if tokenA = tokenB then none
  else if tokenA < tokenB then some ⟨tokenA, tokenB, fee⟩
  else some ⟨tokenB, tokenA, fee⟩

/-- `decodeFeeGrowth(feeGrowthX128, liquidity)`. -/
def decodeFeeGrowth (feeGrowthX128 : ℤ) (liquidity : ℕ) : ℤ :=
  (feeGrowthX128 * liquidity).tdiv (2 ^ 128)

/-- `intervalToSecond`. -/
def intervalToSecond : String → Option ℕ
  | "current" => some 0
  | "1s" => some 1
  | "1m" => some 60
  | "3m" => some 180
  | "5m" => some 300
  | "15m" => some 900
  | "30m" => some 1800
  | "1h" => some 3600
  | "2h" => some 7200
  | "4h" => some 14400
  | "6h" => some 21600
  | "8h" => some 28800
  | "12h" => some 43200
  | "24h" => some 86400
  | "1d" => some 86400
  | "3d" => some 259200
  | "7d" => some 604800
  | "1w" => some 604800
  | "1M" => some 2592000
  | "30d" => some 2592000
  | "1y" => some 31104000
  | _ => none

/-- `normalizeBlockTime(blockTime, interval)`, for an interval of a positive length; for `current`
and for an interval that is not known the code gets `NaN`. -/
def normalizeBlockTime (blockTime : ℕ) (interval : String) : ℕ :=
  blockTime - blockTime % (intervalToSecond interval).getD 1

/-- The network that a token identifier's first byte stands for. -/
def tokenNetwork (tokenId : TokenID) : String :=
  match String.ofList (tokenId.toList.take 2) with
  | "00" => "mainnet"
  | "01" => "testnet"
  | "04" => "devnet"
  | _ => "unknown"

/-! ### Totals in the key-value table -/

/-- Add to a total in the key-value table: read without the transaction, write with it. -/
def updateTotal (key : KVKey) (changeAmount : ℤ) : Prog Unit := do
  let cur ← Table.find .default (.kv key)
  Table.upsert .dbTrx (.kv key) fun _ => (cur.getD 0 + changeAmount : ℤ)

/-! ### Transactions in a job -/

/-- A transaction as the processors receive it. `indexBlock` fills in every field; the
transactions that `deleteIndexedBlocks` fetches through `getTransactionsByBlockID` carry no
`senderAddress`. -/
structure IndexedTx extends Transaction where
  index : ℕ
  senderAddress : Option Address
  executionStatus : ExecutionStatus
  deriving DecidableEq

namespace IndexedTx

/-- `tx.executionStatus === TRANSACTION_STATUS.SUCCESSFUL`. -/
def isSuccessful (tx : IndexedTx) : Bool := tx.executionStatus == .successful

end IndexedTx

/-- The columns that `transactionsTable.upsert(tx, dbTrx)` writes. -/
def setTransaction (header : BlockHeader) (tx : IndexedTx) (senderAddress : Address)
    (r : TransactionRow) : TransactionRow :=
  { r with
    height := header.height
    moduleCommand := tx.module ++ ":" ++ tx.command
    nonce := tx.nonce
    blockID := header.id
    timestamp := header.timestamp
    senderAddress
    size := tx.size
    fee := tx.fee
    minFee := tx.minFee
    executionStatus := tx.executionStatus
    index := tx.index }

/-- Run a processor only for successful transactions. -/
def ifSuccessful (tx : IndexedTx) (p : Prog Unit) : Prog Unit :=
  if tx.isSuccessful then p else pure ()

end SwaptoshiService
