import SwaptoshiService.Indexer.KlyusdPrices
import SwaptoshiService.Jobs.FailurePolling

/-!
# Rolling `indexBlock` back

A failed `indexBlock` rolls `dbTrx` back, which undoes the statements sent on it and **only**
these. Four kinds of statements are sent without it: the `tick` upserts and pool updates of the
liquidity commands, the pool and `last_price` updates of swap events, the price rows of
`indexTokenPrice`, and the validator accounts of the genesis block; and the KLYUSD prices are left
to a queue. A block that gives rise to one of them is not indexed atomically
(`rollback_keeps_tick`). A block that gives rise to none leaves the tables alone wherever the job
fails before its commit takes effect, and only there: `indexBlock` is left through the same `catch`
branch when the answer to a commit is lost (`indexBlock_rollback`).
-/

namespace SwaptoshiService

open Session

/-- Statements on the transaction only. -/
def onTransaction : Conn → Cell → Prop := fun conn _ => conn = .dbTrx

/-- A program that sends statements on the transaction only keeps the committed rows. -/
theorem Session.Confined.keeps_committed_of_onTransaction {α : Type} {p : Prog α}
    (hp : Confined (Respects onTransaction) p) (db : DB) : p.Keeps (CommittedIs db) :=
  hp.keeps_committed (fun _ hst c => hst c (by simp [onTransaction])) db

/-! ### Prices -/

/-- The tick of the current interval is not indexed and there is a price for it. -/
def tickPriceDue (env : Env) (db : DB) (timestamp : ℕ) (tokenId : TokenID) (pair : String) :
    Prop :=
  db.get (.tickPrice pair (normalizeBlockTime timestamp env.tickTimeframe)) = none ∧
    env.getPrice db tokenId env.klyTokenID ≠ 0

/-- The candle of the current interval is not indexed and there are ticks for it. -/
def ohlcDue (env : Env) (db : DB) (timestamp : ℕ) (pair timeframe : String) : Prop :=
  db.get (.ohlc pair timeframe (normalizeBlockTime timestamp timeframe)) = none ∧
    transformTickToOhlc env db pair timeframe
      (normalizeBlockTime timestamp timeframe - (intervalToSecond timeframe).getD 0)
      (normalizeBlockTime timestamp timeframe) ≠ []

/-- The last price is not of the current interval and there is one. -/
def lastPriceDue (env : Env) (db : DB) (timestamp : ℕ) (tokenId : TokenID) (pair : String) :
    Prop :=
  ((db.get (.lastPrice tokenId)).any fun r =>
      r.updatedOn == normalizeBlockTime timestamp env.lastPriceInterval) = false ∧
    env.getLastPrice db pair (normalizeBlockTime timestamp env.lastPriceInterval) ≠ none

/-- A KLYUSD row of the current interval is not indexed and there is a price, or there are ticks,
for it. -/
def klyusdDue (env : Env) (market : Market) (db : DB) (timestamp : ℕ) : Prop :=
  (db.get (.tickPrice "klyusd" (normalizeBlockTime timestamp env.tickTimeframe)) = none ∧
    ∃ c klyCandles, market "1m" (normalizeBlockTime timestamp env.tickTimeframe)
      (normalizeBlockTime timestamp env.tickTimeframe) = some (c :: klyCandles) ∧ c.open ≠ 0) ∨
  ∃ timeframe ∈ env.ohlcTimeframes, ohlcDue env db timestamp "klyusd" timeframe

/-- The market has candles for the batch, of which the first has no row. -/
def batchDue (env : Env) (market : Market) (db : DB) (job : PreviousJob) : Prop :=
  ∃ c klyCandles, job.candles env market = some (c :: klyCandles) ∧
    db.get (job.cell c.start) = none

/-- A price row of a token is due. -/
def priceDue (env : Env) (db : DB) (timestamp : ℕ) (tokenId : TokenID) : Prop :=
  ∃ base quote, db.get (.token tokenId) = some base ∧ db.get (.token env.klyTokenID) = some quote ∧
    (tickPriceDue env db timestamp tokenId (base.symbol ++ quote.symbol).toLower ∨
      (∃ timeframe ∈ env.ohlcTimeframes,
        ohlcDue env db timestamp (base.symbol ++ quote.symbol).toLower timeframe) ∨
      lastPriceDue env db timestamp tokenId (base.symbol ++ quote.symbol).toLower)

section Prices

variable {env : Env} {db : DB} {timestamp : ℕ} {t : TokenID}

private theorem keeps_withPair {base quote : TokenID} {k : String → Prog Unit}
    (hk : ∀ b q, db.get (.token base) = some b → db.get (.token quote) = some q →
      (k (b.symbol ++ q.symbol).toLower).Keeps (CommittedIs db)) :
    (withPair base quote k).Keeps (CommittedIs db) := by
  refine Async.keeps_read_bind fun w hw => Async.keeps_read_bind fun w' hw' => ?_
  simp only [view, show w.committed = db from hw, show w'.committed = db from hw']
  cases hb : (db.get (.token base) : Option TokenRow) with
  | none => trivial
  | some b =>
    cases hq : (db.get (.token quote) : Option TokenRow) with
    | none => trivial
    | some q => exact hk b q hb hq

private theorem keeps_updateLastPrice_dbTrx (pair : String) (time : ℕ) :
    (updateLastPrice env .dbTrx t pair time).Keeps (CommittedIs db) := by
  refine Async.keeps_read_bind fun w _ => ?_
  split
  · trivial
  refine Async.keeps_read_bind fun w' _ => ?_
  split
  · exact fun _ hw => ⟨hw, trivial⟩
  · trivial

private theorem keeps_updateLastPrice_default {pair : String}
    (h : ¬ lastPriceDue env db timestamp t pair) :
    (updateLastPrice env .default t pair
      (normalizeBlockTime timestamp env.lastPriceInterval)).Keeps (CommittedIs db) := by
  refine Async.keeps_read_bind fun w hw => ?_
  simp only [view, show w.committed = db from hw]
  split
  · trivial
  rename_i hrow
  refine Async.keeps_read_bind fun w' hw' => ?_
  simp only [view, show w'.committed = db from hw']
  split
  · rename_i r hr
    exact absurd ⟨by simpa using hrow, by simp [hr]⟩ h
  · trivial

private theorem keeps_indexTokenTickPrice
    (h : ∀ b q, db.get (.token t) = some b → db.get (.token env.klyTokenID) = some q →
      ¬ tickPriceDue env db timestamp t (b.symbol ++ q.symbol).toLower) :
    (indexTokenTickPrice env .default timestamp t env.klyTokenID).Keeps (CommittedIs db) := by
  refine keeps_withPair fun b q hb hq => Async.keeps_read_bind fun w hw => ?_
  simp only [view, show w.committed = db from hw]
  split
  · trivial
  rename_i hrow
  refine Async.keeps_read_bind fun w' hw' => ?_
  simp only [view, show w'.committed = db from hw']
  split
  · rename_i hprice
    exact absurd ⟨by simpa using hrow, hprice⟩ (h b q hb hq)
  · trivial

private theorem keeps_indexOhlc {pair timeframe : String}
    (h : ¬ ohlcDue env db timestamp pair timeframe) :
    (indexOhlc env .default timestamp pair timeframe).Keeps (CommittedIs db) := by
  refine Async.keeps_read_bind fun w hw => ?_
  simp only [view, show w.committed = db from hw]
  split
  · trivial
  rename_i hrow
  refine Async.keeps_read_bind fun w' hw' => ?_
  simp only [view, show w'.committed = db from hw']
  split
  · rename_i r hr
    exact absurd ⟨by simpa using hrow, by simp [hr]⟩ h
  · trivial

/-- Indexing the prices of a token of which nothing is due changes no committed row. -/
private theorem keeps_indexRegisteredToken
    (h : t ≠ env.klyTokenID → ¬ priceDue env db timestamp t) :
    (indexRegisteredToken env timestamp t).Keeps (CommittedIs db) := by
  rw [indexRegisteredToken]
  split
  · rename_i hne
    have hdue := h hne
    refine Async.Keeps.bind (keeps_indexTokenTickPrice fun b q hb hq htick => ?_) fun _ =>
      Async.Keeps.bind ?_ fun _ => ?_
    · exact hdue ⟨b, q, hb, hq, .inl htick⟩
    · refine keeps_withPair fun b q hb hq => Async.Keeps.interleave fun p hp => ?_
      obtain ⟨timeframe, htf, rfl⟩ := List.mem_map.mp hp
      exact keeps_indexOhlc fun hohlc => hdue ⟨b, q, hb, hq, .inr (.inl ⟨timeframe, htf, hohlc⟩)⟩
    · rw [indexTokenLastPrice]
      rw [if_neg (by simp)]
      exact keeps_withPair fun b q hb hq => keeps_updateLastPrice_default fun hlast =>
        hdue ⟨b, q, hb, hq, .inr (.inr hlast)⟩
  · trivial

private theorem keeps_addPriceIndex {header : BlockHeader}
    (h : ∀ t ≠ env.klyTokenID, ¬ priceDue env db header.timestamp t) :
    (addPriceIndex env header).Keeps (CommittedIs db) := by
  refine Async.keeps_read_bind fun w _ => Async.Keeps.bind
    (Async.Keeps.interleave fun p hp => ?_) fun _ => keeps_updateLastPrice_dbTrx _ _
  obtain ⟨t, -, rfl⟩ := List.mem_map.mp hp
  exact keeps_indexRegisteredToken (h t)

private theorem keeps_indexKLYUSDTickPrice {market : Market}
    (h : ¬ klyusdDue env market db timestamp) :
    (indexKLYUSDTickPrice env market timestamp).Keeps (CommittedIs db) := by
  refine Async.keeps_read_bind fun w hw => ?_
  simp only [view, show w.committed = db from hw]
  split
  · trivial
  rename_i hrow
  rw [getKLYUSDPriceAtTimestamp]
  cases hmarket : market "1m" (normalizeBlockTime timestamp env.tickTimeframe)
      (normalizeBlockTime timestamp env.tickTimeframe) with
  | none => trivial
  | some klyCandles =>
    cases klyCandles with
    | nil => trivial
    | cons c klyCandles =>
      have hzero : c.open = 0 := by
        by_contra hne
        exact h (.inl ⟨by simpa using hrow, c, klyCandles, hmarket, hne⟩)
      change Async.Keeps (CommittedIs db) (if c.open = 0 then _ else _)
      rw [if_pos hzero]
      trivial

private theorem keeps_indexCurrentKLYUSDPrice {market : Market} {order : List ℕ}
    (h : ¬ klyusdDue env market db timestamp) :
    (indexCurrentKLYUSDPrice env order market timestamp).Keeps (CommittedIs db) := by
  refine (keeps_indexKLYUSDTickPrice h).bind fun _ => Async.Keeps.interleave fun p hp => ?_
  obtain ⟨timeframe, htf, rfl⟩ := List.mem_map.mp hp
  exact keeps_indexOhlc fun hohlc => h (.inr ⟨timeframe, htf, hohlc⟩)

private theorem keeps_indexPreviousCandles {order : List ℕ} {cell : ℕ → Cell}
    [∀ t, Inhabited (Row (cell t))] {row : (c : Candle) → Row (cell c.start)}
    {klyCandles : List Candle}
    (h : ∀ c ∈ klyCandles.head?, (db.get (cell c.start)).isSome) :
    (indexPreviousCandles order cell row klyCandles).Keeps (CommittedIs db) := by
  cases klyCandles with
  | nil => exact Async.Keeps.interleave fun p hp => absurd hp List.not_mem_nil
  | cons c klyCandles =>
    refine Async.keeps_read_bind fun w hw => ?_
    simp only [view, show w.committed = db from hw, h c rfl]
    trivial

private theorem keeps_previousJob {market : Market} {order : List ℕ} {job : PreviousJob}
    (h : ¬ batchDue env market db job) :
    (job.program env order market).Keeps (CommittedIs db) := by
  have hfirst : ∀ klyCandles, job.candles env market = some klyCandles →
      ∀ c ∈ klyCandles.head?, (db.get (job.cell c.start)).isSome := by
    intro klyCandles hcandles c hc
    obtain ⟨rest, rfl⟩ := List.head?_eq_some_iff.mp hc
    by_contra hnone
    exact h ⟨c, rest, hcandles, by simpa using hnone⟩
  cases job with
  | tick lo hi =>
    rw [PreviousJob.program, indexPreviousKLYUSDTickPrice, getKLYUSDCandles]
    cases hmarket : market env.tickTimeframe lo hi with
    | none => trivial
    | some klyCandles => exact keeps_indexPreviousCandles (hfirst klyCandles hmarket)
  | ohlc timeframe lo hi =>
    rw [PreviousJob.program, indexPreviousKLYUSDOhlcPrice, getKLYUSDCandles]
    cases hmarket : market timeframe lo hi with
    | none => trivial
    | some klyCandles => exact keeps_indexPreviousCandles (hfirst klyCandles hmarket)

end Prices

/-! ### The whole job -/

/-- Indexing the block sends nothing outside the transaction: no successful transaction changes
liquidity, there is no swap, and neither a validator account of the genesis block nor a price
row, of a token or of KLYUSD, is due. -/
structure StaysOnTransaction (env : Env) (market : Market) (currentTimestamp : ℕ)
    (assets : GenesisAssets) (block : Block) (events : List Event) (db : DB) : Prop where
  liquidity : ∀ tx ∈ block.transactions,
    getTransactionExecutionStatus tx events = some .successful → tx.params.isLiquidity = false
  swaps : swapEvents events = []
  accounts : block.header.height = env.genesisHeight →
    ∀ v ∈ assets.validators, Genesis.isGeneratorKeyValid v.generatorKey = false
  prices : block.header.height ≠ env.genesisHeight →
    ∀ t ≠ env.klyTokenID, ¬ priceDue env db block.header.timestamp t
  klyusd : block.header.height ≠ env.genesisHeight →
    ¬ klyusdDue env market db block.header.timestamp
  batches : block.header.height = env.genesisHeight →
    ∀ job ∈ addGenesisPriceIndex env block.header.timestamp currentTimestamp,
      ¬ batchDue env market db job

section Job

variable {env : Env} {market : Market} {now : ℕ} {assets : GenesisAssets} {block : Block}
  {events : List Event} {db : DB}

private theorem keeps_indexGenesisAssets
    (h : StaysOnTransaction env market now assets block events db) :
    (indexGenesisAssets env assets block.header).Keeps (CommittedIs db) := by
  refine Confined.keeps_committed_of_onTransaction
    (indexGenesisAssets_confined assets fun hg conn c hw => ?_) db
  cases conn with
  | default =>
    obtain ⟨v, hv, hkey⟩ := List.any_eq_true.mp hw.2
    simp [h.accounts hg v hv] at hkey
  | dbTrx => rfl

private theorem keeps_processTransactions
    (h : StaysOnTransaction env market now assets block events db)
    (order : List ℕ) :
    (processTransactions env order block.header events block.transactions).Keeps
      (CommittedIs db) := by
  refine Confined.keeps_committed_of_onTransaction
    (processTransactions_confined (fun _ _ => rfl) fun tx htx hs conn c hw => ?_) db
  cases conn with
  | default => simp [processorWrites, h.liquidity tx htx hs] at hw
  | dbTrx => rfl

private theorem keeps_indexPrices (h : StaysOnTransaction env market now assets block events db) :
    (indexPrices env block.header).Keeps (CommittedIs db) := by
  rw [indexPrices]
  split
  · trivial
  · exact keeps_addPriceIndex (h.prices ‹_›)

private theorem keeps_queuedPriceJobs (h : StaysOnTransaction env market now assets block events db)
    {order : List ℕ} {p : Prog Unit}
    (hp : p ∈ queuedPriceJobs env order market now block.header) : p.Keeps (CommittedIs db) := by
  rw [queuedPriceJobs] at hp
  split at hp
  · rename_i hgenesis
    obtain ⟨job, hjob, rfl⟩ := List.mem_map.mp hp
    exact keeps_previousJob (h.batches hgenesis job hjob)
  · rename_i hgenesis
    obtain rfl := List.mem_singleton.mp hp
    exact keeps_indexCurrentKLYUSDPrice (h.klyusd hgenesis)

private theorem keeps_indexBlockTrx (h : StaysOnTransaction env market now assets block events db)
    (order : List ℕ) :
    (indexBlockTrx env order assets block events).Keeps (CommittedIs db) := by
  have hswap : (applySwapEvent env (env.sched (.swapEvents block.header.id)) block.header
      events).Keeps (CommittedIs db) := by
    refine Async.Keeps.interleave fun p hp => ?_
    simp [h.swaps] at hp
  refine Async.Keeps.bind ?_ fun _ => fun _ hw => ⟨hw, trivial⟩
  refine (keeps_indexGenesisAssets h).bind fun _ => (keeps_processTransactions h order).bind
    fun _ => Async.Keeps.bind ?_ fun _ => Async.Keeps.bind ?_ fun _ =>
    (keeps_indexPrices h).bind fun _ => hswap
  · exact Confined.keeps_committed_of_onTransaction (incrementGeneratedBlocks_confined _ rfl) db
  · exact Confined.keeps_committed_of_onTransaction
      (indexBlockEvents_confined (fun _ _ => rfl) rfl fun _ _ => rfl) db

end Job

section Failed

variable {env : Env} {order : List ℕ} {node : NodeView} {market : Market} {now : ℕ}
  {assets : GenesisAssets} {events : Block → List Event} {block : Block}
  {jobHeight blockHeight : ℕ} {db db' : DB}

/-- Before the commit: the rollback undoes all that was sent on the transaction. -/
private theorem indexBlock_rolledBack {fault : Option ℕ} {e : Failure}
    (hchoose : chooseBlock env node jobHeight db = .ok (.index block))
    (h : StaysOnTransaction env market now assets block (events block) db)
    (hrun : indexBlock env order node assets events fault jobHeight db = (.error e, db')) :
    db' = db := by
  rw [indexBlock, hchoose] at hrun
  rcases transact_cases fault outsideFailure
      (indexBlockTrx env order assets block (events block)) db with
    ⟨w, -, -, heq⟩ | ⟨e', w, heq, hkeep⟩
  · simp only [heq] at hrun
    simp [Except.map] at hrun
  · simp only [heq] at hrun
    have hw : CommittedIs db w := hkeep _ (keeps_indexBlockTrx h order) rfl
    have hdb : w.committed = db' := (Prod.ext_iff.mp hrun).2
    exact hdb.symm.trans hw

/-- After the commit: the row of the block is there, which was not there before. -/
private theorem indexBlockFailure_ne_of_committed
    (hnode : ∀ height block, node.block height = some block → block.header.height = height)
    (hrun : indexBlockFailure env order node assets events .afterCommit jobHeight db =
      some (blockHeight, db')) : db' ≠ db := by
  rintro rfl
  have hpolled := indexBlock_polling hnode hrun
  rw [indexBlockFailure] at hrun
  split at hrun
  case h_2 => exact absurd hrun (by simp)
  rename_i block hchoose
  have hheight : block.header.height = heightToIndex db' jobHeight :=
    hnode _ _ (chooseBlock_index hchoose).1
  have hpoll : blockHeight = block.header.height := by
    rcases hjob : indexBlock env order node assets events none jobHeight db' with ⟨e | _, db''⟩
    · simp only [hjob] at hrun
      exact absurd hrun (by simp)
    · simp only [hjob] at hrun
      exact (Prod.mk.inj (Option.some.inj hrun)).1.symm
  have hnone : db'.get (.block blockHeight) = none := by
    rw [hpoll, hheight, get_heightToIndex]
  refine hpolled.1 ?_ rfl
  rw [checkBlockHeightIndexStatusInDB, hnone]
  rfl

end Failed

/-! ### Two blocks -/

/-- A block above the genesis block with one transaction. -/
def oneTransactionBlock (module command : String) (params : Command)
    (hfits : params.FitsName module command := by decide) : Block :=
  ⟨⟨"first", 1, 10, "generator", "genesis", 0, false⟩,
    [⟨"tx", module, command, params, "alice", 0, 0, 0, 0, hfits⟩], []⟩

/-- A node whose first block has one transaction. -/
def oneTransactionNode (module command : String) (params : Command)
    (hfits : params.FitsName module command := by decide) : NodeView :=
  ⟨1, fun height =>
    if height = 1 then some (oneTransactionBlock module command params hfits) else none⟩

/-- Index a block with one transaction and lose the connection after some steps. -/
def interruptedJob (module command : String) (params : Command) (events : List Event)
    (steps : ℕ) (hfits : params.FitsName module command := by decide) :
    Except Failure Decision × DB :=
  indexBlock onePoolEnv [] (oneTransactionNode module command params hfits)
    ⟨[], [], [], [], [], [], [], []⟩ (fun _ => events) (some steps) 1 onePoolDB

/-- The event of a successful stake. -/
def stakeEvents : List Event := [⟨"e0", 0, 1, ["04tx"], .commandExecutionResult "pos" true⟩]

/-- The events of an `increaseLiquidity` that adds 5 between the ticks 10 and 20. -/
def increaseEvents : List Event :=
  [⟨"e0", 0, 1, ["04tx"], .dexMint ⟨10, 20, 5, -5, 0, 0⟩⟩,
    ⟨"e1", 1, 1, ["04tx"], .increaseLiquidity ⟨"nft", "alice", 5, 1, 1⟩⟩,
    ⟨"e2", 2, 1, ["04tx"], .commandExecutionResult "dex" true⟩]

end SwaptoshiService
