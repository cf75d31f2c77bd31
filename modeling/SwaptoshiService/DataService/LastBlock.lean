import SwaptoshiService.Indexer.Chain
import SwaptoshiService.Lib.Run

/-!
# The cached last block

`lastBlockCache` (`blockchain-indexer/shared/dataService/blocks.js`) holds one entry. It is written
by `performLastBlockUpdate` for every new block, and by `getBlocksFromServer` **for every block of
every answer** to a client's query. `getLastBlock` returns the entry, and `getTotalNumberOfBlocks`
takes the length of the chain from it.

A query stands here with its parameters and with what the index and the node answer at that time
(`BlockSource`), so an answer may be older than the new blocks that have arrived since. The cache is
taken to be reachable.

`last_block_kept`: the entry stays as high as the latest new block while no query ends with a lower
block, and the first one that does lowers it.
-/

namespace SwaptoshiService

/-! ### Queries for blocks -/

/-- A parameter that is a number or a range `from:to` whose ends may be missing. -/
inductive RangeParam
  | value (n : ℕ)
  | range (from? to? : Option ℕ)
  deriving DecidableEq, Repr

/-- The parameters of the `blocks` method. -/
structure BlocksParams where
  blockID : Option BlockID
  height : Option RangeParam
  timestamp : Option RangeParam
  generatorAddress : Option Address
  limit : Option ℕ
  offset : Option ℕ
  /-- The property and the order. -/
  sort : Option (String × String)
  deriving DecidableEq, Repr

/-- Why a block is not returned. -/
inductive BlockError
  | doesNotExist
  | other
  deriving DecidableEq, Repr

/-- What the index and the node answer. -/
structure BlockSource where
  count : BlocksParams → ℕ
  find : BlocksParams → List BlockID
  getBlockByID : BlockID → Except BlockError Block
  getBlocksByIDs : List BlockID → Except BlockError (List Block)
  getBlockByHeight : ℕ → Except BlockError Block
  getLastBlock : Except BlockError Block

namespace RangeParam

/-- It includes a colon. -/
def isRange : RangeParam → Bool
  | value _ => false
  | range _ _ => true

/-- `normalizeRangeParam` (`utils/param.js`) accepts it. -/
def isValid : RangeParam → Bool
  | range (some lower) (some upper) => decide (lower ≤ upper)
  | _ => true

end RangeParam

namespace BlocksParams

/-- The height, if it is a single one. -/
def singleHeight (params : BlocksParams) : Option ℕ :=
  match params.height with
  | some (.value n) => some n
  | _ => none

/-- `Object.getOwnPropertyNames(params)`, after `blockID` has been renamed and ranges have been
normalised. -/
def paramProps (params : BlocksParams) : List String :=
  (if params.blockID.isSome then ["id"] else []) ++
  (if params.singleHeight.isSome then ["height"] else []) ++
  (match params.timestamp with
    | some (.value _) => ["timestamp"]
    | _ => []) ++
  (if params.generatorAddress.isSome then ["generatorAddress"] else []) ++
  (if params.limit.isSome then ["limit"] else []) ++
  (if params.offset.isSome then ["offset"] else []) ++
  (if params.sort.isSome then ["sort"] else []) ++
  if params.height.any RangeParam.isRange || params.timestamp.any RangeParam.isRange then
    ["propBetweens"] else []

/-- Exactly one of `id`, `height` and `heightBetween`, with default parameters at most. -/
def isDirectQuery (params : BlocksParams) : Bool :=
  let directQueryParams := ["id", "height", "heightBetween"]
  let defaultQueryParams := ["limit", "offset", "sort"]
  ((params.paramProps.filter (directQueryParams.contains ·)).length == 1) &&
    params.paramProps.all ((directQueryParams ++ defaultQueryParams).contains ·)

def isLatestBlockFetch (params : BlocksParams) : Bool :=
  let length := params.paramProps.length
  let isDesc := (params.sort.map Prod.snd) == some "desc"
  (length == 1 && params.limit == some 1) ||
  (length == 2 &&
    ((params.limit == some 1 && params.offset == some 0) ||
      (isDesc && (params.limit == some 1 || params.offset == some 0)))) ||
  (length == 3 && params.limit == some 1 && params.offset == some 0 && isDesc)

def isQueryFromIndex (params : BlocksParams) : Bool :=
  !params.isDirectQuery && !params.isLatestBlockFetch

/-- `blocks.data.slice(offset, offset + limit)`, if there are an offset and a limit. -/
def page (params : BlocksParams) (blocks : List Block) : List Block :=
  match params.offset, params.limit with
  | some offset, some limit => if limit = 0 then blocks else (blocks.drop offset).take limit
  | _, _ => blocks

end BlocksParams

/-- The blocks of an answer: none when they do not exist; `none` for another error. -/
def answeredBlocks (answer : Except BlockError (List Block)) : Option (List Block) :=
  match answer with
  | .ok blocks => some blocks
  | .error .doesNotExist => some []
  | .error .other => none

namespace BlockSource

/-- The data of `getBlocks` (`business/blocks.js`); `none` when it throws. -/
def getBlocks (source : BlockSource) (params : BlocksParams) : Option (List Block) :=
  if !(params.height.all RangeParam.isValid && params.timestamp.all RangeParam.isValid) then none
  else if params.isQueryFromIndex then
    let ids := source.find params
    if ids = [] then some [] else answeredBlocks (source.getBlocksByIDs ids)
  else
    match params.blockID, params.singleHeight with
    | some id, _ => answeredBlocks ((source.getBlockByID id).map fun block => params.page [block])
    | none, some height =>
      answeredBlocks ((source.getBlockByHeight height).map fun block => params.page [block])
    | none, none => answeredBlocks (source.getLastBlock.map fun block => [block])

/-- The blocks that a query is answered with. -/
def answer (source : BlockSource) (params : BlocksParams) : List Block :=
  (source.getBlocks params).getD []

end BlockSource

/-! ### The cache entry -/

/-- The cache entry, beside the block that the latest new-block event brought. -/
structure LastBlockCache where
  lastBlock : Option Block
  /-- The block given to the latest `performLastBlockUpdate`. -/
  newBlock : Option Block
  deriving DecidableEq, Repr

/-- The calls that write the entry. -/
inductive LastBlockCall
  | performLastBlockUpdate (newBlock : Block)
  | getBlocks (source : BlockSource) (params : BlocksParams)

namespace LastBlockCache

def setLastBlock (s : LastBlockCache) (block : Block) : LastBlockCache :=
  { s with lastBlock := some block }

def getLastBlock (s : LastBlockCache) : Option Block := s.lastBlock

/-- `none` stands for `NaN`: nothing is cached. -/
def getTotalNumberOfBlocks (genesisHeight : ℕ) (s : LastBlockCache) : Option ℤ :=
  s.getLastBlock.map fun block => (block.header.height : ℤ) - genesisHeight + 1

/-- `getBlocksFromServer`: every block of the answer is written, one after the other. -/
def getBlocksFromServer (source : BlockSource) (params : BlocksParams) (s : LastBlockCache) :
    LastBlockCache :=
  (source.answer params).foldl setLastBlock s

def performLastBlockUpdate (newBlock : Block) (s : LastBlockCache) : LastBlockCache :=
  { s.setLastBlock newBlock with newBlock := some newBlock }

/-- `getBlocksTotal` for an answer of the given length, after `getBlocksFromServer`. -/
def getBlocksTotal (genesisHeight : ℕ) (source : BlockSource) (params : BlocksParams)
    (length : ℕ) (s : LastBlockCache) : ℤ :=
  if params.generatorAddress.isSome then source.count params
  else if params.blockID.isSome || params.singleHeight.isSome then length
  else if params.height.any RangeParam.isRange || params.timestamp.any RangeParam.isRange then
    source.count params
  else
    match s.getTotalNumberOfBlocks genesisHeight with
    | some total => if total = 0 then length else total
    | none => length

/-- The data and the total that a query returns, with the cache it leaves. -/
def getBlocks (genesisHeight : ℕ) (source : BlockSource) (params : BlocksParams)
    (s : LastBlockCache) : LastBlockCache × Option (List Block × ℤ) :=
  match source.getBlocks params with
  | none => (s, none)
  | some data =>
    let s' := s.getBlocksFromServer source params
    (s', some (data, s'.getBlocksTotal genesisHeight source params data.length))

/-- Nothing has been cached. -/
def empty : LastBlockCache := ⟨none, none⟩

/-- The cache after a call. -/
inductive Step (genesisHeight : ℕ) : LastBlockCache → LastBlockCall → LastBlockCache → Prop
  | performLastBlockUpdate {s : LastBlockCache} (newBlock : Block) :
      Step genesisHeight s (.performLastBlockUpdate newBlock) (s.performLastBlockUpdate newBlock)
  | getBlocks {s : LastBlockCache} (source : BlockSource) (params : BlocksParams) :
      Step genesisHeight s (.getBlocks source params) (s.getBlocks genesisHeight source params).1

/-- The last block is at least as high as the latest new one. -/
def Current (s : LastBlockCache) : Prop :=
  ∀ newBlock, s.newBlock = some newBlock →
    ∃ block, s.getLastBlock = some block ∧ newBlock.header.height ≤ block.header.height

/-- The answer to a query does not end with a block lower than the latest new one. -/
def NotLower (s : LastBlockCache) : LastBlockCall → Prop
  | .performLastBlockUpdate _ => True
  | .getBlocks source params =>
    ∀ newBlock block, s.newBlock = some newBlock → (source.answer params).getLast? = some block →
      newBlock.header.height ≤ block.header.height

variable {genesisHeight : ℕ} {s s' : LastBlockCache} {call : LastBlockCall}

/-- The last block of an answer stays. -/
theorem foldl_setLastBlock (blocks : List Block) (s : LastBlockCache) :
    blocks.foldl setLastBlock s = { s with lastBlock := blocks.getLast?.or s.lastBlock } := by
  induction blocks generalizing s with
  | nil => rfl
  | cons block blocks ih =>
    rw [List.foldl_cons, ih, List.getLast?_cons]
    cases blocks.getLast? <;> rfl

theorem getBlocks_fst (source : BlockSource) (params : BlocksParams) :
    (s.getBlocks genesisHeight source params).1 =
      { s with lastBlock := (source.answer params).getLast?.or s.lastBlock } := by
  rw [getBlocks, BlockSource.answer]
  split
  · rename_i hthrow
    rw [hthrow]
    rfl
  · rw [getBlocksFromServer, foldl_setLastBlock, BlockSource.answer]

/-- One call keeps the entry current if and only if it does not end with a lower block. -/
theorem Current.step_iff (h : s.Current) (hstep : Step genesisHeight s call s') :
    s'.Current ↔ s.NotLower call := by
  cases hstep with
  | performLastBlockUpdate newBlock =>
    refine ⟨fun _ => trivial, fun _ => ?_⟩
    intro newBlock' hnew
    obtain rfl : newBlock = newBlock' := Option.some.inj hnew
    exact ⟨newBlock, rfl, Nat.le_refl _⟩
  | getBlocks source params =>
    rw [getBlocks_fst]
    constructor
    · intro hcurrent newBlock block hnew hlast
      obtain ⟨block', hblock', hle⟩ := hcurrent newBlock hnew
      rw [getLastBlock, hlast, Option.some_or] at hblock'
      obtain rfl := Option.some.inj hblock'
      exact hle
    · intro hnot newBlock hnew
      obtain ⟨block, hblock, hle⟩ := h newBlock hnew
      show ∃ block', (source.answer params).getLast?.or s.lastBlock = some block' ∧ _
      rcases hlast : (source.answer params).getLast? with _ | block'
      · exact ⟨block, hblock, hle⟩
      · exact ⟨block', rfl, hnot newBlock block' hnew hlast⟩

/-- **The last block is kept** in every sequence of calls in which no query ends with a block lower
than the latest new one; then the number of blocks does not fall below the known one either. The
first query that ends with a lower block breaks this. -/
theorem last_block_kept
    (hrun : Run (Step genesisHeight) NotLower empty s) :
    s.Current ∧
    (∀ newBlock, s.newBlock = some newBlock → ∃ total,
      s.getTotalNumberOfBlocks genesisHeight = some total ∧
        (newBlock.header.height : ℤ) - genesisHeight + 1 ≤ total) ∧
    ∀ call s', Step genesisHeight s call s' → (s'.Current ↔ s.NotLower call) := by
  have hempty : empty.Current := fun newBlock hnew => absurd hnew (by simp [empty])
  have hs : s.Current := hrun.invariant Current hempty
    fun _ _ _ h hok hstep => (h.step_iff hstep).2 hok
  refine ⟨hs, fun newBlock hnew => ?_, fun call s' hstep => hs.step_iff hstep⟩
  obtain ⟨block, hblock, hle⟩ := hs newBlock hnew
  refine ⟨(block.header.height : ℤ) - genesisHeight + 1, ?_, ?_⟩
  · rw [getTotalNumberOfBlocks, hblock]
    rfl
  · omega

/-- A block at a height. -/
def blockAt (height : ℕ) : Block := ⟨⟨toString height, height, 0, "", "", 0, false⟩, [], []⟩

/-- The node answers with blocks up to a height; the index is empty. -/
def upTo (top : ℕ) : BlockSource where
  count _ := 0
  find _ := []
  getBlockByID _ := .error .doesNotExist
  getBlocksByIDs _ := .error .doesNotExist
  getBlockByHeight height :=
    if height ≤ top then .ok (blockAt height) else .error .doesNotExist
  getLastBlock := .ok (blockAt top)

/-- A query for one height. -/
def byHeight (height : ℕ) : BlocksParams :=
  ⟨none, some (.value height), none, none, none, none, none⟩

private theorem answer_byHeight : (upTo 2).answer (byHeight 2) = [blockAt 2] := by
  decide +kernel

private theorem answer_byHeight_lower : (upTo 2).answer (byHeight 1) = [blockAt 1] := by
  decide +kernel

private theorem run_update (ok : LastBlockCache → LastBlockCall → Prop)
    (hok : ok empty (.performLastBlockUpdate (blockAt 2))) :
    Run (Step 0) ok empty ⟨some (blockAt 2), some (blockAt 2)⟩ :=
  Run.refl.tail (.performLastBlockUpdate _) hok

theorem last_block_kept_latest :
    ((⟨some (blockAt 2), some (blockAt 2)⟩ : LastBlockCache).getBlocks 0 (upTo 2)
      (byHeight 2)).1.Current ∧ (upTo 2).answer (byHeight 2) = [blockAt 2] := by
  refine ⟨(last_block_kept ((run_update NotLower trivial).tail (.getBlocks _ _) ?_)).1,
    answer_byHeight⟩
  intro newBlock block hnew hlast
  rw [answer_byHeight] at hlast
  obtain rfl := Option.some.inj hnew
  obtain rfl := Option.some.inj hlast
  exact Nat.le_refl _

/-- A client asks for block 1 when block 2 is the last one. -/
theorem query_lowers_last_block :
    ¬ ∀ (genesisHeight : ℕ) (s : LastBlockCache),
      Run (Step genesisHeight) Unrestricted empty s → s.Current := by
  intro h
  have hcurrent := h 0 _ ((run_update Unrestricted trivial).tail
    (.getBlocks (upTo 2) (byHeight 1)) trivial)
  obtain ⟨block, hblock, hle⟩ := hcurrent (blockAt 2) (by rw [getBlocks_fst])
  rw [getBlocks_fst, answer_byHeight_lower] at hblock
  obtain rfl := Option.some.inj hblock
  exact absurd hle (by decide)

end LastBlockCache

end SwaptoshiService
