import Mathlib.Algebra.GroupWithZero.Nat
import SwaptoshiService.DataService.LastBlock
import SwaptoshiService.Framework.RecordQuery
import SwaptoshiService.Lib.Keyed
import SwaptoshiService.Lib.Sorting

/-!
# Blocks without the index

`getBlocks` (`blockchain-indexer/shared/dataService/business/blocks.js`) asks the node directly when
the parameters name one block by its ID or its height, or look like those of the latest block
(`isQueryFromIndex`). The answer is compared here with what `find` on the `blocks` table, newest
first unless a `sort` is given, selects when the table holds exactly the chain of the node.

`fast_path_iff`: a block that is named is answered as by the index if a limit is given, or nothing
is to be skipped, or there is no such block. The height **zero as a number** is falsy, so the last
block is answered for it. And `sort` in descending order with the offset zero passes for a query
for the latest block **without any limit**.
-/

namespace SwaptoshiService

open QueryBuilder Sql

/-! ### The table -/

/-- The columns of `blocks` that the parameters reach. -/
inductive BlockColumn
  | id
  | height
  | timestamp
  | generatorAddress
  deriving DecidableEq, Repr

/-- A value of a column. -/
inductive BlockCell
  | number (n : ℕ)
  | text (s : String)
  deriving DecidableEq, Repr

namespace BlockCell

def lt : BlockCell → BlockCell → Bool
  | number n, number m => n < m
  | text s, text t => s < t
  | _, _ => false

def le : BlockCell → BlockCell → Bool
  | number n, number m => n ≤ m
  | text s, text t => s ≤ t
  | _, _ => false

/-- How the database compares values; nothing is searched for. -/
def ops : Ops BlockCell := ⟨(· == ·), lt, le, fun _ _ => false⟩

end BlockCell

/-- The row of a block. -/
def blockCells (block : Block) : Row BlockColumn BlockCell
  | .id => some (.text block.header.id)
  | .height => some (.number block.header.height)
  | .timestamp => some (.number block.header.timestamp)
  | .generatorAddress => some (.text block.header.generatorAddress)

theorem blockCells_ne_none (block : Block) (c : BlockColumn) : blockCells block c ≠ none := by
  cases c <;> exact Option.some_ne_none _

/-! ### Queries -/

/-- The parameters of `getBlocks`. An empty `blockID` stands for an `id` that is the empty text. -/
structure BlocksQuery extends BlocksParams where
  /-- The height is a number and not a text. -/
  heightIsNumber : Bool
  sort_mem : ∀ s ∈ sort, s.1 ∈ ["height", "timestamp"] ∧ s.2 ∈ ["asc", "desc"]

section Ranges

variable {C : Type}

/-- The entry of `normalizeRangeParam`: of a range without ends, `:`, the upper end is zero. -/
def RangeParam.propBetween (property : C) : Option ℕ → Option ℕ → PropBetween C BlockCell
  | none, to? => { property, toValue := some (some (.number (to?.getD 0))) }
  | some lower, none => { property, fromValue := some (some (.number lower)) }
  | some lower, some upper =>
    { property, fromValue := some (some (.number lower)), toValue := some (some (.number upper)) }

/-- What a parameter that may be a range adds to the columns to be compared. -/
def RangeParam.equals (c : C) : Option RangeParam → List (C × Option BlockCell)
  | some (.value n) => [(c, some (.number n))]
  | _ => []

/-- What a parameter that may be a range adds to `propBetweens`. -/
def RangeParam.between (c : C) : Option RangeParam → List (PropBetween C BlockCell)
  | some (.range from? to?) => [RangeParam.propBetween c from? to?]
  | _ => []

end Ranges

namespace BlocksQuery

variable (q : BlocksQuery)

/-- The column and the direction of `sort`. -/
def sortKey : BlockColumn × Direction :=
  match q.sort with
  | none => (.height, .desc)
  | some (property, order) =>
    (if property = "timestamp" then .timestamp else .height, if order = "desc" then .desc else .asc)

/-- The parameters of the index query. -/
def toParams : Params BlockColumn BlockCell where
  queryParams := (q.blockID.map fun id => (BlockColumn.id, some (BlockCell.text id))).toList ++
    RangeParam.equals .height q.height ++ RangeParam.equals .timestamp q.timestamp ++
    (q.generatorAddress.map fun address =>
      (BlockColumn.generatorAddress, some (BlockCell.text address))).toList
  propBetweens := RangeParam.between .height q.height ++ RangeParam.between .timestamp q.timestamp
  sort := some q.sortKey
  limit := q.limit.filter (· ≠ 0)
  offset := q.offset.getD 0

/-- `params.id`, if it is truthy. -/
def truthyID : Option BlockID := q.blockID.filter (· ≠ "")

/-- `params.height`, if it is truthy: every text is, and every number but zero. -/
def truthyHeight : Option ℕ := q.singleHeight.filter fun n => !(q.heightIsNumber && n == 0)

end BlocksQuery

/-! ### The node -/

/-- The chain of the node, from its first block to its last. -/
structure NodeChain where
  blocks : List Block
  ne_nil : blocks ≠ []
  height_lt : blocks.Pairwise fun b b' => b.header.height < b'.header.height
  timestamp_lt : blocks.Pairwise fun b b' => b.header.timestamp < b'.header.timestamp
  id_nodup : (blocks.map fun b => b.header.id).Nodup
  id_ne_empty : ∀ b ∈ blocks, b.header.id ≠ ""

namespace NodeChain

variable (chain : NodeChain) (q : BlocksQuery)

/-- The answer of the node for a block that it knows, or for none. -/
def answerFor : Option Block → Except BlockError Block
  | some block => .ok block
  | none => .error .doesNotExist

def getBlockByID (id : BlockID) : Except BlockError Block :=
  answerFor (chain.blocks.find? fun b => b.header.id = id)

def getBlockByHeight (height : ℕ) : Except BlockError Block :=
  answerFor (chain.blocks.find? fun b => b.header.height = height)

def getLastBlock : Except BlockError Block := .ok (chain.blocks.getLast chain.ne_nil)

/-- What `getBlocks` answers when it does not ask the index; `none` when it throws. -/
def fromNode : Option (List Block) :=
  match q.truthyID, q.truthyHeight with
  | some id, _ => answeredBlocks ((chain.getBlockByID id).map fun block => q.page [block])
  | none, some height =>
    answeredBlocks ((chain.getBlockByHeight height).map fun block => q.page [block])
  | none, none => answeredBlocks (chain.getLastBlock.map fun block => [block])

/-- The same for a client, whose ID is not empty and whose height is a text. -/
theorem getBlocks_eq_fromNode {chain : NodeChain} {q : BlocksQuery} {source : BlockSource}
    (hid : source.getBlockByID = chain.getBlockByID)
    (hheight : source.getBlockByHeight = chain.getBlockByHeight)
    (hlast : source.getLastBlock = chain.getLastBlock) (hindex : q.isQueryFromIndex = false)
    (hempty : q.blockID ≠ some "") (htext : q.heightIsNumber = false)
    (hvalid : q.height.all RangeParam.isValid && q.timestamp.all RangeParam.isValid) :
    source.getBlocks q.toBlocksParams = chain.fromNode q := by
  have htruthyID : q.truthyID = q.blockID := by
    cases h : q.blockID <;> simp_all [BlocksQuery.truthyID, Option.filter_some]
  have htruthyHeight : q.truthyHeight = q.singleHeight := by
    cases h : q.singleHeight <;> simp [BlocksQuery.truthyHeight, Option.filter_some, h, htext]
  rw [BlockSource.getBlocks, fromNode, htruthyID, htruthyHeight, hvalid, hindex, hid, hheight,
    hlast]
  rfl

/-- The `blocks` table. -/
def table : RecordTable Block BlockColumn BlockCell where
  records := chain.blocks
  cells := blockCells
  primaryKey := .height
  primaryKeys := []
  ne_null block _ c _ := blockCells_ne_none block c
  nodup := by
    refine (List.pairwise_map.mpr (chain.height_lt.imp ?_) : List.Nodup _)
    intro b b' h
    simpa [blockCells] using h.ne

/-- The block of an answered row, which begins with the ID. -/
def blockOfRow : List (Option BlockCell) → Option Block
  | some (.text id) :: _ => (chain.getBlockByID id).toOption
  | _ => none

/-- The blocks that the index query selects. -/
def fromIndex : List Block :=
  (find BlockCell.ops chain.table.table q.toParams (some [.id])).filterMap chain.blockOfRow

/-! ### The index query -/

theorem toParams_isPlain : q.toParams.IsPlain := ⟨rfl, rfl⟩

/-- The block has what the parameters name. -/
def Selected (block : Block) : Prop := q.toParams.Meets BlockCell.ops (blockCells block)

instance (block : Block) : Decidable (Selected q block) :=
  inferInstanceAs (Decidable (Params.Meets _ _ _))

/-- The selected blocks in the order of the query, before `limit` and `offset`. -/
def records : List Block := chain.table.select BlockCell.ops q.toParams

theorem records_perm : (chain.records q).Perm (chain.blocks.filter fun b => Selected q b) :=
  RecordTable.select_perm (toParams_isPlain q) fun _ _ => rfl

theorem getBlockByID_of_mem {block : Block} (h : block ∈ chain.blocks) :
    chain.getBlockByID block.header.id = .ok block := by
  rw [getBlockByID, find?_of_nodup chain.id_nodup h, answerFor]

theorem fromIndex_eq : chain.fromIndex q =
    page q.toParams.limit q.toParams.offset (chain.records q) := by
  have hmem : ∀ b ∈ page q.toParams.limit q.toParams.offset (chain.records q),
      b ∈ chain.blocks := fun b hb =>
    List.mem_of_mem_filter ((chain.records_perm q).subset ((page_sublist _ _ _).subset hb))
  rw [fromIndex, RecordTable.find_eq (toParams_isPlain q), List.filterMap_map]
  refine (List.filterMap_congr fun b hb => ?_).trans List.filterMap_some
  exact congrArg Except.toOption (chain.getBlockByID_of_mem (hmem b hb))

end NodeChain

/-! ### Which queries go to the node -/

namespace BlocksQuery

variable {q : BlocksQuery}

/-- Only IDs, heights and the default parameters. -/
def Plain (q : BlocksQuery) : Prop :=
  q.timestamp = none ∧ q.generatorAddress = none ∧ q.height.any RangeParam.isRange = false

theorem plain_of_isDirectQuery (h : q.isDirectQuery = true) : q.Plain ∧
    (q.blockID.isSome = true ↔ q.singleHeight = none) := by
  rw [BlocksParams.isDirectQuery, Bool.and_eq_true, List.all_eq_true] at h
  obtain ⟨hone, hall⟩ := h
  have htimestamp : q.timestamp = none := by
    match htimestamp : q.timestamp with
    | none => rfl
    | some (.value n) =>
      exact absurd (hall "timestamp" (by simp [BlocksParams.paramProps, htimestamp])) (by decide)
    | some (.range _ _) =>
      exact absurd (hall "propBetweens"
        (by simp [BlocksParams.paramProps, htimestamp, RangeParam.isRange])) (by decide)
  have haddress : q.generatorAddress = none := by
    by_contra hne
    exact absurd (hall "generatorAddress"
      (by simp [BlocksParams.paramProps, Option.isSome_iff_ne_none, hne])) (by decide)
  have hrange : q.height.any RangeParam.isRange = false := by
    by_contra hne
    exact absurd (hall "propBetweens" (by simp [BlocksParams.paramProps, hne])) (by decide)
  refine ⟨⟨htimestamp, haddress, hrange⟩, ?_⟩
  rw [BlocksParams.paramProps, htimestamp, haddress, hrange] at hone
  cases hid : q.blockID <;> cases hheight : q.singleHeight <;>
    cases hlimit : q.limit <;> cases hoffset : q.offset <;> cases hsort : q.sort <;>
    simp [hid, hheight, hlimit, hoffset, hsort] at hone ⊢

/-- The parameters beside `limit`, `offset` and `sort`. -/
def others (q : BlocksQuery) : List Bool :=
  [q.blockID.isSome, q.singleHeight.isSome,
    (RangeParam.equals BlockColumn.timestamp q.timestamp).length == 1, q.generatorAddress.isSome,
    q.height.any RangeParam.isRange || q.timestamp.any RangeParam.isRange]

theorem length_ite (b : Bool) (s : String) : (if b then [s] else []).length = b.toNat := by
  cases b <;> rfl

theorem length_paramProps : q.paramProps.length = (q.others.map Bool.toNat).sum +
    (q.limit.isSome.toNat + q.offset.isSome.toNat + q.sort.isSome.toNat) := by
  rcases htime : q.timestamp with _ | (_ | _) <;>
    simp only [BlocksParams.paramProps, List.length_append, length_ite, others, htime,
      RangeParam.equals, List.map_cons, List.map_nil, List.sum_cons, List.sum_nil,
      List.length_cons, List.length_nil, beq_self_eq_true, Bool.toNat_true] <;>
    grind

theorem plain_of_others (h : (q.others.map Bool.toNat).sum = 0) :
    q.Plain ∧ q.blockID = none ∧ q.singleHeight = none := by
  simp only [others, List.map_cons, List.map_nil, List.sum_cons, List.sum_nil, Nat.add_eq_zero_iff,
    Bool.toNat_eq_zero, Bool.or_eq_false_iff, Option.isSome_eq_false_iff,
    Option.isNone_iff_eq_none] at h
  obtain ⟨hid, hheight, htimestamp, haddress, ⟨hrange, hrange'⟩, -⟩ := h
  refine ⟨⟨?_, haddress, hrange⟩, hid, hheight⟩
  match htime : q.timestamp with
  | none => rfl
  | some (.value _) => simp [htime, RangeParam.equals] at htimestamp
  | some (.range _ _) => simp [htime, RangeParam.isRange] at hrange'

theorem plain_of_isLatestBlockFetch (h : q.isLatestBlockFetch = true) : q.Plain ∧
    q.blockID = none ∧ q.singleHeight = none ∧ (∀ s ∈ q.sort, s.2 = "desc") ∧
      (q.limit = some 1 ∧ q.offset.getD 0 = 0 ∨ q.limit = none ∧ q.offset = some 0) := by
  have hplain := plain_of_others (q := q)
  simp only [BlocksParams.isLatestBlockFetch, length_paramProps] at h
  cases hlimit : q.limit <;> cases hoffset : q.offset <;> cases hsort : q.sort <;>
    simp [hlimit, hoffset, hsort] at h ⊢ <;> tauto

end BlocksQuery

/-- A limit is given, or nothing is to be skipped. -/
def BlocksQuery.Paged (q : BlocksQuery) : Prop := q.limit.getD 0 ≠ 0 ∨ q.offset.getD 0 = 0

/-! ### The two answers -/

namespace NodeChain

variable {chain : NodeChain} {q : BlocksQuery}

theorem selected_iff (hplain : q.Plain) (block : Block) : Selected q block ↔
    (∀ id ∈ q.blockID, block.header.id = id) ∧
      ∀ height ∈ q.singleHeight, block.header.height = height := by
  obtain ⟨htimestamp, haddress, hrange⟩ := hplain
  rw [Selected, BlocksQuery.toParams, htimestamp, haddress, meets_iff]
  rcases hid : q.blockID with _ | id <;> rcases hheight : q.height with _ | (_ | _) <;>
    simp_all [All, group, orSearchClauses, whereObject, whereEq, Sql.compare, RangeParam.equals,
      RangeParam.between, blockCells, BlockCell.ops, BlocksParams.singleHeight, RangeParam.isRange]

theorem height_nodup (chain : NodeChain) :
    (chain.blocks.map fun b => b.header.height).Nodup :=
  List.pairwise_map.mpr (chain.height_lt.imp fun h => h.ne)

theorem filter_of_id (chain : NodeChain) (hplain : q.Plain) {id : BlockID}
    (hid : q.blockID = some id) (hheight : q.singleHeight = none) :
    (chain.blocks.filter fun b => Selected q b) =
      (chain.blocks.find? fun b => b.header.id = id).toList := by
  rw [← filter_key_of_nodup chain.id_nodup]
  refine List.filter_congr fun b _ => decide_eq_decide.mpr ?_
  simp [selected_iff hplain, hid, hheight]

theorem filter_of_height (chain : NodeChain) (hplain : q.Plain) {height : ℕ}
    (hid : q.blockID = none) (hheight : q.singleHeight = some height) :
    (chain.blocks.filter fun b => Selected q b) =
      (chain.blocks.find? fun b => b.header.height = height).toList := by
  rw [← filter_key_of_nodup chain.height_nodup]
  refine List.filter_congr fun b _ => decide_eq_decide.mpr ?_
  simp [selected_iff hplain, hid, hheight]

/-- What the parameters select if the node knows one such block or none. -/
theorem records_eq_toList {found : Option Block}
    (h : (chain.blocks.filter fun b => Selected q b) = found.toList) :
    chain.records q = found.toList := by
  have hperm := h ▸ chain.records_perm q
  cases found with
  | none => exact List.perm_nil.mp hperm
  | some block => exact List.perm_singleton.mp hperm

/-- A block that the node has been asked for is answered as by the index if a limit is given, or
nothing is to be skipped, or there is no such block. -/
theorem named_iff {found : Option Block}
    (hfound : (chain.blocks.filter fun b => Selected q b) = found.toList) :
    answeredBlocks ((answerFor found).map fun block => q.page [block]) =
      some (chain.fromIndex q) ↔ q.Paged ∨ found = none := by
  rw [fromIndex_eq, records_eq_toList hfound]
  cases found with
  | none =>
    refine iff_of_true ?_ (.inr rfl)
    cases hlimit : q.toParams.limit <;> simp [answeredBlocks, answerFor, Except.map, page]
  | some block =>
    rw [or_iff_left (Option.some_ne_none block)]
    rcases hlimit : q.limit with _ | (_ | n) <;> rcases hoffset : q.offset with _ | (_ | m) <;>
      simp [answeredBlocks, answerFor, Except.map, BlocksParams.page, BlocksQuery.toParams,
        BlocksQuery.Paged, page, hlimit, hoffset, Option.filter_some]

/-- The column of a descending order, as a number that rises along the chain. -/
theorem exists_sort_key (chain : NodeChain) (hdesc : ∀ s ∈ q.sort, s.2 = "desc") :
    ∃ c, ∃ f : Block → ℕ, q.sortKey = (c, .desc) ∧
      (∀ b, blockCells b c = some (.number (f b))) ∧
        chain.blocks.Pairwise fun b b' => f b < f b' := by
  rw [BlocksQuery.sortKey]
  rcases hsort : q.sort with _ | ⟨property, order⟩
  · exact ⟨.height, fun b => b.header.height, rfl, fun _ => rfl, chain.height_lt⟩
  · obtain rfl : order = "desc" := hdesc _ hsort
    by_cases hproperty : property = "timestamp"
    · exact ⟨.timestamp, fun b => b.header.timestamp, by simp [hproperty], fun _ => rfl,
        chain.timestamp_lt⟩
    · exact ⟨.height, fun b => b.header.height, by simp [hproperty], fun _ => rfl,
        chain.height_lt⟩

/-- Newest first: the chain backwards. -/
theorem records_of_desc (hplain : q.Plain) (hid : q.blockID = none)
    (hheight : q.singleHeight = none) (hdesc : ∀ s ∈ q.sort, s.2 = "desc") :
    chain.records q = chain.blocks.reverse := by
  obtain ⟨c, f, hkey, hrow, hlt⟩ := exists_sort_key chain hdesc
  have hall : (chain.blocks.filter fun b => q.toParams.Meets BlockCell.ops (blockCells b)) =
      chain.blocks := by
    rw [List.filter_eq_self]
    intro b _
    have hselected : Selected q b := (selected_iff hplain b).mpr (by simp [hid, hheight])
    exact decide_eq_true hselected
  have horder : q.toParams.orderKeys = [(c, .desc)] := by
    simp [Params.orderKeys, BlocksQuery.toParams, hkey]
  have hrecords : chain.records q = chain.blocks.insertionSort fun a b =>
      before BlockCell.lt [(c, .desc)] (blockCells a) (blockCells b) := by
    rw [records, RecordTable.select_eq (toParams_isPlain q) fun _ _ => rfl, horder]
    exact congrArg (List.insertionSort _) hall
  rw [hrecords]
  refine insertionSort_eq_of_key (fun b => OrderDual.toDual (f b)) (fun a _ b _ => ?_) ?_
    (List.reverse_perm _).symm
  · simp [before, lessThan, hrow, BlockCell.lt]
    omega
  · exact List.pairwise_reverse.mpr hlt

/-- The query for the latest block: a limit of one, or a chain of one block. -/
theorem latest_iff (hplain : q.Plain) (hid : q.blockID = none) (hheight : q.singleHeight = none)
    (hdesc : ∀ s ∈ q.sort, s.2 = "desc")
    (hpage : q.limit = some 1 ∧ q.offset.getD 0 = 0 ∨ q.limit = none ∧ q.offset = some 0) :
    some [chain.blocks.getLast chain.ne_nil] = some (chain.fromIndex q) ↔
      q.limit = some 1 ∨ chain.blocks.length = 1 := by
  rw [fromIndex_eq, records_of_desc hplain hid hheight hdesc, Option.some.injEq]
  obtain ⟨hlimit, hoffset⟩ | ⟨hlimit, hoffset⟩ := hpage
  · refine iff_of_true ?_ (.inl hlimit)
    rw [BlocksQuery.toParams, hlimit, hoffset]
    simp [page, Option.filter_some, List.take_one, List.getLast?_eq_some_getLast chain.ne_nil]
  · rw [BlocksQuery.toParams, hlimit, hoffset, or_iff_right (by simp)]
    change [chain.blocks.getLast chain.ne_nil] = chain.blocks.reverse ↔ _
    constructor
    · intro h
      rw [← List.length_reverse, ← h, List.length_singleton]
    · intro h
      obtain ⟨block, hblock⟩ := List.length_eq_one_iff.mp h
      simp [hblock]

/-- For a falsy ID or height the last block is answered. -/
theorem last_iff {found : Option Block}
    (hfound : (chain.blocks.filter fun b => Selected q b) = found.toList) :
    some [chain.blocks.getLast chain.ne_nil] = some (chain.fromIndex q) ↔
      found = some (chain.blocks.getLast chain.ne_nil) ∧ q.offset.getD 0 = 0 := by
  rw [fromIndex_eq, records_eq_toList hfound, Option.some.injEq]
  cases found with
  | none => cases hlimit : q.toParams.limit <;> simp [page]
  | some block =>
    rcases hlimit : q.limit with _ | (_ | n) <;> rcases hoffset : q.offset with _ | (_ | m) <;>
      simp [BlocksQuery.toParams, page, hlimit, hoffset, Option.filter_some, eq_comm]

end NodeChain

/-! ### The fast path -/

namespace BlocksQuery

/-- The answer without the index is the one of the index query. -/
def Matches (q : BlocksQuery) (chain : NodeChain) : Prop :=
  q.isQueryFromIndex = false → chain.fromNode q = some (chain.fromIndex q)

/-- A query for one block by an ID that is not empty or a height that is not the number zero is
limited, skips nothing or has no block; a query for the height zero as a number skips nothing and
the last block has that height; a query for the latest block is limited or there is one block. -/
def Sound (q : BlocksQuery) (chain : NodeChain) : Prop :=
  match q.blockID, q.singleHeight with
  | some id, _ => id ≠ "" ∧ (q.Paged ∨ ∀ b ∈ chain.blocks, b.header.id ≠ id)
  | none, some height =>
    if q.heightIsNumber ∧ height = 0 then
      (chain.blocks.getLast chain.ne_nil).header.height = 0 ∧ q.offset.getD 0 = 0
    else q.Paged ∨ ∀ b ∈ chain.blocks, b.header.height ≠ height
  | none, none => q.limit = some 1 ∨ chain.blocks.length = 1

end BlocksQuery

namespace NodeChain

variable {chain : NodeChain} {q : BlocksQuery}

theorem id_iff (hplain : q.Plain) {id : BlockID} (hid : q.blockID = some id)
    (hheight : q.singleHeight = none) :
    chain.fromNode q = some (chain.fromIndex q) ↔ q.Sound chain := by
  have hfilter := filter_of_id chain hplain hid hheight
  rw [fromNode, BlocksQuery.truthyID, BlocksQuery.truthyHeight, BlocksQuery.Sound, hid, hheight,
    Option.filter_some]
  by_cases hempty : id = ""
  · -- no block has the empty ID, and the last block is answered
    have hnone : (chain.blocks.find? fun b => b.header.id = id) = none := by
      simpa [hempty] using chain.id_ne_empty
    rw [hnone] at hfilter
    simp only [hempty, ne_eq, not_true_eq_false, decide_false, Bool.false_eq_true, if_false,
      false_and, iff_false]
    exact fun h => absurd ((last_iff hfilter).mp h).1 (Option.some_ne_none _).symm
  · simp only [hempty, ne_eq, not_false_eq_true, decide_true, if_true, true_and]
    exact (named_iff hfilter).trans (or_congr_right (by simp))

theorem height_iff (hplain : q.Plain) {height : ℕ} (hid : q.blockID = none)
    (hheight : q.singleHeight = some height) :
    chain.fromNode q = some (chain.fromIndex q) ↔ q.Sound chain := by
  have hfilter := filter_of_height chain hplain hid hheight
  rw [fromNode, BlocksQuery.truthyID, BlocksQuery.truthyHeight, BlocksQuery.Sound, hid, hheight,
    Option.filter_some]
  by_cases hzero : q.heightIsNumber = true ∧ height = 0
  · obtain ⟨hnumber, rfl⟩ := hzero
    have hlast := List.getLast_mem chain.ne_nil
    have hfound : (chain.blocks.find? fun b => b.header.height = 0) =
        some (chain.blocks.getLast chain.ne_nil) ↔
          (chain.blocks.getLast chain.ne_nil).header.height = 0 := by
      constructor
      · intro h
        simpa using List.find?_some h
      · intro h
        rw [← find?_of_nodup chain.height_nodup hlast, h]
    simp only [hnumber, beq_self_eq_true, Bool.and_self, Bool.not_true, Bool.false_eq_true,
      if_false, and_self, if_true]
    exact (last_iff hfilter).trans (and_congr_left' hfound)
  · have htruthy : (!(q.heightIsNumber && height == 0)) = true := by
      cases hnumber : q.heightIsNumber <;> simp_all
    simp only [htruthy, if_true, hzero, if_false]
    exact (named_iff hfilter).trans (or_congr_right (by simp))

/-- **The fast path.** A query that is not answered from the index gets what the index query
selects exactly if it is `Sound`. -/
theorem fast_path_iff (chain : NodeChain) (q : BlocksQuery) :
    q.Matches chain ↔ (q.isQueryFromIndex = false → q.Sound chain) := by
  refine imp_congr_right fun hindex => ?_
  have hnode : q.isDirectQuery = true ∨ q.isLatestBlockFetch = true := by
    rw [BlocksParams.isQueryFromIndex, Bool.and_eq_false_iff] at hindex
    simpa using hindex
  rcases hnode with hdirect | hlatest
  · obtain ⟨hplain, hone⟩ := BlocksQuery.plain_of_isDirectQuery hdirect
    rcases hid : q.blockID with _ | id
    · obtain ⟨height, hheight⟩ : ∃ height, q.singleHeight = some height :=
        Option.ne_none_iff_exists'.mp fun h => by simp [hid, h] at hone
      exact height_iff hplain hid hheight
    · exact id_iff hplain hid (hone.mp (by simp [hid]))
  · obtain ⟨hplain, hid, hheight, hdesc, hpage⟩ := BlocksQuery.plain_of_isLatestBlockFetch hlatest
    rw [fromNode, BlocksQuery.truthyID, BlocksQuery.truthyHeight, BlocksQuery.Sound, hid, hheight]
    exact latest_iff hplain hid hheight hdesc hpage

/-- A chain of two blocks. -/
def twoBlocks : NodeChain where
  blocks := [⟨⟨"a", 0, 100, "g", "", 0, true⟩, [], []⟩, ⟨⟨"b", 1, 110, "g", "a", 0, false⟩, [], []⟩]
  ne_nil := by decide
  height_lt := by decide
  timestamp_lt := by decide
  id_nodup := by decide
  id_ne_empty := by decide

/-- The block of the height zero, as a number. -/
def genesisQuery : BlocksQuery where
  blockID := none
  height := some (.value 0)
  timestamp := none
  generatorAddress := none
  limit := none
  offset := none
  sort := none
  heightIsNumber := true
  sort_mem := by decide

/-- The first block is selected by the index query, and the last one is answered. -/
theorem genesis_query_answers_last : genesisQuery.isQueryFromIndex = false ∧
    (twoBlocks.fromNode genesisQuery).map (List.map fun b => b.header.id) = some ["b"] ∧
    (twoBlocks.fromIndex genesisQuery).map (fun b => b.header.id) = ["a"] ∧
    ¬ genesisQuery.Matches twoBlocks :=
  ⟨by decide, by decide, by decide, fun h => absurd (h (by decide)) (by decide)⟩

end NodeChain

end SwaptoshiService
