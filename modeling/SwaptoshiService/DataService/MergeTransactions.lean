import Mathlib.Order.MinMax
import SwaptoshiService.DataService.BlockQuery
import SwaptoshiService.DataService.EventQuery
import SwaptoshiService.Framework.Filters
import SwaptoshiService.Lib.Except
import SwaptoshiService.Lib.Paging

/-!
# Pending transactions before confirmed ones

`getTransactions` (`blockchain-indexer/shared/dataService/transactions.js`) answers with the pending
transactions before those of the `transactions` table if the status `pending` is asked for. The two
lists are filtered separately, and `mergeTransactions` computes from the number of pending ones
which page of the table fills up the page that is asked for.

It takes the pending transactions that are *not* on the page off the limit of the table, where it
should take off those that are. So a page is short when most of the pending ones lie elsewhere, and
the confirmed ones left out are on no page. And of the filters, the nonce is left out for pending
transactions. `merge_transactions_iff` says for which requests neither matters.
-/

namespace SwaptoshiService

namespace MergeTransactions

open QueryBuilder Sql Paging

/-! ### Transactions -/

/-- A transaction, as far as requests ask for it. -/
structure Transaction where
  id : String
  moduleCommand : String
  nonce : ℕ
  senderAddress : String
  recipientAddress : Option String
  receivingChainID : Option String
  receivingChainID_ne : receivingChainID ≠ some ""
  deriving DecidableEq

/-- A row of `transactions`. -/
structure IndexedTransaction where
  transaction : Transaction
  blockID : String
  height : ℕ
  timestamp : ℕ
  index : ℕ
  executionStatus : String
  deriving DecidableEq

/-- The columns of `transactions` that the parameters reach. -/
inductive TransactionColumn
  | id
  | moduleCommand
  | nonce
  | senderAddress
  | recipientAddress
  | receivingChainID
  | blockID
  | height
  | timestamp
  | index
  | executionStatus
  deriving DecidableEq, Repr

def TransactionColumn.nullable : TransactionColumn → Bool
  | .recipientAddress => true
  | .receivingChainID => true
  | _ => false

/-- The row of a transaction. -/
def transactionCells (row : IndexedTransaction) : Row TransactionColumn BlockCell
  | .id => some (.text row.transaction.id)
  | .moduleCommand => some (.text row.transaction.moduleCommand)
  | .nonce => some (.number row.transaction.nonce)
  | .senderAddress => some (.text row.transaction.senderAddress)
  | .recipientAddress => row.transaction.recipientAddress.map .text
  | .receivingChainID => row.transaction.receivingChainID.map .text
  | .blockID => some (.text row.blockID)
  | .height => some (.number row.height)
  | .timestamp => some (.number row.timestamp)
  | .index => some (.number row.index)
  | .executionStatus => some (.text row.executionStatus)

/-- The rows of `transactions`, and the transactions that the connector answers with for their
IDs. -/
structure TransactionIndex where
  rows : List IndexedTransaction
  nodup : (rows.map fun row => row.transaction.id).Nodup
  currentChainID : String
  node : String → Transaction
  node_eq : ∀ row ∈ rows, node row.transaction.id = row.transaction

def TransactionIndex.table (t : TransactionIndex) :
    RecordTable IndexedTransaction TransactionColumn BlockCell where
  records := t.rows
  cells := transactionCells
  primaryKey := .id
  primaryKeys := []
  nullable := TransactionColumn.nullable
  ne_null row _ c hc := by
    cases c <;> first | exact Option.some_ne_none _ | cases hc
  nodup := by
    have hinj : Function.Injective fun id : String => [some (BlockCell.text id)] :=
      fun id id' h => by simpa using h
    exact nodup_map_comp hinj t.nodup

/-- `executionStatus` is asked for with the status `pending` among others. -/
def isIncludePendingTransactions (executionStatuses : List String) : Bool :=
  executionStatuses.any (· == "pending")

/-- The parameters of a request that includes pending transactions. A text that is given is not
empty, and a range has an end. -/
structure TransactionsQuery where
  id : Option String
  moduleCommand : Option String
  senderAddress : Option String
  recipientAddress : Option String
  address : Option String
  receivingChainID : Option String
  nonce : Option ℕ
  blockID : Option String
  height : Option RangeParam
  timestamp : Option RangeParam
  /-- `executionStatus.split(',')`. -/
  executionStatuses : List String
  sort : Option (TransactionColumn × Direction)
  order : Option (TransactionColumn × Direction)
  offset : ℕ
  limit : ℕ
  isIncludePending : isIncludePendingTransactions executionStatuses = true
  not_any : "any" ∉ executionStatuses
  given_ne : ∀ text ∈ [id, moduleCommand, senderAddress, recipientAddress, address,
    receivingChainID, blockID], text ≠ some ""
  height_ne : height ≠ some (.range none none)
  timestamp_ne : timestamp ≠ some (.range none none)
  sort_mem : ∀ key ∈ sort, key.1 ∈ [TransactionColumn.height, .timestamp]
  order_mem : ∀ key ∈ order, key.1 = .index
  limit_pos : 0 < limit

/-- An entry of the answer; the block is given by its ID, height and timestamp. -/
structure ListedTransaction where
  transaction : Transaction
  executionStatus : Option String
  block : Option (String × ℕ × ℕ)
  index : Option ℕ
  deriving DecidableEq

/-- The entries of a page, and the total. -/
structure TransactionsAnswer where
  data : List ListedTransaction
  total : ℕ
  deriving DecidableEq

/-- A pending transaction with its `executionStatus`. -/
def pendingEntry (transaction : Transaction) : ListedTransaction :=
  ⟨transaction, some "pending", none, none⟩

/-- A transaction of the connector with what the index knows about it. -/
def confirmedEntry (transaction : Transaction) (indexedTxInfo : Option IndexedTransaction) :
    ListedTransaction where
  transaction := transaction
  executionStatus := indexedTxInfo.map IndexedTransaction.executionStatus
  block := indexedTxInfo.map fun row => (row.blockID, row.height, row.timestamp)
  index := indexedTxInfo.map IndexedTransaction.index

def nonceMessage : String := "Nonce based retrieval is only possible along with senderAddress"

section Pending

variable (q : TransactionsQuery) (currentChainID : String)

/-- A block is asked for. -/
def TransactionsQuery.inBlock : Bool := q.blockID.isSome || q.timestamp.isSome || q.height.isSome

/-- `validatedParams` of `pendingTransactions.js`. -/
structure PendingParams where
  id : Option String
  address : Option String
  senderAddress : Option String
  recipientAddress : Option String
  moduleCommand : Option String
  currentChainTransactions : Bool
  receivingChainID : Option String

/-- `validateParams` of `pendingTransactions.js`. -/
def validatePendingParams : Except String PendingParams :=
  if q.nonce.isSome ∧ q.senderAddress = none then .error nonceMessage
  else .ok
    { id := q.id
      address := q.address
      senderAddress := q.senderAddress
      recipientAddress := q.recipientAddress
      moduleCommand := q.moduleCommand
      currentChainTransactions := q.receivingChainID = some currentChainID
      receivingChainID := q.receivingChainID.filter (· ≠ currentChainID) }

/-- The filter of `getPendingTransactions`. -/
def PendingParams.accepts (p : PendingParams) (transaction : Transaction) : Bool :=
  p.id.all (transaction.id = ·) &&
    p.senderAddress.all (transaction.senderAddress = ·) &&
    p.recipientAddress.all (transaction.recipientAddress = some ·) &&
    p.address.all (fun address =>
      transaction.senderAddress = address || transaction.recipientAddress = some address) &&
    p.moduleCommand.all (transaction.moduleCommand = ·) &&
    p.receivingChainID.all (transaction.receivingChainID = some ·) &&
    (!p.currentChainTransactions || transaction.receivingChainID.isNone)

/-- `getPendingTransactions` of `pendingTransactions.js`. -/
def getPendingTransactions (pendingTransactionsList : List Transaction) :
    Except String TransactionsAnswer :=
  if q.inBlock then .ok ⟨[], 0⟩
  else do
    let validatedParams ← validatePendingParams q currentChainID
    let filteredPendingTxs := pendingTransactionsList.filter validatedParams.accepts
    return ⟨(slice q.offset q.limit filteredPendingTxs).map pendingEntry,
      filteredPendingTxs.length⟩

end Pending

section Confirmed

variable (q : TransactionsQuery) (t : TransactionIndex)

/-- The column is to have the value, if it is given. -/
def columnIs (c : TransactionColumn) (value : Option BlockCell) :
    List (TransactionColumn × Option BlockCell) := (value.map fun v => (c, some v)).toList

/-- `normalizeRangeParam(params, property)`. -/
def checkRange (property : String) (param : Option RangeParam) : Except String Unit :=
  if param.all RangeParam.isValid then .ok ()
  else .error ("From " ++ property ++ " cannot be greater than to " ++ property ++ ".")

/-- The parameters of the query without `address`. -/
def columnParams (limit offset : ℕ) : Params TransactionColumn BlockCell where
  queryParams := columnIs .id (q.id.map .text) ++
    columnIs .moduleCommand (q.moduleCommand.map .text) ++
    columnIs .senderAddress (q.senderAddress.map .text) ++
    columnIs .recipientAddress (q.recipientAddress.map .text) ++
    (q.receivingChainID.map fun chainID => (TransactionColumn.receivingChainID,
      if chainID = t.currentChainID then none else some (BlockCell.text chainID))).toList ++
    columnIs .nonce (q.nonce.map .number) ++ columnIs .blockID (q.blockID.map .text) ++
    RangeParam.equals .height q.height ++ RangeParam.equals .timestamp q.timestamp
  propBetweens := RangeParam.between .height q.height ++ RangeParam.between .timestamp q.timestamp
  whereIn := [(.executionStatus, ((q.executionStatuses.filter (· ≠ "any")).map .text).map some)]
  sort := q.sort
  order := q.order
  limit := some limit
  offset := offset

/-- The parameters of the query. -/
def tableParams (limit offset : ℕ) : Params TransactionColumn BlockCell :=
  { columnParams q t limit offset with
    orWhere := q.address.map fun address =>
      ([(.recipientAddress, some (.text address))], [(.senderAddress, some (.text address))]) }

/-- `validateParams` of `transactions.js`. -/
def validateParams (limit offset : ℕ) : Except String (Params TransactionColumn BlockCell) := do
  checkRange "height" q.height
  checkRange "timestamp" q.timestamp
  if q.nonce.isSome ∧ q.senderAddress = none then .error nonceMessage
  else .ok (tableParams q t limit offset)

/-- `BATCH_SIZE`. -/
def batchSize : ℕ := 25

/-- The transactions of the IDs, batch by batch. -/
def getTransactionsByIDs (ids : List String) : List Transaction :=
  (List.range ((ids.length + (batchSize - 1)) / batchSize)).flatMap fun i =>
    (slice (i * batchSize) batchSize ids).map t.node

/-- `getTransactions` of `business/transactions.js`. -/
def getConfirmedTransactions (limit offset : ℕ) : Except String TransactionsAnswer := do
  let params ← validateParams q t limit offset
  let total := t.table.countRecords BlockCell.ops params
  let resultSet := t.table.findRecords BlockCell.ops params
  let transactions := getTransactionsByIDs t (resultSet.map fun row => row.transaction.id)
  return ⟨transactions.map fun transaction => confirmedEntry transaction
    (resultSet.find? fun txInfo => txInfo.transaction.id = transaction.id), total⟩

end Confirmed

section Merge

variable (q : TransactionsQuery) (pendingTransactionsList : List Transaction)
  (t : TransactionIndex)

/-- `mergeTransactions(params)`. -/
def mergeTransactions : Except String TransactionsAnswer := do
  let pendingTxs ← getPendingTransactions q t.currentChainID pendingTransactionsList
  let limit := max 1 (q.limit - (pendingTxs.total - pendingTxs.data.length))
  -- `Math.max(0, offset - numTotalPendingTx)`
  let offset := q.offset - pendingTxs.total
  let transactions ←
    match getConfirmedTransactions q t limit offset with
    | .ok transactions => .ok transactions
    | .error error => if pendingTxs.data = [] then .error error else .ok ⟨[], 0⟩
  let data := if pendingTxs.data.length = q.limit then pendingTxs.data
    else slice 0 q.limit (pendingTxs.data ++ transactions.data)
  return ⟨data, pendingTxs.total + transactions.total⟩

/-- `getTransactions(params)`. -/
def getTransactions : Except String TransactionsAnswer :=
  if isIncludePendingTransactions q.executionStatuses then
    mergeTransactions q pendingTransactionsList t
  else getConfirmedTransactions q t q.limit q.offset

end Merge

/-! ### What is meant -/

section Meaning

variable (q : TransactionsQuery) (currentChainID : String)

/-- The transaction satisfies the filters but for the nonce. What the current chain receives has no
receiving chain. -/
structure MatchesOther (tx : Transaction) : Prop where
  id : ∀ id ∈ q.id, tx.id = id
  moduleCommand : ∀ moduleCommand ∈ q.moduleCommand, tx.moduleCommand = moduleCommand
  senderAddress : ∀ address ∈ q.senderAddress, tx.senderAddress = address
  recipientAddress : ∀ address ∈ q.recipientAddress, tx.recipientAddress = some address
  address : ∀ address ∈ q.address,
    tx.senderAddress = address ∨ tx.recipientAddress = some address
  receivingChainID : ∀ chainID ∈ q.receivingChainID,
    tx.receivingChainID = if chainID = currentChainID then none else some chainID

def MatchesNonce (tx : Transaction) : Prop := ∀ nonce ∈ q.nonce, tx.nonce = nonce

/-- The block and the status of a confirmed transaction satisfy the filters. -/
structure MatchesBlock (row : IndexedTransaction) : Prop where
  blockID : ∀ id ∈ q.blockID, row.blockID = id
  height : ∀ range ∈ q.height, EventQuery.Selects range row.height
  timestamp : ∀ range ∈ q.timestamp, EventQuery.Selects range row.timestamp
  executionStatus : row.executionStatus ∈ q.executionStatuses

instance (tx : Transaction) : Decidable (MatchesOther q currentChainID tx) :=
  decidable_of_iff ((∀ id ∈ q.id, tx.id = id) ∧
      (∀ moduleCommand ∈ q.moduleCommand, tx.moduleCommand = moduleCommand) ∧
      (∀ address ∈ q.senderAddress, tx.senderAddress = address) ∧
      (∀ address ∈ q.recipientAddress, tx.recipientAddress = some address) ∧
      (∀ address ∈ q.address, tx.senderAddress = address ∨ tx.recipientAddress = some address) ∧
      ∀ chainID ∈ q.receivingChainID,
        tx.receivingChainID = if chainID = currentChainID then none else some chainID)
    ⟨fun ⟨h₁, h₂, h₃, h₄, h₅, h₆⟩ => ⟨h₁, h₂, h₃, h₄, h₅, h₆⟩,
      fun ⟨h₁, h₂, h₃, h₄, h₅, h₆⟩ => ⟨h₁, h₂, h₃, h₄, h₅, h₆⟩⟩

instance (tx : Transaction) : Decidable (MatchesNonce q tx) :=
  inferInstanceAs (Decidable (∀ nonce ∈ q.nonce, _))

instance (row : IndexedTransaction) : Decidable (MatchesBlock q row) :=
  decidable_of_iff ((∀ id ∈ q.blockID, row.blockID = id) ∧
      (∀ range ∈ q.height, EventQuery.Selects range row.height) ∧
      (∀ range ∈ q.timestamp, EventQuery.Selects range row.timestamp) ∧
      row.executionStatus ∈ q.executionStatuses)
    ⟨fun ⟨h₁, h₂, h₃, h₄⟩ => ⟨h₁, h₂, h₃, h₄⟩, fun ⟨h₁, h₂, h₃, h₄⟩ => ⟨h₁, h₂, h₃, h₄⟩⟩

/-- The pending transactions that satisfy the filters. They are in no block. -/
def wantedPending (pendingTransactionsList : List Transaction) : List Transaction :=
  if q.inBlock then []
  else pendingTransactionsList.filter fun tx =>
    MatchesOther q currentChainID tx ∧ MatchesNonce q tx

/-- The confirmed transactions that satisfy the filters, in the order that is asked for. -/
def wantedConfirmed (t : TransactionIndex) : List IndexedTransaction :=
  (t.rows.filter fun row => MatchesOther q t.currentChainID row.transaction ∧
    MatchesNonce q row.transaction ∧ MatchesBlock q row).insertionSort fun row row' =>
      before BlockCell.lt (q.sort.toList ++ q.order.toList) (transactionCells row)
        (transactionCells row')

/-- The transactions that are asked for. -/
def wanted (pendingTransactionsList : List Transaction) (t : TransactionIndex) :
    List ListedTransaction :=
  (wantedPending q t.currentChainID pendingTransactionsList).map pendingEntry ++
    (wantedConfirmed q t).map fun row => confirmedEntry row.transaction (some row)

/-- A nonce is given with a sender only, and no range is upside down. -/
structure Valid : Prop where
  nonce : ¬ (q.nonce.isSome ∧ q.senderAddress = none)
  height : q.height.all RangeParam.isValid = true
  timestamp : q.timestamp.all RangeParam.isValid = true

/-- The answer is the page, with the number of all transactions; another request is rejected. -/
def MergedRight (pendingTransactionsList : List Transaction) (t : TransactionIndex) : Prop :=
  (Valid q → getTransactions q pendingTransactionsList t =
      .ok ⟨slice q.offset q.limit (wanted q pendingTransactionsList t),
        (wanted q pendingTransactionsList t).length⟩) ∧
    (¬ Valid q → ∃ message, getTransactions q pendingTransactionsList t = .error message)

end Meaning

/-! ### The pending transactions -/

section PendingAnswer

variable {q : TransactionsQuery} {currentChainID : String} {tx : Transaction}

theorem accepts_iff {p : PendingParams} (h : validatePendingParams q currentChainID = .ok p) :
    p.accepts tx = true ↔ MatchesOther q currentChainID tx := by
  rw [validatePendingParams] at h
  split at h
  · cases h
  · obtain rfl := Except.ok.inj h
    have hchain : ((q.receivingChainID.filter (· ≠ currentChainID)).all
          (tx.receivingChainID = some ·) = true ∧
        (q.receivingChainID = some currentChainID → tx.receivingChainID = none)) ↔
        ∀ chainID ∈ q.receivingChainID,
          tx.receivingChainID = if chainID = currentChainID then none else some chainID := by
      match q.receivingChainID with
      | none => simp
      | some chainID => by_cases hcurrent : chainID = currentChainID <;> simp [hcurrent]
    simp only [PendingParams.accepts, Bool.and_eq_true, Bool.or_eq_true, Option.all_eq_true,
      decide_eq_true_eq, Bool.not_eq_true', decide_eq_false_iff_not, Option.isNone_iff_eq_none,
      Option.mem_def, ← imp_iff_not_or] at hchain ⊢
    constructor
    · rintro ⟨⟨⟨⟨⟨⟨hid, hsender⟩, hrecipient⟩, haddress⟩, hcommand⟩, hreceiving⟩, hcurrent⟩
      exact ⟨hid, hcommand, hsender, hrecipient, haddress, hchain.mp ⟨hreceiving, hcurrent⟩⟩
    · intro h
      obtain ⟨hreceiving, hcurrent⟩ := hchain.mpr h.receivingChainID
      exact ⟨⟨⟨⟨⟨⟨h.id, h.senderAddress⟩, h.recipientAddress⟩, h.address⟩, h.moduleCommand⟩,
        hreceiving⟩, hcurrent⟩

/-- The pending transactions that are found: their nonce is not looked at. -/
def foundPending (q : TransactionsQuery) (currentChainID : String)
    (pendingTransactionsList : List Transaction) : List Transaction :=
  if q.inBlock then []
  else pendingTransactionsList.filter fun tx => MatchesOther q currentChainID tx

theorem getPendingTransactions_eq (h : ¬ (q.nonce.isSome ∧ q.senderAddress = none))
    (currentChainID : String) (pendingTransactionsList : List Transaction) :
    getPendingTransactions q currentChainID pendingTransactionsList =
      .ok ⟨(slice q.offset q.limit
          (foundPending q currentChainID pendingTransactionsList)).map pendingEntry,
        (foundPending q currentChainID pendingTransactionsList).length⟩ := by
  rw [getPendingTransactions, foundPending]
  split_ifs
  · rw [slice_eq_nil_iff.mpr (.inr (Nat.zero_le _))]
    rfl
  · obtain ⟨p, hp⟩ : ∃ p, validatePendingParams q currentChainID = .ok p := by
      rw [validatePendingParams, if_neg h]
      exact ⟨_, rfl⟩
    have hfilter : (pendingTransactionsList.filter p.accepts) =
        pendingTransactionsList.filter fun tx => MatchesOther q currentChainID tx := by
      refine List.filter_congr fun tx _ => ?_
      rw [Bool.eq_iff_iff, decide_eq_true_iff, accepts_iff hp]
    rw [hp, ← hfilter]
    rfl

end PendingAnswer

/-! ### The confirmed transactions -/

section ConfirmedAnswer

variable {q : TransactionsQuery} {t : TransactionIndex} {row : IndexedTransaction}
  {r : Row TransactionColumn BlockCell} {c : TransactionColumn} {limit offset : ℕ}

theorem all_columnIs (value : Option BlockCell) :
    All (whereObject BlockCell.ops (columnIs c value)) r ↔ ∀ v ∈ value, r c = some v := by
  cases value with
  | none => simp [columnIs, whereObject, All]
  | some v =>
    cases hcell : r c <;>
      simp [columnIs, whereObject, All, whereEq, Sql.compare, BlockCell.ops, hcell]

theorem all_textIs {x : String} (hcell : r c = some (.text x)) (text : Option String) :
    All (whereObject BlockCell.ops (columnIs c (text.map .text))) r ↔ ∀ s ∈ text, x = s := by
  rw [all_columnIs, hcell]
  simp

theorem all_range {param : Option RangeParam} {x : ℕ} (hparam : param ≠ some (.range none none))
    (hcell : r c = some (.number x)) :
    (All (whereObject BlockCell.ops (RangeParam.equals c param)) r ∧
      All ((RangeParam.between c param).flatMap (propBetween BlockCell.ops)) r) ↔
        ∀ range ∈ param, EventQuery.Selects range x := by
  match param with
  | none => simp [RangeParam.equals, RangeParam.between, whereObject, All]
  | some (.value n) =>
    simp [RangeParam.equals, RangeParam.between, whereObject, All, whereEq, Sql.compare, hcell,
      BlockCell.ops, EventQuery.Selects]
  | some (.range none none) => exact absurd rfl hparam
  | some (.range none (some upper)) =>
    simp [RangeParam.equals, RangeParam.between, RangeParam.propBetween, propBetween, whereObject,
      All, Sql.compare, hcell, BlockCell.ops, BlockCell.le, EventQuery.Selects]
  | some (.range (some lower) none) =>
    simp [RangeParam.equals, RangeParam.between, RangeParam.propBetween, propBetween, whereObject,
      All, Sql.compare, hcell, BlockCell.ops, BlockCell.le, EventQuery.Selects]
  | some (.range (some lower) (some upper)) =>
    simp [RangeParam.equals, RangeParam.between, RangeParam.propBetween, propBetween, whereObject,
      All, Sql.compare, hcell, BlockCell.ops, BlockCell.le, EventQuery.Selects]

/-- Without a receiving chain, or with the given one. -/
theorem all_receivingChainID (receivingChainID : Option String) (currentChainID : String) :
    All (whereObject BlockCell.ops (receivingChainID.map fun chainID =>
      (TransactionColumn.receivingChainID, if chainID = currentChainID then none
        else some (BlockCell.text chainID))).toList) (transactionCells row) ↔
      ∀ chainID ∈ receivingChainID, row.transaction.receivingChainID =
        if chainID = currentChainID then none else some chainID := by
  cases receivingChainID with
  | none => simp [whereObject, All]
  | some chainID =>
    by_cases hcurrent : chainID = currentChainID <;>
      cases hrow : row.transaction.receivingChainID <;>
        simp [whereObject, All, whereEq, isNull, Sql.compare, BlockCell.ops, transactionCells,
          hcurrent, hrow]

/-- Sent by the address, or to it. -/
theorem all_address (address : String) :
    All (QueryBuilder.group (orWhereClauses BlockCell.ops
      [(TransactionColumn.recipientAddress, some (.text address))]
      [(.senderAddress, some (.text address))])) (transactionCells row) ↔
      row.transaction.senderAddress = address ∨
        row.transaction.recipientAddress = some address := by
  let ops : FilterOps BlockCell := ⟨BlockCell.ops, fun _ _ => false⟩
  refine (all_orWhereClauses : All (QueryBuilder.group (orWhereClauses ops.toOps _ _)) _ ↔ _).trans
    ?_
  rw [EitherObject]
  cases hrow : row.transaction.recipientAddress <;>
    simp [ops, whereObject, All, whereEq, Sql.compare, BlockCell.ops, transactionCells, hrow,
      or_comm]

/-- `address` comes to the other filters. -/
theorem meets_tableParams_iff :
    (tableParams q t limit offset).Meets BlockCell.ops (transactionCells row) ↔
      (columnParams q t limit offset).Meets BlockCell.ops (transactionCells row) ∧
        ∀ address ∈ q.address, row.transaction.senderAddress = address ∨
          row.transaction.recipientAddress = some address := by
  rw [tableParams]
  cases q.address with
  | none => exact (and_iff_left fun address h => absurd h (Option.not_mem_none address)).symm
  | some address =>
    rw [Option.map_some, meets_orWhere rfl, all_address]
    simp

theorem all_executionStatus (h : "any" ∉ q.executionStatuses) :
    QueryBuilder.whereIn BlockCell.ops TransactionColumn.executionStatus
      (((q.executionStatuses.filter (· ≠ "any")).map .text).map some) (transactionCells row) =
        some true ↔ row.executionStatus ∈ q.executionStatuses := by
  have hall : q.executionStatuses.filter (· ≠ "any") = q.executionStatuses := by
    rw [List.filter_eq_self]
    intro status hstatus
    simpa using fun heq : status = "any" => h (heq ▸ hstatus)
  rw [hall, whereIn_eq_true fun x y => beq_iff_eq]
  simp [transactionCells]

theorem meets_columnParams :
    (columnParams q t limit offset).Meets BlockCell.ops (transactionCells row) ↔
      ((∀ id ∈ q.id, row.transaction.id = id) ∧
        (∀ moduleCommand ∈ q.moduleCommand, row.transaction.moduleCommand = moduleCommand) ∧
        (∀ address ∈ q.senderAddress, row.transaction.senderAddress = address) ∧
        (∀ address ∈ q.recipientAddress, row.transaction.recipientAddress = some address) ∧
        ∀ chainID ∈ q.receivingChainID, row.transaction.receivingChainID =
          if chainID = t.currentChainID then none else some chainID) ∧
      MatchesNonce q row.transaction ∧ MatchesBlock q row := by
  have hnil : All ([] : List (Cond TransactionColumn BlockCell)) (transactionCells row) :=
    fun c hc => absurd hc List.not_mem_nil
  have hheight := all_range (c := .height) (r := transactionCells row) q.height_ne rfl
  have htimestamp := all_range (c := .timestamp) (r := transactionCells row) q.timestamp_ne rfl
  have hrecipient : All (whereObject BlockCell.ops (columnIs .recipientAddress
      (q.recipientAddress.map .text))) (transactionCells row) ↔
      ∀ address ∈ q.recipientAddress, row.transaction.recipientAddress = some address := by
    rw [all_columnIs]
    simp [transactionCells]
  have hnonce : All (whereObject BlockCell.ops (columnIs .nonce (q.nonce.map .number)))
      (transactionCells row) ↔ MatchesNonce q row.transaction := by
    rw [all_columnIs]
    simp [transactionCells, MatchesNonce]
  rw [columnParams, meets_iff]
  simp only [all_whereObject_append, List.flatMap_append, all_append, List.forall_mem_singleton,
    all_executionStatus q.not_any, all_receivingChainID, hrecipient, hnonce,
    all_textIs (c := .id) (r := transactionCells row) rfl,
    all_textIs (c := .moduleCommand) (r := transactionCells row) rfl,
    all_textIs (c := .senderAddress) (r := transactionCells row) rfl,
    all_textIs (c := .blockID) (r := transactionCells row) rfl]
  constructor
  · rintro ⟨⟨⟨⟨⟨⟨⟨⟨⟨hid, hcommand⟩, hsender⟩, hrecipient⟩, hchain⟩, hnonce⟩, hblock⟩, hheight'⟩,
      htimestamp'⟩, ⟨hheights, htimestamps⟩, hstatus, -⟩
    exact ⟨⟨hid, hcommand, hsender, hrecipient, hchain⟩, hnonce, hblock,
      hheight.mp ⟨hheight', hheights⟩, htimestamp.mp ⟨htimestamp', htimestamps⟩, hstatus⟩
  · rintro ⟨⟨hid, hcommand, hsender, hrecipient, hchain⟩, hnonce, hblock⟩
    obtain ⟨hheight', hheights⟩ := hheight.mpr hblock.height
    obtain ⟨htimestamp', htimestamps⟩ := htimestamp.mpr hblock.timestamp
    exact ⟨⟨⟨⟨⟨⟨⟨⟨⟨hid, hcommand⟩, hsender⟩, hrecipient⟩, hchain⟩, hnonce⟩, hblock.blockID⟩,
      hheight'⟩, htimestamp'⟩, ⟨hheights, htimestamps⟩, hblock.executionStatus, hnil, hnil⟩

theorem meets_tableParams :
    (tableParams q t limit offset).Meets BlockCell.ops (transactionCells row) ↔
      MatchesOther q t.currentChainID row.transaction ∧ MatchesNonce q row.transaction ∧
        MatchesBlock q row := by
  rw [meets_tableParams_iff, meets_columnParams]
  constructor
  · rintro ⟨⟨⟨hid, hcommand, hsender, hrecipient, hchain⟩, hnonce, hblock⟩, haddress⟩
    exact ⟨⟨hid, hcommand, hsender, hrecipient, haddress, hchain⟩, hnonce, hblock⟩
  · rintro ⟨hother, hnonce, hblock⟩
    exact ⟨⟨⟨hother.id, hother.moduleCommand, hother.senderAddress, hother.recipientAddress,
      hother.receivingChainID⟩, hnonce, hblock⟩, hother.address⟩

/-- The table answers with a page of the confirmed transactions that are asked for. -/
theorem findRecords_tableParams (q : TransactionsQuery) (t : TransactionIndex)
    (limit offset : ℕ) :
    t.table.findRecords BlockCell.ops (tableParams q t limit offset) =
        slice offset limit (wantedConfirmed q t) ∧
      t.table.countRecords BlockCell.ops (tableParams q t limit offset) =
        (wantedConfirmed q t).length := by
  have hkeys : ∀ key ∈ (tableParams q t limit offset).orderKeys,
      t.table.nullable key.1 = false := by
    intro key hkey
    rcases List.mem_append.mp hkey with hsort | horder
    · have hmem := q.sort_mem key (Option.mem_toList.mp hsort)
      simp only [List.mem_cons, List.not_mem_nil, or_false] at hmem
      rcases hmem with heq | heq <;> rw [heq] <;> rfl
    · rw [q.order_mem key (Option.mem_toList.mp horder)]
      rfl
  have hfilter : (t.rows.filter fun row =>
      (tableParams q t limit offset).Meets BlockCell.ops (transactionCells row)) =
        t.rows.filter fun row => MatchesOther q t.currentChainID row.transaction ∧
          MatchesNonce q row.transaction ∧ MatchesBlock q row :=
    List.filter_congr fun row _ => decide_eq_decide.mpr meets_tableParams
  constructor
  · rw [RecordTable.findRecords, RecordTable.select_eq ⟨rfl, rfl⟩ hkeys, wantedConfirmed, ← hfilter]
    rfl
  · rw [RecordTable.countRecords, wantedConfirmed, List.length_insertionSort, ← hfilter]
    rfl

/-- Batch by batch, the connector is asked for all IDs. -/
theorem getTransactionsByIDs_eq (ids : List String) :
    getTransactionsByIDs t ids = ids.map t.node := by
  have hbatches : ids.length ≤ (ids.length + (batchSize - 1)) / batchSize * batchSize := by
    have hdiv := Nat.div_add_mod (ids.length + (batchSize - 1)) batchSize
    have hmod := Nat.mod_lt (ids.length + (batchSize - 1)) (show 0 < batchSize by decide)
    simp only [batchSize] at *
    omega
  rw [getTransactionsByIDs]
  simp only [← slice_map]
  rw [flatMap_slice, List.take_of_length_le (by rwa [List.length_map])]

theorem mem_of_mem_wantedConfirmed (h : row ∈ wantedConfirmed q t) : row ∈ t.rows := by
  rw [wantedConfirmed, List.mem_insertionSort] at h
  exact (List.mem_filter.mp h).1

theorem nodup_slice_wantedConfirmed (limit offset : ℕ) :
    ((slice offset limit (wantedConfirmed q t)).map fun row => row.transaction.id).Nodup := by
  have hpage : (slice offset limit (wantedConfirmed q t)).Sublist (wantedConfirmed q t) :=
    (List.take_sublist _ _).trans (List.drop_sublist _ _)
  refine (hpage.map _).nodup ?_
  rw [wantedConfirmed, ((List.perm_insertionSort _ _).map _).nodup_iff]
  exact (List.filter_sublist.map _).nodup t.nodup

theorem validateParams_eq (h : Valid q) (limit offset : ℕ) :
    validateParams q t limit offset = .ok (tableParams q t limit offset) := by
  rw [validateParams, checkRange, checkRange, if_pos h.height, if_pos h.timestamp, if_neg h.nonce]
  rfl

/-- **A page of the confirmed transactions**, with what the index knows about each of them. -/
theorem getConfirmedTransactions_eq (h : Valid q) (limit offset : ℕ) :
    getConfirmedTransactions q t limit offset =
      .ok ⟨slice offset limit ((wantedConfirmed q t).map fun row =>
        confirmedEntry row.transaction (some row)), (wantedConfirmed q t).length⟩ := by
  obtain ⟨hfind, hcount⟩ := findRecords_tableParams q t limit offset
  have hentries : ((slice offset limit (wantedConfirmed q t)).map fun row =>
      confirmedEntry (t.node row.transaction.id) ((slice offset limit (wantedConfirmed q t)).find?
        fun txInfo => txInfo.transaction.id = (t.node row.transaction.id).id)) =
      slice offset limit ((wantedConfirmed q t).map fun row =>
        confirmedEntry row.transaction (some row)) := by
    rw [slice_map]
    refine List.map_congr_left fun row hrow => ?_
    have hmem : row ∈ wantedConfirmed q t := List.mem_of_mem_drop (List.mem_of_mem_take hrow)
    rw [t.node_eq row (mem_of_mem_wantedConfirmed hmem),
      find?_of_nodup (nodup_slice_wantedConfirmed limit offset) hrow]
  rw [getConfirmedTransactions, validateParams_eq h]
  simp only [bind, Except.bind, hfind, hcount, getTransactionsByIDs_eq, List.map_map]
  rw [← hentries]
  rfl

theorem exists_getConfirmedTransactions_error (h : ¬ Valid q) (limit offset : ℕ) :
    ∃ message, getConfirmedTransactions q t limit offset = .error message := by
  rw [getConfirmedTransactions, validateParams, checkRange, checkRange]
  by_cases hheight : q.height.all RangeParam.isValid = true
  · by_cases htimestamp : q.timestamp.all RangeParam.isValid = true
    · have hnonce : q.nonce.isSome ∧ q.senderAddress = none := by
        by_contra hnot
        exact h ⟨hnot, hheight, htimestamp⟩
      rw [if_pos hheight, if_pos htimestamp, if_pos hnonce]
      exact ⟨_, rfl⟩
    · rw [if_pos hheight, if_neg htimestamp]
      exact ⟨_, rfl⟩
  · rw [if_neg hheight]
    exact ⟨_, rfl⟩

end ConfirmedAnswer

/-! ### The pages -/

section Pages

variable {q : TransactionsQuery} {pendingTransactionsList : List Transaction}
  {t : TransactionIndex}

/-- How many pending transactions are on the page. -/
def onPage (pending offset limit : ℕ) : ℕ := min limit (pending - offset)

/-- **The merged page**: what is left of the page for confirmed transactions is cut to the limit for
the table. -/
theorem getTransactions_eq (h : Valid q) :
    let found := foundPending q t.currentChainID pendingTransactionsList
    let confirmed := (wantedConfirmed q t).map fun row => confirmedEntry row.transaction (some row)
    let shown := onPage found.length q.offset q.limit
    getTransactions q pendingTransactionsList t =
      .ok ⟨slice q.offset q.limit (found.map pendingEntry) ++ slice (q.offset - found.length)
          (min (q.limit - shown) (max 1 (q.limit - (found.length - shown)))) confirmed,
        found.length + confirmed.length⟩ := by
  intro found confirmed shown
  have hshown : (slice q.offset q.limit (found.map pendingEntry)).length = shown := by
    rw [length_slice, List.length_map]
    rfl
  have hdata : ∀ rest : List ListedTransaction,
      (if shown = q.limit then slice q.offset q.limit (found.map pendingEntry)
        else slice 0 q.limit (slice q.offset q.limit (found.map pendingEntry) ++ rest)) =
      slice q.offset q.limit (found.map pendingEntry) ++ slice 0 (q.limit - shown) rest := by
    intro rest
    have hle : shown ≤ q.limit := Nat.min_le_left _ _
    split_ifs with hfull
    · rw [hfull, Nat.sub_self, slice_eq_nil_iff.mpr (.inl rfl), List.append_nil]
    · rw [slice_zero_append (by rwa [hshown]), hshown]
  have hlength : confirmed.length = (wantedConfirmed q t).length := List.length_map _
  have hpending := getPendingTransactions_eq h.nonce t.currentChainID pendingTransactionsList
  rw [getTransactions, if_pos q.isIncludePending, mergeTransactions, hpending, ← slice_map]
  simp only [bind, Except.bind, pure, Except.pure, getConfirmedTransactions_eq h]
  rw [hshown, hdata, slice_zero_slice_min, hlength]

/-- A request that is not valid is rejected. -/
theorem exists_getTransactions_error (h : ¬ Valid q) :
    ∃ message, getTransactions q pendingTransactionsList t = .error message := by
  rw [getTransactions, if_pos q.isIncludePending, mergeTransactions, getPendingTransactions]
  by_cases hblock : q.inBlock = true
  · obtain ⟨message, hmessage⟩ := exists_getConfirmedTransactions_error (t := t) h
      (max 1 (q.limit - (0 - 0))) (q.offset - 0)
    refine ⟨message, ?_⟩
    rw [if_pos hblock]
    simp only [bind, Except.bind, List.length_nil, hmessage, if_true]
  · have hnone : q.blockID = none ∧ q.timestamp = none ∧ q.height = none := by
      simpa [TransactionsQuery.inBlock, and_assoc] using hblock
    have hnonce : q.nonce.isSome ∧ q.senderAddress = none := by
      by_contra hnot
      exact h ⟨hnot, by rw [hnone.2.2]; rfl, by rw [hnone.2.1]; rfl⟩
    rw [if_neg hblock, validatePendingParams, if_pos hnonce]
    exact ⟨_, rfl⟩

theorem wantedPending_eq : wantedPending q t.currentChainID pendingTransactionsList =
    (foundPending q t.currentChainID pendingTransactionsList).filter
      fun tx => MatchesNonce q tx := by
  rw [wantedPending, foundPending]
  split_ifs
  · rfl
  · rw [List.filter_filter]
    refine List.filter_congr fun tx _ => ?_
    rw [← Bool.decide_and]
    exact decide_eq_decide.mpr and_comm

theorem forall_mem_foundPending_iff :
    (∀ tx ∈ foundPending q t.currentChainID pendingTransactionsList, MatchesNonce q tx) ↔
      (q.inBlock = false → ∀ tx ∈ pendingTransactionsList,
        MatchesOther q t.currentChainID tx → MatchesNonce q tx) := by
  rw [foundPending]
  cases q.inBlock <;> simp

end Pages

/-- The page has at most one place for a confirmed transaction, or half of the pending ones are on
the page, or no more confirmed ones are left than are asked for. -/
def PageFits (pending confirmed offset limit : ℕ) : Prop :=
  limit ≤ onPage pending offset limit + 1 ∨ pending ≤ 2 * onPage pending offset limit ∨
    confirmed - (offset - pending) ≤ max 1 (limit - (pending - onPage pending offset limit))

/-- What is cut from the page is nothing if and only if the page fits. -/
theorem merged_page_iff {α : Type} (pending confirmed : List α) (offset limit : ℕ) :
    slice offset limit pending ++ slice (offset - pending.length)
        (min (limit - onPage pending.length offset limit)
          (max 1 (limit - (pending.length - onPage pending.length offset limit)))) confirmed =
      slice offset limit (pending ++ confirmed) ↔
    PageFits pending.length confirmed.length offset limit := by
  have hshown : (slice offset limit pending).length = onPage pending.length offset limit :=
    length_slice
  have hle : onPage pending.length offset limit ≤ limit := Nat.min_le_left _ _
  -- When the limit for the table is no less than what is left of the page.
  have hroom : limit - onPage pending.length offset limit ≤
        max 1 (limit - (pending.length - onPage pending.length offset limit)) ↔
      limit ≤ onPage pending.length offset limit + 1 ∨
        pending.length ≤ 2 * onPage pending.length offset limit := by
    rw [le_max_iff]
    omega
  rw [slice_append, hshown, List.append_cancel_left_eq, slice_limit_eq_iff, PageFits, ← or_assoc,
    ← hroom, inf_right_comm, inf_eq_left, inf_le_iff]

/-- **Pending transactions before confirmed ones.** A valid request is answered with its page and
the number of all transactions if and only if the pending transactions that satisfy the other
filters have the nonce that is asked for, and what the page has of the confirmed ones fits into the
limit for the table. -/
theorem merge_transactions_iff (q : TransactionsQuery) (pendingTransactionsList : List Transaction)
    (t : TransactionIndex) :
    MergedRight q pendingTransactionsList t ↔
      (Valid q →
        (q.inBlock = false → ∀ tx ∈ pendingTransactionsList,
          MatchesOther q t.currentChainID tx → MatchesNonce q tx) ∧
        PageFits (wantedPending q t.currentChainID pendingTransactionsList).length
          (wantedConfirmed q t).length q.offset q.limit) := by
  rw [MergedRight, and_iff_left fun h => exists_getTransactions_error h]
  refine forall_congr' fun hvalid => ?_
  rw [getTransactions_eq hvalid, ← forall_mem_foundPending_iff, wanted, wantedPending_eq]
  generalize foundPending q t.currentChainID pendingTransactionsList = found
  have hpage := merged_page_iff (found.map pendingEntry) ((wantedConfirmed q t).map fun row =>
    confirmedEntry row.transaction (some row)) q.offset q.limit
  rw [List.length_map, List.length_map] at hpage
  have hself : (∀ tx ∈ found, MatchesNonce q tx) →
      (found.filter fun tx => MatchesNonce q tx) = found :=
    fun hnonce => List.filter_eq_self.mpr fun tx htx => decide_eq_true (hnonce tx htx)
  constructor
  · intro h
    obtain ⟨hdata, htotal⟩ := TransactionsAnswer.mk.inj (Except.ok.inj h)
    rw [List.length_append, Nat.add_right_cancel_iff, List.length_map, eq_comm,
      List.length_filter_eq_length_iff] at htotal
    have hnonce : ∀ tx ∈ found, MatchesNonce q tx :=
      fun tx htx => of_decide_eq_true (htotal tx htx)
    rw [hself hnonce] at hdata ⊢
    exact ⟨hnonce, hpage.mp hdata⟩
  · rintro ⟨hnonce, hfits⟩
    rw [hself hnonce] at hfits ⊢
    rw [hpage.mpr hfits, List.length_append, List.length_map pendingEntry]

/-- A transaction without a recipient. -/
def transactionOf (id : String) : Transaction where
  id := id
  moduleCommand := "pos:claimRewards"
  nonce := 0
  senderAddress := "klyv"
  recipientAddress := none
  receivingChainID := none
  receivingChainID_ne := by decide

/-- Three confirmed transactions. -/
def threeConfirmed : TransactionIndex where
  rows := [⟨transactionOf "c", "block3", 3, 30, 0, "successful"⟩,
    ⟨transactionOf "b", "block2", 2, 20, 0, "successful"⟩,
    ⟨transactionOf "a", "block1", 1, 10, 0, "successful"⟩]
  nodup := by decide
  currentChainID := "00000000"
  node := transactionOf
  node_eq := by decide

/-- The second page of two transactions, by the defaults. -/
def secondPage : TransactionsQuery where
  id := none
  moduleCommand := none
  senderAddress := none
  recipientAddress := none
  address := none
  receivingChainID := none
  nonce := none
  blockID := none
  height := none
  timestamp := none
  executionStatuses := ["pending", "successful", "failed"]
  sort := some (.timestamp, .desc)
  order := some (.index, .asc)
  offset := 2
  limit := 2
  isIncludePending := by decide
  not_any := by decide
  given_ne := by decide
  height_ne := EventQuery.none_ne_range
  timestamp_ne := EventQuery.none_ne_range
  sort_mem := by decide
  order_mem := by decide
  limit_pos := by decide

/-- After one pending transaction on the first page, the second page is short. -/
theorem second_page_short :
    (getTransactions secondPage [transactionOf "p"] threeConfirmed).map
        (fun answer => (answer.data.map fun entry => entry.transaction.id, answer.total)) =
      .ok (["b"], 4) ∧
    (slice 2 2 (wanted secondPage [transactionOf "p"] threeConfirmed)).map
        (fun entry => entry.transaction.id) = ["b", "a"] ∧
    ¬ MergedRight secondPage [transactionOf "p"] threeConfirmed := by
  have hshort : (getTransactions secondPage [transactionOf "p"] threeConfirmed).map
      (fun answer => (answer.data.map fun entry => entry.transaction.id, answer.total)) =
        .ok (["b"], 4) := by decide +kernel
  have hpage : (slice 2 2 (wanted secondPage [transactionOf "p"] threeConfirmed)).map
      (fun entry => entry.transaction.id) = ["b", "a"] := by decide +kernel
  refine ⟨hshort, hpage, fun h => ?_⟩
  have hvalid : Valid secondPage := ⟨by decide, by decide, by decide⟩
  have hanswer := h.1 hvalid
  rw [hanswer] at hshort
  have hids := (Prod.mk.inj (Except.ok.inj hshort)).1
  exact absurd (hpage.symm.trans hids) (by decide)

end MergeTransactions

end SwaptoshiService
