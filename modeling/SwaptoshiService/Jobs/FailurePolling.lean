import Mathlib.Order.Lattice.Nat
import SwaptoshiService.Jobs.BlocksTable

/-!
# Polling after a failed job

When `indexBlock` or `deleteIndexedBlocks` (`indexer/blockchainIndex.js`) fails, its `catch` branch
rolls the transaction back and then polls the table `blocks` with `waitForIt` until the rollback can
be seen: for an indexed block **no row** at its height, for deleted blocks **some row** with one of
their identifiers. The branch does not know how far the job got. A commit that has taken effect is
not undone by the rollback, and a deletion job that matched no row has no identifiers.

`polling_ends_iff`: the polled condition holds, and hence the polling ends, if and only if the job
failed before its commit and, for a deletion, had a row to delete.
-/

namespace SwaptoshiService

/-- `DB_STATUS`. -/
inductive DBStatus
  | commit
  | rollback
  deriving DecidableEq, Repr

/-- `checkBlockHeightIndexStatusInDB(blockHeight, status)`; `false` stands for `undefined`. -/
def checkBlockHeightIndexStatusInDB (blockHeight : ℕ) (status : DBStatus) (db : DB) : Bool :=
  let row : Option BlockRow := db.get (.block blockHeight)
  match status with
  | .commit => row.isSome
  | .rollback => row.isNone

/-- `blocksTable.find({ whereIn: { property: 'id', values } })`. -/
def blocksByIDs (blockIDs : List BlockID) (db : DB) : List BlockRow :=
  ((List.range (db.keys.sup Cell.height + 1)).filterMap
    fun h => (db.get (.block h) : Option BlockRow)).filter fun r => blockIDs.contains r.id

/-- `checkBlockIDsDeleteStatusInDB(blockIDs, status)`. -/
def checkBlockIDsDeleteStatusInDB (blockIDs : List BlockID) (status : DBStatus) (db : DB) : Bool :=
  let numResults := (blocksByIDs blockIDs db).length
  match status with
  | .commit => numResults == 0
  | .rollback => numResults != 0

/-- Where a job with an open transaction fails: before its commit, by an outside fault after some
number of steps or by an error of its own, or after the commit has taken effect. -/
inductive FailurePoint
  | beforeCommit (fault : Option ℕ)
  | afterCommit
  deriving DecidableEq, Repr

/-- `indexBlock` fails after `startDBTransaction`: the height that is polled, and the tables that
the attempted rollback leaves. `none` if it does not fail there. -/
def indexBlockFailure (env : Env) (order : List ℕ) (node : NodeView) (assets : GenesisAssets)
    (events : Block → List Event) (point : FailurePoint) (jobHeight : ℕ) (db : DB) :
    Option (ℕ × DB) :=
  match chooseBlock env node jobHeight db with
  | .ok (.index block) =>
    match point with
    | .beforeCommit fault =>
      match indexBlock env order node assets events fault jobHeight db with
      | (.error _, db') => some (block.header.height, db')
      | (.ok _, _) => none
    -- The rollback of a committed transaction has no effect.
    | .afterCommit =>
      match indexBlock env order node assets events none jobHeight db with
      | (.error _, _) => none
      | (.ok _, db') => some (block.header.height, db')
  | _ => none

/-- `deleteIndexedBlocks` fails: the identifiers that are polled, and the tables that the attempted
rollback leaves. -/
def deleteIndexedBlocksFailure (env : Env) (view : DeletionView) (point : FailurePoint)
    (heights : List ℕ) (db : DB) : Option (List BlockID × DB) :=
  let blockIDs := (getBlocksToDelete heights db).map (·.2.id)
  match point with
  | .beforeCommit fault =>
    match deleteIndexedBlocks env view fault heights db with
    | (.error _, db') => some (blockIDs, db')
    | (.ok _, _) => none
  | .afterCommit =>
    match deleteIndexedBlocks env view none heights db with
    | (.error _, _) => none
    | (.ok _, db') => some (blockIDs, db')

/-! ### The polled conditions -/

theorem mem_blocksByIDs {blockIDs : List BlockID} {db : DB} {r : BlockRow} :
    r ∈ blocksByIDs blockIDs db ↔ ∃ h, db.get (.block h) = some r ∧ r.id ∈ blockIDs := by
  rw [blocksByIDs, List.mem_filter, List.mem_filterMap]
  constructor
  · rintro ⟨⟨h, -, hr⟩, hid⟩
    exact ⟨h, hr, List.contains_iff_mem.1 hid⟩
  · rintro ⟨h, hr, hid⟩
    have hsome : (db.get (.block h)).isSome := by
      rw [hr]
      rfl
    have hrange := height_mem_range hsome
    exact ⟨⟨h, List.mem_range.2 hrange, hr⟩, List.contains_iff_mem.2 hid⟩

theorem checkBlockIDsDeleteStatusInDB_rollback {blockIDs : List BlockID} {db : DB} :
    checkBlockIDsDeleteStatusInDB blockIDs .rollback db = true ↔
      ∃ h r, db.get (.block h) = some r ∧ r.id ∈ blockIDs := by
  rw [checkBlockIDsDeleteStatusInDB, bne_iff_ne, Ne, List.length_eq_zero_iff]
  constructor
  · intro hne
    obtain ⟨r, hr⟩ := List.exists_mem_of_ne_nil _ hne
    obtain ⟨h, hrow, hid⟩ := mem_blocksByIDs.1 hr
    exact ⟨h, r, hrow, hid⟩
  · rintro ⟨h, r, hrow, hid⟩
    exact List.ne_nil_of_mem (mem_blocksByIDs.2 ⟨h, hrow, hid⟩)

/-- Everything above the last row that is found is empty. -/
private theorem find?_reverse_range {p : ℕ → Bool} {n m : ℕ}
    (h : (List.range n).reverse.find? p = some m) {k : ℕ} (hk : m < k) (hkn : k < n) :
    p k = false := by
  induction n with
  | zero => omega
  | succ n ih =>
    rw [List.range_succ, List.reverse_append, List.reverse_singleton, List.singleton_append,
      List.find?_cons] at h
    split at h
    · obtain rfl := Option.some.inj h
      omega
    · rename_i hn
      rcases Nat.lt_succ_iff_lt_or_eq.1 hkn with hlt | rfl
      · exact ih h hlt
      · simpa using hn

/-- No row is at the height that is indexed next. -/
theorem get_heightToIndex (db : DB) (jobHeight : ℕ) :
    db.get (.block (heightToIndex db jobHeight)) = none := by
  by_contra hne
  have hsome : (db.get (.block (heightToIndex db jobHeight))).isSome :=
    Option.isSome_iff_ne_none.2 hne
  have hrange := height_mem_range hsome
  rcases hlast : lastIndexedHeight db with _ | last
  · rw [lastIndexedHeight] at hlast
    have hnone := List.find?_eq_none.1 hlast _ (by simpa using hrange)
    exact hnone hsome
  · have hheight : heightToIndex db jobHeight = last + 1 := by rw [heightToIndex, hlast]
    rw [lastIndexedHeight] at hlast
    have hfalse := find?_reverse_range hlast (k := heightToIndex db jobHeight) (by omega) hrange
    rw [hsome] at hfalse
    exact absurd hfalse Bool.noConfusion

/-! ### Failed jobs -/

variable {env : Env} {order : List ℕ} {node : NodeView} {assets : GenesisAssets}
  {events : Block → List Event} {view : DeletionView} {point : FailurePoint} {db db' : DB}

/-- The polling after a failed `indexBlock`. -/
theorem indexBlock_polling {jobHeight blockHeight : ℕ}
    (hnode : ∀ height block, node.block height = some block → block.header.height = height)
    (h : indexBlockFailure env order node assets events point jobHeight db =
      some (blockHeight, db')) :
    checkBlockHeightIndexStatusInDB blockHeight .rollback db' = true ↔ point ≠ .afterCommit := by
  rw [indexBlockFailure] at h
  split at h
  case h_2 => exact absurd h (by simp)
  rename_i block hchoose
  have hheight : block.header.height = heightToIndex db jobHeight :=
    hnode _ _ (chooseBlock_index hchoose).1
  cases point with
  | beforeCommit fault =>
    rcases indexBlock_blocks env order node assets events fault jobHeight db with
      ⟨_, db'', -, heq, -⟩ | ⟨r, db'', heq, -, hsame⟩
    · simp only [heq] at h
      exact absurd h (by simp)
    · simp only [heq] at h
      cases r with
      | ok decision => exact absurd h (by simp)
      | error e =>
        obtain ⟨rfl, rfl⟩ := Prod.mk.inj (Option.some.inj h)
        refine iff_of_true ?_ (by simp)
        -- The rollback leaves no row at the height that was to be indexed.
        rw [checkBlockHeightIndexStatusInDB, hsame, hheight, get_heightToIndex]
        rfl
  | afterCommit =>
    rcases indexBlock_blocks env order node assets events none jobHeight db with
      ⟨block', db'', hchoose', heq, hrow, -⟩ | ⟨r, db'', heq, hr, -⟩
    · simp only [heq] at h
      obtain ⟨rfl, rfl⟩ := Prod.mk.inj (Option.some.inj h)
      obtain rfl : block = block' := by simpa using hchoose.symm.trans hchoose'
      refine iff_of_false ?_ (by simp)
      rw [checkBlockHeightIndexStatusInDB, hrow]
      exact Bool.noConfusion
    · have hind : ∃ r' : Except Failure Unit,
          r = Except.map (fun _ => Decision.index block) r' := by
        rw [indexBlock, hchoose] at heq
        exact ⟨_, (Prod.ext_iff.1 heq).1.symm⟩
      obtain ⟨r', rfl⟩ := hind
      cases r' with
      | ok => exact absurd rfl (hr block)
      | error e =>
        simp only [heq, Except.map] at h
        exact absurd h (by simp)

/-- The polling after a failed `deleteIndexedBlocks`. -/
theorem deleteIndexedBlocks_polling {heights : List ℕ} {blockIDs : List BlockID}
    (h : deleteIndexedBlocksFailure env view point heights db = some (blockIDs, db')) :
    checkBlockIDsDeleteStatusInDB blockIDs .rollback db' = true ↔
      point ≠ .afterCommit ∧ getBlocksToDelete heights db ≠ [] := by
  rw [checkBlockIDsDeleteStatusInDB_rollback]
  cases point with
  | beforeCommit fault =>
    rcases deleteIndexedBlocks_blocks env view fault heights db with
      ⟨db'', heq, -⟩ | ⟨e, db'', heq, hsame⟩
    · simp only [deleteIndexedBlocksFailure, heq] at h
      exact absurd h (by simp)
    · simp only [deleteIndexedBlocksFailure, heq] at h
      obtain ⟨rfl, rfl⟩ := Prod.mk.inj (Option.some.inj h)
      constructor
      · rintro ⟨height, r, hrow, hid⟩
        refine ⟨by simp, fun hnil => ?_⟩
        rw [hnil] at hid
        exact absurd hid List.not_mem_nil
      · rintro ⟨-, hne⟩
        obtain ⟨⟨height, r⟩, hmem⟩ := List.exists_mem_of_ne_nil _ hne
        obtain ⟨_, -, -, hrow⟩ := mem_getBlocksToDelete.1 hmem
        exact ⟨height, r, (hsame height).trans hrow, List.mem_map_of_mem hmem⟩
  | afterCommit =>
    rcases deleteIndexedBlocks_blocks env view none heights db with
      ⟨db'', heq, hrows⟩ | ⟨e, db'', heq, -⟩
    · simp only [deleteIndexedBlocksFailure, heq] at h
      obtain ⟨rfl, rfl⟩ := Prod.mk.inj (Option.some.inj h)
      refine iff_of_false ?_ (by simp)
      -- The rows with these ids are gone with the commit.
      rintro ⟨height, r, hrow, hid⟩
      rw [hrows height] at hrow
      obtain ⟨r', -, hr'⟩ := Option.bind_eq_some_iff.1 hrow
      split at hr'
      · exact absurd hr' (by simp)
      · rename_i hnot
        obtain rfl := Option.some.inj hr'
        exact hnot (List.contains_iff_mem.2 hid)
    · simp only [deleteIndexedBlocksFailure, heq] at h
      exact absurd h (by simp)

/-- **When the polling ends.** In the tables that the attempted rollback leaves, the polled
condition holds if and only if the job failed before its commit and, for a deletion, had a row to
delete. -/
theorem polling_ends_iff (env : Env) (order : List ℕ) (node : NodeView) (assets : GenesisAssets)
    (events : Block → List Event) (view : DeletionView) (point : FailurePoint) (db db' : DB)
    (hnode : ∀ height block, node.block height = some block → block.header.height = height) :
    (∀ jobHeight blockHeight,
      indexBlockFailure env order node assets events point jobHeight db = some (blockHeight, db') →
      (checkBlockHeightIndexStatusInDB blockHeight .rollback db' = true ↔
        point ≠ .afterCommit)) ∧
    ∀ heights blockIDs,
      deleteIndexedBlocksFailure env view point heights db = some (blockIDs, db') →
      (checkBlockIDsDeleteStatusInDB blockIDs .rollback db' = true ↔
        point ≠ .afterCommit ∧ getBlocksToDelete heights db ≠ []) :=
  ⟨fun _ _ h => indexBlock_polling hnode h, fun _ _ h => deleteIndexedBlocks_polling h⟩

/-- A job that is cut off at once leaves the tables as they are. -/
private theorem deleteIndexedBlocksFailure_zero (env : Env) (view : DeletionView) (heights : List ℕ)
    (db : DB) :
    deleteIndexedBlocksFailure env view (.beforeCommit (some 0)) heights db =
      some ((getBlocksToDelete heights db).map (·.2.id), db) := by
  simp only [deleteIndexedBlocksFailure, deleteIndexedBlocks, Session.transact, Async.runFor_zero]
  rfl

/-- A node that does not answer. -/
def silentView : DeletionView := ⟨fun _ => none, fun _ => [], fun _ => []⟩

private theorem height_shortChain (height : ℕ) (block : Block)
    (h : shortChain.block height = some block) : block.header.height = height := by
  simp only [shortChain] at h
  split_ifs at h with h₁ h₂
  · obtain rfl := Option.some.inj h
    exact h₁.symm
  · obtain rfl := Option.some.inj h
    exact h₂.symm

/-- On top of the genesis block both jobs are cut off at once: the next block is not there, and the
genesis block still is. -/
theorem polling_ends_iff_genesis :
    checkBlockHeightIndexStatusInDB 1 .rollback genesisLedger.db = true ∧
      checkBlockIDsDeleteStatusInDB ((getBlocksToDelete [0] genesisLedger.db).map (·.2.id))
        .rollback genesisLedger.db = true := by
  have hpolling := polling_ends_iff default [] shortChain ⟨[], [], [], [], [], [], [], []⟩
    (fun _ => []) silentView (.beforeCommit (some 0)) genesisLedger.db genesisLedger.db
    height_shortChain
  refine ⟨(hpolling.1 1 1 rfl).2 (by simp), (hpolling.2 [0] _
    (deleteIndexedBlocksFailure_zero default silentView [0] genesisLedger.db)).2 ⟨by simp, ?_⟩⟩
  exact List.ne_nil_of_mem (mem_getBlocksToDelete.2 ⟨0, rfl, Nat.le_refl 0, rfl⟩)

/-- A deletion job for a block that was never indexed fails at once: the polling never ends. -/
theorem empty_deletion_polls_forever :
    ¬ ∀ (env : Env) (view : DeletionView) (point : FailurePoint) (heights : List ℕ) (db db' : DB)
      (blockIDs : List BlockID),
      deleteIndexedBlocksFailure env view point heights db = some (blockIDs, db') →
      checkBlockIDsDeleteStatusInDB blockIDs .rollback db' = true := by
  intro h
  have hcheck := h default silentView (.beforeCommit (some 0)) [5] .empty .empty _
    (deleteIndexedBlocksFailure_zero default silentView [5] .empty)
  obtain ⟨height, r, hrow, -⟩ := checkBlockIDsDeleteStatusInDB_rollback.1 hcheck
  exact absurd hrow (Option.some_ne_none r).symm

end SwaptoshiService
