import SwaptoshiService.Jobs.BlocksTable
import SwaptoshiService.Lib.Run

/-!
# `indexBlock` and `deleteIndexedBlocks` at the same time

The jobs run in two queues. `deleteIndexedBlocksWrapper` pauses the index queue before it starts
and resumes it when it is done, but a pause **does not wait for the active job**: an `indexBlock`
that has already read the last indexed row goes on while the rows below it are deleted.

`RaceStep` lists the steps of the two jobs as far as they concern the table `blocks`; statements
to other tables are the step `other`. Whole jobs are runs of this system (`indexBlock_race`,
`deleteIndexedBlocks_race`). The table stays gap-free in every run in which neither job commits a
change of the table while the other one is between its first read of it and its own commit
(`race_gapFree`).
-/

namespace SwaptoshiService

open Session

/-- Where the active `indexBlock` job stands. -/
inductive IndexPhase
  | idle
  | started (jobHeight : ℕ)
  | sawLast (height : ℕ)
  | sawCurrent (height : ℕ) (current : Option BlockRow)
  | fetched (block : Block)
  | writing (block : Block)

/-- Where the active `deleteIndexedBlocksWrapper` job stands. -/
inductive DeletePhase
  | idle
  | started (heights : List ℕ)
  | reverting (blocks : List (ℕ × BlockRow))
  | finished

/-- The committed rows, the pause flag of the index queue, and the two jobs. -/
structure Race where
  db : DB
  paused : Bool
  index : IndexPhase
  delete : DeletePhase

/-- The steps of the two jobs. -/
inductive RaceAction
  | startIndex
  | readLast
  | readCurrent
  | fetch
  | readPrevious
  | commitIndex
  | abandonIndex
  | other
  | pause
  | readRows
  | commitDelete
  | rollbackDelete
  | resume
  | keepPaused

/-- One step of one of the jobs. The node answers with a block of the height it is asked for,
and identifiers determine heights. -/
inductive RaceStep (g : ℕ) (heightOf : BlockID → ℕ) : Race → RaceAction → Race → Prop
  /-- A paused queue starts no job. -/
  | startIndex {s : Race} (jobHeight : ℕ) (hp : s.paused = false) (hi : s.index = .idle) :
      RaceStep g heightOf s .startIndex { s with index := .started jobHeight }
  | readLast {s : Race} {jobHeight : ℕ} (hi : s.index = .started jobHeight) :
      RaceStep g heightOf s .readLast
        { s with index := .sawLast (heightToIndex s.db jobHeight) }
  | readCurrent {s : Race} {height : ℕ} (hi : s.index = .sawLast height) :
      RaceStep g heightOf s .readCurrent
        { s with index := .sawCurrent height (s.db.get (.block height)) }
  | fetch {s : Race} {height : ℕ} {current : Option BlockRow} (block : Block)
      (hi : s.index = .sawCurrent height current) (hh : block.header.height = height)
      (hid : heightOf block.header.id = height)
      (hc : ∀ r, current = some r → r.id = block.header.id) :
      RaceStep g heightOf s .fetch { s with index := .fetched block }
  | readPrevious {s : Race} {block : Block} (hi : s.index = .fetched block)
      (hp : g + 1 < block.header.height → ∃ prev,
        s.db.get (.block (block.header.height - 1)) = some prev ∧
          prev.id = block.header.previousBlockID) :
      RaceStep g heightOf s .readPrevious { s with index := .writing block }
  | commitIndex {s : Race} {block : Block} (events : List Event) (db : DB)
      (hi : s.index = .writing block)
      (hnew : db.get (.block block.header.height) = some (blockRow block events))
      (hold : ∀ h ≠ block.header.height, db.get (.block h) = s.db.get (.block h)) :
      RaceStep g heightOf s .commitIndex { s with db, index := .idle }
  /-- The job skips, schedules a deletion, throws or is rolled back. -/
  | abandonIndex {s : Race} : RaceStep g heightOf s .abandonIndex { s with index := .idle }
  | other {s : Race} (db : DB) (h : SameBlocks s.db db) :
      RaceStep g heightOf s .other { s with db }
  | pause {s : Race} (heights : List ℕ) (hd : s.delete = .idle) (hh : ∀ h ∈ heights, g < h) :
      RaceStep g heightOf s .pause { s with paused := true, delete := .started heights }
  | readRows {s : Race} {heights : List ℕ} (hd : s.delete = .started heights) :
      RaceStep g heightOf s .readRows
        { s with delete := .reverting (getBlocksToDelete heights s.db) }
  | commitDelete {s : Race} {blocks : List (ℕ × BlockRow)} (db : DB)
      (hd : s.delete = .reverting blocks)
      (hrows : ∀ h, db.get (.block h) = (s.db.get (.block h)).bind fun r =>
        if (blocks.map (·.2.id)).contains r.id then none else some r) :
      RaceStep g heightOf s .commitDelete { s with db, delete := .finished }
  | rollbackDelete {s : Race} {blocks : List (ℕ × BlockRow)} (hd : s.delete = .reverting blocks) :
      RaceStep g heightOf s .rollbackDelete { s with delete := .finished }
  | resume {s : Race} (hd : s.delete = .finished) :
      RaceStep g heightOf s .resume { s with paused := false, delete := .idle }
  /-- Further deletion jobs are waiting. -/
  | keepPaused {s : Race} (hd : s.delete = .finished) :
      RaceStep g heightOf s .keepPaused { s with delete := .idle }

/-! ### Whole jobs are runs -/

/-- No job is active. -/
def Race.quiet (db : DB) : Race := ⟨db, false, .idle, .idle⟩

section Refinement

variable {g : ℕ} {heightOf : BlockID → ℕ}

private theorem run_other {db db' : DB} (h : SameBlocks db db') :
    Run (RaceStep g heightOf) Unrestricted (.quiet db) (.quiet db') :=
  Run.refl.tail (.other db' h) trivial

/-- **Refinement.** A whole `indexBlock` is a run of the system. -/
theorem indexBlock_race {env : Env} (hg : env.genesisHeight = g) (order : List ℕ)
    {node : NodeView} (hnode : ∀ h b, node.block h = some b →
      b.header.height = h ∧ heightOf b.header.id = h) (assets : GenesisAssets)
    (events : Block → List Event) (fault : Option ℕ) (jobHeight : ℕ) (db : DB) :
    Run (RaceStep g heightOf) Unrestricted (.quiet db)
      (.quiet (indexBlock env order node assets events fault jobHeight db).2) := by
  rcases indexBlock_blocks env order node assets events fault jobHeight db with
    ⟨block, db', hchoose, hrun, hnew, hold⟩ | ⟨r, db', hrun, -, hsame⟩
  · rw [hrun]
    obtain ⟨hblock, hparent⟩ := chooseBlock_index hchoose
    obtain ⟨hh, hid⟩ := hnode _ _ hblock
    refine Run.refl.tail (.startIndex jobHeight rfl rfl) trivial
      |>.tail (.readLast rfl) trivial
      |>.tail (.readCurrent rfl) trivial
      |>.tail (.fetch block rfl hh hid fun r hr => ?_) trivial
      |>.tail (.readPrevious rfl fun hlt => ?_) trivial
      |>.tail (.commitIndex (events block) db' rfl hnew hold) trivial
    · exact chooseBlock_current hchoose hr
    · rw [hh] at hlt ⊢
      subst hg
      exact hparent hlt
  · rw [hrun]
    exact run_other hsame

/-- **Refinement.** A whole `deleteIndexedBlocks` is a run of the system. -/
theorem deleteIndexedBlocks_race (env : Env) (view : DeletionView) (fault : Option ℕ)
    {heights : List ℕ} (hheights : ∀ h ∈ heights, g < h) (db : DB) :
    Run (RaceStep g heightOf) Unrestricted (.quiet db)
      (.quiet (deleteIndexedBlocks env view fault heights db).2) := by
  rcases deleteIndexedBlocks_blocks env view fault heights db with
    ⟨db', hrun, hrows⟩ | ⟨e, db', hrun, hsame⟩
  · rw [hrun]
    exact Run.refl.tail (.pause heights rfl hheights) trivial
      |>.tail (.readRows rfl) trivial
      |>.tail (.commitDelete db' rfl hrows) trivial
      |>.tail (.resume rfl) trivial
  · rw [hrun]
    exact run_other hsame

end Refinement

/-! ### Runs without a gap -/

/-- The job relies on what it has read of the table. -/
def IndexPhase.hasRead : IndexPhase → Bool
  | .idle => false
  | .started _ => false
  | _ => true

/-- The step does not change the table under the other job: `indexBlock` commits only while no
rows are being deleted, `deleteIndexedBlocks` commits a deletion of rows only while `indexBlock`
has not read the table. -/
def Race.Undisturbed (s : Race) : RaceAction → Prop
  | .commitIndex => ∀ blocks, s.delete = .reverting blocks → blocks = []
  | .commitDelete => s.index.hasRead = true → s.delete = .reverting []
  | _ => True

section GapFree

variable {g : ℕ} {heightOf : BlockID → ℕ}

/-- The block that `indexBlock` is about to write belongs on top of the interval. -/
def IndexPhase.OnTop (heightOf : BlockID → ℕ) (last : ℕ) : IndexPhase → Prop
  | .idle => True
  | .started _ => True
  | .sawLast height => height = last + 1
  | .sawCurrent height _ => height = last + 1
  | .fetched block => block.header.height = last + 1 ∧ heightOf block.header.id = last + 1
  | .writing block => block.header.height = last + 1 ∧ heightOf block.header.id = last + 1

/-- The rows that `deleteIndexedBlocks` is about to delete are all rows from some height on. -/
def DeletePhase.Suffix (g : ℕ) (db : DB) : DeletePhase → Prop
  | .idle => True
  | .started heights => ∀ h ∈ heights, g < h
  | .reverting blocks => blocks = [] ∨ ∃ lowest, g < lowest ∧
      ∀ h r, (h, r) ∈ blocks ↔ lowest ≤ h ∧ db.get (.block h) = some r
  | .finished => True

/-- The invariant of undisturbed runs. -/
structure Race.Consistent (g : ℕ) (heightOf : BlockID → ℕ) (last : ℕ) (s : Race) : Prop where
  table : GapFree g heightOf last s.db
  index : s.index.OnTop heightOf last
  delete : s.delete.Suffix g s.db

theorem DeletePhase.Suffix.sameBlocks {db db' : DB} {d : DeletePhase} (h : d.Suffix g db)
    (hsame : SameBlocks db db') : d.Suffix g db' := by
  cases d with
  | reverting blocks =>
    rcases h with rfl | ⟨lowest, hg, hb⟩
    · exact .inl rfl
    · exact .inr ⟨lowest, hg, fun h r => by rw [hb h r, hsame h]⟩
  | _ => exact h

/-- Nothing changes for an `indexBlock` that has read nothing yet. -/
private theorem IndexPhase.onTop_of_not_hasRead {i : IndexPhase} (h : i.hasRead = false)
    (last : ℕ) : i.OnTop heightOf last := by
  cases i <;> trivial

private theorem suffix_getBlocksToDelete {heights : List ℕ} (hh : ∀ h ∈ heights, g < h)
    (db : DB) : (DeletePhase.reverting (getBlocksToDelete heights db)).Suffix g db := by
  cases hmin : heights.min? with
  | none => exact .inl (by simp [getBlocksToDelete, hmin])
  | some lowest =>
    refine .inr ⟨lowest, hh lowest (List.min?_mem hmin), fun h r => ?_⟩
    simp [mem_getBlocksToDelete, hmin]

/-- Committing the new row on top of the interval, while no rows are being deleted. -/
private theorem Race.Consistent.commitIndex {last : ℕ} {s : Race}
    (hs : s.Consistent g heightOf last) {block : Block} {events : List Event} {db : DB}
    (hi : s.index = .writing block)
    (hnew : db.get (.block block.header.height) = some (blockRow block events))
    (hold : ∀ h ≠ block.header.height, db.get (.block h) = s.db.get (.block h))
    (hd : ∀ blocks, s.delete = .reverting blocks → blocks = []) :
    Race.Consistent g heightOf (last + 1) { s with db, index := .idle } := by
  have htop := hs.index
  rw [hi] at htop
  obtain ⟨hheight, hid⟩ := htop
  rw [hheight] at hnew hold
  refine ⟨hs.table.extend hid hnew hold, trivial, ?_⟩
  have hsuffix := hs.delete
  cases hdel : s.delete with
  | reverting blocks => exact .inl (hd blocks hdel)
  | _ =>
    rw [hdel] at hsuffix
    exact hsuffix

/-- Committing a deletion, while `indexBlock` has read nothing or nothing is deleted. -/
private theorem Race.Consistent.commitDelete {last : ℕ} {s : Race}
    (hs : s.Consistent g heightOf last) {blocks : List (ℕ × BlockRow)} {db : DB}
    (hd : s.delete = .reverting blocks)
    (hrows : ∀ h, db.get (.block h) = (s.db.get (.block h)).bind fun r =>
      if (blocks.map (·.2.id)).contains r.id then none else some r)
    (hi : s.index.hasRead = true → s.delete = .reverting []) :
    ∃ last', Race.Consistent g heightOf last' { s with db, delete := .finished } := by
  have hsuffix := hs.delete
  rw [hd] at hsuffix
  rcases hsuffix with rfl | ⟨lowest, hg, hb⟩
  · exact ⟨last, hs.table.sameBlocks fun h => by simp [hrows], hs.index, trivial⟩
  · by_cases hread : s.index.hasRead = true
    · obtain rfl : blocks = [] := DeletePhase.reverting.inj (hd.symm.trans (hi hread))
      exact ⟨last, hs.table.sameBlocks fun h => by simp [hrows], hs.index, trivial⟩
    · exact ⟨_, hs.table.truncate hg (hs.table.get_deleted hb hrows),
        IndexPhase.onTop_of_not_hasRead (by simpa using hread) _, trivial⟩

/-- **Step.** Undisturbed steps keep the jobs consistent. -/
theorem Race.Consistent.step {last : ℕ} {s s' : Race} {a : RaceAction}
    (hs : s.Consistent g heightOf last) (hok : s.Undisturbed a)
    (hstep : RaceStep g heightOf s a s') : ∃ last', s'.Consistent g heightOf last' := by
  cases hstep with
  | startIndex jobHeight hp hi => exact ⟨last, hs.table, trivial, hs.delete⟩
  | readLast hi => exact ⟨last, hs.table, hs.table.heightToIndex _, hs.delete⟩
  | readCurrent hi =>
    have htop := hs.index
    rw [hi] at htop
    exact ⟨last, hs.table, htop, hs.delete⟩
  | fetch block hi hh hid hc =>
    have htop := hs.index
    rw [hi] at htop
    exact ⟨last, hs.table, ⟨hh.trans htop, hid.trans htop⟩, hs.delete⟩
  | readPrevious hi hp =>
    have htop := hs.index
    rw [hi] at htop
    exact ⟨last, hs.table, htop, hs.delete⟩
  | commitIndex events db hi hnew hold => exact ⟨_, hs.commitIndex hi hnew hold hok⟩
  | abandonIndex => exact ⟨last, hs.table, trivial, hs.delete⟩
  | other db h => exact ⟨last, hs.table.sameBlocks h, hs.index, hs.delete.sameBlocks h⟩
  | pause heights hd hh => exact ⟨last, hs.table, hs.index, hh⟩
  | readRows hd =>
    have hsuffix := hs.delete
    rw [hd] at hsuffix
    exact ⟨last, hs.table, hs.index, suffix_getBlocksToDelete hsuffix s.db⟩
  | commitDelete db hd hrows => exact hs.commitDelete hd hrows hok
  | rollbackDelete hd => exact ⟨last, hs.table, hs.index, trivial⟩
  | resume hd => exact ⟨last, hs.table, hs.index, trivial⟩
  | keepPaused hd => exact ⟨last, hs.table, hs.index, trivial⟩

/-- **No gap without overlap.** In every run in which neither job commits a change of the table
under the other one, the table has no gap in any state reached. -/
theorem race_gapFree {last : ℕ} {db : DB} (hdb : GapFree g heightOf last db) {s : Race}
    (hrun : Run (RaceStep g heightOf) Race.Undisturbed (.quiet db) s) :
    ∃ last', g ≤ last' ∧ ∀ h, (s.db.get (.block h)).isSome ↔ g ≤ h ∧ h ≤ last' := by
  have hinit : ∃ last, Race.Consistent g heightOf last (.quiet db) :=
    ⟨last, hdb, trivial, trivial⟩
  obtain ⟨last', hs⟩ := hrun.invariant (fun s => ∃ last, s.Consistent g heightOf last) hinit
    fun t a t' ⟨l, hl⟩ hok hstep => hl.step hok hstep
  exact ⟨last', hs.table.genesis_le, hs.table.rows⟩

end GapFree

/-! ### A race -/

/-- Heights of the identifiers below. -/
def letterHeight (id : BlockID) : ℕ := (id.toList.headD 'a').toNat - 'a'.toNat

/-- Three indexed blocks. -/
def threeBlocks : DB :=
  (Write.all [Table.upsertRow (.block 0) fun _ => { id := "a" },
    Table.upsertRow (.block 1) fun _ => { id := "b" },
    Table.upsertRow (.block 2) fun _ => { id := "c" }] : Stmt).exec .empty

/-- The tables after the block at height 2 is deleted. -/
def twoBlocks : DB := (Table.deleteWhere (blocksWithIDs ["c"])).exec threeBlocks

/-- The block that the node holds at height 3. -/
def fourthBlock : Block := ⟨⟨"d", 3, 40, "generator", "c", 0, false⟩, [], []⟩

theorem threeBlocks_get (h : ℕ) : threeBlocks.get (.block h) =
    if h = 0 then some { id := "a" } else if h = 1 then some { id := "b" }
    else if h = 2 then some { id := "c" } else none := by
  match h with
  | 0 => rfl
  | 1 => rfl
  | 2 => rfl
  | n + 3 => simp [threeBlocks, Write.all, Table.upsertRow, Write.point_act_of_ne]

theorem threeBlocks_gapFree : GapFree 0 letterHeight 2 threeBlocks := by
  refine ⟨by decide, fun h => ?_, fun h r hr => ?_⟩
  · rw [threeBlocks_get]
    split_ifs <;> simp <;> omega
  · rw [threeBlocks_get] at hr
    split_ifs at hr <;> simp_all <;> subst hr <;> decide

/-- An `indexBlock` that only started before the queue was paused does no harm: it reads the
table after the deletion is committed. -/
theorem race_gapFree_deletion_first :
    ∃ last', 0 ≤ last' ∧ ∀ h, (twoBlocks.get (.block h)).isSome ↔ 0 ≤ h ∧ h ≤ last' := by
  have hread : Run (RaceStep 0 letterHeight) Race.Undisturbed (.quiet threeBlocks)
      ⟨threeBlocks, true, .started 3, .reverting (getBlocksToDelete [2] threeBlocks)⟩ :=
    Run.refl.tail (.startIndex 3 rfl rfl) (by trivial)
      |>.tail (.pause [2] rfl (by decide)) (by trivial)
      |>.tail (.readRows rfl) (by trivial)
  have hdelete : Run (RaceStep 0 letterHeight) Race.Undisturbed (.quiet threeBlocks)
      ⟨twoBlocks, true, .started 3, .finished⟩ := by
    refine hread.tail (.commitDelete twoBlocks rfl fun _ => rfl) ?_
    exact fun h => absurd h (by decide)
  have hindex : Run (RaceStep 0 letterHeight) Race.Undisturbed (.quiet threeBlocks)
      ⟨twoBlocks, true, .sawLast (heightToIndex twoBlocks 3), .finished⟩ :=
    hdelete.tail (.readLast rfl) (by trivial)
  exact race_gapFree threeBlocks_gapFree hindex

/-- An `indexBlock` that has read the last row before the queue is paused writes its block on
top of a deleted one. -/
theorem race_leaves_gap :
    GapFree 0 letterHeight 2 threeBlocks ∧
      ∃ s, Run (RaceStep 0 letterHeight) Unrestricted (.quiet threeBlocks) s ∧
        (s.db.get (.block 3)).isSome ∧ s.db.get (.block 2) = none := by
  let db : DB := (Table.upsertRow (.block 3) fun _ => blockRow fourthBlock []).exec twoBlocks
  have hcurrent : threeBlocks.get (.block (heightToIndex threeBlocks 3)) = none := by
    rw [threeBlocks_gapFree.heightToIndex]
    rfl
  have hindex : Run (RaceStep 0 letterHeight) Unrestricted (.quiet threeBlocks)
      ⟨threeBlocks, false, .writing fourthBlock, .idle⟩ := by
    refine Run.refl.tail (.startIndex 3 rfl rfl) trivial
      |>.tail (.readLast rfl) trivial
      |>.tail (.readCurrent rfl) trivial
      |>.tail (.fetch fourthBlock rfl (threeBlocks_gapFree.heightToIndex 3).symm
        (threeBlocks_gapFree.heightToIndex 3).symm fun r hr => ?_) trivial
      |>.tail (.readPrevious rfl fun _ => ⟨{ id := "c" }, rfl, rfl⟩) trivial
    exact absurd (hcurrent.symm.trans hr) (by simp)
  have hdelete : Run (RaceStep 0 letterHeight) Unrestricted (.quiet threeBlocks)
      ⟨twoBlocks, false, .writing fourthBlock, .idle⟩ :=
    hindex.tail (.pause [2] rfl (by decide)) trivial
      |>.tail (.readRows rfl) trivial
      |>.tail (.commitDelete twoBlocks rfl fun _ => rfl) trivial
      |>.tail (.resume rfl) trivial
  have hold : ∀ h ≠ 3, db.get (.block h) = twoBlocks.get (.block h) := fun h hne =>
    Write.point_act_of_ne (by simpa using hne) _ _
  exact ⟨threeBlocks_gapFree, ⟨db, false, .idle, .idle⟩,
    hdelete.tail (.commitIndex [] db rfl rfl hold) trivial, rfl, rfl⟩

end SwaptoshiService
