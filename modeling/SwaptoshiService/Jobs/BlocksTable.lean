import Mathlib.Order.Lattice.Nat
import SwaptoshiService.Indexer.DeleteBlocks

/-!
# The table `blocks` over whole jobs

What one `indexBlock` and one `deleteIndexedBlocks` do to the table `blocks`
(`indexBlock_blocks`, `deleteIndexedBlocks_blocks`), and what follows for sequences of jobs that
do not overlap, while the node may switch chains between them: the indexed heights form an
interval that starts at the genesis height, and every row links to the one below it
(`Job.linked_run`).

A `Ledger` records besides the tables which block of the node each row was built from.
-/

namespace SwaptoshiService

open Session

/-! ### Queries -/

theorem height_mem_range {db : DB} {h : ℕ} (hr : (db.get (.block h)).isSome) :
    h < db.keys.sup Cell.height + 1 := by
  have hmem : Cell.block h ∈ db.keys := (db.mem_keys _).mpr hr
  exact Nat.lt_succ_of_le (Finset.le_sup (f := Cell.height) hmem)

/-- The query for the last indexed row finds the row above which there is none. -/
theorem lastIndexedHeight_eq {db : DB} {last : ℕ} (hlast : (db.get (.block last)).isSome)
    (habove : ∀ h, last < h → db.get (.block h) = none) : lastIndexedHeight db = some last := by
  rw [lastIndexedHeight]
  generalize hn : db.keys.sup Cell.height + 1 = n
  have hlt : last < n := hn ▸ height_mem_range hlast
  clear hn
  -- Walk down from the top: everything above `last` is skipped.
  induction n with
  | zero => omega
  | succ n ih =>
    rw [List.range_succ, List.reverse_append, List.reverse_singleton, List.singleton_append]
    rcases Nat.lt_succ_iff_lt_or_eq.mp hlt with h | rfl
    · rw [List.find?_cons_of_neg (by simp [habove n h])]
      exact ih h
    · rw [List.find?_cons_of_pos (by simpa using hlast)]

/-- `getBlocksToDelete` returns every row from the lowest height on, and only these. -/
theorem mem_getBlocksToDelete {heights : List ℕ} {db : DB} {h : ℕ} {r : BlockRow} :
    (h, r) ∈ getBlocksToDelete heights db ↔
      ∃ lowest, heights.min? = some lowest ∧ lowest ≤ h ∧ db.get (.block h) = some r := by
  rw [getBlocksToDelete]
  cases hmin : heights.min? with
  | none => simp
  | some lowest =>
    simp only [List.mem_filterMap, List.mem_filter, List.mem_reverse, List.mem_range,
      decide_eq_true_eq, Option.map_eq_some_iff, Prod.mk.injEq, Option.some.injEq,
      exists_eq_left']
    constructor
    · rintro ⟨h', ⟨-, hle⟩, r', hr, rfl, rfl⟩
      exact ⟨hle, hr⟩
    · rintro ⟨hle, hr⟩
      exact ⟨h, ⟨height_mem_range (by simp [hr]), hle⟩, r, hr, rfl, rfl⟩

/-- No height is listed twice. -/
theorem getBlocksToDelete_nodup (heights : List ℕ) (db : DB) :
    ((getBlocksToDelete heights db).map Prod.fst).Nodup := by
  rw [getBlocksToDelete]
  split
  · exact List.nodup_nil
  rename_i lowest _
  generalize hl : (List.range (db.keys.sup Cell.height + 1)).reverse.filter (lowest ≤ ·) = l
  have hnodup : l.Nodup := hl ▸ (List.nodup_reverse.mpr List.nodup_range).filter _
  clear hl
  rw [List.map_filterMap]
  refine hnodup.filterMap fun h h' k hk hk' => ?_
  simp only [Option.map_map, Option.mem_def, Option.map_eq_some_iff, Function.comp_apply,
    exists_and_right] at hk hk'
  exact hk.2.trans hk'.2.symm

/-! ### One job -/

/-- The two databases hold the same rows in `blocks`. -/
def SameBlocks (db db' : DB) : Prop := ∀ h, db'.get (.block h) = db.get (.block h)

private theorem fixes_of_outsideBlocks {conn : Conn} {st : Stmt}
    (hst : Respects outsideBlocks conn st) (h : ℕ) : st.Fixes (.block h) :=
  hst (.block h) fun hc => hc rfl

/-- A transaction whose program writes to `blocks` through `dbTrx` only does not touch the table
when it is rolled back. -/
private theorem transact_blocks (fault : Option ℕ) (e : Failure) {p : Prog Unit}
    (hp : Confined (Respects outsideBlocks) p) (last : Stmt) (db : DB) :
    let q : Prog Unit := do p; Session.exec .dbTrx last
    (∃ db', transact fault e q db = (.ok (), db') ∧
      ∀ h, db'.get (.block h) = last.act (.block h) (db.get (.block h))) ∨
    ∃ e' db', transact fault e q db = (.error e', db') ∧ SameBlocks db db' := by
  intro q
  rcases transact_cases fault e q db with ⟨w, -, hrun, heq⟩ | ⟨e', w, heq, hkeep⟩
  · obtain ⟨⟨⟩, v, hbody, hlast⟩ := Async.run_bind_ok.mp hrun
    refine .inl ⟨_, heq, fun h => ?_⟩
    have hsame : SameAt (.block h) (ofStore db) v := by
      simpa only [hbody] using
        hp.run_sameAt (fun _ _ hst => fixes_of_outsideBlocks hst h) (ofStore db)
    obtain rfl : send .dbTrx last v = w := (Prod.ext_iff.mp hlast).2
    rw [commit_committed, Write.exec_get, send_dbTrx_pending, send_dbTrx_committed,
      Write.comp_act, hsame.2, hsame.1]
    rfl
  · refine .inr ⟨e', _, heq, fun h => ?_⟩
    have hbody := hp.keeps_committed_get (fun st hst => fixes_of_outsideBlocks hst h)
      (db.get (.block h))
    exact hkeep _ (hbody.bind fun _ => fun _ hw => ⟨hw, trivial⟩) rfl

/-- **What `indexBlock` does to `blocks`.** It writes the row of the block it chose, or leaves
the table alone. -/
theorem indexBlock_blocks (env : Env) (order : List ℕ) (node : NodeView)
    (assets : GenesisAssets) (events : Block → List Event) (fault : Option ℕ) (jobHeight : ℕ)
    (db : DB) :
    (∃ block db', chooseBlock env node jobHeight db = .ok (.index block) ∧
      indexBlock env order node assets events fault jobHeight db = (.ok (.index block), db') ∧
      db'.get (.block block.header.height) = some (blockRow block (events block)) ∧
      ∀ h ≠ block.header.height, db'.get (.block h) = db.get (.block h)) ∨
    ∃ r db', indexBlock env order node assets events fault jobHeight db = (r, db') ∧
      (∀ block, r ≠ .ok (.index block)) ∧ SameBlocks db db' := by
  rw [indexBlock]
  split
  · rename_i block hchoose
    have hbody : Confined (Respects outsideBlocks)
        (indexBlockBody env order assets block (events block)) := indexBlockBody_confined
    rcases transact_blocks fault outsideFailure hbody (Table.upsertRow
        (.block block.header.height) fun _ => blockRow block (events block)) db with
      ⟨db', heq, hb⟩ | ⟨e', db', heq, hb⟩
    · refine .inl ⟨block, db', hchoose, ?_, ?_, fun h hne => ?_⟩
      · exact congrArg (fun x : Except Failure Unit × DB =>
          (x.1.map fun _ => Decision.index block, x.2)) heq
      · rw [hb, Table.upsertRow_act_self]
      · rw [hb]
        exact Table.upsertRow_fixes (by simpa using hne) _
    · exact .inr ⟨.error e', db', congrArg (fun x : Except Failure Unit × DB =>
        (x.1.map fun _ => Decision.index block, x.2)) heq, by simp, hb⟩
  · rename_i hnot
    exact .inr ⟨_, _, rfl, hnot, fun _ => rfl⟩

/-- **What `deleteIndexedBlocks` does to `blocks`.** It removes the rows that carry one of the
identifiers it collected, or leaves the table alone. -/
theorem deleteIndexedBlocks_blocks (env : Env) (view : DeletionView) (fault : Option ℕ)
    (heights : List ℕ) (db : DB) :
    (∃ db', deleteIndexedBlocks env view fault heights db = (.ok (), db') ∧
      ∀ h, db'.get (.block h) = (db.get (.block h)).bind fun r =>
        if ((getBlocksToDelete heights db).map (·.2.id)).contains r.id then none else some r) ∨
    ∃ e db', deleteIndexedBlocks env view fault heights db = (.error e, db') ∧
      SameBlocks db db' := by
  refine transact_blocks fault outsideFailure (Confined.serial fun p hp => ?_) _ db
  obtain ⟨⟨h, r⟩, -, rfl⟩ := List.mem_map.mp hp
  exact deleteBlock_confined

/-! ### Tables without gaps -/

/-- The indexed heights are the interval from the genesis height to `last`, and every row is at
the height that its identifier belongs to. -/
structure GapFree (g : ℕ) (heightOf : BlockID → ℕ) (last : ℕ) (db : DB) : Prop where
  genesis_le : g ≤ last
  rows : ∀ h, (db.get (.block h)).isSome ↔ g ≤ h ∧ h ≤ last
  height_id : ∀ h r, db.get (.block h) = some r → heightOf r.id = h

section GapFree

variable {g last : ℕ} {heightOf : BlockID → ℕ} {db db' : DB}

theorem GapFree.lastIndexedHeight (hs : GapFree g heightOf last db) :
    lastIndexedHeight db = some last := by
  refine lastIndexedHeight_eq ((hs.rows last).mpr ⟨hs.genesis_le, le_rfl⟩) fun h hlt => ?_
  have hnot : ¬ (db.get (.block h)).isSome := fun hsome => by
    have := (hs.rows h).mp hsome
    omega
  simpa using hnot

theorem GapFree.heightToIndex (hs : GapFree g heightOf last db) (jobHeight : ℕ) :
    heightToIndex db jobHeight = last + 1 := by
  simp [SwaptoshiService.heightToIndex, hs.lastIndexedHeight]

theorem GapFree.sameBlocks (hs : GapFree g heightOf last db) (h : SameBlocks db db') :
    GapFree g heightOf last db' where
  genesis_le := hs.genesis_le
  rows n := by rw [h n]; exact hs.rows n
  height_id n r hr := hs.height_id n r (by rw [← h n]; exact hr)

/-- One more row on top of the interval. -/
theorem GapFree.extend (hs : GapFree g heightOf last db) {row : BlockRow}
    (hid : heightOf row.id = last + 1) (hnew : db'.get (.block (last + 1)) = some row)
    (hold : ∀ h ≠ last + 1, db'.get (.block h) = db.get (.block h)) :
    GapFree g heightOf (last + 1) db' where
  genesis_le := Nat.le_succ_of_le hs.genesis_le
  rows h := by
    by_cases hh : h = last + 1
    · subst hh
      simp only [hnew, Option.isSome_some, true_iff]
      exact ⟨Nat.le_succ_of_le hs.genesis_le, le_rfl⟩
    · rw [hold h hh, hs.rows h]
      omega
  height_id h r hr := by
    by_cases hh : h = last + 1
    · subst hh
      obtain rfl : row = r := Option.some_injective _ (hnew.symm.trans hr)
      exact hid
    · exact hs.height_id h r (by rw [← hold h hh]; exact hr)

/-- The rows deleted by identifier are exactly those from the lowest height on. -/
theorem GapFree.get_deleted (hs : GapFree g heightOf last db) {blocks : List (ℕ × BlockRow)}
    {lowest : ℕ} (hb : ∀ h r, (h, r) ∈ blocks ↔ lowest ≤ h ∧ db.get (.block h) = some r)
    (hrows : ∀ h, db'.get (.block h) = (db.get (.block h)).bind fun r =>
      if (blocks.map (·.2.id)).contains r.id then none else some r) (h : ℕ) :
    db'.get (.block h) = if lowest ≤ h then none else db.get (.block h) := by
  rw [hrows h]
  cases hr : db.get (.block h) with
  | none => simp
  | some r =>
    have hiff : (blocks.map (·.2.id)).contains r.id = true ↔ lowest ≤ h := by
      simp only [List.contains_iff_mem, List.mem_map, Prod.exists]
      constructor
      · rintro ⟨h', r', hmem, hid⟩
        obtain ⟨hle, hr'⟩ := (hb h' r').mp hmem
        have hh : h' = h := by
          rw [← hs.height_id h' r' hr', ← hs.height_id h r hr, hid]
        omega
      · exact fun hle => ⟨h, r, (hb h r).mpr ⟨hle, hr⟩, rfl⟩
    simp only [Option.bind_some, hiff]

/-- The interval is cut off below a height. -/
theorem GapFree.truncate (hs : GapFree g heightOf last db) {lowest : ℕ} (hg : g < lowest)
    (hget : ∀ h, db'.get (.block h) = if lowest ≤ h then none else db.get (.block h)) :
    GapFree g heightOf (min last (lowest - 1)) db' where
  genesis_le := by
    have := hs.genesis_le
    omega
  rows h := by
    rw [hget h]
    have hrow := hs.rows h
    split
    · simp only [Option.isSome_none, Bool.false_eq_true, false_iff]
      omega
    · rw [hrow]
      omega
  height_id h r hr := by
    rw [hget h] at hr
    split at hr
    · simp at hr
    · exact hs.height_id h r hr

end GapFree

/-! ### Sequences of jobs -/

/-- One job of the two queues, with everything it is answered from outside the database. -/
inductive Job
  | index (env : Env) (order : List ℕ) (node : NodeView) (assets : GenesisAssets)
      (events : Block → List Event) (fault : Option ℕ) (jobHeight : ℕ)
  | delete (env : Env) (view : DeletionView) (fault : Option ℕ) (heights : List ℕ)

/-- The tables, and for every height the block of the node that the row there was last built
from. -/
structure Ledger where
  db : DB
  builtFrom : ℕ → Option Block

/-- Run one job. -/
def Job.run (s : Ledger) : Job → Ledger
  | .index env order node assets events fault jobHeight =>
    match indexBlock env order node assets events fault jobHeight s.db with
    | (.ok (.index block), db) =>
      ⟨db, Function.update s.builtFrom block.header.height (some block)⟩
    | (_, db) => ⟨db, s.builtFrom⟩
  | .delete env view fault heights =>
    ⟨(deleteIndexedBlocks env view fault heights s.db).2, s.builtFrom⟩

/-- Run jobs one after the other. -/
def runJobs (s : Ledger) (jobs : List Job) : Ledger := jobs.foldl Job.run s

/-- What the jobs may rely on: the node answers with a block of the height it is asked for, and
the identifier of a block, a hash of its header, determines its height. Deletion jobs are for
blocks above the genesis height. -/
def Job.Admissible (genesisHeight : ℕ) (heightOf : BlockID → ℕ) : Job → Prop
  | .index env _ node _ _ _ _ => env.genesisHeight = genesisHeight ∧
      ∀ h b, node.block h = some b → b.header.height = h ∧ heightOf b.header.id = h
  | .delete _ _ _ heights => ∀ h ∈ heights, genesisHeight < h

/-- The invariant of the table: it has no gaps, and every row above the first is built from a
block whose parent is the row below. -/
structure Linked (g : ℕ) (heightOf : BlockID → ℕ) (last : ℕ) (s : Ledger) : Prop
    extends GapFree g heightOf last s.db where
  parent : ∀ h r, g + 1 < h → s.db.get (.block h) = some r →
    ∃ b events prev, s.builtFrom h = some b ∧ r = blockRow b events ∧
      s.db.get (.block (h - 1)) = some prev ∧ b.header.previousBlockID = prev.id

section Runs

variable {g last : ℕ} {heightOf : BlockID → ℕ} {s : Ledger}

private theorem Linked.same (hs : Linked g heightOf last s) {db : DB}
    (h : SameBlocks s.db db) : Linked g heightOf last ⟨db, s.builtFrom⟩ where
  toGapFree := hs.toGapFree.sameBlocks h
  parent n r hlt hr := by
    obtain ⟨b, events, prev, hb, hrow, hprev, hid⟩ := hs.parent n r hlt (by rw [← h n]; exact hr)
    exact ⟨b, events, prev, hb, hrow, (h (n - 1)).trans hprev, hid⟩

/-- A committed `indexBlock` extends the interval by one linked row. -/
private theorem Linked.index (hs : Linked g heightOf last s) {db : DB} {block : Block}
    {events : List Event} (hheight : block.header.height = last + 1)
    (hid : heightOf block.header.id = last + 1)
    (hparent : g + 1 < last + 1 → ∃ prev, s.db.get (.block last) = some prev ∧
      prev.id = block.header.previousBlockID)
    (hnew : db.get (.block (last + 1)) = some (blockRow block events))
    (hold : ∀ h ≠ last + 1, db.get (.block h) = s.db.get (.block h)) :
    Linked g heightOf (last + 1)
      ⟨db, Function.update s.builtFrom block.header.height (some block)⟩ where
  toGapFree := hs.toGapFree.extend hid hnew hold
  parent h r hlt hr := by
    by_cases hh : h = last + 1
    · subst hh
      obtain rfl : blockRow block events = r := Option.some_injective _ (hnew.symm.trans hr)
      obtain ⟨prev, hprev, hpid⟩ := hparent hlt
      refine ⟨block, events, prev, by simp [hheight], rfl, ?_, hpid.symm⟩
      rw [Nat.add_sub_cancel, hold last (by omega), hprev]
    · have hr' : s.db.get (.block h) = some r := by rw [← hold h hh]; exact hr
      have hle : h ≤ last := ((hs.rows h).mp (by simp [hr'])).2
      obtain ⟨b, evs, prev, hb, hrow, hprev, hpid⟩ := hs.parent h r hlt hr'
      refine ⟨b, evs, prev, ?_, hrow, ?_, hpid⟩
      · simp only [hheight, Function.update_of_ne hh, hb]
      · rw [hold (h - 1) (by omega), hprev]

/-- A committed `deleteIndexedBlocks` cuts the interval off below the lowest height of the
job. -/
private theorem Linked.delete (hs : Linked g heightOf last s) {db : DB} {heights : List ℕ}
    (hheights : ∀ h ∈ heights, g < h)
    (hrows : ∀ h, db.get (.block h) = (s.db.get (.block h)).bind fun r =>
      if ((getBlocksToDelete heights s.db).map (·.2.id)).contains r.id then none else some r) :
    ∃ last', Linked g heightOf last' ⟨db, s.builtFrom⟩ := by
  cases hmin : heights.min? with
  | none =>
    have hnone : getBlocksToDelete heights s.db = [] := by simp [getBlocksToDelete, hmin]
    exact ⟨last, hs.same fun h => by simp [hrows, hnone]⟩
  | some lowest =>
    have hg : g < lowest := hheights lowest (List.min?_mem hmin)
    have hb : ∀ h r, (h, r) ∈ getBlocksToDelete heights s.db ↔
        lowest ≤ h ∧ s.db.get (.block h) = some r := by
      intro h r
      simp [mem_getBlocksToDelete, hmin]
    have hget := hs.get_deleted hb hrows
    refine ⟨_, hs.toGapFree.truncate hg hget, fun h r hlt hr => ?_⟩
    simp only [hget h] at hr
    split at hr
    · simp at hr
    · obtain ⟨b, evs, prev, hb, hrow, hprev, hpid⟩ := hs.parent h r hlt hr
      refine ⟨b, evs, prev, hb, hrow, ?_, hpid⟩
      simp only [hget (h - 1)]
      rw [if_neg (by omega), hprev]

/-- **Step.** Every job keeps the table linked. -/
theorem Job.linked_run {j : Job} (hj : j.Admissible g heightOf) (hs : Linked g heightOf last s) :
    ∃ last', Linked g heightOf last' (j.run s) := by
  cases j with
  | index env order node assets events fault jobHeight =>
    obtain ⟨rfl, hnode⟩ := hj
    have hheight : heightToIndex s.db jobHeight = last + 1 := hs.heightToIndex jobHeight
    rcases indexBlock_blocks env order node assets events fault jobHeight s.db with
      ⟨block, db, hchoose, hrun, hnew, hold⟩ | ⟨r, db, hrun, hr, hsame⟩
    · obtain ⟨hblock, hparent⟩ := chooseBlock_index hchoose
      rw [hheight] at hblock hparent
      obtain ⟨hbh, hbid⟩ := hnode _ _ hblock
      rw [hbh] at hnew hold
      simp only [Job.run, hrun]
      exact ⟨last + 1, hs.index hbh hbid hparent hnew hold⟩
    · have heq : Job.run s (.index env order node assets events fault jobHeight) =
          ⟨db, s.builtFrom⟩ := by
        simp only [Job.run, hrun]
      rw [heq]
      exact ⟨last, hs.same hsame⟩
  | delete env view fault heights =>
    rcases deleteIndexedBlocks_blocks env view fault heights s.db with
      ⟨db, hrun, hrows⟩ | ⟨e, db, hrun, hsame⟩
    · simp only [Job.run, hrun]
      exact hs.delete hj hrows
    · simp only [Job.run, hrun]
      exact ⟨last, hs.same hsame⟩

/-- **Run.** Every sequence of jobs keeps the table linked. -/
theorem linked_runJobs {jobs : List Job} (hjobs : ∀ j ∈ jobs, j.Admissible g heightOf)
    (hs : Linked g heightOf last s) : ∃ last', Linked g heightOf last' (runJobs s jobs) := by
  induction jobs generalizing s last with
  | nil => exact ⟨last, hs⟩
  | cons j jobs ih =>
    obtain ⟨last', hs'⟩ := Job.linked_run (hjobs j List.mem_cons_self) hs
    exact ih (fun j' hj' => hjobs j' (List.mem_cons_of_mem _ hj')) hs'

/-- **The blocks table is contiguous and linked.** From a table that holds the genesis block
alone, after any sequence of whole jobs the indexed heights form the interval from the genesis
height to the last indexed one, and every row above the first was built from a block of the node
whose parent is the row below it. -/
theorem blocks_contiguous_linked {genesis : BlockRow}
    (hgenesis : s.db.get (.block g) = some genesis) (hid : heightOf genesis.id = g)
    (honly : ∀ h ≠ g, s.db.get (.block h) = none) {jobs : List Job}
    (hjobs : ∀ j ∈ jobs, j.Admissible g heightOf) :
    ∃ last, g ≤ last ∧
      (∀ h, ((runJobs s jobs).db.get (.block h)).isSome ↔ g ≤ h ∧ h ≤ last) ∧
      ∀ h r, g + 1 < h → (runJobs s jobs).db.get (.block h) = some r →
        ∃ b events prev, (runJobs s jobs).builtFrom h = some b ∧ r = blockRow b events ∧
          (runJobs s jobs).db.get (.block (h - 1)) = some prev ∧
          b.header.previousBlockID = prev.id := by
  have hinit : Linked g heightOf g s := by
    refine ⟨⟨le_rfl, fun h => ?_, fun h r hr => ?_⟩, fun h r hlt hr => ?_⟩
    · by_cases hh : h = g
      · subst hh
        simp [hgenesis]
      · simp only [honly h hh, Option.isSome_none, Bool.false_eq_true, false_iff]
        omega
    · by_cases hh : h = g
      · subst hh
        obtain rfl : genesis = r := Option.some_injective _ (hgenesis.symm.trans hr)
        exact hid
      · simp [honly h hh] at hr
    · simp [honly h (by omega)] at hr
  obtain ⟨last, hl⟩ := linked_runJobs hjobs hinit
  exact ⟨last, hl.genesis_le, hl.rows, hl.parent⟩

end Runs

/-- The tables after indexing a genesis block without assets. -/
def genesisLedger : Ledger :=
  ⟨(Table.upsertRow (.block 0) fun _ => { id := "genesis" } : Stmt).exec .empty, fun _ => none⟩

/-- A block without transactions. -/
def blockOnChain (id : BlockID) (height : ℕ) (parent : BlockID) : Block :=
  ⟨⟨id, height, 10, "generator", parent, 0, false⟩, [], []⟩

/-- A node on a chain of two blocks. -/
def shortChain : NodeView :=
  ⟨2, fun h => if h = 1 then some (blockOnChain "first" 1 "genesis")
    else if h = 2 then some (blockOnChain "second" 2 "first") else none⟩

/-- A node on a longer chain that shares the first block. -/
def longChain : NodeView :=
  ⟨3, fun h => if h = 1 then some (blockOnChain "first" 1 "genesis")
    else if h = 2 then some (blockOnChain "other" 2 "first")
    else if h = 3 then some (blockOnChain "third" 3 "other") else none⟩

/-- The heights of these blocks. -/
def chainHeight (id : BlockID) : ℕ :=
  if id = "first" then 1 else if id = "second" ∨ id = "other" then 2
  else if id = "third" then 3 else 0

/-- After an interrupted first attempt the short chain is indexed. Then the node switches to the
long chain: the next job finds that the parent does not fit, the second block is deleted, and the
long chain is indexed. -/
def chainSwitchJobs : List Job :=
  let noAssets : GenesisAssets := ⟨[], [], [], [], [], [], [], []⟩
  let index node fault := Job.index default [] node noAssets (fun _ => []) fault
  [index shortChain (some 1) 1, index shortChain none 7, index shortChain none 2,
    index longChain none 3,
    .delete default ⟨fun id => some (blockOnChain id 2 "first"), fun _ => [], fun _ => []⟩ none [2],
    index longChain none 2, index longChain none 3]

theorem blocks_contiguous_linked_chainSwitch :
    ((runJobs genesisLedger (chainSwitchJobs.take 3)).db.get (.block 2)).map BlockRow.id =
        some "second" ∧
      ((runJobs genesisLedger chainSwitchJobs).db.get (.block 3)).map BlockRow.id =
        some "third" ∧
      ∃ last, 0 ≤ last ∧
        (∀ h, ((runJobs genesisLedger chainSwitchJobs).db.get (.block h)).isSome ↔
          0 ≤ h ∧ h ≤ last) ∧
        ∀ h r, 0 + 1 < h → (runJobs genesisLedger chainSwitchJobs).db.get (.block h) = some r →
          ∃ b events prev, (runJobs genesisLedger chainSwitchJobs).builtFrom h = some b ∧
            r = blockRow b events ∧
            (runJobs genesisLedger chainSwitchJobs).db.get (.block (h - 1)) = some prev ∧
            b.header.previousBlockID = prev.id := by
  have hshort : ∀ h b, shortChain.block h = some b →
      b.header.height = h ∧ chainHeight b.header.id = h := by
    intro h b hb
    simp only [shortChain] at hb
    split_ifs at hb with h₁ h₂
    · obtain rfl := Option.some_injective _ hb
      exact ⟨h₁.symm, h₁.symm⟩
    · obtain rfl := Option.some_injective _ hb
      exact ⟨h₂.symm, h₂.symm⟩
  have hlong : ∀ h b, longChain.block h = some b →
      b.header.height = h ∧ chainHeight b.header.id = h := by
    intro h b hb
    simp only [longChain] at hb
    split_ifs at hb with h₁ h₂ h₃
    · obtain rfl := Option.some_injective _ hb
      exact ⟨h₁.symm, h₁.symm⟩
    · obtain rfl := Option.some_injective _ hb
      exact ⟨h₂.symm, h₂.symm⟩
    · obtain rfl := Option.some_injective _ hb
      exact ⟨h₃.symm, h₃.symm⟩
  have hjobs : ∀ j ∈ chainSwitchJobs, j.Admissible 0 chainHeight := by
    simp only [chainSwitchJobs, List.forall_mem_cons, List.not_mem_nil, IsEmpty.forall_iff,
      implies_true, and_true]
    refine ⟨⟨rfl, hshort⟩, ⟨rfl, hshort⟩, ⟨rfl, hshort⟩, ⟨rfl, hlong⟩, fun h hh => ?_,
      ⟨rfl, hlong⟩, ⟨rfl, hlong⟩⟩
    rw [List.mem_singleton.mp hh]
    exact Nat.two_pos
  have honly : ∀ h ≠ 0, genesisLedger.db.get (.block h) = none := fun h hne =>
    Write.point_act_of_ne (by simpa using hne) _ _
  have hgenesis : genesisLedger.db.get (.block 0) = some { id := "genesis" } := rfl
  exact ⟨by decide +kernel, by decide +kernel,
    blocks_contiguous_linked hgenesis (by decide) honly hjobs⟩

end SwaptoshiService
