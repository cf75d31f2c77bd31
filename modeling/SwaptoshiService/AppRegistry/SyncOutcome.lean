import SwaptoshiService.AppRegistry.SyncPasses

/-!
# What the synchronisation leaves behind

Up to the commit nothing is visible outside but `temp-downloads` and the lists of paths
(`confined_indexChanges`), so a call that stops there has changed nothing. `Indexed` is what the
operations on files find after it. A row that no other application touches is as the pass over its
own application alone leaves it (`indexChanges_rows`); a row of a deleted entry may be deleted last
(`exists_indexChanges_deleted`), whoever wrote it before. `run_replaceFiles` is the second half:
what becomes of every local file.
-/

namespace SwaptoshiService

namespace AppRegistry

open Session Table

/-! ### Up to the commit -/

section Indexing

variable {env : RegistryEnv} {own : RegistryCell → Prop} {A B : Commit env own} {remote : Remote}
  {collation : Collation} {w : RegistrySession} {db : RegistryStore} {sched : List ℕ}

/-- Before the commit only `temp-downloads` and the lists change at once; the tables and the hash
change inside the transaction. -/
def IndexingWrites : Conn → RegistryCell → Prop
  | .default, c => c.isScratch = true
  | .dbTrx, c => c.IsMetadata ∨ c = .commitHash

private theorem confined_readFile (dir : Dir) (p : FilePath) :
    Confined (Respects IndexingWrites) (readFile dir p) :=
  (confined_query _ _).bind fun _ => confined_ofOption _ _

private theorem confined_upsertAll {es : List Entry} (h : ∀ e ∈ es, e.1.IsMetadata) :
    Confined (Respects IndexingWrites) (upsertAll es) := by
  refine Confined.serial fun q hq => ?_
  obtain ⟨e, he, rfl⟩ := List.mem_map.mp hq
  exact confined_upsert (.inl (h e he))

private theorem confined_deleteAll {cells : List RegistryCell} (h : ∀ c ∈ cells, c.IsMetadata) :
    Confined (Respects IndexingWrites) (deleteAll cells) := by
  refine Confined.serial fun q hq => ?_
  obtain ⟨c, hc, rfl⟩ := List.mem_map.mp hq
  exact confined_deleteByPrimaryKey (.inl (h c hc))

private theorem confined_deleteIndexedMetadataFromFile (p : FilePath) :
    Confined (Respects IndexingWrites) (deleteIndexedMetadataFromFile env p) := by
  refine (confined_readFile _ _).bind fun _ => (confined_ofOption _ _).bind fun appMeta => ?_
  rcases p.filename with _ | _ | name
  · exact confined_deleteAll fun c hc => by rw [List.mem_singleton.mp hc]; trivial
  · refine (confined_readFile _ _).bind fun _ => (confined_ofOption _ _).bind fun tokens => ?_
    refine confined_deleteAll fun c hc => ?_
    obtain ⟨tokenID, -, rfl⟩ := List.mem_map.mp hc
    trivial
  · exact confined_pure ()

theorem confined_indexMetadataFromFile (env : RegistryEnv) (dir : Dir) (p : FilePath) :
    Confined (Respects IndexingWrites) (indexMetadataFromFile env dir p) := by
  refine (confined_query _ _).bind fun _ => (confined_readFile _ _).bind fun _ =>
    (confined_ofOption _ _).bind fun appMeta => ?_
  rcases p.filename with _ | _ | name
  · exact confined_upsertAll fun e he => by rw [List.mem_singleton.mp he]; trivial
  · refine (confined_readFile _ _).bind fun _ => (confined_ofOption _ _).bind fun tokens => ?_
    refine confined_upsertAll fun e he => ?_
    obtain ⟨token, -, rfl⟩ := List.mem_map.mp he
    trivial
  · exact confined_pure ()

private theorem confined_syncFile (f : FileInfo) :
    Confined (Respects IndexingWrites) (syncFile env remote f) := by
  refine Confined.bind ?_ fun _ => ?_
  · rw [deleteOldRows]
    split
    · exact confined_deleteIndexedMetadataFromFile _
    · exact confined_pure ()
  · rw [indexNewFile]
    split
    · exact confined_point rfl
    · refine Confined.bind ?_ fun _ => (confined_indexMetadataFromFile _ _ _).bind fun _ => ?_
      · exact (confined_ofOption _ _).bind fun _ => confined_point rfl
      · exact confined_point rfl

theorem confined_indexChanges (env : RegistryEnv) (collation : Collation) (remote : Remote)
    (sched : List ℕ) :
    Confined (Respects IndexingWrites) (indexChanges env collation remote sched) := by
  refine Confined.bind ?_ fun _ => Confined.bind ?_ fun _ => ?_
  · exact confined_deleteWhere fun c _ hc => hc
  · refine Confined.interleave fun p hp => ?_
    obtain ⟨app, -, rfl⟩ := List.mem_map.mp hp
    refine Confined.serial fun q hq => ?_
    obtain ⟨f, -, rfl⟩ := List.mem_map.mp hq
    exact confined_syncFile f
  · exact confined_point (.inr rfl)

/-- The state in which the applications are started. -/
def started (db : RegistryStore) : RegistrySession :=
  send .default (deleteWhere fun c _ => c.isScratch) (ofStore db)

theorem started_get {c : RegistryCell} (hc : c.isScratch = false) (db : RegistryStore) :
    (started db).committed.get c = db.get c := by
  have hfix : (deleteWhere fun c _ => c.isScratch :
      Write RegistryCell RegistryRow).Fixes c := deleteWhere_fixes fun _ => hc
  exact hfix (db.get c)

private theorem started_get_scratch {c : RegistryCell} (hc : c.isScratch = true)
    (db : RegistryStore) : (started db).committed.get c = none := by
  change (db.get c).bind (fun _ => if c.isScratch = true then none else _) = none
  cases db.get c with
  | none => rfl
  | some r => exact if_pos hc

theorem fresh_started {old : FilePath → Option String}
    (hdb : ∀ p, isMetadataFile p.filename = true → db.get (.file p) = old p) :
    Fresh old (started db) :=
  ⟨fun p hp => (started_get rfl db).trans (hdb p hp), fun _ => started_get_scratch rfl db,
    fun _ => started_get_scratch rfl db⟩

/-- The processing, taken apart. -/
theorem run_indexChanges_ok :
    (indexChanges env collation remote sched).run (ofStore db) = (.ok (), w) ↔
      ∃ w₁, (Async.interleave sched (syncApps env collation remote)).run (started db) =
          (.ok (), w₁) ∧
        w = send .dbTrx (.point .commitHash fun _ => some remote.latestCommitHash) w₁ := by
  change (Async.interleave sched (syncApps env collation remote) >>= fun _ =>
    exec .dbTrx (.point .commitHash fun _ => some remote.latestCommitHash)).run (started db) =
      (.ok (), w) ↔ _
  rw [Async.run_bind_ok]
  constructor
  · rintro ⟨⟨⟩, w₁, hrun, hw⟩
    exact ⟨w₁, hrun, (Prod.ext_iff.mp hw).2.symm⟩
  · rintro ⟨w₁, hrun, rfl⟩
    exact ⟨(), w₁, hrun, rfl⟩

/-- What the processing leaves for the operations on files. -/
structure Indexed (env : RegistryEnv) (new : FilePath → Option String) (remote : Remote)
    (db : RegistryStore) (w : RegistrySession) : Prop where
  pending : ∀ c : RegistryCell, ¬ IndexingWrites .dbTrx c → ∀ o, w.pending.act c o = o
  committed : ∀ c : RegistryCell, c.isScratch = false → w.committed.get c = db.get c
  hash : ∀ o, w.pending.act .commitHash o = some remote.latestCommitHash
  task : ∀ f ∈ remote.files, scheduled f.filename (w.view .default) =
    if env.Known f.filename then some (taskOf f) else none
  temp : ∀ f ∈ remote.files, env.Known f.filename → f.status ≠ .removed →
    Dir.get .tempDownloads f.filename (w.view .default) = new f.filename

/-- Whatever is cut off before the commit leaves the clone, the tables and the hash. -/
theorem keeps_committed_indexChanges (env : RegistryEnv) (collation : Collation) (remote : Remote)
    (sched : List ℕ) (db : RegistryStore) {c : RegistryCell} (hc : c.isScratch = false) :
    (indexChanges env collation remote sched).Keeps fun w => w.committed.get c = db.get c := by
  refine (confined_indexChanges env collation remote sched).keeps_committed_get
    (fun st hst => hst c ?_) _
  simp [IndexingWrites, hc]

section Runs

variable (hdiff : IsDiff A.files.get B.files.get remote.files)
  (hdl : Delivers env B.files.get remote)
  (hdb : ∀ p, isMetadataFile p.filename = true → db.get (.file p) = A.files.get p)

include hdiff hdl hdb in
theorem exists_run_indexChanges (collation : Collation) (sched : List ℕ) :
    ∃ w, (indexChanges env collation remote sched).run (ofStore db) = (.ok (), w) := by
  obtain ⟨⟨⟩, w₁, hrun⟩ := succeeds_syncApps hdiff hdl (fresh_started hdb) sched
  exact ⟨_, run_indexChanges_ok.mpr ⟨w₁, hrun, rfl⟩⟩

include hdiff hdl hdb in
theorem indexed_of_run
    (hrun : (indexChanges env collation remote sched).run (ofStore db) = (.ok (), w)) :
    Indexed env B.files.get remote db w := by
  have hcommitted : ∀ c : RegistryCell, c.isScratch = false → w.committed.get c = db.get c := by
    intro c hc
    have hend := (keeps_committed_indexChanges env collation remote sched db hc).run
      (s := ofStore db) rfl
    rwa [hrun] at hend
  have hpending : ∀ c : RegistryCell, ¬ IndexingWrites .dbTrx c →
      ∀ o, w.pending.act c o = o := by
    intro c hc
    have hend := ((confined_indexChanges env collation remote sched).keeps_pending_act
      (fun st hst => hst c hc) fun o => o).run (s := ofStore db) fun _ => rfl
    rwa [hrun] at hend
  obtain ⟨w₁, hrun₁, rfl⟩ := run_indexChanges_ok.mp hrun
  have hfresh := fresh_started hdb
  -- The files of an application are as its own thread left them.
  have hthread : ∀ f ∈ remote.files, env.Known f.filename → ∃ fs w₂, f ∈ fs ∧
      Progress A.files.get B.files.get f.filename.dir fs w₂ ∧
      SameOn (AppCells f.filename.dir) w₂ w₁ := by
    intro f hf hp
    obtain ⟨i, fs, hat, hmem⟩ := exists_groupAt collation hf hp
    obtain ⟨w₂, hprog, -, hsame⟩ := run_syncApps_alone (X := fun _ => False) hdiff hdl hfresh
      hrun₁ hat fun _ hc => hc.elim
    exact ⟨fs, w₂, hmem, hprog, fun c hc => hsame c (.inl hc)⟩
  refine ⟨hpending, hcommitted, fun o => ?_, fun f hf => ?_, fun f hf hp hstatus => ?_⟩
  · rw [send_dbTrx_pending, Write.comp_act, Write.point_act_self]
    rfl
  · split
    · rename_i hp
      obtain ⟨fs, w₂, hmem, hprog, hsame⟩ := hthread f hf hp
      exact ((hsame (.task f.filename) rfl).view .default).trans (hprog.tasks f hmem)
    · rename_i hp
      have hsame := run_syncApps_sameOn (X := (· = .task f.filename)) hdiff hdl hfresh hrun₁ ?_
      · exact ((hsame _ rfl).view .default).trans (hfresh.task f.filename)
      rintro c rfl g hg hgp conn hwrites
      cases conn with
      | default =>
        rcases hwrites with heq | heq
        · simp at heq
        · rw [RegistryCell.task.inj heq] at hp
          exact hp hgp
      | dbTrx => exact (Touches.fits hwrites).elim
  · obtain ⟨fs, w₂, hmem, hprog, hsame⟩ := hthread f hf hp
    exact ((hsame (.temp f.filename) rfl).view .default).trans (hprog.downloaded f hmem hstatus)

/-- No listed file of another application touches the row. -/
def Undisputed (env : RegistryEnv) (old new : FilePath → Option String) (remote : Remote)
    (d : String × String) (c : RegistryCell) : Prop :=
  ∀ g ∈ remote.files, env.Known g.filename → g.filename.dir ≠ d → ¬ Touches env old new g c

private theorem view_send_hash {c : RegistryCell} (hc : c.IsMetadata) (hash : String)
    (w : RegistrySession) :
    ((send .dbTrx (.point .commitHash fun _ => some hash) w).view .dbTrx).get c =
      (w.view .dbTrx).get c := by
  refine view_send_point_of_ne ?_ _ _ _ w
  rintro rfl
  exact hc

private theorem Touches.not_writes_of_default {f : FileInfo} {c : RegistryCell} {conn : Conn}
    (hc : c.IsMetadata) (hnot : ¬ Touches env A.files.get B.files.get f c) :
    ¬ FileWrites env A.files.get B.files.get f conn c := by
  cases conn with
  | default =>
    rintro (rfl | rfl)
    · exact hc
    · exact hc
  | dbTrx => exact hnot

include hdiff hdl hdb in
/-- The rows that only one application touches are as its own pass left them. -/
theorem indexChanges_rows {f : FileInfo} (hf : f ∈ remote.files) (hp : env.Known f.filename)
    {c : RegistryCell} (hc : c.IsMetadata)
    (hund : Undisputed env A.files.get B.files.get remote f.filename.dir c)
    (hrun : (indexChanges env collation remote sched).run (ofStore db) = (.ok (), w)) :
    ∃ fs w₂, f ∈ fs ∧ AppEffect env A.files.get B.files.get fs (started db) w₂ ∧
      (w.view .dbTrx).get c = (w₂.view .dbTrx).get c := by
  obtain ⟨w₁, hrun₁, rfl⟩ := run_indexChanges_ok.mp hrun
  obtain ⟨i, fs, hat, hmem⟩ := exists_groupAt collation hf hp
  have hothers : ∀ c', c' = c → ∀ g ∈ remote.files, env.Known g.filename →
      g.filename.dir ≠ f.filename.dir → ∀ conn,
      ¬ FileWrites env A.files.get B.files.get g conn c' := by
    rintro c' rfl g hg hgp hdir conn
    exact Touches.not_writes_of_default hc (hund g hg hgp hdir)
  obtain ⟨w₂, -, heff, hsame⟩ :=
    run_syncApps_alone hdiff hdl (fresh_started hdb) hrun₁ hat hothers
  refine ⟨fs, w₂, hmem, heff, ?_⟩
  rw [view_send_hash hc, (hsame c (.inr rfl)).view]

include hdiff hdl hdb in
/-- The rows that no listed file touches are the old ones. -/
theorem indexChanges_untouched {c : RegistryCell} (hc : c.IsMetadata)
    (hnot : ∀ g ∈ remote.files, env.Known g.filename → ¬ Touches env A.files.get B.files.get g c)
    (hrun : (indexChanges env collation remote sched).run (ofStore db) = (.ok (), w)) :
    (w.view .dbTrx).get c = db.get c := by
  obtain ⟨w₁, hrun₁, rfl⟩ := run_indexChanges_ok.mp hrun
  have hsame := run_syncApps_sameOn (X := (· = c)) hdiff hdl (fresh_started hdb) hrun₁ ?_
  · rw [view_send_hash hc, (hsame c rfl).view]
    exact started_get hc.not_scratch db
  · rintro c' rfl g hg hgp conn
    exact Touches.not_writes_of_default hc (hnot g hg hgp)

include hdiff hdl hdb in
/-- In some order the rows an old file lists are deleted last. -/
theorem exists_indexChanges_deleted (collation : Collation) {f : FileInfo} (hf : f ∈ remote.files)
    {c : RegistryCell} {r : RegistryRow c} (hupd : f.status ∈ fileUpdatedStatuses)
    (hr : env.Lists A.files.get f.filename c r)
    (hnot : ∀ r', ¬ env.Lists B.files.get f.filename c r') :
    ∃ sched w, (indexChanges env collation remote sched).run (ofStore db) = (.ok (), w) ∧
      (w.view .dbTrx).get c = none := by
  obtain ⟨i, fs, hat, hmem⟩ := exists_groupAt collation hf hr.1
  obtain ⟨sched, w₁, w₂, hrun, heff⟩ := exists_run_syncApps_last hdiff hdl (fresh_started hdb) hat
  refine ⟨sched, _, run_indexChanges_ok.mpr ⟨w₂, hrun, rfl⟩, ?_⟩
  rw [view_send_hash hr.fits.isMetadata]
  exact heff.deleted f hmem c r hupd hr fun _ => hnot

end Runs

end Indexing

/-! ### The operations on files -/

section Files

variable {faults : Faults} {remote : Remote} {l : List FileInfo} {p : FilePath}
  {v : RegistrySession}

/-- A loop over different files in which each pass changes only cells that belong to its file, and
makes the file what `result` says of the cells in `v`. The loop may be entered in a state that
differs from `v` in the cells of other files. -/
private theorem run_serial_files {op : FilePath → Program Unit}
    {cells : FilePath → RegistryCell → Prop} {result : FilePath → RegistryStore → Option String}
    (hcells : ∀ p q c, cells p c → cells q c → p = q) (hfile : ∀ p, cells p (.file p))
    (hnodup : (l.map FileInfo.filename).Nodup)
    (hop : ∀ f ∈ l, ∀ u : RegistrySession,
      (∀ c, (∀ q, q ≠ f.filename → ¬ cells q c) → u.committed.get c = v.committed.get c) →
      ∃ u₁, (op f.filename).run u = (.ok (), u₁) ∧ u₁.pending = u.pending ∧
        (∀ c, ¬ cells f.filename c → u₁.committed.get c = u.committed.get c) ∧
        Dir.get .clone f.filename u₁.committed = result f.filename v.committed)
    {u : RegistrySession} (hu : ∀ c, (∀ q, (∀ f ∈ l, f.filename ≠ q) → ¬ cells q c) →
      u.committed.get c = v.committed.get c) :
    ∃ u', (Async.serial (l.map fun f => op f.filename)).run u = (.ok (), u') ∧
      u'.pending = u.pending ∧
      (∀ c, (∀ f ∈ l, ¬ cells f.filename c) → u'.committed.get c = u.committed.get c) ∧
      ∀ f ∈ l, Dir.get .clone f.filename u'.committed = result f.filename v.committed := by
  -- By induction on the files still to come, whose cells are as in `v`.
  induction l generalizing u with
  | nil => exact ⟨u, rfl, rfl, fun _ _ => rfl, by simp⟩
  | cons f l ih =>
    obtain ⟨hnotin, hnodup⟩ := List.nodup_cons.mp hnodup
    obtain ⟨u₁, hrun₁, hpend₁, hother₁, hresult₁⟩ := hop f List.mem_cons_self u fun c hc =>
      hu c fun q hq => hc q fun heq => hq f List.mem_cons_self heq.symm
    have hu₁ : ∀ c, (∀ q, (∀ g ∈ l, g.filename ≠ q) → ¬ cells q c) →
        u₁.committed.get c = v.committed.get c := by
      intro c hc
      have hnot : ¬ cells f.filename c := hc f.filename fun g hg heq =>
        hnotin (List.mem_map.mpr ⟨g, hg, heq⟩)
      rw [hother₁ c hnot]
      exact hu c fun q hq => hc q fun g hg => hq g (List.mem_cons_of_mem f hg)
    obtain ⟨u', hrun, hpend, hother, hresult⟩ :=
      ih hnodup (fun g hg => hop g (List.mem_cons_of_mem f hg)) hu₁
    refine ⟨u', Async.run_bind_ok.mpr ⟨(), u₁, hrun₁, hrun⟩, hpend.trans hpend₁,
      fun c hc => ?_, List.forall_mem_cons.mpr ⟨?_, hresult⟩⟩
    · rw [hother c fun g hg => hc g (List.mem_cons_of_mem f hg)]
      exact hother₁ c (hc f List.mem_cons_self)
    · have hlater := hother (.file f.filename) fun g hg hcell => hnotin (List.mem_map.mpr
        ⟨g, hg, hcells _ _ _ hcell (hfile f.filename)⟩)
      exact Eq.trans hlater hresult₁

/-- The local file after `rm`. -/
def removedFile (faults : Faults) (p : FilePath) (db : RegistryStore) : Option String :=
  if scheduled p db = some .delete ∧ faults.rmFails p = false then none else Dir.get .clone p db

/-- The local file after `mv`. -/
def movedFile (faults : Faults) (p : FilePath) (db : RegistryStore) : Option String :=
  if scheduled p db = some .move ∧ faults.mvFails p = false then Dir.get .tempDownloads p db
  else Dir.get .clone p db

private def FileCell (p : FilePath) (c : RegistryCell) : Prop := c = .file p

private def MoveCells (p : FilePath) (c : RegistryCell) : Prop := c = .file p ∨ c = .temp p

theorem run_removeFiles (faults : Faults) (hnodup : (l.map FileInfo.filename).Nodup)
    (v : RegistrySession) :
    ∃ v', (Async.serial (l.map fun f => removeFile faults f.filename)).run v = (.ok (), v') ∧
      v'.pending = v.pending ∧
      (∀ c, (∀ f ∈ l, c ≠ .file f.filename) → v'.committed.get c = v.committed.get c) ∧
      ∀ f ∈ l, Dir.get .clone f.filename v'.committed =
        removedFile faults f.filename v.committed := by
  have hcells : ∀ p q c, FileCell p c → FileCell q c → p = q :=
    fun p q c hp hq => RegistryCell.file.inj (hp.symm.trans hq)
  have hself : ∀ p, FileCell p (.file p) := fun p => rfl
  refine run_serial_files hcells hself hnodup (fun f _ u hu => ?_) fun _ _ => rfl
  have htask : scheduled f.filename u.committed = scheduled f.filename v.committed :=
    hu (.task f.filename) fun q _ => by simp [FileCell]
  have hfile : Dir.get .clone f.filename u.committed = Dir.get .clone f.filename v.committed :=
    hu (.file f.filename) fun q hq heq => hq (RegistryCell.file.inj heq).symm
  rw [removeFile, removedFile]
  simp only [run_query_bind]
  change ∃ u₁, Async.run (if scheduled f.filename u.committed = _ ∧ _ then _ else _) u = _ ∧ _
  rw [htask]
  split
  · refine ⟨_, rfl, rfl, fun c hc => ?_, ?_⟩
    · exact deleteRow_fixes hc (u.committed.get c)
    · exact deleteRow_act_self _ _
  · exact ⟨u, rfl, rfl, fun _ _ => rfl, hfile⟩

theorem run_moveFiles (faults : Faults) (hnodup : (l.map FileInfo.filename).Nodup)
    (v : RegistrySession) (htemp : ∀ f ∈ l, scheduled f.filename v.committed = some .move →
      (Dir.get .tempDownloads f.filename v.committed).isSome) :
    ∃ v', (Async.serial (l.map fun f => moveFile faults f.filename)).run v = (.ok (), v') ∧
      v'.pending = v.pending ∧
      (∀ c, (∀ f ∈ l, c ≠ .file f.filename ∧ c ≠ .temp f.filename) →
        v'.committed.get c = v.committed.get c) ∧
      ∀ f ∈ l, Dir.get .clone f.filename v'.committed =
        movedFile faults f.filename v.committed := by
  have hcells : ∀ p q c, MoveCells p c → MoveCells q c → p = q := by
    rintro p q c (rfl | rfl) (heq | heq)
    · exact RegistryCell.file.inj heq
    · simp at heq
    · simp at heq
    · exact RegistryCell.temp.inj heq
  have hself : ∀ p, MoveCells p (.file p) := fun p => .inl rfl
  have hop : ∀ f ∈ l, ∀ u : RegistrySession, (∀ c, (∀ q, q ≠ f.filename → ¬ MoveCells q c) →
      u.committed.get c = v.committed.get c) →
      ∃ u₁, (moveFile faults f.filename).run u = (.ok (), u₁) ∧ u₁.pending = u.pending ∧
        (∀ c, ¬ MoveCells f.filename c → u₁.committed.get c = u.committed.get c) ∧
        Dir.get .clone f.filename u₁.committed = movedFile faults f.filename v.committed := by
    intro f hf u hu
    -- The passes before this one have touched neither its task nor its two files.
    have htask : scheduled f.filename u.committed = scheduled f.filename v.committed :=
      hu (.task f.filename) fun q _ => by simp [MoveCells]
    have hfile : Dir.get .clone f.filename u.committed =
        Dir.get .clone f.filename v.committed := by
      refine hu (.file f.filename) fun q hq => ?_
      rintro (heq | heq)
      · exact hq (RegistryCell.file.inj heq).symm
      · simp at heq
    have htext : Dir.get .tempDownloads f.filename u.committed =
        Dir.get .tempDownloads f.filename v.committed := by
      refine hu (.temp f.filename) fun q hq => ?_
      rintro (heq | heq)
      · simp at heq
      · exact hq (RegistryCell.temp.inj heq).symm
    rw [moveFile, movedFile]
    simp only [run_query_bind]
    change ∃ u₁, Async.run (if scheduled f.filename u.committed = _ ∧ _ then _ else _) u = _ ∧ _
    rw [htask]
    split
    · rename_i hmove
      obtain ⟨text, htext'⟩ := Option.isSome_iff_exists.mp (htemp f hf hmove.1)
      rw [run_readFile_bind (htext.trans htext')]
      refine ⟨_, rfl, rfl, fun c hc => ?_, ?_⟩
      · obtain ⟨hfc, htc⟩ := not_or.mp hc
        refine (deleteRow_fixes htc _).trans ?_
        exact Write.point_fixes hfc _ _
      · have hne : RegistryCell.file f.filename ≠ .temp f.filename := by simp
        rw [htext']
        exact (deleteRow_fixes hne _).trans (Write.point_act_self _ _ _)
    · exact ⟨u, rfl, rfl, fun _ _ => rfl, hfile⟩
  obtain ⟨v', hrun, hpend, hother, hresult⟩ :=
    run_serial_files hcells hself hnodup hop fun _ _ => rfl
  exact ⟨v', hrun, hpend, fun c hc => hother c fun f hf => not_or.mpr (hc f hf), hresult⟩

/-- The local file after the operations. -/
def replacedFile (faults : Faults) (p : FilePath) (db : RegistryStore) : Option String :=
  if scheduled p db = some .move ∧ faults.mvFails p = false then Dir.get .tempDownloads p db
  else removedFile faults p db

/-- The end of the operations: an error if a file could not be moved, else the temporary directory
is removed. -/
private theorem run_clearScratch (remote : Remote) (faults : Faults) (v : RegistrySession) :
    ∃ r v', Async.run (do
        let failed ← query .default fun db => remote.files.any fun f =>
          moveFailed faults db f.filename
        if failed then .throw .renameFailed
        else do
          clearScratch
          if faults.eventFails then .throw .eventFailed else pure () : Program Unit) v = (r, v') ∧
      (r = .ok () ↔ (∀ f ∈ remote.files, moveFailed faults v.committed f.filename = false) ∧
        faults.eventFails = false) ∧
      v'.pending = v.pending ∧
      ∀ c : RegistryCell, c.isScratch = false → v'.committed.get c = v.committed.get c := by
  have hany : (remote.files.any fun f => moveFailed faults (v.view .default) f.filename) = false ↔
      ∀ f ∈ remote.files, moveFailed faults v.committed f.filename = false := by
    simp only [List.any_eq_false, Bool.not_eq_true]
    rfl
  rw [run_query_bind]
  by_cases hfail : (remote.files.any fun f =>
      moveFailed faults (v.view .default) f.filename) = true
  · refine ⟨.error .renameFailed, v, by rw [if_pos hfail]; rfl, ?_, rfl, fun _ _ => rfl⟩
    refine iff_of_false (by simp) fun h => ?_
    rw [hany.mpr h.1] at hfail
    simp at hfail
  · rw [if_neg hfail]
    have hall := hany.mp (by simpa using hfail)
    refine ⟨if faults.eventFails then .error .eventFailed else .ok (),
      send .default (deleteWhere fun c _ => c.isScratch) v, ?_, ?_, rfl, fun c hc => ?_⟩
    · change Async.run (if faults.eventFails = true then _ else _) _ = _
      split <;> rfl
    · by_cases hevent : faults.eventFails = true
      · simp [hevent]
      · simpa [hevent] using hall
    · have hfix : (deleteWhere fun c _ => c.isScratch :
          Write RegistryCell RegistryRow).Fixes c := deleteWhere_fixes fun _ => hc
      exact hfix _

/-- **The operations on files.** -/
theorem run_replaceFiles (faults : Faults) (hnodup : (remote.files.map FileInfo.filename).Nodup)
    (v : RegistrySession) (htemp : ∀ f ∈ remote.files,
      scheduled f.filename v.committed = some .move →
      (Dir.get .tempDownloads f.filename v.committed).isSome) :
    ∃ r v', (replaceFiles remote faults).run v = (r, v') ∧
      (r = .ok () ↔ (∀ f ∈ remote.files, moveFailed faults v.committed f.filename = false) ∧
        faults.eventFails = false) ∧
      v'.pending = v.pending ∧
      (∀ c : RegistryCell, c.isScratch = false → (∀ f ∈ remote.files, c ≠ .file f.filename) →
        v'.committed.get c = v.committed.get c) ∧
      ∀ f ∈ remote.files, Dir.get .clone f.filename v'.committed =
        replacedFile faults f.filename v.committed := by
  obtain ⟨v₁, hrun₁, hpend₁, hother₁, hfile₁⟩ := run_removeFiles faults hnodup v
  have htask₁ : ∀ p, scheduled p v₁.committed = scheduled p v.committed :=
    fun p => hother₁ (.task p) fun f _ => by simp
  have htemp₁ : ∀ p, Dir.get .tempDownloads p v₁.committed = Dir.get .tempDownloads p v.committed :=
    fun p => hother₁ (.temp p) fun f _ => by simp
  obtain ⟨v₂, hrun₂, hpend₂, hother₂, hfile₂⟩ := run_moveFiles faults hnodup v₁ fun f hf => by
    rw [htask₁, htemp₁]
    exact htemp f hf
  have htask₂ : ∀ p, scheduled p v₂.committed = scheduled p v.committed :=
    fun p => (hother₂ (.task p) fun f _ => by simp).trans (htask₁ p)
  have hfailed : ∀ p, moveFailed faults v₂.committed p = moveFailed faults v.committed p := by
    intro p
    rw [moveFailed, moveFailed, htask₂]
  have hresult : ∀ f ∈ remote.files, Dir.get .clone f.filename v₂.committed =
      replacedFile faults f.filename v.committed := by
    intro f hf
    rw [hfile₂ f hf, movedFile, replacedFile, htask₁, htemp₁, hfile₁ f hf]
  have hkeep : ∀ c : RegistryCell, c.isScratch = false →
      (∀ f ∈ remote.files, c ≠ .file f.filename) → v₂.committed.get c = v.committed.get c := by
    intro c hc hne
    refine (hother₂ c fun f hf => ⟨hne f hf, ?_⟩).trans (hother₁ c hne)
    rintro rfl
    simp [RegistryCell.isScratch] at hc
  obtain ⟨r, v₃, hrun₃, hr, hpend₃, hclear⟩ := run_clearScratch remote faults v₂
  refine ⟨r, v₃, ?_, ?_, (hpend₃.trans hpend₂).trans hpend₁, fun c hc hne => ?_, fun f hf => ?_⟩
  · rw [replaceFiles]
    rw [Async.run_bind, hrun₁]
    simp only []
    rw [Async.run_bind, hrun₂]
    exact hrun₃
  · rw [hr]
    simp only [hfailed]
  -- The temporary directory is removed in the end; the files stay.
  · exact (hclear c hc).trans (hkeep c hc hne)
  · exact (hclear (.file f.filename) rfl).trans (hresult f hf)

end Files

end AppRegistry

end SwaptoshiService
