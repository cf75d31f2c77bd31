import SwaptoshiService.AppRegistry.SyncOutcome

/-!
# When the synchronisation follows the repository

`Corresponds` is what `syncWithRemoteRepo` starts from and should end in: tables, local files and
stored hash are those of one commit. `sync_follows_iff` states exactly when it does so in every
order in which the applications are processed and for every failure outside. The condition
`SyncFollows` speaks of the two commits, the list of changed files and the failures only; what is
assumed of the remote repository is that the list is the difference of the two commits (`IsDiff`),
that the downloads deliver the new one (`Delivers`) and that a hash names one commit.

A failure before the commit is harmless. After it the files are replaced, and there is nothing to
undo that: `FilesFollow` and `FilesKept` say which failures leave all of them at one commit.
`RowsFollow` is what the incremental update of the tables needs.
-/

namespace SwaptoshiService

namespace AppRegistry

open Session Table

variable {env : RegistryEnv} {own : RegistryCell → Prop}

/-- The tables are those `indexAllBlockchainAppsMeta` makes of the commit's files, the local files
are the commit's, and so is the stored hash. -/
structure Corresponds (C : Commit env own) (db : RegistryStore) : Prop where
  rows : ∃ tables, Produces env C.files tables ∧
    ∀ c : RegistryCell, c.IsMetadata → own c → db.get c = tables.get c
  files : ∀ p, isMetadataFile p.filename = true → Dir.get .clone p db = C.files.get p
  hash : lastSyncedCommitHash db = some C.hash

/-- The operation on a local file fails. -/
def Faults.opFails (faults : Faults) (f : FileInfo) : Bool :=
  if f.status = .removed then faults.rmFails f.filename else faults.mvFails f.filename

/-- The call ends with an error after the point of the commit. -/
def EndsWithError (env : RegistryEnv) (remote : Remote) (faults : Faults) : Prop :=
  (∃ f ∈ remote.files, env.Known f.filename ∧ f.status ≠ .removed ∧
    faults.mvFails f.filename = true) ∨ faults.eventFails = true

/-- Every metadata file that changes is in a supported network and is replaced, and no metadata
file was renamed. -/
structure FilesFollow (env : RegistryEnv) (old new : FilePath → Option String) (remote : Remote)
    (faults : Faults) : Prop where
  replaced : ∀ f ∈ remote.files, isMetadataFile f.filename.filename = true →
    old f.filename ≠ new f.filename → env.Known f.filename ∧ faults.opFails f = false
  renamed : ∀ f ∈ remote.files, f.status = .renamed → ∀ p, f.previousFilename = some p →
    isMetadataFile p.filename = false

/-- No metadata file that changes is replaced. -/
def FilesKept (env : RegistryEnv) (old new : FilePath → Option String) (remote : Remote)
    (faults : Faults) : Prop :=
  ∀ f ∈ remote.files, env.Known f.filename → old f.filename ≠ new f.filename →
    faults.opFails f = true

/-- The `chainName` of the application a file belongs to. -/
def RegistryEnv.chainName (env : RegistryEnv) (files : FilePath → Option String) (p : FilePath) :
    Option String := ((files p.appJson).bind env.parseApp).map AppMeta.chainName

/-- An application whose `nativetokens.json` lists tokens and is not itself listed keeps its
`chainName`, and no row passes from one application to another. -/
structure RowsFollow (env : RegistryEnv) (old new : FilePath → Option String) (remote : Remote) :
    Prop where
  chainName : ∀ p, p.filename = .nativetokensJson → (∀ f ∈ remote.files, f.filename ≠ p) →
    (∃ c r, env.Lists new p c r) → env.chainName old p = env.chainName new p
  passed : ∀ f ∈ remote.files, ∀ g ∈ remote.files, f.filename.dir ≠ g.filename.dir →
    f.status ∈ fileUpdatedStatuses → g.status ≠ .removed →
    ∀ c r r', env.Lists old f.filename c r → ¬ env.Lists new g.filename c r'

/-- After a success everything is at the new commit, after a failure at one of the two. -/
def SyncEnds (A B : Commit env own) (result : Except RegistryError Unit × RegistryStore) : Prop :=
  match result.1 with
  | .ok _ => Corresponds B result.2
  | .error _ => Corresponds A result.2 ∨ Corresponds B result.2

/-- The condition under which the call ends well, in any order. -/
def SyncFollows (A B : Commit env own) (remote : Remote) (isCustomDBTrx : Bool) (faults : Faults) :
    Prop :=
  A.hash = B.hash ∨ faults.stopAfter ≠ none ∨
    (isCustomDBTrx = false ∧ EndsWithError env remote faults ∧
      FilesKept env A.files.get B.files.get remote faults) ∨
    (¬ (isCustomDBTrx = false ∧ EndsWithError env remote faults) ∧
      FilesFollow env A.files.get B.files.get remote faults ∧
      RowsFollow env A.files.get B.files.get remote)

/-! ### Rows of two commits -/

section Rows

variable {A B : Commit env own} {p : FilePath} {c : RegistryCell} {r : RegistryRow c}
  {db : RegistryStore}

theorem corresponds_rows_iff (C : Commit env own) :
    (∃ tables, Produces env C.files tables ∧
        ∀ c : RegistryCell, c.IsMetadata → own c → db.get c = tables.get c) ↔
      ∀ c : RegistryCell, c.IsMetadata → own c →
        ∀ r, db.get c = some r ↔ ∃ p, env.Lists C.files.get p c r := by
  constructor
  · rintro ⟨tables, hprod, hrows⟩ c hc hown r
    rw [hrows c hc hown]
    exact produces_iff C hprod hc r
  · intro h
    obtain ⟨tables, hprod⟩ := exists_produces C
    refine ⟨tables, hprod, fun c hc hown => Option.ext fun r => ?_⟩
    rw [h c hc hown, produces_iff C hprod hc]

theorem Corresponds.get_iff {C : Commit env own} (h : Corresponds C db) (hc : c.IsMetadata)
    (hown : own c) (r : RegistryRow c) :
    db.get c = some r ↔ ∃ p, env.Lists C.files.get p c r :=
  (corresponds_rows_iff C).mp h.rows c hc hown r

/-- Only the tables, the metadata files and the hash matter. -/
theorem Corresponds.of_get {C : Commit env own} {db' : RegistryStore} (h : Corresponds C db)
    (hrows : ∀ c : RegistryCell, c.IsMetadata → db'.get c = db.get c)
    (hfiles : ∀ p, isMetadataFile p.filename = true → Dir.get .clone p db' = C.files.get p)
    (hhash : lastSyncedCommitHash db' = lastSyncedCommitHash db) : Corresponds C db' := by
  obtain ⟨tables, hprod, htables⟩ := h.rows
  refine ⟨⟨tables, hprod, fun c hc hown => ?_⟩, hfiles, hhash.trans h.hash⟩
  rw [hrows c hc]
  exact htables c hc hown

/-- Every commit can be stored. -/
theorem exists_corresponds (C : Commit env own) : ∃ db, Corresponds C db := by
  obtain ⟨tables, hprod⟩ := exists_produces C
  have hprod' := hprod
  obtain ⟨walk, sched, w, -, hrun, rfl⟩ := hprod
  have hconf : Confined (Respects IndexingWrites) (indexAllBlockchainAppsMeta env sched walk) := by
    refine Confined.interleave fun q hq => ?_
    obtain ⟨p, -, rfl⟩ := List.mem_map.mp hq
    exact confined_indexMetadataFromFile env .clone p
  let stamp : Write RegistryCell RegistryRow := .point .commitHash fun _ => some C.hash
  let db : RegistryStore := stamp.exec (w.view .dbTrx)
  have hget : ∀ c, c ≠ .commitHash → db.get c = (w.view .dbTrx).get c :=
    fun c hc => Write.point_act_of_ne hc _ _
  have hhash : stamp.act .commitHash ((w.view .dbTrx).get .commitHash) = some C.hash :=
    Write.point_act_self _ _ _
  refine ⟨db, ⟨_, hprod', fun c hc _ => hget c ?_⟩, fun p _ => ?_, hhash⟩
  · rintro rfl
    exact hc
  · have hsame := hconf.run_sameAt (c := .file p) (fun conn st hst => hst _ ?_)
      (ofStore (cloned C.files))
    · rw [hrun] at hsame
      exact (hget (.file p) (by simp)).trans (hsame.view .dbTrx)
    · cases conn <;> simp [IndexingWrites, RegistryCell.isScratch, RegistryCell.IsMetadata]

/-- A file that is the same in both commits lists the same primary keys, and the same rows if the
application keeps its `chainName`. -/
theorem exists_lists_of_eq (h : env.Lists A.files.get p c r)
    (hsame : A.files.get p = B.files.get p) :
    ∃ r', env.Lists B.files.get p c r' ∧
      ((p.filename = .nativetokensJson →
        env.chainName A.files.get p = env.chainName B.files.get p) → r' = r) := by
  obtain ⟨hknown, hsome, es, hes, hmem⟩ := h
  have hsomeB : (B.files.get p).isSome := hsame ▸ hsome
  obtain ⟨es', hes'⟩ := Option.isSome_iff_exists.mp (B.indexable p hknown hsomeB)
  rcases hname : p.filename with _ | _ | name
  · have hself : p.appJson = p := FilePath.eq_of_dir rfl hname.symm
    refine ⟨r, ⟨hknown, hsomeB, es, ?_, hmem⟩, fun _ => rfl⟩
    rw [← hes]
    exact entries_congr (by rw [hself, hsame]) hsame.symm
  -- The tokens are those of the text, the `chainName` is that of the `app.json` beside it.
  · have hesA := hes
    have hesB := hes'
    simp only [entries_nativetokensJson hname, Option.bind_eq_some_iff] at hesA hesB
    obtain ⟨appText, happText, m, hm, text, htext, hesA⟩ := hesA
    obtain ⟨appText', happText', m', hm', text', htext', hesB⟩ := hesB
    obtain ⟨tokens, htokens, rfl⟩ := Option.map_eq_some_iff.mp hesA
    obtain ⟨tokens', htokens', rfl⟩ := Option.map_eq_some_iff.mp hesB
    obtain rfl : text = text' := Option.some.inj (htext.symm.trans (hsame.trans htext'))
    obtain rfl : tokens = tokens' := Option.some.inj (htokens.symm.trans htokens')
    obtain ⟨token, htoken, heq⟩ := List.mem_map.mp hmem
    obtain ⟨rfl, hr⟩ := Sigma.mk.inj heq
    obtain rfl := eq_of_heq hr
    refine ⟨(tokenEntry m'.chainName p.network token).2,
      ⟨hknown, hsomeB, _, hes', List.mem_map_of_mem htoken⟩, fun hchain => ?_⟩
    have hchain' := hchain rfl
    simp only [RegistryEnv.chainName, happText, happText', Option.bind_some, hm, hm',
      Option.map_some, Option.some.injEq] at hchain'
    simp only [tokenEntry, hchain']
    rfl
  · have hmeta := hknown.2
    rw [hname] at hmeta
    simp [isMetadataFile] at hmeta

/-- The `chainName` a row carries. -/
def rowChainName : (c : RegistryCell) → RegistryRow c → Option String
  | .applicationMetadata _ _, r => some (ApplicationRow.chainName r)
  | .tokenMetadata _, r => some (TokenRow.chainName r)
  | _, _ => none

theorem rowChainName_of_lists {files : FilePath → Option String} (h : env.Lists files p c r) :
    rowChainName c r = env.chainName files p := by
  obtain ⟨hknown, -, es, hes, hmem⟩ := h
  rcases hname : p.filename with _ | _ | name
  · have hself : p.appJson = p := FilePath.eq_of_dir rfl hname.symm
    rw [entries_appJson hname, Option.bind_eq_some_iff] at hes
    obtain ⟨text, htext, hes⟩ := hes
    obtain ⟨m, hm, rfl⟩ := Option.map_eq_some_iff.mp hes
    obtain ⟨rfl, hr⟩ := Sigma.mk.inj (List.mem_singleton.mp hmem)
    obtain rfl := eq_of_heq hr
    rw [RegistryEnv.chainName, hself, htext, Option.bind_some, hm]
    rfl
  · simp only [entries_nativetokensJson hname, Option.bind_eq_some_iff] at hes
    obtain ⟨appText, happText, m, hm, text, -, hes⟩ := hes
    obtain ⟨tokens, -, rfl⟩ := Option.map_eq_some_iff.mp hes
    obtain ⟨token, -, heq⟩ := List.mem_map.mp hmem
    obtain ⟨rfl, hr⟩ := Sigma.mk.inj heq
    obtain rfl := eq_of_heq hr
    rw [RegistryEnv.chainName, happText, Option.bind_some, hm]
    rfl
  · have hmeta := hknown.2
    rw [hname] at hmeta
    simp [isMetadataFile] at hmeta

end Rows

/-! ### The result of a call -/

section Result

variable {A B : Commit env own} {remote : Remote} {faults : Faults}
  {db : RegistryStore} {w : RegistrySession}

private theorem Indexed.scheduled_committed {new : FilePath → Option String}
    (h : Indexed env new remote db w) {f : FileInfo} (hf : f ∈ remote.files) :
    scheduled f.filename w.committed = if env.Known f.filename then some (taskOf f) else none :=
  h.task f hf

/-- What becomes of the local file of a listed one. -/
private theorem Indexed.replacedFile (hdiff : IsDiff A.files.get B.files.get remote.files)
    (h : Indexed env B.files.get remote db w) {f : FileInfo} (hf : f ∈ remote.files) :
    replacedFile faults f.filename w.committed =
      if env.Known f.filename ∧ faults.opFails f = false then B.files.get f.filename
      else Dir.get .clone f.filename db := by
  have hclone : Dir.get .clone f.filename w.committed = Dir.get .clone f.filename db :=
    h.committed (.file f.filename) rfl
  rw [AppRegistry.replacedFile, removedFile]
  rw [h.scheduled_committed hf, hclone]
  by_cases hp : env.Known f.filename
  · rw [if_pos hp]
    by_cases hs : f.status = .removed
    · have htask : taskOf f = .delete := if_pos hs
      have hfails : faults.opFails f = faults.rmFails f.filename := if_pos hs
      rw [htask, hfails, (hdiff.removed f hf hs).2]
      simp [hp]
    · have htask : taskOf f = .move := if_neg hs
      have hfails : faults.opFails f = faults.mvFails f.filename := if_neg hs
      have htemp : Dir.get .tempDownloads f.filename w.committed = B.files.get f.filename :=
        h.temp f hf hp hs
      rw [htask, hfails, htemp]
      simp [hp]
  · simp [hp]

private theorem Indexed.moveFailed_iff {new : FilePath → Option String}
    (h : Indexed env new remote db w) :
    ((∀ f ∈ remote.files, moveFailed faults w.committed f.filename = false) ∧
      faults.eventFails = false) ↔ ¬ EndsWithError env remote faults := by
  have hone : ∀ f ∈ remote.files, moveFailed faults w.committed f.filename = false ↔
      ¬ (env.Known f.filename ∧ f.status ≠ .removed ∧ faults.mvFails f.filename = true) := by
    intro f hf
    rw [moveFailed, h.scheduled_committed hf]
    by_cases hp : env.Known f.filename
    · by_cases hs : f.status = .removed
      · have htask : taskOf f = .delete := if_pos hs
        simp [hp, hs, htask]
      · have htask : taskOf f = .move := if_neg hs
        simp [hp, hs, htask]
    · simp [hp]
  rw [EndsWithError]
  constructor
  · rintro ⟨hall, hevent⟩ (⟨f, hf, hfail⟩ | hfail)
    · exact (hone f hf).mp (hall f hf) hfail
    · rw [hevent] at hfail
      simp at hfail
  · intro hnot
    refine ⟨fun f hf => (hone f hf).mpr fun hfail => hnot (.inl ⟨f, hf, hfail⟩), ?_⟩
    exact Bool.eq_false_iff.mpr fun hevent => hnot (.inr hevent)

/-- The session in which the operations on files start. -/
def afterCommitOwn (isCustomDBTrx : Bool) (w : RegistrySession) : RegistrySession :=
  if isCustomDBTrx then w.commit else w

/-- What is stored at the end of a call. -/
def storedBy (v : RegistrySession) : Except RegistryError Unit → RegistryStore
  | .ok () => v.view .dbTrx
  | .error _ => v.committed

private theorem Indexed.get_afterCommitOwn {new : FilePath → Option String}
    (h : Indexed env new remote db w) (isCustomDBTrx : Bool) {c : RegistryCell}
    (hc : ¬ IndexingWrites .dbTrx c) :
    (afterCommitOwn isCustomDBTrx w).committed.get c = w.committed.get c := by
  rw [afterCommitOwn]
  split
  · exact h.pending c hc _
  · rfl

/-- A file that is to be moved was downloaded. -/
private theorem Indexed.ready (hdiff : IsDiff A.files.get B.files.get remote.files)
    (h : Indexed env B.files.get remote db w) {f : FileInfo} (hf : f ∈ remote.files)
    (hmove : scheduled f.filename w.committed = some .move) :
    (Dir.get .tempDownloads f.filename w.committed).isSome := by
  rw [h.scheduled_committed hf] at hmove
  by_cases hp : env.Known f.filename
  · rw [if_pos hp] at hmove
    have hs : f.status ≠ .removed := by
      intro hs
      have htask : taskOf f = .delete := if_pos hs
      rw [htask] at hmove
      simp at hmove
    have hdown : Dir.get .tempDownloads f.filename w.committed = B.files.get f.filename :=
      h.temp f hf hp hs
    rw [hdown]
    exact hdiff.isSome_new hf hs
  · simp [hp] at hmove

private theorem run_syncProgram {collation : Collation} {sched : List ℕ}
    (hrun : (indexChanges env collation remote sched).run (ofStore db) = (.ok (), w))
    (isCustomDBTrx : Bool) :
    (syncProgram env collation remote isCustomDBTrx faults sched).run (ofStore db) =
      (replaceFiles remote faults).run (afterCommitOwn isCustomDBTrx w) := by
  rw [syncProgram]
  rw [Async.run_bind, hrun]
  simp only [afterCommitOwn, commitOwn]
  split <;> rfl

private theorem syncWithRemoteRepo_eq {collation : Collation} {sched : List ℕ}
    {isCustomDBTrx : Bool} {r : Except RegistryError Unit} {v : RegistrySession}
    (hne : lastSyncedCommitHash db ≠ some remote.latestCommitHash)
    (hstop : faults.stopAfter = none)
    (hprogram : (syncProgram env collation remote isCustomDBTrx faults sched).run (ofStore db) =
      (r, v)) :
    syncWithRemoteRepo env collation remote isCustomDBTrx faults sched db = (r, storedBy v r) := by
  rw [syncWithRemoteRepo]
  rw [if_neg hne, hstop]
  simp only [hprogram]
  cases r with
  | ok a => rfl
  | error e => rfl

/-- The rows of the tables and the hash are stored, unless the caller rolls them back. -/
private theorem get_storedBy {isCustomDBTrx : Bool} {r : Except RegistryError Unit}
    {v : RegistrySession} {c : RegistryCell}
    (hpend : v.pending = (afterCommitOwn isCustomDBTrx w).pending)
    (hkept : v.committed.get c = (afterCommitOwn isCustomDBTrx w).committed.get c)
    (hstored : isCustomDBTrx = false → r = .ok ()) :
    (storedBy v r).get c = (w.view .dbTrx).get c := by
  cases hcustom : isCustomDBTrx with
  | true =>
    have hv : afterCommitOwn isCustomDBTrx w = w.commit := if_pos hcustom
    rw [hv] at hkept hpend
    cases r with
    | ok a =>
      change v.pending.act c (v.committed.get c) = _
      rw [hpend, hkept]
      rfl
    | error e => exact hkept
  | false =>
    have hv : afterCommitOwn isCustomDBTrx w = w := if_neg (by simp [hcustom])
    rw [hv] at hkept hpend
    rw [hstored hcustom]
    change v.pending.act c (v.committed.get c) = _
    rw [hpend, hkept]
    rfl

/-- **What a call leaves** that was not stopped before its commit. -/
theorem exists_sync_result (collation : Collation) (isCustomDBTrx : Bool)
    (hdiff : IsDiff A.files.get B.files.get remote.files)
    (hdl : Delivers env B.files.get remote) (hdb : Corresponds A db)
    (hne : lastSyncedCommitHash db ≠ some remote.latestCommitHash)
    (hstop : faults.stopAfter = none) (sched : List ℕ) :
    ∃ w r db', (indexChanges env collation remote sched).run (ofStore db) = (.ok (), w) ∧
      syncWithRemoteRepo env collation remote isCustomDBTrx faults sched db = (r, db') ∧
      (r = .ok () ↔ ¬ EndsWithError env remote faults) ∧
      (∀ f ∈ remote.files, Dir.get .clone f.filename db' =
        if env.Known f.filename ∧ faults.opFails f = false then B.files.get f.filename
        else Dir.get .clone f.filename db) ∧
      (∀ p, (∀ f ∈ remote.files, f.filename ≠ p) → Dir.get .clone p db' = Dir.get .clone p db) ∧
      (¬ (isCustomDBTrx = false ∧ EndsWithError env remote faults) →
        lastSyncedCommitHash db' = some remote.latestCommitHash ∧
        ∀ c : RegistryCell, c.IsMetadata → db'.get c = (w.view .dbTrx).get c) ∧
      (isCustomDBTrx = false → EndsWithError env remote faults →
        lastSyncedCommitHash db' = lastSyncedCommitHash db ∧
        ∀ c : RegistryCell, c.IsMetadata → db'.get c = db.get c) := by
  obtain ⟨w, hrun⟩ := exists_run_indexChanges hdiff hdl hdb.files collation sched
  have hidx := indexed_of_run hdiff hdl hdb.files hrun
  have hscheduled : ∀ p, scheduled p (afterCommitOwn isCustomDBTrx w).committed =
      scheduled p w.committed := fun p => hidx.get_afterCommitOwn isCustomDBTrx
    (c := .task p) (by simp [IndexingWrites, RegistryCell.IsMetadata])
  have htemp : ∀ p, Dir.get .tempDownloads p (afterCommitOwn isCustomDBTrx w).committed =
      Dir.get .tempDownloads p w.committed := fun p => hidx.get_afterCommitOwn isCustomDBTrx
    (c := .temp p) (by simp [IndexingWrites, RegistryCell.IsMetadata])
  have hclone : ∀ p, Dir.get .clone p (afterCommitOwn isCustomDBTrx w).committed =
      Dir.get .clone p w.committed := fun p => hidx.get_afterCommitOwn isCustomDBTrx
    (c := .file p) (by simp [IndexingWrites, RegistryCell.IsMetadata])
  obtain ⟨r, v, hrun', hr, hpend, hkeep, hfile⟩ :=
    run_replaceFiles faults hdiff.nodup (afterCommitOwn isCustomDBTrx w) fun f hf hmove => by
      rw [hscheduled] at hmove
      rw [htemp]
      exact hidx.ready hdiff hf hmove
  have hends : r = .ok () ↔ ¬ EndsWithError env remote faults := by
    rw [hr, ← hidx.moveFailed_iff]
    simp only [moveFailed, hscheduled]
  have hresult := syncWithRemoteRepo_eq hne hstop ((run_syncProgram hrun isCustomDBTrx).trans hrun')
  have hfiles : ∀ p, Dir.get .clone p (storedBy v r) = Dir.get .clone p v.committed := by
    intro p
    have hpending : ∀ o, v.pending.act (.file p) o = o := by
      intro o
      rw [hpend, afterCommitOwn]
      split
      · rfl
      · exact hidx.pending (.file p) (by simp [IndexingWrites, RegistryCell.IsMetadata]) o
    cases r with
    | ok a => exact hpending _
    | error e => rfl
  refine ⟨w, r, storedBy v r, hrun, hresult, hends, fun f hf => ?_, fun p hp => ?_, fun hnot => ?_,
    fun hcaller hend => ?_⟩
  · rw [hfiles, hfile f hf, ← hidx.replacedFile hdiff hf]
    simp only [replacedFile, removedFile, hscheduled, htemp, hclone]
  · rw [hfiles]
    have hfile' : Dir.get .clone p v.committed =
        Dir.get .clone p (afterCommitOwn isCustomDBTrx w).committed :=
      hkeep (.file p) rfl fun f hf heq => hp f hf (RegistryCell.file.inj heq).symm
    rw [hfile', hclone]
    exact hidx.committed (.file p) rfl
  · have hrows : ∀ c : RegistryCell, c.isScratch = false → (∀ p, c ≠ .file p) →
        (storedBy v r).get c = (w.view .dbTrx).get c := fun c hc hfc =>
      get_storedBy hpend (hkeep c hc fun f _ => hfc f.filename)
        fun hcaller => hends.mpr fun hend => hnot ⟨hcaller, hend⟩
    exact ⟨(hrows .commitHash rfl (by simp)).trans (hidx.hash _),
      fun c hc => hrows c hc.not_scratch hc.ne_file⟩
  · obtain ⟨e, rfl⟩ : ∃ e, r = .error e := by
      cases r with
      | ok a => exact absurd hend (hends.mp rfl)
      | error e => exact ⟨e, rfl⟩
    -- rolled back by the caller: what is left is what was committed before
    have hv : afterCommitOwn isCustomDBTrx w = w := if_neg (by simp [hcaller])
    rw [hv] at hkeep
    have hold : ∀ c : RegistryCell, c.isScratch = false → (∀ p, c ≠ .file p) →
        (storedBy v (.error e)).get c = db.get c := fun c hc hfc =>
      (hkeep c hc fun f _ => hfc f.filename).trans (hidx.committed c hc)
    exact ⟨hold .commitHash rfl (by simp), fun c hc => hold c hc.not_scratch hc.ne_file⟩

end Result

/-! ### Files -/

section Follow

variable {A B : Commit env own} {remote : Remote} {collation : Collation} {faults : Faults}
  {isCustomDBTrx : Bool} {db db' : RegistryStore} {w : RegistrySession} {sched : List ℕ}
  (hdiff : IsDiff A.files.get B.files.get remote.files) (hdb : Corresponds A db)

include hdiff hdb in
/-- The local files are those of the new commit exactly if all that changed were replaced. -/
theorem files_follow_iff
    (hlisted : ∀ f ∈ remote.files, Dir.get .clone f.filename db' =
      if env.Known f.filename ∧ faults.opFails f = false then B.files.get f.filename
      else Dir.get .clone f.filename db)
    (hrest : ∀ p, (∀ f ∈ remote.files, f.filename ≠ p) →
      Dir.get .clone p db' = Dir.get .clone p db) :
    (∀ p, isMetadataFile p.filename = true → Dir.get .clone p db' = B.files.get p) ↔
      FilesFollow env A.files.get B.files.get remote faults := by
  constructor
  · refine fun h => ⟨fun f hf hmeta hne => ?_, fun f hf hs p hprev => ?_⟩
    · by_contra hnot
      have hend := h f.filename hmeta
      rw [hlisted f hf, if_neg hnot, hdb.files _ hmeta] at hend
      exact hne hend
    · -- The previous name is not listed: its file stays, and the new commit has none.
      obtain ⟨q, hq, hold, hnone, hunlisted⟩ := hdiff.renamed f hf hs
      obtain rfl : q = p := Option.some.inj (hq.symm.trans hprev)
      by_contra hmeta
      rw [Bool.not_eq_false] at hmeta
      have hend := h q hmeta
      rw [hrest q hunlisted, hdb.files q hmeta, hnone] at hend
      rw [hend] at hold
      simp at hold
  · intro h p hmeta
    by_cases hp : ∃ f ∈ remote.files, f.filename = p
    · obtain ⟨f, hf, rfl⟩ := hp
      rw [hlisted f hf]
      split
      · rfl
      · rename_i hnot
        rw [hdb.files _ hmeta]
        by_contra hne
        exact hnot (h.replaced f hf hmeta hne)
    · have hunlisted : ∀ f ∈ remote.files, f.filename ≠ p := fun f hf heq => hp ⟨f, hf, heq⟩
      rw [hrest p hunlisted, hdb.files p hmeta]
      refine hdiff.rest p hunlisted fun f hf hs hprev => ?_
      rw [h.renamed f hf hs p hprev] at hmeta
      simp at hmeta

include hdb in
/-- The local files are those of the old commit exactly if none was replaced. -/
theorem files_kept_iff
    (hlisted : ∀ f ∈ remote.files, Dir.get .clone f.filename db' =
      if env.Known f.filename ∧ faults.opFails f = false then B.files.get f.filename
      else Dir.get .clone f.filename db)
    (hrest : ∀ p, (∀ f ∈ remote.files, f.filename ≠ p) →
      Dir.get .clone p db' = Dir.get .clone p db) :
    (∀ p, isMetadataFile p.filename = true → Dir.get .clone p db' = A.files.get p) ↔
      FilesKept env A.files.get B.files.get remote faults := by
  constructor
  · intro h f hf hp hne
    by_contra hfails
    have hend := h f.filename hp.2
    rw [hlisted f hf, if_pos ⟨hp, by simpa using hfails⟩] at hend
    exact hne hend.symm
  · intro h p hmeta
    by_cases hp : ∃ f ∈ remote.files, f.filename = p
    · obtain ⟨f, hf, rfl⟩ := hp
      rw [hlisted f hf]
      split
      · rename_i hdone
        by_contra hne
        have hfails := h f hf hdone.1 fun heq => hne heq.symm
        rw [hdone.2] at hfails
        simp at hfails
      · exact hdb.files _ hmeta
    · rw [hrest p fun f hf heq => hp ⟨f, hf, heq⟩]
      exact hdb.files p hmeta

/-! ### Rows -/

variable (hdl : Delivers env B.files.get remote)

/-- A file of the new commit is listed, or the same as before. -/
private theorem not_touched_of_lists {c : RegistryCell} {p : FilePath} {r r' : RegistryRow c}
    (hA : env.Lists A.files.get p c r) (hB : env.Lists B.files.get p c r')
    (hunlisted : ∀ f ∈ remote.files, f.filename ≠ p) :
    ∀ g ∈ remote.files, env.Known g.filename → ¬ Touches env A.files.get B.files.get g c := by
  rintro g hg - (⟨-, r₁, hr₁⟩ | ⟨-, r₁, hr₁⟩)
  · exact hunlisted g hg (A.unique _ _ _ _ _ hr₁ hA).1
  · exact hunlisted g hg (B.unique _ _ _ _ _ hr₁ hB).1

include hdiff hdb hdl in
/-- **The tables are those of the new commit**, in any order. -/
theorem rows_follow (hfiles : FilesFollow env A.files.get B.files.get remote faults)
    (hrows : RowsFollow env A.files.get B.files.get remote)
    (hrun : (indexChanges env collation remote sched).run (ofStore db) = (.ok (), w))
    {c : RegistryCell} (hc : c.IsMetadata) (hown : own c) (r : RegistryRow c) :
    (w.view .dbTrx).get c = some r ↔ ∃ p, env.Lists B.files.get p c r := by
  have hwritten : ∀ p r', env.Lists B.files.get p c r' → (w.view .dbTrx).get c = some r' := by
    intro p r' hr'
    by_cases hp : ∃ f ∈ remote.files, f.filename = p
    · obtain ⟨f, hf, rfl⟩ := hp
      have hstatus : f.status ≠ .removed := by
        intro hs
        have hsome := hr'.2.1
        rw [(hdiff.removed f hf hs).2] at hsome
        simp at hsome
      have hund : Undisputed env A.files.get B.files.get remote f.filename.dir c := by
        rintro g hg hgp hdir (⟨hupd, r₁, hr₁⟩ | ⟨-, r₁, hr₁⟩)
        · exact hrows.passed g hg f hf hdir hupd hstatus c r₁ r' hr₁ hr'
        · exact hdir (congrArg FilePath.dir (B.unique _ _ _ _ _ hr₁ hr').1)
      obtain ⟨fs, w₂, hmem, heff, hview⟩ :=
        indexChanges_rows hdiff hdl hdb.files hf hr'.1 hc hund hrun
      rw [hview]
      exact heff.written f hmem c r' hstatus hr'
    · have hunlisted : ∀ f ∈ remote.files, f.filename ≠ p := fun f hf heq => hp ⟨f, hf, heq⟩
      have hsame := hdiff.eq_of_not_listed hunlisted hr'.2.1
      obtain ⟨r₀, hr₀, heq⟩ := exists_lists_of_eq hr' hsame.symm
      obtain rfl := heq fun hname => (hrows.chainName p hname hunlisted ⟨c, r', hr'⟩).symm
      rw [indexChanges_untouched hdiff hdl hdb.files hc (not_touched_of_lists hr₀ hr' hunlisted)
        hrun]
      exact (hdb.get_iff hc hown r₀).mpr ⟨p, hr₀⟩
  refine ⟨fun hget => ?_, fun ⟨p, hp⟩ => hwritten p r hp⟩
  by_contra hnot
  have hnoB : ∀ p r', ¬ env.Lists B.files.get p c r' := by
    intro p r' hr'
    obtain rfl := Option.some.inj (hget.symm.trans (hwritten p r' hr'))
    exact hnot ⟨p, hr'⟩
  -- A file that lists the row in the old commit has changed.
  have hchanged : ∀ p r₀, env.Lists A.files.get p c r₀ → A.files.get p ≠ B.files.get p := by
    intro p r₀ hr₀ hsame
    obtain ⟨r', hr', -⟩ := exists_lists_of_eq hr₀ hsame
    exact hnoB p r' hr'
  by_cases hold : ∃ p r₀, env.Lists A.files.get p c r₀
  · obtain ⟨p, r₀, hr₀⟩ := hold
    by_cases hp : ∃ f ∈ remote.files, f.filename = p
    · obtain ⟨f, hf, rfl⟩ := hp
      have hupd : f.status ∈ fileUpdatedStatuses := by
        by_contra hupd
        exact hchanged _ _ hr₀ (hdiff.eq_of_not_updated hf hupd hr₀.2.1)
      have hund : Undisputed env A.files.get B.files.get remote f.filename.dir c := by
        rintro g hg hgp hdir (⟨-, r₁, hr₁⟩ | ⟨-, r₁, hr₁⟩)
        · exact hdir (congrArg FilePath.dir (A.unique _ _ _ _ _ hr₁ hr₀).1)
        · exact hnoB _ _ hr₁
      obtain ⟨fs, w₂, hmem, heff, hview⟩ :=
        indexChanges_rows hdiff hdl hdb.files hf hr₀.1 hc hund hrun
      rw [hview, heff.deleted f hmem c r₀ hupd hr₀ fun _ => hnoB _] at hget
      simp at hget
    · refine hchanged p r₀ hr₀ (hdiff.rest p (fun f hf heq => hp ⟨f, hf, heq⟩) ?_)
      intro f hf hs hprev
      have hmeta := hr₀.1.2
      rw [hfiles.renamed f hf hs p hprev] at hmeta
      simp at hmeta
  · have hnone : ∀ g ∈ remote.files, env.Known g.filename →
        ¬ Touches env A.files.get B.files.get g c := by
      rintro g - - (⟨-, r₁, hr₁⟩ | ⟨-, r₁, hr₁⟩)
      · exact hold ⟨_, r₁, hr₁⟩
      · exact hnoB _ _ hr₁
    rw [indexChanges_untouched hdiff hdl hdb.files hc hnone hrun] at hget
    obtain ⟨p, hp⟩ := (hdb.get_iff hc hown r).mp hget
    exact hold ⟨p, r, hp⟩

include hdiff hdb hdl in
/-- If the tables are those of the new commit in every order, no application keeps an old
`chainName` and no row passes from one to another. -/
theorem rowsFollow_of_rows
    (h : ∀ sched w, (indexChanges env collation remote sched).run (ofStore db) = (.ok (), w) →
      ∀ c : RegistryCell, c.IsMetadata → own c → ∀ r,
        (w.view .dbTrx).get c = some r ↔ ∃ p, env.Lists B.files.get p c r) :
    RowsFollow env A.files.get B.files.get remote := by
  constructor
  · rintro p hname hunlisted ⟨c, r', hr'⟩
    have hsame := hdiff.eq_of_not_listed hunlisted hr'.2.1
    obtain ⟨r, hr, -⟩ := exists_lists_of_eq hr' hsame.symm
    have hown := B.owned p c r' hr'
    have hc := hr'.fits.isMetadata
    obtain ⟨w, hrun⟩ := exists_run_indexChanges hdiff hdl hdb.files collation []
    have hget := (h [] w hrun c hc hown r').mpr ⟨p, hr'⟩
    rw [indexChanges_untouched hdiff hdl hdb.files hc (not_touched_of_lists hr hr' hunlisted) hrun,
      (hdb.get_iff hc hown r).mpr ⟨p, hr⟩] at hget
    obtain rfl := Option.some.inj hget
    rw [← rowChainName_of_lists hr, ← rowChainName_of_lists hr']
  · intro f hf g hg hdir hupd hstatus c r r' hr hr'
    -- The application that loses the row may come last.
    have hnot : ∀ r'', ¬ env.Lists B.files.get f.filename c r'' := fun r'' hr'' =>
      hdir (congrArg FilePath.dir (B.unique _ _ _ _ _ hr'' hr').1)
    obtain ⟨sched, w, hrun, hnone⟩ :=
      exists_indexChanges_deleted hdiff hdl hdb.files collation hf hupd hr hnot
    have hget := (h sched w hrun c hr.fits.isMetadata (B.owned _ _ _ hr') r').mpr ⟨_, hr'⟩
    rw [hnone] at hget
    simp at hget

include hdb in
/-- A call that is stopped before its commit leaves everything at the old one. -/
private theorem corresponds_of_stopped {n : ℕ} (hstop : faults.stopAfter = some n)
    (hne : lastSyncedCommitHash db ≠ some remote.latestCommitHash) (sched : List ℕ) :
    SyncEnds A B (syncWithRemoteRepo env collation remote isCustomDBTrx faults sched db) := by
  have hresult : syncWithRemoteRepo env collation remote isCustomDBTrx faults sched db =
      (.error .stopped,
        ((indexChanges env collation remote sched).runFor n (ofStore db)).committed) := by
    rw [syncWithRemoteRepo]
    rw [if_neg hne, hstop]
  have hget : ∀ c : RegistryCell, c.isScratch = false →
      ((indexChanges env collation remote sched).runFor n (ofStore db)).committed.get c =
        db.get c := fun c hc =>
    (keeps_committed_indexChanges env collation remote sched db hc).runFor n rfl
  rw [hresult]
  refine Or.inl (hdb.of_get (fun c hc => hget c hc.not_scratch) (fun p hp => ?_)
    (hget .commitHash rfl))
  exact Eq.trans (hget (.file p) rfl) (hdb.files p hp)

include hdiff hdb hdl in
/-- A call that fails after the point of the commit, when the caller rolls the transaction back. -/
private theorem sync_rolledBack_iff (hhash : A.hash ≠ B.hash)
    (hne : lastSyncedCommitHash db ≠ some remote.latestCommitHash)
    (hstop : faults.stopAfter = none) (hcaller : isCustomDBTrx = false)
    (hend : EndsWithError env remote faults) :
    (∀ sched, SyncEnds A B
      (syncWithRemoteRepo env collation remote isCustomDBTrx faults sched db)) ↔
      FilesKept env A.files.get B.files.get remote faults := by
  constructor
  · intro h
    obtain ⟨w, r, db', -, hresult, hr, hlisted, hrest, -, hback⟩ := exists_sync_result
      collation isCustomDBTrx hdiff hdl hdb hne hstop []
    have hends := h []
    rw [hresult] at hends
    obtain ⟨hhash', -⟩ := hback hcaller hend
    rw [hdb.hash] at hhash'
    cases r with
    | ok a => exact absurd hend (hr.mp rfl)
    | error e =>
      rcases hends with hA | hB
      · exact (files_kept_iff hdb hlisted hrest).mp hA.files
      · exact absurd (Option.some.inj (hhash'.symm.trans hB.hash)) hhash
  · intro h sched
    obtain ⟨w, r, db', -, hresult, hr, hlisted, hrest, -, hback⟩ := exists_sync_result
      collation isCustomDBTrx hdiff hdl hdb hne hstop sched
    rw [hresult]
    obtain ⟨hhash', hrows⟩ := hback hcaller hend
    cases r with
    | ok a => exact absurd hend (hr.mp rfl)
    | error e =>
      exact Or.inl (hdb.of_get hrows ((files_kept_iff hdb hlisted hrest).mpr h) hhash')

include hdiff hdb hdl in
/-- A call whose transaction is committed. -/
theorem sync_committed_iff (hlatest : remote.latestCommitHash = B.hash)
    (hhash : A.hash ≠ B.hash)
    (hne : lastSyncedCommitHash db ≠ some remote.latestCommitHash)
    (hstop : faults.stopAfter = none)
    (hnot : ¬ (isCustomDBTrx = false ∧ EndsWithError env remote faults)) :
    (∀ sched, SyncEnds A B
      (syncWithRemoteRepo env collation remote isCustomDBTrx faults sched db)) ↔
      FilesFollow env A.files.get B.files.get remote faults ∧
        RowsFollow env A.files.get B.files.get remote := by
  constructor
  · intro h
    -- Whatever the result, it can only be at the new commit.
    have hnew : ∀ sched, ∃ w db', (indexChanges env collation remote sched).run (ofStore db) =
          (.ok (), w) ∧
        Corresponds B db' ∧
        (∀ f ∈ remote.files, Dir.get .clone f.filename db' =
          if env.Known f.filename ∧ faults.opFails f = false then B.files.get f.filename
          else Dir.get .clone f.filename db) ∧
        (∀ p, (∀ f ∈ remote.files, f.filename ≠ p) →
          Dir.get .clone p db' = Dir.get .clone p db) ∧
        ∀ c : RegistryCell, c.IsMetadata → db'.get c = (w.view .dbTrx).get c := by
      intro sched
      obtain ⟨w, r, db', hrun, hresult, hr, hlisted, hrest, hcommitted, -⟩ := exists_sync_result
        collation isCustomDBTrx hdiff hdl hdb hne hstop sched
      obtain ⟨hhash', hrows⟩ := hcommitted hnot
      refine ⟨w, db', hrun, ?_, hlisted, hrest, hrows⟩
      have hends := h sched
      rw [hresult] at hends
      cases r with
      | ok a => exact hends
      | error e =>
        refine hends.resolve_left fun hA => hhash ?_
        rw [hlatest] at hhash'
        exact Option.some.inj (hA.hash.symm.trans hhash')
    have htables : ∀ sched w, (indexChanges env collation remote sched).run (ofStore db) =
        (.ok (), w) → ∀ c : RegistryCell, c.IsMetadata → own c → ∀ r,
          (w.view .dbTrx).get c = some r ↔ ∃ p, env.Lists B.files.get p c r := by
      intro sched w hrun c hc hown r
      obtain ⟨w', db', hrun', hB, -, -, hrows⟩ := hnew sched
      obtain rfl : w = w' := (Prod.ext_iff.mp (hrun.symm.trans hrun')).2
      rw [← hrows c hc]
      exact hB.get_iff hc hown r
    refine ⟨?_, rowsFollow_of_rows hdiff hdb hdl htables⟩
    obtain ⟨w, db', -, hB, hlisted, hrest, -⟩ := hnew []
    exact (files_follow_iff hdiff hdb hlisted hrest).mp hB.files
  · rintro ⟨hfiles, hrowsFollow⟩ sched
    obtain ⟨w, r, db', hrun, hresult, hr, hlisted, hrest, hcommitted, -⟩ := exists_sync_result
      collation isCustomDBTrx hdiff hdl hdb hne hstop sched
    obtain ⟨hhash', hrows⟩ := hcommitted hnot
    have hB : Corresponds B db' := by
      refine ⟨(corresponds_rows_iff B).mpr fun c hc hown r => ?_,
        (files_follow_iff hdiff hdb hlisted hrest).mpr hfiles, ?_⟩
      · rw [hrows c hc]
        exact rows_follow hdiff hdb hdl hfiles hrowsFollow hrun hc hown r
      · rw [hhash', hlatest]
    rw [hresult]
    cases r with
    | ok a => exact hB
    | error e => exact Or.inr hB

include hdiff hdb hdl in
/-- **Synchronising is indexing the new commit from scratch**, for every order of the applications
and every point of failure, exactly under the condition. -/
theorem sync_follows_iff (hlatest : remote.latestCommitHash = B.hash)
    (hid : A.hash = B.hash → A.files = B.files) :
    (∀ sched, SyncEnds A B
      (syncWithRemoteRepo env collation remote isCustomDBTrx faults sched db)) ↔
      SyncFollows A B remote isCustomDBTrx faults := by
  by_cases hhash : A.hash = B.hash
  · refine iff_of_true (fun sched => ?_) (.inl hhash)
    have hsame : lastSyncedCommitHash db = some remote.latestCommitHash := by
      rw [hdb.hash, hlatest, hhash]
    have hresult : syncWithRemoteRepo env collation remote isCustomDBTrx faults sched db =
        (.ok (), db) := if_pos hsame
    rw [hresult]
    refine ⟨?_, fun p hp => ?_, ?_⟩
    · rw [← hid hhash]
      exact hdb.rows
    · rw [← hid hhash]
      exact hdb.files p hp
    · rw [← hhash]
      exact hdb.hash
  have hne : lastSyncedCommitHash db ≠ some remote.latestCommitHash := by
    rw [hdb.hash, hlatest]
    exact fun h => hhash (Option.some.inj h)
  rw [SyncFollows]
  cases hstop : faults.stopAfter with
  | some n => exact iff_of_true (corresponds_of_stopped hdb hstop hne) (.inr (.inl (by simp)))
  | none =>
    by_cases hback : isCustomDBTrx = false ∧ EndsWithError env remote faults
    · rw [sync_rolledBack_iff hdiff hdb hdl hhash hne hstop hback.1 hback.2]
      simp [hhash, hback.1, hback.2]
    · rw [sync_committed_iff hdiff hdb hdl hlatest hhash hne hstop hback]
      have hback' : ¬ (isCustomDBTrx = false ∧ EndsWithError env remote faults ∧
          FilesKept env A.files.get B.files.get remote faults) := fun h => hback ⟨h.1, h.2.1⟩
      simp only [hhash, hback, hback', false_or, not_false_eq_true, true_and, ne_eq, not_true]

end Follow

/-! ### Repositories given by their files -/

section OfFiles

variable (env) (files : List (FilePath × String))

/-- The listed files. -/
def dirOf : Store FilePath fun _ => String where
  get p := files.lookup p
  keys := (files.map Prod.fst).toFinset
  mem_keys p := by simp [List.lookup_isSome_iff]

/-- The rows that the metadata files list, each with its file. -/
def listedRows : List (FilePath × Entry) :=
  files.flatMap fun f => ((env.entries (dirOf files).get f.1).getD []).map fun e => (f.1, e)

variable {env files} {p : FilePath}

theorem exists_mem_of_dirOf (h : ((dirOf files).get p).isSome) : ∃ f ∈ files, f.1 = p := by
  obtain ⟨f, hf, heq⟩ := List.lookup_isSome_iff.mp h
  exact ⟨f, hf, (beq_iff_eq.mp heq).symm⟩

theorem mem_listedRows {c : RegistryCell} {r : RegistryRow c}
    (h : env.Lists (dirOf files).get p c r) : (p, (⟨c, r⟩ : Entry)) ∈ listedRows env files := by
  obtain ⟨-, hsome, es, hes, hr⟩ := h
  obtain ⟨f, hf, rfl⟩ := exists_mem_of_dirOf hsome
  refine List.mem_flatMap.mpr ⟨f, hf, List.mem_map.mpr ⟨⟨c, r⟩, ?_, rfl⟩⟩
  rwa [hes, Option.getD_some]

/-- The commit that holds the listed files, if each can be indexed and no row is listed twice. -/
def commitOf (files : List (FilePath × String)) (hash : String)
    (hindexable : ∀ f ∈ files, (env.entries (dirOf files).get f.1).isSome)
    (hcells : ((listedRows env files).map fun row => row.2.1).Nodup) :
    Commit env fun _ => True where
  hash := hash
  files := dirOf files
  indexable p _ hsome := by
    obtain ⟨f, hf, rfl⟩ := exists_mem_of_dirOf hsome
    exact hindexable f hf
  unique p q c r r' hp hq := by
    have heq := List.inj_on_of_nodup_map hcells (mem_listedRows hp) (mem_listedRows hq) rfl
    obtain ⟨hpq, hrr⟩ := Prod.mk.inj heq
    exact ⟨hpq, eq_of_heq (Sigma.mk.inj hrr).2⟩
  owned _ _ _ _ := trivial

/-- No row passes to another application if no cell is listed for two of them. -/
theorem not_lists_of_listedRows {files' : List (FilePath × String)} {q : FilePath}
    {c : RegistryCell} {r r' : RegistryRow c}
    (hcells : ∀ row ∈ listedRows env files, ∀ row' ∈ listedRows env files',
      row.1.dir ≠ row'.1.dir → row.2.1 ≠ row'.2.1)
    (hdir : p.dir ≠ q.dir) (h : env.Lists (dirOf files).get p c r) :
    ¬ env.Lists (dirOf files').get q c r' := fun h' =>
  hcells _ (mem_listedRows h) _ (mem_listedRows h') hdir rfl

/-- The remote repository at a commit, with the changes it reports. -/
def remoteOf (C : Commit env own) (changes : List FileInfo) : Remote where
  latestCommitHash := C.hash
  files := changes
  download := C.files.get

theorem remoteOf_delivers (C : Commit env own) (changes : List FileInfo) :
    Delivers env C.files.get (remoteOf C changes) := fun _ _ _ _ => rfl

end OfFiles

/-! ### Two applications -/

section TwoApplications

/-- The text of the `app.json` of Klayr. -/
def klayrJson (displayName : String) : String :=
  "\x7b\"chainName\":\"klayr_mainchain\",\"chainID\":\"00000000\",\"displayName\":\"" ++
    displayName ++ "\",\"networkType\":\"mainnet\"\x7d"

def klayrMeta (displayName : String) : AppMeta where
  chainID := "00000000"
  displayName := displayName
  chainName := "klayr_mainchain"
  networkType := "mainnet"

def klayrTokensJson : String :=
  "\x7b\"tokens\":[\x7b\"tokenID\":\"0000000000000000\",\"tokenName\":\"Klayr\"\x7d]\x7d"

def swaptoshiJson : String :=
  "\x7b\"chainName\":\"swaptoshi_mainchain\",\"chainID\":\"00000001\"," ++
    "\"displayName\":\"Swaptoshi\",\"networkType\":\"mainnet\"\x7d"

def swaptoshiMeta : AppMeta where
  chainID := "00000001"
  displayName := "Swaptoshi"
  chainName := "swaptoshi_mainchain"
  networkType := "mainnet"

/-- The configuration, with a parser that knows these texts. -/
def klayrEnv : RegistryEnv where
  supportedNetworks := ["mainnet", "testnet", "devnet"]
  defaultApps := ["klayr_mainchain"]
  parseApp text :=
    if text = klayrJson "Klayr" then some (klayrMeta "Klayr")
    else if text = klayrJson "Klayr Mainchain" then some (klayrMeta "Klayr Mainchain")
    else if text = swaptoshiJson then some swaptoshiMeta
    else none
  parseTokens text :=
    if text = klayrTokensJson then some [⟨"0000000000000000", "Klayr"⟩] else none

/-- `app.json` and `nativetokens.json` in a directory of `mainnet`. -/
def appFile (appDirName : String) : FilePath := ⟨"mainnet", appDirName, .appJson⟩

def tokensFile (appDirName : String) : FilePath := ⟨"mainnet", appDirName, .nativetokensJson⟩

/-- The files of a directory, `app.json` first. -/
def FileName.rank : FileName → ℕ
  | .appJson => 0
  | .nativetokensJson => 1
  | .other _ => 2

def byRank : Collation where
  le p q := decide (p.filename.rank ≤ q.filename.rank)
  trans p q r hpq hqr := by
    simp only [decide_eq_true_eq] at hpq hqr ⊢
    omega
  total p q := by
    simp only [Bool.or_eq_true, decide_eq_true_eq]
    omega
  appJson_first p hp := by
    simp [hp, FilePath.appJson, FileName.rank]

/-- An application directory with `app.json` only. -/
def klayrFiles (appDirName displayName : String) : List (FilePath × String) :=
  [(appFile appDirName, klayrJson displayName)]

/-- Klayr with a token, and the same with another `displayName` and beside Swaptoshi. -/
def klayrAlone : List (FilePath × String) :=
  klayrFiles "Klayr" "Klayr" ++ [(tokensFile "Klayr", klayrTokensJson)]

def klayrRelabelled : List (FilePath × String) :=
  klayrFiles "Klayr" "Klayr Mainchain" ++
    [(tokensFile "Klayr", klayrTokensJson), (appFile "Swaptoshi", swaptoshiJson)]

def commitAlone : Commit klayrEnv fun _ => True :=
  commitOf klayrAlone "c0" (by decide) (by decide)

def commitRelabelled : Commit klayrEnv fun _ => True :=
  commitOf klayrRelabelled "c1" (by decide) (by decide)

/-- One application changes, another one is new. -/
def relabelledChanges : List FileInfo :=
  [⟨appFile "Klayr", .modified, none⟩, ⟨appFile "Swaptoshi", .added, none⟩]

theorem isDiff_relabelled :
    IsDiff commitAlone.files.get commitRelabelled.files.get relabelledChanges := by
  constructor
  · decide
  · decide
  · decide
  · decide
  · decide
  · simp [relabelledChanges]
  · intro p hp _
    have hklayr : (p == appFile "Klayr") = false :=
      beq_false_of_ne (hp _ (List.mem_cons_self ..)).symm
    have hswaptoshi : (p == appFile "Swaptoshi") = false :=
      beq_false_of_ne (hp _ (List.mem_cons_of_mem _ (List.mem_singleton_self _))).symm
    change klayrAlone.lookup p = klayrRelabelled.lookup p
    simp [klayrAlone, klayrRelabelled, klayrFiles, List.lookup_cons, hklayr, hswaptoshi]

/-- A changed `displayName` and a new application are followed in every order. -/
theorem sync_follows_relabelled : ∃ db, Corresponds commitAlone db ∧
    ∀ sched, SyncEnds commitAlone commitRelabelled (syncWithRemoteRepo klayrEnv byRank
      (remoteOf commitRelabelled relabelledChanges) true {} sched db) := by
  obtain ⟨db, hdb⟩ := exists_corresponds commitAlone
  refine ⟨db, hdb, (sync_follows_iff isDiff_relabelled hdb (remoteOf_delivers _ _) rfl
    (fun h => absurd h (by decide))).mpr (.inr (.inr (.inr ⟨?_, ⟨?_, ?_⟩, ?_, ?_⟩)))⟩
  · simp
  · have hreplaced : ∀ f ∈ relabelledChanges,
        klayrEnv.Known f.filename ∧ ({} : Faults).opFails f = false := by decide
    exact fun f hf _ _ => hreplaced f hf
  · have hkept : ∀ f ∈ relabelledChanges, f.status ≠ .renamed := by decide
    exact fun f hf hs => absurd hs (hkept f hf)
  · -- The tokens are those of Klayr, which keeps its `chainName`.
    rintro p hname - ⟨c, r, hr⟩
    obtain ⟨f, hf, rfl⟩ := exists_mem_of_dirOf hr.2.1
    have hsame : ∀ f ∈ klayrRelabelled, f.1.filename = .nativetokensJson →
        klayrEnv.chainName commitAlone.files.get f.1 =
          klayrEnv.chainName commitRelabelled.files.get f.1 := by decide
    exact hsame f hf hname
  · have hcells : ∀ row ∈ listedRows klayrEnv klayrAlone,
        ∀ row' ∈ listedRows klayrEnv klayrRelabelled,
          row.1.dir ≠ row'.1.dir → row.2.1 ≠ row'.2.1 := by decide
    exact fun f _ g _ hdir _ _ c r r' => not_lists_of_listedRows hcells hdir

/-- The commit before, and one in which the directory has another name. -/
def klayrOld : Commit klayrEnv fun _ => True :=
  commitOf (klayrFiles "Klayr" "Klayr") "c0" (by decide) (by decide)

def klayrMoved : Commit klayrEnv fun _ => True :=
  commitOf (klayrFiles "Klayr Mainchain" "Klayr") "c1" (by decide) (by decide)

def movedChanges : List FileInfo :=
  [⟨appFile "Klayr Mainchain", .renamed, some (appFile "Klayr")⟩]

theorem isDiff_moved : IsDiff klayrOld.files.get klayrMoved.files.get movedChanges := by
  constructor
  · decide
  · decide
  · decide
  · decide
  · decide
  · intro f hf _
    obtain rfl := List.mem_singleton.mp hf
    exact ⟨appFile "Klayr", rfl, by decide, by decide, by decide⟩
  · intro p hp hprev
    have hto : (p == appFile "Klayr Mainchain") = false :=
      beq_false_of_ne (hp _ (List.mem_singleton_self _)).symm
    have hfrom : (p == appFile "Klayr") = false := beq_false_of_ne fun h =>
      hprev _ (List.mem_singleton_self _) rfl (congrArg some h.symm)
    change (klayrFiles "Klayr" "Klayr").lookup p = (klayrFiles "Klayr Mainchain" "Klayr").lookup p
    simp [klayrFiles, List.lookup_cons, hto, hfrom]

/-- A renamed directory leaves the old file behind. -/
theorem sync_moved_keeps_old : IsDiff klayrOld.files.get klayrMoved.files.get movedChanges ∧
    ∃ db, Corresponds klayrOld db ∧ ¬ ∀ sched, SyncEnds klayrOld klayrMoved
      (syncWithRemoteRepo klayrEnv byRank (remoteOf klayrMoved movedChanges) true {} sched db) := by
  obtain ⟨db, hdb⟩ := exists_corresponds klayrOld
  have hne : lastSyncedCommitHash db ≠
      some (remoteOf klayrMoved movedChanges).latestCommitHash := by
    rw [hdb.hash]
    decide
  refine ⟨isDiff_moved, db, hdb, fun h => ?_⟩
  obtain ⟨hfiles, -⟩ := (sync_committed_iff isDiff_moved hdb (remoteOf_delivers _ _) rfl
    (by decide) hne rfl (by simp)).mp h
  have hmeta := hfiles.renamed _ (List.mem_singleton_self _) rfl _ rfl
  simp [appFile, isMetadataFile] at hmeta

end TwoApplications

end AppRegistry

end SwaptoshiService
