import Mathlib.Data.List.Dedup
import SwaptoshiService.AppRegistry.MetadataIndex

/-!
# Synchronising the registry with the remote repository

`syncWithRemoteRepo` of `shared/utils/downloadRepository.js`. The files that changed since the
stored commit are grouped by application; the applications are processed concurrently and the
files of one application one after the other, `app.json` first. The rows of the old local file are
deleted, the new file is downloaded to `temp-downloads` and indexed. Only after the database
transaction is committed — by this function, unless the caller passed a transaction of its own —
the local files are deleted and the downloaded ones moved to their place.

**What differs from indexing the new commit from scratch.** A renamed file leaves the old file and
its rows behind; an application that changes its `chainName` keeps it in the rows of a
`nativetokens.json` that is not itself listed; a row that passes from one application to another may
be deleted after it was written; files of other networks are not touched. **What a failure leaves
behind.** The rows are rolled back, the files are not: after the commit a file that could not be
moved or deleted belongs to another commit than the tables, and if the caller owns the transaction
every file that was moved does.

`sync_follows_iff` says exactly when none of this happens.
-/

namespace SwaptoshiService

namespace AppRegistry

open Session Table

/-- `GITHUB_FILE_STATUS`. -/
inductive FileStatus
  | added
  | removed
  | modified
  | renamed
  | copied
  | changed
  | unchanged
  deriving DecidableEq, Repr

/-- A file of `diffInfo.data.files`. The previous name of a renamed file is part of it but is not
read. -/
structure FileInfo where
  filename : FilePath
  status : FileStatus
  previousFilename : Option FilePath := none
  deriving DecidableEq, Repr

/-- What the remote repository answers: the latest commit of the branch, the files that changed
since the stored one, and the text of a file. -/
structure Remote where
  latestCommitHash : String
  files : List FileInfo
  download : FilePath → Option String

/-- The order of `localeCompare` on the names of files: `app.json` comes before
`nativetokens.json` of the same directory. -/
structure Collation where
  le : FilePath → FilePath → Bool
  trans : ∀ p q r, le p q = true → le q r = true → le p r = true
  total : ∀ p q, (le p q || le q p) = true
  appJson_first : ∀ p, p.filename = .nativetokensJson → le p p.appJson = false

/-- The metadata files of supported networks in their order, grouped by application. -/
def groupFilesByNetworkAndApp (env : RegistryEnv) (collation : Collation)
    (fileInfos : List FileInfo) : List ((String × String) × List FileInfo) :=
  let sorted := fileInfos.mergeSort fun f g => collation.le f.filename g.filename
  let known := sorted.filter fun f => env.Known f.filename
  (known.map fun f => f.filename.dir).dedup.map fun dir =>
    (dir, known.filter fun f => f.filename.dir = dir)

/-- `fileUpdatedStatuses`. -/
def fileUpdatedStatuses : List FileStatus := [.removed, .modified, .changed]

/-- Push a path to `filesToBeDeleted` or `filesToBeMoved`. -/
def schedule (p : FilePath) (task : FileTask) : Program Unit :=
  exec .default (.point (.task p) fun _ => some task)

/-- `downloadFile` into `temp-downloads`. -/
def downloadFile (remote : Remote) (p : FilePath) : Program Unit := do
  let text ← .ofOption .downloadFailed (remote.download p)
  exec .default (.point (.temp p) fun _ => some text)

/-- Delete indexed information if a file is updated or deleted. -/
def deleteOldRows (env : RegistryEnv) (file : FileInfo) : Program Unit :=
  if file.status ∈ fileUpdatedStatuses then deleteIndexedMetadataFromFile env file.filename
  else pure ()

/-- Download and index a file, unless it was deleted. -/
def indexNewFile (env : RegistryEnv) (remote : Remote) (file : FileInfo) : Program Unit :=
  if file.status = .removed then schedule file.filename .delete
  else do
    downloadFile remote file.filename
    indexMetadataFromFile env .tempDownloads file.filename
    schedule file.filename .move

/-- The pass over one file. -/
def syncFile (env : RegistryEnv) (remote : Remote) (file : FileInfo) : Program Unit := do
  deleteOldRows env file
  indexNewFile env remote file

/-- The files of one application, one after the other. -/
def syncApp (env : RegistryEnv) (remote : Remote) (files : List FileInfo) : Program Unit :=
  .serial (files.map (syncFile env remote))

def syncApps (env : RegistryEnv) (collation : Collation) (remote : Remote) : List (Program Unit) :=
  (groupFilesByNetworkAndApp env collation remote.files).map fun app => syncApp env remote app.2

/-- The cells of `temp-downloads` and of the two lists of paths. -/
def RegistryCell.isScratch : RegistryCell → Bool
  | .temp _ => true
  | .task _ => true
  | _ => false

theorem RegistryCell.IsMetadata.not_scratch {c : RegistryCell} (h : c.IsMetadata) :
    c.isScratch = false := by
  cases c <;> first | rfl | exact h.elim

theorem RegistryCell.IsMetadata.ne_file {c : RegistryCell} (h : c.IsMetadata) (p : FilePath) :
    c ≠ .file p := by
  rintro rfl
  exact h

/-- A fresh `temp-downloads`, and empty lists. -/
def clearScratch : Program Unit := exec .default (deleteWhere fun c _ => c.isScratch)

/-- Everything up to the commit. -/
def indexChanges (env : RegistryEnv) (collation : Collation) (remote : Remote) (sched : List ℕ) :
    Program Unit := do
  clearScratch
  .interleave sched (syncApps env collation remote)
  exec .dbTrx (.point .commitHash fun _ => some remote.latestCommitHash)

/-- What goes wrong outside: the processing is stopped after some of its steps before the commit,
files cannot be removed or renamed, the event cannot be built. -/
structure Faults where
  stopAfter : Option ℕ := none
  rmFails : FilePath → Bool := fun _ => false
  mvFails : FilePath → Bool := fun _ => false
  eventFails : Bool := false

/-- What is scheduled for a path. -/
def scheduled (p : FilePath) (db : RegistryStore) : Option FileTask := db.get (.task p)

/-- `COMMIT_HASH_UNTIL_LAST_SYNC`. -/
def lastSyncedCommitHash (db : RegistryStore) : Option String := db.get .commitHash

/-- `rm` of a path in `filesToBeDeleted`; a failure is logged only. -/
def removeFile (faults : Faults) (p : FilePath) : Program Unit := do
  let task ← query .default (scheduled p)
  if task = some .delete ∧ faults.rmFails p = false then
    exec .default (deleteRow (.file p))
  else pure ()

/-- `mv` of a path in `filesToBeMoved`. -/
def moveFile (faults : Faults) (p : FilePath) : Program Unit := do
  let task ← query .default (scheduled p)
  if task = some .move ∧ faults.mvFails p = false then do
    let text ← readFile .tempDownloads p
    exec .default (.point (.file p) fun _ => some text)
    exec .default (deleteRow (.temp p))
  else pure ()

/-- The path is in `filesToBeMoved` and cannot be moved. -/
def moveFailed (faults : Faults) (db : RegistryStore) (p : FilePath) : Bool :=
  scheduled p db = some .move && faults.mvFails p

/-- Everything after the commit. The operations on the files concern different paths and are all
attempted; a file that could not be moved is reported when they are through. -/
def replaceFiles (remote : Remote) (faults : Faults) : Program Unit := do
  .serial (remote.files.map fun f => removeFile faults f.filename)
  .serial (remote.files.map fun f => moveFile faults f.filename)
  let failed ← query .default fun db => remote.files.any fun f => moveFailed faults db f.filename
  if failed then .throw .renameFailed
  else do
    clearScratch
    if faults.eventFails then .throw .eventFailed else pure ()

/-- `commitDBTransaction`, if the transaction is not the caller's. -/
def commitOwn (isCustomDBTrx : Bool) : Program Unit :=
  if isCustomDBTrx then .act Session.commit else pure ()

/-- The processing, and after it the operations on files. -/
def syncProgram (env : RegistryEnv) (collation : Collation) (remote : Remote) (isCustomDBTrx : Bool)
    (faults : Faults) (sched : List ℕ) : Program Unit := do
  indexChanges env collation remote sched
  commitOwn isCustomDBTrx
  replaceFiles remote faults

/-- Whether the call succeeds, and what is stored then: after a success, what the transaction sees;
after a failure, what is left when it was rolled back, here or by the caller. -/
def syncWithRemoteRepo (env : RegistryEnv) (collation : Collation) (remote : Remote)
    (isCustomDBTrx : Bool) (faults : Faults) (sched : List ℕ) (db : RegistryStore) :
    Except RegistryError Unit × RegistryStore :=
  if lastSyncedCommitHash db = some remote.latestCommitHash then (.ok (), db)
  else
    match faults.stopAfter with
    | some n =>
      (.error .stopped, ((indexChanges env collation remote sched).runFor n (ofStore db)).committed)
    | none =>
      match (syncProgram env collation remote isCustomDBTrx faults sched).run (ofStore db) with
      | (.ok (), w) => (.ok (), w.view .dbTrx)
      | (.error e, w) => (.error e, w.rollback.committed)

/-! ### The changed files -/

/-- The list is the difference of two commits, as the remote repository reports it. -/
structure IsDiff (old new : FilePath → Option String) (files : List FileInfo) : Prop where
  nodup : (files.map FileInfo.filename).Nodup
  added : ∀ f ∈ files, f.status = .added ∨ f.status = .copied ∨ f.status = .renamed →
    old f.filename = none ∧ (new f.filename).isSome
  removed : ∀ f ∈ files, f.status = .removed → (old f.filename).isSome ∧ new f.filename = none
  modified : ∀ f ∈ files, f.status = .modified ∨ f.status = .changed →
    (old f.filename).isSome ∧ (new f.filename).isSome
  unchanged : ∀ f ∈ files, f.status = .unchanged →
    old f.filename = new f.filename ∧ (new f.filename).isSome
  renamed : ∀ f ∈ files, f.status = .renamed → ∃ p, f.previousFilename = some p ∧
    (old p).isSome ∧ new p = none ∧ ∀ g ∈ files, g.filename ≠ p
  rest : ∀ p, (∀ f ∈ files, f.filename ≠ p) →
    (∀ f ∈ files, f.status = .renamed → f.previousFilename ≠ some p) → old p = new p

namespace IsDiff

variable {old new : FilePath → Option String} {files : List FileInfo} {f g : FileInfo}

theorem isSome_new (h : IsDiff old new files) (hf : f ∈ files) (hstatus : f.status ≠ .removed) :
    (new f.filename).isSome := by
  cases hs : f.status with
  | removed => exact absurd hs hstatus
  | added => exact (h.added f hf (.inl hs)).2
  | copied => exact (h.added f hf (.inr (.inl hs))).2
  | renamed => exact (h.added f hf (.inr (.inr hs))).2
  | modified => exact (h.modified f hf (.inl hs)).2
  | changed => exact (h.modified f hf (.inr hs)).2
  | unchanged => exact (h.unchanged f hf hs).2

theorem isSome_old (h : IsDiff old new files) (hf : f ∈ files)
    (hstatus : f.status ∈ fileUpdatedStatuses) : (old f.filename).isSome := by
  simp only [fileUpdatedStatuses, List.mem_cons, List.not_mem_nil, or_false] at hstatus
  rcases hstatus with hs | hs
  · exact (h.removed f hf hs).1
  · exact (h.modified f hf hs).1

/-- Rows of a file that was there are kept only if it has not changed. -/
theorem eq_of_not_updated (h : IsDiff old new files) (hf : f ∈ files)
    (hstatus : f.status ∉ fileUpdatedStatuses) (hold : (old f.filename).isSome) :
    old f.filename = new f.filename := by
  have hnone : ¬ (f.status = .added ∨ f.status = .copied ∨ f.status = .renamed) := by
    intro hs
    rw [(h.added f hf hs).1] at hold
    simp at hold
  cases hs : f.status with
  | unchanged => exact (h.unchanged f hf hs).1
  | _ => simp [fileUpdatedStatuses, hs] at hstatus hnone

/-- A file of the new commit that is not listed as changed is the old one. -/
theorem eq_of_not_listed (h : IsDiff old new files) {p : FilePath}
    (hp : ∀ f ∈ files, f.filename ≠ p) (hnew : (new p).isSome) : old p = new p := by
  refine h.rest p hp fun f hf hs hprev => ?_
  obtain ⟨q, hq, -, hnone, -⟩ := h.renamed f hf hs
  obtain rfl : q = p := Option.some.inj (hq.symm.trans hprev)
  rw [hnone] at hnew
  simp at hnew

end IsDiff

end AppRegistry

end SwaptoshiService
