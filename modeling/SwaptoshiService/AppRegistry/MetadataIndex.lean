import Mathlib.Data.Finset.Image
import SwaptoshiService.Framework.Database
import SwaptoshiService.Lib.Reach

/-!
# The application metadata of the registry

`shared/metadataIndex.js` of the blockchain-app-registry: the files `app.json` and
`nativetokens.json` of every application directory are read from the local clone of the registry
repository and indexed into the tables `application_metadata` and `token_metadata`.

The clone, the directory `temp-downloads` and the tables are kept in **one store**. What is sent on
the `default` connection takes effect at once, which is how files change; the rows of the tables
are written on `dbTrx` and are lost when the transaction is rolled back, while the files are not.

`Commit` is a state of the repository that can be indexed: every metadata file of a supported
network parses and has its `app.json` beside it, and no two entries claim the same row.
`produces_iff` says what `indexAllBlockchainAppsMeta` makes of it in any order: exactly the rows
the files list.
-/

namespace SwaptoshiService

namespace AppRegistry

/-- `config.FILENAME`; any other file is none of the metadata files. -/
inductive FileName
  | appJson
  | nativetokensJson
  | other (name : String)
  deriving DecidableEq, Repr

/-- `isMetadataFile`. -/
def isMetadataFile : FileName → Bool
  | .other _ => false
  | _ => true

/-- The path of a file inside the repository: network, application directory, file. -/
structure FilePath where
  network : String
  appDirName : String
  filename : FileName
  deriving DecidableEq, Repr

namespace FilePath

/-- The application directory. -/
def dir (p : FilePath) : String × String := (p.network, p.appDirName)

/-- The `app.json` beside a file. -/
def appJson (p : FilePath) : FilePath := { p with filename := .appJson }

@[simp] theorem dir_appJson (p : FilePath) : p.appJson.dir = p.dir := rfl

@[simp] theorem appJson_appJson (p : FilePath) : p.appJson.appJson = p.appJson := rfl

theorem eq_of_dir {p q : FilePath} (hdir : p.dir = q.dir) (hname : p.filename = q.filename) :
    p = q := by
  obtain ⟨n, a, f⟩ := p
  obtain ⟨n', a', f'⟩ := q
  obtain ⟨rfl, rfl⟩ := Prod.mk.inj hdir
  obtain rfl : f = f' := hname
  rfl

end FilePath

/-- What is to be done with a local file once the database transaction is committed. -/
inductive FileTask
  | delete
  | move
  deriving DecidableEq, Repr

/-- The columns of `application_metadata`. -/
structure ApplicationRow where
  chainName : String
  displayName : String
  chainID : String
  network : String
  isDefault : Bool
  appDirName : String
  deriving DecidableEq, Repr, Inhabited

/-- The columns of `token_metadata`. -/
structure TokenRow where
  chainName : String
  network : String
  tokenName : String
  tokenID : String
  deriving DecidableEq, Repr, Inhabited

/-- The rows under their primary keys, the stored commit hash, the files of the clone and of
`temp-downloads`, and the paths in `filesToBeDeleted` and `filesToBeMoved`. -/
inductive RegistryCell
  | applicationMetadata (network chainName : String)
  | tokenMetadata (tokenID : String)
  | commitHash
  | file (p : FilePath)
  | temp (p : FilePath)
  | task (p : FilePath)
  deriving DecidableEq, Repr

/-- What a cell holds; a file holds its text. -/
def RegistryRow : RegistryCell → Type
  | .applicationMetadata _ _ => ApplicationRow
  | .tokenMetadata _ => TokenRow
  | .commitHash => String
  | .file _ => String
  | .temp _ => String
  | .task _ => FileTask

instance (c : RegistryCell) : Inhabited (RegistryRow c) :=
  match c with
  | .applicationMetadata _ _ => inferInstanceAs (Inhabited ApplicationRow)
  | .tokenMetadata _ => inferInstanceAs (Inhabited TokenRow)
  | .commitHash => inferInstanceAs (Inhabited String)
  | .file _ => inferInstanceAs (Inhabited String)
  | .temp _ => inferInstanceAs (Inhabited String)
  | .task _ => ⟨FileTask.delete⟩

/-- A row of one of the two metadata tables. -/
def RegistryCell.IsMetadata : RegistryCell → Prop
  | .applicationMetadata _ _ => True
  | .tokenMetadata _ => True
  | _ => False

abbrev RegistryStore := Store RegistryCell RegistryRow

abbrev RegistrySession := Session RegistryCell RegistryRow

inductive RegistryError
  | noSuchFile
  | invalidJson
  | downloadFailed
  | renameFailed
  | eventFailed
  | stopped
  deriving DecidableEq, Repr

abbrev Program := Async RegistrySession RegistryError

/-- The fields of an `app.json` that are indexed. -/
structure AppMeta where
  chainID : String
  displayName : String
  chainName : String
  networkType : String
  deriving DecidableEq, Repr

/-- The fields of a token in a `nativetokens.json` that are indexed. -/
structure TokenMeta where
  tokenID : String
  tokenName : String
  deriving DecidableEq, Repr

/-- The configuration, and what `JSON.parse` finds in the text of a metadata file. -/
structure RegistryEnv where
  supportedNetworks : List String
  defaultApps : List String
  parseApp : String → Option AppMeta
  parseTokens : String → Option (List TokenMeta)

/-- A row to be written, under its primary key. -/
abbrev Entry := (c : RegistryCell) × RegistryRow c

/-! ### Indexing a file -/

open Session Table

/-- The directory a file is read from. -/
inductive Dir
  | clone
  | tempDownloads
  deriving DecidableEq, Repr

def Dir.get : Dir → FilePath → RegistryStore → Option String
  | .clone, p, db => db.get (.file p)
  | .tempDownloads, p, db => db.get (.temp p)

/-- `read`. -/
def readFile (dir : Dir) (p : FilePath) : Program String := do
  let content ← query .default (dir.get p)
  .ofOption .noSuchFile content

/-- The row `indexAppMeta` writes. -/
def appEntry (env : RegistryEnv) (appDirName : String) (appMeta : AppMeta) : Entry :=
  ⟨.applicationMetadata appMeta.networkType appMeta.chainName,
    { chainID := appMeta.chainID
      displayName := appMeta.displayName
      chainName := appMeta.chainName
      network := appMeta.networkType
      isDefault := env.defaultApps.any (· == appMeta.chainName)
      appDirName := appDirName }⟩

/-- A row `indexTokensMeta` writes. -/
def tokenEntry (chainName network : String) (token : TokenMeta) : Entry :=
  ⟨.tokenMetadata token.tokenID.toLower,
    { chainName := chainName
      network := network
      tokenName := token.tokenName
      tokenID := token.tokenID.toLower }⟩

/-- `table.upsert(rows, dbTrx)`, one statement for each row. -/
def upsertAll (entries : List Entry) : Program Unit :=
  .serial (entries.map fun entry => upsert .dbTrx entry.1 fun _ => entry.2)

def indexAppMeta (env : RegistryEnv) (appDirName : String) (appMeta : AppMeta) : Program Unit :=
  upsertAll [appEntry env appDirName appMeta]

def indexTokensMeta (chainName network : String) (tokens : List TokenMeta) : Program Unit :=
  upsertAll (tokens.map (tokenEntry chainName network))

/-- Index a metadata file that lies in the given directory. The `app.json` beside it is preferred
to the one in the clone. -/
def indexMetadataFromFile (env : RegistryEnv) (dir : Dir) (p : FilePath) : Program Unit := do
  let downloaded ← query .default fun db => (dir.get p.appJson db).isSome
  let appMetaString ← readFile (if downloaded then dir else .clone) p.appJson
  let appMeta ← .ofOption .invalidJson (env.parseApp appMetaString)
  match p.filename with
  | .appJson => indexAppMeta env p.appDirName appMeta
  | .nativetokensJson => do
    let tokenMetaString ← readFile dir p
    let tokens ← .ofOption .invalidJson (env.parseTokens tokenMetaString)
    indexTokensMeta appMeta.chainName p.network tokens
  | .other _ => pure ()

/-- `delete` on the listed primary keys. -/
def deleteAll (cells : List RegistryCell) : Program Unit :=
  .serial (cells.map fun c => deleteByPrimaryKey .dbTrx c)

def deleteAppMeta (appMeta : AppMeta) : Program Unit :=
  deleteAll [.applicationMetadata appMeta.networkType appMeta.chainName]

def deleteTokensMeta (tokenIDs : List String) : Program Unit :=
  deleteAll (tokenIDs.map fun tokenID => .tokenMetadata tokenID.toLower)

/-- Delete what a file of the clone had been indexed to. -/
def deleteIndexedMetadataFromFile (env : RegistryEnv) (p : FilePath) : Program Unit := do
  let appMetaString ← readFile .clone p.appJson
  let appMeta ← .ofOption .invalidJson (env.parseApp appMetaString)
  match p.filename with
  | .appJson => deleteAppMeta appMeta
  | .nativetokensJson => do
    let tokenMetaString ← readFile .clone p
    let tokens ← .ofOption .invalidJson (env.parseTokens tokenMetaString)
    deleteTokensMeta (tokens.map TokenMeta.tokenID)
  | .other _ => pure ()

/-- Index the files found on a walk through the application directories of the supported
networks, all of them at the same time. -/
def indexAllBlockchainAppsMeta (env : RegistryEnv) (sched : List ℕ) (walk : List FilePath) :
    Program Unit :=
  .interleave sched (walk.map (indexMetadataFromFile env .clone))

/-! ### What the files list -/

/-- The file is in a supported network and one of the metadata files. -/
def RegistryEnv.Known (env : RegistryEnv) (p : FilePath) : Prop :=
  p.network ∈ env.supportedNetworks ∧ isMetadataFile p.filename = true

instance (env : RegistryEnv) (p : FilePath) : Decidable (env.Known p) :=
  inferInstanceAs (Decidable (_ ∧ _))

/-- The rows a file lists, given the texts of the repository's files. -/
def RegistryEnv.entries (env : RegistryEnv) (files : FilePath → Option String) (p : FilePath) :
    Option (List Entry) := do
  let appMeta ← env.parseApp (← files p.appJson)
  match p.filename with
  | .appJson => some [appEntry env p.appDirName appMeta]
  | .nativetokensJson => do
    let tokens ← env.parseTokens (← files p)
    some (tokens.map (tokenEntry appMeta.chainName p.network))
  | .other _ => some []

/-- The metadata file `p` is there and lists the row `r` under `c`. -/
def RegistryEnv.Lists (env : RegistryEnv) (files : FilePath → Option String) (p : FilePath)
    (c : RegistryCell) (r : RegistryRow c) : Prop :=
  env.Known p ∧ (files p).isSome ∧ ∃ es, env.entries files p = some es ∧ ⟨c, r⟩ ∈ es

/-- A commit of the registry repository that can be indexed. The rows are of the kind the
registry keeps; `token_metadata` may hold rows of others. -/
structure Commit (env : RegistryEnv) (own : RegistryCell → Prop) where
  hash : String
  files : Store FilePath fun _ => String
  /-- Every metadata file parses and has an `app.json` beside it. -/
  indexable : ∀ p, env.Known p → (files.get p).isSome → (env.entries files.get p).isSome
  /-- Every row is listed once. -/
  unique : ∀ p q c r r', env.Lists files.get p c r → env.Lists files.get q c r' → p = q ∧ r = r'
  /-- The rows are the registry's. -/
  owned : ∀ p c r, env.Lists files.get p c r → own c

section Entries

variable {env : RegistryEnv} {files files' : FilePath → Option String} {p : FilePath}
  {es : List Entry} {c : RegistryCell} {r : RegistryRow c}

theorem entries_appJson (hp : p.filename = .appJson) :
    env.entries files p = (files p).bind fun text =>
      (env.parseApp text).map fun appMeta => [appEntry env p.appDirName appMeta] := by
  have happ : p.appJson = p := FilePath.eq_of_dir rfl hp.symm
  simp only [RegistryEnv.entries, happ, hp]
  cases files p with
  | none => rfl
  | some text => cases hm : env.parseApp text <;> simp [hm]

theorem entries_nativetokensJson (hp : p.filename = .nativetokensJson) :
    env.entries files p = (files p.appJson).bind fun appText =>
      (env.parseApp appText).bind fun appMeta => (files p).bind fun text =>
        (env.parseTokens text).map fun tokens =>
          tokens.map (tokenEntry appMeta.chainName p.network) := by
  simp only [RegistryEnv.entries, hp]
  cases files p.appJson with
  | none => rfl
  | some appText =>
    cases hm : env.parseApp appText with
    | none => simp [hm]
    | some appMeta =>
      cases files p with
      | none => simp
      | some text => cases ht : env.parseTokens text <;> simp [hm, ht]

theorem entries_of_parseApp (hp : p.filename = .appJson) {text : String} {appMeta : AppMeta}
    (htext : files p = some text) (hmeta : env.parseApp text = some appMeta) :
    env.entries files p = some [appEntry env p.appDirName appMeta] := by
  rw [entries_appJson hp, htext, Option.bind_some, hmeta, Option.map_some]

theorem entries_of_parseTokens (hp : p.filename = .nativetokensJson) {appText text : String}
    {appMeta : AppMeta} {tokens : List TokenMeta} (happ : files p.appJson = some appText)
    (hmeta : env.parseApp appText = some appMeta) (htext : files p = some text)
    (htokens : env.parseTokens text = some tokens) :
    env.entries files p = some (tokens.map (tokenEntry appMeta.chainName p.network)) := by
  rw [entries_nativetokensJson hp, happ, Option.bind_some, hmeta, Option.bind_some, htext,
    Option.bind_some, htokens, Option.map_some]

/-- An `app.json` lists rows of the first table, a `nativetokens.json` of the second. -/
def Fits (p : FilePath) : RegistryCell → Prop
  | .applicationMetadata _ _ => p.filename = .appJson
  | .tokenMetadata _ => p.filename = .nativetokensJson
  | _ => False

theorem fits_of_mem_entries (h : env.entries files p = some es) {e : Entry} (he : e ∈ es) :
    Fits p e.1 := by
  rcases hname : p.filename with _ | _ | name
  · rw [entries_appJson hname, Option.bind_eq_some_iff] at h
    obtain ⟨text, -, h⟩ := h
    obtain ⟨appMeta, -, rfl⟩ := Option.map_eq_some_iff.mp h
    obtain rfl := List.mem_singleton.mp he
    exact hname
  · simp only [entries_nativetokensJson hname, Option.bind_eq_some_iff] at h
    obtain ⟨appText, -, appMeta, -, text, -, h⟩ := h
    obtain ⟨tokens, -, rfl⟩ := Option.map_eq_some_iff.mp h
    obtain ⟨token, -, rfl⟩ := List.mem_map.mp he
    exact hname
  · simp only [RegistryEnv.entries, hname, bind, Option.bind_eq_some_iff] at h
    obtain ⟨appText, -, appMeta, -, h⟩ := h
    obtain rfl := Option.some.inj h
    simp at he

theorem Fits.isMetadata (h : Fits p c) : c.IsMetadata := by
  cases c <;> trivial

theorem RegistryEnv.Lists.fits (h : env.Lists files p c r) : Fits p c := by
  obtain ⟨-, -, es, hes, hmem⟩ := h
  exact fits_of_mem_entries hes hmem

/-- In one directory, a row belongs to one file. -/
theorem Fits.eq_of_dir {q : FilePath} (hp : Fits p c) (hq : Fits q c) (h : p.dir = q.dir) :
    p = q := by
  refine FilePath.eq_of_dir h ?_
  cases c with
  | applicationMetadata network chainName => exact Eq.trans hp (Eq.symm hq)
  | tokenMetadata tokenID => exact Eq.trans hp (Eq.symm hq)
  | _ => exact hp.elim

/-- The rows depend on the file and the `app.json` beside it only. -/
theorem entries_congr (happ : files' p.appJson = files p.appJson) (hp : files' p = files p) :
    env.entries files' p = env.entries files p := by
  simp only [RegistryEnv.entries, happ, hp]

end Entries

/-! ### Indexing the whole clone -/

section IndexAll

open Async

variable {env : RegistryEnv} {files : FilePath → Option String} {p : FilePath}
  {es : List Entry} {I Q : RegistrySession → Prop}

/-- The metadata files of the clone are the given ones. -/
def CloneIs (files : FilePath → Option String) (w : RegistrySession) : Prop :=
  ∀ p, isMetadataFile p.filename = true → (w.view .default).get (.file p) = files p

/-- Whatever survives reading what the invariant tells holds of the whole, if it holds of the
statements in the end. -/
theorem indexMetadataFromFile_of_upsertAll {X : Program Unit → Prop}
    (hread : ∀ {α : Type} (g : RegistrySession → α) (k : α → Program Unit),
      (∀ w, I w → X (k (g w))) → X (.read g >>= k))
    (hI : ∀ w, I w → CloneIs files w) (hp : isMetadataFile p.filename = true)
    (hes : env.entries files p = some es) (h : X (upsertAll es)) :
    X (indexMetadataFromFile env .clone p) := by
  have hread' : ∀ (q : FilePath) (text : String) (k : String → Program Unit),
      isMetadataFile q.filename = true → files q = some text → X (k text) →
      X (readFile .clone q >>= k) := by
    intro q text k hq htext hk
    refine (bind_assoc' (query .default (Dir.get .clone q)) (.ofOption .noSuchFile) k).symm ▸ ?_
    refine hread _ _ fun w hw => ?_
    have hget : Dir.get .clone q (w.view .default) = some text := (hI w hw q hq).trans htext
    rw [hget, ofOption_some, pure_bind']
    exact hk
  refine hread _ _ fun w hw => ?_
  simp only [ite_self]
  rcases hname : p.filename with _ | _ | name
  · rw [entries_appJson hname, Option.bind_eq_some_iff] at hes
    obtain ⟨text, htext, hes⟩ := hes
    obtain ⟨appMeta, hmeta, rfl⟩ := Option.map_eq_some_iff.mp hes
    have happ : p.appJson = p := FilePath.eq_of_dir rfl hname.symm
    refine hread' p.appJson text _ rfl (happ ▸ htext) ?_
    rw [hmeta, ofOption_some, pure_bind']
    exact h
  · simp only [entries_nativetokensJson hname, Option.bind_eq_some_iff] at hes
    obtain ⟨appText, happText, appMeta, hmeta, text, htext, hes⟩ := hes
    obtain ⟨tokens, htokens, rfl⟩ := Option.map_eq_some_iff.mp hes
    refine hread' p.appJson appText _ rfl happText ?_
    rw [hmeta, ofOption_some, pure_bind']
    refine hread' p text _ hp htext ?_
    rw [htokens, ofOption_some, pure_bind']
    exact h
  · rw [hname] at hp
    simp [isMetadataFile] at hp

theorem stable_upsertAll (h : ∀ e ∈ es, ∀ w, I w →
      I (send .dbTrx (upsertRow e.1 fun _ => e.2) w) ∧
        (Q w → Q (send .dbTrx (upsertRow e.1 fun _ => e.2) w))) :
    (upsertAll es).Stable NoFailure I Q := by
  induction es with
  | nil => trivial
  | cons e es ih =>
    refine Stable.bind (stable_act (h e List.mem_cons_self)) fun _ => ?_
    exact ih fun e' he' => h e' (List.mem_cons_of_mem e he')

theorem reaches_upsertAll (h : ∀ e ∈ es, ∀ w, I w →
      I (send .dbTrx (upsertRow e.1 fun _ => e.2) w) ∧
        (Q w → Q (send .dbTrx (upsertRow e.1 fun _ => e.2) w)))
    {e : Entry} (he : e ∈ es) (hQ : ∀ w, I w → Q (send .dbTrx (upsertRow e.1 fun _ => e.2) w)) :
    (upsertAll es).Reaches I Q := by
  induction es with
  | nil => simp at he
  | cons e' es ih =>
    rcases List.mem_cons.mp he with rfl | he
    · exact (reaches_act hQ).bind_left _
    · refine Reaches.bind_right (stable_act (E := NoFailure) (h e' List.mem_cons_self)) fun _ => ?_
      exact ih (fun e hmem => h e (List.mem_cons_of_mem e' hmem)) he

/-- The clone of a repository, with nothing indexed. -/
def cloned (files : Store FilePath fun _ => String) : RegistryStore where
  get
    | .file p => files.get p
    | _ => none
  keys := files.keys.image .file
  mem_keys c := by
    cases c <;> simp [files.mem_keys]
    rfl

/-- `indexAllBlockchainAppsMeta` makes these tables of the files, from empty ones. -/
def Produces (env : RegistryEnv) (files : Store FilePath fun _ => String) (tables : RegistryStore) :
    Prop :=
  ∃ walk sched w, (∀ p, p ∈ walk ↔ env.Known p ∧ (files.get p).isSome) ∧
    (indexAllBlockchainAppsMeta env sched walk).run (ofStore (cloned files)) = (.ok (), w) ∧
    tables = w.view .dbTrx

section Tables

variable {own : RegistryCell → Prop} (C : Commit env own)

/-- The walk finds files that list rows. -/
private theorem Commit.exists_entries {p : FilePath}
    (h : env.Known p ∧ (C.files.get p).isSome) :
    ∃ es, env.entries C.files.get p = some es ∧
      ∀ e ∈ es, env.Lists C.files.get p e.1 e.2 := by
  obtain ⟨es, hes⟩ := Option.isSome_iff_exists.mp (C.indexable p h.1 h.2)
  exact ⟨es, hes, fun e he => ⟨h.1, h.2, es, hes, he⟩⟩

/-- Threads that each keep `Q`, whatever row their file lists. -/
private theorem Commit.stable_walk {walk : List FilePath}
    (hwalk : ∀ p, p ∈ walk ↔ env.Known p ∧ (C.files.get p).isSome)
    (hQ : ∀ p (e : Entry), env.Lists C.files.get p e.1 e.2 → ∀ w, Q w →
      Q (send .dbTrx (upsertRow e.1 fun _ => e.2) w)) :
    ∀ q ∈ walk.map (indexMetadataFromFile env .clone),
      q.Stable NoFailure (CloneIs C.files.get) Q := by
  intro q hq
  obtain ⟨p, hp, rfl⟩ := List.mem_map.mp hq
  have hknown := (hwalk p).mp hp
  obtain ⟨es, hes, hlists⟩ := C.exists_entries hknown
  refine indexMetadataFromFile_of_upsertAll (fun g k hk => stable_read_bind hk) (fun _ hw => hw)
    hknown.1.2 hes (stable_upsertAll fun e he w hw => ⟨hw, hQ p e (hlists e he) w⟩)

/-- A row that is listed is written in any order; a row that is not listed is not. -/
theorem produces_iff {tables : RegistryStore} (h : Produces env C.files tables)
    {c : RegistryCell} (hc : c.IsMetadata) (r : RegistryRow c) :
    tables.get c = some r ↔ ∃ p, env.Lists C.files.get p c r := by
  obtain ⟨walk, sched, w, hwalk, hrun, rfl⟩ := h
  have hstart : CloneIs C.files.get (ofStore (cloned C.files)) := fun p _ => rfl
  have hlisted : ∀ p r, env.Lists C.files.get p c r → (w.view .dbTrx).get c = some r := by
    intro p r hp
    -- The row is listed once, so whoever writes it writes this value.
    have hkeep : ∀ q (e : Entry), env.Lists C.files.get q e.1 e.2 → ∀ w : RegistrySession,
        (w.view .dbTrx).get c = some r →
        ((send .dbTrx (upsertRow e.1 fun _ => e.2) w).view .dbTrx).get c = some r := by
      intro q e he w hw
      obtain ⟨c', r'⟩ := e
      by_cases hcc : c = c'
      · subst hcc
        obtain ⟨-, rfl⟩ := C.unique _ _ _ _ _ hp he
        rw [view_send_dbTrx_get, upsertRow_act_self]
      · exact (view_send_point_of_ne hcc _ _ _ w).trans hw
    refine run_interleave_reaches (C.stable_walk hwalk hkeep) ⟨_, List.mem_map_of_mem
      ((hwalk p).mpr ⟨hp.1, hp.2.1⟩), ?_⟩ hstart hrun
    obtain ⟨es, hes, hlists⟩ := C.exists_entries ⟨hp.1, hp.2.1⟩
    have hknown := hp.1.2
    obtain ⟨-, -, es', hes', hmem⟩ := hp
    obtain rfl : es = es' := Option.some.inj (hes.symm.trans hes')
    refine indexMetadataFromFile_of_upsertAll (fun g k hk => reaches_read_bind hk) (fun _ hw => hw)
      hknown hes (reaches_upsertAll (fun e he w hw => ⟨hw, hkeep p e (hlists e he) w⟩) hmem ?_)
    intro w _
    rw [view_send_dbTrx_get, upsertRow_act_self]
  constructor
  · intro hget
    by_contra hnot
    -- Nobody writes a row that is not listed.
    have hnone : ∀ q (e : Entry), env.Lists C.files.get q e.1 e.2 → ∀ w : RegistrySession,
        (w.view .dbTrx).get c = none →
        ((send .dbTrx (upsertRow e.1 fun _ => e.2) w).view .dbTrx).get c = none := by
      intro q e he w hw
      obtain ⟨c', r'⟩ := e
      have hcc : c ≠ c' := by
        rintro rfl
        have hsome := hlisted q r' he
        rw [hget] at hsome
        obtain rfl := Option.some.inj hsome
        exact hnot ⟨q, he⟩
      exact (view_send_point_of_ne hcc _ _ _ w).trans hw
    have hempty : ((ofStore (cloned C.files)).view .dbTrx).get c = none := by
      rw [view_ofStore]
      cases c <;> trivial
    have hend := ((Stable.interleave sched (C.stable_walk hwalk hnone)).run_ok hstart hrun).2
      (.inl hempty)
    rw [hend] at hget
    simp at hget
  · rintro ⟨p, hp⟩
    exact hlisted p r hp

/-- A commit can be indexed. -/
theorem exists_produces : ∃ tables, Produces env C.files tables := by
  let walk := (C.files.keys.filter fun p => env.Known p).toList
  have hwalk : ∀ p, p ∈ walk ↔ env.Known p ∧ (C.files.get p).isSome := by
    intro p
    simp only [walk, Finset.mem_toList, Finset.mem_filter, C.files.mem_keys, and_comm]
  obtain ⟨w, hrun, -⟩ := run_interleave_ok [] (C.stable_walk (Q := fun _ => True) hwalk
    fun _ _ _ _ _ => trivial) (s := ofStore (cloned C.files)) fun p _ => rfl
  exact ⟨_, walk, [], w, hwalk, hrun, rfl⟩

end Tables

end IndexAll

end AppRegistry

end SwaptoshiService
