import SwaptoshiService.AppRegistry.SyncRepository

/-!
# The passes over the applications

While the changed files are processed, the clone holds the old commit and `temp-downloads` holds
only files of the new one (`InSync`). Under this invariant the pass over a file touches the rows the
old and the new file list and nothing else (`footprintIn_syncFile`).

`run_syncApp` says what the pass over an application does when it runs alone, and
`run_syncApps_alone` that it does the same among the others, on its own files and on every row no
other application touches. `exists_run_syncApps_last` lets any application come last, which is how
a disputed row is lost.
-/

namespace SwaptoshiService

namespace AppRegistry

open Session Table

/-! ### What the pass over an application may touch -/

section Footprints

variable {env : RegistryEnv} {old new : FilePath → Option String} {remote : Remote}
  {f : FileInfo} {p : FilePath} {d : String × String}

/-- The pass over a file deletes or writes the row. -/
def Touches (env : RegistryEnv) (old new : FilePath → Option String) (f : FileInfo)
    (c : RegistryCell) : Prop :=
  (f.status ∈ fileUpdatedStatuses ∧ ∃ r, env.Lists old f.filename c r) ∨
    (f.status ≠ .removed ∧ ∃ r, env.Lists new f.filename c r)

theorem Touches.fits {c : RegistryCell} (h : Touches env old new f c) : Fits f.filename c := by
  rcases h with ⟨-, r, hr⟩ | ⟨-, r, hr⟩ <;> exact hr.fits

/-- While the changes are processed, the clone holds the old files and `temp-downloads` only new
ones. -/
def InSync (old new : FilePath → Option String) (w : RegistrySession) : Prop :=
  CloneIs old w ∧ ∀ p, Dir.get .tempDownloads p (w.view .default) = none ∨
    Dir.get .tempDownloads p (w.view .default) = new p

theorem inSync_send_dbTrx {w : RegistrySession} (h : InSync old new w)
    (st : Write RegistryCell RegistryRow) : InSync old new (send .dbTrx st w) := h

/-- The files of an application, local and downloaded. -/
def AppFiles (d : String × String) : Conn → RegistryCell → Prop
  | .default, .file q => q.dir = d
  | .default, .temp q => q.dir = d
  | _, _ => False

/-- What the pass over a file may change. -/
def FileWrites (env : RegistryEnv) (old new : FilePath → Option String) (f : FileInfo) :
    Conn → RegistryCell → Prop
  | .default, c => c = .temp f.filename ∨ c = .task f.filename
  | .dbTrx, c => Touches env old new f c

variable {R : Conn → RegistryCell → Prop} {W : Conn → RegistryCell → Prop}

theorem footprintIn_deleteAll {cells : List RegistryCell} (h : ∀ c ∈ cells, W .dbTrx c) :
    FootprintIn (InSync old new) R (Respects W) (deleteAll cells) := by
  refine FootprintIn.serial fun q hq => ?_
  obtain ⟨c, hc, rfl⟩ := List.mem_map.mp hq
  exact footprintIn_exec (respects_point (h c hc)) fun w hw => inSync_send_dbTrx hw _

theorem footprintIn_upsertAll {es : List Entry} (h : ∀ e ∈ es, W .dbTrx e.1) :
    FootprintIn (InSync old new) R (Respects W) (upsertAll es) := by
  refine FootprintIn.serial fun q hq => ?_
  obtain ⟨e, he, rfl⟩ := List.mem_map.mp hq
  exact footprintIn_exec (respects_point (h e he)) fun w hw => inSync_send_dbTrx hw _

private theorem Dir.get_congr (dir : Dir) (hp : p.dir = d) {s s' : RegistryStore}
    (h : ∀ c, AppFiles d .default c → s'.get c = s.get c) : dir.get p s' = dir.get p s := by
  cases dir with
  | clone => exact h (.file p) hp
  | tempDownloads => exact h (.temp p) hp

/-- Reading a file of the application. -/
theorem footprintIn_readFile_bind {dir : Dir} (hp : p.dir = d) {k : String → Program Unit}
    (h : ∀ w, InSync old new w → ∀ text, dir.get p (w.view .default) = some text →
      FootprintIn (InSync old new) (AppFiles d) (Respects W) (k text)) :
    FootprintIn (InSync old new) (AppFiles d) (Respects W) (readFile dir p >>= k) := by
  refine (Async.bind_assoc' (query .default (dir.get p)) (.ofOption .noSuchFile) k).symm ▸ ?_
  refine footprintIn_query_bind (fun s s' hs => dir.get_congr hp hs) fun w hw => ?_
  exact footprintIn_ofOption_bind fun text htext => h w hw text htext

variable {own : RegistryCell → Prop} {A B : Commit env own}

/-- The rows that are deleted are those the old file lists. -/
theorem footprintIn_deleteIndexedMetadataFromFile (hp : env.Known p)
    (h : ∀ c r, env.Lists old p c r → W .dbTrx c) :
    FootprintIn (InSync old new) (AppFiles p.dir) (Respects W)
      (deleteIndexedMetadataFromFile env p) := by
  refine footprintIn_readFile_bind p.dir_appJson fun w hw appText happText => ?_
  have happ : old p.appJson = some appText := (hw.1 p.appJson rfl).symm.trans happText
  refine footprintIn_ofOption_bind fun appMeta hmeta => ?_
  rcases hname : p.filename with _ | _ | name
  · have hself : p.appJson = p := FilePath.eq_of_dir rfl hname.symm
    rw [hself] at happ
    refine footprintIn_deleteAll fun c hc => ?_
    obtain rfl := List.mem_singleton.mp hc
    have hes := entries_of_parseApp hname happ hmeta
    exact h _ (appEntry env p.appDirName appMeta).2
      ⟨hp, by simp [happ], _, hes, List.mem_singleton_self _⟩
  · refine footprintIn_readFile_bind rfl fun w' hw' text htext => ?_
    have htext' : old p = some text := (hw'.1 p hp.2).symm.trans htext
    refine footprintIn_ofOption_bind fun tokens htokens => footprintIn_deleteAll fun c hc => ?_
    rw [List.map_map] at hc
    obtain ⟨token, htoken, rfl⟩ := List.mem_map.mp hc
    have hes := entries_of_parseTokens hname happ hmeta htext' htokens
    exact h _ (tokenEntry appMeta.chainName p.network token).2
      ⟨hp, by simp [htext'], _, hes, List.mem_map_of_mem htoken⟩
  · exact footprintIn_pure ()

/-- The rows that are written are those the new file lists, or the unchanged old one. -/
theorem footprintIn_indexMetadataFromFile (hp : env.Known p)
    (hold : p.filename = .appJson → ∀ c r, env.Lists old p c r → W .dbTrx c)
    (hnew : ∀ c r, env.Lists B.files.get p c r → W .dbTrx c) :
    FootprintIn (InSync old B.files.get) (AppFiles p.dir) (Respects W)
      (indexMetadataFromFile env .tempDownloads p) := by
  refine footprintIn_query_bind (fun s s' hs => ?_) fun w _ => ?_
  · rw [Dir.get_congr .tempDownloads (p.dir_appJson) hs]
  refine footprintIn_readFile_bind p.dir_appJson fun w' hw' appText happText => ?_
  -- The `app.json` is a new or an old one.
  have happ : B.files.get p.appJson = some appText ∨ old p.appJson = some appText := by
    split at happText
    · rcases hw'.2 p.appJson with hnone | htemp
      · rw [hnone] at happText
        simp at happText
      · exact .inl (htemp.symm.trans happText)
    · exact .inr ((hw'.1 p.appJson rfl).symm.trans happText)
  refine footprintIn_ofOption_bind fun appMeta hmeta => ?_
  rcases hname : p.filename with _ | _ | name
  · have hself : p.appJson = p := FilePath.eq_of_dir rfl hname.symm
    rw [hself] at happ
    refine footprintIn_upsertAll fun e he => ?_
    rcases happ with happ | happ
    · exact hnew e.1 e.2 ⟨hp, by simp [happ], _, entries_of_parseApp hname happ hmeta, he⟩
    · exact hold hname e.1 e.2 ⟨hp, by simp [happ], _, entries_of_parseApp hname happ hmeta, he⟩
  · refine footprintIn_readFile_bind rfl fun w'' hw'' text htext => ?_
    have htext' : B.files.get p = some text := by
      rcases hw''.2 p with hnone | htemp
      · rw [hnone] at htext
        simp at htext
      · exact htemp.symm.trans htext
    refine footprintIn_ofOption_bind fun tokens htokens => footprintIn_upsertAll fun e he => ?_
    obtain ⟨token, htoken, rfl⟩ := List.mem_map.mp he
    -- Which `app.json` was read does not matter for the primary keys.
    obtain ⟨es, hes⟩ := Option.isSome_iff_exists.mp (B.indexable p hp (by simp [htext']))
    have hes' := hes
    simp only [entries_nativetokensJson hname, Option.bind_eq_some_iff] at hes'
    obtain ⟨_, -, appMeta', -, text', htext'', hes'⟩ := hes'
    obtain ⟨tokens', htokens', rfl⟩ := Option.map_eq_some_iff.mp hes'
    obtain rfl : text = text' := Option.some.inj (htext'.symm.trans htext'')
    obtain rfl : tokens = tokens' := Option.some.inj (htokens.symm.trans htokens')
    exact hnew _ (tokenEntry appMeta'.chainName p.network token).2
      ⟨hp, by simp [htext'], _, hes, List.mem_map_of_mem htoken⟩
  · exact footprintIn_pure ()

/-- The texts that are downloaded are those of the new commit. -/
def Delivers (env : RegistryEnv) (new : FilePath → Option String) (remote : Remote) : Prop :=
  ∀ f ∈ remote.files, env.Known f.filename → f.status ≠ .removed →
    remote.download f.filename = new f.filename

private theorem get_temp_send {c : RegistryCell} (h : RegistryCell.temp p ≠ c) (conn : Conn)
    (g : Option (RegistryRow c) → Option (RegistryRow c)) (w : RegistrySession) :
    Dir.get .tempDownloads p ((send conn (.point c g) w).view .default) =
      Dir.get .tempDownloads p (w.view .default) := view_send_point_of_ne h conn .default g w

private theorem inSync_send_temp {w : RegistrySession} (hw : InSync old new w) {text : String}
    (htext : new p = some text) :
    InSync old new (send .default (.point (.temp p) fun _ => some text) w) := by
  refine ⟨fun q hq => ?_, fun q => ?_⟩
  · exact (view_send_point_of_ne (by simp) _ _ _ w).trans (hw.1 q hq)
  · by_cases hqp : q = p
    · subst hqp
      refine .inr (Eq.trans ?_ htext.symm)
      exact Write.point_act_self _ _ _
    · have hne : RegistryCell.temp q ≠ .temp p := fun h => hqp (RegistryCell.temp.inj h)
      rw [get_temp_send hne]
      exact hw.2 q

private theorem inSync_send_task {w : RegistrySession} (hw : InSync old new w) {task : FileTask} :
    InSync old new (send .default (.point (.task p) fun _ => some task) w) := by
  refine ⟨fun q hq => ?_, fun q => ?_⟩
  · exact (view_send_point_of_ne (by simp) _ _ _ w).trans (hw.1 q hq)
  · rw [get_temp_send (by simp)]
    exact hw.2 q

/-- **The pass over a file** reads the files of its application, writes its own downloads and
touches only rows of the old and the new file. -/
theorem footprintIn_syncFile (hdiff : IsDiff A.files.get B.files.get remote.files)
    (hdl : Delivers env B.files.get remote) (hf : f ∈ remote.files) (hp : env.Known f.filename) :
    FootprintIn (InSync A.files.get B.files.get) (AppFiles f.filename.dir)
      (Respects (FileWrites env A.files.get B.files.get f)) (syncFile env remote f) := by
  refine FootprintIn.bind ?_ fun _ => ?_
  · rw [deleteOldRows]
    split
    · rename_i hupd
      exact footprintIn_deleteIndexedMetadataFromFile hp fun c r hr => .inl ⟨hupd, r, hr⟩
    · exact footprintIn_pure ()
  · rw [indexNewFile]
    split
    · exact footprintIn_exec (respects_point (.inr rfl)) fun w hw => inSync_send_task hw
    rename_i hstatus
    refine FootprintIn.bind ?_ fun _ => FootprintIn.bind ?_ fun _ => ?_
    · refine footprintIn_ofOption_bind fun text htext => ?_
      rw [hdl f hf hp hstatus] at htext
      exact footprintIn_exec (respects_point (.inl rfl)) fun w hw => inSync_send_temp hw htext
    · refine footprintIn_indexMetadataFromFile hp (fun hname c r hr => ?_) fun c r hr =>
        .inr ⟨hstatus, r, hr⟩
      by_cases hupd : f.status ∈ fileUpdatedStatuses
      · exact .inl ⟨hupd, r, hr⟩
      · -- The old file, if there is one, is the new one.
        have hsame := hdiff.eq_of_not_updated hf hupd hr.2.1
        have hself : f.filename.appJson = f.filename := FilePath.eq_of_dir rfl hname.symm
        refine .inr ⟨hstatus, r, hp, hsame ▸ hr.2.1, ?_⟩
        rw [entries_congr (by rw [hself, hsame] : _ = A.files.get _) hsame.symm]
        exact hr.2.2
    · exact footprintIn_exec (respects_point (.inr rfl)) fun w hw => inSync_send_task hw

end Footprints

/-! ### The pass over an application, alone -/

section Alone

variable {env : RegistryEnv} {own : RegistryCell → Prop} {A B : Commit env own} {remote : Remote}
  {files : FilePath → Option String} {f : FileInfo} {p : FilePath} {es : List Entry}
  {w : RegistrySession}

theorem run_deleteAll (cells : List RegistryCell) (w : RegistrySession) :
    ∃ w', (deleteAll cells).run w = (.ok (), w') ∧ w'.committed = w.committed ∧
      ∀ c, (w'.view .dbTrx).get c = if c ∈ cells then none else (w.view .dbTrx).get c := by
  induction cells generalizing w with
  | nil => exact ⟨w, rfl, rfl, fun c => by simp⟩
  | cons c cells ih =>
    obtain ⟨w', hrun, hcomm, hview⟩ := ih (send .dbTrx (deleteRow c) w)
    refine ⟨w', hrun, hcomm, fun c' => ?_⟩
    rw [hview]
    by_cases hcc : c' = c
    · subst hcc
      simp [view_send_dbTrx_get]
    · have hsame := view_send_point_of_ne hcc .dbTrx .dbTrx (fun _ => none) w
      simp only [List.mem_cons, hcc, false_or]
      split
      · rfl
      · exact hsame

theorem run_upsertAll (es : List Entry) (w : RegistrySession) :
    ∃ w', (upsertAll es).run w = (.ok (), w') ∧ w'.committed = w.committed ∧
      (∀ c, (∀ e ∈ es, e.1 ≠ c) → (w'.view .dbTrx).get c = (w.view .dbTrx).get c) ∧
      ∀ c r, (⟨c, r⟩ : Entry) ∈ es → (∀ r', (⟨c, r'⟩ : Entry) ∈ es → r' = r) →
        (w'.view .dbTrx).get c = some r := by
  induction es generalizing w with
  | nil => exact ⟨w, rfl, rfl, fun c _ => rfl, fun c r h => by simp at h⟩
  | cons e es ih =>
    obtain ⟨w', hrun, hcomm, hother, hlast⟩ := ih (send .dbTrx (upsertRow e.1 fun _ => e.2) w)
    refine ⟨w', hrun, hcomm, fun c hc => ?_, fun c r hmem huniq => ?_⟩
    · rw [hother c fun e' he' => hc e' (List.mem_cons_of_mem e he')]
      exact view_send_point_of_ne (Ne.symm (hc e List.mem_cons_self)) _ _ _ w
    · by_cases htail : ∃ r', (⟨c, r'⟩ : Entry) ∈ es
      · obtain ⟨r', hr'⟩ := htail
        obtain rfl := huniq r' (List.mem_cons_of_mem e hr')
        exact hlast c r' hr' fun r'' hr'' => huniq r'' (List.mem_cons_of_mem e hr'')
      · have hhead : (⟨c, r⟩ : Entry) = e :=
          (List.mem_cons.mp hmem).resolve_right fun h => htail ⟨r, h⟩
        subst hhead
        rw [hother c fun e' he' hec => htail ⟨hec ▸ e'.2, by subst hec; exact he'⟩]
        rw [view_send_dbTrx_get, upsertRow_act_self]

theorem run_readFile_bind {dir : Dir} {text : String} (h : dir.get p (w.view .default) = some text)
    (k : String → Program Unit) : (readFile dir p >>= k).run w = (k text).run w := by
  change (Async.ofOption .noSuchFile (dir.get p (w.view .default)) >>= k).run w = _
  rw [h]
  rfl

theorem CloneIs.get_clone (h : CloneIs files w) (hp : isMetadataFile p.filename = true) :
    Dir.get .clone p (w.view .default) = files p := h p hp

/-- Deleting what the old file lists. -/
theorem run_deleteIndexedMetadataFromFile (hclone : CloneIs files w)
    (hp : isMetadataFile p.filename = true) (hes : env.entries files p = some es) :
    (deleteIndexedMetadataFromFile env p).run w = (deleteAll (es.map Sigma.fst)).run w := by
  rw [deleteIndexedMetadataFromFile]
  rcases hname : p.filename with _ | _ | name
  · rw [entries_appJson hname, Option.bind_eq_some_iff] at hes
    obtain ⟨text, htext, hes⟩ := hes
    obtain ⟨appMeta, hmeta, rfl⟩ := Option.map_eq_some_iff.mp hes
    have hself : p.appJson = p := FilePath.eq_of_dir rfl hname.symm
    rw [run_readFile_bind ((hclone.get_clone (p := p.appJson) rfl).trans (hself ▸ htext)), hmeta]
    rfl
  · simp only [entries_nativetokensJson hname, Option.bind_eq_some_iff] at hes
    obtain ⟨appText, happText, appMeta, hmeta, text, htext, hes⟩ := hes
    obtain ⟨tokens, htokens, rfl⟩ := Option.map_eq_some_iff.mp hes
    rw [run_readFile_bind ((hclone.get_clone (p := p.appJson) rfl).trans happText), hmeta]
    refine (run_readFile_bind ((hclone.get_clone hp).trans htext) _).trans ?_
    rw [htokens, List.map_map]
    change (deleteAll ((tokens.map TokenMeta.tokenID).map _)).run w = _
    rw [List.map_map]
    rfl
  · rw [hname] at hp
    simp [isMetadataFile] at hp

/-- Indexing a downloaded file, when the `app.json` found is the right one. -/
theorem run_indexMetadataFromFile (hp : isMetadataFile p.filename = true)
    (htemp : Dir.get .tempDownloads p (w.view .default) = files p)
    (happ : Dir.get .tempDownloads p.appJson (w.view .default) = files p.appJson ∨
      Dir.get .tempDownloads p.appJson (w.view .default) = none ∧
        Dir.get .clone p.appJson (w.view .default) = files p.appJson)
    (hes : env.entries files p = some es) :
    (indexMetadataFromFile env .tempDownloads p).run w = (upsertAll es).run w := by
  have happText : ∀ text, files p.appJson = some text →
      Dir.get (if (Dir.get .tempDownloads p.appJson (w.view .default)).isSome then .tempDownloads
        else .clone) p.appJson (w.view .default) = some text := by
    intro text htext
    rcases happ with happ | ⟨hnone, happ⟩
    · rw [happ, htext]
      exact happ.trans htext
    · rw [hnone]
      exact happ.trans htext
  rw [indexMetadataFromFile]
  rw [run_query_bind]
  rcases hname : p.filename with _ | _ | name
  · rw [entries_appJson hname, Option.bind_eq_some_iff] at hes
    obtain ⟨text, htext, hes⟩ := hes
    obtain ⟨appMeta, hmeta, rfl⟩ := Option.map_eq_some_iff.mp hes
    have hself : p.appJson = p := FilePath.eq_of_dir rfl hname.symm
    rw [run_readFile_bind (happText text (hself ▸ htext)), hmeta]
    rfl
  · simp only [entries_nativetokensJson hname, Option.bind_eq_some_iff] at hes
    obtain ⟨appText, happText', appMeta, hmeta, text, htext, hes⟩ := hes
    obtain ⟨tokens, htokens, rfl⟩ := Option.map_eq_some_iff.mp hes
    rw [run_readFile_bind (happText appText happText'), hmeta]
    refine (run_readFile_bind (htemp.trans htext) _).trans ?_
    rw [htokens]
    rfl
  · rw [hname] at hp
    simp [isMetadataFile] at hp

/-- What a listed file is scheduled for. -/
def taskOf (f : FileInfo) : FileTask := if f.status = .removed then .delete else .move

/-- The files of the application `d` after the passes over `done`. -/
structure Progress (old new : FilePath → Option String) (d : String × String)
    (done : List FileInfo) (w : RegistrySession) : Prop where
  clone : CloneIs old w
  downloaded : ∀ f ∈ done, f.status ≠ .removed →
    Dir.get .tempDownloads f.filename (w.view .default) = new f.filename
  missing : ∀ q, q.dir = d → (∀ f ∈ done, f.filename = q → f.status = .removed) →
    Dir.get .tempDownloads q (w.view .default) = none
  tasks : ∀ f ∈ done, scheduled f.filename (w.view .default) = some (taskOf f)

/-- The rows the pass deletes, those it writes, and the rest. -/
structure Effect (env : RegistryEnv) (old new : FilePath → Option String) (f : FileInfo)
    (w w' : RegistrySession) : Prop where
  other : ∀ c : RegistryCell, c.IsMetadata → ¬ Touches env old new f c →
    (w'.view .dbTrx).get c = (w.view .dbTrx).get c
  written : ∀ c r, f.status ≠ .removed → env.Lists new f.filename c r →
    (w'.view .dbTrx).get c = some r
  deleted : ∀ c r, f.status ∈ fileUpdatedStatuses → env.Lists old f.filename c r →
    (f.status ≠ .removed → ∀ r', ¬ env.Lists new f.filename c r') → (w'.view .dbTrx).get c = none

private theorem lists_iff_mem {C : Commit env own} (hp : env.Known p)
    (hes : env.entries C.files.get p = some es) (hsome : (C.files.get p).isSome)
    (c : RegistryCell) (r : RegistryRow c) :
    env.Lists C.files.get p c r ↔ (⟨c, r⟩ : Entry) ∈ es := by
  constructor
  · rintro ⟨-, -, es', hes', hmem⟩
    obtain rfl : es = es' := Option.some.inj (hes.symm.trans hes')
    exact hmem
  · exact fun hmem => ⟨hp, hsome, es, hes, hmem⟩

/-- The old rows are deleted. -/
private theorem run_deleteOldRows (hdiff : IsDiff A.files.get B.files.get remote.files)
    (hf : f ∈ remote.files) (hp : env.Known f.filename) (hclone : CloneIs A.files.get w) :
    ∃ w', (deleteOldRows env f).run w = (.ok (), w') ∧ w'.committed = w.committed ∧
      (∀ c, ¬ (f.status ∈ fileUpdatedStatuses ∧ ∃ r, env.Lists A.files.get f.filename c r) →
        (w'.view .dbTrx).get c = (w.view .dbTrx).get c) ∧
      ∀ c r, f.status ∈ fileUpdatedStatuses → env.Lists A.files.get f.filename c r →
        (w'.view .dbTrx).get c = none := by
  rw [deleteOldRows]
  by_cases hupd : f.status ∈ fileUpdatedStatuses
  · have hold := hdiff.isSome_old hf hupd
    obtain ⟨es, hes⟩ := Option.isSome_iff_exists.mp (A.indexable _ hp hold)
    obtain ⟨w', hrun, hcomm, hview⟩ := run_deleteAll (es.map Sigma.fst) w
    rw [if_pos hupd, run_deleteIndexedMetadataFromFile hclone hp.2 hes]
    refine ⟨w', hrun, hcomm, fun c hc => ?_, fun c r _ hr => ?_⟩
    · rw [hview, if_neg]
      intro hmem
      obtain ⟨⟨c', r⟩, he, rfl⟩ := List.mem_map.mp hmem
      exact hc ⟨hupd, r, (lists_iff_mem hp hes hold c' r).mpr he⟩
    · rw [hview, if_pos]
      exact List.mem_map_of_mem (f := Sigma.fst) ((lists_iff_mem hp hes hold c r).mp hr)
  · rw [if_neg hupd]
    exact ⟨w, rfl, rfl, fun c _ => rfl, fun c r h => absurd h hupd⟩

section Pass

variable {done : List FileInfo} (hdiff : IsDiff A.files.get B.files.get remote.files)
  (hdl : Delivers env B.files.get remote) (hf : f ∈ remote.files) (hp : env.Known f.filename)

/-- A pass is entered in the lists when it is done; before that it may have downloaded its file. -/
private theorem Progress.schedule {old new : FilePath → Option String} {w' : RegistrySession}
    (h : Progress old new f.filename.dir done w) (hfresh : ∀ g ∈ done, g.filename ≠ f.filename)
    (hkeep : ∀ c, c ≠ .temp f.filename → (w'.view .default).get c = (w.view .default).get c)
    (htemp : Dir.get .tempDownloads f.filename (w'.view .default) =
      if f.status = .removed then Dir.get .tempDownloads f.filename (w.view .default)
      else new f.filename) :
    Progress old new f.filename.dir (done ++ [f])
      (send .default (.point (.task f.filename) fun _ => some (taskOf f)) w') := by
  have hother : ∀ q, q ≠ f.filename → Dir.get .tempDownloads q (w'.view .default) =
      Dir.get .tempDownloads q (w.view .default) :=
    fun q hq => hkeep (.temp q) fun heq => hq (RegistryCell.temp.inj heq)
  refine ⟨fun q hq => ?_, fun g hg hstatus => ?_, fun q hq hdone => ?_, fun g hg => ?_⟩
  · refine (view_send_point_of_ne (by simp) _ _ _ w').trans ?_
    exact (hkeep (.file q) (by simp)).trans (h.clone q hq)
  · rw [get_temp_send (by simp)]
    rcases List.mem_append.mp hg with hg | hg
    · rw [hother _ (hfresh g hg)]
      exact h.downloaded g hg hstatus
    · obtain rfl := List.mem_singleton.mp hg
      rw [htemp, if_neg hstatus]
  · rw [get_temp_send (by simp)]
    have hmissing := h.missing q hq fun g hg => hdone g (List.mem_append_left _ hg)
    by_cases hqf : q = f.filename
    · subst hqf
      rw [htemp, if_pos (hdone f (by simp) rfl), hmissing]
    · rw [hother q hqf, hmissing]
  · rcases List.mem_append.mp hg with hg | hg
    · have hne : RegistryCell.task g.filename ≠ .task f.filename :=
        fun heq => hfresh g hg (RegistryCell.task.inj heq)
      refine (view_send_point_of_ne hne _ _ _ w').trans ?_
      exact (hkeep (.task g.filename) (by simp)).trans (h.tasks g hg)
    · obtain rfl := List.mem_singleton.mp hg
      exact Write.point_act_self _ _ _

/-- The passes before this one concern other files of the list, and the `app.json` among them
comes first. -/
structure Before (remote : Remote) (f : FileInfo) (done : List FileInfo) : Prop where
  listed : ∀ g ∈ done, g ∈ remote.files
  fresh : ∀ g ∈ done, g.filename ≠ f.filename
  appFirst : f.filename.filename ≠ .appJson →
    ∀ g ∈ remote.files, g.filename = f.filename.appJson → g ∈ done

include hdiff in
/-- The `app.json` that is found beside a downloaded file is that of the new commit. -/
private theorem Progress.app_found (hprog : Progress A.files.get B.files.get f.filename.dir done w)
    (hp : env.Known f.filename) (hnew : (B.files.get f.filename).isSome)
    (hbefore : Before remote f done) {w' : RegistrySession}
    (hkeep : ∀ c, c ≠ .temp f.filename → (w'.view .default).get c = (w.view .default).get c)
    (htemp : Dir.get .tempDownloads f.filename (w'.view .default) = B.files.get f.filename) :
    Dir.get .tempDownloads f.filename.appJson (w'.view .default) =
        B.files.get f.filename.appJson ∨
      Dir.get .tempDownloads f.filename.appJson (w'.view .default) = none ∧
        Dir.get .clone f.filename.appJson (w'.view .default) =
          B.files.get f.filename.appJson := by
  by_cases hname : f.filename.filename = .appJson
  · have hself : f.filename.appJson = f.filename := FilePath.eq_of_dir rfl hname.symm
    rw [hself]
    exact .inl htemp
  have hne : RegistryCell.temp f.filename.appJson ≠ .temp f.filename := fun heq =>
    hname (congrArg FilePath.filename (RegistryCell.temp.inj heq)).symm
  have hget : Dir.get .tempDownloads f.filename.appJson (w'.view .default) =
      Dir.get .tempDownloads f.filename.appJson (w.view .default) := hkeep _ hne
  have hclone : Dir.get .clone f.filename.appJson (w'.view .default) =
      A.files.get f.filename.appJson :=
    (hkeep (.file f.filename.appJson) (by simp)).trans (hprog.clone _ rfl)
  -- The new commit has an `app.json` beside the file.
  have happ : (B.files.get f.filename.appJson).isSome := by
    obtain ⟨es, hes⟩ := Option.isSome_iff_exists.mp (B.indexable _ hp hnew)
    simp only [RegistryEnv.entries, bind, Option.bind_eq_some_iff] at hes
    obtain ⟨text, htext, -⟩ := hes
    simp [htext]
  rw [hget, hclone]
  by_cases hlisted : ∃ g ∈ remote.files, g.filename = f.filename.appJson
  · obtain ⟨g, hg, hgname⟩ := hlisted
    have hstatus : g.status ≠ .removed := by
      intro hs
      rw [← hgname, (hdiff.removed g hg hs).2] at happ
      simp at happ
    left
    rw [← hgname]
    exact hprog.downloaded g (hbefore.appFirst hname g hg hgname) hstatus
  · refine .inr ⟨hprog.missing _ rfl fun g hg hgname => ?_, ?_⟩
    · exact absurd ⟨g, hbefore.listed g hg, hgname⟩ hlisted
    · exact hdiff.eq_of_not_listed (fun g hg hgname => hlisted ⟨g, hg, hgname⟩) happ

include hdiff hdl hf hp in
/-- The new rows are written. -/
private theorem run_indexNewFile
    (hprog : Progress A.files.get B.files.get f.filename.dir done w)
    (hbefore : Before remote f done) :
    ∃ w', (indexNewFile env remote f).run w = (.ok (), w') ∧
      Progress A.files.get B.files.get f.filename.dir (done ++ [f]) w' ∧
      (∀ c : RegistryCell, c.IsMetadata →
        ¬ (f.status ≠ .removed ∧ ∃ r, env.Lists B.files.get f.filename c r) →
        (w'.view .dbTrx).get c = (w.view .dbTrx).get c) ∧
      ∀ c r, f.status ≠ .removed → env.Lists B.files.get f.filename c r →
        (w'.view .dbTrx).get c = some r := by
  have hscratch : ∀ c : RegistryCell, c.IsMetadata →
      c ≠ .task f.filename ∧ c ≠ .temp f.filename := by
    intro c hc
    constructor <;> rintro rfl <;> exact hc
  rw [indexNewFile]
  by_cases hstatus : f.status = .removed
  · rw [if_pos hstatus]
    have htask : taskOf f = .delete := if_pos hstatus
    refine ⟨_, rfl, ?_, fun c hc _ => ?_, fun c r hne => absurd hstatus hne⟩
    · rw [← htask]
      exact hprog.schedule hbefore.fresh (fun _ _ => rfl) (by rw [if_pos hstatus])
    · exact view_send_point_of_ne (hscratch c hc).1 _ _ _ w
  rw [if_neg hstatus]
  have htask : taskOf f = .move := if_neg hstatus
  have hnew := hdiff.isSome_new hf hstatus
  obtain ⟨text, htext⟩ := Option.isSome_iff_exists.mp hnew
  obtain ⟨es, hes⟩ := Option.isSome_iff_exists.mp (B.indexable _ hp hnew)
  -- The state after the download.
  let w₁ := send .default (.point (.temp f.filename) fun _ => some text) w
  have hkeep : ∀ c, c ≠ .temp f.filename → (w₁.view .default).get c = (w.view .default).get c :=
    fun c hc => view_send_point_of_ne hc _ _ _ w
  have htemp : Dir.get .tempDownloads f.filename (w₁.view .default) = B.files.get f.filename :=
    (Write.point_act_self _ _ _).trans htext.symm
  obtain ⟨w₂, hrun, hcomm, hother, hlast⟩ := run_upsertAll es w₁
  have hview : w₂.view .default = w₁.view .default := hcomm
  have hindex : (indexMetadataFromFile env .tempDownloads f.filename).run w₁ = (.ok (), w₂) :=
    (run_indexMetadataFromFile hp.2 htemp
      (hprog.app_found hdiff hp hnew hbefore hkeep htemp) hes).trans hrun
  refine ⟨send .default (.point (.task f.filename) fun _ => some .move) w₂, ?_, ?_, ?_, ?_⟩
  · refine Async.run_bind_ok.mpr ⟨(), w₁, ?_, Async.run_bind_ok.mpr ⟨(), w₂, hindex, rfl⟩⟩
    rw [downloadFile]
    rw [hdl f hf hp hstatus, htext]
    rfl
  · rw [← htask]
    refine hprog.schedule hbefore.fresh (fun c hc => ?_) ?_
    · rw [hview]
      exact hkeep c hc
    · rw [hview, if_neg hstatus, htemp]
  · intro c hc hnot
    refine (view_send_point_of_ne (hscratch c hc).1 _ _ _ w₂).trans ?_
    rw [hother c]
    · exact view_send_point_of_ne (hscratch c hc).2 _ _ _ w
    · rintro ⟨c', r⟩ he rfl
      exact hnot ⟨hstatus, r, (lists_iff_mem hp hes hnew c' r).mpr he⟩
  · intro c r _ hr
    refine (view_send_point_of_ne (hscratch c hr.fits.isMetadata).1 _ _ _ w₂).trans ?_
    refine hlast c r ((lists_iff_mem hp hes hnew c r).mp hr) fun r' hr' => ?_
    exact (B.unique _ _ _ _ _ ((lists_iff_mem hp hes hnew c r').mpr hr') hr).2

include hdiff hdl hf hp in
/-- **The pass over a file, alone.** -/
theorem run_syncFile (hprog : Progress A.files.get B.files.get f.filename.dir done w)
    (hbefore : Before remote f done) :
    ∃ w', (syncFile env remote f).run w = (.ok (), w') ∧
      Progress A.files.get B.files.get f.filename.dir (done ++ [f]) w' ∧
      Effect env A.files.get B.files.get f w w' := by
  obtain ⟨w₁, hrun₁, hcomm, hother₁, hdel⟩ := run_deleteOldRows hdiff hf hp hprog.clone
  have hprog₁ : Progress A.files.get B.files.get f.filename.dir done w₁ := by
    have hview : w₁.view .default = w.view .default := hcomm
    obtain ⟨hclone, hdown, hmiss, htasks⟩ := hprog
    refine ⟨fun q hq => ?_, ?_, ?_, ?_⟩
    · rw [hview]
      exact hclone q hq
    · rwa [hview]
    · rwa [hview]
    · rwa [hview]
  obtain ⟨w₂, hrun₂, hprog₂, hother₂, hwritten⟩ := run_indexNewFile hdiff hdl hf hp hprog₁ hbefore
  refine ⟨w₂, Async.run_bind_ok.mpr ⟨(), w₁, hrun₁, hrun₂⟩, hprog₂, ?_, hwritten, ?_⟩
  · intro c hc hnot
    rw [hother₂ c hc fun h => hnot (.inr h), hother₁ c fun h => hnot (.inl h)]
  · intro c r hupd hr hnot
    rw [hother₂ c hr.fits.isMetadata fun ⟨hne, r', hr'⟩ => hnot hne r' hr']
    exact hdel c r hupd hr

end Pass

/-- The listed metadata files of one application, in the order of their names. -/
structure IsGroup (env : RegistryEnv) (collation : Collation) (remote : Remote)
    (d : String × String) (files : List FileInfo) : Prop where
  mem_iff : ∀ f, f ∈ files ↔ f ∈ remote.files ∧ env.Known f.filename ∧ f.filename.dir = d
  nodup : (files.map FileInfo.filename).Nodup
  sorted : files.Pairwise fun f g => collation.le f.filename g.filename = true

variable {collation : Collation} {d : String × String} {fs done rest : List FileInfo}

theorem isGroup_of_mem (hnodup : (remote.files.map FileInfo.filename).Nodup)
    (h : (d, fs) ∈ groupFilesByNetworkAndApp env collation remote.files) :
    IsGroup env collation remote d fs := by
  obtain ⟨d', -, heq⟩ := List.mem_map.mp h
  obtain ⟨rfl, rfl⟩ := Prod.mk.inj heq
  have hperm := List.mergeSort_perm remote.files
    fun f g => collation.le f.filename g.filename
  have hsorted := @List.pairwise_mergeSort _ (fun f g => collation.le f.filename g.filename)
    (fun f g i => collation.trans _ _ _) (fun f g => collation.total _ _) remote.files
  refine ⟨fun f => ?_, ?_, (hsorted.filter _).filter _⟩
  · simp only [List.mem_filter, hperm.mem_iff, decide_eq_true_eq, and_assoc]
  · have hsub := (List.filter_sublist (p := fun f : FileInfo => decide (f.filename.dir = d'))
      (l := (remote.files.mergeSort fun f g => collation.le f.filename g.filename).filter
        fun f => env.Known f.filename)).trans List.filter_sublist
    exact ((hperm.map FileInfo.filename).nodup_iff.mpr hnodup).sublist (hsub.map _)

/-- When its turn comes, a file of a group finds the `app.json` processed. -/
theorem IsGroup.before (hg : IsGroup env collation remote d (done ++ f :: rest)) :
    Before remote f done := by
  have hf := (hg.mem_iff f).mp (by simp)
  obtain ⟨-, hsorted, -⟩ := List.pairwise_append.mp hg.sorted
  have hnodup := hg.nodup
  rw [List.map_append, List.map_cons, List.nodup_append] at hnodup
  refine ⟨fun g hg' => ((hg.mem_iff g).mp (List.mem_append_left _ hg')).1, fun g hg' heq => ?_,
    fun hname g hgl hgname => ?_⟩
  · exact hnodup.2.2 _ (List.mem_map_of_mem hg') _ List.mem_cons_self heq
  · have hmem : g ∈ done ++ f :: rest := by
      refine (hg.mem_iff g).mpr ⟨hgl, ?_, ?_⟩
      · rw [hgname]
        exact ⟨hf.2.1.1, rfl⟩
      · rw [hgname, FilePath.dir_appJson, hf.2.2]
    have hnative : f.filename.filename = .nativetokensJson := by
      have hmeta := hf.2.1.2
      rcases hn : f.filename.filename with _ | _ | name
      · exact absurd hn hname
      · rfl
      · rw [hn] at hmeta
        simp [isMetadataFile] at hmeta
    rcases List.mem_append.mp hmem with hdone | hrest
    · exact hdone
    rcases List.mem_cons.mp hrest with rfl | hrest
    · exact absurd (congrArg FilePath.filename hgname) hname
    · -- Behind the file there is no `app.json`.
      have hle := (List.pairwise_cons.mp hsorted).1 g hrest
      rw [hgname, collation.appJson_first _ hnative] at hle
      simp at hle

/-- The effect of the passes over several files of an application. -/
structure AppEffect (env : RegistryEnv) (old new : FilePath → Option String)
    (fs : List FileInfo) (w w' : RegistrySession) : Prop where
  other : ∀ c : RegistryCell, c.IsMetadata → (∀ f ∈ fs, ¬ Touches env old new f c) →
    (w'.view .dbTrx).get c = (w.view .dbTrx).get c
  written : ∀ f ∈ fs, ∀ c r, f.status ≠ .removed → env.Lists new f.filename c r →
    (w'.view .dbTrx).get c = some r
  deleted : ∀ f ∈ fs, ∀ c r, f.status ∈ fileUpdatedStatuses → env.Lists old f.filename c r →
    (f.status ≠ .removed → ∀ r', ¬ env.Lists new f.filename c r') → (w'.view .dbTrx).get c = none

/-- **The pass over an application, alone.** -/
theorem run_syncApp (hdiff : IsDiff A.files.get B.files.get remote.files)
    (hdl : Delivers env B.files.get remote)
    (hg : IsGroup env collation remote d (done ++ rest))
    (hprog : Progress A.files.get B.files.get d done w) :
    ∃ w', (syncApp env remote rest).run w = (.ok (), w') ∧
      Progress A.files.get B.files.get d (done ++ rest) w' ∧
      AppEffect env A.files.get B.files.get rest w w' := by
  induction rest generalizing done w with
  | nil =>
    refine ⟨w, rfl, ?_, fun c _ _ => rfl, by simp, by simp⟩
    rwa [List.append_nil]
  | cons f rest ih =>
    obtain ⟨hf, hp, rfl⟩ := (hg.mem_iff f).mp (by simp)
    obtain ⟨w₁, hrun₁, hprog₁, heff₁⟩ := run_syncFile hdiff hdl hf hp hprog hg.before
    have happ : done ++ f :: rest = done ++ [f] ++ rest := by simp
    rw [happ] at hg ⊢
    obtain ⟨w₂, hrun₂, hprog₂, heff₂⟩ := ih hg hprog₁
    -- Another file of the application has rows of the other table.
    have hlater : ∀ c, Fits f.filename c → ∀ g ∈ rest,
        ¬ Touches env A.files.get B.files.get g c := by
      intro c hfits g hgr htouch
      have hdir := ((hg.mem_iff g).mp (by simp [hgr])).2.2
      have hname := htouch.fits.eq_of_dir hfits hdir
      have hnodup := hg.nodup
      rw [List.append_assoc, List.map_append, List.nodup_append] at hnodup
      have hnotin := (List.nodup_cons.mp hnodup.2.1).1
      exact hnotin (List.mem_map.mpr ⟨g, hgr, hname⟩)
    refine ⟨w₂, Async.run_bind_ok.mpr ⟨(), w₁, hrun₁, hrun₂⟩, hprog₂, fun c hc hnot => ?_,
      fun g hmem c r hne hr => ?_, fun g hmem c r hupd hr hnot => ?_⟩
    · rw [heff₂.other c hc fun g hgr => hnot g (List.mem_cons_of_mem f hgr)]
      exact heff₁.other c hc (hnot f List.mem_cons_self)
    · rcases List.mem_cons.mp hmem with rfl | hmem
      · rw [heff₂.other c hr.fits.isMetadata (hlater c hr.fits)]
        exact heff₁.written c r hne hr
      · exact heff₂.written g hmem c r hne hr
    · rcases List.mem_cons.mp hmem with rfl | hmem
      · rw [heff₂.other c hr.fits.isMetadata (hlater c hr.fits)]
        exact heff₁.deleted c r hupd hr hnot
      · exact heff₂.deleted g hmem c r hupd hr hnot

end Alone

/-! ### All applications, in any order -/

section Together

variable {env : RegistryEnv} {own : RegistryCell → Prop} {A B : Commit env own} {remote : Remote}
  {collation : Collation} {w w' : RegistrySession} {i : ℕ} {d : String × String}
  {fs : List FileInfo}

/-- The group at a place of the list. -/
def GroupAt (env : RegistryEnv) (collation : Collation) (remote : Remote) (i : ℕ)
    (d : String × String) (fs : List FileInfo) : Prop :=
  (groupFilesByNetworkAndApp env collation remote.files)[i]? = some (d, fs)

theorem GroupAt.isGroup (h : GroupAt env collation remote i d fs)
    (hdiff : IsDiff A.files.get B.files.get remote.files) : IsGroup env collation remote d fs :=
  isGroup_of_mem hdiff.nodup (List.mem_of_getElem? h)

/-- Different places hold different applications. -/
theorem GroupAt.index_eq {j : ℕ} {fs' : List FileInfo} (h : GroupAt env collation remote i d fs)
    (h' : GroupAt env collation remote j d fs') : i = j := by
  have hkeys : ((groupFilesByNetworkAndApp env collation remote.files).map Prod.fst).Nodup := by
    simp only [groupFilesByNetworkAndApp, List.map_map]
    have hid : (Prod.fst ∘ fun dir => (dir, ((remote.files.mergeSort fun f g =>
        collation.le f.filename g.filename).filter fun f => env.Known f.filename).filter
          fun f => f.filename.dir = dir)) = id := rfl
    rw [hid, List.map_id]
    exact List.nodup_dedup _
  refine (List.getElem?_inj ?_ hkeys).mp ?_
  · rw [List.length_map]
    exact (List.getElem?_eq_some_iff.mp h).1
  · rw [List.getElem?_map, List.getElem?_map, h, h']
    rfl

/-- Every listed metadata file is in a group. -/
theorem exists_groupAt (collation : Collation) {f : FileInfo} (hf : f ∈ remote.files)
    (hp : env.Known f.filename) :
    ∃ i fs, GroupAt env collation remote i f.filename.dir fs ∧ f ∈ fs := by
  let known := (remote.files.mergeSort fun f g => collation.le f.filename g.filename).filter
    fun f => env.Known f.filename
  have hknown : f ∈ known := by simp [known, hf, hp]
  have hmem : (f.filename.dir, known.filter fun g => g.filename.dir = f.filename.dir) ∈
      groupFilesByNetworkAndApp env collation remote.files := by
    refine List.mem_map.mpr ⟨f.filename.dir, ?_, rfl⟩
    exact List.mem_dedup.mpr (List.mem_map_of_mem hknown)
  obtain ⟨i, hi⟩ := List.mem_iff_getElem?.mp hmem
  exact ⟨i, _, hi, by simp [hknown]⟩

/-- What the thread at a place reads. -/
def ThreadReads (env : RegistryEnv) (collation : Collation) (remote : Remote) (i : ℕ) (conn : Conn)
    (c : RegistryCell) : Prop :=
  ∃ d fs, GroupAt env collation remote i d fs ∧ AppFiles d conn c

/-- What the thread at a place may change. -/
def ThreadWrites (env : RegistryEnv) (old new : FilePath → Option String) (collation : Collation)
    (remote : Remote) (i : ℕ) (conn : Conn) (c : RegistryCell) : Prop :=
  ∃ d fs, GroupAt env collation remote i d fs ∧ ∃ f ∈ fs, FileWrites env old new f conn c

/-- The cells of an application's files, and those of its lists. -/
def AppCells (d : String × String) : RegistryCell → Prop
  | .file q => q.dir = d
  | .temp q => q.dir = d
  | .task q => q.dir = d
  | _ => False

theorem AppFiles.appCells {conn : Conn} {c : RegistryCell} (h : AppFiles d conn c) :
    AppCells d c := by
  cases conn <;> cases c <;> first | exact h | exact h.elim

/-- What a thread writes for its files lies in its own directory. -/
theorem FileWrites.dir_eq {f : FileInfo} {conn : Conn} {c : RegistryCell}
    {old new : FilePath → Option String} (h : FileWrites env old new f conn c) (hc : AppCells d c) :
    f.filename.dir = d := by
  cases conn with
  | default =>
    rcases h with rfl | rfl
    · exact hc
    · exact hc
  | dbTrx =>
    have hfits : Fits f.filename c := Touches.fits h
    cases c <;> first | exact hfits.elim | exact hc.elim

private theorem syncApps_getElem? (i : ℕ) (p : Program Unit) :
    (syncApps env collation remote)[i]? = some p ↔
      ∃ d fs, GroupAt env collation remote i d fs ∧ p = syncApp env remote fs := by
  simp only [syncApps, List.getElem?_map, Option.map_eq_some_iff, Prod.exists, GroupAt,
    eq_comm (a := p)]

section Runs

variable (hdiff : IsDiff A.files.get B.files.get remote.files)
  (hdl : Delivers env B.files.get remote)

include hdiff hdl in
theorem footprintIn_syncApps (i : ℕ) (p : Program Unit)
    (hp : (syncApps env collation remote)[i]? = some p) :
    FootprintIn (InSync A.files.get B.files.get) (ThreadReads env collation remote i)
      (Respects (ThreadWrites env A.files.get B.files.get collation remote i)) p := by
  obtain ⟨d, fs, hat, rfl⟩ := (syncApps_getElem? i p).mp hp
  refine FootprintIn.serial fun q hq => ?_
  obtain ⟨f, hf, rfl⟩ := List.mem_map.mp hq
  obtain ⟨hlisted, hknown, rfl⟩ := ((hat.isGroup hdiff).mem_iff f).mp hf
  refine (footprintIn_syncFile hdiff hdl hlisted hknown).mono (fun conn c hc => ?_)
    fun conn st hst c hc => hst c fun hw => hc ⟨_, fs, hat, f, hf, hw⟩
  exact ⟨_, fs, hat, hc⟩

/-- Nothing is downloaded yet, and nothing is scheduled. -/
structure Fresh (old : FilePath → Option String) (w : RegistrySession) : Prop where
  clone : CloneIs old w
  temp : ∀ q, Dir.get .tempDownloads q (w.view .default) = none
  task : ∀ q, scheduled q (w.view .default) = none

theorem Fresh.inSync {old new : FilePath → Option String} (h : Fresh old w) : InSync old new w :=
  ⟨h.clone, fun q => .inl (h.temp q)⟩

theorem Fresh.progress {old new : FilePath → Option String} (h : Fresh old w) :
    Progress old new d [] w :=
  ⟨h.clone, by simp, fun q _ _ => h.temp q, by simp⟩

include hdiff hdl in
/-- No order fails. -/
theorem succeeds_syncApps (hw : Fresh A.files.get w) (sched : List ℕ) :
    (Async.interleave sched (syncApps env collation remote)).Succeeds w := by
  refine succeeds_interleave_of_alone
    (S := fun i c => ∃ d fs, GroupAt env collation remote i d fs ∧ AppCells d c) sched
    (footprintIn_syncApps hdiff hdl) (fun i conn c ⟨d, fs, hat, hc⟩ => ⟨d, fs, hat, hc.appCells⟩)
    (fun i j hij => leavesAlone_respects ?_) hw.inSync fun p hp => ?_
  · rintro conn c ⟨d, fs, hat, f, hf, hwrites⟩ ⟨d', fs', hat', hc⟩
    have hd := hwrites.dir_eq hc
    obtain ⟨-, -, rfl⟩ := ((hat.isGroup hdiff).mem_iff f).mp hf
    subst hd
    exact hij (hat.index_eq hat')
  · obtain ⟨i, hi⟩ := List.mem_iff_getElem?.mp hp
    obtain ⟨d, fs, hat, rfl⟩ := (syncApps_getElem? i p).mp hi
    have hstart : Progress A.files.get B.files.get d [] w := hw.progress
    obtain ⟨w', hrun, -, -⟩ := run_syncApp hdiff hdl (hat.isGroup hdiff) hstart
    exact ⟨(), w', hrun⟩

include hdiff hdl in
/-- A thread ends with its own files, and the rows nobody else touches, as if it were alone. -/
theorem run_syncApps_alone {X : RegistryCell → Prop} (hw : Fresh A.files.get w) {sched : List ℕ}
    (hrun : (Async.interleave sched (syncApps env collation remote)).run w = (.ok (), w'))
    (hat : GroupAt env collation remote i d fs)
    (hX : ∀ c, X c → ∀ f ∈ remote.files, env.Known f.filename → f.filename.dir ≠ d →
      ∀ conn, ¬ FileWrites env A.files.get B.files.get f conn c) :
    ∃ w₁, Progress A.files.get B.files.get d fs w₁ ∧
      AppEffect env A.files.get B.files.get fs w w₁ ∧
      SameOn (fun c => AppCells d c ∨ X c) w₁ w' := by
  have hi : (syncApps env collation remote)[i]? = some (syncApp env remote fs) :=
    (syncApps_getElem? i _).mpr ⟨d, fs, hat, rfl⟩
  have hreads : ∀ conn c, ThreadReads env collation remote i conn c → AppCells d c ∨ X c := by
    rintro conn c ⟨d', fs', hat', hc⟩
    obtain ⟨rfl, rfl⟩ := Prod.mk.inj (Option.some.inj (hat'.symm.trans hat))
    exact .inl hc.appCells
  -- What the other threads may change.
  let others : Conn → RegistryCell → Prop := fun conn c => ∃ j, j ≠ i ∧
    ThreadWrites env A.files.get B.files.get collation remote j conn c
  have halone : LeavesAlone (Respects others : Conn → Write RegistryCell RegistryRow → Prop)
      fun c => AppCells d c ∨ X c := by
    refine leavesAlone_respects ?_
    rintro conn c ⟨j, hne, d', fs', hat', f, hf, hwrites⟩ hc
    obtain ⟨hlisted, hknown, rfl⟩ := ((hat'.isGroup hdiff).mem_iff f).mp hf
    have hdir : f.filename.dir ≠ d := by
      rintro rfl
      exact hne (hat'.index_eq hat)
    rcases hc with hc | hc
    · exact hdir (hwrites.dir_eq hc)
    · exact hX c hc f hlisted hknown hdir conn hwrites
  have hothers : ∀ j q, (syncApps env collation remote)[j]? = some q → j ≠ i →
      ConfinedIn (InSync A.files.get B.files.get) (Respects others) q := by
    intro j q hj hne
    refine ((footprintIn_syncApps hdiff hdl j q hj).mono (fun _ _ h => h) ?_).confinedIn
    exact fun conn st hst c hc => hst c fun hw => hc ⟨j, hne, hw⟩
  obtain ⟨w₁, hrun₁, hsame⟩ := (footprintIn_syncApps hdiff hdl i _ hi).run_interleave_alone
    hreads halone hi hothers hw.inSync hw.inSync (SameOn.refl _ w) hrun
  have hstart : Progress A.files.get B.files.get d [] w := hw.progress
  obtain ⟨w₂, hrun₂, hprog, heff⟩ := run_syncApp hdiff hdl (hat.isGroup hdiff) hstart
  obtain rfl : w₁ = w₂ := (Prod.ext_iff.mp (hrun₁.symm.trans hrun₂)).2
  exact ⟨w₁, hprog, heff, hsame⟩

include hdiff hdl in
/-- What no listed file writes stays as it is. -/
theorem run_syncApps_sameOn {X : RegistryCell → Prop} (hw : Fresh A.files.get w) {sched : List ℕ}
    (hrun : (Async.interleave sched (syncApps env collation remote)).run w = (.ok (), w'))
    (hX : ∀ c, X c → ∀ f ∈ remote.files, env.Known f.filename →
      ∀ conn, ¬ FileWrites env A.files.get B.files.get f conn c) :
    SameOn X w w' := by
  have hkeeps : ∀ p ∈ syncApps env collation remote,
      p.Keeps fun v => InSync A.files.get B.files.get v ∧ SameOn X w v := by
    intro p hp
    obtain ⟨i, hi⟩ := List.mem_iff_getElem?.mp hp
    refine (footprintIn_syncApps hdiff hdl i p hi).confinedIn.keeps_sameOn
      (leavesAlone_respects ?_) w
    rintro conn c ⟨d, fs, hat, f, hf, hwrites⟩ hc
    obtain ⟨hlisted, hknown, -⟩ := ((hat.isGroup hdiff).mem_iff f).mp hf
    exact hX c hc f hlisted hknown conn hwrites
  have hinter : (Async.interleave sched (syncApps env collation remote)).Keeps
      fun v => InSync A.files.get B.files.get v ∧ SameOn X w v := Async.Keeps.interleave hkeeps
  have hend := hinter.run ⟨hw.inSync, SameOn.refl X w⟩
  rw [hrun] at hend
  exact hend.2

include hdiff hdl in
/-- Any application may come last. -/
theorem exists_run_syncApps_last (hw : Fresh A.files.get w)
    (hat : GroupAt env collation remote i d fs) :
    ∃ sched w₁ w₂, (Async.interleave sched (syncApps env collation remote)).run w = (.ok (), w₂) ∧
      AppEffect env A.files.get B.files.get fs w₁ w₂ := by
  have hi : (syncApps env collation remote)[i]? = some (syncApp env remote fs) :=
    (syncApps_getElem? i _).mpr ⟨d, fs, hat, rfl⟩
  have hkeeps : ∀ j q, (syncApps env collation remote)[j]? = some q → j ≠ i →
      q.Keeps fun v => InSync A.files.get B.files.get v ∧ SameOn (AppCells d) w v := by
    intro j q hj hne
    refine (footprintIn_syncApps hdiff hdl j q hj).confinedIn.keeps_sameOn
      (leavesAlone_respects ?_) w
    rintro conn c ⟨d', fs', hat', f, hf, hwrites⟩ hc
    obtain ⟨-, -, rfl⟩ := ((hat'.isGroup hdiff).mem_iff f).mp hf
    obtain rfl := hwrites.dir_eq hc
    exact hne (hat'.index_eq hat)
  obtain ⟨sched, w₁, ⟨hsync, hsame⟩, hrun⟩ := Async.exists_run_last_of_succeeds hi hkeeps
    ⟨hw.inSync, SameOn.refl _ w⟩ (succeeds_syncApps hdiff hdl hw)
  -- Its own files are as they were at the start.
  have hprog : Progress A.files.get B.files.get d [] w₁ := by
    refine ⟨hsync.1, by simp, fun q hq _ => ?_, by simp⟩
    exact ((hsame (.temp q) hq).view .default).trans (hw.temp q)
  obtain ⟨w₂, hrun₂, -, heff⟩ := run_syncApp hdiff hdl (hat.isGroup hdiff) hprog
  exact ⟨sched, w₁, w₂, hrun.trans hrun₂, heff⟩

end Runs

end Together

end AppRegistry

end SwaptoshiService
