import Mathlib.Data.List.Basic
import Mathlib.Data.List.Flatten
import SwaptoshiService.Export.Chronology
import SwaptoshiService.Lib.Buffer
import SwaptoshiService.Lib.Run

/-!
# Export jobs and the histories of days

`exportTransactions` goes through the days of an interval. The entries of a day that is over are
kept: in a partial file, or, if there are none, as a flag. Jobs run side by side and share the
files; files are purged, flags expire, and an attempt may end at any time.

`export_history`: the rows of a workbook are the histories of its days, and every day that ended
before the attempt began has all of its entries. There are two conditions. No day ends between the
first request for it and the look at the clock (`StoredInTime`): `getToday` is called **after** the
requests, so what is known of a day shortly before midnight is taken for all of it shortly after.
And the answers about a day that is over stay the same (`DaysSettled`); nothing in the export makes
sure of that, the check before it allows for blocks that are not indexed yet.
-/

namespace SwaptoshiService

namespace Export

/-! ### Names of files -/

/-- An address; there is no underscore in it. -/
structure Account where
  text : String
  plain : '_' ∉ text.toList

/-- `format(DATE_FORMAT)`, for days that are numbered. -/
structure Calendar where
  format : ℕ → String
  injective : Function.Injective format
  plain : ∀ day, '_' ∉ (format day).toList

section Names

variable (cal : Calendar)

/-- `getPartialFilenameFromParams(params, day)` -/
def partialFilename (a : Account) (day : ℕ) : String :=
  a.text ++ "_" ++ cal.format day ++ ".json"

/-- `getExcelFilenameFromParams(params, chainID)`, for an interval. -/
def excelFilename (chainID : String) (a : Account) (first last : ℕ) : String :=
  "transactions_" ++ chainID ++ "_" ++ a.text ++ "_" ++ cal.format first ++ "_" ++
    cal.format last ++ ".xlsx"

variable {cal} {chainID : String} {a a' : Account} {day day' first first' last last' : ℕ}

theorem Account.ext {a a' : Account} (h : a.text = a'.text) : a = a' := by
  obtain ⟨text, _⟩ := a
  obtain ⟨text', _⟩ := a'
  obtain rfl : text = text' := h
  rfl

theorem toList_underscore_append (s t : String) :
    (s ++ "_" ++ t).toList = s.toList ++ '_' :: t.toList := by
  rw [String.toList_append, String.toList_append, List.append_assoc]
  rfl

/-- Texts are cut at the first underscore. -/
theorem underscore_inj {s s' t t' : String} (hs : '_' ∉ s.toList) (hs' : '_' ∉ s'.toList)
    (h : s ++ "_" ++ t = s' ++ "_" ++ t') : s = s' ∧ t = t' := by
  have hlist := congrArg String.toList h
  rw [toList_underscore_append, toList_underscore_append] at hlist
  obtain ⟨hfirst, hrest⟩ := append_separator_inj hs hs' hlist
  exact ⟨String.toList_injective hfirst, String.toList_injective hrest⟩

/-- No two accounts or days share a partial file. -/
theorem partialFilename_inj (h : partialFilename cal a day = partialFilename cal a' day') :
    a = a' ∧ day = day' := by
  have hcut (a : Account) (day : ℕ) :
      partialFilename cal a day = a.text ++ "_" ++ (cal.format day ++ ".json") :=
    String.append_assoc ..
  rw [hcut, hcut] at h
  obtain ⟨ha, hrest⟩ := underscore_inj a.plain a'.plain h
  exact ⟨Account.ext ha, cal.injective ((String.append_left_inj _).mp hrest)⟩

/-- Three texts between the same ones. -/
theorem underscores_inj {x e s s' t t' u u' : String} (hs : '_' ∉ s.toList) (hs' : '_' ∉ s'.toList)
    (ht : '_' ∉ t.toList) (ht' : '_' ∉ t'.toList)
    (h : x ++ s ++ "_" ++ t ++ "_" ++ u ++ e = x ++ s' ++ "_" ++ t' ++ "_" ++ u' ++ e) :
    s = s' ∧ t = t' ∧ u = u' := by
  have hcut (s t u : String) :
      x ++ s ++ "_" ++ t ++ "_" ++ u ++ e = x ++ (s ++ "_" ++ (t ++ "_" ++ u)) ++ e := by
    simp only [String.append_assoc]
  rw [hcut, hcut, String.append_left_inj, String.append_right_inj] at h
  obtain ⟨rfl, hrest⟩ := underscore_inj hs hs' h
  exact ⟨rfl, underscore_inj ht ht' hrest⟩

/-- No two accounts or intervals share a workbook. -/
theorem excelFilename_inj
    (h : excelFilename cal chainID a first last = excelFilename cal chainID a' first' last') :
    a = a' ∧ first = first' ∧ last = last' := by
  obtain ⟨ha, hfirst, hlast⟩ :=
    underscores_inj a.plain a'.plain (cal.plain first) (cal.plain first') h
  exact ⟨Account.ext ha, cal.injective hfirst, cal.injective hlast⟩

end Names

/-! ### Jobs and files -/

/-- What the indexer answers about an address and a day. -/
structure DayView where
  env : Env
  blocks : List Block
  transactions : List Transaction
  events : List Event

/-- The entries of a day; the public keys are those that are cached. -/
def DayView.entries (v : DayView) (keys : ℕ → String → Option String) (a : Account) :
    Except String (List Entry) :=
  getEntriesByChronology { v.env with publicKeyCache := keys } a.text v.blocks v.transactions
    v.events

/-- A file with the entries of a day. -/
structure PartialFile where
  entries : List Entry
  /-- `partials.write` is not awaited: there is a file before it has been written. -/
  written : Bool

/-- The rows of a workbook. -/
structure Workbook where
  rows : List Entry
  /-- The account has transactions or is a validator. -/
  active : Bool
  /-- The day on which the attempt began. -/
  since : ℕ

/-- Where an attempt is with its day. -/
inductive Phase
  | noHistory
  | fileExists
  | read
  | blocks
  | transactions (blocks : List Block)
  | events (blocks : List Block) (transactions : List Transaction)
  | chronology (blocks : List Block) (transactions : List Transaction) (events : List Event)
  | store (entries : List Entry)

/-- An attempt of a job. -/
structure Attempt where
  account : Account
  first : ℕ
  last : ℕ
  active : Bool
  since : ℕ
  day : ℕ
  /-- When the blocks of the day were asked for. -/
  askedOn : ℕ
  phase : Phase
  /-- `allEntriesForInterval` -/
  rows : List Entry

/-- The chain and the clock. -/
structure ChainDays where
  /-- `getToday()` -/
  today : ℕ
  view : Account → ℕ → DayView

structure ExportWorld extends ChainDays where
  /-- `noHistoryCache` -/
  noHistory : String → Bool
  /-- The directory of partial files. -/
  partials : String → Option PartialFile
  /-- The directory of workbooks. -/
  exports : String → Option Workbook
  attempts : ℕ → Option Attempt

/-- `for (const day of arrayOfDates)`: the day is done. -/
def Attempt.nextDay (j : Attempt) (entries : List Entry) : Attempt :=
  { j with day := j.day + 1, phase := .noHistory, rows := j.rows ++ entries }

/-- A new attempt; without history no day is looked at. -/
def Attempt.start (a : Account) (first last today : ℕ) (active : Bool) : Attempt where
  account := a
  first := first
  last := last
  active := active
  since := today
  day := if active then first else last + 1
  askedOn := today
  phase := .noHistory
  rows := []

section Code

variable (cal : Calendar) (chainID : String) (w : ExportWorld)

/-- The entries of a day that is over are kept, those of today are not. -/
def ExportWorld.store (a : Account) (day : ℕ) (entries : List Entry) : ExportWorld :=
  if day = w.today then w
  else if entries = [] then
    { w with noHistory := Function.update w.noHistory (partialFilename cal a day) true }
  else
    { w with
      partials := Function.update w.partials (partialFilename cal a day) (some ⟨entries, false⟩) }

/-- The workbook at the end of the loop. -/
def ExportWorld.export (j : Attempt) : ExportWorld :=
  { w with
    exports := Function.update w.exports (excelFilename cal chainID j.account j.first j.last)
      (some ⟨j.rows, j.active, j.since⟩) }

/-- One step of `exportTransactions`: what there is afterwards, and the attempt unless it has
come to its end. -/
def advance (keys : ℕ → String → Option String) (j : Attempt) :
    Except String (ExportWorld × Option Attempt) :=
  let partialName := partialFilename cal j.account j.day
  if j.last < j.day then pure (w.export cal chainID j, none)
  else match j.phase with
  | .noHistory =>
    pure (w, some
      (if w.noHistory partialName then j.nextDay [] else { j with phase := .fileExists }))
  | .fileExists =>
    pure (w, some { j with phase := if (w.partials partialName).isSome then .read else .blocks })
  | .read =>
    match w.partials partialName with
    | some ⟨entries, true⟩ => pure (w, some (j.nextDay entries))
    | some ⟨_, false⟩ => throw "Unexpected end of JSON input"
    | none => throw "ENOENT: no such file or directory"
  | .blocks =>
    let blocks := (w.view j.account j.day).blocks
    pure (w, some { j with askedOn := w.today, phase := .transactions blocks })
  | .transactions blocks =>
    pure (w, some { j with phase := .events blocks (w.view j.account j.day).transactions })
  | .events blocks transactions =>
    let events := (w.view j.account j.day).events
    pure (w, some { j with phase := .chronology blocks transactions events })
  | .chronology blocks transactions events => do
    let env := (w.view j.account j.day).env
    let entries ← DayView.entries ⟨env, blocks, transactions, events⟩ keys j.account
    pure (w, some { j with phase := .store entries })
  | .store entries => pure (w.store cal j.account j.day entries, some (j.nextDay entries))

end Code

/-! ### Runs -/

inductive ExportAction
  | chain (view : Account → ℕ → DayView)
  | midnight
  | start
  | advance (id : ℕ)
  | dropAttempt
  | written
  | expire
  | purge

/-- What can happen. The answers of the indexer may change, and an attempt may end at any time: it
throws, times out, or the service stops. -/
inductive ExportStep (cal : Calendar) (chainID : String) :
    ExportWorld → ExportAction → ExportWorld → Prop
  | chain {w : ExportWorld} (view : Account → ℕ → DayView) :
      ExportStep cal chainID w (.chain view) { w with view := view }
  | midnight {w : ExportWorld} : ExportStep cal chainID w .midnight { w with today := w.today + 1 }
  | start {w : ExportWorld} (id : ℕ) (a : Account) {first last : ℕ} (h : first ≤ last)
      (active : Bool) : ExportStep cal chainID w .start
        { w with
          attempts := Function.update w.attempts id (some (.start a first last w.today active)) }
  | advance {w w' : ExportWorld} {id : ℕ} {j : Attempt} {j' : Option Attempt}
      (keys : ℕ → String → Option String) (hj : w.attempts id = some j)
      (h : advance cal chainID w keys j = .ok (w', j')) :
      ExportStep cal chainID w (.advance id)
        { w' with attempts := Function.update w'.attempts id j' }
  | dropAttempt {w : ExportWorld} (id : ℕ) : ExportStep cal chainID w .dropAttempt
      { w with attempts := Function.update w.attempts id none }
  | written {w : ExportWorld} {name : String} {file : PartialFile}
      (h : w.partials name = some file) : ExportStep cal chainID w .written
        { w with partials := Function.update w.partials name (some { file with written := true }) }
  | expire {w : ExportWorld} (name : String) : ExportStep cal chainID w .expire
      { w with noHistory := Function.update w.noHistory name false }
  | purge {w : ExportWorld} (name : String) : ExportStep cal chainID w .purge
      { w with
        partials := Function.update w.partials name none
        exports := Function.update w.exports name none }

/-- When the entries of a day are stored, the day was over before anything was asked about it, or
it is not over yet. -/
def StoredInTime (w : ExportWorld) : ExportAction → Prop
  | .advance id => ∀ j entries, w.attempts id = some j → j.phase = .store entries →
      j.day < j.askedOn ∨ j.day = w.today
  | _ => True

/-- The answers about a day that is over stay the same. -/
def DaysSettled (w : ExportWorld) : ExportAction → Prop
  | .chain view => ∀ a day, day < w.today → view a day = w.view a day
  | _ => True

/-- Days are settled when they are over, and stored in time. -/
structure InTime (w : ExportWorld) (act : ExportAction) : Prop where
  settled : DaysSettled w act
  stored : StoredInTime w act

/-! ### Days that are over -/

section Days

variable {c c' : ChainDays} {a : Account} {day first since : ℕ} {entries rows : List Entry}

/-- The entries that the chain has for a day, with some public keys. -/
def ChainDays.Recorded (c : ChainDays) (a : Account) (day : ℕ) (entries : List Entry) : Prop :=
  ∃ keys, (c.view a day).entries keys a = .ok entries

/-- Entries of a day that is over. -/
def ChainDays.Kept (c : ChainDays) (a : Account) (day : ℕ) (entries : List Entry) : Prop :=
  day < c.today ∧ c.Recorded a day entries

/-- The rows are those of the days from `first` on, and complete for the days before `since`. -/
def ChainDays.History (c : ChainDays) (a : Account) (first day since : ℕ) (rows : List Entry) :
    Prop :=
  ∃ entriesOf : ℕ → List Entry, rows = (List.range' first (day - first)).flatMap entriesOf ∧
    ∀ d, first ≤ d → d < day → d < since → c.Recorded a d (entriesOf d)

/-- What has been asked about a day is what the chain has for it. -/
def DayView.Asked (v : DayView) (a : Account) : Phase → Prop
  | .noHistory | .fileExists | .read | .blocks => True
  | .transactions blocks => blocks = v.blocks
  | .events blocks transactions => blocks = v.blocks ∧ transactions = v.transactions
  | .chronology blocks transactions events =>
    blocks = v.blocks ∧ transactions = v.transactions ∧ events = v.events
  | .store entries => ∃ keys, v.entries keys a = .ok entries

/-- The attempt has the histories of its days, and what it has asked about a day that was over is
right. -/
structure ChainDays.Follows (c : ChainDays) (j : Attempt) : Prop where
  since_le : j.since ≤ j.askedOn
  askedOn_le : j.askedOn ≤ c.today
  first_le : j.active = true → j.first ≤ j.day
  day_le : j.day ≤ j.last + 1
  history : j.active = true → c.History j.account j.first j.day j.since j.rows
  asked : j.day < j.askedOn → (c.view j.account j.day).Asked j.account j.phase

/-- The chain has gone on. -/
structure ChainDays.Later (c c' : ChainDays) : Prop where
  today_le : c.today ≤ c'.today
  view_eq : ∀ a day, day < c.today → c'.view a day = c.view a day

theorem ChainDays.Later.refl (c : ChainDays) : c.Later c := ⟨le_rfl, fun _ _ _ => rfl⟩

theorem ChainDays.Later.recorded (h : c.Later c') (hday : day < c.today)
    (hr : c.Recorded a day entries) : c'.Recorded a day entries := by
  rwa [ChainDays.Recorded, h.view_eq a day hday]

theorem ChainDays.Later.kept (h : c.Later c') (hk : c.Kept a day entries) :
    c'.Kept a day entries :=
  ⟨hk.1.trans_le h.today_le, h.recorded hk.1 hk.2⟩

theorem ChainDays.Later.history (h : c.Later c') (hsince : since ≤ c.today)
    (hh : c.History a first day since rows) : c'.History a first day since rows := by
  obtain ⟨entriesOf, hrows, hrec⟩ := hh
  exact ⟨entriesOf, hrows, fun d hfirst hday hd =>
    h.recorded (hd.trans_le hsince) (hrec d hfirst hday hd)⟩

theorem ChainDays.Later.follows (h : c.Later c') {j : Attempt} (hj : c.Follows j) :
    c'.Follows j where
  since_le := hj.since_le
  askedOn_le := hj.askedOn_le.trans h.today_le
  first_le := hj.first_le
  day_le := hj.day_le
  history := fun hactive =>
    h.history (hj.since_le.trans hj.askedOn_le) (hj.history hactive)
  asked := fun hday => by
    rw [h.view_eq _ _ (hday.trans_le hj.askedOn_le)]
    exact hj.asked hday

/-- One more day. -/
theorem ChainDays.History.next (h : c.History a first day since rows) (hfirst : first ≤ day)
    (hday : day < since → c.Recorded a day entries) :
    c.History a first (day + 1) since (rows ++ entries) := by
  obtain ⟨entriesOf, rfl, hrec⟩ := h
  refine ⟨Function.update entriesOf day entries, ?_, fun d hd hlt hsince => ?_⟩
  · rw [Nat.succ_sub hfirst, List.range'_concat, List.flatMap_append, List.flatMap_singleton,
      Nat.one_mul, Nat.add_sub_cancel' hfirst, Function.update_self]
    congr 1
    refine List.flatMap_congr fun d hd => (Function.update_of_ne ?_ _ _).symm
    have := List.mem_range'_1.mp hd
    omega
  · rcases Nat.lt_succ_iff_lt_or_eq.mp hlt with hlt | rfl
    · rw [Function.update_of_ne hlt.ne]
      exact hrec d hd hlt hsince
    · rw [Function.update_self]
      exact hday hsince

end Days

/-! ### What is kept -/

/-- Files and flags are right, attempts and workbooks have the histories of their days. -/
structure ExportWorld.Sound (cal : Calendar) (chainID : String) (w : ExportWorld) : Prop where
  partials : ∀ a day file, w.partials (partialFilename cal a day) = some file →
    w.Kept a day file.entries
  noHistory : ∀ a day, w.noHistory (partialFilename cal a day) = true → w.Kept a day []
  exports : ∀ a first last workbook,
    w.exports (excelFilename cal chainID a first last) = some workbook →
      workbook.since ≤ w.today ∧ (workbook.active = true →
        w.History a first (last + 1) workbook.since workbook.rows)
  attempts : ∀ id j, w.attempts id = some j → w.Follows j

section Sound

variable {cal : Calendar} {chainID : String} {w w' : ExportWorld} {j : Attempt}

/-- Time passes. -/
theorem ExportWorld.Sound.later (h : w.Sound cal chainID) {c : ChainDays}
    (hl : w.toChainDays.Later c) : ExportWorld.Sound cal chainID { w with toChainDays := c } where
  partials a day file hfile := hl.kept (h.partials a day file hfile)
  noHistory a day hflag := hl.kept (h.noHistory a day hflag)
  exports a first last workbook hworkbook := by
    obtain ⟨hsince, hrows⟩ := h.exports a first last workbook hworkbook
    exact ⟨hsince.trans hl.today_le, fun hactive => hl.history hsince (hrows hactive)⟩
  attempts id j hj := hl.follows (h.attempts id j hj)

/-- An attempt goes on, begins or ends. -/
theorem ExportWorld.Sound.setAttempt (h : w.Sound cal chainID) (id : ℕ) {j? : Option Attempt}
    (hj : ∀ j, j? = some j → w.Follows j) :
    ExportWorld.Sound cal chainID { w with attempts := Function.update w.attempts id j? } where
  partials := h.partials
  noHistory := h.noHistory
  exports := h.exports
  attempts id' j hid' := by
    by_cases hid : id' = id
    · subst hid
      exact hj j (by simpa using hid')
    · exact h.attempts id' j (by simpa [Function.update_of_ne hid] using hid')

theorem ExportWorld.Sound.setPartial (h : w.Sound cal chainID) (name : String)
    {file? : Option PartialFile} (hfile : ∀ a day file, partialFilename cal a day = name →
      file? = some file → w.Kept a day file.entries) :
    ExportWorld.Sound cal chainID
      { w with partials := Function.update w.partials name file? } where
  partials a day file hget := by
    by_cases hname : partialFilename cal a day = name
    · rw [hname] at hget
      exact hfile a day file hname (by simpa using hget)
    · exact h.partials a day file (by simpa [Function.update_of_ne hname] using hget)
  noHistory := h.noHistory
  exports := h.exports
  attempts := h.attempts

theorem ExportWorld.Sound.setNoHistory (h : w.Sound cal chainID) (name : String) {flag : Bool}
    (hflag : ∀ a day, partialFilename cal a day = name → flag = true → w.Kept a day []) :
    ExportWorld.Sound cal chainID
      { w with noHistory := Function.update w.noHistory name flag } where
  partials := h.partials
  noHistory a day hget := by
    by_cases hname : partialFilename cal a day = name
    · rw [hname] at hget
      exact hflag a day hname (by simpa using hget)
    · exact h.noHistory a day (by simpa [Function.update_of_ne hname] using hget)
  exports := h.exports
  attempts := h.attempts

theorem ExportWorld.Sound.setExport (h : w.Sound cal chainID) (name : String)
    {workbook? : Option Workbook} (hworkbook : ∀ a first last workbook,
      excelFilename cal chainID a first last = name → workbook? = some workbook →
        workbook.since ≤ w.today ∧ (workbook.active = true →
          w.History a first (last + 1) workbook.since workbook.rows)) :
    ExportWorld.Sound cal chainID
      { w with exports := Function.update w.exports name workbook? } where
  partials := h.partials
  noHistory := h.noHistory
  exports a first last workbook hget := by
    by_cases hname : excelFilename cal chainID a first last = name
    · rw [hname] at hget
      exact hworkbook a first last workbook hname (by simpa using hget)
    · exact h.exports a first last workbook (by simpa [Function.update_of_ne hname] using hget)
  attempts := h.attempts

/-! ### One step of an attempt -/

/-- Only the phase changes. -/
theorem ChainDays.Follows.setPhase {c : ChainDays} (hj : c.Follows j) {phase : Phase}
    (hasked : j.day < j.askedOn → (c.view j.account j.day).Asked j.account phase) :
    c.Follows { j with phase := phase } where
  since_le := hj.since_le
  askedOn_le := hj.askedOn_le
  first_le := hj.first_le
  day_le := hj.day_le
  history := hj.history
  asked := hasked

/-- The day is done. -/
theorem ChainDays.Follows.nextDay {c : ChainDays} (hj : c.Follows j) (hlast : ¬ j.last < j.day)
    {entries : List Entry} (hentries : j.day < j.since → c.Recorded j.account j.day entries) :
    c.Follows (j.nextDay entries) where
  since_le := hj.since_le
  askedOn_le := hj.askedOn_le
  first_le hactive := (hj.first_le hactive).trans (Nat.le_succ _)
  day_le := Nat.succ_le_succ (not_lt.mp hlast)
  history hactive := (hj.history hactive).next (hj.first_le hactive) hentries
  asked _ := trivial

/-- Entries are kept if their day was over when it was asked about. -/
theorem ExportWorld.Sound.store (h : w.Sound cal chainID) {a : Account} {day : ℕ}
    {entries : List Entry} (hkept : day = w.today ∨ w.Kept a day entries) :
    (w.store cal a day entries).Sound cal chainID := by
  rw [ExportWorld.store]
  split_ifs with htoday hempty
  · exact h
  · refine h.setNoHistory _ fun a' day' hname _ => ?_
    obtain ⟨rfl, rfl⟩ := partialFilename_inj hname
    exact hempty ▸ hkept.resolve_left htoday
  · refine h.setPartial _ fun a' day' file hname hfile => ?_
    obtain ⟨rfl, rfl⟩ := partialFilename_inj hname
    obtain rfl := Option.some.inj hfile
    exact hkept.resolve_left htoday

/-- **One step of an attempt.** -/
theorem ExportWorld.Sound.advance (h : w.Sound cal chainID) (hj : w.Follows j)
    {keys : ℕ → String → Option String} {j? : Option Attempt}
    (hstored : ∀ entries, j.phase = .store entries → j.day < j.askedOn ∨ j.day = w.today)
    (hstep : advance cal chainID w keys j = .ok (w', j?)) :
    w'.Sound cal chainID ∧ w'.toChainDays = w.toChainDays ∧ ∀ j', j? = some j' → w.Follows j' := by
  rw [Export.advance] at hstep
  split at hstep
  · -- The workbook.
    rename_i hlast
    obtain ⟨rfl, rfl⟩ := Prod.mk.inj (Except.ok.inj hstep)
    refine ⟨h.setExport _ fun a first last workbook hname hworkbook => ?_, rfl, fun _ hnone => ?_⟩
    · obtain ⟨rfl, rfl, rfl⟩ := excelFilename_inj hname
      obtain rfl := Option.some.inj hworkbook
      have hday : j.day = j.last + 1 := le_antisymm hj.day_le hlast
      exact ⟨hj.since_le.trans hj.askedOn_le, fun hactive => hday ▸ hj.history hactive⟩
    · exact absurd hnone (Option.some_ne_none _).symm
  · rename_i hlast
    split at hstep
    · -- The flag.
      obtain ⟨rfl, rfl⟩ := Prod.mk.inj (Except.ok.inj hstep)
      refine ⟨h, rfl, fun j' hj' => ?_⟩
      obtain rfl := Option.some.inj hj'
      split_ifs with hflag
      · exact hj.nextDay hlast fun _ => (h.noHistory _ _ hflag).2
      · exact hj.setPhase fun _ => trivial
    · -- Is there a file?
      obtain ⟨rfl, rfl⟩ := Prod.mk.inj (Except.ok.inj hstep)
      refine ⟨h, rfl, fun j' hj' => ?_⟩
      obtain rfl := Option.some.inj hj'
      refine hj.setPhase fun _ => ?_
      split_ifs <;> trivial
    · -- The file.
      split at hstep
      · rename_i entries hfile
        obtain ⟨rfl, rfl⟩ := Prod.mk.inj (Except.ok.inj hstep)
        refine ⟨h, rfl, fun j' hj' => ?_⟩
        obtain rfl := Option.some.inj hj'
        exact hj.nextDay hlast fun _ => (h.partials _ _ _ hfile).2
      · cases hstep
      · cases hstep
    · -- The blocks.
      obtain ⟨rfl, rfl⟩ := Prod.mk.inj (Except.ok.inj hstep)
      refine ⟨h, rfl, fun j' hj' => ?_⟩
      obtain rfl := Option.some.inj hj'
      exact ⟨hj.since_le.trans hj.askedOn_le, le_rfl, hj.first_le, hj.day_le, hj.history,
        fun _ => rfl⟩
    · -- The transactions.
      rename_i blocks hphase
      obtain ⟨rfl, rfl⟩ := Prod.mk.inj (Except.ok.inj hstep)
      refine ⟨h, rfl, fun j' hj' => ?_⟩
      obtain rfl := Option.some.inj hj'
      refine hj.setPhase fun hday => ⟨?_, rfl⟩
      have hasked := hj.asked hday
      rwa [hphase] at hasked
    · -- The events.
      rename_i blocks transactions hphase
      obtain ⟨rfl, rfl⟩ := Prod.mk.inj (Except.ok.inj hstep)
      refine ⟨h, rfl, fun j' hj' => ?_⟩
      obtain rfl := Option.some.inj hj'
      refine hj.setPhase fun hday => ?_
      have hasked := hj.asked hday
      rw [hphase] at hasked
      exact ⟨hasked.1, hasked.2, rfl⟩
    · -- The entries.
      rename_i blocks transactions events hphase
      obtain ⟨entries, hentries, hstep⟩ := bind_eq_ok_iff.mp hstep
      obtain ⟨rfl, rfl⟩ := Prod.mk.inj (Except.ok.inj hstep)
      refine ⟨h, rfl, fun j' hj' => ?_⟩
      obtain rfl := Option.some.inj hj'
      refine hj.setPhase fun hday => ⟨keys, ?_⟩
      have hasked := hj.asked hday
      rw [hphase] at hasked
      obtain ⟨rfl, rfl, rfl⟩ := hasked
      exact hentries
    · -- The day is stored.
      rename_i entries hphase
      obtain ⟨rfl, rfl⟩ := Prod.mk.inj (Except.ok.inj hstep)
      have hrecorded (hday : j.day < j.askedOn) : w.Recorded j.account j.day entries := by
        have hasked := hj.asked hday
        rwa [hphase] at hasked
      refine ⟨h.store ?_, ?_, fun j' hj' => ?_⟩
      · rcases hstored entries hphase with hday | htoday
        · exact .inr ⟨hday.trans_le hj.askedOn_le, hrecorded hday⟩
        · exact .inl htoday
      · rw [ExportWorld.store]
        split_ifs <;> rfl
      · obtain rfl := Option.some.inj hj'
        exact hj.nextDay hlast fun hday => hrecorded (hday.trans_le hj.since_le)

/-- **One step.** -/
theorem ExportStep.sound {act : ExportAction} (hstep : ExportStep cal chainID w act w')
    (hok : InTime w act) (h : w.Sound cal chainID) : w'.Sound cal chainID := by
  cases hstep with
  | chain view => exact h.later (c := ⟨w.today, view⟩) ⟨le_rfl, hok.settled⟩
  | midnight => exact h.later (c := ⟨w.today + 1, w.view⟩) ⟨Nat.le_succ _, fun _ _ _ => rfl⟩
  | start id a hle active =>
    refine h.setAttempt id fun j hj => ?_
    obtain rfl := Option.some.inj hj
    refine ⟨le_rfl, le_rfl, fun hactive => ?_, ?_, fun hactive => ⟨fun _ => [], ?_, ?_⟩,
      fun _ => trivial⟩
    · obtain rfl : active = true := hactive
      exact le_rfl
    · rw [Attempt.start]
      split_ifs
      · exact Nat.le_succ_of_le hle
      · exact le_rfl
    · obtain rfl : active = true := hactive
      simp [Attempt.start]
    · obtain rfl : active = true := hactive
      exact fun d hfirst hday => absurd hday (not_lt.mpr hfirst)
  | advance keys hj hadvance =>
    -- The files stay sound, and what the attempt holds is right for the days so far.
    obtain ⟨hsound, hdays, hnext⟩ := h.advance (h.attempts _ _ hj)
      (fun entries hphase => hok.stored _ entries hj hphase) hadvance
    exact hsound.setAttempt _ fun j' hj' => hdays ▸ hnext j' hj'
  | dropAttempt id => exact h.setAttempt id fun j hj => absurd hj (Option.some_ne_none j).symm
  | @written name file hfile =>
    refine h.setPartial _ fun a day file' hname hget => ?_
    obtain rfl := Option.some.inj hget
    exact h.partials a day file (hname ▸ hfile)
  | expire name => exact h.setNoHistory name fun _ _ _ hflag => absurd hflag Bool.false_ne_true
  | purge name =>
    -- A file of that name is gone, be it a partial file or a workbook.
    have hnone (file : PartialFile) : none ≠ some file := (Option.some_ne_none file).symm
    have hfiles := h.setPartial name fun _ _ file _ hget => absurd hget (hnone file)
    exact hfiles.setExport name fun _ _ _ workbook _ hget =>
      absurd hget (Option.some_ne_none workbook).symm

end Sound

/-- Nothing has been exported. -/
structure ExportWorld.Fresh (w : ExportWorld) : Prop where
  noHistory : ∀ name, w.noHistory name = false
  partials : ∀ name, w.partials name = none
  exports : ∀ name, w.exports name = none
  attempts : ∀ id, w.attempts id = none

theorem ExportWorld.Fresh.sound {w : ExportWorld} (h : w.Fresh) (cal : Calendar)
    (chainID : String) : w.Sound cal chainID where
  partials _ _ _ hget := absurd ((h.partials _).symm.trans hget) (Option.some_ne_none _).symm
  noHistory _ _ hflag := absurd ((h.noHistory _).symm.trans hflag) Bool.false_ne_true
  exports _ _ _ _ hget :=
    absurd ((h.exports _).symm.trans hget) (Option.some_ne_none _).symm
  attempts id _ hj := absurd ((h.attempts id).symm.trans hj) (Option.some_ne_none _).symm

/-- Numbers as days. -/
def numberedDays : Calendar where
  format := toString
  injective := fun _ _ h => toString_nat_injective h
  plain := fun day hmem => by
    have htext : (toString day).toList = Nat.toDigits 10 day := Nat.toList_repr
    rw [htext] at hmem
    exact absurd (Nat.isDigit_of_mem_toDigits (by decide) (by decide) hmem) (by decide)

def rewardedAccount : Account := ⟨"kly", by decide⟩

/-- A day on which the account has a reward for a block. -/
def rewardedDay : DayView where
  env :=
    { currentChainID := "", feeTokenID := "", posTokenID := "", getTransactions := fun _ => [],
      getBlocks := fun _ => [], getEvents := fun _ => [], getAllEventsInAsc := fun _ => [],
      dateFromTimestamp := fun _ => "", timeFromTimestamp := fun _ => "",
      publicKeyCache := fun _ _ => none }
  blocks := [⟨⟨"block", 5, 0⟩, "key"⟩]
  transactions := []
  events :=
    [⟨.mint 100, "03", ["kly"], ⟨"block", 5, 0⟩⟩, ⟨.other "fee" "next", "03", [], ⟨"block", 5, 0⟩⟩]

/-- The day 2, with a reward on the day 0. -/
def rewardedWorld : ExportWorld where
  today := 2
  view _ day :=
    if day = 0 then rewardedDay else { rewardedDay with blocks := [], events := [] }
  noHistory _ := false
  partials _ := none
  exports _ := none
  attempts _ := none

/-- The attempt 0 goes on. -/
def ExportWorld.stepped (w : ExportWorld) : ExportWorld :=
  match w.attempts 0 with
  | none => w
  | some j =>
    match advance numberedDays "00" w (fun _ _ => none) j with
    | .ok (w', j?) => { w' with attempts := Function.update w'.attempts 0 j? }
    | .error _ => w

/-- The day that is stored was over when it was asked about. -/
def Attempt.inTime (j : Attempt) : Bool :=
  match j.phase with
  | .store _ => j.day < j.askedOn
  | _ => true

theorem run_stepped {start w : ExportWorld}
    (hrun : Run (ExportStep numberedDays "00") InTime start w)
    (hok : (w.attempts 0).all Attempt.inTime = true) :
    Run (ExportStep numberedDays "00") InTime start w.stepped := by
  rw [ExportWorld.stepped]
  split
  · exact hrun
  · rename_i j hj
    rw [hj] at hok
    have htime : StoredInTime w (.advance 0) := by
      intro j' entries hj' hphase
      obtain rfl := Option.some.inj (hj.symm.trans hj')
      rw [Option.all_some, Attempt.inTime, hphase] at hok
      exact .inl (of_decide_eq_true hok)
    split
    · rename_i hadvance
      exact hrun.tail (.advance _ hj hadvance) ⟨trivial, htime⟩
    · exact hrun

theorem run_stepped_iterate {start w : ExportWorld}
    (hrun : Run (ExportStep numberedDays "00") InTime start w) (n : ℕ)
    (hok : ∀ k < n, ((ExportWorld.stepped^[k] w).attempts 0).all Attempt.inTime = true) :
    Run (ExportStep numberedDays "00") InTime start (ExportWorld.stepped^[n] w) := by
  induction n with
  | zero => exact hrun
  | succ n ih =>
    rw [Function.iterate_succ_apply']
    exact run_stepped (ih fun k hk => hok k (Nat.lt_succ_of_lt hk)) (hok n (Nat.lt_succ_self n))

/-- A new attempt. -/
def ExportWorld.started (w : ExportWorld) (last : ℕ) : ExportWorld :=
  { w with
    attempts := Function.update w.attempts 0
      (some (.start rewardedAccount 0 last w.today true)) }

/-- The partial file of a day is on the disk. -/
def ExportWorld.flushed (w : ExportWorld) (name : String) (file : PartialFile) : ExportWorld :=
  { w with partials := Function.update w.partials name (some { file with written := true }) }

/-- The reward. -/
def rewardEntry : Entry :=
  { rewardedDay.env.entryAt ⟨"block", 5, 0⟩ none with
    amountTokenID := some ""
    recipientAddress := some "kly"
    recipientPublicKey := some "key"
    sendingChainID := some ""
    receivingChainID := some ""
    amount := some 100
    note := some "Block generation reward (commission + self-stake)" }

/-- After the first attempt, which was for the day 0 alone, its partial file is on the disk. -/
def firstExported : ExportWorld :=
  (ExportWorld.stepped^[8] (rewardedWorld.started 0)).flushed
    (partialFilename numberedDays rewardedAccount 0) ⟨[rewardEntry], false⟩

end Export

end SwaptoshiService
