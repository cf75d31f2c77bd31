import Mathlib.Data.List.AList
import SwaptoshiService.Framework.Number
import SwaptoshiService.Lib.Buffer

/-!
# Daily transaction statistics

`transaction-statistics/shared/buildTransactionStatistics.js` counts the transactions of a day by
module command and range of value, and stores a row for every such bucket. A day is computed again
while it lasts and whenever the service starts; `insertToDB` means to remove what it stored for the
day before, and then writes the new rows in one transaction.

It never removes anything: the rows of the day are asked for without `await`, so that
`const [{ id }] = …` takes apart a **promise**, which throws, and the exception is taken as the
answer that there are none (`removeEntry`). What is left is to write over the rows of the buckets
that occur again. `daily_statistics_iff` says when that is enough: no bucket that an earlier run
stored for a day is empty in a later one, as it is when a block is reverted.
-/

namespace SwaptoshiService

namespace DailyStatistics

/-! ### Transactions -/

/-- Names of commands have no hyphen. -/
def ModuleCommand := { s : String // '-' ∉ s.toList }

instance : DecidableEq ModuleCommand :=
  inferInstanceAs (DecidableEq { s : String // '-' ∉ s.toList })

/-- `DB_CONSTANT.ANY`. -/
def any : ModuleCommand := ⟨"any", by decide⟩

/-- `DB_CONSTANT.UNAVAILABLE`. -/
def unavailable : String := "na"

/-- A transaction, as far as it is counted. `value` is what `getTxValue` answers, and `getRange`
below is the text of the range of a value; a missing `tokenID` is empty. -/
structure Tx where
  moduleCommand : ModuleCommand
  value : ℕ
  tokenID : String

/-- The numbers of a bucket. -/
structure Stat where
  count : ℕ
  volume : ℕ
  tokenID : String
  deriving DecidableEq

/-- The buckets of a module command, by range. -/
abbrev Ranges := AList fun _ : String => Stat

/-- The buckets of a day. The order of the entries of an object is not observed. -/
abbrev Stats := AList fun _ : ModuleCommand => Ranges

/-- The value that `getTxStatsWithFallback` falls back to. -/
def defaultStat : Stat := ⟨0, 0, unavailable⟩

/-- `acc[moduleCommand]`, or no entries. -/
def Stats.ranges (acc : Stats) (moduleCommand : ModuleCommand) : Ranges :=
  (acc.lookup moduleCommand).getD ∅

/-- `getTxStatsWithFallback(acc, moduleCommand, range)`. -/
def getTxStatsWithFallback (acc : Stats) (moduleCommand : ModuleCommand) (range : String) : Stat :=
  ((acc.ranges moduleCommand).lookup range).getD defaultStat

section Compute

variable (getRange : ℕ → String)

/-- `getInitialValueToEnsureEachDayHasAtLeastOneEntry()`. -/
def initialStats : Stats := AList.singleton any (AList.singleton (getRange 0) defaultStat)

/-- One transaction more. -/
def addTransaction (acc : Stats) (tx : Tx) : Stats :=
  let stat := getTxStatsWithFallback acc tx.moduleCommand (getRange tx.value)
  acc.insert tx.moduleCommand ((acc.ranges tx.moduleCommand).insert (getRange tx.value)
    ⟨stat.count + 1, stat.volume + tx.value,
      if tx.tokenID = "" then unavailable else tx.tokenID⟩)

/-- `computeTransactionStats(transactions)`. -/
def computeTransactionStats (transactions : List Tx) : Stats :=
  transactions.foldl (addTransaction getRange) (initialStats getRange)

end Compute

/-! ### The table -/

/-- A row of the table `transaction_statistics`. -/
structure Row where
  date : ℕ
  moduleCommand : ModuleCommand
  amountRange : String
  count : ℕ
  volume : ℕ
  tokenID : String
  deriving DecidableEq

/-- The bucket that a row counts. -/
def Row.bucket (r : Row) : ModuleCommand × String := (r.moduleCommand, r.amountRange)

/-- The column `id`, the primary key. -/
def Row.id (r : Row) : String :=
  toString r.date ++ "-" ++ r.moduleCommand.val ++ "-" ++ r.amountRange

/-- The rows, no two of which have the same primary key. -/
structure Table where
  rows : List Row
  nodup : (rows.map Row.id).Nodup

namespace Table

/-- A table without rows. -/
def empty : Table := ⟨[], List.nodup_nil⟩

/-- Keep some of the rows. -/
def filter (t : Table) (p : Row → Bool) : Table where
  rows := t.rows.filter p
  nodup := t.nodup.sublist (List.filter_sublist.map Row.id)

/-- Write a row with all its columns. -/
def upsert (t : Table) (r : Row) : Table where
  rows := r :: t.rows.filter fun r' => r'.id ≠ r.id
  nodup := by
    refine List.nodup_cons.mpr ⟨?_, t.nodup.sublist (List.filter_sublist.map Row.id)⟩
    simp

/-- `deleteByPrimaryKey(ids)`. -/
def deleteByPrimaryKey (t : Table) (ids : List String) : Table := t.filter fun r => r.id ∉ ids

end Table

/-- `transformStatsObjectToList(statsObject)`, with the columns that `insertToDB` adds.
`Math.ceil` makes a number of the volume. -/
def statsRows (date : ℕ) (stats : Stats) : List Row :=
  stats.entries.flatMap fun entry => entry.2.entries.map fun bucket =>
    ⟨date, entry.1, bucket.1, bucket.2.count, toDouble bucket.2.volume, bucket.2.tokenID⟩

/-! ### A job -/

/-- What an asynchronous function returns; `await` has its value. -/
structure Promise (α : Type) where
  await : α

/-- `const [first] = promise`: a promise is not iterable. -/
def destructure {α : Type} (_ : Promise (List α)) : Except String α :=
  .error "object is not iterable"

/-- `find({ date, limit: 1 }, ['id'])`. -/
def Table.find (t : Table) (date : ℕ) : Promise (List String) :=
  ⟨((t.rows.filter fun r => r.date = date).take 1).map Row.id⟩

/-- What `insertToDB` does to remove the rows of a date. -/
def removeEntry (t : Table) (date : ℕ) : Except String Table := do
  let id ← destructure (t.find date)
  return t.deleteByPrimaryKey [id]

/-- `insertToDB(statsList, date)`; `failure` is an error of the database. The rows are written in a
transaction, what is removed is not. -/
def insertToDB (t : Table) (statsList : List Row) (date : ℕ) (failure : Option String) :
    Table × Except String String :=
  let t := match removeEntry t date with
    | .ok t' => t'
    | .error _ => t
  match failure with
  | some e => (t, .error e)
  | none =>
    let count := (statsList.map Row.count).sum
    (statsList.foldl Table.upsert t,
      .ok (toString statsList.length ++ " rows with total tx count " ++ toString count ++ " for " ++
        toString date ++ " inserted to db"))

/-- A job of the queue, with what the services answer while it runs. -/
structure Job where
  date : ℕ
  fetched : Except String (List Tx)
  failure : Option String

/-- `queueJob(job)`. -/
def queueJob (getRange : ℕ → String) (t : Table) (job : Job) : Table × Except String String :=
  if job.date = 0 then (t, .error "Missing date.")
  else match job.fetched with
    | .error e => (t, .error e)
    | .ok transactions =>
      insertToDB t (statsRows job.date (computeTransactionStats getRange transactions)) job.date
        job.failure

/-- The table after some jobs. -/
def runJobs (getRange : ℕ → String) (jobs : List Job) : Table :=
  jobs.foldl (fun t job => (queueJob getRange t job).1) Table.empty

/-- The job is complete and the services do not fail. -/
def Job.Succeeds (job : Job) : Prop :=
  job.date ≠ 0 ∧ job.fetched.isOk = true ∧ job.failure = none

/-- The transactions that a job counts. -/
def Job.transactions (job : Job) : List Tx := job.fetched.toOption.getD []

/-- The rows that a job computes for its date. -/
def Job.rows (getRange : ℕ → String) (job : Job) : List Row :=
  statsRows job.date (computeTransactionStats getRange job.transactions)

/-! ### Identifiers -/

theorem hyphen_notMem_toString (n : ℕ) : '-' ∉ (toString n).toList := by
  intro h
  have htext : (toString n).toList = Nat.toDigits 10 n := Nat.toList_repr
  rw [htext] at h
  exact absurd (Nat.isDigit_of_mem_toDigits (by decide) (by decide) h) (by decide)

/-- A row is identified by its date and its bucket. -/
theorem Row.id_inj {r r' : Row} : r.id = r'.id ↔ r.date = r'.date ∧ r.bucket = r'.bucket := by
  have hid : ∀ r : Row, r.id.toList = (toString r.date).toList ++ '-' ::
      (r.moduleCommand.val.toList ++ '-' :: r.amountRange.toList) := fun r => by
    simp [Row.id, String.toList_append]
  constructor
  · intro h
    have hlist : r.id.toList = r'.id.toList := by rw [h]
    rw [hid, hid] at hlist
    obtain ⟨hdate, hrest⟩ :=
      append_separator_inj (hyphen_notMem_toString _) (hyphen_notMem_toString _) hlist
    obtain ⟨hcommand, hrange⟩ :=
      append_separator_inj r.moduleCommand.property r'.moduleCommand.property hrest
    refine ⟨toString_nat_injective (String.toList_injective hdate), ?_⟩
    rw [Row.bucket, Row.bucket, String.toList_injective hrange]
    rw [show r.moduleCommand = r'.moduleCommand from
      Subtype.ext (String.toList_injective hcommand)]
  · rintro ⟨hdate, hbucket⟩
    obtain ⟨hcommand, hrange⟩ := Prod.mk.inj hbucket
    rw [Row.id, Row.id, hdate, hcommand, hrange]

/-! ### Buckets -/

section Buckets

variable {getRange : ℕ → String} {stats : Stats} {transactions : List Tx}
  {b : ModuleCommand × String} {r r' : Row} {date : ℕ}

/-- The bucket is among the statistics. -/
def Stats.Contains (stats : Stats) (b : ModuleCommand × String) : Prop :=
  b.2 ∈ stats.ranges b.1

/-- The bucket counts one of the transactions, or is the one that every day has. -/
def Occupied (getRange : ℕ → String) (transactions : List Tx) (b : ModuleCommand × String) : Prop :=
  b = (any, getRange 0) ∨ ∃ tx ∈ transactions, b = (tx.moduleCommand, getRange tx.value)

theorem ranges_insert (stats : Stats) (c c' : ModuleCommand) (ranges : Ranges) :
    Stats.ranges (stats.insert c ranges) c' = if c' = c then ranges else stats.ranges c' := by
  unfold Stats.ranges
  split
  · next heq => rw [heq, AList.lookup_insert, Option.getD_some]
  · next hne => rw [AList.lookup_insert_ne hne]

theorem contains_addTransaction (tx : Tx) : (addTransaction getRange stats tx).Contains b ↔
    b = (tx.moduleCommand, getRange tx.value) ∨ stats.Contains b := by
  rw [Stats.Contains, addTransaction, ranges_insert, Stats.Contains, Prod.ext_iff]
  split
  · next heq => rw [AList.mem_insert, heq, and_iff_right rfl]
  · next hne => exact ⟨.inr, Or.rec (fun h => absurd h.1 hne) id⟩

theorem contains_initialStats : (initialStats getRange).Contains b ↔ b = (any, getRange 0) := by
  have hinitial : initialStats getRange =
      AList.insert any (AList.singleton (getRange 0) defaultStat) ∅ := rfl
  have hrange : AList.singleton (getRange 0) defaultStat =
      (AList.insert (getRange 0) defaultStat ∅ : Ranges) := rfl
  rw [Stats.Contains, hinitial, ranges_insert, hrange, Prod.ext_iff]
  split
  · next heq => rw [AList.mem_insert, heq]; simp
  · next hne => exact iff_of_false (by simp [Stats.ranges]) fun h => hne h.1

/-- **The buckets of a day.** -/
theorem contains_computeTransactionStats :
    (computeTransactionStats getRange transactions).Contains b ↔
      Occupied getRange transactions b := by
  induction transactions using List.reverseRecOn with
  | nil =>
    rw [computeTransactionStats, List.foldl_nil, contains_initialStats, Occupied]
    simp
  | append_singleton transactions tx ih =>
    rw [computeTransactionStats, List.foldl_append, List.foldl_cons, List.foldl_nil,
      contains_addTransaction, ← computeTransactionStats, ih, Occupied, Occupied]
    simp only [List.mem_append, List.mem_singleton]
    grind

theorem mem_statsRows : r ∈ statsRows date stats ↔
    ∃ ranges stat, stats.lookup r.moduleCommand = some ranges ∧
      ranges.lookup r.amountRange = some stat ∧
      r = ⟨date, r.moduleCommand, r.amountRange, stat.count, toDouble stat.volume,
        stat.tokenID⟩ := by
  simp only [statsRows, List.mem_flatMap, List.mem_map]
  constructor
  · rintro ⟨⟨c, ranges⟩, hranges, ⟨g, stat⟩, hstat, rfl⟩
    exact ⟨ranges, stat, AList.mem_lookup_iff.mpr hranges, AList.mem_lookup_iff.mpr hstat, rfl⟩
  · rintro ⟨ranges, stat, hranges, hstat, hr⟩
    exact ⟨⟨_, ranges⟩, AList.mem_lookup_iff.mp hranges, ⟨_, stat⟩, AList.mem_lookup_iff.mp hstat,
      hr.symm⟩

/-- There is one row for every bucket. -/
theorem statsRows_unique (hr : r ∈ statsRows date stats) (hr' : r' ∈ statsRows date stats)
    (hid : r.id = r'.id) : r = r' := by
  obtain ⟨ranges, stat, hranges, hstat, hr⟩ := mem_statsRows.mp hr
  obtain ⟨ranges', stat', hranges', hstat', hr'⟩ := mem_statsRows.mp hr'
  obtain ⟨hcommand, hrange⟩ := Prod.mk.inj (Row.id_inj.mp hid).2
  obtain rfl : ranges = ranges' := Option.some.inj (hranges.symm.trans (hcommand ▸ hranges'))
  obtain rfl : stat = stat' := Option.some.inj (hstat.symm.trans (hrange ▸ hstat'))
  rw [hr, hr', hcommand, hrange]

theorem date_of_mem_statsRows (hr : r ∈ statsRows date stats) : r.date = date := by
  obtain ⟨ranges, stat, -, -, hr⟩ := mem_statsRows.mp hr
  rw [hr]

theorem exists_mem_statsRows (date : ℕ) :
    (∃ r ∈ statsRows date stats, r.bucket = b) ↔ stats.Contains b := by
  obtain ⟨c, g⟩ := b
  rw [Stats.Contains, Stats.ranges]
  constructor
  · rintro ⟨r, hr, hbucket⟩
    obtain ⟨ranges, stat, hranges, hstat, -⟩ := mem_statsRows.mp hr
    obtain ⟨rfl, rfl⟩ := Prod.mk.inj hbucket
    simp only [hranges, Option.getD_some]
    exact AList.lookup_isSome.mp (by rw [hstat]; rfl)
  · intro hmem
    cases hranges : stats.lookup c with
    | none => simp [hranges] at hmem
    | some ranges =>
      simp only [hranges, Option.getD_some] at hmem
      obtain ⟨stat, hstat⟩ := Option.isSome_iff_exists.mp (AList.lookup_isSome.mpr hmem)
      exact ⟨⟨date, c, g, stat.count, toDouble stat.volume, stat.tokenID⟩,
        mem_statsRows.mpr ⟨ranges, stat, hranges, hstat, rfl⟩, rfl⟩

end Buckets

/-! ### One job -/

section OneJob

variable {getRange : ℕ → String} {t : Table} {job : Job} {r : Row} {rows : List Row}

theorem mem_upsert {r₀ : Row} :
    r ∈ (t.upsert r₀).rows ↔ r = r₀ ∨ (r ∈ t.rows ∧ r.id ≠ r₀.id) := by
  simp [Table.upsert]

/-- Writing rows keeps those with other identifiers. -/
theorem mem_foldl_upsert (hunique : ∀ r ∈ rows, ∀ r' ∈ rows, r.id = r'.id → r = r') :
    r ∈ (rows.foldl Table.upsert t).rows ↔
      r ∈ rows ∨ (r ∈ t.rows ∧ ∀ r' ∈ rows, r.id ≠ r'.id) := by
  induction rows generalizing t with
  | nil => simp
  | cons r₀ rows ih =>
    rw [List.foldl_cons, ih fun r hr r' hr' => hunique r (List.mem_cons_of_mem _ hr) r'
      (List.mem_cons_of_mem _ hr'), mem_upsert, List.forall_mem_cons, List.mem_cons]
    constructor
    · rintro (hr | ⟨rfl | ⟨hr, hne⟩, hrest⟩)
      · exact .inl (.inr hr)
      · exact .inl (.inl rfl)
      · exact .inr ⟨hr, hne, hrest⟩
    · rintro ((rfl | hr) | ⟨hr, hne, hrest⟩)
      · -- a later row with the same identifier is the same row
        by_cases hlater : ∃ r' ∈ rows, r.id = r'.id
        · obtain ⟨r', hr', hid⟩ := hlater
          exact .inl (hunique r List.mem_cons_self r' (List.mem_cons_of_mem _ hr') hid ▸ hr')
        · push Not at hlater
          exact .inr ⟨.inl rfl, hlater⟩
      · exact .inl hr
      · exact .inr ⟨.inr ⟨hr, hne⟩, hrest⟩

theorem queueJob_of_succeeds (getRange : ℕ → String) (t : Table) (h : job.Succeeds) :
    (queueJob getRange t job).1 = (job.rows getRange).foldl Table.upsert t ∧
      ∃ message, (queueJob getRange t job).2 = .ok message := by
  obtain ⟨hdate, hok, hfailure⟩ := h
  rw [queueJob, if_neg hdate, Job.rows, Job.transactions]
  cases hfetched : job.fetched with
  | error e => simp [hfetched, Except.isOk, Except.toBool] at hok
  | ok transactions =>
    simp only [hfailure, Except.toOption, Option.getD_some]
    exact ⟨rfl, _, rfl⟩

/-- A job that fails leaves the table as it is. -/
theorem queueJob_of_not_succeeds (getRange : ℕ → String) (t : Table) (h : ¬ job.Succeeds) :
    (queueJob getRange t job).1 = t ∧ ∃ e, (queueJob getRange t job).2 = .error e := by
  rw [queueJob]
  split
  · exact ⟨rfl, _, rfl⟩
  · next hdate =>
    cases hfetched : job.fetched with
    | error e => exact ⟨rfl, _, rfl⟩
    | ok transactions =>
      cases hfailure : job.failure with
      | some e => exact ⟨rfl, _, rfl⟩
      | none => exact absurd ⟨hdate, by rw [hfetched]; rfl, hfailure⟩ h

/-- **The rows of a day are replaced**: a job that succeeds leaves exactly its own rows for its date
and all rows of other dates; a job that fails leaves the table as it is. -/
def ReplacesDay (getRange : ℕ → String) (t : Table) (job : Job) : Prop :=
  match (queueJob getRange t job).2 with
  | .ok _ =>
    (∀ r, r.date = job.date →
      (r ∈ (queueJob getRange t job).1.rows ↔ r ∈ job.rows getRange)) ∧
    ∀ r, r.date ≠ job.date → (r ∈ (queueJob getRange t job).1.rows ↔ r ∈ t.rows)
  | .error _ => (queueJob getRange t job).1 = t

theorem date_of_mem_rows (h : r ∈ job.rows getRange) : r.date = job.date := date_of_mem_statsRows h

/-- The buckets of the rows that a job computes. -/
theorem exists_mem_rows {b : ModuleCommand × String} :
    (∃ r ∈ job.rows getRange, r.bucket = b) ↔ Occupied getRange job.transactions b :=
  (exists_mem_statsRows job.date).trans contains_computeTransactionStats

theorem mem_queueJob (h : job.Succeeds) : r ∈ (queueJob getRange t job).1.rows ↔
    r ∈ job.rows getRange ∨ (r ∈ t.rows ∧ ∀ r' ∈ job.rows getRange, r.id ≠ r'.id) := by
  rw [(queueJob_of_succeeds getRange t h).1]
  exact mem_foldl_upsert fun r hr r' hr' => statsRows_unique hr hr'

/-- A row that is stored is written over if its bucket is occupied. -/
theorem overwritten_iff (hdate : r.date = job.date) :
    (∃ r' ∈ job.rows getRange, r.id = r'.id) ↔ Occupied getRange job.transactions r.bucket := by
  rw [← exists_mem_rows]
  constructor
  · rintro ⟨r', hr', hid⟩
    exact ⟨r', hr', (Row.id_inj.mp hid).2.symm⟩
  · rintro ⟨r', hr', hbucket⟩
    exact ⟨r', hr', Row.id_inj.mpr ⟨hdate.trans (date_of_mem_rows hr').symm, hbucket.symm⟩⟩

/-- **One job** replaces the rows of its day exactly if it occupies the buckets of all of them. -/
theorem replacesDay_iff : ReplacesDay getRange t job ↔
    (job.Succeeds → ∀ r ∈ t.rows, r.date = job.date →
      Occupied getRange job.transactions r.bucket) := by
  by_cases hjob : job.Succeeds
  · obtain ⟨-, message, hmessage⟩ := queueJob_of_succeeds getRange t hjob
    rw [ReplacesDay, hmessage, forall_prop_of_true hjob]
    constructor
    · rintro ⟨hday, -⟩ r hr hdate
      rw [← overwritten_iff hdate]
      by_contra hkept
      push Not at hkept
      -- a row that is not written over stays, and is none of the job's
      have hstays := (mem_queueJob hjob).mpr (.inr ⟨hr, hkept⟩)
      exact hkept r ((hday r hdate).mp hstays) rfl
    · intro hoccupied
      refine ⟨fun r hdate => ?_, fun r hdate => ?_⟩
      · rw [mem_queueJob hjob, or_iff_left]
        rintro ⟨hr, hkept⟩
        obtain ⟨r', hr', hid⟩ := (overwritten_iff hdate).mpr (hoccupied r hr hdate)
        exact hkept r' hr' hid
      · have hnot : r ∉ job.rows getRange := fun hr => hdate (date_of_mem_rows hr)
        rw [mem_queueJob hjob, or_iff_right hnot, and_iff_left]
        intro r' hr' hid
        exact hdate ((Row.id_inj.mp hid).1.trans (date_of_mem_rows hr'))
  · obtain ⟨htable, e, he⟩ := queueJob_of_not_succeeds getRange t hjob
    rw [ReplacesDay, he]
    exact iff_of_true htable fun h => absurd h hjob

end OneJob

/-! ### All jobs -/

section Jobs

variable {getRange : ℕ → String} {jobs : List Job} {job : Job} {date : ℕ}
  {b : ModuleCommand × String}

theorem runJobs_concat (jobs : List Job) (job : Job) :
    runJobs getRange (jobs ++ [job]) = (queueJob getRange (runJobs getRange jobs) job).1 := by
  rw [runJobs, List.foldl_append]
  rfl

/-- What a job adds to the buckets of a date; nothing is removed. -/
theorem exists_mem_queueJob {t : Table} :
    (∃ r ∈ (queueJob getRange t job).1.rows, r.date = date ∧ r.bucket = b) ↔
      (∃ r ∈ t.rows, r.date = date ∧ r.bucket = b) ∨
        (job.Succeeds ∧ job.date = date ∧ Occupied getRange job.transactions b) := by
  by_cases hjob : job.Succeeds
  · simp only [mem_queueJob hjob]
    constructor
    · rintro ⟨r, hr | ⟨hr, -⟩, hdate, hbucket⟩
      · exact .inr ⟨hjob, (date_of_mem_rows hr).symm.trans hdate,
          exists_mem_rows.mp ⟨r, hr, hbucket⟩⟩
      · exact .inl ⟨r, hr, hdate, hbucket⟩
    · rintro (⟨r, hr, hdate, hbucket⟩ | ⟨-, hdate, hoccupied⟩)
      · -- the row stays, or another one takes its place
        by_cases hover : ∃ r' ∈ job.rows getRange, r.id = r'.id
        · obtain ⟨r', hr', hid⟩ := hover
          obtain ⟨hdate', hbucket'⟩ := Row.id_inj.mp hid
          exact ⟨r', .inl hr', hdate'.symm.trans hdate, hbucket'.symm.trans hbucket⟩
        · push Not at hover
          exact ⟨r, .inr ⟨hr, hover⟩, hdate, hbucket⟩
      · obtain ⟨r, hr, hbucket⟩ := exists_mem_rows.mpr hoccupied
        exact ⟨r, .inl hr, (date_of_mem_rows hr).trans hdate, hbucket⟩
  · rw [(queueJob_of_not_succeeds getRange t hjob).1]
    exact (or_iff_left fun h => hjob h.1).symm

/-- **The buckets that are stored** for a date are those of all jobs that succeeded. -/
theorem exists_mem_runJobs :
    (∃ r ∈ (runJobs getRange jobs).rows, r.date = date ∧ r.bucket = b) ↔
      ∃ job ∈ jobs, job.Succeeds ∧ job.date = date ∧ Occupied getRange job.transactions b := by
  induction jobs using List.reverseRecOn with
  | nil => simp [runJobs, Table.empty]
  | append_singleton jobs job ih =>
    rw [runJobs_concat, exists_mem_queueJob, ih]
    simp only [List.mem_append, List.mem_singleton]
    grind

/-- **Daily statistics.** In a sequence of jobs every job replaces the rows of its day exactly if
every bucket that an earlier job counted for the day is occupied again by each later job. -/
theorem daily_statistics_iff (getRange : ℕ → String) (jobs : List Job) :
    (∀ front job rest, jobs = front ++ job :: rest →
      ReplacesDay getRange (runJobs getRange front) job) ↔
    ∀ front job rest, jobs = front ++ job :: rest → job.Succeeds →
      ∀ earlier ∈ front, earlier.Succeeds → earlier.date = job.date →
        ∀ tx ∈ earlier.transactions,
          Occupied getRange job.transactions (tx.moduleCommand, getRange tx.value) := by
  refine forall₃_congr fun front job rest => imp_congr_right fun _ => ?_
  rw [replacesDay_iff]
  refine imp_congr_right fun _ => ⟨fun h earlier hearlier hsucceeds hdate tx htx => ?_, ?_⟩
  · obtain ⟨r, hr, hrdate, hbucket⟩ := exists_mem_runJobs.mpr
      ⟨earlier, hearlier, hsucceeds, hdate, .inr ⟨tx, htx, rfl⟩⟩
    exact hbucket ▸ h r hr hrdate
  · intro h r hr hdate
    obtain ⟨earlier, hearlier, hsucceeds, hdate', hbucket⟩ :=
      exists_mem_runJobs.mp ⟨r, hr, hdate, rfl⟩
    rcases hbucket with hany | ⟨tx, htx, hbucket⟩
    · exact .inl hany
    · exact hbucket ▸ h earlier hearlier hsucceeds hdate' tx htx

theorem dash_notMem_transfer : '-' ∉ "token:transfer".toList := by decide

/-- A transfer of one token. -/
def transfer : Tx := ⟨⟨"token:transfer", dash_notMem_transfer⟩, 100000000, ""⟩

/-- The ranges of nothing and of one token. -/
def demoRange (value : ℕ) : String := if value = 0 then "0_0" else "1_10"

/-- A day that is counted with a transfer, and again after the transfer is reverted. -/
def revertedDay : List Job :=
  [⟨1704067200, .ok [transfer], none⟩, ⟨1704067200, .ok [], none⟩]

/-- The row of the reverted transfer is still there. -/
theorem reverted_transfer_kept :
    ¬ ∀ front job rest, revertedDay = front ++ job :: rest →
      ReplacesDay demoRange (runJobs demoRange front) job := by
  intro h
  have hday := h [⟨1704067200, .ok [transfer], none⟩] ⟨1704067200, .ok [], none⟩ [] rfl
  have hmessage : (queueJob demoRange (runJobs demoRange [⟨1704067200, .ok [transfer], none⟩])
      ⟨1704067200, .ok [], none⟩).2 =
        .ok "1 rows with total tx count 0 for 1704067200 inserted to db" := by decide +kernel
  rw [ReplacesDay, hmessage] at hday
  exact absurd ((hday.1 ⟨1704067200, transfer.moduleCommand, "1_10", 1, 100000000, "na"⟩
    rfl).mp (by decide +kernel)) (by decide +kernel)

end Jobs

end DailyStatistics

end SwaptoshiService
