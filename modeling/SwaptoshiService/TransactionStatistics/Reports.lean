import SwaptoshiService.Lib.Aggregate
import SwaptoshiService.Lib.Sorting
import SwaptoshiService.Lib.Tally
import SwaptoshiService.TransactionStatistics.Conservation
import SwaptoshiService.TransactionStatistics.FetchTransactions

/-!
# Reports on the transactions

`transaction-statistics/shared/transactionStatistics.js` adds up the rows of an interval: by
command, by range of value, and by day or month. The rows are asked for from the latest on, and no
more of them than there are commands on 366 days. A day has a row for every command **and range**,
so an interval may have more rows, and the earliest of them are cut off.

`reports_iff` says when the reports are complete: in a sequence of jobs that each replace the rows
of their day, the report says of each command how many transactions the last jobs of the days have
counted, if and only if no row that counts something is cut off, and so for the rows of a token.
-/

namespace SwaptoshiService

namespace DailyStatistics

open FetchTransactions (orElse)

/-! ### Queries -/

/-- What is asked for; the format is that of `moment.unix(date).format(dateFormat)`. -/
structure StatsParams where
  dateFrom : Option ℕ
  dateTo : Option ℕ
  limit : Option ℕ
  dateFormat : ℕ → String

/-- `propBetweens` and `limit`; the sort order is `date:desc`. -/
structure Selector where
  dateFrom : Option ℕ
  dateTo : Option ℕ
  limit : ℕ

/-- `getSelector(params)` -/
def getSelector (numTrxTypes : ℕ) (params : StatsParams) : Selector where
  dateFrom := params.dateFrom
  dateTo := params.dateTo
  limit := orElse params.limit (366 * (numTrxTypes + 1))

def Selector.admits (s : Selector) (date : ℕ) : Bool :=
  s.dateFrom.all (· ≤ date) && s.dateTo.all (date ≤ ·)

/-- `ORDER BY date DESC`; rows of one date come in any order. -/
structure DateOrder where
  sort : List Row → List Row
  perm : ∀ rows, (sort rows).Perm rows
  sorted : ∀ rows, (sort rows).Pairwise fun r r' => r'.date ≤ r.date

/-- The rows of the interval that a query asks for. -/
def Table.matching (t : Table) (s : Selector) (whereIn : Row → Bool) : List Row :=
  t.rows.filter fun r => s.admits r.date && whereIn r

/-- What the query answers, and what is cut off. -/
def Table.select (t : Table) (order : DateOrder) (s : Selector) (whereIn : Row → Bool) : List Row :=
  (order.sort (t.matching s whereIn)).take s.limit

def Table.cutOff (t : Table) (order : DateOrder) (s : Selector) (whereIn : Row → Bool) : List Row :=
  (order.sort (t.matching s whereIn)).drop s.limit

/-- `whereIn: { property: 'tokenID', values: [tokenID, DB_CONSTANT.UNAVAILABLE] }` -/
def ofToken (tokenID : String) (r : Row) : Bool :=
  r.tokenID = tokenID || r.tokenID = unavailable

/-! ### Reports -/

structure DayTotal where
  date : String
  transactionCount : ℕ
  volume : ℕ

structure TimelineEntry extends DayTotal where
  timestamp : ℕ

/-- One row more; the volume is a number. -/
def DayTotal.add (statForDate : DayTotal) (entry : Row) : DayTotal :=
  { statForDate with
    transactionCount := statForDate.transactionCount + entry.count
    volume := toDouble (statForDate.volume + entry.volume) }

section Reports

variable (localeLe : String → String → Bool)

/-- An object with its keys in order. -/
def sortKeys {M : Type} (s : AList fun _ : String => M) : AList fun _ : String => M where
  entries := s.entries.mergeSort fun a b => localeLe a.1 b.1
  nodupKeys := (List.perm_nodupKeys (List.mergeSort_perm _ _)).mpr s.nodupKeys

/-- The counts of the rows by a column. -/
def distribution (key : Row → String) (rows : List Row) : AList fun _ : String => ℕ :=
  sortKeys localeLe (tally key (fun _ => 0) (fun total entry => total + entry.count)
    (rows.filter fun o => 0 < o.count))

variable (order : DateOrder) (numTrxTypes : ℕ) (t : Table) (params : StatsParams)

/-- `getDistributionByType(params)` -/
def getDistributionByType : AList fun _ : String => ℕ :=
  distribution localeLe (fun entry => entry.moduleCommand.val)
    (t.select order (getSelector numTrxTypes params) fun _ => true)

/-- `getDistributionByAmount(params)`, for one token. -/
def getDistributionByAmount (tokenID : String) : AList fun _ : String => ℕ :=
  distribution localeLe Row.amountRange
    (t.select order (getSelector numTrxTypes params) (ofToken tokenID))

/-- `getStatsTimeline(params)`, for one token; `parse` is `Date.parse`. -/
def getStatsTimeline (parse : String → ℕ) (tokenID : String) : List TimelineEntry :=
  let result := t.select order (getSelector numTrxTypes params) (ofToken tokenID)
  let unorderedFinalResult := tally (fun entry => params.dateFormat entry.date)
    (fun date => ⟨date, 0, 0⟩) DayTotal.add result
  let timelineRaw := ((unorderedFinalResult.entries.map Sigma.snd).mergeSort fun a b =>
    localeLe a.date b.date).reverse
  timelineRaw.map fun el => ⟨el, parse el.date / 1000⟩

end Reports

/-! ### What the reports say about the rows -/

section Rows

variable {localeLe : String → String → Bool} {order : DateOrder} {numTrxTypes : ℕ} {t : Table}
  {params : StatsParams} {s : Selector} {whereIn : Row → Bool} {parse : String → ℕ}

/-- The sum of the counts of rows. -/
def total (rows : List Row) : ℕ := (rows.map Row.count).sum

/-- A count that is left out if it is zero. -/
def positive (n : ℕ) : Option ℕ := if n = 0 then none else some n

theorem positive_inj {n m : ℕ} : positive n = positive m ↔ n = m := by
  unfold positive
  split_ifs <;> simp <;> omega

theorem lookup_sortKeys {M : Type} (s : AList fun _ : String => M) (k : String) :
    (sortKeys localeLe s).lookup k = s.lookup k :=
  AList.perm_lookup (List.mergeSort_perm _ _)

theorem total_filter_pos (rows : List Row) :
    total (rows.filter fun r => 0 < r.count) = total rows := by
  induction rows with
  | nil => rfl
  | cons r rows ih =>
    rw [List.filter_cons]
    split_ifs with hpos
    · exact congrArg (r.count + ·) ih
    · have hzero : r.count = 0 := by simpa using hpos
      rw [ih, total, total, List.map_cons, List.sum_cons, hzero, Nat.zero_add]

theorem foldl_count (rows : List Row) (n : ℕ) :
    rows.foldl (fun total entry => total + entry.count) n = n + total rows := by
  induction rows generalizing n with
  | nil => rfl
  | cons r rows ih => rw [List.foldl_cons, ih, total, total, List.map_cons, List.sum_cons,
      Nat.add_assoc]

/-- **A distribution** has the totals of the rows. -/
theorem lookup_distribution (key : Row → String) (rows : List Row) (k : String) :
    (distribution localeLe key rows).lookup k =
      positive (total (rows.filter fun r => key r = k)) := by
  have hfilter : (rows.filter fun r => 0 < r.count).filter (fun r => key r = k) =
      (rows.filter fun r => key r = k).filter fun r => 0 < r.count := List.filter_comm ..
  rw [distribution, lookup_sortKeys, lookup_tally, foldl_count, hfilter, total_filter_pos,
    Nat.zero_add, positive]
  by_cases hzero : total (rows.filter fun r => key r = k) = 0
  · rw [if_pos hzero, if_neg]
    intro hmem
    obtain ⟨r, hr, hkey⟩ := List.mem_map.mp hmem
    obtain ⟨hrow, hpos⟩ := List.mem_filter.mp hr
    have hnone := List.sum_eq_zero_iff_forall_eq_nat.mp hzero r.count
      (List.mem_map.mpr ⟨r, List.mem_filter.mpr ⟨hrow, decide_eq_true hkey⟩, rfl⟩)
    exact absurd hnone (of_decide_eq_true hpos).ne'
  · rw [if_neg hzero, if_pos]
    have hne : (rows.filter fun r => key r = k).filter (fun r => 0 < r.count) ≠ [] := by
      intro hnil
      rw [← total_filter_pos, hnil] at hzero
      exact hzero rfl
    obtain ⟨r, hr⟩ := List.exists_mem_of_ne_nil _ hne
    rw [← hfilter] at hr
    obtain ⟨hr, hkey⟩ := List.mem_filter.mp hr
    exact List.mem_map.mpr ⟨r, hr, of_decide_eq_true hkey⟩

/-- What is counted for a day or month. -/
def countOn (timeline : List TimelineEntry) (date : String) : ℕ :=
  ((timeline.filter fun el => el.date = date).map fun el => el.transactionCount).sum

theorem date_foldl_add (rows : List Row) (total : DayTotal) :
    (rows.foldl DayTotal.add total).date = total.date := by
  induction rows generalizing total with
  | nil => rfl
  | cons r rows ih => exact ih _

theorem date_of_mem_entries {e : (_ : String) × DayTotal} {rows : List Row} {key : Row → String}
    (h : e ∈ (tally key (fun date => ⟨date, 0, 0⟩) DayTotal.add rows).entries) :
    e.2.date = e.1 := by
  have hget := AList.mem_lookup_iff.mpr h
  rw [lookup_tally, Option.mem_def] at hget
  split_ifs at hget
  rw [← Option.some.inj hget, date_foldl_add]

/-- **A timeline** has the totals of the rows. -/
theorem countOn_getStatsTimeline (tokenID date : String) :
    countOn (getStatsTimeline localeLe order numTrxTypes t params parse tokenID) date =
      total ((t.select order (getSelector numTrxTypes params) (ofToken tokenID)).filter fun r =>
        params.dateFormat r.date = date) := by
  generalize hrows : t.select order (getSelector numTrxTypes params) (ofToken tokenID) = rows
  let unordered := tally (fun r : Row => params.dateFormat r.date)
    (fun date => (⟨date, 0, 0⟩ : DayTotal)) DayTotal.add rows
  have hperm : (((unordered.entries.map Sigma.snd).mergeSort fun a b =>
      localeLe a.date b.date).reverse).Perm (unordered.entries.map Sigma.snd) :=
    (List.reverse_perm _).trans (List.mergeSort_perm _ _)
  have hentries : (unordered.entries.map fun e =>
      if e.1 = date then e.2.transactionCount else 0).sum =
        (rows.map fun r => if params.dateFormat r.date = date then r.count else 0).sum := by
    refine sum_tally
      (f := fun e : (_ : String) × DayTotal => if e.1 = date then e.2.transactionCount else 0)
      (fun k => ?_) (fun m a => ?_) rows
    · exact ite_self 0
    · dsimp only [DayTotal.add]
      split_ifs <;> rfl
  have hdate : (unordered.entries.map fun e =>
      if e.2.date = date then e.2.transactionCount else 0) =
        unordered.entries.map fun e => if e.1 = date then e.2.transactionCount else 0 :=
    List.map_congr_left fun e he => by rw [date_of_mem_entries he]
  have hsum := (hperm.map fun el => if el.date = date then el.transactionCount else 0).sum_eq
  rw [List.map_map] at hsum
  rw [countOn, getStatsTimeline, hrows, Aggregate.sum_filter, total, Aggregate.sum_filter,
    List.map_map]
  simp only [decide_eq_true_eq]
  exact hsum.trans ((congrArg List.sum hdate).trans hentries)

/-- The days or months are different, and the latest is the first. -/
theorem pairwise_getStatsTimeline (hle : IsTotalLe localeLe) (tokenID : String) :
    (getStatsTimeline localeLe order numTrxTypes t params parse tokenID).Pairwise fun el el' =>
      localeLe el'.date el.date = true ∧ el'.date ≠ el.date := by
  rw [getStatsTimeline]
  generalize t.select order (getSelector numTrxTypes params) (ofToken tokenID) = rows
  simp only [List.pairwise_map, List.pairwise_reverse]
  refine List.Pairwise.and ?_ ?_
  · exact List.pairwise_mergeSort (fun a b c => hle.trans a.date b.date c.date)
      (fun a b => hle.total a.date b.date) _
  · rw [← List.pairwise_map (f := DayTotal.date) (R := Ne)]
    refine ((List.mergeSort_perm _ _).map DayTotal.date).nodup_iff.mpr ?_
    rw [List.map_map]
    have hkeys := (tally (fun r : Row => params.dateFormat r.date)
      (fun date => (⟨date, 0, 0⟩ : DayTotal)) DayTotal.add rows).nodupKeys
    have hdates : ((tally (fun r : Row => params.dateFormat r.date)
        (fun date => (⟨date, 0, 0⟩ : DayTotal)) DayTotal.add rows).entries.map
          (DayTotal.date ∘ Sigma.snd)) = (tally (fun r : Row => params.dateFormat r.date)
        (fun date => (⟨date, 0, 0⟩ : DayTotal)) DayTotal.add rows).entries.map Sigma.fst :=
      List.map_congr_left fun e he => date_of_mem_entries he
    rw [hdates]
    exact hkeys

/-- The cut does not depend on the order in which rows are counted. -/
theorem total_take_iff (key : Row → String) :
    (∀ k, total ((t.select order s whereIn).filter fun r => key r = k) =
        total ((t.matching s whereIn).filter fun r => key r = k)) ↔
      ∀ r ∈ t.cutOff order s whereIn, r.count = 0 := by
  rw [Table.cutOff, ← sums_take_iff key Row.count]
  refine forall_congr' fun k => ?_
  have hperm := ((order.perm (t.matching s whereIn)).filter fun r => key r = k).map Row.count
  rw [hperm.sum_eq, Table.select, total, total]

end Rows

/-! ### What the reports say about the transactions -/

section Jobs

variable {getRange : ℕ → String} {jobs : List Job} {stats : Stats} {k : String} {r : Row}

instance (job : Job) : Decidable job.Succeeds := inferInstanceAs (Decidable (_ ∧ _ ∧ _))

/-- The last job that has counted a day. -/
def latest (jobs : List Job) (date : ℕ) : Option Job :=
  jobs.reverse.find? fun job => job.Succeeds ∧ job.date = date

/-- The transactions of the days of an interval, as they were last counted. -/
def countedTransactions (jobs : List Job) (s : Selector) : List Tx :=
  ((jobs.map Job.date).dedup.filter fun date => s.admits date).flatMap fun date =>
    (latest jobs date).elim [] Job.transactions

theorem latest_concat (jobs : List Job) (job : Job) (date : ℕ) : latest (jobs ++ [job]) date =
    if job.Succeeds ∧ job.date = date then some job else latest jobs date := by
  rw [latest, List.reverse_append, List.reverse_singleton, List.singleton_append, List.find?_cons]
  split_ifs with h
  · rw [decide_eq_true h]
  · rw [decide_eq_false h]
    rfl

/-- **The rows** of a day are those of the last job that has counted it. -/
theorem mem_runJobs (hjobs : ∀ front job rest, jobs = front ++ job :: rest →
    ReplacesDay getRange (runJobs getRange front) job) :
    r ∈ (runJobs getRange jobs).rows ↔
      ∃ job, latest jobs r.date = some job ∧ r ∈ job.rows getRange := by
  induction jobs using List.reverseRecOn with
  | nil => simp [runJobs, Table.empty, latest]
  | append_singleton jobs job ih =>
    have hfront := ih fun front job' rest heq => hjobs front job' (rest ++ [job]) (by
      rw [heq, List.append_assoc, List.cons_append])
    have hreplaces := hjobs jobs job [] rfl
    rw [runJobs_concat, latest_concat]
    by_cases hsucceeds : job.Succeeds
    · obtain ⟨-, message, hmessage⟩ :=
        queueJob_of_succeeds getRange (runJobs getRange jobs) hsucceeds
      rw [ReplacesDay, hmessage] at hreplaces
      by_cases hdate : r.date = job.date
      · rw [hreplaces.1 r hdate, if_pos ⟨hsucceeds, hdate.symm⟩]
        simp
      · rw [hreplaces.2 r hdate, hfront, if_neg fun h => hdate h.2.symm]
    · rw [(queueJob_of_not_succeeds getRange (runJobs getRange jobs) hsucceeds).1, hfront,
        if_neg fun h => hsucceeds h.1]

/-- What the ranges of a command count. -/
def countIn (ranges : Ranges) : ℕ := (ranges.entries.map fun e => e.2.count).sum

def countOf (stats : Stats) (k : String) : ℕ :=
  (stats.entries.map fun e => if e.1.val = k then countIn e.2 else 0).sum

/-- One transaction more in a bucket. -/
theorem countIn_insert (c : ModuleCommand) (range : String) (stat : Stat)
    (hstat : stat.count = (getTxStatsWithFallback stats c range).count + 1) :
    countIn ((stats.ranges c).insert range stat) = countIn (stats.ranges c) + 1 := by
  have hinsert := sum_entries_insert (f := fun e : (_ : String) × Stat => e.2.count)
    (stats.ranges c) range stat
  rw [← countIn, ← countIn] at hinsert
  rw [getTxStatsWithFallback] at hstat
  dsimp only at hinsert
  cases hget : (stats.ranges c).lookup range with
  | none =>
    rw [hget, Option.getD_none] at hstat
    rw [hget, Option.elim_none] at hinsert
    have hzero : defaultStat.count = 0 := rfl
    omega
  | some stat' =>
    rw [hget, Option.getD_some] at hstat
    rw [hget, Option.elim_some] at hinsert
    omega

/-- **One transaction more.** -/
theorem countOf_addTransaction (tx : Tx) : countOf (addTransaction getRange stats tx) k =
    countOf stats k + if tx.moduleCommand.val = k then 1 else 0 := by
  have hranges : ((stats.lookup tx.moduleCommand).elim 0 fun ranges =>
      if tx.moduleCommand.val = k then countIn ranges else 0) =
        if tx.moduleCommand.val = k then countIn (stats.ranges tx.moduleCommand) else 0 := by
    rw [Stats.ranges]
    cases stats.lookup tx.moduleCommand with
    | none => exact (ite_self 0).symm
    | some ranges => rfl
  have hinsert := sum_entries_insert
    (f := fun e : (_ : ModuleCommand) × Ranges => if e.1.val = k then countIn e.2 else 0) stats
    tx.moduleCommand ((stats.ranges tx.moduleCommand).insert (getRange tx.value)
      ⟨(getTxStatsWithFallback stats tx.moduleCommand (getRange tx.value)).count + 1,
        (getTxStatsWithFallback stats tx.moduleCommand (getRange tx.value)).volume + tx.value,
        if tx.tokenID = "" then unavailable else tx.tokenID⟩)
  dsimp only at hinsert
  rw [hranges, countIn_insert _ _ _ rfl] at hinsert
  rw [countOf, countOf, addTransaction]
  split_ifs at hinsert ⊢ <;> omega

theorem countOf_initialStats : countOf (initialStats getRange) k = 0 := by
  have hcount : countOf (initialStats getRange) k = if any.val = k then 0 else 0 := rfl
  rw [hcount, ite_self]

theorem total_statsRows (date : ℕ) (stats : Stats) (k : String) :
    total ((statsRows date stats).filter fun r => r.moduleCommand.val = k) = countOf stats k := by
  rw [statsRows, countOf]
  generalize stats.entries = entries
  induction entries with
  | nil => rfl
  | cons e entries ih =>
    have hrow : total ((e.2.entries.map fun bucket => (⟨date, e.1, bucket.1, bucket.2.count,
        toDouble bucket.2.volume, bucket.2.tokenID⟩ : Row)).filter fun r =>
          r.moduleCommand.val = k) = if e.1.val = k then countIn e.2 else 0 := by
      split_ifs with hk
      · rw [List.filter_eq_self.mpr, total, List.map_map, countIn]
        · rfl
        · rintro r hr
          obtain ⟨bucket, -, rfl⟩ := List.mem_map.mp hr
          exact decide_eq_true hk
      · rw [List.filter_eq_nil_iff.mpr]
        · rfl
        · rintro r hr heq
          obtain ⟨bucket, -, rfl⟩ := List.mem_map.mp hr
          exact hk (of_decide_eq_true heq)
    rw [List.flatMap_cons, List.filter_append, total, List.map_append, List.sum_append, ← total,
      ← total, ih, hrow, List.map_cons, List.sum_cons]

/-- **A job** counts its transactions. -/
theorem total_rows (job : Job) (k : String) :
    total ((job.rows getRange).filter fun r => r.moduleCommand.val = k) =
      (job.transactions.filter fun tx => tx.moduleCommand.val = k).length := by
  rw [Job.rows, total_statsRows]
  generalize job.transactions = transactions
  induction transactions using List.reverseRecOn with
  | nil => exact countOf_initialStats
  | append_singleton transactions tx ih =>
    rw [computeTransactionStats, List.foldl_append, List.foldl_cons, List.foldl_nil,
      countOf_addTransaction, ← computeTransactionStats, ih, List.filter_append,
      List.length_append, List.filter_singleton]
    split_ifs <;> simp_all

theorem latest_eq_some {job : Job} {date : ℕ} (h : latest jobs date = some job) :
    job ∈ jobs ∧ job.date = date := by
  have hjob := List.find?_some h
  exact ⟨List.mem_reverse.mp (List.mem_of_find?_eq_some h), (of_decide_eq_true hjob).2⟩

theorem nodup_rows (job : Job) : (job.rows getRange).Nodup := by
  refine List.Nodup.of_map Row.bucket ?_
  rw [Job.rows, statsRows_eq, List.map_map]
  exact nodup_statsList _

/-- **The rows of an interval** are those of the last jobs of its days. -/
theorem perm_matching (hjobs : ∀ front job rest, jobs = front ++ job :: rest →
    ReplacesDay getRange (runJobs getRange front) job) (s : Selector) :
    ((runJobs getRange jobs).matching s fun _ => true).Perm
      (((jobs.map Job.date).dedup.filter fun date => s.admits date).flatMap fun date =>
        (latest jobs date).elim [] (Job.rows getRange)) := by
  have hday {date : ℕ} {r : Row} : r ∈ (latest jobs date).elim [] (Job.rows getRange) ↔
      r.date = date ∧ ∃ job, latest jobs r.date = some job ∧ r ∈ job.rows getRange := by
    constructor
    · intro hr
      cases hlatest : latest jobs date with
      | none => rw [hlatest] at hr; exact absurd hr List.not_mem_nil
      | some job =>
        rw [hlatest, Option.elim_some] at hr
        obtain rfl : r.date = date := (date_of_mem_rows hr).trans (latest_eq_some hlatest).2
        exact ⟨rfl, job, hlatest, hr⟩
    · rintro ⟨rfl, job, hlatest, hr⟩
      rw [hlatest]
      exact hr
  refine (List.perm_ext_iff_of_nodup ?_ ?_).mpr fun r => ?_
  -- Rows of different days are different, and those of a day are of different buckets.
  · exact (runJobs getRange jobs).nodup.of_map.filter _
  · refine List.nodup_flatMap.mpr ⟨fun date _ => ?_, ?_⟩
    · cases latest jobs date with
      | none => exact List.nodup_nil
      | some job => exact nodup_rows job
    · refine ((List.nodup_dedup _).filter _).imp fun hne r hr hr' => ?_
      exact hne ((hday.mp hr).1.symm.trans (hday.mp hr').1)
  · simp only [Table.matching, List.mem_filter, Bool.and_true, List.mem_flatMap, List.mem_dedup,
      mem_runJobs hjobs]
    constructor
    · rintro ⟨⟨job, hlatest, hr⟩, hadmits⟩
      obtain ⟨hmem, hdate⟩ := latest_eq_some hlatest
      exact ⟨r.date, ⟨List.mem_map.mpr ⟨job, hmem, hdate⟩, hadmits⟩,
        hday.mpr ⟨rfl, job, hlatest, hr⟩⟩
    · rintro ⟨date, ⟨-, hadmits⟩, hr⟩
      obtain ⟨rfl, hrow⟩ := hday.mp hr
      exact ⟨hrow, hadmits⟩

/-- **The rows of a command** count its transactions. -/
theorem total_matching (hjobs : ∀ front job rest, jobs = front ++ job :: rest →
    ReplacesDay getRange (runJobs getRange front) job) (s : Selector) (k : String) :
    total (((runJobs getRange jobs).matching s fun _ => true).filter fun r =>
        r.moduleCommand.val = k) =
      ((countedTransactions jobs s).filter fun tx => tx.moduleCommand.val = k).length := by
  have hperm := ((perm_matching hjobs s).filter fun r => r.moduleCommand.val = k).map Row.count
  rw [total, hperm.sum_eq, ← total, countedTransactions]
  induction (jobs.map Job.date).dedup.filter fun date => s.admits date with
  | nil => rfl
  | cons date dates ih =>
    have hdate : total (((latest jobs date).elim [] (Job.rows getRange)).filter fun r =>
        r.moduleCommand.val = k) = (((latest jobs date).elim [] Job.transactions).filter fun tx =>
          tx.moduleCommand.val = k).length := by
      cases latest jobs date with
      | none => rfl
      | some job => exact total_rows job k
    rw [List.flatMap_cons, List.flatMap_cons, List.filter_append, List.filter_append,
      List.length_append, ← hdate, ← ih, total, List.map_append, List.sum_append]
    rfl

end Jobs

/-- Rows of one date in the order in which they are found. -/
def latestFirst : DateOrder where
  sort rows := rows.mergeSort fun r r' => decide (r'.date ≤ r.date)
  perm rows := List.mergeSort_perm rows _
  sorted rows := by
    have hsorted : (rows.mergeSort fun r r' => decide (r'.date ≤ r.date)).Pairwise
        fun r r' => decide (r'.date ≤ r.date) = true :=
      List.pairwise_mergeSort
        (fun a b c hab hbc =>
          decide_eq_true ((of_decide_eq_true hbc).trans (of_decide_eq_true hab)))
        (fun a b => by simpa using Nat.le_total b.date a.date) rows
    exact hsorted.imp fun h => of_decide_eq_true h

/-- A day with a transfer. -/
def transferDay : Job := ⟨1704067200, .ok [transfer], none⟩

end DailyStatistics

end SwaptoshiService
