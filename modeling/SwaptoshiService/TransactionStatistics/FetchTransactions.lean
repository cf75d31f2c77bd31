import SwaptoshiService.DataService.RangeParam
import SwaptoshiService.Lib.Batches
import SwaptoshiService.Lib.Except

/-!
# The transactions of a day

`fetchTransactions` (`buildTransactionStatistics.js`) asks the indexer for the timestamps from the
start of a day **to the start of the next one**: first for the number of transactions, then for
pages of a hundred (`requestAll`). All pages together are the whole list
(`fetchTransactions_eq`), but a range includes both of its bounds, so a transaction at the very
start of a day is also fetched for the day before.

The end of a day is computed in the time zone of the process. `counted_once_iff`: every transaction
of the days is fetched once if and only if none lies between the end of one of the days, so
computed, and the start of the next one, or at it.
-/

namespace SwaptoshiService

namespace FetchTransactions

open RangeParam

variable {α : Type}

/-! ### Paging -/

/-- `meta` of an answer. -/
structure Meta where
  total : Option ℕ

/-- An answer; its `data` may be an error. -/
structure Answer (α : Type) where
  data : Except String (List α)
  info : Option Meta

/-- `value || fallback`. -/
def orElse (value : Option ℕ) (fallback : ℕ) : ℕ :=
  match value with
  | some (n + 1) => n + 1
  | _ => fallback

/-- How many elements are to be collected. -/
def maxAmount (total : Option ℕ) (defaultMaxAmount : ℕ) : ℕ :=
  match total with
  | some total => if total = 0 ∨ defaultMaxAmount < total then defaultMaxAmount else total
  | none => defaultMaxAmount

/-- The pages from `page` on, `n` of them at most. -/
def requestPages (fn : ℕ → ℕ → Except String (Answer α)) (oneRequestLimit : ℕ) :
    ℕ → ℕ → Except String (List α)
  | _, 0 => pure []
  | page, n + 1 => do
    let result ← fn oneRequestLimit (page * oneRequestLimit)
    match result.data with
    -- An error has no `length` and ends the loop like an empty page.
    | .error _ => pure []
    | .ok data =>
      if data.isEmpty then pure []
      else do
        let rest ← requestPages fn oneRequestLimit (page + 1) n
        pure (data ++ rest)

/-- `requestAll(fn, method, params, limit)` of the statistics service; `fn` is asked with a limit
and an offset, and the result is an error if the first answer is one. -/
def requestAll (fn : ℕ → ℕ → Except String (Answer α)) (paramsLimit limit : Option ℕ) :
    Except String (Except String (List α)) := do
  let defaultMaxAmount := orElse limit 1000
  let oneRequestLimit := orElse paramsLimit 100
  let firstRequest ← fn oneRequestLimit 0
  match firstRequest.data, firstRequest.info with
  | .error e, _ => pure (.error e)
  | .ok _, none => throw "Cannot read properties of undefined (reading 'total')"
  | .ok data, some info =>
    let maxAmount := maxAmount info.total defaultMaxAmount
    if oneRequestLimit < maxAmount then do
      let rest ← requestPages fn oneRequestLimit 1 (numBatches maxAmount oneRequestLimit - 1)
      pure (.ok (data ++ rest))
    else pure (.ok data)

/-- An answer from a list. -/
def answerOf (l : List α) (limit offset : ℕ) : Answer α :=
  ⟨.ok ((l.drop offset).take limit), some ⟨some l.length⟩⟩

section Paging

variable {fn : ℕ → ℕ → Except String (Answer α)} {l : List α}

theorem requestPages_eq (hfn : ∀ limit offset, fn limit offset = .ok (answerOf l limit offset))
    (p page n : ℕ) : requestPages fn p page n =
      .ok (untilEmpty (fun i => (l.drop (i * p)).take p) page n) := by
  induction n generalizing page with
  | zero => rfl
  | succ n ih =>
    rw [requestPages, untilEmpty, hfn, ih]
    simp only [answerOf, bind, Except.bind, pure, Except.pure]
    split_ifs <;> rfl

theorem orElse_pos {value : Option ℕ} {fallback : ℕ} (h : 0 < fallback) :
    0 < orElse value fallback := by
  rw [orElse.eq_def]
  split
  · exact Nat.succ_pos _
  · exact h

/-- **What is collected** from a list: whole pages. -/
theorem requestAll_eq (hfn : ∀ limit offset, fn limit offset = .ok (answerOf l limit offset))
    (paramsLimit limit : Option ℕ) : requestAll fn paramsLimit limit = .ok (.ok (l.take
      (max 1 (numBatches (maxAmount (some l.length) (orElse limit 1000)) (orElse paramsLimit 100)) *
        orElse paramsLimit 100))) := by
  have hp : 0 < orElse paramsLimit 100 := orElse_pos (by norm_num)
  have hpages := requestPages_eq hfn (orElse paramsLimit 100) 1
  rw [requestAll, hfn]
  -- From here on only that the limits are positive matters.
  generalize orElse paramsLimit 100 = p at hp hpages ⊢
  generalize hM : maxAmount (some l.length) (orElse limit 1000) = M
  simp only [answerOf, bind, Except.bind, pure, Except.pure, List.drop_zero, hM]
  split_ifs with hlt
  · -- The first answer is the first page.
    have hbatches : 1 < numBatches M p := (lt_numBatches_iff hp).mpr (by rwa [one_mul])
    have hmax : max 1 (numBatches M p) = 1 + (numBatches M p - 1) := by omega
    rw [hpages]
    simp only
    rw [hmax, ← take_append_untilEmpty l hp 1, one_mul]
  · have hbatches : ¬ 1 < numBatches M p := by
      rw [lt_numBatches_iff hp, one_mul]
      exact hlt
    have hmax : max 1 (numBatches M p) = 1 := by omega
    rw [hmax, one_mul]

/-- With the length of the list as the limit, all of it is collected. -/
theorem requestAll_length (hfn : ∀ limit offset, fn limit offset = .ok (answerOf l limit offset))
    (paramsLimit : Option ℕ) : requestAll fn paramsLimit (some l.length) = .ok (.ok l) := by
  have hp : 0 < orElse paramsLimit 100 := orElse_pos (by norm_num)
  rw [requestAll_eq hfn, List.take_of_length_le]
  rcases Nat.eq_zero_or_pos l.length with hzero | hpos
  · omega
  · have hlimit : orElse (some l.length) 1000 = l.length := by
      obtain ⟨n, hn⟩ := Nat.exists_eq_succ_of_ne_zero hpos.ne'
      rw [hn]
      rfl
    have hamount : maxAmount (some l.length) (orElse (some l.length) 1000) = l.length := by
      rw [hlimit, maxAmount, if_neg (by omega)]
    rw [hamount]
    calc l.length ≤ numBatches l.length (orElse paramsLimit 100) * orElse paramsLimit 100 :=
          le_numBatches_mul hp
      _ ≤ _ := Nat.mul_le_mul_right _ (le_max_right _ _)

end Paging

/-! ### A day -/

/-- `fetchTransactions(date)`; `addDay date` is `moment.unix(date).add(1, 'day').unix()`. -/
def fetchTransactions (addDay : ℤ → ℤ)
    (requestIndexer : String → ℕ → ℕ → Except String (Answer α)) (date : ℤ) :
    Except String (List α) := do
  let timestamp := rangeText date (addDay date)
  let txMeta ← requestIndexer timestamp 1 0
  let maxCount := txMeta.info.elim (some 1000) Meta.total
  let result ← requestAll (requestIndexer timestamp) (some 100) maxCount
  match result with
  | .error _ => pure []
  | .ok transactions => pure transactions

/-- A transaction in the index. -/
structure ListedTx where
  id : String
  timestamp : ℤ
deriving DecidableEq

/-- The row of the transaction, as far as ranges of timestamps need it. -/
def ListedTx.row (tx : ListedTx) : Sql.Row String JsNumber := fun column =>
  if column = "timestamp" then some (JsNumber.ofRat tx.timestamp) else none

/-- How the indexer answers for a range of timestamps: from a fixed list of transactions. -/
def indexer (txs : List ListedTx) (timestamp : String) (limit offset : ℕ) :
    Except String (Answer ListedTx) := do
  let params ← normalizeRangeParam (O := Unit) (AList.singleton "timestamp" (.text timestamp))
    "timestamp"
  pure (answerOf (txs.filter fun tx => Sql.All (rangeConds params) tx.row) limit offset)

section Day

variable {addDay : ℤ → ℤ} {txs : List ListedTx} {date : ℤ}

theorem indexer_rangeText {lower upper : ℤ} (hle : lower ≤ upper) (hlower : lower.natAbs < 2 ^ 53)
    (hupper : upper.natAbs < 2 ^ 53) (limit offset : ℕ) :
    indexer txs (rangeText lower upper) limit offset = .ok (answerOf
      (txs.filter fun tx => lower ≤ tx.timestamp ∧ tx.timestamp ≤ upper) limit offset) := by
  have hparams : (AList.singleton "timestamp" (.text (rangeText lower upper)) :
      ParamsObject Unit).lookup "timestamp" = some (.text (rangeText lower upper)) :=
    AList.lookup_insert (∅ : ParamsObject Unit)
  rw [indexer, normalizeRangeParam_rangeText hparams hle hlower hupper]
  simp only [bind, Except.bind, pure, Except.pure]
  congr 2
  refine List.filter_congr fun tx _ => ?_
  rw [decide_eq_decide]
  have hrow : tx.row "timestamp" = some (JsNumber.ofRat tx.timestamp) := rfl
  refine all_rangeConds_iff ?_ hrow
  rw [propBetweensOf, AList.lookup_insert]
  rfl

/-- **What is fetched for a day.** -/
theorem fetchTransactions_eq (hle : date ≤ addDay date) (hdate : date.natAbs < 2 ^ 53)
    (hnext : (addDay date).natAbs < 2 ^ 53) : fetchTransactions addDay (indexer txs) date =
      .ok (txs.filter fun tx => date ≤ tx.timestamp ∧ tx.timestamp ≤ addDay date) := by
  have hindexer : ∀ limit offset, indexer txs (rangeText date (addDay date)) limit offset =
      .ok (answerOf _ limit offset) := indexer_rangeText hle hdate hnext
  rw [fetchTransactions, hindexer]
  simp only [bind, Except.bind, answerOf, Option.elim]
  rw [requestAll_length hindexer]
  rfl

end Day

/-! ### A run of days -/

/-- The start of a day, days after the first one. -/
def dayStart (first : ℤ) (k : ℕ) : ℤ := first + 86400 * k

/-- The transactions of `n` days from the first one are fetched, each once. -/
def CountedOnce (addDay : ℤ → ℤ) (txs : List ListedTx) (first : ℤ) (n : ℕ) : Prop :=
  ∃ lists, ((List.range n).mapM fun k =>
      fetchTransactions addDay (indexer txs) (dayStart first k)) = .ok lists ∧
    lists.flatten.Perm
      (txs.filter fun tx => first ≤ tx.timestamp ∧ tx.timestamp < dayStart first n)

/-- A timestamp that is fetched for the day but lies behind it, or lies in it but is not fetched. -/
def Misplaced (addDay : ℤ → ℤ) (date timestamp : ℤ) : Prop :=
  (date + 86400 ≤ timestamp ∧ timestamp ≤ addDay date) ∨
    (addDay date < timestamp ∧ timestamp < date + 86400)

section Days

variable {addDay : ℤ → ℤ} {txs : List ListedTx} {first t : ℤ} {n : ℕ}

/-- In UTC, the timestamp is the start of the next day. -/
theorem misplaced_utc {date : ℤ} : Misplaced (· + 86400) date t ↔ t = date + 86400 := by
  rw [Misplaced]
  omega

theorem dayStart_succ (first : ℤ) (k : ℕ) : dayStart first (k + 1) = dayStart first k + 86400 := by
  rw [dayStart, dayStart]
  push_cast
  ring

/-- A timestamp lies in one of the days, or in none. -/
theorem countP_dayStart (first t : ℤ) (n : ℕ) :
    ((List.range n).countP fun k => dayStart first k ≤ t ∧ t < dayStart first k + 86400) =
      if first ≤ t ∧ t < dayStart first n then 1 else 0 := by
  induction n with
  | zero =>
    rw [if_neg (by rw [dayStart]; omega)]
    rfl
  | succ n ih =>
    have hfirst : first ≤ dayStart first n := by
      rw [dayStart]
      omega
    rw [List.range_succ, List.countP_append, ih, List.countP_singleton, dayStart_succ]
    simp only [decide_eq_true_eq]
    split_ifs <;> omega

private theorem mem_fetched_iff {k : ℕ} : k ∈ (List.range n).filter
    (fun k => decide (dayStart first k ≤ t ∧ t ≤ addDay (dayStart first k))) ↔
      k < n ∧ dayStart first k ≤ t ∧ t ≤ addDay (dayStart first k) := by
  simp

private theorem addDay_bounds (hday : ∀ d, |addDay d - (d + 86400)| ≤ 43200) (d : ℤ) :
    d + 43200 ≤ addDay d ∧ addDay d ≤ d + 129600 := by
  have := abs_le.mp (hday d)
  omega

/-- A timestamp behind a day that fetches it is not fetched once for its own day only. -/
theorem countP_ne_of_behind (hday : ∀ d, |addDay d - (d + 86400)| ≤ 43200) {k : ℕ} (hk : k < n)
    (hbehind : dayStart first k + 86400 ≤ t) (hfetched : t ≤ addDay (dayStart first k)) :
    ((List.range n).countP fun k => dayStart first k ≤ t ∧ t ≤ addDay (dayStart first k)) ≠
      if first ≤ t ∧ t < dayStart first n then 1 else 0 := by
  intro hcount
  rw [List.countP_eq_length_filter] at hcount
  have hk' := mem_fetched_iff.mpr ⟨hk, by omega, hfetched⟩
  have hnext := dayStart_succ first k
  have hbounds := addDay_bounds hday (dayStart first (k + 1))
  have hend := addDay_bounds hday (dayStart first k)
  have hfirst : ∀ j, dayStart first j = first + 86400 * j := fun _ => rfl
  have hstart := hfirst k
  have hlast := hfirst n
  by_cases hin : t < dayStart first n
  · -- The next day fetches it too.
    have hnext' := mem_fetched_iff.mpr
      (⟨by omega, by omega, by omega⟩ : k + 1 < n ∧ dayStart first (k + 1) ≤ t ∧
        t ≤ addDay (dayStart first (k + 1)))
    rw [if_pos ⟨by omega, hin⟩] at hcount
    obtain ⟨x, hx⟩ := List.length_eq_one_iff.mp hcount
    rw [hx, List.mem_singleton] at hk' hnext'
    omega
  · -- It is behind the last day and should not be fetched at all.
    rw [if_neg fun h => hin h.2] at hcount
    rw [List.length_eq_zero_iff.mp hcount] at hk'
    exact List.not_mem_nil hk'

/-- A timestamp that its own day does not fetch is not fetched at all. -/
theorem countP_ne_of_unfetched (hday : ∀ d, |addDay d - (d + 86400)| ≤ 43200) {k : ℕ} (hk : k < n)
    (hunfetched : addDay (dayStart first k) < t) (hin : t < dayStart first k + 86400) :
    ((List.range n).countP fun k => dayStart first k ≤ t ∧ t ≤ addDay (dayStart first k)) ≠
      if first ≤ t ∧ t < dayStart first n then 1 else 0 := by
  intro hcount
  have hfirst : ∀ j, dayStart first j = first + 86400 * j := fun _ => rfl
  have hstart := hfirst k
  have hlast := hfirst n
  have hend := addDay_bounds hday (dayStart first k)
  rw [List.countP_eq_length_filter, if_pos (by omega)] at hcount
  obtain ⟨x, hx⟩ := List.length_eq_one_iff.mp hcount
  obtain ⟨-, hbegun, hfetched⟩ := mem_fetched_iff.mp (hx ▸ List.mem_singleton_self x)
  have hother := hfirst x
  have hotherEnd := addDay_bounds hday (dayStart first x)
  -- An earlier day ends before the timestamp, and a later one starts behind it.
  rcases lt_trichotomy x k with hlt | rfl | hgt
  · omega
  · omega
  · omega

/-- **Being counted once.** With days that end in their order, a timestamp is fetched once if and
only if it is fetched for its own day and for no other. -/
theorem countP_eq_iff (hday : ∀ d, |addDay d - (d + 86400)| ≤ 43200) :
    ((List.range n).countP fun k => dayStart first k ≤ t ∧ t ≤ addDay (dayStart first k)) =
        (if first ≤ t ∧ t < dayStart first n then 1 else 0) ↔
      ∀ k < n, ¬ Misplaced addDay (dayStart first k) t := by
  constructor
  · rintro hcount k hk (⟨hbehind, hfetched⟩ | ⟨hunfetched, hin⟩)
    · exact countP_ne_of_behind hday hk hbehind hfetched hcount
    · exact countP_ne_of_unfetched hday hk hunfetched hin hcount
  · intro hplaced
    rw [← countP_dayStart]
    refine List.countP_congr fun k hk => ?_
    have hk' := hplaced k (List.mem_range.mp hk)
    have hend := addDay_bounds hday (dayStart first k)
    rw [Misplaced] at hk'
    simp only [decide_eq_true_eq]
    omega

/-- **When every transaction is counted once.** -/
theorem counted_once_iff (hday : ∀ d, |addDay d - (d + 86400)| ≤ 43200) (txs : List ListedTx)
    (first : ℤ) (n : ℕ) (hrange : ∀ k < n, |dayStart first k| ≤ 8640000000000) :
    CountedOnce addDay txs first n ↔
      ∀ tx ∈ txs, ∀ k < n, ¬ Misplaced addDay (dayStart first k) tx.timestamp := by
  have hfetch : ∀ k ∈ List.range n, fetchTransactions addDay (indexer txs) (dayStart first k) =
      .ok (txs.filter fun tx => dayStart first k ≤ tx.timestamp ∧
        tx.timestamp ≤ addDay (dayStart first k)) := by
    intro k hk
    have hend := abs_le.mp (hday (dayStart first k))
    have hbound := abs_le.mp (hrange k (List.mem_range.mp hk))
    exact fetchTransactions_eq (by omega) (by omega) (by omega)
  -- The lists of the days together are selections from one list.
  have hlists : CountedOnce addDay txs first n ↔ ((List.range n).flatMap fun k =>
      txs.filter fun tx => dayStart first k ≤ tx.timestamp ∧
        tx.timestamp ≤ addDay (dayStart first k)).Perm
      (txs.filter fun tx => first ≤ tx.timestamp ∧ tx.timestamp < dayStart first n) := by
    rw [CountedOnce, mapM_eq_ok_map hfetch]
    simp only [Except.ok.injEq, exists_eq_left', List.flatMap_def]
  rw [hlists, flatMap_filter_perm_iff]
  simp only [decide_eq_true_eq]
  exact forall₂_congr fun tx _ => countP_eq_iff hday

end Days

/-- Two days of UTC, and a transaction in the middle of the second one. -/
theorem counted_once_noon :
    (∀ d : ℤ, |(fun date => date + 86400) d - (d + 86400)| ≤ 43200) ∧
      (∀ k < 2, |dayStart 1704067200 k| ≤ 8640000000000) ∧
      CountedOnce (· + 86400) [⟨"noon", 1704196800⟩] 1704067200 2 := by
  have hday : ∀ d : ℤ, |(fun date => date + 86400) d - (d + 86400)| ≤ 43200 := by simp
  have hrange : ∀ k < 2, |dayStart 1704067200 k| ≤ 8640000000000 := by decide
  refine ⟨hday, hrange, (counted_once_iff hday _ _ _ hrange).mpr fun tx htx k hk => ?_⟩
  rw [List.mem_singleton.mp htx, misplaced_utc, dayStart]
  simp only
  omega

/-- A transaction at the start of a day. -/
def midnightTx : ListedTx := ⟨"midnight", 1704153600⟩

/-- A transaction at midnight is fetched for both days. -/
theorem midnight_counted_twice :
    fetchTransactions (· + 86400) (indexer [midnightTx]) 1704067200 = .ok [midnightTx] ∧
      fetchTransactions (· + 86400) (indexer [midnightTx]) 1704153600 = .ok [midnightTx] ∧
      ¬ CountedOnce (· + 86400) [midnightTx] 1704067200 2 := by
  have hbefore : fetchTransactions (· + 86400) (indexer [midnightTx]) 1704067200 =
      .ok [midnightTx] := fetchTransactions_eq (by decide) (by decide) (by decide)
  have hafter : fetchTransactions (· + 86400) (indexer [midnightTx]) 1704153600 =
      .ok [midnightTx] := fetchTransactions_eq (by decide) (by decide) (by decide)
  refine ⟨hbefore, hafter, ?_⟩
  rintro ⟨lists, hlists, hperm⟩
  have hdays : List.range 2 = [0, 1] := rfl
  have hfirst : dayStart 1704067200 0 = 1704067200 := rfl
  have hsecond : dayStart 1704067200 1 = 1704153600 := rfl
  rw [hdays, List.mapM_cons, List.mapM_cons, List.mapM_nil, hfirst, hsecond, hbefore,
    hafter] at hlists
  obtain rfl := Except.ok.inj hlists
  have hlength := hperm.length_eq
  revert hlength
  decide

end FetchTransactions

end SwaptoshiService
