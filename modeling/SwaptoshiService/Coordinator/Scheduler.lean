import Mathlib.Order.Interval.Finset.Nat
import SwaptoshiService.Lib.Batches

/-!
# Scheduling of missing blocks

`scheduleMissingBlocksIndexing` (`blockchain-coordinator/shared/scheduler.js`) asks the indexer for
the heights it lacks between the last verified height and a bound, in batches that **share their
bounds**, and then applies a second rule: if the counts of `index.status` leave a few heights
unaccounted for, the **last** heights of the chain are scheduled as well. The block message queue
gets all of them, in ascending order.

`missing_blocks_scheduled_iff` says for which indexes every missing height of the range is
scheduled once and nothing else is.
-/

namespace SwaptoshiService

/-- The part of the answer of `index.status` that is read. -/
structure IndexStatus where
  chainLength : ℤ
  numBlocksIndexed : ℕ
  lastBlockHeight : ℕ

/-- What one run gets from the indexer and from the queue. -/
structure IndexerAnswers where
  isGenesisBlockIndexed : Bool
  /-- `getLiveIndexingJobCount()`. -/
  liveIndexingJobCount : ℕ
  /-- `getIndexVerifiedHeight()`; a failed request is `null`. -/
  indexVerifiedHeight : Option ℕ
  /-- `getMissingBlocks(from, to)`; anything but an array is `none`. -/
  getMissingBlocks : ℕ → ℕ → Option (List ℕ)
  /-- `getIndexStatus()`; a failed request is `null`. -/
  getIndexStatus : Option IndexStatus

/-- `config.job.indexMissingBlocks`. -/
structure IndexMissingBlocksConfig where
  skipThreshold : ℕ := 1000
  maxBlocksToSchedule : ℕ := 25000

/-- `MAX_BATCH_SIZE`. -/
def maxBatchSize : ℕ := 15000

/-- `MAX_QUERY_RANGE`. -/
def maxQueryRange : ℕ := 10000

/-- `scheduleBlocksIndexing(heights)`: the heights that are added to the block message queue, in
this order. Between two batches the function waits until few jobs are in progress. -/
def scheduleBlocksIndexing (heights : List ℕ) : List ℕ :=
  let blockHeights := heights.mergeSort (· ≤ ·)
  (List.range (numBatches blockHeights.length maxBatchSize)).flatMap fun i =>
    (blockHeights.drop (i * maxBatchSize)).take maxBatchSize

/-- `lastVerifiedHeight`; zero and `null` stand for the genesis height. -/
def lastVerifiedHeight (answers : IndexerAnswers) (genesisHeight : ℕ) : ℕ :=
  match answers.indexVerifiedHeight with
  | none => genesisHeight
  | some 0 => genesisHeight
  | some height => height

/-- The heights that the batches of the range report as missing. -/
def missingBlocksByHeight (answers : IndexerAnswers) (lowerRange higherRange : ℕ) : List ℕ :=
  (List.range (numBatches (higherRange - lowerRange) maxQueryRange)).flatMap fun i =>
    (answers.getMissingBlocks (lowerRange + i * maxQueryRange)
      (batchEnd lowerRange higherRange maxQueryRange i)).getD []

/-- The last `n` heights of the chain, if `n` is positive and at most a hundred. -/
def tinyGap (n : ℤ) (lastBlockHeight : ℕ) : List ℕ :=
  if 0 < n ∧ n ≤ 100 then List.range' (lastBlockHeight + 1 - n.toNat) n.toNat else []

/-- What the check for tiny gaps adds to the missing heights found. -/
def stillMissing (answers : IndexerAnswers) (missing : List ℕ) : List ℕ :=
  match answers.getIndexStatus with
  | none => []
  | some status =>
    tinyGap (status.chainLength - status.numBlocksIndexed - missing.length)
      status.lastBlockHeight

/-- `scheduleMissingBlocksIndexing()`: the heights added to the queue. -/
def scheduleMissingBlocksIndexing (config : IndexMissingBlocksConfig) (answers : IndexerAnswers)
    (genesisHeight currentHeight : ℕ) : List ℕ :=
  if !answers.isGenesisBlockIndexed then []
  else if answers.liveIndexingJobCount > config.skipThreshold then []
  else
    let lowerRange := lastVerifiedHeight answers genesisHeight
    let higherRange := min (lowerRange + config.maxBlocksToSchedule) currentHeight
    let missing := missingBlocksByHeight answers lowerRange higherRange
    let heights := missing ++ stillMissing answers missing
    -- An empty list is logged and not scheduled.
    if heights.length ≠ 0 then scheduleBlocksIndexing heights else []

/-! ### What is asked of a run -/

/-- The indexer tells the truth about the indexed heights. -/
structure IndexerAnswers.Truthful (answers : IndexerAnswers) (indexed : Finset ℕ)
    (genesisHeight currentHeight : ℕ) : Prop where
  missing : ∀ lo hi, ∃ heights, answers.getMissingBlocks lo hi = some heights ∧ heights.Nodup ∧
    ∀ h, h ∈ heights ↔ (lo ≤ h ∧ h ≤ hi) ∧ h ∉ indexed
  status : answers.getIndexStatus =
    some ⟨(currentHeight : ℤ) - genesisHeight + 1, indexed.card, currentHeight⟩

/-- Every missing height of the range is scheduled, none twice, and no height that is indexed or
above the chain. -/
def SchedulesMissing (indexed : Finset ℕ) (lo hi currentHeight : ℕ) (heights : List ℕ) : Prop :=
  (∀ h, lo ≤ h → h ≤ hi → h ∉ indexed → h ∈ heights) ∧ heights.Nodup ∧
    ∀ h ∈ heights, h ∉ indexed ∧ h ≤ currentHeight

/-- The heights of the chain that are neither indexed nor missing in the range. -/
def missingElsewhere (indexed : Finset ℕ) (genesisHeight lo hi currentHeight : ℕ) : ℤ :=
  (currentHeight : ℤ) - genesisHeight + 1 - indexed.card -
    (if lo < hi then ((Finset.Icc lo hi).filter (· ∉ indexed)).card else 0)

/-- The bounds between two batches are indexed; the heights that the tiny gap rule takes are missing
and lie above the range; and a range of one height has nothing missing that the rule does not
take. -/
structure Schedulable (indexed : Finset ℕ) (genesisHeight lo hi currentHeight : ℕ) : Prop where
  bounds : ∀ k, 0 < k → lo + k * maxQueryRange < hi → lo + k * maxQueryRange ∈ indexed
  gap : ∀ h ∈ tinyGap (missingElsewhere indexed genesisHeight lo hi currentHeight) currentHeight,
    h ∉ indexed ∧ (lo < hi → hi < h)
  point : lo < hi ∨ lo ∈ indexed ∨
    lo ∈ tinyGap (missingElsewhere indexed genesisHeight lo hi currentHeight) currentHeight

/-! ### The queue -/

/-- The queue gets every height as often as it is listed. -/
theorem scheduleBlocksIndexing_perm (heights : List ℕ) :
    (scheduleBlocksIndexing heights).Perm heights := by
  have hslices : scheduleBlocksIndexing heights = heights.mergeSort (· ≤ ·) :=
    flatMap_slices _ (by decide)
  rw [hslices]
  exact List.mergeSort_perm heights _

theorem mem_tinyGap {n : ℤ} {last h : ℕ} (hn : n ≤ last + 1) :
    h ∈ tinyGap n last ↔ (0 < n ∧ n ≤ 100) ∧ (last : ℤ) - n < h ∧ h ≤ last := by
  rw [tinyGap]
  split
  · rename_i hfires
    rw [List.mem_range'_1]
    omega
  · rename_i hfires
    simp [hfires]

theorem nodup_tinyGap (n : ℤ) (last : ℕ) : (tinyGap n last).Nodup := by
  rw [tinyGap]
  split
  · exact List.nodup_range'
  · exact List.nodup_nil

/-! ### The batches of the range -/

section Batches

variable {answers : IndexerAnswers} {indexed : Finset ℕ} {genesisHeight currentHeight lo hi : ℕ}

private theorem maxQueryRange_pos : 0 < maxQueryRange := by decide

/-- A range of one height makes no batch. -/
private theorem missingBlocksByHeight_point (h : ¬ lo < hi) :
    missingBlocksByHeight answers lo hi = [] := by
  have hzero : hi - lo = 0 := by omega
  rw [missingBlocksByHeight, hzero]
  rfl

/-- The answer for one batch. -/
private theorem Truthful.mem_batch (h : answers.Truthful indexed genesisHeight currentHeight)
    {a b x : ℕ} :
    x ∈ (answers.getMissingBlocks a b).getD [] ↔ (a ≤ x ∧ x ≤ b) ∧ x ∉ indexed := by
  obtain ⟨heights, hans, -, hmem⟩ := h.missing a b
  rw [hans, Option.getD_some, hmem]

private theorem Truthful.nodup_batch (h : answers.Truthful indexed genesisHeight currentHeight)
    (a b : ℕ) : ((answers.getMissingBlocks a b).getD []).Nodup := by
  obtain ⟨heights, hans, hnodup, -⟩ := h.missing a b
  rwa [hans, Option.getD_some]

/-- The batches find what is missing. -/
private theorem mem_missingBlocksByHeight
    (h : answers.Truthful indexed genesisHeight currentHeight) (hlt : lo < hi) {x : ℕ} :
    x ∈ missingBlocksByHeight answers lo hi ↔ (lo ≤ x ∧ x ≤ hi) ∧ x ∉ indexed := by
  rw [missingBlocksByHeight, List.mem_flatMap, ← exists_batch_iff maxQueryRange_pos hlt]
  simp only [List.mem_range, Truthful.mem_batch h]
  constructor
  · rintro ⟨i, hi', hx, hmissing⟩
    exact ⟨⟨i, hi', hx⟩, hmissing⟩
  · rintro ⟨⟨i, hi', hx⟩, hmissing⟩
    exact ⟨i, hi', hx, hmissing⟩

/-- A height comes twice exactly when it is a bound between two batches. -/
private theorem nodup_missingBlocksByHeight_iff
    (h : answers.Truthful indexed genesisHeight currentHeight) :
    (missingBlocksByHeight answers lo hi).Nodup ↔
      ∀ k, 0 < k → lo + k * maxQueryRange < hi → lo + k * maxQueryRange ∈ indexed := by
  rw [missingBlocksByHeight, List.nodup_flatMap]
  constructor
  · rintro ⟨-, hdisjoint⟩ k hk hlt
    by_contra hmissing
    -- The bound ends one batch and begins the next.
    obtain ⟨m, rfl⟩ : ∃ m, k = m + 1 := Nat.exists_eq_succ_of_ne_zero (by omega)
    have hlast : m + 1 < numBatches (hi - lo) maxQueryRange := by
      rw [lt_numBatches_iff maxQueryRange_pos]
      omega
    rw [List.pairwise_iff_getElem] at hdisjoint
    have hpair := hdisjoint m (m + 1) (by simp; omega) (by simpa using hlast) (by omega)
    simp only [Function.onFun, List.getElem_range] at hpair
    refine hpair (a := lo + (m + 1) * maxQueryRange) ?_ ?_
    · rw [Truthful.mem_batch h, batchEnd, Nat.succ_mul]
      rw [Nat.succ_mul] at hlt hmissing
      refine ⟨⟨?_, ?_⟩, hmissing⟩
      · omega
      · rw [le_min_iff]
        omega
    · rw [Truthful.mem_batch h, batchEnd]
      refine ⟨⟨le_refl _, ?_⟩, hmissing⟩
      rw [le_min_iff]
      omega
  · intro hbounds
    refine ⟨fun i _ => Truthful.nodup_batch h _ _, ?_⟩
    rw [List.pairwise_iff_getElem]
    intro i j hi' hj' hij x hxi hxj
    simp only [List.getElem_range, List.length_range] at hxi hxj hj'
    rw [Truthful.mem_batch h] at hxi hxj
    obtain ⟨rfl, hx⟩ := eq_bound_of_mem_two maxQueryRange_pos hij hxi.1.2 hxj.1.1
    have hlt : lo + (i + 1) * maxQueryRange < hi := by
      rw [lt_numBatches_iff maxQueryRange_pos] at hj'
      omega
    exact hxj.2 (hx ▸ hbounds (i + 1) (Nat.succ_pos i) hlt)

/-- Without repetition the batches report as many heights as are missing in the range. -/
private theorem length_missingBlocksByHeight
    (h : answers.Truthful indexed genesisHeight currentHeight)
    (hnodup : (missingBlocksByHeight answers lo hi).Nodup) :
    (missingBlocksByHeight answers lo hi).length =
      if lo < hi then ((Finset.Icc lo hi).filter (· ∉ indexed)).card else 0 := by
  split
  · rename_i hlt
    rw [← List.toFinset_card_of_nodup hnodup]
    congr 1
    ext x
    rw [List.mem_toFinset, mem_missingBlocksByHeight h hlt, Finset.mem_filter, Finset.mem_Icc]
  · rename_i hlt
    rw [missingBlocksByHeight_point hlt, List.length_nil]

/-- When no height is reported twice, only the tiny gap rule can go wrong. -/
private theorem schedulesMissing_append_iff
    (h : answers.Truthful indexed genesisHeight currentHeight) (hle : lo ≤ hi)
    (hcurrent : hi ≤ currentHeight) (hnodup : (missingBlocksByHeight answers lo hi).Nodup) {n : ℤ}
    (hn : n ≤ currentHeight + 1) :
    SchedulesMissing indexed lo hi currentHeight
        (missingBlocksByHeight answers lo hi ++ tinyGap n currentHeight) ↔
      (∀ x ∈ tinyGap n currentHeight, x ∉ indexed ∧ (lo < hi → hi < x)) ∧
        (lo < hi ∨ lo ∈ indexed ∨ lo ∈ tinyGap n currentHeight) := by
  constructor
  · rintro ⟨hall, hboth, hright⟩
    have hdisjoint := (List.nodup_append'.mp hboth).2.2
    constructor
    · intro x hx
      refine ⟨(hright x (List.mem_append_right _ hx)).1, fun hlt => ?_⟩
      by_contra hxhi
      -- The gap reaches down into the range, so it holds the end of the range.
      obtain ⟨hfires, hlow, -⟩ := (mem_tinyGap hn).mp hx
      have hend : hi ∈ tinyGap n currentHeight := (mem_tinyGap hn).mpr ⟨hfires, by omega, hcurrent⟩
      have hmissing : hi ∉ indexed := (hright hi (List.mem_append_right _ hend)).1
      exact hdisjoint ((mem_missingBlocksByHeight h hlt).mpr ⟨⟨hle, le_refl hi⟩, hmissing⟩) hend
    · by_cases hlt : lo < hi
      · exact .inl hlt
      · by_cases hlo : lo ∈ indexed
        · exact .inr (.inl hlo)
        · have hmem := hall lo (le_refl lo) hle hlo
          rw [missingBlocksByHeight_point hlt, List.nil_append] at hmem
          exact .inr (.inr hmem)
  · rintro ⟨hgap, hpoint⟩
    refine ⟨fun x hlo hhi hx => ?_, ?_, fun x hx => ?_⟩
    · by_cases hlt : lo < hi
      · exact List.mem_append_left _ ((mem_missingBlocksByHeight h hlt).mpr ⟨⟨hlo, hhi⟩, hx⟩)
      · obtain rfl : x = lo := by omega
        rcases hpoint with hpoint | hpoint | hpoint
        · exact absurd hpoint hlt
        · exact absurd hpoint hx
        · exact List.mem_append_right _ hpoint
    · refine List.nodup_append'.mpr ⟨hnodup, nodup_tinyGap n currentHeight, fun x hx hx' => ?_⟩
      by_cases hlt : lo < hi
      · have hrange := ((mem_missingBlocksByHeight h hlt).mp hx).1
        have habove := (hgap x hx').2 hlt
        omega
      · rw [missingBlocksByHeight_point hlt] at hx
        exact absurd hx List.not_mem_nil
    · rcases List.mem_append.mp hx with hx | hx
      · by_cases hlt : lo < hi
        · obtain ⟨hrange, hmissing⟩ := (mem_missingBlocksByHeight h hlt).mp hx
          exact ⟨hmissing, by omega⟩
        · rw [missingBlocksByHeight_point hlt] at hx
          exact absurd hx List.not_mem_nil
      · exact ⟨(hgap x hx).1, ((mem_tinyGap hn).mp hx).2.2⟩

end Batches

private theorem schedulesMissing_perm {indexed : Finset ℕ} {lo hi currentHeight : ℕ}
    {heights heights' : List ℕ} (hp : heights.Perm heights') :
    SchedulesMissing indexed lo hi currentHeight heights ↔
      SchedulesMissing indexed lo hi currentHeight heights' := by
  simp only [SchedulesMissing, hp.mem_iff, hp.nodup_iff]

/-- A run that is not skipped adds the missing heights of the range and those of the tiny gap. -/
private theorem scheduleMissingBlocksIndexing_perm {config : IndexMissingBlocksConfig}
    {answers : IndexerAnswers} {genesisHeight currentHeight lo hi : ℕ}
    (hgenesis : answers.isGenesisBlockIndexed = true)
    (hjobs : answers.liveIndexingJobCount ≤ config.skipThreshold)
    (hlo : lastVerifiedHeight answers genesisHeight = lo)
    (hhi : min (lo + config.maxBlocksToSchedule) currentHeight = hi) :
    (scheduleMissingBlocksIndexing config answers genesisHeight currentHeight).Perm
      (missingBlocksByHeight answers lo hi ++
        stillMissing answers (missingBlocksByHeight answers lo hi)) := by
  subst hlo hhi
  rw [scheduleMissingBlocksIndexing, if_neg (by simp [hgenesis]), if_neg (Nat.not_lt.mpr hjobs)]
  dsimp only
  split
  · exact scheduleBlocksIndexing_perm _
  · rename_i hempty
    rw [List.eq_nil_of_length_eq_zero (not_not.mp hempty)]

/-- **Missing blocks are scheduled**, each once and nothing else, exactly when the bounds of the
batches are indexed and the tiny gap rule takes only missing heights above the range. -/
theorem missing_blocks_scheduled_iff {config : IndexMissingBlocksConfig} {answers : IndexerAnswers}
    {indexed : Finset ℕ} {genesisHeight currentHeight : ℕ}
    (htrue : answers.Truthful indexed genesisHeight currentHeight)
    (hgenesis : answers.isGenesisBlockIndexed = true)
    (hjobs : answers.liveIndexingJobCount ≤ config.skipThreshold)
    (hverified : lastVerifiedHeight answers genesisHeight ≤ currentHeight) :
    let lo := lastVerifiedHeight answers genesisHeight
    let hi := min (lo + config.maxBlocksToSchedule) currentHeight
    SchedulesMissing indexed lo hi currentHeight
        (scheduleMissingBlocksIndexing config answers genesisHeight currentHeight) ↔
      Schedulable indexed genesisHeight lo hi currentHeight := by
  intro lo hi
  have hle : lo ≤ hi := le_min (Nat.le_add_right lo _) hverified
  have hcurrent : hi ≤ currentHeight := min_le_right _ _
  set missing := missingBlocksByHeight answers lo hi with hmissing
  set n : ℤ := (currentHeight : ℤ) - genesisHeight + 1 - indexed.card - missing.length with hn
  have hgap : stillMissing answers missing = tinyGap n currentHeight := by
    rw [stillMissing, htrue.status]
  have hperm : (scheduleMissingBlocksIndexing config answers genesisHeight currentHeight).Perm
      (missing ++ tinyGap n currentHeight) :=
    hgap ▸ scheduleMissingBlocksIndexing_perm hgenesis hjobs rfl rfl
  have hcount : missing.Nodup → n = missingElsewhere indexed genesisHeight lo hi currentHeight := by
    intro hnodup
    rw [hn, missingElsewhere, hmissing, length_missingBlocksByHeight htrue hnodup]
  rw [schedulesMissing_perm hperm]
  constructor
  · intro h
    have hnodup : missing.Nodup := (List.nodup_append'.mp h.2.1).1
    obtain ⟨htiny, hpoint⟩ :=
      (schedulesMissing_append_iff htrue hle hcurrent hnodup (by omega)).mp h
    rw [hcount hnodup] at htiny hpoint
    exact ⟨(nodup_missingBlocksByHeight_iff htrue).mp hnodup, htiny, hpoint⟩
  · rintro ⟨hbounds, htiny, hpoint⟩
    have hnodup : missing.Nodup := (nodup_missingBlocksByHeight_iff htrue).mpr hbounds
    rw [← hcount hnodup] at htiny hpoint
    exact (schedulesMissing_append_iff htrue hle hcurrent hnodup (by omega)).mpr ⟨htiny, hpoint⟩

/-! ### Two chains -/

/-- An indexer that answers from a set of indexed heights. -/
def answersFrom (indexed : Finset ℕ) (genesisHeight currentHeight : ℕ)
    (indexVerifiedHeight : Option ℕ) : IndexerAnswers where
  isGenesisBlockIndexed := true
  liveIndexingJobCount := 0
  indexVerifiedHeight
  getMissingBlocks lo hi := some ((List.range' lo (hi + 1 - lo)).filter (· ∉ indexed))
  getIndexStatus := some ⟨(currentHeight : ℤ) - genesisHeight + 1, indexed.card, currentHeight⟩

private theorem truthful_answersFrom (indexed : Finset ℕ) (genesisHeight currentHeight : ℕ)
    (verified : Option ℕ) :
    (answersFrom indexed genesisHeight currentHeight verified).Truthful indexed genesisHeight
      currentHeight := by
  refine ⟨fun lo hi => ⟨_, rfl, List.Nodup.filter _ List.nodup_range', fun h => ?_⟩, rfl⟩
  rw [List.mem_filter, List.mem_range'_1, decide_eq_true_iff]
  refine and_congr_left fun _ => ?_
  omega

/-- Heights 2 and 4 are missing and get scheduled. -/
theorem missing_blocks_scheduled_two_four :
    SchedulesMissing {0, 1, 3} 0 4 4
      (scheduleMissingBlocksIndexing {} (answersFrom {0, 1, 3} 0 4 none) 0 4) := by
  have hiff := @missing_blocks_scheduled_iff {} _ _ _ _
    (truthful_answersFrom {0, 1, 3} 0 4 none) rfl
    (Nat.zero_le _) (Nat.zero_le _)
  have hlo : lastVerifiedHeight (answersFrom {0, 1, 3} 0 4 none) 0 = 0 := rfl
  have hhi : min (0 + ({} : IndexMissingBlocksConfig).maxBlocksToSchedule) 4 = 4 := by decide
  simp only [hlo, hhi] at hiff
  refine hiff.mpr ⟨fun k hk hlt => ?_, by decide, .inl (by decide)⟩
  have hsmall : maxQueryRange ≤ k * maxQueryRange := Nat.le_mul_of_pos_left _ hk
  have hrange : maxQueryRange = 10000 := rfl
  omega

/-- Only height 10000 is missing, the bound between the two batches: it is scheduled twice. -/
theorem boundary_block_scheduled_twice :
    ¬ ∀ (config : IndexMissingBlocksConfig) (answers : IndexerAnswers) (indexed : Finset ℕ)
        (genesisHeight currentHeight : ℕ),
      answers.Truthful indexed genesisHeight currentHeight →
      answers.isGenesisBlockIndexed = true →
      answers.liveIndexingJobCount ≤ config.skipThreshold →
      lastVerifiedHeight answers genesisHeight ≤ currentHeight →
      SchedulesMissing indexed (lastVerifiedHeight answers genesisHeight)
        (min (lastVerifiedHeight answers genesisHeight + config.maxBlocksToSchedule) currentHeight)
        currentHeight
        (scheduleMissingBlocksIndexing config answers genesisHeight currentHeight) := by
  intro h
  let indexed := (Finset.range 20001).erase 10000
  let answers := answersFrom indexed 0 20000 none
  have htrue := truthful_answersFrom indexed 0 20000 none
  have hall := h {} answers indexed 0 20000 htrue rfl (Nat.zero_le _) (Nat.zero_le _)
  have hhi : min (0 + ({} : IndexMissingBlocksConfig).maxBlocksToSchedule) 20000 = 20000 :=
    Nat.min_eq_right (by decide)
  have hperm := @scheduleMissingBlocksIndexing_perm {} answers 0 20000 0 20000 rfl (Nat.zero_le _)
    rfl hhi
  have hnodup : (missingBlocksByHeight answers 0 20000).Nodup :=
    (List.nodup_append'.mp (hperm.nodup_iff.mp hall.2.1)).1
  have hbound := (nodup_missingBlocksByHeight_iff htrue).mp hnodup 1 Nat.one_pos (by decide)
  exact Finset.notMem_erase 10000 _ hbound

end SwaptoshiService
