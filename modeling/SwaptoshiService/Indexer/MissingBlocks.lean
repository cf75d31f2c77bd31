import Mathlib.Data.Finset.Sort
import Mathlib.Order.Interval.Finset.Nat
import SwaptoshiService.Lib.Batches

/-!
# Which heights are missing

`getMissingBlocks` (`indexer/blockchainIndex.js`) lists the heights of a range that have no row in
the table `blocks`. A range with enough rows is worked through in batches of 25000 heights; the
query of a batch looks for the indexed heights **strictly inside** the batch whose predecessor is
not indexed, and reports everything from the next indexed height below, wherever that is, up to
the predecessor.

What is reported is never indexed and never reported twice, in any range (`nodup_missingHeights`,
`missing_of_reported`). But a gap that ends right below the end of a batch is not seen, the
heights above the last indexed one are not either, and the gap at the start of the range may reach
below the range. `missing_blocks_exact_iff` says exactly when the answer is right.
-/

namespace SwaptoshiService

/-- `range(start, end)` with the default step; `none` is the thrown `Invalid array length`. -/
def range (start stop : ℕ) : Option (List ℕ) :=
  let (start, stop) := if stop = 0 then (0, start) else (start, stop)
  if stop < start then none else some (List.range' start (stop - start))

/-- A row `{ from, to }` of the answer. -/
structure MissingRange where
  fromHeight : ℕ
  toHeight : ℕ
  deriving DecidableEq, Repr

/-- `BATCH_SIZE`. -/
def missingBatchSize : ℕ := 25000

/-- `blocksTable.count({ propBetweens })` of a range of heights. -/
def indexedBlockCount (indexed : Finset ℕ) (fromHeight toHeight : ℕ) : ℕ :=
  (indexed.filter fun h => fromHeight ≤ h ∧ h ≤ toHeight).card

/-- `SELECT COALESCE(MAX(b0.height + 1), start) FROM blocks b0 WHERE b0.height < h`. -/
def afterIndexed (indexed : Finset ℕ) (start h : ℕ) : ℕ :=
  ((indexed.filter (· < h)).image (· + 1)).max.unbotD start

/-- The heights `b1` that `missingBlocksQueryStatement` selects. -/
def gapEnds (indexed : Finset ℕ) (batchStartHeight batchEndHeight : ℕ) : Finset ℕ :=
  indexed.filter fun h => (batchStartHeight + 1 ≤ h ∧ h ≤ batchEndHeight) ∧ h ≠ batchEndHeight ∧
    h - 1 ∉ indexed

/-- `rawQuery(missingBlocksQueryStatement)`, in the order of the primary key. -/
def missingBlockRanges (indexed : Finset ℕ) (batchStartHeight batchEndHeight : ℕ) :
    List MissingRange :=
  ((gapEnds indexed batchStartHeight batchEndHeight).sort (· ≤ ·)).map fun h =>
    ⟨afterIndexed indexed batchStartHeight h, h - 1⟩

/-- `findMissingBlocksInRange(fromHeight, toHeight)`. -/
def findMissingBlocksInRange (indexed : Finset ℕ) (fromHeight toHeight : ℕ) : List MissingRange :=
  let totalNumOfBlocks := toHeight + 1 - fromHeight
  if indexedBlockCount indexed fromHeight toHeight < 3 then [⟨fromHeight, toHeight⟩]
  else if indexedBlockCount indexed fromHeight toHeight ≠ totalNumOfBlocks then
    (List.range (numBatches (toHeight - fromHeight) missingBatchSize)).flatMap fun i =>
      missingBlockRanges indexed (fromHeight + i * missingBatchSize)
        (batchEnd fromHeight toHeight missingBatchSize i)
  else []

/-- `getMissingBlocks({ from, to })`. -/
def getMissingBlocks (indexed : Finset ℕ) (fromHeight toHeight : ℕ) : Option (List ℕ) := do
  let nestedListOfRanges ← (findMissingBlocksInRange indexed fromHeight toHeight).mapM
    fun entry => range entry.fromHeight (entry.toHeight + 1)
  return nestedListOfRanges.flatten

/-! ### What is asked of the answer -/

/-- Each missing height of the range once, and nothing else. -/
def ListsMissing (indexed : Finset ℕ) (lo hi : ℕ) (heights : List ℕ) : Prop :=
  heights.Nodup ∧ ∀ h, h ∈ heights ↔ (lo ≤ h ∧ h ≤ hi) ∧ h ∉ indexed

/-- The last height is indexed; no gap ends right below the end of a batch; and the first gap starts
with the range, with an indexed height right below it or with none at all below its end, which is
then in the first batch. -/
structure GapsInSight (indexed : Finset ℕ) (lo hi : ℕ) : Prop where
  last : hi ∈ indexed
  ends : ∀ i < numBatches (hi - lo) missingBatchSize,
    batchEnd lo hi missingBatchSize i ∈ indexed → batchEnd lo hi missingBatchSize i - 1 ∈ indexed
  first : lo ∈ indexed ∨ (0 < lo ∧ lo - 1 ∈ indexed) ∨
    ((∀ h ∈ indexed, lo < h) ∧ ∃ h ∈ indexed, h ≤ lo + missingBatchSize)

section MissingBlocks

variable {indexed : Finset ℕ} {lo hi s e h b b' i j : ℕ}

private theorem missingBatchSize_pos : 0 < missingBatchSize := by decide

/-! ### One gap -/

theorem afterIndexed_le_iff :
    afterIndexed indexed s b ≤ h ↔
      (∀ b₀ ∈ indexed, b₀ < b → b₀ < h) ∧ ((∀ b₀ ∈ indexed, b ≤ b₀) → s ≤ h) := by
  rw [afterIndexed]
  rcases ((indexed.filter (· < b)).image (· + 1)).eq_empty_or_nonempty with hempty | hsome
  · have hbelow : ∀ b₀ ∈ indexed, b ≤ b₀ := by
      intro b₀ hb₀
      by_contra hlt
      have hmem : b₀ + 1 ∈ (indexed.filter (· < b)).image (· + 1) :=
        Finset.mem_image_of_mem _ (Finset.mem_filter.mpr ⟨hb₀, by omega⟩)
      simp [hempty] at hmem
    rw [hempty, Finset.max_empty, WithBot.unbotD_bot]
    refine ⟨fun hs => ⟨fun b₀ hb₀ hlt => ?_, fun _ => hs⟩, fun hs => hs.2 hbelow⟩
    have := hbelow b₀ hb₀
    omega
  · obtain ⟨m, hm⟩ := Finset.max_of_nonempty hsome
    obtain ⟨b₁, hb₁, rfl⟩ := Finset.mem_image.mp (Finset.mem_of_max hm)
    obtain ⟨hb₁, hlt₁⟩ := Finset.mem_filter.mp hb₁
    rw [hm, WithBot.unbotD_coe]
    refine ⟨fun hle => ⟨fun b₀ hb₀ hlt => ?_, fun hnone => ?_⟩, fun hs => hs.1 b₁ hb₁ hlt₁⟩
    · have hmem : b₀ + 1 ∈ (indexed.filter (· < b)).image (· + 1) :=
        Finset.mem_image_of_mem _ (Finset.mem_filter.mpr ⟨hb₀, hlt⟩)
      have := Finset.le_max_of_eq hmem hm
      omega
    · have := hnone b₁ hb₁
      omega

theorem mem_gapEnds :
    b ∈ gapEnds indexed s e ↔ b ∈ indexed ∧ (s < b ∧ b < e) ∧ b - 1 ∉ indexed := by
  rw [gapEnds, Finset.mem_filter]
  constructor
  · rintro ⟨hb, ⟨hlo, hhi⟩, hne, hgap⟩
    exact ⟨hb, ⟨by omega, by omega⟩, hgap⟩
  · rintro ⟨hb, ⟨hlo, hhi⟩, hgap⟩
    exact ⟨hb, ⟨by omega, by omega⟩, by omega, hgap⟩

/-- The heights of the gap below `b`, as the batch that starts at `s` reports them. -/
def gapBelow (indexed : Finset ℕ) (s b : ℕ) : List ℕ :=
  List.range' (afterIndexed indexed s b) (b - afterIndexed indexed s b)

theorem mem_gapBelow : h ∈ gapBelow indexed s b ↔ afterIndexed indexed s b ≤ h ∧ h < b := by
  rw [gapBelow, List.mem_range'_1]
  omega

theorem afterIndexed_le (hs : s ≤ b) : afterIndexed indexed s b ≤ b :=
  afterIndexed_le_iff.mpr ⟨fun _ _ hlt => hlt, fun _ => hs⟩

theorem range_gapBelow (hb : b ∈ gapEnds indexed s e) :
    range (afterIndexed indexed s b) (b - 1 + 1) = some (gapBelow indexed s b) := by
  obtain ⟨-, ⟨hs, -⟩, -⟩ := mem_gapEnds.mp hb
  have hle : afterIndexed indexed s b ≤ b := afterIndexed_le hs.le
  have hb1 : b - 1 + 1 = b := by omega
  rw [hb1]
  rw [range]
  rw [if_neg (by omega : b ≠ 0)]
  exact if_neg (by omega)

/-- The gaps below two indexed heights do not meet. -/
theorem gapBelow_disjoint (hb : b ∈ indexed) (hlt : b < b') :
    List.Disjoint (gapBelow indexed s b) (gapBelow indexed e b') := by
  intro h hh hh'
  have hlow := (afterIndexed_le_iff.mp (mem_gapBelow.mp hh').1).1 b hb hlt
  have := (mem_gapBelow.mp hh).2
  omega

/-! ### All batches -/

/-- The start of a batch. -/
def batchStart (lo i : ℕ) : ℕ := lo + i * missingBatchSize

/-- The pairs of a batch and a height that ends a gap inside it. -/
def reportedGaps (indexed : Finset ℕ) (lo hi : ℕ) : List (ℕ × ℕ) :=
  (List.range (numBatches (hi - lo) missingBatchSize)).flatMap fun i =>
    ((gapEnds indexed (batchStart lo i) (batchEnd lo hi missingBatchSize i)).sort (· ≤ ·)).map
      fun b => (batchStart lo i, b)

/-- The heights that the batches report. -/
def missingHeights (indexed : Finset ℕ) (lo hi : ℕ) : List ℕ :=
  (reportedGaps indexed lo hi).flatMap fun g => gapBelow indexed g.1 g.2

theorem mem_reportedGaps {g : ℕ × ℕ} : g ∈ reportedGaps indexed lo hi ↔
    ∃ i < numBatches (hi - lo) missingBatchSize, g.1 = batchStart lo i ∧
      g.2 ∈ gapEnds indexed (batchStart lo i) (batchEnd lo hi missingBatchSize i) := by
  simp only [reportedGaps, List.mem_flatMap, List.mem_range, List.mem_map, Finset.mem_sort]
  constructor
  · rintro ⟨i, hi', b, hb, rfl⟩
    exact ⟨i, hi', rfl, hb⟩
  · rintro ⟨i, hi', hs, hb⟩
    exact ⟨i, hi', g.2, hb, by rw [← hs]⟩

/-- Gaps of a later batch end above those of an earlier one. -/
theorem gapEnd_lt_of_batch_lt (hij : i < j)
    (hb : b ∈ gapEnds indexed (batchStart lo i) (batchEnd lo hi missingBatchSize i))
    (hb' : b' ∈ gapEnds indexed (batchStart lo j) (batchEnd lo hi missingBatchSize j)) :
    b < b' := by
  obtain ⟨-, ⟨-, hend⟩, -⟩ := mem_gapEnds.mp hb
  obtain ⟨-, ⟨hstart, -⟩, -⟩ := mem_gapEnds.mp hb'
  have hle : (i + 1) * missingBatchSize ≤ j * missingBatchSize := Nat.mul_le_mul_right _ hij
  rw [Nat.succ_mul] at hle
  rw [batchStart] at hstart
  rw [batchEnd] at hend
  omega

/-- The reported gaps come in ascending order. -/
theorem pairwise_reportedGaps :
    (reportedGaps indexed lo hi).Pairwise fun g g' => g.2 ∈ indexed ∧ g.2 < g'.2 := by
  rw [reportedGaps, List.pairwise_flatMap]
  refine ⟨fun i _ => ?_, ?_⟩
  · rw [List.pairwise_map]
    refine (Finset.sortedLT_sort _).pairwise.imp_of_mem fun hb _ hlt => ?_
    exact ⟨(mem_gapEnds.mp ((Finset.mem_sort _).mp hb)).1, hlt⟩
  · refine List.pairwise_lt_range.imp fun hij g hg g' hg' => ?_
    obtain ⟨b, hb, rfl⟩ := List.mem_map.mp hg
    obtain ⟨b', hb', rfl⟩ := List.mem_map.mp hg'
    rw [Finset.mem_sort] at hb hb'
    exact ⟨(mem_gapEnds.mp hb).1, gapEnd_lt_of_batch_lt hij hb hb'⟩

/-- **No height is reported twice.** -/
theorem nodup_missingHeights : (missingHeights indexed lo hi).Nodup := by
  rw [missingHeights, List.nodup_flatMap]
  refine ⟨fun g _ => List.nodup_range', ?_⟩
  exact pairwise_reportedGaps.imp fun hlt => gapBelow_disjoint hlt.1 hlt.2

theorem mem_missingHeights : h ∈ missingHeights indexed lo hi ↔
    ∃ i < numBatches (hi - lo) missingBatchSize,
      ∃ b ∈ gapEnds indexed (batchStart lo i) (batchEnd lo hi missingBatchSize i),
        afterIndexed indexed (batchStart lo i) b ≤ h ∧ h < b := by
  simp only [missingHeights, List.mem_flatMap, mem_reportedGaps, mem_gapBelow]
  constructor
  · rintro ⟨⟨s, b⟩, ⟨i, hi', rfl, hb⟩, hh⟩
    exact ⟨i, hi', b, hb, hh⟩
  · rintro ⟨i, hi', b, hb, hh⟩
    exact ⟨(batchStart lo i, b), ⟨i, hi', rfl, hb⟩, hh⟩

/-- **No indexed height is reported**, and none that is not below the end of the range. -/
theorem missing_of_reported (hh : h ∈ missingHeights indexed lo hi) : h ∉ indexed ∧ h < hi := by
  obtain ⟨i, -, b, hb, hlow, hlt⟩ := mem_missingHeights.mp hh
  refine ⟨fun hmem => ?_, ?_⟩
  · have := (afterIndexed_le_iff.mp hlow).1 h hmem hlt
    omega
  · have hend := (mem_gapEnds.mp hb).2.1.2
    rw [batchEnd] at hend
    omega

private theorem mapM_range (gaps : List (ℕ × ℕ))
    (hgaps : ∀ g ∈ gaps, ∃ e, g.2 ∈ gapEnds indexed g.1 e) :
    (gaps.map fun g => (⟨afterIndexed indexed g.1 g.2, g.2 - 1⟩ : MissingRange)).mapM
      (fun entry => range entry.fromHeight (entry.toHeight + 1)) =
        some (gaps.map fun g => gapBelow indexed g.1 g.2) := by
  induction gaps with
  | nil => rfl
  | cons g gaps ih =>
    obtain ⟨e, he⟩ := hgaps g List.mem_cons_self
    rw [List.map_cons, List.mapM_cons, range_gapBelow he,
      ih fun g' hg' => hgaps g' (List.mem_cons_of_mem _ hg')]
    rfl

/-- What `getMissingBlocks` returns once three heights of the range are indexed. -/
theorem getMissingBlocks_eq (hcount : 3 ≤ indexedBlockCount indexed lo hi) :
    getMissingBlocks indexed lo hi =
      some (if indexedBlockCount indexed lo hi ≠ hi + 1 - lo then missingHeights indexed lo hi
        else []) := by
  have hranges : ((List.range (numBatches (hi - lo) missingBatchSize)).flatMap fun i =>
      missingBlockRanges indexed (lo + i * missingBatchSize) (batchEnd lo hi missingBatchSize i)) =
      (reportedGaps indexed lo hi).map fun g =>
        (⟨afterIndexed indexed g.1 g.2, g.2 - 1⟩ : MissingRange) := by
    rw [reportedGaps, List.map_flatMap]
    simp only [List.map_map]
    rfl
  rw [getMissingBlocks, findMissingBlocksInRange, if_neg (by omega)]
  split
  · rw [hranges, mapM_range _ fun g hg => ?_]
    · rfl
    · obtain ⟨i, -, hs, hb⟩ := mem_reportedGaps.mp hg
      exact ⟨_, hs ▸ hb⟩
  · rfl

/-! ### When the answer is right -/

/-- If as many heights are indexed as the range has, all are. -/
private theorem mem_of_count_eq (hcount : indexedBlockCount indexed lo hi = hi + 1 - lo)
    (hlo : lo ≤ h) (hhi : h ≤ hi) : h ∈ indexed := by
  have hsub : (indexed.filter fun h => lo ≤ h ∧ h ≤ hi) ⊆ Finset.Icc lo hi := by
    intro x hx
    exact Finset.mem_Icc.mpr (Finset.mem_filter.mp hx).2
  have heq := Finset.eq_of_subset_of_card_le hsub (by
    rw [Nat.card_Icc]
    exact hcount.ge)
  have hmem : h ∈ indexed.filter fun h => lo ≤ h ∧ h ≤ hi := by
    rw [heq]
    exact Finset.mem_Icc.mpr ⟨hlo, hhi⟩
  exact (Finset.mem_filter.mp hmem).1

/-- Every height above the start lies in one batch, its start excluded. -/
private theorem exists_batch_of_lt (hlo : lo < b) (hhi : b ≤ hi) :
    ∃ i < numBatches (hi - lo) missingBatchSize,
      batchStart lo i < b ∧ b ≤ batchEnd lo hi missingBatchSize i := by
  refine ⟨(b - lo - 1) / missingBatchSize, ?_, ?_, ?_⟩
  · rw [lt_numBatches_iff missingBatchSize_pos]
    have := Nat.div_mul_le_self (b - lo - 1) missingBatchSize
    omega
  · have := Nat.div_mul_le_self (b - lo - 1) missingBatchSize
    rw [batchStart]
    omega
  · have := Nat.lt_div_mul_add missingBatchSize_pos (a := b - lo - 1)
    rw [batchEnd]
    omega

/-- The end of a batch is not strictly inside any batch. -/
private theorem batchEnd_not_inside :
    ¬ (batchStart lo j < batchEnd lo hi missingBatchSize i ∧
      batchEnd lo hi missingBatchSize i < batchEnd lo hi missingBatchSize j) := by
  rintro ⟨hlt, hlt'⟩
  rw [batchStart] at hlt
  rw [batchEnd, batchEnd] at hlt'
  rw [batchEnd] at hlt
  rcases Nat.lt_or_ge i j with hij | hij
  · have hle : (i + 1) * missingBatchSize ≤ j * missingBatchSize := Nat.mul_le_mul_right _ hij
    rw [Nat.succ_mul] at hle
    omega
  · have hle : j * missingBatchSize ≤ i * missingBatchSize := Nat.mul_le_mul_right _ hij
    omega

/-- With every gap in sight, every missing height is reported. -/
theorem GapsInSight.reported (hsight : GapsInSight indexed lo hi) (hlo : lo ≤ h) (hhi : h ≤ hi)
    (hmissing : h ∉ indexed) : h ∈ missingHeights indexed lo hi := by
  -- the gap ends at the least indexed height above
  have hex : ∃ b, b ∈ indexed ∧ h < b := by
    refine ⟨hi, hsight.last, lt_of_le_of_ne hhi fun heq => hmissing ?_⟩
    rw [heq]
    exact hsight.last
  obtain ⟨hb, hlt⟩ := Nat.find_spec hex
  have hleast : ∀ b₀ ∈ indexed, b₀ < Nat.find hex → b₀ < h := by
    intro b₀ hb₀ hbelow
    have hnot := Nat.find_min hex hbelow
    have hne : b₀ ≠ h := fun heq => hmissing (heq ▸ hb₀)
    have : ¬ h < b₀ := fun hh => hnot ⟨hb₀, hh⟩
    omega
  have hbhi : Nat.find hex ≤ hi := by
    refine Nat.find_min' hex ⟨hsight.last, lt_of_le_of_ne hhi fun heq => hmissing ?_⟩
    rw [heq]
    exact hsight.last
  generalize Nat.find hex = b at hb hlt hleast hbhi
  have hgap : b - 1 ∉ indexed := by
    intro hpred
    have := hleast (b - 1) hpred (by omega)
    omega
  obtain ⟨i, hi', hstart, hend⟩ := exists_batch_of_lt (lt_of_le_of_lt hlo hlt) hbhi
  have hinside : b < batchEnd lo hi missingBatchSize i := by
    refine lt_of_le_of_ne hend fun heq => hgap ?_
    rw [heq]
    exact hsight.ends i hi' (heq ▸ hb)
  refine mem_missingHeights.mpr ⟨i, hi', b, mem_gapEnds.mpr ⟨hb, ⟨hstart, hinside⟩, hgap⟩,
    afterIndexed_le_iff.mpr ⟨hleast, fun hnone => ?_⟩, hlt⟩
  -- nothing is indexed below the gap: then it is the first one, in the first batch
  rcases hsight.first with hfirst | ⟨hpos, hfirst⟩ | ⟨-, h', hh', hle⟩
  · have := hnone lo hfirst
    omega
  · have := hnone (lo - 1) hfirst
    omega
  · have hbh' := hnone h' hh'
    have hzero : i = 0 := by
      by_contra hne
      have hle' : 1 * missingBatchSize ≤ i * missingBatchSize :=
        Nat.mul_le_mul_right _ (Nat.one_le_iff_ne_zero.mpr hne)
      rw [batchStart] at hstart
      omega
    rw [hzero, batchStart]
    omega

/-- With every gap in sight, nothing below the range is reported. -/
theorem GapsInSight.le_of_reported (hsight : GapsInSight indexed lo hi)
    (hh : h ∈ missingHeights indexed lo hi) : lo ≤ h := by
  obtain ⟨i, -, b, hb, hlow, -⟩ := mem_missingHeights.mp hh
  obtain ⟨hb, ⟨hstart, -⟩, -⟩ := mem_gapEnds.mp hb
  obtain ⟨hbelow, hnone⟩ := afterIndexed_le_iff.mp hlow
  rw [batchStart] at hstart hnone
  rcases hsight.first with hfirst | ⟨hpos, hfirst⟩ | ⟨habove, -⟩
  · exact (hbelow lo hfirst (by omega)).le
  · have := hbelow (lo - 1) hfirst (by omega)
    omega
  · by_cases hall : ∀ b₀ ∈ indexed, b ≤ b₀
    · have := hnone hall
      omega
    · push Not at hall
      obtain ⟨b₀, hb₀, hlt⟩ := hall
      have := hbelow b₀ hb₀ hlt
      have := habove b₀ hb₀
      omega

/-- If what is reported is right, every gap is in sight. -/
theorem gapsInSight_of_exact (hlt : lo < hi)
    (hexact : ∀ h, h ∈ missingHeights indexed lo hi ↔ (lo ≤ h ∧ h ≤ hi) ∧ h ∉ indexed) :
    GapsInSight indexed lo hi := by
  refine ⟨?_, fun i hi' hend => ?_, ?_⟩
  · by_contra hmissing
    have := (missing_of_reported ((hexact hi).mpr ⟨⟨hlt.le, le_rfl⟩, hmissing⟩)).2
    omega
  · by_contra hmissing
    have hpos : lo < batchEnd lo hi missingBatchSize i := by
      have := missingBatchSize_pos
      rw [batchEnd]
      omega
    have hle : batchEnd lo hi missingBatchSize i ≤ hi := min_le_right _ _
    obtain ⟨j, -, b, hb, hlow, hbelow⟩ := mem_missingHeights.mp
      ((hexact _).mpr ⟨⟨by omega, by omega⟩, hmissing⟩)
    obtain ⟨-, hinside, -⟩ := mem_gapEnds.mp hb
    -- the only height that could end this gap is the end of the batch itself
    have hne : b ≠ batchEnd lo hi missingBatchSize i := by
      rintro rfl
      exact batchEnd_not_inside hinside
    have := (afterIndexed_le_iff.mp hlow).1 _ hend (by omega)
    omega
  · by_contra hnot
    push Not at hnot
    obtain ⟨hlo, hpred, hnone⟩ := hnot
    obtain ⟨i, hi', b, hb, hlow, hbelow⟩ := mem_missingHeights.mp
      ((hexact lo).mpr ⟨⟨le_rfl, hlt.le⟩, hlo⟩)
    obtain ⟨hb', ⟨hstart, hend⟩, -⟩ := mem_gapEnds.mp hb
    obtain ⟨hlow, hfirst⟩ := afterIndexed_le_iff.mp hlow
    have hall : ∀ b₀ ∈ indexed, b ≤ b₀ := by
      intro b₀ hb₀
      by_contra hlt₀
      have hb₀lo := hlow b₀ hb₀ (by omega)
      have hne : b₀ ≠ lo - 1 := fun heq => hpred (by omega) (heq ▸ hb₀)
      -- the height below the range would be reported with the gap
      have hreported : lo - 1 ∈ missingHeights indexed lo hi := by
        refine mem_missingHeights.mpr ⟨i, hi', b, hb, afterIndexed_le_iff.mpr
          ⟨fun b₁ hb₁ hlt₁ => ?_, fun hall => ?_⟩, by omega⟩
        · have := hlow b₁ hb₁ hlt₁
          have : b₁ ≠ lo - 1 := fun heq => hpred (by omega) (heq ▸ hb₁)
          omega
        · have := hall b₀ hb₀
          omega
      have := ((hexact (lo - 1)).mp hreported).1.1
      omega
    have hbatch := hfirst hall
    have hzero : i = 0 := by
      by_contra hne
      have hle' : 1 * missingBatchSize ≤ i * missingBatchSize :=
        Nat.mul_le_mul_right _ (Nat.one_le_iff_ne_zero.mpr hne)
      have := missingBatchSize_pos
      rw [batchStart] at hbatch
      omega
    have hfar := hnone (fun b₀ hb₀ => lt_of_lt_of_le hbelow (hall b₀ hb₀)) b hb'
    rw [hzero, batchEnd] at hend
    omega

/-- **When the missing heights are found.** -/
theorem missing_blocks_exact_iff (hle : lo ≤ hi) (hcount : 3 ≤ indexedBlockCount indexed lo hi) :
    (∃ heights, getMissingBlocks indexed lo hi = some heights ∧
      ListsMissing indexed lo hi heights) ↔ GapsInSight indexed lo hi := by
  have hlt : lo < hi := by
    refine lt_of_le_of_ne hle fun heq => ?_
    have hone : indexedBlockCount indexed lo hi ≤ (Finset.Icc lo hi).card :=
      Finset.card_le_card fun x hx => Finset.mem_Icc.mpr (Finset.mem_filter.mp hx).2
    rw [Nat.card_Icc] at hone
    omega
  rw [getMissingBlocks_eq hcount]
  simp only [Option.some.injEq, exists_eq_left']
  split
  · rename_i hne
    constructor
    · exact fun hlists => gapsInSight_of_exact hlt hlists.2
    · intro hsight
      refine ⟨nodup_missingHeights, fun h => ⟨fun hh => ?_, fun hh => ?_⟩⟩
      · obtain ⟨hmissing, hhi⟩ := missing_of_reported hh
        exact ⟨⟨hsight.le_of_reported hh, hhi.le⟩, hmissing⟩
      · exact hsight.reported hh.1.1 hh.1.2 hh.2
  · rename_i heq
    have hall : ∀ h, lo ≤ h → h ≤ hi → h ∈ indexed := fun h hlo hhi =>
      mem_of_count_eq (not_not.mp heq) hlo hhi
    refine iff_of_true ⟨List.nodup_nil, fun h => ?_⟩ ⟨hall hi hle le_rfl, fun i _ _ => ?_,
      .inl (hall lo le_rfl hle)⟩
    · simp only [List.not_mem_nil, false_iff, not_and, not_not, and_imp]
      exact hall h
    · have hpos := missingBatchSize_pos
      refine hall _ ?_ ?_
      · rw [batchEnd]
        omega
      · rw [batchEnd]
        omega

end MissingBlocks

/-- Heights 1 to 3 and 5 to 6: the gap is in sight. -/
theorem missing_blocks_exact_inner :
    3 ≤ indexedBlockCount {1, 2, 3, 5, 6} 1 6 ∧
      ∃ heights, getMissingBlocks {1, 2, 3, 5, 6} 1 6 = some heights ∧
        ListsMissing {1, 2, 3, 5, 6} 1 6 heights :=
  ⟨by decide, (missing_blocks_exact_iff (by decide) (by decide)).mpr
    ⟨by decide, by decide, by decide⟩⟩

/-- The gap at height 4 ends right below the end of the only batch. -/
theorem missing_block_overlooked :
    ¬ ∀ (indexed : Finset ℕ) (lo hi : ℕ), lo ≤ hi → 3 ≤ indexedBlockCount indexed lo hi →
      ∃ heights, getMissingBlocks indexed lo hi = some heights ∧
        ListsMissing indexed lo hi heights := by
  intro hlists
  obtain ⟨heights, hheights, -, hmem⟩ := hlists {1, 2, 3, 5} 1 5 (by decide) (by decide)
  have hreported : 4 ∈ missingHeights {1, 2, 3, 5} 1 5 := by
    rw [getMissingBlocks_eq (by decide), if_pos (by decide)] at hheights
    rw [Option.some.inj hheights]
    exact (hmem 4).mpr (by decide)
  obtain ⟨i, hi, b, hb, -⟩ := mem_missingHeights.mp hreported
  obtain rfl : i = 0 := Nat.lt_one_iff.mp hi
  have hnone : gapEnds {1, 2, 3, 5} (batchStart 1 0) (batchEnd 1 5 missingBatchSize 0) = ∅ := by
    decide
  rw [hnone] at hb
  exact Finset.notMem_empty b hb

end SwaptoshiService
