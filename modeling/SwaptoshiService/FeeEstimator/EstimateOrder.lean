import Mathlib.Algebra.Order.Ring.Star
import SwaptoshiService.DataService.TransactionsEstimateFees
import SwaptoshiService.Lib.Run

/-!
# The order of the fee estimates

The estimates for one byte are meant to be ordered: low, medium, high. The low one is the smallest
priority of a full block, the medium one an average, the high one at least 1.3 times the medium one
plus 1. But a transaction that covers the window of the medium average is not counted in it, so
that the average of the block is zero (`calculateAvgFeePerByte_of_covered`) and may be **less than
the smallest priority**.

`EstimateStep.ordered_iff`: from an ordered estimate the next one is ordered if and only if the
batch is `Harmless`. `fee_estimates_ordered` follows the estimates through any sequence of batches,
and on to the fees of a transaction.
-/

open Finset

namespace SwaptoshiService

/-- The three levels are in order. -/
structure FeePerByte.Ordered (est : FeePerByte) : Prop where
  low_nonneg : 0 ≤ est.low
  low_le_med : est.low ≤ est.med
  med_le_high : est.med ≤ est.high

/-- The minimum and the three levels are in order. -/
structure DynamicFeeEstimates.Ordered (fees : DynamicFeeEstimates) (minimum : ℕ) : Prop where
  minimum_le_low : minimum ≤ fees.low
  low_le_medium : fees.low ≤ fees.medium
  medium_le_high : fees.medium ≤ fees.high

namespace FeeBlock

/-- The block is large enough to have a low estimate. -/
def Full (block : FeeBlock) : Prop := 12.5 * 2 ^ 10 ≤ (calculateBlockSize block : ℚ)

/-- Some transaction goes beyond the window of the medium estimate on both sides. -/
def WindowCovered (block : FeeBlock) : Prop :=
  ∃ p ∈ placedDetails 0 block.transactionDetails,
    Uncounted CalcAvgFeeByteMode.medium.lowerBytePos CalcAvgFeeByteMode.medium.upperBytePos
      p.1 p.2.size

end FeeBlock

/-- The batch is of blocks that are too empty for an estimate; or its first block is itself not
full; or no transaction covers the window; or some transaction pays so little that the previous
estimates make up for it. -/
def Harmless (rates : FeeRates) (prev : FeePerByte) (input : ℕ × List FeeBlock) : Prop :=
  ∀ block, input.2.head? = some block → blocksFull rates input.2 block → block.Full →
    block.WindowCovered → ∃ tx ∈ block.transactions,
      rates.alpha * tx.details.feePriority ≤ (1 - rates.alpha) * (prev.med - prev.low)

/-- One call of `getEstimateFeePerByteForBlock`, at some time and for some batch. -/
def EstimateStep (rates : FeeRates) (prev : FeePerByte) (input : ℕ × List FeeBlock)
    (est : FeePerByte) : Prop :=
  ∃ e, getEstimateFeePerByteForBlock rates input.1 input.2 (some prev) = some e ∧
    e.toFeePerByte = est

section Order

variable {lower upper start length : ℕ} {txs : List TransactionDetails} {block : FeeBlock}
  {rates : FeeRates} {prev est fp : FeePerByte} {input : ℕ × List FeeBlock}

/-! ### A covered window -/

theorem countedBytes_of_lt (h : upper < start) (hle : lower ≤ upper) :
    countedBytes lower upper start length = 0 := by
  rw [countedBytes]
  split_ifs <;> omega

theorem countedBytes_of_le (h : start + length ≤ lower) (hpos : 0 < length) :
    countedBytes lower upper start length = 0 := by
  rw [countedBytes]
  split_ifs <;> omega

/-- Beside a transaction that covers the window no other one is counted either. -/
theorem countedBytes_of_covered (hle : lower ≤ upper)
    (h : ∃ p ∈ placedDetails start txs, Uncounted lower upper p.1 p.2.size) :
    ∀ p ∈ placedDetails start txs, countedBytes lower upper p.1 p.2.size = 0 := by
  induction txs generalizing start with
  | nil => simp
  | cons tx txs ih =>
    obtain ⟨p, hp, hun⟩ := h
    rcases List.mem_cons.mp hp with rfl | hp
    · -- The others come after the window, or before it.
      refine List.forall_mem_cons.mpr ⟨hun.countedBytes_eq, fun q hq => ?_⟩
      exact countedBytes_of_lt (hun.2.trans_le (Layout.le_of_mem_placed hq)) hle
    · refine List.forall_mem_cons.mpr ⟨countedBytes_of_le ?_ tx.size_pos, ih ⟨p, hp, hun⟩⟩
      exact (Layout.le_of_mem_placed hp).trans hun.1.le

theorem calculateAvgFeePerByte_of_covered (h : block.WindowCovered) :
    calculateAvgFeePerByte .medium block.transactionDetails = 0 := by
  have hzero := countedBytes_of_covered lowerBytePos_le h
  rw [calculateAvgFeePerByte, foldl_addFeePriority, zero_add, List.sum_eq_zero, zero_div]
  intro x hx
  obtain ⟨p, hp, rfl⟩ := List.mem_map.mp hx
  rw [hzero p hp, Nat.cast_zero, zero_mul]

theorem calculateAvgFeePerByte_nonneg (mode : CalcAvgFeeByteMode)
    (txs : List TransactionDetails) : 0 ≤ calculateAvgFeePerByte mode txs := by
  rw [calculateAvgFeePerByte, foldl_addFeePriority, zero_add]
  refine div_nonneg (List.sum_nonneg fun x hx => ?_) (window_pos mode).le
  obtain ⟨p, hp, rfl⟩ := List.mem_map.mp hx
  exact mul_nonneg (Nat.cast_nonneg _) p.2.feePriority_nonneg

/-! ### The estimates of one block -/

/-- The first transaction has the smallest priority. -/
theorem head_transactionDetails_le {first tx : TransactionDetails}
    (h : block.transactionDetails.head? = some first) (htx : tx ∈ block.transactionDetails) :
    first.feePriority ≤ tx.feePriority := by
  have hsorted : block.transactionDetails.Pairwise
      fun t1 t2 => decide (t1.feePriority - t2.feePriority ≤ 0) = true := by
    refine List.pairwise_mergeSort (fun t1 t2 t3 h₁ h₂ => ?_) (fun t1 t2 => ?_) _
    · simp only [decide_eq_true_eq, sub_nonpos] at h₁ h₂ ⊢
      exact h₁.trans h₂
    · simpa using le_total _ _
  obtain ⟨rest, hrest⟩ := List.head?_eq_some_iff.mp h
  rw [hrest] at hsorted htx
  rcases List.mem_cons.mp htx with rfl | htx
  · exact le_rfl
  · simpa using List.rel_of_pairwise_cons hsorted htx

/-- What the low estimate of a block is. -/
theorem low_of_calculateFeePerByte (h : calculateFeePerByte block = some fp) :
    (¬ block.Full ∧ fp.low = 0) ∨ (block.Full ∧ (∃ tx ∈ block.transactions,
      fp.low = tx.details.feePriority) ∧
        ∀ tx ∈ block.transactionDetails, fp.low ≤ tx.feePriority) := by
  obtain ⟨low, hlow, h⟩ := Option.bind_eq_some_iff.mp h
  obtain rfl := Option.some.inj h
  rw [lowFeePerByte] at hlow
  split_ifs at hlow with hsize
  · exact .inl ⟨not_le.mpr hsize, (Option.some.inj hlow).symm⟩
  · obtain ⟨first, hfirst, rfl⟩ := Option.map_eq_some_iff.mp hlow
    refine .inr ⟨not_lt.mp hsize, ?_, fun tx htx => head_transactionDetails_le hfirst htx⟩
    obtain ⟨tx, htx, rfl⟩ := List.mem_map.mp
      ((transactionDetails_perm block).mem_iff.mp (List.mem_of_head? hfirst))
    exact ⟨tx, htx, rfl⟩

theorem med_of_calculateFeePerByte (h : calculateFeePerByte block = some fp) :
    fp.med = calculateAvgFeePerByte .medium block.transactionDetails ∧ fp.med ≤ fp.high := by
  obtain ⟨low, -, h⟩ := Option.bind_eq_some_iff.mp h
  obtain rfl := Option.some.inj h
  have hmed := calculateAvgFeePerByte_nonneg .medium block.transactionDetails
  refine ⟨rfl, le_trans ?_ (le_max_right _ _)⟩
  linarith

theorem low_nonneg_of_calculateFeePerByte (h : calculateFeePerByte block = some fp) :
    0 ≤ fp.low := by
  rcases low_of_calculateFeePerByte h with ⟨-, hlow⟩ | ⟨-, ⟨tx, -, hlow⟩, -⟩
  · exact hlow.ge
  · rw [hlow]
    exact tx.details.feePriority_nonneg

/-- Without a transaction that covers the window the average of a full block is at least its
smallest priority. -/
theorem low_le_med_of_calculateFeePerByte (h : calculateFeePerByte block = some fp)
    (hcovered : block.Full → ¬ block.WindowCovered) : fp.low ≤ fp.med := by
  rw [(med_of_calculateFeePerByte h).1]
  rcases low_of_calculateFeePerByte h with ⟨-, hlow⟩ | ⟨hfull, -, hle⟩
  · rw [hlow]
    exact calculateAvgFeePerByte_nonneg _ _
  · have hsize : CalcAvgFeeByteMode.medium.upperBytePos <
        (block.transactionDetails.map TransactionDetails.size).sum := by
      rw [sum_transactionDetails_size, upperBytePos_medium]
      have hfull' : (12.5 * 2 ^ 10 : ℚ) ≤ calculateBlockSize block := hfull
      have hlt : ((11520 : ℕ) : ℚ) < calculateBlockSize block := lt_of_lt_of_le (by norm_num) hfull'
      exact Nat.cast_lt.mp hlt
    have hexcess : 0 ≤ excess CalcAvgFeeByteMode.medium.lowerBytePos
        CalcAvgFeeByteMode.medium.upperBytePos 0 block.transactionDetails :=
      excess_nonneg fun p hp _ hun => hcovered hfull ⟨p, hp, hun⟩
    rw [calculateAvgFeePerByte_eq]
    exact (le_avgBytePriority _ hle hsize).trans
      (le_add_of_nonneg_right (div_nonneg hexcess (window_pos _).le))

/-! ### One step -/

theorem ordered_zero : FeePerByte.Ordered ⟨0, 0, 0⟩ := ⟨le_rfl, le_rfl, le_rfl⟩

/-- A weighted mean is monotone. -/
theorem FeeRates.mean_le (rates : FeeRates) {a a' b b' : ℚ} (ha : a ≤ a') (hb : b ≤ b') :
    rates.alpha * a + (1 - rates.alpha) * b ≤ rates.alpha * a' + (1 - rates.alpha) * b' :=
  add_le_add (mul_le_mul_of_nonneg_left ha rates.alpha_pos.le)
    (mul_le_mul_of_nonneg_left hb (sub_nonneg.mpr rates.alpha_lt_one.le))

/-- The mean is ordered if its low level is not above the medium one. -/
theorem EMAcalc_ordered_iff (hprev : prev.Ordered) (h : calculateFeePerByte block = some fp) :
    (EMAcalc rates fp (some prev)).Ordered ↔
      rates.alpha * (fp.low - fp.med) ≤ (1 - rates.alpha) * (prev.med - prev.low) := by
  have hle : (EMAcalc rates fp (some prev)).low ≤ (EMAcalc rates fp (some prev)).med ↔
      rates.alpha * (fp.low - fp.med) ≤ (1 - rates.alpha) * (prev.med - prev.low) := by
    simp only [EMAcalc, Option.getD_some, mul_sub]
    constructor <;> intro hle <;> linarith
  rw [← hle]
  refine ⟨fun hordered => hordered.low_le_med, fun hlow => ⟨?_, hlow, ?_⟩⟩
  · have hlow := rates.mean_le (low_nonneg_of_calculateFeePerByte h) hprev.low_nonneg
    rw [mul_zero, mul_zero, zero_add] at hlow
    exact hlow
  · exact rates.mean_le (med_of_calculateFeePerByte h).2 hprev.med_le_high

/-- **One step**: exactly the harmless batches keep the order. -/
theorem EstimateStep.ordered_iff (hprev : prev.Ordered)
    (hstep : EstimateStep rates prev input est) : est.Ordered ↔ Harmless rates prev input := by
  obtain ⟨e, he, rfl⟩ := hstep
  obtain ⟨block, hblock, he⟩ := Option.bind_eq_some_iff.mp he
  obtain ⟨fp, hfp, he⟩ := Option.bind_eq_some_iff.mp he
  obtain rfl := Option.some.inj he
  have hslack : 0 ≤ (1 - rates.alpha) * (prev.med - prev.low) :=
    mul_nonneg (sub_nonneg.mpr rates.alpha_lt_one.le) (sub_nonneg.mpr hprev.low_le_med)
  have hinput : ∀ block', input.2.head? = some block' → block' = block :=
    fun block' h => Option.some.inj (h.symm.trans hblock)
  by_cases hfull : blocksFull rates input.2 block
  · rw [if_pos hfull, EMAcalc_ordered_iff hprev hfp]
    constructor
    · -- A covered window makes the medium estimate zero.
      intro hle block' hblock' _ hsize hcovered
      obtain rfl := hinput block' hblock'
      rcases low_of_calculateFeePerByte hfp with ⟨hnot, -⟩ | ⟨-, ⟨tx, htx, hlow⟩, -⟩
      · exact absurd hsize hnot
      · refine ⟨tx, htx, ?_⟩
        rw [← hlow]
        rwa [(med_of_calculateFeePerByte hfp).1, calculateAvgFeePerByte_of_covered hcovered,
          sub_zero] at hle
    · intro hharmless
      by_cases hcovered : block.Full ∧ block.WindowCovered
      · obtain ⟨tx, htx, hle⟩ := hharmless block hblock hfull hcovered.1 hcovered.2
        rcases low_of_calculateFeePerByte hfp with ⟨hnot, -⟩ | ⟨-, -, hlow⟩
        · exact absurd hcovered.1 hnot
        · have hdetails : tx.details ∈ block.transactionDetails :=
            (transactionDetails_perm block).mem_iff.mpr (List.mem_map_of_mem htx)
          rw [(med_of_calculateFeePerByte hfp).1, calculateAvgFeePerByte_of_covered hcovered.2,
            sub_zero]
          exact (mul_le_mul_of_nonneg_left (hlow _ hdetails) rates.alpha_pos.le).trans hle
      · have hlow : fp.low ≤ fp.med :=
          low_le_med_of_calculateFeePerByte hfp fun hsize h => hcovered ⟨hsize, h⟩
        exact (mul_nonpos_of_nonneg_of_nonpos rates.alpha_pos.le (sub_nonpos.mpr hlow)).trans hslack
  · -- The estimates are reset.
    rw [if_neg hfull]
    refine iff_of_true ordered_zero fun block' hblock' hfull' => ?_
    obtain rfl := hinput block' hblock'
    exact absurd hfull' hfull

/-! ### Runs -/

theorem mathRound_mono {x y : ℚ} (h : x ≤ y) : mathRound x ≤ mathRound y :=
  Int.floor_mono (add_le_add_left h _)

/-- The fees of a transaction are ordered like the estimates for one byte. -/
theorem FeePerByte.Ordered.fees (h : est.Ordered) (minFee size : ℕ) :
    (calcDynamicFeeEstimates est minFee size).Ordered minFee := by
  have hsize : (0 : ℚ) ≤ size := Nat.cast_nonneg _
  refine ⟨?_, ?_, ?_⟩
  · have hround : (0 : ℤ) ≤ mathRound (est.low * size) :=
      Int.floor_nonneg.mpr (add_nonneg (mul_nonneg h.low_nonneg hsize) one_half_pos.le)
    exact le_add_of_nonneg_right hround
  · exact add_le_add_right (mathRound_mono (mul_le_mul_of_nonneg_right h.low_le_med hsize)) _
  · exact add_le_add_right (mathRound_mono (mul_le_mul_of_nonneg_right h.med_le_high hsize)) _

/-- **The order of the estimates.** From the zero estimate, or any ordered one, through any sequence
of harmless batches. -/
theorem fee_estimates_ordered (hstart : prev.Ordered)
    (hrun : Run (EstimateStep rates) (Harmless rates) prev est) :
    est.Ordered ∧
      ∀ minFee size, (calcDynamicFeeEstimates est minFee size).Ordered minFee := by
  have hordered : est.Ordered := hrun.invariant FeePerByte.Ordered hstart
    fun _ _ _ h hok hstep => (hstep.ordered_iff h).mpr hok
  exact ⟨hordered, hordered.fees⟩

end Order

/-! ### Blocks of one and of four transactions -/

/-- Rates with an `alpha` of one half. -/
def halfRates : FeeRates := ⟨1 / 2, 10, half_alpha_pos, half_alpha_lt_one⟩

/-- A block of transactions of one size that pay 1 for each byte. -/
def blockOf (count size : ℕ) (hsize : 0 < size) : FeeBlock :=
  ⟨"first", 1, List.replicate count ⟨size, 0, size, Nat.zero_le _, hsize⟩⟩

theorem transactionDetails_blockOf {count size : ℕ} (hsize : 0 < size) :
    (blockOf count size hsize).transactionDetails =
      List.replicate count (FeeTransaction.details ⟨size, 0, size, Nat.zero_le _, hsize⟩) := by
  rw [FeeBlock.transactionDetails, blockOf]
  rw [List.map_replicate]
  exact List.mergeSort_of_pairwise (by simp [List.pairwise_replicate])

/-- An estimate from zeros for a batch of one block with more than 14.8 KiB. -/
theorem estimateStep_blockOf {count size : ℕ} (hsize : 0 < size) {fp : FeePerByte}
    (hfp : calculateFeePerByte (blockOf count size hsize) = some fp)
    (hfull : (calculateBlockSize (blockOf count size hsize) : ℚ) > 14.8 * 2 ^ 10) :
    EstimateStep halfRates ⟨0, 0, 0⟩ (0, [blockOf count size hsize])
      ⟨1 / 2 * fp.low, 1 / 2 * fp.med, 1 / 2 * fp.high⟩ := by
  have hblocks : blocksFull halfRates [blockOf count size hsize] (blockOf count size hsize) :=
    .inr hfull
  refine ⟨⟨_, 0, 1, "first"⟩, ?_, rfl⟩
  simp only [getEstimateFeePerByteForBlock, List.head?_cons, hfp, Option.bind_eq_bind,
    Option.bind_some, if_pos hblocks]
  simp [EMAcalc, halfRates, blockOf]

/-- Four transactions of 3800 bytes: the estimates are in order, and so are the fees. -/
theorem estimates_ordered_four : ∃ est,
    Run (EstimateStep halfRates) (Harmless halfRates) ⟨0, 0, 0⟩ est ∧ est.low = 1 / 2 ∧
      est.Ordered ∧ ∀ minFee size, (calcDynamicFeeEstimates est minFee size).Ordered minFee := by
  have hfp : calculateFeePerByte (blockOf 4 3800 (by norm_num)) =
      some ⟨1, 7682 / 7681, 88338 / 38405⟩ := by
    rw [calculateFeePerByte, lowFeePerByte, transactionDetails_blockOf]
    decide +kernel
  have hstep := estimateStep_blockOf (by norm_num) hfp (by decide +kernel)
  have hharmless : Harmless halfRates ⟨0, 0, 0⟩ (0, [blockOf 4 3800 (by norm_num)]) := by
    refine (hstep.ordered_iff ordered_zero).mp ⟨?_, ?_, ?_⟩ <;> norm_num
  have hrun := Run.tail .refl hstep hharmless
  exact ⟨_, hrun, by norm_num, fee_estimates_ordered ordered_zero hrun⟩

/-- One transaction of 15200 bytes: the low estimate is one half, the medium one zero. -/
theorem low_over_medium :
    EstimateStep halfRates ⟨0, 0, 0⟩ (0, [blockOf 1 15200 (by norm_num)])
        ⟨1 / 2 * 1, 1 / 2 * 0, 1 / 2 * 1⟩ ∧
      ¬ FeePerByte.Ordered ⟨1 / 2 * 1, 1 / 2 * 0, 1 / 2 * 1⟩ := by
  have hfp : calculateFeePerByte (blockOf 1 15200 (by norm_num)) = some ⟨1, 0, 1⟩ := by
    rw [calculateFeePerByte, lowFeePerByte, transactionDetails_blockOf]
    decide +kernel
  refine ⟨estimateStep_blockOf (by norm_num) hfp (by decide +kernel), fun h => ?_⟩
  have hle : (1 / 2 * 1 : ℚ) ≤ 1 / 2 * 0 := h.low_le_med
  norm_num at hle

end SwaptoshiService
