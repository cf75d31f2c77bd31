import Mathlib.Algebra.Order.Archimedean.Basic
import Mathlib.Data.List.Sort
import Mathlib.Data.Rat.Floor
import Mathlib.Tactic.Linarith
import Mathlib.Tactic.NormNum
import Mathlib.Tactic.Positivity
import SwaptoshiService.Lib.Layout

/-!
# Fee estimates of a block

`fee-estimator/shared/utils/dynamicFeesLIP.js`, over the rational numbers. The transactions of a
block, sorted by the priority they pay per byte, are laid out one after another.
`calculateAvgFeePerByte` is meant to be the average over the bytes of a window, and adds up, for
each transaction, its priority times a number of bytes that three overlapping conditions decide
(`countedBytes`).

`avgFeePerByte_eq_iff`: it is the average if and only if no transaction with a priority goes from
the first byte of the window or before it to an end inside, ends exactly at its last position, or
**covers the window and more on both sides**. The first two are counted once or twice too often,
the last one is not counted at all.
-/

open Finset

namespace SwaptoshiService

/-- `calcAvgFeeByteModes`. -/
inductive CalcAvgFeeByteMode
  | medium
  | high
  deriving DecidableEq, Repr

/-- A transaction of a block, as far as the estimates go. -/
structure FeeTransaction where
  fee : ℕ
  minFee : ℕ
  size : ℕ
  minFee_le : minFee ≤ fee
  size_pos : 0 < size

/-- A transaction with what it pays per byte beyond the minimum. -/
structure TransactionDetails where
  size : ℕ
  feePriority : ℚ
  size_pos : 0 < size
  feePriority_nonneg : 0 ≤ feePriority

/-- A block, as far as the estimates go. -/
structure FeeBlock where
  id : String
  height : ℤ
  transactions : List FeeTransaction

/-- The estimates for one byte. -/
structure FeePerByte where
  low : ℚ
  med : ℚ
  high : ℚ
  deriving DecidableEq, Repr

/-- What `getEstimateFeePerByteForBlock` returns. -/
structure FeeEstimate extends FeePerByte where
  updated : ℕ
  blockHeight : ℤ
  blockID : String
  deriving DecidableEq, Repr

/-- The configured rates: `alpha`, which `calcExpDecay` computes from the size of the batches and
the decay rate, and the decay of the weights. -/
structure FeeRates where
  alpha : ℚ
  wavgDecayPercentage : ℚ
  alpha_pos : 0 < alpha
  alpha_lt_one : alpha < 1

/-! An `alpha` of one half is possible. -/

theorem half_alpha_pos : (0 : ℚ) < 1 / 2 := by norm_num

theorem half_alpha_lt_one : (1 / 2 : ℚ) < 1 := by norm_num

/-! ### The estimates of one block -/

def maxBlockSize : ℕ := 15 * 2 ^ 10

namespace CalcAvgFeeByteMode

/-- `medEstLowerPercentile` and `highEstLowerPercentile`. -/
def lowerPercentile : CalcAvgFeeByteMode → ℚ
  | medium => 25
  | high => 80

/-- `medEstUpperPercentile` and `highEstUpperPercentile`. -/
def upperPercentile : CalcAvgFeeByteMode → ℚ
  | medium => 75
  | high => 100

def lowerBytePos (mode : CalcAvgFeeByteMode) : ℕ :=
  ⌈mode.lowerPercentile / 100 * maxBlockSize⌉₊

def upperBytePos (mode : CalcAvgFeeByteMode) : ℕ :=
  ⌊mode.upperPercentile / 100 * maxBlockSize⌋₊

end CalcAvgFeeByteMode

/-- `calculateBlockSize`. -/
def calculateBlockSize (block : FeeBlock) : ℕ :=
  block.transactions.foldl (fun blockSize txn => blockSize + txn.size) 0

/-- One transaction of the `forEach` of `calculateAvgFeePerByte`, which goes through
`currentBytePos` and `totalFeePriority`. -/
def addFeePriority (lowerBytePos upperBytePos : ℕ) (s : ℕ × ℚ)
    (transaction : TransactionDetails) : ℕ × ℚ :=
  let (currentBytePos, totalFeePriority) := s
  let next := currentBytePos + transaction.size
  let totalFeePriority :=
    if currentBytePos ≤ lowerBytePos ∧ lowerBytePos < next ∧ next ≤ upperBytePos then
      totalFeePriority + transaction.feePriority * ((next - lowerBytePos + 1 : ℕ) : ℚ)
    else totalFeePriority
  let totalFeePriority :=
    if lowerBytePos ≤ currentBytePos ∧ next ≤ upperBytePos then
      totalFeePriority + transaction.feePriority * (transaction.size : ℚ)
    else totalFeePriority
  let totalFeePriority :=
    if lowerBytePos ≤ currentBytePos ∧ currentBytePos ≤ upperBytePos ∧ upperBytePos ≤ next then
      totalFeePriority + transaction.feePriority * ((upperBytePos - currentBytePos + 1 : ℕ) : ℚ)
    else totalFeePriority
  (next, totalFeePriority)

def calculateAvgFeePerByte (mode : CalcAvgFeeByteMode)
    (transactionDetails : List TransactionDetails) : ℚ :=
  (transactionDetails.foldl (addFeePriority mode.lowerBytePos mode.upperBytePos) (0, 0)).2 /
    (mode.upperBytePos - mode.lowerBytePos + 1)

/-- `calculateWeightedAvg`: the state of the fold is the sum of the weighted sizes, the sum of the
weights and the next weight. -/
def calculateWeightedAvg (rates : FeeRates) (blocks : List FeeBlock) : ℚ :=
  let decayFactor := 1 - rates.wavgDecayPercentage / 100
  let (blockSizeSum, totalWeight, _) := (blocks.map calculateBlockSize).foldl
    (fun (s : ℚ × ℚ × ℚ) (blockSize : ℕ) =>
      (s.1 + blockSize * s.2.2, s.2.1 + s.2.2, s.2.2 * decayFactor)) (0, 0, 1)
  blockSizeSum / totalWeight

/-- The details of a transaction. -/
def FeeTransaction.details (tx : FeeTransaction) : TransactionDetails where
  size := tx.size
  feePriority := ((tx.fee : ℚ) - tx.minFee) / tx.size
  size_pos := tx.size_pos
  feePriority_nonneg :=
    div_nonneg (sub_nonneg.mpr (Nat.cast_le.mpr tx.minFee_le)) (Nat.cast_nonneg _)

/-- The `transactionDetails` of `calculateFeePerByte`, sorted. -/
def FeeBlock.transactionDetails (block : FeeBlock) : List TransactionDetails :=
  (block.transactions.map FeeTransaction.details).mergeSort
    fun t1 t2 => decide (t1.feePriority - t2.feePriority ≤ 0)

/-- `feePerByte.low`. A block that is large enough has a first transaction; without one the source
throws. -/
def lowFeePerByte (block : FeeBlock) : Option ℚ :=
  if (calculateBlockSize block : ℚ) < 12.5 * 2 ^ 10 then some 0
  else block.transactionDetails.head?.map TransactionDetails.feePriority

def calculateFeePerByte (block : FeeBlock) : Option FeePerByte := do
  let low ← lowFeePerByte block
  let med := calculateAvgFeePerByte .medium block.transactionDetails
  let high := max (calculateAvgFeePerByte .high block.transactionDetails) (1.3 * med + 1)
  return { low, med, high }

/-- `EMAcalc`. An estimate without properties counts as zeros. -/
def EMAcalc (rates : FeeRates) (feePerByte : FeePerByte) (prevFeeEstPerByte : Option FeePerByte) :
    FeePerByte :=
  let prev := prevFeeEstPerByte.getD ⟨0, 0, 0⟩
  { low := rates.alpha * feePerByte.low + (1 - rates.alpha) * prev.low
    med := rates.alpha * feePerByte.med + (1 - rates.alpha) * prev.med
    high := rates.alpha * feePerByte.high + (1 - rates.alpha) * prev.high }

/-- The blocks are full enough for an estimate. -/
def blocksFull (rates : FeeRates) (blocks : List FeeBlock) (block : FeeBlock) : Prop :=
  calculateWeightedAvg rates blocks > 12.5 * 2 ^ 10 ∨
    (calculateBlockSize block : ℚ) > 14.8 * 2 ^ 10

instance (rates : FeeRates) (blocks : List FeeBlock) (block : FeeBlock) :
    Decidable (blocksFull rates blocks block) := inferInstanceAs (Decidable (_ ∨ _))

/-- `getEstimateFeePerByteForBlock`, at the time `now` in milliseconds. Without a first block it
throws. -/
def getEstimateFeePerByteForBlock (rates : FeeRates) (now : ℕ) (blockBatch : List FeeBlock)
    (innerPrevFeeEstPerByte : Option FeePerByte) : Option FeeEstimate := do
  let block ← blockBatch.head?
  let feePerByte ← calculateFeePerByte block
  let levels := if blocksFull rates blockBatch block then
      EMAcalc rates feePerByte innerPrevFeeEstPerByte
    else ⟨0, 0, 0⟩
  return { levels with updated := now / 1000, blockHeight := block.height, blockID := block.id }

/-! ### The transactions of a block -/

theorem transactionDetails_perm (block : FeeBlock) :
    block.transactionDetails.Perm (block.transactions.map FeeTransaction.details) :=
  List.mergeSort_perm _ _

theorem sum_transactionDetails_size (block : FeeBlock) :
    (block.transactionDetails.map TransactionDetails.size).sum = calculateBlockSize block := by
  rw [((transactionDetails_perm block).map _).sum_eq, List.map_map, calculateBlockSize,
    List.sum_eq_foldl, List.foldl_map]
  rfl

theorem exists_calculateFeePerByte (block : FeeBlock) :
    ∃ fp, calculateFeePerByte block = some fp := by
  have hlow : ∃ low, lowFeePerByte block = some low := by
    rw [lowFeePerByte]
    split_ifs with hsize
    · exact ⟨0, rfl⟩
    · -- A block of this size is not empty.
      cases hdetails : block.transactionDetails with
      | nil =>
        rw [← sum_transactionDetails_size, hdetails] at hsize
        norm_num at hsize
      | cons first rest => exact ⟨_, rfl⟩
  obtain ⟨low, hlow⟩ := hlow
  exact ⟨_, Option.bind_eq_some_iff.mpr ⟨low, hlow, rfl⟩⟩

/-! ### The average over a window -/

/-- The priority of a byte of the block. -/
def bytePriority (transactionDetails : List TransactionDetails) (pos : ℕ) : ℚ :=
  Layout.valueAt TransactionDetails.size TransactionDetails.feePriority transactionDetails pos

/-- The average over the bytes of the window. -/
def avgBytePriority (mode : CalcAvgFeeByteMode) (transactionDetails : List TransactionDetails) :
    ℚ :=
  (∑ pos ∈ Icc mode.lowerBytePos mode.upperBytePos, bytePriority transactionDetails pos) /
    (mode.upperBytePos - mode.lowerBytePos + 1)

/-- The largest priority in the block, 0 if it is empty. -/
def largestPriority (transactionDetails : List TransactionDetails) : ℚ :=
  (transactionDetails.map TransactionDetails.feePriority).foldr max 0

/-- How many bytes of a transaction of size `length` at the position `start` are counted. -/
def countedBytes (lower upper start length : ℕ) : ℕ :=
  (if start ≤ lower ∧ lower < start + length ∧ start + length ≤ upper then
    start + length - lower + 1 else 0) +
  (if lower ≤ start ∧ start + length ≤ upper then length else 0) +
  (if lower ≤ start ∧ start ≤ upper ∧ upper ≤ start + length then upper - start + 1 else 0)

/-- The transaction is counted too often: it goes from the first byte of the window, or from before
it, to an end inside, or it ends exactly at the last position. -/
def Overcounted (lower upper start length : ℕ) : Prop :=
  (start ≤ lower ∧ lower < start + length ∧ start + length ≤ upper) ∨
    (lower ≤ start ∧ start + length = upper)

/-- The transaction goes beyond the window on both sides; it is not counted. -/
def Uncounted (lower upper start length : ℕ) : Prop :=
  start < lower ∧ upper < start + length

/-- The transactions with the positions they begin at. -/
abbrev placedDetails (start : ℕ) (transactionDetails : List TransactionDetails) :
    List (ℕ × TransactionDetails) :=
  Layout.placed TransactionDetails.size start transactionDetails

/-- Every transaction with a priority is counted as it should be. -/
def CountedTruly (lower upper start : ℕ) (transactionDetails : List TransactionDetails) : Prop :=
  ∀ p ∈ placedDetails start transactionDetails, p.2.feePriority ≠ 0 →
    ¬ Overcounted lower upper p.1 p.2.size ∧ ¬ Uncounted lower upper p.1 p.2.size

section Average

variable {lower upper start length : ℕ} {txs : List TransactionDetails}
  {mode : CalcAvgFeeByteMode}

theorem lowerBytePos_medium : CalcAvgFeeByteMode.medium.lowerBytePos = 3840 := by
  norm_num [CalcAvgFeeByteMode.lowerBytePos, CalcAvgFeeByteMode.lowerPercentile, maxBlockSize]

theorem upperBytePos_medium : CalcAvgFeeByteMode.medium.upperBytePos = 11520 := by
  norm_num [CalcAvgFeeByteMode.upperBytePos, CalcAvgFeeByteMode.upperPercentile, maxBlockSize]

theorem lowerBytePos_high : CalcAvgFeeByteMode.high.lowerBytePos = 12288 := by
  norm_num [CalcAvgFeeByteMode.lowerBytePos, CalcAvgFeeByteMode.lowerPercentile, maxBlockSize]

theorem upperBytePos_high : CalcAvgFeeByteMode.high.upperBytePos = 15360 := by
  norm_num [CalcAvgFeeByteMode.upperBytePos, CalcAvgFeeByteMode.upperPercentile, maxBlockSize]

theorem lowerBytePos_le : mode.lowerBytePos ≤ mode.upperBytePos := by
  cases mode with
  | medium => rw [lowerBytePos_medium, upperBytePos_medium]; norm_num
  | high => rw [lowerBytePos_high, upperBytePos_high]; norm_num

/-- The number of bytes in the window. -/
theorem window_pos (mode : CalcAvgFeeByteMode) :
    (0 : ℚ) < mode.upperBytePos - mode.lowerBytePos + 1 := by
  have hle : (mode.lowerBytePos : ℚ) ≤ mode.upperBytePos := Nat.cast_le.mpr lowerBytePos_le
  linarith

theorem addFeePriority_eq (s : ℕ × ℚ) (tx : TransactionDetails) :
    addFeePriority lower upper s tx =
      (s.1 + tx.size, s.2 + countedBytes lower upper s.1 tx.size * tx.feePriority) := by
  refine Prod.ext rfl ?_
  simp only [addFeePriority, countedBytes, Nat.cast_add, add_mul]
  split_ifs <;> push_cast <;> ring

/-- The sum that `calculateAvgFeePerByte` divides. -/
theorem foldl_addFeePriority (txs : List TransactionDetails) (s : ℕ × ℚ) :
    (txs.foldl (addFeePriority lower upper) s).2 = s.2 + ((placedDetails s.1 txs).map fun p =>
      (countedBytes lower upper p.1 p.2.size : ℚ) * p.2.feePriority).sum := by
  induction txs generalizing s with
  | nil => simp
  | cons tx txs ih =>
    simp only [List.foldl_cons, ih, addFeePriority_eq, placedDetails, Layout.placed_cons,
      List.map_cons, List.sum_cons, add_assoc]

/-! ### Counted and overlapping bytes -/

theorem Uncounted.countedBytes_eq (h : Uncounted lower upper start length) :
    countedBytes lower upper start length = 0 := by
  obtain ⟨hlower, hupper⟩ := h
  rw [countedBytes]
  split_ifs <;> omega

theorem Uncounted.overlap_pos (h : Uncounted lower upper start length) (hle : lower ≤ upper) :
    0 < Layout.overlap lower upper start length := by
  obtain ⟨hlower, hupper⟩ := h
  rw [Layout.overlap]
  omega

theorem Overcounted.overlap_lt (h : Overcounted lower upper start length) (hpos : 0 < length) :
    Layout.overlap lower upper start length < countedBytes lower upper start length := by
  rw [Layout.overlap, countedBytes]
  rcases h with ⟨hlower, hlt, hupper⟩ | ⟨hlower, heq⟩ <;> split_ifs <;> omega

theorem countedBytes_eq_overlap (hover : ¬ Overcounted lower upper start length)
    (hun : ¬ Uncounted lower upper start length) (hpos : 0 < length) :
    countedBytes lower upper start length = Layout.overlap lower upper start length := by
  rw [Overcounted] at hover
  rw [Uncounted] at hun
  rw [Layout.overlap, countedBytes]
  split_ifs <;> omega

theorem overlap_le_countedBytes (hun : ¬ Uncounted lower upper start length) (hpos : 0 < length) :
    Layout.overlap lower upper start length ≤ countedBytes lower upper start length := by
  by_cases hover : Overcounted lower upper start length
  · exact (hover.overlap_lt hpos).le
  · exact (countedBytes_eq_overlap hover hun hpos).ge

/-- By how much the priorities of the transactions from `start` on are counted too often. -/
def excess (lower upper start : ℕ) (txs : List TransactionDetails) : ℚ :=
  ((placedDetails start txs).map fun p => ((countedBytes lower upper p.1 p.2.size : ℚ) -
    Layout.overlap lower upper p.1 p.2.size) * p.2.feePriority).sum

theorem excess_cons (tx : TransactionDetails) (txs : List TransactionDetails) :
    excess lower upper start (tx :: txs) = ((countedBytes lower upper start tx.size : ℚ) -
      Layout.overlap lower upper start tx.size) * tx.feePriority +
        excess lower upper (start + tx.size) txs := by
  simp only [excess, placedDetails, Layout.placed_cons, List.map_cons, List.sum_cons]

/-- Nothing is missing if no transaction with a priority is left out. -/
theorem excess_nonneg (h : ∀ p ∈ placedDetails start txs, p.2.feePriority ≠ 0 →
    ¬ Uncounted lower upper p.1 p.2.size) : 0 ≤ excess lower upper start txs := by
  refine List.sum_nonneg fun x hx => ?_
  obtain ⟨p, hp, rfl⟩ := List.mem_map.mp hx
  by_cases hzero : p.2.feePriority = 0
  · rw [hzero, mul_zero]
  · refine mul_nonneg (sub_nonneg.mpr (Nat.cast_le.mpr ?_)) p.2.feePriority_nonneg
    exact overlap_le_countedBytes (h p hp hzero) p.2.size_pos

theorem countedTruly_cons {tx : TransactionDetails} :
    CountedTruly lower upper start (tx :: txs) ↔
      (tx.feePriority ≠ 0 →
        ¬ Overcounted lower upper start tx.size ∧ ¬ Uncounted lower upper start tx.size) ∧
      CountedTruly lower upper (start + tx.size) txs := List.forall_mem_cons

/-- After the window nothing is counted wrongly. -/
theorem countedTruly_of_lt (hle : lower ≤ upper) (h : upper < start) :
    CountedTruly lower upper start txs := by
  intro p hp _
  have hstart : start ≤ p.1 := Layout.le_of_mem_placed hp
  have hpos := p.2.size_pos
  rw [Overcounted, Uncounted]
  omega

theorem CountedTruly.excess_eq_zero (h : CountedTruly lower upper start txs) :
    excess lower upper start txs = 0 := by
  refine List.sum_eq_zero fun x hx => ?_
  obtain ⟨p, hp, rfl⟩ := List.mem_map.mp hx
  by_cases hzero : p.2.feePriority = 0
  · rw [hzero, mul_zero]
  · obtain ⟨hover, hun⟩ := h p hp hzero
    rw [countedBytes_eq_overlap hover hun p.2.size_pos, sub_self, zero_mul]

/-- **No two errors cancel.** A transaction that is left out is the only one with bytes in the
window, and all other errors count too much. -/
theorem excess_eq_zero_iff (hle : lower ≤ upper) (txs : List TransactionDetails) (start : ℕ) :
    excess lower upper start txs = 0 ↔ CountedTruly lower upper start txs := by
  refine ⟨fun h => ?_, CountedTruly.excess_eq_zero⟩
  induction txs generalizing start with
  | nil => intro p hp; simp at hp
  | cons tx txs ih =>
    have hpos := tx.size_pos
    rw [excess_cons] at h
    rw [countedTruly_cons]
    by_cases hbefore : start + tx.size ≤ lower
    · -- The transaction ends before the window.
      have hover : ¬ Overcounted lower upper start tx.size := by rw [Overcounted]; omega
      have hun : ¬ Uncounted lower upper start tx.size := by rw [Uncounted]; omega
      rw [countedBytes_eq_overlap hover hun hpos, sub_self, zero_mul, zero_add] at h
      exact ⟨fun _ => ⟨hover, hun⟩, ih _ h⟩
    · by_cases hun : Uncounted lower upper start tx.size
      · -- It covers the window: the rest comes after it.
        have hrest : CountedTruly lower upper (start + tx.size) txs :=
          countedTruly_of_lt hle hun.2
        have hoverlap : (0 : ℚ) < Layout.overlap lower upper start tx.size :=
          Nat.cast_pos.mpr (hun.overlap_pos hle)
        rw [hrest.excess_eq_zero, add_zero, hun.countedBytes_eq, mul_eq_zero] at h
        refine ⟨fun hne => absurd (h.resolve_right hne) ?_, hrest⟩
        rw [Nat.cast_zero, zero_sub, neg_eq_zero]
        exact hoverlap.ne'
      · -- Nothing after it is left out, so nothing is counted too often.
        have hrest : 0 ≤ excess lower upper (start + tx.size) txs := by
          refine excess_nonneg fun p hp _ hun' => ?_
          have hstart : start + tx.size ≤ p.1 := Layout.le_of_mem_placed hp
          have hlower : p.1 < lower := hun'.1
          omega
        have hfirst : 0 ≤ ((countedBytes lower upper start tx.size : ℚ) -
            Layout.overlap lower upper start tx.size) * tx.feePriority :=
          mul_nonneg (sub_nonneg.mpr (Nat.cast_le.mpr (overlap_le_countedBytes hun hpos)))
            tx.feePriority_nonneg
        obtain ⟨hzero, hzero'⟩ := (add_eq_zero_iff_of_nonneg hfirst hrest).mp h
        refine ⟨fun hne => ⟨fun hover => ?_, hun⟩, ih _ hzero'⟩
        have hlt : (Layout.overlap lower upper start tx.size : ℚ) <
            countedBytes lower upper start tx.size := Nat.cast_lt.mpr (hover.overlap_lt hpos)
        exact (sub_pos.mpr hlt).ne' ((mul_eq_zero.mp hzero).resolve_right hne)

/-! ### The average -/

/-- The average that is computed, and the true one. -/
theorem calculateAvgFeePerByte_eq (mode : CalcAvgFeeByteMode) (txs : List TransactionDetails) :
    calculateAvgFeePerByte mode txs = avgBytePriority mode txs +
      excess mode.lowerBytePos mode.upperBytePos 0 txs /
        (mode.upperBytePos - mode.lowerBytePos + 1) := by
  unfold calculateAvgFeePerByte avgBytePriority bytePriority excess
  rw [foldl_addFeePriority, Layout.sum_valueAt_Icc, zero_add, ← add_div, ← List.sum_map_add]
  congr 3
  funext p
  ring

theorem sum_window_const (mode : CalcAvgFeeByteMode) (b : ℚ) :
    ∑ _pos ∈ Icc mode.lowerBytePos mode.upperBytePos, b =
      b * (mode.upperBytePos - mode.lowerBytePos + 1) := by
  rw [sum_const, Nat.card_Icc, nsmul_eq_mul, Nat.sub_add_comm lowerBytePos_le, mul_comm]
  rw [Nat.cast_add, Nat.cast_sub lowerBytePos_le, Nat.cast_one]

theorem avgBytePriority_le (mode : CalcAvgFeeByteMode) {b : ℚ}
    (h : ∀ tx ∈ txs, tx.feePriority ≤ b) (hb : 0 ≤ b) : avgBytePriority mode txs ≤ b := by
  have hsum : ∑ pos ∈ Icc mode.lowerBytePos mode.upperBytePos, bytePriority txs pos ≤
      ∑ _pos ∈ Icc mode.lowerBytePos mode.upperBytePos, b :=
    sum_le_sum fun pos _ => Layout.valueAt_le h hb
  rw [avgBytePriority, div_le_iff₀ (window_pos mode)]
  exact hsum.trans_eq (sum_window_const mode b)

/-- A bound on the priorities of all bytes up to the end of the window bounds the average. -/
theorem le_avgBytePriority (mode : CalcAvgFeeByteMode) {b : ℚ}
    (h : ∀ tx ∈ txs, b ≤ tx.feePriority)
    (hsize : mode.upperBytePos < (txs.map TransactionDetails.size).sum) :
    b ≤ avgBytePriority mode txs := by
  have hsum : ∑ _pos ∈ Icc mode.lowerBytePos mode.upperBytePos, b ≤
      ∑ pos ∈ Icc mode.lowerBytePos mode.upperBytePos, bytePriority txs pos :=
    sum_le_sum fun pos hpos => Layout.le_valueAt h ((mem_Icc.mp hpos).2.trans_lt hsize)
  rw [avgBytePriority, le_div_iff₀ (window_pos mode)]
  exact (sum_window_const mode b).symm.trans_le hsum

theorem le_largestPriority {tx : TransactionDetails} (h : tx ∈ txs) :
    tx.feePriority ≤ largestPriority txs := by
  induction txs with
  | nil => simp at h
  | cons t txs ih =>
    rcases List.mem_cons.mp h with rfl | h
    · exact le_max_left _ _
    · exact (ih h).trans (le_max_right _ _)

theorem largestPriority_nonneg : 0 ≤ largestPriority txs := by
  induction txs with
  | nil => exact le_rfl
  | cons t txs ih => exact ih.trans (le_max_right _ _)

/-- **When the computed average is the average over the window**, and so at most the largest
priority. -/
theorem avgFeePerByte_eq_iff (mode : CalcAvgFeeByteMode) (txs : List TransactionDetails) :
    (calculateAvgFeePerByte mode txs = avgBytePriority mode txs ∧
        calculateAvgFeePerByte mode txs ≤ largestPriority txs) ↔
      CountedTruly mode.lowerBytePos mode.upperBytePos 0 txs := by
  rw [← excess_eq_zero_iff lowerBytePos_le]
  constructor
  · rintro ⟨heq, -⟩
    rw [calculateAvgFeePerByte_eq, add_eq_left, div_eq_zero_iff] at heq
    exact heq.resolve_right (window_pos mode).ne'
  · intro h
    have heq : calculateAvgFeePerByte mode txs = avgBytePriority mode txs := by
      rw [calculateAvgFeePerByte_eq, h, zero_div, add_zero]
    refine ⟨heq, heq.trans_le ?_⟩
    exact avgBytePriority_le mode (fun tx htx => le_largestPriority htx) largestPriority_nonneg

end Average

/-- Two transactions with the priority 1; the second fills the window of the medium estimate. -/
def windowDetails : List TransactionDetails :=
  [⟨3840, 1, by norm_num, by norm_num⟩, ⟨7680, 1, by norm_num, by norm_num⟩]

/-- The average of ones is over 2. -/
theorem average_over_largest :
    windowDetails.Pairwise (fun t1 t2 => t1.feePriority ≤ t2.feePriority) ∧
      largestPriority windowDetails = 1 ∧ calculateAvgFeePerByte .medium windowDetails > 2 ∧
      avgBytePriority .medium windowDetails ≤ 1 := by
  refine ⟨?_, ?_, ?_, ?_⟩
  · simp [windowDetails]
  · norm_num [largestPriority, windowDetails]
  · norm_num [calculateAvgFeePerByte, windowDetails, lowerBytePos_medium, upperBytePos_medium,
      addFeePriority]
  · refine avgBytePriority_le _ (fun tx htx => ?_) zero_le_one
    simp only [windowDetails, List.mem_cons, List.not_mem_nil, or_false] at htx
    rcases htx with rfl | rfl <;> rfl

end SwaptoshiService
