import SwaptoshiService.FeeEstimator.DynamicFees
import SwaptoshiService.FeeEstimator.DynamicFeesLIP

/-!
# One batch of fee estimates

`getEstimateFeePerByteForBatch` (`fee-estimator/shared/utils/dynamicFees.js`), from its arguments
and the cached estimate to its result: the heights it asks for, the estimates it writes to the
cache, and the estimate it returns. The loop estimates the block after the previous estimate and
**then** compares heights, so a start at `toHeight` or above asks for a block beyond it.

`batch_exact_iff`: the heights asked for lie between the genesis block and `toHeight`, the estimate
returned is that of `toHeight`, and in the full mode a run that is interrupted and resumed ends
with the same estimate, if and only if the run starts below `toHeight`.
-/

namespace SwaptoshiService

/-- What the node knows: the blocks, each under its height, up to the tip. -/
structure FeeChain where
  genesisHeight : ℕ
  tip : ℤ
  block : ℤ → FeeBlock
  height_block : ∀ height, (block height).height = height

/-- `getBlockByHeight`. -/
def FeeChain.getBlockByHeight (chain : FeeChain) (height : ℤ) : Option FeeBlock :=
  if height ≤ chain.tip then some (chain.block height) else none

/-- `prevFeeEstPerByte`. -/
structure PrevFeeEstPerByte extends FeePerByte where
  blockHeight : ℤ

/-- An estimate as the previous one of the next round. -/
def FeeEstimate.toPrev (e : FeeEstimate) : PrevFeeEstPerByte :=
  ⟨e.toFeePerByte, e.blockHeight⟩

/-- A run of `getEstimateFeePerByteForBatch`: the heights passed to `getBlockByHeight`, the
estimates written to the cache, and the estimate returned, unless it throws. -/
structure BatchRun where
  requests : List ℤ
  cached : List FeeEstimate
  result : Option FeeEstimate

section Definitions

variable (config : FeeEstimates) (rates : FeeRates) (chain : FeeChain)

/-- One round of the loop. The time is that at which the estimate is made. -/
def estimateNext (clock : ℤ → ℕ) (prev : PrevFeeEstPerByte) : Option FeeEstimate := do
  let data ← (blockBatch config chain.genesisHeight prev.blockHeight).mapM chain.getBlockByHeight
  getEstimateFeePerByteForBlock rates (clock prev.blockHeight) data (some prev.toFeePerByte)

variable {config rates chain}

theorem mapM_getBlockByHeight_eq_some {heights : List ℤ} {data : List FeeBlock}
    (h : heights.mapM chain.getBlockByHeight = some data) :
    data = heights.map chain.block ∧ ∀ height ∈ heights, height ≤ chain.tip := by
  induction heights generalizing data with
  | nil =>
    obtain rfl := Option.some.inj h
    simp
  | cons height heights ih =>
    rw [List.mapM_cons] at h
    obtain ⟨block, hblock, h⟩ := Option.bind_eq_some_iff.mp h
    obtain ⟨blocks, hblocks, h⟩ := Option.bind_eq_some_iff.mp h
    obtain rfl := Option.some.inj h
    obtain ⟨rfl, hle⟩ := ih hblocks
    rw [FeeChain.getBlockByHeight] at hblock
    split_ifs at hblock with htip
    obtain rfl := Option.some.inj hblock
    exact ⟨rfl, List.forall_mem_cons.mpr ⟨htip, hle⟩⟩

/-- The estimate is for the block after the previous one. -/
theorem estimateNext_blockHeight {clock : ℤ → ℕ} {prev : PrevFeeEstPerByte} {e : FeeEstimate}
    (h : estimateNext config rates chain clock prev = some e) :
    e.blockHeight = prev.blockHeight + 1 := by
  obtain ⟨data, hdata, h⟩ := Option.bind_eq_some_iff.mp h
  obtain ⟨block, hblock, h⟩ := Option.bind_eq_some_iff.mp h
  obtain ⟨fp, -, h⟩ := Option.bind_eq_some_iff.mp h
  obtain rfl := Option.some.inj h
  obtain ⟨rfl, -⟩ := mapM_getBlockByHeight_eq_some hdata
  rw [List.head?_map, Option.map_eq_some_iff] at hblock
  obtain ⟨height, hhead, rfl⟩ := hblock
  exact (chain.height_block height).trans (head?_blockBatch hhead)

variable (config rates chain)

/-- The loop. It ends, since every round is for a higher block. -/
def batchLoop (clock : ℤ → ℕ) (toHeight : ℤ) (prev : PrevFeeEstPerByte) : BatchRun :=
  let heights := blockBatch config chain.genesisHeight prev.blockHeight
  match _hnext : estimateNext config rates chain clock prev with
  | none => ⟨heights, [], none⟩
  | some e =>
    if toHeight > e.blockHeight then
      let rest := batchLoop clock toHeight e.toPrev
      ⟨heights ++ rest.requests, e :: rest.cached, rest.result⟩
    else ⟨heights, [e], some e⟩
termination_by (toHeight - prev.blockHeight).toNat
decreasing_by
  have hheight : e.blockHeight = prev.blockHeight + 1 := estimateNext_blockHeight _hnext
  change (toHeight - e.blockHeight).toNat < _
  omega

/-- The `fromHeight` that the configuration and the genesis block permit. -/
def permittedFrom (fromHeight : ℤ) : ℤ :=
  max config.defaultStartBlockHeight (max (chain.genesisHeight + 1) fromHeight)

/-- `cachedFeeEstimateHeight`. -/
def cachedFeeEstimateHeight (cacheKey : FeeCacheKey) (cachedFeeEstimate : Option FeeEstimate) :
    ℤ :=
  if cacheKey = .quick then 0 else (cachedFeeEstimate.map FeeEstimate.blockHeight).getD 0

def getEstimateFeePerByteForBatch (clock : ℤ → ℕ) (fromHeight toHeight : ℤ)
    (cacheKey : FeeCacheKey) (cachedFeeEstimate : Option FeeEstimate) : BatchRun :=
  let fromHeight := permittedFrom config chain fromHeight
  let prevFeeEstPerByte :=
    if fromHeight > cachedFeeEstimateHeight cacheKey cachedFeeEstimate then
      some ⟨⟨0, 0, 0⟩, fromHeight - 1⟩
    else cachedFeeEstimate.map FeeEstimate.toPrev
  match prevFeeEstPerByte with
  | none => ⟨[], [], none⟩
  | some prev => batchLoop config rates chain clock toHeight prev

/-- The height of the estimate that a run starts with: before the permitted `fromHeight`, or in
the cache. -/
def startHeight (fromHeight : ℤ) (cacheKey : FeeCacheKey)
    (cachedFeeEstimate : Option FeeEstimate) : ℤ :=
  if permittedFrom config chain fromHeight > cachedFeeEstimateHeight cacheKey cachedFeeEstimate
  then permittedFrom config chain fromHeight - 1
  else cachedFeeEstimateHeight cacheKey cachedFeeEstimate

/-- The same estimate, made at any time. -/
def FeeEstimate.Same (e e' : FeeEstimate) : Prop :=
  e.toFeePerByte = e'.toFeePerByte ∧ e.blockHeight = e'.blockHeight ∧ e.blockID = e'.blockID

/-- What a batch up to `toHeight` is meant to do. -/
structure BatchExact (clock : ℤ → ℕ) (fromHeight toHeight : ℤ) (cacheKey : FeeCacheKey)
    (run : BatchRun) : Prop where
  requests : ∀ height ∈ run.requests, chain.genesisHeight + 1 ≤ height ∧ height ≤ toHeight
  result : ∃ e, run.result = some e ∧ e.blockHeight = toHeight ∧ run.cached.getLast? = some e
  /-- In the full mode a run that starts from an intermediate estimate ends like this one. -/
  resume : cacheKey = .full → ∀ e ∈ run.cached, e.blockHeight < toHeight →
    ∀ clock', ∃ r r', run.result = some r ∧
      (getEstimateFeePerByteForBatch config rates chain clock' fromHeight toHeight cacheKey
        (some e)).result = some r' ∧ r.Same r'

end Definitions

section Batches

variable {config : FeeEstimates} {rates : FeeRates} {chain : FeeChain} {clock : ℤ → ℕ}
  {prev : PrevFeeEstPerByte} {e : FeeEstimate} {fromHeight toHeight height : ℤ}
  {cacheKey : FeeCacheKey} {cachedFeeEstimate : Option FeeEstimate}

/-! ### One round -/

/-- The blocks of a batch lie after the genesis block, up to the one after the previous one. -/
theorem mem_blockBatch {genesisHeight blockHeight : ℤ} (hle : genesisHeight ≤ blockHeight)
    (h : height ∈ blockBatch config genesisHeight blockHeight) :
    genesisHeight + 1 ≤ height ∧ height ≤ blockHeight + 1 := by
  obtain ⟨i, hi, rfl⟩ := List.mem_map.mp h
  rw [List.mem_range] at hi
  rw [finalEMABatchSize] at hi
  split_ifs at hi <;> omega

/-- With a batch size of at least one the first block is there. -/
theorem blockBatch_ne_nil_iff {genesisHeight blockHeight : ℤ} (hle : genesisHeight ≤ blockHeight) :
    blockBatch config genesisHeight blockHeight ≠ [] ↔ 1 ≤ config.emaBatchSize := by
  rw [blockBatch, ne_eq, List.map_eq_nil_iff, List.range_eq_nil, finalEMABatchSize]
  split_ifs <;> omega

theorem exists_mapM_getBlockByHeight {heights : List ℤ}
    (h : ∀ height ∈ heights, height ≤ chain.tip) :
    heights.mapM chain.getBlockByHeight = some (heights.map chain.block) := by
  induction heights with
  | nil => rfl
  | cons height heights ih =>
    rw [List.forall_mem_cons] at h
    rw [List.mapM_cons, ih h.2, FeeChain.getBlockByHeight, if_pos h.1]
    rfl

/-- A round succeeds if there is a block to estimate. -/
theorem exists_estimateNext (rates : FeeRates) (clock : ℤ → ℕ)
    (hle : chain.genesisHeight ≤ prev.blockHeight) (htip : prev.blockHeight + 1 ≤ chain.tip)
    (hsize : 1 ≤ config.emaBatchSize) :
    ∃ e, estimateNext config rates chain clock prev = some e := by
  have hbounds : ∀ height ∈ blockBatch config chain.genesisHeight prev.blockHeight,
      height ≤ chain.tip := fun height h => (mem_blockBatch hle h).2.trans htip
  have hdata := exists_mapM_getBlockByHeight hbounds
  obtain ⟨height, heights, hcons⟩ :=
    List.exists_cons_of_ne_nil ((blockBatch_ne_nil_iff hle).mpr hsize)
  obtain ⟨fp, hfp⟩ := exists_calculateFeePerByte (chain.block height)
  have hhead : ((blockBatch config chain.genesisHeight prev.blockHeight).map chain.block).head? =
      some (chain.block height) := by rw [hcons]; rfl
  exact ⟨_, Option.bind_eq_some_iff.mpr ⟨_, hdata, Option.bind_eq_some_iff.mpr
    ⟨chain.block height, hhead, Option.bind_eq_some_iff.mpr ⟨fp, hfp, rfl⟩⟩⟩⟩

/-- Without a batch it fails. -/
theorem estimateNext_eq_none (rates : FeeRates) (clock : ℤ → ℕ)
    (hle : chain.genesisHeight ≤ prev.blockHeight) (hsize : ¬ 1 ≤ config.emaBatchSize) :
    estimateNext config rates chain clock prev = none := by
  have hnil := not_not.mp (mt (blockBatch_ne_nil_iff hle).mp hsize)
  rw [estimateNext, hnil]
  rfl

/-! ### The loop -/

/-- **The loop** from below `toHeight`: it asks for blocks up to `toHeight`, and returns and stores
the estimate of that block. The induction is on the rounds, over the height that is left. -/
theorem batchLoop_spec (rates : FeeRates) (clock : ℤ → ℕ)
    (hle : chain.genesisHeight ≤ prev.blockHeight) (hlt : prev.blockHeight < toHeight)
    (htip : toHeight ≤ chain.tip) (hsize : 1 ≤ config.emaBatchSize) :
    (∀ height ∈ (batchLoop config rates chain clock toHeight prev).requests,
      chain.genesisHeight + 1 ≤ height ∧ height ≤ toHeight) ∧
    ∃ e, (batchLoop config rates chain clock toHeight prev).result = some e ∧
      e.blockHeight = toHeight ∧
      (batchLoop config rates chain clock toHeight prev).cached.getLast? = some e := by
  fun_induction batchLoop config rates chain clock toHeight prev with
  | case1 prev heights hnext =>
    -- No round fails: its blocks are at most the tip.
    obtain ⟨e, he⟩ := exists_estimateNext rates clock hle (by omega) hsize
    rw [hnext] at he
    simp at he
  | case2 prev heights e hnext hgt rest ih =>
    have hheight := estimateNext_blockHeight hnext
    obtain ⟨hrequests, e', hresult, he', hlast⟩ := ih (by change _ ≤ e.blockHeight; omega) hgt
    refine ⟨fun height h => ?_, e', hresult, he', ?_⟩
    · rcases List.mem_append.mp h with h | h
      · have hmem := mem_blockBatch hle h
        omega
      · exact hrequests height h
    · rw [List.getLast?_cons, hlast]
      rfl
  | case3 prev heights e hnext hgt =>
    have hheight := estimateNext_blockHeight hnext
    refine ⟨fun height h => ?_, e, rfl, by omega, rfl⟩
    have hmem := mem_blockBatch hle h
    omega

theorem batchLoop_result_of_some (h : estimateNext config rates chain clock prev = some e) :
    (batchLoop config rates chain clock toHeight prev).result =
      if toHeight > e.blockHeight then
        (batchLoop config rates chain clock toHeight e.toPrev).result
      else some e := by
  rw [batchLoop]
  split
  · next hnone =>
    rw [h] at hnone
    simp at hnone
  · next e' he' =>
    obtain rfl := Option.some.inj (h.symm.trans he')
    split_ifs <;> rfl

/-- The estimate returned is never that of a block at or below the start. -/
theorem batchLoop_result_gt
    (h : (batchLoop config rates chain clock toHeight prev).result = some e) :
    prev.blockHeight < e.blockHeight := by
  fun_induction batchLoop config rates chain clock toHeight prev with
  | case1 prev heights hnext => simp at h
  | case2 prev heights e' hnext hgt rest ih =>
    have hheight := estimateNext_blockHeight hnext
    have hlt : e'.blockHeight < e.blockHeight := ih h
    omega
  | case3 prev heights e' hnext hgt =>
    have hheight := estimateNext_blockHeight hnext
    obtain rfl := Option.some.inj h
    omega

theorem batchLoop_result_eq_none (hle : chain.genesisHeight ≤ prev.blockHeight)
    (hsize : ¬ 1 ≤ config.emaBatchSize) :
    (batchLoop config rates chain clock toHeight prev).result = none := by
  have hnone := estimateNext_eq_none rates clock hle hsize
  rw [batchLoop]
  split
  · rfl
  · next e he =>
    rw [hnone] at he
    simp at he

/-! ### Interrupted runs -/

/-- The estimates stored on the way lie above the start. -/
theorem batchLoop_cached_gt
    (h : e ∈ (batchLoop config rates chain clock toHeight prev).cached) :
    prev.blockHeight < e.blockHeight := by
  fun_induction batchLoop config rates chain clock toHeight prev with
  | case1 prev heights hnext => simp at h
  | case2 prev heights e' hnext hgt rest ih =>
    have hheight := estimateNext_blockHeight hnext
    rcases List.mem_cons.mp h with rfl | h
    · omega
    · have hlt : e'.blockHeight < e.blockHeight := ih h
      omega
  | case3 prev heights e' hnext hgt =>
    have hheight := estimateNext_blockHeight hnext
    obtain rfl := List.mem_singleton.mp h
    omega

/-- From an estimate stored on the way the loop goes on as it did. -/
theorem batchLoop_resume
    (h : e ∈ (batchLoop config rates chain clock toHeight prev).cached)
    (hlt : e.blockHeight < toHeight) :
    (batchLoop config rates chain clock toHeight e.toPrev).result =
      (batchLoop config rates chain clock toHeight prev).result := by
  fun_induction batchLoop config rates chain clock toHeight prev with
  | case1 prev heights hnext => simp at h
  | case2 prev heights e' hnext hgt rest ih =>
    -- What comes after a round depends on its estimate only.
    rcases List.mem_cons.mp h with rfl | h
    · rfl
    · exact ih h
  | case3 prev heights e' hnext hgt =>
    obtain rfl := List.mem_singleton.mp h
    exact absurd hlt hgt

/-- The time at which an estimate is made is only in its property `updated`. -/
theorem estimateNext_clock (clock' : ℤ → ℕ)
    (h : estimateNext config rates chain clock prev = some e) :
    ∃ e', estimateNext config rates chain clock' prev = some e' ∧ e.Same e' := by
  obtain ⟨data, hdata, h⟩ := Option.bind_eq_some_iff.mp h
  obtain ⟨block, hblock, h⟩ := Option.bind_eq_some_iff.mp h
  obtain ⟨fp, hfp, h⟩ := Option.bind_eq_some_iff.mp h
  obtain rfl := Option.some.inj h
  exact ⟨_, Option.bind_eq_some_iff.mpr ⟨data, hdata, Option.bind_eq_some_iff.mpr
    ⟨block, hblock, Option.bind_eq_some_iff.mpr ⟨fp, hfp, rfl⟩⟩⟩, rfl, rfl, rfl⟩

theorem FeeEstimate.Same.toPrev_eq {e e' : FeeEstimate} (h : e.Same e') : e.toPrev = e'.toPrev := by
  rw [FeeEstimate.toPrev, FeeEstimate.toPrev, h.1, h.2.1]

/-- The result does not depend on the times, but for `updated`. -/
theorem batchLoop_clock (clock' : ℤ → ℕ)
    (h : (batchLoop config rates chain clock toHeight prev).result = some e) :
    ∃ e', (batchLoop config rates chain clock' toHeight prev).result = some e' ∧ e.Same e' := by
  fun_induction batchLoop config rates chain clock toHeight prev with
  | case1 prev heights hnext => simp at h
  | case2 prev heights e₁ hnext hgt rest ih =>
    obtain ⟨e₂, hnext', hsame⟩ := estimateNext_clock clock' hnext
    obtain ⟨e', he', hsame'⟩ := ih h
    refine ⟨e', ?_, hsame'⟩
    rw [batchLoop_result_of_some hnext', if_pos (hsame.2.1 ▸ hgt), ← hsame.toPrev_eq]
    exact he'
  | case3 prev heights e₁ hnext hgt =>
    obtain ⟨e₂, hnext', hsame⟩ := estimateNext_clock clock' hnext
    obtain rfl := Option.some.inj h
    exact ⟨e₂, by rw [batchLoop_result_of_some hnext', if_neg (hsame.2.1 ▸ hgt)], hsame⟩

/-! ### A batch -/

theorem lt_permittedFrom (config : FeeEstimates) (chain : FeeChain) (fromHeight : ℤ) :
    (chain.genesisHeight : ℤ) < permittedFrom config chain fromHeight :=
  (le_max_left _ fromHeight).trans (le_max_right config.defaultStartBlockHeight _)

/-- Where a batch starts. -/
theorem exists_batchLoop (config : FeeEstimates) (rates : FeeRates) (chain : FeeChain)
    (clock : ℤ → ℕ) (fromHeight toHeight : ℤ) (cacheKey : FeeCacheKey)
    (cachedFeeEstimate : Option FeeEstimate) :
    ∃ prev, prev.blockHeight = startHeight config chain fromHeight cacheKey cachedFeeEstimate ∧
      getEstimateFeePerByteForBatch config rates chain clock fromHeight toHeight cacheKey
        cachedFeeEstimate = batchLoop config rates chain clock toHeight prev := by
  have hpos := lt_permittedFrom config chain fromHeight
  by_cases hgt : permittedFrom config chain fromHeight >
      cachedFeeEstimateHeight cacheKey cachedFeeEstimate
  · refine ⟨⟨⟨0, 0, 0⟩, permittedFrom config chain fromHeight - 1⟩, ?_, ?_⟩
    · rw [startHeight, if_pos hgt]
    · simp only [getEstimateFeePerByteForBatch, if_pos hgt]
  · -- A missing estimate counts as height 0, and so does any estimate in the quick mode.
    have hzero : ¬ cachedFeeEstimateHeight cacheKey cachedFeeEstimate = 0 := by omega
    rw [startHeight, if_neg hgt]
    match cacheKey, cachedFeeEstimate with
    | .quick, _ => exact absurd rfl hzero
    | .full, none => exact absurd rfl hzero
    | .full, some e =>
      refine ⟨e.toPrev, rfl, ?_⟩
      simp only [getEstimateFeePerByteForBatch, if_neg hgt, Option.map_some]

theorem le_startHeight (config : FeeEstimates) (chain : FeeChain) (fromHeight : ℤ)
    (cacheKey : FeeCacheKey) (cachedFeeEstimate : Option FeeEstimate) :
    permittedFrom config chain fromHeight - 1 ≤
      startHeight config chain fromHeight cacheKey cachedFeeEstimate := by
  rw [startHeight]
  split_ifs <;> omega

/-- In the full mode a batch continues from the stored estimate, if it is not below the start. -/
theorem getEstimateFeePerByteForBatch_cached
    (h : permittedFrom config chain fromHeight ≤ e.blockHeight) :
    getEstimateFeePerByteForBatch config rates chain clock fromHeight toHeight .full (some e) =
      batchLoop config rates chain clock toHeight e.toPrev := by
  have hgt : ¬ permittedFrom config chain fromHeight > cachedFeeEstimateHeight .full (some e) :=
    not_lt.mpr h
  simp only [getEstimateFeePerByteForBatch, if_neg hgt, Option.map_some]

/-- **When a batch does what it is meant to.** -/
theorem batch_exact_iff (config : FeeEstimates) (rates : FeeRates) (chain : FeeChain)
    (clock : ℤ → ℕ) (fromHeight : ℤ) (cacheKey : FeeCacheKey)
    (cachedFeeEstimate : Option FeeEstimate) (htip : toHeight ≤ chain.tip) :
    BatchExact config rates chain clock fromHeight toHeight cacheKey
        (getEstimateFeePerByteForBatch config rates chain clock fromHeight toHeight cacheKey
          cachedFeeEstimate) ↔
      1 ≤ config.emaBatchSize ∧
        startHeight config chain fromHeight cacheKey cachedFeeEstimate < toHeight := by
  obtain ⟨prev, hprev, hrun⟩ := exists_batchLoop config rates chain clock fromHeight toHeight
    cacheKey cachedFeeEstimate
  have hpermitted := lt_permittedFrom config chain fromHeight
  have hstart := le_startHeight config chain fromHeight cacheKey cachedFeeEstimate
  have hle : (chain.genesisHeight : ℤ) ≤ prev.blockHeight := by omega
  rw [hrun, ← hprev]
  constructor
  · intro h
    obtain ⟨e, hresult, hheight, -⟩ := h.result
    have hgt := batchLoop_result_gt hresult
    refine ⟨by_contra fun hsize => ?_, by omega⟩
    rw [batchLoop_result_eq_none hle hsize] at hresult
    simp at hresult
  · rintro ⟨hsize, hlt⟩
    obtain ⟨hrequests, e, hresult, hheight, hlast⟩ :=
      batchLoop_spec rates clock hle hlt htip hsize
    refine ⟨hrequests, ⟨e, hresult, hheight, hlast⟩, fun hfull e' he' hlt' clock' => ?_⟩
    have hgt := batchLoop_cached_gt he'
    have hresume := batchLoop_resume he' hlt'
    obtain ⟨r', hr', hsame⟩ := batchLoop_clock clock' (hresume.trans hresult)
    refine ⟨e, r', hresult, ?_, hsame⟩
    rw [hfull, getEstimateFeePerByteForBatch_cached (by omega)]
    exact hr'

end Batches

/-! ### A chain of empty blocks -/

/-- Empty blocks from height 0 to 10. -/
def quietChain : FeeChain := ⟨0, 10, fun height => ⟨"block", height, []⟩, fun _ => rfl⟩

/-- Both modes, with batches of 20 blocks. -/
def batchConfig : FeeEstimates := ⟨true, true, 1, 1, 20⟩

/-- Any rates will do. -/
def batchRates : FeeRates := ⟨1 / 2, 10, half_alpha_pos, half_alpha_lt_one⟩

/-- An estimate for the given block. -/
def quietEstimate (blockHeight : ℤ) : FeeEstimate := ⟨⟨0, 0, 0⟩, 0, blockHeight, "block"⟩

/-- With an estimate for block 4 in the cache the blocks up to 10 are estimated. -/
theorem batch_exact_from_four :
    quietChain.genesisHeight < (10 : ℤ) ∧ (10 : ℤ) ≤ quietChain.tip ∧
      BatchExact batchConfig batchRates quietChain (fun _ => 0) 1 10 .full
        (getEstimateFeePerByteForBatch batchConfig batchRates quietChain (fun _ => 0) 1 10 .full
          (some (quietEstimate 4))) :=
  ⟨by decide, by decide, (batch_exact_iff batchConfig batchRates quietChain (fun _ => 0) 1 .full
    (some (quietEstimate 4)) (by decide : (10 : ℤ) ≤ quietChain.tip)).mpr ⟨by decide, by decide⟩⟩

/-- With an estimate for block 10 in the cache, another batch for block 10 asks for block 11, and
fails. -/
theorem repeated_block_beyond_tip :
    (10 : ℤ) ≤ quietChain.tip ∧
      11 ∈ (getEstimateFeePerByteForBatch batchConfig batchRates quietChain (fun _ => 0) 1 10 .full
        (some (quietEstimate 10))).requests ∧
      (getEstimateFeePerByteForBatch batchConfig batchRates quietChain (fun _ => 0) 1 10 .full
        (some (quietEstimate 10))).result = none := by
  have hnone : estimateNext batchConfig batchRates quietChain (fun _ => 0)
      (quietEstimate 10).toPrev = none := rfl
  rw [getEstimateFeePerByteForBatch_cached (by decide), batchLoop]
  split
  · exact ⟨by decide, by decide, rfl⟩
  · next e he =>
    rw [hnone] at he
    simp at he

end SwaptoshiService
