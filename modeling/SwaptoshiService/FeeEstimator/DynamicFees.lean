import Mathlib.Data.Int.Notation
import Mathlib.Data.Nat.Notation
import Mathlib.Logic.Function.Basic
import SwaptoshiService.Lib.Run

/-!
# Dynamic fee estimates

For each new block `newBlockListener` (`fee-estimator/shared/dynamicFees.js`) calls
`checkAndProcessExecution` (`shared/utils/dynamicFees.js`) once per enabled mode. The call reads the
cache, checks a flag of `executionStatus`, sets it, runs `getEstimateFeePerByteForBatch` and resets
the flag. **The flag is never set**: `executionStatus` is a frozen object, and outside strict mode
an assignment to a property of a frozen object has no effect.

`FeeStep` lists the steps between two suspensions. Only the heights of the estimates are kept; the
estimates themselves are floating-point numbers. `estimations_exclude`: batches exclude each other,
and the height stored for the full mode never decreases, in the runs in which a call gets through
the check only when no batch for its cache key is in progress, and the first call that does not wait
breaks the exclusion.
-/

namespace SwaptoshiService

/-- `config.cacheKeys`. -/
inductive FeeCacheKey
  | full
  | quick
  deriving DecidableEq, Repr

/-- `config.feeEstimates`, as far as it decides which heights are used. -/
structure FeeEstimates where
  quickAlgorithmEnabled : Bool
  fullAlgorithmEnabled : Bool
  coldStartBatchSize : ℤ
  defaultStartBlockHeight : ℤ
  emaBatchSize : ℤ

/-- Where a run of `getEstimateFeePerByteForBatch` waits. -/
inductive BatchPhase
  /-- For the height of the genesis block. -/
  | starting
  /-- For the cached estimate. -/
  | reading (fromHeight : ℤ)
  /-- The cache has answered. -/
  | read (fromHeight : ℤ) (cachedFeeEstimate : Option ℤ)
  /-- For the blocks up to the one after `prevFeeEstPerByte`. -/
  | fetching (blockHeight : ℤ)
  /-- For an estimate to be stored. -/
  | storing (blockHeight : ℤ)
  /-- The estimate has been stored. -/
  | stored (blockHeight : ℤ)
  deriving DecidableEq, Repr

/-- A call of `checkAndProcessExecution`. -/
structure FeeCall where
  fromHeight : ℤ
  toHeight : ℤ
  cacheKey : FeeCacheKey
  /-- `none` while it waits for the cache before the check. -/
  batch : Option BatchPhase
  deriving DecidableEq, Repr

/-- The calls that a new block starts. -/
def newBlockListener (config : FeeEstimates) (height : ℤ) : List FeeCall :=
  (if config.fullAlgorithmEnabled then
    [⟨config.defaultStartBlockHeight, height, .full, none⟩] else []) ++
  if config.quickAlgorithmEnabled then
    [⟨height - config.coldStartBatchSize, height, .quick, none⟩] else []

/-- `finalEMABatchSize`. -/
def finalEMABatchSize (config : FeeEstimates) (genesisHeight blockHeight : ℤ) : ℤ :=
  if config.emaBatchSize > blockHeight - genesisHeight then blockHeight - genesisHeight + 1
  else config.emaBatchSize

/-- The heights of the blocks of `blockBatch.data`. -/
def blockBatch (config : FeeEstimates) (genesisHeight blockHeight : ℤ) : List ℤ :=
  (List.range (finalEMABatchSize config genesisHeight blockHeight).toNat).map
    fun i : ℕ => blockHeight + 1 - (i : ℤ)

/-- What the run does when its wait is over; `none` when it ends. `cached` is the height of the
estimate that is stored under its cache key. -/
def BatchPhase.next (config : FeeEstimates) (genesisHeight : ℤ) (cached : Option ℤ)
    (call : FeeCall) : BatchPhase → Option BatchPhase
  | .starting =>
    some (.reading (max config.defaultStartBlockHeight (max (genesisHeight + 1) call.fromHeight)))
  | .reading fromHeight => some (.read fromHeight cached)
  | .read fromHeight cachedFeeEstimate =>
    let cachedFeeEstimateHeight :=
      if call.cacheKey = .quick then 0 else cachedFeeEstimate.getD 0
    if fromHeight > cachedFeeEstimateHeight then some (.fetching (fromHeight - 1))
    else cachedFeeEstimate.map .fetching
  -- The estimate is for the first block of the batch; without one the run throws.
  | .fetching blockHeight => (blockBatch config genesisHeight blockHeight).head?.map .storing
  | .storing blockHeight => some (.stored blockHeight)
  | .stored blockHeight =>
    if call.toHeight > blockHeight then some (.fetching blockHeight) else none

/-- The height of the estimate that is written to the cache in a phase. -/
def BatchPhase.write : BatchPhase → Option ℤ
  | .storing blockHeight => some blockHeight
  | _ => none

/-- An assignment to a property of a frozen object. -/
def assignFrozen (executionStatus : FeeCacheKey → Bool) (_ : FeeCacheKey) (_ : Bool) :
    FeeCacheKey → Bool :=
  executionStatus

/-- The cache, the flags and the calls, each under a name of its own. -/
structure FeeEstimator where
  /-- The height of the stored estimates. -/
  cache : FeeCacheKey → Option ℤ
  executionStatus : FeeCacheKey → Bool
  calls : ℕ → Option FeeCall

namespace FeeEstimator

/-- No call has been made; the cache may hold estimates of an earlier process. -/
def idle (cache : FeeCacheKey → Option ℤ) : FeeEstimator := ⟨cache, fun _ => false, fun _ => none⟩

/-- Another phase of a call. -/
def setCall (id : ℕ) (call : Option FeeCall) (s : FeeEstimator) : FeeEstimator :=
  { s with calls := Function.update s.calls id call }

/-- `executionStatus[cacheKey] = running`. -/
def setStatus (cacheKey : FeeCacheKey) (running : Bool) (s : FeeEstimator) : FeeEstimator :=
  { s with executionStatus := assignFrozen s.executionStatus cacheKey running }

/-- `cacheRedisFees.set(cacheKey, estimate)`, if there is an estimate. -/
def store (cacheKey : FeeCacheKey) (blockHeight : Option ℤ) (s : FeeEstimator) : FeeEstimator :=
  match blockHeight with
  | some blockHeight => { s with cache := Function.update s.cache cacheKey (some blockHeight) }
  | none => s

/-- The check of `checkAndProcessExecution`. -/
def check (id : ℕ) (call : FeeCall) (s : FeeEstimator) : FeeEstimator :=
  if s.executionStatus call.cacheKey then s.setCall id none
  else (s.setStatus call.cacheKey true).setCall id (some { call with batch := some .starting })

/-- The batch of a call ends: its `finally` block runs. -/
def finish (id : ℕ) (call : FeeCall) (s : FeeEstimator) : FeeEstimator :=
  (s.setStatus call.cacheKey false).setCall id none

/-- The batch of a call goes on from a phase. -/
def resume (config : FeeEstimates) (genesisHeight : ℤ) (id : ℕ) (call : FeeCall)
    (phase : BatchPhase) (s : FeeEstimator) : FeeEstimator :=
  match phase.next config genesisHeight (s.cache call.cacheKey) call with
  | some phase' =>
    (s.store call.cacheKey phase.write).setCall id (some { call with batch := some phase' })
  | none => (s.store call.cacheKey phase.write).finish id call

end FeeEstimator

/-- The steps: a check for a cache key, or something else. -/
inductive FeeAction
  | check (cacheKey : FeeCacheKey)
  | other
  deriving DecidableEq, Repr

/-- One step between two suspensions. -/
inductive FeeStep (config : FeeEstimates) (genesisHeight : ℤ) :
    FeeEstimator → FeeAction → FeeEstimator → Prop
  | start {s : FeeEstimator} {height : ℤ} {call : FeeCall} (id : ℕ)
      (hcall : call ∈ newBlockListener config height) (hid : s.calls id = none) :
      FeeStep config genesisHeight s .other (s.setCall id (some call))
  | check {s : FeeEstimator} {call : FeeCall} (id : ℕ) (hid : s.calls id = some call)
      (hbatch : call.batch = none) :
      FeeStep config genesisHeight s (.check call.cacheKey) (s.check id call)
  /-- The cache cannot be read before the check. -/
  | reject {s : FeeEstimator} {call : FeeCall} (id : ℕ) (hid : s.calls id = some call)
      (hbatch : call.batch = none) :
      FeeStep config genesisHeight s .other (s.setCall id none)
  | resume {s : FeeEstimator} {call : FeeCall} {phase : BatchPhase} (id : ℕ)
      (hid : s.calls id = some call) (hbatch : call.batch = some phase) :
      FeeStep config genesisHeight s .other (s.resume config genesisHeight id call phase)
  /-- The cache or the node fails. -/
  | fail {s : FeeEstimator} {call : FeeCall} {phase : BatchPhase} (id : ℕ)
      (hid : s.calls id = some call) (hbatch : call.batch = some phase) :
      FeeStep config genesisHeight s .other (s.finish id call)

namespace FeeEstimator

/-- A batch for the cache key is in progress. -/
def InProgress (s : FeeEstimator) (cacheKey : FeeCacheKey) (id : ℕ) : Prop :=
  ∃ call, s.calls id = some call ∧ call.cacheKey = cacheKey ∧ call.batch ≠ none

/-- At most one batch is in progress per cache key. -/
def Exclusive (s : FeeEstimator) : Prop :=
  ∀ cacheKey id id', s.InProgress cacheKey id → s.InProgress cacheKey id' → id = id'

/-- No batch is in progress for the cache key of the check. -/
def Alone (s : FeeEstimator) : FeeAction → Prop
  | .check cacheKey => ∀ id, ¬ s.InProgress cacheKey id
  | .other => True

end FeeEstimator

/-! ### What a batch knows of the stored estimate -/

/-- What the batch has read is what is stored, and the stored estimate is not ahead of its own. -/
def BatchPhase.Fits (stored : Option ℤ) : BatchPhase → Prop
  | .starting | .reading _ => True
  | .read _ cachedFeeEstimate => cachedFeeEstimate = stored
  | .fetching blockHeight | .storing blockHeight | .stored blockHeight =>
    ∀ height, stored = some height → height ≤ blockHeight

/-- The estimate is for the block after the previous one. -/
theorem head?_blockBatch {config : FeeEstimates} {genesisHeight blockHeight height : ℤ}
    (h : (blockBatch config genesisHeight blockHeight).head? = some height) :
    height = blockHeight + 1 := by
  rw [blockBatch, List.head?_map, Option.map_eq_some_iff] at h
  obtain ⟨i, hi, rfl⟩ := h
  rw [List.head?_range] at hi
  split at hi
  · exact absurd hi (by simp)
  · obtain rfl := Option.some.inj hi
    omega

/-- The next phase of a batch for the full mode fits to what is stored then. -/
theorem BatchPhase.Fits.next {config : FeeEstimates} {genesisHeight : ℤ} {stored : Option ℤ}
    {call : FeeCall} {phase phase' : BatchPhase} (h : phase.Fits stored)
    (hfull : call.cacheKey = .full)
    (hnext : phase.next config genesisHeight stored call = some phase') :
    phase'.Fits (phase.write.or stored) := by
  cases phase with
  | starting =>
    obtain rfl := Option.some.inj hnext
    exact trivial
  | reading fromHeight =>
    obtain rfl := Option.some.inj hnext
    exact rfl
  | read fromHeight cachedFeeEstimate =>
    -- It starts below `fromHeight` if that is above the stored height, and there otherwise.
    obtain rfl : cachedFeeEstimate = stored := h
    have hne : ¬ call.cacheKey = .quick := by simp [hfull]
    simp only [BatchPhase.next, if_neg hne] at hnext
    split at hnext
    · obtain rfl := Option.some.inj hnext
      intro height hheight
      obtain rfl : cachedFeeEstimate = some height := hheight
      rename_i hlt
      rw [Option.getD_some] at hlt
      omega
    · obtain ⟨blockHeight, hcached, rfl⟩ := Option.map_eq_some_iff.1 hnext
      intro height hheight
      have heq := Option.some.inj (hcached.symm.trans hheight)
      omega
  | fetching blockHeight =>
    obtain ⟨height, hhead, rfl⟩ := Option.map_eq_some_iff.1 hnext
    obtain rfl := head?_blockBatch hhead
    intro height hheight
    have hle := h height hheight
    omega
  | storing blockHeight =>
    obtain rfl := Option.some.inj hnext
    intro height hheight
    obtain rfl := Option.some.inj hheight
    exact Int.le_refl _
  | stored blockHeight =>
    simp only [BatchPhase.next] at hnext
    split at hnext
    · obtain rfl := Option.some.inj hnext
      exact h
    · exact absurd hnext (by simp)

/-- What a fitting batch writes is not below what is stored. -/
theorem BatchPhase.Fits.le_write {stored : Option ℤ} {phase : BatchPhase} (h : phase.Fits stored)
    {height : ℤ} (hstored : stored = some height) :
    ∃ height', phase.write.or stored = some height' ∧ height ≤ height' := by
  cases phase with
  | storing blockHeight => exact ⟨blockHeight, rfl, h height hstored⟩
  | starting | reading | read | fetching | stored =>
    exact ⟨height, by simpa [BatchPhase.write] using hstored, Int.le_refl _⟩

/-- It also fits to what it writes. -/
theorem BatchPhase.Fits.write {stored : Option ℤ} {phase : BatchPhase} (h : phase.Fits stored) :
    phase.Fits (phase.write.or stored) := by
  cases phase with
  | storing blockHeight =>
    intro height hheight
    obtain rfl := Option.some.inj hheight
    exact Int.le_refl _
  | starting | reading | read | fetching | stored => exact h

namespace FeeEstimator

variable {config : FeeEstimates} {genesisHeight : ℤ} {s s' : FeeEstimator} {act : FeeAction}

@[simp] theorem store_calls (cacheKey : FeeCacheKey) (blockHeight : Option ℤ) :
    (s.store cacheKey blockHeight).calls = s.calls := by
  cases blockHeight <;> rfl

@[simp] theorem store_executionStatus (cacheKey : FeeCacheKey) (blockHeight : Option ℤ) :
    (s.store cacheKey blockHeight).executionStatus = s.executionStatus := by
  cases blockHeight <;> rfl

theorem store_cache_self (cacheKey : FeeCacheKey) (blockHeight : Option ℤ) :
    (s.store cacheKey blockHeight).cache cacheKey = blockHeight.or (s.cache cacheKey) := by
  cases blockHeight with
  | none => rfl
  | some blockHeight => simp [store]

theorem store_cache_of_ne {cacheKey cacheKey' : FeeCacheKey} (hne : cacheKey' ≠ cacheKey)
    (blockHeight : Option ℤ) :
    (s.store cacheKey blockHeight).cache cacheKey' = s.cache cacheKey' := by
  cases blockHeight with
  | none => rfl
  | some blockHeight => simp [store, hne]

/-- A call is replaced by one that excludes the others. -/
theorem Exclusive.setCall (h : s.Exclusive) {id : ℕ} {call : Option FeeCall}
    (hcall : ∀ call', call = some call' → call'.batch ≠ none →
      ∀ id', s.InProgress call'.cacheKey id' → id' = id) :
    (s.setCall id call).Exclusive := by
  have hnew : ∀ cacheKey id', (s.setCall id call).InProgress cacheKey id →
      (s.setCall id call).InProgress cacheKey id' → id' = id := by
    rintro cacheKey id' ⟨call', hid, rfl, hbatch⟩ ⟨call'', hid', hkey, hbatch'⟩
    by_contra hne
    simp only [FeeEstimator.setCall, Function.update_self] at hid
    simp only [FeeEstimator.setCall, Function.update_of_ne hne] at hid'
    exact hne (hcall call' hid hbatch id' ⟨call'', hid', hkey, hbatch'⟩)
  intro cacheKey i j hi hj
  by_cases hi' : i = id
  · subst hi'
    exact (hnew cacheKey j hi hj).symm
  by_cases hj' : j = id
  · subst hj'
    exact hnew cacheKey i hj hi
  obtain ⟨calli, hcalli, hkeyi⟩ := hi
  obtain ⟨callj, hcallj, hkeyj⟩ := hj
  simp only [FeeEstimator.setCall, Function.update_of_ne hi'] at hcalli
  simp only [FeeEstimator.setCall, Function.update_of_ne hj'] at hcallj
  exact h cacheKey i j ⟨calli, hcalli, hkeyi⟩ ⟨callj, hcallj, hkeyj⟩

/-- What holds while batches exclude each other. -/
structure Orderly (s : FeeEstimator) : Prop where
  exclusive : s.Exclusive
  unset : ∀ cacheKey, s.executionStatus cacheKey = false
  fits : ∀ id call phase, s.calls id = some call → call.cacheKey = .full →
    call.batch = some phase → phase.Fits (s.cache .full)

theorem orderly_idle (cache : FeeCacheKey → Option ℤ) : (idle cache).Orderly where
  exclusive _ _ _ := by
    rintro ⟨call, hcall, -⟩
    exact absurd hcall (by simp [idle])
  unset _ := rfl
  fits _ _ _ hcall := absurd hcall (by simp [idle])

theorem Orderly.setCall (h : s.Orderly) {id : ℕ} {call : Option FeeCall}
    (hcall : ∀ call', call = some call' → call'.batch ≠ none →
      ∀ id', s.InProgress call'.cacheKey id' → id' = id)
    (hfits : ∀ call' phase, call = some call' → call'.cacheKey = .full →
      call'.batch = some phase → phase.Fits (s.cache .full)) :
    (s.setCall id call).Orderly where
  exclusive := h.exclusive.setCall hcall
  unset := h.unset
  fits id' call' phase hid' := by
    by_cases hne : id' = id
    · subst hne
      simp only [FeeEstimator.setCall, Function.update_self] at hid'
      exact hfits call' phase hid'
    · simp only [FeeEstimator.setCall, Function.update_of_ne hne] at hid'
      exact h.fits id' call' phase hid'

/-- The write of a batch changes nothing for the batches of the other key. -/
theorem Orderly.store (h : s.Orderly) {id : ℕ} {call : FeeCall} {phase : BatchPhase}
    (hid : s.calls id = some call) (hbatch : call.batch = some phase) :
    (s.store call.cacheKey phase.write).Orderly where
  exclusive := by
    have hcalls := store_calls (s := s) call.cacheKey phase.write
    intro cacheKey i j hi hj
    rw [InProgress, hcalls] at hi hj
    exact h.exclusive cacheKey i j hi hj
  unset cacheKey := by
    rw [store_executionStatus]
    exact h.unset cacheKey
  fits id' call' phase' hid' hfull' hbatch' := by
    rw [store_calls] at hid'
    by_cases hfull : call.cacheKey = .full
    · obtain rfl : id' = id := h.exclusive .full id' id
        ⟨call', hid', hfull', by simp [hbatch']⟩ ⟨call, hid, hfull, by simp [hbatch]⟩
      obtain rfl := Option.some.inj (hid'.symm.trans hid)
      obtain rfl := Option.some.inj (hbatch'.symm.trans hbatch)
      rw [← hfull, store_cache_self, hfull]
      exact (h.fits id' call' phase' hid hfull hbatch).write
    · rw [store_cache_of_ne (Ne.symm hfull)]
      exact h.fits id' call' phase' hid' hfull' hbatch'

theorem Orderly.finish (h : s.Orderly) (id : ℕ) (call : FeeCall) : (s.finish id call).Orderly :=
  Orderly.setCall ⟨h.exclusive, h.unset, h.fits⟩ (fun _ h' => absurd h' (by simp))
    fun _ _ h' => absurd h' (by simp)

theorem Orderly.resume (h : s.Orderly) {id : ℕ} {call : FeeCall} {phase : BatchPhase}
    (hid : s.calls id = some call) (hbatch : call.batch = some phase) :
    (s.resume config genesisHeight id call phase).Orderly := by
  have hstore := h.store hid hbatch
  rw [FeeEstimator.resume]
  split
  · rename_i phase' hnext
    refine hstore.setCall ?_ ?_
    · intro call' hcall' _ id' hid'
      obtain rfl := Option.some.inj hcall'
      refine hstore.exclusive call.cacheKey id' id hid' ⟨call, ?_, rfl, by simp [hbatch]⟩
      rw [store_calls]
      exact hid
    · intro call' phase'' hcall' hfull hphase''
      obtain rfl := Option.some.inj hcall'
      obtain rfl := Option.some.inj hphase''
      replace hfull : call.cacheKey = .full := hfull
      rw [← hfull, store_cache_self]
      have hfits := h.fits id call phase hid hfull hbatch
      rw [← hfull] at hfits
      exact hfits.next hfull hnext
  · exact hstore.finish id call

/-- The check is passed, since the flag is not set. -/
private theorem check_eq (h : s.Orderly) (id : ℕ) (call : FeeCall) :
    s.check id call =
      (s.setStatus call.cacheKey true).setCall id (some { call with batch := some .starting }) := by
  rw [FeeEstimator.check, h.unset call.cacheKey]
  rfl

theorem Orderly.check (h : s.Orderly) {id : ℕ} {call : FeeCall}
    (hok : s.Alone (.check call.cacheKey)) : (s.check id call).Orderly := by
  rw [check_eq h]
  refine Orderly.setCall ⟨h.exclusive, h.unset, h.fits⟩ ?_ ?_
  · intro call' hcall' _ id' hid'
    obtain rfl := Option.some.inj hcall'
    exact absurd hid' (hok id')
  · intro call' phase hcall' _ hphase
    obtain rfl := Option.some.inj hcall'
    obtain rfl := Option.some.inj hphase
    exact trivial

private theorem batch_of_mem_newBlockListener {height : ℤ} {call : FeeCall}
    (h : call ∈ newBlockListener config height) : call.batch = none := by
  rw [newBlockListener, List.mem_append] at h
  rcases h with h | h
  all_goals
    split at h
    · rw [List.mem_singleton] at h
      rw [h]
    · exact absurd h (by simp)

theorem Orderly.step (h : s.Orderly) (hok : s.Alone act)
    (hstep : FeeStep config genesisHeight s act s') : s'.Orderly := by
  cases hstep with
  | start id hcall hid =>
    have hbatch := batch_of_mem_newBlockListener hcall
    refine h.setCall ?_ ?_
    · intro call' hcall' hne
      obtain rfl := Option.some.inj hcall'
      exact absurd hbatch hne
    · intro call' phase hcall' _ hphase
      obtain rfl := Option.some.inj hcall'
      exact absurd (hbatch.symm.trans hphase) (by simp)
  | check id hid hbatch => exact h.check hok
  | reject id hid hbatch =>
    exact h.setCall (fun _ h' => absurd h' (by simp)) fun _ _ h' => absurd h' (by simp)
  | resume id hid hbatch => exact h.resume hid hbatch
  | fail id hid hbatch => exact h.finish id _

/-- A call that does not wait runs a second batch. -/
theorem Orderly.alone (h : s.Orderly) (hstep : FeeStep config genesisHeight s act s')
    (h' : s'.Exclusive) : s.Alone act := by
  cases hstep with
  | @check call id hid hbatch =>
    intro id' hprogress
    obtain ⟨call', hid', hkey, hbatch'⟩ := hprogress
    have hne : id' ≠ id := by
      rintro rfl
      obtain rfl := Option.some.inj (hid'.symm.trans hid)
      exact hbatch' hbatch
    rw [check_eq h] at h'
    refine hne (h' call.cacheKey id' id ⟨call', ?_, hkey, hbatch'⟩
      ⟨{ call with batch := some .starting }, ?_, rfl, Option.some_ne_none _⟩)
    · exact (Function.update_of_ne hne _ _).trans hid'
    · exact Function.update_self id _ _
  | start | reject | resume | fail => exact trivial

/-- One step does not lower the stored height. -/
theorem Orderly.stored_le (h : s.Orderly) (hstep : FeeStep config genesisHeight s act s')
    {height : ℤ} (hstored : s.cache .full = some height) :
    ∃ height', s'.cache .full = some height' ∧ height ≤ height' := by
  cases hstep with
  | start | reject | fail => exact ⟨height, hstored, Int.le_refl _⟩
  | check id hid hbatch =>
    rw [check_eq h]
    exact ⟨height, hstored, Int.le_refl _⟩
  | @resume call phase id hid hbatch =>
    have hcache : (s.resume config genesisHeight id call phase).cache =
        (s.store call.cacheKey phase.write).cache := by
      rw [FeeEstimator.resume]
      split <;> rfl
    rw [hcache]
    by_cases hfull : call.cacheKey = .full
    · rw [hfull, store_cache_self]
      exact (h.fits id call phase hid hfull hbatch).le_write hstored
    · rw [store_cache_of_ne (Ne.symm hfull)]
      exact ⟨height, hstored, Int.le_refl _⟩

/-- **Batches exclude each other** in every run in which a call gets through the check only when no
batch for its key is in progress; the first call that does not wait breaks this. In such a run the
height of the estimate stored for the full mode never decreases. -/
theorem estimations_exclude {cache : FeeCacheKey → Option ℤ}
    (hrun : Run (FeeStep config genesisHeight) Alone (idle cache) s) :
    s.Exclusive ∧
    (∀ act s', FeeStep config genesisHeight s act s' → (s'.Exclusive ↔ s.Alone act)) ∧
    ∀ t, Run (FeeStep config genesisHeight) Alone s t → ∀ height, s.cache .full = some height →
      ∃ height', t.cache .full = some height' ∧ height ≤ height' := by
  have hs : s.Orderly := hrun.invariant Orderly (orderly_idle cache)
    fun _ _ _ h hok hstep => h.step hok hstep
  refine ⟨hs.exclusive, fun act s' hstep => ⟨hs.alone hstep, fun hok => ?_⟩, ?_⟩
  · exact (hs.step hok hstep).exclusive
  · intro t hrun' height hheight
    have ht := hrun'.invariant
      (fun t => t.Orderly ∧ ∃ height', t.cache .full = some height' ∧ height ≤ height')
      ⟨hs, height, hheight, Int.le_refl _⟩ ?_
    · exact ht.2
    · rintro t act t' ⟨horderly, height', hheight', hle⟩ hok hstep
      obtain ⟨height'', hheight'', hle'⟩ := horderly.stored_le hstep hheight'
      exact ⟨horderly.step hok hstep, height'', hheight'', Int.le_trans hle hle'⟩

/-- Only the full mode is enabled. -/
def fullOnly : FeeEstimates := ⟨false, true, 1, 1, 20⟩

/-- A call goes on: it makes the check, or its batch leaves the phase it is in. -/
def turn (config : FeeEstimates) (genesisHeight : ℤ) (s : FeeEstimator) (id : ℕ) : FeeEstimator :=
  match s.calls id with
  | none => s
  | some call =>
    match call.batch with
    | none => s.check id call
    | some phase => s.resume config genesisHeight id call phase

theorem run_turns (ids : List ℕ) :
    Run (FeeStep config genesisHeight) Unrestricted s
      (ids.foldl (turn config genesisHeight) s) := by
  induction ids generalizing s with
  | nil => exact .refl
  | cons id ids ih =>
    refine Run.trans ?_ ih
    rw [turn]
    split
    · exact .refl
    · rename_i call hid
      split
      · exact Run.refl.tail (.check id hid ‹_›) trivial
      · exact Run.refl.tail (.resume id hid ‹_›) trivial

/-- No call but this one has been made. -/
def Sole (s : FeeEstimator) (id : ℕ) : Prop := ∀ id', id' ≠ id → s.calls id' = none

private theorem Sole.setCall {id : ℕ} (h : s.Sole id) (call : Option FeeCall) :
    (s.setCall id call).Sole id := by
  intro id' hne
  simp only [FeeEstimator.setCall, Function.update_of_ne hne]
  exact h id' hne

/-- The only call goes on; its check finds no other batch. -/
private theorem Sole.turn {id : ℕ} (h : s.Sole id) :
    Run (FeeStep config genesisHeight) Alone s (s.turn config genesisHeight id) ∧
      (s.turn config genesisHeight id).Sole id := by
  rw [FeeEstimator.turn]
  split
  · exact ⟨.refl, h⟩
  · rename_i call hid
    split
    · rename_i hbatch
      constructor
      · refine Run.refl.tail (.check id hid hbatch) ?_
        rintro id' ⟨call', hid', -, hbatch'⟩
        by_cases hne : id' = id
        · subst hne
          obtain rfl := Option.some.inj (hid'.symm.trans hid)
          exact hbatch' hbatch
        · exact absurd (hid'.symm.trans (h id' hne)) (by simp)
      · rw [FeeEstimator.check]
        split
        · exact h.setCall none
        · exact Sole.setCall (s := s.setStatus call.cacheKey true) h _
    · rename_i phase hbatch
      constructor
      · exact Run.refl.tail (.resume id hid hbatch) trivial
      · have hstore : (s.store call.cacheKey phase.write).Sole id := by
          intro id' hne
          rw [store_calls]
          exact h id' hne
        rw [FeeEstimator.resume]
        split
        · exact hstore.setCall _
        · exact Sole.setCall (s := (s.store call.cacheKey phase.write).setStatus _ false) hstore _

private theorem Sole.turns {id : ℕ} (h : s.Sole id) (n : ℕ) :
    Run (FeeStep config genesisHeight) Alone s
      ((List.replicate n id).foldl (FeeEstimator.turn config genesisHeight) s) ∧
      ((List.replicate n id).foldl (FeeEstimator.turn config genesisHeight) s).Sole id := by
  induction n generalizing s with
  | zero => exact ⟨.refl, h⟩
  | succ n ih =>
    obtain ⟨hrun, hsole⟩ := @Sole.turn config genesisHeight s id h
    obtain ⟨hrun', hsole'⟩ := ih hsole
    exact ⟨hrun.trans hrun', hsole'⟩

/-- The call for block 2 has run to its end. -/
def firstDone : FeeEstimator :=
  (List.replicate 10 0).foldl (turn fullOnly 0)
    ((idle fun _ => none).setCall 0 (some ⟨1, 2, .full, none⟩))

/-- Then the call for block 3 has made its check. -/
def secondRuns : FeeEstimator :=
  turn fullOnly 0 (firstDone.setCall 1 (some ⟨1, 3, .full, none⟩)) 1

private theorem run_secondRuns :
    Run (FeeStep fullOnly 0) Alone (idle fun _ => none) secondRuns := by
  have hstart : Run (FeeStep fullOnly 0) Alone (idle fun _ => none)
      ((idle fun _ => none).setCall 0 (some ⟨1, 2, .full, none⟩)) :=
    Run.refl.tail (@FeeStep.start _ _ _ 2 _ 0 (by simp [newBlockListener, fullOnly]) rfl) trivial
  obtain ⟨hfirst, hsole⟩ := @Sole.turns fullOnly 0
    ((idle fun _ => none).setCall 0 (some ⟨1, 2, .full, none⟩)) 0 (Sole.setCall (fun _ _ => rfl) _)
    10
  have hsecond : FeeStep fullOnly 0 firstDone .other
      (firstDone.setCall 1 (some ⟨1, 3, .full, none⟩)) :=
    @FeeStep.start _ _ _ 3 _ 1 (by simp [newBlockListener, fullOnly]) (hsole 1 (by decide))
  have hsole' : (firstDone.setCall 1 (some ⟨1, 3, .full, none⟩)).Sole 1 := by
    apply Sole.setCall
    intro id' _
    by_cases hid : id' = 0
    · subst hid
      rfl
    · exact hsole id' hid
  exact ((hstart.trans hfirst).tail hsecond trivial).trans hsole'.turn.1

/-- The batch for block 3 runs alone, and it finds the estimate for block 2. -/
theorem estimations_exclude_consecutive :
    secondRuns.Exclusive ∧ secondRuns.InProgress .full 1 ∧ secondRuns.cache .full = some 2 :=
  ⟨(estimations_exclude run_secondRuns).1, ⟨⟨1, 3, .full, some .starting⟩, rfl, rfl, by simp⟩, rfl⟩

/-- Two blocks have arrived. -/
def twoCalls : FeeEstimator :=
  ((idle fun _ => none).setCall 0 (some ⟨1, 2, .full, none⟩)).setCall 1 (some ⟨1, 3, .full, none⟩)

/-- The calls for two blocks overlap: both run a batch, and the one that lags behind replaces the
estimate for block 2 by the one for block 1. -/
theorem batches_overlap :
    ∃ s t, Run (FeeStep fullOnly 0) Unrestricted (idle fun _ => none) s ∧ ¬ s.Exclusive ∧
      Run (FeeStep fullOnly 0) Unrestricted s t ∧
      s.cache .full = some 2 ∧ t.cache .full = some 1 := by
  have hcalls : Run (FeeStep fullOnly 0) Unrestricted (idle fun _ => none) twoCalls :=
    (Run.refl.tail (@FeeStep.start _ _ _ 2 _ 0 (by simp [newBlockListener, fullOnly]) rfl)
      trivial).tail (@FeeStep.start _ _ _ 3 _ 1 (by simp [newBlockListener, fullOnly]) rfl) trivial
  refine ⟨[0, 1, 0, 0, 0, 1, 1, 1, 0, 0, 0, 0, 0].foldl (turn fullOnly 0) twoCalls, _,
    hcalls.trans (run_turns _), fun hexclusive => ?_, run_turns [1, 1], rfl, rfl⟩
  have heq := hexclusive .full 0 1 ⟨⟨1, 2, .full, some (.stored 2)⟩, rfl, rfl, by simp⟩
    ⟨⟨1, 3, .full, some (.fetching 0)⟩, rfl, rfl, by simp⟩
  exact absurd heq (by decide)

end FeeEstimator

end SwaptoshiService
