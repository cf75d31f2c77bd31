import Mathlib.Data.List.Induction
import Mathlib.Data.Rat.Defs
import SwaptoshiService.FeeEstimator.DynamicFees

/-!
# The best estimate available

`getEstimateFeePerByte` (`fee-estimator/shared/dynamicFees.js`) answers with the estimate of the
full algorithm, if that is complete and at most 15 blocks behind, else with that of the quick
algorithm, if it is complete and at most 5 blocks behind. The two functions that fetch them read
**each other's cache key** (`readKey`), so the limits are swapped, and so is the preference.

`best_estimate_iff` says for which pairs of estimates this does not show.
-/

namespace SwaptoshiService

/-- The algorithms that write estimates. -/
inductive FeeAlgorithm
  | full
  | quick
  deriving DecidableEq, Repr

namespace FeeAlgorithm

/-- The algorithm is enabled. -/
def Enabled (config : FeeEstimates) : FeeAlgorithm → Prop
  | full => config.fullAlgorithmEnabled = true
  | quick => config.quickAlgorithmEnabled = true

/-- The key under which `calculateEstimateFeePerByteFull` and `calculateEstimateFeePerByteQuick`
have their estimates stored. -/
def writeKey : FeeAlgorithm → FeeCacheKey
  | full => .full
  | quick => .quick

/-- The key that `getEstimateFeePerByteFull` and `getEstimateFeePerByteQuick` read. -/
def readKey : FeeAlgorithm → FeeCacheKey
  | full => .quick
  | quick => .full

end FeeAlgorithm

/-- What is stored under a cache key, with the properties it has. -/
structure CachedFeeEstimate where
  low : Option ℚ
  med : Option ℚ
  high : Option ℚ
  updated : Option ℕ
  blockHeight : Option ℤ
  blockID : Option String
  deriving DecidableEq

/-- `getFeeConstants`. -/
structure FeeConstants where
  feeTokenID : String
  minFeePerByte : ℕ
  deriving DecidableEq, Repr

/-- What `getEstimateFeePerByte` returns: an estimate with the constants, or `SERVICE_UNAVAILABLE`
with an error. -/
inductive FeeEstimateAnswer
  | estimate (estimate : CachedFeeEstimate) (constants : FeeConstants)
  | serviceUnavailable (error : String)
  deriving DecidableEq

/-- `validate`: all properties are there, and the estimate is not too far behind. -/
def CachedFeeEstimate.validate (latestHeight allowedLag : ℤ) (e : CachedFeeEstimate) : Bool :=
  e.low.isSome && e.med.isSome && e.high.isSome && e.updated.isSome && e.blockID.isSome &&
    e.blockHeight.any fun blockHeight => decide (latestHeight - blockHeight ≤ allowedLag)

def getEstimateFeePerByte (config : FeeEstimates) (constants : FeeConstants) (latestHeight : ℤ)
    (cache : FeeCacheKey → Option CachedFeeEstimate) : FeeEstimateAnswer :=
  if config.quickAlgorithmEnabled || config.fullAlgorithmEnabled then
    let cachedFeeEstPerByteFull := cache FeeAlgorithm.full.readKey
    match cachedFeeEstPerByteFull.filter (·.validate latestHeight 15) with
    | some e => .estimate e constants
    | none =>
      let cachedFeeEstPerByteQuick := cache FeeAlgorithm.quick.readKey
      match cachedFeeEstPerByteQuick.filter (·.validate latestHeight 5) with
      | some e => .estimate e constants
      | none => .serviceUnavailable
          "The estimates are currently under processing. Please retry in 30 seconds."
  else .serviceUnavailable "The dynamic fees algorithm has not been enabled."

/-! ### What the algorithms have written -/

/-- An algorithm that is enabled stores an estimate. -/
structure EstimateWrite (config : FeeEstimates) where
  algorithm : FeeAlgorithm
  estimate : CachedFeeEstimate
  enabled : algorithm.Enabled config

/-- The cache after a list of writes. -/
def cacheAfter {config : FeeEstimates} (writes : List (EstimateWrite config)) :
    FeeCacheKey → Option CachedFeeEstimate :=
  writes.foldl (fun cache w => Function.update cache w.algorithm.writeKey (some w.estimate))
    fun _ => none

/-- The last estimate that an algorithm has written. -/
def lastWritten {config : FeeEstimates} (writes : List (EstimateWrite config))
    (algorithm : FeeAlgorithm) : Option CachedFeeEstimate :=
  (writes.reverse.find? (·.algorithm = algorithm)).map EstimateWrite.estimate

/-- An estimate is there, is complete, and at most so many blocks behind. -/
def Fresh (latestHeight allowedLag : ℤ) (stored : Option CachedFeeEstimate)
    (e : CachedFeeEstimate) : Prop :=
  stored = some e ∧ e.validate latestHeight allowedLag = true

/-- The answer is the first estimate, if it is at most 15 blocks behind, else the second one, if it
is at most 5 blocks behind, else that there is none. -/
structure IsPreferred (constants : FeeConstants) (latestHeight : ℤ)
    (first second : Option CachedFeeEstimate) (answer : FeeEstimateAnswer) : Prop where
  first_fresh : ∀ e, Fresh latestHeight 15 first e → answer = .estimate e constants
  second_fresh : ∀ e, (∀ e', ¬ Fresh latestHeight 15 first e') → Fresh latestHeight 5 second e →
    answer = .estimate e constants
  unavailable : (∀ e, ¬ Fresh latestHeight 15 first e) → (∀ e, ¬ Fresh latestHeight 5 second e) →
    ∃ error, answer = .serviceUnavailable error

/-- The swapped limits do not show: if both estimates are at most 15 blocks behind, they are the
same, and if only one is, it is at most 5 blocks behind. -/
structure SwapUnseen (latestHeight : ℤ) (full quick : Option CachedFeeEstimate) : Prop where
  both : ∀ e e', Fresh latestHeight 15 full e → Fresh latestHeight 15 quick e' → e = e'
  full_only : ∀ e, Fresh latestHeight 15 full e → (∀ e', ¬ Fresh latestHeight 15 quick e') →
    Fresh latestHeight 5 full e
  quick_only : ∀ e, Fresh latestHeight 15 quick e → (∀ e', ¬ Fresh latestHeight 15 full e') →
    Fresh latestHeight 5 quick e

section BestEstimate

variable {config : FeeEstimates} {constants : FeeConstants} {latestHeight allowedLag : ℤ}
  {writes : List (EstimateWrite config)} {stored full quick : Option CachedFeeEstimate}
  {e e' : CachedFeeEstimate} {answer : FeeEstimateAnswer}

theorem writeKey_inj {a a' : FeeAlgorithm} : a.writeKey = a'.writeKey ↔ a = a' := by
  cases a <;> cases a' <;> decide

/-- **What a key holds**: the last estimate of the algorithm that writes under it. -/
theorem cacheAfter_writeKey (writes : List (EstimateWrite config)) (algorithm : FeeAlgorithm) :
    cacheAfter writes algorithm.writeKey = lastWritten writes algorithm := by
  induction writes using List.reverseRecOn with
  | nil => rfl
  | append_singleton writes w ih =>
    rw [cacheAfter, List.foldl_append, List.foldl_cons, List.foldl_nil, ← cacheAfter, lastWritten,
      List.reverse_append, List.reverse_singleton, List.singleton_append, List.find?_cons]
    by_cases heq : w.algorithm = algorithm
    · rw [heq, Function.update_self]
      simp
    · rw [Function.update_of_ne fun h => heq (writeKey_inj.mp h).symm, ih, lastWritten]
      simp [heq]

/-- Without an enabled algorithm there is no estimate. -/
theorem lastWritten_eq_none (h : ∀ algorithm, ¬ FeeAlgorithm.Enabled config algorithm)
    (algorithm : FeeAlgorithm) : lastWritten writes algorithm = none := by
  cases writes with
  | nil => rfl
  | cons w writes => exact absurd w.enabled (h w.algorithm)

theorem Fresh.eq (h : Fresh latestHeight allowedLag stored e)
    {allowedLag' : ℤ} (h' : Fresh latestHeight allowedLag' stored e') : e = e' :=
  Option.some.inj (h.1.symm.trans h'.1)

theorem filter_eq_some_iff :
    stored.filter (·.validate latestHeight allowedLag) = some e ↔
      Fresh latestHeight allowedLag stored e := Option.filter_eq_some_iff

/-- What is at most 5 blocks behind is at most 15 blocks behind. -/
theorem Fresh.mono (h : Fresh latestHeight 5 stored e) : Fresh latestHeight 15 stored e := by
  obtain ⟨hstored, hvalid⟩ := h
  refine ⟨hstored, ?_⟩
  rw [CachedFeeEstimate.validate] at hvalid ⊢
  rw [Bool.and_eq_true] at hvalid ⊢
  refine ⟨hvalid.1, ?_⟩
  cases hheight : e.blockHeight with
  | none => simp [hheight] at hvalid
  | some blockHeight =>
    have hlag : latestHeight - blockHeight ≤ 5 := by simpa [hheight] using hvalid.2
    simpa using (by omega : latestHeight - blockHeight ≤ 15)

/-- **The answer prefers the quick algorithm.** -/
theorem getEstimateFeePerByte_isPreferred (config : FeeEstimates) (constants : FeeConstants)
    (latestHeight : ℤ) (writes : List (EstimateWrite config)) :
    IsPreferred constants latestHeight (lastWritten writes .quick) (lastWritten writes .full)
      (getEstimateFeePerByte config constants latestHeight (cacheAfter writes)) := by
  have hquick : cacheAfter writes FeeAlgorithm.full.readKey = lastWritten writes .quick :=
    cacheAfter_writeKey writes .quick
  have hfull : cacheAfter writes FeeAlgorithm.quick.readKey = lastWritten writes .full :=
    cacheAfter_writeKey writes .full
  rw [getEstimateFeePerByte]
  split_ifs with henabled
  · simp only [hquick, hfull]
    refine ⟨fun e he => ?_, fun e hnone he => ?_, fun hnone hnone' => ?_⟩
    · rw [filter_eq_some_iff.mpr he]
    · rw [Option.eq_none_iff_forall_ne_some.mpr fun e' h => hnone e' (filter_eq_some_iff.mp h),
        filter_eq_some_iff.mpr he]
    · rw [Option.eq_none_iff_forall_ne_some.mpr fun e' h => hnone e' (filter_eq_some_iff.mp h),
        Option.eq_none_iff_forall_ne_some.mpr fun e' h => hnone' e' (filter_eq_some_iff.mp h)]
      exact ⟨_, rfl⟩
  · -- Nothing has been written.
    have hdisabled : ∀ algorithm, ¬ FeeAlgorithm.Enabled config algorithm := by
      rintro (_ | _) h <;> simp [FeeAlgorithm.Enabled] at h <;> simp [h] at henabled
    have hnone : ∀ algorithm allowedLag e,
        ¬ Fresh latestHeight allowedLag (lastWritten writes algorithm) e := by
      intro algorithm allowedLag e he
      have hsome := he.1
      rw [lastWritten_eq_none hdisabled] at hsome
      simp at hsome
    exact ⟨fun e he => absurd he (hnone _ _ _), fun e _ he => absurd he (hnone _ _ _),
      fun _ _ => ⟨_, rfl⟩⟩

/-- One answer can follow both preferences. -/
theorem IsPreferred.swap_iff (h : IsPreferred constants latestHeight quick full answer) :
    IsPreferred constants latestHeight full quick answer ↔ SwapUnseen latestHeight full quick := by
  constructor
  · intro hbest
    refine ⟨fun e e' he he' => ?_, fun e he hnone => ?_, fun e he hnone => ?_⟩
    · exact (FeeEstimateAnswer.estimate.inj
        ((hbest.first_fresh e he).symm.trans (h.first_fresh e' he'))).1
    · -- A stale full estimate is not answered, though it should be.
      by_contra hstale
      obtain ⟨error, herror⟩ := h.unavailable hnone fun e' he' => hstale (he'.eq he ▸ he')
      exact absurd ((hbest.first_fresh e he).symm.trans herror) (by simp)
    · -- A stale quick estimate is answered, though it should not be.
      by_contra hstale
      obtain ⟨error, herror⟩ := hbest.unavailable hnone fun e' he' => hstale (he'.eq he ▸ he')
      exact absurd ((h.first_fresh e he).symm.trans herror) (by simp)
  · intro hunseen
    refine ⟨fun e he => ?_, fun e _ he => h.first_fresh e he.mono, fun hnone hnone' => ?_⟩
    · by_cases hquick : ∃ e', Fresh latestHeight 15 quick e'
      · obtain ⟨e', he'⟩ := hquick
        rw [hunseen.both e e' he he']
        exact h.first_fresh e' he'
      · have hnone := not_exists.mp hquick
        exact h.second_fresh e hnone (hunseen.full_only e he hnone)
    · refine h.unavailable (fun e he => ?_) fun e he => hnone e he.mono
      exact hnone' e (hunseen.quick_only e he hnone)

/-- **When the answer is the best estimate**, whatever the algorithms have written. -/
theorem best_estimate_iff (config : FeeEstimates) (constants : FeeConstants) (latestHeight : ℤ)
    (writes : List (EstimateWrite config)) :
    IsPreferred constants latestHeight (lastWritten writes .full) (lastWritten writes .quick)
        (getEstimateFeePerByte config constants latestHeight (cacheAfter writes)) ↔
      SwapUnseen latestHeight (lastWritten writes .full) (lastWritten writes .quick) :=
  (getEstimateFeePerByte_isPreferred config constants latestHeight writes).swap_iff

end BestEstimate

/-! ### A full estimate that is 10 blocks behind -/

/-- Only the full algorithm. -/
def fullConfig : FeeEstimates := ⟨false, true, 1, 1, 20⟩

/-- A complete estimate for block 90. -/
def estimate90 : CachedFeeEstimate := ⟨some 1, some 2, some 4, some 0, some 90, some "block"⟩

/-- With the full estimate 10 blocks behind and nothing else, there is no answer. -/
theorem full_estimate_unavailable :
    let writes : List (EstimateWrite fullConfig) := [⟨.full, estimate90, rfl⟩]
    Fresh 100 15 (lastWritten writes .full) estimate90 ∧
      getEstimateFeePerByte fullConfig ⟨"00", 1000⟩ 100 (cacheAfter writes) =
        .serviceUnavailable
          "The estimates are currently under processing. Please retry in 30 seconds." ∧
      ¬ IsPreferred ⟨"00", 1000⟩ 100 (lastWritten writes .full) (lastWritten writes .quick)
        (getEstimateFeePerByte fullConfig ⟨"00", 1000⟩ 100 (cacheAfter writes)) := by
  intro writes
  have hfresh : Fresh 100 15 (lastWritten writes .full) estimate90 := ⟨rfl, rfl⟩
  have hanswer : getEstimateFeePerByte fullConfig ⟨"00", 1000⟩ 100 (cacheAfter writes) =
      .serviceUnavailable
        "The estimates are currently under processing. Please retry in 30 seconds." := rfl
  refine ⟨hfresh, hanswer, fun h => ?_⟩
  exact absurd ((h.first_fresh _ hfresh).symm.trans hanswer) (by simp)

end SwaptoshiService
