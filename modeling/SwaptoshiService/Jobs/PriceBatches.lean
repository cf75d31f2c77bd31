import SwaptoshiService.Indexer.KlyusdPrices
import SwaptoshiService.Lib.Batches

/-!
# The historical price batches

`addGenesisPriceIndex` goes in steps of 720 candles from the timestamp of the genesis block to the
current one. For each step it queues a range that is as long as the step, and begins where the step
does, rounded **down** to a multiple of the timeframe. So each range ends before its step, by as
much as the genesis timestamp is behind a multiple, and the ranges may not reach the last candles.

`price_batches_iff` says when they do.
-/

namespace SwaptoshiService

/-- The tables that the historical jobs fill. -/
inductive PriceTable
  | tick
  | ohlc (timeframe : String)
  deriving DecidableEq

namespace PriceTable

variable (env : Env)

def timeframe : PriceTable → String
  | tick => env.tickTimeframe
  | ohlc timeframe => timeframe

/-- The length of the timeframe. -/
def seconds (table : PriceTable) : ℕ := (intervalToSecond (table.timeframe env)).getD 0

/-- How often ranges for the table are queued. -/
def timesConfigured : PriceTable → ℕ
  | tick => 1
  | ohlc timeframe => env.ohlcTimeframes.count timeframe

/-- The range of a job, if it is for the table. -/
def rangeOf (table : PriceTable) : PreviousJob → Option (ℕ × ℕ)
  | .tick lo hi => if table = .tick then some (lo, hi) else none
  | .ohlc timeframe lo hi => if table = .ohlc timeframe then some (lo, hi) else none

end PriceTable

/-- The ranges that are queued for a table. -/
def queuedRanges (env : Env) (timestamp currentTimestamp : ℕ) (table : PriceTable) :
    List (ℕ × ℕ) :=
  (addGenesisPriceIndex env timestamp currentTimestamp).filterMap table.rangeOf

/-- The ranges do not meet, begin and end with whole candles, and hold the candle of every time
from the genesis block to now. -/
structure BatchesRight (env : Env) (timestamp currentTimestamp : ℕ) (table : PriceTable) :
    Prop where
  disjoint : (queuedRanges env timestamp currentTimestamp table).Pairwise
    fun r r' => r.2 < r'.1 ∨ r'.2 < r.1
  aligned : ∀ r ∈ queuedRanges env timestamp currentTimestamp table,
    table.seconds env ∣ r.1 ∧ table.seconds env ∣ r.2 + 1
  covered : ∀ t, timestamp ≤ t → t < currentTimestamp →
    ∃ r ∈ queuedRanges env timestamp currentTimestamp table,
      r.1 ≤ normalizeBlockTime t (table.timeframe env) ∧
        normalizeBlockTime t (table.timeframe env) ≤ r.2

/-! ### The ranges -/

section Ranges

variable {env : Env} {table : PriceTable} {g n : ℕ}

/-- The ranges of one loop. -/
def loopRanges (env : Env) (g n : ℕ) (table : PriceTable) : List (ℕ × ℕ) :=
  (batchStarts g n (table.seconds env)).map (batchBounds (table.timeframe env))

theorem normalizeBlockTime_eq (hs : 0 < table.seconds env) (t : ℕ) :
    normalizeBlockTime t (table.timeframe env) = t - t % table.seconds env := by
  rw [PriceTable.seconds] at hs ⊢
  rw [normalizeBlockTime]
  cases h : intervalToSecond (table.timeframe env) with
  | none => simp [h] at hs
  | some second => rfl

/-- Each loop over the timeframe of a table queues the same ranges. -/
theorem queuedRanges_eq (env : Env) (g n : ℕ) (table : PriceTable) : queuedRanges env g n table =
    (List.replicate (table.timesConfigured env) (loopRanges env g n table)).flatten := by
  rw [queuedRanges, addGenesisPriceIndex, List.filterMap_append, List.filterMap_map,
    List.filterMap_flatMap]
  simp only [List.filterMap_map]
  cases table with
  | tick =>
    have htick : PriceTable.rangeOf .tick ∘ (fun b : ℕ × ℕ => PreviousJob.tick b.1 b.2) = some :=
      funext fun b => rfl
    have hohlc : ∀ timeframe : String, PriceTable.rangeOf .tick ∘
        (fun b : ℕ × ℕ => PreviousJob.ohlc timeframe b.1 b.2) = fun _ => none :=
      fun timeframe => funext fun b => rfl
    simp [htick, hohlc, loopRanges, PriceTable.timesConfigured, PriceTable.seconds,
      PriceTable.timeframe]
  | ohlc timeframe =>
    have htick : PriceTable.rangeOf (.ohlc timeframe) ∘
        (fun b : ℕ × ℕ => PreviousJob.tick b.1 b.2) = fun _ => none := funext fun b => rfl
    have hohlc : ∀ timeframe' : String, PriceTable.rangeOf (.ohlc timeframe) ∘
        (fun b : ℕ × ℕ => PreviousJob.ohlc timeframe' b.1 b.2) =
          fun b => if timeframe = timeframe' then some b else none :=
      fun timeframe' => funext fun b => by simp [PriceTable.rangeOf]
    have hnone : ∀ l : List ℕ, l.filterMap ((fun _ => none) ∘ batchBounds env.tickTimeframe) =
        ([] : List (ℕ × ℕ)) := fun l => List.filterMap_eq_nil_iff.mpr fun _ _ => rfl
    rw [htick, hnone, List.nil_append, PriceTable.timesConfigured]
    simp only [hohlc]
    induction env.ohlcTimeframes with
    | nil => rfl
    | cons timeframe' timeframes ih =>
      rw [List.flatMap_cons, ih]
      by_cases heq : timeframe = timeframe'
      · subst heq
        rw [List.count_cons_self, List.replicate_succ, List.flatten_cons]
        simp [loopRanges, PriceTable.seconds, PriceTable.timeframe]
      · rw [List.count_cons_of_ne fun h => heq h.symm]
        simp [heq]

/-- The steps of the loop keep the distance from a multiple of the timeframe. -/
theorem loopRanges_eq (hs : 0 < table.seconds env) : loopRanges env g n table =
    (List.range (numBatches (n - g) (table.seconds env * maxPreviousKLYUSDIndexBatch))).map fun k =>
      let lo := g - g % table.seconds env
      let width := table.seconds env * maxPreviousKLYUSDIndexBatch
      (lo + k * width, lo + k * width + width - 1) := by
  refine List.ext_getElem (by simp [loopRanges, batchStarts, numBatches]) fun k hk hk' => ?_
  set s := table.seconds env with hseconds
  set w := s * maxPreviousKLYUSDIndexBatch with hw
  have hmod : (g + w * k) % s = g % s := by
    rw [hw, Nat.mul_assoc, Nat.add_mul_mod_self_left]
  have hle : g % s ≤ g := Nat.mod_le g s
  have hlo : normalizeBlockTime (g + w * k) (table.timeframe env) = g - g % s + k * w := by
    rw [normalizeBlockTime_eq hs, ← hseconds, hmod, Nat.mul_comm k]
    omega
  simp only [loopRanges, batchStarts, List.getElem_map, List.getElem_range', List.getElem_range,
    batchBounds]
  rw [← hseconds, ← hw, hlo]
  rfl

/-- A multiple is reached by a time if and only if it is by the time rounded down. -/
theorem le_sub_mod_iff {s m t : ℕ} (hs : 0 < s) (hm : s ∣ m) : m ≤ t - t % s ↔ m ≤ t := by
  obtain ⟨c, rfl⟩ := hm
  have hfloor : t - t % s = s * (t / s) := Nat.sub_eq_of_eq_add (Nat.div_add_mod t s).symm
  rw [hfloor, Nat.mul_le_mul_left_iff hs, Nat.le_div_iff_mul_le hs, Nat.mul_comm]

/-- All candles from the time `g` to the time `n` lie in the ranges if the last one does. -/
theorem covered_iff {s w : ℕ} (hs : 0 < s) (hw : 0 < w) (hdvd : s ∣ w) (hn : g < n) :
    (∀ t, g ≤ t → t < n → ∃ k < numBatches (n - g) w,
      g - g % s + k * w ≤ t - t % s ∧ t - t % s ≤ g - g % s + k * w + w - 1) ↔
        (n - 1 - g) % w + g % s < w := by
  set lo := g - g % s with hlo
  have hle : g % s ≤ g := Nat.mod_le g s
  have hlo_dvd : s ∣ lo := Nat.dvd_sub_mod g
  have hcount : numBatches (n - g) w = (n - 1 - g) / w + 1 := by
    have hpos : n - g + (w - 1) = n - 1 - g + w := by omega
    rw [numBatches, hpos, Nat.add_div_right _ hw]
  have hend : s ∣ lo + numBatches (n - g) w * w := Nat.dvd_add hlo_dvd (hdvd.mul_left _)
  have hwithin : ∀ t, g ≤ t → ((∃ k < numBatches (n - g) w,
      lo + k * w ≤ t - t % s ∧ t - t % s ≤ lo + k * w + w - 1) ↔
        t < lo + numBatches (n - g) w * w) := by
    intro t ht
    rw [exists_adjacent_iff hw, le_sub_mod_iff hs hlo_dvd, ← not_le, le_sub_mod_iff hs hend,
      not_le, and_iff_right (by omega)]
  have hdiv := Nat.div_add_mod' (n - 1 - g) w
  rw [hcount, Nat.succ_mul] at hwithin
  rw [hcount]
  constructor
  · intro h
    have hlast := (hwithin (n - 1) (by omega)).mp (h (n - 1) (by omega) (by omega))
    omega
  · intro h t hg ht
    exact (hwithin t hg).mpr (by omega)

/-- What is queued twice is not disjoint, and what is not queued covers nothing. -/
theorem timesConfigured_of_right (hn : g < n) (hs : 0 < table.seconds env)
    (h : BatchesRight env g n table) : table.timesConfigured env = 1 := by
  obtain ⟨hdisjoint, -, hcovered⟩ := h
  rw [queuedRanges_eq] at hdisjoint hcovered
  match hcount : table.timesConfigured env with
  | 0 =>
    obtain ⟨r, hr, -⟩ := hcovered g le_rfl hn
    rw [hcount] at hr
    exact absurd hr List.not_mem_nil
  | 1 => rfl
  | c + 2 =>
    obtain ⟨r, hr⟩ : ∃ r, r ∈ loopRanges env g n table := by
      obtain ⟨r, hr, -⟩ := hcovered g le_rfl hn
      obtain ⟨l, hl, hr⟩ := List.mem_flatten.mp hr
      exact ⟨r, (List.mem_replicate.mp hl).2 ▸ hr⟩
    have hle : r.1 ≤ r.2 := by
      rw [loopRanges_eq hs] at hr
      obtain ⟨k, -, rfl⟩ := List.mem_map.mp hr
      have hw : 0 < table.seconds env * maxPreviousKLYUSDIndexBatch := Nat.mul_pos hs (by decide)
      dsimp only
      omega
    rw [hcount, List.replicate_succ, List.replicate_succ, List.flatten_cons, List.flatten_cons,
      List.pairwise_append] at hdisjoint
    have hmeet := hdisjoint.2.2 r hr r (List.mem_append_left _ hr)
    omega

end Ranges

/-- **Batches of historical prices.** The ranges for the rows of a table are disjoint, aligned to
the timeframe and complete if and only if they are queued once, and the last step, begun at a
multiple of the timeframe, would still reach the last time. -/
theorem price_batches_iff (env : Env) (timestamp currentTimestamp : ℕ) (table : PriceTable)
    (hlt : timestamp < currentTimestamp) (hs : 0 < table.seconds env) :
    BatchesRight env timestamp currentTimestamp table ↔
      table.timesConfigured env = 1 ∧
        (currentTimestamp - 1 - timestamp) % (table.seconds env * maxPreviousKLYUSDIndexBatch) +
          timestamp % table.seconds env < table.seconds env * maxPreviousKLYUSDIndexBatch := by
  have hw : 0 < table.seconds env * maxPreviousKLYUSDIndexBatch := Nat.mul_pos hs (by decide)
  have hdvd : table.seconds env ∣ table.seconds env * maxPreviousKLYUSDIndexBatch := ⟨_, rfl⟩
  have hranges : table.timesConfigured env = 1 →
      queuedRanges env timestamp currentTimestamp table =
        loopRanges env timestamp currentTimestamp table := by
    intro hcount
    rw [queuedRanges_eq, hcount, List.replicate_one, List.flatten_singleton]
  -- The last range ends after the last time only if the last step does.
  have hcovered : (∀ t, timestamp ≤ t → t < currentTimestamp →
      ∃ r ∈ loopRanges env timestamp currentTimestamp table,
        r.1 ≤ normalizeBlockTime t (table.timeframe env) ∧
          normalizeBlockTime t (table.timeframe env) ≤ r.2) ↔
      (currentTimestamp - 1 - timestamp) % (table.seconds env * maxPreviousKLYUSDIndexBatch) +
        timestamp % table.seconds env < table.seconds env * maxPreviousKLYUSDIndexBatch := by
    simp only [loopRanges_eq hs, normalizeBlockTime_eq hs, List.mem_map, List.mem_range,
      exists_exists_and_eq_and]
    exact covered_iff hs hw hdvd hlt
  constructor
  · intro h
    have hcount := timesConfigured_of_right hlt hs h
    exact ⟨hcount, hcovered.mp (hranges hcount ▸ h.covered)⟩
  · rintro ⟨hcount, hlast⟩
    refine ⟨?_, ?_, ?_⟩
    · rw [hranges hcount, loopRanges_eq hs]
      exact (pairwise_adjacent hw _).imp .inl
    · rw [hranges hcount, loopRanges_eq hs]
      intro r hr
      obtain ⟨k, -, rfl⟩ := List.mem_map.mp hr
      have hlo : table.seconds env ∣ timestamp - timestamp % table.seconds env +
          k * (table.seconds env * maxPreviousKLYUSDIndexBatch) :=
        Nat.dvd_add (Nat.dvd_sub_mod timestamp) (hdvd.mul_left k)
      refine ⟨hlo, ?_⟩
      show _ ∣ _ + _ - 1 + 1
      rw [Nat.sub_add_cancel (by omega)]
      exact Nat.dvd_add hlo hdvd
    · rw [hranges hcount]
      exact hcovered.mpr hlast

/-- A genesis block one second after a multiple, and a range that ends one second too early. -/
theorem last_candle_not_queued :
    queuedRanges default 1 43201 .tick = [(0, 43199)] ∧
      normalizeBlockTime 43200 "1m" = 43200 ∧ ¬ BatchesRight default 1 43201 .tick := by
  refine ⟨by decide, by decide, fun h => ?_⟩
  obtain ⟨r, hr, -, hle⟩ := h.covered 43200 (by decide) (by decide)
  have hranges : queuedRanges default 1 43201 .tick = [(0, 43199)] := by decide
  have htime : normalizeBlockTime 43200 (PriceTable.timeframe default .tick) = 43200 := by decide
  rw [hranges, List.mem_singleton] at hr
  rw [htime, hr] at hle
  exact absurd hle (by decide)

/-- A genesis block at a multiple. -/
theorem price_batches_from_zero : BatchesRight default 0 43201 .tick :=
  (price_batches_iff default 0 43201 .tick (by decide) (by decide)).mpr (by decide)

end SwaptoshiService
