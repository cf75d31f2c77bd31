import Mathlib.Data.List.Nodup
import Mathlib.Data.List.Perm.Basic
import Mathlib.Data.List.Range
import Mathlib.Tactic.Ring

/-!
# Working through a range in batches

A list is worked through in **slices** of a fixed length (`flatMap_slices`), or slice by slice until
one is empty (`take_append_untilEmpty`). A range of numbers is worked through in batches that
**share their bounds**: the batch `i` goes from `lo + i * w` to `lo + (i + 1) * w`, or to the end of
the range. Together the batches cover a range that is not a single point (`exists_batch_iff`), and
two of them meet only in a bound between them (`eq_bound_of_mem_two`). Batches that **follow each
other** cover a range and do not meet (`exists_adjacent_iff`, `pairwise_adjacent`). Selections from
a list make up another selection if every element is in as many of them as it should be
(`flatMap_filter_perm_iff`).
-/

namespace SwaptoshiService

/-- The number of batches of length `w` that `n` takes, rounded up. -/
def numBatches (n w : ℕ) : ℕ := (n + (w - 1)) / w

theorem le_numBatches_mul {n w : ℕ} (hw : 0 < w) : n ≤ numBatches n w * w := by
  have hdiv : (n + (w - 1)) % w + w * ((n + (w - 1)) / w) = n + (w - 1) :=
    Nat.mod_add_div (n + (w - 1)) w
  have hmod : (n + (w - 1)) % w < w := Nat.mod_lt _ hw
  rw [numBatches, Nat.mul_comm]
  omega

theorem lt_numBatches_iff {n w i : ℕ} (hw : 0 < w) : i < numBatches n w ↔ i * w < n := by
  rw [numBatches, Nat.lt_iff_add_one_le, Nat.le_div_iff_mul_le hw, Nat.succ_mul]
  omega

/-- Only a multiple of the length takes whole batches. -/
theorem numBatches_mul_eq_iff {n w : ℕ} (hw : 0 < w) : numBatches n w * w = n ↔ w ∣ n := by
  constructor
  · exact fun h => Dvd.intro_left _ h
  · rintro ⟨k, rfl⟩
    have hle : numBatches (w * k) w ≤ k := by
      by_contra hlt
      have hmul := (lt_numBatches_iff hw).mp (not_le.mp hlt)
      rw [Nat.mul_comm k] at hmul
      exact lt_irrefl _ hmul
    refine le_antisymm ?_ (le_numBatches_mul hw)
    calc numBatches (w * k) w * w ≤ k * w := Nat.mul_le_mul_right w hle
      _ = w * k := Nat.mul_comm k w

/-! ### Slices of a list -/

section Slices

variable {α : Type}

private theorem flatMap_range_slices (l : List α) (w n : ℕ) :
    ((List.range n).flatMap fun i => (l.drop (i * w)).take w) = l.take (n * w) := by
  induction n with
  | zero => simp
  | succ n ih =>
    rw [List.range_succ, List.flatMap_append, ih, Nat.succ_mul, List.take_add]
    simp

/-- The slices make up the list. -/
theorem flatMap_slices (l : List α) {w : ℕ} (hw : 0 < w) :
    ((List.range (numBatches l.length w)).flatMap fun i => (l.drop (i * w)).take w) = l := by
  rw [flatMap_range_slices]
  exact List.take_of_length_le (le_numBatches_mul hw)

/-- Pages are collected from the page `i` on, `n` of them at most, until one is empty. -/
def untilEmpty (page : ℕ → List α) : ℕ → ℕ → List α
  | _, 0 => []
  | i, n + 1 => if (page i).isEmpty then [] else page i ++ untilEmpty page (i + 1) n

/-- What is collected continues what comes before. -/
theorem take_append_untilEmpty (l : List α) {w : ℕ} (hw : 0 < w) (i n : ℕ) :
    l.take (i * w) ++ untilEmpty (fun i => (l.drop (i * w)).take w) i n = l.take ((i + n) * w) := by
  induction n generalizing i with
  | zero => simp [untilEmpty]
  | succ n ih =>
    rw [untilEmpty]
    split_ifs with hempty
    · -- An empty page is behind the end of the list.
      have hlength : l.length ≤ i * w := by
        simp only [List.isEmpty_iff, List.take_eq_nil_iff, List.drop_eq_nil_iff] at hempty
        omega
      have hle : i * w ≤ (i + (n + 1)) * w := Nat.mul_le_mul_right w (by omega)
      rw [List.append_nil, List.take_of_length_le hlength,
        List.take_of_length_le (hlength.trans hle)]
    · have hslice : l.take (i * w) ++ (l.drop (i * w)).take w = l.take ((i + 1) * w) := by
        rw [Nat.succ_mul, List.take_add]
      have hcount : i + 1 + n = i + (n + 1) := by omega
      rw [← List.append_assoc, hslice, ih, hcount]

end Slices

/-! ### Selections from a list -/

/-- **Selections that make up another one.** -/
theorem flatMap_filter_perm_iff {α κ : Type} (keys : List κ) (p : κ → α → Bool) (q : α → Bool)
    (l : List α) : (keys.flatMap fun k => l.filter (p k)).Perm (l.filter q) ↔
      ∀ a ∈ l, (keys.countP fun k => p k a) = if q a then 1 else 0 := by
  classical
  -- Both sides are compared by how often they hold an element.
  have hselect : ∀ (r : α → Bool) (a : α),
      (l.filter r).count a = (if r a then 1 else 0) * l.count a := by
    intro r a
    by_cases hr : r a
    · rw [List.count_filter hr, if_pos hr, one_mul]
    · rw [if_neg hr, zero_mul, List.count_eq_zero]
      exact fun hmem => hr (List.mem_filter.mp hmem).2
  have hcount : ∀ a, (keys.flatMap fun k => l.filter (p k)).count a =
      (keys.countP fun k => p k a) * l.count a := by
    intro a
    induction keys with
    | nil => simp
    | cons k keys ih =>
      rw [List.flatMap_cons, List.count_append, ih, hselect, List.countP_cons]
      ring
  rw [List.perm_iff_count]
  constructor
  · intro hperm a ha
    have hpos : 0 < l.count a := List.count_pos_iff.mpr ha
    have heq := hperm a
    rw [hcount, hselect] at heq
    exact Nat.eq_of_mul_eq_mul_right hpos heq
  · intro hall a
    rw [hcount, hselect]
    -- An element that is not in the list is in no selection.
    by_cases ha : a ∈ l
    · rw [hall a ha]
    · rw [List.count_eq_zero.mpr ha]
      rfl

/-! ### Batches of a range of numbers -/

section Ranges

variable {lo hi w h i j : ℕ}

/-- The last number of a batch. -/
def batchEnd (lo hi w i : ℕ) : ℕ := min (lo + i * w + w) hi

/-- The batches cover the range. -/
theorem exists_batch_iff (hw : 0 < w) (hlt : lo < hi) :
    (∃ i < numBatches (hi - lo) w, lo + i * w ≤ h ∧ h ≤ batchEnd lo hi w i) ↔ lo ≤ h ∧ h ≤ hi := by
  constructor
  · rintro ⟨i, -, hlo, hhi⟩
    rw [batchEnd] at hhi
    omega
  rintro ⟨hlo, hhi⟩
  by_cases hend : h = hi
  · -- The last batch holds the end of the range.
    refine ⟨(hi - lo - 1) / w, ?_, ?_, ?_⟩
    · rw [lt_numBatches_iff hw]
      have := Nat.div_mul_le_self (hi - lo - 1) w
      omega
    · have := Nat.div_mul_le_self (hi - lo - 1) w
      omega
    · have := Nat.lt_div_mul_add hw (a := hi - lo - 1)
      rw [batchEnd]
      omega
  · refine ⟨(h - lo) / w, ?_, ?_, ?_⟩
    · rw [lt_numBatches_iff hw]
      have := Nat.div_mul_le_self (h - lo) w
      omega
    · have := Nat.div_mul_le_self (h - lo) w
      omega
    · have := Nat.lt_div_mul_add hw (a := h - lo)
      rw [batchEnd]
      omega

/-- Two batches meet in the bound between them. -/
theorem eq_bound_of_mem_two (hw : 0 < w) (hij : i < j) (hi' : h ≤ batchEnd lo hi w i)
    (hj : lo + j * w ≤ h) : j = i + 1 ∧ h = lo + j * w := by
  rw [batchEnd] at hi'
  have hle : (i + 1) * w ≤ j * w := Nat.mul_le_mul_right w hij
  rw [Nat.succ_mul] at hle
  have heq : j * w = i * w + w := by omega
  refine ⟨?_, by omega⟩
  rw [← Nat.succ_mul] at heq
  exact Nat.eq_of_mul_eq_mul_right hw heq

/-- Ranges of one length that follow each other cover what lies between their ends. -/
theorem exists_adjacent_iff {n x : ℕ} (hw : 0 < w) :
    (∃ k < n, lo + k * w ≤ x ∧ x ≤ lo + k * w + w - 1) ↔ lo ≤ x ∧ x < lo + n * w := by
  constructor
  · rintro ⟨k, hk, hlo, hhi⟩
    have hle : (k + 1) * w ≤ n * w := Nat.mul_le_mul_right w hk
    rw [Nat.succ_mul] at hle
    omega
  · rintro ⟨hlo, hhi⟩
    have hdiv := Nat.div_mul_le_self (x - lo) w
    have hmod := Nat.lt_div_mul_add hw (a := x - lo)
    exact ⟨(x - lo) / w, Nat.div_lt_of_lt_mul (by rw [Nat.mul_comm]; omega), by omega, by omega⟩

/-- They do not meet. -/
theorem pairwise_adjacent (hw : 0 < w) (n : ℕ) :
    ((List.range n).map fun k => (lo + k * w, lo + k * w + w - 1)).Pairwise
      fun r r' => r.2 < r'.1 := by
  refine List.pairwise_map.mpr (List.pairwise_lt_range.imp fun {i j} hij => ?_)
  have hle : (i + 1) * w ≤ j * w := Nat.mul_le_mul_right w hij
  rw [Nat.succ_mul] at hle
  show lo + i * w + w - 1 < lo + j * w
  omega

end Ranges

end SwaptoshiService
