import Mathlib.Algebra.BigOperators.Group.List.Basic
import Mathlib.Algebra.BigOperators.Group.Finset.Basic
import SwaptoshiService.Lib.Store

/-!
# Sums over the rows of a store

`Store.total f s` adds up the weights `f c r` of all rows of a store. It depends on the rows of
nonzero weight only (`total_congr`), and a change of finitely many rows changes it by what these
rows gain (`total_sub_total`); `total_of_only` and `total_of_removed` are the two cases that jobs
meet, one row rewritten and a list of rows deleted.
-/

namespace SwaptoshiService

namespace Store

variable {κ : Type} {ρ : κ → Type} {M : Type} [AddCommGroup M]

/-- The weight of the row under a key, zero if there is none. -/
def weight (f : (c : κ) → ρ c → M) (s : Store κ ρ) (c : κ) : M := (s.get c).elim 0 (f c)

/-- The sum of the weights of all rows. -/
def total (f : (c : κ) → ρ c → M) (s : Store κ ρ) : M := ∑ c ∈ s.keys, s.weight f c

variable {f : (c : κ) → ρ c → M} {s s' : Store κ ρ}

theorem weight_of_some {c : κ} {r : ρ c} (h : s.get c = some r) : s.weight f c = f c r := by
  rw [weight, h, Option.elim_some]

theorem weight_of_none {c : κ} (h : s.get c = none) : s.weight f c = 0 := by
  rw [weight, h, Option.elim_none]

theorem weight_congr {c : κ} (h : s'.get c = s.get c) : s'.weight f c = s.weight f c := by
  rw [weight, weight, h]

/-- Rows of weight zero carry nothing. -/
theorem weight_of_zero {c : κ} (h : ∀ r, f c r = 0) : s.weight f c = 0 := by
  cases hr : s.get c with
  | none => exact weight_of_none hr
  | some r => rw [weight_of_some hr, h r]

@[simp] theorem total_empty : (empty : Store κ ρ).total f = 0 := by
  simp [total, empty]

/-- Keys without a row may be added to the sum. -/
theorem total_eq_sum {T : Finset κ} (h : s.keys ⊆ T) : s.total f = ∑ c ∈ T, s.weight f c := by
  refine Finset.sum_subset h fun c _ hc => weight_of_none ?_
  rwa [s.mem_keys, Option.not_isSome_iff_eq_none] at hc

variable [DecidableEq κ]

/-- **Differences.** A change of finitely many rows changes the total by what they gain. -/
theorem total_sub_total (L : Finset κ) (h : ∀ c ∉ L, s'.weight f c = s.weight f c) :
    s'.total f - s.total f = ∑ c ∈ L, (s'.weight f c - s.weight f c) := by
  have hs : s.keys ⊆ s.keys ∪ s'.keys ∪ L :=
    Finset.subset_union_left.trans Finset.subset_union_left
  have hs' : s'.keys ⊆ s.keys ∪ s'.keys ∪ L :=
    Finset.subset_union_right.trans Finset.subset_union_left
  rw [total_eq_sum hs, total_eq_sum hs', ← Finset.sum_sub_distrib]
  refine (Finset.sum_subset Finset.subset_union_right fun c _ hc => ?_).symm
  rw [h c hc, sub_self]

theorem total_congr (h : ∀ c, s'.weight f c = s.weight f c) : s'.total f = s.total f := by
  have hsub := total_sub_total ∅ fun c _ => h c
  rwa [Finset.sum_empty, sub_eq_zero] at hsub

/-- One row is rewritten. -/
theorem total_of_only (c : κ) (h : ∀ c' ≠ c, s'.weight f c' = s.weight f c') :
    s'.total f = s.total f + (s'.weight f c - s.weight f c) := by
  have hsub := total_sub_total {c} fun c' hc' => h c' (by simpa using hc')
  rw [Finset.sum_singleton] at hsub
  rw [← hsub, add_sub_cancel]

/-- A list of rows is deleted. -/
theorem total_of_removed {l : List κ} (hl : l.Nodup) (hgone : ∀ c ∈ l, s'.weight f c = 0)
    (h : ∀ c ∉ l, s'.weight f c = s.weight f c) :
    s'.total f = s.total f - (l.map (s.weight f)).sum := by
  have hsub := total_sub_total l.toFinset fun c hc => h c (by simpa using hc)
  have hsum : ∑ c ∈ l.toFinset, (s'.weight f c - s.weight f c) =
      -∑ c ∈ l.toFinset, s.weight f c := by
    rw [← Finset.sum_neg_distrib]
    refine Finset.sum_congr rfl fun c hc => ?_
    rw [hgone c (by simpa using hc), zero_sub]
  rw [hsum, List.sum_toFinset _ hl] at hsub
  rw [sub_eq_iff_eq_add] at hsub
  rw [hsub, neg_add_eq_sub]

end Store

end SwaptoshiService
