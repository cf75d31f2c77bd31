import Mathlib
import SwaptoshiService.Lib.Join
import SwaptoshiService.Lib.Keyed

/-!
# Joins with keyed tables, groups and sums

What a `LEFT JOIN`, a `GROUP BY` and the aggregates of a query do to lists of rows. A row is joined
with **one** row at most where the other table has a key (`partners_of_nodup`). The rows of a group
are those with its key (`find?_groupBy`), and its first row stands for the columns that are not
aggregated. `SUM` leaves `NULL`s out, and is `NULL` when nothing is left; a count of different
values leaves them out, too. `sum_sum_filter` counts joined rows from either side.
-/

namespace SwaptoshiService

namespace Aggregate

open Join

variable {α β κ M : Type}

/-! ### Joins -/

/-- A row is joined with the row that has its key, or with `NULL`. -/
theorem partners_of_nodup [DecidableEq κ] {on : α → β → Bool} {right : List β} {key : β → κ} {a : α}
    {k : κ} (hnodup : (right.map key).Nodup) (hon : ∀ b, on a b = decide (key b = k)) :
    partners on right a = [right.find? fun b => key b = k] := by
  have hfilter : right.filter (on a) = (right.find? fun b => key b = k).toList := by
    rw [← filter_key_of_nodup hnodup]
    exact List.filter_congr fun b _ => hon b
  rw [partners, hfilter]
  cases right.find? fun b => key b = k <;> rfl

/-- `LEFT JOIN`; a row is kept once, with `NULL`s, when no row fits it. -/
def leftJoin (on : α → β → Bool) (right : List β) (left : List α) : List (α × Option β) :=
  left.flatMap fun a => (partners on right a).map fun b => (a, b)

theorem leftJoin_of_nodup [DecidableEq κ] {on : α → β → Bool} {right : List β} {key : β → κ}
    {k : α → κ} (hnodup : (right.map key).Nodup) (hon : ∀ a b, on a b = decide (key b = k a))
    (left : List α) :
    leftJoin on right left = left.map fun a => (a, right.find? fun b => key b = k a) := by
  induction left with
  | nil => rfl
  | cons a left ih =>
    rw [leftJoin, List.flatMap_cons, partners_of_nodup hnodup (hon a), ← leftJoin, ih]
    rfl

/-! ### Groups -/

section Groups

variable [DecidableEq κ] {key : α → κ} {l : List α} {k : κ}

/-- The groups of a list: the first row of each, and all its rows. -/
def groupBy (key : α → κ) (l : List α) : List (α × List α) :=
  (l.map key).dedup.filterMap fun k =>
    (l.filter fun a => key a = k).head?.map fun a => (a, l.filter fun a => key a = k)

theorem key_of_head? {a : α} (h : (l.filter fun a => key a = k).head? = some a) : key a = k := by
  have hmem := List.mem_of_mem_head? (Option.mem_def.mpr h)
  exact of_decide_eq_true (List.mem_filter.mp hmem).2

theorem mem_groupBy {g : α × List α} (h : g ∈ groupBy key l) :
    g.2 = l.filter (fun a => key a = key g.1) ∧ g.2.head? = some g.1 := by
  obtain ⟨k, -, hk⟩ := List.mem_filterMap.mp h
  obtain ⟨a, ha, rfl⟩ := Option.map_eq_some_iff.mp hk
  obtain rfl := key_of_head? ha
  exact ⟨rfl, ha⟩

theorem map_key_groupBy (key : α → κ) (l : List α) :
    (groupBy key l).map (fun g => key g.1) = (l.map key).dedup := by
  have hall : ∀ k ∈ (l.map key).dedup, ∃ a, (l.filter fun a => key a = k).head? = some a := by
    intro k hk
    obtain ⟨a, ha, rfl⟩ := List.mem_map.mp (List.mem_dedup.mp hk)
    have hmem : a ∈ l.filter fun b => key b = key a := List.mem_filter.mpr ⟨ha, by simp⟩
    exact ⟨_, List.head?_eq_some_head (List.ne_nil_of_mem hmem)⟩
  rw [groupBy]
  generalize (l.map key).dedup = ks at hall
  induction ks with
  | nil => rfl
  | cons k ks ih =>
    obtain ⟨a, ha⟩ := hall k List.mem_cons_self
    rw [List.filterMap_cons_some (by rw [ha]; rfl), List.map_cons, key_of_head? ha,
      ih fun k' hk' => hall k' (List.mem_cons_of_mem _ hk')]

theorem nodup_groupBy (key : α → κ) (l : List α) :
    ((groupBy key l).map fun g => key g.1).Nodup := by
  rw [map_key_groupBy]
  exact List.nodup_dedup _

/-- The group of a key. -/
theorem find?_groupBy (key : α → κ) (l : List α) (k : κ) :
    ((groupBy key l).find? fun g => key g.1 = k) =
      (l.filter fun a => key a = k).head?.map fun a => (a, l.filter fun a => key a = k) := by
  cases hhead : (l.filter fun a => key a = k).head? with
  | none =>
    rw [Option.map_none, List.find?_eq_none]
    intro g hg hkey
    obtain ⟨hrows, hfirst⟩ := mem_groupBy hg
    rw [of_decide_eq_true hkey] at hrows
    rw [hrows, hhead] at hfirst
    exact Option.some_ne_none _ hfirst.symm
  | some a =>
    have hkey := key_of_head? hhead
    have hmem : (a, l.filter fun b => key b = k) ∈ groupBy key l := by
      rw [groupBy, List.mem_filterMap]
      refine ⟨k, ?_, by rw [hhead]; rfl⟩
      have ha := List.mem_of_mem_head? (Option.mem_def.mpr hhead)
      exact List.mem_dedup.mpr (List.mem_map.mpr ⟨a, (List.mem_filter.mp ha).1, hkey⟩)
    have hfind := find?_of_nodup (nodup_groupBy key l) hmem
    dsimp only at hfind
    rw [hkey] at hfind
    exact hfind

/-- **Rows that are put together for the elements of a list**, told apart by a key, are groups. -/
theorem groupBy_flatMap {k : β → κ} {f : β → List α} {r : List β}
    (htag : ∀ b ∈ r, ∀ a ∈ f b, key a = k b) (hnodup : (r.map k).Nodup) :
    groupBy key (r.flatMap f) = r.filterMap fun b => (f b).head?.map fun a => (a, f b) := by
  -- The keys in use are those of the elements that have rows.
  have hkeys : ((r.flatMap f).map key).dedup =
      (r.filter fun b => !(f b).isEmpty).map k := by
    induction r with
    | nil => rfl
    | cons b r ih =>
      rw [List.map_cons, List.nodup_cons] at hnodup
      rw [List.forall_mem_cons] at htag
      rw [List.flatMap_cons, List.map_append, List.dedup_append, ih htag.2 hnodup.2]
      have hreplicate : (f b).map key = List.replicate (f b).length (k b) :=
        List.eq_replicate_iff.mpr ⟨List.length_map .., by
          intro x hx
          obtain ⟨a, ha, rfl⟩ := List.mem_map.mp hx
          exact htag.1 a ha⟩
      have hnotin : k b ∉ (r.filter fun b => !(f b).isEmpty).map k := fun hmem => by
        obtain ⟨c, hc, heq⟩ := List.mem_map.mp hmem
        exact hnodup.1 (List.mem_map.mpr ⟨c, (List.mem_filter.mp hc).1, heq⟩)
      cases hempty : f b with
      | nil =>
        rw [List.filter_cons_of_neg (by simp [hempty])]
        rfl
      | cons a as =>
        rw [← hempty, hreplicate, List.filter_cons_of_pos (by simp [hempty]), List.map_cons,
          hempty, List.length_cons, List.replicate_succ]
        induction as.length with
        | zero => exact List.insert_of_not_mem hnotin
        | succ n ih => rw [List.replicate_succ, List.cons_union, ih, List.insert_of_mem (by simp)]
  rw [groupBy, hkeys]
  have hpart : ∀ b ∈ r, ((r.flatMap f).filter fun a => key a = k b) = f b :=
    fun b hb => filter_flatMap_of_nodup htag hnodup hb
  rw [List.filterMap_map, List.filterMap_filter]
  refine List.filterMap_congr fun b hb => ?_
  simp only [Function.comp_apply, hpart b hb]
  cases f b <;> rfl

end Groups

/-! ### Aggregates -/

/-- The values that are not `NULL`. -/
def values {V : Type} (l : List (Option V)) : List V := l.filterMap id

/-- `COUNT(DISTINCT ...)` -/
def countDistinct {V : Type} [DecidableEq V] (l : List (Option V)) : ℕ := (values l).dedup.length

section Sums

variable [AddCommMonoid M]

/-- `SUM` -/
def sum (l : List (Option M)) : Option M := if values l = [] then none else some (values l).sum

/-- `COALESCE(SUM(...), 0)` -/
theorem getD_sum (l : List (Option M)) : (sum l).getD 0 = (l.map fun x => x.getD 0).sum := by
  have hvalues : (values l).sum = (l.map fun x => x.getD 0).sum := by
    induction l with
    | nil => rfl
    | cons x l ih =>
      cases x with
      | none => simpa [values] using ih
      | some m => simpa [values] using congrArg (m + ·) ih
  rw [sum, ← hvalues]
  split
  · rename_i hempty
    rw [hempty]
    rfl
  · rfl

theorem sum_filter (p : α → Bool) (g : α → M) (l : List α) :
    ((l.filter p).map g).sum = (l.map fun a => if p a then g a else 0).sum := by
  induction l with
  | nil => rfl
  | cons a l ih =>
    rw [List.map_cons, List.sum_cons, ← ih]
    by_cases hp : p a = true
    · rw [List.filter_cons_of_pos hp, List.map_cons, List.sum_cons, if_pos hp]
    · rw [List.filter_cons_of_neg hp, if_neg hp, zero_add]

/-- Some of the summands, and the others. -/
theorem sum_filter_add_sum_filter_not (p : α → Bool) (g : α → M) (l : List α) :
    ((l.filter p).map g).sum + ((l.filter fun a => !p a).map g).sum = (l.map g).sum := by
  rw [sum_filter, sum_filter, ← List.sum_map_add]
  refine congrArg _ (List.map_congr_left fun a _ => ?_)
  cases p a <;> simp

/-- **Counting in two ways**: what the partners of the rows sum up to. -/
theorem sum_sum_filter (on : α → β → Bool) (g : β → ℕ) (l : List α) (r : List β) :
    (l.map fun a => ((r.filter (on a)).map g).sum).sum =
      (r.map fun b => (l.countP fun a => on a b) * g b).sum := by
  induction l with
  | nil => simp
  | cons a l ih =>
    rw [List.map_cons, List.sum_cons, ih, sum_filter, ← List.sum_map_add]
    refine congrArg _ (List.map_congr_left fun b _ => ?_)
    rw [List.countP_cons, Nat.add_mul, Nat.add_comm]
    split <;> simp

end Sums

end Aggregate

end SwaptoshiService
