import Mathlib.Algebra.BigOperators.Group.List.Basic
import Mathlib.Algebra.Group.Nat.Units
import Mathlib.Algebra.Group.Units.Basic
import Mathlib.Data.List.Perm.Basic

/-!
# Outer joins

A `LEFT OUTER JOIN` repeats a row of the left table for each row of the right table that fits it,
and keeps it once, with `NULL`s, when none fits. A table is joined here with the same right table
several times, under as many names, and a `WHERE` asks for a condition on each of the joined rows.

A row of the left table is answered as often as the **product** of the numbers of rows that fit it
and satisfy the condition, one number for each join (`map_fst_selected`). The answer is the
wanted rows, each of them once, exactly if the product is one for them and zero for the others
(`flatMap_replicate_perm_iff`).
-/

namespace SwaptoshiService

namespace Join

variable {α β : Type}

/-- The rows that a row is joined with. -/
def partners (on : α → β → Bool) (right : List β) (a : α) : List (Option β) :=
  if (right.filter (on a)).isEmpty then [none] else (right.filter (on a)).map some

/-- The table, joined with the right table as often as given; the latest join is the first. -/
def leftOuterJoins (on : α → β → Bool) (right : List β) : ℕ → List α → List (α × List (Option β))
  | 0, left => left.map fun a => (a, [])
  | k + 1, left => (leftOuterJoins on right k left).flatMap fun row =>
    (partners on right row.1).map fun b => (row.1, b :: row.2)

/-- Each joined row satisfies its condition; a `NULL` satisfies none. -/
def accepts : List (β → Bool) → List (Option β) → Bool
  | c :: conds, b :: row => b.any c && accepts conds row
  | _, _ => true

/-- The rows that satisfy the `WHERE`. -/
def selected (on : α → β → Bool) (right : List β) (conds : List (β → Bool)) (base : α → Bool)
    (left : List α) : List (α × List (Option β)) :=
  (leftOuterJoins on right conds.length left).filter fun row => base row.1 && accepts conds row.2

/-- The rows that fit and satisfy a condition. -/
def hits (on : α → β → Bool) (right : List β) (a : α) (c : β → Bool) : ℕ :=
  right.countP fun b => on a b && c b

/-- How often a row is answered. -/
def multiplicity (on : α → β → Bool) (right : List β) (conds : List (β → Bool)) (a : α) : ℕ :=
  (conds.map (hits on right a)).prod

variable {on : α → β → Bool} {right : List β}

theorem length_filter_partners (c : β → Bool) (a : α) :
    ((partners on right a).filter fun b => b.any c).length = hits on right a c := by
  rw [partners, hits]
  split
  · rename_i hempty
    have hnone : right.countP (fun b => on a b && c b) = 0 := by
      rw [List.isEmpty_iff, List.filter_eq_nil_iff] at hempty
      rw [List.countP_eq_zero]
      intro b hb
      simp [hempty b hb]
    simp [hnone]
  · rw [List.filter_map, List.length_map, List.filter_filter, ← List.countP_eq_length_filter]
    refine List.countP_congr fun b _ => ?_
    simp [and_comm]

/-- The rows that a selected row is joined with, and that satisfy the condition. -/
theorem map_fst_filter_partners (c : β → Bool) (p : α × List (Option β) → Bool)
    (row : α × List (Option β)) :
    (((partners on right row.1).map fun b => (row.1, b :: row.2)).filter fun joined =>
      joined.2.head?.any (fun b => b.any c) && p (joined.1, joined.2.tail)).map Prod.fst =
        if p row then List.replicate (hits on right row.1 c) row.1 else [] := by
  rw [List.filter_map, List.map_map, ← length_filter_partners]
  by_cases hp : p row = true
  · rw [if_pos hp, ← List.map_const']
    congr 1
    refine List.filter_congr fun b _ => ?_
    simp [hp]
  · rw [if_neg hp]
    simp [hp]

/-- A further join repeats the selected rows. -/
theorem map_fst_filter_flatMap (c : β → Bool) (p : α × List (Option β) → Bool)
    (rows : List (α × List (Option β))) :
    ((rows.flatMap fun row => (partners on right row.1).map fun b => (row.1, b :: row.2)).filter
      fun joined => joined.2.head?.any (fun b => b.any c) && p (joined.1, joined.2.tail)).map
        Prod.fst =
    ((rows.filter p).map Prod.fst).flatMap fun a => List.replicate (hits on right a c) a := by
  induction rows with
  | nil => rfl
  | cons row rows ih =>
    rw [List.flatMap_cons, List.filter_append, List.map_append, ih, map_fst_filter_partners]
    by_cases hp : p row = true
    · rw [if_pos hp, List.filter_cons_of_pos hp, List.map_cons, List.flatMap_cons]
    · rw [if_neg hp, List.filter_cons_of_neg hp, List.nil_append]

/-- **What is answered**: each row as often as the product of its hits. -/
theorem map_fst_selected (conds : List (β → Bool)) (base : α → Bool) (left : List α) :
    (selected on right conds base left).map Prod.fst =
      (left.filter base).flatMap fun a => List.replicate (multiplicity on right conds a) a := by
  induction conds with
  | nil =>
    rw [selected, List.length_nil, leftOuterJoins, List.filter_map, List.map_map]
    simp [multiplicity, accepts, Function.comp_def]
  | cons c conds ih =>
    have hsplit : selected on right (c :: conds) base left =
        ((leftOuterJoins on right conds.length left).flatMap fun row =>
          (partners on right row.1).map fun b => (row.1, b :: row.2)).filter fun joined =>
            joined.2.head?.any (fun b => b.any c) &&
              (base joined.1 && accepts conds joined.2.tail) := by
      rw [selected, List.length_cons, leftOuterJoins]
      refine List.filter_congr fun joined hjoined => ?_
      obtain ⟨row, -, hrow⟩ := List.mem_flatMap.mp hjoined
      obtain ⟨b, -, rfl⟩ := List.mem_map.mp hrow
      simp only [accepts, List.head?_cons, Option.any_some, List.tail_cons]
      exact Bool.and_left_comm _ _ _
    rw [hsplit, map_fst_filter_flatMap c (fun row => base row.1 && accepts conds row.2), ← selected,
      ih, List.flatMap_assoc]
    refine List.flatMap_congr fun a _ => ?_
    simp [multiplicity, List.flatMap_replicate, mul_comm]

theorem prod_eq_one_iff {l : List ℕ} : l.prod = 1 ↔ ∀ n ∈ l, n = 1 := by
  induction l with
  | nil => simp
  | cons n l ih => rw [List.prod_cons, mul_eq_one, ih, List.forall_mem_cons]

theorem prod_eq_zero_of_mem {l : List ℕ} (h : 0 ∈ l) : l.prod = 0 := by
  induction l with
  | nil => exact absurd h List.not_mem_nil
  | cons n l ih =>
    rcases List.mem_cons.mp h with rfl | h
    · rw [List.prod_cons, Nat.zero_mul]
    · rw [List.prod_cons, ih h, Nat.mul_zero]

/-! ### Once each -/

section Once

variable [DecidableEq α] {m : α → ℕ} {l : List α}

theorem count_flatMap_replicate (hnodup : l.Nodup) {a : α} (ha : a ∈ l) :
    (l.flatMap fun b => List.replicate (m b) b).count a = m a := by
  induction l with
  | nil => exact absurd ha List.not_mem_nil
  | cons b l ih =>
    rw [List.nodup_cons] at hnodup
    rw [List.flatMap_cons, List.count_append]
    rcases List.mem_cons.mp ha with rfl | ha
    · have hnone : (l.flatMap fun b => List.replicate (m b) b).count a = 0 := by
        rw [List.count_eq_zero, List.mem_flatMap]
        rintro ⟨b, hb, hmem⟩
        exact hnodup.1 (List.eq_of_mem_replicate hmem ▸ hb)
      rw [hnone, List.count_replicate_self, Nat.add_zero]
    · have hne : b ≠ a := fun heq => hnodup.1 (heq ▸ ha)
      rw [List.count_replicate, if_neg (by simpa using hne), Nat.zero_add, ih hnodup.2 ha]

/-- **Once each**: a list with repetitions consists of the wanted elements if and only if these are
there once and no others are. -/
theorem flatMap_replicate_perm_iff (hnodup : l.Nodup) (wanted : α → Bool) :
    (l.flatMap fun a => List.replicate (m a) a).Perm (l.filter wanted) ↔
      ∀ a ∈ l, m a = if wanted a then 1 else 0 := by
  have hwanted : ∀ a ∈ l, (l.filter wanted).count a = if wanted a then 1 else 0 := by
    intro a ha
    by_cases h : wanted a = true
    · rw [List.count_filter h, hnodup.count, if_pos ha, if_pos h]
    · rw [if_neg h, List.count_eq_zero]
      exact fun hmem => h (List.mem_filter.mp hmem).2
  rw [List.perm_iff_count]
  constructor
  · intro h a ha
    rw [← hwanted a ha, ← h a, count_flatMap_replicate hnodup ha]
  · intro h a
    by_cases ha : a ∈ l
    · rw [count_flatMap_replicate hnodup ha, h a ha, hwanted a ha]
    · rw [List.count_eq_zero.mpr fun hmem => ha (List.mem_filter.mp hmem).1, List.count_eq_zero,
        List.mem_flatMap]
      rintro ⟨b, hb, hmem⟩
      exact ha (List.eq_of_mem_replicate hmem ▸ hb)

/-- What is wanted, from a list with repetitions of which only some elements are taken. -/
theorem filter_mem_perm_iff {ids wanted : List α} (hnodup : wanted.Nodup) :
    (l.filter fun a => a ∈ ids).Perm wanted ↔
      (∀ a ∈ wanted, a ∈ ids) ∧ ∀ a ∈ ids, l.count a = if a ∈ wanted then 1 else 0 := by
  have htaken : ∀ a ∈ ids, (l.filter fun a => a ∈ ids).count a = l.count a :=
    fun a ha => List.count_filter (decide_eq_true ha)
  constructor
  · intro hperm
    refine ⟨fun a ha => ?_, fun a ha => ?_⟩
    · exact of_decide_eq_true (List.mem_filter.mp (hperm.mem_iff.mpr ha)).2
    · rw [← htaken a ha, hperm.count_eq, hnodup.count]
  · rintro ⟨hsub, hcount⟩
    rw [List.perm_iff_count]
    intro a
    rw [hnodup.count]
    by_cases ha : a ∈ ids
    · rw [htaken a ha, hcount a ha]
    · rw [if_neg fun hmem => ha (hsub a hmem), List.count_eq_zero]
      exact fun hmem => ha (of_decide_eq_true (List.mem_filter.mp hmem).2)

end Once

end Join

end SwaptoshiService
