import Mathlib.Data.List.Nodup
import Mathlib.Data.List.TakeDrop

/-!
# Pages of a list

A page of a list is given by an offset and a limit. A page of two lists, one after the other, is a
page of the first, filled up with a page of the second whose offset and limit follow from the length
of the first list and of its page (`slice_append`). Pages of the same limit that follow each other
make up the list (`flatMap_slice`). A list without repetitions has a page of its own for each
offset, up to its end (`slice_eq_slice_iff`).
-/

namespace SwaptoshiService

namespace Paging

variable {α : Type} {offset limit : ℕ} {l l' : List α}

/-- The elements from the offset on, as many as the limit. -/
def slice (offset limit : ℕ) (l : List α) : List α := (l.drop offset).take limit

theorem length_slice : (slice offset limit l).length = min limit (l.length - offset) := by
  rw [slice, List.length_take, List.length_drop]

theorem slice_map {β : Type} (f : α → β) (offset limit : ℕ) (l : List α) :
    slice offset limit (l.map f) = (slice offset limit l).map f := by
  rw [slice, slice, ← List.map_drop, List.map_take]

theorem slice_eq_nil_iff : slice offset limit l = [] ↔ limit = 0 ∨ l.length ≤ offset := by
  rw [← List.length_eq_zero_iff, length_slice]
  omega

/-- **A page of two lists.** -/
theorem slice_append : slice offset limit (l ++ l') =
    slice offset limit l ++
      slice (offset - l.length) (limit - (slice offset limit l).length) l' := by
  rw [slice, List.drop_append, List.take_append, slice, slice, List.length_take]
  congr 2
  omega

theorem slice_append_length (offset : ℕ) : slice (offset + l.length) limit (l ++ l') =
    slice offset limit l' := by
  rw [slice, Nat.add_comm, ← List.drop_drop, List.drop_left, slice]

/-- Different limits, different pages, up to the end of the list. -/
theorem slice_limit_eq_iff {limit' : ℕ} : slice offset limit l = slice offset limit' l ↔
    min limit (l.length - offset) = min limit' (l.length - offset) := by
  rw [slice, slice, List.take_eq_take_iff, List.length_drop]

/-- The beginning of a page. -/
theorem slice_zero_slice_min (limit limit' : ℕ) :
    slice 0 limit (slice offset limit' l) = slice offset (min limit limit') l := by
  rw [slice, slice, slice, List.drop_zero, List.take_take]

/-- A page of a longer page. -/
theorem slice_zero_slice {limit' : ℕ} (h : limit ≤ limit') :
    slice 0 limit (slice offset limit' l) = slice offset limit l := by
  rw [slice_zero_slice_min, Nat.min_eq_left h]

/-- A page that is not filled up is all that there is. -/
theorem slice_eq_of_length_lt {limit' : ℕ} (hle : limit ≤ limit')
    (h : (slice offset limit' l).length < limit) :
    slice offset limit l = slice offset limit' l := by
  rw [length_slice] at h
  rw [slice, slice, List.take_of_length_le (by rw [List.length_drop]; omega),
    List.take_of_length_le (by rw [List.length_drop]; omega)]

/-- The first page of two lists. -/
theorem slice_zero_append (h : l.length ≤ limit) :
    slice 0 limit (l ++ l') = l ++ slice 0 (limit - l.length) l' := by
  rw [slice_append, slice, List.drop_zero, List.take_of_length_le h, Nat.zero_sub]

/-- **Pages that follow each other** make up the list. -/
theorem flatMap_slice (limit : ℕ) (l : List α) (k : ℕ) :
    (List.range k).flatMap (fun i => slice (i * limit) limit l) = l.take (k * limit) := by
  induction k with
  | zero => simp
  | succ k ih =>
    rw [List.range_succ, List.flatMap_append, ih, List.flatMap_singleton, slice, Nat.succ_mul,
      List.take_add]

theorem head?_slice (h : 0 < limit) : (slice offset limit l).head? = l[offset]? := by
  rw [slice, List.head?_take, if_neg (by omega), List.head?_drop]

/-- **Different offsets**, different pages. -/
theorem slice_eq_slice_iff (hnodup : l.Nodup) (hlimit : 0 < limit) {offset' : ℕ} :
    slice offset limit l = slice offset' limit l ↔
      offset = offset' ∨ (l.length ≤ offset ∧ l.length ≤ offset') := by
  constructor
  · intro h
    have hhead : l[offset]? = l[offset']? := by
      rw [← head?_slice hlimit, h, head?_slice hlimit]
    by_cases hlt : offset < l.length
    · exact .inl ((List.getElem?_inj hlt hnodup).mp hhead)
    · right
      rw [List.getElem?_eq_none (by omega), eq_comm, List.getElem?_eq_none_iff] at hhead
      omega
  · rintro (rfl | ⟨h, h'⟩)
    · rfl
    · rw [slice_eq_nil_iff.mpr (.inr h), slice_eq_nil_iff.mpr (.inr h')]

end Paging

end SwaptoshiService
