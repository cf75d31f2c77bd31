import Mathlib

/-!
# Totals by key

The elements of a list are put together by a key, in an object that starts with `start key` for a
key that is new. What an object has for a key comes from the elements with this key
(`lookup_tally`), and what it has in all comes from all elements (`sum_tally`). Where a list is
cut off, all totals are those of the whole list if and only if nothing that counts is cut off
(`sums_take_iff`).
-/

namespace SwaptoshiService

variable {α κ M : Type} [DecidableEq κ]

/-- `acc[key] = add(acc[key] ?? start, element)`, for one element after another. -/
def tally (key : α → κ) (start : κ → M) (add : M → α → M) (l : List α) : AList fun _ : κ => M :=
  l.foldl (fun acc a => acc.insert (key a) (add ((acc.lookup (key a)).getD (start (key a))) a)) ∅

section Tally

variable {key : α → κ} {start : κ → M} {add : M → α → M} {l : List α} {k : κ}

theorem tally_concat (l : List α) (a : α) : tally key start add (l ++ [a]) =
    (tally key start add l).insert (key a)
      (add (((tally key start add l).lookup (key a)).getD (start (key a))) a) := by
  rw [tally, List.foldl_append]
  rfl

/-- **What there is for a key.** -/
theorem lookup_tally (l : List α) (k : κ) : (tally key start add l).lookup k =
    if k ∈ l.map key then some ((l.filter fun a => key a = k).foldl add (start k)) else none := by
  induction l using List.reverseRecOn with
  | nil => rfl
  | append_singleton l a ih =>
    rw [tally_concat, List.map_append, List.filter_append]
    by_cases hk : k = key a
    · subst hk
      have hget : ((tally key start add l).lookup (key a)).getD (start (key a)) =
          (l.filter fun b => key b = key a).foldl add (start (key a)) := by
        rw [ih]
        split_ifs with hmem
        · rfl
        · have hnone : l.filter (fun b => key b = key a) = [] := by
            rw [List.filter_eq_nil_iff]
            exact fun b hb heq => hmem (List.mem_map.mpr ⟨b, hb, of_decide_eq_true heq⟩)
          rw [hnone]
          rfl
      simp [AList.lookup_insert, hget]
    · have hmem : k ∈ l.map key ++ [a].map key ↔ k ∈ l.map key := by simp [hk]
      have hskip : [a].filter (fun b => key b = k) = [] := by simp [Ne.symm hk]
      rw [AList.lookup_insert_ne hk, ih, hskip, List.append_nil, if_congr hmem rfl rfl]

end Tally

/-! ### Sums over an object -/

section Sums

variable {f : (_ : κ) × M → ℕ}

/-- Replacing what there is for a key. -/
theorem sum_entries_insert (s : AList fun _ : κ => M) (k : κ) (m : M) :
    ((s.insert k m).entries.map f).sum + ((s.lookup k).elim 0 fun m' => f ⟨k, m'⟩) =
      (s.entries.map f).sum + f ⟨k, m⟩ := by
  rw [AList.entries_insert, List.map_cons, List.sum_cons]
  cases hget : s.lookup k with
  | none =>
    rw [List.kerase_of_notMem_keys (AList.lookup_eq_none.mp hget), Option.elim_none, add_zero,
      add_comm]
  | some m' =>
    obtain ⟨m₀, before, after, hbefore, hentries, hrest⟩ := List.exists_of_kerase
      (AList.mem_keys.mp (AList.lookup_isSome.mp (Option.isSome_of_eq_some hget)))
    have hmem : (⟨k, m₀⟩ : (_ : κ) × M) ∈ s.entries := by
      rw [hentries]
      exact List.mem_append_right _ List.mem_cons_self
    obtain rfl : m₀ = m' := Option.some.inj ((AList.mem_lookup_iff.mpr hmem).symm.trans hget)
    rw [hrest, hentries, Option.elim_some, List.map_append, List.map_append, List.map_cons,
      List.sum_append, List.sum_append, List.sum_cons]
    omega

variable {key : α → κ} {start : κ → M} {add : M → α → M} {g : α → ℕ}

/-- **What there is in all.** -/
theorem sum_tally (hstart : ∀ k, f ⟨k, start k⟩ = 0)
    (hadd : ∀ m a, f ⟨key a, add m a⟩ = f ⟨key a, m⟩ + g a) (l : List α) :
    ((tally key start add l).entries.map f).sum = (l.map g).sum := by
  induction l using List.reverseRecOn with
  | nil => rfl
  | append_singleton l a ih =>
    have hinsert := sum_entries_insert (f := f) (tally key start add l) (key a)
      (add (((tally key start add l).lookup (key a)).getD (start (key a))) a)
    rw [← tally_concat, ih, hadd] at hinsert
    rw [List.map_append, List.sum_append, List.map_singleton, List.sum_singleton]
    cases hget : (tally key start add l).lookup (key a) with
    | none =>
      rw [hget, Option.elim_none, Option.getD_none, hstart] at hinsert
      omega
    | some m =>
      rw [hget, Option.elim_some, Option.getD_some] at hinsert
      omega

/-- Of the rows of a list, what is cut off counts for nothing if and only if no total changes. -/
theorem sums_take_iff (key : α → κ) (g : α → ℕ) (l : List α) (n : ℕ) :
    (∀ k, (((l.take n).filter fun a => key a = k).map g).sum =
        ((l.filter fun a => key a = k).map g).sum) ↔ ∀ a ∈ l.drop n, g a = 0 := by
  have hsplit (k : κ) : ((l.filter fun a => key a = k).map g).sum =
      (((l.take n).filter fun a => key a = k).map g).sum +
        (((l.drop n).filter fun a => key a = k).map g).sum := by
    rw [← List.sum_append, ← List.map_append, ← List.filter_append, List.take_append_drop]
  constructor
  · intro h a ha
    have hzero : (((l.drop n).filter fun b => key b = key a).map g).sum = 0 := by
      have hk := h (key a)
      rw [hsplit] at hk
      omega
    have hmem : a ∈ (l.drop n).filter fun b => key b = key a :=
      List.mem_filter.mpr ⟨ha, decide_eq_true rfl⟩
    exact List.sum_eq_zero_iff_forall_eq_nat.mp hzero _ (List.mem_map.mpr ⟨a, hmem, rfl⟩)
  · intro h k
    have hzero : (((l.drop n).filter fun a => key a = k).map g).sum = 0 := by
      refine List.sum_eq_zero fun m hm => ?_
      obtain ⟨a, ha, rfl⟩ := List.mem_map.mp hm
      exact h a (List.mem_of_mem_filter ha)
    rw [hsplit, hzero, add_zero]

end Sums

end SwaptoshiService
