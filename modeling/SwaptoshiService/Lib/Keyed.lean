import Mathlib.Data.List.Nodup

/-!
# Lists by keys

The elements of a list have keys that are all different. Then an element is found by its key
(`find?_of_nodup`), and of lists that are put together for the elements, the part for one of them is
told from the rest by the key (`filter_flatMap_of_nodup`). Where equal elements are dropped, a part
of the list that has none keeps all it has (`filter_eraseDups`, `eraseDups_eq_self`), and something
is dropped where there are any (`eraseDups_perm_iff`).
-/

namespace SwaptoshiService

section Keys

variable {α β κ : Type} {key : α → κ} {a : α} {l : List α}

theorem nodup_map_comp {ι : Type} {f : κ → ι} (hf : Function.Injective f)
    (hnodup : (l.map key).Nodup) : (l.map fun a => f (key a)).Nodup := by
  rw [← Function.comp_def, ← List.map_map]
  exact hnodup.map hf

variable [DecidableEq κ]

theorem find?_of_nodup (hnodup : (l.map key).Nodup) (ha : a ∈ l) :
    (l.find? fun b => key b = key a) = some a := by
  induction l with
  | nil => exact absurd ha List.not_mem_nil
  | cons b l ih =>
    rw [List.map_cons, List.nodup_cons] at hnodup
    rcases List.mem_cons.mp ha with rfl | ha
    · exact List.find?_cons_of_pos (by simp)
    · have hne : key b ≠ key a := fun heq => hnodup.1 (heq ▸ List.mem_map_of_mem ha)
      rw [List.find?_cons_of_neg (by simpa using hne), ih hnodup.2 ha]

/-- A key selects one element at most. -/
theorem filter_key_of_nodup (hnodup : (l.map key).Nodup) (k : κ) :
    (l.filter fun b => key b = k) = (l.find? fun b => key b = k).toList := by
  induction l with
  | nil => rfl
  | cons b l ih =>
    rw [List.map_cons, List.nodup_cons] at hnodup
    by_cases hkey : key b = k
    · have hnone : (l.filter fun b => key b = k) = [] := by
        rw [List.filter_eq_nil_iff]
        intro c hc
        rw [decide_eq_true_eq]
        exact fun heq => hnodup.1 (List.mem_map.mpr ⟨c, hc, heq.trans hkey.symm⟩)
      rw [List.filter_cons_of_pos (by simpa using hkey), hnone,
        List.find?_cons_of_pos (by simpa using hkey), Option.toList_some]
    · rw [List.filter_cons_of_neg (by simpa using hkey), ih hnodup.2,
        List.find?_cons_of_neg (by simpa using hkey)]

/-- The part for one of the elements. -/
theorem filter_flatMap_of_nodup {f : α → List β} {tag : β → κ}
    (htag : ∀ c ∈ l, ∀ b ∈ f c, tag b = key c) (hnodup : (l.map key).Nodup) (ha : a ∈ l) :
    ((l.flatMap f).filter fun b => tag b = key a) = f a := by
  induction l with
  | nil => exact absurd ha List.not_mem_nil
  | cons c l ih =>
    rw [List.map_cons, List.nodup_cons] at hnodup
    rw [List.forall_mem_cons] at htag
    rw [List.flatMap_cons, List.filter_append]
    rcases List.mem_cons.mp ha with rfl | ha
    · have hall : ((f a).filter fun b => tag b = key a) = f a :=
        List.filter_eq_self.mpr fun b hb => decide_eq_true (htag.1 b hb)
      have hnone : ((l.flatMap f).filter fun b => tag b = key a) = [] := by
        rw [List.filter_eq_nil_iff]
        intro b hb
        obtain ⟨c, hc, hb⟩ := List.mem_flatMap.mp hb
        rw [decide_eq_true_eq, htag.2 c hc b hb]
        exact fun heq => hnodup.1 (heq ▸ List.mem_map_of_mem hc)
      rw [hall, hnone, List.append_nil]
    · have hnone : ((f c).filter fun b => tag b = key a) = [] := by
        rw [List.filter_eq_nil_iff]
        intro b hb
        rw [decide_eq_true_eq, htag.1 b hb]
        exact fun heq => hnodup.1 (heq ▸ List.mem_map_of_mem ha)
      rw [hnone, List.nil_append, ih htag.2 hnodup.2 ha]

end Keys

section Duplicates

variable {α : Type} [DecidableEq α]

/-- Without equal elements nothing is dropped. -/
theorem eraseDups_eq_self {l : List α} (h : l.Nodup) : l.eraseDups = l := by
  induction l with
  | nil => rfl
  | cons a l ih =>
    rw [List.nodup_cons] at h
    have hothers : (l.filter fun b => !b == a) = l := by
      rw [List.filter_eq_self]
      intro b hb
      have hne : b ≠ a := fun heq => h.1 (heq ▸ hb)
      simpa using hne
    rw [List.eraseDups_cons, hothers, ih h.2]

/-- What is dropped from a part is what is dropped from the list. -/
theorem filter_eraseDups (p : α → Bool) (l : List α) :
    l.eraseDups.filter p = (l.filter p).eraseDups := by
  induction hn : l.length using Nat.strongRecOn generalizing l with
  | ind n ih =>
    cases l with
    | nil => rfl
    | cons a l =>
      have hlength : (l.filter fun b => !b == a).length < n := by
        rw [← hn, List.length_cons]
        exact Nat.lt_succ_of_le (List.length_filter_le _ _)
      rw [List.eraseDups_cons, List.filter_cons, List.filter_cons, ih _ hlength _ rfl]
      by_cases ha : p a
      · rw [if_pos ha, if_pos ha, List.eraseDups_cons, List.filter_filter, List.filter_filter]
        simp only [Bool.and_comm]
      · have hothers : ((l.filter fun b => !b == a).filter p) = l.filter p := by
          rw [List.filter_filter]
          refine List.filter_congr fun b _ => ?_
          by_cases hb : b = a
          · rw [hb]
            simp [ha]
          · simp [hb]
        rw [if_neg ha, if_neg ha, hothers]

theorem nodup_eraseDups (l : List α) : l.eraseDups.Nodup := by
  induction hn : l.length using Nat.strongRecOn generalizing l with
  | ind n ih =>
    cases l with
    | nil => exact List.nodup_nil
    | cons a l =>
      have hlength : (l.filter fun b => !b == a).length < n := by
        rw [← hn, List.length_cons]
        exact Nat.lt_succ_of_le (List.length_filter_le _ _)
      rw [List.eraseDups_cons, List.nodup_cons]
      refine ⟨fun hmem => ?_, ih _ hlength _ rfl⟩
      have hne := (List.mem_filter.mp (List.mem_eraseDups.mp hmem)).2
      simp at hne

/-- Something is dropped if and only if there are equal elements. -/
theorem eraseDups_perm_iff {l : List α} : l.eraseDups.Perm l ↔ l.Nodup := by
  constructor
  · intro hperm
    exact hperm.nodup_iff.mp (nodup_eraseDups l)
  · intro hnodup
    rw [eraseDups_eq_self hnodup]

end Duplicates

/-- What the elements of a list yield at their places has no equal elements if and only if each
element yields none, and no two of them yield the same. -/
theorem nodup_flatMap_zipIdx_iff {α β : Type} {l : List α} {f : α × ℕ → List β} :
    (l.zipIdx.flatMap f).Nodup ↔
      (∀ i a, l[i]? = some a → (f (a, i)).Nodup) ∧
        ∀ i j a b, i < j → l[i]? = some a → l[j]? = some b → (f (a, i)).Disjoint (f (b, j)) := by
  rw [List.nodup_flatMap, List.pairwise_iff_getElem]
  constructor
  · rintro ⟨hone, htwo⟩
    refine ⟨fun i a ha => hone (a, i) (List.mk_mem_zipIdx_iff_getElem?.mpr ha), ?_⟩
    intro i j a b hij ha hb
    obtain ⟨hi, rfl⟩ := List.getElem?_eq_some_iff.mp ha
    obtain ⟨hj, rfl⟩ := List.getElem?_eq_some_iff.mp hb
    have hdisjoint := htwo i j (by simpa using hi) (by simpa using hj) hij
    simpa [Function.onFun] using hdisjoint
  · rintro ⟨hone, htwo⟩
    refine ⟨fun p hp => hone p.2 p.1 (List.mk_mem_zipIdx_iff_getElem?.mp hp), ?_⟩
    intro i j hi hj hij
    rw [List.length_zipIdx] at hi hj
    have hdisjoint := htwo i j l[i] l[j] hij (List.getElem?_eq_getElem hi)
      (List.getElem?_eq_getElem hj)
    simpa [Function.onFun] using hdisjoint

end SwaptoshiService
