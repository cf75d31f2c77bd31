import Mathlib.Data.List.Induction
import Mathlib.Data.List.Sort

/-!
# Sorting by a key

A comparison that agrees on a list with a total order of keys. Sorting is stable
(`filter_mergeSort_key`), and the sequence of the keys does not depend on the order in which the
list is given. That of other values does, unless the key determines them
(`map_mergeSort_perm_iff`). A list that grows and is sorted after each step is the list sorted at
the end (`foldl_mergeSort`).
-/

namespace SwaptoshiService

/-- A total order, as a test. -/
structure IsTotalLe {β : Type} (r : β → β → Bool) : Prop where
  trans : ∀ x y z, r x y = true → r y z = true → r x z = true
  total : ∀ x y, (r x y || r y x) = true
  antisymm : ∀ x y, r x y = true → r y x = true → x = y

theorem IsTotalLe.flip {β : Type} {r : β → β → Bool} (hr : IsTotalLe r) :
    IsTotalLe fun x y => r y x where
  trans x y z hxy hyz := hr.trans z y x hyz hxy
  total x y := hr.total y x
  antisymm x y hxy hyx := hr.antisymm x y hyx hxy

theorem isTotalLe_le {β : Type} [LinearOrder β] : IsTotalLe fun x y : β => decide (x ≤ y) where
  trans x y z hxy hyz := by
    simp only [decide_eq_true_eq] at *
    exact hxy.trans hyz
  total x y := by simpa using le_total x y
  antisymm x y hxy hyx := by
    simp only [decide_eq_true_eq] at *
    exact le_antisymm hxy hyx

section Key

variable {α β γ : Type} {r : β → β → Bool} {key : α → β} {le : α → α → Bool} {l l' : List α}

/-- The comparison agrees on the list with the order of the keys. -/
def SortsBy (le : α → α → Bool) (r : β → β → Bool) (key : α → β) (l : List α) : Prop :=
  ∀ a ∈ l, ∀ b ∈ l, le a b = r (key a) (key b)

theorem SortsBy.perm (h : SortsBy le r key l) (hp : l'.Perm l) : SortsBy le r key l' :=
  fun a ha b hb => h a (hp.subset ha) b (hp.subset hb)

/-- The keys of a list are in the same order however it was given. -/
theorem map_key_mergeSort_perm (hr : IsTotalLe r) (h : SortsBy le r key l) (hp : l'.Perm l) :
    (l'.mergeSort le).map key = (l.mergeSort le).map key := by
  rw [List.map_mergeSort (h.perm hp), List.map_mergeSort h]
  refine List.Perm.eq_of_pairwise (fun x y _ _ => hr.antisymm x y)
    (List.pairwise_mergeSort hr.trans hr.total _) (List.pairwise_mergeSort hr.trans hr.total _) ?_
  exact (List.mergeSort_perm _ _).trans ((hp.map key).trans (List.mergeSort_perm _ _).symm)

/-- Elements with one key stay in their order. -/
theorem filter_mergeSort_key [DecidableEq β] (hr : IsTotalLe r) (h : SortsBy le r key l) (k : β) :
    (l.mergeSort le).filter (fun a => key a = k) = l.filter fun a => key a = k := by
  have hsort : l.mergeSort le = l.mergeSort fun a b => r (key a) (key b) := by
    have hmap := List.map_mergeSort (f := id) (s := fun a b => r (key a) (key b)) h
    rwa [List.map_id, List.map_id] at hmap
  have hrefl : ∀ x, r x x = true := fun x => by simpa using hr.total x x
  have hpairwise : (l.filter fun a => key a = k).Pairwise fun a b => r (key a) (key b) = true := by
    refine List.pairwise_of_forall_mem_list fun a ha b hb => ?_
    rw [of_decide_eq_true (List.mem_filter.mp ha).2, of_decide_eq_true (List.mem_filter.mp hb).2]
    exact hrefl k
  -- They are in order, so they are a sublist of the sorted list, and as many.
  have hsub := List.sublist_mergeSort (fun a b c => hr.trans (key a) (key b) (key c))
    (fun a b => hr.total (key a) (key b)) hpairwise List.filter_sublist
  rw [hsort]
  have hlength : (l.filter fun a => key a = k).length =
      ((l.mergeSort fun a b => r (key a) (key b)).filter fun a => key a = k).length :=
    ((List.mergeSort_perm _ _).filter _).length_eq.symm
  refine (List.Sublist.eq_of_length ?_ hlength).symm
  · have hfilter := hsub.filter fun a => decide (key a = k)
    simp only [List.filter_filter, Bool.and_self] at hfilter
    exact hfilter

/-- Equal keys of lists, one by one. -/
theorem map_eq_map_of_key {f : α → γ} (hf : ∀ a ∈ l, ∀ b ∈ l', key a = key b → f a = f b)
    (h : l.map key = l'.map key) : l.map f = l'.map f := by
  induction l generalizing l' with
  | nil =>
    obtain rfl : l' = [] := List.map_eq_nil_iff.mp h.symm
    rfl
  | cons a l ih =>
    obtain ⟨b, l', rfl⟩ : ∃ b l'', l' = b :: l'' := by
      match l', h with
      | b :: l'', _ => exact ⟨b, l'', rfl⟩
    obtain ⟨hkey, hrest⟩ := List.cons.inj h
    rw [List.map_cons, List.map_cons, hf a List.mem_cons_self b List.mem_cons_self hkey,
      ih (fun a' ha' b' hb' => hf a' (List.mem_cons_of_mem a ha') b' (List.mem_cons_of_mem b hb'))
        hrest]

/-- The values that the key is read off are in the same order however the list was given, if and
only if the key determines them. -/
theorem map_mergeSort_perm_iff [DecidableEq β] {f : α → γ} {g : γ → β} (hr : IsTotalLe r)
    (h : SortsBy le r (g ∘ f) l) :
    (∀ l' : List α, l'.Perm l → (l'.mergeSort le).map f = (l.mergeSort le).map f) ↔
      ∀ a ∈ l, ∀ b ∈ l, g (f a) = g (f b) → f a = f b := by
  constructor
  · intro hall a ha b hb hkey
    -- Whichever of the two is put first comes first among those with its key.
    have hfirst : ∀ c ∈ l, ∃ cs, ((l.mergeSort le).map f).filter (fun x => g x = g (f c)) =
        f c :: cs := by
      intro c hc
      obtain ⟨s, t, rfl⟩ := List.append_of_mem hc
      have hp : (c :: (s ++ t)).Perm (s ++ c :: t) := List.perm_middle.symm
      refine ⟨((s ++ t).filter fun a => g (f a) = g (f c)).map f, ?_⟩
      rw [← hall _ hp, List.filter_map]
      have hstable := filter_mergeSort_key hr (h.perm hp) (g (f c))
      simp only [Function.comp_def] at hstable ⊢
      rw [hstable, List.filter_cons_of_pos (by simp), List.map_cons]
    obtain ⟨as, has⟩ := hfirst a ha
    obtain ⟨bs, hbs⟩ := hfirst b hb
    rw [hkey, hbs] at has
    exact (List.cons.inj has).1.symm
  · intro hf l' hp
    have hkeys := map_key_mergeSort_perm hr h hp
    refine map_eq_map_of_key (fun a ha b hb => hf a ?_ b ?_) hkeys
    · exact hp.subset ((List.mergeSort_perm _ _).subset ha)
    · exact (List.mergeSort_perm _ _).subset hb

/-- Sorted lists are the same if those with each key are, in their order. -/
theorem eq_of_filter_key [DecidableEq β] (hr : IsTotalLe r)
    (hl : l.Pairwise fun a b => r (key a) (key b) = true)
    (hl' : l'.Pairwise fun a b => r (key a) (key b) = true)
    (h : ∀ k, l.filter (fun a => key a = k) = l'.filter fun a => key a = k) : l = l' := by
  have hmem : ∀ a, a ∈ l ↔ a ∈ l' := fun a => by
    have hkey := congrArg (a ∈ ·) (h (key a))
    simpa using hkey
  induction l generalizing l' with
  | nil =>
    exact (List.eq_nil_iff_forall_not_mem.mpr fun a ha => by simpa using (hmem a).mpr ha).symm
  | cons a l ih =>
    obtain ⟨b, l', rfl⟩ := List.exists_cons_of_ne_nil
      (List.ne_nil_of_mem ((hmem a).mp List.mem_cons_self))
    obtain ⟨ha, htail⟩ := List.pairwise_cons.mp hl
    obtain ⟨hb, htail'⟩ := List.pairwise_cons.mp hl'
    have hrefl : ∀ x, r x x = true := fun x => by simpa using hr.total x x
    -- The first of each is at most the first of the other, so the two have one key.
    have hab : r (key a) (key b) = true := by
      rcases List.mem_cons.mp ((hmem b).mpr List.mem_cons_self) with rfl | hmem'
      exacts [hrefl _, ha b hmem']
    have hba : r (key b) (key a) = true := by
      rcases List.mem_cons.mp ((hmem a).mp List.mem_cons_self) with rfl | hmem'
      exacts [hrefl _, hb a hmem']
    have hkey : key a = key b := hr.antisymm _ _ hab hba
    have hheads := h (key b)
    rw [List.filter_cons_of_pos (by simpa using hkey), List.filter_cons_of_pos (by simp)] at hheads
    obtain rfl := (List.cons.inj hheads).1
    have hrest : ∀ k, l.filter (fun c => key c = k) = l'.filter fun c => key c = k := fun k => by
      have hk := h k
      by_cases hak : key a = k
      · rw [List.filter_cons_of_pos (by simpa using hak),
          List.filter_cons_of_pos (by simpa using hak)] at hk
        exact (List.cons.inj hk).2
      · rwa [List.filter_cons_of_neg (by simpa using hak),
          List.filter_cons_of_neg (by simpa using hak)] at hk
    refine congrArg (a :: ·) (ih htail htail' hrest fun c => ?_)
    have hkey := congrArg (c ∈ ·) (hrest (key c))
    simpa using hkey

theorem pairwise_key_mergeSort (hr : IsTotalLe r) (l : List α) :
    (l.mergeSort fun a b => r (key a) (key b)).Pairwise fun a b => r (key a) (key b) = true :=
  List.pairwise_mergeSort (fun a b c => hr.trans (key a) (key b) (key c))
    (fun a b => hr.total (key a) (key b)) l

/-- What is put behind a list that was sorted comes to where it comes behind the list itself. -/
theorem mergeSort_append_mergeSort [DecidableEq β] (hr : IsTotalLe r) (l l' : List α) :
    (l.mergeSort (fun a b => r (key a) (key b)) ++ l').mergeSort (fun a b => r (key a) (key b)) =
      (l ++ l').mergeSort fun a b => r (key a) (key b) := by
  have hstable : ∀ (k : β) (l : List α), (l.mergeSort fun a b => r (key a) (key b)).filter
      (fun a => key a = k) = l.filter fun a => key a = k :=
    fun k l => filter_mergeSort_key hr (fun _ _ _ _ => rfl) k
  refine eq_of_filter_key hr (pairwise_key_mergeSort hr _) (pairwise_key_mergeSort hr _) fun k => ?_
  rw [hstable, hstable, List.filter_append, List.filter_append, hstable]

/-- Sorting after each step comes to sorting at the end. -/
theorem foldl_mergeSort [DecidableEq β] (hr : IsTotalLe r) (f : γ → List α) (steps : List γ) :
    steps.foldl (fun l c => (l ++ f c).mergeSort fun a b => r (key a) (key b)) [] =
      (steps.flatMap f).mergeSort fun a b => r (key a) (key b) := by
  induction steps using List.reverseRecOn with
  | nil => simp
  | append_singleton steps c ih =>
    rw [List.foldl_append, ih, List.foldl_cons, List.foldl_nil, mergeSort_append_mergeSort hr,
      List.flatMap_append, List.flatMap_singleton]

/-- A list with two keys is sorted to those with the one, and those with the other after them. -/
theorem mergeSort_eq_append [DecidableEq β] (hr : IsTotalLe r) {k k' : β} (hk : r k k' = true)
    (hne : k ≠ k') (h : ∀ a ∈ l, key a = k ∨ key a = k') :
    l.mergeSort (fun a b => r (key a) (key b)) =
      l.filter (fun a => key a = k) ++ l.filter fun a => key a = k' := by
  have hrefl : ∀ x, r x x = true := fun x => by simpa using hr.total x x
  have hself : ∀ k, (l.filter fun a => key a = k).Pairwise fun a b => r (key a) (key b) = true := by
    intro k
    refine List.pairwise_of_forall_mem_list fun a ha b hb => ?_
    rw [of_decide_eq_true (List.mem_filter.mp ha).2, of_decide_eq_true (List.mem_filter.mp hb).2]
    exact hrefl k
  refine eq_of_filter_key hr (pairwise_key_mergeSort hr _)
    (List.pairwise_append.mpr ⟨hself k, hself k', fun a ha b hb => ?_⟩) fun j => ?_
  · rwa [of_decide_eq_true (List.mem_filter.mp ha).2, of_decide_eq_true (List.mem_filter.mp hb).2]
  · rw [filter_mergeSort_key hr (fun _ _ _ _ => rfl), List.filter_append, List.filter_filter,
      List.filter_filter]
    have hnone : ∀ i, j ≠ i →
        (l.filter fun a => decide (key a = j) && decide (key a = i)) = [] := by
      intro i hi
      refine List.filter_eq_nil_iff.mpr fun a _ ha => hi ?_
      simp only [Bool.and_eq_true, decide_eq_true_eq] at ha
      exact ha.1.symm.trans ha.2
    by_cases hj : j = k
    · subst hj
      simp [hnone k' hne]
    · by_cases hj' : j = k'
      · subst hj'
        simp [hnone k hj]
      · rw [hnone k hj, hnone k' hj', List.append_nil]
        refine List.filter_eq_nil_iff.mpr fun a ha hkey => ?_
        have hkey : key a = j := of_decide_eq_true hkey
        rcases h a ha with h | h
        exacts [hj (hkey.symm.trans h), hj' (hkey.symm.trans h)]

end Key

section Insertion

variable {α β : Type} [LinearOrder β] {r : α → α → Prop} [DecidableRel r]
  {l l' : List α}

/-- A list whose keys rise is what its permutations are sorted to. -/
theorem insertionSort_eq_of_key (key : α → β) (hr : ∀ a ∈ l, ∀ b ∈ l, r a b ↔ key a ≤ key b)
    (hl : l'.Pairwise fun a b => key a < key b) (hp : l.Perm l') : l.insertionSort r = l' := by
  have hkeys : (l.insertionSort r).map key = l'.map key := by
    rw [List.map_insertionSort r (· ≤ ·) key l hr]
    refine ((List.perm_insertionSort _ _).trans (hp.map key)).eq_of_pairwise'
      (List.pairwise_insertionSort _ _) ?_
    exact (List.pairwise_map.mpr hl).imp fun h => h.le
  have hnodup : (l'.map key).Nodup := (List.pairwise_map.mpr hl).imp fun h => h.ne
  have hmem : ∀ a ∈ l.insertionSort r, a ∈ l' := fun a ha =>
    hp.subset ((List.perm_insertionSort _ _).subset ha)
  have hmap := map_eq_map_of_key (f := id) (fun a ha b hb =>
    List.inj_on_of_nodup_map hnodup (hmem a ha) hb) hkeys
  rwa [List.map_id, List.map_id] at hmap

end Insertion

end SwaptoshiService
