import SwaptoshiService.Lib.Replay

/-!
# Ledgers with a row for every item

A ledger is a table to which every item of a list posts the row of its key, and from which the
items that are taken back delete their rows again, matched by all columns. `Posted` says that the
table holds the rows of a list of items and is otherwise as it was at the start. Posting new items
and taking old ones back keep it, in whatever order the statements are made (`Posted.post`,
`Posted.unpost`), as long as no key is used twice.
-/

namespace SwaptoshiService

variable {ι K R : Type} {key : ι → K} {row : ι → Option R} {base f f' : K → Option R}
  {items new old : List ι}

/-- The table holds the rows of the items, and under other keys what it held at the start. -/
structure Posted (key : ι → K) (row : ι → Option R) (base f : K → Option R) (items : List ι) :
    Prop where
  present : ∀ a ∈ items, f (key a) = row a
  absent : ∀ k, (∀ a ∈ items, key a ≠ k) → f k = base k

/-- Without items the table is as it was. -/
theorem posted_nil : Posted key row f f [] :=
  ⟨fun _ ha => absurd ha List.not_mem_nil, fun _ _ => rfl⟩

/-- What a table holds is determined by the items. -/
theorem Posted.unique (h : Posted key row base f items) (h' : Posted key row base f' items)
    (k : K) : f k = f' k := by
  by_cases hk : ∃ a ∈ items, key a = k
  · obtain ⟨a, ha, rfl⟩ := hk
    rw [h.present a ha, h'.present a ha]
  · have hne : ∀ a ∈ items, key a ≠ k := fun a ha heq => hk ⟨a, ha, heq⟩
    rw [h.absent k hne, h'.absent k hne]

/-- Write a row. -/
def postRow (r : R) (_ : Option R) : Option R := some r

/-- Delete a row that matches in all columns. -/
def unpostRow [DecidableEq R] (r : R) (o : Option R) : Option R :=
  o.filter fun r' => !decide (r' = r)

variable [DecidableEq K]

/-- The changes that items make to what is under one key. -/
def postings (key : ι → K) (row : ι → Option R) (g : R → Option R → Option R) (k : K)
    (items : List ι) : List (Option R → Option R) :=
  items.flatMap fun a => if key a = k then ((row a).map g).toList else []

section Postings

variable {g : R → Option R → Option R} {k : K}

/-- Items with other keys change nothing. -/
theorem postings_of_ne (h : ∀ a ∈ items, key a ≠ k) : postings key row g k items = [] := by
  refine List.flatMap_eq_nil_iff.mpr fun a ha => ?_
  rw [if_neg (h a ha)]

/-- Of items with different keys one at most makes a change. -/
theorem postings_of_mem (hnodup : (items.map key).Nodup) {a : ι} (ha : a ∈ items) :
    postings key row g (key a) items = ((row a).map g).toList := by
  induction items with
  | nil => simp at ha
  | cons b items ih =>
    rw [List.map_cons, List.nodup_cons] at hnodup
    rw [postings, List.flatMap_cons]
    rcases List.mem_cons.mp ha with rfl | ha
    · have hothers : postings key row g (key a) items = [] := by
        refine postings_of_ne fun b hb heq => hnodup.1 ?_
        rw [← heq]
        exact List.mem_map_of_mem hb
      rw [if_pos rfl, ← postings, hothers, List.append_nil]
    · have hne : key b ≠ key a := fun heq => hnodup.1 (heq ▸ List.mem_map_of_mem ha)
      rw [if_neg hne, List.nil_append]
      exact ih hnodup.2 ha

end Postings

/-- One change at most, in whatever order, is that change. -/
private theorem perm_toList {l : List (Option R → Option R)} {o : Option (Option R → Option R)}
    (h : l.Perm o.toList) : l = o.toList := by
  cases o with
  | none => simpa using h
  | some g => simpa using h

/-- **Posting** the rows of new items. -/
theorem Posted.post (h : Posted key row base f items) (hnodup : (new.map key).Nodup)
    (hnew : ∀ a ∈ new, ∀ b ∈ items, key b ≠ key a) (hbase : ∀ a ∈ new, base (key a) = none)
    (hf : ∀ k, ∃ l, l.Perm (postings key row postRow k new) ∧ f' k = replay l (f k)) :
    Posted key row base f' (new ++ items) := by
  have hkept : ∀ k, (∀ a ∈ new, key a ≠ k) → f' k = f k := by
    intro k hk
    obtain ⟨l, hl, hreplay⟩ := hf k
    rw [postings_of_ne hk] at hl
    rw [hreplay, List.perm_nil.mp hl, replay_nil]
  refine ⟨fun a ha => ?_, fun k hk => ?_⟩
  · rcases List.mem_append.mp ha with ha | ha
    · obtain ⟨l, hl, hreplay⟩ := hf (key a)
      rw [postings_of_mem hnodup ha] at hl
      rw [hreplay, perm_toList hl, h.absent _ (hnew a ha), hbase a ha]
      cases row a <;> rfl
    · rw [hkept _ fun b hb heq => hnew b hb a ha heq.symm]
      exact h.present a ha
  · rw [hkept k fun a ha => hk a (List.mem_append_left _ ha)]
    exact h.absent k fun a ha => hk a (List.mem_append_right _ ha)

/-- **Taking back** the rows of old items. -/
theorem Posted.unpost [DecidableEq R] (h : Posted key row base f (old ++ items))
    (hnodup : ((old ++ items).map key).Nodup) (hbase : ∀ a ∈ old, base (key a) = none)
    (hf : ∀ k, ∃ l, l.Perm (postings key row unpostRow k old) ∧ f' k = replay l (f k)) :
    Posted key row base f' items := by
  have hkept : ∀ k, (∀ a ∈ old, key a ≠ k) → f' k = f k := by
    intro k hk
    obtain ⟨l, hl, hreplay⟩ := hf k
    rw [postings_of_ne hk] at hl
    rw [hreplay, List.perm_nil.mp hl, replay_nil]
  rw [List.map_append, List.nodup_append] at hnodup
  obtain ⟨hold, -, hapart⟩ := hnodup
  refine ⟨fun a ha => ?_, fun k hk => ?_⟩
  · rw [hkept _ fun b hb => hapart _ (List.mem_map_of_mem hb) _ (List.mem_map_of_mem ha)]
    exact h.present a (List.mem_append_right _ ha)
  · by_cases hmem : ∃ a ∈ old, key a = k
    · obtain ⟨a, ha, rfl⟩ := hmem
      obtain ⟨l, hl, hreplay⟩ := hf (key a)
      rw [postings_of_mem hold ha] at hl
      rw [hreplay, perm_toList hl, h.present a (List.mem_append_left _ ha), hbase a ha]
      cases hrow : row a with
      | none => rfl
      | some r => simp [unpostRow]
    · have hne : ∀ a ∈ old, key a ≠ k := fun a ha heq => hmem ⟨a, ha, heq⟩
      rw [hkept k hne]
      refine h.absent k fun a ha => ?_
      rcases List.mem_append.mp ha with ha | ha
      · exact hne a ha
      · exact hk a ha

end SwaptoshiService
