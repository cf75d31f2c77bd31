import Mathlib.Data.List.Basic

/-!
# Trees of arrays and objects

Values that are leaves, arrays of values, or objects: lists of keys with values. `Tree.map` changes
the leaves, and `Within w v` says that `w` is somewhere in `v`, at any depth.
-/

namespace SwaptoshiService

/-- A leaf, an array, or an object with its entries. -/
inductive Tree (κ α : Type)
  | leaf (a : α)
  | array (items : List (Tree κ α))
  | object (entries : List (κ × Tree κ α))

namespace Tree

variable {κ α β : Type}

/-- The hypotheses are about the items, and about the values of the entries. -/
@[elab_as_elim]
theorem induction {motive : Tree κ α → Prop} (leaf : ∀ a, motive (.leaf a))
    (array : ∀ items, (∀ x ∈ items, motive x) → motive (.array items))
    (object : ∀ entries, (∀ e ∈ entries, motive e.2) → motive (.object entries)) :
    ∀ v, motive v := by
  refine Tree.rec (motive_2 := fun items => ∀ x ∈ items, motive x)
    (motive_3 := fun entries => ∀ e ∈ entries, motive e.2) (motive_4 := fun e => motive e.2)
    leaf array object ?_ ?_ ?_ ?_ ?_
  · exact List.forall_mem_nil _
  · exact fun x items hx hitems => List.forall_mem_cons.mpr ⟨hx, hitems⟩
  · exact List.forall_mem_nil _
  · exact fun e entries he hentries => List.forall_mem_cons.mpr ⟨he, hentries⟩
  · exact fun k x hx => hx

/-! ### Leaves -/

mutual

/-- Every leaf is changed. -/
def map (f : α → β) : Tree κ α → Tree κ β
  | .leaf a => .leaf (f a)
  | .array items => .array (mapItems f items)
  | .object entries => .object (mapEntries f entries)

/-- Every leaf of every item is changed. -/
def mapItems (f : α → β) : List (Tree κ α) → List (Tree κ β)
  | [] => []
  | x :: items => map f x :: mapItems f items

/-- Every leaf of the value of every entry is changed. -/
def mapEntries (f : α → β) : List (κ × Tree κ α) → List (κ × Tree κ β)
  | [] => []
  | (k, x) :: entries => (k, map f x) :: mapEntries f entries

end

@[simp] theorem map_leaf (f : α → β) (a : α) : (leaf a : Tree κ α).map f = .leaf (f a) := rfl

@[simp] theorem map_array (f : α → β) (items : List (Tree κ α)) :
    (array items).map f = .array (items.map (map f)) := by
  rw [map]
  congr 1
  induction items with
  | nil => rfl
  | cons x items ih => rw [mapItems, ih, List.map_cons]

@[simp] theorem map_object (f : α → β) (entries : List (κ × Tree κ α)) :
    (object entries).map f = .object (entries.map fun e => (e.1, e.2.map f)) := by
  rw [map]
  congr 1
  induction entries with
  | nil => rfl
  | cons e entries ih => rw [mapEntries, ih, List.map_cons]

/-! ### Values within values -/

/-- `w` is the value, or is within one of its items or entries. -/
inductive Within (w : Tree κ α) : Tree κ α → Prop
  | refl : Within w w
  | item {x items} : x ∈ items → Within w x → Within w (.array items)
  | entry {e entries} : e ∈ entries → Within w e.2 → Within w (.object entries)

variable {w x : Tree κ α} {a b : α} {items : List (Tree κ α)} {entries : List (κ × Tree κ α)}

@[simp] theorem within_leaf : Within w (.leaf a) ↔ w = .leaf a :=
  ⟨fun h => by cases h; rfl, fun h => h ▸ .refl⟩

theorem within_array :
    Within w (.array items) ↔ w = .array items ∨ ∃ x ∈ items, Within w x := by
  constructor
  · rintro (_ | ⟨hx, hw⟩ | _)
    · exact .inl rfl
    · exact .inr ⟨_, hx, hw⟩
  · rintro (rfl | ⟨x, hx, hw⟩)
    · exact .refl
    · exact .item hx hw

theorem within_object :
    Within w (.object entries) ↔ w = .object entries ∨ ∃ e ∈ entries, Within w e.2 := by
  constructor
  · rintro (_ | _ | ⟨he, hw⟩)
    · exact .inl rfl
    · exact .inr ⟨_, he, hw⟩
  · rintro (rfl | ⟨e, he, hw⟩)
    · exact .refl
    · exact .entry he hw

/-- Every leaf at any depth has the property. -/
def AllLeaves (p : α → Prop) (v : Tree κ α) : Prop := ∀ a, Within (.leaf a) v → p a

variable {p : α → Prop}

@[simp] theorem allLeaves_leaf : AllLeaves p (leaf a : Tree κ α) ↔ p a := by
  simp [AllLeaves]

@[simp] theorem allLeaves_array : AllLeaves p (.array items) ↔ ∀ x ∈ items, AllLeaves p x := by
  simp only [AllLeaves, within_array]
  grind

@[simp] theorem allLeaves_object :
    AllLeaves p (.object entries) ↔ ∀ e ∈ entries, AllLeaves p e.2 := by
  simp only [AllLeaves, within_object]
  grind

/-- The leaf is an item of no array at any depth. -/
def NoItem (a : α) (v : Tree κ α) : Prop := ∀ items, Within (.array items) v → .leaf a ∉ items

@[simp] theorem noItem_leaf : NoItem a (leaf b : Tree κ α) := by
  simp [NoItem]

@[simp] theorem noItem_array :
    NoItem a (.array items) ↔ ∀ x ∈ items, x ≠ .leaf a ∧ NoItem a x := by
  simp only [NoItem, within_array]
  grind

@[simp] theorem noItem_object : NoItem a (.object entries) ↔ ∀ e ∈ entries, NoItem a e.2 := by
  simp only [NoItem, within_object]
  grind

end Tree

end SwaptoshiService
