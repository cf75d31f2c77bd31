import Mathlib.Data.List.AList
import SwaptoshiService.Lib.Except

/-!
# Records built key by key

Association lists with one entry for each key. `collect f keys` goes through `keys` and enters what
`f` gives for each of them; `collectM` does the same with an `f` that may fail. What is found under
a key afterwards is what `f` gives for it (`lookup_collect`), whatever the other keys are.
-/

namespace SwaptoshiService

namespace Record

variable {κ β ε : Type} [DecidableEq κ]

/-- The entry of a key, if there is one, is put into the record. -/
def enter (record : AList fun _ : κ => β) (key : κ) : Option β → AList fun _ : κ => β
  | none => record
  | some value => record.insert key value

/-- The record of what `f` gives for the keys. -/
def collect (f : κ → Option β) (keys : List κ) : AList fun _ : κ => β :=
  keys.foldl (fun acc key => enter acc key (f key)) ∅

/-- The same with an `f` that may fail. -/
def collectM (f : κ → Except ε (Option β)) (keys : List κ) : Except ε (AList fun _ : κ => β) :=
  keys.foldlM (fun acc key => return enter acc key (← f key)) ∅

variable {f : κ → Option β} {g : κ → Except ε (Option β)} {record : AList fun _ : κ => β}
  {keys : List κ} {key key' : κ}

@[simp] theorem lookup_enter_self (value : Option β) :
    (enter record key value).lookup key = value.or (record.lookup key) := by
  cases value with
  | none => rfl
  | some value => exact AList.lookup_insert record

theorem lookup_enter_ne (h : key' ≠ key) (value : Option β) :
    (enter record key value).lookup key' = record.lookup key' := by
  cases value with
  | none => rfl
  | some value => exact AList.lookup_insert_ne h

theorem lookup_foldl_enter : (keys.foldl (fun acc key => enter acc key (f key)) record).lookup key =
    if key ∈ keys then (f key).or (record.lookup key) else record.lookup key := by
  induction keys generalizing record with
  | nil => simp
  | cons key' keys ih =>
    rw [List.foldl_cons, ih]
    by_cases heq : key = key'
    · subst heq
      rw [lookup_enter_self, if_pos List.mem_cons_self]
      split_ifs
      · cases f key <;> rfl
      · rfl
    · rw [lookup_enter_ne heq]
      simp only [List.mem_cons, heq, false_or]

/-- **One key** at a time. -/
theorem lookup_collect : (collect f keys).lookup key = if key ∈ keys then f key else none := by
  rw [collect, lookup_foldl_enter, AList.lookup_empty, Option.or_none]

theorem foldlM_enter_of_ok (h : ∀ key ∈ keys, g key = .ok (f key)) :
    keys.foldlM (fun acc key => return enter acc key (← g key)) record =
      Except.ok (keys.foldl (fun acc key => enter acc key (f key)) record) := by
  induction keys generalizing record with
  | nil => rfl
  | cons key keys ih =>
    rw [List.forall_mem_cons] at h
    rw [List.foldlM_cons, h.1, List.foldl_cons, ← ih h.2]
    rfl

theorem collectM_of_ok (h : ∀ key ∈ keys, g key = .ok (f key)) :
    collectM g keys = .ok (collect f keys) := foldlM_enter_of_ok h

/-- The traversal has not failed at any key. -/
theorem exists_of_foldlM_enter {record' : AList fun _ : κ => β}
    (h : keys.foldlM (fun acc key => return enter acc key (← g key)) record = Except.ok record') :
    ∀ key ∈ keys, ∃ value, g key = .ok value := by
  induction keys generalizing record with
  | nil => exact List.forall_mem_nil _
  | cons key keys ih =>
    rw [List.foldlM_cons] at h
    obtain ⟨record₁, hkey, hrest⟩ := bind_eq_ok_iff.mp h
    obtain ⟨value, hvalue, -⟩ := bind_eq_ok_iff.mp hkey
    exact List.forall_mem_cons.mpr ⟨⟨value, hvalue⟩, ih hrest⟩

/-- What a traversal that has not failed has entered. -/
theorem exists_of_collectM {record' : AList fun _ : κ => β} (h : collectM g keys = .ok record') :
    ∃ f, (∀ key ∈ keys, g key = .ok (f key)) ∧ record' = collect f keys := by
  refine ⟨fun key => (g key).toOption.join, ?_⟩
  have hok : ∀ key ∈ keys, g key = .ok (g key).toOption.join := by
    intro key hkey
    obtain ⟨value, hvalue⟩ := exists_of_foldlM_enter h key hkey
    rw [hvalue]
    rfl
  refine ⟨hok, Except.ok.inj (h.symm.trans (collectM_of_ok hok))⟩

end Record

end SwaptoshiService
