import Mathlib.Data.Finset.Basic
import Mathlib.Data.Finset.Filter
import Mathlib.Logic.Function.Basic

/-!
# Finite keyed stores and pointwise writes

A `Store κ ρ` holds at most one row of type `ρ c` under every key `c : κ`, and only finitely
many rows: the invariant is a field, so a store with an unaccounted row cannot be built. Two
stores with the same rows are equal (`Store.ext_get`).

A `Write κ ρ` is a **pointwise** statement: what becomes of the row under `c` depends on that
row alone, and rows are created under finitely many listed keys only. Insert-or-update,
increments, conditional updates and conditional deletions are all of this shape. Pointwise
statements compose (`Write.comp`), and two of them commute exactly when they commute at every
key, which is what the concurrency arguments rest on.
-/

namespace SwaptoshiService

universe u v

/-- A finite map from keys to rows, the row type depending on the key. -/
structure Store (κ : Type u) (ρ : κ → Type v) where
  /-- The row under a key, if there is one. -/
  get : (c : κ) → Option (ρ c)
  /-- The keys in use. -/
  keys : Finset κ
  /-- Exactly the keys in use hold a row. -/
  mem_keys : ∀ c, c ∈ keys ↔ (get c).isSome

namespace Store

variable {κ : Type u} {ρ : κ → Type v}

/-- A store is determined by its rows. -/
theorem ext_get {s t : Store κ ρ} (h : ∀ c, s.get c = t.get c) : s = t := by
  obtain ⟨get, keys, hk⟩ := s
  obtain ⟨get', keys', hk'⟩ := t
  obtain rfl : get = get' := funext h
  obtain rfl : keys = keys' := Finset.ext fun c => by rw [hk, hk']
  rfl

/-- The store without rows. -/
def empty : Store κ ρ := ⟨fun _ => none, ∅, by simp⟩

@[simp] theorem get_empty (c : κ) : (empty : Store κ ρ).get c = none := rfl

end Store

/-- A pointwise statement: the new row under a key depends on the old row under it, and only
the keys in `inserts` may receive a row where there was none. -/
@[ext]
structure Write (κ : Type u) (ρ : κ → Type v) where
  /-- What becomes of the row under a key. -/
  act : (c : κ) → Option (ρ c) → Option (ρ c)
  /-- The keys that may be inserted. -/
  inserts : Finset κ
  /-- No row appears under any other key. -/
  act_none : ∀ c, c ∉ inserts → act c none = none

namespace Write

variable {κ : Type u} {ρ : κ → Type v}

/-- The statement that changes nothing. -/
def nop : Write κ ρ := ⟨fun _ o => o, ∅, fun _ _ => rfl⟩

@[simp] theorem nop_act (c : κ) (o : Option (ρ c)) : (nop : Write κ ρ).act c o = o := rfl

/-- The statement leaves the row under `c` alone. -/
def Fixes (w : Write κ ρ) (c : κ) : Prop := ∀ o, w.act c o = o

theorem nop_fixes (c : κ) : (nop : Write κ ρ).Fixes c := fun _ => rfl

/-- Apply `f` to every row, dropping the rows it sends to `none`: the shape of conditional
updates and deletions. -/
def each (f : (c : κ) → ρ c → Option (ρ c)) : Write κ ρ :=
  ⟨fun c o => o.bind (f c), ∅, fun _ _ => rfl⟩

@[simp] theorem each_act (f : (c : κ) → ρ c → Option (ρ c)) (c : κ) (o : Option (ρ c)) :
    (each f).act c o = o.bind (f c) := rfl

theorem each_fixes {f : (c : κ) → ρ c → Option (ρ c)} {c : κ} (h : ∀ r, f c r = some r) :
    (each f).Fixes c := by
  intro o
  cases o with
  | none => rfl
  | some r => simp [h r]

/-- Two statements commute when they do so at every key. -/
def Commutes (w w' : Write κ ρ) : Prop :=
  ∀ c o, w.act c (w'.act c o) = w'.act c (w.act c o)

theorem Commutes.symm {w w' : Write κ ρ} (h : w.Commutes w') : w'.Commutes w :=
  fun c o => (h c o).symm

/-- Statements that never meet on a key commute. -/
theorem commutes_of_fixes {w w' : Write κ ρ} (h : ∀ c, w.Fixes c ∨ w'.Fixes c) :
    w.Commutes w' := by
  intro c o
  rcases h c with hc | hc <;> simp only [hc _]

variable [DecidableEq κ]

/-- Change the row under one key. -/
def point (c : κ) (f : Option (ρ c) → Option (ρ c)) : Write κ ρ where
  act := Function.update (fun _ o => o) c f
  inserts := {c}
  act_none c' h := by
    have hne : c' ≠ c := by simpa using h
    simp [Function.update_of_ne hne]

@[simp] theorem point_act_self (c : κ) (f : Option (ρ c) → Option (ρ c)) (o : Option (ρ c)) :
    (point c f).act c o = f o := by simp [point]

theorem point_act_of_ne {c c' : κ} (h : c' ≠ c) (f : Option (ρ c) → Option (ρ c))
    (o : Option (ρ c')) : (point c f).act c' o = o := by
  simp [point, Function.update_of_ne h]

theorem point_fixes {c c' : κ} (h : c' ≠ c) (f : Option (ρ c) → Option (ρ c)) :
    (point c f).Fixes c' := point_act_of_ne h f

/-- Run a statement on a store. -/
def exec (w : Write κ ρ) (s : Store κ ρ) : Store κ ρ where
  get c := w.act c (s.get c)
  keys := (s.keys ∪ w.inserts).filter fun c => (w.act c (s.get c)).isSome
  mem_keys c := by
    simp only [Finset.mem_filter, Finset.mem_union, and_iff_right_iff_imp]
    intro h
    by_contra hc
    rw [not_or, s.mem_keys, Option.not_isSome_iff_eq_none] at hc
    rw [hc.1, w.act_none c hc.2] at h
    simp at h

@[simp] theorem exec_get (w : Write κ ρ) (s : Store κ ρ) (c : κ) :
    (w.exec s).get c = w.act c (s.get c) := rfl

@[simp] theorem nop_exec (s : Store κ ρ) : (nop : Write κ ρ).exec s = s :=
  Store.ext_get fun _ => rfl

/-- First `w`, then `w'`. -/
def comp (w' w : Write κ ρ) : Write κ ρ where
  act c o := w'.act c (w.act c o)
  inserts := w'.inserts ∪ w.inserts
  act_none c h := by
    simp only [Finset.mem_union, not_or] at h
    rw [w.act_none c h.2, w'.act_none c h.1]

@[simp] theorem comp_act (w' w : Write κ ρ) (c : κ) (o : Option (ρ c)) :
    (w'.comp w).act c o = w'.act c (w.act c o) := rfl

@[simp] theorem comp_exec (w' w : Write κ ρ) (s : Store κ ρ) :
    (w'.comp w).exec s = w'.exec (w.exec s) :=
  Store.ext_get fun _ => rfl

@[simp] theorem nop_comp (w : Write κ ρ) : nop.comp w = w := by
  ext <;> simp [comp, nop]

@[simp] theorem comp_nop (w : Write κ ρ) : w.comp nop = w := by
  ext <;> simp [comp, nop]

theorem comp_assoc (a b c : Write κ ρ) : (a.comp b).comp c = a.comp (b.comp c) := by
  ext <;> simp [comp]

theorem Fixes.comp {w w' : Write κ ρ} {c : κ} (h' : w'.Fixes c) (h : w.Fixes c) :
    (w'.comp w).Fixes c := fun o => by rw [comp_act, h, h']

/-- Several statements in a row. -/
def all (ws : List (Write κ ρ)) : Write κ ρ := ws.foldl (fun acc w => w.comp acc) nop

private theorem foldl_fixes {ws : List (Write κ ρ)} {c : κ} (h : ∀ w ∈ ws, w.Fixes c) :
    ∀ acc : Write κ ρ, acc.Fixes c → (ws.foldl (fun acc w => w.comp acc) acc).Fixes c := by
  induction ws with
  | nil => exact fun _ ha => ha
  | cons w ws ih =>
    intro acc ha
    exact ih (fun w' hw' => h w' (List.mem_cons_of_mem _ hw')) _
      ((h w List.mem_cons_self).comp ha)

theorem all_fixes {ws : List (Write κ ρ)} {c : κ} (h : ∀ w ∈ ws, w.Fixes c) :
    (all ws).Fixes c :=
  foldl_fixes h _ (nop_fixes c)

theorem Commutes.exec_comm {w w' : Write κ ρ} (h : w.Commutes w') (s : Store κ ρ) :
    w.exec (w'.exec s) = w'.exec (w.exec s) :=
  Store.ext_get fun c => h c (s.get c)

theorem Commutes.comp_comm {w w' : Write κ ρ} (h : w.Commutes w') :
    w.comp w' = w'.comp w := by
  ext c
  · simp [comp, h c]
  · simp [comp, or_comm]

end Write

end SwaptoshiService
