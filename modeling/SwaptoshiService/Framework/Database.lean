import SwaptoshiService.Lib.Footprint

/-!
# Table operations

The operations that `getTableInstance` (`framework/src/database/util.js`) offers on a table, as
programs over a database session. Every operation takes the connection it is sent on: `dbTrx`
when the caller passes the transaction, `default` when the argument is left out — the source
then opens a transaction of its own and commits it before returning.

* `upsert` is `INSERT … ON DUPLICATE KEY UPDATE`: the given columns are written into the row,
  or into a fresh row whose other columns hold their defaults;
* `increment` and `decrement` return the number of rows affected;
* `update` and `delete` with a `where` that pins the primary key act on one row, the general
  forms act on every row satisfying the condition.
-/

namespace SwaptoshiService

namespace Table

variable {κ : Type} {ρ : κ → Type} [DecidableEq κ]

section Statements

/-- Write the given columns of the row under a primary key. -/
def upsertRow (c : κ) [Inhabited (ρ c)] (set : ρ c → ρ c) : Write κ ρ :=
  .point c fun o => some (set (o.getD default))

/-- Change the row under a primary key if it is there. -/
def updateRow (c : κ) (f : ρ c → ρ c) : Write κ ρ := .point c (Option.map f)

/-- Delete the row under a primary key if it satisfies the remaining conditions. -/
def deleteRowIf (c : κ) (p : ρ c → Bool) : Write κ ρ :=
  .point c fun o => o.filter fun r => !p r

/-- Delete the row under a primary key. -/
def deleteRow (c : κ) : Write κ ρ := .point c fun _ => none

/-- Change every row satisfying the condition. -/
def updateWhere (f : (c : κ) → ρ c → ρ c) : Write κ ρ := .each fun c r => some (f c r)

/-- Delete every row satisfying the condition. -/
def deleteWhere (p : (c : κ) → ρ c → Bool) : Write κ ρ :=
  .each fun c r => if p c r then none else some r

theorem upsertRow_fixes {c c' : κ} [Inhabited (ρ c)] {set : ρ c → ρ c} (h : c' ≠ c) :
    (upsertRow c set : Write κ ρ).Fixes c' := Write.point_fixes h _

theorem updateRow_fixes {c c' : κ} {f : ρ c → ρ c} (h : c' ≠ c) :
    (updateRow c f : Write κ ρ).Fixes c' := Write.point_fixes h _

theorem deleteRowIf_fixes {c c' : κ} {p : ρ c → Bool} (h : c' ≠ c) :
    (deleteRowIf c p : Write κ ρ).Fixes c' := Write.point_fixes h _

theorem deleteRow_fixes {c c' : κ} (h : c' ≠ c) :
    (deleteRow c : Write κ ρ).Fixes c' := Write.point_fixes h _

omit [DecidableEq κ] in
theorem updateWhere_fixes {f : (c : κ) → ρ c → ρ c} {c : κ} (h : ∀ r, f c r = r) :
    (updateWhere f).Fixes c := Write.each_fixes fun r => by rw [h r]

omit [DecidableEq κ] in
theorem deleteWhere_fixes {p : (c : κ) → ρ c → Bool} {c : κ} (h : ∀ r, p c r = false) :
    (deleteWhere p).Fixes c := Write.each_fixes fun r => by simp [h r]

@[simp] theorem upsertRow_act_self (c : κ) [Inhabited (ρ c)] (set : ρ c → ρ c)
    (o : Option (ρ c)) : (upsertRow c set : Write κ ρ).act c o = some (set (o.getD default)) :=
  Write.point_act_self c _ o

@[simp] theorem updateRow_act_self (c : κ) (f : ρ c → ρ c) (o : Option (ρ c)) :
    (updateRow c f : Write κ ρ).act c o = o.map f :=
  Write.point_act_self c _ o

@[simp] theorem deleteRow_act_self (c : κ) (o : Option (ρ c)) :
    (deleteRow c : Write κ ρ).act c o = none :=
  Write.point_act_self c _ o

end Statements

section Operations

variable {ε : Type}

/-- `cast(val, 'string')` of `upsert`: only `undefined` is mapped to `NULL`, so a `null` is
written as **the text** `null`. -/
def castString : Option String → Option String
  | some s => some s
  | none => some "null"

/-- `table.upsert(row, trx)`. -/
def upsert (conn : Conn) (c : κ) [Inhabited (ρ c)] (set : ρ c → ρ c) :
    Async (Session κ ρ) ε Unit := Session.exec conn (upsertRow c set)

/-- `table.update({ where, updates }, trx)` on a primary key. -/
def update (conn : Conn) (c : κ) (f : ρ c → ρ c) : Async (Session κ ρ) ε Unit :=
  Session.exec conn (updateRow c f)

/-- `table.increment(...)` and `table.decrement(...)` on a primary key: the new row, and the
number of rows affected. -/
def increment (conn : Conn) (c : κ) (f : ρ c → ρ c) : Async (Session κ ρ) ε ℕ :=
  Session.modifyRow conn c f

/-- `table.increment(...)` and `table.decrement(...)` whose result is not used. -/
def modify (conn : Conn) (c : κ) (f : ρ c → ρ c) : Async (Session κ ρ) ε Unit :=
  Session.exec conn (updateRow c f)

/-- `table.deleteByPrimaryKey(id, trx)`. -/
def deleteByPrimaryKey (conn : Conn) (c : κ) : Async (Session κ ρ) ε Unit :=
  Session.exec conn (deleteRow c)

/-- `table.deleteByPrimaryKey(ids, trx)` where the primary key has several columns: the condition is
`(columns) in (ids)`, and MySQL rejects an element of `ids` that has not a value for each of them. -/
def deleteByPrimaryKeys {ν : Type} (conn : Conn) (columns : List String)
    (cell? : List ν → Option κ) (rejection : String → ε) (ids : List (List ν)) :
    Async (Session κ ρ) ε Unit :=
  if ids.all fun id => id.length = columns.length then
    Session.exec conn (Write.all ((ids.filterMap cell?).map deleteRow))
  else Async.throw (rejection s!"Operand should contain {columns.length} column(s)")

/-- A flat list of values is rejected. -/
theorem deleteByPrimaryKeys_flat {ν : Type} {conn : Conn} {columns : List String}
    {cell? : List ν → Option κ} {rejection : String → ε} {values : List ν} (hne : values ≠ [])
    (hcolumns : columns.length ≠ 1) :
    (deleteByPrimaryKeys conn columns cell? rejection (values.map fun v => [v]) :
      Async (Session κ ρ) ε Unit) =
        Async.throw (rejection s!"Operand should contain {columns.length} column(s)") := by
  refine if_neg fun hall => ?_
  obtain ⟨v, values, rfl⟩ := List.exists_cons_of_ne_nil hne
  have hv : [v].length = columns.length :=
    of_decide_eq_true (List.all_eq_true.mp hall [v] List.mem_cons_self)
  exact hcolumns hv.symm

/-- `table.delete(params, trx)` with parameters that pin the primary key. -/
def delete (conn : Conn) (c : κ) (p : ρ c → Bool) : Async (Session κ ρ) ε Unit :=
  Session.exec conn (deleteRowIf c p)

/-- `table.find({ <primary key>, limit: 1 }, columns, trx)`. -/
def find (conn : Conn) (c : κ) : Async (Session κ ρ) ε (Option (ρ c)) :=
  Session.findRow conn c

theorem run_find_bind {α : Type} (conn : Conn) (c : κ)
    (f : Option (ρ c) → Async (Session κ ρ) ε α) (w : Session κ ρ) :
    (find conn c >>= f).run w = (f ((w.view conn).get c)).run w := rfl

end Operations

/-! ### What the operations may change -/

section Footprints

open Session

variable {ε α : Type} {W : Conn → κ → Prop} {conn : Conn} {c : κ}

theorem respects_point {f : Option (ρ c) → Option (ρ c)} (h : W conn c) :
    Respects W conn (.point c f : Write κ ρ) := by
  intro c' hc'
  refine Write.point_fixes (fun hcc => hc' ?_) f
  rw [hcc]
  exact h

theorem confined_point {f : Option (ρ c) → Option (ρ c)} (h : W conn c) :
    Confined (Respects W) (Session.exec conn (.point c f) : Async (Session κ ρ) ε Unit) :=
  confined_exec (respects_point h)

theorem confined_upsert [Inhabited (ρ c)] {set : ρ c → ρ c} (h : W conn c) :
    Confined (Respects W) (upsert conn c set : Async (Session κ ρ) ε Unit) := confined_point h

theorem confined_update {f : ρ c → ρ c} (h : W conn c) :
    Confined (Respects W) (update conn c f : Async (Session κ ρ) ε Unit) := confined_point h

theorem confined_modify {f : ρ c → ρ c} (h : W conn c) :
    Confined (Respects W) (modify conn c f : Async (Session κ ρ) ε Unit) := confined_point h

theorem confined_increment {f : ρ c → ρ c} (h : W conn c) :
    Confined (Respects W) (increment conn c f : Async (Session κ ρ) ε ℕ) :=
  confined_modifyRow (respects_point h)

theorem confined_deleteByPrimaryKey (h : W conn c) :
    Confined (Respects W) (deleteByPrimaryKey conn c : Async (Session κ ρ) ε Unit) :=
  confined_point h

theorem confined_delete {p : ρ c → Bool} (h : W conn c) :
    Confined (Respects W) (delete conn c p : Async (Session κ ρ) ε Unit) := confined_point h

theorem confined_find :
    Confined (Respects W) (find conn c : Async (Session κ ρ) ε (Option (ρ c))) :=
  confined_findRow conn c

theorem confined_deleteWhere {p : (c : κ) → ρ c → Bool}
    (h : ∀ c r, p c r = true → W conn c) :
    Confined (Respects W) (Session.exec conn (deleteWhere p) : Async (Session κ ρ) ε Unit) := by
  refine confined_exec fun c' hc' => deleteWhere_fixes fun r => ?_
  by_contra hp
  exact hc' (h c' r (by simpa using hp))

end Footprints

end Table

end SwaptoshiService
