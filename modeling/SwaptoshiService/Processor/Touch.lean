import SwaptoshiService.Processor.Dex
import SwaptoshiService.Processor.Pos
import SwaptoshiService.Processor.Other

/-!
# How a processor may use the database

The footprint of a transaction processor is a list of `Touch`es, each naming a row, the
connection and the kind of access: reading, overwriting, or adding to a column. `syncPool` stands
for the two pool updates of `syncPoolData`. `reads` and `allows` turn the list into the two
predicates of `Session.Footprint`.

Two touches of different transactions **clash** when they meet on one row, at least one of them
writes, the write is visible to the other, and they are not both additions. Lists without a
clash are `Compatible`, and belong to independent programs (`Compatible.unseen`,
`Compatible.commute`).
-/

namespace SwaptoshiService

open Session

/-- One way in which a program uses the database. -/
inductive Touch
  | read (conn : Conn) (cell : Cell)
  | scan (conn : Conn) (table : TableName)
  | set (conn : Conn) (cell : Cell)
  | add (conn : Conn) (cell : Cell)
  | syncPool

/-- The functions that add to a counter column. -/
inductive Addition : (c : Cell) → (Row c → Row c) → Prop
  | liquidity (tokenId : String) (amount : ℤ) :
      Addition (.position tokenId) fun r => { r with liquidity := r.liquidity + amount }
  | supply (tokenId : TokenID) (amount : ℤ) :
      Addition (.tokenFactory tokenId) fun r => { r with supply := r.supply.map (· + amount) }

/-- Additions to one row can be made in any order. -/
theorem Addition.comm {c : Cell} {f g : Row c → Row c} (hf : Addition c f) (hg : Addition c g)
    (r : Row c) : f (g r) = g (f r) := by
  cases hf with
  | liquidity t a =>
    cases hg
    simp only [add_right_comm]
  | supply t a =>
    cases hg
    simp only [Option.map_map, Function.comp_def, add_right_comm]

theorem Addition.table_ne {c : Cell} {f : Row c → Row c} (h : Addition c f) :
    c.table ≠ .pool := by
  cases h <;> simp [Cell.table]

/-- The rows a list of touches reads. -/
def reads (F : List Touch) (conn : Conn) (c : Cell) : Prop :=
  .read conn c ∈ F ∨ .scan conn c.table ∈ F

/-- The statements a list of touches allows. -/
inductive Allows (env : Env) (F : List Touch) : Conn → Stmt → Prop
  | set {conn : Conn} {c : Cell} {f : Option (Row c) → Option (Row c)} :
      .set conn c ∈ F → Allows env F conn (.point c f)
  | add {conn : Conn} {c : Cell} {f : Row c → Row c} :
      .add conn c ∈ F → Addition c f → Allows env F conn (Table.updateRow c f)
  | syncPool {poolAddress : Address} {inverted : Bool} :
      .syncPool ∈ F → Allows env F .default (Dex.syncStatement poolAddress inverted
        (env.getPool (env.decodePoolAddress poolAddress)))

/-- The row is written through the connection. -/
def writes (F : List Touch) (conn : Conn) (c : Cell) : Prop :=
  .set conn c ∈ F ∨ .add conn c ∈ F ∨ (.syncPool ∈ F ∧ conn = .default ∧ c.table = .pool)

theorem syncStatement_fixes {poolAddress : Address} {inverted : Bool} {state : PoolState}
    {c : Cell} (h : c.table ≠ .pool) :
    (Dex.syncStatement poolAddress inverted state).Fixes c := by
  refine Table.updateWhere_fixes fun r => ?_
  cases c with
  | pool t₀ t₁ fee => exact absurd rfl h
  | _ => rfl

/-- An allowed statement leaves every row alone that is not listed as written. -/
theorem Allows.fixes {env : Env} {F : List Touch} {conn : Conn} {st : Stmt}
    (h : Allows env F conn st) {c : Cell} (hc : ¬ writes F conn c) : st.Fixes c := by
  cases h with
  | @set _ c' f hF =>
    refine Write.point_fixes (fun hcc => hc ?_) f
    subst hcc
    exact .inl hF
  | @add _ c' f hF hf =>
    refine Table.updateRow_fixes fun hcc => hc ?_
    subst hcc
    exact .inr (.inl hF)
  | syncPool hF => exact syncStatement_fixes fun ht => hc (.inr (.inr ⟨hF, rfl, ht⟩))

theorem Allows.mono {env : Env} {F G : List Touch} (hFG : F ⊆ G) {conn : Conn} {st : Stmt}
    (h : Allows env F conn st) : Allows env G conn st := by
  cases h with
  | set hF => exact .set (hFG hF)
  | add hF hf => exact .add (hFG hF) hf
  | syncPool hF => exact .syncPool (hFG hF)

/-! ### Compatible footprints -/

/-- **Compatible footprints.** Nothing that one of the two programs writes is read by the
other — a write pending on the transaction is invisible to reads on the default connection —
and a row that both write through the same connection is only added to by both. Two pool
synchronisations do not count: they write the same values. -/
structure Compatible (F G : List Touch) : Prop where
  /-- The first program writes nothing the second one reads. -/
  left : ∀ conn conn' c, writes F conn c → reads G conn' c → conn = .dbTrx ∧ conn' = .default
  /-- The second program writes nothing the first one reads. -/
  right : ∀ conn conn' c, writes G conn c → reads F conn' c → conn = .dbTrx ∧ conn' = .default
  /-- What the first program overwrites the second one does not write. -/
  set_left : ∀ conn c, .set conn c ∈ F → ¬ writes G conn c
  /-- What the second program overwrites the first one does not write. -/
  set_right : ∀ conn c, .set conn c ∈ G → ¬ writes F conn c

theorem Compatible.unseen {env : Env} {F G : List Touch} (h : Compatible F G) :
    Session.Unseen (Allows env F) (reads G) := by
  intro conn st hst conn' c hc
  by_cases hw : writes F conn c
  · exact .inr (h.left conn conn' c hw hc)
  · exact .inl (hst.fixes hw)

theorem Compatible.symm {F G : List Touch} (h : Compatible F G) : Compatible G F :=
  ⟨h.right, h.left, h.set_right, h.set_left⟩

/-- Neither the address nor the orientation, which select the rows, is written. -/
private theorem syncRow_comm (env : Env) (a a' : Address) (i i' : Bool) (r : PoolRow) :
    Dex.syncRow a i (env.getPool (env.decodePoolAddress a))
        (Dex.syncRow a' i' (env.getPool (env.decodePoolAddress a')) r) =
      Dex.syncRow a' i' (env.getPool (env.decodePoolAddress a'))
        (Dex.syncRow a i (env.getPool (env.decodePoolAddress a)) r) := by
  simp only [Dex.syncRow]
  split_ifs <;> simp_all

private theorem sync_commute (env : Env) (a a' : Address) (i i' : Bool) :
    (Dex.syncStatement a i (env.getPool (env.decodePoolAddress a))).Commutes
      (Dex.syncStatement a' i' (env.getPool (env.decodePoolAddress a'))) := by
  intro c o
  cases c with
  | pool t₀ t₁ fee =>
    cases o with
    | none => rfl
    | some r =>
      simp only [Dex.syncStatement, Table.updateWhere, Write.each_act, Option.bind_some]
      exact congrArg some (syncRow_comm env a a' i i' r)
  | _ => cases o <;> rfl

private theorem addition_commute {c c' : Cell} {f : Row c → Row c} {g : Row c' → Row c'}
    (hf : Addition c f) (hg : Addition c' g) :
    (Table.updateRow c f : Stmt).Commutes (Table.updateRow c' g) := by
  by_cases hcc : c = c'
  · subst hcc
    intro d o
    by_cases hd : d = c
    · subst hd
      cases o with
      | none => simp
      | some r => simp [hf.comm hg r]
    · simp only [Table.updateRow_fixes hd _]
  · refine Write.commutes_of_fixes fun d => ?_
    by_cases hd : d = c
    · exact .inr (Table.updateRow_fixes fun h => hcc (hd.symm.trans h))
    · exact .inl (Table.updateRow_fixes hd)

theorem Compatible.commute {env : Env} {F G : List Touch} (h : Compatible F G) :
    Session.StatementsCommute (Allows env F) (Allows env G) := by
  intro conn st st' hst hst'
  cases hst with
  | @set _ c f hF =>
    refine Write.commutes_of_fixes fun d => ?_
    by_cases hd : d = c
    · subst hd
      exact .inr (hst'.fixes (h.set_left conn d hF))
    · exact .inl (Write.point_fixes hd f)
  | @add _ c f hF hf =>
    cases hst' with
    | @set _ c' g hG =>
      refine Write.commutes_of_fixes fun d => ?_
      by_cases hd : d = c'
      · subst hd
        have hadd : Allows env F conn (Table.updateRow c f) := .add hF hf
        exact .inl (hadd.fixes (h.set_right conn d hG))
      · exact .inr (Write.point_fixes hd g)
    | add hG hg => exact addition_commute hf hg
    | syncPool hG =>
      refine Write.commutes_of_fixes fun d => ?_
      by_cases hd : d.table = .pool
      · refine .inl (Table.updateRow_fixes fun hdc => hf.table_ne ?_)
        rw [← hdc, hd]
      · exact .inr (syncStatement_fixes hd)
  | syncPool hF =>
    cases hst' with
    | @set _ c' g hG =>
      refine Write.commutes_of_fixes fun d => ?_
      by_cases hd : d = c'
      · subst hd
        exact .inl (syncStatement_fixes fun ht => h.set_right _ d hG (.inr (.inr ⟨hF, rfl, ht⟩)))
      · exact .inr (Write.point_fixes hd g)
    | @add _ c' g hG hg =>
      refine Write.commutes_of_fixes fun d => ?_
      by_cases hd : d.table = .pool
      · refine .inr (Table.updateRow_fixes fun hdc => hg.table_ne ?_)
        rw [← hdc, hd]
      · exact .inl (syncStatement_fixes hd)
    | syncPool hG => exact sync_commute env _ _ _ _

/-! ### Deciding compatibility -/

namespace Touch

/-- The touch writes the row through the connection. -/
def WritesRow (conn : Conn) (c : Cell) : Touch → Prop
  | .set conn' c' => conn = conn' ∧ c = c'
  | .add conn' c' => conn = conn' ∧ c = c'
  | .syncPool => conn = .default ∧ c.table = .pool
  | _ => False

/-- The touch reads the row through the connection. -/
def ReadsRow (conn : Conn) (c : Cell) : Touch → Prop
  | .read conn' c' => conn = conn' ∧ c = c'
  | .scan conn' t => conn = conn' ∧ c.table = t
  | _ => False

/-- The touches of two programs meet on a row that the first one writes, and which of them comes
first matters. -/
def clashes : Touch → Touch → Bool
  | .set conn c, .read conn' c' => c = c' ∧ ¬ (conn = .dbTrx ∧ conn' = .default)
  | .set conn c, .scan conn' t => c.table = t ∧ ¬ (conn = .dbTrx ∧ conn' = .default)
  | .add conn c, .read conn' c' => c = c' ∧ ¬ (conn = .dbTrx ∧ conn' = .default)
  | .add conn c, .scan conn' t => c.table = t ∧ ¬ (conn = .dbTrx ∧ conn' = .default)
  | .syncPool, .read _ c => c.table = .pool
  | .syncPool, .scan _ t => t = .pool
  | .set conn c, .set conn' c' => conn = conn' ∧ c = c'
  | .set conn c, .add conn' c' => conn = conn' ∧ c = c'
  | .set conn c, .syncPool => conn = .default ∧ c.table = .pool
  | _, _ => false

theorem unseen_of_not_clashes {t t' : Touch} {conn conn' : Conn} {c : Cell}
    (hw : t.WritesRow conn c) (hr : t'.ReadsRow conn' c) (h : t.clashes t' = false) :
    conn = .dbTrx ∧ conn' = .default := by
  cases t <;> cases t' <;> simp_all [WritesRow, ReadsRow, clashes]

theorem set_clashes {t : Touch} {conn : Conn} {c : Cell} (hw : t.WritesRow conn c) :
    (set conn c).clashes t = true := by
  cases t <;> simp_all [WritesRow, clashes]

end Touch

theorem writes_iff {F : List Touch} {conn : Conn} {c : Cell} :
    writes F conn c ↔ ∃ t ∈ F, t.WritesRow conn c := by
  constructor
  · rintro (h | h | ⟨h, rfl, hc⟩)
    · exact ⟨_, h, rfl, rfl⟩
    · exact ⟨_, h, rfl, rfl⟩
    · exact ⟨_, h, rfl, hc⟩
  · rintro ⟨t, ht, hw⟩
    cases t with
    | set conn' c' =>
      obtain ⟨rfl, rfl⟩ := hw
      exact .inl ht
    | add conn' c' =>
      obtain ⟨rfl, rfl⟩ := hw
      exact .inr (.inl ht)
    | syncPool => exact .inr (.inr ⟨ht, hw⟩)
    | read conn' c' => exact hw.elim
    | scan conn' t => exact hw.elim

theorem reads_iff {F : List Touch} {conn : Conn} {c : Cell} :
    reads F conn c ↔ ∃ t ∈ F, t.ReadsRow conn c := by
  constructor
  · rintro (h | h)
    · exact ⟨_, h, rfl, rfl⟩
    · exact ⟨_, h, rfl, rfl⟩
  · rintro ⟨t, ht, hr⟩
    cases t with
    | read conn' c' =>
      obtain ⟨rfl, rfl⟩ := hr
      exact .inl ht
    | scan conn' t =>
      obtain ⟨rfl, rfl⟩ := hr
      exact .inr ht
    | _ => exact hr.elim

private theorem Compatible.not_clashes {F G : List Touch} (h : Compatible F G) {t t' : Touch}
    (ht : t ∈ F) (ht' : t' ∈ G) : t.clashes t' = false := by
  by_contra hc
  rw [Bool.not_eq_false] at hc
  -- A write of the first program against a read of the second one.
  have hread : ∀ conn conn' c, writes F conn c → reads G conn' c →
      ¬ ¬ (conn = .dbTrx ∧ conn' = .default) := fun conn conn' c hw hr hn =>
    hn (h.left conn conn' c hw hr)
  cases t with
  | read conn c => simp [Touch.clashes] at hc
  | scan conn table => simp [Touch.clashes] at hc
  | set conn c =>
    cases t' <;> simp only [Touch.clashes, decide_eq_true_eq] at hc
    case read conn' c' =>
      obtain ⟨rfl, hc⟩ := hc
      exact hread conn conn' c (.inl ht) (.inl ht') hc
    case scan conn' table =>
      obtain ⟨rfl, hc⟩ := hc
      exact hread conn conn' c (.inl ht) (.inr ht') hc
    case set conn' c' =>
      obtain ⟨rfl, rfl⟩ := hc
      exact h.set_left conn c ht (.inl ht')
    case add conn' c' =>
      obtain ⟨rfl, rfl⟩ := hc
      exact h.set_left conn c ht (.inr (.inl ht'))
    case syncPool => exact h.set_left conn c ht (.inr (.inr ⟨ht', hc⟩))
  | add conn c =>
    cases t' <;> simp only [Touch.clashes, decide_eq_true_eq, Bool.false_eq_true] at hc
    case read conn' c' =>
      obtain ⟨rfl, hc⟩ := hc
      exact hread conn conn' c (.inr (.inl ht)) (.inl ht') hc
    case scan conn' table =>
      obtain ⟨rfl, hc⟩ := hc
      exact hread conn conn' c (.inr (.inl ht)) (.inr ht') hc
  | syncPool =>
    cases t' <;> simp only [Touch.clashes, decide_eq_true_eq, Bool.false_eq_true] at hc
    case read conn' c' =>
      exact hread .default conn' c' (.inr (.inr ⟨ht, rfl, hc⟩)) (.inl ht') (by simp)
    case scan conn' table =>
      subst hc
      exact hread .default conn' (.pool "" "" 0) (.inr (.inr ⟨ht, rfl, rfl⟩)) (.inr ht') (by simp)

/-- Footprints are compatible when no touch of one clashes with a touch of the other. -/
theorem compatible_iff {F G : List Touch} :
    Compatible F G ↔ ∀ t ∈ F, ∀ t' ∈ G, t.clashes t' = false ∧ t'.clashes t = false := by
  constructor
  · exact fun h t ht t' ht' => ⟨h.not_clashes ht ht', h.symm.not_clashes ht' ht⟩
  · intro h
    refine ⟨fun conn conn' c hw hr => ?_, fun conn conn' c hw hr => ?_, fun conn c hs hw => ?_,
      fun conn c hs hw => ?_⟩
    · obtain ⟨t, ht, hw⟩ := writes_iff.mp hw
      obtain ⟨t', ht', hr⟩ := reads_iff.mp hr
      exact Touch.unseen_of_not_clashes hw hr (h t ht t' ht').1
    · obtain ⟨t, ht, hw⟩ := writes_iff.mp hw
      obtain ⟨t', ht', hr⟩ := reads_iff.mp hr
      exact Touch.unseen_of_not_clashes hw hr (h t' ht' t ht).2
    · obtain ⟨t, ht, hw⟩ := writes_iff.mp hw
      simpa [Touch.set_clashes hw] using (h _ hs t ht).1
    · obtain ⟨t, ht, hw⟩ := writes_iff.mp hw
      simpa [Touch.set_clashes hw] using (h t ht _ hs).2

instance (F G : List Touch) : Decidable (Compatible F G) :=
  decidable_of_iff _ compatible_iff.symm

/-! ### Rules for programs with a list of touches -/

/-- The program stays within a list of touches. -/
def Within (env : Env) (F : List Touch) {α : Type} (p : Prog α) : Prop :=
  Footprint (reads F) (Allows env F) p

section Rules

variable {env : Env} {F G : List Touch} {α β : Type}

theorem Within.mono (hFG : F ⊆ G) {p : Prog α} (h : Within env F p) : Within env G p :=
  Footprint.mono h (fun _ _ => .imp (fun h => hFG h) fun h => hFG h) fun _ _ => Allows.mono hFG

theorem within_pure (a : α) : Within env F (pure a : Prog α) := footprint_pure a

theorem within_throw (e : Failure) : Within env F (.throw e : Prog α) := footprint_throw e

theorem Within.bind {p : Prog α} {f : α → Prog β} (hp : Within env F p)
    (hf : ∀ a, Within env F (f a)) : Within env F (p >>= f) := Footprint.bind hp hf

theorem within_ofOption_bind {e : Failure} {o : Option α} {f : α → Prog β}
    (h : ∀ a, o = some a → Within env F (f a)) : Within env F (Async.ofOption e o >>= f) :=
  footprint_ofOption_bind h

theorem within_ofOption (e : Failure) (o : Option α) :
    Within env F (Async.ofOption e o : Prog α) := footprint_ofOption e o

theorem within_ifSuccessful {tx : IndexedTx} {p : Prog Unit}
    (h : tx.isSuccessful = true → Within env F p) : Within env F (ifSuccessful tx p) := by
  rw [ifSuccessful]
  split
  · exact h ‹_›
  · exact within_pure ()

theorem within_point {conn : Conn} {c : Cell} {f : Option (Row c) → Option (Row c)}
    (h : .set conn c ∈ F) : Within env F (Session.exec conn (.point c f) : Prog Unit) :=
  footprint_exec (Allows.set h)

theorem within_upsert {conn : Conn} {c : Cell} [Inhabited (Row c)] {set : Row c → Row c}
    (h : .set conn c ∈ F) : Within env F (Table.upsert conn c set : Prog Unit) :=
  within_point h

theorem within_deleteByPrimaryKey {conn : Conn} {c : Cell} (h : .set conn c ∈ F) :
    Within env F (Table.deleteByPrimaryKey conn c : Prog Unit) := within_point h

theorem within_delete {conn : Conn} {c : Cell} {p : Row c → Bool} (h : .set conn c ∈ F) :
    Within env F (Table.delete conn c p : Prog Unit) := within_point h

theorem within_modify {conn : Conn} {c : Cell} {f : Row c → Row c} (h : .add conn c ∈ F)
    (hf : Addition c f) : Within env F (Table.modify conn c f : Prog Unit) :=
  footprint_exec (Allows.add h hf)

theorem within_find {conn : Conn} {c : Cell} (h : .read conn c ∈ F) :
    Within env F (Table.find conn c : Prog (Option (Row c))) :=
  footprint_findRow (.inl h)

theorem within_query {conn : Conn} {f : DB → α}
    (h : ∀ s s' : DB, (∀ c, reads F conn c → s'.get c = s.get c) → f s' = f s) :
    Within env F (Session.query conn f : Prog α) := footprint_query h

theorem within_increment {conn : Conn} {c : Cell} {f : Row c → Row c} (hr : .read conn c ∈ F)
    (hs : .set conn c ∈ F) : Within env F (Table.increment conn c f : Prog ℕ) :=
  footprint_modifyRow (.inl hr) (Allows.set hs)

theorem within_serial {ps : List (Prog Unit)} (h : ∀ p ∈ ps, Within env F p) :
    Within env F (Async.serial ps) := Footprint.serial h

theorem within_interleave {sched : List ℕ} {ps : List (Prog Unit)}
    (h : ∀ p ∈ ps, Within env F p) : Within env F (Async.interleave sched ps) :=
  Footprint.interleave h

theorem within_syncPoolData {poolAddress : Address} (h : .syncPool ∈ F) :
    Within env F (Dex.syncPoolData env poolAddress) :=
  (footprint_exec (Allows.syncPool h)).bind fun _ => footprint_exec (Allows.syncPool h)

end Rules

end SwaptoshiService
