import SwaptoshiService.Lib.Footprint

/-!
# The effect of a program on one row

`ActsAt c g w w'`: between the two sessions the open transaction did `g` to the row under `c`,
and nothing was committed there. It is the specification of a program that writes a row through
the transaction only: the effects of its parts compose (`ActsAt.trans`), the parts that leave the
row alone drop out (`ensures_actsAt_right`, `ensures_actsAt_left`), and the row that the transaction
sees afterwards is `g` of the one before (`ActsAt.view`).
-/

namespace SwaptoshiService

namespace Session

variable {κ : Type} {ρ : κ → Type} {c : κ} {g g' : Option (ρ c) → Option (ρ c)}
  {w v w' : Session κ ρ} {ε α β : Type}

/-- The open transaction does `g` to the row under `c`. -/
def ActsAt (c : κ) (g : Option (ρ c) → Option (ρ c)) (w w' : Session κ ρ) : Prop :=
  w'.committed.get c = w.committed.get c ∧ ∀ o, w'.pending.act c o = g (w.pending.act c o)

theorem SameAt.actsAt (h : SameAt c w w') : ActsAt c (fun o => o) w w' := h

theorem ActsAt.trans (h : ActsAt c g w v) (h' : ActsAt c g' v w') :
    ActsAt c (fun o => g' (g o)) w w' := by
  refine ⟨h'.1.trans h.1, fun o => ?_⟩
  rw [h'.2, h.2]

variable [DecidableEq κ]

theorem ActsAt.view (h : ActsAt c g w w') :
    (w'.view .dbTrx).get c = g ((w.view .dbTrx).get c) := by
  change w'.pending.act c (w'.committed.get c) = g (w.pending.act c (w.committed.get c))
  rw [h.1, h.2]

/-! ### Programs -/

theorem ensures_actsAt_exec {st : Write κ ρ} (h : ∀ o, st.act c o = g o) :
    (exec .dbTrx st : Async (Session κ ρ) ε Unit).Ensures (ActsAt c g) :=
  Async.ensures_act fun _ => ⟨rfl, fun _ => h _⟩

/-- What leaves the row alone does nothing to it. -/
theorem Confined.ensures_actsAt {P : Conn → Write κ ρ → Prop} {p : Async (Session κ ρ) ε α}
    (hp : Confined P p) (hP : ∀ conn st, P conn st → st.Fixes c) :
    p.Ensures (ActsAt c fun o => o) := by
  intro w a w' hrun
  have hsame := hp.run_sameAt hP w
  rw [hrun] at hsame
  exact hsame.actsAt

omit [DecidableEq κ] in
/-- A part that leaves the row alone in front of one that does not. -/
theorem ensures_actsAt_right {p : Async (Session κ ρ) ε α} {f : α → Async (Session κ ρ) ε β}
    (hp : p.Ensures (ActsAt c fun o => o)) (hf : ∀ a, (f a).Ensures (ActsAt c g)) :
    (p >>= f).Ensures (ActsAt c g) :=
  hp.bind hf fun _ _ _ h h' => h.trans h'

omit [DecidableEq κ] in
/-- A part that leaves the row alone behind one that does not. -/
theorem ensures_actsAt_left {p : Async (Session κ ρ) ε α} {f : α → Async (Session κ ρ) ε β}
    (hp : p.Ensures (ActsAt c g)) (hf : ∀ a, (f a).Ensures (ActsAt c fun o => o)) :
    (p >>= f).Ensures (ActsAt c g) :=
  hp.bind hf fun _ _ _ h h' => h.trans h'

end Session

end SwaptoshiService
