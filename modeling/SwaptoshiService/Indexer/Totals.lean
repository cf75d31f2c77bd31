import Mathlib.Algebra.Ring.Int.Defs
import SwaptoshiService.Indexer.EventIndex
import SwaptoshiService.Lib.Keyed

/-!
# Totals of the key-value table inside one transaction

`updateTotal` reads a total **outside** the transaction and writes the sum inside it. Every
update made by one transaction therefore starts from the committed value, and the last one
overwrites the ones before it: `LastUpdate key changes` is what a part of a job with these
updates does to the row, and it composes by appending the lists (`lastUpdate_append`). What is
committed in the end is the sum of all updates exactly when those before the last one cancel
(`LastUpdate.commit`).
-/

namespace SwaptoshiService

open Session

/-- A total in the key-value table; a missing entry counts as zero. -/
def totalAt (db : DB) (key : KVKey) : ℤ := (db.get (.kv key)).getD 0

/-- What updates of a total, made one after the other in one transaction, do to its row: the last
one is added to the committed value. -/
def LastUpdate (key : KVKey) (changes : List ℤ) (w w' : DBSession) : Prop :=
  w'.committed.get (.kv key) = w.committed.get (.kv key) ∧
    (w'.view .dbTrx).get (.kv key) = changes.getLast?.elim ((w.view .dbTrx).get (.kv key))
      fun change => some (totalAt w.committed key + change)

section LastUpdate

variable {key : KVKey} {α β : Type}

theorem lastUpdate_nil {w w' : DBSession} (h : SameAt (.kv key) w w') : LastUpdate key [] w w' :=
  ⟨h.1, h.view .dbTrx⟩

theorem lastUpdate_append {l l' : List ℤ} (w t w' : DBSession) (h : LastUpdate key l w t)
    (h' : LastUpdate key l' t w') : LastUpdate key (l ++ l') w w' := by
  refine ⟨h'.1.trans h.1, ?_⟩
  have htotal : totalAt t.committed key = totalAt w.committed key := by rw [totalAt, totalAt, h.1]
  rw [h'.2, h.2, htotal, List.getLast?_append]
  cases l'.getLast? with
  | none => rfl
  | some change => rfl

/-- A program that leaves the row alone makes no update. -/
theorem ensures_lastUpdate_nil {p : Prog α} {W : Conn → Cell → Prop}
    (hp : Confined (Respects W) p) (hW : ∀ conn, ¬ W conn (.kv key)) :
    p.Ensures (LastUpdate key []) := by
  intro w a w' hrun
  refine lastUpdate_nil ?_
  simpa only [hrun] using hp.run_sameAt (fun conn st hst => hst _ (hW conn)) w

theorem ensures_updateTotal (change : ℤ) :
    (updateTotal key change).Ensures (LastUpdate key [change]) := by
  intro w a w' hrun
  obtain rfl : send .dbTrx (Table.upsertRow (.kv key) fun _ =>
      totalAt w.committed key + change) w = w' := (Prod.ext_iff.mp hrun).2
  refine ⟨rfl, ?_⟩
  rw [view_send_dbTrx_get, Table.upsertRow_act_self]
  rfl

/-- The committed total is that before the transaction plus the last update. -/
theorem LastUpdate.commit {changes : List ℤ} {db : DB} {w : DBSession}
    (h : LastUpdate key changes (ofStore db) w) :
    totalAt w.commit.committed key = totalAt db key + changes.getLast?.getD 0 := by
  have hrow : w.commit.committed.get (.kv key) = changes.getLast?.elim (db.get (.kv key))
      fun change => some (totalAt db key + change) := h.2
  rw [totalAt, hrow]
  cases changes.getLast? with
  | none => exact (add_zero _).symm
  | some change => rfl

end LastUpdate

/-- The last of a list of updates is all of them exactly when the others cancel. -/
theorem getLast?_getD_eq_sum_iff (l : List ℤ) : l.getLast?.getD 0 = l.sum ↔ l.dropLast.sum = 0 := by
  rcases List.eq_nil_or_concat l with rfl | ⟨l, change, rfl⟩
  · simp
  · simp

/-! ### Locked amounts -/

section LockedAmounts

variable {t : TokenID}

/-- The updates of the locked amount of a token that the events of one block lead to: at most
one. -/
def lockedUpdates (sign : ℤ) (events : List Event) (t : TokenID) : List ℤ :=
  if t ∈ lockedTokens events then [sign * lockedAmountChange events t] else []

theorem lockedAmountChange_of_notMem {events : List Event} (h : t ∉ lockedTokens events) :
    lockedAmountChange events t = 0 := by
  refine List.sum_eq_zero fun x hx => ?_
  obtain ⟨e, he, rfl⟩ := List.mem_map.mp hx
  have hne : e.data.lockToken? ≠ some t := by
    intro heq
    exact h (List.mem_eraseDups.mpr (List.mem_filterMap.mpr ⟨e, he, heq⟩))
  unfold EventData.lockedChange
  split
  · exact if_neg fun htt => hne (by simp [EventData.lockToken?, *])
  · exact if_neg fun htt => hne (by simp [EventData.lockToken?, *])
  · rfl

theorem sum_lockedUpdates (sign : ℤ) (events : List Event) :
    (lockedUpdates sign events t).sum = sign * lockedAmountChange events t := by
  rw [lockedUpdates]
  split
  · simp
  · rename_i h
    simp [lockedAmountChange_of_notMem h]

private theorem footprint_updateTotal (key : KVKey) (change : ℤ) :
    Footprint (fun conn c => conn = .default ∧ c = .kv key) (fun _ _ => True)
      (updateTotal key change) :=
  (footprint_findRow ⟨rfl, rfl⟩).bind fun _ => footprint_exec trivial

/-- Of the concurrent updates of different tokens, each acts on the row of its token as if it were
alone. -/
private theorem ensures_updateTotalLockedAmounts {sched : List ℕ} {changes : List (TokenID × ℤ)}
    (hnodup : (changes.map Prod.fst).Nodup) {change : ℤ} (hmem : (t, change) ∈ changes) :
    (updateTotalLockedAmounts sched changes).Ensures (LastUpdate (.totalLocked t) [change]) := by
  intro w a w' hrun
  obtain ⟨i, hi, hget⟩ := List.mem_iff_getElem.mp hmem
  have hprog : (changes.map fun d => updateTotal (.totalLocked d.1) d.2)[i]? =
      some (updateTotal (.totalLocked t) change) := by
    simp [List.getElem?_eq_getElem hi, hget]
  have hothers : ∀ j q, (changes.map fun d => updateTotal (.totalLocked d.1) d.2)[j]? = some q →
      j ≠ i → Confined (Respects fun _ c => c ≠ .kv (.totalLocked t)) q := by
    intro j q hq hne
    rw [List.getElem?_map, Option.map_eq_some_iff] at hq
    obtain ⟨⟨t', d⟩, hj, rfl⟩ := hq
    refine updateTotal_confined fun heq => hne ?_
    obtain rfl : t' = t := by simpa using heq
    obtain ⟨hlt, hget'⟩ := List.getElem?_eq_some_iff.mp hj
    have hj' : j < (changes.map Prod.fst).length := by simpa using hlt
    have hi' : i < (changes.map Prod.fst).length := by simpa using hi
    have hkey : (changes.map Prod.fst)[j] = (changes.map Prod.fst)[i] := by simp [hget, hget']
    exact hnodup.getElem_inj_iff.mp hkey
  obtain ⟨w₁, hw₁, hsame⟩ := (footprint_updateTotal (.totalLocked t) change).run_interleave_alone
    (S := fun c => c = .kv (.totalLocked t)) (fun _ _ hR => hR.2)
    (leavesAlone_respects fun _ _ hne => hne) hprog hothers (SameOn.refl _ w) hrun
  exact lastUpdate_append w w₁ w' (ensures_updateTotal change w () w₁ hw₁)
    (lastUpdate_nil (hsame _ rfl))

theorem ensures_lockedAmounts (sched : List ℕ) (sign : ℤ) (events : List Event) :
    (updateTotalLockedAmounts sched (lockedAmountChangeMap sign events)).Ensures
      (LastUpdate (.totalLocked t) (lockedUpdates sign events t)) := by
  have hkeys : (lockedAmountChangeMap sign events).map Prod.fst = lockedTokens events := by
    simp [lockedAmountChangeMap, Function.comp_def]
  rw [lockedUpdates]
  split
  · rename_i ht
    refine ensures_updateTotalLockedAmounts ?_ (List.mem_map_of_mem ht)
    rw [hkeys]
    exact nodup_eraseDups _
  · rename_i ht
    refine ensures_lastUpdate_nil (updateTotalLockedAmounts_confined _ _
      (W := fun _ c => c ≠ .kv (.totalLocked t)) fun t' ht' heq => ht ?_) fun _ h => h rfl
    obtain rfl : t' = t := by simpa using heq
    rwa [hkeys] at ht'

end LockedAmounts

end SwaptoshiService
