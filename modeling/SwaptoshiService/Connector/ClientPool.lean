import Mathlib.Data.List.Basic
import Mathlib.Data.Nat.Notation
import SwaptoshiService.Lib.Run

/-!
# The pool of API clients

`clientPool` (`blockchain-connector/shared/sdk/client.js`) is an array whose slots hold a client or
`null`. Three functions fill it: `initClientPool`, which the first calls of `getApiClient` run,
`resetApiClient`, which a signal starts for a client that seems dead, and the callback of the
re-instantiation interval. All of them check the pool, **wait** for a new connection and then
write.

`PoolStep` lists the steps between two suspensions. No connection is leaked in the runs in which
what was checked still holds when it is acted upon (`clients_held_once`): a new slot is added only
to a pool that is not full, and a slot is written only while it holds no connected client.
-/

namespace SwaptoshiService

/-- A client that was instantiated. -/
structure ApiClient where
  poolIndex : ℕ
  /-- It has not been disconnected. -/
  connected : Bool
  deriving DecidableEq, Repr

/-- Where a run of `resetApiClient` waits. -/
inductive ResetPhase
  | disconnecting (client poolIndex : ℕ)
  | instantiating (poolIndex : ℕ)
  deriving DecidableEq, Repr

/-- The slot that the run will write. -/
def ResetPhase.poolIndex : ResetPhase → ℕ
  | .disconnecting _ poolIndex => poolIndex
  | .instantiating poolIndex => poolIndex

/-- The pool and the functions that work on it. A client is named by its place in `clients`. -/
structure ClientPool where
  /-- All clients that were instantiated. -/
  clients : List ApiClient
  /-- `clientPool`. -/
  slots : List (Option ℕ)
  /-- The loop variables of the runs of `initClientPool` that wait for a client. -/
  inits : List ℕ
  resets : List ResetPhase
  /-- The slot for which the re-instantiation interval waits; `none` when it is not running. -/
  interval : Option ℕ
  deriving DecidableEq, Repr

namespace ClientPool

/-- The first slot from an index on that holds `null`. -/
def nextNull (slots : List (Option ℕ)) (index : ℕ) : Option ℕ :=
  (List.range slots.length).find? fun i => decide (index ≤ i) && slots[i]? == some none

/-- Go on with the loop of `initClientPool` if there is another pass. -/
def nextPass (poolSize i j : ℕ) (s : ClientPool) : List ℕ :=
  if i + 1 < poolSize ∧ s.slots.length < poolSize then s.inits.set j (i + 1)
  else s.inits.eraseIdx j

/-- A new client for a slot. -/
def instantiate (poolIndex : ℕ) (s : ClientPool) : ClientPool :=
  { s with clients := s.clients ++ [⟨poolIndex, true⟩] }

/-- `clientPool.push(newApiClient)`. -/
def push (s : ClientPool) : ClientPool :=
  { s.instantiate s.slots.length with slots := s.slots ++ [some s.clients.length] }

/-- `clientPool[index] = newApiClient`; `ok` says whether there is one. -/
def fill (ok : Bool) (index : ℕ) (s : ClientPool) : ClientPool :=
  if ok then { s.instantiate index with slots := s.slots.set index (some s.clients.length) }
  else { s with slots := s.slots.set index none }

/-- The application has started. -/
def empty : ClientPool := ⟨[], [], [], [], none⟩

end ClientPool

/-- The steps: a push, a write to a slot, or neither. -/
inductive PoolAction
  | push
  | fill (index : ℕ)
  | other
  deriving DecidableEq, Repr

/-- One step between two suspensions. -/
inductive PoolStep (poolSize : ℕ) : ClientPool → PoolAction → ClientPool → Prop
  /-- `getApiClient` finds the pool empty; the loop starts unless no client is wanted. -/
  | startInit {s : ClientPool} (h : s.slots = []) :
      PoolStep poolSize s .other
        { s with inits := if 0 < poolSize then 0 :: s.inits else s.inits }
  | initClient {s : ClientPool} {i : ℕ} (j : ℕ) (h : s.inits[j]? = some i) :
      PoolStep poolSize s .push { s.push with inits := s.push.nextPass poolSize i j }
  | initFails {s : ClientPool} (j : ℕ) :
      PoolStep poolSize s .other { s with inits := s.inits.eraseIdx j }
  /-- A `resetApiClient` signal for any client, from `getApiClient` or from a ping listener. -/
  | startReset {s : ClientPool} {client : ApiClient} (c : ℕ) (h : s.clients[c]? = some client) :
      PoolStep poolSize s .other
        { s with resets := .disconnecting c client.poolIndex :: s.resets }
  /-- `disconnect` succeeds or not; the reset proceeds. -/
  | disconnect {s : ClientPool} {c k : ℕ} {client : ApiClient} (j : ℕ) (ok : Bool)
      (h : s.resets[j]? = some (.disconnecting c k)) (hc : s.clients[c]? = some client) :
      PoolStep poolSize s .other
        { s with
          clients := if ok then s.clients.set c { client with connected := false } else s.clients
          resets := s.resets.set j (.instantiating k) }
  | resetClient {s : ClientPool} {k : ℕ} (j : ℕ) (ok : Bool)
      (h : s.resets[j]? = some (.instantiating k)) :
      PoolStep poolSize s (.fill k) { s.fill ok k with resets := s.resets.eraseIdx j }
  /-- The interval starts its loop, if the previous one has ended. -/
  | tick {s : ClientPool} (h : s.interval = none) :
      PoolStep poolSize s .other { s with interval := ClientPool.nextNull s.slots 0 }
  | intervalClient {s : ClientPool} {k : ℕ} (ok : Bool) (h : s.interval = some k) :
      PoolStep poolSize s (.fill k)
        { s.fill ok k with interval := ClientPool.nextNull (s.fill ok k).slots (k + 1) }

namespace ClientPool

/-- Every connected client is held by one slot, the one it knows, and the pool is not too large. -/
structure HeldOnce (poolSize : ℕ) (s : ClientPool) : Prop where
  held : ∀ (c : ℕ) (client : ApiClient), s.clients[c]? = some client → client.connected = true →
    s.slots[client.poolIndex]? = some (some c)
  once : ∀ (c : ℕ) (client : ApiClient) (k : ℕ), s.clients[c]? = some client →
    client.connected = true →
    s.slots[k]? = some (some c) → k = client.poolIndex
  size : s.slots.length ≤ poolSize

/-- The slot holds no connected client. -/
def Free (s : ClientPool) (k : ℕ) : Prop :=
  ∀ (c : ℕ) (client : ApiClient), s.slots[k]? = some (some c) → s.clients[c]? = some client →
    client.connected = false

/-- What was checked before the wait still holds: the pool is not full when a slot is added, and a
slot that is written holds no connected client. -/
def StillFree (poolSize : ℕ) (s : ClientPool) : PoolAction → Prop
  | .push => s.slots.length < poolSize
  | .fill k => s.Free k
  | .other => True

/-- `HeldOnce` with the bounds on the indexes that are kept across a wait. -/
structure Tidy (poolSize : ℕ) (s : ClientPool) : Prop extends HeldOnce poolSize s where
  filled : ∀ k c : ℕ, s.slots[k]? = some (some c) → c < s.clients.length
  known : ∀ (c : ℕ) (client : ApiClient), s.clients[c]? = some client →
    client.poolIndex < s.slots.length
  reset : ∀ r ∈ s.resets, r.poolIndex < s.slots.length
  refill : ∀ k : ℕ, s.interval = some k → k < s.slots.length

theorem lt_of_nextNull {slots : List (Option ℕ)} {index k : ℕ}
    (h : nextNull slots index = some k) : k < slots.length :=
  List.mem_range.1 (List.mem_of_find?_eq_some h)

theorem tidy_empty (poolSize : ℕ) : empty.Tidy poolSize where
  held := by simp [empty]
  once := by simp [empty]
  size := Nat.zero_le _
  filled := by simp [empty]
  known := by simp [empty]
  reset := by simp [empty]
  refill := by simp [empty]

/-! ### What one step keeps -/

section Steps

variable {poolSize : ℕ} {s : ClientPool}

/-- An entry of the longer list is an old one or the new one. -/
private theorem concat_cases {α : Type} {l : List α} {a b : α} {i : ℕ}
    (h : (l ++ [a])[i]? = some b) : l[i]? = some b ∨ i = l.length ∧ b = a := by
  rcases Nat.lt_trichotomy i l.length with hlt | heq | hgt
  · left
    rwa [List.getElem?_append_left hlt] at h
  · right
    subst heq
    rw [List.getElem?_append_right (Nat.le_refl _), Nat.sub_self] at h
    exact ⟨rfl, (Option.some.inj h).symm⟩
  · rw [List.getElem?_eq_none (by simp; omega)] at h
    exact absurd h (by simp)

/-- An old client's number is below that of the new one. -/
private theorem lt_of_client {c : ℕ} {client : ApiClient} (h : s.clients[c]? = some client) :
    c < s.clients.length :=
  (List.getElem?_eq_some_iff.1 h).1

theorem Tidy.push (h : s.Tidy poolSize) (hsize : s.slots.length < poolSize) :
    s.push.Tidy poolSize where
  held c client hc hon := by
    rcases concat_cases hc with hold | ⟨rfl, rfl⟩
    · have hheld := h.held c client hold hon
      rw [ClientPool.push, List.getElem?_append_left (h.known c client hold)]
      exact hheld
    · simp [ClientPool.push]
  once c client k hc hon hk := by
    rcases concat_cases hc with hold | ⟨rfl, rfl⟩
    · rcases concat_cases hk with hk | ⟨-, hc⟩
      · exact h.once c client k hold hon hk
      · exact absurd (Option.some.inj hc) (Nat.ne_of_lt (lt_of_client hold))
    · rcases concat_cases hk with hk | ⟨rfl, -⟩
      · exact absurd (h.filled k _ hk) (Nat.lt_irrefl _)
      · rfl
  size := by
    simp only [ClientPool.push, List.length_append, List.length_singleton]
    omega
  filled k c hk := by
    show c < (s.clients ++ [_]).length
    rw [List.length_append, List.length_singleton]
    rcases concat_cases hk with hk | ⟨-, hc⟩
    · exact Nat.lt_succ_of_lt (h.filled k c hk)
    · rw [Option.some.inj hc]
      exact Nat.lt_succ_self _
  known c client hc := by
    show client.poolIndex < (s.slots ++ [_]).length
    rw [List.length_append, List.length_singleton]
    rcases concat_cases hc with hold | ⟨rfl, rfl⟩
    · exact Nat.lt_succ_of_lt (h.known c client hold)
    · exact Nat.lt_succ_self _
  reset r hr := by
    show r.poolIndex < (s.slots ++ [_]).length
    rw [List.length_append, List.length_singleton]
    exact Nat.lt_succ_of_lt (h.reset r hr)
  refill k hk := by
    show k < (s.slots ++ [_]).length
    rw [List.length_append, List.length_singleton]
    exact Nat.lt_succ_of_lt (h.refill k hk)

/-- A connected client is not in a slot that is free. -/
private theorem poolIndex_ne_of_free {k c : ℕ} {client : ApiClient} (h : s.HeldOnce poolSize)
    (hfree : s.Free k) (hc : s.clients[c]? = some client) (hon : client.connected = true) :
    client.poolIndex ≠ k := by
  rintro rfl
  have hoff := hfree c client (h.held c client hc hon) hc
  exact absurd (hon.symm.trans hoff) Bool.noConfusion

theorem Tidy.clear {k : ℕ} (h : s.Tidy poolSize) (hfree : s.Free k) :
    Tidy poolSize { s with slots := s.slots.set k none } where
  held c client hc hon := by
    show (s.slots.set k none)[client.poolIndex]? = some (some c)
    rw [List.getElem?_set_ne (poolIndex_ne_of_free h.toHeldOnce hfree hc hon).symm]
    exact h.held c client hc hon
  once c client k' hc hon hk := by
    have hne : k ≠ k' := by
      rintro rfl
      exact absurd hk (by simp [List.getElem?_set])
    rw [List.getElem?_set_ne hne] at hk
    exact h.once c client k' hc hon hk
  size := by
    rw [List.length_set]
    exact h.size
  filled k' c hk := by
    have hne : k ≠ k' := by
      rintro rfl
      exact absurd hk (by simp [List.getElem?_set])
    rw [List.getElem?_set_ne hne] at hk
    exact h.filled k' c hk
  known c client hc := by
    rw [List.length_set]
    exact h.known c client hc
  reset r hr := by
    rw [List.length_set]
    exact h.reset r hr
  refill k' hk := by
    rw [List.length_set]
    exact h.refill k' hk

theorem Tidy.fill {k : ℕ} (h : s.Tidy poolSize) (hk : k < s.slots.length) (hfree : s.Free k)
    (ok : Bool) : (s.fill ok k).Tidy poolSize := by
  cases ok with
  | false => exact h.clear hfree
  | true =>
    have hslots : (s.fill true k).slots = s.slots.set k (some s.clients.length) := rfl
    -- What a slot holds is the new client, or what it held before.
    have hcases : ∀ k' c : ℕ, (s.fill true k).slots[k']? = some (some c) →
        k' = k ∧ c = s.clients.length ∨ s.slots[k']? = some (some c) := by
      intro k' c hk'
      rw [hslots, List.getElem?_set] at hk'
      split at hk'
      · rename_i heq
        exact .inl ⟨heq.symm, (Option.some.inj (Option.some.inj hk')).symm⟩
      · exact .inr hk'
    have hlength : (s.fill true k).slots.length = s.slots.length := by
      rw [hslots, List.length_set]
    refine ⟨⟨fun c client hc hon => ?_, fun c client k' hc hon hk' => ?_, ?_⟩,
      fun k' c hk' => ?_, fun c client hc => ?_, fun r hr => ?_, fun k' hk' => ?_⟩
    · rcases concat_cases hc with hold | ⟨rfl, rfl⟩
      · rw [hslots, List.getElem?_set_ne
          (poolIndex_ne_of_free h.toHeldOnce hfree hold hon).symm]
        exact h.held c client hold hon
      · rw [hslots, List.getElem?_set_self hk]
    · rcases hcases k' c hk' with ⟨rfl, rfl⟩ | hold'
      · rcases concat_cases hc with hold | ⟨-, rfl⟩
        · exact absurd (lt_of_client hold) (Nat.lt_irrefl _)
        · rfl
      · rcases concat_cases hc with hold | ⟨rfl, rfl⟩
        · exact h.once c client k' hold hon hold'
        · exact absurd (h.filled k' _ hold') (Nat.lt_irrefl _)
    · rw [hlength]
      exact h.size
    · show c < (s.clients ++ [_]).length
      rw [List.length_append, List.length_singleton]
      rcases hcases k' c hk' with ⟨-, rfl⟩ | hold'
      · exact Nat.lt_succ_self _
      · exact Nat.lt_succ_of_lt (h.filled k' c hold')
    · rw [hlength]
      rcases concat_cases hc with hold | ⟨rfl, rfl⟩
      · exact h.known c client hold
      · exact hk
    · rw [hlength]
      exact h.reset r hr
    · rw [hlength]
      exact h.refill k' hk'

/-- A client is disconnected. -/
theorem Tidy.disconnect {c : ℕ} {client : ApiClient} (h : s.Tidy poolSize)
    (hc : s.clients[c]? = some client) :
    Tidy poolSize { s with clients := s.clients.set c { client with connected := false } } := by
  -- A client that is connected afterwards was connected before.
  have hcases : ∀ (c' : ℕ) (client' : ApiClient),
      (s.clients.set c { client with connected := false })[c']? = some client' →
      s.clients[c']? = some client' ∨ client' = { client with connected := false } := by
    intro c' client' hc'
    rw [List.getElem?_set] at hc'
    split at hc'
    · rw [if_pos (lt_of_client hc)] at hc'
      exact .inr (Option.some.inj hc').symm
    · exact .inl hc'
  refine ⟨⟨fun c' client' hc' hon => ?_, fun c' client' k hc' hon hk => ?_, h.size⟩,
    fun k c' hk => ?_, fun c' client' hc' => ?_, h.reset, h.refill⟩
  · rcases hcases c' client' hc' with hold | rfl
    · exact h.held c' client' hold hon
    · exact absurd hon Bool.noConfusion
  · rcases hcases c' client' hc' with hold | rfl
    · exact h.once c' client' k hold hon hk
    · exact absurd hon Bool.noConfusion
  · rw [List.length_set]
    exact h.filled k c' hk
  · rcases hcases c' client' hc' with hold | rfl
    · exact h.known c' client' hold
    · exact h.known c client hc

theorem Tidy.step {s' : ClientPool} {act : PoolAction} (h : s.Tidy poolSize)
    (hok : s.StillFree poolSize act) (hstep : PoolStep poolSize s act s') : s'.Tidy poolSize := by
  cases hstep with
  | startInit hempty =>
    exact ⟨⟨h.held, h.once, h.size⟩, h.filled, h.known, h.reset, h.refill⟩
  | initClient j hj =>
    have hpush := h.push hok
    exact ⟨⟨hpush.held, hpush.once, hpush.size⟩, hpush.filled, hpush.known, hpush.reset,
      hpush.refill⟩
  | initFails j => exact ⟨⟨h.held, h.once, h.size⟩, h.filled, h.known, h.reset, h.refill⟩
  | startReset c hc =>
    refine ⟨⟨h.held, h.once, h.size⟩, h.filled, h.known, fun r hr => ?_, h.refill⟩
    rcases List.mem_cons.1 hr with rfl | hr
    · exact h.known c _ hc
    · exact h.reset r hr
  | @disconnect c k _ j ok hj hc =>
    have hreset : ∀ r ∈ s.resets.set j (.instantiating k), r.poolIndex < s.slots.length := by
      intro r hr
      rcases List.mem_or_eq_of_mem_set hr with hr | rfl
      · exact h.reset r hr
      · exact h.reset (.disconnecting c k) (List.mem_of_getElem? hj)
    cases ok with
    | false => exact ⟨⟨h.held, h.once, h.size⟩, h.filled, h.known, hreset, h.refill⟩
    | true =>
      have hoff := h.disconnect hc
      exact ⟨⟨hoff.held, hoff.once, hoff.size⟩, hoff.filled, hoff.known, hreset, hoff.refill⟩
  | resetClient j ok hj =>
    have hfill := h.fill (h.reset _ (List.mem_of_getElem? hj)) hok ok
    exact ⟨⟨hfill.held, hfill.once, hfill.size⟩, hfill.filled, hfill.known,
      fun r hr => hfill.reset r (by cases ok <;> exact List.mem_of_mem_eraseIdx hr),
      hfill.refill⟩
  | tick hnone =>
    exact ⟨⟨h.held, h.once, h.size⟩, h.filled, h.known, h.reset, fun k hk => lt_of_nextNull hk⟩
  | intervalClient ok hk =>
    have hfill := h.fill (h.refill _ hk) hok ok
    exact ⟨⟨hfill.held, hfill.once, hfill.size⟩, hfill.filled, hfill.known, hfill.reset,
      fun k' hk' => lt_of_nextNull hk'⟩

/-- What goes wrong otherwise: the pool has too many slots, or the client that the slot held is in
no slot any more. -/
theorem HeldOnce.stillFree {s' : ClientPool} {act : PoolAction} (h : s.HeldOnce poolSize)
    (hstep : PoolStep poolSize s act s') (h' : s'.HeldOnce poolSize) :
    s.StillFree poolSize act := by
  have hfill : ∀ (ok : Bool) (k : ℕ), (∀ (c : ℕ) (client : ApiClient),
      (s.fill ok k).clients[c]? = some client → client.connected = true →
      (s.fill ok k).slots[client.poolIndex]? = some (some c)) → s.Free k := by
    intro ok k hheld c client hk hc
    by_contra hon
    rw [Bool.not_eq_false] at hon
    have hlt := lt_of_client hc
    have hindex : k = client.poolIndex := h.once c client k hc hon hk
    have hslot := (List.getElem?_eq_some_iff.1 hk).1
    cases ok with
    | false =>
      have hlost := hheld c client hc hon
      rw [← hindex] at hlost
      simp [fill, List.getElem?_set_self hslot] at hlost
    | true =>
      have hlost := hheld c client (by simp [fill, instantiate, List.getElem?_append_left hlt, hc])
        hon
      rw [← hindex] at hlost
      simp only [fill, if_true, List.getElem?_set_self hslot, Option.some_inj] at hlost
      omega
  cases hstep with
  | initClient j hj =>
    have hsize := h'.size
    simp only [ClientPool.push, List.length_append, List.length_singleton] at hsize
    exact hsize
  | resetClient j ok hj => exact hfill ok _ h'.held
  | intervalClient ok hk => exact hfill ok _ h'.held
  | startInit | initFails | startReset | disconnect | tick => exact trivial

end Steps

/-- **No connection is leaked or duplicated** while what was checked before a wait still holds after
it: every connected client is held by one slot, the one it knows, and the pool has at most
`poolSize` slots. The first step for which the check is outdated breaks this. -/
theorem clients_held_once {poolSize : ℕ} {s : ClientPool}
    (hrun : Run (PoolStep poolSize) (StillFree poolSize) empty s) :
    s.HeldOnce poolSize ∧ ∀ act s', PoolStep poolSize s act s' →
      (s'.HeldOnce poolSize ↔ s.StillFree poolSize act) := by
  have hs : s.Tidy poolSize := hrun.invariant (Tidy poolSize) (tidy_empty poolSize)
    fun _ _ _ h hok hstep => h.step hok hstep
  refine ⟨hs.toHeldOnce, fun act s' hstep => ⟨hs.toHeldOnce.stillFree hstep, fun hok => ?_⟩⟩
  exact (hs.step hok hstep).toHeldOnce

/-- A pool of one client, which is reset. -/
private theorem run_reset :
    Run (PoolStep 1) (StillFree 1) empty ⟨[⟨0, false⟩, ⟨0, true⟩], [some 1], [], [], none⟩ := by
  have h₀ : Run (PoolStep 1) (StillFree 1) empty ⟨[], [], [0], [], none⟩ :=
    Run.refl.tail (.startInit rfl) trivial
  have h₁ : Run (PoolStep 1) (StillFree 1) empty ⟨[⟨0, true⟩], [some 0], [], [], none⟩ :=
    h₀.tail (.initClient 0 rfl) Nat.zero_lt_one
  have h₂ := (h₁.tail (.startReset 0 rfl) trivial).tail (.disconnect 0 true rfl rfl) trivial
  refine h₂.tail (.resetClient 0 true rfl) fun c client hc hclient => ?_
  obtain rfl : 0 = c := Option.some.inj (Option.some.inj hc)
  obtain rfl := Option.some.inj hclient
  rfl

theorem clients_held_once_reset :
    HeldOnce 1 ⟨[⟨0, false⟩, ⟨0, true⟩], [some 1], [], [], none⟩ ∧
      ¬ HeldOnce 1 empty.push.push := by
  refine ⟨(clients_held_once run_reset).1, fun h => ?_⟩
  exact absurd h.size (by decide)

/-- Two calls of `getApiClient` find the pool empty: it gets two clients although one is wanted. -/
theorem concurrent_init_overfills :
    ¬ ∀ (poolSize : ℕ) (s : ClientPool),
      Run (PoolStep poolSize) Unrestricted empty s → s.HeldOnce poolSize := by
  intro h
  have hrun : Run (PoolStep 1) Unrestricted empty
      ⟨[⟨0, true⟩, ⟨1, true⟩], [some 0, some 1], [], [], none⟩ := by
    have hwait : Run (PoolStep 1) Unrestricted empty ⟨[], [], [0, 0], [], none⟩ :=
      (Run.refl.tail (.startInit rfl) trivial).tail (.startInit rfl) trivial
    exact (hwait.tail (.initClient 0 rfl) trivial).tail (.initClient 0 rfl) trivial
  exact absurd (h 1 _ hrun).size (by decide)

end ClientPool

end SwaptoshiService
