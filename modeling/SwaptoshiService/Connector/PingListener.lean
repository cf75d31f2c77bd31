import Mathlib.Data.Int.Notation
import Mathlib.Data.Nat.Notation
import SwaptoshiService.Lib.Run

/-!
# Pings of the node

`pingListener` (`blockchain-connector/shared/sdk/client.js`) is called for every ping of the node.
It clears the timer of the previous ping, arms a new one and **then** stores the time of the ping.
The callback of the timer is to declare the client dead unless a later ping came in the meantime;
it compares the time it captured with the stored one, which are the same ping.

`expiration_not_detected` says that no expiration is ever noticed.
-/

namespace SwaptoshiService

/-- The state of a client that its ping listener reads and writes. -/
structure PingedClient where
  /-- The time of the latest event. -/
  clock : ℕ
  /-- `apiClient._channel.isAlive`. -/
  isAlive : Bool
  lastPingAt : Option ℕ
  /-- The time that the callback of the armed timer captured. -/
  pingTimeout : Option ℕ
  /-- The number of `resetApiClient` signals dispatched for the client. -/
  resetSignals : ℕ

namespace PingedClient

/-- A client that has just been connected. -/
def connected (clock : ℕ) : PingedClient := ⟨clock, true, none, none, 0⟩

/-- `pingListener(apiClient)` at a time: the old timer is cleared, a new one armed. -/
def pingListener (now : ℕ) (s : PingedClient) : PingedClient :=
  { s with clock := now, pingTimeout := some now, lastPingAt := some now }

/-- `timeSinceLastPing` is truthy; without a ping it is `NaN`. -/
def missedPing (now : ℕ) (s : PingedClient) : Bool :=
  match s.lastPingAt with
  | some lastPingAt => (now : ℤ) - lastPingAt != 0
  | none => false

/-- The callback of the timer. -/
def onTimeout (now : ℕ) (s : PingedClient) : PingedClient :=
  if s.missedPing now then { s with isAlive := false, resetSignals := s.resetSignals + 1 } else s

end PingedClient

/-- What happens to a client. -/
inductive PingAction
  | ping
  | expire

/-- One event. Pings come at increasing times, and an armed timer fires when the threshold has
passed since its ping. -/
inductive PingStep (threshold : ℕ) : PingedClient → PingAction → PingedClient → Prop
  | ping {s : PingedClient} (now : ℕ) (h : s.clock < now) :
      PingStep threshold s .ping (s.pingListener now)
  | expire {s : PingedClient} {now : ℕ} (ht : s.pingTimeout = some now)
      (h : s.clock ≤ now + threshold) :
      PingStep threshold s .expire
        { s.onTimeout now with clock := now + threshold, pingTimeout := none }

/-- The client is marked dead, and a reset is requested. -/
def PingedClient.Detected (s s' : PingedClient) : Prop :=
  s'.isAlive = false ∧ s'.resetSignals = s.resetSignals + 1

/-- The armed timer belongs to the last ping, and nothing has been noticed. -/
structure PingedClient.Unnoticed (s : PingedClient) : Prop where
  latest : ∀ now, s.pingTimeout = some now → s.lastPingAt = some now
  alive : s.isAlive = true

/-- The callback compares a ping with itself. -/
private theorem onTimeout_eq {s : PingedClient} {now : ℕ} (h : s.lastPingAt = some now) :
    s.onTimeout now = s := by
  have hzero : s.missedPing now = false := by
    rw [PingedClient.missedPing, h]
    simp
  rw [PingedClient.onTimeout, hzero]
  rfl

private theorem unnoticed_step {threshold : ℕ} {s s' : PingedClient} {act : PingAction}
    (h : s.Unnoticed) (hstep : PingStep threshold s act s') :
    s'.Unnoticed ∧ s'.resetSignals = s.resetSignals := by
  cases hstep with
  | ping now hlt => exact ⟨⟨fun now' h' => h', h.alive⟩, rfl⟩
  | expire ht hdue =>
    rw [onTimeout_eq (h.latest _ ht)]
    exact ⟨⟨fun now' h' => absurd h' (Option.some_ne_none now').symm, h.alive⟩, rfl⟩

/-- **No expiration is noticed.** Whatever pings and expirations came before, a timer that expires
leaves the client alive and requests no reset. -/
theorem expiration_not_detected {threshold clock : ℕ} {s s' : PingedClient}
    (hrun : Run (PingStep threshold) Unrestricted (.connected clock) s)
    (hstep : PingStep threshold s .expire s') :
    ¬ s.Detected s' ∧ s'.isAlive = true ∧ s'.resetSignals = s.resetSignals := by
  have hconnected : (PingedClient.connected clock).Unnoticed :=
    ⟨fun now h => absurd h (Option.some_ne_none now).symm, rfl⟩
  have hs : s.Unnoticed := hrun.invariant PingedClient.Unnoticed hconnected
    fun _ _ _ h _ hst => (unnoticed_step h hst).1
  obtain ⟨hs', hsignals⟩ := unnoticed_step hs hstep
  refine ⟨fun hdetected => ?_, hs'.alive, hsignals⟩
  exact absurd (hdetected.1.symm.trans hs'.alive) Bool.false_ne_true

/-- A ping at 5, and then silence. -/
def silentClient : PingedClient := (PingedClient.connected 0).pingListener 5

private theorem run_silentClient :
    Run (PingStep 3) Unrestricted (.connected 0) silentClient :=
  Run.refl.tail (.ping 5 (by decide)) trivial

private theorem silentClient_expires :
    PingStep 3 silentClient .expire ⟨8, true, some 5, none, 0⟩ :=
  .expire rfl (by decide)

theorem expiration_not_detected_silentClient :
    ¬ silentClient.Detected ⟨8, true, some 5, none, 0⟩ ∧ silentClient.isAlive = true :=
  ⟨(expiration_not_detected run_silentClient silentClient_expires).1, rfl⟩

/-- The timer of the only ping expires, and the client stays alive. -/
theorem silent_client_stays_alive :
    ¬ ∀ (threshold clock : ℕ) (s s' : PingedClient),
      Run (PingStep threshold) Unrestricted (.connected clock) s →
      PingStep threshold s .expire s' → s.Detected s' := by
  intro h
  have hdetected := h 3 0 silentClient _ run_silentClient silentClient_expires
  exact absurd hdetected.1.symm Bool.false_ne_true

end SwaptoshiService
