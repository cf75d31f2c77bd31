import Mathlib.Data.Int.Notation
import Mathlib.Data.List.Chain
import Mathlib.Data.List.Sort
import Mathlib.Data.Nat.Notation

/-!
# Engine events by polling

With an HTTP client the connector cannot subscribe to the events of the node, and `emitEngineEvents`
(`blockchain-connector/shared/sdk/events.js`) makes them up: it asks for the height of the node
every few seconds, and when it is above the height of the last event, dispatches `chain_newBlock`
for the new height, and `chain_validatorsChanged` if a round starts there.

The heights that lie between are passed over, and a height whose block could not be fetched is not
tried again, as it is remembered before the block is asked for. `engine_events_iff` says that the
events are complete if and only if every height is met by a poll whose requests are answered. Of a
node that is never syncing and answers all requests, this is to say that no poll finds the node more
than one block above the poll before (`engine_events_iff_rises`).
-/

namespace SwaptoshiService

namespace EngineEvents

/-- One call of the polling callback: what the node says about itself, and what it answers when it
is asked for the block and for the BFT parameters at this height; nothing when the request fails. -/
structure Poll (α β : Type) where
  syncing : Bool
  height : ℕ
  blockHeader : Option α
  bftParameters : Option β

inductive EngineEvent (α β : Type)
  | newBlock (height : ℕ) (blockHeader : α)
  | validatorsChanged (height : ℕ) (bftParameters : β)

/-- The constants of the chain. -/
structure RoundConstants where
  genesisHeight : ℕ
  roundLength : ℕ
  roundLength_pos : 0 < roundLength

/-- `(height - genesisHeight) % roundLength === 1`. -/
def RoundConstants.isRoundStart (c : RoundConstants) (height : ℕ) : Bool :=
  Int.tmod ((height : ℤ) - c.genesisHeight) c.roundLength = 1

section Polling

variable {α β : Type} (c : RoundConstants)

/-- `!lastBlockHeightEvent || height > lastBlockHeightEvent`. -/
def isAbove (height : ℕ) : Option ℕ → Bool
  | none => true
  | some lastBlockHeightEvent => lastBlockHeightEvent = 0 || lastBlockHeightEvent < height

/-- The event for a round that starts at a height. -/
def roundEvents (p : Poll α β) : List (EngineEvent α β) :=
  if c.isRoundStart p.height then (p.bftParameters.map (.validatorsChanged p.height)).toList
  else []

/-- The events for a height. -/
def dispatched (p : Poll α β) : List (EngineEvent α β) :=
  match p.blockHeader with
  | none => []
  | some blockHeader => .newBlock p.height blockHeader :: roundEvents c p

/-- The polling callback: the height of the last event, and the events that are dispatched. -/
def poll (lastBlockHeightEvent : Option ℕ) (p : Poll α β) :
    Option ℕ × List (EngineEvent α β) :=
  if p.syncing then (lastBlockHeightEvent, [])
  else if isAbove p.height lastBlockHeightEvent then (some p.height, dispatched c p)
  else (lastBlockHeightEvent, [])

/-- The events of a sequence of polls. A callback does not wait between comparing the height and
remembering it, so that callbacks that overlap dispatch the same events. -/
def emitted : Option ℕ → List (Poll α β) → List (EngineEvent α β)
  | _, [] => []
  | lastBlockHeightEvent, p :: polls =>
    (poll c lastBlockHeightEvent p).2 ++ emitted (poll c lastBlockHeightEvent p).1 polls

end Polling

/-! ### What is meant -/

section Meaning

variable {α β : Type}

/-- Polls one after the other. The chain does not become shorter. -/
structure PollSequence (α β : Type) where
  first : Poll α β
  polls : List (Poll α β)
  sorted : ((first :: polls).map Poll.height).Pairwise (· ≤ ·)

/-- The height that is seen last. -/
def PollSequence.lastHeight (s : PollSequence α β) : ℕ := (s.polls.getLastD s.first).height

/-- The events that `emitEngineEvents` dispatches. -/
def PollSequence.events (c : RoundConstants) (s : PollSequence α β) : List (EngineEvent α β) :=
  emitted c none (s.first :: s.polls)

def EngineEvent.isNewBlock (h : ℕ) : EngineEvent α β → Bool
  | .newBlock height _ => height = h
  | .validatorsChanged _ _ => false

def EngineEvent.isValidatorsChanged (h : ℕ) : EngineEvent α β → Bool
  | .newBlock _ _ => false
  | .validatorsChanged height _ => height = h

/-- Each height above the first one up to the last has one event for its block, and one for the
round that starts there. -/
def EventsComplete (c : RoundConstants) (s : PollSequence α β) : Prop :=
  ∀ h, s.first.height < h → h ≤ s.lastHeight →
    (s.events c).countP (EngineEvent.isNewBlock h) = 1 ∧
      (c.isRoundStart h → (s.events c).countP (EngineEvent.isValidatorsChanged h) = 1)

/-- The node is not syncing, and its height is the given one. -/
def Poll.meets (h : ℕ) (p : Poll α β) : Bool := !p.syncing && p.height = h

/-- The requests that are made are answered. -/
def Poll.Answered (c : RoundConstants) (p : Poll α β) : Prop :=
  p.blockHeader.isSome ∧ (c.isRoundStart p.height → p.bftParameters.isSome)

/-- The first poll that meets the height is answered. -/
def PollSequence.Met (c : RoundConstants) (s : PollSequence α β) (h : ℕ) : Prop :=
  ∃ p, (s.first :: s.polls).find? (Poll.meets h) = some p ∧ p.Answered c

end Meaning

/-! ### Runs -/

section Runs

variable {α β : Type} {c : RoundConstants} {h : ℕ} {isEvent : EngineEvent α β → Bool}
  {yields : Poll α β → ℕ}

/-- A poll changes nothing, or dispatches the events of its height and remembers it. -/
theorem poll_cases (c : RoundConstants) (last : Option ℕ) (p : Poll α β) :
    (poll c last p = (last, []) ∧ (p.syncing = true ∨ ∃ l ∈ last, l ≠ 0 ∧ p.height ≤ l)) ∨
      (poll c last p = (some p.height, dispatched c p) ∧ p.syncing = false ∧
        ∀ l ∈ last, l = 0 ∨ l < p.height) := by
  rw [poll]
  cases hsyncing : p.syncing with
  | true => exact .inl ⟨rfl, .inl rfl⟩
  | false =>
    rw [if_neg Bool.false_ne_true]
    cases last with
    | none => exact .inr ⟨rfl, rfl, fun l hl => absurd hl (Option.not_mem_none l)⟩
    | some l =>
      by_cases habove : l = 0 ∨ l < p.height
      · rw [if_pos (by simpa [isAbove] using habove)]
        exact .inr ⟨rfl, rfl, fun l' hl' => Option.some.inj hl' ▸ habove⟩
      · rw [if_neg (by simpa [isAbove] using habove)]
        exact .inl ⟨rfl, .inr ⟨l, rfl, by omega⟩⟩

/-- After a height has been passed, there are no events of it. -/
theorem countP_emitted_of_le (hpos : 0 < h)
    (hyields : ∀ p, (dispatched c p).countP isEvent = if p.height = h then yields p else 0) :
    ∀ (polls : List (Poll α β)) (l : ℕ), h ≤ l → (emitted c (some l) polls).countP isEvent = 0
  | [], _, _ => rfl
  | p :: polls, l, hle => by
    rw [emitted, List.countP_append]
    rcases poll_cases c (some l) p with ⟨heq, -⟩ | ⟨heq, -, habove⟩
    · rw [heq, List.countP_nil, Nat.zero_add]
      exact countP_emitted_of_le hpos hyields polls l hle
    · have hlt : l < p.height := by
        have hl := habove l rfl
        omega
      rw [heq, hyields, if_neg (by omega), Nat.zero_add]
      exact countP_emitted_of_le hpos hyields polls p.height (by omega)

/-- **The events of a height** are those of the first poll that meets it. -/
theorem countP_emitted (hpos : 0 < h)
    (hyields : ∀ p, (dispatched c p).countP isEvent = if p.height = h then yields p else 0) :
    ∀ (polls : List (Poll α β)), (polls.map Poll.height).Pairwise (· ≤ ·) →
      ∀ last : Option ℕ, (∀ l ∈ last, l < h) →
        (emitted c last polls).countP isEvent = (polls.find? (Poll.meets h)).elim 0 yields
  | [], _, _, _ => rfl
  | p :: polls, hsorted, last, hlast => by
    rw [List.map_cons, List.pairwise_cons] at hsorted
    rw [emitted, List.countP_append]
    rcases poll_cases c last p with ⟨heq, hwhy⟩ | ⟨heq, hsyncing, -⟩
    · -- a poll of a syncing node, or of a height that has had its events
      have hmiss : ¬ (p.meets h = true) := by
        rcases hwhy with hsyncing | ⟨l, hl, -, hle⟩
        · simp [Poll.meets, hsyncing]
        · have hlt := hlast l hl
          simp only [Poll.meets, Bool.and_eq_true, decide_eq_true_eq, not_and]
          omega
      rw [heq, List.countP_nil, Nat.zero_add, List.find?_cons_of_neg hmiss]
      exact countP_emitted hpos hyields polls hsorted.2 last hlast
    · rw [heq, hyields]
      by_cases hheight : p.height = h
      · have hmeets : p.meets h = true := by simp [Poll.meets, hsyncing, hheight]
        rw [if_pos hheight, List.find?_cons_of_pos hmeets,
          countP_emitted_of_le hpos hyields polls p.height (by omega)]
        rfl
      · have hmiss : ¬ (p.meets h = true) := by simp [Poll.meets, hheight]
        rw [if_neg hheight, Nat.zero_add, List.find?_cons_of_neg hmiss]
        rcases Nat.lt_or_gt_of_ne hheight with hlt | hgt
        · exact countP_emitted hpos hyields polls hsorted.2 _
            fun l hl => Option.some.inj hl ▸ hlt
        · -- the chain has passed the height, and no later poll meets it
          have hnone : polls.find? (Poll.meets h) = none := by
            rw [List.find?_eq_none]
            intro p' hp'
            have hle := hsorted.1 p'.height (List.mem_map_of_mem hp')
            simp only [Poll.meets, Bool.and_eq_true, decide_eq_true_eq, not_and]
            omega
          rw [hnone]
          exact countP_emitted_of_le hpos hyields polls p.height (by omega)

theorem countP_newBlock_dispatched (h : ℕ) (p : Poll α β) :
    (dispatched c p).countP (EngineEvent.isNewBlock h) =
      if p.height = h then if p.blockHeader.isSome then 1 else 0 else 0 := by
  have hround : (roundEvents c p).countP (EngineEvent.isNewBlock h) = 0 := by
    rw [roundEvents]
    split_ifs
    · cases p.bftParameters <;> rfl
    · rfl
  rw [dispatched]
  cases p.blockHeader with
  | none => simp
  | some blockHeader => simp [hround, EngineEvent.isNewBlock, List.countP_cons]

theorem countP_validatorsChanged_dispatched (h : ℕ) (p : Poll α β) :
    (dispatched c p).countP (EngineEvent.isValidatorsChanged h) =
      if p.height = h then
        if p.blockHeader.isSome ∧ c.isRoundStart p.height ∧ p.bftParameters.isSome then 1 else 0
      else 0 := by
  have hround : (roundEvents c p).countP (EngineEvent.isValidatorsChanged h) =
      if p.height = h ∧ c.isRoundStart p.height ∧ p.bftParameters.isSome then 1 else 0 := by
    rw [roundEvents]
    split_ifs with hstart hall hall
    · obtain ⟨hheight, -, hsome⟩ := hall
      obtain ⟨bftParameters, hbft⟩ := Option.isSome_iff_exists.mp hsome
      simp [hbft, hheight, EngineEvent.isValidatorsChanged]
    · rw [List.countP_eq_zero]
      cases hbft : p.bftParameters with
      | none => simp
      | some bftParameters =>
        have hheight : p.height ≠ h := fun heq =>
          hall ⟨heq, hstart, by rw [hbft, Option.isSome_some]⟩
        simpa [EngineEvent.isValidatorsChanged] using hheight
    · exact absurd hall.2.1 hstart
    · rfl
  rw [dispatched]
  cases p.blockHeader with
  | none => simp
  | some blockHeader =>
    rw [List.countP_cons, hround, ← ite_and]
    simp [EngineEvent.isValidatorsChanged]

end Runs

/-! ### Heights without gaps -/

/-- The numbers of a list that does not fall leave out none between the first and the last if and
only if none is more than one above the number before. -/
theorem forall_mem_iff_isChain {l : List ℕ} {a : ℕ} (hsorted : (a :: l).Pairwise (· ≤ ·)) :
    (∀ h, a < h → h ≤ l.getLastD a → h ∈ a :: l) ↔
      (a :: l).IsChain fun m n => n ≤ m + 1 := by
  induction l generalizing a with
  | nil =>
    refine iff_of_true (fun h hlt hle => ?_) (.singleton a)
    exact absurd (hlt.trans_le hle) (Nat.lt_irrefl a)
  | cons b l ih =>
    rw [List.pairwise_cons] at hsorted
    obtain ⟨hfirst, hsorted⟩ := hsorted
    have hab : a ≤ b := hfirst b List.mem_cons_self
    have hlast : b ≤ l.getLastD b := by
      have hmem : l.getLastD b ∈ b :: l := List.getLastD_mem_cons
      rcases List.mem_cons.mp hmem with heq | hmem
      · exact heq.ge
      · exact (List.pairwise_cons.mp hsorted).1 _ hmem
    rw [List.isChain_cons_cons, ← ih hsorted, List.getLastD_cons]
    constructor
    · intro hall
      refine ⟨?_, fun h hlt hle => ?_⟩
      · by_contra hgap
        -- the number after the first one is missing
        have hmem := hall (a + 1) (Nat.lt_succ_self a) (by omega)
        rcases List.mem_cons.mp hmem with heq | hmem
        · omega
        · rcases List.mem_cons.mp hmem with heq | hmem
          · omega
          · have hle := (List.pairwise_cons.mp hsorted).1 _ hmem
            omega
      · rcases List.mem_cons.mp (hall h (by omega) hle) with rfl | hmem
        · omega
        · exact hmem
    · rintro ⟨hrise, hall⟩ h hlt hle
      by_cases hbh : b < h
      · exact List.mem_cons_of_mem _ (hall h hbh hle)
      · obtain rfl : h = b := by omega
        exact List.mem_cons_of_mem _ List.mem_cons_self

/-! ### When the events are complete -/

section Complete

variable {α β : Type} {c : RoundConstants} {s : PollSequence α β} {h : ℕ}

theorem countP_events {isEvent : EngineEvent α β → Bool} {yields : Poll α β → ℕ} (hpos : 0 < h)
    (hyields : ∀ p, (dispatched c p).countP isEvent = if p.height = h then yields p else 0) :
    (s.events c).countP isEvent = ((s.first :: s.polls).find? (Poll.meets h)).elim 0 yields :=
  countP_emitted hpos hyields _ s.sorted none fun l hl => absurd hl (Option.not_mem_none l)

theorem events_of_height_iff (hpos : 0 < h) :
    ((s.events c).countP (EngineEvent.isNewBlock h) = 1 ∧
      (c.isRoundStart h → (s.events c).countP (EngineEvent.isValidatorsChanged h) = 1)) ↔
      s.Met c h := by
  rw [countP_events hpos (countP_newBlock_dispatched h),
    countP_events hpos (countP_validatorsChanged_dispatched h), PollSequence.Met]
  cases hfind : (s.first :: s.polls).find? (Poll.meets h) with
  | none => simp
  | some p =>
    have hmeets := List.find?_some hfind
    simp only [Poll.meets, Bool.and_eq_true, decide_eq_true_eq] at hmeets
    obtain rfl := hmeets.2
    simp only [Option.elim_some, Option.some.injEq, exists_eq_left', Poll.Answered,
      ite_eq_left_iff, Nat.zero_ne_one, imp_false, not_not]
    tauto

end Complete

/-- **Engine events by polling** are complete if and only if every height above the first one that
is seen, up to the last, is met by a poll of a node that is not syncing, and the first such poll has
its requests answered. -/
theorem engine_events_iff {α β : Type} (c : RoundConstants) (s : PollSequence α β) :
    EventsComplete c s ↔ ∀ h, s.first.height < h → h ≤ s.lastHeight → s.Met c h :=
  forall_congr' fun _ => forall_congr' fun hlt => forall_congr' fun _ =>
    events_of_height_iff (Nat.zero_lt_of_lt hlt)

/-- A node that is never syncing and answers all requests must not be more than one block above the
poll before. -/
theorem engine_events_iff_rises {α β : Type} {c : RoundConstants} {s : PollSequence α β}
    (hanswered : ∀ p ∈ s.first :: s.polls, p.syncing = false ∧ p.Answered c) :
    EventsComplete c s ↔
      ((s.first :: s.polls).map Poll.height).IsChain fun m n => n ≤ m + 1 := by
  have hmet : ∀ h, s.Met c h ↔ h ∈ (s.first :: s.polls).map Poll.height := by
    intro h
    rw [PollSequence.Met, List.mem_map]
    constructor
    · rintro ⟨p, hfind, -⟩
      have hmeets := List.find?_some hfind
      simp only [Poll.meets, Bool.and_eq_true, decide_eq_true_eq] at hmeets
      exact ⟨p, List.mem_of_find?_eq_some hfind, hmeets.2⟩
    · rintro ⟨p, hp, hheight⟩
      have hsome : ((s.first :: s.polls).find? (Poll.meets h)).isSome := by
        rw [List.find?_isSome]
        exact ⟨p, hp, by simp [Poll.meets, (hanswered p hp).1, hheight]⟩
      obtain ⟨p', hfind⟩ := Option.isSome_iff_exists.mp hsome
      exact ⟨p', hfind, (hanswered p' (List.mem_of_find?_eq_some hfind)).2⟩
  have hlast : s.lastHeight = (s.polls.map Poll.height).getLastD s.first.height := by
    rw [PollSequence.lastHeight, List.getLastD_map]
  rw [engine_events_iff, List.map_cons, ← forall_mem_iff_isChain s.sorted, hlast]
  simp only [hmet, List.map_cons]

/-- Two blocks are forged between two polls. -/
def jump : PollSequence Unit Unit where
  first := ⟨false, 1, some (), some ()⟩
  polls := [⟨false, 3, some (), some ()⟩]
  sorted := by decide

def oneRound : RoundConstants := ⟨0, 103, by decide⟩

/-- The first of them has no event. -/
theorem jump_loses_block :
    (jump.events oneRound).countP (EngineEvent.isNewBlock 2) = 0 ∧
    (jump.events oneRound).countP (EngineEvent.isNewBlock 3) = 1 ∧
    ¬ EventsComplete oneRound jump := by
  have hnone : (jump.events oneRound).countP (EngineEvent.isNewBlock 2) = 0 := by decide
  refine ⟨hnone, by decide, fun h => ?_⟩
  have hone := (h 2 (by decide) (by decide)).1
  rw [hnone] at hone
  exact absurd hone (by decide)

end EngineEvents

end SwaptoshiService
