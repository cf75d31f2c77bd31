import SwaptoshiService.DataService.LastBlock
import SwaptoshiService.Lib.Join
import SwaptoshiService.Lib.Keyed

/-!
# Queries for events

`getEvents` (`blockchain-indexer/shared/dataService/business/events.js`) joins the `events` table
with `event_topics`, once for each of the filters `transactionID`, `senderAddress` and `topic`, and
asks that the joined topic is one of a list. **An event is answered once for every combination of
topics that match**: twice for two topics of one filter, and twice if two transactions of the sender
are among its topics. The same rows are counted for `meta.total`.

An ID is searched for with the prefixes of topics only, although the indexer
(`getEventsInfoToIndex`) gives the events of a message from another chain the ID of the transaction
**without a prefix** as a topic, for them to be found by it. And the block at the height zero is not
accepted as `blockID`, as its height is falsy.

`getEvents_right_iff`: the answer is right if and only if every event that satisfies the filters has
exactly one of the topics that are searched for, and the block is not refused for its height.

An event is in the block that is indexed at its height, as in the answer. An unknown block, and one
at another height than a single one that is given, is not found.
-/

namespace SwaptoshiService

namespace EventQuery

/-! ### Tables -/

/-- A row of `events`. -/
structure EventRecord where
  id : String
  height : ℕ
  index : ℕ
  timestamp : ℕ
  eventStr : Option Event
  deriving DecidableEq, Repr

/-- A row of `blocks`. -/
structure BlockRecord where
  id : BlockID
  height : ℕ
  timestamp : ℕ
  deriving DecidableEq, Repr

/-- The tables that the query reads. -/
structure Tables where
  events : List EventRecord
  events_nodup : (events.map EventRecord.id).Nodup
  /-- `event_topics`: the ID of an event and a topic, which are the key together. -/
  eventTopics : List (String × String)
  eventTopics_nodup : eventTopics.Nodup
  /-- `transactions`: the ID and the address of the sender. -/
  transactions : List (TxID × Address)
  blocks : List BlockRecord
  blocks_nodup : (blocks.map BlockRecord.id).Nodup
  blocks_height_nodup : (blocks.map BlockRecord.height).Nodup

/-! ### Topics -/

/-- `LENGTH_ID`. -/
def lengthID : ℕ := 64

/-- `EVENT_TOPIC_PREFIX.TX_ID`. -/
def txIDPrefix : String := "04"

/-- `EVENT_TOPIC_PREFIX.CCM_ID`. -/
def ccmIDPrefix : String := "05"

/-- The topics that are searched for: an ID with its prefixes, any other text as it is. -/
def searchedTopics (prefixes : List String) (t : String) : List String :=
  if t.length = lengthID then prefixes.map (· ++ t) else [t]

/-- The topics that are meant: the text itself, and an ID also with its prefixes. -/
def meantTopics (prefixes : List String) (t : String) : List String :=
  t :: if t.length = lengthID then prefixes.map (· ++ t) else []

/-- `topic.split(',')`. -/
def splitTopics (topic : String) : List String :=
  (topic.toList.splitOn ',').map String.ofList

theorem searchedTopics_subset (prefixes : List String) (t : String) :
    searchedTopics prefixes t ⊆ meantTopics prefixes t := by
  rw [searchedTopics, meantTopics]
  split
  · exact List.subset_cons_self _ _
  · exact List.Subset.refl _

/-! ### The query -/

/-- The filters. A text that is given is not empty, and a range has an end. -/
structure Query where
  transactionID : Option TxID
  senderAddress : Option Address
  /-- Topics, with commas between them. -/
  topic : Option String
  blockID : Option BlockID
  height : Option RangeParam
  timestamp : Option RangeParam
  /-- How `sort` and `order` arrange the rows. -/
  arrange : List EventRecord → List EventRecord
  transactionID_ne : transactionID ≠ some ""
  senderAddress_ne : senderAddress ≠ some ""
  topic_ne : topic ≠ some ""
  height_ne : height ≠ some (.range none none)
  timestamp_ne : timestamp ≠ some (.range none none)
  arrange_perm : ∀ l, (arrange l).Perm l

/-- What is thrown. -/
inductive EventError
  | validationException (message : String)
  | notFoundException (message : String)
  deriving DecidableEq, Repr

/-- An entry of the answer. -/
structure EventResponse where
  event : Option Event
  /-- The ID and the timestamp of the block. -/
  block : Option (BlockID × ℕ)
  height : ℕ
  deriving DecidableEq, Repr

/-- The answer, beside the rows that it is made from. -/
structure EventsAnswer where
  found : List EventRecord
  data : List EventResponse
  total : ℕ
  deriving DecidableEq, Repr

/-- `where`, or the entry of `propBetweens`, for a column. -/
def columnCondition : RangeParam → ℕ → Bool
  | .value n, x => x = n
  | .range none to?, x => x ≤ to?.getD 0
  | .range (some lower) none, x => lower ≤ x
  | .range (some lower) (some upper), x => lower ≤ x && x ≤ upper

section GetEvents

variable (tables : Tables) (q : Query)

/-- `normalizeRangeParam(params, property)`. -/
def checkRange (property : String) (param : Option RangeParam) : Except EventError Unit :=
  if param.all RangeParam.isValid then .ok ()
  else .error (.validationException
    ("From " ++ property ++ " cannot be greater than to " ++ property ++ "."))

/-- The conditions on `height`, with the height of the block that `blockID` names. -/
def heightConditions : Except EventError (List RangeParam) :=
  match q.blockID with
  | none => .ok q.height.toList
  | some blockID =>
    match tables.blocks.find? fun block => block.id = blockID with
    | none => .error (.notFoundException ("Invalid blockID: " ++ blockID))
    | some block =>
      -- `!block.height`
      if block.height = 0 then .error (.notFoundException ("Invalid blockID: " ++ blockID))
      else match q.height with
        | some (.value n) =>
          if n ≠ block.height then
            .error (.notFoundException ("Invalid combination of blockID: " ++ blockID ++
              " and height: " ++ toString n))
          else .ok [.value block.height]
        | some (.range from? to?) => .ok [.range from? to?, .value block.height]
        | none => .ok [.value block.height]

/-- The lists of `whereIn`, one for each join. -/
def whereIns : List (List String) :=
  (q.transactionID.map (searchedTopics [txIDPrefix])).toList ++
    (q.senderAddress.map fun address =>
      ((tables.transactions.filter fun tx => tx.2 = address).map Prod.fst).flatMap
        (searchedTopics [txIDPrefix])).toList ++
    (q.topic.map fun topic =>
      (splitTopics topic).flatMap (searchedTopics [txIDPrefix, ccmIDPrefix])).toList

/-- `events.id = eventTopics.eventID`. -/
def isTopicOf (e : EventRecord) (row : String × String) : Bool := row.1 = e.id

/-- `topic IN (values)`. -/
def topicIn (values : List String) (row : String × String) : Bool := row.2 ∈ values

/-- The conditions on the columns of `events`. -/
def columnsSatisfied (heights : List RangeParam) (e : EventRecord) : Bool :=
  heights.all (columnCondition · e.height) && q.timestamp.all (columnCondition · e.timestamp)

/-- The rows of the joined tables that satisfy all the conditions. -/
def joinedRows (heights : List RangeParam) : List (EventRecord × List (Option (String × String))) :=
  Join.selected isTopicOf tables.eventTopics ((whereIns tables q).reverse.map topicIn)
    (columnsSatisfied q heights) tables.events

/-- An entry of the answer; `eventsAt` answers for `getEventsByHeight`. -/
def respond (isPersistEvents : Bool) (eventsAt : ℕ → List Event) (e : EventRecord) :
    EventResponse where
  event := (if isPersistEvents then e.eventStr else none).or
    ((eventsAt e.height).find? fun entry => entry.index = e.index)
  block := (tables.blocks.find? fun block => block.height = e.height).map fun block =>
    (block.id, block.timestamp)
  height := e.height

/-- `getEvents(params)` without `limit` and `offset`. -/
def getEvents (isPersistEvents : Bool) (eventsAt : ℕ → List Event) :
    Except EventError EventsAnswer := do
  checkRange "height" q.height
  checkRange "timestamp" q.timestamp
  let heights ← heightConditions tables q
  let found := q.arrange ((joinedRows tables q heights).map Prod.fst)
  return { found
           data := found.map (respond tables isPersistEvents eventsAt)
           total := (joinedRows tables q heights).length }

end GetEvents

/-! ### What is meant -/

/-- The value satisfies the parameter. -/
def Selects : RangeParam → ℕ → Prop
  | .value n, x => x = n
  | .range from? to?, x => (∀ lower ∈ from?, lower ≤ x) ∧ ∀ upper ∈ to?, x ≤ upper

instance (p : RangeParam) (x : ℕ) : Decidable (Selects p x) := by
  cases p <;> unfold Selects <;> infer_instance

section Meaning

variable (tables : Tables) (q : Query) (e : EventRecord)

/-- The event has the topic. -/
def HasTopic (prefixes : List String) (t : String) : Prop :=
  ∃ topic ∈ meantTopics prefixes t, (e.id, topic) ∈ tables.eventTopics

instance (prefixes : List String) (t : String) : Decidable (HasTopic tables e prefixes t) :=
  inferInstanceAs (Decidable (∃ topic ∈ _, _))

/-- The event satisfies all the filters. -/
structure Satisfies : Prop where
  transactionID : ∀ id ∈ q.transactionID, HasTopic tables e [txIDPrefix] id
  senderAddress : ∀ address ∈ q.senderAddress, ∃ tx ∈ tables.transactions,
    tx.2 = address ∧ HasTopic tables e [txIDPrefix] tx.1
  topic : ∀ topic ∈ q.topic, ∃ t ∈ splitTopics topic,
    HasTopic tables e [txIDPrefix, ccmIDPrefix] t
  blockID : ∀ id ∈ q.blockID, ∃ block ∈ tables.blocks, block.id = id ∧ block.height = e.height
  height : ∀ p ∈ q.height, Selects p e.height
  timestamp : ∀ p ∈ q.timestamp, Selects p e.timestamp

instance decidableSatisfies : Decidable (Satisfies tables q e) :=
  decidable_of_iff ((∀ id ∈ q.transactionID, HasTopic tables e [txIDPrefix] id) ∧
      (∀ address ∈ q.senderAddress, ∃ tx ∈ tables.transactions,
        tx.2 = address ∧ HasTopic tables e [txIDPrefix] tx.1) ∧
      (∀ topic ∈ q.topic, ∃ t ∈ splitTopics topic,
        HasTopic tables e [txIDPrefix, ccmIDPrefix] t) ∧
      (∀ id ∈ q.blockID, ∃ block ∈ tables.blocks, block.id = id ∧ block.height = e.height) ∧
      (∀ p ∈ q.height, Selects p e.height) ∧ ∀ p ∈ q.timestamp, Selects p e.timestamp)
    ⟨fun ⟨h₁, h₂, h₃, h₄, h₅, h₆⟩ => ⟨h₁, h₂, h₃, h₄, h₅, h₆⟩,
      fun ⟨h₁, h₂, h₃, h₄, h₅, h₆⟩ => ⟨h₁, h₂, h₃, h₄, h₅, h₆⟩⟩

/-- The ranges are not upside down. -/
def Valid : Prop := q.height.all RangeParam.isValid ∧ q.timestamp.all RangeParam.isValid

/-- Every block with the ID is at another height than the single one that is given. -/
def NotFound : Prop :=
  ∃ id ∈ q.blockID, ∀ block ∈ tables.blocks, block.id = id →
    ∃ n, q.height = some (.value n) ∧ n ≠ block.height

/-- The result of a query is right: the events that satisfy the filters, each of them once, and
their number; an error only for a range that is upside down and for a block that is not found. -/
def IsRight : Except EventError EventsAnswer → Prop
  | .ok answer => answer.found.Perm (tables.events.filter fun e => Satisfies tables q e) ∧
    answer.total = (tables.events.filter fun e => Satisfies tables q e).length
  | .error (.validationException _) => ¬ Valid q
  | .error (.notFoundException _) => NotFound tables q

/-- The number of the topics of an event that are among those that are searched for. -/
def topicsAmong (values : List String) : ℕ :=
  tables.eventTopics.countP fun row => row.1 = e.id && row.2 ∈ values

/-- The block is refused for its height: it is at the height zero, and no other single height is
given. -/
def Refused : Prop :=
  ∃ block ∈ tables.blocks, q.blockID = some block.id ∧ block.height = 0 ∧
    ∀ n, q.height = some (.value n) → n = 0

end Meaning

/-! ### The conditions on the columns -/

section Columns

variable {tables : Tables} {q : Query} {e : EventRecord} {heights : List RangeParam}

theorem columnCondition_iff {p : RangeParam} (h : p ≠ .range none none) (x : ℕ) :
    columnCondition p x = true ↔ Selects p x := by
  match p with
  | .value n => simp [columnCondition, Selects]
  | .range none (some upper) => simp [columnCondition, Selects]
  | .range (some lower) none => simp [columnCondition, Selects]
  | .range (some lower) (some upper) => simp [columnCondition, Selects]
  | .range none none => exact absurd rfl h

theorem all_columnCondition {o : Option RangeParam} (h : o ≠ some (.range none none)) (x : ℕ) :
    o.all (columnCondition · x) = true ↔ ∀ p ∈ o, Selects p x := by
  cases o with
  | none => simp
  | some p => simp [columnCondition_iff fun heq => h (congrArg some heq)]

/-- The block with an ID is the one that is found. -/
theorem block_iff {id : BlockID} {block : BlockRecord}
    (hfind : (tables.blocks.find? fun b => b.id = id) = some block) (b : BlockRecord) :
    (b ∈ tables.blocks ∧ b.id = id) ↔ b = block := by
  have hid : block.id = id := by simpa using List.find?_some hfind
  constructor
  · rintro ⟨hb, rfl⟩
    have hself := find?_of_nodup tables.blocks_nodup hb
    exact Option.some.inj (hself.symm.trans hfind)
  · rintro rfl
    exact ⟨List.mem_of_find?_eq_some hfind, hid⟩

/-- The block is refused, or is at another height, or is accepted at its height. -/
theorem heightConditions_of_find {id : BlockID} (hid : q.blockID = some id) {block : BlockRecord}
    (hfind : (tables.blocks.find? fun b => b.id = id) = some block) :
    (Refused tables q ↔ block.height = 0 ∧ ∀ n, q.height = some (.value n) → n = 0) ∧
      (NotFound tables q ↔ ∃ n, q.height = some (.value n) ∧ n ≠ block.height) ∧
      ∀ e : EventRecord, (∀ id ∈ q.blockID, ∃ b ∈ tables.blocks, b.id = id ∧ b.height = e.height) ↔
        e.height = block.height := by
  have hblock := block_iff hfind
  refine ⟨⟨?_, ?_⟩, ⟨?_, ?_⟩, fun e => ⟨fun h => ?_, fun h => ?_⟩⟩
  · rintro ⟨b, hb, hb', hzero⟩
    obtain rfl := (hblock b).mp ⟨hb, Option.some.inj (hb'.symm.trans hid)⟩
    exact hzero
  · intro hzero
    obtain ⟨hmem, rfl⟩ := (hblock block).mpr rfl
    exact ⟨block, hmem, hid, hzero⟩
  · rintro ⟨id', hid', hall⟩
    obtain rfl := Option.some.inj (hid.symm.trans hid')
    obtain ⟨hmem, hblockID⟩ := (hblock block).mpr rfl
    exact hall block hmem hblockID
  · rintro ⟨n, hn, hne⟩
    refine ⟨id, hid, fun b hb hb' => ?_⟩
    obtain rfl := (hblock b).mp ⟨hb, hb'⟩
    exact ⟨n, hn, hne⟩
  · obtain ⟨b, hb, hb', hheight⟩ := h id hid
    obtain rfl := (hblock b).mp ⟨hb, hb'⟩
    exact hheight.symm
  · intro id' hid'
    obtain rfl := Option.some.inj (hid.symm.trans hid')
    obtain ⟨hmem, hblockID⟩ := (hblock block).mpr rfl
    exact ⟨block, hmem, hblockID, h.symm⟩

theorem heightConditions_ok (hheight : q.height ≠ some (.range none none))
    (h : heightConditions tables q = .ok heights) :
    ¬ Refused tables q ∧ ∀ e : EventRecord, heights.all (columnCondition · e.height) = true ↔
      (∀ p ∈ q.height, Selects p e.height) ∧
        ∀ id ∈ q.blockID, ∃ block ∈ tables.blocks, block.id = id ∧ block.height = e.height := by
  have hselects := fun e : EventRecord => all_columnCondition hheight e.height
  rw [heightConditions] at h
  match hid : q.blockID with
  | none =>
    rw [hid] at h
    obtain rfl := Except.ok.inj h
    refine ⟨fun ⟨_, _, hsome, _⟩ => by simp [hid] at hsome, fun e => ?_⟩
    rw [← hselects e]
    cases q.height <;> simp
  | some id =>
    rw [hid] at h
    match hfind : tables.blocks.find? fun block => block.id = id with
    | none => simp [hfind] at h
    | some block =>
      obtain ⟨hrefused, -, hblock⟩ := heightConditions_of_find hid hfind
      rw [hid] at hblock
      simp only [hfind] at h
      split at h
      · cases h
      · rename_i hzero
        refine ⟨fun href => hzero (hrefused.mp href).1, fun e => ?_⟩
        rw [hblock, ← hselects e]
        match hparam : q.height with
        | some (.value n) =>
          simp only [hparam] at h
          split at h
          · cases h
          · rename_i hn
            obtain rfl := Except.ok.inj h
            obtain rfl : n = block.height := not_not.mp hn
            simp [columnCondition]
        | some (.range _ _) =>
          simp only [hparam] at h
          obtain rfl := Except.ok.inj h
          simp [columnCondition]
        | none =>
          simp only [hparam] at h
          obtain rfl := Except.ok.inj h
          simp [columnCondition]

theorem heightConditions_error {error : EventError} (h : heightConditions tables q = .error error) :
    (∃ message, error = .notFoundException message) ∧ (NotFound tables q ↔ ¬ Refused tables q) ∧
      (NotFound tables q → ∀ e, ¬ Satisfies tables q e) := by
  rw [heightConditions] at h
  match hid : q.blockID with
  | none =>
    rw [hid] at h
    cases h
  | some id =>
    rw [hid] at h
    match hfind : tables.blocks.find? fun block => block.id = id with
    | none =>
      simp only [hfind] at h
      have hnone : ∀ block ∈ tables.blocks, block.id ≠ id := by simpa using hfind
      refine ⟨⟨_, (Except.error.inj h).symm⟩, iff_of_true ?_ ?_, fun _ e he => ?_⟩
      · exact ⟨id, hid, fun block hblock heq => absurd heq (hnone block hblock)⟩
      · rintro ⟨block, hblock, hsome, -⟩
        exact hnone block hblock (Option.some.inj (hsome.symm.trans hid))
      · obtain ⟨block, hblock, heq, -⟩ := he.blockID id hid
        exact hnone block hblock heq
    | some block =>
      obtain ⟨hrefused, hnotFound, hblock⟩ := heightConditions_of_find hid hfind
      simp only [hfind] at h
      have hnone : NotFound tables q → ∀ e, ¬ Satisfies tables q e := by
        intro hne e he
        obtain ⟨n, hn, hne⟩ := hnotFound.mp hne
        have hvalue : e.height = n := he.height _ hn
        exact hne (hvalue.symm.trans ((hblock e).mp he.blockID))
      split at h
      · rename_i hzero
        refine ⟨⟨_, (Except.error.inj h).symm⟩, ?_, hnone⟩
        rw [hnotFound, hrefused, and_iff_right hzero, hzero]
        simp only [not_forall, exists_prop]
      · rename_i hzero
        match hparam : q.height with
        | some (.value n) =>
          simp only [hparam] at h
          split at h
          · rename_i hn
            refine ⟨⟨_, (Except.error.inj h).symm⟩, iff_of_true ?_ ?_, hnone⟩
            · exact hnotFound.mpr ⟨n, hparam, hn⟩
            · exact fun href => hzero (hrefused.mp href).1
          · cases h
        | some (.range _ _) =>
          simp only [hparam] at h
          cases h
        | none =>
          simp only [hparam] at h
          cases h

end Columns

/-! ### The joins -/

section Joins

variable {tables : Tables} {q : Query} {e : EventRecord} {heights : List RangeParam}

theorem map_fst_joinedRows (heights : List RangeParam) :
    (joinedRows tables q heights).map Prod.fst =
      (tables.events.filter (columnsSatisfied q heights)).flatMap fun e =>
        List.replicate ((whereIns tables q).map (topicsAmong tables e)).prod e := by
  rw [joinedRows, Join.map_fst_selected]
  refine List.flatMap_congr fun e _ => ?_
  rw [Join.multiplicity, List.map_map, List.map_reverse, List.prod_reverse]
  rfl

theorem topicsAmong_ne_zero {values : List String} :
    topicsAmong tables e values ≠ 0 ↔ ∃ topic ∈ values, (e.id, topic) ∈ tables.eventTopics := by
  rw [topicsAmong, ← Nat.pos_iff_ne_zero, List.countP_pos_iff]
  constructor
  · rintro ⟨⟨id, topic⟩, hrow, htopic⟩
    simp only [Bool.and_eq_true, decide_eq_true_eq] at htopic
    obtain ⟨rfl, htopic⟩ := htopic
    exact ⟨topic, htopic, hrow⟩
  · rintro ⟨topic, htopic, hrow⟩
    exact ⟨(e.id, topic), hrow, by simpa using htopic⟩

theorem hasTopic_of_searched {prefixes : List String} {t topic : String}
    (htopic : topic ∈ searchedTopics prefixes t) (hrow : (e.id, topic) ∈ tables.eventTopics) :
    HasTopic tables e prefixes t :=
  ⟨topic, searchedTopics_subset prefixes t htopic, hrow⟩

/-- An event with a topic for each join satisfies the filters that are joined. -/
theorem satisfies_of_topics
    (hcolumns : (∀ p ∈ q.height, Selects p e.height) ∧
      (∀ id ∈ q.blockID, ∃ block ∈ tables.blocks, block.id = id ∧ block.height = e.height) ∧
      ∀ p ∈ q.timestamp, Selects p e.timestamp)
    (htopics : ∀ values ∈ whereIns tables q, topicsAmong tables e values ≠ 0) :
    Satisfies tables q e where
  transactionID id hid := by
    obtain ⟨topic, htopic, hrow⟩ := topicsAmong_ne_zero.mp
      (htopics (searchedTopics [txIDPrefix] id) (by simp [whereIns, Option.mem_def.mp hid]))
    exact hasTopic_of_searched htopic hrow
  senderAddress address haddress := by
    obtain ⟨topic, htopic, hrow⟩ := topicsAmong_ne_zero.mp
      (htopics _ (by
        rw [whereIns, Option.mem_def.mp haddress]
        exact List.mem_append_left _ (List.mem_append_right _ List.mem_cons_self)))
    obtain ⟨id, hid, htopic⟩ := List.mem_flatMap.mp htopic
    obtain ⟨tx, htx, rfl⟩ := List.mem_map.mp hid
    rw [List.mem_filter, decide_eq_true_eq] at htx
    exact ⟨tx, htx.1, htx.2, hasTopic_of_searched htopic hrow⟩
  topic topics htopics' := by
    obtain ⟨topic, htopic, hrow⟩ := topicsAmong_ne_zero.mp
      (htopics _ (by
        rw [whereIns, Option.mem_def.mp htopics']
        exact List.mem_append_right _ List.mem_cons_self))
    obtain ⟨t, ht, htopic⟩ := List.mem_flatMap.mp htopic
    exact ⟨t, ht, hasTopic_of_searched htopic hrow⟩
  blockID := hcolumns.2.1
  height := hcolumns.1
  timestamp := hcolumns.2.2

/-- The found rows are right if and only if each event that is meant has one topic for each
join. -/
theorem joinedRows_perm_iff (hheights : ∀ e : EventRecord,
    heights.all (columnCondition · e.height) = true ↔ (∀ p ∈ q.height, Selects p e.height) ∧
      ∀ id ∈ q.blockID, ∃ block ∈ tables.blocks, block.id = id ∧ block.height = e.height) :
    ((joinedRows tables q heights).map Prod.fst).Perm
        (tables.events.filter fun e => Satisfies tables q e) ↔
      ∀ e ∈ tables.events, Satisfies tables q e →
        ∀ values ∈ whereIns tables q, topicsAmong tables e values = 1 := by
  have hcolumns : ∀ e : EventRecord, columnsSatisfied q heights e = true ↔
      (∀ p ∈ q.height, Selects p e.height) ∧
        (∀ id ∈ q.blockID, ∃ block ∈ tables.blocks, block.id = id ∧ block.height = e.height) ∧
        ∀ p ∈ q.timestamp, Selects p e.timestamp := by
    intro e
    rw [columnsSatisfied, Bool.and_eq_true, hheights, all_columnCondition q.timestamp_ne, and_assoc]
  have hfilter : (tables.events.filter fun e => Satisfies tables q e) =
      (tables.events.filter (columnsSatisfied q heights)).filter fun e => Satisfies tables q e := by
    rw [List.filter_filter]
    refine List.filter_congr fun e _ => ?_
    by_cases h : Satisfies tables q e
    · simp [h, (hcolumns e).mpr ⟨h.height, h.blockID, h.timestamp⟩]
    · simp [h]
  have hnodup : (tables.events.filter (columnsSatisfied q heights)).Nodup :=
    (List.Nodup.of_map _ tables.events_nodup).filter _
  -- A row comes once for each choice of topics, so the product of their numbers has to be one.
  rw [map_fst_joinedRows, hfilter, Join.flatMap_replicate_perm_iff hnodup]
  constructor
  · intro h e he hsatisfies
    have hmem : e ∈ tables.events.filter (columnsSatisfied q heights) :=
      List.mem_filter.mpr
        ⟨he, (hcolumns e).mpr ⟨hsatisfies.height, hsatisfies.blockID, hsatisfies.timestamp⟩⟩
    have hone := h e hmem
    rw [if_pos (decide_eq_true hsatisfies), Join.prod_eq_one_iff] at hone
    exact fun values hvalues => hone _ (List.mem_map_of_mem hvalues)
  · intro h e he
    rw [List.mem_filter, hcolumns] at he
    by_cases hsatisfies : Satisfies tables q e
    · rw [if_pos (decide_eq_true hsatisfies), Join.prod_eq_one_iff, List.forall_mem_map]
      exact h e he.1 hsatisfies
    · rw [if_neg (by simpa using hsatisfies)]
      by_contra hne
      refine hsatisfies (satisfies_of_topics he.2 fun values hvalues hzero => ?_)
      have hmem : topicsAmong tables e values ∈ (whereIns tables q).map (topicsAmong tables e) :=
        List.mem_map_of_mem hvalues
      rw [hzero] at hmem
      exact hne (Join.prod_eq_zero_of_mem hmem)

end Joins

/-- **The answer is right** exactly if no block is refused for its height, and every event that
satisfies the filters has one of the topics that are searched for, and only one, for each of the
filters that are joined. -/
theorem getEvents_right_iff (tables : Tables) (q : Query) (isPersistEvents : Bool)
    (eventsAt : ℕ → List Event) :
    IsRight tables q (getEvents tables q isPersistEvents eventsAt) ↔
      (Valid q → ¬ Refused tables q ∧ ∀ e ∈ tables.events, Satisfies tables q e →
        ∀ values ∈ whereIns tables q, topicsAmong tables e values = 1) := by
  by_cases hvalid : Valid q
  · rw [getEvents, checkRange, checkRange, if_pos hvalid.1, if_pos hvalid.2]
    refine Iff.trans ?_ (imp_iff_right hvalid).symm
    match hheights : heightConditions tables q with
    | .ok heights =>
      obtain ⟨hrefused, hcolumns⟩ := heightConditions_ok q.height_ne hheights
      rw [and_iff_right hrefused, ← joinedRows_perm_iff hcolumns]
      change (_ ∧ (joinedRows tables q heights).length = _) ↔ _
      rw [List.Perm.congr_left (q.arrange_perm _)]
      refine and_iff_left_of_imp fun hperm => ?_
      rw [← hperm.length_eq, List.length_map]
    | .error error =>
      obtain ⟨⟨message, rfl⟩, hiff, hnone⟩ := heightConditions_error hheights
      change NotFound tables q ↔ _
      constructor
      · intro h
        exact ⟨hiff.mp h, fun e _ he => absurd he (hnone h e)⟩
      · exact fun h => hiff.mpr h.1
  · refine iff_of_true ?_ fun h => absurd h hvalid
    rw [getEvents, checkRange, checkRange]
    by_cases hheight : q.height.all RangeParam.isValid = true
    · have htimestamp : ¬ q.timestamp.all RangeParam.isValid = true := fun h => hvalid ⟨hheight, h⟩
      rw [if_pos hheight, if_neg htimestamp]
      exact hvalid
    · rw [if_neg hheight]
      exact hvalid

/-- One event with two topics. -/
def twoTopics : Tables where
  events := [⟨"e", 1, 0, 10, none⟩]
  events_nodup := by decide
  eventTopics := [("e", "x"), ("e", "y")]
  eventTopics_nodup := by decide
  transactions := []
  blocks := [⟨"b", 1, 10⟩]
  blocks_nodup := by decide
  blocks_height_nodup := by decide

/-- No range is given, not even one without ends. -/
theorem none_ne_range : (none : Option RangeParam) ≠ some (.range none none) := by decide

/-- A query for either topic. -/
def eitherTopic : Query where
  transactionID := none
  senderAddress := none
  topic := some "x,y"
  blockID := none
  height := none
  timestamp := none
  arrange := id
  transactionID_ne := by decide
  senderAddress_ne := by decide
  topic_ne := by decide
  height_ne := none_ne_range
  timestamp_ne := none_ne_range
  arrange_perm _ := .refl _

/-- The event is answered twice. -/
theorem event_answered_twice :
    (getEvents twoTopics eitherTopic false fun _ => []).toOption.map
        (fun answer => (answer.found.map EventRecord.id, answer.total)) = some (["e", "e"], 2) ∧
      ¬ IsRight twoTopics eitherTopic (getEvents twoTopics eitherTopic false fun _ => []) := by
  refine ⟨by decide, fun h => ?_⟩
  have hlength : (twoTopics.events.filter fun e => Satisfies twoTopics eitherTopic e).length ≤ 1 :=
    List.length_filter_le _ _
  have htotal : 2 = (twoTopics.events.filter fun e => Satisfies twoTopics eitherTopic e).length :=
    h.2
  omega

end EventQuery

end SwaptoshiService
