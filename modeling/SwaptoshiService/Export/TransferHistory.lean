import Mathlib.Algebra.BigOperators.Group.List.Basic
import Mathlib.Algebra.Ring.Int.Defs
import SwaptoshiService.Export.Chronology
import SwaptoshiService.Lib.Keyed

/-!
# The history of token transfers

Whether the exported entries of a token transfer add up to what it changes. The node emits a fixed
list of events for a transfer (`Transfer.events`), and the export sees those that have the account
among their topics. The entry of the transfer itself is made for the `token:lock` event, and that
one has **only the sender** among its topics: the account that receives the tokens gets no entry. A
transfer to oneself is to get a second entry without a fee, but the fee is set to `null`, which no
`BigInt` is made of: **the whole export throws**.

`reconciles_iff` says when the entries add up all the same; the fee that the generator of the block
gets is an entry of the transfer, too.
-/

namespace SwaptoshiService

namespace Export

/-- The length of an address. -/
def lengthAddress : ℕ := 41

/-- A successful `token:transfer` transaction and the block it is in. The part of the fee that is
not burnt goes to the generator of the block. -/
structure Transfer where
  id : String
  id_length : id.length = lengthID
  sender : Sender
  senderPublicKey : Option String := none
  recipientAddress : String
  recipientPublicKey : Option String := none
  tokenID : String
  amount : ℕ
  data : Option String := none
  burntAmount : ℕ
  generatorAmount : ℕ
  block : BlockInfo
  generatorAddress : String

namespace Transfer

/-- The fee. -/
def fee (tx : Transfer) : ℕ := tx.burntAmount + tx.generatorAmount

/-- The transaction as the indexer answers it. -/
def toTransaction (tx : Transfer) : Transaction where
  id := tx.id
  moduleCommand := tokenTransfer
  fee := some tx.fee
  executionStatus := "successful"
  sender := tx.sender
  senderPublicKey := tx.senderPublicKey
  params :=
    { tokenID := some tx.tokenID
      amount := some tx.amount
      recipientAddress := some tx.recipientAddress
      data := tx.data }
  block := tx.block
  recipientPublicKey := tx.recipientPublicKey

/-- An event of the transaction. -/
def event (tx : Transfer) (data : EventData) (otherTopics : List String) : Event :=
  ⟨data, txIDPrefix ++ tx.id, otherTopics, tx.block⟩

/-- The events of the transaction: the fee is locked, the amount is transferred, the fee is
unlocked, and a part of it is transferred to the generator and the rest is burnt. -/
def events (tx : Transfer) : List Event :=
  [tx.event (.lock tx.sender.address tx.fee) [tx.sender.address],
    tx.event (.transfer tx.sender.address tx.recipientAddress tx.amount)
      [tx.sender.address, tx.recipientAddress],
    tx.event (.other "token" "unlock") [tx.sender.address],
    tx.event (.transfer tx.sender.address tx.generatorAddress tx.generatorAmount)
      [tx.sender.address, tx.generatorAddress],
    tx.event (.other "token" "burn") [tx.sender.address],
    tx.event (.generatorFeeProcessed tx.sender.address tx.generatorAddress tx.generatorAmount)
      [tx.sender.address, tx.generatorAddress],
    tx.event (.other "token" "commandExecutionResult") []]

/-- What the address receives by the transfer. -/
def received (tx : Transfer) (address : String) : ℕ :=
  if address = tx.recipientAddress then tx.amount else 0

/-- What the transfer changes for the address. -/
def balanceChange (tx : Transfer) (address : String) : ℤ :=
  tx.received address - if address = tx.sender.address then (tx.amount + tx.fee : ℤ) else 0

/-- What the address gets of the fee, as the generator of the block. -/
def generatorShare (tx : Transfer) (address : String) : ℕ :=
  if address = tx.generatorAddress then tx.generatorAmount else 0

end Transfer

/-- The events of the address. -/
def eventsOf (address : String) (history : List Transfer) : List Event :=
  (history.flatMap Transfer.events).filter fun e => address ∈ e.topics

/-- `Number(amount) + Number(fee)`. -/
def Entry.total (entry : Entry) : ℤ := entry.amount.getD 0 + entry.fee.getD 0

/-- The history of the address is exported, and the entries of every transfer add up. -/
def Reconciles (env : Env) (sortedBlocks : List Block) (history : List Transfer)
    (address : String) : Prop :=
  ∃ entries, getEntriesByChronology env address sortedBlocks
      (history.map Transfer.toTransaction) (eventsOf address history) = .ok entries ∧
    ∀ tx ∈ history, ((entries.filter fun entry => entry.transactionID = some tx.id).map
      Entry.total).sum = tx.balanceChange address

section Reconciliation

variable {env : Env} {address : String} {sortedBlocks : List Block} {history : List Transfer}
  {tx : Transfer} {e : Event} {i : ℕ}

/-! ### What is seen of an entry -/

/-- The transaction, the command, the amount and the fee of an entry. -/
def Entry.outline (entry : Entry) : Option String × Option String × Option ℤ × Option ℤ :=
  (entry.transactionID, entry.moduleCommand, entry.amount, entry.fee)

/-- The entry for the sender. -/
def Transfer.sentOutline (tx : Transfer) : Option String × Option String × Option ℤ × Option ℤ :=
  (some tx.id, some tokenTransfer, some (-tx.amount), some (-tx.fee))

/-- The entry for the generator of the block. -/
def Transfer.generatorOutline (tx : Transfer) :
    Option String × Option String × Option ℤ × Option ℤ :=
  (some tx.id, none, some tx.generatorAmount, none)

/-- The entries for an event of the transfer. -/
def Transfer.eventOutlines (tx : Transfer) (address : String) (e : Event) :
    List (Option String × Option String × Option ℤ × Option ℤ) :=
  match e.data with
  | .lock _ _ => [tx.sentOutline]
  | .generatorFeeProcessed _ _ _ =>
    if tx.generatorShare address = 0 then [] else [tx.generatorOutline]
  | _ => []

/-- The entries of the transfer. -/
def Transfer.outlines (tx : Transfer) (address : String) :
    List (Option String × Option String × Option ℤ × Option ℤ) :=
  (if address = tx.sender.address then [tx.sentOutline] else []) ++
    if tx.generatorShare address = 0 then [] else [tx.generatorOutline]

theorem topic0_of_mem_events (he : e ∈ tx.events) : e.topic0 = txIDPrefix ++ tx.id := by
  have hall : ∀ e ∈ tx.events, e.topic0 = txIDPrefix ++ tx.id := by
    simp [Transfer.events, Transfer.event]
  exact hall e he

/-- An address is no topic of a transaction. -/
theorem ne_topic0 (haddress : address.length = lengthAddress) (tx : Transfer) :
    address ≠ txIDPrefix ++ tx.id := by
  rintro rfl
  rw [String.length_append, tx.id_length] at haddress
  exact absurd haddress (by decide)

/-- The events of the transfer that the address sees yield the entries of the transfer. -/
theorem flatMap_eventOutlines (haddress : address.length = lengthAddress) (tx : Transfer) :
    ((tx.events.filter fun e => address ∈ e.topics).flatMap (tx.eventOutlines address)) =
      tx.outlines address := by
  have htopic := ne_topic0 haddress tx
  rw [Transfer.outlines]
  -- The sender sees all of the events; others see one or two of them, or none.
  by_cases hsender : address = tx.sender.address
  · simp [Transfer.events, Transfer.event, Event.topics, Transfer.eventOutlines, ← hsender, htopic]
  by_cases hgenerator : address = tx.generatorAddress
  · by_cases hrecipient : address = tx.recipientAddress
    · simp [Transfer.events, Transfer.event, Event.topics, Transfer.eventOutlines, hsender,
        ← hgenerator, ← hrecipient, htopic]
    · simp [Transfer.events, Transfer.event, Event.topics, Transfer.eventOutlines, hsender,
        ← hgenerator, hrecipient, htopic]
  · have hshare : tx.generatorShare address = 0 := if_neg hgenerator
    by_cases hrecipient : address = tx.recipientAddress
    · simp [Transfer.events, Transfer.event, Event.topics, Transfer.eventOutlines, hsender,
        hgenerator, ← hrecipient, htopic, hshare]
    · simp [Transfer.events, Transfer.event, Event.topics, hsender, hgenerator, hrecipient, htopic,
        hshare]

/-! ### One event -/

theorem find?_toTransaction (hids : (history.map Transfer.id).Nodup) (htx : tx ∈ history) :
    ((history.map Transfer.toTransaction).find? fun t => some t.id = some tx.id) =
      some tx.toTransaction := by
  have hids' : (history.map fun tx => some tx.id).Nodup :=
    nodup_map_comp (fun _ _ h => Option.some.inj h) hids
  have hkeys : ((history.map Transfer.toTransaction).map fun t => some t.id).Nodup := by
    rw [List.map_map]
    exact hids'
  exact find?_of_nodup hkeys (List.mem_map_of_mem htx)

theorem normalizeTransactionAmount_sent (hrecipient : address ≠ tx.recipientAddress)
    (currentChainID : String) :
    normalizeTransactionAmount address tx.toTransaction currentChainID =
      .ok (some (-(tx.amount : ℤ))) := by
  have hcommand : ¬ tokenTransfer = tokenTransferCrossChain := by decide
  simp [normalizeTransactionAmount, Transfer.toTransaction, bigInt, bind, Except.bind, pure,
    Except.pure, hcommand, hrecipient]

theorem normalizeTransactionFee_sent (hrecipient : address ≠ tx.recipientAddress) :
    normalizeTransactionFee address tx.toTransaction = .ok (-(tx.fee : ℤ)) := by
  simp [normalizeTransactionFee, Transfer.toTransaction, bigInt, bind, Except.bind, pure,
    Except.pure, hrecipient]

/-- The command is that of a transfer on one chain. -/
theorem not_crossChain : ¬ tx.toTransaction.moduleCommand = tokenTransferCrossChain := by
  change ¬ tokenTransfer = tokenTransferCrossChain
  decide

/-- The event that locks the fee yields the entry for the sender. -/
theorem lockEntries_sent (hrecipient : address ≠ tx.recipientAddress)
    (hself : tx.sender.address ≠ tx.recipientAddress) (env : Env) (i : ℕ) :
    ∃ entries, lockEntries env address i tx.toTransaction = .ok entries ∧
      entries.map Entry.outline = [tx.sentOutline] := by
  have hcheck : ¬ checkIfSelfTokenTransfer tx.toTransaction :=
    fun h => hself (Option.some.inj h.2)
  rw [lockEntries, if_neg not_crossChain, formatTransaction,
    normalizeTransactionAmount_sent hrecipient, normalizeTransactionFee_sent hrecipient]
  simp only [bind, Except.bind, pure, Except.pure, if_neg hcheck]
  exact ⟨_, rfl, rfl⟩

/-- Of a transfer to oneself the event yields nothing but an error. -/
theorem lockEntries_self (hself : tx.sender.address = tx.recipientAddress) (env : Env) (i : ℕ)
    (entries : List Entry) : lockEntries env address i tx.toTransaction ≠ .ok entries := by
  have hcheck : checkIfSelfTokenTransfer tx.toTransaction := ⟨rfl, congrArg some hself⟩
  rw [lockEntries, if_neg not_crossChain]
  intro hlock
  obtain ⟨entry, -, hlock⟩ := bind_eq_ok_iff.mp hlock
  rw [if_pos hcheck] at hlock
  obtain ⟨dupEntry, hdup, -⟩ := bind_eq_ok_iff.mp hlock
  -- The second entry needs `BigInt(null)`.
  obtain ⟨amount, -, hfee⟩ := bind_eq_ok_iff.mp hdup
  obtain ⟨fee, hfee, -⟩ := bind_eq_ok_iff.mp hfee
  obtain ⟨missing, hmissing, -⟩ := bind_eq_ok_iff.mp hfee
  exact absurd hmissing (by simp [bigInt, throw, throwThe, MonadExceptOf.throw])

/-- The event of the fee yields the entry for the generator. -/
theorem getGeneratorFeeEntries_transfer {block : Option Block} (hblock : block.isSome = true)
    (env : Env) (i : ℕ) :
    ∃ entries, getGeneratorFeeEntries env i address tx.sender.address tx.generatorAddress
        tx.generatorAmount tx.toTransaction block = .ok entries ∧
      entries.map Entry.outline =
        if tx.generatorShare address = 0 then [] else [tx.generatorOutline] := by
  obtain ⟨block, rfl⟩ := Option.isSome_iff_exists.mp hblock
  rw [getGeneratorFeeEntries, Transfer.generatorShare]
  by_cases hgenerator : address = tx.generatorAddress
  · rw [if_neg (not_not.mpr hgenerator.symm), if_pos hgenerator]
    by_cases hzero : tx.generatorAmount = 0
    · rw [if_pos (by exact_mod_cast hzero), if_pos hzero]
      exact ⟨[], rfl, rfl⟩
    · rw [if_neg (by exact_mod_cast hzero), if_neg hzero]
      exact ⟨_, rfl, rfl⟩
  · rw [if_pos (Ne.symm hgenerator), if_neg hgenerator, if_pos rfl]
    exact ⟨[], rfl, rfl⟩

/-- What an event that the address sees yields. -/
theorem eventEntries_transfer (haddress : address.length = lengthAddress)
    (hids : (history.map Transfer.id).Nodup) (htx : tx ∈ history) (he : e ∈ tx.events)
    (hsees : address ∈ e.topics) (hself : tx.sender.address ≠ tx.recipientAddress)
    (hblock : (blockOf env sortedBlocks tx.block.id).isSome = true) (sortedEvents : List Event)
    (i : ℕ) :
    ∃ entries, eventEntries env address sortedBlocks (history.map Transfer.toTransaction)
        sortedEvents i e = .ok entries ∧
      entries.map Entry.outline = tx.eventOutlines address e := by
  rw [eventEntries_of_transaction tx.id_length (topic0_of_mem_events he)
    (find?_toTransaction hids htx)]
  simp only [Transfer.events, List.mem_cons, List.not_mem_nil, or_false] at he
  rcases he with rfl | rfl | rfl | rfl | rfl | rfl | rfl
  · -- Only the sender sees the first event.
    have hsender : address = tx.sender.address := by
      simpa [Transfer.event, Event.topics, ne_topic0 haddress tx] using hsees
    obtain ⟨entries, hentries, houtline⟩ :=
      lockEntries_sent (hsender ▸ hself : address ≠ tx.recipientAddress) hself env i
    refine ⟨entries, ?_, houtline⟩
    change (lockEntries env address i tx.toTransaction >>= fun entries => pure (entries ++ [])) = _
    rw [hentries]
    exact congrArg Except.ok (List.append_nil entries)
  · exact ⟨[], rfl, rfl⟩
  · exact ⟨[], rfl, rfl⟩
  · exact ⟨[], rfl, rfl⟩
  · exact ⟨[], rfl, rfl⟩
  · obtain ⟨entries, hentries, houtline⟩ := getGeneratorFeeEntries_transfer hblock env i
    refine ⟨entries, ?_, houtline⟩
    change (getGeneratorFeeEntries env i address tx.sender.address tx.generatorAddress
      tx.generatorAmount tx.toTransaction (blockOf env sortedBlocks tx.block.id) >>=
        fun entries => pure (entries ++ [])) = _
    rw [hentries]
    exact congrArg Except.ok (List.append_nil entries)
  · exact ⟨[], rfl, rfl⟩

/-! ### The history -/

/-- The entries for an event of the history. -/
def historyOutlines (history : List Transfer) (address : String) (e : Event) :
    List (Option String × Option String × Option ℤ × Option ℤ) :=
  (history.find? fun tx => txIDPrefix ++ tx.id = e.topic0).elim [] fun tx =>
    tx.eventOutlines address e

theorem historyOutlines_eq (hids : (history.map Transfer.id).Nodup) (htx : tx ∈ history)
    (he : e ∈ tx.events) : historyOutlines history address e = tx.eventOutlines address e := by
  have hkeys : (history.map fun tx => txIDPrefix ++ tx.id).Nodup :=
    nodup_map_comp (fun _ _ h => (String.append_right_inj txIDPrefix).mp h) hids
  rw [historyOutlines, topic0_of_mem_events he, find?_of_nodup hkeys htx]
  rfl

theorem flatMap_historyOutlines (haddress : address.length = lengthAddress)
    (hids : (history.map Transfer.id).Nodup) :
    (eventsOf address history).flatMap (historyOutlines history address) =
      history.flatMap (Transfer.outlines · address) := by
  rw [eventsOf, List.filter_flatMap, List.flatMap_assoc]
  refine List.flatMap_congr fun tx htx => ?_
  rw [← flatMap_eventOutlines haddress]
  refine List.flatMap_congr fun e he => ?_
  exact historyOutlines_eq hids htx (List.mem_filter.mp he).1

/-- What the entries of a transfer add up to. -/
theorem sum_outlines (tx : Transfer) (address : String) :
    ((tx.outlines address).map fun o => o.2.2.1.getD 0 + o.2.2.2.getD 0).sum =
      (tx.generatorShare address : ℤ) -
        if address = tx.sender.address then (tx.amount + tx.fee : ℤ) else 0 := by
  have hsent : ((if address = tx.sender.address then [tx.sentOutline] else []).map
      fun o => o.2.2.1.getD 0 + o.2.2.2.getD 0).sum =
        -if address = tx.sender.address then (tx.amount + tx.fee : ℤ) else 0 := by
    split_ifs
    · exact (add_zero _).trans (neg_add _ _).symm
    · rfl
  have hshare : ((if tx.generatorShare address = 0 then [] else [tx.generatorOutline]).map
      fun o => o.2.2.1.getD 0 + o.2.2.2.getD 0).sum = (tx.generatorShare address : ℤ) := by
    rw [Transfer.generatorShare]
    split_ifs with hgenerator hzero
    · rw [hzero]
      rfl
    · exact (add_zero _).trans (add_zero _)
    · rfl
    · contradiction
  rw [Transfer.outlines, List.map_append, List.sum_append, hsent, hshare]
  omega

theorem fst_of_mem_outlines {o : Option String × Option String × Option ℤ × Option ℤ}
    (ho : o ∈ tx.outlines address) : o.1 = some tx.id := by
  rw [Transfer.outlines, List.mem_append] at ho
  rcases ho with ho | ho
  · split_ifs at ho
    · rw [List.mem_singleton.mp ho]
      rfl
    · exact absurd ho List.not_mem_nil
  · split_ifs at ho
    · exact absurd ho List.not_mem_nil
    · rw [List.mem_singleton.mp ho]
      rfl

theorem nodup_outlines (tx : Transfer) (address : String) : (tx.outlines address).Nodup := by
  rw [Transfer.outlines]
  split_ifs <;> simp [Transfer.sentOutline, Transfer.generatorOutline]

/-- **The entries of the transfers**, where none is a transfer to oneself. -/
theorem exists_entries (haddress : address.length = lengthAddress)
    (hids : (history.map Transfer.id).Nodup)
    (hblocks : ∀ tx ∈ history, (blockOf env sortedBlocks tx.block.id).isSome = true)
    (hself : ∀ tx ∈ history, tx.sender.address ≠ tx.recipientAddress) :
    ∃ entries, getEntriesByChronology env address sortedBlocks
        (history.map Transfer.toTransaction) (eventsOf address history) = .ok entries ∧
      ∀ tx ∈ history, ((entries.filter fun entry => entry.transactionID = some tx.id).map
        Entry.total).sum = (tx.generatorShare address : ℤ) -
          if address = tx.sender.address then (tx.amount + tx.fee : ℤ) else 0 := by
  have hevents : ∀ p ∈ (eventsOf address history).zipIdx, ∃ entries,
      eventEntries env address sortedBlocks (history.map Transfer.toTransaction)
        (eventsOf address history) p.2 p.1 = .ok entries ∧
      entries.map Entry.outline = historyOutlines history address p.1 := by
    intro p hp
    have hp' : p.1 ∈ eventsOf address history := List.fst_mem_of_mem_zipIdx hp
    rw [eventsOf, List.mem_filter, decide_eq_true_eq] at hp'
    obtain ⟨tx, htx, he⟩ := List.mem_flatMap.mp hp'.1
    rw [historyOutlines_eq hids htx he]
    exact eventEntries_transfer haddress hids htx he hp'.2 (hself tx htx) (hblocks tx htx) _ _
  obtain ⟨entriesOf, hmap, houtlines⟩ := exists_mapM_eq_ok_flatten hevents
  have hzip : (eventsOf address history).zipIdx.flatMap
      (fun p => historyOutlines history address p.1) =
        history.flatMap (Transfer.outlines · address) := by
    rw [← flatMap_historyOutlines haddress hids, ← List.flatMap_map, List.zipIdx_map_fst]
  rw [hzip] at houtlines
  -- The entries of a transfer differ from each other, so no duplicate is dropped.
  refine ⟨dropDuplicatesDeep entriesOf.flatten, bind_eq_ok_iff.mpr ⟨entriesOf, hmap, rfl⟩, ?_⟩
  intro tx htx
  -- What the entries of the transfer look like.
  have hpart : (entriesOf.flatten.filter fun entry => entry.transactionID = some tx.id).map
      Entry.outline = tx.outlines address := by
    have hfilter : (entriesOf.flatten.filter fun entry => entry.transactionID = some tx.id).map
        Entry.outline =
          (entriesOf.flatten.map Entry.outline).filter fun o => o.1 = some tx.id := by
      rw [List.filter_map]
      rfl
    have hids' : (history.map fun tx => some tx.id).Nodup :=
      nodup_map_comp (fun _ _ h => Option.some.inj h) hids
    rw [hfilter, houtlines]
    exact filter_flatMap_of_nodup (fun tx _ _ => fst_of_mem_outlines) hids' htx
  have hnodup : (entriesOf.flatten.filter fun entry => entry.transactionID = some tx.id).Nodup :=
    List.Nodup.of_map Entry.outline (hpart ▸ nodup_outlines tx address)
  have htotal : Entry.total = (fun o => o.2.2.1.getD 0 + o.2.2.2.getD 0) ∘ Entry.outline := rfl
  rw [dropDuplicatesDeep, filter_eraseDups, eraseDups_eq_self hnodup, htotal, ← List.map_map, hpart,
    sum_outlines]

/-- Where the history is exported, the account has sent itself nothing. -/
theorem ne_of_getEntriesByChronology (hids : (history.map Transfer.id).Nodup)
    (hparty : ∀ tx ∈ history, address = tx.sender.address ∨ address = tx.recipientAddress)
    {entries : List Entry} (hentries : getEntriesByChronology env address sortedBlocks
      (history.map Transfer.toTransaction) (eventsOf address history) = .ok entries)
    (htx : tx ∈ history) : tx.sender.address ≠ tx.recipientAddress := by
  intro hself
  have hsender : address = tx.sender.address := by
    rcases hparty tx htx with h | h
    · exact h
    · rw [h, hself]
  -- The export works on the event that locks the fee.
  have hlock : tx.event (.lock tx.sender.address tx.fee) [tx.sender.address] ∈
      eventsOf address history := by
    rw [eventsOf, List.mem_filter]
    refine ⟨List.mem_flatMap.mpr ⟨tx, htx, List.mem_cons_self⟩, ?_⟩
    simp [Event.topics, Transfer.event, hsender]
  obtain ⟨i, hi, hget⟩ := List.getElem_of_mem hlock
  have hzip : (tx.event (.lock tx.sender.address tx.fee) [tx.sender.address], i) ∈
      (eventsOf address history).zipIdx := by
    rw [List.mk_mem_zipIdx_iff_getElem?, List.getElem?_eq_getElem hi, hget]
  obtain ⟨yields, hyields⟩ := exists_getEntriesByChronology_iff.mp ⟨entries, hentries⟩ _ hzip
  rw [eventEntries_of_transaction tx.id_length rfl (find?_toTransaction hids htx)] at hyields
  obtain ⟨yields, hyields, -⟩ := bind_eq_ok_iff.mp hyields
  exact lockEntries_self hself env i yields hyields

/-- **When the exported transfers add up.** -/
theorem reconciles_iff (haddress : address.length = lengthAddress)
    (hids : (history.map Transfer.id).Nodup)
    (hparty : ∀ tx ∈ history, address = tx.sender.address ∨ address = tx.recipientAddress)
    (hblocks : ∀ tx ∈ history, (blockOf env sortedBlocks tx.block.id).isSome = true) :
    Reconciles env sortedBlocks history address ↔ ∀ tx ∈ history,
      tx.sender.address ≠ tx.recipientAddress ∧
        tx.generatorShare address = tx.received address := by
  constructor
  · rintro ⟨entries, hentries, hsums⟩ tx htx
    have hself : ∀ tx ∈ history, tx.sender.address ≠ tx.recipientAddress :=
      fun _ htx => ne_of_getEntriesByChronology hids hparty hentries htx
    obtain ⟨entries', hentries', hsums'⟩ := exists_entries haddress hids hblocks hself
    obtain rfl : entries = entries' := Except.ok.inj (hentries.symm.trans hentries')
    refine ⟨hself tx htx, ?_⟩
    have hsum := (hsums tx htx).symm.trans (hsums' tx htx)
    rw [Transfer.balanceChange] at hsum
    omega
  · intro hall
    obtain ⟨entries, hentries, hsums⟩ :=
      exists_entries haddress hids hblocks fun tx htx => (hall tx htx).1
    refine ⟨entries, hentries, fun tx htx => ?_⟩
    rw [hsums tx htx, Transfer.balanceChange, (hall tx htx).2]

end Reconciliation

/-! ### A transfer between two accounts -/

/-- An account. -/
def aliceAddress : String := "klyxud8mwmw4et3zhrr6cee9q4d8thhe2b3x6yqdp"

/-- Another account. -/
def bobAddress : String := "klyguo9kqnea2zsfo3a6qppozsxsg92nuuma3p7ad"

/-- A transfer from one account to another one, or to itself. -/
def transferTo (recipientAddress : String) : Transfer where
  id := "d41e8fbb909fdf44ffccef6f5b0fb5edf853f0dcf699243a0a92403d2a4f1d1d"
  id_length := by decide +kernel
  sender := ⟨aliceAddress, "1a315a7c7ccfb44ee0730f22cac4370307a7ef29710b938cff52e653cac753ad"⟩
  recipientAddress := recipientAddress
  tokenID := "0400000000000000"
  amount := 1200000000
  burntAmount := 165000
  generatorAmount := 2000
  block := ⟨"227c65bb47ba5a061a98ea9c459be750ba4e66a36c68e2c45b096fdeb6bb29fc", 1745, 1689785580⟩
  generatorAddress := "klyme8ohf9geuno8nwpvdqm8wr8bvz5nzguftwpxp"

/-- An indexer that knows the block and nothing else. -/
def quietEnv : Env where
  currentChainID := "04000000"
  feeTokenID := "0400000000000000"
  posTokenID := "0400000000000000"
  getTransactions _ := []
  getBlocks _ := [⟨(transferTo bobAddress).block, "1a315a7c7ccfb44ee0730f22cac4370307a7ef29"⟩]
  getEvents _ := []
  getAllEventsInAsc _ := []
  dateFromTimestamp _ := "2023-07-19"
  timeFromTimestamp _ := "16:53:00"
  publicKeyCache _ _ := none

/-- For the sender the entries add up. -/
theorem reconciles_sender :
    aliceAddress.length = lengthAddress ∧ (([transferTo bobAddress].map Transfer.id).Nodup) ∧
      (∀ tx ∈ [transferTo bobAddress],
        aliceAddress = tx.sender.address ∨ aliceAddress = tx.recipientAddress) ∧
      (∀ tx ∈ [transferTo bobAddress], (blockOf quietEnv [] tx.block.id).isSome = true) ∧
      Reconciles quietEnv [] [transferTo bobAddress] aliceAddress := by
  have haddress : aliceAddress.length = lengthAddress := by decide +kernel
  have hids : ([transferTo bobAddress].map Transfer.id).Nodup := List.nodup_singleton _
  have hparty : ∀ tx ∈ [transferTo bobAddress],
      aliceAddress = tx.sender.address ∨ aliceAddress = tx.recipientAddress := by
    simp [transferTo]
  have hblocks : ∀ tx ∈ [transferTo bobAddress],
      (blockOf quietEnv [] tx.block.id).isSome = true := by
    simp [blockOf, quietEnv]
  refine ⟨haddress, hids, hparty, hblocks, (reconciles_iff haddress hids hparty hblocks).mpr ?_⟩
  rw [List.forall_mem_singleton]
  exact ⟨by decide +kernel, by decide +kernel⟩

/-- The recipient of a transfer gets no entry, and a transfer to oneself cannot be exported. -/
theorem recipient_without_entry :
    getEntriesByChronology quietEnv bobAddress [] [(transferTo bobAddress).toTransaction]
        (eventsOf bobAddress [transferTo bobAddress]) = .ok [] ∧
      ¬ Reconciles quietEnv [] [transferTo bobAddress] bobAddress ∧
      getEntriesByChronology quietEnv aliceAddress [] [(transferTo aliceAddress).toTransaction]
        (eventsOf aliceAddress [transferTo aliceAddress]) =
          .error "Cannot convert null to a BigInt" ∧
      ¬ Reconciles quietEnv [] [transferTo aliceAddress] aliceAddress := by
  have hempty : getEntriesByChronology quietEnv bobAddress []
      [(transferTo bobAddress).toTransaction] (eventsOf bobAddress [transferTo bobAddress]) =
        .ok [] := by
    decide +kernel
  have herror : getEntriesByChronology quietEnv aliceAddress []
      [(transferTo aliceAddress).toTransaction]
      (eventsOf aliceAddress [transferTo aliceAddress]) =
        .error "Cannot convert null to a BigInt" := by
    decide +kernel
  refine ⟨hempty, ?_, herror, ?_⟩
  · rintro ⟨entries, hentries, hsums⟩
    obtain rfl := Except.ok.inj (hempty.symm.trans hentries)
    have hsum := hsums _ (List.mem_singleton_self _)
    revert hsum
    decide +kernel
  · rintro ⟨entries, hentries, -⟩
    exact absurd (herror.symm.trans hentries) (by simp)

end Export

end SwaptoshiService
