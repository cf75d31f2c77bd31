import SwaptoshiService.Lib.Fibers
import SwaptoshiService.TransactionStatistics.DailyStatistics

/-!
# What the statistics say about a token

The rows of a day have a column `tokenID`, but the transactions are put into buckets by command and
range of value only: a bucket takes the token of **its last transaction**. A bucket with
transactions of several tokens counts all of them, and all of their value, for one.

`conserved_iff`: the rows of a token add up to its transactions if and only if what the buckets
take from other tokens makes up for what they give to others, in number and in value.
-/

open Finset

namespace SwaptoshiService

namespace DailyStatistics

/-- A transaction as the indexer answers it; `params` are its numeric parameters but the token, and
a missing `tokenID` is empty. -/
structure ReceivedTx where
  moduleCommand : ModuleCommand
  fee : ℕ
  params : List (String × ℕ)
  tokenID : String

/-- `property.endsWith('Fee') || property === 'amount'`. -/
def countsAsValue (property : String) : Bool :=
  "Fee".toList.isSuffixOf property.toList || property == "amount"

/-- `getTxValue(tx)`; `plus total x` is the value of `total` after `total.plus(x)`. -/
def getTxValue (plus : ℕ → ℕ → ℕ) (tx : ReceivedTx) : ℕ :=
  tx.params.foldl
    (fun total param => if countsAsValue param.1 then plus total param.2 else total) tx.fee

namespace ReceivedTx

/-- The transaction, as far as it is counted. -/
def toTx (plus : ℕ → ℕ → ℕ) (tx : ReceivedTx) : Tx :=
  ⟨tx.moduleCommand, getTxValue plus tx, tx.tokenID⟩

/-- The fee plus the amounts and fees among the parameters. -/
def value (tx : ReceivedTx) : ℕ :=
  tx.fee + ((tx.params.filter fun param => countsAsValue param.1).map Prod.snd).sum

/-- The token of the transaction, or that there is none. -/
def token (tx : ReceivedTx) : String := if tx.tokenID = "" then unavailable else tx.tokenID

/-- The bucket of the transaction. -/
def bucket (getRange : ℕ → String) (tx : ReceivedTx) : ModuleCommand × String :=
  (tx.moduleCommand, getRange tx.value)

end ReceivedTx

/-- The statistics of a day. -/
def dayStats (getRange : ℕ → String) (plus : ℕ → ℕ → ℕ) (txs : List ReceivedTx) : Stats :=
  computeTransactionStats getRange (txs.map (ReceivedTx.toTx plus))

/-- The statistics as a list, before the volumes are rounded. -/
def statsList (stats : Stats) : List ((ModuleCommand × String) × Stat) :=
  stats.entries.flatMap fun entry => entry.2.entries.map fun bucket =>
    ((entry.1, bucket.1), bucket.2)

/-- The rows of a token add up to its transactions. -/
structure Conserved (getRange : ℕ → String) (plus : ℕ → ℕ → ℕ) (txs : List ReceivedTx)
    (tokenID : String) : Prop where
  count : ∀ date, (((statsRows date (dayStats getRange plus txs)).filter
    fun r => r.tokenID = tokenID).map Row.count).sum =
      (txs.filter fun tx => tx.token = tokenID).length
  volume : (((statsList (dayStats getRange plus txs)).filter
    fun p => p.2.tokenID = tokenID).map fun p => p.2.volume).sum =
      ((txs.filter fun tx => tx.token = tokenID).map ReceivedTx.value).sum

/-- The token of the last transaction in a bucket. -/
def bucketToken (getRange : ℕ → String) (txs : List ReceivedTx) (b : ModuleCommand × String) :
    String :=
  (txs.reverse.find? fun tx => tx.bucket getRange = b).elim unavailable ReceivedTx.token

/-- The transactions of other tokens that are counted for the token. -/
def takenIn (getRange : ℕ → String) (txs : List ReceivedTx) (tokenID : String) : List ReceivedTx :=
  txs.filter fun tx =>
    bucketToken getRange txs (tx.bucket getRange) = tokenID ∧ ¬ tx.token = tokenID

/-- The transactions of the token that are counted for another one. -/
def givenAway (getRange : ℕ → String) (txs : List ReceivedTx) (tokenID : String) :
    List ReceivedTx :=
  txs.filter fun tx =>
    tx.token = tokenID ∧ ¬ bucketToken getRange txs (tx.bucket getRange) = tokenID

section Conservation

variable {getRange : ℕ → String} {plus : ℕ → ℕ → ℕ} {stats : Stats} {txs : List ReceivedTx}
  {b : ModuleCommand × String} {tokenID : String}

/-! ### The list of the statistics -/

theorem statsRows_eq (date : ℕ) (stats : Stats) : statsRows date stats =
    (statsList stats).map fun p =>
      ⟨date, p.1.1, p.1.2, p.2.count, toDouble p.2.volume, p.2.tokenID⟩ := by
  rw [statsRows, statsList, List.map_flatMap]
  simp only [List.map_map]
  rfl

/-- No bucket is listed twice. -/
theorem nodup_statsList (stats : Stats) : ((statsList stats).map Prod.fst).Nodup := by
  rw [statsList, List.map_flatMap, List.nodup_flatMap]
  constructor
  · -- Within a command the ranges are keys.
    intro entry _
    rw [List.map_map]
    have hkeys : (entry.2.entries.map Sigma.fst).Nodup := entry.2.nodupKeys
    have hmap : entry.2.entries.map (Prod.fst ∘ fun bucket => ((entry.1, bucket.1), bucket.2)) =
        (entry.2.entries.map Sigma.fst).map fun range => (entry.1, range) := by
      rw [List.map_map]
      rfl
    rw [hmap]
    exact hkeys.map fun _ _ h => (Prod.mk.inj h).2
  · -- Two commands share no bucket.
    have hkeys : (stats.entries.map Sigma.fst).Nodup := stats.nodupKeys
    refine (List.pairwise_map.mp hkeys).imp fun hne => ?_
    rw [Function.onFun, List.disjoint_left]
    intro p hp hp'
    obtain ⟨q, hq, rfl⟩ := List.mem_map.mp hp
    obtain ⟨q', hq', heq⟩ := List.mem_map.mp hp'
    obtain ⟨range, hrange, rfl⟩ := List.mem_map.mp hq
    obtain ⟨range', hrange', rfl⟩ := List.mem_map.mp hq'
    exact hne (Prod.mk.inj heq).1.symm

/-- What is listed for a bucket. -/
theorem mem_statsList {p : (ModuleCommand × String) × Stat} :
    p ∈ statsList stats ↔ stats.Contains p.1 ∧ p.2 = getTxStatsWithFallback stats p.1.1 p.1.2 := by
  rw [Stats.Contains, getTxStatsWithFallback, Stats.ranges, statsList, List.mem_flatMap]
  constructor
  · rintro ⟨entry, hentry, hp⟩
    obtain ⟨range, hrange, rfl⟩ := List.mem_map.mp hp
    have hlookup : stats.lookup entry.1 = some entry.2 := AList.mem_lookup_iff.mpr hentry
    have hlookup' : entry.2.lookup range.1 = some range.2 := AList.mem_lookup_iff.mpr hrange
    simp only [hlookup, Option.getD_some, hlookup']
    exact ⟨AList.lookup_isSome.mp (by rw [hlookup']; rfl), trivial⟩
  · obtain ⟨⟨c, g⟩, stat⟩ := p
    rintro ⟨hmem, hstat⟩
    cases hranges : stats.lookup c with
    | none => simp [hranges] at hmem
    | some ranges =>
      simp only [hranges, Option.getD_some] at hmem hstat
      obtain ⟨stat', hstat'⟩ := Option.isSome_iff_exists.mp (AList.lookup_isSome.mpr hmem)
      rw [hstat', Option.getD_some] at hstat
      obtain rfl : stat = stat' := hstat
      exact ⟨⟨c, ranges⟩, AList.mem_lookup_iff.mp hranges, List.mem_map.mpr
        ⟨⟨g, stat⟩, AList.mem_lookup_iff.mp hstat', rfl⟩⟩

/-- A sum over the list is a sum over its buckets. -/
theorem sum_statsList (stats : Stats) (f : Stat → ℕ) (tokenID : String) :
    (((statsList stats).filter fun p => p.2.tokenID = tokenID).map fun p => f p.2).sum =
      ∑ b ∈ ((statsList stats).map Prod.fst).toFinset with
        (getTxStatsWithFallback stats b.1 b.2).tokenID = tokenID,
        f (getTxStatsWithFallback stats b.1 b.2) := by
  have hstat : ∀ p ∈ statsList stats, p.2 = getTxStatsWithFallback stats p.1.1 p.1.2 :=
    fun p hp => (mem_statsList.mp hp).2
  rw [sum_filter, List.sum_toFinset _ (nodup_statsList stats), List.map_map]
  have hind : ∀ l : List ((ModuleCommand × String) × Stat),
      (∀ p ∈ l, p.2 = getTxStatsWithFallback stats p.1.1 p.1.2) →
      ((l.filter fun p => p.2.tokenID = tokenID).map fun p => f p.2).sum =
        (l.map ((fun b => if (getTxStatsWithFallback stats b.1 b.2).tokenID = tokenID then
          f (getTxStatsWithFallback stats b.1 b.2) else 0) ∘ Prod.fst)).sum := by
    intro l hl
    induction l with
    | nil => rfl
    | cons p l ih =>
      rw [List.forall_mem_cons] at hl
      rw [List.map_cons, List.sum_cons, ← ih hl.2, Function.comp_apply, ← hl.1, List.filter_cons]
      by_cases htoken : p.2.tokenID = tokenID <;> simp [htoken]
  exact hind _ hstat

/-! ### The buckets of a day -/

theorem getTxStatsWithFallback_addTransaction (acc : Stats) (tx : Tx)
    (b : ModuleCommand × String) :
    getTxStatsWithFallback (addTransaction getRange acc tx) b.1 b.2 =
      if b = (tx.moduleCommand, getRange tx.value) then
        ⟨(getTxStatsWithFallback acc b.1 b.2).count + 1,
          (getTxStatsWithFallback acc b.1 b.2).volume + tx.value,
          if tx.tokenID = "" then unavailable else tx.tokenID⟩
      else getTxStatsWithFallback acc b.1 b.2 := by
  rw [addTransaction, getTxStatsWithFallback, ranges_insert]
  by_cases hcommand : b.1 = tx.moduleCommand
  · by_cases hrange : b.2 = getRange tx.value
    · rw [if_pos hcommand, if_pos (Prod.ext hcommand hrange), hcommand, hrange,
        AList.lookup_insert, Option.getD_some]
    · rw [if_pos hcommand, if_neg fun h => hrange (congrArg Prod.snd h),
        AList.lookup_insert_ne hrange, ← hcommand, getTxStatsWithFallback]
  · rw [if_neg hcommand, if_neg fun h => hcommand (congrArg Prod.fst h), getTxStatsWithFallback]

/-- A bucket that counts nothing. -/
theorem getTxStatsWithFallback_initialStats (b : ModuleCommand × String) :
    getTxStatsWithFallback (initialStats getRange) b.1 b.2 = defaultStat := by
  have hinitial : initialStats getRange =
      AList.insert any (AList.singleton (getRange 0) defaultStat) ∅ := rfl
  have hrange : AList.singleton (getRange 0) defaultStat =
      (AList.insert (getRange 0) defaultStat ∅ : Ranges) := rfl
  rw [getTxStatsWithFallback, hinitial, ranges_insert, hrange]
  split_ifs with hany
  · by_cases hb : b.2 = getRange 0
    · rw [hb, AList.lookup_insert, Option.getD_some]
    · rw [AList.lookup_insert_ne hb]
      rfl
  · rfl

/-- `total.plus` adds in place. -/
theorem getTxValue_eq (hplus : ∀ total x, plus total x = total + x) (tx : ReceivedTx) :
    getTxValue plus tx = tx.value := by
  have hfold : ∀ (params : List (String × ℕ)) (total : ℕ), params.foldl
      (fun total param => if countsAsValue param.1 then plus total param.2 else total) total =
        total + ((params.filter fun param => countsAsValue param.1).map Prod.snd).sum := by
    intro params
    induction params with
    | nil => simp
    | cons param params ih =>
      intro total
      rw [List.foldl_cons, ih, List.filter_cons]
      by_cases hcounts : countsAsValue param.1 <;> simp [hcounts, hplus, add_assoc]
  exact hfold tx.params tx.fee

theorem bucketToken_append (txs : List ReceivedTx) (tx : ReceivedTx) (b : ModuleCommand × String) :
    bucketToken getRange (txs ++ [tx]) b =
      if tx.bucket getRange = b then tx.token else bucketToken getRange txs b := by
  rw [bucketToken, List.reverse_append, List.reverse_singleton, List.singleton_append,
    List.find?_cons]
  by_cases hb : tx.bucket getRange = b <;> simp [hb, bucketToken]

/-- **What a bucket holds**: the number and the value of its transactions, and the token of the last
one. -/
theorem getTxStatsWithFallback_dayStats (hplus : ∀ total x, plus total x = total + x)
    (txs : List ReceivedTx) (b : ModuleCommand × String) :
    getTxStatsWithFallback (dayStats getRange plus txs) b.1 b.2 =
      ⟨((txs.filter fun tx => tx.bucket getRange = b).map fun _ => 1).sum,
        ((txs.filter fun tx => tx.bucket getRange = b).map ReceivedTx.value).sum,
        bucketToken getRange txs b⟩ := by
  -- The transactions are counted from the first one on, so the induction adds one at the end.
  induction txs using List.reverseRecOn with
  | nil => exact getTxStatsWithFallback_initialStats b
  | append_singleton txs tx ih =>
    have hstep : dayStats getRange plus (txs ++ [tx]) =
        addTransaction getRange (dayStats getRange plus txs) (tx.toTx plus) := by
      rw [dayStats, List.map_append, computeTransactionStats, List.foldl_append]
      rfl
    rw [hstep, getTxStatsWithFallback_addTransaction, ih, bucketToken_append]
    simp only [ReceivedTx.toTx, getTxValue_eq hplus, List.filter_append, List.map_append,
      List.sum_append]
    by_cases hb : tx.bucket getRange = b
    · rw [if_pos hb, if_pos (by rw [← hb]; rfl)]
      simp [hb, ReceivedTx.token]
    · rw [if_neg hb, if_neg fun h => hb (by rw [h]; rfl)]
      simp [hb]

/-- **What is counted for a token**: the transactions in the buckets that have it. -/
theorem sum_dayStats (hplus : ∀ total x, plus total x = total + x) (getRange : ℕ → String)
    (txs : List ReceivedTx) (f : Stat → ℕ) {v : ReceivedTx → ℕ}
    (hf : ∀ b, f (getTxStatsWithFallback (dayStats getRange plus txs) b.1 b.2) =
      ((txs.filter fun tx => tx.bucket getRange = b).map v).sum) (tokenID : String) :
    (((statsList (dayStats getRange plus txs)).filter fun p => p.2.tokenID = tokenID).map
      fun p => f p.2).sum =
      ((txs.filter fun tx =>
        bucketToken getRange txs (tx.bucket getRange) = tokenID).map v).sum := by
  rw [sum_statsList, ← sum_fibers (fun tx : ReceivedTx => tx.bucket getRange) v
    ((statsList (dayStats getRange plus txs)).map Prod.fst).toFinset
    (fun b => bucketToken getRange txs b = tokenID)]
  · simp only [hf]
    refine sum_congr (filter_congr fun b _ => ?_) fun _ _ => rfl
    rw [getTxStatsWithFallback_dayStats hplus]
  · -- Every transaction has a bucket in the list.
    intro tx htx
    rw [List.mem_toFinset, List.mem_map]
    refine ⟨(tx.bucket getRange, getTxStatsWithFallback (dayStats getRange plus txs)
      (tx.bucket getRange).1 (tx.bucket getRange).2), mem_statsList.mpr ⟨?_, rfl⟩, rfl⟩
    rw [dayStats, contains_computeTransactionStats]
    refine .inr ⟨tx.toTx plus, List.mem_map_of_mem htx, ?_⟩
    rw [ReceivedTx.toTx, getTxValue_eq hplus]
    rfl

/-- **When the statistics of a token are right.** -/
theorem conserved_iff (hplus : ∀ total x, plus total x = total + x) (getRange : ℕ → String)
    (txs : List ReceivedTx) (tokenID : String) : Conserved getRange plus txs tokenID ↔
      (takenIn getRange txs tokenID).length = (givenAway getRange txs tokenID).length ∧
        ((takenIn getRange txs tokenID).map ReceivedTx.value).sum =
          ((givenAway getRange txs tokenID).map ReceivedTx.value).sum := by
  have hcount : ∀ date, (((statsRows date (dayStats getRange plus txs)).filter
      fun r => r.tokenID = tokenID).map Row.count).sum = ((txs.filter fun tx =>
        bucketToken getRange txs (tx.bucket getRange) = tokenID).map fun _ => 1).sum := by
    intro date
    rw [statsRows_eq, List.filter_map, List.map_map]
    exact sum_dayStats hplus getRange txs Stat.count
      (fun b => by rw [getTxStatsWithFallback_dayStats hplus]) tokenID
  have hvolume := sum_dayStats hplus getRange txs Stat.volume
    (fun b => by rw [getTxStatsWithFallback_dayStats hplus]) tokenID
  have hlength : ∀ l : List ReceivedTx, l.length = (l.map fun _ => 1).sum := by simp
  rw [hlength (takenIn _ _ _), hlength (givenAway _ _ _)]
  constructor
  · rintro ⟨hcounts, hvolumes⟩
    refine ⟨(sum_filter_eq_iff _ _ _ _).mp ?_, (sum_filter_eq_iff _ _ _ _).mp ?_⟩
    · rw [← hcount 0, hcounts 0, hlength]
    · rw [← hvolume, hvolumes]
  · rintro ⟨hcounts, hvolumes⟩
    refine ⟨fun date => ?_, ?_⟩
    · rw [hcount, hlength]
      exact (sum_filter_eq_iff _ _ _ _).mpr hcounts
    · rw [hvolume]
      exact (sum_filter_eq_iff _ _ _ _).mpr hvolumes

end Conservation

/-! ### Two tokens in a bucket -/

/-- A transfer of 10 with a fee of 1. -/
def transferTx (tokenID : String) : ReceivedTx :=
  ⟨⟨"token:transfer", dash_notMem_transfer⟩, 1, [("amount", 10)], tokenID⟩

/-- Two transfers of one token. -/
theorem conserved_one_token :
    (∀ total x : ℕ, (fun total x => total + x) total x = total + x) ∧
      Conserved (fun _ => "range") (fun total x => total + x) [transferTx "kly", transferTx "kly"]
        "kly" :=
  ⟨fun _ _ => rfl, (conserved_iff (fun _ _ => rfl) _ _ _).mpr ⟨by decide, by decide⟩⟩

/-- Of two transfers of two tokens both are counted for the second one. -/
theorem two_tokens_in_bucket :
    let txs := [transferTx "kly", transferTx "btc"]
    let stats := dayStats (fun _ => "range") (fun total x => total + x) txs
    (statsList stats).map Prod.snd =
        [⟨2, 22, "btc"⟩, ⟨0, 0, "na"⟩] ∧
      ¬ Conserved (fun _ => "range") (fun total x => total + x) txs "btc" := by
  intro txs stats
  have hlist : (statsList stats).map Prod.snd = [⟨2, 22, "btc"⟩, ⟨0, 0, "na"⟩] := by decide +kernel
  refine ⟨hlist, fun h => ?_⟩
  have hvolume := h.volume
  revert hvolume
  decide +kernel

end DailyStatistics

end SwaptoshiService
