import SwaptoshiService.Indexer.Schema
import SwaptoshiService.Lib.Run

/-!
# The cached KLYUSD price

`getKLYUSDLastPrice` (`dataService/dex/klyPrices.js`) keeps the row of the KLY token in the cache, so
that the `last_price` table, whose row changes at multiples of `LAST_PRICE_INTERVAL`, is not read
each time. The entry is set to expire after as many seconds as have **passed** since the last
multiple, and not after those that are left until the next one: right after a multiple the expiry
is 0, which the cache refuses, and in the second half of the interval the entry outlives it.

`price_cache_iff` says when the expiry is right, and that reads are up to date as long as it is.
-/

namespace SwaptoshiService

/-- A value in the cache; the time is in milliseconds. -/
structure CacheEntry where
  value : Option LastPriceRow
  expiresAt : ℕ

/-- What reads and updates of the price have in common. -/
structure PriceWorld where
  /-- `Date.now()` -/
  now : ℕ
  /-- The row of the KLY token in the `last_price` table. -/
  lastPrice : Option LastPriceRow
  /-- The value of `klyusd_last_price`. -/
  cache : Option CacheEntry

section Code

variable (ttl : ℕ)

/-- `redis.get(KLYUSD_LAST_PRICE_CACHE_KEY)`; the row that is missing is stored as an empty text,
and not taken for a row. -/
def PriceWorld.cached (s : PriceWorld) : Option LastPriceRow :=
  (s.cache.filter fun entry => s.now < entry.expiresAt).bind CacheEntry.value

/-- `Math.floor(Date.now() / 1000) % LAST_PRICE_TTL` -/
def lastPriceExpiry (now : ℕ) : ℕ := now / 1000 % ttl

/-- `redis.set(KLYUSD_LAST_PRICE_CACHE_KEY, value, 'EX', expiry)` -/
def PriceWorld.set (s : PriceWorld) (value : Option LastPriceRow) (expiry : ℕ) :
    Except String PriceWorld :=
  if expiry = 0 then .error "ERR invalid expire time in 'set' command"
  else .ok { s with cache := some ⟨value, s.now + 1000 * expiry⟩ }

/-- `getKLYUSDLastPrice()`: its answer, and what it leaves behind. -/
def getKLYUSDLastPrice (s : PriceWorld) : Except String (Option LastPriceRow) × PriceWorld :=
  match s.cached with
  | some row => (.ok (some row), s)
  | none =>
    match s.set s.lastPrice (lastPriceExpiry ttl s.now) with
    | .ok s' => (.ok s.lastPrice, s')
    | .error message => (.error message, s)

end Code

/-! ### Reads and updates -/

inductive PriceAction
  | wait
  | update
  | read (answer : Except String (Option LastPriceRow))

/-- Time passes, the row is replaced at a multiple of the interval by that of the new interval, or
the price is read. -/
inductive PriceStep (ttl : ℕ) : PriceWorld → PriceAction → PriceWorld → Prop
  | wait {s : PriceWorld} (ms : ℕ) : PriceStep ttl s .wait { s with now := s.now + ms }
  | update {s : PriceWorld} (row : LastPriceRow) (h : 1000 * ttl ∣ s.now)
      (hrow : row.updatedOn = s.now / 1000) :
      PriceStep ttl s .update { s with lastPrice := some row }
  | read {s s' : PriceWorld} {answer : Except String (Option LastPriceRow)}
      (h : getKLYUSDLastPrice ttl s = (answer, s')) : PriceStep ttl s (.read answer) s'

/-- The next multiple of the interval. -/
def nextUpdate (ttl now : ℕ) : ℕ := (now / (1000 * ttl) + 1) * (1000 * ttl)

/-- The expiry is positive, and ends before the row may change. -/
def ExpiryRight (ttl now : ℕ) : Prop :=
  0 < lastPriceExpiry ttl now ∧ now + 1000 * lastPriceExpiry ttl now ≤ nextUpdate ttl now

/-- A second of the interval has passed, and no more seconds than are left of it. -/
def InFirstHalf (ttl now : ℕ) : Prop :=
  1000 ≤ now % (1000 * ttl) ∧
    now % (1000 * ttl) + 1000 * (now % (1000 * ttl) / 1000) ≤ 1000 * ttl

/-- The cache is filled in the first half of an interval only. -/
def FilledInTime (ttl : ℕ) (s : PriceWorld) : PriceAction → Prop
  | .read _ => s.cached = none → InFirstHalf ttl s.now
  | _ => True

/-! ### What is cached -/

section Cached

variable {ttl : ℕ} {s s' : PriceWorld}

theorem lastPriceExpiry_eq (ttl now : ℕ) :
    lastPriceExpiry ttl now = now % (1000 * ttl) / 1000 := by
  rw [lastPriceExpiry, Nat.mod_mul_right_div_self]

theorem nextUpdate_eq (ttl now : ℕ) :
    nextUpdate ttl now = now - now % (1000 * ttl) + 1000 * ttl := by
  have hdiv := Nat.div_add_mod' now (1000 * ttl)
  rw [nextUpdate, Nat.succ_mul]
  omega

/-- **When the expiry is right.** -/
theorem expiryRight_iff (ttl now : ℕ) : ExpiryRight ttl now ↔ InFirstHalf ttl now := by
  have hle := Nat.mod_le now (1000 * ttl)
  rw [ExpiryRight, InFirstHalf, lastPriceExpiry_eq, nextUpdate_eq]
  omega

/-- An entry that has not expired holds the row of the table, and expires before the next
update. -/
def PriceWorld.UpToDate (ttl : ℕ) (s : PriceWorld) : Prop :=
  ∀ entry, s.cache = some entry → s.now < entry.expiresAt →
    entry.value = s.lastPrice ∧ ¬ 1000 * ttl ∣ s.now ∧ entry.expiresAt ≤ nextUpdate ttl s.now

theorem nextUpdate_of_lt {now now' : ℕ} (hle : now ≤ now') (hlt : now' < nextUpdate ttl now) :
    nextUpdate ttl now' = nextUpdate ttl now := by
  have hpos : 0 < 1000 * ttl := by
    refine Nat.pos_of_ne_zero fun hzero => ?_
    rw [nextUpdate, hzero, Nat.mul_zero] at hlt
    exact Nat.not_lt_zero _ hlt
  have hdiv : now' / (1000 * ttl) = now / (1000 * ttl) :=
    le_antisymm (Nat.lt_succ_iff.mp ((Nat.div_lt_iff_lt_mul hpos).mpr hlt))
      (Nat.div_le_div_right hle)
  rw [nextUpdate, hdiv, nextUpdate]

/-- What the cache answers is the row. -/
theorem PriceWorld.UpToDate.cached_eq (h : s.UpToDate ttl) {row : LastPriceRow}
    (hcached : s.cached = some row) : s.lastPrice = some row := by
  obtain ⟨entry, hentry, hvalue⟩ := Option.bind_eq_some_iff.mp hcached
  obtain ⟨hcache, hlive⟩ := Option.filter_eq_some_iff.mp hentry
  rw [← (h entry hcache (of_decide_eq_true hlive)).1, hvalue]

/-- **A read** is up to date, and leaves the cache so. -/
theorem PriceWorld.UpToDate.read (h : s.UpToDate ttl)
    (hok : s.cached = none → InFirstHalf ttl s.now) :
    (getKLYUSDLastPrice ttl s).1 = .ok s.lastPrice ∧
      (getKLYUSDLastPrice ttl s).2.UpToDate ttl := by
  rw [getKLYUSDLastPrice]
  cases hcached : s.cached with
  | some row => exact ⟨by rw [h.cached_eq hcached], h⟩
  | none =>
    have hhalf := hok hcached
    obtain ⟨hpos, hnext⟩ := (expiryRight_iff ttl s.now).mpr hhalf
    rw [PriceWorld.set, if_neg hpos.ne']
    refine ⟨rfl, fun entry hentry _ => ?_⟩
    obtain rfl := Option.some.inj hentry
    refine ⟨rfl, fun hdvd => ?_, hnext⟩
    have hzero : s.now % (1000 * ttl) = 0 := Nat.mod_eq_zero_of_dvd hdvd
    have hsecond := hhalf.1
    omega

/-- **One step.** -/
theorem PriceStep.upToDate {a : PriceAction} (h : PriceStep ttl s a s') (hs : s.UpToDate ttl)
    (hok : FilledInTime ttl s a) : s'.UpToDate ttl := by
  cases h with
  | wait ms =>
    intro entry hentry hlive
    have hlive' : s.now + ms < entry.expiresAt := hlive
    obtain ⟨hvalue, hmultiple, hnext⟩ := hs entry hentry (by omega)
    have hnext' : nextUpdate ttl (s.now + ms) = nextUpdate ttl s.now :=
      nextUpdate_of_lt (Nat.le_add_right _ _) (hlive'.trans_le hnext)
    refine ⟨hvalue, fun hdvd => ?_, hnext'.symm ▸ hnext⟩
    -- Between two multiples there is no other.
    have hzero : (s.now + ms) % (1000 * ttl) = 0 := Nat.mod_eq_zero_of_dvd hdvd
    have hne : s.now % (1000 * ttl) ≠ 0 := fun heq => hmultiple (Nat.dvd_of_mod_eq_zero heq)
    have hlt := Nat.mod_lt s.now (y := 1000 * ttl) (Nat.pos_of_ne_zero fun heq => by
      rw [heq, Nat.mod_zero] at hzero hne
      omega)
    rw [nextUpdate_eq, nextUpdate_eq, hzero] at hnext'
    have hle := Nat.mod_le s.now (1000 * ttl)
    omega
  | update row hdvd hrow =>
    exact fun entry hentry hlive => absurd hdvd (hs entry hentry hlive).2.1
  | read h =>
    have hread := (hs.read hok).2
    rwa [h] at hread

end Cached

/-- **The price cache.** The expiry is positive and ends before the next update if and only if the
cache is filled in the first half of an interval, but not in its first second; in a run in which it
always is, a read answers with the row of the table, and so with none of an earlier interval. -/
theorem price_cache_iff (ttl : ℕ) :
    (∀ now, ExpiryRight ttl now ↔ InFirstHalf ttl now) ∧
      ∀ start s s', ∀ answer, start.cache = none →
        Run (PriceStep ttl) (FilledInTime ttl) start s → FilledInTime ttl s (.read answer) →
        PriceStep ttl s (.read answer) s' → answer = .ok s.lastPrice := by
  refine ⟨expiryRight_iff ttl, fun start s s' answer hstart hrun hok hread => ?_⟩
  have hs : s.UpToDate ttl := by
    refine hrun.invariant (PriceWorld.UpToDate ttl) (fun entry hentry => ?_)
      fun t a t' ht ha hstep => hstep.upToDate ht ha
    rw [hstart] at hentry
    exact absurd hentry.symm (Option.some_ne_none entry)
  cases hread with
  | read h => rw [← (hs.read hok).1, h]

/-- The rows of the first two intervals of five minutes. -/
def firstPrice : LastPriceRow := { updatedOn := 0, current := 1 }

def secondPrice : LastPriceRow := { updatedOn := 300, current := 2 }

/-- The price is first read at some time of the first interval. -/
def firstRead (now : ℕ) : PriceWorld := ⟨now, some firstPrice, none⟩

/-- The entry of a minute that is filled after the first minute. -/
def afterFirstRead (now : ℕ) (row : LastPriceRow) : PriceWorld :=
  ⟨now, some row, some ⟨some firstPrice, 120000⟩⟩

/-- The price is read twice within a second. A minute after the next update it is read again, and
the answer is the new row. -/
theorem read_again_in_time :
    ∃ s s', Run (PriceStep 300) (FilledInTime 300) (firstRead 60000) s ∧
      s.lastPrice = some secondPrice ∧ PriceStep 300 s (.read (.ok s.lastPrice)) s' := by
  have hread : PriceStep 300 (firstRead 60000) (.read (.ok (some firstPrice)))
      (afterFirstRead 60000 firstPrice) := .read rfl
  have hfilled : FilledInTime 300 (firstRead 60000) (.read (.ok (some firstPrice))) :=
    fun _ => ⟨by decide, by decide⟩
  have hagain : PriceStep 300 (afterFirstRead 61000 firstPrice) (.read (.ok (some firstPrice)))
      (afterFirstRead 61000 firstPrice) := .read rfl
  have hcached : (afterFirstRead 61000 firstPrice).cached ≠ none := by decide
  have hupdate : PriceStep 300 (afterFirstRead 300000 firstPrice) .update
      (afterFirstRead 300000 secondPrice) := .update secondPrice (by decide) (by decide)
  have hrun := (((((Run.refl.tail hread hfilled).tail (.wait 1000) trivial).tail hagain
    fun hnone => absurd hnone hcached).tail (.wait 239000) trivial).tail hupdate trivial).tail
      (.wait 60000) trivial
  have hlast : FilledInTime 300 (afterFirstRead 360000 secondPrice)
      (.read (.ok (some secondPrice))) := fun _ => ⟨by decide, by decide⟩
  have hanswer := (price_cache_iff 300).2 _ _ _ _ rfl hrun hlast (.read rfl)
  exact ⟨_, _, hrun, rfl, by rw [← hanswer]; exact .read rfl⟩

/-- The entry that is filled after 200 of 300 seconds lasts until the second 400. -/
def afterLateRead (now : ℕ) (row : LastPriceRow) : PriceWorld :=
  ⟨now, some row, some ⟨some firstPrice, 400000⟩⟩

/-- On a multiple the price cannot be read, and the entry that is filled after 200 of 300 seconds
answers with the row of the first interval in the second one. -/
theorem stale_after_update :
    (getKLYUSDLastPrice 300 (firstRead 0)).1 =
        .error "ERR invalid expire time in 'set' command" ∧
      (∃ s s', Run (PriceStep 300) Unrestricted (firstRead 200000) s ∧
        s.lastPrice = some secondPrice ∧ PriceStep 300 s (.read (.ok (some firstPrice))) s') ∧
      ¬ ExpiryRight 300 0 ∧ ¬ ExpiryRight 300 200000 := by
  have hfill : PriceStep 300 (firstRead 200000) (.read (.ok (some firstPrice)))
      (afterLateRead 200000 firstPrice) :=
    .read (by simp [getKLYUSDLastPrice, PriceWorld.cached, PriceWorld.set, firstRead,
      lastPriceExpiry, afterLateRead])
  have hwait : PriceStep 300 (afterLateRead 200000 firstPrice) .wait
      (afterLateRead 300000 firstPrice) := .wait 100000
  have hupdate : PriceStep 300 (afterLateRead 300000 firstPrice) .update
      (afterLateRead 300000 secondPrice) := .update secondPrice (by decide) (by decide)
  have hcached : (afterLateRead 300000 secondPrice).cached = some firstPrice := rfl
  have hstale : PriceStep 300 (afterLateRead 300000 secondPrice) (.read (.ok (some firstPrice)))
      (afterLateRead 300000 secondPrice) :=
    .read (by simp only [getKLYUSDLastPrice, hcached])
  refine ⟨rfl, ⟨_, _, ((Run.refl.tail hfill trivial).tail hwait trivial).tail hupdate trivial,
    rfl, hstale⟩, ?_, ?_⟩
  · exact fun h => absurd h.1 (by decide)
  · exact fun h => absurd h.2 (by decide)

end SwaptoshiService
