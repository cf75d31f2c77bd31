import Mathlib.Data.Nat.Pairing
import SwaptoshiService.Indexer.PriceFormatter
import SwaptoshiService.Jobs.PoolRows

/-!
# The price of a new pool

`applyTransaction` of `createPool` registers the tokens that come with the pool, on `dbTrx`, and
looks the decimals of both tokens up **without** `dbTrx`. It does not see what it has just written,
nor what the block has registered before; for a token of its own it takes the event in place of the
row, and an event has no field `decimal`, so that `getPriceAtTick` falls back to 8.

`create_pool_priced_iff`: the transaction is applied, and both rows carry the price that the initial
tick has with the decimals of the tokens, if and only if each token is committed with its decimals,
or comes with the pool and has 8 decimals.
-/

namespace SwaptoshiService

open Session Async

section PoolCreation

variable {env : Env} {header : BlockHeader} {events : List Event} {tx : IndexedTx}
  {w w' : DBSession}

/-- The decimals of the event that registers a token: one of the transaction, or an earlier one,
which has left its row. -/
def registeringDecimals (events : List Event) (tx : IndexedTx) (w : DBSession) (t : TokenID) :
    Option ℕ :=
  match (parseEvents events EventData.tokenRegistered? tx.id).find? (·.tokenId == t) with
  | some d => some d.decimal
  | none => decimalAt (w.view .dbTrx) t

/-- A successful `createPool` transaction, in any state of the database in which its tokens are
registered or about to be. -/
structure PoolCreation (events : List Event) (tx : IndexedTx) (w : DBSession) where
  created : PoolCreatedData
  tick : ℤ
  decimals0 : ℕ
  decimals1 : ℕ
  successful : tx.isSuccessful = true
  created_eq : parseSingleEvent events EventData.poolCreated? tx.id = some created
  tick_eq : parseSingleEvent events EventData.poolInitialized? tx.id = some tick
  fee_lt : created.fee < 2 ^ 24
  ordered : created.token0 < created.token1
  registered0 : registeringDecimals events tx w created.token0 = some decimals0
  registered1 : registeringDecimals events tx w created.token1 = some decimals1

namespace PoolCreation

/-- The key of the pool. -/
def key (c : PoolCreation events tx w) : PoolKey :=
  ⟨c.created.token0, c.created.token1, c.created.fee⟩

/-- The transaction is applied, and both rows of the pool get these prices. -/
def StoresPrices (c : PoolCreation events tx w) (env : Env) (header : BlockHeader)
    (price : Bool → ℚ) : Prop :=
  ∃ w', (Dex.applyCreatePool env header tx events).run w = (.ok (), w') ∧
    ∀ inverted, ∃ r : PoolRow, (w'.view .dbTrx).get (c.key.oriented inverted).cell = some r ∧
      r.price = price inverted

/-- Both rows carry the price that the tick has with the decimals of the tokens, however
`getPriceAtTick` computes it. -/
def PricedTruly (c : PoolCreation events tx w) (env : Env) (header : BlockHeader) : Prop :=
  ∀ getPriceAtTick, c.StoresPrices { env with getPriceAtTick } header
    (getPriceAtTick c.tick c.decimals0 c.decimals1)

/-- The token is committed with its decimals, or it comes with the pool and has 8. -/
def Found (_ : PoolCreation events tx w) (t : TokenID) (decimals : ℕ) : Prop :=
  decimalAt w.committed t = some decimals ∨
    decimalAt w.committed t = none ∧ decimals = 8 ∧
      ∃ d ∈ parseEvents events EventData.tokenRegistered? tx.id, d.tokenId = t

/-- The decimals that `applyTransaction` comes by. -/
theorem tokenDecimals_eq_some_iff (c : PoolCreation events tx w) {t : TokenID} {n : ℕ} :
    Dex.tokenDecimals (w.committed.get (.token t))
        (parseEvents events EventData.tokenRegistered? tx.id) t = some n ↔ c.Found t n := by
  rw [Found, decimalAt]
  cases hrow : (w.committed.get (.token t) : Option TokenRow) with
  | some r => simp [Dex.tokenDecimals]
  | none =>
    simp only [Dex.tokenDecimals, List.any_eq_true, beq_iff_eq, Option.map_none, reduceCtorEq,
      false_or, true_and]
    split_ifs with h
    · simpa [h] using eq_comm
    · simp [h]

/-- Registering the tokens succeeds and commits nothing. -/
theorem exists_registered_run (env : Env) (tokens : List TokenRegisteredData) (sched : List ℕ)
    (w : DBSession) :
    ∃ v, (Async.interleave sched (tokens.map (Dex.registerToken env))).run w = (.ok (), v) ∧
      v.committed = w.committed := by
  have hstable : ∀ p ∈ tokens.map (Dex.registerToken env),
      p.Stable NoFailure (fun v => v.committed = w.committed) fun _ => True := by
    intro p hp
    obtain ⟨d, -, rfl⟩ := List.mem_map.mp hp
    exact stable_act fun v hv => ⟨(send_dbTrx_committed _ v).trans hv, id⟩
  obtain ⟨r, v, hrun, hv, hfail, -⟩ := (Stable.interleave sched hstable).run rfl
  cases r with
  | ok => exact ⟨v, hrun, hv⟩
  | error e => exact (hfail e rfl).elim

/-- Both rows are written. -/
theorem exists_insertPool_run {key : PoolKey} (hkey : key.Ordered) (row : Bool → PoolRow)
    (w : DBSession) :
    ∃ w', (insertPool key row).run w = (.ok (), w') ∧
      ∀ inverted, (w'.view .dbTrx).get (key.oriented inverted).cell = some (row inverted) := by
  refine ⟨_, rfl, fun inverted => ?_⟩
  have hstable := stable_insertPool (S := (· = row inverted)) hkey hkey fun _ => rfl
  obtain ⟨r, hr, rfl⟩ := (hstable.run_ok trivial rfl).2 (.inr (reaches_insertPool hkey rfl))
  exact hr _

/-- What a run that ends well has found and written. -/
theorem applyCreatePool_run_ok (c : PoolCreation events tx w) {v : DBSession}
    (hv : (Async.interleave (env.sched (.registeredTokens tx.id))
      ((parseEvents events EventData.tokenRegistered? tx.id).map (Dex.registerToken env))).run w =
        (.ok (), v)) (hcommitted : v.committed = w.committed) {feeHex : String}
    (hfee : Dex.feeHex c.created.fee = some feeHex) :
    (Dex.applyCreatePool env header tx events).run w = (.ok (), w') ↔
      ∃ decimals0, c.Found c.created.token0 decimals0 ∧
        ∃ decimals1, c.Found c.created.token1 decimals1 ∧
        (insertPool c.key (Dex.poolRow env header c.created feeHex c.tick decimals0
          decimals1)).run v = (.ok (), w') := by
  simp only [← tokenDecimals_eq_some_iff, ← hcommitted]
  rw [Dex.applyCreatePool, ifSuccessful, if_pos c.successful, run_bind_ok]
  simp only [hv, c.created_eq, hfee, c.tick_eq, ofOption_some, pure_bind', Table.run_find_bind]
  constructor
  · rintro ⟨⟨⟩, v', heq, hrun⟩
    obtain ⟨-, rfl⟩ := Prod.mk.inj heq
    obtain ⟨decimals0, h₀, hrun⟩ := run_ofOption_bind_ok.mp hrun
    obtain ⟨decimals1, h₁, hrun⟩ := run_ofOption_bind_ok.mp hrun
    exact ⟨decimals0, h₀, decimals1, h₁, hrun⟩
  · rintro ⟨decimals0, h₀, decimals1, h₁, hrun⟩
    exact ⟨(), v, rfl, run_ofOption_bind_ok.mpr ⟨decimals0, h₀,
      run_ofOption_bind_ok.mpr ⟨decimals1, h₁, hrun⟩⟩⟩

/-- **What the rows carry**: the price with the decimals that were found. -/
theorem storesPrices_iff (c : PoolCreation events tx w) (env : Env) (header : BlockHeader)
    {price : Bool → ℚ} : c.StoresPrices env header price ↔
      ∃ decimals0, c.Found c.created.token0 decimals0 ∧
        ∃ decimals1, c.Found c.created.token1 decimals1 ∧
        ∀ inverted, env.getPriceAtTick c.tick decimals0 decimals1 inverted = price inverted := by
  obtain ⟨v, hv, hcommitted⟩ := exists_registered_run env
    (parseEvents events EventData.tokenRegistered? tx.id) (env.sched (.registeredTokens tx.id)) w
  obtain ⟨feeHex, hfee⟩ : ∃ feeHex, Dex.feeHex c.created.fee = some feeHex :=
    ⟨_, if_pos c.fee_lt⟩
  have hkey : c.key.Ordered := c.ordered
  constructor
  · rintro ⟨w', hrun, hprice⟩
    obtain ⟨decimals0, h₀, decimals1, h₁, hinsert⟩ :=
      (c.applyCreatePool_run_ok hv hcommitted hfee).mp hrun
    refine ⟨decimals0, h₀, decimals1, h₁, fun inverted => ?_⟩
    obtain ⟨w'', hinsert', hrow⟩ := exists_insertPool_run hkey
      (Dex.poolRow env header c.created feeHex c.tick decimals0 decimals1) v
    obtain ⟨-, rfl⟩ := Prod.mk.inj (hinsert.symm.trans hinsert')
    obtain ⟨r, hr, hr'⟩ := hprice inverted
    rw [← hr', ← Option.some.inj ((hrow inverted).symm.trans hr)]
    rfl
  · rintro ⟨decimals0, h₀, decimals1, h₁, hprice⟩
    obtain ⟨w', hinsert, hrow⟩ := exists_insertPool_run hkey
      (Dex.poolRow env header c.created feeHex c.tick decimals0 decimals1) v
    exact ⟨w', (c.applyCreatePool_run_ok hv hcommitted hfee).mpr
      ⟨decimals0, h₀, decimals1, h₁, hinsert⟩, fun inverted => ⟨_, hrow inverted, hprice inverted⟩⟩

/-- **When a new pool gets the price of its tick.** -/
theorem create_pool_priced_iff (c : PoolCreation events tx w) (env : Env) (header : BlockHeader) :
    c.PricedTruly env header ↔
      c.Found c.created.token0 c.decimals0 ∧ c.Found c.created.token1 c.decimals1 := by
  simp only [PricedTruly, storesPrices_iff]
  constructor
  · intro h
    -- a function that tells all decimals apart
    obtain ⟨decimals0, h₀, decimals1, h₁, hprice⟩ := h fun _ n₀ n₁ _ => (Nat.pair n₀ n₁ : ℚ)
    obtain ⟨rfl, rfl⟩ := Nat.pair_eq_pair.mp (Nat.cast_injective (hprice false))
    exact ⟨h₀, h₁⟩
  · rintro ⟨h₀, h₁⟩ getPriceAtTick
    exact ⟨_, h₀, _, h₁, fun _ => rfl⟩

end PoolCreation

end PoolCreation

/-! ### A token that comes with its pool -/

/-- A pool at tick 0 of a token that comes with it, and the token `kly`. -/
def creationEvents (d : TokenRegisteredData) : List Event :=
  [⟨"e0", 0, 1, ["04a"], .tokenRegistered d⟩,
   ⟨"e1", 1, 1, ["04a"], .poolCreated ⟨d.tokenId, "kly", 3000, 60, "pool"⟩⟩,
   ⟨"e2", 2, 1, ["04a"], .poolInitialized 0⟩]

/-- The transaction that creates it. -/
def creationTx : IndexedTx :=
  ⟨⟨"a", "dex", "createPool", .dexCreatePool, "alice", 0, 0, 0, 0, Command.dexCreatePool_fits⟩,
    0, some "alice", .successful⟩

/-- The token is new, and `kly` is committed with 8 decimals. -/
def creationWith (decimal : ℕ) :
    PoolCreation (creationEvents ⟨"abc", "ABC", decimal⟩) creationTx paired where
  created := ⟨"abc", "kly", 3000, 60, "pool"⟩
  tick := 0
  decimals0 := decimal
  decimals1 := 8
  successful := rfl
  created_eq := rfl
  tick_eq := rfl
  fee_lt := by norm_num
  ordered := by decide
  registered0 := rfl
  registered1 := (by decide +kernel : decimalAt (paired.view .dbTrx) "kly" = some 8)

/-- With 8 decimals the token is priced truly. -/
theorem create_pool_priced_eight :
    (creationWith 8).Found "abc" 8 ∧ (creationWith 8).Found "kly" 8 ∧
      (creationWith 8).PricedTruly pricedEnv increaseHeader := by
  have habc : (creationWith 8).Found "abc" 8 :=
    .inr ⟨by decide +kernel, rfl, _, List.mem_cons_self, rfl⟩
  have hkly : (creationWith 8).Found "kly" 8 := .inl (by decide +kernel)
  exact ⟨habc, hkly,
    ((creationWith 8).create_pool_priced_iff pricedEnv increaseHeader).mpr ⟨habc, hkly⟩⟩

/-- With 6 decimals it is priced as if it had 8. -/
theorem six_decimals_priced_as_eight :
    (creationWith 6).StoresPrices pricedEnv increaseHeader (priceAtTick 0 8 8) ∧
      priceAtTick 0 8 8 false = 1 ∧ priceAtTick 0 6 8 false = 100 ∧
      ¬ (creationWith 6).PricedTruly pricedEnv increaseHeader := by
  have hkly : decimalAt paired.committed "kly" = some 8 := by decide +kernel
  have habc : decimalAt paired.committed "abc" = none := by decide +kernel
  have height : priceAtTick 0 8 8 false = 1 := by decide +kernel
  have hsix : priceAtTick 0 6 8 false = 100 := by decide +kernel
  refine ⟨?_, height, hsix, fun htruly => ?_⟩
  · exact (PoolCreation.storesPrices_iff _ _ _).mpr ⟨8,
      .inr ⟨habc, rfl, _, List.mem_cons_self, rfl⟩, 8, .inl hkly, fun _ => rfl⟩
  · obtain ⟨n₀, h₀, n₁, h₁, hprice⟩ :=
      (PoolCreation.storesPrices_iff _ _ _).mp (htruly priceAtTick)
    obtain rfl : n₀ = 8 := by
      rcases h₀ with hrow | ⟨-, heq, -⟩
      · exact absurd (habc.symm.trans hrow) (by simp)
      · exact heq
    obtain rfl : n₁ = 8 := by
      rcases h₁ with hrow | ⟨-, heq, -⟩
      · exact Option.some.inj (hrow.symm.trans hkly)
      · exact heq
    have hsame : priceAtTick 0 8 8 false = priceAtTick 0 6 8 false := hprice false
    rw [height, hsix] at hsame
    norm_num at hsame

end SwaptoshiService
