import SwaptoshiService.Jobs.TickUndo

/-!
# Undoing pools and factory tokens

The `revertTransaction` hooks of `createPool` and `tokenCreate` **never** run to their end. The
first hands `deleteByPrimaryKey` a flat list for the three columns of the primary key of `pool`;
the second reads `symbol` off the array that `find` returns, whatever the table holds. The
deletion job that runs them rolls back, so what the creation wrote stays, and a creation that
returned early without writing anything blocks the deletion just the same
(`creation_revert_fails`).
-/

namespace SwaptoshiService

open Session Async

/-- The tables that the two creating commands write. -/
def creationTables : List TableName := [.pool, .registeredDexToken, .tokenFactory, .tokenMetadata]

/-- The command creates a pool or a factory token. -/
def Command.creates : Command → Bool
  | .dexCreatePool | .tokenFactoryCreate => true
  | _ => false

section Fails

variable {env : Env} {header : BlockHeader} {events : List Event} {tx : IndexedTx}
  {db db₁ db₂ : DB} {w : DBSession}

theorem revertCreatePool_fails (hs : tx.isSuccessful = true) :
    ¬ (Dex.revertCreatePool tx events).Succeeds w := by
  rw [Dex.revertCreatePool, ifSuccessful, if_pos hs]
  rintro ⟨a, w', hrun⟩
  obtain ⟨⟨⟩, v, -, hrun⟩ := run_bind_ok.mp hrun
  obtain ⟨created, -, hrun⟩ := run_ofOption_bind_ok.mp hrun
  rw [Dex.deletePool_eq] at hrun
  have hthrow := congrArg Prod.fst hrun
  simp at hthrow

theorem revertTokenCreate_fails (hs : tx.isSuccessful = true) :
    ¬ (TokenFactory.revertTokenCreate tx events).Succeeds w := by
  rw [TokenFactory.revertTokenCreate, ifSuccessful, if_pos hs]
  rintro ⟨a, w', hrun⟩
  obtain ⟨⟨tokenId, owner, amount⟩, -, hrun⟩ := run_ofOption_bind_ok.mp hrun
  have hthrow := congrArg Prod.fst hrun
  simp [Table.run_find_bind] at hthrow

/-- Whatever the state, reverting a creation throws. -/
theorem revertTransaction_creates_fails (hs : tx.isSuccessful = true)
    (hc : tx.params.creates = true) : ¬ (revertTransaction env header events tx).Succeeds w := by
  rw [revertTransaction_eq, revertHook]
  cases hp : tx.params with
  | dexCreatePool => exact revertCreatePool_fails hs
  | tokenFactoryCreate => exact revertTokenCreate_fails hs
  | _ => simp [hp, Command.creates] at hc

/-- **A creation is never undone.** After any successful `createPool` or `tokenCreate` was
applied, reverting it does not complete, so it does not restore the tables either. -/
theorem creation_revert_fails (hs : tx.isSuccessful = true) (hc : tx.params.creates = true)
    (_happly : applyAlone env header events tx db = (.ok (), db₁)) :
    ¬ ∃ db₂, revertAlone env header events tx db₁ = (.ok (), db₂) ∧
      ∀ c : Cell, c.table ∈ creationTables → db₂.get c = db.get c := by
  rintro ⟨db₂, hrevert, -⟩
  obtain ⟨-, w, hw, -⟩ := transact_ok.mp hrevert
  have hs' : tx.forked.isSuccessful = true := hs
  exact revertTransaction_creates_fails hs' hc ⟨(), w, hw⟩

end Fails

/-! ### A pool, and a factory token without attributes -/

/-- A successful `createPool`. -/
def createPoolTx : IndexedTx :=
  ⟨⟨"p", "dex", "createPool", .dexCreatePool, "alice", 0, 0, 0, 0, Command.dexCreatePool_fits⟩,
    0, some "alice", .successful⟩

/-- The pool of two registered tokens is created and initialised. -/
def poolEvents : List Event :=
  [⟨"0", 0, 1, [txTopic "p"], .poolCreated ⟨"btc", "kly", 3000, 60, "pool"⟩⟩,
    ⟨"1", 1, 1, [txTopic "p"], .poolInitialized 7⟩]

/-- A successful `tokenCreate`. -/
def createTokenTx : IndexedTx :=
  ⟨⟨"t", "tokenFactory", "tokenCreate", .tokenFactoryCreate, "alice", 0, 0, 0, 0,
    Command.tokenFactoryCreate_fits⟩, 0, some "alice", .successful⟩

/-- The token has no attributes, so nothing is inserted for it. -/
def tokenEvents : List Event :=
  [⟨"0", 0, 1, [txTopic "t"], .factoryCreated "token" "alice" 5⟩]

/-- The pool is there after it was applied, and reverting it does not complete. -/
theorem creation_revert_fails_pool :
    let db₁ := (applyAlone onePoolEnv increaseHeader poolEvents createPoolTx onePoolDB).2
    (db₁.get (.pool "btc" "kly" 3000)).isSome ∧
      ¬ ∃ db₂, revertAlone onePoolEnv increaseHeader poolEvents createPoolTx db₁ = (.ok (), db₂) ∧
        ∀ c : Cell, c.table ∈ creationTables → db₂.get c = onePoolDB.get c :=
  ⟨rfl, creation_revert_fails rfl rfl rfl⟩

/-- Reverting a creation that inserted nothing throws a `TypeError`, and reverting a pool fails
in MySQL; both leave the tables as the creation left them. -/
theorem creation_not_undone :
    let applied := applyAlone onePoolEnv increaseHeader tokenEvents createTokenTx onePoolDB
    let reverted := revertAlone onePoolEnv increaseHeader tokenEvents createTokenTx applied.2
    let pool := applyAlone onePoolEnv increaseHeader poolEvents createPoolTx onePoolDB
    let unpool := revertAlone onePoolEnv increaseHeader poolEvents createPoolTx pool.2
    applied = (.ok (), onePoolDB) ∧ reverted = (.error .typeError, onePoolDB) ∧
      pool.1 = .ok () ∧ unpool.1 = .error (.error "Operand should contain 3 column(s)") ∧
      (onePoolDB.get (.pool "btc" "kly" 3000)).isNone ∧
      (unpool.2.get (.pool "btc" "kly" 3000)).isSome := by
  refine ⟨Prod.ext rfl (Store.ext_get fun c => rfl), Prod.ext rfl (Store.ext_get fun c => rfl),
    rfl, rfl, rfl, rfl⟩

end SwaptoshiService
