import SwaptoshiService.Jobs.TransactionRecords

/-!
# What deletion does after reverting the transactions

Once the transactions of a block are reverted, a deletion job looks up the topics of its events and
the tokens of the pools it swaps on, and throws when one is missing. Nothing else can fail there.
Indexing the block has looked up the same (`lookedUp_of_indexed`), so the rest of its deletion runs
to its end as long as the tokens are still registered (`deleteBlockRest_succeeds`).
-/

namespace SwaptoshiService

open Session Async

/-- The tokens of the pool of a swap are registered. -/
def TokensKnown (env : Env) (db : DB) (e : SwapEvent) : Prop :=
  (db.get (.token (env.decodePoolAddress e.poolAddress).token0)).isSome ∧
    (db.get (.token (env.decodePoolAddress e.poolAddress).token1)).isSome

/-- What both jobs look up for the events of a block: the topics of the events, and the tokens of
the pools that are swapped on. -/
structure LookedUp (env : Env) (events : List Event) (db : DB) : Prop where
  topics : (eventTopicsInfo events).isSome
  tokens : ∀ e ∈ swapEvents events, TokensKnown env db e

/-! ### Indexing looks it up -/

section Index

variable {env : Env} {header : BlockHeader} {events : List Event} {db : DB}

private def offTokens : Conn → Cell → Prop := fun _ c => ¬ isToken c

private theorem offTokens_of_table {conn : Conn} {c : Cell} (h : c.table ≠ .registeredDexToken) :
    offTokens conn c := h

private theorem showsTokens_of_confined {α : Type} {p : Prog α}
    (hp : Confined (Respects offTokens) p) : p.Keeps (Shows .dbTrx isToken db) :=
  hp.keeps_shows (leavesAlone_respects fun _ _ h => h) .dbTrx db

private theorem offTokens_fixes (conn : Conn) (st : Stmt) (hst : Respects offTokens conn st)
    {c : Cell} (hc : isToken c) : st.Fixes c := hst c fun h => h hc

/-- The function for a swap event does not get past a missing token. -/
private theorem reaches_applySwap (e : SwapEvent) :
    (applySwap env header e).Reaches (Shows .dbTrx isToken db) fun _ => TokensKnown env db e := by
  refine reaches_read_bind fun w hw => reaches_read_bind fun w' hw' => ?_
  rw [hw (.token (env.decodePoolAddress e.poolAddress).token0) rfl,
    hw' (.token (env.decodePoolAddress e.poolAddress).token1) rfl]
  cases h₀ : db.get (.token (env.decodePoolAddress e.poolAddress).token0) with
  | none => exact fun _ _ => .inr trivial
  | some r₀ =>
    cases h₁ : db.get (.token (env.decodePoolAddress e.poolAddress).token1) with
    | none => exact fun _ _ => .inr trivial
    | some r₁ =>
      refine (reaches_act fun _ _ => ?_).bind_left _
      exact ⟨by rw [h₀]; rfl, by rw [h₁]; rfl⟩

private theorem swapWrites_offTokens (conn : Conn) (c : Cell) (h : swapWrites conn c) :
    offTokens conn c := by
  cases conn with
  | dbTrx =>
    have ht : c.table = .volume := h
    exact offTokens_of_table (by simp [ht])
  | default => rcases h with h | h <;> exact offTokens_of_table (by simp [h])

/-- If the swaps of a block were applied, their tokens are registered. -/
private theorem tokensKnown_of_applySwapEvent {sched : List ℕ} {w w' : DBSession}
    (hw : Shows .dbTrx isToken db w)
    (hrun : (applySwapEvent env sched header events).run w = (.ok (), w'))
    {e : SwapEvent} (he : e ∈ swapEvents events) : TokensKnown env db e := by
  refine run_interleave_reaches (E := AnyFailure) (Q := fun _ => TokensKnown env db e)
    (fun p hp => ?_) ⟨_, List.mem_map_of_mem he, reaches_applySwap e⟩ hw hrun
  obtain ⟨e', -, rfl⟩ := List.mem_map.mp hp
  have hconf : Confined (Respects offTokens) (applySwap env header e') :=
    (applySwap_confined e').widen swapWrites_offTokens
  refine All.stable (All.mono hconf ?_)
  rintro u (rfl | ⟨conn, st, hst, rfl⟩) s hs
  · exact ⟨hs, id⟩
  · refine ⟨fun c hc => ?_, id⟩
    exact ((sameAt_send (offTokens_fixes conn st hst hc) s).view .dbTrx).trans (hs c hc)

/-- Indexing a block whose transactions register no token looks it all up. -/
theorem lookedUp_of_indexed {order : List ℕ} {assets : GenesisAssets} {block : Block}
    (hne : block.header.height ≠ env.genesisHeight)
    (htokens : Confined (Respects fun _ c => ¬ isToken c)
      (processTransactions env order block.header events block.transactions)) {w : DBSession}
    (hrun : (indexBlockTrx env order assets block events).run (ofStore db) = (.ok (), w)) :
    LookedUp env events db := by
  obtain ⟨w₁, hw₁, hrun⟩ := indexBlockTrx_run_of_ne hne hrun
  obtain ⟨⟨⟩, w₂, hw₂, hrun⟩ := Async.run_bind_ok.mp hrun
  obtain ⟨⟨⟩, w₃, hw₃, hrun⟩ := Async.run_bind_ok.mp hrun
  obtain ⟨⟨⟩, w₄, hw₄, hrun⟩ := Async.run_bind_ok.mp hrun
  obtain ⟨⟨⟩, w₅, hw₅, -⟩ := Async.run_bind_ok.mp hrun
  refine ⟨?_, fun e he => tokensKnown_of_applySwapEvent ?_ hw₅ he⟩
  -- The topics of the events could be read, or there are no events.
  · rw [indexBlockEvents] at hw₃
    split at hw₃
    · rename_i hempty
      rw [List.isEmpty_iff.mp hempty]
      rfl
    · obtain ⟨⟨⟩, u, hu, -⟩ := Async.run_bind_ok.mp hw₃
      obtain ⟨topics, htopics, -⟩ := Async.run_ofOption_bind_ok.mp hu
      rw [htopics]
      rfl
  -- When the swaps were applied, the tokens were still those of the tables.
  · have hconf : Confined (Respects offTokens) (do
        processTransactions env order block.header events block.transactions
        incrementGeneratedBlocks block.header.generatorAddress
        indexBlockEvents env block.header events
        indexPrices env block.header : Prog Unit) := by
      refine Confined.bind htokens fun _ => (incrementGeneratedBlocks_confined _ ?_).bind fun _ =>
        (indexBlockEvents_confined ?_ ?_ fun t _ => ?_).bind fun _ =>
        indexPrices_confined ?_
      · exact offTokens_of_table (by simp [Cell.table])
      · rintro c (hc | hc) <;> exact offTokens_of_table (by simp [hc])
      · exact offTokens_of_table (by simp [Cell.table])
      · exact offTokens_of_table (by simp [Cell.table])
      · rintro conn c (h | h | h) <;> exact offTokens_of_table (by simp [h])
    have hstart : Shows .dbTrx isToken db (ofStore db) := fun _ _ => rfl
    have hend := (showsTokens_of_confined hconf).run hstart
    rwa [Async.run_bind_ok.mpr ⟨(), w₁, hw₁, Async.run_bind_ok.mpr ⟨(), w₂, hw₂,
      Async.run_bind_ok.mpr ⟨(), w₃, hw₃, hw₄⟩⟩⟩] at hend

end Index

/-! ### Deletion looks it up again -/

section Delete

variable {env : Env} {header : BlockHeader} {events : List Event} {db : DB} {α : Type}

/-- The program cannot fail while the registered tokens are those of a database. -/
private abbrev CannotFail (db : DB) (p : Prog α) : Prop :=
  p.Stable NoFailure (Shows .dbTrx isToken db) fun _ => True

private theorem cannotFail_exec {conn : Conn} {st : Stmt} (h : ∀ c, isToken c → st.Fixes c) :
    CannotFail db (Session.exec conn st) :=
  stable_act fun w hw => ⟨fun c hc => ((sameAt_send (h c hc) w).view .dbTrx).trans (hw c hc), id⟩

private theorem cannotFail_point {conn : Conn} {c : Cell} {f : Option (Row c) → Option (Row c)}
    (h : c.table ≠ .registeredDexToken) : CannotFail db (Session.exec conn (.point c f)) := by
  refine cannotFail_exec fun c' hc' => Write.point_fixes (fun heq => h ?_) f
  rwa [← heq]

/-- Statements that delete rows of another table. -/
private theorem cannotFail_deleteWhere {p : (c : Cell) → Row c → Bool}
    (h : ∀ t r, p (.token t) r = false) :
    CannotFail db (Session.exec .dbTrx (Table.deleteWhere p)) := by
  refine cannotFail_exec fun c hc => Table.deleteWhere_fixes fun r => ?_
  cases c with
  | token t => exact h t r
  | _ => simp [isToken, Cell.table] at hc

private theorem cannotFail_deleteEvents (h : (eventTopicsInfo events).isSome) :
    CannotFail db (deleteEvents events) := by
  obtain ⟨topics, htopics⟩ := Option.isSome_iff_exists.mp h
  rw [deleteEvents, htopics]
  exact (cannotFail_deleteWhere fun _ _ => rfl).bind fun _ => cannotFail_deleteWhere fun _ _ => rfl

private theorem cannotFail_updateGeneratorRewards {sign : ℤ} :
    CannotFail db (updateGeneratorRewards sign header events) := by
  unfold updateGeneratorRewards
  dsimp only
  split
  · exact stable_pure ()
  · exact (stable_read _).bind fun _ => (stable_read _).bind fun _ =>
      Stable.bind (cannotFail_point (by simp [Cell.table])) fun _ =>
      cannotFail_point (by simp [Cell.table])

private theorem cannotFail_updateTotalLockedAmounts {sched : List ℕ}
    {changes : List (TokenID × ℤ)} : CannotFail db (updateTotalLockedAmounts sched changes) := by
  refine Stable.interleave sched fun p hp => ?_
  obtain ⟨d, -, rfl⟩ := List.mem_map.mp hp
  exact (stable_read _).bind fun _ => cannotFail_point (by simp [Cell.table])

private theorem cannotFail_updateLastPrice {conn : Conn} {t : TokenID} {pair : String}
    {time : ℕ} : CannotFail db (updateLastPrice env conn t pair time) := by
  refine (stable_read _).bind fun row => ?_
  split
  · exact stable_pure ()
  · refine (stable_read _).bind fun price => ?_
    split
    · exact cannotFail_point (by simp [Cell.table])
    · exact stable_pure ()

private theorem cannotFail_updateCurrentPrice {t : TokenID} :
    CannotFail db (updateCurrentPrice env t) := by
  rw [updateCurrentPrice]
  split
  · exact stable_pure ()
  · exact (stable_read _).bind fun _ => cannotFail_point (by simp [Cell.table])

private theorem cannotFail_updatePoolRows {key : PoolKey} {decimals0 decimals1 : ℕ}
    {state : PoolState} : CannotFail db (updatePoolRows env key decimals0 decimals1 state) :=
  Stable.bind (cannotFail_point (by simp [Cell.table])) fun _ =>
    cannotFail_point (by simp [Cell.table])

private theorem cannotFail_revertSwap {e : SwapEvent} (h : TokensKnown env db e) :
    CannotFail db (revertSwap env header e) := by
  refine stable_read_bind fun w hw => stable_read_bind fun w' hw' => ?_
  rw [hw (.token (env.decodePoolAddress e.poolAddress).token0) rfl,
    hw' (.token (env.decodePoolAddress e.poolAddress).token1) rfl]
  obtain ⟨r₀, hr₀⟩ := Option.isSome_iff_exists.mp h.1
  obtain ⟨r₁, hr₁⟩ := Option.isSome_iff_exists.mp h.2
  rw [hr₀, hr₁]
  refine Stable.bind (cannotFail_point (by simp [Cell.table])) fun _ => ?_
  rw [ofOption_some, pure_bind', ofOption_some, pure_bind']
  exact cannotFail_updatePoolRows.bind fun _ => cannotFail_updateCurrentPrice.bind fun _ =>
    cannotFail_updateCurrentPrice

private theorem cannotFail_deletePriceIndex : CannotFail db (deletePriceIndex env header) := by
  refine (stable_read _).bind fun tokens => Stable.bind ?_ fun _ => cannotFail_updateLastPrice
  refine Stable.interleave _ fun p hp => ?_
  obtain ⟨t, -, rfl⟩ := List.mem_map.mp hp
  refine (cannotFail_deleteWhere fun _ _ => rfl).bind fun _ =>
    Stable.bind (Stable.interleave _ fun p hp => ?_) fun _ => ?_
  · obtain ⟨timeframe, -, rfl⟩ := List.mem_map.mp hp
    exact cannotFail_deleteWhere fun _ _ => rfl
  · rw [indexTokenLastPrice, if_neg (not_not.mpr rfl)]
    refine (stable_read _).bind fun base => (stable_read _).bind fun quote => ?_
    split
    · exact cannotFail_updateLastPrice
    · exact stable_pure ()

/-- **The rest of the deletion completes** when the tokens are those of a database that knows what
it looks up. -/
theorem deleteBlockRest_succeeds (h : LookedUp env events db) (height : ℕ) (row : BlockRow)
    {w : DBSession} (hw : Shows .dbTrx isToken db w) :
    (deleteBlockRest env height row events).Succeeds w := by
  have hrest : CannotFail db (deleteBlockRest env height row events) := by
    refine Stable.bind (cannotFail_point (by simp [Cell.table])) fun _ =>
      Stable.bind ?_ fun _ => Stable.bind (Stable.interleave _ fun p hp => ?_) fun _ =>
      cannotFail_deletePriceIndex
    · rw [deleteBlockEvents]
      split
      · exact stable_pure ()
      · exact (cannotFail_deleteEvents h.topics).bind fun _ =>
          cannotFail_updateGeneratorRewards.bind fun _ => cannotFail_updateTotalLockedAmounts
    · obtain ⟨e, he, rfl⟩ := List.mem_map.mp hp
      exact cannotFail_revertSwap (h.tokens e he)
  obtain ⟨r, w', hrun, -, hfail, -⟩ := hrest.run hw
  cases r with
  | error e => exact (hfail e rfl).elim
  | ok a => exact ⟨a, w', hrun⟩

end Delete

end SwaptoshiService
