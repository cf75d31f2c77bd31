import SwaptoshiService.Processor.Touch

/-!
# Dispatch of transactions to their processors

`applyTransaction` and `revertTransaction` (`transactionProcessor/index.js`) look the processor
of a transaction up by module and command. The commands without a hook, and the hooks that only
schedule account updates in the cache, change no table. Since a transaction has the parameters of
the command it names, the processor that is found is the one for these parameters
(`applyTransaction_eq`).

The specification of a processor is its footprint: `applyTouches` lists what the hook reads and
writes, and `applyTransaction_within` shows that it does nothing else. What the jobs need to
know about all processors at once is derived from the lists.
-/

namespace SwaptoshiService

/-- The processor of `applyTransaction` for the parameters of a transaction. -/
def applyHook (env : Env) (header : BlockHeader) (events : List Event)
    (tx : IndexedTx) : Prog Unit :=
  match tx.params with
  | .registerMultisignature mandatoryKeys optionalKeys =>
    Pos.applyRegisterMultisignature env tx mandatoryKeys optionalKeys
  | .registerValidator name blsKey proofOfPossession generatorKey =>
    Pos.applyRegisterValidator env header tx name blsKey proofOfPossession generatorKey
  | .changeCommission newCommission => Pos.applyChangeCommission env header tx newCommission
  | .stake stakes => Pos.applyStake env tx stakes
  | .updateGeneratorKey generatorKey => Pos.applyUpdateGeneratorKey env tx generatorKey
  | .registerKeys blsKey proofOfPossession generatorKey =>
    Pos.applyRegisterKeys env tx blsKey proofOfPossession generatorKey
  | .registerMainchain => Interoperability.applyRegisterMainchain env header tx
  | .registerSidechain chainID name =>
    Interoperability.applyRegisterSidechain env header tx chainID name
  | .terminateSidechainForLiveness chainID => Interoperability.terminateSidechain env tx chainID
  | .submitCrossChainUpdate sendingChainID =>
    Interoperability.applyCrossChainUpdate env header tx sendingChainID
  | .tokenTransfer params => Token.applyTransfer env header tx params events
  | .tokenTransferCrossChain params receivingChainID messageFee =>
    Token.applyTransferCrossChain env header tx params receivingChainID messageFee events
  | .nftTransfer => Dex.applyNFTTransfer tx events
  | .dexCreatePool => Dex.applyCreatePool env header tx events
  | .dexMint token0 token1 fee => Dex.applyMint env header tx token0 token1 fee events
  | .dexBurn => Dex.applyBurn tx events
  | .dexIncreaseLiquidity poolAddress =>
    Dex.applyLiquidity Dex.increaseLiquidity env header tx poolAddress events
  | .dexDecreaseLiquidity poolAddress =>
    Dex.applyLiquidity Dex.decreaseLiquidity env header tx poolAddress events
  | .tokenFactoryCreate => TokenFactory.applyTokenCreate env tx events
  | .tokenFactoryMint tokenId distribution => TokenFactory.applyTokenMint tx tokenId distribution
  | .tokenFactoryBurn tokenId amount => TokenFactory.applyTokenBurn tx tokenId amount
  | .tokenFactorySetAttributes => TokenFactory.applyFactorySetAttributes env tx events
  | .other => pure ()

/-- The processor of `revertTransaction` for the parameters of a transaction. -/
def revertHook (env : Env) (header : BlockHeader) (events : List Event)
    (tx : IndexedTx) : Prog Unit :=
  match tx.params with
  | .registerMultisignature mandatoryKeys optionalKeys =>
    Pos.revertRegisterMultisignature env tx mandatoryKeys optionalKeys
  | .registerValidator _ _ _ _ => Pos.revertRegisterValidator env header tx
  | .changeCommission newCommission => Pos.revertChangeCommission env header tx newCommission
  | .stake stakes => Pos.revertStake env tx stakes
  | .updateGeneratorKey _ => Pos.revertUpdateGeneratorKey env tx
  | .registerKeys _ _ _ => Pos.revertRegisterKeys env tx
  | .registerMainchain => Interoperability.revertRegisterChain tx env.mainchainID
  | .registerSidechain chainID _ => Interoperability.revertRegisterChain tx chainID
  | .terminateSidechainForLiveness chainID => Interoperability.terminateSidechain env tx chainID
  | .submitCrossChainUpdate sendingChainID =>
    Interoperability.revertCrossChainUpdate env header tx sendingChainID
  | .tokenTransfer _ => pure ()
  | .tokenTransferCrossChain _ _ _ => pure ()
  | .nftTransfer => Dex.revertNFTTransfer tx events
  | .dexCreatePool => Dex.revertCreatePool tx events
  | .dexMint token0 token1 fee => Dex.revertMint env header tx token0 token1 fee events
  | .dexBurn => Dex.revertBurn env tx events
  | .dexIncreaseLiquidity poolAddress =>
    Dex.revertLiquidity Dex.increaseLiquidity env header tx poolAddress events
  | .dexDecreaseLiquidity poolAddress =>
    Dex.revertLiquidity Dex.decreaseLiquidity env header tx poolAddress events
  | .tokenFactoryCreate => TokenFactory.revertTokenCreate tx events
  | .tokenFactoryMint tokenId distribution => TokenFactory.revertTokenMint tx tokenId distribution
  | .tokenFactoryBurn tokenId amount => TokenFactory.revertTokenBurn tx tokenId amount
  | .tokenFactorySetAttributes => pure ()
  | .other => pure ()

/-- `moduleCommandProcessorMap.has(tx.command)` for the module of the transaction. -/
def Transaction.hasProcessor (tx : Transaction) : Bool :=
  tx.params.registered.contains (tx.module, tx.command)

/-- `applyTransaction(blockHeader, tx, events, dbTrx)`. -/
def applyTransaction (env : Env) (header : BlockHeader) (events : List Event)
    (tx : IndexedTx) : Prog Unit :=
  if tx.hasProcessor then applyHook env header events tx else pure ()

/-- `revertTransaction(blockHeader, tx, events, dbTrx)`. -/
def revertTransaction (env : Env) (header : BlockHeader) (events : List Event)
    (tx : IndexedTx) : Prog Unit :=
  if tx.hasProcessor then revertHook env header events tx else pure ()

section Dispatch

variable {env : Env} {header : BlockHeader} {events : List Event} {tx : IndexedTx}

private theorem hasProcessor_of_ne (tx : Transaction) (h : tx.params ≠ .other) :
    tx.hasProcessor = true := List.contains_iff_mem.mpr (tx.mem_registered h)

/-- The registry leads to the hook of the parameters. -/
theorem applyTransaction_eq :
    applyTransaction env header events tx = applyHook env header events tx := by
  by_cases h : tx.params = .other
  · rw [applyTransaction, applyHook, h, ite_self]
  · rw [applyTransaction, if_pos (hasProcessor_of_ne tx.toTransaction h)]

theorem revertTransaction_eq :
    revertTransaction env header events tx = revertHook env header events tx := by
  by_cases h : tx.params = .other
  · rw [revertTransaction, revertHook, h, ite_self]
  · rw [revertTransaction, if_pos (hasProcessor_of_ne tx.toTransaction h)]

end Dispatch

/-! ### Footprints -/

/-- The TVL rows of a transaction, and the tokens whose symbols are logged with them. -/
def tvlTouches (txID : TxID) (key : PoolKey) : List Touch :=
  [.read .dbTrx (.token key.token0), .read .dbTrx (.token key.token1),
    .set .dbTrx (.tvl txID 0), .set .dbTrx (.tvl txID 1)]

/-- The two ticks of a liquidity event, and the pool that is synchronised after them. -/
def tickTouches (poolAddress : Address) (d : LiquidityData) : List Touch :=
  [.set .default (.tick poolAddress d.tickLower), .set .default (.tick poolAddress d.tickUpper),
    .syncPool]

/-- Footprint of `mint`. -/
def mintTouches (env : Env) (tx : IndexedTx) (events : List Event) (token0 token1 : TokenID)
    (fee : ℕ) : List Touch :=
  ((parseSingleEvent events EventData.increaseLiquidity? tx.id).toList.map fun d =>
    .set .dbTrx (.position d.tokenId)) ++
    (getPoolKey token0 token1 fee).toList.flatMap fun key =>
      tvlTouches tx.id key ++
        (parseSingleEvent events EventData.dexMint? tx.id).toList.flatMap
          (tickTouches (env.poolAddress key))

/-- Footprint of `increaseLiquidity` and `decreaseLiquidity`. -/
def liquidityTouches (k : Dex.LiquidityChange) (env : Env) (tx : IndexedTx)
    (events : List Event) (poolAddress : Address) : List Touch :=
  tvlTouches tx.id (env.decodePoolAddress poolAddress) ++
    ((parseSingleEvent events k.position? tx.id).toList.map fun d =>
      .add .dbTrx (.position d.tokenId)) ++
    (parseSingleEvent events k.ticks? tx.id).toList.flatMap (tickTouches poolAddress)

/-- Footprint of `createPool`. -/
def createPoolTouches (tx : IndexedTx) (events : List Event) : List Touch :=
  ((parseEvents events EventData.tokenRegistered? tx.id).map fun d =>
    .set .dbTrx (.token d.tokenId)) ++
    (parseSingleEvent events EventData.poolCreated? tx.id).toList.flatMap fun d =>
      [.read .default (.token d.token0), .read .default (.token d.token1),
        .set .dbTrx (.pool d.token0 d.token1 d.fee), .set .dbTrx (.pool d.token1 d.token0 d.fee)]

/-- Footprint of `stake`. -/
def stakeTouches (env : Env) (tx : IndexedTx) (stakes : List StakeParam) : List Touch :=
  (Pos.getStakeIndexingInfo env tx stakes).flatMap (fun e =>
    [.read .dbTrx (.stake e.validatorAddress e.stakerAddress),
      .set .dbTrx (.stake e.validatorAddress e.stakerAddress)]) ++
    [.totalStaked env.posTokenID, .totalSelfStaked env.posTokenID].flatMap fun key =>
      [.read .default (.kv key), .set .dbTrx (.kv key)]

/-- Footprint of `tokenCreate`, also where this returns without writing. -/
def tokenCreateTouches (tx : IndexedTx) (events : List Event) : List Touch :=
  [.scan .default .tokenFactory, .scan .default .registeredDexToken] ++
    (parseSingleEvent events EventData.factoryCreated? tx.id).toList.flatMap fun d =>
      [.set .dbTrx (.tokenFactory d.1), .set .dbTrx (.tokenMetadata d.1)]

/-- Footprint of `factorySetAttributes`, also where this returns without writing. -/
def setAttributesTouches (tx : IndexedTx) (events : List Event) : List Touch :=
  (parseSingleEvent events EventData.factorySetAttributes? tx.id).toList.flatMap fun d =>
    [.read .default (.tokenFactory d.1), .set .dbTrx (.tokenFactory d.1),
      .set .dbTrx (.tokenMetadata d.1)]

/-- What the hook of a successful transaction reads and writes. -/
def commandTouches (env : Env) (header : BlockHeader) (events : List Event) (tx : IndexedTx) :
    List Touch :=
  let sender := env.addressFromPublicKey tx.senderPublicKey
  match tx.params with
  | .registerMultisignature mandatoryKeys optionalKeys =>
    (Pos.resolveMultisignatureMemberships env tx mandatoryKeys optionalKeys).toList.flatMap
      fun ms => ms.map fun m => .set .dbTrx (.multisignature m.1)
  | .registerValidator _ _ _ _ => tx.senderAddress.toList.flatMap fun address =>
    [.set .dbTrx (.account address), .set .dbTrx (.validator address),
      .set .dbTrx (.transaction tx.id), .set .dbTrx (.commission address header.height)]
  | .changeCommission _ => [.set .dbTrx (.commission sender header.height)]
  | .stake stakes => stakeTouches env tx stakes
  | .updateGeneratorKey _ => [.set .dbTrx (.account sender), .set .dbTrx (.validator sender)]
  | .registerKeys _ _ _ => [.set .dbTrx (.account sender), .set .dbTrx (.validator sender)]
  | .registerMainchain => [.set .dbTrx (.blockchainApp env.mainchainID)]
  | .registerSidechain chainID _ => [.set .dbTrx (.blockchainApp chainID)]
  | .terminateSidechainForLiveness chainID => [.set .dbTrx (.blockchainApp chainID)]
  | .submitCrossChainUpdate chainID =>
    [.set .dbTrx (.blockchainApp chainID), .set .dbTrx (.ccu tx.id)]
  | .tokenTransfer _ => [.set .dbTrx (.transaction tx.id)]
  | .tokenTransferCrossChain _ _ _ => [.set .dbTrx (.transaction tx.id)]
  | .nftTransfer => (parseSingleEvent events EventData.nftTransfer? tx.id).toList.map fun d =>
    .set .dbTrx (.position d.1)
  | .dexCreatePool => createPoolTouches tx events
  | .dexMint token0 token1 fee => mintTouches env tx events token0 token1 fee
  | .dexBurn => (parseSingleEvent events EventData.tokenURIDestroyed? tx.id).toList.map fun t =>
    .set .dbTrx (.position t)
  | .dexIncreaseLiquidity poolAddress =>
    liquidityTouches Dex.increaseLiquidity env tx events poolAddress
  | .dexDecreaseLiquidity poolAddress =>
    liquidityTouches Dex.decreaseLiquidity env tx events poolAddress
  | .tokenFactoryCreate => tokenCreateTouches tx events
  | .tokenFactoryMint tokenId _ => [.add .dbTrx (.tokenFactory tokenId)]
  | .tokenFactoryBurn tokenId _ => [.add .dbTrx (.tokenFactory tokenId)]
  | .tokenFactorySetAttributes => setAttributesTouches tx events
  | .other => []

/-- What `applyTransaction` reads and writes. -/
def applyTouches (env : Env) (header : BlockHeader) (events : List Event) (tx : IndexedTx) :
    List Touch :=
  if tx.isSuccessful then commandTouches env header events tx else []

section Specifications

variable {env : Env} {header : BlockHeader} {events : List Event} {tx : IndexedTx}
  {F : List Touch}

private theorem within_addTVL {i : ℕ} {row : TVLRow} {token : Option TokenRow}
    (h : .set .dbTrx (.tvl tx.id i) ∈ F) : Within env F (Dex.addTVL tx.id i row token) :=
  (within_upsert h).bind fun _ => (within_ofOption _ token).bind fun _ => within_pure ()

private theorem within_updateTicks {a : Address} {d : LiquidityData}
    (h : tickTouches a d ⊆ F) : Within env F (Dex.updateTicks a d) :=
  (within_upsert (h (by simp [tickTouches]))).bind fun _ =>
    within_upsert (h (by simp [tickTouches]))

theorem applyMint_within {token0 token1 : TokenID} {fee : ℕ} :
    Within env (mintTouches env tx events token0 token1 fee)
      (Dex.applyMint env header tx token0 token1 fee events) := by
  refine within_ifSuccessful fun _ => within_ofOption_bind fun key hkey =>
    within_ofOption_bind fun increase hi => within_ofOption_bind fun mint hm =>
    within_ofOption_bind fun tokenURI _ => ?_
  have hticks : tickTouches (env.poolAddress key) mint ⊆
      mintTouches env tx events token0 token1 fee := by
    intro t ht
    simp [mintTouches, hkey, hm, ht]
  refine (within_upsert ?_).bind fun _ => ?_
  · simp [mintTouches, hi]
  refine (within_find ?_).bind fun t0 => (within_find ?_).bind fun t1 => ?_
  · simp [mintTouches, hkey, tvlTouches]
  · simp [mintTouches, hkey, tvlTouches]
  refine (within_addTVL ?_).bind fun _ => (within_addTVL ?_).bind fun _ => ?_
  · simp [mintTouches, hkey, tvlTouches]
  · simp [mintTouches, hkey, tvlTouches]
  exact (within_updateTicks hticks).bind fun _ =>
    within_syncPoolData (hticks (by simp [tickTouches]))

theorem applyLiquidity_within {k : Dex.LiquidityChange} {poolAddress : Address} :
    Within env (liquidityTouches k env tx events poolAddress)
      (Dex.applyLiquidity k env header tx poolAddress events) := by
  refine within_ifSuccessful fun _ => (within_find ?_).bind fun t0 =>
    (within_find ?_).bind fun t1 => within_ofOption_bind fun change hc => ?_
  · simp [liquidityTouches, tvlTouches]
  · simp [liquidityTouches, tvlTouches]
  refine (within_addTVL ?_).bind fun _ => (within_addTVL ?_).bind fun _ =>
    within_ofOption_bind fun ticks ht => ?_
  · simp [liquidityTouches, tvlTouches]
  · simp [liquidityTouches, tvlTouches]
  have hticks : tickTouches poolAddress ticks ⊆ liquidityTouches k env tx events poolAddress := by
    intro t h
    simp [liquidityTouches, ht, h]
  refine (within_updateTicks hticks).bind fun _ => (within_modify ?_ (.liquidity _ _)).bind
    fun _ => within_syncPoolData (hticks (by simp [tickTouches]))
  simp [liquidityTouches, hc]

theorem applyCreatePool_within :
    Within env (createPoolTouches tx events) (Dex.applyCreatePool env header tx events) := by
  refine within_ifSuccessful fun _ => (within_interleave ?_).bind fun _ =>
    within_ofOption_bind fun created hc => within_ofOption_bind fun hex _ => ?_
  · intro p hp
    obtain ⟨d, hd, rfl⟩ := List.mem_map.mp hp
    exact within_upsert (List.mem_append_left _ (List.mem_map_of_mem hd))
  refine (within_find ?_).bind fun t0 => (within_find ?_).bind fun t1 =>
    within_ofOption_bind fun tick _ => within_ofOption_bind fun d0 _ =>
    within_ofOption_bind fun d1 _ => (within_upsert ?_).bind fun _ => within_upsert ?_
  all_goals simp [createPoolTouches, hc]

private theorem within_updateTotal {key : KVKey} {amount : ℤ}
    (hr : .read .default (.kv key) ∈ F) (hs : .set .dbTrx (.kv key) ∈ F) :
    Within env F (updateTotal key amount) :=
  (within_find hr).bind fun _ => within_upsert hs

theorem applyStake_within {stakes : List StakeParam} :
    Within env (stakeTouches env tx stakes) (Pos.applyStake env tx stakes) := by
  refine within_ifSuccessful fun _ => (within_serial ?_).bind fun _ =>
    (within_updateTotal ?_ ?_).bind fun _ => within_updateTotal ?_ ?_
  · intro p hp
    obtain ⟨e, he, rfl⟩ := List.mem_map.mp hp
    rw [Async.mem_mapOrder] at he
    have hr : Touch.read .dbTrx (.stake e.validatorAddress e.stakerAddress) ∈
        stakeTouches env tx stakes :=
      List.mem_append_left _ (List.mem_flatMap.mpr ⟨e, he, by simp⟩)
    have hs : Touch.set .dbTrx (.stake e.validatorAddress e.stakerAddress) ∈
        stakeTouches env tx stakes :=
      List.mem_append_left _ (List.mem_flatMap.mpr ⟨e, he, by simp⟩)
    refine (within_increment hr hs).bind fun n => ?_
    split
    · exact within_upsert hs
    · exact within_pure ()
  all_goals simp [stakeTouches]

theorem takesName_table {m : FactoryMetadata} {c : Cell} {r : Row c}
    (h : TokenFactory.takesName m c r = true) :
    c.table = .tokenFactory ∨ c.table = .registeredDexToken := by
  cases c <;> simp_all [TokenFactory.takesName, Cell.table]

theorem applyTokenCreate_within :
    Within env (tokenCreateTouches tx events) (TokenFactory.applyTokenCreate env tx events) := by
  refine within_ifSuccessful fun _ => within_ofOption_bind fun d hd => ?_
  obtain ⟨tokenId, owner, amount⟩ := d
  change Within env _ (TokenFactory.createToken env tokenId owner amount _)
  rw [TokenFactory.createToken]
  split
  · exact within_pure ()
  · refine (within_query fun s s' h => ?_).bind fun available => ?_
    · unfold TokenFactory.isTokenAvailable
      rw [existsRow_congr (fun c r hr => takesName_table hr) fun c hc => h c (.inr ?_)]
      rcases hc with hc | hc <;> simp [tokenCreateTouches, hc]
    · split
      · exact within_pure ()
      · refine (within_upsert ?_).bind fun _ => within_upsert ?_
        all_goals simp [tokenCreateTouches, hd]

theorem applyFactorySetAttributes_within :
    Within env (setAttributesTouches tx events)
      (TokenFactory.applyFactorySetAttributes env tx events) := by
  refine within_ifSuccessful fun _ => within_ofOption_bind fun d hd => ?_
  dsimp only
  split_ifs
  · exact within_pure ()
  · refine (within_find ?_).bind fun _ => within_throw _
    simp [setAttributesTouches, hd]
  · split
    · exact within_pure ()
    · refine (within_upsert ?_).bind fun _ => within_upsert ?_
      all_goals simp [setAttributesTouches, hd]
  · exact within_pure ()

private theorem commandTouches_within :
    Within env (commandTouches env header events tx)
      (applyTransaction env header events tx) := by
  rw [commandTouches, applyTransaction_eq, applyHook]
  cases tx.params with
  | registerMultisignature mandatoryKeys optionalKeys =>
    refine within_ifSuccessful fun _ => within_ofOption_bind fun ms hms => within_serial ?_
    intro p hp
    obtain ⟨m, hm, rfl⟩ := List.mem_map.mp hp
    exact within_upsert (List.mem_flatMap.mpr ⟨ms, by simp [hms], List.mem_map_of_mem hm⟩)
  | registerValidator name blsKey pop generatorKey =>
    refine within_ifSuccessful fun _ => within_ofOption_bind fun address ha =>
      (within_upsert ?_).bind fun _ => (within_upsert ?_).bind fun _ =>
      (within_upsert ?_).bind fun _ => within_upsert ?_
    all_goals simp [ha]
  | changeCommission c => exact within_ifSuccessful fun _ => within_upsert (by simp)
  | stake stakes => exact applyStake_within
  | updateGeneratorKey k =>
    exact within_ifSuccessful fun _ => (within_upsert (by simp)).bind fun _ =>
      within_upsert (by simp)
  | registerKeys b p g =>
    exact within_ifSuccessful fun _ => (within_upsert (by simp)).bind fun _ =>
      within_upsert (by simp)
  | registerMainchain => exact within_ifSuccessful fun _ => within_upsert (by simp)
  | registerSidechain c n => exact within_ifSuccessful fun _ => within_upsert (by simp)
  | terminateSidechainForLiveness c =>
    exact within_ifSuccessful fun _ => within_upsert (by simp)
  | submitCrossChainUpdate c =>
    exact within_ifSuccessful fun _ => (within_upsert (by simp)).bind fun _ =>
      within_upsert (by simp)
  | tokenTransfer params =>
    exact within_ifSuccessful fun _ => within_ofOption_bind fun _ _ => within_upsert (by simp)
  | tokenTransferCrossChain params c f =>
    exact within_ifSuccessful fun _ => within_ofOption_bind fun _ _ => within_upsert (by simp)
  | nftTransfer =>
    refine within_ifSuccessful fun _ => within_ofOption_bind fun d hd => within_upsert ?_
    simp [hd]
  | dexCreatePool => exact applyCreatePool_within
  | dexMint token0 token1 fee => exact applyMint_within
  | dexBurn =>
    refine within_ifSuccessful fun _ => within_ofOption_bind fun d hd => within_upsert ?_
    simp [hd]
  | dexIncreaseLiquidity poolAddress => exact applyLiquidity_within
  | dexDecreaseLiquidity poolAddress => exact applyLiquidity_within
  | tokenFactoryCreate => exact applyTokenCreate_within
  | tokenFactoryMint t d =>
    exact within_ifSuccessful fun _ => within_modify (by simp) (.supply _ _)
  | tokenFactoryBurn t a =>
    exact within_ifSuccessful fun _ => within_modify (by simp) (.supply _ _)
  | tokenFactorySetAttributes => exact applyFactorySetAttributes_within
  | other => exact within_pure ()

private theorem ifSuccessful_of_failed (hs : tx.isSuccessful ≠ true) (p : Prog Unit) :
    ifSuccessful tx p = pure () := by
  rw [ifSuccessful, if_neg hs]

theorem applyTransaction_of_failed (hs : tx.isSuccessful ≠ true) :
    applyTransaction env header events tx = pure () := by
  rw [applyTransaction_eq, applyHook]
  cases tx.params <;> first | rfl | exact ifSuccessful_of_failed hs _

/-- **Specification of the processors.** `applyTransaction` reads and writes what
`applyTouches` lists, and nothing else. -/
theorem applyTransaction_within :
    Within env (applyTouches env header events tx) (applyTransaction env header events tx) := by
  rw [applyTouches]
  split
  · exact commandTouches_within
  · rw [applyTransaction_of_failed ‹_›]
    exact within_pure ()

/-! ### The reverting hooks -/

private theorem within_removeTVL {i : ℕ} {row : TVLRow} {token : Option TokenRow}
    (h : .set .dbTrx (.tvl tx.id i) ∈ F) : Within env F (Dex.removeTVL tx.id i row token) :=
  (within_delete h).bind fun _ => (within_ofOption _ token).bind fun _ => within_pure ()

private theorem within_revertTicks {a : Address} {d : LiquidityData}
    (h : tickTouches a d ⊆ F) : Within env F (Dex.revertTicks a d) :=
  (within_upsert (h (by simp [tickTouches]))).bind fun _ =>
    within_upsert (h (by simp [tickTouches]))

theorem revertMint_within {token0 token1 : TokenID} {fee : ℕ} :
    Within env (mintTouches env tx events token0 token1 fee)
      (Dex.revertMint env header tx token0 token1 fee events) := by
  refine within_ifSuccessful fun _ => within_ofOption_bind fun increase hi =>
    (within_deleteByPrimaryKey ?_).bind fun _ => within_ofOption_bind fun key hkey => ?_
  · simp [mintTouches, hi]
  refine (within_find ?_).bind fun t0 => (within_find ?_).bind fun t1 => ?_
  · simp [mintTouches, hkey, tvlTouches]
  · simp [mintTouches, hkey, tvlTouches]
  refine (within_removeTVL ?_).bind fun _ => (within_removeTVL ?_).bind fun _ =>
    within_ofOption_bind fun mint hm => ?_
  · simp [mintTouches, hkey, tvlTouches]
  · simp [mintTouches, hkey, tvlTouches]
  have hticks : tickTouches (env.poolAddress key) mint ⊆
      mintTouches env tx events token0 token1 fee := by
    intro t ht
    simp [mintTouches, hkey, hm, ht]
  exact (within_revertTicks hticks).bind fun _ =>
    within_syncPoolData (hticks (by simp [tickTouches]))

theorem revertLiquidity_within {k : Dex.LiquidityChange} {poolAddress : Address} :
    Within env (liquidityTouches k env tx events poolAddress)
      (Dex.revertLiquidity k env header tx poolAddress events) := by
  refine within_ifSuccessful fun _ => (within_find ?_).bind fun t0 =>
    (within_find ?_).bind fun t1 => within_ofOption_bind fun change hc => ?_
  · simp [liquidityTouches, tvlTouches]
  · simp [liquidityTouches, tvlTouches]
  refine (within_removeTVL ?_).bind fun _ => (within_removeTVL ?_).bind fun _ =>
    within_ofOption_bind fun ticks ht => ?_
  · simp [liquidityTouches, tvlTouches]
  · simp [liquidityTouches, tvlTouches]
  have hticks : tickTouches poolAddress ticks ⊆ liquidityTouches k env tx events poolAddress := by
    intro t h
    simp [liquidityTouches, ht, h]
  refine (within_revertTicks hticks).bind fun _ => (within_modify ?_ (.liquidity _ _)).bind
    fun _ => within_syncPoolData (hticks (by simp [tickTouches]))
  simp [liquidityTouches, hc]

theorem revertStake_within {stakes : List StakeParam} :
    Within env (stakeTouches env tx stakes) (Pos.revertStake env tx stakes) := by
  refine within_ifSuccessful fun _ => (within_serial ?_).bind fun _ =>
    (within_updateTotal ?_ ?_).bind fun _ => within_updateTotal ?_ ?_
  · intro p hp
    obtain ⟨e, he, rfl⟩ := List.mem_map.mp hp
    rw [Async.mem_mapOrder] at he
    exact within_point (List.mem_append_left _ (List.mem_flatMap.mpr ⟨e, he, by simp⟩))
  all_goals simp [stakeTouches]

private theorem commandTouches_within_revert :
    Within env (commandTouches env header events tx)
      (revertTransaction env header events tx) := by
  rw [commandTouches, revertTransaction_eq, revertHook]
  cases tx.params with
  | registerMultisignature mandatoryKeys optionalKeys =>
    refine within_ifSuccessful fun _ => within_ofOption_bind fun ms hms => within_serial ?_
    intro p hp
    obtain ⟨m, hm, rfl⟩ := List.mem_map.mp hp
    exact within_deleteByPrimaryKey
      (List.mem_flatMap.mpr ⟨ms, by simp [hms], List.mem_map_of_mem hm⟩)
  | registerValidator name blsKey pop generatorKey =>
    refine within_ifSuccessful fun _ => within_ofOption_bind fun address ha =>
      (within_upsert ?_).bind fun _ => (within_deleteByPrimaryKey ?_).bind fun _ =>
      within_delete ?_
    all_goals simp [ha]
  | changeCommission c => exact within_ifSuccessful fun _ => within_delete (by simp)
  | stake stakes => exact revertStake_within
  | updateGeneratorKey k => exact within_ifSuccessful fun _ => within_upsert (by simp)
  | registerKeys b p g =>
    exact within_ifSuccessful fun _ => (within_upsert (by simp)).bind fun _ =>
      within_deleteByPrimaryKey (by simp)
  | registerMainchain => exact within_ifSuccessful fun _ => within_deleteByPrimaryKey (by simp)
  | registerSidechain c n =>
    exact within_ifSuccessful fun _ => within_deleteByPrimaryKey (by simp)
  | terminateSidechainForLiveness c =>
    exact within_ifSuccessful fun _ => within_upsert (by simp)
  | submitCrossChainUpdate c =>
    exact within_ifSuccessful fun _ => within_ofOption_bind fun _ _ => within_upsert (by simp)
  | tokenTransfer params => exact within_pure ()
  | tokenTransferCrossChain params c f => exact within_pure ()
  | nftTransfer =>
    refine within_ifSuccessful fun _ => within_ofOption_bind fun d hd => within_upsert ?_
    simp [hd]
  | dexCreatePool =>
    refine within_ifSuccessful fun _ => (within_serial ?_).bind fun _ =>
      within_ofOption_bind fun created _ => ?_
    · intro p hp
      obtain ⟨d, hd, rfl⟩ := List.mem_map.mp hp
      exact within_deleteByPrimaryKey (List.mem_append_left _ (List.mem_map_of_mem hd))
    · rw [Dex.deletePool_eq, Dex.deletePool_eq]
      exact (within_throw _).bind fun _ => within_throw _
  | dexMint token0 token1 fee => exact revertMint_within
  | dexBurn =>
    refine within_ifSuccessful fun _ => within_ofOption_bind fun d hd => within_upsert ?_
    simp [hd]
  | dexIncreaseLiquidity poolAddress => exact revertLiquidity_within
  | dexDecreaseLiquidity poolAddress => exact revertLiquidity_within
  | tokenFactoryCreate =>
    refine within_ifSuccessful fun _ => within_ofOption_bind fun d hd =>
      Within.bind (Session.footprint_findRow (.inr ?_)) fun _ => within_throw _
    simp [tokenCreateTouches, Cell.table]
  | tokenFactoryMint t d =>
    exact within_ifSuccessful fun _ => within_modify (by simp) (.supply _ _)
  | tokenFactoryBurn t a =>
    exact within_ifSuccessful fun _ => within_modify (by simp) (.supply _ _)
  | tokenFactorySetAttributes => exact within_pure ()
  | other => exact within_pure ()

theorem revertTransaction_of_failed (hs : tx.isSuccessful ≠ true) :
    revertTransaction env header events tx = pure () := by
  rw [revertTransaction_eq, revertHook]
  cases tx.params <;> first | rfl | exact ifSuccessful_of_failed hs _

/-- Reverting a transaction reads and writes nothing that applying it does not. -/
theorem revertTransaction_within :
    Within env (applyTouches env header events tx) (revertTransaction env header events tx) := by
  rw [applyTouches]
  split
  · exact commandTouches_within_revert
  · rw [revertTransaction_of_failed ‹_›]
    exact within_pure ()

end Specifications

end SwaptoshiService
