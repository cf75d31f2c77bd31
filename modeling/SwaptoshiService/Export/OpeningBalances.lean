import SwaptoshiService.Connector.GenesisAssets
import SwaptoshiService.Lib.Run

/-!
# Opening balances

The export begins a history with the balances that an account has at genesis
(`export/shared/helpers/account.js`). The users of the genesis block are fetched once, in the
background, and kept; as long as they are not there, and whenever a fetch has failed, the connector
is asked for those of the account alone.

`opening_balances`: at most one fetch is under way, nothing is fetched again once it is there, and
both ways lead to the same balances in every run.
-/

namespace SwaptoshiService

namespace OpeningBalances

open GenesisSubStores RequestAll

/-- An entry of the users sub-store of the token module. -/
structure UserInfo where
  address : String
  tokenID : String
  availableBalance : ℕ
  lockedBalances : List ℕ
deriving DecidableEq

structure OpeningBalance where
  tokenID : String
  amount : String
deriving DecidableEq

/-- The token module. -/
def tokenModule : String := "token"

/-- The users of the token module. -/
def userSubStore : String := "userSubstore"

section Code

variable (assets : List (Asset UserInfo))

/-- `getTokenBalancesAtGenesis(address)` of the connector. -/
def balancesFromConnector (address : String) : Except String (List UserInfo) := do
  let data ← getGenesisAssetByModule assets ⟨some tokenModule, some userSubStore, none, none⟩
  match data.lookup userSubStore with
  | some (.array balancesAtGenesis) => pure (balancesAtGenesis.filter fun e => e.address = address)
  | some (.object _) => throw "balancesAtGenesis.filter is not a function"
  | none => throw "Cannot read properties of undefined (reading 'filter')"

/-- What a fetch leaves in `tokenModuleData`. -/
def fetchUsers : Except String (Option (List UserInfo)) := do
  let totalUsers ← requestLength assets ⟨some tokenModule, some userSubStore, none, none⟩
    tokenModule userSubStore
  let response ← requestAllCustom (requestPage assets tokenModule userSubStore) (some 1000)
    totalUsers
  match response.prop userSubStore with
  | some (.array users) => pure (some users)
  | _ => pure none

/-- `tokenModuleData`, `loadingAssets`, and how many fetches are under way. -/
structure Cache where
  tokenModuleData : Option (List UserInfo)
  loadingAssets : Bool
  fetches : ℕ

/-- `getTokenBalancesAtGenesis()` of the export: what it leaves behind; it returns
`tokenModuleData`. -/
def Cache.request (c : Cache) : Cache :=
  if c.tokenModuleData.isNone && !c.loadingAssets then
    { c with loadingAssets := true, fetches := c.fetches + 1 }
  else c

/-- What can happen to the cache. -/
inductive CacheAction
  | request
  | fetched
  | failed

/-- A fetch may fail at any of its requests. -/
inductive CacheStep : Cache → CacheAction → Cache → Prop
  | request (c : Cache) : CacheStep c .request c.request
  | fetched {c : Cache} {data : Option (List UserInfo)} (hfetch : 0 < c.fetches)
      (hdata : fetchUsers assets = .ok data) :
      CacheStep c .fetched ⟨data, false, c.fetches - 1⟩
  | failed {c : Cache} (hfetch : 0 < c.fetches) :
      CacheStep c .failed { c with loadingAssets := false, fetches := c.fetches - 1 }

/-- The balance of a user. -/
def UserInfo.opening (e : UserInfo) : OpeningBalance where
  tokenID := e.tokenID
  amount := toString (e.availableBalance + e.lockedBalances.foldl (fun total amount =>
    total + amount) 0)

/-- `getOpeningBalances(address)`, where the connector answers. -/
def getOpeningBalances (c : Cache) (address : String) : Except String (List OpeningBalance) := do
  let balancesByAddress ← match c.request.tokenModuleData with
    | some balancesAtGenesis => pure (balancesAtGenesis.filter fun e => e.address = address)
    | none => balancesFromConnector assets address
  pure (balancesByAddress.map UserInfo.opening)

/-- A row of the sheet of metadata. -/
structure MetadataEntry where
  chainID : String
  chainName : String
  note : String
  openingBalanceAmount : Option String
  tokenID : Option String
deriving DecidableEq

/-- `getMetadataEntries(params, chainID, currentChainID)` -/
def getMetadataEntries (c : Cache) (chainName : String → String)
    (address chainID currentChainID : String) : Except String (List MetadataEntry) := do
  let entry (amount tokenID : Option String) : MetadataEntry :=
    ⟨chainID, chainName chainID, "Current Chain ID: " ++ currentChainID, amount, tokenID⟩
  if chainID = currentChainID then
    let openingBalances ← getOpeningBalances assets c address
    let metadataEntries := openingBalances.map fun e => entry (some e.amount) (some e.tokenID)
    if metadataEntries ≠ [] then pure metadataEntries else pure [entry none none]
  else pure [entry none none]

end Code

/-! ### Every run -/

section Runs

variable {assets : List (Asset UserInfo)} {users : List UserInfo} {c c' : Cache}

theorem balancesFromConnector_eq (h : HasSubStore assets tokenModule userSubStore users)
    (address : String) : balancesFromConnector assets address =
      .ok (users.filter fun e => e.address = address) := by
  obtain ⟨asset, -, hassets⟩ := getGenesisAssets_subStore h none none
  rw [balancesFromConnector, getGenesisAssetByModule, hassets]
  rfl

theorem fetchUsers_eq (h : HasSubStore assets tokenModule userSubStore users) :
    fetchUsers assets = .ok (some users) := by
  have hall : requestAllCustom (requestPage assets tokenModule userSubStore) (some 1000)
      (some users.length) = .ok (.object [(userSubStore, .array users)]) :=
    collectAll_requestPage h _
  rw [fetchUsers, requestLength_subStore h]
  simp only [bind, Except.bind, hall]
  rfl

/-- What holds of the cache in every run. -/
structure Cache.Sound (c : Cache) (users : List UserInfo) : Prop where
  fetches : c.fetches = if c.loadingAssets then 1 else 0
  data : ∀ data, c.tokenModuleData = some data → data = users
  loading : c.loadingAssets = true → c.tokenModuleData = none

theorem Cache.Sound.request (h : c.Sound users) : c.request.Sound users := by
  rw [Cache.request]
  split_ifs with hnew
  · simp only [Bool.and_eq_true, Option.isNone_iff_eq_none, Bool.not_eq_true'] at hnew
    have hnone := h.fetches
    rw [hnew.2] at hnone
    exact ⟨by simp [hnone], fun data hdata => h.data data hdata, fun _ => hnew.1⟩
  · exact h

theorem Cache.tokenModuleData_request : c.request.tokenModuleData = c.tokenModuleData := by
  rw [Cache.request]
  split_ifs <;> rfl

theorem CacheStep.sound (hgenesis : HasSubStore assets tokenModule userSubStore users)
    {action : CacheAction} (hstep : CacheStep assets c action c') (h : c.Sound users) :
    c'.Sound users := by
  have hone (hfetch : 0 < c.fetches) : c.fetches - 1 = 0 := by
    have hfetches := h.fetches
    split_ifs at hfetches <;> omega
  cases hstep with
  | request => exact h.request
  | fetched hfetch hdata =>
    rw [fetchUsers_eq hgenesis] at hdata
    obtain rfl := Except.ok.inj hdata
    exact ⟨hone hfetch, fun data hdata => (Option.some.inj hdata).symm, nofun⟩
  | failed hfetch => exact ⟨hone hfetch, h.data, nofun⟩

/-- The users stay. -/
theorem CacheStep.keeps {action : CacheAction} (hstep : CacheStep assets c action c')
    (h : c.Sound users) (hdata : c.tokenModuleData.isSome) :
    c'.tokenModuleData = c.tokenModuleData := by
  have hnone (hfetch : 0 < c.fetches) : False := by
    have hfetches := h.fetches
    split_ifs at hfetches with hloading
    · rw [h.loading hloading] at hdata
      cases hdata
    · omega
  cases hstep with
  | request => exact Cache.tokenModuleData_request
  | fetched hfetch _ => exact (hnone hfetch).elim
  | failed hfetch => rfl

theorem Cache.Sound.getOpeningBalances_eq (h : c.Sound users)
    (hgenesis : HasSubStore assets tokenModule userSubStore users) (address : String) :
    getOpeningBalances assets c address =
      .ok ((users.filter fun e => e.address = address).map UserInfo.opening) := by
  rw [getOpeningBalances, Cache.tokenModuleData_request]
  cases hdata : c.tokenModuleData with
  | none =>
    simp only [balancesFromConnector_eq hgenesis]
    rfl
  | some data =>
    obtain rfl := h.data data hdata
    rfl

/-- All that an account has at genesis, available or locked. -/
def balancesAtGenesis (users : List UserInfo) (address : String) : List OpeningBalance :=
  (users.filter fun e => e.address = address).map fun e =>
    ⟨e.tokenID, toString (e.availableBalance + e.lockedBalances.sum)⟩

theorem map_opening (l : List UserInfo) : l.map UserInfo.opening = l.map fun e =>
    ⟨e.tokenID, toString (e.availableBalance + e.lockedBalances.sum)⟩ := by
  refine List.map_congr_left fun e _ => ?_
  rw [UserInfo.opening, List.sum_eq_foldl]

/-- The cache before any request. -/
def Cache.start : Cache := ⟨none, false, 0⟩

theorem Cache.start_sound (users : List UserInfo) : Cache.start.Sound users :=
  ⟨rfl, nofun, nofun⟩

theorem sound_of_run (hgenesis : HasSubStore assets tokenModule userSubStore users)
    (hrun : Run (CacheStep assets) Unrestricted c c') (h : c.Sound users) : c'.Sound users :=
  hrun.invariant (Cache.Sound · users) h fun _ _ _ hsound _ hstep => hstep.sound hgenesis hsound

/-- **Opening balances.** In every run at most one fetch of the users is under way, and none once
they are there, where they stay. Whether or not they are there, the balances of an account are all
that it has at genesis, and the metadata has a row for each of them. -/
theorem opening_balances (assets : List (Asset UserInfo)) (users : List UserInfo)
    (hgenesis : HasSubStore assets tokenModule userSubStore users)
    (hrun : Run (CacheStep assets) Unrestricted Cache.start c)
    (hrun' : Run (CacheStep assets) Unrestricted c c') :
    c.fetches ≤ 1 ∧
    (c.tokenModuleData.isSome → c'.tokenModuleData = some users ∧ c'.fetches = 0) ∧
    ∀ address, getOpeningBalances assets c address = .ok (balancesAtGenesis users address) ∧
      ∀ chainName chainID, ∃ entries,
        getMetadataEntries assets c chainName address chainID chainID = .ok entries ∧
          entries ≠ [] ∧ ∀ e, (∃ entry ∈ entries, entry.openingBalanceAmount = some e.amount ∧
            entry.tokenID = some e.tokenID) ↔ e ∈ balancesAtGenesis users address := by
  have hsound := sound_of_run hgenesis hrun (Cache.start_sound users)
  have hsound' := sound_of_run hgenesis hrun' hsound
  have hopening (address : String) :
      getOpeningBalances assets c address = .ok (balancesAtGenesis users address) := by
    rw [hsound.getOpeningBalances_eq hgenesis, map_opening]
    rfl
  refine ⟨?_, fun hdata => ?_, fun address => ⟨hopening address, fun chainName chainID => ?_⟩⟩
  · rw [hsound.fetches]
    split_ifs <;> decide
  · have hkept : c'.tokenModuleData = c.tokenModuleData := by
      refine (hrun'.invariant (fun t => t.Sound users ∧ t.tokenModuleData = c.tokenModuleData)
        ⟨hsound, rfl⟩ fun t act t' ht _ hstep => ?_).2
      obtain ⟨hsound, hkept⟩ := ht
      exact ⟨hstep.sound hgenesis hsound, (hstep.keeps hsound (hkept ▸ hdata)).trans hkept⟩
    obtain ⟨data, hsome⟩ := Option.isSome_iff_exists.mp hdata
    -- A fetch that is under way has no data yet.
    have hnot : c'.loadingAssets = false := by
      by_contra hloading
      have hnone := hsound'.loading (Bool.eq_true_of_not_eq_false hloading)
      rw [hkept, hsome] at hnone
      cases hnone
    refine ⟨by rw [hkept, hsome, hsound.data data hsome], ?_⟩
    rw [hsound'.fetches, hnot]
    rfl
  · rw [getMetadataEntries, if_pos rfl, hopening]
    simp only [ok_bind]
    split_ifs with hentries
    · refine ⟨_, rfl, hentries, fun e => ?_⟩
      constructor
      · rintro ⟨entry, hentry, hamount, htoken⟩
        obtain ⟨e', he', rfl⟩ := List.mem_map.mp hentry
        obtain ⟨tokenID, amount⟩ := e
        obtain ⟨tokenID', amount'⟩ := e'
        obtain rfl := Option.some.inj hamount
        obtain rfl := Option.some.inj htoken
        exact he'
      · exact fun he => ⟨_, List.mem_map_of_mem he, rfl, rfl⟩
    · -- Without balances the chain has a row of its own.
      refine ⟨_, rfl, List.cons_ne_nil _ _, fun e => ?_⟩
      have hnil := List.map_eq_nil_iff.mp (not_not.mp hentries)
      rw [hnil]
      constructor
      · rintro ⟨entry, hentry, hamount, -⟩
        obtain rfl := List.mem_singleton.mp hentry
        cases hamount
      · exact fun he => absurd he List.not_mem_nil

/-- A genesis block with one account. -/
def oneAccount : UserInfo := ⟨"kly", "00", 5, [2, 3]⟩

theorem oneAccount_hasSubStore : HasSubStore [⟨tokenModule, [(userSubStore, .array [oneAccount])]⟩]
    tokenModule userSubStore [oneAccount] :=
  ⟨by decide, _, rfl, rfl, by decide, rfl⟩

/-- Its balance, once it is fetched. -/
theorem opening_balances_oneAccount :
    getOpeningBalances [⟨tokenModule, [(userSubStore, .array [oneAccount])]⟩]
      ⟨some [oneAccount], false, 0⟩ "kly" = .ok [⟨"00", "10"⟩] :=
  ((opening_balances _ [oneAccount] oneAccount_hasSubStore
    ((Run.refl.tail (.request _) trivial).tail
      (.fetched (by decide) (fetchUsers_eq oneAccount_hasSubStore)) trivial) .refl).2.2 "kly").1

end Runs

end OpeningBalances

end SwaptoshiService
