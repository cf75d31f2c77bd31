import SwaptoshiService.Export.RequestAll
import SwaptoshiService.Lib.Tally

/-!
# Assets of the genesis block

The connector answers requests for the assets of the genesis block by module and sub-store, a page
of a sub-store at a time (`sdk/genesisBlock.js`); the indexer and the export first ask for the
length of a sub-store, and then collect its pages.

`collected_iff_asked`: what is collected is the sub-store, element by element, and a page is asked
for if and only if it begins before the end of the sub-store, **unless this is empty**. A length of
zero is no limit for `requestAll`, and an answer with an empty sub-store is not an empty answer, so
then all pages up to `Number.MAX_SAFE_INTEGER` are asked for. The validators and the stakers, the
tokens, ticks and pools of the DEX, the factories and the NFTs are asked for only if there are any.
The users of the token module are asked for always, and so is what a pool, a factory or an NFT needs
besides: the tokens, the supply and the pools, whose numbers are not looked at there.
-/

namespace SwaptoshiService

namespace GenesisSubStores

open FetchTransactions (orElse)
open RequestAll

/-- A sub-store: a list of elements, or an object such as `genesisData` of the PoS module. -/
inductive SubStore (α : Type)
  | array (elements : List α)
  | object (entries : List (String × α))
deriving DecidableEq

structure Asset (α : Type) where
  module : String
  data : List (String × SubStore α)
deriving DecidableEq

structure AssetParams where
  module : Option String
  subStore : Option String
  limit : Option ℕ
  offset : Option ℕ

section Connector

variable {α : Type} (assets : List (Asset α))

/-- A page of a sub-store, if a limit and an offset are given. -/
def pageOf (params : AssetParams) : SubStore α → Except String (SubStore α)
  | .array elements =>
    match params.offset, params.limit with
    | some offset, some (limit + 1) => pure (.array (slice elements (limit + 1) offset))
    | _, _ => pure (.array elements)
  | .object entries =>
    match params.offset, params.limit with
    | some _, some (_ + 1) => throw "moduleData.slice is not a function"
    | _, _ => pure (.object entries)

/-- `getGenesisAssets(params)` -/
def getGenesisAssets (params : AssetParams) : Except String (List (Asset α)) :=
  if params.module.all (· = "") && params.subStore.all (· = "") then pure assets
  else
    let assetByModule := assets.find? fun asset => some asset.module = params.module
    match params.subStore.filter (· ≠ ""), assetByModule with
    | some subStore, some asset =>
      match asset.data.lookup subStore with
      | none => pure []
      | some moduleData => do
        let moduleData ← pageOf params moduleData
        pure [{ asset with data := [(subStore, moduleData)] }]
    | some _, none => throw "Cannot read properties of undefined (reading 'data')"
    | none, assetByModule => pure assetByModule.toList

/-- `getGenesisAssetByModule(params)` -/
def getGenesisAssetByModule (params : AssetParams) :
    Except String (List (String × SubStore α)) := do
  let genesisAssets ← getGenesisAssets assets params
  pure ((genesisAssets.head?.map Asset.data).getD [])

/-- `subStore.length`; an object has none. -/
def SubStore.length? : SubStore α → Option ℕ
  | .array elements => some elements.length
  | .object _ => none

/-- `getGenesisAssetsLength(params)`: the lengths by module and sub-store. -/
def getGenesisAssetsLength (params : AssetParams) :
    Except String (AList fun _ : String => AList fun _ : String => Option ℕ) := do
  let genesisAssets ← getGenesisAssets assets params
  let subStores := genesisAssets.flatMap fun asset => asset.data.map fun e => (asset.module, e)
  pure (tally Prod.fst (fun _ => ∅) (fun acc e => acc.insert e.2.1 e.2.2.length?) subStores)

/-- An answer of the connector, as `requestAll` gets it. -/
def SubStore.prop : SubStore α → PropValue α
  | .array elements => .array elements
  | .object entries => .object entries

/-- `requestConnector('getGenesisAssetByModule', { module, subStore, limit, offset })` -/
def requestPage (module subStore : String) (limit offset : ℕ) : Except String (Response α) := do
  let data ← getGenesisAssetByModule assets ⟨some module, some subStore, some limit, some offset⟩
  pure (.object (data.map fun e => (e.1, e.2.prop)))

end Connector

/-! ### Which pages are asked for -/

section Asked

variable {α : Type} {props : List (String × List α)} {p m k : ℕ}
  {fn fn' : ℕ → ℕ → Except String (Response α)} {noAnswer : Except String (Response α)}

/-- The requests fail at one offset. -/
def failAt (message : String) (offset : ℕ) (fn : ℕ → ℕ → Except String (Response α)) :
    ℕ → ℕ → Except String (Response α) :=
  fun limit offset' => if offset' = offset then throw message else fn limit offset'

/-- The page is asked for: where the request for it fails, there is no answer. -/
def Asked (request : (ℕ → ℕ → Except String (Response α)) → Except String (Response α))
    (fn : ℕ → ℕ → Except String (Response α)) (offset : ℕ) : Prop :=
  ∀ message, request (failAt message offset fn) = throw message

theorem laterPages_congr (h : ∀ j, 1 ≤ j → p * j < m →
    fn (min p (m - p * j)) (p * j) = fn' (min p (m - p * j)) (p * j)) (hp : 0 < p) :
    ∀ n page, 1 ≤ page → page + n ≤ numBatches m p → ∀ totalResponse,
      laterPages fn p m page n totalResponse = laterPages fn' p m page n totalResponse := by
  intro n
  induction n with
  | zero => exact fun _ _ _ _ => rfl
  | succ n ih =>
    intro page hone hpage totalResponse
    have hlt : p * page < m := by
      rw [Nat.mul_comm]
      exact (lt_numBatches_iff hp).mp (by omega)
    rw [laterPages, laterPages, h page hone hlt]
    simp only [ih (page + 1) (by omega) (by omega)]

/-- What is collected depends on the answers up to the limit. -/
theorem collectAll_congr (hp : 0 < p) (hm : 0 < m) (hfirst : fn p 0 = fn' p 0)
    (h : ∀ j, 1 ≤ j → p * j < m →
      fn (min p (m - p * j)) (p * j) = fn' (min p (m - p * j)) (p * j)) :
    collectAll noAnswer fn (some p) (some m) = collectAll noAnswer fn' (some p) (some m) := by
  have hlater : ∀ totalResponse, (if p < m then
      laterPages fn p m 1 (numBatches m p - 1) totalResponse else pure totalResponse) =
        if p < m then laterPages fn' p m 1 (numBatches m p - 1) totalResponse
        else pure totalResponse := by
    intro totalResponse
    split_ifs with hlt
    · have hbatches : 1 < numBatches m p := (lt_numBatches_iff hp).mpr (by rwa [one_mul])
      exact laterPages_congr h hp _ _ le_rfl (by omega) _
    · rfl
  rw [collectAll, collectAll, orElse_some hp, orElse_some hm, hfirst]
  simp only [hlater]

theorem merge_objectOf (hkeys : (props.map Prod.fst).Nodup) (f g : List α → List α) :
    merge (objectOf props f) (objectOf props g) = .ok (objectOf props fun l => f l ++ g l) := by
  rw [objectOf, merge, List.mapM_map, mapM_eq_ok_map (g := fun e =>
    (e.1, PropValue.array (f e.2 ++ g e.2)))]
  · rfl
  · intro e he
    have hlookup := lookup_map (f := fun l => PropValue.array (g l)) hkeys he
    simp only [Function.comp, Response.prop, objectOf, hlookup]
    rfl

/-- An object with sub-stores is never empty, so nothing but the limit ends the requests. -/
theorem laterPages_failAt (hkeys : (props.map Prod.fst).Nodup) (hne : props ≠ []) (hp : 0 < p)
    (message : String) : ∀ n page f, page ≤ k → k < page + n →
      laterPages (failAt message (p * k) (objectServer props)) p m page n (objectOf props f) =
        throw message := by
  intro n
  induction n with
  | zero => exact fun page f hle hlt => absurd hlt (not_lt.mpr hle)
  | succ n ih =>
    intro page f hle hlt
    rw [laterPages, failAt]
    rcases hle.eq_or_lt with rfl | hlt'
    · rw [if_pos rfl]
      rfl
    · have hoffset : p * page ≠ p * k := (Nat.mul_lt_mul_of_pos_left hlt' hp).ne
      have hempty : ∀ g, (objectOf props g : Response α).isEmpty = false := fun g => by
        rw [objectOf, Response.isEmpty, List.isEmpty_eq_false_iff]
        simpa using hne
      rw [if_neg hoffset, objectServer]
      simp only [bind, Except.bind, hempty, Bool.false_eq_true, if_false, merge_objectOf hkeys]
      exact ih (page + 1) _ hlt' (by omega)

/-- The pages that are asked for are those that begin before the limit. -/
theorem asked_objectServer_iff (hkeys : (props.map Prod.fst).Nodup) (hne : props ≠ [])
    (hp : 0 < p) (hm : 0 < m) :
    Asked (fun fn => collectAll noAnswer fn (some p) (some m)) (objectServer props) (p * k) ↔
      p * k < m := by
  constructor
  · intro h
    by_contra hle
    have hsame : collectAll noAnswer (failAt "" (p * k) (objectServer props)) (some p) (some m) =
        collectAll noAnswer (objectServer props) (some p) (some m) := by
      have hpos : 0 < p * k := hm.trans_le (not_lt.mp hle)
      refine collectAll_congr hp hm (if_neg hpos.ne) fun j _ hj => if_neg ?_
      exact (hj.trans_le (not_lt.mp hle)).ne
    have hthrow : collectAll noAnswer (failAt "" (p * k) (objectServer props)) (some p) (some m) =
        throw "" := h ""
    rw [hsame, collectAll_object noAnswer hkeys hp hm] at hthrow
    cases hthrow
  · intro hlt message
    change collectAll noAnswer _ (some p) (some m) = _
    rw [collectAll, orElse_some hp, orElse_some hm]
    rcases Nat.eq_zero_or_pos k with rfl | hk
    · rw [failAt, Nat.mul_zero, if_pos rfl]
      rfl
    · have hpage : p < m := (Nat.le_mul_of_pos_right p hk).trans_lt hlt
      have hbatches : k < numBatches m p := (lt_numBatches_iff hp).mpr (by rwa [Nat.mul_comm])
      have hlater := laterPages_failAt (m := m) hkeys hne hp message (numBatches m p - 1) 1
        (fun l => slice l p 0) hk (by omega)
      rw [failAt, if_neg (Nat.mul_pos hp hk).ne, objectServer]
      simpa [objectOf, bind, Except.bind, hpage] using hlater

end Asked

/-! ### Sub-stores that are collected -/

section Requests

variable {α : Type} (assets : List (Asset α))

/-- `genesisBlockAssetsLength[module][subStore]`, after a request for the lengths. -/
def requestLength (params : AssetParams) (module subStore : String) :
    Except String (Option ℕ) := do
  let genesisBlockAssetsLength ← getGenesisAssetsLength assets params
  match genesisBlockAssetsLength.lookup module with
  | none => throw ("Cannot read properties of undefined (reading '" ++ subStore ++ "')")
  | some lengths => pure (lengths.lookup subStore).join

/-- How `indexTokenModuleAssets` collects the users. -/
def collectSubStore (module subStore : String) : Except String (Response α) := do
  let total ← requestLength assets ⟨some module, some subStore, none, none⟩ module subStore
  requestAll (requestPage assets module subStore) (some 1000) total

/-- How `indexPosValidatorsInfo` and `indexPosStakesInfo` collect theirs: if there are any. -/
def collectIfAny (module subStore : String) : Except String (Option (Response α)) := do
  let total ← requestLength assets ⟨some module, none, none, none⟩ module subStore
  if 0 < total.getD 0 then
    let response ← requestAll (requestPage assets module subStore) (some 1000) total
    pure (some response)
  else pure none

/-- A sub-store of the asset of a module. -/
structure HasSubStore (module subStore : String) (l : List α) : Prop where
  named : subStore ≠ ""
  found : ∃ asset, (assets.find? fun asset => some asset.module = some module) = some asset ∧
    asset.module = module ∧ (asset.data.map Prod.fst).Nodup ∧
      asset.data.lookup subStore = some (.array l)

end Requests

section Collected

variable {α : Type} {assets : List (Asset α)} {module subStore : String} {l : List α}

/-- What is found of the asset of a module is the sub-store, or the page of it. -/
theorem getGenesisAssets_subStore (h : HasSubStore assets module subStore l)
    (limit offset : Option ℕ) : ∃ asset : Asset α, asset.module = module ∧
      getGenesisAssets assets ⟨some module, some subStore, limit, offset⟩ =
        (pageOf ⟨some module, some subStore, limit, offset⟩ (.array l)).map
          fun moduleData => [{ asset with data := [(subStore, moduleData)] }] := by
  obtain ⟨hnamed, asset, hfind, hmodule, -, hlookup⟩ := h
  have hset : (some subStore).filter (· ≠ "") = some subStore := by simp [hnamed]
  have hall : ((some module).all (· = "") && (some subStore).all (· = "")) = false := by
    simp [hnamed]
  refine ⟨asset, hmodule, ?_⟩
  rw [getGenesisAssets]
  simp only [hall, Bool.false_eq_true, if_false, hfind, hset, hlookup]
  cases pageOf ⟨some module, some subStore, limit, offset⟩ (.array l) <;> rfl

theorem requestPage_eq (h : HasSubStore assets module subStore l) {limit : ℕ} (hlimit : 0 < limit)
    (offset : ℕ) :
    requestPage assets module subStore limit offset =
      objectServer [(subStore, l)] limit offset := by
  obtain ⟨asset, -, hassets⟩ := getGenesisAssets_subStore h (some limit) (some offset)
  obtain ⟨limit, rfl⟩ := Nat.exists_eq_succ_of_ne_zero hlimit.ne'
  rw [requestPage, getGenesisAssetByModule, hassets]
  rfl

theorem lookup_foldl_insert {β γ : Type} (f : β → γ) {data : List (String × β)}
    (hkeys : (data.map Prod.fst).Nodup) (acc : AList fun _ : String => γ) (k : String) :
    (data.foldl (fun acc e => acc.insert e.1 (f e.2)) acc).lookup k =
      ((data.lookup k).map f).or (acc.lookup k) := by
  induction data generalizing acc with
  | nil => rfl
  | cons e data ih =>
    rw [List.map_cons, List.nodup_cons] at hkeys
    rw [List.foldl_cons, ih hkeys.2, List.lookup_cons]
    by_cases hk : k = e.1
    · have hnone : data.lookup k = none := by
        rw [List.lookup_eq_none_iff]
        exact fun e' he' => bne_iff_ne.mpr fun heq =>
          hkeys.1 (hk ▸ heq ▸ List.mem_map_of_mem he')
      rw [hnone, hk, AList.lookup_insert, beq_self_eq_true]
      rfl
    · rw [AList.lookup_insert_ne hk, beq_false_of_ne hk]

/-- The length of a sub-store of the only asset that is found. -/
theorem requestLength_eq {params : AssetParams} {asset : Asset α}
    (hassets : getGenesisAssets assets params = .ok [asset]) (hmodule : asset.module = module)
    (hkeys : (asset.data.map Prod.fst).Nodup)
    (hlookup : asset.data.lookup subStore = some (.array l)) :
    requestLength assets params module subStore = .ok (some l.length) := by
  have hmem : module ∈ (asset.data.map fun e => (asset.module, e)).map Prod.fst := by
    rw [List.map_map, List.mem_map]
    obtain ⟨e, he, -⟩ : ∃ e ∈ asset.data, True := by
      cases hdata : asset.data with
      | nil => simp [hdata] at hlookup
      | cons e data => exact ⟨e, List.mem_cons_self, trivial⟩
    exact ⟨e, he, hmodule⟩
  have hall : (asset.data.map fun e => (asset.module, e)).filter (fun e => e.1 = module) =
      asset.data.map fun e => (asset.module, e) := by
    rw [List.filter_eq_self]
    intro e he
    obtain ⟨e', -, rfl⟩ := List.mem_map.mp he
    exact decide_eq_true hmodule
  have hlengths := lookup_foldl_insert SubStore.length? hkeys ∅ subStore
  rw [hlookup] at hlengths
  rw [requestLength, getGenesisAssetsLength, hassets]
  simp only [bind, Except.bind, pure, Except.pure, List.flatMap_singleton, lookup_tally, hmem,
    if_true, hall, List.foldl_map, hlengths]
  rfl

theorem requestLength_subStore (h : HasSubStore assets module subStore l) :
    requestLength assets ⟨some module, some subStore, none, none⟩ module subStore =
      .ok (some l.length) := by
  obtain ⟨asset, hmodule, hassets⟩ := getGenesisAssets_subStore h none none
  exact requestLength_eq hassets hmodule (List.nodup_singleton _) (by simp)

theorem requestLength_module (h : HasSubStore assets module subStore l) (hmodule : module ≠ "") :
    requestLength assets ⟨some module, none, none, none⟩ module subStore =
      .ok (some l.length) := by
  obtain ⟨hnamed, asset, hfind, hasset, hkeys, hlookup⟩ := h
  have hall : ((some module).all (· = "") && (none : Option String).all (· = "")) = false := by
    simp [hmodule]
  have hassets : getGenesisAssets assets ⟨some module, none, none, none⟩ = .ok [asset] := by
    rw [getGenesisAssets]
    simp only [hall, Bool.false_eq_true, if_false, hfind]
    rfl
  exact requestLength_eq hassets hasset hkeys hlookup

/-- What is collected with a limit, where a limit of zero is none. -/
def limitOf (l : List α) : ℕ := if l = [] then maxSafeInteger else l.length

theorem limitOf_pos (l : List α) : 0 < limitOf l := by
  rw [limitOf]
  split_ifs with h
  · decide
  · exact List.length_pos_iff.mpr h

theorem collectAll_length (noAnswer : Except String (Response α))
    (fn : ℕ → ℕ → Except String (Response α)) (paramsLimit : Option ℕ) (l : List α) :
    collectAll noAnswer fn paramsLimit (some l.length) =
      collectAll noAnswer fn paramsLimit (some (limitOf l)) := by
  have hlimit : orElse (some l.length) maxSafeInteger =
      orElse (some (limitOf l)) maxSafeInteger := by
    rw [orElse_some (limitOf_pos l), limitOf]
    split_ifs with h
    · rw [h]
      rfl
    · exact orElse_some (List.length_pos_iff.mpr h)
  rw [collectAll, collectAll, hlimit]

/-- The whole sub-store is collected. -/
theorem collectAll_requestPage (h : HasSubStore assets module subStore l)
    (noAnswer : Except String (Response α)) :
    collectAll noAnswer (requestPage assets module subStore) (some 1000) (some l.length) =
      .ok (.object [(subStore, .array l)]) := by
  have hlength : l.length ≤ max 1000 (limitOf l) := by
    rw [limitOf]
    split_ifs with hnil
    · rw [hnil]
      exact Nat.zero_le _
    · exact le_max_right _ _
  have hkeys : ([(subStore, l)].map Prod.fst).Nodup := List.nodup_singleton _
  have hserver : collectAll noAnswer (requestPage assets module subStore) (some 1000)
      (some (limitOf l)) =
        collectAll noAnswer (objectServer [(subStore, l)]) (some 1000) (some (limitOf l)) :=
    collectAll_congr (by decide) (limitOf_pos l) (requestPage_eq h (by decide) 0)
      fun j _ hj => requestPage_eq h (by omega) (1000 * j)
  rw [collectAll_length, hserver, collectAll_object noAnswer hkeys (by decide) (limitOf_pos l),
    objectOf, List.map_singleton, List.take_of_length_le hlength]

theorem asked_requestPage_iff (h : HasSubStore assets module subStore l)
    (noAnswer : Except String (Response α)) (k : ℕ) :
    Asked (fun fn => collectAll noAnswer fn (some 1000) (some l.length))
      (requestPage assets module subStore) (1000 * k) ↔ 1000 * k < limitOf l := by
  have hkeys : ([(subStore, l)].map Prod.fst).Nodup := List.nodup_singleton _
  have hasked : Asked (fun fn => collectAll noAnswer fn (some 1000) (some (limitOf l)))
      (objectServer [(subStore, l)]) (1000 * k) ↔ 1000 * k < limitOf l :=
    asked_objectServer_iff hkeys (List.cons_ne_nil _ _) (by decide) (limitOf_pos l)
  rw [← hasked]
  refine forall_congr' fun message => ?_
  have hfail {limit : ℕ} (hlimit : 0 < limit) (offset : ℕ) :
      failAt message (1000 * k) (requestPage assets module subStore) limit offset =
        failAt message (1000 * k) (objectServer [(subStore, l)]) limit offset := by
    rw [failAt, failAt, requestPage_eq h hlimit]
  change collectAll noAnswer _ (some 1000) (some l.length) = _ ↔ _
  rw [collectAll_length, collectAll_congr (by decide) (limitOf_pos l) (hfail (by decide) 0)
    fun j _ hj => hfail (by omega) (1000 * j)]

/-- **Sub-stores are collected whole.** The users get a request for every page up to their number,
or to `Number.MAX_SAFE_INTEGER` if there are none; what is collected only if there is any gets a
request for each of its pages. -/
theorem collected_iff_asked (assets : List (Asset α)) (module subStore : String) (l : List α)
    (h : HasSubStore assets module subStore l) (hmodule : module ≠ "") :
    collectSubStore assets module subStore = .ok (.object [(subStore, .array l)]) ∧
    collectIfAny assets module subStore =
      .ok (if l = [] then none else some (.object [(subStore, .array l)])) ∧
    ∀ k, Asked (fun fn => requestAll fn (some 1000) (some l.length))
        (requestPage assets module subStore) (1000 * k) ↔
      1000 * k < if l = [] then maxSafeInteger else l.length := by
  refine ⟨?_, ?_, asked_requestPage_iff h _⟩
  · rw [collectSubStore, requestLength_subStore h]
    exact collectAll_requestPage h _
  · rw [collectIfAny, requestLength_module h hmodule]
    have hall : requestAll (requestPage assets module subStore) (some 1000) (some l.length) =
        .ok (.object [(subStore, .array l)]) := collectAll_requestPage h _
    by_cases hnil : l = []
    · subst hnil
      rfl
    · have hpos : 0 < (some l.length).getD 0 := List.length_pos_iff.mpr hnil
      rw [if_neg hnil]
      simp only [bind, Except.bind, if_pos hpos, hall]
      rfl

/-- A genesis block with these users. -/
def usersAt (users : List ℕ) : List (Asset ℕ) := [⟨"token", [("userSubstore", .array users)]⟩]

private theorem hasSubStore_usersAt (users : List ℕ) :
    HasSubStore (usersAt users) "token" "userSubstore" users :=
  ⟨by decide, _, rfl, rfl, List.nodup_singleton _, rfl⟩

/-- Of 1500 users two pages are asked for. Without users nothing is collected, and the eighth page
is asked for. -/
theorem collected_iff_asked_users :
    (collectSubStore (usersAt (List.range 1500)) "token" "userSubstore" =
        .ok (.object [("userSubstore", .array (List.range 1500))]) ∧
      ∀ k, Asked (fun fn => requestAll fn (some 1000) (some (List.range 1500).length))
        (requestPage (usersAt (List.range 1500)) "token" "userSubstore") (1000 * k) ↔ k < 2) ∧
    collectSubStore (usersAt []) "token" "userSubstore" =
        .ok (.object [("userSubstore", .array [])]) ∧
      Asked (fun fn => requestAll fn (some 1000) (some ([] : List ℕ).length))
        (requestPage (usersAt []) "token" "userSubstore") (1000 * 7) := by
  obtain ⟨hcollected, -, hasked⟩ := collected_iff_asked (usersAt (List.range 1500)) "token"
    "userSubstore" _ (hasSubStore_usersAt _) (by decide)
  obtain ⟨hnone, -, heighth⟩ := collected_iff_asked (usersAt []) "token" "userSubstore" _
    (hasSubStore_usersAt _) (by decide)
  refine ⟨⟨hcollected, fun k => (hasked k).trans ?_⟩, hnone, (heighth 7).mpr (by decide)⟩
  rw [if_neg (by simp), List.length_range]
  omega

end Collected

end GenesisSubStores

end SwaptoshiService
