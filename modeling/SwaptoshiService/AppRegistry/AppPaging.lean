import SwaptoshiService.AppRegistry.RegistryTables
import SwaptoshiService.Lib.Paging

/-!
# Pages of applications

`getBlockchainAppsMetaList` and `getBlockchainAppsMetadata`
(`blockchain-app-registry/shared/metadata.js`) answer with the default applications first and the
others after them, each group sorted. A page is put together from two queries, the offset and the
limit of the second of which are computed from what the first has found and from the number of all
default applications.

Without `isDefault` both return the page that is asked for. With it, `getBlockchainAppsMetaList`
asks for both groups all the same, as its own value comes after that of the request. And
`getBlockchainAppsMetadata` forgets the offset for the applications that are no default ones: it
says `let offset = { params }`, of which `Number` makes `NaN`, and a query leaves an offset out that
is no number. So every page of them is the first one (`app_paging_iff`).

The network of a chain ID that is given without a network is told by its first two characters.
-/

namespace SwaptoshiService

namespace AppRegistry

open QueryBuilder Sql Paging

/-! ### Queries -/

/-- The parameters of a request. A text that is given is not empty, and what is searched for has no
backslash. -/
structure AppQuery where
  chainID : Option String
  network : Option String
  search : Option String
  isDefault : Option Bool
  offset : ℕ
  limit : ℕ
  sort : Option (AppColumn × Direction)
  limit_pos : 0 < limit
  chainID_ne : chainID ≠ some ""
  network_ne : network ≠ some ""
  search_ne : search ≠ some ""
  search_literal : ∀ s ∈ search, '\\' ∉ s.toList

/-- `config.CHAIN_ID_PREFIX_NETWORK_MAP`. -/
def networkOfPrefix : String → Option String
  | "00" => some "mainnet"
  | "01" => some "testnet"
  | "04" => some "devnet"
  | _ => none

/-- `config.supportedNetworks`. -/
def supportedNetworks : List String := ["mainnet", "testnet", "devnet"]

/-- The set of the networks of chain IDs; an unknown one is `undefined`, which is joined as the
empty text. -/
def networkSet (chainIDs : List String) : List String :=
  (chainIDs.map fun chainID => (networkOfPrefix (substring chainID 2)).getD "").eraseDups

section Queries

variable (q : AppQuery) (t : AppTable)

/-- The parameters of the queries of `getBlockchainAppsMetaList`. -/
def metaListParams (isDefault : Bool) (limit offset : ℕ) : Params AppColumn String where
  queryParams := (q.chainID.map fun chainID => (AppColumn.chainID, some chainID)).toList ++
    [(.isDefault, some (flag isDefault))]
  whereIn := (q.network.map fun network =>
    (AppColumn.network, (splitCommas network).map some)).toList
  search := (q.search.map fun search =>
    { property := AppColumn.chainName, pattern := search }).toList
  sort := q.sort
  limit := some limit
  offset := offset

/-- The applications that `getBlockchainAppsMetaList(params)` returns. -/
def getBlockchainAppsMetaList : List ApplicationRow :=
  let defaultApps := t.table.findRecords textOps (metaListParams q true q.limit q.offset)
  if defaultApps.length < q.limit then
    let limit := q.limit - defaultApps.length
    let totalDefaultAppsCount :=
      t.table.countRecords textOps (metaListParams q true q.limit q.offset)
    -- `Math.max(offset - totalDefaultAppsCount, 0)`
    let offset := q.offset - totalDefaultAppsCount
    defaultApps ++ t.table.findRecords textOps (metaListParams q false limit offset)
  else defaultApps

/-- `params.network`, also for chain IDs without a network. -/
def networkParam : Option String :=
  match q.network with
  | some network => some network
  | none => q.chainID.map fun chainIDs => joinCommas (networkSet (splitCommas chainIDs))

/-- The parameters of the queries of `getBlockchainAppsMetadata`. An empty network stays a column
that is to be equal. -/
def metadataParams (isDefault : Bool) (limit offset : ℕ) : Params AppColumn String where
  queryParams := (if networkParam q = some "" then [(AppColumn.network, some "")] else []) ++
    [(.isDefault, some (flag isDefault))]
  whereIn := (q.chainID.map fun chainIDs =>
      (AppColumn.chainID, (splitCommas chainIDs).map some)).toList ++
    if networkParam q = some "" then [] else ((networkParam q).map fun network =>
      (AppColumn.network, (splitCommas network).map some)).toList
  orSearch := ((q.search.map fun search =>
    [{ property := AppColumn.chainName, pattern := search },
      { property := AppColumn.displayName, pattern := search }]).getD [])
  sort := q.sort
  limit := some limit
  offset := offset

/-- The applications that `getBlockchainAppsMetadata(params)` returns. -/
def getBlockchainAppsMetadata : List ApplicationRow :=
  let limit := q.limit * supportedNetworks.length
  let defaultApps := if q.isDefault = some false then [] else
    t.table.findRecords textOps (metadataParams q true limit q.offset)
  let apps :=
    if q.isDefault ≠ some true ∧ defaultApps.length < q.limit then
      let offset :=
        match q.isDefault with
        | none =>
          let totalDefaultApps :=
            t.table.countRecords textOps (metadataParams q true limit q.offset)
          if q.offset - totalDefaultApps > 0 then q.offset - totalDefaultApps else 0
        -- `{ params }` is no number, and no offset is set
        | some _ => 0
      defaultApps ++ t.table.findRecords textOps (metadataParams q false limit offset)
    else defaultApps
  slice 0 q.limit apps

end Queries

/-! ### What is meant -/

section Meaning

variable (q : AppQuery) (t : AppTable)

/-- The application satisfies the filters of the list. -/
structure MatchesMetaList (app : ApplicationRow) : Prop where
  chainID : ∀ chainID ∈ q.chainID, app.chainID = chainID
  network : ∀ network ∈ q.network, app.network ∈ splitCommas network
  search : ∀ s ∈ q.search, s.toList <:+: app.chainName.toList

/-- The application satisfies the filters. -/
structure MatchesMetadata (app : ApplicationRow) : Prop where
  chainID : ∀ chainIDs ∈ q.chainID, app.chainID ∈ splitCommas chainIDs
  network : ∀ network ∈ q.network, app.network ∈ splitCommas network
  networkOfChain : q.network = none →
    ∀ chainIDs ∈ q.chainID, app.network ∈ networkSet (splitCommas chainIDs)
  search : ∀ s ∈ q.search,
    s.toList <:+: app.chainName.toList ∨ s.toList <:+: app.displayName.toList

instance (app : ApplicationRow) : Decidable (MatchesMetaList q app) :=
  decidable_of_iff ((∀ chainID ∈ q.chainID, app.chainID = chainID) ∧
      (∀ network ∈ q.network, app.network ∈ splitCommas network) ∧
      ∀ s ∈ q.search, s.toList <:+: app.chainName.toList)
    ⟨fun ⟨h₁, h₂, h₃⟩ => ⟨h₁, h₂, h₃⟩, fun ⟨h₁, h₂, h₃⟩ => ⟨h₁, h₂, h₃⟩⟩

instance (app : ApplicationRow) : Decidable (MatchesMetadata q app) :=
  decidable_of_iff ((∀ chainIDs ∈ q.chainID, app.chainID ∈ splitCommas chainIDs) ∧
      (∀ network ∈ q.network, app.network ∈ splitCommas network) ∧
      (q.network = none →
        ∀ chainIDs ∈ q.chainID, app.network ∈ networkSet (splitCommas chainIDs)) ∧
      ∀ s ∈ q.search,
        s.toList <:+: app.chainName.toList ∨ s.toList <:+: app.displayName.toList)
    ⟨fun ⟨h₁, h₂, h₃, h₄⟩ => ⟨h₁, h₂, h₃, h₄⟩, fun ⟨h₁, h₂, h₃, h₄⟩ => ⟨h₁, h₂, h₃, h₄⟩⟩

/-- In the order that is asked for. -/
def inOrder (apps : List ApplicationRow) : List ApplicationRow :=
  apps.insertionSort fun app app' => before textOps.lt q.sort.toList (appCells app) (appCells app')

/-- The matching applications of one group, in order. -/
def appGroup (isMatch : ApplicationRow → Bool) (isDefault : Bool) : List ApplicationRow :=
  inOrder q (t.rows.filter fun app => isMatch app && app.isDefault == isDefault)

/-- The matching applications, the default ones before the others. -/
def wanted (isMatch : ApplicationRow → Bool) : List ApplicationRow :=
  (if q.isDefault = some false then [] else appGroup q t isMatch true) ++
    if q.isDefault = some true then [] else appGroup q t isMatch false

end Meaning

/-! ### The conditions of the queries -/

section Conditions

variable {q : AppQuery} {t : AppTable} {app : ApplicationRow} {isDefault : Bool} {limit offset : ℕ}

theorem flag_inj {b b' : Bool} : flag b = flag b' ↔ b = b' := by
  cases b <;> cases b' <;> decide

theorem all_isDefault : All (whereObject textOps [(AppColumn.isDefault, some (flag isDefault))])
    (appCells app) ↔ app.isDefault = isDefault := by
  simp [All, whereObject, whereEq, Sql.compare, appCells, textOps, flag_inj]

theorem whereIn_column {c : AppColumn} {s : String} (h : appCells app c = some s)
    (values : List String) :
    whereIn textOps c (values.map some) (appCells app) = some true ↔ s ∈ values := by
  rw [whereIn_eq_true fun x y => decide_eq_true_iff, h]
  simp

theorem all_pattern {c : AppColumn} {s text : String} (h : appCells app c = some text)
    (hs : '\\' ∉ s.toList) :
    All (searchConds textOps { property := c, pattern := s }) (appCells app) ↔
      s.toList <:+: text.toList :=
  (finds_pattern_iff c s).mpr hs (appCells app) text h

theorem whereIn_network (values : List String) :
    whereIn textOps AppColumn.network (values.map some) (appCells app) = some true ↔
      app.network ∈ values := whereIn_column rfl values

theorem whereIn_chainID (values : List String) :
    whereIn textOps AppColumn.chainID (values.map some) (appCells app) = some true ↔
      app.chainID ∈ values := whereIn_column rfl values

theorem all_chainName {s : String} (hs : '\\' ∉ s.toList) :
    All (searchConds textOps { property := AppColumn.chainName, pattern := s }) (appCells app) ↔
      s.toList <:+: app.chainName.toList := all_pattern rfl hs

theorem all_displayName {s : String} (hs : '\\' ∉ s.toList) :
    All (searchConds textOps { property := AppColumn.displayName, pattern := s })
      (appCells app) ↔ s.toList <:+: app.displayName.toList := all_pattern rfl hs

theorem meets_metaListParams : (metaListParams q isDefault limit offset).Meets textOps
    (appCells app) ↔ MatchesMetaList q app ∧ app.isDefault = isDefault := by
  have hcolumns : All (whereObject textOps ((q.chainID.map fun chainID =>
      (AppColumn.chainID, some chainID)).toList ++ [(.isDefault, some (flag isDefault))]))
        (appCells app) ↔
      (∀ chainID ∈ q.chainID, app.chainID = chainID) ∧ app.isDefault = isDefault := by
    rw [whereObject, List.map_append, all_append]
    refine and_congr ?_ all_isDefault
    cases q.chainID <;> simp [All, whereEq, Sql.compare, appCells, textOps]
  have hnetwork : (∀ entry ∈ (q.network.map fun network =>
      (AppColumn.network, (splitCommas network).map some)).toList,
        whereIn textOps entry.1 entry.2 (appCells app) = some true) ↔
      ∀ network ∈ q.network, app.network ∈ splitCommas network := by
    cases q.network <;> simp [whereIn_network]
  have hsearch : All ((q.search.map fun search =>
      ({ property := .chainName, pattern := search } : Search AppColumn)).toList.flatMap
        (searchConds textOps)) (appCells app) ↔
      ∀ s ∈ q.search, s.toList <:+: app.chainName.toList := by
    cases hs : q.search with
    | none => simp [All]
    | some s => simp [all_chainName (q.search_literal s hs)]
  rw [metaListParams, meets_iff, hcolumns, hnetwork, hsearch]
  simp only [List.flatMap_nil, orSearchClauses, QueryBuilder.group, List.isEmpty_nil, if_true]
  constructor
  · rintro ⟨⟨hchainID, hdefault⟩, -, hnetwork, hsearch, -⟩
    exact ⟨⟨hchainID, hnetwork, hsearch⟩, hdefault⟩
  · rintro ⟨hmatch, hdefault⟩
    exact ⟨⟨hmatch.chainID, hdefault⟩, by simp [All], hmatch.network, hmatch.search,
      by simp [All]⟩

theorem not_mem_networkSet {chainIDs : List String} {s : String} (h : s ∈ networkSet chainIDs) :
    ',' ∉ s.toList := by
  rw [networkSet, List.mem_eraseDups, List.mem_map] at h
  obtain ⟨chainID, -, rfl⟩ := h
  unfold networkOfPrefix
  split <;> decide

theorem splitCommas_ne_nil (s : String) : splitCommas s ≠ [] := by
  rw [splitCommas, Ne, List.map_eq_nil_iff]
  exact List.splitOn_ne_nil _ _

/-- The networks of chain IDs are told apart after they have been joined. -/
theorem splitCommas_networkSet (chainIDs : String) :
    splitCommas (joinCommas (networkSet (splitCommas chainIDs))) =
      networkSet (splitCommas chainIDs) := by
  refine splitCommas_joinCommas ?_ fun s => not_mem_networkSet
  obtain ⟨chainID, hchainID⟩ := List.exists_mem_of_ne_nil _ (splitCommas_ne_nil chainIDs)
  refine List.ne_nil_of_mem (a := (networkOfPrefix (substring chainID 2)).getD "") ?_
  rw [networkSet, List.mem_eraseDups]
  exact List.mem_map_of_mem hchainID

/-- The conditions on the network: an empty text is compared, any other one is split. -/
theorem networkParam_iff : (networkParam q = some "" → app.network = "") ∧
    (∀ network, networkParam q = some network → network ≠ "" →
      app.network ∈ splitCommas network) ↔
    (∀ network ∈ q.network, app.network ∈ splitCommas network) ∧
      (q.network = none →
        ∀ chainIDs ∈ q.chainID, app.network ∈ networkSet (splitCommas chainIDs)) := by
  rw [networkParam]
  match hnetwork : q.network with
  | some network =>
    have hne : network ≠ "" := fun heq => q.network_ne (heq ▸ hnetwork)
    simp [hne]
  | none =>
    match q.chainID with
    | none => simp
    | some chainIDs =>
      have hsplit := splitCommas_networkSet chainIDs
      by_cases hempty : joinCommas (networkSet (splitCommas chainIDs)) = ""
      · have hset : networkSet (splitCommas chainIDs) = [""] := by
          rw [← hsplit, hempty]
          decide
        have hjoin : joinCommas [""] = "" := hset ▸ hempty
        simp [hset, hjoin]
      · simp [hempty, hsplit]

/-- The columns that are compared with one value. -/
theorem all_metadataColumns : All (whereObject textOps ((if networkParam q = some "" then
      [(AppColumn.network, some "")] else []) ++ [(.isDefault, some (flag isDefault))]))
        (appCells app) ↔
      (networkParam q = some "" → app.network = "") ∧ app.isDefault = isDefault := by
  rw [whereObject, List.map_append, all_append]
  refine and_congr ?_ all_isDefault
  by_cases hempty : networkParam q = some "" <;>
    simp [hempty, All, whereEq, Sql.compare, appCells, textOps]

/-- The columns that are compared with some values. -/
theorem forall_metadataWhereIn : (∀ entry ∈ (q.chainID.map fun chainIDs =>
      (AppColumn.chainID, (splitCommas chainIDs).map some)).toList ++
        if networkParam q = some "" then [] else ((networkParam q).map fun network =>
          (AppColumn.network, (splitCommas network).map some)).toList,
        whereIn textOps entry.1 entry.2 (appCells app) = some true) ↔
      (∀ chainIDs ∈ q.chainID, app.chainID ∈ splitCommas chainIDs) ∧
        ∀ network, networkParam q = some network → network ≠ "" →
          app.network ∈ splitCommas network := by
  rw [List.forall_mem_append]
  refine and_congr ?_ ?_
  · cases q.chainID <;> simp [whereIn_chainID]
  · cases hnetwork : networkParam q with
    | none => simp
    | some network =>
      by_cases hempty : network = "" <;>
        simp [hempty, whereIn_network]

/-- The search looks into both names. -/
theorem all_metadataSearch : All (QueryBuilder.group (orSearchClauses textOps
      ((q.search.map fun search => [{ property := AppColumn.chainName, pattern := search },
        { property := AppColumn.displayName, pattern := search }]).getD []))) (appCells app) ↔
      ∀ s ∈ q.search,
        s.toList <:+: app.chainName.toList ∨ s.toList <:+: app.displayName.toList := by
  cases hs : q.search with
  | none => simp [orSearchClauses, QueryBuilder.group, All]
  | some s =>
    have hliteral := q.search_literal s hs
    have hne : s ≠ "" := fun heq => q.search_ne (heq ▸ hs)
    rw [all_orSearch ?_]
    · simp [all_chainName hliteral, all_displayName hliteral]
    · simp [searchConds, hne]

theorem meets_metadataParams : (metadataParams q isDefault limit offset).Meets textOps
    (appCells app) ↔ MatchesMetadata q app ∧ app.isDefault = isDefault := by
  rw [metadataParams, meets_iff, all_metadataColumns, forall_metadataWhereIn, all_metadataSearch]
  simp only [List.flatMap_nil]
  have hnil : All ([] : List (Cond AppColumn String)) (appCells app) := by simp [All]
  constructor
  · rintro ⟨⟨hempty, hdefault⟩, -, ⟨hchainID, hnetwork⟩, -, hsearch⟩
    obtain ⟨hnetwork, hchain⟩ := networkParam_iff.mp ⟨hempty, hnetwork⟩
    exact ⟨⟨hchainID, hnetwork, hchain, hsearch⟩, hdefault⟩
  · rintro ⟨hmatch, hdefault⟩
    obtain ⟨hempty, hnetwork⟩ := networkParam_iff.mpr ⟨hmatch.network, hmatch.networkOfChain⟩
    exact ⟨⟨hempty, hdefault⟩, hnil, ⟨hmatch.chainID, hnetwork⟩, hnil, hmatch.search⟩

end Conditions

/-! ### The pages -/

section Pages

variable {q : AppQuery} {t : AppTable} {isMatch : ApplicationRow → Bool} {isDefault : Bool}

/-- A query for one group answers a page of it, and counts it. -/
theorem findRecords_eq {p : Params AppColumn String} (hp : p.IsPlain)
    (horder : p.orderKeys = q.sort.toList) {limit : ℕ} (hlimit : p.limit = some limit)
    (hmeets : ∀ app,
      p.Meets textOps (appCells app) ↔ isMatch app = true ∧ app.isDefault = isDefault) :
    t.table.findRecords textOps p = slice p.offset limit (appGroup q t isMatch isDefault) ∧
      t.table.countRecords textOps p = (appGroup q t isMatch isDefault).length := by
  have hfilter : (t.rows.filter fun app => p.Meets textOps (appCells app)) =
      t.rows.filter fun app => isMatch app && app.isDefault == isDefault := by
    refine List.filter_congr fun app _ => ?_
    rw [Bool.eq_iff_iff, decide_eq_true_iff, hmeets, Bool.and_eq_true, beq_iff_eq]
  have hselect : t.table.select textOps p = appGroup q t isMatch isDefault := by
    rw [RecordTable.select_eq hp fun _ _ => rfl, horder, appGroup, ← hfilter]
    rfl
  constructor
  · rw [RecordTable.findRecords, hselect, hlimit]
    rfl
  · rw [RecordTable.countRecords, appGroup, inOrder, List.length_insertionSort, ← hfilter]
    rfl

theorem findRecords_metaList (isDefault : Bool) (limit offset : ℕ) :
    t.table.findRecords textOps (metaListParams q isDefault limit offset) =
        slice offset limit (appGroup q t (MatchesMetaList q ·) isDefault) ∧
      t.table.countRecords textOps (metaListParams q isDefault limit offset) =
        (appGroup q t (MatchesMetaList q ·) isDefault).length :=
  findRecords_eq ⟨rfl, rfl⟩ (by simp [Params.orderKeys, metaListParams]) rfl fun app => by
    rw [meets_metaListParams, decide_eq_true_iff]

theorem findRecords_metadata (isDefault : Bool) (limit offset : ℕ) :
    t.table.findRecords textOps (metadataParams q isDefault limit offset) =
        slice offset limit (appGroup q t (MatchesMetadata q ·) isDefault) ∧
      t.table.countRecords textOps (metadataParams q isDefault limit offset) =
        (appGroup q t (MatchesMetadata q ·) isDefault).length :=
  findRecords_eq ⟨rfl, rfl⟩ (by simp [Params.orderKeys, metadataParams]) rfl fun app => by
    rw [meets_metadataParams, decide_eq_true_iff]

/-- **The list** is a page of both groups, whether a group is asked for or not. -/
theorem getBlockchainAppsMetaList_eq : getBlockchainAppsMetaList q t =
    slice q.offset q.limit (appGroup q t (MatchesMetaList q ·) true ++
      appGroup q t (MatchesMetaList q ·) false) := by
  rw [getBlockchainAppsMetaList, slice_append]
  simp only [findRecords_metaList]
  split
  · rfl
  · rename_i hfull
    have hnone : q.limit - (slice q.offset q.limit
        (appGroup q t (MatchesMetaList q ·) true)).length = 0 := by omega
    rw [hnone, slice_eq_nil_iff.mpr (.inl rfl), List.append_nil]

/-- **The metadata** are a page of the groups that are asked for, but for the offset of the
applications that are no default ones if only these are asked for. -/
theorem getBlockchainAppsMetadata_eq : getBlockchainAppsMetadata q t =
    match q.isDefault with
    | none => slice q.offset q.limit (appGroup q t (MatchesMetadata q ·) true ++
        appGroup q t (MatchesMetadata q ·) false)
    | some true => slice q.offset q.limit (appGroup q t (MatchesMetadata q ·) true)
    | some false => slice 0 q.limit (appGroup q t (MatchesMetadata q ·) false) := by
  have hle : q.limit ≤ q.limit * supportedNetworks.length :=
    Nat.le_mul_of_pos_right q.limit (by decide)
  rw [getBlockchainAppsMetadata]
  simp only [findRecords_metadata]
  match q.isDefault with
  | some true =>
    simp only [ne_eq, not_true_eq_false, false_and, if_false, Option.some.injEq, Bool.true_eq_false]
    exact slice_zero_slice hle
  | some false =>
    have hpos : 0 < q.limit := q.limit_pos
    simp only [if_true, ne_eq, Option.some.injEq, Bool.false_eq_true, not_false_eq_true,
      List.length_nil, hpos, and_self, List.nil_append]
    exact slice_zero_slice hle
  | none =>
    simp only [reduceCtorEq, if_false, ne_eq, not_false_eq_true, true_and]
    split
    · rename_i hlt
      -- the offset of the second query
      have hoffset : ∀ n, (if q.offset - n > 0 then q.offset - n else 0) = q.offset - n := by
        intro n
        split <;> omega
      rw [slice_zero_append hlt.le, slice_zero_slice, slice_append, slice_eq_of_length_lt hle hlt]
      · rw [hoffset]
      · omega
    · rename_i hfull
      have hnone : q.limit - (slice q.offset q.limit
          (appGroup q t (MatchesMetadata q ·) true)).length = 0 := by
        rw [length_slice] at hfull ⊢
        omega
      rw [slice_zero_slice hle, slice_append, hnone, slice_eq_nil_iff.mpr (.inl rfl),
        List.append_nil]

/-- The two groups have no application in common, and each of them has it once. -/
theorem nodup_groups (q : AppQuery) (t : AppTable) (isMatch : ApplicationRow → Bool) :
    (appGroup q t isMatch true ++ appGroup q t isMatch false).Nodup := by
  have hrows : t.rows.Nodup := List.Nodup.of_map _ t.nodup
  have hgroup : ∀ b, (appGroup q t isMatch b).Perm
      (t.rows.filter fun app => isMatch app && app.isDefault == b) :=
    fun b => List.perm_insertionSort _ _
  rw [List.nodup_append]
  refine ⟨(hgroup true).nodup_iff.mpr (hrows.filter _), (hgroup false).nodup_iff.mpr
    (hrows.filter _), fun app happ app' happ' heq => ?_⟩
  have htrue := List.of_mem_filter ((hgroup true).subset happ)
  have hfalse := List.of_mem_filter ((hgroup false).subset happ')
  rw [Bool.and_eq_true, beq_iff_eq] at htrue hfalse
  rw [heq, hfalse.2] at htrue
  exact absurd htrue.2 (by decide)

end Pages

/-! ### The result -/

section Result

variable (q : AppQuery) (t : AppTable)

/-- The number of the matching applications of a group. -/
def groupSize (isMatch : ApplicationRow → Bool) (isDefault : Bool) : ℕ :=
  (t.rows.filter fun app => isMatch app && app.isDefault == isDefault).length

/-- The list is the page that is asked for. -/
def MetaListRight : Prop :=
  getBlockchainAppsMetaList q t = slice q.offset q.limit (wanted q t (MatchesMetaList q ·))

/-- The metadata are those of the page that is asked for. -/
def MetadataRight : Prop :=
  getBlockchainAppsMetadata q t = slice q.offset q.limit (wanted q t (MatchesMetadata q ·))

end Result

theorem length_appGroup (q : AppQuery) (t : AppTable) (isMatch : ApplicationRow → Bool)
    (isDefault : Bool) : (appGroup q t isMatch isDefault).length = groupSize t isMatch isDefault :=
  List.length_insertionSort _ _

theorem metaListRight_iff (q : AppQuery) (t : AppTable) : MetaListRight q t ↔
    let defaults := groupSize t (MatchesMetaList q ·) true
    let others := groupSize t (MatchesMetaList q ·) false
    match q.isDefault with
    | none => True
    | some true => q.offset + q.limit ≤ defaults ∨ others = 0 ∨ defaults + others ≤ q.offset
    | some false => defaults = 0 ∨ defaults + others ≤ q.offset := by
  have hpos := q.limit_pos
  have hdefaults := length_appGroup q t (MatchesMetaList q ·) true
  have hothers := length_appGroup q t (MatchesMetaList q ·) false
  rw [MetaListRight, getBlockchainAppsMetaList_eq, wanted]
  match q.isDefault with
  | none => simp
  | some true =>
    simp only [Option.some.injEq, Bool.true_eq_false, if_false, if_true, List.append_nil]
    rw [slice_append, List.append_right_eq_self, slice_eq_nil_iff, length_slice, hdefaults, hothers]
    omega
  | some false =>
    simp only [Option.some.injEq, Bool.false_eq_true, if_false, if_true, List.nil_append]
    have hshift : slice (q.offset + (appGroup q t (MatchesMetaList q ·) true).length) q.limit
        (appGroup q t (MatchesMetaList q ·) true ++ appGroup q t (MatchesMetaList q ·) false) =
        slice q.offset q.limit (appGroup q t (MatchesMetaList q ·) false) :=
      slice_append_length q.offset
    rw [← hshift, slice_eq_slice_iff (nodup_groups q t _) hpos, List.length_append, hdefaults,
      hothers]
    omega

theorem metadataRight_iff (q : AppQuery) (t : AppTable) : MetadataRight q t ↔
    q.isDefault = some false → q.offset = 0 ∨ groupSize t (MatchesMetadata q ·) false = 0 := by
  have hpos := q.limit_pos
  have hothers := length_appGroup q t (MatchesMetadata q ·) false
  have hnodup := (List.nodup_append.mp (nodup_groups q t (MatchesMetadata q ·))).2.1
  rw [MetadataRight, getBlockchainAppsMetadata_eq, wanted]
  match q.isDefault with
  | none => simp
  | some true => simp
  | some false =>
    simp only [Option.some.injEq, Bool.false_eq_true, if_false, if_true, List.nil_append,
      forall_const]
    rw [slice_eq_slice_iff hnodup hpos, hothers]
    omega

/-- **Pages of applications.** The list is right if no group is asked for; if the default
applications are, it is right as long as the page does not reach the others; if the others are, it
is right if there are no default ones, or the page is beyond all of them. The metadata are right
but for a page beyond the first one of the applications that are no default ones. -/
theorem app_paging_iff (q : AppQuery) (t : AppTable) :
    (MetaListRight q t ↔
      let defaults := groupSize t (MatchesMetaList q ·) true
      let others := groupSize t (MatchesMetaList q ·) false
      match q.isDefault with
      | none => True
      | some true => q.offset + q.limit ≤ defaults ∨ others = 0 ∨ defaults + others ≤ q.offset
      | some false => defaults = 0 ∨ defaults + others ≤ q.offset) ∧
    (MetadataRight q t ↔
      (q.isDefault = some false → q.offset = 0 ∨ groupSize t (MatchesMetadata q ·) false = 0)) :=
  ⟨metaListRight_iff q t, metadataRight_iff q t⟩

/-- Two applications that are no default ones. -/
def twoApps : AppTable where
  rows := [⟨"a", "A", "00000001", "mainnet", false, "A"⟩,
    ⟨"b", "B", "00000002", "mainnet", false, "B"⟩]
  nodup := by decide

/-- What is not given is not empty, and has no character to escape. -/
theorem none_ne_empty : (none : Option String) ≠ some "" := by decide

theorem literal_none : ∀ s ∈ (none : Option String), '\\' ∉ s.toList :=
  fun _ hs => absurd hs (Option.not_mem_none _)

/-- The second page of them, of one application each. -/
def secondPage : AppQuery where
  chainID := none
  network := none
  search := none
  isDefault := some false
  offset := 1
  limit := 1
  sort := some (.chainName, .asc)
  limit_pos := by decide
  chainID_ne := none_ne_empty
  network_ne := none_ne_empty
  search_ne := none_ne_empty
  search_literal := literal_none

/-- The first application is returned again. -/
theorem second_page_is_first :
    (getBlockchainAppsMetadata secondPage twoApps).map ApplicationRow.chainName = ["a"] ∧
    (slice 1 1 (wanted secondPage twoApps (MatchesMetadata secondPage ·))).map
      ApplicationRow.chainName = ["b"] ∧
    ¬ MetadataRight secondPage twoApps := by
  have hfirst : (getBlockchainAppsMetadata secondPage twoApps).map ApplicationRow.chainName =
      ["a"] := by decide +kernel
  have hsecond : (slice 1 1 (wanted secondPage twoApps (MatchesMetadata secondPage ·))).map
      ApplicationRow.chainName = ["b"] := by decide +kernel
  refine ⟨hfirst, hsecond, fun h => ?_⟩
  have hsame := congrArg (List.map ApplicationRow.chainName) h
  rw [hfirst] at hsame
  exact absurd (hsame.trans hsecond) (by decide)

end AppRegistry

end SwaptoshiService
