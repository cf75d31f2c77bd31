import Mathlib.Data.List.AList
import SwaptoshiService.AppRegistry.AppPaging
import SwaptoshiService.AppRegistry.SupportedTokens
import SwaptoshiService.Lib.Except
import SwaptoshiService.Lib.Join

/-!
# The metadata of tokens

`getBlockchainAppsTokenMetadata` (`blockchain-app-registry/shared/metadata.js`) selects rows of
`token_metadata` and looks their tokens up elsewhere: in the file of one application for each chain,
and among the tokens of the token factory. What is found there under the ID of a selected row is the
answer.

A row may be found nowhere: its application is not indexed under the chain, or the file spells the
ID with capitals, which `indexTokensMeta` has turned into small letters. It may be found twice: in a
file that lists it twice, or in a file and in the factory. And a chain ID takes the place of the
search, so that rows are selected which the request does not ask for. `tokens_complete_iff` says
that the answer is right if nothing of this happens.
-/

namespace SwaptoshiService

namespace AppRegistry

open QueryBuilder Sql

/-! ### The registry -/

/-- A row of `token_factory`. -/
structure FactoryToken where
  tokenID : String
  tokenName : String
  deriving DecidableEq, Repr

/-- What a request reads: the tables, the files of the clone and the tokens of the factory. The IDs
in `token_metadata` are in small letters, those of the factory are hexadecimal as well. -/
structure Registry where
  apps : AppTable
  tokens : TokenTable
  files : TokenFiles
  factory : List FactoryToken
  /-- The chain ID of the node. -/
  nodeChainID : String
  factory_nodup : (factory.map FactoryToken.tokenID).Nodup
  toLower_tokenID : ∀ token ∈ tokens.rows, token.tokenID.toLower = token.tokenID
  comma_not_mem : ∀ token ∈ tokens.rows, ',' ∉ token.tokenID.toList

/-- `find({ network, chainID }, ['appDirName'])`, the first of the result. -/
def AppTable.dirOf (apps : AppTable) (network chainID : String) : Option String :=
  (apps.rows.find? fun app => app.network = network ∧ app.chainID = chainID).map
    ApplicationRow.appDirName

/-- The network of a token ID, as `tokenCreate` tells it. -/
def networkOfTokenID (tokenID : String) : String :=
  (networkOfPrefix (substring tokenID 2)).getD "unknown"

/-- The row of `token_metadata` that `tokenCreate` writes. -/
def FactoryToken.row (token : FactoryToken) : TokenRow where
  chainName := "swaptoshi"
  network := networkOfTokenID token.tokenID
  tokenName := token.tokenName
  tokenID := token.tokenID

/-- The tables are what `indexMetadataFromFile` and `tokenCreate` make of the files and of the
factory. A token ID that both write has the row that was written last. -/
structure Registry.IndexedFrom (registry : Registry) (env : RegistryEnv)
    (files : FilePath → Option String) : Prop where
  files_eq : registry.files = fun network appDirName =>
    (files ⟨network, appDirName, .nativetokensJson⟩).bind env.parseTokens
  app_iff : ∀ app, app ∈ registry.apps.rows ↔
    ∃ p, env.Lists files p (.applicationMetadata app.network app.chainName) app
  of_token : ∀ token ∈ registry.tokens.rows,
    (∃ p, env.Lists files p (.tokenMetadata token.tokenID) token) ∨
      ∃ f ∈ registry.factory, token = f.row
  of_listed : ∀ p tokenID (row : TokenRow), env.Lists files p (.tokenMetadata tokenID) row →
    ∃ token ∈ registry.tokens.rows, token.tokenID = tokenID
  of_factory : ∀ f ∈ registry.factory, ∃ token ∈ registry.tokens.rows, token.tokenID = f.tokenID

section Indexed

variable {env : RegistryEnv} {own : RegistryCell → Prop}

/-- The row of an entry, if it is one of `application_metadata`. -/
def appOfEntry : Entry → Option ApplicationRow
  | ⟨.applicationMetadata _ _, app⟩ => some app
  | _ => none

/-- The row of an entry, if it is one of `token_metadata`. -/
def tokenOfEntry : Entry → Option TokenRow
  | ⟨.tokenMetadata _, token⟩ => some token
  | _ => none

theorem tokenEntry_of_toLower {token : TokenMeta} {tokenID : String}
    (h : token.tokenID.toLower = tokenID) (chainName network : String) :
    tokenEntry chainName network token =
      ⟨.tokenMetadata tokenID, ⟨chainName, network, token.tokenName, tokenID⟩⟩ := by
  subst h
  rfl

/-- A token is listed under its ID. -/
theorem tokenID_of_lists {files : FilePath → Option String} {p : FilePath} {tokenID : String}
    {token : TokenRow} (h : env.Lists files p (.tokenMetadata tokenID) token) :
    token.tokenID = tokenID := by
  have hname : p.filename = .nativetokensJson := h.fits
  obtain ⟨-, -, es, hes, hmem⟩ := h
  simp only [entries_nativetokensJson hname, Option.bind_eq_some_iff] at hes
  obtain ⟨appText, -, appMeta, -, text, -, hes⟩ := hes
  obtain ⟨tokens, -, rfl⟩ := Option.map_eq_some_iff.mp hes
  obtain ⟨listed, -, heq⟩ := List.mem_map.mp hmem
  have hcell := congrArg Sigma.fst heq
  have hrow := congrArg tokenOfEntry heq
  obtain rfl := RegistryCell.tokenMetadata.inj hcell
  obtain rfl := Option.some.inj hrow
  rfl

/-- **What the files are indexed to**, in any order, together with the rows of the factory. -/
theorem indexedFrom_of_produces {C : Commit env own} {tables : RegistryStore}
    (hproduces : Produces env C.files tables) {registry : Registry}
    (hfiles : registry.files = fun network appDirName =>
      (C.files.get ⟨network, appDirName, .nativetokensJson⟩).bind env.parseTokens)
    (happs : ∀ app, app ∈ registry.apps.rows ↔
      tables.get (.applicationMetadata app.network app.chainName) = some app)
    (htokens : ∀ token, token ∈ registry.tokens.rows ↔
      tables.get (.tokenMetadata token.tokenID) = some token ∨
        ∃ f ∈ registry.factory, token = f.row) :
    registry.IndexedFrom env C.files.get where
  files_eq := hfiles
  app_iff app :=
    (happs app).trans (produces_iff C (c := .applicationMetadata _ _) hproduces trivial app)
  of_token token htoken :=
    ((htokens token).mp htoken).imp_left
      (produces_iff C (c := .tokenMetadata _) hproduces trivial token).mp
  of_listed p tokenID token hlists := by
    obtain rfl := tokenID_of_lists hlists
    have hstored : tables.get (.tokenMetadata token.tokenID) = some token :=
      (produces_iff C hproduces hlists.fits.isMetadata token).mpr ⟨p, hlists⟩
    exact ⟨token, (htokens token).mpr (.inl hstored), rfl⟩
  of_factory f hf := ⟨f.row, (htokens f.row).mpr (.inr ⟨f, hf, rfl⟩), rfl⟩

end Indexed

/-! ### The request -/

/-- The parameters of a request. A text that is given is not empty. -/
structure TokenQuery where
  chainName : Option String
  search : Option String
  tokenName : Option String
  tokenID : Option String
  chainID : Option String
  network : Option String
  noFactory : Bool
  offset : ℕ
  limit : Option ℕ
  sort : Option (TokenColumn × Direction)
  limit_ne : limit ≠ some 0
  given_ne : ∀ text ∈ [search, tokenName, tokenID, network], text ≠ some ""
  search_literal : ∀ s ∈ search, '\\' ∉ s.toList
  chainID_text : ∀ s ∈ chainID, '\\' ∉ s.toList ∧ s.toList.length = lengthChainID

/-- `{ property, values: text.split(',') }`, if the text is given. -/
def csv (c : TokenColumn) (text : Option String) : List (TokenColumn × List (Option String)) :=
  (text.map fun text => (c, (splitCommas text).map some)).toList

/-- `restParams`. The search for a chain ID takes the place of any other. -/
def restParams (q : TokenQuery) : Params TokenColumn String where
  queryParams := (q.chainName.map fun chainName => (TokenColumn.chainName, some chainName)).toList
  whereIn := csv .tokenName q.tokenName ++ csv .tokenID q.tokenID ++ csv .network q.network
  search :=
    match q.chainID with
    | some chainID => [{ property := .tokenID, startsWith := chainID }]
    | none => (q.search.map fun search =>
        { property := TokenColumn.chainName, pattern := search }).toList
  sort := q.sort
  limit := q.limit
  offset := q.offset

/-- An entry of the answer. -/
structure TokenEntry where
  tokenID : String
  tokenName : String
  chainID : String
  chainName : String
  network : Option String
  deriving DecidableEq, Repr

/-- `uniqueChainMap`: the last row for each chain ID. -/
def uniqueChainMap (tokensResultSet : List TokenRow) : AList fun _ : String => TokenRow :=
  tokensResultSet.foldl (fun acc tokenMeta => acc.insert (chainIDOf tokenMeta.tokenID) tokenMeta) ∅

def uniqueChainList (tokensResultSet : List TokenRow) : List TokenRow :=
  (uniqueChainMap tokensResultSet).entries.map Sigma.snd

section Request

variable (registry : Registry)

/-- `readMetadataFromClonedRepo` for a `nativetokens.json`; the error is the file. -/
def readNativeTokens (network appDirName : String) : Except FilePath (List TokenMeta) :=
  match registry.files network appDirName with
  | some tokens => .ok tokens
  | none => .error ⟨network, appDirName, .nativetokensJson⟩

/-- The entries for one chain. -/
def chainEntries (resultTokenIDSet : List String) (tokenMeta : TokenRow) :
    Except FilePath (List TokenEntry) :=
  let chainID := chainIDOf tokenMeta.tokenID
  match registry.apps.dirOf tokenMeta.network chainID with
  | none => .ok []
  | some appDirName => do
    let tokens ← readNativeTokens registry tokenMeta.network appDirName
    return (tokens.filter fun token => token.tokenID ∈ resultTokenIDSet).map fun token =>
      { tokenID := token.tokenID, tokenName := token.tokenName, chainID,
        chainName := tokenMeta.chainName, network := some tokenMeta.network }

/-- The entry is added unless there is one with its ID. -/
def addEntry (accumulator : List TokenEntry) (current : TokenEntry) : List TokenEntry :=
  if accumulator.any fun item => item.tokenID = current.tokenID then accumulator
  else accumulator ++ [current]

/-- `getTokenFactoriesMeta({ tokenIds })`. -/
def getTokenFactoriesMeta (tokenIds : String) : List TokenEntry :=
  let factories := (registry.factory.filter fun f => f.tokenID ∈ splitCommas tokenIds).map fun f =>
    { tokenID := f.tokenID, tokenName := f.tokenName, chainID := registry.nodeChainID,
      chainName := "swaptoshi", network := none }
  factories.foldl addEntry []

/-- The tokens that `getBlockchainAppsTokenMetadata(params)` returns, where `finished` are the
elements of `uniqueChainList` in the order in which their files have been read. -/
def getBlockchainAppsTokenMetadata (q : TokenQuery) (finished : List TokenRow) :
    Except FilePath (List TokenEntry) := do
  let tokensResultSet := registry.tokens.table.findRecords textOps (restParams q)
  let resultTokenIDSet := tokensResultSet.map TokenRow.tokenID
  let entries ← finished.mapM (chainEntries registry resultTokenIDSet)
  let factoryData := if q.noFactory = false ∧ 0 < resultTokenIDSet.length then
    getTokenFactoriesMeta registry (joinCommas resultTokenIDSet) else []
  return entries.flatten ++ factoryData

end Request

/-! ### What is meant -/

/-- The row satisfies the filters. -/
structure TokenQuery.Matches (q : TokenQuery) (token : TokenRow) : Prop where
  chainName : ∀ chainName ∈ q.chainName, token.chainName = chainName
  search : ∀ s ∈ q.search, s.toList <:+: token.chainName.toList
  tokenName : ∀ names ∈ q.tokenName, token.tokenName ∈ splitCommas names
  tokenID : ∀ ids ∈ q.tokenID, token.tokenID ∈ splitCommas ids
  chainID : ∀ chainID ∈ q.chainID, chainIDOf token.tokenID = chainID
  network : ∀ networks ∈ q.network, token.network ∈ splitCommas networks

instance (q : TokenQuery) (token : TokenRow) : Decidable (q.Matches token) :=
  decidable_of_iff ((∀ chainName ∈ q.chainName, token.chainName = chainName) ∧
      (∀ s ∈ q.search, s.toList <:+: token.chainName.toList) ∧
      (∀ names ∈ q.tokenName, token.tokenName ∈ splitCommas names) ∧
      (∀ ids ∈ q.tokenID, token.tokenID ∈ splitCommas ids) ∧
      (∀ chainID ∈ q.chainID, chainIDOf token.tokenID = chainID) ∧
      ∀ networks ∈ q.network, token.network ∈ splitCommas networks)
    ⟨fun ⟨h₁, h₂, h₃, h₄, h₅, h₆⟩ => ⟨h₁, h₂, h₃, h₄, h₅, h₆⟩,
      fun ⟨h₁, h₂, h₃, h₄, h₅, h₆⟩ => ⟨h₁, h₂, h₃, h₄, h₅, h₆⟩⟩

/-- The requested page of the rows that satisfy the filters. -/
def wantedTokens (q : TokenQuery) (t : TokenTable) : List TokenRow :=
  page q.limit q.offset ((t.rows.filter fun token => q.Matches token).insertionSort
    fun token token' => before textOps.lt q.sort.toList (tokenCells token) (tokenCells token'))

/-- In whatever order the files are read, there is one entry for each wanted row, and no other. An
entry is for the row that has its ID in small letters. -/
def TokensComplete (q : TokenQuery) (registry : Registry) : Prop :=
  ∀ finished, finished.Perm (uniqueChainList
      (registry.tokens.table.findRecords textOps (restParams q))) →
    ∃ data, getBlockchainAppsTokenMetadata registry q finished = .ok data ∧
      (data.map fun entry => entry.tokenID.toLower).Perm
        ((wantedTokens q registry.tokens).map TokenRow.tokenID)

/-- The request without the search, if a chain ID is given. -/
def TokenQuery.unsearched (q : TokenQuery) : TokenQuery where
  chainName := q.chainName
  search := if q.chainID.isSome then none else q.search
  tokenName := q.tokenName
  tokenID := q.tokenID
  chainID := q.chainID
  network := q.network
  noFactory := q.noFactory
  offset := q.offset
  limit := q.limit
  sort := q.sort
  limit_ne := q.limit_ne
  given_ne := by
    have hgiven := q.given_ne
    simp only [List.forall_mem_cons] at hgiven ⊢
    refine ⟨?_, hgiven.2⟩
    split_ifs
    · exact (Option.some_ne_none "").symm
    · exact hgiven.1
  search_literal := by
    split_ifs
    · exact fun s hs => absurd hs (Option.not_mem_none s)
    · exact q.search_literal
  chainID_text := q.chainID_text

section Found

variable (registry : Registry)

/-- The file of the application that is found for a row, if there is one, can be read. -/
def ChainReadable (tokenMeta : TokenRow) : Prop :=
  ∀ appDirName ∈ registry.apps.dirOf tokenMeta.network (chainIDOf tokenMeta.tokenID),
    (registry.files tokenMeta.network appDirName).isSome

/-- The IDs in this file. -/
def chainListing (tokenMeta : TokenRow) : List String :=
  (((registry.apps.dirOf tokenMeta.network (chainIDOf tokenMeta.tokenID)).bind
    (registry.files tokenMeta.network)).getD []).map TokenMeta.tokenID

/-- The IDs of the factory, unless they are not asked for. -/
def factoryListing (q : TokenQuery) : List String :=
  if q.noFactory then [] else registry.factory.map FactoryToken.tokenID

/-- Every row that is selected without the search is found once in the files and the factory
together, if it is wanted, and else not at all. The files are those of the applications that are
found for the last row of each chain. -/
structure FoundOnce (q : TokenQuery) : Prop where
  readable : ∀ tokenMeta ∈ uniqueChainList (wantedTokens q.unsearched registry.tokens),
    ChainReadable registry tokenMeta
  selected : ∀ token ∈ wantedTokens q registry.tokens,
    token ∈ wantedTokens q.unsearched registry.tokens
  once : ∀ token ∈ wantedTokens q.unsearched registry.tokens,
    ((uniqueChainList (wantedTokens q.unsearched registry.tokens)).flatMap
        (chainListing registry)).count token.tokenID +
      (factoryListing registry q).count token.tokenID =
    if token ∈ wantedTokens q registry.tokens then 1 else 0

end Found

/-! ### The rows that are selected -/

section Selection

variable {q : TokenQuery} {token : TokenRow} {t : TokenTable}

theorem all_csv {c : TokenColumn} {s : String} (h : tokenCells token c = some s)
    (text : Option String) :
    (∀ entry ∈ csv c text, QueryBuilder.whereIn textOps entry.1 entry.2 (tokenCells token) =
      some true) ↔ ∀ values ∈ text, s ∈ splitCommas values := by
  cases text with
  | none => simp [csv]
  | some values =>
    simp only [csv, Option.map_some, Option.toList_some, List.forall_mem_singleton]
    rw [whereIn_eq_true fun x y => decide_eq_true_iff, h]
    simp

/-- What is searched for. -/
theorem all_search : All ((restParams q).search.flatMap (searchConds textOps)) (tokenCells token) ↔
    (∀ s ∈ q.unsearched.search, s.toList <:+: token.chainName.toList) ∧
      ∀ chainID ∈ q.chainID, chainIDOf token.tokenID = chainID := by
  cases hchain : q.chainID with
  | some chainID =>
    obtain ⟨hliteral, hlength⟩ := q.chainID_text chainID hchain
    have hstarts := (finds_startsWith_iff TokenColumn.tokenID chainID).mpr hliteral
      (tokenCells token) token.tokenID rfl
    have hself : substring chainID lengthChainID = chainID := by
      rw [substring, ← hlength, List.take_length, String.ofList_toList]
    have heq : chainIDOf token.tokenID = chainID ↔ chainID.toList <+: token.tokenID.toList := by
      rw [chainIDOf, ← hself, substring_eq_iff hlength.ge, hself]
    simp [restParams, TokenQuery.unsearched, hchain, hstarts, heq]
  | none =>
    cases hsearch : q.search with
    | none => simp [restParams, TokenQuery.unsearched, hchain, hsearch, All]
    | some s =>
      have hfinds := (finds_pattern_iff TokenColumn.chainName s).mpr (q.search_literal s hsearch)
        (tokenCells token) token.chainName rfl
      simp [restParams, TokenQuery.unsearched, hchain, hsearch, hfinds]

theorem meets_restParams :
    (restParams q).Meets textOps (tokenCells token) ↔ q.unsearched.Matches token := by
  have hname : All (whereObject textOps (restParams q).queryParams) (tokenCells token) ↔
      ∀ chainName ∈ q.chainName, token.chainName = chainName := by
    cases hchainName : q.chainName <;>
      simp [restParams, hchainName, whereObject, whereEq, Sql.compare, All, tokenCells, textOps]
  have hlists : (∀ entry ∈ (restParams q).whereIn,
      QueryBuilder.whereIn textOps entry.1 entry.2 (tokenCells token) = some true) ↔
      ((∀ names ∈ q.tokenName, token.tokenName ∈ splitCommas names) ∧
        ∀ ids ∈ q.tokenID, token.tokenID ∈ splitCommas ids) ∧
        ∀ networks ∈ q.network, token.network ∈ splitCommas networks := by
    rw [restParams, List.forall_mem_append, List.forall_mem_append, all_csv rfl, all_csv rfl,
      all_csv rfl]
  have hnil : All ([] : List (Cond TokenColumn String)) (tokenCells token) :=
    fun c hc => absurd hc List.not_mem_nil
  have hmeets : (restParams q).Meets textOps (tokenCells token) ↔
      All (whereObject textOps (restParams q).queryParams) (tokenCells token) ∧
        (∀ entry ∈ (restParams q).whereIn,
          QueryBuilder.whereIn textOps entry.1 entry.2 (tokenCells token) = some true) ∧
        All ((restParams q).search.flatMap (searchConds textOps)) (tokenCells token) := by
    refine meets_iff.trans ?_
    simp only [List.flatMap_nil, orSearchClauses, QueryBuilder.group, List.isEmpty_nil, if_true,
      hnil, true_and, and_true]
    rfl
  rw [hmeets, hname, hlists, all_search]
  constructor
  · rintro ⟨hchainName, ⟨⟨htokenName, htokenID⟩, hnetwork⟩, hsearch, hchainID⟩
    exact ⟨hchainName, hsearch, htokenName, htokenID, hchainID, hnetwork⟩
  · intro h
    exact ⟨h.chainName, ⟨⟨h.tokenName, h.tokenID⟩, h.network⟩, h.search, h.chainID⟩

/-- The rows of the answer of the database. -/
theorem findRecords_restParams :
    t.table.findRecords textOps (restParams q) = wantedTokens q.unsearched t := by
  have hselect : t.table.select textOps (restParams q) = _ :=
    RecordTable.select_eq ⟨rfl, rfl⟩ fun _ _ => rfl
  have hfilter : (t.rows.filter fun token => (restParams q).Meets textOps (tokenCells token)) =
      t.rows.filter fun token => q.unsearched.Matches token :=
    List.filter_congr fun token _ => decide_eq_decide.mpr meets_restParams
  have horder : (restParams q).orderKeys = q.sort.toList := by simp [Params.orderKeys, restParams]
  rw [RecordTable.findRecords, hselect, horder, wantedTokens, ← hfilter]
  rfl

theorem mem_of_mem_wantedTokens (h : token ∈ wantedTokens q t) : token ∈ t.rows := by
  have hsorted := (page_sublist _ _ _).subset h
  rw [List.mem_insertionSort] at hsorted
  exact (List.mem_filter.mp hsorted).1

theorem nodup_wantedTokens (q : TokenQuery) (t : TokenTable) :
    ((wantedTokens q t).map TokenRow.tokenID).Nodup := by
  have hfilter := (List.filter_sublist (p := fun token => decide (q.Matches token))
    (l := t.rows)).map TokenRow.tokenID
  have hsort := (List.perm_insertionSort (fun token token' => before textOps.lt q.sort.toList
    (tokenCells token) (tokenCells token')) (t.rows.filter fun token => q.Matches token)).map
      TokenRow.tokenID
  exact (hsort.nodup_iff.mpr (hfilter.nodup t.nodup)).sublist ((page_sublist _ _ _).map _)

/-- Rows of the table are told by their IDs. -/
theorem tokenID_mem_iff {l : List TokenRow} (hl : ∀ row ∈ l, row ∈ t.rows)
    (htoken : token ∈ t.rows) : token.tokenID ∈ l.map TokenRow.tokenID ↔ token ∈ l := by
  constructor
  · intro h
    obtain ⟨row, hrow, heq⟩ := List.mem_map.mp h
    rwa [← List.inj_on_of_nodup_map t.nodup (hl row hrow) htoken heq]
  · exact List.mem_map_of_mem

end Selection

/-! ### The entries that are found -/

section Entries

variable {registry : Registry} {q : TokenQuery} {ids : List String} {tokenMeta : TokenRow}

theorem chainEntries_of_readable (ids : List String) (h : ChainReadable registry tokenMeta) :
    ∃ entries, chainEntries registry ids tokenMeta = .ok entries ∧
      entries.map TokenEntry.tokenID =
        (chainListing registry tokenMeta).filter fun id => id ∈ ids := by
  match hdir : registry.apps.dirOf tokenMeta.network (chainIDOf tokenMeta.tokenID) with
  | none => exact ⟨[], by simp only [chainEntries, hdir], by simp [chainListing, hdir]⟩
  | some appDirName =>
    obtain ⟨tokens, htokens⟩ := Option.isSome_iff_exists.mp (h appDirName hdir)
    refine ⟨_, by simp only [chainEntries, hdir, readNativeTokens, htokens]; rfl, ?_⟩
    rw [chainListing, hdir, Option.bind_some, htokens, Option.getD_some, List.map_map,
      List.filter_map]
    rfl

theorem readable_of_chainEntries {entries : List TokenEntry}
    (h : chainEntries registry ids tokenMeta = .ok entries) : ChainReadable registry tokenMeta := by
  intro appDirName hdir
  simp only [chainEntries, Option.mem_def.mp hdir] at h
  obtain ⟨tokens, htokens, -⟩ := bind_eq_ok_iff.mp h
  rw [readNativeTokens] at htokens
  split at htokens
  · rename_i hfile
    rw [hfile, Option.isSome_some]
  · cases htokens

/-- Entries with IDs of their own are all added. -/
theorem foldl_addEntry : ∀ (entries accumulator : List TokenEntry),
    ((accumulator ++ entries).map TokenEntry.tokenID).Nodup →
      entries.foldl addEntry accumulator = accumulator ++ entries
  | [], accumulator, _ => by rw [List.foldl_nil, List.append_nil]
  | current :: entries, accumulator, hnodup => by
    have hnew : (accumulator.any fun item => item.tokenID = current.tokenID) = false := by
      rw [List.any_eq_false]
      intro item hitem heq
      rw [List.map_append, List.map_cons, List.nodup_append] at hnodup
      exact hnodup.2.2 _ (List.mem_map_of_mem hitem) _ List.mem_cons_self (of_decide_eq_true heq)
    rw [List.foldl_cons, addEntry, hnew, if_neg Bool.false_ne_true, foldl_addEntry entries,
      List.append_assoc, List.singleton_append]
    rwa [List.append_assoc, List.singleton_append]

/-- The factory answers with the tokens that are asked for. -/
theorem getTokenFactoriesMeta_ids (hne : ids ≠ []) (hcomma : ∀ id ∈ ids, ',' ∉ id.toList) :
    (getTokenFactoriesMeta registry (joinCommas ids)).map TokenEntry.tokenID =
      (registry.factory.map FactoryToken.tokenID).filter fun id => id ∈ ids := by
  rw [getTokenFactoriesMeta, splitCommas_joinCommas hne hcomma, foldl_addEntry, List.nil_append,
    List.map_map, List.filter_map]
  · rfl
  · rw [List.nil_append, List.map_map]
    exact (List.filter_sublist.map FactoryToken.tokenID).nodup registry.factory_nodup

/-- **The IDs of the answer**, if the files can be read: those of the selected rows, as often as
they are listed. -/
theorem getBlockchainAppsTokenMetadata_ids {finished : List TokenRow}
    (hids : (wantedTokens q.unsearched registry.tokens).map TokenRow.tokenID = ids)
    (hreadable : ∀ tokenMeta ∈ finished, ChainReadable registry tokenMeta) :
    ∃ data, getBlockchainAppsTokenMetadata registry q finished = .ok data ∧
      data.map TokenEntry.tokenID =
        (finished.flatMap (chainListing registry) ++ factoryListing registry q).filter
          fun id => id ∈ ids := by
  obtain ⟨entries, hentries, hlisted⟩ := exists_mapM_eq_ok_flatten fun tokenMeta h =>
    chainEntries_of_readable ids (hreadable tokenMeta h)
  have hflat : (finished.flatMap fun tokenMeta => (chainListing registry tokenMeta).filter
      fun id => id ∈ ids) = (finished.flatMap (chainListing registry)).filter fun id => id ∈ ids :=
    List.filter_flatMap.symm
  have hfactory : (if q.noFactory = false ∧ 0 < ids.length then
      getTokenFactoriesMeta registry (joinCommas ids) else []).map TokenEntry.tokenID =
        (factoryListing registry q).filter fun id => id ∈ ids := by
    rw [factoryListing]
    cases q.noFactory with
    | true => simp
    | false =>
      by_cases hne : ids = []
      · simp [hne]
      · have hcomma : ∀ id ∈ ids, ',' ∉ id.toList := by
          intro id hid
          rw [← hids] at hid
          obtain ⟨token, htoken, rfl⟩ := List.mem_map.mp hid
          exact registry.comma_not_mem token (mem_of_mem_wantedTokens htoken)
        rw [if_pos ⟨rfl, List.length_pos_iff.mpr hne⟩, getTokenFactoriesMeta_ids hne hcomma]
        rfl
  refine ⟨entries.flatten ++ if q.noFactory = false ∧ 0 < ids.length then
    getTokenFactoriesMeta registry (joinCommas ids) else [], ?_, ?_⟩
  · simp only [getBlockchainAppsTokenMetadata, findRecords_restParams, hids, hentries]
    rfl
  · rw [List.map_append, hlisted, hflat, hfactory, List.filter_append]

theorem map_toLower {data : List TokenEntry}
    (h : ∀ id ∈ data.map TokenEntry.tokenID, id ∈ (wantedTokens q registry.tokens).map
      TokenRow.tokenID) :
    (data.map fun entry => entry.tokenID.toLower) = data.map TokenEntry.tokenID := by
  refine List.map_congr_left fun entry hentry => ?_
  obtain ⟨token, htoken, heq⟩ := List.mem_map.mp (h _ (List.mem_map_of_mem hentry))
  rw [← heq, registry.toLower_tokenID token (mem_of_mem_wantedTokens htoken)]

/-- If the files can be read, the selected rows are to be listed as often as they are wanted. -/
theorem tokensComplete_of_readable
    (h : ∀ tokenMeta ∈ uniqueChainList (wantedTokens q.unsearched registry.tokens),
      ChainReadable registry tokenMeta) :
    TokensComplete q registry ↔
      (((uniqueChainList (wantedTokens q.unsearched registry.tokens)).flatMap
          (chainListing registry) ++ factoryListing registry q).filter fun id =>
        id ∈ (wantedTokens q.unsearched registry.tokens).map TokenRow.tokenID).Perm
          ((wantedTokens q registry.tokens).map TokenRow.tokenID) := by
  have hrun : ∀ finished,
      finished.Perm (uniqueChainList (wantedTokens q.unsearched registry.tokens)) →
      ∃ data, getBlockchainAppsTokenMetadata registry q finished = .ok data ∧
        (data.map fun entry => entry.tokenID.toLower).Perm
          (((uniqueChainList (wantedTokens q.unsearched registry.tokens)).flatMap
            (chainListing registry) ++ factoryListing registry q).filter fun id =>
              id ∈ (wantedTokens q.unsearched registry.tokens).map TokenRow.tokenID) := by
    intro finished hperm
    obtain ⟨data, hdata, hids⟩ := getBlockchainAppsTokenMetadata_ids rfl
      fun tokenMeta hmem => h tokenMeta (hperm.subset hmem)
    refine ⟨data, hdata, ?_⟩
    rw [map_toLower, hids]
    · exact ((hperm.flatMap_right _).append_right _).filter _
    · rw [hids]
      exact fun id hid => of_decide_eq_true (List.mem_filter.mp hid).2
  rw [TokensComplete, findRecords_restParams]
  constructor
  · intro hcomplete
    obtain ⟨data, hdata, hwanted⟩ := hcomplete _ (.refl _)
    obtain ⟨data', hdata', hlisted⟩ := hrun _ (.refl _)
    obtain rfl := Except.ok.inj (hdata.symm.trans hdata')
    exact hlisted.symm.trans hwanted
  · intro hwanted finished hperm
    obtain ⟨data, hdata, hlisted⟩ := hrun finished hperm
    exact ⟨data, hdata, hlisted.trans hwanted⟩

end Entries

/-- **The metadata of tokens**: there is one entry for each wanted row and no other, if and only if
each selected row is found once in the files and the factory together if it is wanted, and not at
all if it is not. -/
theorem tokens_complete_iff (q : TokenQuery) (registry : Registry) :
    TokensComplete q registry ↔ FoundOnce registry q := by
  have hwanted : ∀ token ∈ wantedTokens q.unsearched registry.tokens,
      (token.tokenID ∈ (wantedTokens q registry.tokens).map TokenRow.tokenID ↔
        token ∈ wantedTokens q registry.tokens) := fun token htoken =>
    tokenID_mem_iff (fun _ => mem_of_mem_wantedTokens) (mem_of_mem_wantedTokens htoken)
  have hselected : ∀ token ∈ wantedTokens q registry.tokens,
      (token.tokenID ∈ (wantedTokens q.unsearched registry.tokens).map TokenRow.tokenID ↔
        token ∈ wantedTokens q.unsearched registry.tokens) := fun token htoken =>
    tokenID_mem_iff (fun _ => mem_of_mem_wantedTokens) (mem_of_mem_wantedTokens htoken)
  constructor
  · intro hcomplete
    have hreadable : ∀ tokenMeta ∈ uniqueChainList (wantedTokens q.unsearched registry.tokens),
        ChainReadable registry tokenMeta := by
      obtain ⟨data, hdata, -⟩ := hcomplete _ (.refl _)
      rw [findRecords_restParams] at hdata
      obtain ⟨entries, hentries, -⟩ := bind_eq_ok_iff.mp hdata
      intro tokenMeta hmem
      obtain ⟨chain, -, hchain⟩ := (mapM_eq_ok hentries).1 tokenMeta hmem
      exact readable_of_chainEntries hchain
    obtain ⟨hsub, hcount⟩ := (Join.filter_mem_perm_iff (nodup_wantedTokens q registry.tokens)).mp
      ((tokensComplete_of_readable hreadable).mp hcomplete)
    refine ⟨hreadable, fun token htoken => ?_, fun token htoken => ?_⟩
    · exact (hselected token htoken).mp (hsub _ (List.mem_map_of_mem htoken))
    · have hone := hcount _ (List.mem_map_of_mem htoken)
      simpa only [List.count_append, hwanted token htoken] using hone
  · rintro ⟨hreadable, hsub, honce⟩
    refine (tokensComplete_of_readable hreadable).mpr
      ((Join.filter_mem_perm_iff (nodup_wantedTokens q registry.tokens)).mpr ⟨?_, ?_⟩)
    · simp only [List.forall_mem_map]
      exact fun token htoken => (hselected token htoken).mpr (hsub token htoken)
    · simp only [List.forall_mem_map]
      intro token htoken
      simpa only [List.count_append, hwanted token htoken] using honce token htoken

/-- A token whose ID a file spells with capitals. -/
def capitalEnv : RegistryEnv where
  supportedNetworks := ["mainnet"]
  defaultApps := []
  parseApp text := if text = "app" then some ⟨"00000000", "Klayr", "klayr_mainchain", "mainnet"⟩
    else none
  parseTokens text := if text = "tokens" then some [⟨"00000000000000AB", "KLY"⟩] else none

def capitalFiles (p : FilePath) : Option String :=
  if p = ⟨"mainnet", "klayr", .appJson⟩ then some "app"
  else if p = ⟨"mainnet", "klayr", .nativetokensJson⟩ then some "tokens"
  else none

def capitalRegistry : Registry where
  apps :=
    { rows := [⟨"klayr_mainchain", "Klayr", "00000000", "mainnet", false, "klayr"⟩]
      nodup := by decide }
  tokens :=
    { rows := [⟨"klayr_mainchain", "mainnet", "KLY", "00000000000000ab"⟩]
      nodup := by decide }
  files network appDirName :=
    (capitalFiles ⟨network, appDirName, .nativetokensJson⟩).bind capitalEnv.parseTokens
  factory := []
  nodeChainID := "00000000"
  factory_nodup := List.nodup_nil
  toLower_tokenID := by decide +kernel
  comma_not_mem := by decide +kernel

/-- A request without filters. -/
def allTokens : TokenQuery where
  chainName := none
  search := none
  tokenName := none
  tokenID := none
  chainID := none
  network := none
  noFactory := false
  offset := 0
  limit := some 10
  sort := some (.chainName, .asc)
  limit_ne := by decide
  given_ne := by decide
  search_literal := literal_none
  chainID_text := by decide

theorem lists_capitalFiles {p : FilePath} {c : RegistryCell} {r : RegistryRow c}
    (h : capitalEnv.Lists capitalFiles p c r) :
    (⟨c, r⟩ : Entry) = appEntry capitalEnv "klayr"
        ⟨"00000000", "Klayr", "klayr_mainchain", "mainnet"⟩ ∨
      (⟨c, r⟩ : Entry) = tokenEntry "klayr_mainchain" "mainnet" ⟨"00000000000000AB", "KLY"⟩ := by
  obtain ⟨-, hfile, es, hes, hmem⟩ := h
  rw [capitalFiles] at hfile
  split at hfile
  · rename_i hp
    subst hp
    obtain rfl := Option.some.inj hes
    exact .inl (List.mem_singleton.mp hmem)
  · split at hfile
    · rename_i hp
      subst hp
      obtain rfl := Option.some.inj hes
      exact .inr (List.mem_singleton.mp hmem)
    · cases hfile

theorem capitalRegistry_indexedFrom : capitalRegistry.IndexedFrom capitalEnv capitalFiles where
  files_eq := rfl
  app_iff app := by
    constructor
    · intro happ
      obtain rfl := List.mem_singleton.mp happ
      exact ⟨⟨"mainnet", "klayr", .appJson⟩, by decide, rfl, _, rfl, List.mem_singleton_self _⟩
    · rintro ⟨p, hlists⟩
      rcases lists_capitalFiles hlists with heq | heq
      · rw [Option.some.inj (congrArg appOfEntry heq)]
        exact List.mem_singleton_self _
      · cases congrArg appOfEntry heq
  of_token token htoken := by
    obtain rfl := List.mem_singleton.mp htoken
    refine .inl ⟨⟨"mainnet", "klayr", .nativetokensJson⟩, by decide, rfl, _, rfl, ?_⟩
    have hlower : ("00000000000000AB" : String).toLower = "00000000000000ab" := by decide +kernel
    rw [List.map_singleton, tokenEntry_of_toLower hlower]
    exact List.mem_singleton_self _
  of_listed p tokenID row hlists := by
    refine ⟨_, List.mem_singleton_self _, ?_⟩
    rcases lists_capitalFiles hlists with heq | heq
    · cases congrArg tokenOfEntry heq
    · rw [← tokenID_of_lists hlists, Option.some.inj (congrArg tokenOfEntry heq)]
      decide +kernel
  of_factory f hf := absurd hf List.not_mem_nil

/-- The token is in the table, and there is no entry for it. -/
theorem capital_token_lost : capitalRegistry.IndexedFrom capitalEnv capitalFiles ∧
    (wantedTokens allTokens capitalRegistry.tokens).map TokenRow.tokenID = ["00000000000000ab"] ∧
    getBlockchainAppsTokenMetadata capitalRegistry allTokens
      (uniqueChainList (capitalRegistry.tokens.table.findRecords textOps (restParams allTokens))) =
        .ok [] ∧
    ¬ TokensComplete allTokens capitalRegistry := by
  have hwanted : (wantedTokens allTokens capitalRegistry.tokens).map TokenRow.tokenID =
      ["00000000000000ab"] := by decide +kernel
  have hnone : getBlockchainAppsTokenMetadata capitalRegistry allTokens
      (uniqueChainList (capitalRegistry.tokens.table.findRecords textOps (restParams allTokens))) =
        .ok [] := by decide +kernel
  refine ⟨capitalRegistry_indexedFrom, hwanted, hnone, fun h => ?_⟩
  obtain ⟨data, hdata, hperm⟩ := h _ (.refl _)
  obtain rfl := Except.ok.inj (hnone.symm.trans hdata)
  rw [hwanted] at hperm
  exact absurd hperm.length_eq (by decide)

end AppRegistry

end SwaptoshiService
