import SwaptoshiService.AppRegistry.RegistryTables

/-!
# The supported tokens of an application

`getBlockchainAppsTokensSupportedMetadata` (`blockchain-app-registry/shared/metadata.js`) asks an
application for its token summary, and looks for the supported tokens in `token_metadata`: for all
tokens whose ID begins as the chain ID of the application does, which names the network, or for the
tokens that are listed and those of the chains of the patterns.

The list goes into `whereIn` and the patterns into `orSearch`, and the query builder joins the two
by `AND`. So `supported_iff`: the supported tokens are selected if and only if all are supported,
or there are no patterns, or the tokens in the table that are listed are just those that a pattern
covers.
-/

namespace SwaptoshiService

namespace AppRegistry

open QueryBuilder Sql

/-! ### Reading the files -/

/-- The tokens in the `nativetokens.json` of a network and a directory, if it can be read. -/
abbrev TokenFiles := String → String → Option (List TokenMeta)

/-- `find({ chainID, limit: 1 }, ['appDirName'])`. -/
def AppTable.dirOfChain (apps : AppTable) (chainID : String) : Option String :=
  (apps.rows.find? fun app => app.chainID = chainID).map ApplicationRow.appDirName

/-- An entry of the answer. -/
structure ResolvedToken where
  token : TokenMeta
  chainID : String
  chainName : String
  network : String
  deriving DecidableEq, Repr

/-- The tokens of the file for a row that are among the result. -/
def resolveEntry (apps : AppTable) (files : TokenFiles) (resultTokenIDs : List String)
    (entry : TokenRow) : Option (List ResolvedToken) :=
  let chainID := chainIDOf entry.tokenID
  ((apps.dirOfChain chainID).bind (files entry.network)).map fun tokens =>
    (tokens.filter fun token => token.tokenID ∈ resultTokenIDs).map fun token =>
      { token, chainID, chainName := entry.chainName, network := entry.network }

/-- The loop of `resolveTokenMetaInfo`; a file is read once for each chain ID. -/
def resolveTokens (apps : AppTable) (files : TokenFiles) (resultTokenIDs : List String) :
    List String → List TokenRow → Option (List ResolvedToken)
  | _, [] => some []
  | processedChainIDs, entry :: entries =>
    if chainIDOf entry.tokenID ∈ processedChainIDs then
      resolveTokens apps files resultTokenIDs processedChainIDs entries
    else do
      let tokens ← resolveEntry apps files resultTokenIDs entry
      let rest ← resolveTokens apps files resultTokenIDs
        (chainIDOf entry.tokenID :: processedChainIDs) entries
      return tokens ++ rest

/-- `resolveTokenMetaInfo(tokenInfoFromDB)`; `none` when it throws. -/
def resolveTokenMetaInfo (apps : AppTable) (files : TokenFiles) (tokenInfoFromDB : List TokenRow) :
    Option (List ResolvedToken) :=
  resolveTokens apps files (tokenInfoFromDB.map TokenRow.tokenID) [] tokenInfoFromDB

/-! ### The query -/

/-- The text of an ID: it has no backslash, and is as long as a chain ID at least. -/
def IsIDText (s : String) : Prop := '\\' ∉ s.toList ∧ lengthChainID ≤ s.toList.length

instance (s : String) : Decidable (IsIDText s) := inferInstanceAs (Decidable (_ ∧ _))

/-- `supportedTokens` in the token summary of a chain. -/
structure SupportedTokensInfo where
  isSupportAllTokens : Bool
  exactTokenIDs : List String
  patternTokenIDs : List String
  pattern_isIDText : ∀ pattern ∈ patternTokenIDs, IsIDText pattern

/-- The parameters of a request. -/
structure SupportedParams where
  chainID : String
  chainID_isIDText : IsIDText chainID
  limit : Option ℕ
  offset : ℕ
  sort : Option (TokenColumn × Direction)

section Query

variable (q : SupportedParams) (info : SupportedTokensInfo)

/-- `searchParams` of `getAllTokensMetaInNetworkByChainID`. -/
def allTokensParams : Params TokenColumn String where
  search := [{ property := .tokenID, startsWith := substring q.chainID 2 }]
  sort := q.sort
  limit := q.limit.filter (· ≠ 0)
  offset := q.offset

/-- `searchParams` of `getTokensMetaByTokenIDs`. -/
def tokenIDsParams : Params TokenColumn String where
  whereIn := [(.tokenID, info.exactTokenIDs.map some)]
  orSearch := info.patternTokenIDs.map fun e => { property := .tokenID, startsWith := chainIDOf e }
  sort := q.sort
  limit := q.limit.filter (· ≠ 0)
  offset := q.offset

/-- The parameters of the query. -/
def searchParams : Params TokenColumn String :=
  if info.isSupportAllTokens then allTokensParams q else tokenIDsParams q info

/-- The rows that are selected before paging. -/
def selectedTokens (t : TokenTable) : List TokenRow :=
  t.table.select textOps (searchParams q info)

/-- `tokenMetadataTable.count(searchParams)`. -/
def supportedTotal (t : TokenTable) : Except String ℕ :=
  count textOps t.table.table (searchParams q info) none

/-- `getBlockchainAppsTokensSupportedMetadata(params)` for an application that is known and a
summary that was answered: the data, and `count`, `offset` and `total`; nothing when a file cannot
be read. -/
def getBlockchainAppsTokensSupportedMetadata (apps : AppTable) (files : TokenFiles)
    (t : TokenTable) : List ResolvedToken × Option (ℕ × ℕ × ℕ) :=
  let tokensResultSet := page (searchParams q info).limit q.offset (selectedTokens q info t)
  match supportedTotal q info t, resolveTokenMetaInfo apps files tokensResultSet with
  | .ok total, some tokensMeta => (tokensMeta, some (tokensMeta.length, q.offset, total))
  | _, _ => ([], none)

end Query

/-! ### What is supported -/

section Supported

variable (q : SupportedParams) (info : SupportedTokensInfo) (t : TokenTable)

/-- A pattern covers the token: their chain IDs are the same. -/
def Covered (token : TokenRow) : Prop :=
  ∃ pattern ∈ info.patternTokenIDs, chainIDOf token.tokenID = chainIDOf pattern

/-- The token is supported. -/
def Supported (token : TokenRow) : Prop :=
  if info.isSupportAllTokens then substring token.tokenID 2 = substring q.chainID 2
  else token.tokenID ∈ info.exactTokenIDs ∨ Covered info token

instance (token : TokenRow) : Decidable (Covered info token) :=
  inferInstanceAs (Decidable (∃ _ ∈ _, _))

instance (token : TokenRow) : Decidable (Supported q info token) :=
  inferInstanceAs (Decidable (if info.isSupportAllTokens then
    substring token.tokenID 2 = substring q.chainID 2 else _ ∨ _))

/-- The supported tokens are selected, and counted. -/
def SelectsSupported : Prop :=
  (selectedTokens q info t).Perm (t.rows.filter fun token => Supported q info token) ∧
    supportedTotal q info t =
      .ok (t.rows.filter fun token => Supported q info token).length

end Supported

section Selection

variable {q : SupportedParams} {info : SupportedTokensInfo} {t : TokenTable} {token : TokenRow}

/-- A search for the beginning of a token ID. -/
theorem all_startsWith {s : String} (hs : IsIDText s) {n : ℕ} (hn : n ≤ lengthChainID) :
    All (searchConds textOps { property := TokenColumn.tokenID, startsWith := substring s n })
        (tokenCells token) ↔ substring token.tokenID n = substring s n := by
  rw [substring_eq_iff (hn.trans hs.2)]
  exact (finds_startsWith_iff TokenColumn.tokenID (substring s n)).mpr
    (not_mem_substring hs.1 n) (tokenCells token) token.tokenID rfl

theorem searchParams_isPlain : (searchParams q info).IsPlain := by
  rw [searchParams]
  split <;> exact ⟨rfl, rfl⟩

theorem searchConds_pattern {pattern : String} (h : IsIDText pattern) : ∃ c, searchConds textOps
    { property := TokenColumn.tokenID, startsWith := chainIDOf pattern } = [c] := by
  have hne : chainIDOf pattern ≠ "" := by
    intro heq
    have hlength : (pattern.toList.take lengthChainID).length = 0 := by
      have htake := congrArg String.toList heq
      rw [chainIDOf, substring, String.toList_ofList] at htake
      simp [htake]
    rw [List.length_take_of_le h.2] at hlength
    cases hlength
  simp [searchConds, hne]

/-- The query asks for tokens that are listed **and** covered, if there are patterns. -/
theorem meets_searchParams : (searchParams q info).Meets textOps (tokenCells token) ↔
    if info.isSupportAllTokens then substring token.tokenID 2 = substring q.chainID 2
    else token.tokenID ∈ info.exactTokenIDs ∧
      (info.patternTokenIDs = [] ∨ Covered info token) := by
  by_cases hall : info.isSupportAllTokens = true
  · rw [searchParams, if_pos hall, if_pos hall, allTokensParams, meets_iff,
      ← all_startsWith q.chainID_isIDText (by decide)]
    simp [whereObject, All, group, orSearchClauses]
  · have hwhereIn : QueryBuilder.whereIn textOps TokenColumn.tokenID (info.exactTokenIDs.map some)
        (tokenCells token) = some true ↔ token.tokenID ∈ info.exactTokenIDs := by
      rw [whereIn_eq_true fun x y => decide_eq_true_iff]
      simp [tokenCells]
    have hcovered : (∃ entry ∈ info.patternTokenIDs.map fun e =>
        ({ property := .tokenID, startsWith := chainIDOf e } : Search TokenColumn),
          All (searchConds textOps entry) (tokenCells token)) ↔ Covered info token := by
      simp only [List.mem_map, exists_exists_and_eq_and, Covered]
      refine exists_congr fun pattern => and_congr_right fun hpattern => ?_
      exact all_startsWith (info.pattern_isIDText pattern hpattern) le_rfl
    rw [searchParams, if_neg hall, if_neg hall, tokenIDsParams, meets_iff, all_orSearch ?_,
      hcovered]
    · simp [whereObject, All, hwhereIn]
    · simp only [List.forall_mem_map]
      exact fun pattern hpattern => searchConds_pattern (info.pattern_isIDText pattern hpattern)

end Selection

/-- **The supported tokens** are selected and counted exactly if all tokens are supported, or there
are no patterns, or of the tokens in the table those are listed that a pattern covers. -/
theorem supported_iff (q : SupportedParams) (info : SupportedTokensInfo) (t : TokenTable) :
    SelectsSupported q info t ↔ info.isSupportAllTokens = true ∨ info.patternTokenIDs = [] ∨
      ∀ token ∈ t.rows, token.tokenID ∈ info.exactTokenIDs ↔ Covered info token := by
  have hselects : SelectsSupported q info t ↔ ∀ token ∈ t.rows,
      ((searchParams q info).Meets textOps (tokenCells token) ↔ Supported q info token) := by
    have hperm : (t.table.select textOps (searchParams q info)).Perm _ :=
      RecordTable.select_perm searchParams_isPlain fun _ _ => rfl
    rw [SelectsSupported, supportedTotal, RecordTable.count_eq searchParams_isPlain, selectedTokens,
      hperm.congr_left, and_iff_left_of_imp fun h => congrArg Except.ok h.length_eq]
    exact filter_perm_filter_iff.trans (forall₂_congr fun token _ => decide_eq_decide)
  rw [hselects]
  simp only [meets_searchParams, Supported]
  by_cases hall : info.isSupportAllTokens = true
  · simp [hall]
  · by_cases hnil : info.patternTokenIDs = []
    · simp [hall, hnil, Covered]
    · simp only [hall, hnil, false_or, Bool.false_eq_true, if_false]
      refine forall₂_congr fun token _ => ?_
      grind

/-- A token of another chain is in the table. -/
def listedToken : TokenTable where
  rows := [⟨"klayr_mainchain", "mainnet", "KLY", "0000000000000000"⟩]
  nodup := by decide

/-- The token is listed, and all tokens of one other chain are supported. -/
def listAndPattern : SupportedTokensInfo where
  isSupportAllTokens := false
  exactTokenIDs := ["0000000000000000"]
  patternTokenIDs := ["00000001********"]
  pattern_isIDText := by decide +kernel

/-- The first page. -/
def firstPage : SupportedParams where
  chainID := "00000001"
  chainID_isIDText := by decide +kernel
  limit := some 10
  offset := 0
  sort := some (.tokenID, .asc)

/-- A listed token is not selected, as no pattern covers it. -/
theorem listed_token_not_selected : selectedTokens firstPage listAndPattern listedToken = [] ∧
    supportedTotal firstPage listAndPattern listedToken = .ok 0 ∧
    ¬ SelectsSupported firstPage listAndPattern listedToken := by
  have hnone : selectedTokens firstPage listAndPattern listedToken = [] := by decide +kernel
  have hsupported : (listedToken.rows.filter fun token =>
      Supported firstPage listAndPattern token).length = 1 := by decide +kernel
  refine ⟨hnone, by decide +kernel, fun h => ?_⟩
  have hlength := h.1.length_eq
  rw [hnone, hsupported] at hlength
  exact absurd hlength (by decide)

end AppRegistry

end SwaptoshiService
