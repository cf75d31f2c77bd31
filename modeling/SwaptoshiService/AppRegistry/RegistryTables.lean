import SwaptoshiService.AppRegistry.MetadataIndex
import SwaptoshiService.Framework.LiteralSearch
import SwaptoshiService.Framework.RecordQuery
import SwaptoshiService.Lib.Keyed

/-!
# The tables of the registry, as queries see them

The tables `application_metadata` and `token_metadata` of the blockchain-app-registry with their
columns and keys, and the texts in queries to them: parts of IDs, and lists with commas. A boolean
is stored as a digit.
-/

namespace SwaptoshiService

namespace AppRegistry

open QueryBuilder Sql

/-! ### Texts -/

/-- `LENGTH_CHAIN_ID`. -/
def lengthChainID : ℕ := 8

/-- `s.substring(0, n)`. -/
def substring (s : String) (n : ℕ) : String := String.ofList (s.toList.take n)

/-- The first characters of a token ID. -/
def chainIDOf (tokenID : String) : String := substring tokenID lengthChainID

/-- The beginnings of two texts. -/
theorem substring_eq_iff {s s' : String} {n : ℕ} (h : n ≤ s'.toList.length) :
    substring s n = substring s' n ↔ (substring s' n).toList <+: s.toList := by
  rw [substring, substring, String.toList_ofList]
  constructor
  · intro heq
    have htake : s.toList.take n = s'.toList.take n := by
      simpa using congrArg String.toList heq
    exact htake ▸ List.take_prefix n s.toList
  · intro hstart
    have hlength : (s'.toList.take n).length = n := List.length_take_of_le h
    rw [List.prefix_iff_eq_take, hlength] at hstart
    rw [hstart]

theorem not_mem_substring {s : String} (h : '\\' ∉ s.toList) (n : ℕ) :
    '\\' ∉ (substring s n).toList := by
  rw [substring, String.toList_ofList]
  exact fun hmem => h (List.mem_of_mem_take hmem)

/-- `s.split(',')`. -/
def splitCommas (s : String) : List String := (s.toList.splitOn ',').map String.ofList

/-- `texts.join(',')`. -/
def joinCommas (texts : List String) : String :=
  String.ofList ([','].intercalate (texts.map String.toList))

/-- Texts without commas are told apart again. -/
theorem splitCommas_joinCommas {texts : List String} (hne : texts ≠ [])
    (h : ∀ s ∈ texts, ',' ∉ s.toList) : splitCommas (joinCommas texts) = texts := by
  rw [splitCommas, joinCommas, String.toList_ofList, List.splitOn_intercalate, List.map_map]
  · exact (List.map_congr_left fun s _ => String.ofList_toList).trans (List.map_id _)
  · simpa using h
  · simpa using hne

/-! ### Selections -/

/-- Two selections of the same rows. -/
theorem filter_perm_filter_iff {α : Type} {l : List α} {f g : α → Bool} :
    (l.filter f).Perm (l.filter g) ↔ ∀ a ∈ l, f a = g a := by
  constructor
  · intro hperm a ha
    have hmem := hperm.mem_iff (a := a)
    rw [List.mem_filter, List.mem_filter] at hmem
    exact Bool.eq_iff_iff.mpr (by simpa [ha] using hmem)
  · intro h
    rw [List.filter_congr h]

/-! ### Tables -/

/-- The columns of `token_metadata`. -/
inductive TokenColumn
  | chainName
  | network
  | tokenName
  | tokenID
  deriving DecidableEq, Repr

def tokenCells (token : TokenRow) : Row TokenColumn String
  | .chainName => some token.chainName
  | .network => some token.network
  | .tokenName => some token.tokenName
  | .tokenID => some token.tokenID

/-- The rows of `token_metadata`. -/
structure TokenTable where
  rows : List TokenRow
  nodup : (rows.map TokenRow.tokenID).Nodup

def TokenTable.table (t : TokenTable) : RecordTable TokenRow TokenColumn String where
  records := t.rows
  cells := tokenCells
  primaryKey := .tokenID
  primaryKeys := []
  ne_null token _ c _ := by cases c <;> exact Option.some_ne_none _
  nodup := by
    have hinj : Function.Injective fun id : String => [some id] := fun id id' h => by simpa using h
    exact nodup_map_comp hinj t.nodup

/-- The columns of `application_metadata`. -/
inductive AppColumn
  | chainName
  | displayName
  | chainID
  | network
  | isDefault
  | appDirName
  deriving DecidableEq, Repr

/-- A boolean, as it is stored. -/
def flag (b : Bool) : String := if b then "1" else "0"

def appCells (app : ApplicationRow) : Row AppColumn String
  | .chainName => some app.chainName
  | .displayName => some app.displayName
  | .chainID => some app.chainID
  | .network => some app.network
  | .isDefault => some (flag app.isDefault)
  | .appDirName => some app.appDirName

/-- The rows of `application_metadata`. -/
structure AppTable where
  rows : List ApplicationRow
  nodup : (rows.map fun app => (app.network, app.chainName)).Nodup

def AppTable.table (t : AppTable) : RecordTable ApplicationRow AppColumn String where
  records := t.rows
  cells := appCells
  primaryKey := .network
  primaryKeys := [.chainName]
  ne_null app _ c _ := by cases c <;> exact Option.some_ne_none _
  nodup := by
    have hinj : Function.Injective fun key : String × String => [some key.1, some key.2] := by
      rintro ⟨a, b⟩ ⟨c, d⟩ h
      simpa using h
    exact nodup_map_comp hinj t.nodup

end AppRegistry

end SwaptoshiService
