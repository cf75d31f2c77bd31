import Mathlib.Data.List.Forall2
import SwaptoshiService.Lib.Except
import SwaptoshiService.Lib.Tree

/-!
# Answers that follow a definition

The gateway maps what the services answer to what it sends (`gateway/shared/customMapper.js`). The
definition of an answer is itself an object: a text says where a value is to be found and what it is
made into, an array with a path and an object says how the elements of an array are mapped, and an
object within the object is mapped from the same root.

`mapper_follows`: what is sent has the keys and the types of the definition and no others, and
depends only on what the definition reads (`Agree`), so that other fields of an answer never matter.
A path within an object begins at the **root** of the answer; the definition of swap quotes begins
it at the object, and its two lists are never sent (`quoteSwap_lists`).
-/

namespace SwaptoshiService

namespace CustomMapper

/-- What is neither array nor object; `ν` are the numbers. -/
inductive Primitive (ν : Type)
  | undefined
  | null
  | boolean (b : Bool)
  | number (n : ν)
  | string (s : String)

abbrev Value (ν : Type) := Tree String (Primitive ν)

/-- The conversions of the language; those of dates and buffers may fail. -/
structure Casts (ν : Type) where
  isZero : ν → Bool
  isNaN : ν → Bool
  number : Value ν → ν
  string : Value ν → String
  isodate : Value ν → Except String String
  epoch : Value ν → ν
  datetime : Value ν → String
  hex : Value ν → Except String String
  base64 : Value ν → Except String String

/-- The definition of a value. -/
inductive Def
  | text (setup : String)
  | items (path : String) (inner : List (String × Def))
  | single (inner : List (String × Def))
  | fields (inner : List (String × Def))

/-- A text in the place of an object: its characters, by their indices. -/
def textFields (text : String) : List (String × Def) :=
  text.toList.zipIdx.map fun p => (toString p.2, .text (String.singleton p.1))

/-- `text.split(separator)` -/
def split (separator : Char) (text : String) : List String :=
  (text.toList.splitOn separator).map String.ofList

/-- `const [path, type] = setup.split(',')` -/
def pathOf (setup : String) : String := (split ',' setup).headD ""

def typeOf (setup : String) : Option String := (split ',' setup)[1]?

section Code

variable {ν : Type} (c : Casts ν)

/-- `!!value` -/
def truthy : Value ν → Bool
  | .leaf .undefined => false
  | .leaf .null => false
  | .leaf (.boolean b) => b
  | .leaf (.number n) => !c.isZero n && !c.isNaN n
  | .leaf (.string s) => s ≠ ""
  | .array _ => true
  | .object _ => true

def isUndefined : Value ν → Bool
  | .leaf .undefined => true
  | _ => false

def isNull : Value ν → Bool
  | .leaf .null => true
  | _ => false

/-- `value[key]`, for a value that has properties. -/
def own (value : Value ν) (key : String) : Value ν :=
  match value with
  | .object entries => (entries.lookup key).getD (.leaf .undefined)
  | .array items =>
    ((items.zipIdx.find? fun p => toString p.2 = key).map Prod.fst).getD (.leaf .undefined)
  | .leaf (.string s) =>
    ((s.toList.zipIdx.find? fun p => toString p.2 = key).map fun p =>
      .leaf (.string (String.singleton p.1))).getD (.leaf .undefined)
  | .leaf _ => .leaf .undefined

/-- `value[key]` -/
def property (value : Value ν) (key : String) : Except String (Value ν) :=
  match value with
  | .leaf .undefined =>
    .error ("Cannot read properties of undefined (reading '" ++ key ++ "')")
  | .leaf .null => .error ("Cannot read properties of null (reading '" ++ key ++ "')")
  | value => .ok (own value key)

/-- `resolvePath(obj, path)` -/
def resolvePath (obj : Value ν) (path : String) : Value ν :=
  (split '.' path).foldl
    (fun subObj prop => if truthy c subObj then own subObj prop else .leaf .undefined) obj

/-- `cast[type](val)` -/
def cast (type : String) (val : Value ν) : Except String (Value ν) :=
  match type with
  | "number" => .ok (.leaf (.number (c.number val)))
  | "string" => .ok (.leaf (.string (c.string val)))
  | "boolean" =>
    .ok (.leaf (.boolean (match val with
      | .leaf (.string "0") => false
      | val => truthy c val)))
  | "isodate" => return .leaf (.string (← c.isodate val))
  | "epoch" => .ok (.leaf (.number (c.epoch val)))
  | "datetime" => .ok (.leaf (.string (c.datetime val)))
  | "hex" => if truthy c val then return .leaf (.string (← c.hex val)) else .ok (.leaf .undefined)
  | "base64" =>
    if truthy c val then return .leaf (.string (← c.base64 val)) else .ok (.leaf .undefined)
  | _ => .error "cast[type] is not a function"

/-- `val || val === 0` -/
def isGiven (val : Value ν) : Bool :=
  truthy c val || match val with
    | .leaf (.number n) => c.isZero n
    | _ => false

/-- `(val || val === 0) && type ? cast[type](val) : val` -/
def castGiven (type : Option String) (val : Value ν) : Except String (Value ν) :=
  match type with
  | some type => if isGiven c val && type ≠ "" then cast c type val else .ok val
  | none => .ok val

/-- `path === '=' ? subObj[key] : resolvePath(rootObj, path)` -/
def valueAt (key : String) (root sub : Value ν) (setup : String) : Except String (Value ν) :=
  if pathOf setup = "=" then property sub key else .ok (resolvePath c root (pathOf setup))

/-- The array of a definition, if there is one. -/
def dataSource (path : String) (root : Value ν) : Option (List (Value ν)) :=
  match if path = "" then root else resolvePath c root path with
  | .array items => some items
  | _ => none

/-- `rootObj && rootObj[key] !== null` -/
def opens (root : Value ν) (key : String) : Bool := truthy c root && !isNull (own root key)

/-- The default of a parameter that is `undefined`. -/
def orDefault (value default : Value ν) : Value ν := if isUndefined value then default else value

mutual

/-- What `acc[key]` becomes, if anything. -/
def mapField (key : String) (root sub : Value ν) : Def → Except String (Option (Value ν))
  | .text setup => do
    let val ← valueAt c key root sub setup
    return some (← castGiven c (typeOf setup) val)
  | .items path inner =>
    match dataSource c path root with
    | some items => do
      let tempArr ← items.mapM fun item => mapObject item item inner
      return some (.array ((tempArr.filter fun tempObj => !tempObj.isEmpty).map .object))
    | none => return none
  | .single inner => do
    let tempObj ← mapObject root root inner
    return if tempObj.isEmpty then none else some (.array [.object tempObj])
  | .fields inner =>
    if opens c root key then do
      let value ← property sub key
      let tempObj ← mapObject root (orDefault value root) inner
      return if tempObj.any fun e => !isUndefined e.2 then some (.object tempObj) else none
    else return none

/-- `mapObject(rootObj, definition, subObj)` -/
def mapObject (root sub : Value ν) : List (String × Def) → Except String (List (String × Value ν))
  | [] => .ok []
  | (key, d) :: definition => do
    let value ← mapField key root sub d
    let acc ← mapObject root sub definition
    return match value with
      | some value => (key, value) :: acc
      | none => acc

end

/-- The definition of an answer. -/
inductive Definition
  | all
  | object (definition : List (String × Def))

/-- `map(data, def)` -/
def mapper (data : Value ν) : Definition → Except String (Value ν)
  | .all => .ok data
  | .object definition => return .object (← mapObject c data data definition)

end Code

/-- The hypotheses are about the definitions of the entries. -/
@[elab_as_elim]
theorem Def.induction {motive : Def → Prop} (text : ∀ setup, motive (.text setup))
    (items : ∀ path inner, (∀ e ∈ inner, motive e.2) → motive (.items path inner))
    (single : ∀ inner, (∀ e ∈ inner, motive e.2) → motive (.single inner))
    (fields : ∀ inner, (∀ e ∈ inner, motive e.2) → motive (.fields inner)) :
    ∀ d, motive d := by
  refine Def.rec (motive_2 := fun inner => ∀ e ∈ inner, motive e.2)
    (motive_3 := fun e => motive e.2) text items single fields ?_ ?_ ?_
  · exact List.forall_mem_nil _
  · exact fun e inner he hinner => List.forall_mem_cons.mpr ⟨he, hinner⟩
  · exact fun k d hd => hd

section Follows

variable {ν : Type} {c : Casts ν} {root sub root' sub' value val : Value ν} {key : String}
  {d : Def} {definition : List (String × Def)} {entries : List (String × Value ν)}

/-! ### What is sent -/

/-- What a conversion makes. -/
def OfType (type : String) (value : Value ν) : Prop :=
  match type with
  | "number" | "epoch" => ∃ n, value = .leaf (.number n)
  | "boolean" => ∃ b, value = .leaf (.boolean b)
  | "hex" | "base64" => value = .leaf .undefined ∨ ∃ s, value = .leaf (.string s)
  | _ => ∃ s, value = .leaf (.string s)

/-- A value that is converted, if it is given and there is a type. -/
def Converted (c : Casts ν) (setup : String) (value : Value ν) : Prop :=
  ∀ type, typeOf setup = some type → type ≠ "" → OfType type value ∨ isGiven c value = false

mutual

/-- The value is as the definition says. -/
def Follows (c : Casts ν) (value : Value ν) : Def → Prop
  | .text setup => Converted c setup value
  | .items _ inner => ∃ items, value = .array items ∧
      ∀ item ∈ items, ∃ entries, item = .object entries ∧ EntriesFollow c entries inner
  | .single inner => ∃ entries, value = .array [.object entries] ∧ EntriesFollow c entries inner
  | .fields inner => ∃ entries, value = .object entries ∧ EntriesFollow c entries inner

/-- The entries are those of the definition in its order; those with a text are all there. -/
def EntriesFollow (c : Casts ν) (entries : List (String × Value ν)) :
    List (String × Def) → Prop
  | [] => entries = []
  | (key, d) :: definition =>
    ((∀ setup, d ≠ .text setup) ∧ EntriesFollow c entries definition) ∨
      ∃ value rest, entries = (key, value) :: rest ∧ Follows c value d ∧
        EntriesFollow c rest definition

end

theorem cast_ofType {type : String} (h : cast c type val = .ok value) : OfType type value := by
  rw [cast.eq_def] at h
  split at h
  · obtain rfl := Except.ok.inj h
    exact ⟨_, rfl⟩
  · obtain rfl := Except.ok.inj h
    exact ⟨_, rfl⟩
  · obtain rfl := Except.ok.inj h
    exact ⟨_, rfl⟩
  · obtain ⟨text, -, htext⟩ := bind_eq_ok_iff.mp h
    exact ⟨text, (pure_eq_ok_iff.mp htext).symm⟩
  · obtain rfl := Except.ok.inj h
    exact ⟨_, rfl⟩
  · obtain rfl := Except.ok.inj h
    exact ⟨_, rfl⟩
  · split_ifs at h
    · obtain ⟨text, -, htext⟩ := bind_eq_ok_iff.mp h
      exact .inr ⟨text, (pure_eq_ok_iff.mp htext).symm⟩
    · exact .inl (Except.ok.inj h).symm
  · split_ifs at h
    · obtain ⟨text, -, htext⟩ := bind_eq_ok_iff.mp h
      exact .inr ⟨text, (pure_eq_ok_iff.mp htext).symm⟩
    · exact .inl (Except.ok.inj h).symm
  · cases h

theorem castGiven_converted {setup : String} (h : castGiven c (typeOf setup) val = .ok value) :
    Converted c setup value := by
  intro type htype hne
  rw [htype, castGiven.eq_def] at h
  dsimp only at h
  split_ifs at h with hgiven
  · exact .inl (cast_ofType h)
  · obtain rfl := Except.ok.inj h
    refine .inr ?_
    simpa [hne] using hgiven

/-- **An object** has the entries of its definition, if its values do. -/
theorem entriesFollow_of (hfollow : ∀ e ∈ definition, ∀ root sub value,
    mapField c e.1 root sub e.2 = .ok (some value) → Follows c value e.2)
    (h : mapObject c root sub definition = .ok entries) : EntriesFollow c entries definition := by
  induction definition generalizing entries with
  | nil =>
    rw [mapObject] at h
    exact (Except.ok.inj h).symm
  | cons e definition ih =>
    obtain ⟨key, d⟩ := e
    rw [mapObject] at h
    obtain ⟨value?, hvalue, h⟩ := bind_eq_ok_iff.mp h
    obtain ⟨acc, hacc, h⟩ := bind_eq_ok_iff.mp h
    obtain rfl := pure_eq_ok_iff.mp h
    have hrest := ih (fun e he => hfollow e (List.mem_cons_of_mem _ he)) hacc
    cases value? with
    | some value =>
      exact .inr ⟨value, acc, rfl, hfollow _ List.mem_cons_self root sub value hvalue, hrest⟩
    | none =>
      refine .inl ⟨?_, hrest⟩
      rintro setup rfl
      -- a text always has a value
      rw [mapField] at hvalue
      obtain ⟨val, -, hvalue⟩ := bind_eq_ok_iff.mp hvalue
      obtain ⟨converted, -, hvalue⟩ := bind_eq_ok_iff.mp hvalue
      exact Option.some_ne_none _ (pure_eq_ok_iff.mp hvalue)

/-- **A value** is as its definition says. -/
theorem mapField_follows (d : Def) : ∀ (key : String) (root sub value : Value ν),
    mapField c key root sub d = .ok (some value) → Follows c value d := by
  induction d using Def.induction with
  | text setup =>
    intro key root sub value h
    rw [mapField] at h
    obtain ⟨val, -, h⟩ := bind_eq_ok_iff.mp h
    obtain ⟨converted, hconverted, h⟩ := bind_eq_ok_iff.mp h
    obtain rfl := Option.some.inj (pure_eq_ok_iff.mp h)
    rw [Follows]
    exact castGiven_converted hconverted
  | items path inner ih =>
    intro key root sub value h
    rw [mapField] at h
    split at h
    · obtain ⟨tempArr, htemp, h⟩ := bind_eq_ok_iff.mp h
      obtain rfl := Option.some.inj (pure_eq_ok_iff.mp h)
      rw [Follows]
      refine ⟨_, rfl, fun item hitem => ?_⟩
      -- An item that is kept was mapped from one of the source.
      obtain ⟨entries, hentries, rfl⟩ := List.mem_map.mp hitem
      obtain ⟨source, -, hsource⟩ := (mapM_eq_ok htemp).2 _ (List.mem_of_mem_filter hentries)
      exact ⟨entries, rfl, entriesFollow_of (fun e he => ih e he e.1) hsource⟩
    · exact absurd (pure_eq_ok_iff.mp h) (Option.some_ne_none value).symm
  | single inner ih =>
    intro key root sub value h
    rw [mapField] at h
    obtain ⟨tempObj, htemp, h⟩ := bind_eq_ok_iff.mp h
    have hvalue := pure_eq_ok_iff.mp h
    split_ifs at hvalue
    obtain rfl := Option.some.inj hvalue
    rw [Follows]
    exact ⟨tempObj, rfl, entriesFollow_of (fun e he => ih e he e.1) htemp⟩
  | fields inner ih =>
    intro key root sub value h
    rw [mapField] at h
    split_ifs at h
    · obtain ⟨subObj, -, h⟩ := bind_eq_ok_iff.mp h
      obtain ⟨tempObj, htemp, h⟩ := bind_eq_ok_iff.mp h
      have hvalue := pure_eq_ok_iff.mp h
      split_ifs at hvalue
      obtain rfl := Option.some.inj hvalue
      rw [Follows]
      exact ⟨tempObj, rfl, entriesFollow_of (fun e he => ih e he e.1) htemp⟩
    · exact absurd (pure_eq_ok_iff.mp h) (Option.some_ne_none value).symm

/-! ### What is read -/

mutual

/-- Two answers are the same where the definition reads them. -/
def Agree (c : Casts ν) (key : String) (root sub root' sub' : Value ν) : Def → Prop
  | .text setup => valueAt c key root sub setup = valueAt c key root' sub' setup
  | .items path inner =>
    match dataSource c path root, dataSource c path root' with
    | some items, some items' =>
      List.Forall₂ (fun item item' => AgreeAll c item item item' item' inner) items items'
    | none, none => True
    | _, _ => False
  | .single inner => AgreeAll c root root root' root' inner
  | .fields inner => opens c root key = opens c root' key ∧ (opens c root key = true →
      match property sub key, property sub' key with
      | .ok value, .ok value' =>
        AgreeAll c root (orDefault value root) root' (orDefault value' root') inner
      | .error e, .error e' => e = e'
      | _, _ => False)

def AgreeAll (c : Casts ν) (root sub root' sub' : Value ν) : List (String × Def) → Prop
  | [] => True
  | (key, d) :: definition =>
    Agree c key root sub root' sub' d ∧ AgreeAll c root sub root' sub' definition

end

theorem agreeAll_iff : AgreeAll c root sub root' sub' definition ↔
    ∀ e ∈ definition, Agree c e.1 root sub root' sub' e.2 := by
  induction definition with
  | nil => simp [AgreeAll]
  | cons e definition ih => rw [AgreeAll, ih, List.forall_mem_cons]

/-- Objects are mapped alike if their entries are. -/
theorem mapObject_congr (h : ∀ e ∈ definition,
    mapField c e.1 root sub e.2 = mapField c e.1 root' sub' e.2) :
    mapObject c root sub definition = mapObject c root' sub' definition := by
  induction definition with
  | nil => rw [mapObject, mapObject]
  | cons e definition ih =>
    rw [mapObject, mapObject, h e List.mem_cons_self,
      ih fun e he => h e (List.mem_cons_of_mem _ he)]

theorem mapM_congr_of_forall₂ {α β : Type} {r : α → α → Prop} {f : α → Except String β}
    (hf : ∀ x y, r x y → f x = f y) {l l' : List α} (h : List.Forall₂ r l l') :
    l.mapM f = l'.mapM f := by
  induction h with
  | nil => rfl
  | cons hxy _ ih => rw [List.mapM_cons, List.mapM_cons, hf _ _ hxy, ih]

/-- **Only what is described** is processed. -/
theorem mapField_congr (d : Def) : ∀ (key : String) (root sub root' sub' : Value ν),
    Agree c key root sub root' sub' d →
      mapField c key root sub d = mapField c key root' sub' d := by
  induction d using Def.induction with
  | text setup =>
    intro key root sub root' sub' h
    rw [Agree] at h
    rw [mapField, mapField, h]
  | items path inner ih =>
    intro key root sub root' sub' h
    rw [Agree] at h
    rw [mapField, mapField]
    cases hsource : dataSource c path root with
    | none =>
      cases hsource' : dataSource c path root' with
      | none => rfl
      | some items' => simp [hsource, hsource'] at h
    | some items =>
      cases hsource' : dataSource c path root' with
      | none => simp [hsource, hsource'] at h
      | some items' =>
        simp only [hsource, hsource'] at h ⊢
        rw [mapM_congr_of_forall₂ (fun item item' hitem => mapObject_congr fun e he =>
          ih e he _ _ _ _ _ (agreeAll_iff.mp hitem e he)) h]
  | single inner ih =>
    intro key root sub root' sub' h
    rw [Agree] at h
    rw [mapField, mapField, mapObject_congr fun e he =>
      ih e he _ _ _ _ _ (agreeAll_iff.mp h e he)]
  | fields inner ih =>
    intro key root sub root' sub' h
    rw [Agree] at h
    obtain ⟨hopens, hinner⟩ := h
    rw [mapField, mapField, ← hopens]
    split_ifs with hopen
    · have hinner := hinner hopen
      cases hvalue : property sub key with
      | error e =>
        cases hvalue' : property sub' key with
        | error e' =>
          rw [hvalue, hvalue'] at hinner
          obtain rfl : e = e' := hinner
          rfl
        | ok value' => simp [hvalue, hvalue'] at hinner
      | ok value =>
        cases hvalue' : property sub' key with
        | error e' => simp [hvalue, hvalue'] at hinner
        | ok value' =>
          simp only [hvalue, hvalue'] at hinner
          rw [ok_bind, ok_bind, mapObject_congr fun e he =>
            ih e he _ _ _ _ _ (agreeAll_iff.mp hinner e he)]
    · rfl

/-! ### Fields of the root -/

mutual

/-- The fields of the root that a definition reads. -/
def names (key : String) : Def → List String
  | .text setup =>
    [if pathOf setup = "=" then key else (split '.' (pathOf setup)).headD ""]
  | .items path _ => [(split '.' path).headD ""]
  | .single inner => namesAll inner
  | .fields inner => key :: namesAll inner

def namesAll : List (String × Def) → List String
  | [] => []
  | (key, d) :: definition => names key d ++ namesAll definition

end

theorem names_subset_namesAll {e : String × Def} (he : e ∈ definition) :
    names e.1 e.2 ⊆ namesAll definition := by
  induction definition with
  | nil => exact absurd he List.not_mem_nil
  | cons e' definition ih =>
    rw [namesAll]
    rcases List.mem_cons.mp he with rfl | he
    · exact List.subset_append_left _ _
    · exact List.Subset.trans (ih he) (List.subset_append_right _ _)

theorem agree_refl (d : Def) : ∀ (key : String) (root sub : Value ν),
    Agree c key root sub root sub d := by
  induction d using Def.induction with
  | text setup => exact fun key root sub => rfl
  | items path inner ih =>
    intro key root sub
    rw [Agree]
    cases dataSource c path root with
    | none => trivial
    | some items => exact List.forall₂_same.mpr fun item _ =>
        agreeAll_iff.mpr fun e he => ih e he _ _ _
  | single inner ih =>
    intro key root sub
    rw [Agree]
    exact agreeAll_iff.mpr fun e he => ih e he _ _ _
  | fields inner ih =>
    intro key root sub
    rw [Agree]
    refine ⟨rfl, fun _ => ?_⟩
    cases property sub key with
    | error e => rfl
    | ok value => exact agreeAll_iff.mpr fun e he => ih e he _ _ _

variable {entries' : List (String × Value ν)} {path : String}

theorem own_congr (h : entries.lookup key = entries'.lookup key) :
    own (.object entries) key = own (.object entries') key := by
  rw [own, own, h]

/-- A path reads one field of the root. -/
theorem resolvePath_congr (h : entries.lookup ((split '.' path).headD "") =
    entries'.lookup ((split '.' path).headD "")) :
    resolvePath c (.object entries) path = resolvePath c (.object entries') path := by
  have hne : split '.' path ≠ [] := by
    rw [split, ne_eq, List.map_eq_nil_iff]
    exact List.splitOn_ne_nil '.' path.toList
  obtain ⟨first, rest, hsplit⟩ := List.exists_cons_of_ne_nil hne
  rw [hsplit, List.headD_cons] at h
  rw [resolvePath, resolvePath, hsplit, List.foldl_cons, List.foldl_cons]
  have hroot (es : List (String × Value ν)) : truthy c (.object es) = true := rfl
  rw [if_pos (hroot entries), if_pos (hroot entries'), own_congr h]

theorem dataSource_congr (h : entries.lookup ((split '.' path).headD "") =
    entries'.lookup ((split '.' path).headD "")) :
    dataSource c path (.object entries) = dataSource c path (.object entries') := by
  rw [dataSource, dataSource]
  split_ifs
  · rfl
  · rw [resolvePath_congr h]

/-- **Fields that are not named** do not matter. -/
theorem agree_of_names (d : Def) : ∀ (key : String) (sub sub' : Value ν),
    (∀ name ∈ names key d, entries.lookup name = entries'.lookup name) →
    (sub = sub' ∨ (sub = .object entries ∧ sub' = .object entries')) →
    Agree c key (.object entries) sub (.object entries') sub' d := by
  induction d using Def.induction with
  | text setup =>
    intro key sub sub' hnames hsub
    rw [names, List.forall_mem_singleton] at hnames
    rw [Agree, valueAt, valueAt]
    split_ifs at hnames ⊢ with hpath
    · rcases hsub with rfl | ⟨rfl, rfl⟩
      · rfl
      · exact congrArg Except.ok (own_congr hnames)
    · rw [resolvePath_congr hnames]
  | items path inner _ =>
    intro key sub sub' hnames _
    rw [names, List.forall_mem_singleton] at hnames
    rw [Agree, dataSource_congr hnames]
    have hrefl := agree_refl (c := c) (.items path inner) key (.object entries') sub
    rwa [Agree] at hrefl
  | single inner ih =>
    intro key sub sub' hnames _
    rw [names] at hnames
    rw [Agree]
    exact agreeAll_iff.mpr fun e he => ih e he _ _ _
      (fun name hname => hnames name (names_subset_namesAll he hname)) (.inr ⟨rfl, rfl⟩)
  | fields inner ih =>
    intro key sub sub' hnames hsub
    rw [names, List.forall_mem_cons] at hnames
    have hown : own (.object entries) key = own (.object entries') key := own_congr hnames.1
    have hvalue : property sub key = property sub' key := by
      rcases hsub with rfl | ⟨rfl, rfl⟩
      · rfl
      · exact congrArg Except.ok hown
    rw [Agree]
    refine ⟨by rw [opens, opens, hown]; rfl, fun _ => ?_⟩
    -- Below a name both sides have one value, or, where it has none, the root again.
    rw [hvalue]
    cases property sub' key with
    | error e => rfl
    | ok value =>
      refine agreeAll_iff.mpr fun e he => ih e he _ _ _
        (fun name hname => hnames.2 name (names_subset_namesAll he hname)) ?_
      rw [orDefault, orDefault]
      split_ifs
      · exact .inr ⟨rfl, rfl⟩
      · exact .inl rfl

end Follows

/-- **The mapper follows the definition.** What it makes has the entries that are described, in
their order and with their types; the same is made of any two answers that agree on what the
definition reads, and of two objects whose fields agree that the definition names. -/
theorem mapper_follows {ν : Type} (c : Casts ν) (definition : List (String × Def)) :
    (∀ data entries, mapObject c data data definition = .ok entries →
      EntriesFollow c entries definition) ∧
    (∀ data data', AgreeAll c data data data' data' definition →
      mapper c data (.object definition) = mapper c data' (.object definition)) ∧
    ∀ entries entries' : List (String × Value ν),
      (∀ name ∈ namesAll definition, entries.lookup name = entries'.lookup name) →
      mapper c (.object entries) (.object definition) =
        mapper c (.object entries') (.object definition) := by
  have hcongr (data data' : Value ν) (h : AgreeAll c data data data' data' definition) :
      mapper c data (.object definition) = mapper c data' (.object definition) := by
    rw [mapper, mapper, mapObject_congr fun e he =>
      mapField_congr e.2 e.1 _ _ _ _ (agreeAll_iff.mp h e he)]
  refine ⟨fun data entries h => entriesFollow_of (fun e _ => mapField_follows e.2 e.1) h, hcongr,
    fun entries entries' hnames => hcongr _ _ (agreeAll_iff.mpr fun e he => ?_)⟩
  exact agree_of_names e.2 e.1 _ _
    (fun name hname => hnames name (names_subset_namesAll he hname)) (.inr ⟨rfl, rfl⟩)

/-! ### Swap quotes -/

/-- `mappings/dexQuoteSwap.js` -/
def dexQuoteSwap : List (String × Def) :=
  [("path", .text "=,string"), ("amount", .text "=,string"),
    ("sqrtPriceX96AfterList", .items "sqrtPriceX96AfterList" (textFields "=,string")),
    ("initializedTicksCrossedList", .items "initializedTicksCrossedList" (textFields "=,string"))]

/-- The definition of the answers to `indexer.dex.quote.swap`. -/
def quoteSwap : List (String × Def) := [("data", .fields dexQuoteSwap), ("meta", .fields [])]

section Quotes

variable {ν : Type} {c : Casts ν} {root sub : Value ν} {definition : List (String × Def)}
  {entries : List (String × Value ν)}

/-- Every entry is made by one of the definition. -/
theorem mem_mapObject (h : mapObject c root sub definition = .ok entries)
    {entry : String × Value ν} (hentry : entry ∈ entries) :
    ∃ d, (entry.1, d) ∈ definition ∧ mapField c entry.1 root sub d = .ok (some entry.2) := by
  induction definition generalizing entries with
  | nil =>
    rw [mapObject] at h
    obtain rfl := Except.ok.inj h
    exact absurd hentry List.not_mem_nil
  | cons e definition ih =>
    obtain ⟨key, d⟩ := e
    rw [mapObject] at h
    obtain ⟨value?, hvalue, h⟩ := bind_eq_ok_iff.mp h
    obtain ⟨acc, hacc, h⟩ := bind_eq_ok_iff.mp h
    obtain rfl := pure_eq_ok_iff.mp h
    have hrest (hmem : entry ∈ acc) :
        ∃ d', (entry.1, d') ∈ (key, d) :: definition ∧
          mapField c entry.1 root sub d' = .ok (some entry.2) := by
      obtain ⟨d', hd', hfield⟩ := ih hacc hmem
      exact ⟨d', List.mem_cons_of_mem _ hd', hfield⟩
    cases value? with
    | none => exact hrest hentry
    | some value =>
      rcases List.mem_cons.mp hentry with rfl | hmem
      · exact ⟨d, List.mem_cons_self, hvalue⟩
      · exact hrest hmem

theorem split_of_notMem {separator : Char} {text : String} (h : separator ∉ text.toList) :
    split separator text = [text] := by
  rw [split, List.splitOn_eq_singleton h, List.map_singleton, String.ofList_toList]

/-- There is no array where the root has no such field. -/
theorem dataSource_eq_none {path : String} (hpath : '.' ∉ path.toList) (hne : path ≠ "")
    (hlookup : entries.lookup path = none) : dataSource c path (.object entries) = none := by
  have hroot : truthy c (.object entries) = true := rfl
  rw [dataSource, if_neg hne, resolvePath, split_of_notMem hpath, List.foldl_cons, List.foldl_nil,
    if_pos hroot, own, hlookup]
  rfl

/-- **The lists of a quote are never sent**, whatever the service answers: the definition looks for
them beside `data`. -/
theorem quoteSwap_lists (c : Casts ν) (data info : Value ν)
    (h : mapObject c (.object [("data", data), ("meta", info)])
      (.object [("data", data), ("meta", info)]) quoteSwap = .ok entries) :
    ∀ value, ("data", value) ∈ entries → ∃ fields, value = .object fields ∧
      ∀ field ∈ fields, field.1 = "path" ∨ field.1 = "amount" := by
  intro value hvalue
  obtain ⟨d, hd, hfield⟩ := mem_mapObject h hvalue
  have hd' : d = .fields dexQuoteSwap := by simpa [quoteSwap] using hd
  subst hd'
  rw [mapField] at hfield
  split_ifs at hfield
  · obtain ⟨subObj, -, hfield⟩ := bind_eq_ok_iff.mp hfield
    obtain ⟨fields, hfields, hfield⟩ := bind_eq_ok_iff.mp hfield
    have hobject := pure_eq_ok_iff.mp hfield
    split_ifs at hobject
    refine ⟨fields, (Option.some.inj hobject).symm, fun field hmem => ?_⟩
    obtain ⟨d, hd, hmade⟩ := mem_mapObject hfields hmem
    have hnone {path : String} {inner : List (String × Def)} (hpath : '.' ∉ path.toList)
        (hne : path ≠ "")
        (hlookup : [("data", data), ("meta", info)].lookup path = none)
        (hitems : d = .items path inner) : False := by
      rw [hitems, mapField, dataSource_eq_none hpath hne hlookup] at hmade
      exact Option.some_ne_none _ (pure_eq_ok_iff.mp hmade).symm
    simp only [dexQuoteSwap, List.mem_cons, Prod.mk.injEq, List.not_mem_nil, or_false] at hd
    rcases hd with ⟨hkey, -⟩ | ⟨hkey, -⟩ | ⟨-, hitems⟩ | ⟨-, hitems⟩
    · exact .inl hkey
    · exact .inr hkey
    · exact (hnone (by decide) (by decide) rfl hitems).elim
    · exact (hnone (by decide) (by decide) rfl hitems).elim
  · exact absurd (pure_eq_ok_iff.mp hfield) (Option.some_ne_none value).symm

/-- The conversion of texts, which stay as they are. -/
def textCasts : Casts ℕ where
  isZero n := n = 0
  isNaN _ := false
  number _ := 0
  string
    | .leaf (.string s) => s
    | _ => ""
  isodate _ := .error "Invalid time value"
  epoch _ := 0
  datetime _ := ""
  hex _ := .ok ""
  base64 _ := .ok ""

/-- A quote over one pool. -/
def onePoolQuote : Value ℕ :=
  .object [("path", .leaf (.string "path")), ("amount", .leaf (.string "5")),
    ("sqrtPriceX96AfterList", .array [.leaf (.string "79228162514264337593543950336")]),
    ("initializedTicksCrossedList", .array [.leaf (.string "1")])]

/-- What is sent of the quote. -/
def sentQuote : Value ℕ :=
  .object [("path", .leaf (.string "path")), ("amount", .leaf (.string "5"))]

theorem mapObject_onePoolQuote :
    mapObject textCasts (.object [("data", onePoolQuote), ("meta", .object [])])
      (.object [("data", onePoolQuote), ("meta", .object [])]) quoteSwap =
        .ok [("data", sentQuote)] := rfl

theorem quoteSwap_onePool : ∃ fields, sentQuote = .object fields ∧
    ∀ field ∈ fields, field.1 = "path" ∨ field.1 = "amount" :=
  quoteSwap_lists textCasts onePoolQuote (.object []) mapObject_onePoolQuote sentQuote
    (List.mem_singleton_self _)

/-- A field more, which nothing reads. -/
theorem mapper_onePool :
    mapper textCasts (.object [("data", onePoolQuote), ("meta", .object []), ("debug", .array [])])
        (.object quoteSwap) =
      mapper textCasts (.object [("data", onePoolQuote), ("meta", .object [])])
        (.object quoteSwap) := by
  refine (mapper_follows textCasts quoteSwap).2.2 _ _ fun name hname => ?_
  have hnames : namesAll quoteSwap = ["data", "path", "amount", "sqrtPriceX96AfterList",
    "initializedTicksCrossedList", "meta"] := rfl
  rw [hnames] at hname
  simp only [List.mem_cons, List.not_mem_nil, or_false] at hname
  rcases hname with rfl | rfl | rfl | rfl | rfl | rfl <;> rfl

end Quotes

end CustomMapper

end SwaptoshiService
