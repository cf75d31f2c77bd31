import SwaptoshiService.Framework.NumberText
import SwaptoshiService.Lib.Tree

/-!
# Values for JSON, and back

`parseToJSONCompatObj` writes a `BigInt` as its digits and a `Buffer` as its bytes in hex, at any
depth. `parseInputBySchema` reads an input as a schema says.

A falsy value is returned before it is looked at, and **`0n` is falsy**: as the whole value and as
an item of an array it stays a `BigInt`. As a property it does not, since properties are looked at
one by one. `isJSON_parse_iff` says that this is all, and `parse_parseInput_iff` what it means for
an input: the text `0` of a 64-bit integer does not come back from the same two places.
-/

namespace SwaptoshiService

namespace Parser

/-! ### Values of the language -/

/-- What is neither an array nor an object with properties. -/
inductive JsLeaf
  | undefined
  | null
  | boolean (b : Bool)
  | number (x : Option JsNumber)
  | string (s : String)
  | bigint (z : ℤ)
  | buffer (bytes : List UInt8)
deriving DecidableEq

abbrev JsValue := Tree String JsLeaf

/-- `!value` -/
def JsLeaf.isFalsy : JsLeaf → Bool
  | .undefined => true
  | .null => true
  | .boolean b => !b
  | .number x => x = none ∨ x = some (JsNumber.ofRat 0)
  | .string s => s = ""
  | .bigint z => z = 0
  | .buffer _ => false

/-- What `JSON.stringify` has a text for: no `BigInt`, and no `Buffer`. -/
def JsLeaf.IsJSON : JsLeaf → Prop
  | .bigint _ => False
  | .buffer _ => False
  | _ => True

/-! ### `parseToJSONCompatObj` -/

/-- A value without items or properties. -/
def parseLeaf (obj : JsLeaf) : JsLeaf :=
  -- `typeof obj === 'boolean' || !obj`, which holds for `0n`.
  if obj.isFalsy then obj
  else match obj with
    | .boolean b => .boolean b
    | .string s => .string s
    | .number x => .number x
    | .buffer bytes => .string (toHex bytes)
    | .bigint z => .string (toString z)
    | obj => obj

mutual

/-- `parseToJSONCompatObj` -/
def parseToJSONCompatObj : JsValue → JsValue
  | .leaf obj => .leaf (parseLeaf obj)
  | .array items => .array (parseItems items)
  | .object entries => .object (parseEntries entries)

/-- The items of an array, one by one. -/
def parseItems : List JsValue → List JsValue
  | [] => []
  | o :: items => parseToJSONCompatObj o :: parseItems items

/-- The properties of an object, one by one. -/
def parseEntries : List (String × JsValue) → List (String × JsValue)
  | [] => []
  -- Here the kind of the value comes first, so that `0n` is found.
  | (k, .leaf (.buffer bytes)) :: entries =>
    (k, .leaf (.string (toHex bytes))) :: parseEntries entries
  | (k, .leaf (.bigint z)) :: entries =>
    (k, .leaf (.string (toString z))) :: parseEntries entries
  | (k, .array items) :: entries => (k, .array (parseItems items)) :: parseEntries entries
  | (k, .object inner) :: entries =>
    (k, parseToJSONCompatObj (.object inner)) :: parseEntries entries
  | (k, .leaf v) :: entries => (k, .leaf v) :: parseEntries entries

end

/-! ### Schemas -/

/-- Arrays and objects; the other schemas have a `dataType`. -/
inductive SchemaType
  | object
  | array
deriving DecidableEq

/-- The types of single values. -/
inductive DataType
  | string
  | boolean
  | bytes
  | uint32
  | sint32
  | uint64
  | sint64
deriving DecidableEq

/-- What is read of a schema. -/
structure Schema where
  type : Option SchemaType := none
  dataType : Option DataType := none
  format : Option String := none
  items : Option Schema := none
  properties : Option (List (String × Schema)) := none

/-- `KLAYR_ADDRESS_FORMAT` -/
def klayrAddressFormat : String := "klayr32"

/-! ### `parseInputBySchema` -/

/-- What is neither an array nor an object of a JSON text. -/
inductive JsonLeaf
  | null
  | boolean (b : Bool)
  | number (q : ℚ)
  | string (s : String)
deriving DecidableEq

/-- An input, as it was read from a JSON text. -/
abbrev Json := Tree String JsonLeaf

/-- The value that the text stands for. -/
def JsonLeaf.toLeaf : JsonLeaf → JsLeaf
  | .null => .null
  | .boolean b => .boolean b
  | .number q => .number (some (JsNumber.ofRat q))
  | .string s => .string s

abbrev Json.toValue (input : Json) : JsValue := input.map JsonLeaf.toLeaf

/-- `String(input)` -/
def JsonLeaf.toText : JsonLeaf → String
  | .null => "null"
  | .boolean b => toString b
  | .number q => numberText (some (JsNumber.ofRat q))
  | .string s => s

/-- `Number(input)` -/
def JsonLeaf.toNumber : JsonLeaf → Option JsNumber
  | .null => some (JsNumber.ofRat 0)
  | .boolean b => some (JsNumber.ofRat b.toNat)
  | .number q => some (JsNumber.ofRat q)
  | .string s => numberOf s.toList

/-- `BigInt(input)`; `none` throws. -/
def JsonLeaf.toBigInt : JsonLeaf → Option ℤ
  | .null => none
  | .boolean b => some b.toNat
  | .number q => if q.den = 1 then some q.num else none
  | .string s => bigIntOf s.toList

/-- `Buffer.from(input, 'hex')`; `none` throws. -/
def JsonLeaf.toBuffer : JsonLeaf → Option (List UInt8)
  | .string s => some (ofHex s)
  | _ => none

section Parse

variable (getAddressFromKlayr32Address : JsonLeaf → Option (List UInt8))

/-- The input is no object, that is `typeof input !== 'object'`. -/
def parseLeafBySchema (input : JsonLeaf) (schema : Schema) : Option JsLeaf :=
  match schema.dataType with
  | some .string => some (.string input.toText)
  | some .boolean => some (.boolean (!input.toLeaf.isFalsy))
  | some .bytes =>
    if schema.format = some klayrAddressFormat then
      (getAddressFromKlayr32Address input).map .buffer
    else input.toBuffer.map .buffer
  | some .uint32 | some .sint32 => some (.number input.toNumber)
  | some .uint64 | some .sint64 => input.toBigInt.map .bigint
  | none => some input.toLeaf

/-- `innerSchema`: of the property for an object, of its type and format alone for another value. -/
def innerSchema (property : Option Schema) : Json → Option Schema
  | .leaf .null | .array _ | .object _ => property
  | .leaf _ => some { dataType := property.bind (·.dataType), format := property.bind (·.format) }

mutual

/-- `parseInputBySchema`; `none` throws. -/
def parseInputBySchema : Json → Option Schema → Option JsValue
  | _, none => none
  -- `typeof null` is `object`, but it has no keys and no `map`.
  | .leaf .null, some schema => if schema.type = none then some (.leaf .null) else none
  | .leaf input, some schema =>
    (parseLeafBySchema getAddressFromKlayr32Address input schema).map .leaf
  | .array items, some schema =>
    match schema.type with
    | some .object => (parseIndices 0 items schema.properties).map .object
    | some .array => (parseItemsBySchema items schema.items).map .array
    | none => some (Json.toValue (.array items))
  | .object entries, some schema =>
    match schema.type with
    | some .object => (parseEntriesBySchema entries schema.properties).map .object
    | some .array => none
    -- For `bytes` that are an object already.
    | none => some (Json.toValue (.object entries))

/-- `input.map(item => parseInputBySchema(item, itemsSchema))` of an array. -/
def parseItemsBySchema : List Json → Option Schema → Option (List JsValue)
  | [], _ => some []
  | item :: items, itemsSchema => do
    let value ← parseInputBySchema item itemsSchema
    return value :: (← parseItemsBySchema items itemsSchema)

/-- The same of any value: only an array has a `map`. -/
def mapItemsBySchema : Json → Option Schema → Option JsValue
  | .array items, itemsSchema => (parseItemsBySchema items itemsSchema).map .array
  | _, _ => none

/-- The properties of an object, one by one. -/
def parseEntriesBySchema :
    List (String × Json) → Option (List (String × Schema)) → Option (List (String × JsValue))
  | [], _ => some []
  | (key, currValue) :: entries, properties => do
    let property := (← properties).lookup key
    let value ←
      (if property.bind (·.type) = some .array then
        mapItemsBySchema currValue (property.bind (·.items))
      else parseInputBySchema currValue (innerSchema property currValue))
    return (key, value) :: (← parseEntriesBySchema entries properties)

/-- The same of an array, whose properties are its indices. -/
def parseIndices :
    ℕ → List Json → Option (List (String × Schema)) → Option (List (String × JsValue))
  | _, [], _ => some []
  | i, currValue :: items, properties => do
    let property := (← properties).lookup (toString i)
    let value ←
      (if property.bind (·.type) = some .array then
        mapItemsBySchema currValue (property.bind (·.items))
      else parseInputBySchema currValue (innerSchema property currValue))
    return (toString i, value) :: (← parseIndices (i + 1) items properties)

end

end Parse

/-! ### What stays in a value -/

/-- The value of a property. -/
def parseValue : JsValue → JsValue
  | .leaf (.bigint z) => .leaf (.string (toString z))
  | v => parseToJSONCompatObj v

@[simp] theorem parse_array (items : List JsValue) :
    parseToJSONCompatObj (.array items) = .array (items.map parseToJSONCompatObj) := by
  rw [parseToJSONCompatObj]
  congr 1
  induction items with
  | nil => rfl
  | cons o items ih => rw [parseItems, ih, List.map_cons]

theorem parseEntries_cons (k : String) (v : JsValue) (entries : List (String × JsValue)) :
    parseEntries ((k, v) :: entries) = (k, parseValue v) :: parseEntries entries := by
  rcases v with obj | items | inner
  · cases obj with
    | boolean b => cases b <;> rfl
    | undefined | null | number | string =>
      simp only [parseEntries, parseValue, parseToJSONCompatObj, parseLeaf, ite_self]
    | bigint | buffer => rfl
  · rfl
  · rfl

@[simp] theorem parse_object (entries : List (String × JsValue)) :
    parseToJSONCompatObj (.object entries) =
      .object (entries.map fun e => (e.1, parseValue e.2)) := by
  rw [parseToJSONCompatObj]
  congr 1
  induction entries with
  | nil => rfl
  | cons e entries ih => rw [parseEntries_cons, ih, List.map_cons]

theorem isJSON_parseLeaf (obj : JsLeaf) : (parseLeaf obj).IsJSON ↔ obj ≠ .bigint 0 := by
  cases obj with
  | undefined | null => simp [parseLeaf, JsLeaf.IsJSON, JsLeaf.isFalsy]
  | boolean b => cases b <;> simp [parseLeaf, JsLeaf.IsJSON, JsLeaf.isFalsy]
  | number | string => simp [parseLeaf, JsLeaf.IsJSON]
  | bigint z => by_cases hz : z = 0 <;> simp [parseLeaf, JsLeaf.IsJSON, JsLeaf.isFalsy, hz]
  | buffer bytes => simp [parseLeaf, JsLeaf.IsJSON, JsLeaf.isFalsy]

theorem parseValue_leaf {obj : JsLeaf} (h : ∀ z, obj ≠ .bigint z) :
    parseValue (.leaf obj) = .leaf (parseLeaf obj) := by
  rw [parseValue.eq_2]
  · rw [parseToJSONCompatObj]
  · exact fun z hz => h z (Tree.leaf.inj hz)

/-- A property is always one of JSON. -/
theorem isJSON_parseValue_leaf (obj : JsLeaf) :
    (parseValue (.leaf obj)).AllLeaves JsLeaf.IsJSON := by
  by_cases hbig : ∃ z, obj = .bigint z
  · obtain ⟨z, rfl⟩ := hbig
    exact Tree.allLeaves_leaf.mpr trivial
  · rw [parseValue_leaf (not_exists.mp hbig), Tree.allLeaves_leaf, isJSON_parseLeaf]
    exact fun hobj => hbig ⟨0, hobj⟩

/-- **What `parseToJSONCompatObj` leaves**: exactly `0n`, where it is no property. -/
theorem isJSON_parse_iff (v : JsValue) :
    ((parseToJSONCompatObj v).AllLeaves JsLeaf.IsJSON ↔
        v ≠ .leaf (.bigint 0) ∧ v.NoItem (.bigint 0)) ∧
      ((parseValue v).AllLeaves JsLeaf.IsJSON ↔ v.NoItem (.bigint 0)) := by
  induction v using Tree.induction with
  | leaf obj =>
    refine ⟨?_, iff_of_true (isJSON_parseValue_leaf obj) Tree.noItem_leaf⟩
    rw [parseToJSONCompatObj, Tree.allLeaves_leaf, isJSON_parseLeaf]
    simp
  | array items ih =>
    have hitems : (parseToJSONCompatObj (.array items)).AllLeaves JsLeaf.IsJSON ↔
        Tree.NoItem (.bigint 0) (.array items : JsValue) := by
      rw [parse_array, Tree.allLeaves_array, List.forall_mem_map, Tree.noItem_array]
      exact forall₂_congr fun o ho => (ih o ho).1
    exact ⟨by simpa using hitems, hitems⟩
  | object entries ih =>
    have hentries : (parseToJSONCompatObj (.object entries)).AllLeaves JsLeaf.IsJSON ↔
        Tree.NoItem (.bigint 0) (.object entries : JsValue) := by
      rw [parse_object, Tree.allLeaves_object, List.forall_mem_map, Tree.noItem_object]
      exact forall₂_congr fun e he => (ih e he).2
    exact ⟨by simpa using hentries, hentries⟩

/-! ### Inputs that a schema describes -/

/-- `schema.properties[key]` -/
def Schema.property (schema : Schema) (key : String) : Option Schema :=
  schema.properties.bind (·.lookup key)

/-- A schema within a schema, at any depth. -/
inductive Schema.Within (s : Schema) : Schema → Prop
  | refl : Within s s
  | items {schema t : Schema} : schema.items = some t → Within s t → Within s schema
  | property {schema t : Schema} {key : String} :
      schema.property key = some t → Within s t → Within s schema

/-- No field is an address in the `klayr32` format. -/
def Schema.NoKlayr32 (schema : Schema) : Prop :=
  ∀ s, Schema.Within s schema → s.format ≠ some klayrAddressFormat

/-- A schema of integers of 64 bits. -/
def Schema.IsBig (schema : Schema) : Prop :=
  schema.dataType = some .uint64 ∨ schema.dataType = some .sint64

/-- The input is what the schema describes. Integers of 64 bits are texts, and so are bytes. What a
schema says of sizes, and of properties that have to be there, is left out. -/
inductive Conforms : Json → Schema → Prop
  | string {schema : Schema} (s : String) : schema.type = none → schema.dataType = some .string →
      Conforms (.leaf (.string s)) schema
  | boolean {schema : Schema} (b : Bool) : schema.type = none → schema.dataType = some .boolean →
      Conforms (.leaf (.boolean b)) schema
  | bytes {schema : Schema} {s : String} : schema.type = none → schema.dataType = some .bytes →
      (∀ c ∈ s.toList, IsHexDigit c) → Even s.length → Conforms (.leaf (.string s)) schema
  | number {schema : Schema} (q : ℚ) : schema.type = none →
      (schema.dataType = some .uint32 ∨ schema.dataType = some .sint32) →
      Conforms (.leaf (.number q)) schema
  | bigint {schema : Schema} (z : ℤ) : schema.type = none → schema.IsBig →
      Conforms (.leaf (.string (toString z))) schema
  | array {schema s : Schema} {items : List Json} : schema.type = some .array →
      schema.items = some s → (∀ x ∈ items, Conforms x s) → Conforms (.array items) schema
  | object {schema : Schema} {entries : List (String × Json)} : schema.type = some .object →
      (∀ e ∈ entries, ∃ s, schema.property e.1 = some s) →
      (∀ e ∈ entries, ∀ s, schema.property e.1 = some s → Conforms e.2 s) →
      Conforms (.object entries) schema

/-- `x` is a part of the input, and `s` is the schema of this part. -/
inductive Part (x : Json) (s : Schema) : Json → Schema → Prop
  | refl : Part x s x s
  | item {schema t : Schema} {items : List Json} {y : Json} : schema.items = some t → y ∈ items →
      Part x s y t → Part x s (.array items) schema
  | property {schema t : Schema} {entries : List (String × Json)} {e : String × Json} :
      schema.property e.1 = some t → e ∈ entries → Part x s e.2 t →
        Part x s (.object entries) schema

/-- The input is the zero of an integer of 64 bits. -/
def IsZero (input : Json) (schema : Schema) : Prop :=
  schema.IsBig ∧ input = .leaf (.string "0")

/-- No such zero is an item of an array. -/
def NoZeroItem (input : Json) (schema : Schema) : Prop :=
  ∀ items s, Part (.array items) s input schema →
    ∀ t, s.items = some t → ∀ x ∈ items, ¬ IsZero x t

section Describe

variable {schema s t : Schema} {items : List Json} {entries : List (String × Json)} {x : JsonLeaf}

theorem Schema.NoKlayr32.of_items (h : schema.NoKlayr32) (ht : schema.items = some t) :
    t.NoKlayr32 := fun s hs => h s (.items ht hs)

theorem Schema.NoKlayr32.of_property {key : String} (h : schema.NoKlayr32)
    (ht : schema.property key = some t) : t.NoKlayr32 := fun s hs => h s (.property ht hs)

@[simp] theorem noZeroItem_leaf : NoZeroItem (.leaf x) schema := by
  rintro items s ⟨⟩

theorem noZeroItem_array (ht : schema.items = some t) :
    NoZeroItem (.array items) schema ↔ ∀ x ∈ items, ¬ IsZero x t ∧ NoZeroItem x t := by
  constructor
  · exact fun h x hx => ⟨h items schema .refl t ht x hx,
      fun items' s hpart => h items' s (.item ht hx hpart)⟩
  · rintro h items' s (_ | ⟨ht', hy, hpart⟩ | _) t' hs
    · obtain rfl : t = t' := Option.some.inj (ht.symm.trans hs)
      exact fun x hx => (h x hx).1
    · obtain rfl := Option.some.inj (ht.symm.trans ht')
      exact (h _ hy).2 items' s hpart t' hs

theorem noZeroItem_object :
    NoZeroItem (.object entries) schema ↔
      ∀ e ∈ entries, ∀ t, schema.property e.1 = some t → NoZeroItem e.2 t := by
  constructor
  · exact fun h e he t ht items s hpart => h items s (.property ht he hpart)
  · rintro h items s (_ | _ | ⟨ht, he, hpart⟩) t hs
    exact h _ he _ ht items s hpart t hs

/-! ### There and back -/

variable (getAddressFromKlayr32Address : JsonLeaf → Option (List UInt8))

theorem parseLeaf_number (q : Option JsNumber) : parseLeaf (.number q) = .number q := by
  simp [parseLeaf]

theorem parseLeaf_string (text : String) : parseLeaf (.string text) = .string text := by
  simp [parseLeaf]

theorem parseLeaf_boolean (b : Bool) : parseLeaf (.boolean b) = .boolean b := by
  cases b <;> rfl

/-- The decimal text of no other integer is `0`. -/
theorem toString_eq_zero_iff {z : ℤ} : toString z = "0" ↔ z = 0 := by
  refine ⟨fun h => ?_, fun h => h ▸ rfl⟩
  have hread := bigIntOf_toString z
  rw [h] at hread
  exact (Option.some.inj (hread.symm.trans (bigIntOf_toString 0)))

/-- A single value: as a property it comes back, and otherwise unless it is zero. -/
theorem parse_parseLeaf (h : Conforms (.leaf x) schema)
    (hformat : schema.format ≠ some klayrAddressFormat) :
    ∃ obj, parseLeafBySchema getAddressFromKlayr32Address x schema = some obj ∧
      (parseLeaf obj = x.toLeaf ↔ ¬ IsZero (.leaf x) schema) ∧
      parseValue (.leaf obj) = .leaf x.toLeaf := by
  -- Only an integer of 64 bits can be such a zero.
  have hzero : ∀ d, schema.dataType = some d → d ≠ .uint64 → d ≠ .sint64 →
      ¬ IsZero (.leaf x) schema := by
    rintro d hd h64 hs64 ⟨hbig | hbig, -⟩
    · exact h64 (Option.some.inj (hd.symm.trans hbig))
    · exact hs64 (Option.some.inj (hd.symm.trans hbig))
  cases h with
  | string text htype hd =>
    refine ⟨.string text, ?_, iff_of_true (parseLeaf_string text)
      (hzero _ hd (by decide) (by decide)), ?_⟩
    · rw [parseLeafBySchema, hd]
      rfl
    · rw [parseValue_leaf (by rintro z ⟨⟩), parseLeaf_string, JsonLeaf.toLeaf]
  | boolean b htype hd =>
    refine ⟨.boolean b, ?_, iff_of_true (parseLeaf_boolean b)
      (hzero _ hd (by decide) (by decide)), ?_⟩
    · rw [parseLeafBySchema, hd]
      simp [JsonLeaf.toLeaf, JsLeaf.isFalsy]
    · rw [parseValue_leaf (by rintro z ⟨⟩), parseLeaf_boolean, JsonLeaf.toLeaf]
  | @bytes _ text htype hd hdigits heven =>
    obtain ⟨n, hn⟩ := heven
    have hlength : text.toList.length = 2 * n := by
      rw [String.length_toList, hn, two_mul]
    have hhex : toHex (ofHex text) = text := by
      rw [toHex, ofHex, (toHexChars_ofHexChars hdigits hlength).1, String.ofList_toList]
    refine ⟨.buffer (ofHex text), ?_, iff_of_true ?_ (hzero _ hd (by decide) (by decide)), ?_⟩
    · rw [parseLeafBySchema, hd]
      exact if_neg hformat
    · exact congrArg _ hhex
    · rw [parseValue_leaf (by rintro z ⟨⟩), JsonLeaf.toLeaf]
      exact congrArg (fun text => Tree.leaf (JsLeaf.string text)) hhex
  | number q htype hd =>
    refine ⟨.number (some (JsNumber.ofRat q)), ?_, iff_of_true (parseLeaf_number _) ?_, ?_⟩
    · rcases hd with hd | hd <;> rw [parseLeafBySchema, hd] <;> rfl
    · rcases hd with hd | hd
      · exact hzero _ hd (by decide) (by decide)
      · exact hzero _ hd (by decide) (by decide)
    · rw [parseValue_leaf (by rintro z ⟨⟩), parseLeaf_number, JsonLeaf.toLeaf]
  | bigint z htype hbig =>
    refine ⟨.bigint z, ?_, ?_, rfl⟩
    · have hread : (JsonLeaf.string (toString z)).toBigInt = some z := bigIntOf_toString z
      rcases hbig with hd | hd
      · rw [parseLeafBySchema, hd, hread, Option.map_some]
      · rw [parseLeafBySchema, hd, hread, Option.map_some]
    · have hiff : IsZero (.leaf (.string (toString z))) schema ↔ z = 0 := by
        rw [IsZero, and_iff_right hbig, Tree.leaf.injEq, JsonLeaf.string.injEq,
          toString_eq_zero_iff]
      rw [hiff]
      by_cases hz : z = 0
      · simp [parseLeaf, JsLeaf.isFalsy, JsonLeaf.toLeaf, hz]
      · simp [parseLeaf, JsLeaf.isFalsy, JsonLeaf.toLeaf, hz]

/-- The value and the ones after it come back if each does. -/
theorem map_cons_eq_some_iff {α β : Type} {f : α → β} {a : Option α} {as : Option (List α)} {b : β}
    {bs : List β} : ((do return (← a) :: (← as)).map (List.map f) = some (b :: bs)) ↔
      a.map f = some b ∧ as.map (List.map f) = some bs := by
  cases a with
  | none => simp
  | some a => cases as <;> simp

theorem parseItems_iff :
    (parseItemsBySchema getAddressFromKlayr32Address items (some s)).map
        (List.map parseToJSONCompatObj) = some (items.map Json.toValue) ↔
      ∀ x ∈ items, (parseInputBySchema getAddressFromKlayr32Address x (some s)).map
        parseToJSONCompatObj = some (Json.toValue x) := by
  induction items with
  | nil => simp [parseItemsBySchema]
  | cons x items ih =>
    rw [parseItemsBySchema, List.map_cons, List.forall_mem_cons, ← ih]
    exact map_cons_eq_some_iff

/-- A property that conforms is parsed with the schema of the property. -/
theorem parseProperty_eq {x : Json} (h : Conforms x s) :
    (if (some s).bind (·.type) = some SchemaType.array then
        mapItemsBySchema getAddressFromKlayr32Address x ((some s).bind (·.items))
      else parseInputBySchema getAddressFromKlayr32Address x (innerSchema (some s) x)) =
      parseInputBySchema getAddressFromKlayr32Address x (some s) := by
  cases h with
  | array htype => simp [parseInputBySchema, mapItemsBySchema, htype]
  | object htype => simp [htype, innerSchema]
  | string text htype | boolean b htype | bytes htype | number q htype | bigint z htype =>
    simp [parseInputBySchema, htype, innerSchema, parseLeafBySchema]

theorem parseEntries_iff {properties : Option (List (String × Schema))}
    (hproperties : ∀ e ∈ entries, ∃ t, properties.bind (·.lookup e.1) = some t)
    (h : ∀ e ∈ entries, ∀ t, properties.bind (·.lookup e.1) = some t → Conforms e.2 t) :
    (parseEntriesBySchema getAddressFromKlayr32Address entries properties).map
        (List.map fun e => (e.1, parseValue e.2)) =
          some (entries.map fun e => (e.1, Json.toValue e.2)) ↔
      ∀ e ∈ entries, ∀ t, properties.bind (·.lookup e.1) = some t →
        (parseInputBySchema getAddressFromKlayr32Address e.2 (some t)).map parseValue =
          some (Json.toValue e.2) := by
  induction entries with
  | nil => simp [parseEntriesBySchema]
  | cons e entries ih =>
    obtain ⟨t, ht⟩ := hproperties e List.mem_cons_self
    obtain ⟨ps, rfl, hlookup⟩ := Option.bind_eq_some_iff.mp ht
    have hrest := ih (fun e' he' => hproperties e' (List.mem_cons_of_mem e he'))
      fun e' he' => h e' (List.mem_cons_of_mem e he')
    have hvalue := parseProperty_eq getAddressFromKlayr32Address
      (h e List.mem_cons_self t ht)
    -- The first property and the others.
    have hcons : parseEntriesBySchema getAddressFromKlayr32Address (e :: entries) (some ps) = do
        return (e.1, ← parseInputBySchema getAddressFromKlayr32Address e.2 (some t)) ::
          (← parseEntriesBySchema getAddressFromKlayr32Address entries (some ps)) := by
      rw [← hvalue, ← hlookup]
      rfl
    have hhead : (∀ t', (some ps).bind (·.lookup e.1) = some t' →
        (parseInputBySchema getAddressFromKlayr32Address e.2 (some t')).map parseValue =
          some (Json.toValue e.2)) ↔
        (parseInputBySchema getAddressFromKlayr32Address e.2 (some t)).map parseValue =
          some (Json.toValue e.2) := by
      rw [ht]
      exact ⟨fun h => h t rfl, fun h t' ht' => Option.some.inj ht' ▸ h⟩
    rw [List.forall_mem_cons, ← hrest, hhead, hcons]
    cases parseInputBySchema getAddressFromKlayr32Address e.2 (some t) with
    | none => simp
    | some value =>
      cases parseEntriesBySchema getAddressFromKlayr32Address entries (some ps) <;> simp

/-- What is no single value is parsed alike as a property and in other places. -/
theorem parse_and_parseValue_iff {α : Type} {value : Option α} {result : Option JsValue}
    {f : α → JsValue} (hf : ∀ a, parseValue (f a) = parseToJSONCompatObj (f a))
    (hresult : result = value.map f) {v : JsValue} {isZero noZeroItem : Prop} (hzero : ¬ isZero)
    (h : result.map parseToJSONCompatObj = some v ↔ noZeroItem) :
    (result.map parseToJSONCompatObj = some v ↔ ¬ isZero ∧ noZeroItem) ∧
      (result.map parseValue = some v ↔ noZeroItem) := by
  have hfun : parseValue ∘ f = parseToJSONCompatObj ∘ f := funext hf
  have hsame : result.map parseValue = result.map parseToJSONCompatObj := by
    rw [hresult, Option.map_map, Option.map_map, hfun]
  rw [hsame, and_iff_right hzero]
  exact ⟨h, h⟩

/-- **What comes back**: everything but the zeros that are no property. -/
theorem parse_parseInput_iff {input : Json} (h : Conforms input schema) (hk : schema.NoKlayr32) :
    ((parseInputBySchema getAddressFromKlayr32Address input (some schema)).map
        parseToJSONCompatObj = some input.toValue ↔
          ¬ IsZero input schema ∧ NoZeroItem input schema) ∧
      ((parseInputBySchema getAddressFromKlayr32Address input (some schema)).map
        parseValue = some input.toValue ↔ NoZeroItem input schema) := by
  induction input using Tree.induction generalizing schema with
  | leaf x =>
    obtain ⟨obj, hobj, hparse, hvalue⟩ :=
      parse_parseLeaf getAddressFromKlayr32Address h (hk schema .refl)
    have hinput : parseInputBySchema getAddressFromKlayr32Address (.leaf x) (some schema) =
        some (.leaf obj) := by
      have hnull : x ≠ .null := by
        rintro rfl
        cases h
      rw [parseInputBySchema.eq_3 _ _ _ hnull, hobj, Option.map_some]
    rw [hinput, Option.map_some, Option.map_some, hvalue, parseToJSONCompatObj, Json.toValue,
      Tree.map_leaf]
    refine ⟨?_, iff_of_true rfl noZeroItem_leaf⟩
    rw [Option.some.injEq, Tree.leaf.injEq, hparse, and_iff_left noZeroItem_leaf]
  | array items ih =>
    cases h with
    | @array _ t _ htype ht hconforms =>
      have hinput : parseInputBySchema getAddressFromKlayr32Address (.array items) (some schema) =
          (parseItemsBySchema getAddressFromKlayr32Address items (some t)).map .array := by
        rw [parseInputBySchema]
        simp only [htype, ht]
      refine parse_and_parseValue_iff (fun _ => rfl) hinput (fun hzero => by cases hzero.2) ?_
      -- Every item is parsed in a place that is no property.
      rw [hinput, Option.map_map, noZeroItem_array ht, Json.toValue, Tree.map_array]
      refine Iff.trans ?_ ((parseItems_iff getAddressFromKlayr32Address).trans
        (forall₂_congr fun x hx => (ih x hx (hconforms x hx) (hk.of_items ht)).1))
      cases parseItemsBySchema getAddressFromKlayr32Address items (some t) <;> simp
  | object entries ih =>
    cases h with
    | object htype hproperties hconforms =>
      have hinput : parseInputBySchema getAddressFromKlayr32Address (.object entries)
          (some schema) = (parseEntriesBySchema getAddressFromKlayr32Address entries
            schema.properties).map .object := by
        rw [parseInputBySchema]
        simp only [htype]
      refine parse_and_parseValue_iff (fun _ => rfl) hinput (fun hzero => by cases hzero.2) ?_
      rw [hinput, Option.map_map, noZeroItem_object, Json.toValue, Tree.map_object]
      refine Iff.trans ?_ ((parseEntries_iff getAddressFromKlayr32Address hproperties
        hconforms).trans (forall₂_congr fun e he => forall₂_congr fun t ht =>
          (ih e he (hconforms e he t ht) (hk.of_property ht)).2))
      cases parseEntriesBySchema getAddressFromKlayr32Address entries schema.properties <;> simp

end Describe

/-- **Values for JSON, and back**: `parseToJSONCompatObj` leaves `0n` where it is the whole value or
an item of an array, and no other `BigInt` and no `Buffer`; and an input comes back if its integers
of 64 bits are not `0` in these places. -/
theorem json_conversion_iff (v : JsValue)
    (getAddressFromKlayr32Address : JsonLeaf → Option (List UInt8)) {input : Json} {schema : Schema}
    (hschema : schema.NoKlayr32) (hinput : Conforms input schema) :
    ((parseToJSONCompatObj v).AllLeaves JsLeaf.IsJSON ↔
        v ≠ .leaf (.bigint 0) ∧ v.NoItem (.bigint 0)) ∧
      ((parseInputBySchema getAddressFromKlayr32Address input (some schema)).map
          parseToJSONCompatObj = some input.toValue ↔
        ¬ IsZero input schema ∧ NoZeroItem input schema) :=
  ⟨(isJSON_parse_iff v).1,
    (parse_parseInput_iff getAddressFromKlayr32Address hinput hschema).1⟩

/-- An account with its nonce and its keys. -/
def accountSchema : Schema where
  type := some .object
  properties := some [("nonce", { dataType := some .uint64 }),
    ("keys", { type := some .array, items := some { dataType := some .bytes } })]

/-- An account that has sent no transaction. -/
def account : Json :=
  .object [("nonce", .leaf (.string "0")), ("keys", .array [.leaf (.string "01ab")])]

theorem property_accountSchema {key : String} {t : Schema}
    (h : accountSchema.property key = some t) :
    (key = "nonce" ∧ t = { dataType := some .uint64 }) ∨
      (key = "keys" ∧ t = { type := some .array, items := some { dataType := some .bytes } }) := by
  simp only [Schema.property, accountSchema, Option.bind_some, List.lookup_cons,
    List.lookup_nil] at h
  grind

theorem noKlayr32_accountSchema : accountSchema.NoKlayr32 := by
  intro s hs
  have hnone : ∀ d, Schema.Within s { dataType := some d } →
      s.format ≠ some klayrAddressFormat := by
    rintro d (_ | hitems | hproperty)
    · nofun
    · cases hitems
    · cases hproperty
  rcases hs with _ | hitems | ⟨hproperty, hs⟩
  · nofun
  · cases hitems
  · rcases property_accountSchema hproperty with ⟨-, rfl⟩ | ⟨-, rfl⟩
    · exact hnone _ hs
    · rcases hs with _ | ⟨hitems, hs⟩ | hproperty
      · nofun
      · obtain rfl := Option.some.inj hitems
        exact hnone _ hs
      · cases hproperty

theorem conforms_account : Conforms account accountSchema := by
  refine .object rfl ?_ ?_
  · intro e he
    simp only [List.mem_cons, List.not_mem_nil, or_false] at he
    rcases he with rfl | rfl
    · exact ⟨_, rfl⟩
    · exact ⟨_, rfl⟩
  · intro e he t ht
    simp only [List.mem_cons, List.not_mem_nil, or_false] at he
    rcases he with rfl | rfl
    · obtain rfl := Option.some.inj ht
      exact .bigint 0 rfl (.inl rfl)
    · obtain rfl := Option.some.inj ht
      refine .array rfl rfl fun x hx => ?_
      obtain rfl := List.mem_singleton.mp hx
      exact .bytes rfl rfl (isHexDigit_of_all (by decide)) ⟨2, rfl⟩

/-- A nonce of zero comes back: it is a property. -/
theorem parse_account : (parseInputBySchema (fun _ => none) account (some accountSchema)).map
    parseToJSONCompatObj = some account.toValue := by
  have hzero : ¬ IsZero account accountSchema := fun h => by cases h.2
  refine (json_conversion_iff (.leaf .null) _ noKlayr32_accountSchema conforms_account).2.mpr
    ⟨hzero, noZeroItem_object.mpr fun e he t ht => ?_⟩
  simp only [List.mem_cons, List.not_mem_nil, or_false] at he
  rcases he with rfl | rfl
  · exact noZeroItem_leaf
  · obtain rfl := Option.some.inj ht
    refine (noZeroItem_array rfl).mpr fun x hx => ?_
    obtain rfl := List.mem_singleton.mp hx
    refine ⟨?_, noZeroItem_leaf⟩
    rintro ⟨hbig | hbig, -⟩
    · cases hbig
    · cases hbig

/-- The amounts of a list. -/
def amountsSchema : Schema where
  type := some .array
  items := some { dataType := some .uint64 }

/-- A zero in a list stays a `BigInt`, and as a text it does not come back. -/
theorem zero_stays_bigint :
    ¬ (parseToJSONCompatObj (.array [.leaf (.bigint 0)])).AllLeaves JsLeaf.IsJSON ∧
      amountsSchema.NoKlayr32 ∧ Conforms (.array [.leaf (.string "0")]) amountsSchema ∧
      (parseInputBySchema (fun _ => none) (.array [.leaf (.string "0")]) (some amountsSchema)).map
        parseToJSONCompatObj = some (.array [.leaf (.bigint 0)]) ∧
      Json.toValue (.array [.leaf (.string "0")]) ≠ .array [.leaf (.bigint 0)] := by
  refine ⟨?_, ?_, ?_, ?_, ?_⟩
  · intro h
    exact h (.bigint 0) (.item List.mem_cons_self .refl)
  · rintro s (_ | ⟨hitems, hs⟩ | hproperty)
    · nofun
    · obtain rfl := Option.some.inj hitems
      rcases hs with _ | hitems | hproperty
      · nofun
      · cases hitems
      · cases hproperty
    · cases hproperty
  · refine .array rfl rfl fun x hx => ?_
    obtain rfl := List.mem_singleton.mp hx
    exact .bigint 0 rfl (.inl rfl)
  · rfl
  · simp [Json.toValue, JsonLeaf.toLeaf]

end Parser

end SwaptoshiService
