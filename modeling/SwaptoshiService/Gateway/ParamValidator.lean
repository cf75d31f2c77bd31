import Mathlib.Data.List.Dedup
import SwaptoshiService.DataService.Parser
import SwaptoshiService.Lib.Record

/-!
# The parameters of a request to the gateway

`validate` (`gateway/shared/paramValidator.js`) compares the parameters of a request with those that
the route has, and reports what is unknown, what is missing, and whether they are one of the
required combinations. What is left is handed on: a number as a number, and a default for what is
not given.

The objects are built by assignment, and **`acc['__proto__'] = value` enters nothing**, so a
parameter of this name is never reported. `validate_exact_iff` says that the report is right but for
this name, for a route that requires a combination and lists none, and for objects that have a
property `toString`, which `Number` throws at.
-/

namespace SwaptoshiService

namespace ParamValidator

open SwaptoshiService.Parser Record

/-! ### Values -/

mutual

/-- An object with a property `toString` of its own, which is no function, or an array with one. -/
def hasToString : Json → Bool
  | .leaf _ => false
  | .array items => anyToString items
  | .object entries => entries.any fun entry => entry.1 == "toString"

/-- One of the items is one. -/
def anyToString : List Json → Bool
  | [] => false
  | item :: items => hasToString item || anyToString items

end

mutual

/-- The text of an item in `items.join()`. -/
def joinText : Json → Except String String
  | .leaf .null => .ok ""
  | .leaf input => .ok input.toText
  | .array items => do return String.intercalate "," (← joinTexts items)
  | .object entries =>
    if entries.any fun entry => entry.1 == "toString" then
      .error "Cannot convert object to primitive value"
    else .ok "[object Object]"

/-- The texts of all items. -/
def joinTexts : List Json → Except String (List String)
  | [] => .ok []
  | item :: items => do
    let text ← joinText item
    return text :: (← joinTexts items)

end

/-- `Number(input)`; `none` is `NaN`. -/
def toNumber : Json → Except String (Option JsNumber)
  | .leaf input => .ok input.toNumber
  | input => do return numberOf (← joinText input).toList

/-- A value of the report: as it was given, or a number. -/
inductive Value
  | undefined
  | number (x : Option JsNumber)
  | json (input : Json)

/-- `Number(value)` -/
def Value.toNumber : Value → Except String (Option JsNumber)
  | .undefined => .ok none
  | .number x => .ok x
  | .json input => ParamValidator.toNumber input

/-- `value === undefined` -/
def Value.isUndefined : Value → Bool
  | .undefined => true
  | _ => false

/-- `input === ''` -/
def isEmptyText : Json → Bool
  | .leaf (.string s) => s == ""
  | _ => false

/-! ### Routes -/

/-- The type of a parameter. -/
inductive ParamType
  | number
  | boolean
  | string
  | array
  | object
deriving DecidableEq

/-- A parameter of a route; `rules` are left to the validator. -/
structure ParamSpec (R : Type) where
  type : ParamType
  default : Option Json := none
  required : Bool := false
  convert : Option Bool := none
  rules : R

/-- What every object has without having been given it. -/
def objectPrototype : List String :=
  ["__proto__", "constructor", "__defineGetter__", "__defineSetter__", "hasOwnProperty",
    "__lookupGetter__", "__lookupSetter__", "isPrototypeOf", "propertyIsEnumerable", "toString",
    "valueOf", "toLocaleString"]

/-- A combination of parameters, each of them once. -/
abbrev Pairing := { keys : List String // keys.Nodup }

/-- A route; no parameter has the name of something that every object has. -/
structure RouteSpec (R : Type) where
  params : AList fun _ : String => ParamSpec R
  paramsRequired : Bool := false
  validParamPairings : List Pairing := []
  own : ∀ key ∈ params, key ∉ objectPrototype

/-- The parameters of a request, as they were read from a JSON text or a query. -/
abbrev InputParams := AList fun _ : String => Json

/-- `paramReport` -/
structure ParamReport (E : Type) where
  valid : AList fun _ : String => Value
  unknown : InputParams
  required : List Pairing
  missing : List String
  /-- It is absent when there is something else to report. -/
  invalid : Option (List E)

section Code

variable {R E β : Type}

/-- `keys.reduce((acc, cur) => { acc[cur] = f(cur); return acc; }, {})`, where `f` may leave a key
out. Assigned to `__proto__`, a value is no entry. -/
def reduceKeys (f : String → Option β) (keys : List String) : AList fun _ : String => β :=
  collect (fun cur => if cur = "__proto__" then none else f cur) keys

/-- The same with an `f` that may throw. -/
def reduceKeysM (f : String → Except String (Option β)) (keys : List String) :
    Except String (AList fun _ : String => β) :=
  collectM (fun cur => do
    let value ← f cur
    return if cur = "__proto__" then none else value) keys

/-- `dropEmptyProps` -/
def dropEmptyProps (p : InputParams) : InputParams :=
  reduceKeys (fun cur => (p.lookup cur).filter fun value => !isEmptyText value) p.keys

/-- `parseDefaultParams`, which is `mapObjectWithProperty(p, 'default')`. -/
def parseDefaultParams (p : AList fun _ : String => ParamSpec R) : InputParams :=
  reduceKeys (fun cur => (p.lookup cur).bind ParamSpec.default) p.keys

/-- What `parseAllParams` enters for a parameter of the route. -/
def parseParam (spec : ParamSpec R) (input : Option Json) : Except String (Option Value) :=
  match input with
  | none => .ok (spec.default.map .json)
  | some value =>
    if spec.type = .number then
      -- `acc[cur] = acc[cur]` enters `undefined` if there is no default.
      if isEmptyText value then .ok (some ((spec.default.map Value.json).getD .undefined))
      else do return some (.number (← toNumber value))
    else .ok (some (.json value))

/-- `parseAllParams` -/
def parseAllParams (routeParams : AList fun _ : String => ParamSpec R)
    (requestParams : InputParams) : Except String (AList fun _ : String => Value) :=
  reduceKeysM (fun cur => match routeParams.lookup cur with
    | none => .ok none
    | some spec => parseParam spec (requestParams.lookup cur)) routeParams.keys

/-- What `parseParams` takes over. -/
def validParam (swaggerParams : AList fun _ : String => Value) (param : String) :
    Except String (Option Value) :=
  match swaggerParams.lookup param with
  | none => .ok none
  | some inputVal => do
    -- `defaultVal` and `inputVal` are the same value.
    let defaultVal := inputVal
    if (← inputVal.toNumber).isNone && (← defaultVal.toNumber).isSome then return some defaultVal
    else return some inputVal

/-- The parameters of the request that the route does not have. -/
def invalidParams (swaggerParams : AList fun _ : String => Value) (inputParams : InputParams) :
    InputParams :=
  let combinedKeys := (swaggerParams.keys ++ inputParams.keys).dedup
  let invalidParamsList := combinedKeys.filter fun item => !swaggerParams.keys.contains item
  reduceKeys (fun val => inputParams.lookup val) invalidParamsList

/-- The keys whose values are not `undefined`. -/
def validParamsList (swaggerParams : AList fun _ : String => Value) : List String :=
  swaggerParams.keys.filter fun o => (swaggerParams.lookup o).any fun value => !value.isUndefined

/-- `parseParams`: what is valid, and what is unknown. -/
def parseParams (swaggerParams : AList fun _ : String => Value) (inputParams : InputParams) :
    Except String ((AList fun _ : String => Value) × InputParams) := do
  let validParams ← reduceKeysM (validParam swaggerParams) (validParamsList swaggerParams)
  return (validParams, invalidParams swaggerParams inputParams)

/-- `validateFromParamPairings`; what is not violated is answered by an empty list. -/
def validateFromParamPairings (paramsRequired : Bool) (inputParamKeys : List String)
    (paramPairings : List Pairing) : List Pairing :=
  if !paramsRequired then []
  else
    let filteredInputParamKeys := inputParamKeys.filter fun element =>
      paramPairings.any fun subArray => subArray.1.contains element
    if paramPairings.any fun arr =>
        arr.1.length == filteredInputParamKeys.length &&
          arr.1.all fun el => filteredInputParamKeys.contains el then []
    else paramPairings

/-- `arrDiff`: the items of `arr2` that are not in `arr1`. -/
def arrDiff (arr1 arr2 : List String) : List String := arr2.filter fun x => !arr1.contains x

/-- `checkMissingParams` -/
def checkMissingParams (routeParams : AList fun _ : String => ParamSpec R)
    (requestParams : InputParams) : List String :=
  let requiredParamList := routeParams.keys.filter fun o =>
    (routeParams.lookup o).any ParamSpec.required
  arrDiff requestParams.keys requiredParamList

/-- `{ convert: true, ...spec }` for numbers and booleans. -/
def looseSpec (spec : ParamSpec R) : ParamSpec R :=
  if spec.type = .number ∨ spec.type = .boolean then
    { spec with convert := some (spec.convert.getD true) }
  else spec

/-- `looseSpecParams` -/
def looseSpecParams (specPar : AList fun _ : String => ParamSpec R) :
    AList fun _ : String => ParamSpec R :=
  reduceKeys (fun cur => (specPar.lookup cur).map looseSpec) specPar.keys

/-- `validate`, with what `validator.validate` finds, which is nothing when it answers `true`. -/
def validateInputParams
    (validator : InputParams → (AList fun _ : String => ParamSpec R) → List E)
    (inputParams : InputParams) (specs : RouteSpec R) : Except String (ParamReport E) := do
  let swaggerParams ← parseAllParams specs.params inputParams
  let (valid, unknown) ← parseParams swaggerParams (inputParams ∪ parseDefaultParams specs.params)
  let required := validateFromParamPairings specs.paramsRequired inputParams.keys
    specs.validParamPairings
  let missing := checkMissingParams specs.params inputParams
  return { valid, unknown, required, missing
           invalid :=
             if missing ≠ [] then none
             else if unknown.keys ≠ [] then none
             else if required ≠ [] then none
             else some (validator (dropEmptyProps inputParams) (looseSpecParams specs.params)) }

end Code

/-! ### What a report should say -/

section Meaning

variable {R E : Type}

/-- The value that a parameter of the route is to have: the one that is given, a number as a number,
or the default. -/
def Maps (spec : ParamSpec R) (input : Option Json) (value : Option Value) : Prop :=
  match input with
  | none => value = spec.default.map .json
  | some given =>
    if spec.type = .number then
      if isEmptyText given then value = spec.default.map .json
      else ∃ x, toNumber given = .ok x ∧ value = some (.number x)
    else value = some (.json given)

/-- The parameters of some combination that are given are those of one combination. -/
def IsCombination (specs : RouteSpec R) (inputParams : InputParams) : Prop :=
  ∃ pairing ∈ specs.validParamPairings, ∀ key, key ∈ pairing.1 ↔
    key ∈ inputParams ∧ ∃ pairing' ∈ specs.validParamPairings, key ∈ pairing'.1

/-- **The report is right.** -/
structure ParamReport.Exact (report : ParamReport E) (specs : RouteSpec R)
    (inputParams : InputParams) : Prop where
  unknown : ∀ key, key ∈ report.unknown ↔ key ∈ inputParams ∧ key ∉ specs.params
  missing : ∀ key, key ∈ report.missing ↔
    (∃ spec, specs.params.lookup key = some spec ∧ spec.required = true) ∧ key ∉ inputParams
  required : report.required ≠ [] ↔
    specs.paramsRequired = true ∧ ¬ IsCombination specs inputParams
  valid : report.unknown.keys = [] → report.missing = [] → report.required = [] → ∀ key,
    match specs.params.lookup key with
    | none => key ∉ report.valid
    | some spec => Maps spec (inputParams.lookup key) (report.valid.lookup key)

/-- What stands for a parameter of the route: what is given, or the default. -/
def usedValue (spec : ParamSpec R) (input : Option Json) : Option Json :=
  match input with
  | none => spec.default
  | some given => if spec.type = .number ∧ isEmptyText given then spec.default else some given

/-- No parameter is called `__proto__`, a route that requires a combination lists one, and `Number`
throws at no parameter of the route. -/
structure Reportable (specs : RouteSpec R) (inputParams : InputParams) : Prop where
  proto : "__proto__" ∉ inputParams
  pairings : specs.paramsRequired = true → specs.validParamPairings ≠ []
  values : ∀ key spec value, specs.params.lookup key = some spec →
    usedValue spec (inputParams.lookup key) = some value → hasToString value = false

end Meaning

/-! ### `Number` throws at some objects -/

mutual

theorem joinText_ok_iff : ∀ input : Json,
    (∃ text, joinText input = .ok text) ↔ hasToString input = false
  | .leaf input => by
    refine iff_of_true ?_ rfl
    cases input with
    | null => exact ⟨_, rfl⟩
    | _ => exact ⟨_, rfl⟩
  | .array items => by
    rw [hasToString, ← joinTexts_ok_iff items]
    constructor
    · rintro ⟨text, htext⟩
      obtain ⟨texts, htexts, -⟩ := bind_eq_ok_iff.mp htext
      exact ⟨texts, htexts⟩
    · rintro ⟨texts, htexts⟩
      exact ⟨_, by rw [joinText, htexts]; rfl⟩
  | .object entries => by
    rw [joinText, hasToString]
    cases entries.any fun entry => entry.1 == "toString" <;> simp

theorem joinTexts_ok_iff : ∀ items : List Json,
    (∃ texts, joinTexts items = .ok texts) ↔ anyToString items = false
  | [] => by simp [joinTexts, anyToString]
  | item :: items => by
    rw [anyToString, Bool.or_eq_false_iff, ← joinText_ok_iff item, ← joinTexts_ok_iff items]
    constructor
    · rintro ⟨texts, htexts⟩
      obtain ⟨text, htext, hrest⟩ := bind_eq_ok_iff.mp htexts
      obtain ⟨rest, hrest, -⟩ := bind_eq_ok_iff.mp hrest
      exact ⟨⟨text, htext⟩, rest, hrest⟩
    · rintro ⟨⟨text, htext⟩, rest, hrest⟩
      exact ⟨_, by rw [joinTexts, htext, hrest]; rfl⟩

end

theorem toNumber_ok_iff (input : Json) :
    (∃ x, toNumber input = .ok x) ↔ hasToString input = false := by
  rw [← joinText_ok_iff]
  cases input with
  | leaf input =>
    refine iff_of_true ⟨_, rfl⟩ ?_
    cases input <;> exact ⟨_, rfl⟩
  | _ =>
    constructor
    · rintro ⟨x, hx⟩
      obtain ⟨text, htext, -⟩ := bind_eq_ok_iff.mp hx
      exact ⟨text, htext⟩
    · rintro ⟨text, htext⟩
      refine ⟨numberOf text.toList, ?_⟩
      rw [toNumber, htext]
      · rfl
      · simp

/-! ### Objects that are built by assignment -/

section Reduce

variable {β : Type} {f : String → Option β} {g : String → Except String (Option β)}
  {keys : List String} {key : String}

theorem lookup_reduceKeys : (reduceKeys f keys).lookup key =
    if key ∈ keys ∧ key ≠ "__proto__" then f key else none := by
  rw [reduceKeys, lookup_collect]
  by_cases hkey : key ∈ keys <;> by_cases hproto : key = "__proto__" <;> simp [hkey, hproto]

theorem mem_reduceKeys :
    key ∈ reduceKeys f keys ↔ key ∈ keys ∧ key ≠ "__proto__" ∧ (f key).isSome := by
  rw [← AList.lookup_isSome, lookup_reduceKeys]
  split_ifs with h
  · simp [h.1, h.2]
  · simp only [Option.isSome_none, Bool.false_eq_true, false_iff, not_and]
    exact fun hkey hproto => absurd ⟨hkey, hproto⟩ h

theorem reduceKeysM_of_ok (h : ∀ key ∈ keys, g key = .ok (f key)) :
    reduceKeysM g keys = .ok (reduceKeys f keys) := by
  refine collectM_of_ok fun key hkey => ?_
  rw [h key hkey]
  rfl

theorem exists_of_reduceKeysM {record : AList fun _ : String => β}
    (h : reduceKeysM g keys = .ok record) :
    ∃ f, (∀ key ∈ keys, g key = .ok (f key)) ∧ record = reduceKeys f keys := by
  obtain ⟨f', hf', -⟩ := exists_of_collectM h
  have hok : ∀ key ∈ keys, g key = .ok (g key).toOption.join := by
    intro key hkey
    obtain ⟨value, hvalue, -⟩ := bind_eq_ok_iff.mp (hf' key hkey)
    rw [hvalue]
    rfl
  exact ⟨_, hok, Except.ok.inj (h.symm.trans (reduceKeysM_of_ok hok))⟩

end Reduce

/-! ### One parameter -/

section Param

variable {R : Type} {spec : ParamSpec R} {input : Option Json} {value : Option Value}

/-- `Number` throws at what is used for the parameter, or at nothing. -/
theorem parseParam_ok_iff : (∀ used, usedValue spec input = some used → hasToString used = false) ↔
    ∃ value, parseParam spec input = .ok value ∧ ∀ v, value = some v → ∃ x, v.toNumber = .ok x := by
  have hdefault : (∀ used, spec.default = some used → hasToString used = false) ↔
      ∀ v, spec.default.map Value.json = some v → ∃ x, v.toNumber = .ok x := by
    cases spec.default with
    | none => simp
    | some used => simp [← toNumber_ok_iff, Value.toNumber]
  cases input with
  | none => simp [usedValue, parseParam, hdefault]
  | some given =>
    by_cases hnumber : spec.type = .number
    · by_cases hempty : isEmptyText given
      · simp only [usedValue, parseParam, hnumber, hempty, and_self, if_true, hdefault]
        cases spec.default with
        | none => simp [Value.toNumber]
        | some used => simp
      · simp only [usedValue, parseParam, hnumber, hempty, if_true, if_false, and_false,
          Bool.false_eq_true, Option.some.injEq, forall_eq', ← toNumber_ok_iff]
        constructor
        · rintro ⟨x, hx⟩
          refine ⟨some (.number x), by rw [hx]; rfl, fun v hv => ?_⟩
          obtain rfl := Option.some.inj hv
          exact ⟨x, rfl⟩
        · rintro ⟨value, hvalue, -⟩
          obtain ⟨x, hx, -⟩ := bind_eq_ok_iff.mp hvalue
          exact ⟨x, hx⟩
    · simp [usedValue, parseParam, hnumber, ← toNumber_ok_iff, Value.toNumber]

/-- What is entered is the value that the parameter is to have, or `undefined` for none. -/
theorem maps_of_parseParam (h : parseParam spec input = .ok value) :
    Maps spec input (value.filter fun v => !v.isUndefined) := by
  have hdefault : (spec.default.map Value.json).filter (fun v => !v.isUndefined) =
      spec.default.map .json := by
    cases spec.default <;> rfl
  cases input with
  | none =>
    obtain rfl := Except.ok.inj h
    exact hdefault
  | some given =>
    rw [parseParam] at h
    rw [Maps]
    by_cases hnumber : spec.type = .number
    · rw [if_pos hnumber] at h ⊢
      by_cases hempty : isEmptyText given = true
      · rw [if_pos hempty] at h ⊢
        obtain rfl := Except.ok.inj h
        cases spec.default <;> rfl
      · rw [if_neg hempty] at h ⊢
        obtain ⟨x, hx, h⟩ := bind_eq_ok_iff.mp h
        obtain rfl := pure_eq_ok_iff.mp h
        exact ⟨x, hx, rfl⟩
    · rw [if_neg hnumber] at h ⊢
      obtain rfl := Except.ok.inj h
      rfl

/-- Something is entered for what is given, or has a default. -/
theorem isSome_of_parseParam (h : parseParam spec input = .ok value)
    (hsome : input.isSome ∨ spec.default.isSome) : value.isSome := by
  cases input with
  | none =>
    obtain rfl := Except.ok.inj h
    simpa using hsome
  | some given =>
    simp only [parseParam] at h
    split_ifs at h
    · obtain rfl := Except.ok.inj h
      rfl
    · obtain ⟨x, -, h⟩ := bind_eq_ok_iff.mp h
      obtain rfl := pure_eq_ok_iff.mp h
      rfl
    · obtain rfl := Except.ok.inj h
      rfl

end Param

/-! ### All parameters -/

section Params

variable {R E : Type} {swaggerParams : AList fun _ : String => Value} {inputParams : InputParams}
  {specs : RouteSpec R} {key : String}

/-- `parseParams` takes over the values that `Number` does not throw at. -/
theorem validParam_ok_iff : (∃ value, validParam swaggerParams key = .ok value) ↔
    ∀ v, swaggerParams.lookup key = some v → ∃ x, v.toNumber = .ok x := by
  rw [validParam]
  cases swaggerParams.lookup key with
  | none => simp
  | some v =>
    simp only [Option.some.injEq, forall_eq']
    constructor
    · rintro ⟨value, hvalue⟩
      obtain ⟨x, hx, -⟩ := bind_eq_ok_iff.mp hvalue
      exact ⟨x, hx⟩
    · rintro ⟨x, hx⟩
      refine ⟨some v, ?_⟩
      rw [hx]
      cases x <;> rfl

theorem eq_of_validParam {value : Option Value} (h : validParam swaggerParams key = .ok value) :
    value = swaggerParams.lookup key := by
  rw [validParam] at h
  cases hlookup : swaggerParams.lookup key with
  | none =>
    rw [hlookup] at h
    exact (Except.ok.inj h).symm
  | some v =>
    rw [hlookup] at h
    obtain ⟨x, hx, h⟩ := bind_eq_ok_iff.mp h
    obtain ⟨y, hy, h⟩ := bind_eq_ok_iff.mp h
    split_ifs at h <;> exact (pure_eq_ok_iff.mp h).symm

theorem mem_validParamsList : key ∈ validParamsList swaggerParams ↔
    ∃ v, swaggerParams.lookup key = some v ∧ v.isUndefined = false := by
  rw [validParamsList, List.mem_filter, ← AList.mem_keys, ← AList.lookup_isSome]
  cases swaggerParams.lookup key <;> simp

theorem mem_invalidParams : key ∈ invalidParams swaggerParams inputParams ↔
    key ≠ "__proto__" ∧ key ∉ swaggerParams ∧ key ∈ inputParams := by
  rw [invalidParams, mem_reduceKeys, AList.lookup_isSome]
  simp only [List.mem_filter, List.mem_dedup, List.mem_append, ← AList.mem_keys,
    List.contains_iff_mem, Bool.not_eq_true', Bool.eq_false_iff, ne_eq]
  tauto

/-- The values that are taken over, if `Number` throws at nothing. -/
theorem parseParams_ok (h : ∀ key v, swaggerParams.lookup key = some v → ∃ x, v.toNumber = .ok x) :
    parseParams swaggerParams inputParams =
      .ok (reduceKeys (fun key => swaggerParams.lookup key) (validParamsList swaggerParams),
        invalidParams swaggerParams inputParams) := by
  have hvalid : ∀ key ∈ validParamsList swaggerParams,
      validParam swaggerParams key = .ok (swaggerParams.lookup key) := by
    intro key _
    obtain ⟨value, hvalue⟩ := validParam_ok_iff.mpr (h key)
    rw [hvalue, eq_of_validParam hvalue]
  rw [parseParams, reduceKeysM_of_ok hvalid]
  rfl

theorem lookup_valid (hproto : key ≠ "__proto__") :
    (reduceKeys (fun key => swaggerParams.lookup key) (validParamsList swaggerParams)).lookup key =
      (swaggerParams.lookup key).filter fun v => !v.isUndefined := by
  have hmem : key ∈ validParamsList swaggerParams ↔
      ∃ v, swaggerParams.lookup key = some v ∧ v.isUndefined = false := mem_validParamsList
  rw [lookup_reduceKeys]
  cases hlookup : swaggerParams.lookup key with
  | none => simp
  | some v =>
    rw [hlookup] at hmem
    cases hv : v.isUndefined <;> simp [hmem, hv, hproto, Option.filter]

theorem mem_of_lookup {spec : ParamSpec R} (hspec : specs.params.lookup key = some spec) :
    key ∈ specs.params :=
  AList.lookup_isSome.mp (by rw [hspec]; rfl)

/-- Every object has `__proto__`, so that no route has a parameter of this name. -/
theorem ne_proto (hmem : key ∈ specs.params) : key ≠ "__proto__" := by
  rintro rfl
  exact specs.own _ hmem (by decide)

/-- What `parseAllParams` has made of the parameters of the route. -/
structure Entered (specs : RouteSpec R) (inputParams : InputParams)
    (swaggerParams : AList fun _ : String => Value) : Prop where
  own : ∀ key, key ∉ specs.params → key ∉ swaggerParams
  parsed : ∀ key spec, specs.params.lookup key = some spec → ∃ value,
    parseParam spec (inputParams.lookup key) = .ok value ∧ swaggerParams.lookup key = value

/-- What `parseAllParams` enters, if `Number` throws at nothing. -/
theorem parseAllParams_ok (h : ∀ key spec value, specs.params.lookup key = some spec →
      usedValue spec (inputParams.lookup key) = some value → hasToString value = false) :
    ∃ swaggerParams, parseAllParams specs.params inputParams = .ok swaggerParams ∧
      (∀ key v, swaggerParams.lookup key = some v → ∃ x, v.toNumber = .ok x) ∧
      Entered specs inputParams swaggerParams := by
  -- What is entered for a key, if there is no exception.
  have hstep : ∀ key, ∃ value, (match specs.params.lookup key with
      | none => .ok none
      | some spec => parseParam spec (inputParams.lookup key)) = Except.ok value ∧
        ∀ v, value = some v → ∃ x, v.toNumber = .ok x := by
    intro key
    cases hspec : specs.params.lookup key with
    | none => exact ⟨none, rfl, by simp⟩
    | some spec => exact parseParam_ok_iff.mp (h key spec · hspec)
  choose f hf using hstep
  have hlookup : ∀ key, (reduceKeys f specs.params.keys).lookup key =
      if key ∈ specs.params.keys ∧ key ≠ "__proto__" then f key else none :=
    fun key => lookup_reduceKeys
  refine ⟨_, reduceKeysM_of_ok fun key _ => (hf key).1, fun key v hv => ?_, fun key hkey => ?_,
    fun key spec hspec => ⟨f key, ?_, ?_⟩⟩
  · rw [hlookup] at hv
    split_ifs at hv
    exact (hf key).2 v hv
  · rw [← AList.lookup_eq_none, hlookup, if_neg fun hmem => hkey hmem.1]
  · have hkey := (hf key).1
    rwa [hspec] at hkey
  · have hmem := mem_of_lookup hspec
    rw [hlookup, if_pos ⟨hmem, ne_proto hmem⟩]

/-- Conversely, `Number` has thrown at nothing. -/
theorem values_of_ok {result : (AList fun _ : String => Value) × InputParams}
    {input : InputParams} (hall : parseAllParams specs.params inputParams = .ok swaggerParams)
    (hparse : parseParams swaggerParams input = .ok result) {spec : ParamSpec R} {value : Json}
    (hspec : specs.params.lookup key = some spec)
    (hvalue : usedValue spec (inputParams.lookup key) = some value) :
    hasToString value = false := by
  have hmem := mem_of_lookup hspec
  -- The parameter has been entered, and has been taken over unless it is `undefined`.
  obtain ⟨f, hf, rfl⟩ := exists_of_reduceKeysM hall
  have hentered : parseParam spec (inputParams.lookup key) = .ok (f key) := by
    have hkey := hf key hmem
    rwa [hspec] at hkey
  have hlookup : (reduceKeys f specs.params.keys).lookup key = f key := by
    rw [lookup_reduceKeys, if_pos ⟨hmem, ne_proto hmem⟩]
  refine parseParam_ok_iff.mpr ⟨f key, hentered, fun v hv => ?_⟩ value hvalue
  cases hundefined : v.isUndefined with
  | true =>
    cases v with
    | undefined => exact ⟨none, rfl⟩
    | _ => simp [Value.isUndefined] at hundefined
  | false =>
    obtain ⟨valid, hvalid, -⟩ := bind_eq_ok_iff.mp hparse
    obtain ⟨f', hf', -⟩ := exists_of_reduceKeysM hvalid
    have htaken := hf' key (mem_validParamsList.mpr ⟨v, hlookup.trans hv, hundefined⟩)
    exact validParam_ok_iff.mp ⟨_, htaken⟩ v (hlookup.trans hv)

end Params

/-! ### The report -/

section Report

variable {R E : Type} {specs : RouteSpec R} {inputParams : InputParams} {key : String}
  {validator : InputParams → (AList fun _ : String => ParamSpec R) → List E}
  {report : ParamReport E}

theorem mem_checkMissingParams : key ∈ checkMissingParams specs.params inputParams ↔
    (∃ spec, specs.params.lookup key = some spec ∧ spec.required = true) ∧ key ∉ inputParams := by
  rw [checkMissingParams, arrDiff, List.mem_filter, List.mem_filter, ← AList.mem_keys,
    ← AList.lookup_isSome]
  simp only [Bool.not_eq_true', Bool.eq_false_iff, ne_eq, List.contains_iff_mem, ← AList.mem_keys]
  cases specs.params.lookup key <;> simp

/-- Equally many keys, all of them among the others, are the same keys. -/
theorem length_beq_and_all_iff {arr keys : List String} (harr : arr.Nodup) (hkeys : keys.Nodup) :
    (arr.length == keys.length && arr.all fun el => keys.contains el) = true ↔
      ∀ key, key ∈ arr ↔ key ∈ keys := by
  simp only [Bool.and_eq_true, beq_iff_eq, List.all_eq_true, List.contains_iff_mem]
  rw [← List.perm_ext_iff_of_nodup harr hkeys]
  constructor
  · rintro ⟨hlength, hsubset⟩
    exact (List.subperm_of_subset harr hsubset).perm_of_length_le hlength.ge
  · intro hperm
    exact ⟨hperm.length_eq, fun el hel => hperm.mem_iff.mp hel⟩

/-- A violation is reported if there is one, and something to report. -/
theorem validateFromParamPairings_ne_nil_iff :
    validateFromParamPairings specs.paramsRequired inputParams.keys specs.validParamPairings ≠ [] ↔
      specs.paramsRequired = true ∧ specs.validParamPairings ≠ [] ∧
        ¬ IsCombination specs inputParams := by
  have hmatch : (specs.validParamPairings.any fun arr =>
      arr.1.length == (inputParams.keys.filter fun element =>
        specs.validParamPairings.any fun subArray => subArray.1.contains element).length &&
      arr.1.all fun el => (inputParams.keys.filter fun element =>
        specs.validParamPairings.any fun subArray => subArray.1.contains element).contains el) =
      true ↔ IsCombination specs inputParams := by
    rw [List.any_eq_true, IsCombination]
    refine exists_congr fun arr => and_congr_right fun _ => ?_
    rw [length_beq_and_all_iff arr.2 ((AList.keys_nodup inputParams).filter _)]
    simp [List.mem_filter, AList.mem_keys]
  rw [validateFromParamPairings]
  cases specs.paramsRequired with
  | false => simp
  | true =>
    simp only [Bool.not_true, Bool.false_eq_true, if_false, true_and]
    split_ifs with h
    · exact iff_of_false (by simp) fun hnot => hnot.2 (hmatch.mp h)
    · exact (and_iff_left fun hcombination => h (hmatch.mpr hcombination)).symm

/-- The four parts of a report, whether the validator is asked or not. -/
theorem validateInputParams_eq_ok_iff : (∃ report, validateInputParams validator inputParams specs =
      .ok report ∧ report.Exact specs inputParams) ↔
    ∃ swaggerParams valid unknown, parseAllParams specs.params inputParams = .ok swaggerParams ∧
      parseParams swaggerParams (inputParams ∪ parseDefaultParams specs.params) =
        .ok (valid, unknown) ∧
      ParamReport.Exact (E := E) ⟨valid, unknown,
        validateFromParamPairings specs.paramsRequired inputParams.keys specs.validParamPairings,
        checkMissingParams specs.params inputParams, none⟩ specs inputParams := by
  constructor
  · rintro ⟨report, hreport, h⟩
    obtain ⟨swaggerParams, hall, hreport⟩ := bind_eq_ok_iff.mp hreport
    obtain ⟨⟨valid, unknown⟩, hparse, hreport⟩ := bind_eq_ok_iff.mp hreport
    obtain rfl := pure_eq_ok_iff.mp hreport
    exact ⟨swaggerParams, valid, unknown, hall, hparse, h.unknown, h.missing, h.required, h.valid⟩
  · rintro ⟨swaggerParams, valid, unknown, hall, hparse, h⟩
    refine ⟨_, bind_eq_ok_iff.mpr ⟨swaggerParams, hall, bind_eq_ok_iff.mpr
      ⟨(valid, unknown), hparse, rfl⟩⟩, ?_⟩
    exact ⟨h.unknown, h.missing, h.required, h.valid⟩

/-- A default is of a parameter of the route. -/
theorem mem_parseDefaultParams : key ∈ parseDefaultParams specs.params ↔
    ∃ spec, specs.params.lookup key = some spec ∧ spec.default.isSome := by
  rw [parseDefaultParams, mem_reduceKeys, ← AList.mem_keys, ← AList.lookup_isSome]
  cases hspec : specs.params.lookup key with
  | none => simp
  | some spec => simp [ne_proto (mem_of_lookup hspec)]

/-- Without `__proto__` in the request, what is not the route's is reported as unknown. -/
theorem mem_invalidParams_iff (hproto : "__proto__" ∉ inputParams)
    {swaggerParams : AList fun _ : String => Value}
    (hentered : Entered specs inputParams swaggerParams) :
    key ∈ invalidParams swaggerParams (inputParams ∪ parseDefaultParams specs.params) ↔
      key ∈ inputParams ∧ key ∉ specs.params := by
  rw [mem_invalidParams, AList.mem_union, mem_parseDefaultParams]
  constructor
  · rintro ⟨-, hmem, hgiven⟩
    have hspec : key ∉ specs.params := by
      intro hspec
      obtain ⟨spec, hspec⟩ := Option.isSome_iff_exists.mp (AList.lookup_isSome.mpr hspec)
      obtain ⟨value, hvalue, hlookup⟩ := hentered.parsed key spec hspec
      refine hmem (AList.lookup_isSome.mp ?_)
      rw [hlookup]
      refine isSome_of_parseParam hvalue (hgiven.imp AList.lookup_isSome.mpr ?_)
      rintro ⟨spec', hspec', hdefault⟩
      obtain rfl := Option.some.inj (hspec.symm.trans hspec')
      exact hdefault
    refine ⟨hgiven.resolve_right ?_, hspec⟩
    rintro ⟨spec, hlookup, -⟩
    exact hspec (mem_of_lookup hlookup)
  · rintro ⟨hmem, hspec⟩
    exact ⟨fun hkey => hproto (hkey ▸ hmem), hentered.own key hspec, .inl hmem⟩

/-- The values that are taken over are those of the parameters of the route. -/
theorem Entered.lookup_valid {swaggerParams : AList fun _ : String => Value}
    (hentered : Entered specs inputParams swaggerParams) (key : String) :
    let valid := reduceKeys (fun key => swaggerParams.lookup key) (validParamsList swaggerParams)
    match specs.params.lookup key with
    | none => key ∉ valid
    | some spec => Maps spec (inputParams.lookup key) (valid.lookup key) := by
  cases hspec : specs.params.lookup key with
  | none =>
    refine fun hvalid => hentered.own key (AList.lookup_eq_none.mp hspec) ?_
    obtain ⟨v, hv, -⟩ := mem_validParamsList.mp (mem_reduceKeys.mp hvalid).1
    exact AList.lookup_isSome.mp (by rw [hv]; rfl)
  | some spec =>
    obtain ⟨value, hvalue, hlookup⟩ := hentered.parsed key spec hspec
    simp only [ParamValidator.lookup_valid (ne_proto (mem_of_lookup hspec)), hlookup]
    exact maps_of_parseParam hvalue

/-- **When a report is right.** -/
theorem validate_exact_iff : (∃ report, validateInputParams validator inputParams specs =
      .ok report ∧ report.Exact specs inputParams) ↔ Reportable specs inputParams := by
  rw [validateInputParams_eq_ok_iff]
  constructor
  · rintro ⟨swaggerParams, valid, unknown, hall, hparse, h⟩
    refine ⟨fun hproto => ?_, fun hrequired hnil => ?_, fun key spec value hspec hvalue =>
      values_of_ok hall hparse hspec hvalue⟩
    · -- It is given and not one of the route's, but cannot be entered.
      obtain ⟨validParams, -, hpair⟩ := bind_eq_ok_iff.mp hparse
      obtain ⟨-, rfl⟩ := Prod.mk.inj (pure_eq_ok_iff.mp hpair)
      have hmem := (h.unknown "__proto__").mpr
        ⟨hproto, fun hspec => specs.own _ hspec (by decide)⟩
      exact (mem_invalidParams.mp hmem).1 rfl
    · have hnot : ¬ IsCombination specs inputParams := by
        rintro ⟨pairing, hpairing, -⟩
        rw [hnil] at hpairing
        exact List.not_mem_nil hpairing
      exact (validateFromParamPairings_ne_nil_iff.mp (h.required.mpr ⟨hrequired, hnot⟩)).2.1 hnil
  · rintro ⟨hproto, hpairings, hvalues⟩
    obtain ⟨swaggerParams, hall, hnumber, hentered⟩ := parseAllParams_ok hvalues
    refine ⟨swaggerParams, _, _, hall, parseParams_ok hnumber, ?_⟩
    refine ⟨fun key => mem_invalidParams_iff hproto hentered, fun key => mem_checkMissingParams, ?_,
      fun _ _ _ key => hentered.lookup_valid key⟩
    rw [validateFromParamPairings_ne_nil_iff]
    exact ⟨fun h => ⟨h.1, h.2.2⟩, fun h => ⟨h.1, hpairings h.1, h.2⟩⟩

/-- A route without parameters. -/
def bareRoute : RouteSpec Unit where
  params := ∅
  own := fun key hkey => absurd hkey (AList.notMem_empty key)

/-- The request `{ "__proto__": 1 }`. -/
def protoParams : InputParams := AList.singleton "__proto__" (.leaf (.number 1))

/-- The parameter is not among the unknown ones. -/
theorem proto_not_reported :
    validateInputParams (fun _ _ => ([] : List Unit)) protoParams bareRoute =
        .ok ⟨∅, ∅, [], [], some []⟩ ∧
      ¬ ∃ report, validateInputParams (fun _ _ => ([] : List Unit)) protoParams bareRoute =
        .ok report ∧ report.Exact bareRoute protoParams := by
  have hreport : validateInputParams (fun _ _ => ([] : List Unit)) protoParams bareRoute =
      .ok ⟨∅, ∅, [], [], some []⟩ := rfl
  refine ⟨hreport, ?_⟩
  rintro ⟨report, hok, hexact⟩
  obtain rfl := Except.ok.inj (hreport.symm.trans hok)
  have hgiven : "__proto__" ∈ protoParams := AList.mem_keys.mpr (List.mem_singleton.mpr rfl)
  exact AList.notMem_empty _ ((hexact.unknown "__proto__").mpr ⟨hgiven, AList.notMem_empty _⟩)

end Report

end ParamValidator

end SwaptoshiService
