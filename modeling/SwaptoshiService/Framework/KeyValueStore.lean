import Mathlib.Data.List.Basic
import Mathlib.Data.List.Induction
import SwaptoshiService.Framework.NumberText

/-!
# The key-value store

`kvStore.js` keeps values of five types in a table of texts: a row has the key, the text of the
value, and the name of its type, by which `formatValue` makes a value of the text again. The
inverse of `String` is not what the function of the type's name does for each type:
`Boolean('false')` is **true**, as for any text that is not empty.

`get_eq_lastValue_iff`: a key has the value that was set last, after every call of a run, if and
only if it is never set to `false`. The columns have 255 characters, and a longer text is refused;
which keys are the same is decided by the collation of the table.
-/

namespace SwaptoshiService

namespace KeyValueStore

/-! ### Values -/

/-- A value of an allowed type. -/
inductive Value
  | boolean (b : Bool)
  | number (x : Option JsNumber)
  | bigint (z : ℤ)
  | string (s : String)
  | undefined
deriving DecidableEq

/-- A number is one of the language. -/
def Value.IsValue : Value → Prop
  | .number x => IsNumber x
  | _ => True

/-- `KV_STORE_ALLOWED_VALUE_TYPES`. -/
inductive ValueType
  | boolean
  | number
  | bigint
  | string
  | undefined
deriving DecidableEq

/-- `typeof value`. -/
def Value.typeof : Value → ValueType
  | .boolean _ => .boolean
  | .number _ => .number
  | .bigint _ => .bigint
  | .string _ => .string
  | .undefined => .undefined

/-- `value === undefined ? value : String(value)`, as it is cast for its column: `undefined` is
`NULL`. -/
def Value.text : Value → Option String
  | .boolean b => some (if b then "true" else "false")
  | .number x => some (numberText x)
  | .bigint z => some (toString z)
  | .string s => some s
  | .undefined => none

/-- `formatValue(value, type)`. -/
def formatValue (value : Option String) (type : ValueType) : Except String Value :=
  match type, value with
  | .boolean, value => .ok (.boolean (value.any (· ≠ "")))
  | .number, some text => .ok (.number (numberOf text.toList))
  | .number, none => .ok (.number (some (JsNumber.ofRat 0)))
  | .bigint, some text =>
    (bigIntOf text.toList).elim (.error ("Cannot convert " ++ text ++ " to a BigInt"))
      fun z => .ok (.bigint z)
  | .bigint, none => .error "Cannot convert null to a BigInt"
  | .string, value => .ok (.string (value.getD "null"))
  | .undefined, _ => .ok .undefined

/-- What comes back for a value. -/
def Value.readBack : Value → Value
  | .boolean _ => .boolean true
  | value => value

theorem formatValue_text {value : Value} (h : value.IsValue) :
    formatValue value.text value.typeof = .ok value.readBack := by
  cases value with
  | boolean b => cases b <;> rfl
  | number x => exact congrArg (fun x => Except.ok (Value.number x)) (numberOf_numberText h)
  | bigint z =>
    have hread := bigIntOf_toString z
    rw [Value.text, Value.typeof, formatValue, hread]
    rfl
  | string s => rfl
  | undefined => rfl

theorem readBack_eq_iff {value : Value} : value.readBack = value ↔ value ≠ .boolean false := by
  cases value with
  | boolean b => cases b <;> simp [Value.readBack]
  | number x => simp [Value.readBack]
  | bigint z => simp [Value.readBack]
  | string s => simp [Value.readBack]
  | undefined => simp [Value.readBack]

/-! ### The table -/

/-- A row of `key_value_store`. -/
structure Row where
  key : String
  value : Option String
  type : ValueType

/-- The rows; texts of the same weight are the same primary key. -/
abbrev Table (W : Type) := W → Option Row

/-- The text fits into a column. -/
def fits (text : String) : Bool := text.length ≤ 255

section Store

variable {W : Type} [DecidableEq W] (weight : String → W) (keyPrefix : String)

/-- The key of a row. -/
def storedKey (key : String) : String := keyPrefix ++ "_" ++ key

/-- `set(key, value)`. -/
def set (t : Table W) (key : String) (value : Value) : Except String (Table W) :=
  let row : Row := ⟨storedKey keyPrefix key, value.text, value.typeof⟩
  if ¬ fits row.key then .error "Data too long for column 'key'"
  else if ¬ row.value.all fits then .error "Data too long for column 'value'"
  else .ok (Function.update t (weight row.key) (some row))

/-- `get(key)`. -/
def get (t : Table W) (key : String) : Except String Value :=
  match t (weight (storedKey keyPrefix key)) with
  | some row => formatValue row.value row.type
  | none => .ok .undefined

/-- `deleteKey(key)`. -/
def deleteKey (t : Table W) (key : String) : Table W :=
  Function.update t (weight (storedKey keyPrefix key)) none

/-! ### Runs -/

/-- A call. -/
inductive Call
  | set (key : String) (value : { value : Value // value.IsValue })
  | get (key : String)
  | delete (key : String)

/-- The key of a call. -/
def Call.key : Call → String
  | .set key _ | .get key | .delete key => key

/-- The table after a call; a call that throws is rolled back. -/
def step (t : Table W) : Call → Table W
  | .set key value => (set weight keyPrefix t key value).toOption.getD t
  | .get _ => t
  | .delete key => deleteKey weight keyPrefix t key

/-- The table after a run. -/
def run (calls : List Call) : Table W := calls.foldl (step weight keyPrefix) fun _ => none

/-- The value is set. -/
def accepted (key : String) (value : Value) : Bool :=
  fits (storedKey keyPrefix key) && value.text.all fits

/-- The value of a key after one more call. -/
def Call.update (key : String) (last : Value) : Call → Value
  | .set key' value => if key' = key ∧ accepted keyPrefix key' value then value else last
  | .get _ => last
  | .delete key' => if key' = key then .undefined else last

/-- **The value that was set last**, and `undefined` if there is none or the key was deleted
since. -/
def lastValue (key : String) (calls : List Call) : Value :=
  calls.foldl (Call.update keyPrefix key) .undefined

end Store

/-! ### What a call does -/

section Calls

variable {W : Type} [DecidableEq W] {weight : String → W} {keyPrefix key : String} {t : Table W}
  {calls : List Call} {call : Call}

theorem storedKey_inj {key key' : String} :
    storedKey keyPrefix key = storedKey keyPrefix key' ↔ key = key' := by
  refine ⟨fun h => ?_, fun h => by rw [h]⟩
  have htext := congrArg String.toList h
  simp only [storedKey, String.toList_append] at htext
  exact String.toList_inj.mp (List.append_cancel_left htext)

theorem set_eq (t : Table W) (key : String) (value : Value) :
    (set weight keyPrefix t key value).toOption.getD t =
      if accepted keyPrefix key value then Function.update t (weight (storedKey keyPrefix key))
        (some ⟨storedKey keyPrefix key, value.text, value.typeof⟩)
      else t := by
  rw [set, accepted]
  by_cases hkey : fits (storedKey keyPrefix key) = true
  · by_cases hvalue : value.text.all fits = true
    · simp [hkey, hvalue, Except.toOption]
    · simp [hkey, hvalue, Except.toOption]
  · simp [hkey, Except.toOption]

/-- A call changes the row of its own key only. -/
theorem step_of_ne {w : W} (h : weight (storedKey keyPrefix call.key) ≠ w) :
    step weight keyPrefix t call w = t w := by
  cases call with
  | set key value =>
    rw [step, set_eq]
    split_ifs
    · exact Function.update_of_ne (Ne.symm h) _ _
    · rfl
  | get key => rfl
  | delete key => exact Function.update_of_ne (Ne.symm h) _ _

/-- One call, for a key that is told from the others. -/
theorem get_step {last : Value} (hkey : weight (storedKey keyPrefix call.key) =
      weight (storedKey keyPrefix key) → call.key = key)
    (hget : get weight keyPrefix t key = .ok last.readBack) :
    get weight keyPrefix (step weight keyPrefix t call) key =
      .ok (call.update keyPrefix key last).readBack := by
  by_cases hweight : weight (storedKey keyPrefix call.key) = weight (storedKey keyPrefix key)
  · obtain rfl := hkey hweight
    cases call with
    | set key value =>
      rw [step, set_eq, Call.update]
      by_cases haccepted : accepted keyPrefix key value = true
      · rw [if_pos haccepted, if_pos ⟨rfl, haccepted⟩, get, Call.key, Function.update_self]
        exact formatValue_text value.2
      · rw [if_neg haccepted, if_neg fun h => haccepted h.2]
        exact hget
    | get key => exact hget
    | delete key =>
      rw [step, deleteKey, get, Call.key, Function.update_self, Call.update, if_pos rfl]
      rfl
  · -- The row of the key stays, and so does what was set last.
    have hne : call.key ≠ key := fun heq => hweight (by rw [heq])
    have hupdate : call.update keyPrefix key last = last := by
      cases call with
      | set key' value => exact if_neg fun h => hne h.1
      | get key' => rfl
      | delete key' => exact if_neg hne
    rw [hupdate, get, step_of_ne hweight]
    exact hget

/-- A run: the value that was set last is read back. -/
theorem get_run (hkeys : ∀ call ∈ calls, weight (storedKey keyPrefix call.key) =
      weight (storedKey keyPrefix key) → call.key = key) :
    get weight keyPrefix (run weight keyPrefix calls) key =
      .ok (lastValue keyPrefix key calls).readBack := by
  induction calls using List.reverseRecOn with
  | nil => rfl
  | append_singleton calls call ih =>
    rw [run, lastValue, List.foldl_concat, List.foldl_concat]
    exact get_step (hkeys call (by simp)) (ih fun call hcall => hkeys call (by simp [hcall]))

theorem lastValue_cases (keyPrefix key : String) (calls : List Call) :
    lastValue keyPrefix key calls = .undefined ∨ ∃ value, Call.set key value ∈ calls ∧
      accepted keyPrefix key value = true ∧ lastValue keyPrefix key calls = value := by
  induction calls using List.reverseRecOn with
  | nil => exact .inl rfl
  | append_singleton calls call ih =>
    rw [lastValue, List.foldl_concat, ← lastValue]
    have hkept : lastValue keyPrefix key calls = .undefined ∨ ∃ value,
        Call.set key value ∈ calls ++ [call] ∧ accepted keyPrefix key value = true ∧
          lastValue keyPrefix key calls = value := by
      refine ih.imp_right fun ⟨value, hset, haccepted, hlast⟩ => ⟨value, ?_, haccepted, hlast⟩
      exact List.mem_append_left _ hset
    cases call with
    | set key' value =>
      rw [Call.update]
      split_ifs with h
      · obtain ⟨rfl, haccepted⟩ := h
        exact .inr ⟨value, by simp, haccepted, rfl⟩
      · exact hkept
    | get key' => exact hkept
    | delete key' =>
      rw [Call.update]
      split_ifs
      · exact .inl rfl
      · exact hkept

/-- **When the store keeps what it is given**: after each call of a run a key has the value that was
set last if and only if it is never set to `false`. -/
theorem get_eq_lastValue_iff (hkeys : ∀ call ∈ calls, weight (storedKey keyPrefix call.key) =
      weight (storedKey keyPrefix key) → call.key = key) :
    (∀ calls', calls' <+: calls → get weight keyPrefix (run weight keyPrefix calls') key =
        .ok (lastValue keyPrefix key calls')) ↔
      ∀ value, Call.set key value ∈ calls → accepted keyPrefix key value = true →
        value.1 ≠ .boolean false := by
  have hrun : ∀ calls', calls' <+: calls → (get weight keyPrefix (run weight keyPrefix calls') key =
      .ok (lastValue keyPrefix key calls') ↔ lastValue keyPrefix key calls' ≠ .boolean false) := by
    intro calls' hcalls
    rw [get_run fun call hcall => hkeys call (hcalls.subset hcall), Except.ok.injEq,
      readBack_eq_iff]
  constructor
  · rintro h value hset haccepted hfalse
    -- Right after the call that sets `false` the key has another value.
    obtain ⟨before, after, rfl⟩ := List.append_of_mem hset
    have hcalls : before ++ [Call.set key value] <+: before ++ Call.set key value :: after :=
      ⟨after, by simp⟩
    refine (hrun _ hcalls).mp (h _ hcalls) ?_
    rw [lastValue, List.foldl_concat, Call.update, if_pos ⟨rfl, haccepted⟩, hfalse]
  · intro h calls' hcalls
    rw [hrun calls' hcalls]
    rcases lastValue_cases keyPrefix key calls' with hlast | ⟨value, hset, haccepted, hlast⟩
    · rw [hlast]
      simp
    · rw [hlast]
      exact h value (hcalls.subset hset) haccepted

end Calls

/-! ### A store with the default prefix -/

/-- The height up to which events were deleted. -/
def deletedHeight : { value : Value // value.IsValue } :=
  ⟨.number (some (JsNumber.ofRat 17)), by
    intro q hq
    obtain rfl := WithTop.coe_inj.mp (WithBot.coe_inj.mp (Option.some.inj hq))
    exact_mod_cast nearestDouble_intCast (n := 17) (by norm_num)⟩

/-- A run with several keys. -/
def demoCalls : List Call :=
  [.set "lastDeletedEventsHeight" deletedHeight, .set "isSynced" ⟨.boolean true, trivial⟩,
    .set "lockedAmount" ⟨.bigint 12345678901234567890, trivial⟩, .delete "lockedAmount",
    .get "lastDeletedEventsHeight"]

/-- Each call leaves the height as it is. -/
theorem get_deletedHeight :
    (∀ call ∈ demoCalls, storedKey "default" call.key =
        storedKey "default" "lastDeletedEventsHeight" → call.key = "lastDeletedEventsHeight") ∧
      ∀ calls', calls' <+: demoCalls →
        get id "default" (run id "default" calls') "lastDeletedEventsHeight" =
          .ok (lastValue "default" "lastDeletedEventsHeight" calls') := by
  have hkeys : ∀ call ∈ demoCalls, id (storedKey "default" call.key) =
      id (storedKey "default" "lastDeletedEventsHeight") → call.key = "lastDeletedEventsHeight" :=
    fun call _ => storedKey_inj.mp
  refine ⟨hkeys, (get_eq_lastValue_iff hkeys).mpr fun value hset _ => ?_⟩
  have hvalue : value = deletedHeight := by simpa [demoCalls] using hset
  rw [hvalue]
  exact Value.noConfusion

/-- `false` comes back as `true`; and where the collation does not tell capital letters, a key
changes with another one. -/
theorem false_and_same_keys :
    get id "default" (run id "default" [.set "isSynced" ⟨.boolean false, trivial⟩]) "isSynced" =
        .ok (.boolean true) ∧
      lastValue "default" "isSynced" [.set "isSynced" ⟨.boolean false, trivial⟩] =
        .boolean false ∧
      get (fun text => text.toList.map Char.toLower) "default"
          (run (fun text => text.toList.map Char.toLower) "default"
            [.set "A" ⟨.string "x", trivial⟩]) "a" = .ok (.string "x") ∧
      lastValue "default" "a" [.set "A" ⟨.string "x", trivial⟩] = .undefined := by
  decide +kernel

end KeyValueStore

end SwaptoshiService
