import ServerBox.Std.Json
import Mathlib.Data.List.TakeDrop

/-!
# Values of an app's component as JSON

What `apps/value.rs` does between the component model and JSON: which types it offers, and
the two directions by the types of the interface.
-/

namespace ServerBox.Monitor.AppValue

open ServerBox.Std

/-- A word of a label: lower case or upper case throughout, a letter first. -/
def isWord (text : Text) : Bool :=
  match text with
  | [] => false
  | first :: rest =>
      (first.isLower && rest.all fun char => char.isLower || char.isDigit) ||
        (first.isUpper && rest.all fun char => char.isUpper || char.isDigit)

/-- A label of an interface: words with `-` between them. -/
@[ext]
structure Label where
  text : Text
  kebab : (text.splitOn '-').all isWord = true
  deriving DecidableEq

inductive IntKind
  | s8
  | u8
  | s16
  | u16
  | s32
  | u32
  | s64
  | u64
  deriving DecidableEq

namespace IntKind

def low : IntKind → Int
  | s8 => -2 ^ 7
  | s16 => -2 ^ 15
  | s32 => -2 ^ 31
  | s64 => -2 ^ 63
  | _ => 0

def high : IntKind → Int
  | s8 => 2 ^ 7 - 1
  | u8 => 2 ^ 8 - 1
  | s16 => 2 ^ 15 - 1
  | u16 => 2 ^ 16 - 1
  | s32 => 2 ^ 31 - 1
  | u32 => 2 ^ 32 - 1
  | s64 => 2 ^ 63 - 1
  | u64 => 2 ^ 64 - 1

/-- The integers of a kind. -/
abbrev Value (kind : IntKind) := {value : Int // kind.low ≤ value ∧ value ≤ kind.high}

theorem bounded (kind : IntKind) (value : kind.Value) :
    -2 ^ 63 ≤ value.val ∧ value.val < 2 ^ 64 := by
  obtain ⟨value, least, most⟩ := value
  cases kind <;> simp only [low, high] at least most ⊢ <;> omega

/-- `TryFrom` of the wider integers. -/
def tryFrom (kind : IntKind) (value : Int) : Option kind.Value :=
  if bounds : kind.low ≤ value ∧ value ≤ kind.high then some ⟨value, bounds⟩ else none

end IntKind

/-- The types of an interface: `Type`. -/
inductive WitType
  | bool
  | int (kind : IntKind)
  | float32
  | float64
  | char
  | string
  | list (item : WitType)
  | fixedLengthList (item : WitType) (length : Nat)
  | record (fields : List (Label × WitType))
  | tuple (types : List WitType)
  | variant (cases : List (Label × Option WitType))
  | enum (names : List Label)
  | option (payload : WitType)
  | result (ok err : Option WitType)
  | flags (names : List Label)
  | map
  | own
  | borrow
  | future
  | stream
  | errorContext

/-- The values of a component: `Val`, with the handles that never cross as `other`. -/
inductive Val
  | bool (value : Bool)
  | int (kind : IntKind) (value : kind.Value)
  | float32 (value : F32)
  | float64 (value : F64)
  | char (value : Char)
  | string (value : Text)
  | list (items : List Val)
  | fixedLengthList (items : List Val)
  | record (fields : List (Text × Val))
  | tuple (items : List Val)
  | variant (name : Text) (payload : Option Val)
  | enum (name : Text)
  | option (payload : Option Val)
  | ok (payload : Option Val)
  | err (payload : Option Val)
  | flags (names : List Text)
  | other

/-- `camel`: a `-` is dropped and the character after it is raised. -/
def camel (name : Text) : Text := go false name
where
  go : Bool → Text → Text
    | _, [] => []
    | upper, char :: rest =>
        if char = '-' then go true rest
        else if upper then char.toUpper :: go false rest
        else char :: go false rest

def Label.camel (label : Label) : Text := AppValue.camel label.text

/-! ### The types on offer -/

def maxDepth : Nat := 64

def atDepth (depth : Nat) (answer : Except Text Unit) : Except Text Unit :=
  if depth > maxDepth then .error "nested too deep".toList else answer

mutual

/-- `check_at`: whether a type crosses as JSON. -/
def WitType.checkAt : WitType → Nat → Except Text Unit
  | .bool, depth | .int _, depth | .float32, depth | .float64, depth | .char, depth
  | .string, depth | .enum _, depth | .flags _, depth => atDepth depth (.ok ())
  | .list item, depth => atDepth depth (item.checkAt (depth + 1))
  | .fixedLengthList item _, depth => atDepth depth (item.checkAt (depth + 1))
  | .record fields, depth => atDepth depth (checkFields fields (depth + 1))
  | .tuple types, depth => atDepth depth (checkTypes types (depth + 1))
  | .variant cases, depth => atDepth depth (checkCases cases (depth + 1))
  | .option payload, depth =>
      atDepth depth <|
        match payload with
        | .option _ => .error "option<option<…>>".toList
        | inner => inner.checkAt (depth + 1)
  | .result ok err, depth =>
      atDepth depth do
        checkPayload ok (depth + 1)
        checkPayload err (depth + 1)
  | .map, depth => atDepth depth (.error "map".toList)
  | .own, depth | .borrow, depth => atDepth depth (.error "resource".toList)
  | .future, depth | .stream, depth | .errorContext, depth =>
      atDepth depth (.error "async value".toList)

def checkFields : List (Label × WitType) → Nat → Except Text Unit
  | [], _ => .ok ()
  | (_, ty) :: rest, depth => do
      ty.checkAt depth
      checkFields rest depth

def checkTypes : List WitType → Nat → Except Text Unit
  | [], _ => .ok ()
  | ty :: rest, depth => do
      ty.checkAt depth
      checkTypes rest depth

def checkCases : List (Label × Option WitType) → Nat → Except Text Unit
  | [], _ => .ok ()
  | (_, payload) :: rest, depth => do
      checkPayload payload depth
      checkCases rest depth

def checkPayload : Option WitType → Nat → Except Text Unit
  | none, _ => .ok ()
  | some ty, depth => ty.checkAt depth

end

def check (ty : WitType) : Except Text Unit := ty.checkAt 0

/-! ### From JSON -/

def wrong {Value : Type} (path what : Text) : Except Text Value :=
  .error (path ++ ": expected ".toList ++ what)

/-- `ok_or_else`. -/
def orError {Value : Type} (error : Except Text Value) : Option Value → Except Text Value
  | some value => .ok value
  | none => error

def expected {Value : Type} (path : Text) (what : String) (value : Option Value) :
    Except Text Value :=
  orError (wrong path what.toList) value

/-- `int`: the integers of the types offered, of JSON's two kinds. -/
def int (kind : IntKind) (json : Json) (path : Text) : Except Text kind.Value :=
  orError (.error (path ++ ": not an integer in range".toList)) <|
    match json.asU64 with
    | some value => kind.tryFrom value
    | none =>
        match json.asI64 with
        | some value => kind.tryFrom value
        | none => none

def inField (path name : Text) : Text := path ++ '.' :: name

def atIndex (path : Text) (index : Nat) : Text :=
  path ++ '[' :: (Text.decimal index ++ [']'])

/-- The items of an array, each read under its index. -/
def readItems (read : Json → Text → Except Text Val) (path : Text) :
    Nat → List Json → Except Text (List Val)
  | _, [] => .ok []
  | index, json :: rest => do
      let value ← read json (atIndex path index)
      let values ← readItems read path (index + 1) rest
      return value :: values

/-- The names of flags: each item by itself. -/
def readFlags (names : List Label) (path : Text) : List Json → Except Text (List Text)
  | [] => .ok []
  | json :: rest => do
      let text ← expected path "strings" json.asStr
      let label ← orError (.error (path ++ ": unknown flag ".toList ++ text))
        (names.find? (·.camel = text))
      let flags ← readFlags names path rest
      return label.text :: flags

def unknownField (fields : List (Label × WitType)) (object : JsonMap) : Option Text :=
  (object.map Prod.fst).find? fun key => !fields.any (·.1.camel = key)

mutual

/-- `from_json_at`: a JSON value as a type, or the path to what does not fit. -/
def WitType.fromJsonAt : WitType → Json → Text → Except Text Val
  | .bool, json, path => do return .bool (← expected path "a boolean" json.asBool)
  | .int kind, json, path => do return .int kind (← int kind json path)
  | .float32, json, path => do
      return .float32 ((← expected path "a number" json.asF64).convert .binary32)
  | .float64, json, path => do return .float64 (← expected path "a number" json.asF64)
  | .char, json, path => do
      match ← expected path "a character" json.asStr with
      | [char] => return .char char
      | _ => wrong path "one character".toList
  | .string, json, path => do return .string (← expected path "a string" json.asStr)
  | .list item, json, path => do
      let items ← expected path "an array" json.asArray
      return .list (← readItems (item.fromJsonAt · ·) path 0 items)
  | .fixedLengthList item length, json, path => do
      let items ← expected path "an array" json.asArray
      if items.length ≠ length then wrong path (Text.decimal length ++ " items".toList)
      else return .fixedLengthList (← readItems (item.fromJsonAt · ·) path 0 items)
  | .record fields, json, path => do
      let object ← expected path "an object" json.asObject
      match unknownField fields object with
      | some extra => .error (path ++ ": unknown field ".toList ++ extra)
      | none => return .record (← readFields fields object path)
  | .tuple types, json, path => do
      let items ← expected path "an array" json.asArray
      if items.length ≠ types.length then
        wrong path (Text.decimal types.length ++ " items".toList)
      else return .tuple (← readTypes types items path 0)
  | .variant cases, json, path => do
      let object ← expected path "{ tag, val }" json.asObject
      let tag ← expected path "a tag" ((JsonMap.get "tag".toList object).bind Json.asStr)
      readCase cases tag object path
  | .enum names, json, path => do
      let text ← expected path "a string" json.asStr
      let label ← orError (.error (path ++ ": unknown value ".toList ++ text))
        (names.find? (·.camel = text))
      return .enum label.text
  | .flags names, json, path => do
      let items ← expected path "an array" json.asArray
      return .flags (← readFlags names path items)
  | .option payload, json, path =>
      match json with
      | .null => .ok (.option none)
      | json => do return .option (some (← payload.fromJsonAt json path))
  | .result ok err, json, path => do
      let object ← expected path "{ ok } or { err }" json.asObject
      if (JsonMap.get "ok".toList object).isSome then
        return .ok (← readSide ok "ok".toList object path)
      else if (JsonMap.get "err".toList object).isSome then
        return .err (← readSide err "err".toList object path)
      else wrong path "{ ok } or { err }".toList
  | .map, _, path | .own, _, path | .borrow, _, path | .future, _, path | .stream, _, path
  | .errorContext, _, path => .error (path ++ ": not offered as JSON".toList)

/-- The fields of a record, each from the member of its name or from `null`. -/
def readFields : List (Label × WitType) → JsonMap → Text → Except Text (List (Text × Val))
  | [], _, _ => .ok []
  | (label, ty) :: rest, object, path => do
      let json := (JsonMap.get label.camel object).getD .null
      let value ← ty.fromJsonAt json (inField path label.camel)
      let values ← readFields rest object path
      return (label.text, value) :: values

def readTypes : List WitType → List Json → Text → Nat → Except Text (List Val)
  | ty :: types, json :: rest, path, index => do
      let value ← ty.fromJsonAt json (atIndex path index)
      let values ← readTypes types rest path (index + 1)
      return value :: values
  | _, _, _, _ => .ok []

/-- The first case that a tag names, with its payload. -/
def readCase : List (Label × Option WitType) → Text → JsonMap → Text → Except Text Val
  | [], tag, _, path => .error (path ++ ": unknown tag ".toList ++ tag)
  | (label, payload) :: rest, tag, object, path =>
      if label.camel = tag then do
        return .variant label.text (← readSide payload "val".toList object path)
      else readCase rest tag object path

/-- A payload from the member of its key or from `null`; nothing for a side without one. -/
def readSide : Option WitType → Text → JsonMap → Text → Except Text (Option Val)
  | none, _, _, _ => .ok none
  | some ty, key, object, path => do
      let json := (JsonMap.get key object).getD .null
      return some (← ty.fromJsonAt json (inField path key))

end

def fromJson (ty : WitType) (json : Json) : Except Text Val := ty.fromJsonAt json "$".toList

/-! ### To JSON -/

mutual

/-- `to_json`: an answer as JSON. -/
def Val.toJson : Val → Json
  | .bool value => .bool value
  | .int kind value => .number (.ofInt value (kind.bounded value))
  | .float32 value => ((JsonNumber.fromF64 (value.convert .binary64)).map Json.number).getD .null
  | .float64 value => ((JsonNumber.fromF64 value).map Json.number).getD .null
  | .char value => .string [value]
  | .string value => .string value
  | .list items | .fixedLengthList items | .tuple items => .array (itemsToJson items)
  | .record fields => .object (JsonMap.collect (fieldsToJson fields))
  | .variant name payload =>
      .object (match payloadToJson payload with
        | some json =>
            JsonMap.put (JsonMap.put [] ("tag".toList, .string (camel name))) ("val".toList, json)
        | none => JsonMap.put [] ("tag".toList, .string (camel name)))
  | .enum name => .string (camel name)
  | .flags names => .array (names.map fun name => .string (camel name))
  | .option payload => (payloadToJson payload).getD .null
  | .ok payload => .object (JsonMap.put [] ("ok".toList, (payloadToJson payload).getD .null))
  | .err payload => .object (JsonMap.put [] ("err".toList, (payloadToJson payload).getD .null))
  | .other => .null

def itemsToJson : List Val → List Json
  | [] => []
  | value :: rest => value.toJson :: itemsToJson rest

def fieldsToJson : List (Text × Val) → List (Text × Json)
  | [] => []
  | (name, value) :: rest => (camel name, value.toJson) :: fieldsToJson rest

def payloadToJson : Option Val → Option Json
  | none => none
  | some value => some value.toJson

end

example : (Val.option none).toJson = .null := by
  rw [Val.toJson]
  rfl

end ServerBox.Monitor.AppValue
