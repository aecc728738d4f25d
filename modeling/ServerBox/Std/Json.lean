import ServerBox.Std.BinaryFloat
import ServerBox.Std.Text

/-!
# JSON values

The values of `serde_json`: numbers of 64 bits as the parser makes them, and objects whose
names are distinct because every insertion replaces.
-/

namespace ServerBox.Std

abbrev F32 := BinaryFloat .binary32

abbrev F64 := BinaryFloat .binary64

/-- `serde_json::Number`: a negative integer is never a `posInt`, and no `float` is infinite. -/
inductive JsonNumber
  | posInt (value : Nat) (bounded : value < 2 ^ 64)
  | negInt (value : Int) (bounded : -2 ^ 63 ≤ value ∧ value < 0)
  | float (value : F64) (finite : value.IsFinite)

namespace JsonNumber

/-- `From` of the integer types. -/
def ofInt (value : Int) (bounded : -2 ^ 63 ≤ value ∧ value < 2 ^ 64) : JsonNumber :=
  if sign : value < 0 then .negInt value ⟨bounded.1, sign⟩ else .posInt value.toNat (by omega)

def fromF64 (value : F64) : Option JsonNumber :=
  if finite : value.IsFinite then some (.float value finite) else none

def asU64 : JsonNumber → Option Nat
  | posInt value _ => some value
  | _ => none

def asI64 : JsonNumber → Option Int
  | posInt value _ => if value < 2 ^ 63 then some value else none
  | negInt value _ => some value
  | float _ _ => none

def asF64 : JsonNumber → F64
  | posInt value _ => .ofInt .binary64 value
  | negInt value _ => .ofInt .binary64 value
  | float value _ => value

end JsonNumber

inductive Json
  | null
  | bool (value : Bool)
  | number (value : JsonNumber)
  | string (value : Text)
  | array (items : List Json)
  | object (members : List (Text × Json))

/-- The members of an object, in the order in which their names came first. -/
abbrev JsonMap := List (Text × Json)

/-- What was last put under a name. -/
def lookupLast {Value : Type} (name : Text) : List (Text × Value) → Option Value
  | [] => none
  | (key, value) :: rest =>
      match lookupLast name rest with
      | some later => some later
      | none => if key = name then some value else none

section LookupLast

variable {Value Other : Type}

@[simp] theorem lookupLast_nil (name : Text) :
    lookupLast name ([] : List (Text × Value)) = none := rfl

theorem lookupLast_cons (name key : Text) (value : Value) (rest : List (Text × Value)) :
    lookupLast name ((key, value) :: rest) =
      (lookupLast name rest).or (if key = name then some value else none) := by
  rw [lookupLast]
  cases lookupLast name rest <;> rfl

theorem lookupLast_eq_none_iff {name : Text} {pairs : List (Text × Value)} :
    lookupLast name pairs = none ↔ name ∉ pairs.map Prod.fst := by
  induction pairs with
  | nil => simp
  | cons pair rest inductionHypothesis =>
      obtain ⟨key, value⟩ := pair
      rw [lookupLast_cons, Option.or_eq_none_iff, inductionHypothesis]
      simp [and_comm, eq_comm]

theorem mem_of_lookupLast {name : Text} {pairs : List (Text × Value)} {value : Value}
    (found : lookupLast name pairs = some value) : (name, value) ∈ pairs := by
  induction pairs with
  | nil => cases found
  | cons pair rest inductionHypothesis =>
      obtain ⟨key, here⟩ := pair
      rw [lookupLast] at found
      cases later : lookupLast name rest with
      | some other =>
          rw [later] at found
          exact List.mem_cons_of_mem _ (inductionHypothesis (later.trans found))
      | none =>
          simp only [later, Option.ite_none_right_eq_some, Option.some.injEq] at found
          obtain ⟨rfl, rfl⟩ := found
          exact List.mem_cons_self

end LookupLast

namespace JsonMap

def get (name : Text) : JsonMap → Option Json
  | [] => none
  | (key, value) :: rest => if key = name then some value else get name rest

/-- An insertion replaces in place. -/
def put : JsonMap → Text × Json → JsonMap
  | [], member => [member]
  | old :: rest, member => if old.1 = member.1 then member :: rest else old :: put rest member

/-- `FromIterator` of a map. -/
def collect (members : List (Text × Json)) : JsonMap := members.foldl put []

theorem get_eq_none_iff {name : Text} {map : JsonMap} :
    get name map = none ↔ name ∉ map.map Prod.fst := by
  induction map with
  | nil => simp [get]
  | cons pair rest inductionHypothesis =>
      obtain ⟨key, value⟩ := pair
      rw [get]
      split
      next same => simp [same]
      next other => simp [inductionHypothesis, Ne.symm other]

theorem get_put (name : Text) (map : JsonMap) (member : Text × Json) :
    get name (map.put member) = if member.1 = name then some member.2 else get name map := by
  induction map with
  | nil => simp [put, get]
  | cons old rest inductionHypothesis =>
      obtain ⟨key, value⟩ := old
      rw [put]
      split
      next same =>
          have same : key = member.1 := same
          by_cases held : member.1 = name <;> simp [get, same, held]
      next other =>
          rw [get, get, inductionHypothesis]
          by_cases held : key = name
          · have free : ¬ member.1 = name := fun same => other (held.trans same.symm)
            simp [held, free]
          · simp [held]

/-- A collected map holds the last of the members of a name. -/
theorem get_collect (name : Text) (members : List (Text × Json)) :
    get name (collect members) = lookupLast name members := by
  suffices general : ∀ map : JsonMap,
      get name (members.foldl put map) = (lookupLast name members).or (get name map) by
    simpa [collect, get] using general []
  induction members with
  | nil => simp
  | cons member rest inductionHypothesis =>
      obtain ⟨key, value⟩ := member
      intro map
      rw [List.foldl_cons, inductionHypothesis, get_put, lookupLast_cons, Option.or_assoc]
      split <;> rfl

theorem mem_keys_collect {name : Text} {members : List (Text × Json)} :
    name ∈ (collect members).map Prod.fst ↔ name ∈ members.map Prod.fst := by
  rw [← not_iff_not, ← get_eq_none_iff, get_collect, lookupLast_eq_none_iff]

end JsonMap

namespace Json

def asBool : Json → Option Bool
  | bool value => some value
  | _ => none

def asU64 : Json → Option Nat
  | number value => value.asU64
  | _ => none

def asI64 : Json → Option Int
  | number value => value.asI64
  | _ => none

def asF64 : Json → Option F64
  | number value => some value.asF64
  | _ => none

def asStr : Json → Option Text
  | string value => some value
  | _ => none

def asArray : Json → Option (List Json)
  | array items => some items
  | _ => none

def asObject : Json → Option JsonMap
  | object members => some members
  | _ => none

@[simp] theorem asStr_eq_some_iff {json : Json} {value : Text} :
    json.asStr = some value ↔ json = string value := by
  cases json <;> simp [asStr]

@[simp] theorem asArray_eq_some_iff {json : Json} {items : List Json} :
    json.asArray = some items ↔ json = array items := by
  cases json <;> simp [asArray]

@[simp] theorem asObject_eq_some_iff {json : Json} {members : JsonMap} :
    json.asObject = some members ↔ json = object members := by
  cases json <;> simp [asObject]

end Json

end ServerBox.Std
