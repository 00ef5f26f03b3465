import RunningTotal.Json.Basic

/-! Dynamic values: what limits, environment maps and log metadata may hold before they are
checked or written. `Value.toJson` is the document a value is written as: absent values have none
and disappear from records, errors show their own properties only, and big integers cannot be
written at all. -/
set_option autoImplicit false

namespace RunningTotal

/-- An `error` carries its name, message and stack apart from the properties it lists. -/
inductive Value where
  | undefined
  | null
  | bool (value : Bool)
  | number (value : Binary64)
  | bigint (value : Int)
  | string (value : String)
  | array (items : List Value)
  | object (members : List (String × Value))
  | error (name message : String) (stack : Option String) (properties : List (String × Value))

instance : Inhabited Value := ⟨.undefined⟩

/-- Why a value has no written form. -/
inductive Unwritable where
  | bigint
  deriving DecidableEq

namespace Value

/-- The word for a value's kind in messages. -/
def kind : Value → String
  | .undefined => "undefined"
  | .null => "null"
  | .bool _ => "boolean"
  | .number .nan => "nan"
  | .number _ => "number"
  | .bigint _ => "bigint"
  | .string _ => "string"
  | .array _ => "array"
  | .object _ => "object"
  | .error .. => "object"

/-- The properties a value lists, if it is an object. -/
def properties? : Value → Option (Record Value)
  | .object members => some members
  | .error _ _ _ properties => some properties
  | _ => none

mutual

def toJson : Value → Except Unwritable (Option Json)
  | .undefined => .ok none
  | .null => .ok (some .null)
  | .bool value => .ok (some (.bool value))
  | .number value => .ok (some (.number value))
  | .bigint _ => .error .bigint
  | .string value => .ok (some (.string value))
  | .array items => (itemsToJson items).map fun items => some (.array items)
  | .object members => (membersToJson members).map fun members => some (.object members)
  | .error _ _ _ properties => (membersToJson properties).map fun members => some (.object members)

/-- An absent item is written as `null`. -/
def itemsToJson : List Value → Except Unwritable (List Json)
  | [] => .ok []
  | item :: items => do
    let item ← toJson item
    let items ← itemsToJson items
    .ok (item.getD .null :: items)

/-- An absent member is left out. -/
def membersToJson : List (String × Value) → Except Unwritable (List (String × Json))
  | [] => .ok []
  | (name, value) :: members => do
    let value ← toJson value
    let members ← membersToJson members
    match value with
    | some value => .ok ((name, value) :: members)
    | none => .ok members

end

end Value

end RunningTotal
