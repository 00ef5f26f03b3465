import RunningTotal.Value

/-! Limits on an evaluation. `Limits.ofValue` checks a value given as limits: absent means the
defaults, and of several faults the one in the length comes before names that mean nothing. A limit
is kept as a natural number, so minus zero is kept as zero: only the sign of zero is lost, which
neither a comparison nor a message shows. -/
set_option autoImplicit false

namespace RunningTotal

/-! ## Limits -/

inductive Limit where
  | atMost (n : Nat)
  | unlimited
  deriving DecidableEq

namespace Limit

def admits : Limit → Nat → Bool
  | .atMost n, length => length ≤ n
  | .unlimited, _ => true

def toNumber : Limit → Binary64
  | .atMost n => Binary64.ofNat n
  | .unlimited => .infinite false

end Limit

/-- `maxLength` bounds the number of characters of an expression. -/
structure Limits where
  maxLength : Limit := .atMost 10000
  deriving DecidableEq

/-- The name of the length among given limits. -/
def Limits.maxLengthName : String := "maxExpressionLength"

/-! ## What can be wrong with limits -/

inductive LimitError where
  | notObject (kind : String)
  | notInteger
  | negative
  | notNumber
  | unknownNames (names : List String)
  deriving DecidableEq

namespace LimitError

/-- What the error is about: the length, or the limits as a whole. -/
def subject : LimitError → String
  | .notObject _ | .unknownNames _ => "limits"
  | .notInteger | .negative | .notNumber => Limits.maxLengthName

def quoted (name : String) : String := "'" ++ name ++ "'"

def problem : LimitError → String
  | .notObject kind => "Expected object, received " ++ kind
  | .notInteger => "Expected integer, received float"
  | .negative => "Number must be greater than or equal to 0"
  | .notNumber => "Invalid input"
  | .unknownNames names =>
    "Unrecognized key(s) in object: " ++ ", ".intercalate (names.map quoted)

def message (e : LimitError) : String := "Invalid limit '" ++ e.subject ++ "': " ++ e.problem

end LimitError

/-! ## Checking -/

namespace Limit

def ofNumber : Binary64 → Except LimitError Limit
  | .nan => .error .notNumber
  | .infinite true => .error .notInteger
  | .infinite false => .ok .unlimited
  | .finite x =>
    match (Binary64.finite x).toInt? with
    | none => .error .notInteger
    | some n => if n < 0 then .error .negative else .ok (.atMost n.toNat)

/-- The limit a property holds, if it is present with a value. -/
def ofValue? : Option Value → Except LimitError (Option Limit)
  | none | some .undefined => .ok none
  | some (.number x) => (ofNumber x).map some
  | some _ => .error .notNumber

end Limit

namespace Limits

def ofRecord (given : Record Value) : Except LimitError Limits := do
  let maxLength ← Limit.ofValue? (given.get? maxLengthName)
  let unknown := (given.map Prod.fst).filter (· ≠ maxLengthName)
  if unknown = [] then .ok { maxLength := maxLength.getD ({} : Limits).maxLength }
  else .error (.unknownNames unknown)

def ofValue : Value → Except LimitError Limits
  | .undefined | .null => .ok {}
  | given =>
    match given.properties? with
    | some properties => ofRecord properties
    | none => .error (.notObject given.kind)

/-- The limits written as a value that is read as them. -/
def toValue (limits : Limits) : Value :=
  .object [(maxLengthName, .number limits.maxLength.toNumber)]

end Limits

end RunningTotal
