import RunningTotal.Log.Logger

/-! Settings of a logger in a map of environment variables. `TALLY_ENV` names the environment, or else
`NODE_ENV` if it names one; `TALLY_LOG_LEVEL` sets the least level. The two `TALLY` variables are
refused if they are given and name nothing; `NODE_ENV` only if it is no text. -/
set_option autoImplicit false

namespace RunningTotal.Log

/-! ## What can be wrong with settings -/

inductive SettingsError where
  | notObject (kind : String)
  | notText (name : String) (kind : String)
  | notName (name : String) (names : List String) (kind : String)
  | unknownName (name : String) (names : List String) (given : String)
  deriving DecidableEq

namespace SettingsError

def choices (names : List String) : String :=
  " | ".intercalate (names.map fun name => "'" ++ name ++ "'")

def subject : SettingsError → String
  | .notObject _ => ""
  | .notText name _ | .notName name _ _ | .unknownName name _ _ => name

def problem : SettingsError → String
  | .notObject kind => "Expected object, received " ++ kind
  | .notText _ kind => "Expected string, received " ++ kind
  | .notName _ names kind => "Expected " ++ choices names ++ ", received " ++ kind
  | .unknownName _ names given =>
    "Invalid enum value. Expected " ++ choices names ++ ", received '" ++ given ++ "'"

def message (e : SettingsError) : String :=
  "Invalid logger environment: " ++ e.subject ++ ": " ++ e.problem

end SettingsError

/-! ## Variables -/

namespace Config

def environmentName : String := "TALLY_ENV"
def fallbackName : String := "NODE_ENV"
def levelName : String := "TALLY_LOG_LEVEL"

/-- One of several names, if the variable is given. -/
def choice? {α : Type} (name : String) (names : List String) (ofName? : String → Option α) :
    Option Value → Except SettingsError (Option α)
  | none | some .undefined => .ok none
  | some (.string given) =>
    match ofName? given with
    | some a => .ok (some a)
    | none => .error (.unknownName name names given)
  | some value => .error (.notName name names value.kind)

/-- A text, if the variable is given. -/
def text? (name : String) : Option Value → Except SettingsError (Option String)
  | none | some .undefined => .ok none
  | some (.string given) => .ok (some given)
  | some value => .error (.notText name value.kind)

def ofRecord (given : Record Value) : Except SettingsError Config := do
  let chosen ← choice? environmentName (Environment.all.map Environment.name) Environment.ofName?
    (given.get? environmentName)
  let fallback ← text? fallbackName (given.get? fallbackName)
  let level ← choice? levelName (Level.all.map Level.name) Level.ofName? (given.get? levelName)
  let environment := chosen.getD ((fallback.bind Environment.ofName?).getD .development)
  .ok { environment := some environment, minLevel := level }

def ofValue (given : Value) : Except SettingsError Config :=
  match given.properties? with
  | some properties => ofRecord properties
  | none => .error (.notObject given.kind)

end Config

end RunningTotal.Log
