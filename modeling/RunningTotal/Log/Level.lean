/-! Log levels, and the presets that environments have for them. -/
set_option autoImplicit false

namespace RunningTotal.Log

inductive Level where
  | debug
  | info
  | warn
  | error
  | fatal
  deriving DecidableEq

namespace Level

def all : List Level := [.debug, .info, .warn, .error, .fatal]

def name : Level → String
  | .debug => "debug"
  | .info => "info"
  | .warn => "warn"
  | .error => "error"
  | .fatal => "fatal"

def priority : Level → Nat
  | .debug => 0
  | .info => 1
  | .warn => 2
  | .error => 3
  | .fatal => 4

def ofName? (name : String) : Option Level := all.find? (·.name = name)

theorem ofName?_name (l : Level) : ofName? l.name = some l := by cases l <;> decide

end Level

inductive Environment where
  | test
  | development
  | production
  deriving DecidableEq

/-- What an environment decides: the least level that is logged, and whether errors keep the text
of their stack. -/
structure Preset where
  minLevel : Level
  keepsStacks : Bool
  deriving DecidableEq

namespace Environment

def all : List Environment := [.test, .development, .production]

def name : Environment → String
  | .test => "test"
  | .development => "development"
  | .production => "production"

def preset : Environment → Preset
  | .test => ⟨.debug, true⟩
  | .development => ⟨.info, true⟩
  | .production => ⟨.warn, false⟩

def ofName? (name : String) : Option Environment := all.find? (·.name = name)

theorem ofName?_name (e : Environment) : ofName? e.name = some e := by cases e <;> decide

end Environment

end RunningTotal.Log
