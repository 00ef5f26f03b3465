import RunningTotal.Value
import RunningTotal.Log.Level
import RunningTotal.Log.Instant
import RunningTotal.Log.Logged

/-! Loggers. A logger writes one JSON line for each event at or above its least level and hands it to
its sink. An event's metadata are those the logger has inherited, with those of the call written
over them; errors among them are flattened, since an error shows no properties of its own. -/
set_option autoImplicit false

namespace RunningTotal.Log

/-! ## Sinks and failures -/

/-- What became of a line: it was kept where its reader looks, dropped, or refused. -/
inductive Receipt where
  | kept
  | dropped
  | refused (message : String)
  deriving DecidableEq

abbrev Sink := String → Receipt

namespace Sink

def keeping : Sink := fun _ => .kept

def dropping : Sink := fun _ => .dropped

def refusing (message : String) : Sink := fun _ => .refused message

end Sink

/-- Why an event could not be logged. -/
inductive Failure where
  | noTime
  | unwritable (reason : Unwritable)
  | refused (message : String)
  deriving DecidableEq

def Failure.message : Failure → String
  | .noTime => "Invalid time value"
  | .unwritable .bigint => "Do not know how to serialize a BigInt"
  | .refused message => message

/-! ## Loggers -/

abbrev Metadata := Record Value

structure Logger where
  metadata : Metadata
  environment : Environment
  minLevel : Level
  sink : Sink

/-- What is left open here has the default of the development environment. -/
structure Config where
  environment : Option Environment := none
  minLevel : Option Level := none
  deriving DecidableEq

namespace Logger

def create (config : Config) (sink : Sink) : Logger :=
  let environment := config.environment.getD .development
  { metadata := []
    environment := environment
    minLevel := config.minLevel.getD environment.preset.minLevel
    sink := sink }

/-- A logger that shows nothing. -/
def silent : Logger := create {} Sink.dropping

/-- A logger with more metadata, alike in all else. -/
def child (l : Logger) (metadata : Metadata) : Logger :=
  { l with metadata := Record.merge l.metadata metadata }

def admits (l : Logger) (level : Level) : Bool := l.minLevel.priority ≤ level.priority

/-! ## Entries -/

/-- An error as a record of its name, its message and, where it is kept, its stack. -/
def flatten (keepsStacks : Bool) : Value → Value
  | .error name message stack _ =>
    let kept := if keepsStacks then stack.filter (· ≠ "") else none
    .object ([("name", .string name), ("message", .string message)] ++
      kept.toList.map fun stack => ("stack", .string stack))
  | value => value

/-- The name under which nothing is logged. -/
def reservedName : String := "__proto__"

/-- The metadata as they are written. -/
def loggable (keepsStacks : Bool) (metadata : Metadata) : Metadata :=
  (metadata.filter (·.1 ≠ reservedName)).map fun (name, value) => (name, flatten keepsStacks value)

/-- The document of an event. -/
def entry (level : Level) (event : String) (metadata : List (String × Json)) (time : Instant) : Json :=
  .object [("level", .string level.name), ("event_type", .string event),
    ("metadata", .object metadata), ("timestamp", .string time.timestamp)]

/-- The line of an event; a clock without a reading is noticed before metadata that have no
written form. -/
def line (l : Logger) (clock : Clock) (level : Level) (event : String) (metadata : Metadata) :
    Except Failure String :=
  match clock with
  | none => .error .noTime
  | some time =>
    let all := loggable l.environment.preset.keepsStacks (Record.merge l.metadata metadata)
    match Value.membersToJson all with
    | .error reason => .error (.unwritable reason)
    | .ok members => .ok (entry level event members time).text

def log (l : Logger) (clock : Clock) (level : Level) (event : String) (metadata : Metadata) :
    Logged Failure Unit :=
  if l.admits level then
    match l.line clock level event metadata with
    | .error e => .fail e
    | .ok text =>
      match l.sink text with
      | .kept => ⟨.ok (), [text]⟩
      | .dropped => .pure ()
      | .refused message => .fail (.refused message)
  else .pure ()

end Logger

end RunningTotal.Log
