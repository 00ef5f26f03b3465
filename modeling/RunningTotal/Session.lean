import RunningTotal.Evaluation

/-! Sessions: loggers under names, and steps on them. A step makes a child of a logger and gives it a
name, logs an event, or evaluates an expression; a step that fails leaves the session as it is. -/
set_option autoImplicit false

namespace RunningTotal

open Log

/-- Names not given yet stand for the root. -/
structure Session where
  root : Logger
  named : Record Logger

inductive Action where
  | child (name : String) (metadata : Metadata)
  | log (level : Level) (event : String) (metadata : Metadata)
  | evaluate (expression : String)

structure Step where
  logger : String
  clock : Clock
  action : Action

namespace Session

def start (root : Logger) : Session := ⟨root, []⟩

def logger (s : Session) (name : String) : Logger := (s.named.get? name).getD s.root

/-- The answer of a step, which is a number for an evaluation, and the session after it. -/
def step (s : Session) (step : Step) : Logged EvaluationError (Option Binary64) × Session :=
  let on := s.logger step.logger
  match step.action with
  | .child name metadata =>
    (.pure none, { s with named := s.named.insert name (on.child metadata) })
  | .log level event metadata =>
    ((on.log step.clock level event metadata).mapError .log >>= fun _ => .pure none, s)
  | .evaluate expression =>
    (RunningTotal.evaluate expression .undefined (some on) step.clock >>= fun value =>
      .pure (some value), s)

/-- The answers of steps taken one after another. -/
def run (s : Session) (steps : List Step) : List (Logged EvaluationError (Option Binary64)) :=
  (Steps.run step s steps).map Prod.fst

end Session

end RunningTotal
