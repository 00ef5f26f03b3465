import RunningTotal.Proofs.Session.Lineage
import RunningTotal.Proofs.Evaluation.Announced
import RunningTotal.Proofs.Log.Shown

/-! Stacks of errors. Where no stack is kept, what is logged of metadata is the same without any, so a
session and a step can be relieved of all their stacks and the answer is the same
(`Session.KeepsNoStack.run_withoutStacks`). Elsewhere an error at the top shows its stack if it has
one that is not empty (`stacks_shown`). -/
set_option autoImplicit false

namespace RunningTotal

open Log Record

/-! ## Values without stacks -/

namespace Value

mutual

def withoutStacks : Value → Value
  | .array items => .array (itemsWithoutStacks items)
  | .object members => .object (membersWithoutStacks members)
  | .error name message _ properties => .error name message none (membersWithoutStacks properties)
  | value => value

def itemsWithoutStacks : List Value → List Value
  | [] => []
  | item :: items => withoutStacks item :: itemsWithoutStacks items

def membersWithoutStacks : List (String × Value) → List (String × Value)
  | [] => []
  | (name, value) :: members => (name, withoutStacks value) :: membersWithoutStacks members

end

mutual

theorem toJson_withoutStacks : ∀ value : Value, value.withoutStacks.toJson = value.toJson
  | .undefined | .null | .bool _ | .number _ | .bigint _ | .string _ => rfl
  | .array items => by
    rw [withoutStacks, toJson, toJson, itemsToJson_withoutStacks items]
  | .object members => by
    rw [withoutStacks, toJson, toJson, membersToJson_withoutStacks members]
  | .error _ _ _ properties => by
    rw [withoutStacks, toJson, toJson, membersToJson_withoutStacks properties]

theorem itemsToJson_withoutStacks : ∀ items : List Value,
    itemsToJson (itemsWithoutStacks items) = itemsToJson items
  | [] => rfl
  | item :: items => by
    rw [itemsWithoutStacks, itemsToJson, itemsToJson, toJson_withoutStacks item,
      itemsToJson_withoutStacks items]

theorem membersToJson_withoutStacks : ∀ members : List (String × Value),
    membersToJson (membersWithoutStacks members) = membersToJson members
  | [] => rfl
  | (name, value) :: members => by
    rw [membersWithoutStacks, membersToJson, membersToJson, toJson_withoutStacks value,
      membersToJson_withoutStacks members]

end

end Value

/-! ## Loggers -/

namespace Log.Logger

def withoutStacks (l : Logger) : Logger :=
  { l with metadata := mapValues Value.withoutStacks l.metadata }

theorem child_withoutStacks (l : Logger) (metadata : Metadata) :
    l.withoutStacks.child (mapValues Value.withoutStacks metadata) =
      (l.child metadata).withoutStacks := by
  simp only [child, withoutStacks, mapValues_merge]

theorem toJson_flatten_withoutStacks (value : Value) :
    (flatten false value.withoutStacks).toJson = (flatten false value).toJson := by
  cases value with
  | error => rfl
  | array items => exact Value.toJson_withoutStacks (.array items)
  | object members => exact Value.toJson_withoutStacks (.object members)
  | _ => rfl

theorem membersToJson_loggable_withoutStacks (metadata : Metadata) :
    Value.membersToJson (loggable false (mapValues Value.withoutStacks metadata)) =
      Value.membersToJson (loggable false metadata) := by
  induction metadata with
  | nil => rfl
  | cons member rest ih =>
    obtain ⟨name, value⟩ := member
    rw [mapValues_cons, loggable_cons, loggable_cons]
    split
    · exact ih
    · rw [Value.membersToJson, Value.membersToJson, toJson_flatten_withoutStacks, ih]

section KeepsNoStack

variable {l : Logger} (h : l.environment.preset.keepsStacks = false)

include h

theorem line_withoutStacks (clock : Clock) (level : Level) (event : String) (metadata : Metadata) :
    l.withoutStacks.line clock level event (mapValues Value.withoutStacks metadata) =
      l.line clock level event metadata := by
  simp only [line, withoutStacks, ← mapValues_merge, h, membersToJson_loggable_withoutStacks]

theorem log_withoutStacks (clock : Clock) (level : Level) (event : String) (metadata : Metadata) :
    l.withoutStacks.log clock level event (mapValues Value.withoutStacks metadata) =
      l.log clock level event metadata := by
  rw [log, log, line_withoutStacks h]
  rfl

theorem evaluate_withoutStacks (expression : String) (limits : Value) (clock : Clock) :
    evaluate expression limits (some l.withoutStacks) clock =
      evaluate expression limits (some l) clock := by
  have hannounce (event name : String) (value : Binary64) :
      announce l.withoutStacks clock event name value = announce l clock event name value := by
    rw [announce, announce, ← log_withoutStacks h]
    rfl
  cases hbefore : beforeTotal expression limits with
  | error e => rw [evaluate_of_error hbefore, evaluate_of_error hbefore]
  | ok tokens =>
    rw [evaluate_of_ok hbefore, evaluate_of_ok hbefore]
    simp only [Option.getD_some, hannounce]

end KeepsNoStack

end Log.Logger

/-! ## Sessions -/

def Action.withoutStacks : Action → Action
  | .child name metadata => .child name (mapValues Value.withoutStacks metadata)
  | .log level event metadata => .log level event (mapValues Value.withoutStacks metadata)
  | .evaluate expression => .evaluate expression

def Step.withoutStacks (step : Step) : Step := { step with action := step.action.withoutStacks }

namespace Session

def withoutStacks (s : Session) : Session :=
  ⟨s.root.withoutStacks, mapValues Logger.withoutStacks s.named⟩

theorem logger_withoutStacks (s : Session) (name : String) :
    s.withoutStacks.logger name = (s.logger name).withoutStacks := by
  rw [logger, logger, withoutStacks, get?_mapValues]
  cases s.named.get? name <;> rfl

/-- No logger of the session keeps stacks. -/
def KeepsNoStack (s : Session) : Prop :=
  ∀ name, (s.logger name).environment.preset.keepsStacks = false

theorem KeepsNoStack.step {s : Session} (h : s.KeepsNoStack) (step : Step) :
    (s.step step).2.KeepsNoStack := by
  obtain ⟨on, clock, action⟩ := step
  cases action with
  | log => exact h
  | evaluate => exact h
  | child given metadata =>
    intro name
    rw [Session.step, logger_insert]
    split
    · exact h on
    · exact h name

/-- Without its stacks a session answers a step without stacks as before, and goes on without. -/
theorem KeepsNoStack.step_withoutStacks {s : Session} (h : s.KeepsNoStack) (step : Step) :
    s.withoutStacks.step step.withoutStacks = ((s.step step).1, (s.step step).2.withoutStacks) := by
  obtain ⟨on, clock, action⟩ := step
  cases action with
  | log level event metadata =>
    simp only [Session.step, Step.withoutStacks, Action.withoutStacks, logger_withoutStacks,
      Logger.log_withoutStacks (h on)]
  | evaluate expression =>
    simp only [Session.step, Step.withoutStacks, Action.withoutStacks, logger_withoutStacks,
      Logger.evaluate_withoutStacks (h on)]
  | child given metadata =>
    simp only [Session.step, Step.withoutStacks, Action.withoutStacks, logger_withoutStacks,
      Logger.child_withoutStacks]
    simp only [withoutStacks, mapValues_insert]

theorem KeepsNoStack.run_withoutStacks {s : Session} (h : s.KeepsNoStack) (steps : List Step) :
    s.withoutStacks.run (steps.map Step.withoutStacks) = s.run steps := by
  induction steps generalizing s with
  | nil => rfl
  | cons first rest ih =>
    rw [List.map_cons, run_cons, run_cons, h.step_withoutStacks]
    exact congrArg _ (ih (h.step first))

theorem keepsNoStack_start {root : Logger} (h : root.environment = .production) :
    (Session.start root).KeepsNoStack := by
  intro name
  change root.environment.preset.keepsStacks = false
  rw [h]
  rfl

end Session

/-! ## Where stacks go -/

/-- In production two runs whose steps differ in stacks only have the same answers. Elsewhere every line
shows the stack of an error at the top of the metadata just when there is one that is not empty,
but under the reserved name it shows nothing. -/
theorem stacks_shown (config : Config) (sink : Sink) :
    let root := Logger.create config sink
    (root.environment = .production → ∀ first second : List Step,
      first.map Step.withoutStacks = second.map Step.withoutStacks →
        (Session.start root).run first = (Session.start root).run second) ∧
    (root.environment ≠ .production →
      ∀ (path : List Metadata) (clock : Clock) (level : Level) (event : String)
        (metadata : Metadata) (key name message : String) (stack : Option String)
        (properties : List (String × Value)),
      get? (spread (path ++ [metadata])) key = some (.error name message stack properties) →
        ∀ text ∈ ((path.foldl Logger.child root).log clock level event metadata).lines,
          ∃ time members, text = (Logger.entry level event members time).text ∧
            ∀ shown, (∃ fields, get? members key = some (.object fields) ∧
                get? fields "stack" = some (.string shown)) ↔
              stack = some shown ∧ shown ≠ "" ∧ key ≠ Logger.reservedName) := by
  intro root
  constructor
  · intro production first second hsteps
    have hroot : (Session.start root).withoutStacks = Session.start root := rfl
    have hkeeps := Session.keepsNoStack_start production
    have hfirst := hkeeps.run_withoutStacks first
    have hsecond := hkeeps.run_withoutStacks second
    rw [hroot] at hfirst hsecond
    rw [← hfirst, ← hsecond, hsteps]
  · intro notProduction path clock level event metadata key name message stack properties hkey text
      htext
    have hconfig : config.environment ≠ some .production := fun h =>
      notProduction (by simp only [root, Logger.create, h, Option.getD_some])
    obtain ⟨time, members, hentry, hnodup, hstack⟩ :=
      Logger.stack_of_line config sink path (Logger.line_of_mem_lines htext)
    rw [get?_spread] at hkey
    refine ⟨time, members, hentry, fun shown => ?_⟩
    simp only [← mem_iff_get? hnodup]
    rw [hstack key name message stack properties hkey shown]
    exact and_iff_right hconfig

/-- An error under the reserved name is not in the line at all, its stack neither. -/
theorem stack_lost_under_reserved_name :
    let root := Logger.create { environment := some .test } Sink.keeping
    let time : Instant := ⟨1767323045000, by decide⟩
    (root.log (some time) .error "failed"
      [(Logger.reservedName, .error "Error" "boom" (some "Error: boom") [])]).lines =
        [(Logger.entry .error "failed" [] time).text] := rfl

end RunningTotal
