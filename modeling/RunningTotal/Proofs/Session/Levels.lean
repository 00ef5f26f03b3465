import RunningTotal.Proofs.Session.Lineage
import RunningTotal.Proofs.Evaluation.Announced

/-! Levels in a session. A line begins with the level of its event (`lineLevel?_entry`). Where the least
level of a root is raised, each answer of a session loses the lines below the new level and, unless
a log call of it failed, stays as it was (`Raises`): so a log call (`log_raised`), so an evaluation,
whose events are all of the lowest level (`raises_evaluate`), and so a run (`raises_run`).
`least_level_decides` says what the least level of a root decides. -/
set_option autoImplicit false

namespace RunningTotal

open Log Record

/-! ## The level of a line -/

namespace Log

/-- How the lines of a level begin. -/
def Level.opening (level : Level) : List Char :=
  '\x7b' :: Json.quote "level" ++ ':' :: Json.quote level.name

/-- The level that the line begins with. -/
def lineLevel? (text : String) : Option Level :=
  Level.all.find? fun level => level.opening.isPrefixOf text.toList

theorem exists_toList_entry (level : Level) (event : String) (members : List (String × Json))
    (time : Instant) :
    ∃ rest, (Logger.entry level event members time).text.toList = level.opening ++ rest := by
  rw [Json.text, String.toList_ofList, Logger.entry, Json.write, Json.write, Level.opening]
  exact ⟨_, rfl⟩

theorem isPrefixOf_opening (asked level : Level) (rest : List Char) :
    asked.opening.isPrefixOf (level.opening ++ rest) = decide (asked = level) := by
  cases asked <;> cases level <;> rfl

theorem lineLevel?_entry (level : Level) (event : String) (members : List (String × Json))
    (time : Instant) : lineLevel? (Logger.entry level event members time).text = some level := by
  obtain ⟨rest, h⟩ := exists_toList_entry level event members time
  simp only [lineLevel?, h, isPrefixOf_opening]
  cases level <;> rfl

def atLeast (least : Level) (text : String) : Bool :=
  (lineLevel? text).any fun level => least.priority ≤ level.priority

theorem filter_atLeast {level : Level} {lines : List String}
    (h : ∀ text ∈ lines, lineLevel? text = some level) (least : Level) :
    lines.filter (atLeast least) = if least.priority ≤ level.priority then lines else [] := by
  have hatLeast : ∀ text ∈ lines, atLeast least text = decide (least.priority ≤ level.priority) :=
    fun text htext => by rw [atLeast, h text htext, Option.any_some]
  split
  · rename_i hle
    exact List.filter_eq_self.mpr fun text htext => by rw [hatLeast text htext, decide_eq_true hle]
  · rename_i hlt
    refine List.filter_eq_nil_iff.mpr fun text htext => ?_
    rw [hatLeast text htext, decide_eq_false hlt]
    exact Bool.false_ne_true

/-! ## One call -/

namespace Logger

variable {l : Logger}

theorem lineLevel?_of_line {clock : Clock} {level : Level} {event text : String}
    {metadata : Metadata} (h : l.line clock level event metadata = .ok text) :
    lineLevel? text = some level := by
  obtain ⟨time, members, -, rfl, -⟩ := exists_of_line h
  exact lineLevel?_entry level event members time

theorem lineLevel?_of_mem_log {clock : Clock} {level : Level} {event : String} {metadata : Metadata} :
    ∀ text ∈ (l.log clock level event metadata).lines, lineLevel? text = some level :=
  fun _ h => lineLevel?_of_line (line_of_mem_lines h)

/-- The line of a call that is not stopped is written before the sink has any part in it. -/
theorem exists_handed {config : Config} {path : List Metadata} {level : Level} {metadata : Metadata}
    (admits : ∀ sink, (path.foldl child (create config sink)).admits level = true)
    (written : ¬ LeavesBigint (path ++ [metadata])) (time : Instant) (event : String) :
    ∃ text, lineLevel? text = some level ∧
      ∀ sink, (path.foldl child (create config sink)).log (some time) level event metadata =
        handed sink text := by
  obtain ⟨text, hline⟩ := exists_line_of_not_holdsBigint
    (mt (holdsBigint_foldl_child_iff config Sink.keeping path metadata).mp written) time level event
  refine ⟨text, lineLevel?_of_line hline, fun sink => ?_⟩
  rw [line_foldl_child_sink config Sink.keeping sink] at hline
  rw [log_of_line (admits sink) hline, sink_foldl_child]

def raised (l : Logger) (least : Level) : Logger := { l with minLevel := least }

theorem log_raised {least : Level} (h : l.minLevel.priority ≤ least.priority) (clock : Clock)
    (level : Level) (event : String) (metadata : Metadata) :
    (l.raised least).log clock level event metadata =
      if least.priority ≤ level.priority then l.log clock level event metadata else .pure () := by
  split
  · rename_i hle
    have hlow : l.admits level = true := decide_eq_true (h.trans hle)
    have hhigh : (l.raised least).admits level = true := decide_eq_true hle
    rw [log, log, hlow, hhigh]
    rfl
  · rename_i hlt
    exact log_of_not_admits (decide_eq_false hlt) clock event metadata

end Logger

/-! ## The lines of several calls -/

theorem Logged.forall_lines_bind {ε α β : Type} {p : String → Prop} {x : Logged ε α}
    {f : α → Logged ε β} (hx : ∀ text ∈ x.lines, p text)
    (hf : ∀ a, ∀ text ∈ (f a).lines, p text) : ∀ text ∈ (x >>= f).lines, p text := by
  change ∀ text ∈ (x.bind f).lines, p text
  cases h : x.result with
  | error e =>
    rw [bind_error h]
    exact hx
  | ok a =>
    rw [bind_ok h]
    exact List.forall_mem_append.mpr ⟨hx, hf a⟩

end Log

theorem lineLevel?_of_mem_announceAll (l : Logger) (clock : Clock) (all : List Event) :
    ∀ text ∈ (announceAll l clock all).lines, lineLevel? text = some .debug := by
  induction all with
  | nil => nofun
  | cons event later ih =>
    rw [announceAll]
    exact Logged.forall_lines_bind Logger.lineLevel?_of_mem_log fun _ => ih

/-- Only a log call can fail while events are announced. -/
theorem result_announceAll (l : Logger) (clock : Clock) (all : List Event) :
    (announceAll l clock all).result = .ok () ∨
      ∃ failure, (announceAll l clock all).result = .error (.log failure) := by
  induction all with
  | nil => exact .inl rfl
  | cons event later ih =>
    rw [announceAll]
    cases h : (l.log clock .debug event.name event.metadata).result with
    | ok =>
      have hresult : ((l.log clock .debug event.name event.metadata).mapError
          EvaluationError.log).result = .ok () := by rw [Logged.mapError, h]; rfl
      rwa [Logged.result_bind_ok hresult]
    | error failure =>
      have hresult : ((l.log clock .debug event.name event.metadata).mapError
          EvaluationError.log).result = .error (.log failure) := by rw [Logged.mapError, h]; rfl
      exact .inr ⟨failure, Logged.result_bind_error hresult _⟩

/-! ## Answers under a raised level -/

/-- The answer keeps the lines of the new least level and above, and the result, unless a log call
failed. -/
structure Raises {α : Type} (least : Level) (low high : Logged EvaluationError α) : Prop where
  lines : high.lines = low.lines.filter (atLeast least)
  result : (∀ failure, low.result ≠ .error (.log failure)) → high.result = low.result

theorem raises_log {l : Logger} {least : Level} (h : l.minLevel.priority ≤ least.priority)
    (clock : Clock) (level : Level) (event : String) (metadata : Metadata) :
    Raises least ((l.log clock level event metadata).mapError EvaluationError.log)
      (((l.raised least).log clock level event metadata).mapError EvaluationError.log) where
  lines := by
    rw [Logger.log_raised h]
    refine Eq.trans ?_ (filter_atLeast Logger.lineLevel?_of_mem_log least).symm
    split <;> rfl
  result hlow := by
    rw [Logger.log_raised h]
    split
    · rfl
    · cases hresult : (l.log clock level event metadata).result with
      | ok => rw [Logged.mapError, Logged.mapError, hresult]; rfl
      | error failure =>
        refine absurd ?_ (hlow failure)
        rw [Logged.mapError, hresult]
        rfl

/-- What is done with the result without any line is done to both. -/
theorem Raises.bind {α β : Type} {least : Level} {low high : Logged EvaluationError α}
    (h : Raises least low high) (f : α → Except EvaluationError β) :
    Raises least (low >>= fun a => Logged.ofExcept (f a))
      (high >>= fun a => Logged.ofExcept (f a)) where
  lines := by
    have hlines (x : Logged EvaluationError α) :
        (x >>= fun a => Logged.ofExcept (f a)).lines = x.lines := by
      change (x.bind fun a => Logged.ofExcept (f a)).lines = x.lines
      cases hx : x.result with
      | error e => rw [Logged.bind_error hx]
      | ok a =>
        rw [Logged.bind_ok hx]
        exact List.append_nil _
    rw [hlines, hlines, h.lines]
  result hlow := by
    cases hresult : low.result with
    | error e =>
      have hhigh := h.result fun failure he => by
        obtain rfl := Except.error.inj (hresult.symm.trans he)
        exact hlow failure (Logged.result_bind_error hresult _)
      rw [hresult] at hhigh
      rw [Logged.result_bind_error hresult, Logged.result_bind_error hhigh]
    | ok a =>
      have hhigh := h.result fun failure he => by cases hresult.symm.trans he
      rw [hresult] at hhigh
      rw [Logged.result_bind_ok hresult, Logged.result_bind_ok hhigh]

theorem raises_announceAll {l : Logger} {least : Level} (h : l.minLevel.priority ≤ least.priority)
    (clock : Clock) (all : List Event) :
    Raises least (announceAll l clock all) (announceAll (l.raised least) clock all) := by
  have hlines := filter_atLeast (lineLevel?_of_mem_announceAll l clock all) least
  cases hadmits : (l.raised least).admits .debug with
  | true =>
    -- the new least level is the lowest, so the old one was
    have hle : least.priority ≤ Level.debug.priority := of_decide_eq_true hadmits
    have hsame : l.raised least = l := by
      have hleast : least = .debug := by cases least <;> first | rfl | exact absurd hle (by decide)
      have hmin : l.minLevel = .debug := (admits_debug_iff l).mp (decide_eq_true (h.trans hle))
      rw [Logger.raised, hleast, ← hmin]
    rw [hsame]
    rw [if_pos hle] at hlines
    exact ⟨hlines.symm, fun _ => rfl⟩
  | false =>
    have hlt : ¬ least.priority ≤ Level.debug.priority := of_decide_eq_false hadmits
    rw [announceAll_of_not_admits hadmits]
    rw [if_neg hlt] at hlines
    refine ⟨hlines.symm, fun hlow => ?_⟩
    rcases result_announceAll l clock all with hok | ⟨failure, hfails⟩
    · exact hok.symm
    · exact absurd hfails (hlow failure)

theorem raises_evaluate {l : Logger} {least : Level} (h : l.minLevel.priority ≤ least.priority)
    (expression : String) (limits : Value) (clock : Clock) :
    Raises least (evaluate expression limits (some l) clock)
      (evaluate expression limits (some (l.raised least)) clock) := by
  cases hbefore : beforeTotal expression limits with
  | error e =>
    rw [evaluate_of_error hbefore, evaluate_of_error hbefore]
    exact ⟨rfl, fun _ => rfl⟩
  | ok tokens =>
    have hlow := evaluate_eq_announceAll hbefore l [] clock
    have hhigh := evaluate_eq_announceAll hbefore (l.raised least) [] clock
    rw [List.foldl_nil] at hlow hhigh
    rw [hlow, hhigh]
    exact (raises_announceAll h clock _).bind _

/-! ## Runs under a raised level -/

theorem Step.raises_alone {root : Logger} {least : Level}
    (h : root.minLevel.priority ≤ least.priority) (path : List Metadata) (step : Step) :
    Raises least (step.alone root path) (step.alone (root.raised least) path) := by
  obtain ⟨logger, clock, action⟩ := step
  cases action with
  | child => exact ⟨rfl, fun _ => rfl⟩
  | log level event metadata =>
    exact (raises_log h clock level event (spread (path ++ [metadata]))).bind fun _ => .ok none
  | evaluate expression =>
    exact (raises_evaluate (l := root.child (spread path)) h expression .undefined clock).bind
      fun value => .ok (some value)

theorem raises_run {root : Logger} {least : Level} (h : root.minLevel.priority ≤ least.priority)
    {earlier : List Step} {low high : Session} (hlow : IsLineage root earlier low)
    (hhigh : IsLineage (root.raised least) earlier high) (steps : List Step) :
    List.Forall₂ (Raises least) (low.run steps) (high.run steps) := by
  induction steps generalizing earlier low high with
  | nil => exact .nil
  | cons first rest ih =>
    rw [Session.run_cons, Session.run_cons, hlow.step_eq_alone, hhigh.step_eq_alone]
    exact .cons (first.raises_alone h _) (ih (hlow.step first) (hhigh.step first))

theorem Raises.flatMap_lines {α : Type} {least : Level} {low high : List (Logged EvaluationError α)}
    (h : List.Forall₂ (Raises least) low high) :
    high.flatMap (·.lines) = (low.flatMap (·.lines)).filter (atLeast least) := by
  induction h with
  | nil => rfl
  | cons first _ ih =>
    rw [List.flatMap_cons, List.flatMap_cons, List.filter_append, first.lines, ih]

theorem Raises.map_result {α : Type} {least : Level} {low high : List (Logged EvaluationError α)}
    (h : List.Forall₂ (Raises least) low high)
    (succeed : ∀ answer ∈ low, ∀ failure, answer.result ≠ .error (.log failure)) :
    high.map (·.result) = low.map (·.result) := by
  induction h with
  | nil => rfl
  | cons first _ ih =>
    obtain ⟨hfirst, hrest⟩ := List.forall_mem_cons.mp succeed
    rw [List.map_cons, List.map_cons, first.result hfirst, ih hrest]

/-! ## What the least level decides -/

/-- A call below the least level does nothing. One at or above it fails before the sink, for the clock or
else for a big integer that is left, or hands one line to the sink and ends as that says. A run under
a raised level has the lines that are high enough and, if no log call failed, the same results. -/
theorem least_level_decides (config : Config) :
    let least := config.minLevel.getD (config.environment.getD .development).preset.minLevel
    (∀ (path : List Metadata) (clock : Clock) (level : Level) (event : String) (metadata : Metadata),
      let call (sink : Sink) :=
        (path.foldl Logger.child (.create config sink)).log clock level event metadata
      (level.priority < least.priority → ∀ sink, call sink = ⟨.ok (), []⟩) ∧
      (least.priority ≤ level.priority →
        (clock = none → ∀ sink, call sink = ⟨.error .noTime, []⟩) ∧
        (clock ≠ none → Logger.LeavesBigint (path ++ [metadata]) →
          ∀ sink, call sink = ⟨.error (.unwritable .bigint), []⟩) ∧
        (clock ≠ none → ¬ Logger.LeavesBigint (path ++ [metadata]) →
          ∃ text, lineLevel? text = some level ∧ ∀ sink, call sink = Logger.handed sink text))) ∧
    ∀ (sink : Sink) (steps : List Step) (raised : Level), least.priority ≤ raised.priority →
      let low := (Session.start (.create config sink)).run steps
      let high := (Session.start (.create { config with minLevel := some raised } sink)).run steps
      high.flatMap (·.lines) = (low.flatMap (·.lines)).filter (atLeast raised) ∧
      ((∀ answer ∈ low, ∀ failure, answer.result ≠ .error (.log failure)) →
        high.map (·.result) = low.map (·.result)) := by
  intro least
  constructor
  · intro path clock level event metadata call
    have hadmits (sink : Sink) :
        (path.foldl Logger.child (.create config sink)).admits level =
          decide (least.priority ≤ level.priority) :=
      Logger.admits_foldl_child config sink path level
    constructor
    · intro hlt sink
      exact Logger.log_of_not_admits (by rw [hadmits, decide_eq_false (not_le.mpr hlt)]) clock event
        metadata
    · intro hle
      have hadmits (sink : Sink) :
          (path.foldl Logger.child (.create config sink)).admits level = true := by
        rw [hadmits, decide_eq_true hle]
      cases clock with
      | none =>
        exact ⟨fun _ sink => Logger.log_of_noTime (hadmits sink) event metadata, by simp, by simp⟩
      | some time =>
        refine ⟨by simp, fun _ leaves sink => ?_, fun _ written => ?_⟩
        · exact Logger.log_of_holdsBigint (hadmits sink)
            ((Logger.holdsBigint_foldl_child_iff config sink path metadata).mpr leaves) time event
        · exact Logger.exists_handed hadmits written time event
  · intro sink steps raised hle low high
    have hraises : List.Forall₂ (Raises raised) low high :=
      raises_run hle (isLineage_start _) (isLineage_start _) steps
    exact ⟨Raises.flatMap_lines hraises, Raises.map_result hraises⟩

/-- A big integer among the properties of an error at the top does not keep the call from being logged. -/
theorem bigint_of_error_unseen :
    let value : Value := .error "Error" "boom" none [("code", .bigint 1)]
    let root := Logger.create { environment := some .test } Sink.keeping
    let time : Instant := ⟨1767323045000, by decide⟩
    (last? [[("err", value)]] "err" = some value ∧ "err" ≠ Logger.reservedName ∧
        value.HoldsBigint) ∧
      root.log (some time) .error "failed" [("err", value)] =
        ⟨.ok (), [(Logger.entry .error "failed" [("err", .object
          [("name", .string "Error"), ("message", .string "boom")])] time).text]⟩ :=
  ⟨⟨rfl, by decide, .property (List.mem_singleton_self _) (.here 1)⟩, rfl⟩

end RunningTotal
