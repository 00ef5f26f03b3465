import RunningTotal.Proofs.Log.Line

/-! What becomes of a call. Below the least level a call does nothing (`log_of_not_admits`). At or above
it, it ends in one of five ways (`CallEnds`): the clock has no reading, a big integer is left in the
metadata, the sink refuses the line, or the line is kept or dropped; `callEnds_log` says that these
are all and in which order they are noticed. -/
set_option autoImplicit false

namespace RunningTotal.Log

open Record

/-! ## Metadata that cannot be written -/

/-- The value given under the key keeps a call from being logged: it holds a big integer at some depth.
Under the reserved name nothing is logged, and an error at the top is logged without the properties
it lists, so big integers in either do no harm. -/
def Unloggable (key : String) (value : Value) : Prop :=
  key ≠ Logger.reservedName ∧
    (∀ name message stack properties, value ≠ .error name message stack properties) ∧
    value.HoldsBigint

def HoldsBigint (metadata : Metadata) : Prop :=
  ∃ member ∈ metadata, Unloggable member.1 member.2

namespace Logger

theorem holdsBigint_flatten_iff (keepsStacks : Bool) (value : Value) :
    (flatten keepsStacks value).HoldsBigint ↔
      (∀ name message stack properties, value ≠ .error name message stack properties) ∧
        value.HoldsBigint := by
  cases value with
  | error name message stack properties =>
    have hplain : ∀ text, ¬ (Value.string text).HoldsBigint := by nofun
    rw [flatten_error]
    constructor
    · rintro (_ | _ | @⟨_, member, hmem, h⟩)
      cases hstack : keptStack keepsStacks stack <;> simp [hstack] at hmem
      · rcases hmem with rfl | rfl <;> exact absurd h (hplain _)
      · rcases hmem with rfl | rfl | rfl <;> exact absurd h (hplain _)
    · rintro ⟨hne, -⟩
      exact absurd rfl (hne _ _ _ _)
  | _ => simp [flatten]

theorem membersToJson_loggable_eq_error_iff (keepsStacks : Bool) (metadata : Metadata) :
    Value.membersToJson (loggable keepsStacks metadata) = .error .bigint ↔ HoldsBigint metadata := by
  rw [Value.membersToJson_eq_error_iff, loggable]
  simp only [List.mem_map, List.mem_filter, HoldsBigint, Unloggable]
  constructor
  · rintro ⟨_, ⟨member, ⟨hmem, hname⟩, rfl⟩, h⟩
    exact ⟨member, hmem, by simpa using hname, (holdsBigint_flatten_iff _ _).mp h⟩
  · rintro ⟨member, hmem, hname, h⟩
    exact ⟨_, ⟨member, ⟨hmem, by simpa using hname⟩, rfl⟩, (holdsBigint_flatten_iff _ _).mpr h⟩

theorem line_of_holdsBigint {l : Logger} {metadata : Metadata}
    (h : HoldsBigint (merge l.metadata metadata)) (time : Instant) (level : Level) (event : String) :
    l.line (some time) level event metadata = .error (.unwritable .bigint) := by
  simp only [line, (membersToJson_loggable_eq_error_iff _ _).mpr h]

theorem exists_line_of_not_holdsBigint {l : Logger} {metadata : Metadata}
    (h : ¬ HoldsBigint (merge l.metadata metadata)) (time : Instant) (level : Level)
    (event : String) : ∃ text, l.line (some time) level event metadata = .ok text := by
  rw [← membersToJson_loggable_eq_error_iff l.environment.preset.keepsStacks] at h
  cases hmembers : Value.membersToJson
      (loggable l.environment.preset.keepsStacks (merge l.metadata metadata)) with
  | error reason =>
    cases reason
    exact absurd hmembers h
  | ok members => exact ⟨(entry level event members time).text, by simp only [line, hmembers]⟩

/-- The value given last under some key keeps a call from being logged. -/
def LeavesBigint (records : List Metadata) : Prop :=
  ∃ key value, last? records key = some value ∧ Unloggable key value

theorem holdsBigint_spread_iff (records : List Metadata) :
    HoldsBigint (spread records) ↔ LeavesBigint records := by
  have hnodup := (ordered_spread records).nodup
  constructor
  · rintro ⟨⟨key, value⟩, hmem, hholds⟩
    exact ⟨key, value, get?_spread records key ▸ (mem_iff_get? hnodup).mp hmem, hholds⟩
  · rintro ⟨key, value, hlast, hholds⟩
    exact ⟨(key, value), (mem_iff_get? hnodup).mpr (get?_spread records key ▸ hlast), hholds⟩

theorem holdsBigint_foldl_child_iff (config : Config) (sink : Sink) (path : List Metadata)
    (metadata : Metadata) :
    HoldsBigint (merge (path.foldl child (create config sink)).metadata metadata) ↔
      LeavesBigint (path ++ [metadata]) := by
  rw [merge_foldl_child, holdsBigint_spread_iff]

/-! ## The ends of a call -/

/-- How a call at or above the least level ends. -/
inductive CallEnds (l : Logger) (clock : Clock) (level : Level) (event : String)
    (metadata : Metadata) : Logged Failure Unit → Prop
  | noTime (stopped : clock = none) : CallEnds l clock level event metadata (.fail .noTime)
  | unwritable {time : Instant} (reading : clock = some time)
      (holds : HoldsBigint (merge l.metadata metadata)) :
      CallEnds l clock level event metadata (.fail (.unwritable .bigint))
  | refused {text message : String} (line : l.line clock level event metadata = .ok text)
      (refusal : l.sink text = .refused message) :
      CallEnds l clock level event metadata (.fail (.refused message))
  | kept {text : String} (line : l.line clock level event metadata = .ok text)
      (kept : l.sink text = .kept) : CallEnds l clock level event metadata ⟨.ok (), [text]⟩
  | dropped {text : String} (line : l.line clock level event metadata = .ok text)
      (dropped : l.sink text = .dropped) : CallEnds l clock level event metadata ⟨.ok (), []⟩

theorem CallEnds.fails_or_succeeds {l : Logger} {clock : Clock} {level : Level} {event : String}
    {metadata : Metadata} {ending : Logged Failure Unit}
    (h : CallEnds l clock level event metadata ending) :
    (∃ failure, ending = .fail failure) ∨ ∃ lines, ending = ⟨.ok (), lines⟩ := by
  cases h with
  | noTime => exact .inl ⟨_, rfl⟩
  | unwritable => exact .inl ⟨_, rfl⟩
  | refused => exact .inl ⟨_, rfl⟩
  | kept => exact .inr ⟨_, rfl⟩
  | dropped => exact .inr ⟨_, rfl⟩

/-- What a call comes to when its line is handed to the sink. -/
def handed (sink : Sink) (text : String) : Logged Failure Unit :=
  match sink text with
  | .kept => ⟨.ok (), [text]⟩
  | .dropped => ⟨.ok (), []⟩
  | .refused message => ⟨.error (.refused message), []⟩

theorem log_of_line {l : Logger} {clock : Clock} {level : Level} {event text : String}
    {metadata : Metadata} (h : l.admits level = true)
    (line : l.line clock level event metadata = .ok text) :
    l.log clock level event metadata = handed l.sink text := by
  rw [log, if_pos h, line]
  rfl

theorem log_of_noTime {l : Logger} {level : Level} (h : l.admits level = true) (event : String)
    (metadata : Metadata) : l.log none level event metadata = .fail .noTime := by
  rw [log, if_pos h]
  rfl

theorem log_of_holdsBigint {l : Logger} {level : Level} {metadata : Metadata}
    (h : l.admits level = true) (holds : HoldsBigint (merge l.metadata metadata)) (time : Instant)
    (event : String) :
    l.log (some time) level event metadata = .fail (.unwritable .bigint) := by
  rw [log, if_pos h, line_of_holdsBigint holds]

theorem log_of_not_admits {l : Logger} {level : Level} (h : l.admits level = false) (clock : Clock)
    (event : String) (metadata : Metadata) : l.log clock level event metadata = .pure () := by
  rw [log, h]
  rfl

theorem callEnds_of_line {l : Logger} {clock : Clock} {level : Level} {event text : String}
    {metadata : Metadata} (h : l.admits level = true)
    (line : l.line clock level event metadata = .ok text) :
    CallEnds l clock level event metadata (l.log clock level event metadata) := by
  rw [log_of_line h line, handed]
  cases hsink : l.sink text with
  | kept => exact .kept line hsink
  | dropped => exact .dropped line hsink
  | refused message => exact .refused line hsink

theorem callEnds_log {l : Logger} {level : Level} (h : l.admits level = true) (clock : Clock)
    (event : String) (metadata : Metadata) :
    CallEnds l clock level event metadata (l.log clock level event metadata) := by
  cases clock with
  | none =>
    rw [log_of_noTime h]
    exact .noTime rfl
  | some time =>
    by_cases holds : HoldsBigint (merge l.metadata metadata)
    · rw [log_of_holdsBigint h holds]
      exact .unwritable rfl holds
    · obtain ⟨text, line⟩ := exists_line_of_not_holdsBigint holds time level event
      exact callEnds_of_line h line

/-- A call that fails has logged nothing. -/
theorem log_fails_or_succeeds (l : Logger) (clock : Clock) (level : Level) (event : String)
    (metadata : Metadata) :
    (∃ failure, l.log clock level event metadata = .fail failure) ∨
      ∃ lines, l.log clock level event metadata = ⟨.ok (), lines⟩ := by
  by_cases h : l.admits level = true
  · exact (callEnds_log h clock event metadata).fails_or_succeeds
  · exact .inr ⟨[], log_of_not_admits (Bool.eq_false_iff.mpr h) clock event metadata⟩

end Logger

end RunningTotal.Log
