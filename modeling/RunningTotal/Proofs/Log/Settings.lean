import RunningTotal.Log.Settings
import RunningTotal.Proofs.Log.Call
import RunningTotal.Proofs.Log.Shown

/-! What settings do. A variable is missing, given what it admits, or faulty, and its check ends
accordingly (`Checked`). So settings are refused for the first faulty variable (`FirstFaulty`), or
else they select an environment and a least level (`ofRecord_cases`), and these decide what becomes
of the calls on a logger with the settings and on those that descend from it
(`settings_take_effect`). -/
set_option autoImplicit false

namespace RunningTotal.Log

open Record

/-! ## Variables -/

/-- A variable that settings are read from. -/
inductive Variable where
  | environment
  | fallback
  | level

namespace Variable

def name : Variable → String
  | .environment => "TALLY_ENV"
  | .fallback => "NODE_ENV"
  | .level => "TALLY_LOG_LEVEL"

def Admits : Variable → Value → Prop
  | .environment, value => ∃ e : Environment, value = .string e.name
  | .fallback, value => ∃ text, value = .string text
  | .level, value => ∃ l : Level, value = .string l.name

end Variable

/-- The value a variable is given; undefined is none. -/
def Variable.value? (v : Variable) (map : Record Value) : Option Value :=
  match get? map v.name with
  | some .undefined => none
  | given => given

def Variable.Faulty (v : Variable) (map : Record Value) : Prop :=
  ∃ value, v.value? map = some value ∧ ¬ v.Admits value

/-- The variable is the first faulty one in the order in which they are checked. -/
inductive FirstFaulty (map : Record Value) : Variable → Prop
  | environment (faulty : Variable.environment.Faulty map) : FirstFaulty map .environment
  | fallback (environment : ¬ Variable.environment.Faulty map)
      (faulty : Variable.fallback.Faulty map) : FirstFaulty map .fallback
  | level (environment : ¬ Variable.environment.Faulty map)
      (fallback : ¬ Variable.fallback.Faulty map) (faulty : Variable.level.Faulty map) :
      FirstFaulty map .level

theorem FirstFaulty.faulty {map : Record Value} {v : Variable} (h : FirstFaulty map v) :
    v.Faulty map := by
  cases h <;> assumption

/-! ## What is selected -/

/-- The environment that is chosen, or else the one that the fallback names, or else development. -/
inductive Selects (map : Record Value) : Environment → Prop
  | chosen {e : Environment} (given : Variable.environment.value? map = some (.string e.name)) :
      Selects map e
  | named {e : Environment} (missing : Variable.environment.value? map = none)
      (given : Variable.fallback.value? map = some (.string e.name)) : Selects map e
  | default (missing : Variable.environment.value? map = none)
      (unnamed : ∀ e : Environment, Variable.fallback.value? map ≠ some (.string e.name)) :
      Selects map .development

/-- The least level that is given, or else the one that the environment has preset. -/
inductive SelectsLeast (map : Record Value) (selected : Environment) : Level → Prop
  | given {l : Level} (given : Variable.level.value? map = some (.string l.name)) :
      SelectsLeast map selected l
  | preset (missing : Variable.level.value? map = none) :
      SelectsLeast map selected selected.preset.minLevel

/-! ## The check of a variable -/

theorem find?_name_eq_some_iff {α : Type} {all : List α} {nameOf : α → String}
    (complete : ∀ a, all.find? (nameOf · = nameOf a) = some a) {text : String} {a : α} :
    all.find? (nameOf · = text) = some a ↔ text = nameOf a := by
  constructor
  · intro h
    have hfound := List.find?_some h
    exact (of_decide_eq_true hfound).symm
  · rintro rfl
    exact complete a

theorem Environment.ofName?_eq_some_iff {text : String} {e : Environment} :
    ofName? text = some e ↔ text = e.name := find?_name_eq_some_iff ofName?_name

theorem Level.ofName?_eq_some_iff {text : String} {l : Level} :
    ofName? text = some l ↔ text = l.name := find?_name_eq_some_iff ofName?_name

/-- How the check of a variable ends, where the values it admits are the names `nameOf` gives. -/
inductive Checked {α : Type} (v : Variable) (nameOf : α → String) (map : Record Value) :
    Except SettingsError (Option α) → Prop
  | missing (missing : v.value? map = none) : Checked v nameOf map (.ok none)
  | found {a : α} (given : v.value? map = some (.string (nameOf a)))
      (admitted : v.Admits (.string (nameOf a))) : Checked v nameOf map (.ok (some a))
  | faulty {e : SettingsError} (faulty : v.Faulty map) (subject : e.subject = v.name) :
      Checked v nameOf map (.error e)

section Checked

variable {α : Type} {v : Variable} {nameOf : α → String} {map : Record Value}

theorem Checked.not_faulty {found : Option α} (h : Checked v nameOf map (.ok found)) :
    ¬ v.Faulty map := by
  rintro ⟨value, hvalue, hadmits⟩
  cases h with
  | missing missing => cases missing.symm.trans hvalue
  | found given admitted =>
    obtain rfl := Option.some.inj (given.symm.trans hvalue)
    exact hadmits admitted

theorem value?_ne_undefined : v.value? map ≠ some .undefined := by
  unfold Variable.value?
  split
  · nofun
  · rename_i defined
    exact defined

/-- What treats undefined as missing depends on the value of the variable only. -/
theorem apply_value? {β : Type} (f : Option Value → β) (h : f (some .undefined) = f none) :
    f (v.value? map) = f (get? map v.name) := by
  unfold Variable.value?
  split
  · rename_i hundefined
    rw [hundefined, h]
  · rfl

theorem faulty_of_not_text {value : Value} (hvalue : v.value? map = some value)
    (other : ∀ text, value ≠ .string text) : v.Faulty map := by
  refine ⟨value, hvalue, fun hadmits => ?_⟩
  cases v with
  | environment =>
    obtain ⟨e, he⟩ := hadmits
    exact other e.name he
  | fallback =>
    obtain ⟨text, htext⟩ := hadmits
    exact other text htext
  | level =>
    obtain ⟨l, hl⟩ := hadmits
    exact other l.name hl

theorem checked_choice? (names : List String) {ofName? : String → Option α}
    (named : ∀ text a, ofName? text = some a ↔ text = nameOf a)
    (admits : ∀ value, v.Admits value ↔ ∃ a, value = .string (nameOf a)) :
    Checked v nameOf map (Config.choice? v.name names ofName? (get? map v.name)) := by
  rw [← apply_value? (Config.choice? v.name names ofName?) rfl]
  cases hvalue : v.value? map with
  | none => exact .missing hvalue
  | some value =>
    cases value with
    | undefined => exact absurd hvalue value?_ne_undefined
    | string text =>
      rw [Config.choice?]
      cases hname : ofName? text with
      | some a =>
        obtain rfl := (named text a).mp hname
        exact .found hvalue ((admits _).mpr ⟨a, rfl⟩)
      | none =>
        refine .faulty ⟨_, hvalue, fun hadmits => ?_⟩ rfl
        obtain ⟨a, ha⟩ := (admits _).mp hadmits
        cases hname.symm.trans ((named text a).mpr (Value.string.inj ha))
    | _ => exact .faulty (faulty_of_not_text hvalue (by nofun)) rfl

theorem checked_text? (admits : ∀ text, v.Admits (.string text)) :
    Checked v id map (Config.text? v.name (get? map v.name)) := by
  rw [← apply_value? (Config.text? v.name) rfl]
  cases hvalue : v.value? map with
  | none => exact .missing hvalue
  | some value =>
    cases value with
    | undefined => exact absurd hvalue value?_ne_undefined
    | string text => exact .found hvalue (admits text)
    | _ => exact .faulty (faulty_of_not_text hvalue (by nofun)) rfl

end Checked

/-! ## The check of the settings -/

theorem checked_environment (map : Record Value) :
    Checked .environment Environment.name map
      (Config.choice? Config.environmentName (Environment.all.map Environment.name)
        Environment.ofName? (get? map Config.environmentName)) :=
  checked_choice? _ (fun _ _ => Environment.ofName?_eq_some_iff) fun _ => Iff.rfl

theorem checked_fallback (map : Record Value) :
    Checked .fallback id map
      (Config.text? Config.fallbackName (get? map Config.fallbackName)) :=
  checked_text? fun text => ⟨text, rfl⟩

theorem checked_level (map : Record Value) :
    Checked .level Level.name map
      (Config.choice? Config.levelName (Level.all.map Level.name) Level.ofName?
        (get? map Config.levelName)) :=
  checked_choice? _ (fun _ _ => Level.ofName?_eq_some_iff) fun _ => Iff.rfl

theorem selects_of_checked {map : Record Value} {chosen : Option Environment} {named : Option String}
    (henvironment : Checked .environment Environment.name map (.ok chosen))
    (hfallback : Checked .fallback id map (.ok named)) :
    Selects map (chosen.getD ((named.bind Environment.ofName?).getD .development)) := by
  cases henvironment with
  | found given => exact .chosen given
  | missing missing =>
    cases hfallback with
    | missing unnamed => exact .default missing fun e given => by cases unnamed.symm.trans given
    | @found text given =>
      rw [id] at given
      rw [Option.getD_none, Option.bind_some]
      cases hname : Environment.ofName? text with
      | some e =>
        rw [Environment.ofName?_eq_some_iff.mp hname] at given
        exact .named missing given
      | none =>
        refine .default missing fun e he => ?_
        have htext := Value.string.inj (Option.some.inj (given.symm.trans he))
        cases hname.symm.trans (Environment.ofName?_eq_some_iff.mpr htext)

theorem selectsLeast_of_checked {map : Record Value} {given : Option Level}
    (h : Checked .level Level.name map (.ok given)) (selected : Environment) :
    SelectsLeast map selected (given.getD selected.preset.minLevel) := by
  cases h with
  | missing missing => exact .preset missing
  | found given => exact .given given

/-- Settings are refused for the first faulty variable, or none is faulty and what they select is
configured. -/
theorem ofRecord_cases (map : Record Value) :
    (∃ v e, FirstFaulty map v ∧ Config.ofRecord map = .error e ∧ e.subject = v.name) ∨
    ((∀ v : Variable, ¬ v.Faulty map) ∧ ∃ selected given, Config.ofRecord map =
        .ok { environment := some selected, minLevel := given } ∧
      Selects map selected ∧ SelectsLeast map selected (given.getD selected.preset.minLevel)) := by
  have henvironment := checked_environment map
  have hfallback := checked_fallback map
  have hlevel := checked_level map
  rw [Config.ofRecord]
  -- a check is reached only if those before it found no fault
  generalize Config.choice? Config.environmentName _ _ _ = environment at henvironment ⊢
  cases environment with
  | error e =>
    cases henvironment with
    | faulty faulty subject => exact .inl ⟨_, e, .environment faulty, rfl, subject⟩
  | ok chosen =>
    generalize Config.text? _ _ = fallback at hfallback ⊢
    cases fallback with
    | error e =>
      cases hfallback with
      | faulty faulty subject =>
        exact .inl ⟨_, e, .fallback henvironment.not_faulty faulty, rfl, subject⟩
    | ok named =>
      generalize Config.choice? Config.levelName _ _ _ = level at hlevel ⊢
      cases level with
      | error e =>
        cases hlevel with
        | faulty faulty subject =>
          exact .inl
            ⟨_, e, .level henvironment.not_faulty hfallback.not_faulty faulty, rfl, subject⟩
      | ok given =>
        refine .inr ⟨?_, _, given, rfl, selects_of_checked henvironment hfallback,
          selectsLeast_of_checked hlevel _⟩
        rintro (_ | _ | _)
        · exact henvironment.not_faulty
        · exact hfallback.not_faulty
        · exact hlevel.not_faulty

/-- Only the values of the variables matter. -/
theorem ofRecord_congr {map other : Record Value}
    (same : ∀ v : Variable, v.value? other = v.value? map) :
    Config.ofRecord other = Config.ofRecord map := by
  have hsame {β : Type} (v : Variable) (f : Option Value → β) (h : f (some .undefined) = f none) :
      f (get? other v.name) = f (get? map v.name) := by
    rw [← apply_value? f h, ← apply_value? f h, same]
  have henvironment := hsame .environment
    (Config.choice? Config.environmentName (Environment.all.map Environment.name)
      Environment.ofName?) rfl
  have hfallback := hsame .fallback (Config.text? Config.fallbackName) rfl
  have hlevel := hsame .level
    (Config.choice? Config.levelName (Level.all.map Level.name) Level.ofName?) rfl
  simp only [Variable.name, Config.environmentName, Config.fallbackName, Config.levelName]
    at henvironment hfallback hlevel
  simp only [Config.ofRecord, Config.environmentName, Config.fallbackName, Config.levelName,
    henvironment, hfallback, hlevel]

/-! ## What settings do -/

/-- Settings are refused for the first faulty variable. Otherwise they select an environment and a least
level, which decide about calls and stacks on the logger and on all that descend from it, and
nothing depends on the rest of the map. -/
theorem settings_take_effect (map : Record Value) :
    let outcome := Config.ofValue (.object map)
    ((∃ e, outcome = .error e) ↔ ∃ v : Variable, v.Faulty map) ∧
    (∀ e, outcome = .error e → ∃ v, FirstFaulty map v ∧
      e.message = "Invalid logger environment: " ++ v.name ++ ": " ++ e.problem) ∧
    (∀ config, outcome = .ok config → ∃ selected least,
      Selects map selected ∧ SelectsLeast map selected least ∧
      ∀ (sink : Sink) (path : List Metadata) (clock : Clock) (level : Level) (event : String)
        (metadata : Metadata),
        let logger := path.foldl Logger.child (.create config sink)
        let call := logger.log clock level event metadata
        (level.priority < least.priority → call = ⟨.ok (), []⟩) ∧
        (least.priority ≤ level.priority → logger.CallEnds clock level event metadata call) ∧
        ∀ text ∈ call.lines, ∃ time members,
          text = (Logger.entry level event members time).text ∧
          ∀ key name message stack properties,
            last? (path ++ [metadata]) key = some (.error name message stack properties) →
              ∀ shown, (∃ fields, (key, .object fields) ∈ members ∧
                  get? fields "stack" = some (.string shown)) ↔
                selected ≠ .production ∧ stack = some shown ∧ shown ≠ "" ∧
                  key ≠ Logger.reservedName) ∧
    ∀ other : Record Value, (∀ v : Variable, v.value? other = v.value? map) →
      Config.ofValue (.object other) = outcome := by
  intro outcome
  rcases ofRecord_cases map with ⟨v, e, first, herror, hsubject⟩ |
    ⟨sound, selected, given, hok, selects, least⟩
  · refine ⟨iff_of_true ⟨e, herror⟩ ⟨v, first.faulty⟩, fun found hfound => ?_, fun config hconfig => ?_,
      fun other => ofRecord_congr⟩
    · obtain rfl := Except.error.inj (herror.symm.trans hfound)
      refine ⟨v, first, ?_⟩
      rw [← hsubject]
      rfl
    · cases herror.symm.trans hconfig
  · refine ⟨iff_of_false ?_ fun ⟨v, faulty⟩ => sound v faulty, fun e he => ?_, fun config hconfig => ?_,
      fun other => ofRecord_congr⟩
    · rintro ⟨e, he⟩
      cases hok.symm.trans he
    · cases hok.symm.trans he
    · obtain rfl := Except.ok.inj (hok.symm.trans hconfig)
      refine ⟨selected, _, selects, least, ?_⟩
      intro sink path clock level event metadata logger call
      have hadmits : logger.admits level =
          decide ((given.getD selected.preset.minLevel).priority ≤ level.priority) :=
        Logger.admits_foldl_child _ sink path level
      refine ⟨fun hlt => ?_, fun hle => ?_, fun text htext => ?_⟩
      · exact Logger.log_of_not_admits (by rw [hadmits, decide_eq_false (not_le.mpr hlt)]) clock event
          metadata
      · exact Logger.callEnds_log (by rw [hadmits, decide_eq_true hle]) clock event metadata
      · obtain ⟨time, members, hentry, -, hstack⟩ :=
          Logger.stack_of_line _ sink path (Logger.line_of_mem_lines htext)
        simp only [ne_eq, Option.some.injEq] at hstack
        exact ⟨time, members, hentry, hstack⟩

end RunningTotal.Log
