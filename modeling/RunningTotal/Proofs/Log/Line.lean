import RunningTotal.Proofs.Log.Inherited
import RunningTotal.Proofs.Value.Decoded

/-! The line of an event. Metadata are reported (`reportedMembers`) with errors at the top flattened and
all else as it is decoded, under every name but the reserved one (`Logger.get?_loggable`). The line
is the entry of these, if the clock has a reading and all of them can be written
(`Logger.exists_of_line`), and it reads back as that entry (`line_reads_back`). -/
set_option autoImplicit false

namespace RunningTotal.Log

open Record Json

/-! ## Metadata as they are reported -/

/-- The stack of an error that is kept: none, if it is empty or the environment keeps none. -/
def keptStack (keepsStacks : Bool) : Option String → Option String
  | some stack => if keepsStacks = true ∧ stack ≠ "" then some stack else none
  | none => none

theorem keptStack_eq_some_iff {keepsStacks : Bool} {stack : Option String} {shown : String} :
    keptStack keepsStacks stack = some shown ↔ keepsStacks = true ∧ stack = some shown ∧ shown ≠ "" := by
  cases stack with
  | none => simp [keptStack]
  | some stack =>
    by_cases h : stack = ""
    · simp [keptStack, h]
    · simp [keptStack, h]
      rintro - rfl
      exact h

/-- What a reader of the line has for a value of the metadata: an error is its name, its message and
its stack, any other value comes back as it is decoded. -/
def reported (keepsStacks : Bool) : Value → Option Json
  | .error name message stack _ => some (.object
    ([("name", .string name), ("message", .string message)] ++
      (keptStack keepsStacks stack).toList.map fun stack => ("stack", .string stack)))
  | value => value.decoded

def reportedMembers (keepsStacks : Bool) (metadata : Metadata) : List (String × Json) :=
  metadata.filterMap fun member =>
    (reported keepsStacks member.2).map fun shown => (member.1, shown)

/-! ## Flattening -/

theorem ordered_error {α : Type} (name message : α) (stack : Option α) :
    Ordered ([("name", name), ("message", message)] ++ stack.toList.map fun s => ("stack", s)) := by
  rw [ordered_iff_names]
  cases stack with
  | none => exact (by decide : ["name", "message"].Pairwise fun a b => a ≠ b ∧ rank a ≤ rank b)
  | some s =>
    exact (by decide : ["name", "message", "stack"].Pairwise fun a b => a ≠ b ∧ rank a ≤ rank b)

namespace Logger

theorem flatten_error (keepsStacks : Bool) (name message : String) (stack : Option String)
    (properties : List (String × Value)) :
    flatten keepsStacks (.error name message stack properties) =
      .object ([("name", .string name), ("message", .string message)] ++
        ((keptStack keepsStacks stack).map Value.string).toList.map fun s => ("stack", s)) := by
  cases keepsStacks with
  | false => cases stack <;> rfl
  | true =>
    cases stack with
    | none => rfl
    | some stack => by_cases h : stack = "" <;> simp [flatten, keptStack, h]

/-- The document of a flattened error, in which its stack stands if stacks are kept and it has one that
is not empty. -/
theorem exists_toJson_flatten_error (keepsStacks : Bool) (name message : String)
    (stack : Option String) (properties : List (String × Value)) :
    ∃ fields, (flatten keepsStacks (.error name message stack properties)).toJson =
        .ok (some (.object fields)) ∧
      ∀ shown, get? fields "stack" = some (.string shown) ↔
        keepsStacks = true ∧ stack = some shown ∧ shown ≠ "" := by
  refine ⟨[("name", .string name), ("message", .string message)] ++
    (keptStack keepsStacks stack).toList.map fun stack => ("stack", .string stack), ?_,
    fun shown => ?_⟩
  · rw [flatten_error]
    cases keptStack keepsStacks stack <;> rfl
  · rw [← keptStack_eq_some_iff]
    cases keptStack keepsStacks stack <;> simp [get?_cons]

theorem plain_flatten {value : Value} (h : value.Plain) (keepsStacks : Bool) :
    (flatten keepsStacks value).Plain := by
  cases h with
  | @error name message stack properties =>
    rw [flatten_error]
    refine .object (ordered_error _ _ _) ?_
    intro member hmember
    cases hstack : keptStack keepsStacks stack <;>
      simp only [hstack, Option.map, Option.toList, List.map, List.cons_append, List.nil_append,
        List.mem_cons, List.not_mem_nil, or_false] at hmember
    · rcases hmember with rfl | rfl <;> exact .string _
    · rcases hmember with rfl | rfl | rfl <;> exact .string _
  | undefined => exact .undefined
  | null => exact .null
  | bool value => exact .bool value
  | integer safe => exact .integer safe
  | notFinite h => exact .notFinite h
  | string value => exact .string value
  | array plain => exact .array plain
  | object ordered plain => exact .object ordered plain

theorem decoded_flatten (keepsStacks : Bool) (value : Value) :
    (flatten keepsStacks value).decoded = reported keepsStacks value := by
  cases value with
  | error name message stack properties =>
    rw [flatten_error]
    cases h : keptStack keepsStacks stack <;> simp [reported, Value.decoded, Value.decodedMembers, h]
  | _ => rfl

theorem loggable_cons (keepsStacks : Bool) (name : String) (value : Value) (rest : Metadata) :
    loggable keepsStacks ((name, value) :: rest) =
      if name = reservedName then loggable keepsStacks rest
      else (name, flatten keepsStacks value) :: loggable keepsStacks rest := by
  by_cases h : name = reservedName <;> simp [loggable, h]

theorem decodedMembers_loggable (keepsStacks : Bool) (metadata : Metadata) :
    Value.decodedMembers (loggable keepsStacks metadata) =
      reportedMembers keepsStacks (metadata.filter (·.1 ≠ reservedName)) := by
  rw [Value.decodedMembers_eq_filterMap, loggable, List.filterMap_map, reportedMembers]
  simp only [Function.comp_def, decoded_flatten]

theorem get?_loggable (keepsStacks : Bool) (metadata : Metadata) (key : String) :
    get? (loggable keepsStacks metadata) key =
      if key = reservedName then none else (get? metadata key).map (flatten keepsStacks) := by
  induction metadata with
  | nil => simp [loggable]
  | cons member rest ih =>
    obtain ⟨name, value⟩ := member
    rw [loggable_cons, get?_cons]
    by_cases hname : name = reservedName
    · rw [if_pos hname, ih, hname]
      by_cases hkey : key = reservedName <;> simp [hkey]
    · rw [if_neg hname, get?_cons, ih]
      by_cases hkey : key = name
      · simp [hkey, hname]
      · simp [hkey]

theorem names_loggable (keepsStacks : Bool) (metadata : Metadata) :
    (names (loggable keepsStacks metadata)).Sublist (names metadata) := by
  have hnames : names (loggable keepsStacks metadata) =
      names (metadata.filter (·.1 ≠ reservedName)) := by
    simp [names, loggable, Function.comp_def]
  rw [hnames]
  exact List.filter_sublist.map Prod.fst

/-! ## The line of a call -/

theorem readsBack_entry (level : Level) (event : String) {members shown : List (String × Json)}
    (h : ReadsBack (.object members) (.object shown)) (time : Instant) :
    ReadsBack (entry level event members time) (entry level event shown time) := by
  have hmembers : List.Forall₂ MemberReadsBack
      [("level", .string level.name), ("event_type", .string event), ("metadata", .object members),
        ("timestamp", .string time.timestamp)]
      [("level", .string level.name), ("event_type", .string event), ("metadata", .object shown),
        ("timestamp", .string time.timestamp)] :=
    .cons ⟨rfl, .string _⟩ (.cons ⟨rfl, .string _⟩ (.cons ⟨rfl, h⟩ (.cons ⟨rfl, .string _⟩ .nil)))
  have hread := ReadsBack.object hmembers
  rw [Ordered.ofList_eq] at hread
  · exact hread
  · rw [ordered_iff_names]
    exact (by decide : ["level", "event_type", "metadata", "timestamp"].Pairwise
      fun a b => a ≠ b ∧ rank a ≤ rank b)

theorem exists_loggable {metadata : Metadata} (ordered : Ordered metadata)
    (plain : ∀ member ∈ metadata, member.2.Plain) (keepsStacks : Bool) :
    ∃ members, Value.membersToJson (loggable keepsStacks metadata) = .ok members ∧
      ReadsBack (.object members)
        (.object (reportedMembers keepsStacks (metadata.filter (·.1 ≠ reservedName)))) := by
  rw [← decodedMembers_loggable]
  refine Value.exists_object (ordered.of_sublist (names_loggable _ _)) ?_
  intro member hmember
  obtain ⟨given, hgiven, rfl⟩ := List.mem_map.mp hmember
  exact (plain_flatten (plain given (List.mem_of_mem_filter hgiven)) keepsStacks).decodes

theorem keepsStacks_foldl_child (config : Config) (sink : Sink) (path : List Metadata) :
    (path.foldl child (create config sink)).environment.preset.keepsStacks =
      decide (config.environment ≠ some .production) := by
  rw [foldl_child]
  obtain ⟨environment, minLevel⟩ := config
  cases environment with
  | none => rfl
  | some environment => cases environment <;> rfl

theorem lines_log {l : Logger} {clock : Clock} {level : Level} {event text : String}
    {metadata : Metadata} (hline : l.line clock level event metadata = .ok text) :
    (l.log clock level event metadata).lines =
      if l.admits level ∧ l.sink text = .kept then [text] else [] := by
  rw [log, hline]
  cases l.admits level
  · simp [Logged.pure]
  · cases h : l.sink text <;> simp [h, Logged.pure, Logged.fail]

theorem exists_of_line {l : Logger} {clock : Clock} {level : Level} {event text : String}
    {metadata : Metadata} (h : l.line clock level event metadata = .ok text) :
    ∃ time members, clock = some time ∧ text = (entry level event members time).text ∧
      Value.membersToJson
        (loggable l.environment.preset.keepsStacks (merge l.metadata metadata)) = .ok members := by
  cases clock with
  | none => cases h
  | some time =>
    simp only [line] at h
    split at h
    · cases h
    · rename_i members hmembers
      exact ⟨time, members, rfl, (Except.ok.inj h).symm, hmembers⟩

theorem line_of_mem_lines {l : Logger} {clock : Clock} {level : Level} {event text : String}
    {metadata : Metadata} (h : text ∈ (l.log clock level event metadata).lines) :
    l.line clock level event metadata = .ok text := by
  cases hline : l.line clock level event metadata with
  | error e =>
    rw [log, hline] at h
    cases hadmits : l.admits level <;> simp [hadmits, Logged.pure, Logged.fail] at h
  | ok shown =>
    rw [lines_log hline] at h
    split at h
    · rw [List.mem_singleton.mp h]
    · cases h

end Logger

/-! ## The line read -/

/-- The line of a call has no control characters and reads as an object of the level, the event, the
metadata and the time: those of the chain of children with those of the call spread over them. -/
theorem line_reads_back (config : Config) (sink : Sink) (path : List Metadata) (level : Level)
    (event : String) (metadata : Metadata) (time : Instant)
    (plain : ∀ member ∈ spread (path ++ [metadata]), member.2.Plain)
    (unreserved : Logger.reservedName ∉ names (spread (path ++ [metadata]))) :
    let logger := path.foldl Logger.child (.create config sink)
    let shown := reportedMembers (config.environment ≠ some .production) (spread (path ++ [metadata]))
    ∃ text, logger.line (some time) level event metadata = .ok text ∧
      (logger.log (some time) level event metadata).lines =
        (if logger.admits level ∧ sink text = .kept then [text] else []) ∧
      (∀ c ∈ text.toList, 0x20 ≤ c.toNat) ∧
      parse? text = some (.object [("level", .string level.name), ("event_type", .string event),
        ("metadata", .object shown), ("timestamp", .string time.timestamp)]) ∧
      Ordered shown := by
  intro logger shown
  have hmerge : merge logger.metadata metadata = spread (path ++ [metadata]) :=
    Logger.merge_foldl_child config sink path metadata
  have hfilter : (spread (path ++ [metadata])).filter (·.1 ≠ Logger.reservedName) =
      spread (path ++ [metadata]) := by
    refine List.filter_eq_self.mpr fun member hmember => ?_
    simp only [ne_eq, decide_not, Bool.not_eq_eq_eq_not, Bool.not_true, decide_eq_false_iff_not]
    rintro hname
    exact unreserved (hname ▸ List.mem_map_of_mem hmember)
  obtain ⟨members, hmembers, hread⟩ := Logger.exists_loggable (ordered_spread _) plain
    (decide (config.environment ≠ some .production))
  rw [hfilter] at hread
  have hline : logger.line (some time) level event metadata =
      .ok (Logger.entry level event members time).text := by
    simp only [Logger.line, hmerge, logger, Logger.keepsStacks_foldl_child, hmembers]
  refine ⟨_, hline, ?_, ?_, ?_, ?_⟩
  · rw [Logger.lines_log hline]
    simp only [logger, Logger.foldl_child]
    rfl
  · rw [text, String.toList_ofList]
    exact printable_write _
  · exact (Logger.readsBack_entry level event hread time).parse?_text
  · have hshown : shown = Value.decodedMembers (Logger.loggable
        (config.environment ≠ some .production) (spread (path ++ [metadata]))) := by
      rw [Logger.decodedMembers_loggable, hfilter]
    rw [hshown]
    exact Value.ordered_decodedMembers ((ordered_spread _).of_sublist (Logger.names_loggable _ _))

/-- An index comes first, a value given again keeps its place, and only the error at the top keeps its
stack. -/
theorem line_reads_back_nested :
    let path : List Metadata := [[("b", .number .nan)],
      [("7", .error "TypeError" "no \"x\"\n" (some "at f") [])]]
    let metadata : Metadata := [("b", .array [.undefined, .number (Binary64.zero true),
      .error "Error" "inner" (some "at g") []])]
    let logger := path.foldl Logger.child (.create {} Sink.keeping)
    let time : Instant := ⟨0, by decide⟩
    (∀ member ∈ spread (path ++ [metadata]), member.2.Plain) ∧
      Logger.reservedName ∉ names (spread (path ++ [metadata])) ∧
      ∃ text, (logger.log (some time) .info "tab\t" metadata).lines = [text] ∧
        parse? text = some (.object [("level", .string "info"), ("event_type", .string "tab\t"),
          ("metadata", .object [("7", .object [("name", .string "TypeError"),
              ("message", .string "no \"x\"\n"), ("stack", .string "at f")]),
            ("b", .array [.null, .number (Binary64.zero false), .object []])]),
          ("timestamp", .string time.timestamp)]) := by
  intro path metadata logger time
  have hspread : spread (path ++ [metadata]) =
      [("7", .error "TypeError" "no \"x\"\n" (some "at f") []),
        ("b", .array [.undefined, .number (Binary64.zero true),
          .error "Error" "inner" (some "at g") []])] := by
    have hrank : rank "7" < rank "b" := precedes_iff.mp (by decide +kernel)
    change Record.insert "b" _ (Record.insert "7" _ [("b", _)]) = _
    rw [insert_cons_of_lt hrank, insert_cons_of_le (by decide) hrank.le, insert_cons_self]
  have herror (name message stack : String) :
      (Value.error name message (some stack) []).Plain := .error ordered_nil (by nofun)
  have hitems : ∀ item ∈ [Value.undefined, .number (Binary64.zero true),
      .error "Error" "inner" (some "at g") []], item.Plain :=
    List.forall_mem_cons.mpr ⟨.undefined, List.forall_mem_cons.mpr
      ⟨.integer (by decide +kernel), List.forall_mem_singleton.mpr (herror _ _ _)⟩⟩
  have plain : ∀ member ∈ spread (path ++ [metadata]), member.2.Plain := by
    rw [hspread]
    exact List.forall_mem_cons.mpr ⟨herror _ _ _, List.forall_mem_singleton.mpr (.array hitems)⟩
  have unreserved : Logger.reservedName ∉ names (spread (path ++ [metadata])) := by
    rw [hspread]
    exact (by decide : Logger.reservedName ∉ ["7", "b"])
  obtain ⟨text, -, hlines, -, hparse, -⟩ :=
    line_reads_back {} Sink.keeping path .info "tab\t" metadata time plain unreserved
  refine ⟨plain, unreserved, text, hlines, ?_⟩
  rw [hspread] at hparse
  exact hparse

end RunningTotal.Log
