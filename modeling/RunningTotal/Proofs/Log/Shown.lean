import RunningTotal.Proofs.Log.Line

/-! What a line shows of the metadata. The properties of a line's metadata under a name are the document
of the value given last under it, flattened if it is an error (`Logger.filter_line`), with its stack
outside production (`Logger.stack_of_line`), and their text stands in the line
(`infix_of_mem_entry`). So nothing that is given is lost but what is undefined
or stands under the reserved name (`metadata_shown`). -/
set_option autoImplicit false

namespace RunningTotal

open Log Record

/-! ## The text of a member -/

namespace Json

theorem infix_writeMembers {name : String} {value : Json} {members : List (String × Json)}
    (h : (name, value) ∈ members) : quote name ++ ':' :: value.write <:+: writeMembers members := by
  induction members with
  | nil => cases h
  | cons member members ih =>
    obtain ⟨first, shown⟩ := member
    rw [writeMembers]
    rcases List.mem_cons.mp h with heq | h
    · cases heq
      exact ⟨[','], writeMembers members, by simp⟩
    · exact (ih h).trans (List.suffix_append _ _).isInfix

theorem infix_write_object {name : String} {value : Json} {members : List (String × Json)}
    (h : (name, value) ∈ members) :
    quote name ++ ':' :: value.write <:+: write (.object members) := by
  cases members with
  | nil => cases h
  | cons member members =>
    obtain ⟨first, shown⟩ := member
    rw [write]
    rcases List.mem_cons.mp h with heq | h
    · cases heq
      exact ⟨['\x7b'], writeMembers members, by simp⟩
    · exact (infix_writeMembers h).trans (List.suffix_append _ _).isInfix

end Json

namespace Log

theorem infix_of_mem_entry {key : String} {document : Json} {members : List (String × Json)}
    (h : (key, document) ∈ members) (level : Level) (event : String) (time : Instant) :
    Json.quote key ++ ':' :: document.write <:+:
      (Logger.entry level event members time).text.toList := by
  rw [Json.text, String.toList_ofList]
  have hmetadata : Json.quote "metadata" ++ ':' :: Json.write (.object members) <:+:
      (Logger.entry level event members time).write :=
    Json.infix_write_object (by simp)
  have hobject : Json.write (.object members) <:+
      Json.quote "metadata" ++ ':' :: Json.write (.object members) :=
    ⟨Json.quote "metadata" ++ [':'], by simp⟩
  exact ((Json.infix_write_object h).trans hobject.isInfix).trans hmetadata

/-! ## The members of a line -/

namespace Logger

theorem flatten_ne_undefined {value : Value} (h : value ≠ .undefined) (keepsStacks : Bool) :
    flatten keepsStacks value ≠ .undefined := by
  cases value with
  | error => nofun
  | _ => exact h

/-- A line's metadata hold no name twice. Under a name there is the value given last, written if it has
a document, and nothing under the reserved name or one that was not given. -/
theorem filter_line (config : Config) (sink : Sink) (path : List Metadata) {clock : Clock}
    {level : Level} {event text : String} {metadata : Metadata}
    (h : (path.foldl child (create config sink)).line clock level event metadata = .ok text) :
    ∃ time members, clock = some time ∧ text = (entry level event members time).text ∧
      (names members).Nodup ∧
      (∀ key value, last? (path ++ [metadata]) key = some value → key ≠ reservedName →
        ∃ shown, (flatten (config.environment ≠ some .production) value).toJson = .ok shown ∧
          members.filter (·.1 = key) = (shown.map fun document => (key, document)).toList) ∧
      (∀ key, last? (path ++ [metadata]) key = none ∨ key = reservedName →
        members.filter (·.1 = key) = []) := by
  obtain ⟨time, members, hclock, htext, hmembers⟩ := exists_of_line h
  rw [merge_foldl_child, keepsStacks_foldl_child] at hmembers
  have hnodup : (names (loggable (config.environment ≠ some .production)
      (spread (path ++ [metadata])))).Nodup :=
    ((ordered_spread _).of_sublist (names_loggable _ _)).nodup
  have hget (key : String) := get?_loggable (config.environment ≠ some .production)
    (spread (path ++ [metadata])) key
  simp only [get?_spread] at hget
  have hfilter := Value.filter_membersToJson hmembers hnodup
  refine ⟨time, members, hclock, htext, (Value.names_membersToJson hmembers).nodup hnodup, ?_, ?_⟩
  · intro key value hlast hkey
    have hvalue := hget key
    rw [if_neg hkey, hlast, Option.map_some] at hvalue
    obtain ⟨shown, hshown⟩ := Value.exists_toJson_of_mem hmembers ((mem_iff_get? hnodup).mpr hvalue)
    refine ⟨shown, hshown, ?_⟩
    rw [hfilter, hvalue, Option.bind_some, Value.written?, hshown]
    rfl
  · intro key hkey
    have hnone := hget key
    rcases hkey with hkey | hkey
    · rw [hkey, Option.map_none, ite_self] at hnone
      rw [hfilter, hnone]
      rfl
    · rw [if_pos hkey] at hnone
      rw [hfilter, hnone]
      rfl

/-- The stack of an error that is given last under a name is in the line just when the error has one that
is not empty and the environment is not production. -/
theorem stack_of_line (config : Config) (sink : Sink) (path : List Metadata) {clock : Clock}
    {level : Level} {event text : String} {metadata : Metadata}
    (h : (path.foldl child (create config sink)).line clock level event metadata = .ok text) :
    ∃ time members, text = (entry level event members time).text ∧ (names members).Nodup ∧
      ∀ key name message stack properties,
        last? (path ++ [metadata]) key = some (.error name message stack properties) →
          ∀ shown, (∃ fields, (key, .object fields) ∈ members ∧
              get? fields "stack" = some (.string shown)) ↔
            config.environment ≠ some .production ∧ stack = some shown ∧ shown ≠ "" ∧
              key ≠ reservedName := by
  obtain ⟨time, members, -, htext, hnodup, hgiven, hrest⟩ := filter_line config sink path h
  refine ⟨time, members, htext, hnodup, fun key name message stack properties hlast shown => ?_⟩
  have hmem (document : Json) :
      (key, document) ∈ members ↔ (key, document) ∈ members.filter (·.1 = key) := by
    simp
  by_cases hkey : key = reservedName
  · have hnone (document : Json) : (key, document) ∉ members := by
      rw [hmem, hrest key (.inr hkey)]
      exact List.not_mem_nil
    exact iff_of_false (fun ⟨_, hshown, _⟩ => hnone _ hshown) (fun ⟨_, _, _, hne⟩ => hne hkey)
  · obtain ⟨document, hdocument, hfilter⟩ := hgiven key _ hlast hkey
    obtain ⟨fields, hfields, hstack⟩ := exists_toJson_flatten_error
      (config.environment ≠ some .production) name message stack properties
    obtain rfl := Except.ok.inj (hfields.symm.trans hdocument)
    simp only [hfilter, Option.map_some, Option.toList_some, List.mem_singleton, Prod.mk.injEq,
      true_and] at hmem
    simp only [hmem, Json.object.injEq, exists_eq_left, hstack, decide_eq_true_eq]
    simp only [ne_eq, hkey, not_false_eq_true, and_true]

end Logger

/-! ## What is shown -/

/-- Every line of a call has each name of which the value given last is not undefined just once, with
the document of that value, and no other name. Under the reserved name there is nothing. -/
theorem metadata_shown (config : Config) (sink : Sink) (path : List Metadata) (clock : Clock)
    (level : Level) (event : String) (metadata : Metadata) :
    ∀ text ∈ ((path.foldl Logger.child (.create config sink)).log clock level event metadata).lines,
      ∃ time members, clock = some time ∧ text = (Logger.entry level event members time).text ∧
        (∀ key value, last? (path ++ [metadata]) key = some value → value ≠ .undefined →
          key ≠ Logger.reservedName →
            ∃ document,
              (Logger.flatten (config.environment ≠ some .production) value).toJson =
                .ok (some document) ∧
              members.filter (·.1 = key) = [(key, document)] ∧
              Json.quote key ++ ':' :: document.write <:+: text.toList) ∧
        (∀ key, last? (path ++ [metadata]) key = none ∨
            last? (path ++ [metadata]) key = some .undefined ∨ key = Logger.reservedName →
          key ∉ names members) := by
  intro text htext
  obtain ⟨time, members, hclock, rfl, -, hgiven, hrest⟩ :=
    Logger.filter_line config sink path (Logger.line_of_mem_lines htext)
  refine ⟨time, members, hclock, rfl, ?_, ?_⟩
  · intro key value hlast defined hkey
    obtain ⟨shown, hshown, hfilter⟩ := hgiven key value hlast hkey
    obtain ⟨document, rfl⟩ :=
      Value.exists_document hshown (Logger.flatten_ne_undefined defined _)
    have hmem : (key, document) ∈ members.filter (·.1 = key) := by
      rw [hfilter]
      exact List.mem_singleton_self _
    exact ⟨document, hshown, hfilter,
      infix_of_mem_entry (List.mem_of_mem_filter hmem) level event time⟩
  · intro key hkey hnames
    obtain ⟨member, hmem, hname⟩ := List.mem_map.mp hnames
    have hfilter : members.filter (·.1 = key) = [] := by
      by_cases hreserved : key = Logger.reservedName
      · exact hrest key (.inr hreserved)
      · rcases hkey with hnone | hundefined | hkey
        · exact hrest key (.inl hnone)
        · obtain ⟨shown, hshown, hfilter⟩ := hgiven key .undefined hundefined hreserved
          cases hshown
          exact hfilter
        · exact absurd hkey hreserved
    exact List.filter_eq_nil_iff.mp hfilter member hmem (by simpa using hname)

/-- A child's call gives an inherited name again. -/
theorem metadata_shown_overridden :
    let path : List Metadata := [[("id", .string "r1")]]
    let metadata : Metadata := [("id", .string "r2")]
    let logger := path.foldl Logger.child (.create {} Sink.keeping)
    let time : Instant := ⟨0, by decide⟩
    let text := (Logger.entry .info "event" [("id", .string "r2")] time).text
    text ∈ (logger.log (some time) .info "event" metadata).lines ∧
      ∃ members, text = (Logger.entry .info "event" members time).text ∧
        members.filter (·.1 = "id") = [("id", .string "r2")] := by
  intro path metadata logger time text
  have hlines : text ∈ (logger.log (some time) .info "event" metadata).lines :=
    List.mem_singleton_self text
  obtain ⟨found, members, hclock, htext, hgiven, -⟩ :=
    metadata_shown {} Sink.keeping path (some time) .info "event" metadata text hlines
  obtain ⟨document, hdocument, hfilter, -⟩ := hgiven "id" (.string "r2") rfl (by nofun) (by decide)
  cases hclock
  cases hdocument
  exact ⟨hlines, members, htext, hfilter⟩

/-- What a child was given under the reserved name is not in the lines of its calls. -/
theorem metadata_lost_under_reserved_name :
    let logger := (Logger.create { environment := some .test } Sink.keeping).child
      [(Logger.reservedName, .string "r1")]
    let time : Instant := ⟨1767323045000, by decide⟩
    last? [[(Logger.reservedName, Value.string "r1")], []] Logger.reservedName =
        some (.string "r1") ∧
      (logger.log (some time) .info "event" []).lines = [(Logger.entry .info "event" [] time).text] :=
  ⟨rfl, rfl⟩

end Log

end RunningTotal
