import RunningTotal.Value
import RunningTotal.Proofs.Json.Reading

/-! What a reader makes of a value that was written. `Value.decoded` is what the value comes back as;
a value with integers that are safe and records in order is written, and its text reads back so
(`Value.Plain.decodes`). A value has no written form just when it holds a big integer at some
depth (`Value.toJson_eq_error_iff`), and a record that has one has those of its values under their
names, each once where names are given once (`Value.filter_membersToJson`). -/
set_option autoImplicit false

namespace RunningTotal.Value

open Binary64 Json

/-! ## The value that comes back -/

/-- Zero loses its sign, and what is no number of its own is `null`. -/
def decodedNumber : Binary64 → Json
  | .finite x => .number (if Binary64.finite x = zero true then zero false else .finite x)
  | .nan | .infinite _ => .null

mutual

/-- The value as its reader has it, if it is written at all. An error comes back as its properties,
which an error made plainly has none of. -/
def decoded : Value → Option Json
  | .undefined | .bigint _ => none
  | .null => some .null
  | .bool value => some (.bool value)
  | .number value => some (decodedNumber value)
  | .string value => some (.string value)
  | .array items => some (.array (decodedItems items))
  | .object members => some (.object (decodedMembers members))
  | .error _ _ _ properties => some (.object (decodedMembers properties))

/-- An item keeps its place even where it is absent. -/
def decodedItems : List Value → List Json
  | [] => []
  | item :: items => (decoded item).getD .null :: decodedItems items

def decodedMembers : List (String × Value) → List (String × Json)
  | [] => []
  | (name, value) :: members =>
    ((decoded value).map fun shown => (name, shown)).toList ++ decodedMembers members

end

theorem decodedMembers_eq_filterMap (members : List (String × Value)) :
    decodedMembers members =
      members.filterMap fun member => (decoded member.2).map fun shown => (member.1, shown) := by
  induction members with
  | nil => rfl
  | cons member members ih =>
    obtain ⟨name, value⟩ := member
    rw [decodedMembers, ih, List.filterMap_cons]
    cases decoded value <;> rfl

theorem names_decodedMembers (members : List (String × Value)) :
    (Record.names (decodedMembers members)).Sublist (Record.names members) := by
  rw [decodedMembers_eq_filterMap]
  exact Record.names_filterMap decoded members

theorem ordered_decodedMembers {members : List (String × Value)} (h : Record.Ordered members) :
    Record.Ordered (decodedMembers members) := h.of_sublist (names_decodedMembers members)

/-! ## Values that read back -/

/-- No big integer at any depth, integers within the safe range, and records in order. -/
inductive Plain : Value → Prop
  | undefined : Plain .undefined
  | null : Plain .null
  | bool (value : Bool) : Plain (.bool value)
  | integer {x : Binary64} (safe : x.isSafe = true) : Plain (.number x)
  | notFinite {x : Binary64} (h : ∀ y, x ≠ .finite y) : Plain (.number x)
  | string (value : String) : Plain (.string value)
  | array {items : List Value} (plain : ∀ item ∈ items, Plain item) : Plain (.array items)
  | object {members : List (String × Value)} (ordered : Record.Ordered members)
      (plain : ∀ member ∈ members, Plain member.2) : Plain (.object members)
  | error {name message : String} {stack : Option String} {properties : List (String × Value)}
      (ordered : Record.Ordered properties) (plain : ∀ property ∈ properties, Plain property.2) :
      Plain (.error name message stack properties)

theorem safeInt?_zero (negative : Bool) : (zero negative).safeInt? = some 0 := by
  cases negative <;> decide +kernel

theorem decodedNumber_of_safe {x : Binary64} {n : Int} (h : x.safeInt? = some n) :
    decodedNumber x = .number (ofInt n) := by
  obtain ⟨y, rfl, -⟩ := exists_finite_of_toInt? (safeInt?_eq_some_iff.mp h).1
  unfold decodedNumber
  by_cases hzero : Binary64.finite y = zero true
  · rw [hzero, safeInt?_zero] at h
    obtain rfl := Option.some.inj h
    simp only [if_pos hzero]
    rfl
  · simp only [if_neg hzero]
    rw [eq_ofInt h hzero]

theorem decodedNumber_of_notFinite {x : Binary64} (h : ∀ y, x ≠ .finite y) :
    decodedNumber x = .null := by
  cases x with
  | finite y => exact absurd rfl (h y)
  | nan => rfl
  | infinite => rfl

/-- The value is left out, or it is written and its text reads back as the value decoded. -/
def Decodes (value : Value) : Prop :=
  (toJson value = .ok none ∧ decoded value = none) ∨
    ∃ d shown, toJson value = .ok (some d) ∧ decoded value = some shown ∧ ReadsBack d shown

theorem exists_itemsToJson {items : List Value} (h : ∀ item ∈ items, Decodes item) :
    ∃ ds, itemsToJson items = .ok ds ∧ List.Forall₂ ReadsBack ds (decodedItems items) := by
  induction items with
  | nil => exact ⟨[], rfl, .nil⟩
  | cons item items ih =>
    obtain ⟨hitem, hitems⟩ := List.forall_mem_cons.mp h
    obtain ⟨ds, hds, hread⟩ := ih hitems
    rcases hitem with ⟨hd, hnone⟩ | ⟨d, shown, hd, hsome, hshown⟩
    · refine ⟨.null :: ds, by rw [itemsToJson, hd, hds]; rfl, ?_⟩
      rw [decodedItems, hnone]
      exact .cons .null hread
    · refine ⟨d :: ds, by rw [itemsToJson, hd, hds]; rfl, ?_⟩
      rw [decodedItems, hsome]
      exact .cons hshown hread

theorem exists_membersToJson {members : List (String × Value)}
    (h : ∀ member ∈ members, Decodes member.2) :
    ∃ ds, membersToJson members = .ok ds ∧
      List.Forall₂ MemberReadsBack ds (decodedMembers members) := by
  induction members with
  | nil => exact ⟨[], rfl, .nil⟩
  | cons member members ih =>
    obtain ⟨name, value⟩ := member
    obtain ⟨hvalue, hmembers⟩ := List.forall_mem_cons.mp h
    obtain ⟨ds, hds, hread⟩ := ih hmembers
    rcases hvalue with ⟨hd, hnone⟩ | ⟨d, shown, hd, hsome, hshown⟩
    · refine ⟨ds, by rw [membersToJson, hd, hds]; rfl, ?_⟩
      rw [decodedMembers, hnone]
      exact hread
    · refine ⟨(name, d) :: ds, by rw [membersToJson, hd, hds]; rfl, ?_⟩
      rw [decodedMembers, hsome]
      exact .cons ⟨rfl, hshown⟩ hread

theorem exists_object {members : List (String × Value)} (ordered : Record.Ordered members)
    (h : ∀ member ∈ members, Decodes member.2) :
    ∃ ds, membersToJson members = .ok ds ∧
      ReadsBack (.object ds) (.object (decodedMembers members)) := by
  obtain ⟨ds, hds, hread⟩ := exists_membersToJson h
  have hobject := ReadsBack.object hread
  rw [(ordered_decodedMembers ordered).ofList_eq] at hobject
  exact ⟨ds, hds, hobject⟩

theorem Plain.decodes {value : Value} (h : Plain value) : Decodes value := by
  induction h with
  | undefined => exact .inl ⟨rfl, rfl⟩
  | null => exact .inr ⟨.null, .null, rfl, rfl, .null⟩
  | bool value => exact .inr ⟨_, _, rfl, rfl, .bool value⟩
  | @integer x safe =>
    obtain ⟨n, hn⟩ := Option.isSome_iff_exists.mp safe
    exact .inr ⟨_, _, rfl, by rw [decoded, decodedNumber_of_safe hn], .integer hn⟩
  | notFinite h => exact .inr ⟨_, _, rfl, by rw [decoded, decodedNumber_of_notFinite h], .notFinite h⟩
  | string value => exact .inr ⟨_, _, rfl, rfl, .string value⟩
  | array _ ih =>
    obtain ⟨ds, hds, hread⟩ := exists_itemsToJson ih
    exact .inr ⟨.array ds, _, by rw [toJson, hds]; rfl, rfl, .array hread⟩
  | object ordered _ ih =>
    obtain ⟨ds, hds, hread⟩ := exists_object ordered ih
    exact .inr ⟨.object ds, _, by rw [toJson, hds]; rfl, rfl, hread⟩
  | error ordered _ ih =>
    obtain ⟨ds, hds, hread⟩ := exists_object ordered ih
    exact .inr ⟨.object ds, _, by rw [toJson, hds]; rfl, rfl, hread⟩

/-! ## Values that cannot be written -/

/-- There is a big integer in the value, at any depth. -/
inductive HoldsBigint : Value → Prop
  | here (n : Int) : HoldsBigint (.bigint n)
  | item {items : List Value} {item : Value} (mem : item ∈ items) (h : HoldsBigint item) :
      HoldsBigint (.array items)
  | member {members : List (String × Value)} {member : String × Value} (mem : member ∈ members)
      (h : HoldsBigint member.2) : HoldsBigint (.object members)
  | property {name message : String} {stack : Option String} {properties : List (String × Value)}
      {property : String × Value} (mem : property ∈ properties) (h : HoldsBigint property.2) :
      HoldsBigint (.error name message stack properties)

theorem map_eq_error_iff {α β : Type} {f : α → β} {x : Except Unwritable α} :
    x.map f = .error .bigint ↔ x = .error .bigint := by
  cases x <;> simp [Except.map]

mutual

theorem toJson_eq_error_iff : ∀ value : Value, toJson value = .error .bigint ↔ HoldsBigint value
  | .undefined | .null | .bool _ | .number _ | .string _ => ⟨by nofun, by nofun⟩
  | .bigint n => ⟨fun _ => .here n, fun _ => rfl⟩
  | .array items => by
    rw [toJson, map_eq_error_iff, itemsToJson_eq_error_iff items]
    constructor
    · rintro ⟨item, mem, h⟩
      exact .item mem h
    · intro h
      cases h with
      | item mem h => exact ⟨_, mem, h⟩
  | .object members => by
    rw [toJson, map_eq_error_iff, membersToJson_eq_error_iff members]
    constructor
    · rintro ⟨member, mem, h⟩
      exact .member mem h
    · intro h
      cases h with
      | member mem h => exact ⟨_, mem, h⟩
  | .error _ _ _ properties => by
    rw [toJson, map_eq_error_iff, membersToJson_eq_error_iff properties]
    constructor
    · rintro ⟨property, mem, h⟩
      exact .property mem h
    · intro h
      cases h with
      | property mem h => exact ⟨_, mem, h⟩

theorem itemsToJson_eq_error_iff : ∀ items : List Value,
    itemsToJson items = .error .bigint ↔ ∃ item ∈ items, HoldsBigint item
  | [] => ⟨by nofun, by nofun⟩
  | item :: items => by
    rw [List.exists_mem_cons_iff, ← toJson_eq_error_iff item, ← itemsToJson_eq_error_iff items,
      itemsToJson]
    cases toJson item with
    | error e => cases e; exact ⟨fun _ => .inl rfl, fun _ => rfl⟩
    | ok d => cases itemsToJson items <;> simp [bind, Except.bind]

theorem membersToJson_eq_error_iff : ∀ members : List (String × Value),
    membersToJson members = .error .bigint ↔ ∃ member ∈ members, HoldsBigint member.2
  | [] => ⟨by nofun, by nofun⟩
  | (name, value) :: members => by
    rw [List.exists_mem_cons_iff, ← toJson_eq_error_iff value,
      ← membersToJson_eq_error_iff members, membersToJson]
    cases toJson value with
    | error e => cases e; exact ⟨fun _ => .inl rfl, fun _ => rfl⟩
    | ok d => cases membersToJson members <;> cases d <;> simp [bind, Except.bind]

end

/-! ## Records that are written -/

theorem exists_of_membersToJson_cons {name : String} {value : Value} {rest : Record Value}
    {members : List (String × Json)} (h : membersToJson ((name, value) :: rest) = .ok members) :
    ∃ shown others, value.toJson = .ok shown ∧ membersToJson rest = .ok others ∧
      members = (shown.map fun document => (name, document)).toList ++ others := by
  rw [membersToJson] at h
  cases hvalue : value.toJson with
  | error e =>
    rw [hvalue] at h
    cases h
  | ok shown =>
    cases hrest : membersToJson rest with
    | error e =>
      rw [hvalue, hrest] at h
      cases h
    | ok others =>
      rw [hvalue, hrest] at h
      refine ⟨shown, others, rfl, rfl, ?_⟩
      cases shown with
      | none => exact (Except.ok.inj h).symm
      | some document => exact (Except.ok.inj h).symm

/-- The document of a value, if it has one. -/
def written? (value : Value) : Option Json := value.toJson.toOption.join

theorem membersToJson_eq_filterMap {given : Record Value} {members : List (String × Json)}
    (h : membersToJson given = .ok members) :
    members = given.filterMap fun member =>
      (written? member.2).map fun document => (member.1, document) := by
  induction given generalizing members with
  | nil =>
    cases h
    rfl
  | cons member rest ih =>
    obtain ⟨name, first⟩ := member
    obtain ⟨shown, others, hfirst, hrest, rfl⟩ := exists_of_membersToJson_cons h
    have hwritten : written? first = shown := by rw [written?, hfirst]; rfl
    rw [List.filterMap_cons, hwritten, ← ih hrest]
    cases shown <;> rfl

theorem names_membersToJson {given : Record Value} {members : List (String × Json)}
    (h : membersToJson given = .ok members) :
    (Record.names members).Sublist (Record.names given) := by
  rw [membersToJson_eq_filterMap h]
  exact Record.names_filterMap written? given

/-- Under each name stands the document of the value given there, and once at most. -/
theorem filter_membersToJson {given : Record Value} {members : List (String × Json)}
    (h : membersToJson given = .ok members) (nodup : (Record.names given).Nodup) (key : String) :
    members.filter (·.1 = key) =
      (((Record.get? given key).bind written?).map fun document => (key, document)).toList := by
  have hfilter : members.filter (·.1 = key) = (given.filter (·.1 = key)).filterMap fun member =>
      (written? member.2).map fun document => (member.1, document) := by
    rw [membersToJson_eq_filterMap h, List.filter_filterMap, List.filterMap_filter]
    congr 1
    funext member
    by_cases hname : member.1 = key <;> cases written? member.2 <;> simp [hname]
  rw [hfilter, Record.filter_name nodup]
  cases Record.get? given key with
  | none => rfl
  | some value => cases hwritten : written? value <;> simp [hwritten]

theorem exists_toJson_of_mem {given : Record Value} {members : List (String × Json)}
    (h : membersToJson given = .ok members) {member : String × Value} (mem : member ∈ given) :
    ∃ shown, member.2.toJson = .ok shown := by
  cases hshown : member.2.toJson with
  | ok shown => exact ⟨shown, rfl⟩
  | error e =>
    cases e
    have hfails := (membersToJson_eq_error_iff given).mpr
      ⟨member, mem, (toJson_eq_error_iff member.2).mp hshown⟩
    cases h.symm.trans hfails

/-- Only what is undefined is left out. -/
theorem exists_document {value : Value} {shown : Option Json} (h : value.toJson = .ok shown)
    (defined : value ≠ .undefined) : ∃ document, shown = some document := by
  have hmap {α : Type} {x : Except Unwritable α} {f : α → Json}
      (h : (x.map fun a => some (f a)) = .ok shown) : ∃ document, shown = some document := by
    cases x with
    | error e => cases h
    | ok a => exact ⟨f a, (Except.ok.inj h).symm⟩
  cases value with
  | undefined => exact absurd rfl defined
  | bigint => cases h
  | array => exact hmap h
  | object => exact hmap h
  | error => exact hmap h
  | _ => exact ⟨_, (Except.ok.inj h).symm⟩

end RunningTotal.Value
