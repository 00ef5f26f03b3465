import RunningTotal.Binary64.Numeral

/-! Records: named properties in the order a reader of the record sees them. Names that are array
indices come first, by number; the others follow in the order they were first given. `insert`
keeps that order and an earlier name keeps its place, so the list is the record's only form, and
`merge` is what spreading one record over another gives. -/
set_option autoImplicit false

namespace RunningTotal

abbrev Record (α : Type) := List (String × α)

namespace Record

variable {α : Type}

/-- The greatest array index, `2 ^ 32 - 2`. -/
def indexLimit : Nat := 4294967294

/-- The number a name stands for, if it is the plain numeral of an array index. -/
def index? (name : String) : Option Nat :=
  let digits := name.toList
  if digits.length ≤ 10 ∧ digits.all Char.isDigit then
    let n := ofDigits digits
    if decimal n = digits ∧ n ≤ indexLimit then some n else none
  else none

/-- Whether a new name is placed before one already there. -/
def precedes (new old : String) : Bool :=
  match index? new, index? old with
  | some m, some n => m < n
  | some _, none => true
  | none, _ => false

def insert (name : String) (value : α) : Record α → Record α
  | [] => [(name, value)]
  | (old, v) :: rest =>
    if old = name then (name, value) :: rest
    else if precedes name old then (name, value) :: (old, v) :: rest
    else (old, v) :: insert name value rest

/-- The properties of `upper` written over those of `lower`. -/
def merge (lower upper : Record α) : Record α :=
  upper.foldl (fun record property => record.insert property.1 property.2) lower

/-- The record that results when properties are given one after another. -/
def ofList (properties : List (String × α)) : Record α := merge [] properties

def get? (record : Record α) (name : String) : Option α := record.lookup name

/-! ## Look-up -/

@[simp] theorem get?_nil (name : String) : get? ([] : Record α) name = none := rfl

theorem get?_cons (old : String) (v : α) (rest : Record α) (name : String) :
    get? ((old, v) :: rest) name = if name = old then some v else get? rest name := by
  unfold get?
  rw [List.lookup_cons]
  by_cases h : name = old
  · rw [if_pos h, beq_iff_eq.mpr h]
  · rw [if_neg h, beq_eq_false_iff_ne.mpr h]

theorem get?_insert_self (name : String) (value : α) (record : Record α) :
    get? (insert name value record) name = some value := by
  induction record with
  | nil => simp [insert, get?_cons]
  | cons property rest ih =>
    obtain ⟨old, v⟩ := property
    unfold insert
    split
    · simp [get?_cons]
    · split
      · simp [get?_cons]
      · rename_i hne _
        simp [get?_cons, Ne.symm hne, ih]

theorem get?_insert_of_ne {name other : String} (value : α) (record : Record α) (h : other ≠ name) :
    get? (insert name value record) other = get? record other := by
  induction record with
  | nil => simp [insert, get?_cons, h]
  | cons property rest ih =>
    obtain ⟨old, v⟩ := property
    unfold insert
    split
    · rename_i heq
      subst heq
      simp [get?_cons, h]
    · split
      · simp [get?_cons, h]
      · simp [get?_cons, ih]

end Record

end RunningTotal
