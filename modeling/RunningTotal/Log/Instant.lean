import RunningTotal.Binary64.Numeral

/-! Instants: whole milliseconds since the start of 1970 in universal time, at most `limit` either way.
`Instant.timestamp` writes one as a date and time of the proleptic Gregorian calendar. -/
set_option autoImplicit false

namespace RunningTotal.Log

/-- A hundred million days. -/
def Instant.limit : Nat := 8640000000000000

structure Instant where
  milliseconds : Int
  inRange : milliseconds.natAbs ≤ Instant.limit
  deriving DecidableEq

/-- A clock that has no reading gives `none`. -/
abbrev Clock := Option Instant

namespace Instant

def ofMilliseconds? (n : Int) : Clock := if h : n.natAbs ≤ limit then some ⟨n, h⟩ else none

/-- The part of a number before its point, if that is an instant. -/
def ofNumber? : Binary64 → Clock
  | .finite x => ofMilliseconds? (x.toRat.num.tdiv x.toRat.den)
  | _ => none

/-! ## Calendar -/

structure Date where
  year : Int
  month : Nat
  day : Nat
  deriving DecidableEq

/-- The date of a day counted from the first of January 1970. Years are counted from March here, so
that a leap day is the last of its year, and in eras of 400 years, which have `146097` days each. -/
def dateOfDay (day : Int) : Date :=
  let shifted := day + 719468
  let era := shifted / 146097
  let dayOfEra := (shifted % 146097).toNat
  let yearOfEra := (dayOfEra - dayOfEra / 1460 + dayOfEra / 36524 - dayOfEra / 146096) / 365
  let dayOfYear := dayOfEra - (365 * yearOfEra + yearOfEra / 4 - yearOfEra / 100)
  let monthFromMarch := (5 * dayOfYear + 2) / 153
  let month := if monthFromMarch < 10 then monthFromMarch + 3 else monthFromMarch - 9
  { year := yearOfEra + era * 400 + (if month ≤ 2 then 1 else 0)
    month := month
    day := dayOfYear - (153 * monthFromMarch + 2) / 5 + 1 }

def date (t : Instant) : Date := dateOfDay (t.milliseconds / 86400000)

def millisecondOfDay (t : Instant) : Nat := (t.milliseconds % 86400000).toNat

/-! ## Text -/

/-- A number with zeros in front of it up to a width. -/
def padded (width n : Nat) : List Char :=
  let digits := decimal n
  List.replicate (width - digits.length) '0' ++ digits

/-- Four digits for a year up to 9999, else a sign and six. -/
def yearText (year : Int) : List Char :=
  if 0 ≤ year ∧ year ≤ 9999 then padded 4 year.toNat
  else (if year < 0 then '-' else '+') :: padded 6 year.natAbs

def timestamp (t : Instant) : String :=
  let ms := t.millisecondOfDay
  String.ofList (yearText t.date.year ++ '-' :: padded 2 t.date.month ++ '-' :: padded 2 t.date.day ++
    'T' :: padded 2 (ms / 3600000) ++ ':' :: padded 2 (ms / 60000 % 60) ++
    ':' :: padded 2 (ms / 1000 % 60) ++ '.' :: padded 3 (ms % 1000) ++ ['Z'])

end Instant

end RunningTotal.Log
