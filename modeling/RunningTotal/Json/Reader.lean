import RunningTotal.Json.Basic

/-! Reading JSON text. Objects become records, so a repeated name keeps its first place and its
last value; numbers become the nearest `Binary64`. An escape that is half of a surrogate pair on
its own names no character, and text that holds one is refused. -/
set_option autoImplicit false

namespace RunningTotal.Json

/-! ## Blanks and numbers -/

def isBlank (c : Char) : Bool := c = ' ' || c = '\t' || c = '\n' || c = '\r'

def skipBlanks (cs : List Char) : List Char := cs.dropWhile isBlank

/-- A non-empty run of digits, and what follows it. -/
def digits? (cs : List Char) : Option (List Char × List Char) :=
  let run := cs.takeWhile Char.isDigit
  if run = [] then none else some (run, cs.dropWhile Char.isDigit)

/-- The digits after a point, none without a point. -/
def fraction? : List Char → Option (List Char × List Char)
  | '.' :: cs => digits? cs
  | cs => some ([], cs)

/-- The digits of an exponent with its sign. -/
def signed? : List Char → Option (Int × List Char)
  | '+' :: cs => (digits? cs).map fun (run, rest) => ((ofDigits run : Int), rest)
  | '-' :: cs => (digits? cs).map fun (run, rest) => (-(ofDigits run : Int), rest)
  | cs => (digits? cs).map fun (run, rest) => ((ofDigits run : Int), rest)

/-- An exponent, zero if there is none. -/
def exponent? : List Char → Option (Int × List Char)
  | 'e' :: cs => signed? cs
  | 'E' :: cs => signed? cs
  | cs => some (0, cs)

def unsigned? (negative : Bool) (cs : List Char) : Option (Binary64 × List Char) := do
  let (whole, cs) ← digits? cs
  if whole.length ≠ 1 ∧ whole.head? = some '0' then none
  else
    let (fraction, cs) ← fraction? cs
    let (exponent, cs) ← exponent? cs
    some (Binary64.ofDecimal negative (ofDigits (whole ++ fraction)) (exponent - fraction.length), cs)

def number? : List Char → Option (Binary64 × List Char)
  | '-' :: cs => unsigned? true cs
  | cs => unsigned? false cs

/-! ## Strings -/

def hexValue? (c : Char) : Option Nat :=
  if c.isDigit then some (c.toNat - '0'.toNat)
  else if 'a' ≤ c ∧ c ≤ 'f' then some (c.toNat - 'a'.toNat + 10)
  else if 'A' ≤ c ∧ c ≤ 'F' then some (c.toNat - 'A'.toNat + 10)
  else none

def unit? (a b c d : Char) : Option Nat := do
  let a ← hexValue? a
  let b ← hexValue? b
  let c ← hexValue? c
  let d ← hexValue? d
  some (((a * 16 + b) * 16 + c) * 16 + d)

/-- The character that a letter after a backslash stands for. -/
def escaped? (c : Char) : Option Char :=
  if c = '"' then some '"'
  else if c = '\\' then some '\\'
  else if c = '/' then some '/'
  else if c = 'b' then some '\x08'
  else if c = 't' then some '\t'
  else if c = 'n' then some '\n'
  else if c = 'f' then some '\x0c'
  else if c = 'r' then some '\r'
  else none

/-- The rest of a string up to its quote; `done` is what was read of it, newest first. -/
def stringFrom (done : List Char) : List Char → Option (String × List Char)
  | [] => none
  | '"' :: cs => some (String.ofList done.reverse, cs)
  | '\\' :: 'u' :: a :: b :: c :: d :: cs =>
    match unit? a b c d with
    | none => none
    | some n =>
      if n < 0xD800 ∨ 0xDFFF < n then stringFrom (Char.ofNat n :: done) cs
      else if 0xDBFF < n then none
      else
        match cs with
        | '\\' :: 'u' :: a' :: b' :: c' :: d' :: cs =>
          match unit? a' b' c' d' with
          | none => none
          | some m =>
            if 0xDC00 ≤ m ∧ m ≤ 0xDFFF then
              stringFrom (Char.ofNat (0x10000 + (n - 0xD800) * 0x400 + (m - 0xDC00)) :: done) cs
            else none
        | _ => none
  | '\\' :: c :: cs =>
    match escaped? c with
    | none => none
    | some x => stringFrom (x :: done) cs
  | c :: cs => if c = '\\' ∨ c.toNat < 0x20 then none else stringFrom (c :: done) cs

/-! ## Documents -/

mutual

/-- One value and what follows it; `fuel` bounds the nesting of calls. -/
def valueFrom : Nat → List Char → Option (Json × List Char)
  | 0, _ => none
  | fuel + 1, cs =>
    match skipBlanks cs with
    | 'n' :: 'u' :: 'l' :: 'l' :: cs => some (.null, cs)
    | 't' :: 'r' :: 'u' :: 'e' :: cs => some (.bool true, cs)
    | 'f' :: 'a' :: 'l' :: 's' :: 'e' :: cs => some (.bool false, cs)
    | '"' :: cs => (stringFrom [] cs).map fun (value, rest) => (.string value, rest)
    | '[' :: cs =>
      match skipBlanks cs with
      | ']' :: cs => some (.array [], cs)
      | cs => (itemsFrom fuel cs).map fun (items, rest) => (.array items, rest)
    | '\x7b' :: cs =>
      match skipBlanks cs with
      | '\x7d' :: cs => some (.object [], cs)
      | cs => (membersFrom fuel cs).map fun (members, rest) => (.object (Record.ofList members), rest)
    | cs => (number? cs).map fun (value, rest) => (.number value, rest)

/-- Items up to the closing bracket. -/
def itemsFrom : Nat → List Char → Option (List Json × List Char)
  | 0, _ => none
  | fuel + 1, cs => do
    let (item, cs) ← valueFrom fuel cs
    match skipBlanks cs with
    | ',' :: cs =>
      let (items, cs) ← itemsFrom fuel cs
      some (item :: items, cs)
    | ']' :: cs => some ([item], cs)
    | _ => none

/-- Members up to the closing brace. -/
def membersFrom : Nat → List Char → Option (List (String × Json) × List Char)
  | 0, _ => none
  | fuel + 1, cs =>
    match skipBlanks cs with
    | '"' :: cs => do
      let (name, cs) ← stringFrom [] cs
      match skipBlanks cs with
      | ':' :: cs =>
        let (value, cs) ← valueFrom fuel cs
        match skipBlanks cs with
        | ',' :: cs =>
          let (members, cs) ← membersFrom fuel cs
          some ((name, value) :: members, cs)
        | '\x7d' :: cs => some ([(name, value)], cs)
        | _ => none
      | _ => none
    | _ => none

end

/-- The document a text holds. Every two calls take at least one character, which bounds them. -/
def parse? (text : String) : Option Json :=
  let cs := text.toList
  match valueFrom (2 * cs.length + 2) cs with
  | some (document, rest) => if skipBlanks rest = [] then some document else none
  | none => none

end RunningTotal.Json
