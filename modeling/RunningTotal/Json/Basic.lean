import RunningTotal.Record

/-! JSON documents and their text without blanks. Of a string only the quote, the backslash and the
characters below the blank are escaped; a number that is not finite is written as `null`. -/
set_option autoImplicit false

namespace RunningTotal

inductive Json where
  | null
  | bool (value : Bool)
  | number (value : Binary64)
  | string (value : String)
  | array (items : List Json)
  | object (members : List (String × Json))

namespace Json

/-! ## Strings -/

def hexDigit (n : Nat) : Char := if n < 10 then digitChar n else Char.ofNat ('a'.toNat + (n - 10))

/-- The four-digit escape of a 16-bit unit. -/
def unitEscape (n : Nat) : List Char :=
  ['\\', 'u', hexDigit (n / 4096 % 16), hexDigit (n / 256 % 16), hexDigit (n / 16 % 16),
    hexDigit (n % 16)]

def escape (c : Char) : List Char :=
  if c = '"' then ['\\', '"']
  else if c = '\\' then ['\\', '\\']
  else if c = '\x08' then ['\\', 'b']
  else if c = '\t' then ['\\', 't']
  else if c = '\n' then ['\\', 'n']
  else if c = '\x0c' then ['\\', 'f']
  else if c = '\r' then ['\\', 'r']
  else if c.toNat < 0x20 then unitEscape c.toNat
  else [c]

def quote (text : String) : List Char := '"' :: text.toList.flatMap escape ++ ['"']

/-! ## Documents -/

def writeNumber : Binary64 → List Char
  | .finite x => (Binary64.finite x).numeral
  | _ => "null".toList

mutual

def write : Json → List Char
  | .null => "null".toList
  | .bool value => if value then "true".toList else "false".toList
  | .number value => writeNumber value
  | .string value => quote value
  | .array [] => ['[', ']']
  | .array (item :: items) => '[' :: write item ++ writeItems items
  | .object [] => ['\x7b', '\x7d']
  | .object ((name, value) :: members) =>
    '\x7b' :: quote name ++ ':' :: write value ++ writeMembers members

/-- The items after the first, and the closing bracket. -/
def writeItems : List Json → List Char
  | [] => [']']
  | item :: items => ',' :: write item ++ writeItems items

/-- The members after the first, and the closing brace. -/
def writeMembers : List (String × Json) → List Char
  | [] => ['\x7d']
  | (name, value) :: members => ',' :: quote name ++ ':' :: write value ++ writeMembers members

end

def text (document : Json) : String := String.ofList document.write

/-- The value of a member of an object. -/
def member? (name : String) : Json → Option Json
  | .object members => Record.get? members name
  | _ => none

end Json

end RunningTotal
