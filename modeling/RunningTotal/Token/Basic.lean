import RunningTotal.Text.Cluster
import RunningTotal.Binary64.Numeral

/-! Tokens: numbers and the two operators, each with the place in the text it came from unless it
was made by hand. `Token.number?` makes only safe naturals, but a `Token.number` made directly may
hold any value. `render` writes tokens as text again. -/
set_option autoImplicit false

namespace RunningTotal

/-- A count of characters from the start of a text. -/
abbrev Offset := Int

/-- The characters from `start` up to before `stop`. -/
structure Span where
  start : Offset
  stop : Offset
  deriving DecidableEq

inductive Token where
  | number (value : Binary64) (span : Option Span)
  | plus (span : Option Span)
  | minus (span : Option Span)
  deriving DecidableEq

/-- A call that its caller should have ruled out. -/
inductive Misuse where
  | pastEnd
  | notSafeNatural (value : Binary64)
  deriving DecidableEq

def Misuse.message : Misuse → String
  | .pastEnd => "Cannot advance past end of input"
  | .notSafeNatural value => "Invalid number token value " ++ value.text

namespace Token

def number? (value : Binary64) (span : Option Span) : Except Misuse Token :=
  if value.isSafeNatural then .ok (.number value span) else .error (.notSafeNatural value)

def span : Token → Option Span
  | .number _ span | .plus span | .minus span => span

def start? (t : Token) : Option Offset := t.span.map Span.start

/-! ## Text -/

/-- The token as messages show it. -/
def description : Token → String
  | .number value _ => "Number(" ++ value.text ++ ")"
  | .plus _ => "Plus"
  | .minus _ => "Minus"

def written : Token → List Char
  | .number value _ => value.numeral
  | .plus _ => ['+']
  | .minus _ => ['-']

/-- The tokens as text, one space between each two. -/
def render (tokens : List Token) : String :=
  String.ofList ([' '].intercalate (tokens.map written))

end Token

/-- An offset as messages show it. -/
def Offset.text (offset : Offset) : String := (Binary64.ofInt offset).text

end RunningTotal
