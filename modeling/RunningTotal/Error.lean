import RunningTotal.Limits
import RunningTotal.Token.Basic

/-! Errors by cause, each with the text it answers for. `StrayCharacter` is a character that begins no
token, `GrammarError` a token where another kind belongs, and `BoundsError` a limit or a range
that was left. -/
set_option autoImplicit false

namespace RunningTotal

structure StrayCharacter where
  character : Cluster
  expression : String
  offset : Offset
  deriving DecidableEq

def StrayCharacter.message (e : StrayCharacter) : String :=
  "Unexpected character '" ++ String.ofList e.character ++ "' at offset " ++ e.offset.text

inductive GrammarError where
  | endOfInput
  | unexpected (token : Token)
  deriving DecidableEq

namespace GrammarError

def token? : GrammarError → Option Token
  | .endOfInput => none
  | .unexpected token => some token

def position (e : GrammarError) : Option Offset := e.token?.bind Token.start?

def message : GrammarError → String
  | .endOfInput => "Unexpected end of input"
  | .unexpected token =>
    let place := match token.start? with
      | some offset => " at offset " ++ offset.text
      | none => ""
    "Unexpected token " ++ token.description ++ place

end GrammarError

inductive BoundsError.Cause where
  | literal (offset : Offset)
  | operand (value : Binary64)
  | total (value : Binary64)
  | length (limit : Limit)
  | limits (error : LimitError)
  deriving DecidableEq

/-- A bound that was left, with the expression and the place in it, if there is one. -/
structure BoundsError where
  cause : BoundsError.Cause
  expression : String
  position : Option Offset
  deriving DecidableEq

namespace BoundsError

def Cause.message : Cause → String
  | .literal offset =>
    "Number literal at offset " ++ offset.text ++ " exceeds " ++
      (Binary64.ofNat Binary64.safeLimit).text
  | .operand value => "Number " ++ value.text ++ " is not a non-negative safe integer"
  | .total value => "Running total " ++ value.text ++ " is outside the safe integer range"
  | .length limit =>
    "Expression exceeds maximum length of " ++ limit.toNumber.text ++ " characters"
  | .limits error => error.message

def message (e : BoundsError) : String := e.cause.message

end BoundsError

end RunningTotal
