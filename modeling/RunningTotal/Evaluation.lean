import RunningTotal.Text.Units
import RunningTotal.Token.Scanner
import RunningTotal.Accumulator
import RunningTotal.Log.Logger

/-! Evaluation of an expression: limits, length, tokens, total, in this order, and the first stage that
fails gives the error. A logger is told of the tokens and of the total. `prepare` stops after the
tokens, and a prepared expression is totalled as often as wanted. -/
set_option autoImplicit false

namespace RunningTotal

open Log

/-! ## Errors -/

/-- What makes an expression no sum. -/
inductive Malformation where
  | stray (error : StrayCharacter)
  | grammar (error : GrammarError)
  deriving DecidableEq

namespace Malformation

def message : Malformation → String
  | .stray e => e.message
  | .grammar e => e.message

def position : Malformation → Option Offset
  | .stray e => some e.offset
  | .grammar e => e.position

end Malformation

inductive EvaluationError where
  | malformed (cause : Malformation) (expression : String)
  | bounds (error : BoundsError)
  | misuse (error : Misuse)
  | log (failure : Failure)
  deriving DecidableEq

namespace EvaluationError

def ofScan (expression : String) : ScanError → EvaluationError
  | .stray e => .malformed (.stray e) expression
  | .bounds e => .bounds e
  | .misuse e => .misuse e

/-- The error is about the expression as it was given, not about its tokens. -/
def ofTotal (expression : String) : TotalError → EvaluationError
  | .grammar e => .malformed (.grammar e) expression
  | .bounds e => .bounds { e with expression := expression }

def message : EvaluationError → String
  | .malformed cause _ => cause.message
  | .bounds e => e.message
  | .misuse e => e.message
  | .log e => e.message

/-- The name an error has in metadata. -/
def name : EvaluationError → String
  | .malformed .. => "ExpressionSyntaxError"
  | .bounds _ => "ExpressionRangeError"
  | .misuse _ => "AssertionError"
  | .log _ => "Error"

/-- The properties an error lists: one about the expression has it, the position and the name. -/
def properties (e : EvaluationError) : Record Value :=
  match e with
  | .malformed cause expression => about expression cause.position
  | .bounds b => about b.expression b.position
  | .misuse _ | .log _ => []
where
  about (expression : String) (position : Option Offset) : Record Value :=
    let place := match position with
      | some offset => Value.object [("offset", .number (Binary64.ofInt offset))]
      | none => .null
    [("expression", .string expression), ("position", place), ("name", .string e.name)]

/-- The value that stands for the error in metadata, without a stack. -/
def toValue (e : EvaluationError) : Value := .error e.name e.message none e.properties

end EvaluationError

/-! ## Stages -/

/-- Whether a limit admits the number of characters. Characters never outnumber 16-bit units, so
they are counted only if the units exceed the limit. -/
def Limit.admitsText (limit : Limit) (expression : String) : Bool :=
  limit.admits (length16 expression) || limit.admits (characters expression).length

def resolveLimits (expression : String) (limits : Value) : Except BoundsError Limits :=
  (Limits.ofValue limits).mapError fun e => ⟨.limits e, expression, none⟩

/-- What an evaluation is set up with. -/
structure Setup where
  limits : Limits
  logger : Logger

def setUp (expression : String) (limits : Value) (logger : Option Logger) :
    Except EvaluationError Setup :=
  ((resolveLimits expression limits).mapError EvaluationError.bounds).map fun limits =>
    ⟨limits, logger.getD Logger.silent⟩

/-- Tells the logger of an event with one number. -/
def announce (logger : Logger) (clock : Clock) (event name : String) (value : Binary64) :
    Logged EvaluationError Unit :=
  (logger.log clock .debug event [(name, .number value)]).mapError .log

def tokensWithin (expression : String) (setup : Setup) (clock : Clock) :
    Logged EvaluationError (List Token) :=
  if setup.limits.maxLength.admitsText expression then
    match Token.scan expression with
    | .error e => .fail (.ofScan expression e)
    | .ok tokens => do
      announce setup.logger clock "expression_lexed" "token_count" (Binary64.ofNat tokens.length)
      return tokens
  else .fail (.bounds ⟨.length setup.limits.maxLength, expression, none⟩)

def totalOf (expression : String) (tokens : List Token) (setup : Setup) (clock : Clock) :
    Logged EvaluationError Binary64 :=
  match Token.total tokens with
  | .error e => .fail (.ofTotal expression e)
  | .ok value => do
    announce setup.logger clock "expression_evaluated" "result" value
    return value

/-! ## Evaluation -/

def evaluate (expression : String) (limits : Value) (logger : Option Logger) (clock : Clock) :
    Logged EvaluationError Binary64 := do
  let setup ← Logged.ofExcept (setUp expression limits logger)
  let tokens ← tokensWithin expression setup clock
  totalOf expression tokens setup clock

/-- An expression whose tokens are known. -/
structure Prepared where
  expression : String
  tokens : List Token
  setup : Setup

def prepare (expression : String) (limits : Value) (logger : Option Logger) (clock : Clock) :
    Logged EvaluationError Prepared := do
  let setup ← Logged.ofExcept (setUp expression limits logger)
  let tokens ← tokensWithin expression setup clock
  return ⟨expression, tokens, setup⟩

def Prepared.evaluate (p : Prepared) (clock : Clock) : Logged EvaluationError Binary64 :=
  totalOf p.expression p.tokens p.setup clock

end RunningTotal
