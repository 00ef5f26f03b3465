import RunningTotal.Error
import RunningTotal.Steps

/-! The running total of a token list: a number, then operators each with a number, from left to
right. An `Accumulator` is a place in the list; every operation gives the accumulator it leaves
behind, after a failure too. `run` performs operations in any order. -/
set_option autoImplicit false

namespace RunningTotal

/-- `rest` is what lies ahead after `taken` of the `tokens`. -/
structure Accumulator where
  tokens : List Token
  taken : Nat
  rest : List Token

inductive TotalError where
  | grammar (error : GrammarError)
  | bounds (error : BoundsError)
  deriving DecidableEq

namespace Accumulator

def ofTokens (tokens : List Token) : Accumulator := ⟨tokens, 0, tokens⟩

/-! ## One token -/

def next (a : Accumulator) : Option Token × Accumulator :=
  match a.rest with
  | [] => (none, a)
  | token :: rest => (some token, { a with taken := a.taken + 1, rest := rest })

theorem next_shorter {a b : Accumulator} {token : Token} (h : a.next = (some token, b)) :
    b.rest.length < a.rest.length := by
  unfold next at h
  split at h
  · simp at h
  · rename_i hr
    simp only [Prod.mk.injEq] at h
    rw [← h.2, hr]
    exact Nat.lt_succ_self _

def outOfBounds (a : Accumulator) (cause : BoundsError.Cause) (token : Token) : TotalError :=
  .bounds ⟨cause, Token.render a.tokens, token.start?⟩

/-- Takes one token that must be a number and a safe natural. -/
def operand (a : Accumulator) : Except TotalError Binary64 × Accumulator :=
  match a.next with
  | (none, b) => (.error (.grammar .endOfInput), b)
  | (some (.number value span), b) =>
    if value.isSafeNatural then (.ok value, b)
    else (.error (b.outOfBounds (.operand value) (.number value span)), b)
  | (some token, b) => (.error (.grammar (.unexpected token)), b)

theorem operand_le (a : Accumulator) : a.operand.2.rest.length ≤ a.rest.length := by
  have hle : a.next.2.rest.length ≤ a.rest.length := by
    unfold next
    split
    · exact Nat.le_refl _
    · rename_i hr
      rw [hr]
      exact Nat.le_succ _
  unfold operand
  split
  all_goals rename_i h; rw [h] at hle
  · exact hle
  · split <;> exact hle
  · exact hle

/-! ## The total -/

/-- Takes the operand of the operator `token` and applies it to `value`. -/
def apply (value : Binary64) (token : Token) (a : Accumulator) :
    Except TotalError Binary64 × Accumulator :=
  match token with
  | .number .. => (.error (.grammar (.unexpected token)), a)
  | .plus _ => step a.operand (value + ·)
  | .minus _ => step a.operand (value - ·)
where
  /-- The result of the operation, unless it has left the safe range. -/
  step (operand : Except TotalError Binary64 × Accumulator) (operation : Binary64 → Binary64) :
      Except TotalError Binary64 × Accumulator :=
    match operand with
    | (.error e, b) => (.error e, b)
    | (.ok x, b) =>
      let total := operation x
      if total.isSafe then (.ok total, b) else (.error (b.outOfBounds (.total total) token), b)

theorem apply_le (value : Binary64) (token : Token) (a : Accumulator) :
    (a.apply value token).2.rest.length ≤ a.rest.length := by
  have hstep (operation : Binary64 → Binary64) :
      (apply.step token a.operand operation).2.rest.length ≤ a.rest.length := by
    have hle := operand_le a
    unfold apply.step
    split
    all_goals rename_i h; rw [h] at hle
    · exact hle
    · dsimp only
      split <;> exact hle
  unfold apply
  split
  · exact Nat.le_refl _
  · exact hstep _
  · exact hstep _

/-- Reads on to the end from a total that has come to `value`. -/
def totalFrom (value : Binary64) (a : Accumulator) : Except TotalError Binary64 × Accumulator :=
  match _h : a.next with
  | (none, b) => (.ok value, b)
  | (some token, b) =>
    match _hs : b.apply value token with
    | (.error e, c) => (.error e, c)
    | (.ok total, c) => totalFrom total c
termination_by a.rest.length
decreasing_by
  have hle := apply_le value token b
  rw [_hs] at hle
  exact Nat.lt_of_le_of_lt hle (next_shorter ‹_›)

/-- The total of the tokens from here to the end. -/
def total (a : Accumulator) : Except TotalError Binary64 × Accumulator :=
  match a.operand with
  | (.error e, b) => (.error e, b)
  | (.ok value, b) => totalFrom value b

/-! ## Operations in any order -/

inductive Operation where
  | next
  | operand
  | total
  deriving DecidableEq

inductive Reply where
  | token (found : Option Token)
  | number (result : Except TotalError Binary64)

def perform (a : Accumulator) : Operation → Reply × Accumulator
  | .next => (.token a.next.1, a.next.2)
  | .operand => (.number a.operand.1, a.operand.2)
  | .total => (.number a.total.1, a.total.2)

/-- Each reply with the accumulator after it. -/
def run (a : Accumulator) (operations : List Operation) : List (Reply × Accumulator) :=
  Steps.run perform a operations

end Accumulator

/-- The total of a token list. -/
def Token.total (tokens : List Token) : Except TotalError Binary64 :=
  (Accumulator.ofTokens tokens).total.1

end RunningTotal
