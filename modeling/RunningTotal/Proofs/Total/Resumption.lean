import RunningTotal.Proofs.Steps
import RunningTotal.Proofs.Total.Failure

/-! An accumulator that goes on from where it was left. Whatever it was asked before, it stands at a
`place` in its tokens, and `Answers` says what it answers there and where it goes on; on the way
it takes the tokens between the two, in order and once each (`takes_place_iff`). A total taken
from a place is the total of the tokens that lie ahead (`total_place`), and `TotalEnds` says which
of them it takes; `run_takes` puts this together for any operations in any order. -/
set_option autoImplicit false

namespace RunningTotal

open Binary64

/-- The error, about this expression if it is about one. -/
def TotalError.within (expression : String) : TotalError → TotalError
  | .grammar e => .grammar e
  | .bounds e => .bounds { e with expression := expression }

namespace Accumulator

/-! ## Places -/

/-- The accumulator of a token list with its first `p` tokens behind it. -/
def place (tokens : List Token) (p : Nat) : Accumulator := ⟨tokens, p, tokens.drop p⟩

variable {tokens : List Token} {p q : Nat}

theorem next_place (h : p < tokens.length) :
    (place tokens p).next = (some tokens[p], place tokens (p + 1)) := by
  simp only [place, next, List.drop_eq_getElem_cons h]

theorem next_place_length (tokens : List Token) :
    (place tokens tokens.length).next = (none, place tokens tokens.length) := by
  simp only [place, next, List.drop_length]

/-! ## Tokens taken -/

/-- From the one accumulator to the other `next` hands out the tokens, one after another. -/
inductive Takes : Accumulator → List Token → Accumulator → Prop
  | nil (a : Accumulator) : Takes a [] a
  | cons {a b c : Accumulator} {token : Token} {taken : List Token}
      (first : a.next = (some token, b)) (rest : Takes b taken c) : Takes a (token :: taken) c

theorem Takes.rest_eq {a b : Accumulator} {taken : List Token} (h : Takes a taken b) :
    a.rest = taken ++ b.rest := by
  induction h with
  | nil a => rfl
  | @cons a b c token taken first _ ih =>
    unfold next at first
    split at first
    · cases first
    · rename_i hrest
      cases first
      rw [hrest, List.cons_append, ← ih]

theorem takes_place (hpq : p ≤ q) (hq : q ≤ tokens.length) :
    Takes (place tokens p) ((tokens.take q).drop p) (place tokens q) := by
  induction hk : q - p generalizing p with
  | zero =>
    obtain rfl : p = q := by omega
    rw [List.drop_take_self]
    exact .nil _
  | succ k ih =>
    have hp : p < (tokens.take q).length := by
      rw [List.length_take]
      omega
    rw [List.drop_eq_getElem_cons hp, List.getElem_take]
    exact .cons (next_place (by omega)) (ih (by omega) (by omega))

/-- Between two places the tokens from the one to the other are taken, and no others. -/
theorem takes_place_iff (hpq : p ≤ q) (hq : q ≤ tokens.length) (taken : List Token) :
    Takes (place tokens p) taken (place tokens q) ↔ taken = (tokens.take q).drop p := by
  constructor
  · intro h
    have hrest : tokens.drop p = taken ++ tokens.drop q := h.rest_eq
    have hlength := congrArg List.length hrest
    rw [List.length_append, List.length_drop, List.length_drop] at hlength
    rw [List.drop_take, hrest, List.take_left' (by omega)]
  · rintro rfl
    exact takes_place hpq hq

/-! ## An operand -/

/-- What a token is as an operand. -/
def operandOf (expression : String) : Token → Except TotalError Binary64
  | .number x span =>
    if x.isSafeNatural then .ok x
    else .error (.bounds ⟨.operand x, expression, span.map Span.start⟩)
  | operator => .error (.grammar (.unexpected operator))

theorem operand_cons (tokens : List Token) (taken : Nat) (t : Token) (rest : List Token) :
    operand ⟨tokens, taken, t :: rest⟩ =
      (operandOf (Token.render tokens) t, ⟨tokens, taken + 1, rest⟩) := by
  cases t with
  | number x span =>
    rw [operand_number, operandOf]
    split <;> rfl
  | plus => rfl
  | minus => rfl

/-! ## The total of what lies ahead -/

/-- What the total of the tokens ahead comes to, and how many of them it takes: all, if it comes to
their end; up to the token that is wrong; or up to the operand that takes the total out of range. -/
inductive TotalEnds (expression : String) (ahead : List Token) :
    Except TotalError Binary64 → Nat → Prop
  | ok {v : Binary64} (total : Token.total ahead = .ok v) :
      TotalEnds expression ahead (.ok v) ahead.length
  | endOfInput (expectant : Expectant ahead) :
      TotalEnds expression ahead (.error (.grammar .endOfInput)) ahead.length
  | unfit {front back : List Token} {t : Token} {e : TotalError}
      (split : ahead = front ++ t :: back) (expectant : Expectant front)
      (noOperand : operandOf expression t = .error e) :
      TotalEnds expression ahead (.error e) (front.length + 1)
  | number {front back : List Token} {s : ExactSum} {x : Binary64} {span : Option Span}
      (split : ahead = front ++ .number x span :: back) (spelled : SpellsSafe front s) :
      TotalEnds expression ahead (.error (.grammar (.unexpected (.number x span))))
        (front.length + 1)
  | outOfRange {front back : List Token} {s : ExactSum} {operator : Token} {sign : Sign}
      {x : Binary64} {n : Nat} {span : Option Span}
      (split : ahead = front ++ operator :: .number x span :: back)
      (spelled : SpellsSafe front s) (isOperator : operator.sign? = some sign)
      (isNatural : x.safeInt? = some (n : Int))
      (excess : safeLimit < (sign.exact s.total n).natAbs) :
      TotalEnds expression ahead
        (.error (.bounds ⟨.total (ofInt (sign.exact s.total n)), expression, operator.start?⟩))
        (front.length + 2)

theorem total_of_expectant {front back : List Token} (h : Expectant front) {tokens : List Token}
    {taken : Nat} {e : TotalError} {b : Accumulator}
    (hoperand : operand ⟨tokens, taken + front.length, back⟩ = (.error e, b)) :
    total ⟨tokens, taken, front ++ back⟩ = (.error e, b) := by
  cases h with
  | start => rw [List.nil_append, total, show operand ⟨tokens, taken, back⟩ = _ from hoperand]
  | @operator front s operator sign spelled isOperator =>
    obtain ⟨v, -, -, htotal⟩ := total_spelled spelled.1 spelled.2
    rw [List.length_append, List.length_singleton, ← Nat.add_assoc] at hoperand
    rw [List.append_assoc, List.singleton_append, htotal, totalFrom_cons,
      apply_operand_error isOperator hoperand]

theorem TotalEnds.total_eq {ahead : List Token} {result : Except TotalError Binary64} {k : Nat}
    (h : TotalEnds (Token.render tokens) ahead result k) (taken : Nat) :
    total ⟨tokens, taken, ahead⟩ = (result, ⟨tokens, taken + k, ahead.drop k⟩) := by
  cases h with
  | @ok v htotal =>
    obtain ⟨s, hspells⟩ := exists_spells_of_total htotal
    obtain ⟨w, -, -, hall⟩ := total_spelled hspells.1 hspells.2
    have hend (tokens : List Token) (taken : Nat) :
        total ⟨tokens, taken, ahead⟩ = (.ok w, ⟨tokens, taken + ahead.length, []⟩) := by
      rw [← totalFrom_nil, ← hall, List.append_nil]
    rw [Token.total, ofTokens, hend] at htotal
    rw [hend, List.drop_length]
    exact congrArg (·, _) htotal
  | endOfInput expectant =>
    have htotal : total ⟨tokens, taken, ahead ++ []⟩ =
        (.error (.grammar .endOfInput), ⟨tokens, taken + ahead.length, []⟩) :=
      total_of_expectant expectant rfl
    rwa [List.append_nil, ← List.drop_length (l := ahead)] at htotal
  | @unfit front back t e split expectant noOperand =>
    subst split
    have hdrop : (front ++ t :: back).drop (front.length + 1) = back := by simp
    rw [hdrop]
    exact total_of_expectant expectant (by rw [operand_cons, noOperand]; rfl)
  | @number front back s x span split spelled =>
    subst split
    obtain ⟨v, -, -, htotal⟩ := total_spelled spelled.1 spelled.2
    have hdrop : (front ++ Token.number x span :: back).drop (front.length + 1) = back := by simp
    rw [hdrop, htotal, totalFrom_cons]
    rfl
  | @outOfRange front back s operator sign x n span split spelled isOperator isNatural excess =>
    subst split
    obtain ⟨v, hv, -, htotal⟩ := total_spelled spelled.1 spelled.2
    have hdrop : (front ++ operator :: .number x span :: back).drop (front.length + 2) = back := by
      simp
    rw [hdrop, htotal, totalFrom_cons,
      apply_term tokens _ span back isOperator hv isNatural, if_neg (Nat.not_le.mpr excess)]
    rfl

theorem exists_totalEnds (expression : String) (ahead : List Token) :
    ∃ k, TotalEnds expression ahead ((Token.total ahead).mapError (.within expression)) k := by
  cases htotal : Token.total ahead with
  | ok v => exact ⟨_, .ok htotal⟩
  | error e =>
    cases totalFails_of_total htotal with
    | endOfInput expectant => exact ⟨_, .endOfInput expectant⟩
    | @operator front back operator sign split expectant isOperator =>
      refine ⟨_, .unfit split expectant ?_⟩
      cases operator with
      | number => cases isOperator
      | plus => rfl
      | minus => rfl
    | operand split expectant notNatural =>
      refine ⟨_, .unfit split expectant ?_⟩
      rw [operandOf, notNatural]
      rfl
    | number split spelled => exact ⟨_, .number split spelled⟩
    | total split spelled isOperator isNatural excess =>
      exact ⟨_, .outOfRange split spelled isOperator isNatural excess⟩

theorem TotalEnds.le_length {expression : String} {ahead : List Token}
    {result : Except TotalError Binary64} {k : Nat} (h : TotalEnds expression ahead result k) :
    k ≤ ahead.length := by
  cases h with
  | ok => exact Nat.le_refl _
  | endOfInput => exact Nat.le_refl _
  | unfit split => simp [split]
  | number split => simp [split]
  | outOfRange split => simp [split]

theorem TotalEnds.total_place_eq {result : Except TotalError Binary64} {k : Nat}
    (h : TotalEnds (Token.render tokens) (tokens.drop p) result k) :
    (place tokens p).total = (result, place tokens (p + k)) := by
  rw [place, h.total_eq, List.drop_drop]
  rfl

/-- From a place on, the total is that of the tokens ahead, as they would have it by themselves. -/
theorem total_place (tokens : List Token) (p : Nat) :
    (place tokens p).total.1 =
      (Token.total (tokens.drop p)).mapError (.within (Token.render tokens)) := by
  obtain ⟨k, hends⟩ := exists_totalEnds (Token.render tokens) (tokens.drop p)
  rw [hends.total_place_eq]

/-! ## Operations in any order -/

/-- What the accumulator answers at `p`, and where it goes on from. -/
inductive Answers (tokens : List Token) (p : Nat) : Operation → Reply → Nat → Prop
  | next {t : Token} (found : tokens[p]? = some t) : Answers tokens p .next (.token (some t)) (p + 1)
  | nextAtEnd (atEnd : p = tokens.length) : Answers tokens p .next (.token none) p
  | operand {t : Token} (found : tokens[p]? = some t) :
      Answers tokens p .operand (.number (operandOf (Token.render tokens) t)) (p + 1)
  | operandAtEnd (atEnd : p = tokens.length) :
      Answers tokens p .operand (.number (.error (.grammar .endOfInput))) p
  | total {result : Except TotalError Binary64} {k : Nat}
      (ends : TotalEnds (Token.render tokens) (tokens.drop p) result k) :
      Answers tokens p .total (.number result) (p + k)

theorem follows (tokens : List Token) :
    Steps.Follows perform (place tokens) tokens.length (Answers tokens) where
  performs {p} _ _ _ hp h := by
    cases h with
    | next found =>
      obtain ⟨hlt, rfl⟩ := List.getElem?_eq_some_iff.mp found
      rw [perform, next_place hlt]
    | nextAtEnd atEnd => rw [perform, atEnd, next_place_length]
    | operand found =>
      obtain ⟨hlt, rfl⟩ := List.getElem?_eq_some_iff.mp found
      rw [perform, place, List.drop_eq_getElem_cons hlt, operand_cons]
      rfl
    | operandAtEnd atEnd =>
      rw [perform, place, atEnd, List.drop_length]
      rfl
    | total ends => rw [perform, ends.total_place_eq]
  total {p} hp operation := by
    rcases Nat.lt_or_eq_of_le hp with hlt | heq
    · have found : tokens[p]? = some tokens[p] := List.getElem?_eq_getElem hlt
      cases operation with
      | next => exact ⟨_, _, .next found⟩
      | operand => exact ⟨_, _, .operand found⟩
      | total =>
        obtain ⟨k, hends⟩ := exists_totalEnds (Token.render tokens) (tokens.drop p)
        exact ⟨_, _, .total hends⟩
    · cases operation with
      | next => exact ⟨_, _, .nextAtEnd heq⟩
      | operand => exact ⟨_, _, .operandAtEnd heq⟩
      | total =>
        obtain ⟨k, hends⟩ := exists_totalEnds (Token.render tokens) (tokens.drop p)
        exact ⟨_, _, .total hends⟩
  forward hp h := by
    have found_lt {t : Token} {p : Nat} (found : tokens[p]? = some t) : p < tokens.length :=
      (List.getElem?_eq_some_iff.mp found).1
    cases h with
    | next found => exact ⟨Nat.le_succ _, found_lt found⟩
    | nextAtEnd => exact ⟨Nat.le_refl _, hp⟩
    | operand found => exact ⟨Nat.le_succ _, found_lt found⟩
    | operandAtEnd => exact ⟨Nat.le_refl _, hp⟩
    | total ends =>
      have hle := ends.le_length
      rw [List.length_drop] at hle
      omega

/-- Whatever operations an accumulator performs, each is answered at its place as the rule says, failures
included, and takes the tokens from there to the next place. A total is that of the tokens ahead,
but for the expression that an error of a range is about, which is all tokens. -/
theorem run_takes (tokens : List Token) (operations : List Operation) :
    let start := ofTokens tokens
    let n := tokens.length
    let cursor (i : Nat) := (Steps.after perform start (operations.take i)).taken
    (∀ i operation, operations[i]? = some operation → ∃ reply,
      (start.run operations)[i]? = some (reply, place tokens (cursor (i + 1))) ∧
        Answers tokens (cursor i) operation reply (cursor (i + 1)) ∧
        ∀ taken, Takes (place tokens (cursor i)) taken (place tokens (cursor (i + 1))) ↔
          taken = (tokens.take (cursor (i + 1))).drop (cursor i)) ∧
    (∀ i taken, Takes start taken (Steps.after perform start (operations.take i)) ↔
      taken = tokens.take (cursor i)) ∧
    (∀ i j, i ≤ j → cursor i ≤ cursor j) ∧ (∀ i, cursor i ≤ n) ∧
    ∀ p ≤ n,
      (∀ operation reply a, (place tokens p).perform operation = (reply, a) ↔
        ∃ q, a = place tokens q ∧ Answers tokens p operation reply q) ∧
      (place tokens p).total.1 =
        (Token.total (tokens.drop p)).mapError (.within (Token.render tokens)) := by
  intro start n cursor
  have h := follows tokens
  have hcursor (p : Nat) : (place tokens p).taken = p := rfl
  have hforward (i j : Nat) (hij : i ≤ j) : cursor i ≤ cursor j :=
    h.after_take_le hcursor operations hij
  have hbound (i : Nat) : cursor i ≤ n := (h.after_eq hcursor (operations.take i)).2
  refine ⟨fun i operation hi => ?_, fun i taken => ?_, hforward, hbound, fun p hp =>
    ⟨h.perform_eq_iff hp, total_place tokens p⟩⟩
  · obtain ⟨reply, hreply, hanswers⟩ := h.answers_of_getElem? hcursor operations hi
    exact ⟨reply, hreply, hanswers,
      takes_place_iff (hforward i (i + 1) (Nat.le_succ i)) (hbound (i + 1))⟩
  · have hafter := (h.after_eq hcursor (operations.take i)).1
    rw [show Steps.after perform start (operations.take i) = _ from hafter]
    exact takes_place_iff (Nat.zero_le _) (hbound i) taken

end Accumulator

end RunningTotal
