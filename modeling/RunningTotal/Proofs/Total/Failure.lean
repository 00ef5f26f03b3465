import RunningTotal.Proofs.Total.Exact

/-! Token lists without a total. `TotalFails` says what the first defect of a token list can be, after
a front that spells a safe sum so far, and which error it is; a list that has no total fails so
(`totalFails_of_total`). -/
set_option autoImplicit false

namespace RunningTotal

open Binary64

/-! ## Longer sums -/

theorem SpellsTerms.append {front back : List Token} {terms more : List (Sign × Nat)}
    (h : SpellsTerms front terms) (hback : SpellsTerms back more) :
    SpellsTerms (front ++ back) (terms ++ more) := by
  induction h with
  | nil => exact hback
  | cons hsign hx _ ih => exact .cons hsign hx ih

theorem totalFrom_concat (t : Int) (terms : List (Sign × Nat)) (sign : Sign) (n : Nat) :
    totalFrom t (terms ++ [(sign, n)]) = sign.exact (totalFrom t terms) n := by
  induction terms generalizing t with
  | nil => rfl
  | cons term terms ih => exact ih _

theorem totalsFrom_concat (t : Int) (terms : List (Sign × Nat)) (sign : Sign) (n : Nat) :
    totalsFrom t (terms ++ [(sign, n)]) =
      totalsFrom t terms ++ [sign.exact (totalFrom t terms) n] := by
  induction terms generalizing t with
  | nil => rfl
  | cons term terms ih => exact congrArg (t :: ·) (ih _)

def ExactSum.snoc (s : ExactSum) (sign : Sign) (n : Nat) : ExactSum :=
  ⟨s.first, s.terms ++ [(sign, n)]⟩

theorem ExactSum.total_snoc (s : ExactSum) (sign : Sign) (n : Nat) :
    (s.snoc sign n).total = sign.exact s.total n := totalFrom_concat _ _ _ _

theorem ExactSum.Safe.snoc {s : ExactSum} (h : s.Safe) {sign : Sign} {n : Nat}
    (hnext : (sign.exact s.total n).natAbs ≤ safeLimit) : (s.snoc sign n).Safe := by
  intro t ht
  rw [ExactSum.totals, ExactSum.snoc, totalsFrom_concat] at ht
  rcases List.mem_append.mp ht with ht | ht
  · exact h t ht
  · rw [List.mem_singleton.mp ht]
    exact hnext

theorem Spells.snoc {front : List Token} {s : ExactSum} (h : Spells front s) {operator : Token}
    {sign : Sign} {x : Binary64} {n : Nat} {span : Option Span} (hsign : operator.sign? = some sign)
    (hx : x.safeInt? = some (n : Int)) :
    Spells (front ++ [operator, .number x span]) (s.snoc sign n) := by
  cases h with
  | mk hfirst hterms => exact .mk hfirst (hterms.append (.cons hsign hx .nil))

/-! ## Defects -/

/-- A front that spells a safe sum. -/
def SpellsSafe (front : List Token) (s : ExactSum) : Prop := Spells front s ∧ s.Safe

theorem SpellsSafe.number {x : Binary64} {n : Nat} (hx : x.safeInt? = some (n : Int))
    (span : Option Span) : SpellsSafe [.number x span] ⟨n, []⟩ := by
  refine ⟨.mk hx .nil, ?_⟩
  intro t ht
  rw [List.mem_singleton.mp ht]
  exact (safeInt?_eq_some_iff.mp hx).2

/-- A front after which a number must come. -/
inductive Expectant : List Token → Prop
  | start : Expectant []
  | operator {front : List Token} {s : ExactSum} {operator : Token} {sign : Sign}
      (spelled : SpellsSafe front s) (isOperator : operator.sign? = some sign) :
      Expectant (front ++ [operator])

/-- The first defect of a token list, and its error. -/
inductive TotalFails (tokens : List Token) : TotalError → Prop
  | endOfInput (expectant : Expectant tokens) : TotalFails tokens (.grammar .endOfInput)
  | operator {front back : List Token} {operator : Token} {sign : Sign}
      (split : tokens = front ++ operator :: back) (expectant : Expectant front)
      (isOperator : operator.sign? = some sign) :
      TotalFails tokens (.grammar (.unexpected operator))
  | operand {front back : List Token} {x : Binary64} {span : Option Span}
      (split : tokens = front ++ .number x span :: back) (expectant : Expectant front)
      (notNatural : x.isSafeNatural = false) :
      TotalFails tokens
        (.bounds ⟨.operand x, Token.render tokens, (Token.number x span).start?⟩)
  | number {front back : List Token} {s : ExactSum} {x : Binary64} {span : Option Span}
      (split : tokens = front ++ .number x span :: back) (spelled : SpellsSafe front s) :
      TotalFails tokens (.grammar (.unexpected (.number x span)))
  | total {front back : List Token} {s : ExactSum} {operator : Token} {sign : Sign}
      {x : Binary64} {n : Nat} {span : Option Span}
      (split : tokens = front ++ operator :: .number x span :: back)
      (spelled : SpellsSafe front s) (isOperator : operator.sign? = some sign)
      (isNatural : x.safeInt? = some (n : Int))
      (excess : safeLimit < (sign.exact s.total n).natAbs) :
      TotalFails tokens
        (.bounds ⟨.total (ofInt (sign.exact s.total n)), Token.render tokens, operator.start?⟩)

namespace Accumulator

theorem totalFails_of_operand {tokens front rest : List Token} {taken : Nat} {e : TotalError}
    {b : Accumulator} (hsplit : tokens = front ++ rest) (hfront : Expectant front)
    (h : operand ⟨tokens, taken, rest⟩ = (.error e, b)) : TotalFails tokens e := by
  cases rest with
  | nil =>
    rw [List.append_nil] at hsplit
    cases h
    exact .endOfInput (hsplit ▸ hfront)
  | cons token back =>
    cases token with
    | plus =>
      cases h
      exact .operator hsplit hfront rfl
    | minus =>
      cases h
      exact .operator hsplit hfront rfl
    | number x span =>
      rw [operand_number] at h
      split at h
      · cases h
      · rename_i hnatural
        cases h
        exact .operand hsplit hfront (Bool.eq_false_iff.mpr hnatural)

theorem apply_operand_error {a b : Accumulator} {operator : Token} {sign : Sign} {e : TotalError}
    (hsign : operator.sign? = some sign) (h : a.operand = (.error e, b)) (value : Binary64) :
    a.apply value operator = (.error e, b) := by
  rw [apply_operator hsign, h]
  rfl

theorem totalFails_of_totalFrom {tokens front rest : List Token} {taken : Nat} {value : Binary64}
    {s : ExactSum} {e : TotalError} (hsplit : tokens = front ++ rest) (hfront : SpellsSafe front s)
    (hvalue : value.safeInt? = some s.total)
    (h : (totalFrom value ⟨tokens, taken, rest⟩).1 = .error e) : TotalFails tokens e := by
  -- what was taken so far is kept as a front that spells a safe sum
  induction hk : rest.length using Nat.strong_induction_on
    generalizing front rest taken value s with
  | _ k ih =>
    cases rest with
    | nil =>
      rw [totalFrom_nil] at h
      cases h
    | cons operator rest =>
      rw [totalFrom_cons] at h
      cases hsign : operator.sign? with
      | none =>
        cases operator with
        | plus => cases hsign
        | minus => cases hsign
        | number x span =>
          cases h
          exact .number hsplit hfront
      | some sign =>
        rcases hoperand : operand ⟨tokens, taken + 1, rest⟩ with ⟨_ | x, b⟩
        · rw [apply_operand_error hsign hoperand] at h
          cases h
          exact totalFails_of_operand (by rw [hsplit, List.append_assoc]; rfl)
            (.operator hfront hsign) hoperand
        · obtain ⟨n, hx, span, hrest, -⟩ := operand_eq_ok hoperand
          obtain rfl : rest = .number x span :: b.rest := hrest
          rw [apply_term tokens (taken + 1) span b.rest hsign hvalue hx] at h
          by_cases hle : (sign.exact s.total n).natAbs ≤ safeLimit
          · rw [if_pos hle] at h
            have hlt : b.rest.length < k := by
              rw [← hk, List.length_cons, List.length_cons]
              omega
            have hmore : SpellsSafe (front ++ [operator, .number x span]) (s.snoc sign n) :=
              ⟨hfront.1.snoc hsign hx, hfront.2.snoc hle⟩
            refine ih _ hlt ?_ hmore ?_ h rfl
            · rw [hsplit, List.append_assoc]
              rfl
            · rw [ExactSum.total_snoc]
              exact sign.safeInt?_rounded hvalue hx hle
          · rw [if_neg hle] at h
            cases h
            exact .total hsplit hfront hsign hx (Nat.not_le.mp hle)

end Accumulator

theorem totalFails_of_total {tokens : List Token} {e : TotalError}
    (h : Token.total tokens = .error e) : TotalFails tokens e := by
  rw [Token.total, Accumulator.ofTokens, Accumulator.total] at h
  split at h
  · rename_i b hoperand
    cases h
    exact Accumulator.totalFails_of_operand rfl .start hoperand
  · rename_i x b hoperand
    obtain ⟨n, hx, span, hrest, hb⟩ := Accumulator.operand_eq_ok hoperand
    obtain rfl : tokens = .number x span :: b.rest := hrest
    rw [hb] at h
    exact Accumulator.totalFails_of_totalFrom (List.singleton_append ..)
      (.number hx span) hx h

end RunningTotal
