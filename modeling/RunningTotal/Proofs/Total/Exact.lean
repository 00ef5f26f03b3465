import RunningTotal.Accumulator
import RunningTotal.Proofs.Binary64.Integer

/-! Sums in exact arithmetic. `ExactSum` is a number and then operators each with a number, with its
totals from left to right; `Spells` says which tokens spell it. A token list has a total just when
it spells a sum whose totals are all safe, and then it has the last of them
(`total_of_spells`, `exists_spells_of_total`); a front of it is taken to the total so far
(`total_append`). -/
set_option autoImplicit false

namespace RunningTotal

open Binary64

/-! ## Sums -/

inductive Sign where
  | plus
  | minus
  deriving DecidableEq

namespace Sign

def exact : Sign → Int → Int → Int
  | .plus, a, b => a + b
  | .minus, a, b => a - b

def rounded : Sign → Binary64 → Binary64 → Binary64
  | .plus, x, y => x + y
  | .minus, x, y => x - y

theorem exists_rounded_eq (sign : Sign) {x y : Binary64} {a b : Int} (hx : x.toInt? = some a)
    (hy : y.toInt? = some b) :
    ∃ s, sign.rounded x y = ofRat s (sign.exact a b : ℚ) ∧
      (x ≠ zero true → sign.exact a b = 0 → s = false) := by
  cases sign with
  | plus => exact exists_add_eq hx hy
  | minus =>
    have h := exists_add_eq hx (toInt?_neg hy)
    rw [← sub_eq, ← Int.sub_eq_add_neg] at h
    exact h

variable (sign : Sign) {x y : Binary64} {a b : Int} (hx : x.safeInt? = some a)
  (hy : y.safeInt? = some b)

include hx hy

theorem isSafe_rounded :
    (sign.rounded x y).isSafe = decide ((sign.exact a b).natAbs ≤ safeLimit) := by
  obtain ⟨s, h, -⟩ := sign.exists_rounded_eq (safeInt?_eq_some_iff.mp hx).1
    (safeInt?_eq_some_iff.mp hy).1
  rw [h, isSafe_ofRat]

theorem safeInt?_rounded (hle : (sign.exact a b).natAbs ≤ safeLimit) :
    (sign.rounded x y).safeInt? = some (sign.exact a b) := by
  obtain ⟨s, h, -⟩ := sign.exists_rounded_eq (safeInt?_eq_some_iff.mp hx).1
    (safeInt?_eq_some_iff.mp hy).1
  rw [h, safeInt?_ofRat s hle]

theorem rounded_eq_ofInt (h : x ≠ zero true ∨ sign.exact a b ≠ 0) :
    sign.rounded x y = ofInt (sign.exact a b) := by
  obtain ⟨s, hround, hs⟩ := sign.exists_rounded_eq (safeInt?_eq_some_iff.mp hx).1
    (safeInt?_eq_some_iff.mp hy).1
  rw [hround, ofRat_intCast_eq_ofInt]
  intro hzero
  exact hs (h.resolve_right (not_not.mpr hzero)) hzero

end Sign

/-- A first number, and operators each with a number. -/
structure ExactSum where
  first : Nat
  terms : List (Sign × Nat)

/-- The totals that a total comes to, itself the first of them. -/
def totalsFrom (t : Int) : List (Sign × Nat) → List Int
  | [] => [t]
  | (sign, n) :: terms => t :: totalsFrom (sign.exact t n) terms

def totalFrom (t : Int) : List (Sign × Nat) → Int
  | [] => t
  | (sign, n) :: terms => totalFrom (sign.exact t n) terms

namespace ExactSum

def totals (s : ExactSum) : List Int := totalsFrom s.first s.terms

def total (s : ExactSum) : Int := totalFrom s.first s.terms

/-- No total is outside the safe range. -/
def Safe (s : ExactSum) : Prop := ∀ t ∈ s.totals, t.natAbs ≤ safeLimit

end ExactSum

theorem mem_totalsFrom_self (t : Int) (terms : List (Sign × Nat)) : t ∈ totalsFrom t terms := by
  cases terms <;> exact List.mem_cons_self ..

/-! ## Spelling -/

def Token.sign? : Token → Option Sign
  | .number .. => none
  | .plus _ => some .plus
  | .minus _ => some .minus

inductive SpellsTerms : List Token → List (Sign × Nat) → Prop
  | nil : SpellsTerms [] []
  | cons {operator : Token} {sign : Sign} {x : Binary64} {n : Nat} {span : Option Span}
      {tokens : List Token} {terms : List (Sign × Nat)} (hsign : operator.sign? = some sign)
      (hx : x.safeInt? = some (n : Int)) (rest : SpellsTerms tokens terms) :
      SpellsTerms (operator :: .number x span :: tokens) ((sign, n) :: terms)

/-- The tokens are the numbers of the sum, with its operators between them. -/
inductive Spells : List Token → ExactSum → Prop
  | mk {x : Binary64} {n : Nat} {span : Option Span} {tokens : List Token}
      {terms : List (Sign × Nat)} (hx : x.safeInt? = some (n : Int))
      (rest : SpellsTerms tokens terms) : Spells (.number x span :: tokens) ⟨n, terms⟩

/-! ## The accumulator, token by token -/

namespace Accumulator

variable (tokens : List Token) (taken : Nat)

theorem operand_number (x : Binary64) (span : Option Span) (rest : List Token) :
    operand ⟨tokens, taken, .number x span :: rest⟩ =
      if x.isSafeNatural then (.ok x, ⟨tokens, taken + 1, rest⟩)
      else (.error (.bounds ⟨.operand x, Token.render tokens, (Token.number x span).start?⟩),
        ⟨tokens, taken + 1, rest⟩) := rfl

theorem operand_operator {operator : Token} {sign : Sign} (h : operator.sign? = some sign)
    (rest : List Token) :
    operand ⟨tokens, taken, operator :: rest⟩ =
      (.error (.grammar (.unexpected operator)), ⟨tokens, taken + 1, rest⟩) := by
  cases operator with
  | number => cases h
  | plus => rfl
  | minus => rfl

theorem apply_operator {operator : Token} {sign : Sign} (h : operator.sign? = some sign)
    (value : Binary64) (a : Accumulator) :
    a.apply value operator = apply.step operator a.operand (sign.rounded value) := by
  cases operator with
  | number => cases h
  | plus =>
    obtain rfl := Option.some.inj h
    rfl
  | minus =>
    obtain rfl := Option.some.inj h
    rfl

theorem totalFrom_nil (value : Binary64) :
    totalFrom value ⟨tokens, taken, []⟩ = (.ok value, ⟨tokens, taken, []⟩) := by
  rw [totalFrom]
  rfl

theorem totalFrom_cons (value : Binary64) (token : Token) (rest : List Token) :
    totalFrom value ⟨tokens, taken, token :: rest⟩ =
      match apply value token ⟨tokens, taken + 1, rest⟩ with
      | (.error e, c) => (.error e, c)
      | (.ok total, c) => totalFrom total c := by
  rw [totalFrom]
  simp only [next]
  split <;> rename_i h <;> simp only [h]

end Accumulator

/-! ## The total of a token list -/

namespace Accumulator

theorem isSafeNatural_of_safeInt? {x : Binary64} {n : Nat} (h : x.safeInt? = some (n : Int)) :
    x.isSafeNatural = true := isSafeNatural_iff.mpr ⟨n, h⟩

/-- A step of the loop: an operator and its operand take the exact total to the next one, and end
the run if that is not safe. -/
theorem apply_term (tokens : List Token) (taken : Nat) {operator : Token} {sign : Sign}
    {value x : Binary64} {t : Int} {n : Nat} (span : Option Span) (rest : List Token)
    (hsign : operator.sign? = some sign) (hvalue : value.safeInt? = some t)
    (hx : x.safeInt? = some (n : Int)) :
    apply value operator ⟨tokens, taken, .number x span :: rest⟩ =
      if (sign.exact t n).natAbs ≤ safeLimit then
        (.ok (sign.rounded value x), ⟨tokens, taken + 1, rest⟩)
      else
        (.error (.bounds ⟨.total (ofInt (sign.exact t n)), Token.render tokens, operator.start?⟩),
          ⟨tokens, taken + 1, rest⟩) := by
  rw [apply_operator hsign, operand_number, if_pos (isSafeNatural_of_safeInt? hx)]
  simp only [apply.step, sign.isSafe_rounded hvalue hx, decide_eq_true_eq]
  split
  · rfl
  · rename_i hgt
    rw [sign.rounded_eq_ofInt hvalue hx (.inr (by omega))]
    rfl

/-- Terms whose totals are safe are taken one after another, whatever stands behind them. -/
theorem totalFrom_append {front : List Token} {terms : List (Sign × Nat)}
    (h : SpellsTerms front terms) {value : Binary64} {t : Int} (hvalue : value.safeInt? = some t)
    (hsafe : ∀ u ∈ totalsFrom t terms, u.natAbs ≤ safeLimit) :
    ∃ total, total.safeInt? = some (RunningTotal.totalFrom t terms) ∧
      (value ≠ zero true → total ≠ zero true) ∧
      ∀ tokens taken back, totalFrom value ⟨tokens, taken, front ++ back⟩ =
        totalFrom total ⟨tokens, taken + front.length, back⟩ := by
  -- the rounded value stays the exact total `t` through every term
  induction h generalizing value t with
  | nil => exact ⟨value, hvalue, id, fun _ _ _ => rfl⟩
  | @cons operator sign x n span rest terms hsign hx _ ih =>
    have hnext : (sign.exact t n).natAbs ≤ safeLimit :=
      hsafe _ (List.mem_cons_of_mem t (mem_totalsFrom_self _ terms))
    obtain ⟨total, hval, hzero, htotal⟩ := ih (sign.safeInt?_rounded hvalue hx hnext)
      (fun u hu => hsafe u (List.mem_cons_of_mem t hu))
    refine ⟨total, hval, fun hne => hzero ?_, fun tokens taken back => ?_⟩
    · rw [sign.rounded_eq_ofInt hvalue hx (.inl hne)]
      exact ofInt_ne_zero_true _
    · have hlen : taken + 1 + 1 + rest.length =
          taken + (operator :: .number x span :: rest).length := by
        rw [List.length_cons, List.length_cons]
        omega
      rw [List.cons_append, List.cons_append, totalFrom_cons,
        apply_term tokens (taken + 1) span _ hsign hvalue hx, if_pos hnext, ← hlen]
      exact htotal tokens (taken + 1 + 1) back

theorem operand_eq_ok {a b : Accumulator} {x : Binary64} (h : a.operand = (.ok x, b)) :
    ∃ n : Nat, x.safeInt? = some (n : Int) ∧
      ∃ span, a.rest = .number x span :: b.rest ∧ b = ⟨a.tokens, a.taken + 1, b.rest⟩ := by
  obtain ⟨tokens, taken, rest⟩ := a
  cases rest with
  | nil => cases h
  | cons token rest =>
    cases token with
    | plus => cases h
    | minus => cases h
    | number y span =>
      rw [operand_number] at h
      split at h
      · rename_i hnatural
        obtain ⟨n, hn⟩ := isSafeNatural_iff.mp hnatural
        cases h
        exact ⟨n, hn, span, rfl, rfl⟩
      · cases h

theorem apply_eq_ok {a b : Accumulator} {operator : Token} {value total : Binary64}
    (h : a.apply value operator = (.ok total, b)) :
    ∃ sign x, ∃ n : Nat, operator.sign? = some sign ∧ x.safeInt? = some (n : Int) ∧
      ∃ span, a.rest = .number x span :: b.rest ∧ b = ⟨a.tokens, a.taken + 1, b.rest⟩ := by
  cases hsign : operator.sign? with
  | none =>
    cases operator with
    | number => cases h
    | plus => cases hsign
    | minus => cases hsign
  | some sign =>
    rw [apply_operator hsign] at h
    unfold apply.step at h
    split at h
    · cases h
    · rename_i x c hoperand
      obtain ⟨n, hn, span, hrest⟩ := operand_eq_ok hoperand
      dsimp only at h
      split at h <;> cases h
      exact ⟨sign, x, n, rfl, hn, span, hrest⟩

theorem exists_spells_of_totalFrom (tokens rest : List Token) (taken : Nat) {value total : Binary64}
    {t : Int} (hvalue : value.safeInt? = some t)
    (h : (totalFrom value ⟨tokens, taken, rest⟩).1 = .ok total) :
    ∃ terms, SpellsTerms rest terms ∧ ∀ u ∈ totalsFrom t terms, u.natAbs ≤ safeLimit := by
  have ht : t.natAbs ≤ safeLimit := (safeInt?_eq_some_iff.mp hvalue).2
  -- a round takes two tokens, so the induction is on how many are left
  induction hk : rest.length using Nat.strong_induction_on generalizing rest taken value t with
  | _ k ih =>
    cases rest with
    | nil => exact ⟨[], .nil, by simpa [totalsFrom] using ht⟩
    | cons operator rest =>
      rw [totalFrom_cons] at h
      split at h
      · cases h
      · rename_i next b happly
        obtain ⟨sign, x, n, hsign, hx, span, hrest, hb⟩ := apply_eq_ok happly
        obtain rfl : rest = .number x span :: b.rest := hrest
        rw [apply_term tokens (taken + 1) span b.rest hsign hvalue hx] at happly
        by_cases hle : (sign.exact t n).natAbs ≤ safeLimit
        · rw [if_pos hle] at happly
          obtain rfl := Except.ok.inj (congrArg Prod.fst happly)
          rw [hb] at h
          have hlt : b.rest.length < k := by
            rw [← hk, List.length_cons, List.length_cons]
            omega
          obtain ⟨terms, hterms, hall⟩ := ih _ hlt b.rest (taken + 1 + 1)
            (sign.safeInt?_rounded hvalue hx hle) h hle rfl
          refine ⟨(sign, n) :: terms, .cons hsign hx hterms, ?_⟩
          intro u hu
          rcases List.mem_cons.mp hu with rfl | hu
          · exact ht
          · exact hall u hu
        · rw [if_neg hle] at happly
          cases happly

end Accumulator

/-- A front that spells a sum with safe totals is taken to its total, whatever stands behind it; the
total is minus zero only if the first number is. -/
theorem Accumulator.total_spelled {front : List Token} {s : ExactSum} (h : Spells front s)
    (hsafe : s.Safe) :
    ∃ v, v.safeInt? = some s.total ∧
      ((∀ span, front.head? ≠ some (.number (zero true) span)) → v ≠ zero true) ∧
      ∀ tokens taken back, total ⟨tokens, taken, front ++ back⟩ =
        totalFrom v ⟨tokens, taken + front.length, back⟩ := by
  cases h with
  | @mk x n span rest terms hx hterms =>
    obtain ⟨v, hval, hzero, htotal⟩ := totalFrom_append hterms hx hsafe
    refine ⟨v, hval, fun hhead => hzero ?_, fun tokens taken back => ?_⟩
    · rintro rfl
      exact hhead span rfl
    · rw [List.cons_append, total, operand_number, if_pos (isSafeNatural_of_safeInt? hx),
        List.length_cons, Nat.add_comm rest.length, ← Nat.add_assoc]
      exact htotal tokens (taken + 1) back

theorem total_append {front : List Token} {s : ExactSum} (h : Spells front s) (hsafe : s.Safe) :
    ∃ v, v.safeInt? = some s.total ∧
      ((∀ span, front.head? ≠ some (.number (zero true) span)) → v ≠ zero true) ∧
      ∀ back, Token.total (front ++ back) =
        (Accumulator.totalFrom v ⟨front ++ back, front.length, back⟩).1 := by
  obtain ⟨v, hval, hzero, htotal⟩ := Accumulator.total_spelled h hsafe
  refine ⟨v, hval, hzero, fun back => ?_⟩
  rw [Token.total, Accumulator.ofTokens, htotal, Nat.zero_add]

theorem total_of_spells {tokens : List Token} {s : ExactSum} (h : Spells tokens s) (hsafe : s.Safe) :
    ∃ v, Token.total tokens = .ok v ∧ v.safeInt? = some s.total ∧
      ((∀ span, tokens.head? ≠ some (.number (zero true) span)) → v ≠ zero true) := by
  obtain ⟨v, hval, hzero, htotal⟩ := total_append h hsafe
  have hend := htotal []
  rw [List.append_nil, Accumulator.totalFrom_nil] at hend
  exact ⟨v, hend, hval, hzero⟩

theorem exists_spells_of_total {tokens : List Token} {v : Binary64} (h : Token.total tokens = .ok v) :
    ∃ s, Spells tokens s ∧ s.Safe := by
  rw [Token.total, Accumulator.total] at h
  split at h
  · cases h
  · rename_i x b hoperand
    obtain ⟨n, hn, span, hrest, hb⟩ := Accumulator.operand_eq_ok hoperand
    obtain rfl : tokens = .number x span :: b.rest := hrest
    rw [hb] at h
    obtain ⟨terms, hterms, hall⟩ :=
      Accumulator.exists_spells_of_totalFrom _ b.rest _ hn h
    exact ⟨⟨n, terms⟩, .mk hn hterms, hall⟩

end RunningTotal
