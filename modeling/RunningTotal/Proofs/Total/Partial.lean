import RunningTotal.Proofs.Total.Failure

/-! Partial totals of a token list. `exactTotal` takes the numbers of any tokens from left to right in
exact arithmetic, so the partial totals are those of the fronts of the list. A list has a total
just when it is in the grammar, each operand is one that a token is made of, and no partial total
leaves the safe range; the rounded arithmetic is then exact throughout (`total_succeeds_iff`). -/
set_option autoImplicit false

namespace RunningTotal

open Binary64

/-! ## Grammar -/

/-- A number, or a number and an operator before such a list, whatever the numbers are. -/
inductive Alternates : List Token → Prop
  | number (x : Binary64) (span : Option Span) : Alternates [.number x span]
  | cons (x : Binary64) (span : Option Span) {operator : Token} {sign : Sign} {tokens : List Token}
      (isOperator : operator.sign? = some sign) (rest : Alternates tokens) :
      Alternates (.number x span :: operator :: tokens)

theorem SpellsTerms.alternates {tokens : List Token} {terms : List (Sign × Nat)}
    (h : SpellsTerms tokens terms) (x : Binary64) (span : Option Span) :
    Alternates (.number x span :: tokens) := by
  induction h generalizing x span with
  | nil => exact .number x span
  | cons hsign _ _ ih => exact .cons x span hsign (ih _ _)

theorem Spells.alternates {tokens : List Token} {s : ExactSum} (h : Spells tokens s) :
    Alternates tokens := by
  cases h with
  | mk _ hterms => exact hterms.alternates _ _

theorem exists_spells_of_alternates {tokens : List Token} (h : Alternates tokens)
    (hnatural : ∀ x span, .number x span ∈ tokens → x.isSafeNatural = true) :
    ∃ s, Spells tokens s := by
  induction h with
  | number x span =>
    obtain ⟨n, hn⟩ := isSafeNatural_iff.mp (hnatural x span (List.mem_singleton_self _))
    exact ⟨⟨n, []⟩, .mk hn .nil⟩
  | cons x span hsign _ ih =>
    obtain ⟨n, hn⟩ := isSafeNatural_iff.mp (hnatural x span (List.mem_cons_self ..))
    obtain ⟨s, hs⟩ := ih fun y place hy =>
      hnatural y place (List.mem_cons_of_mem _ (List.mem_cons_of_mem _ hy))
    cases hs with
    | mk hfirst hterms => exact ⟨_, .mk hn (.cons hsign hfirst hterms)⟩

/-! ## Tokens by index -/

/-- Operators stand at the even indices of terms and safe naturals at the odd ones. -/
theorem SpellsTerms.token {tokens : List Token} {terms : List (Sign × Nat)}
    (h : SpellsTerms tokens terms) {j : Nat} {t : Token} (ht : tokens[j]? = some t) :
    (j % 2 = 0 → ∃ sign, t.sign? = some sign) ∧
      (j % 2 = 1 → ∃ x span, t = .number x span ∧ x.isSafeNatural = true) := by
  induction h generalizing j with
  | nil => cases ht
  | @cons operator sign x n span rest terms hsign hx _ ih =>
    match j, ht with
    | 0, ht =>
      obtain rfl := Option.some.inj ht
      exact ⟨fun _ => ⟨sign, hsign⟩, by simp⟩
    | 1, ht =>
      obtain rfl := Option.some.inj ht
      exact ⟨by simp, fun _ => ⟨x, span, rfl, isSafeNatural_iff.mpr ⟨n, hx⟩⟩⟩
    | j + 2, ht =>
      rw [Nat.add_mod_right]
      exact ih ht

namespace Spells

variable {tokens : List Token} {s : ExactSum} (h : Spells tokens s) {j : Nat} {t : Token}

include h

theorem operand (ht : tokens[j]? = some t) (even : j % 2 = 0) :
    ∃ x span, t = .number x span ∧ x.isSafeNatural = true := by
  cases h with
  | @mk x n span rest terms hx hterms =>
    cases j with
    | zero =>
      obtain rfl := Option.some.inj ht
      exact ⟨x, span, rfl, isSafeNatural_iff.mpr ⟨n, hx⟩⟩
    | succ j => exact (hterms.token ht).2 (by omega)

theorem operator (ht : tokens[j]? = some t) (odd : j % 2 = 1) : ∃ sign, t.sign? = some sign := by
  cases h with
  | mk hx hterms =>
    cases j with
    | zero => cases odd
    | succ j => exact (hterms.token ht).1 (by omega)

theorem isSafeNatural_of_mem {x : Binary64} {span : Option Span} (hx : .number x span ∈ tokens) :
    x.isSafeNatural = true := by
  obtain ⟨j, hj⟩ := List.getElem?_of_mem hx
  rcases Nat.mod_two_eq_zero_or_one j with even | odd
  · obtain ⟨y, place, hy, hnatural⟩ := h.operand hj even
    cases hy
    exact hnatural
  · obtain ⟨sign, hsign⟩ := h.operator hj odd
    cases hsign

end Spells

/-! ## Totals of fronts -/

/-- The total `t` taken on through tokens, each number by the operator before it, which is `sign`
for the first. A number that is no integer counts for nothing. -/
def exactFrom (sign : Sign) (t : Int) : List Token → Int
  | [] => t
  | .number x _ :: rest => exactFrom .plus (sign.exact t (x.toInt?.getD 0)) rest
  | .plus _ :: rest => exactFrom .plus t rest
  | .minus _ :: rest => exactFrom .minus t rest

def exactTotal (tokens : List Token) : Int := exactFrom .plus 0 tokens

theorem exactFrom_operator {operator : Token} {sign : Sign} (h : operator.sign? = some sign)
    (before : Sign) (t : Int) (rest : List Token) :
    exactFrom before t (operator :: rest) = exactFrom sign t rest := by
  cases operator with
  | number => cases h
  | plus =>
    obtain rfl := Option.some.inj h
    rfl
  | minus =>
    obtain rfl := Option.some.inj h
    rfl

theorem exactFrom_number {x : Binary64} {n : Nat} (h : x.safeInt? = some (n : Int)) (sign : Sign)
    (t : Int) (span : Option Span) (rest : List Token) :
    exactFrom sign t (.number x span :: rest) = exactFrom .plus (sign.exact t n) rest := by
  rw [exactFrom, (safeInt?_eq_some_iff.mp h).1, Option.getD_some]

theorem SpellsTerms.exactFrom_eq {tokens : List Token} {terms : List (Sign × Nat)}
    (h : SpellsTerms tokens terms) (before : Sign) (t : Int) :
    exactFrom before t tokens = totalFrom t terms := by
  induction h generalizing before t with
  | nil => rfl
  | cons hsign hx _ ih =>
    rw [exactFrom_operator hsign, exactFrom_number hx, totalFrom, ih]

theorem SpellsTerms.forall_totalsFrom_iff {tokens : List Token} {terms : List (Sign × Nat)}
    (h : SpellsTerms tokens terms) (p : Int → Prop) (before : Sign) (t : Int) :
    (∀ u ∈ totalsFrom t terms, p u) ↔ ∀ k, p (exactFrom before t (tokens.take k)) := by
  induction h generalizing before t with
  | nil => simp [totalsFrom, exactFrom]
  | @cons operator sign x n span rest terms hsign hx _ ih =>
    rw [totalsFrom, List.forall_mem_cons, ih .plus]
    constructor
    · rintro ⟨hfirst, hrest⟩ k
      rcases k with _ | _ | k
      · exact hfirst
      · rw [List.take_succ_cons, exactFrom_operator hsign]
        exact hfirst
      · rw [List.take_succ_cons, List.take_succ_cons, exactFrom_operator hsign, exactFrom_number hx]
        exact hrest k
    · intro hall
      refine ⟨hall 0, fun k => ?_⟩
      have hk := hall (k + 2)
      rw [List.take_succ_cons, List.take_succ_cons, exactFrom_operator hsign,
        exactFrom_number hx] at hk
      exact hk

theorem Spells.exactTotal_eq {tokens : List Token} {s : ExactSum} (h : Spells tokens s) :
    exactTotal tokens = s.total := by
  cases h with
  | mk hx hterms =>
    rw [exactTotal, exactFrom_number hx, hterms.exactFrom_eq, Sign.exact, Int.zero_add]
    rfl

theorem Spells.safe_iff {tokens : List Token} {s : ExactSum} (h : Spells tokens s) :
    s.Safe ↔ ∀ k, (exactTotal (tokens.take k)).natAbs ≤ safeLimit := by
  cases h with
  | @mk x n span rest terms hx hterms =>
    have hiff := hterms.forall_totalsFrom_iff (fun u => u.natAbs ≤ safeLimit) .plus n
    have hfirst (k : Nat) : exactTotal ((.number x span :: rest).take (k + 1)) =
        exactFrom .plus n (rest.take k) := by
      rw [List.take_succ_cons, exactTotal, exactFrom_number hx, Sign.exact, Int.zero_add]
    constructor
    · intro hsafe k
      cases k with
      | zero => exact Nat.zero_le _
      | succ k =>
        rw [hfirst]
        exact hiff.mp hsafe k
    · intro hall
      refine hiff.mpr fun k => ?_
      rw [← hfirst]
      exact hall (k + 1)

/-! ## The total of a token list -/

theorem number?_eq_ok_iff (x : Binary64) (span : Option Span) :
    Token.number? x span = .ok (.number x span) ↔ x.isSafeNatural = true := by
  unfold Token.number?
  split <;> simp_all

theorem isSafeNatural_iff_toInt? (x : Binary64) :
    x.isSafeNatural = true ↔ ∃ n : Nat, n ≤ safeLimit ∧ x.toInt? = some (n : Int) := by
  simp only [isSafeNatural_iff, safeInt?_eq_some_iff, Int.natAbs_natCast, and_comm]

/-- One operator more: the rounded total is tested as the exact one would be, and is the exact one
where that is safe. -/
theorem total_snoc {front : List Token} {s : ExactSum} (h : SpellsSafe front s) {v : Binary64}
    (htotal : Token.total front = .ok v) {operator : Token} {sign : Sign}
    (hsign : operator.sign? = some sign) {x : Binary64} (hx : x.isSafeNatural = true)
    (span : Option Span) :
    let next := front ++ [operator, .number x span]
    ((sign.rounded v x).isSafe = true ↔ (exactTotal next).natAbs ≤ safeLimit) ∧
      ((exactTotal next).natAbs ≤ safeLimit →
        Token.total next = .ok (sign.rounded v x) ∧
          (sign.rounded v x).toInt? = some (exactTotal next)) := by
  intro next
  obtain ⟨n, hn⟩ := isSafeNatural_iff.mp hx
  obtain ⟨w, hw, -, hback⟩ := total_append h.1 h.2
  obtain rfl : v = w := by
    have hend := hback []
    rw [List.append_nil, Accumulator.totalFrom_nil, htotal] at hend
    exact Except.ok.inj hend
  have hnext : exactTotal next = sign.exact s.total n := by
    rw [(h.1.snoc hsign hn).exactTotal_eq, ExactSum.total_snoc]
  rw [hnext, sign.isSafe_rounded hw hn, decide_eq_true_eq]
  refine ⟨Iff.rfl, fun hle => ⟨?_, (safeInt?_eq_some_iff.mp (sign.safeInt?_rounded hw hn hle)).1⟩⟩
  rw [hback, Accumulator.totalFrom_cons, Accumulator.apply_term _ _ span _ hsign hw hn, if_pos hle]
  exact congrArg Prod.fst (Accumulator.totalFrom_nil _ _ _)

/-- A token list has a total just when it is in the grammar, every operand is a safe natural and every
exact partial total is safe. The total is then the exact one, and the next rounded result is safe
just when the exact one is, which it then equals. -/
theorem total_succeeds_iff (tokens : List Token) :
    ((∃ v, Token.total tokens = .ok v) ↔
      Alternates tokens ∧
        (∀ x span, .number x span ∈ tokens → Token.number? x span = .ok (.number x span)) ∧
        ∀ k, (exactTotal (tokens.take k)).natAbs ≤ safeLimit) ∧
    (∀ x span, Token.number? x span = .ok (.number x span) ↔
      ∃ n : Nat, n ≤ safeLimit ∧ x.toInt? = some (n : Int)) ∧
    ∀ v, Token.total tokens = .ok v →
      v.toInt? = some (exactTotal tokens) ∧
      ∀ operator sign x span, operator.sign? = some sign →
        Token.number? x span = .ok (.number x span) →
        let next := tokens ++ [operator, .number x span]
        ((sign.rounded v x).isSafe = true ↔ (exactTotal next).natAbs ≤ safeLimit) ∧
          ((exactTotal next).natAbs ≤ safeLimit →
            Token.total next = .ok (sign.rounded v x) ∧
              (sign.rounded v x).toInt? = some (exactTotal next)) := by
  simp only [number?_eq_ok_iff]
  refine ⟨⟨?_, ?_⟩, fun x _ => isSafeNatural_iff_toInt? x, fun v htotal => ?_⟩
  · rintro ⟨v, htotal⟩
    obtain ⟨s, hspells, hsafe⟩ := exists_spells_of_total htotal
    exact ⟨hspells.alternates, fun x span => hspells.isSafeNatural_of_mem,
      hspells.safe_iff.mp hsafe⟩
  · rintro ⟨halternates, hnatural, hpartial⟩
    obtain ⟨s, hspells⟩ := exists_spells_of_alternates halternates hnatural
    obtain ⟨v, htotal, -, -⟩ := total_of_spells hspells (hspells.safe_iff.mpr hpartial)
    exact ⟨v, htotal⟩
  · obtain ⟨s, hspells, hsafe⟩ := exists_spells_of_total htotal
    obtain ⟨w, hw, hval, -⟩ := total_of_spells hspells hsafe
    obtain rfl := Except.ok.inj (htotal.symm.trans hw)
    refine ⟨?_, fun operator sign x span hsign hx => total_snoc ⟨hspells, hsafe⟩ htotal hsign hx span⟩
    rw [hspells.exactTotal_eq]
    exact (safeInt?_eq_some_iff.mp hval).1

/-- From the greatest safe integer one more is refused, although one less is not. -/
theorem total_succeeds_at_limit :
    let front : List Token := [.number (ofNat safeLimit) none]
    Token.total front = .ok (ofNat safeLimit) ∧
      (ofNat safeLimit + ofNat 1).isSafe = false ∧
      Token.total (front ++ [.minus none, .number (ofNat 1) none]) =
        .ok (ofNat safeLimit - ofNat 1) := by
  intro front
  have hnatural (n : Nat) (h : n ≤ safeLimit) : (ofNat n).isSafeNatural = true :=
    isSafeNatural_iff.mpr ⟨n, safeInt?_ofNat h⟩
  have hfront : Token.total front = .ok (ofNat safeLimit) := by
    rw [Token.total, Accumulator.ofTokens, Accumulator.total, Accumulator.operand_number,
      if_pos (hnatural _ (le_refl _))]
    exact congrArg Prod.fst (Accumulator.totalFrom_nil _ _ _)
  have hone := (number?_eq_ok_iff _ none).mpr (hnatural 1 (by decide))
  obtain ⟨-, hnext⟩ := (total_succeeds_iff front).2.2 _ hfront
  have hplus := hnext (.plus none) .plus (ofNat 1) none rfl hone
  have hminus := hnext (.minus none) .minus (ofNat 1) none rfl hone
  refine ⟨hfront, ?_, (hminus.2 (by decide +kernel)).1⟩
  rw [Bool.eq_false_iff]
  exact fun hsafe => absurd (hplus.1.mp hsafe) (by decide +kernel)

end RunningTotal
