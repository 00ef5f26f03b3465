import RunningTotal.Proofs.Binary64.Nearest
import RunningTotal.Proofs.Leftmost
import RunningTotal.Proofs.Total.Partial

/-! The error of a token list without a total. `DefectAt` says what is wrong at one index, looked at by
itself: the kind of its token, an operand out of range, a total out of range. The error is that
of the leftmost defect, or the end of the input where there is none (`total_fails_iff`), so
tokens behind the defect have no part in it. -/
set_option autoImplicit false

namespace RunningTotal

open Binary64

/-! ## Errors as they are shown -/

namespace TotalError

def position : TotalError → Option Offset
  | .grammar e => e.position
  | .bounds e => e.position

def message : TotalError → String
  | .grammar e => e.message
  | .bounds e => e.message

end TotalError

/-! ## Defects -/

inductive Defect where
  | unexpected (token : Token)
  | operand (value : Binary64) (span : Option Span)
  | total (exact : Int) (operator : Token)

namespace Defect

/-- The token that the error is about. -/
def token : Defect → Token
  | .unexpected token => token
  | .operand value span => .number value span
  | .total _ operator => operator

/-- Only an error of a range names an expression. -/
def error (expression : String) : Defect → TotalError
  | .unexpected token => .grammar (.unexpected token)
  | .operand value span => .bounds ⟨.operand value, expression, span.map Span.start⟩
  | .total exact operator => .bounds ⟨.total (ofInt exact), expression, operator.start?⟩

/-- The message, but for the place. -/
def text : Defect → String
  | .unexpected token => "Unexpected token " ++ token.description
  | .operand value _ => "Number " ++ value.text ++ " is not a non-negative safe integer"
  | .total exact _ => "Running total " ++ (ofInt exact).text ++ " is outside the safe integer range"

theorem position_error (d : Defect) (expression : String) :
    (d.error expression).position = d.token.start? := by
  cases d <;> rfl

theorem message_error {d : Defect} (h : d.token.span = none) (expression : String) :
    (d.error expression).message = d.text := by
  cases d with
  | operand value span => rfl
  | total exact operator => rfl
  | unexpected token =>
    have hstart : token.start? = none := congrArg (Option.map Span.start) h
    change (GrammarError.unexpected token).message = _
    unfold GrammarError.message
    simp only [hstart]
    exact String.append_empty

end Defect

/-- What is wrong at an index: numbers belong at the even ones and operators at the odd ones, an
operand must be a safe natural, and the partial total up to it must be safe. -/
inductive DefectAt (tokens : List Token) (j : Nat) : Defect → Prop
  | operator {t : Token} {sign : Sign} (even : j % 2 = 0) (found : tokens[j]? = some t)
      (isOperator : t.sign? = some sign) : DefectAt tokens j (.unexpected t)
  | operand {x : Binary64} {span : Option Span} (even : j % 2 = 0)
      (found : tokens[j]? = some (.number x span)) (notNatural : x.isSafeNatural = false) :
      DefectAt tokens j (.operand x span)
  | total {x : Binary64} {span : Option Span} {operator : Token} (even : j % 2 = 0) (later : 2 ≤ j)
      (found : tokens[j]? = some (.number x span)) (isNatural : x.isSafeNatural = true)
      (before : tokens[j - 1]? = some operator)
      (excess : safeLimit < (exactTotal (tokens.take (j + 1))).natAbs) :
      DefectAt tokens j (.total (exactTotal (tokens.take (j + 1))) operator)
  | number {x : Binary64} {span : Option Span} (odd : j % 2 = 1)
      (found : tokens[j]? = some (.number x span)) : DefectAt tokens j (.unexpected (.number x span))

namespace DefectAt

variable {tokens : List Token} {j : Nat} {d e : Defect}

theorem lt_length (h : DefectAt tokens j d) : j < tokens.length := by
  cases h <;> exact (List.getElem?_eq_some_iff.mp ‹_›).1

/-- The parity of the index and the token there leave only one kind of defect. -/
theorem unique (h : DefectAt tokens j d) (h' : DefectAt tokens j e) : d = e := by
  cases h with
  | operator even found isOperator =>
    cases h' with
    | operator _ found' => rw [Option.some.inj (found.symm.trans found')]
    | operand _ found' | total _ _ found' =>
      obtain rfl := Option.some.inj (found.symm.trans found')
      cases isOperator
    | number odd => omega
  | operand even found notNatural =>
    cases h' with
    | operator _ found' isOperator =>
      obtain rfl := Option.some.inj (found.symm.trans found')
      cases isOperator
    | operand _ found' =>
      cases found.symm.trans found'
      rfl
    | total _ _ found' isNatural =>
      cases found.symm.trans found'
      rw [notNatural] at isNatural
      cases isNatural
    | number odd => omega
  | total even later found isNatural before =>
    cases h' with
    | operator _ found' isOperator =>
      obtain rfl := Option.some.inj (found.symm.trans found')
      cases isOperator
    | operand _ found' notNatural =>
      cases found.symm.trans found'
      rw [notNatural] at isNatural
      cases isNatural
    | total _ _ _ _ before' => rw [Option.some.inj (before.symm.trans before')]
    | number odd => omega
  | number odd found =>
    cases h' with
    | operator even | operand even | total even => omega
    | number _ found' => rw [Option.some.inj (found.symm.trans found')]

theorem congr_take {others : List Token} (htake : others.take (j + 1) = tokens.take (j + 1))
    (h : DefectAt tokens j d) : DefectAt others j d := by
  have hget {i : Nat} (hi : i ≤ j) : tokens[i]? = others[i]? := by
    rw [← List.getElem?_take_of_lt (Nat.lt_succ_of_le hi), ← htake,
      List.getElem?_take_of_lt (Nat.lt_succ_of_le hi)]
  cases h with
  | operator even found isOperator => exact .operator even (hget (le_refl j) ▸ found) isOperator
  | operand even found notNatural => exact .operand even (hget (le_refl j) ▸ found) notNatural
  | total even later found isNatural before excess =>
    rw [← htake] at excess ⊢
    exact .total even later (hget (le_refl j) ▸ found) isNatural (hget (Nat.sub_le j 1) ▸ before)
      excess
  | number odd found => exact .number odd (hget (le_refl j) ▸ found)

end DefectAt

/-! ## Fronts without a defect -/

theorem SpellsTerms.even_length {tokens : List Token} {terms : List (Sign × Nat)}
    (h : SpellsTerms tokens terms) : tokens.length % 2 = 0 := by
  induction h with
  | nil => rfl
  | cons _ _ _ ih =>
    rw [List.length_cons, List.length_cons]
    omega

theorem Spells.odd_length {tokens : List Token} {s : ExactSum} (h : Spells tokens s) :
    tokens.length % 2 = 1 := by
  cases h with
  | mk _ hterms =>
    have heven := hterms.even_length
    rw [List.length_cons]
    omega

theorem Expectant.even_length {front : List Token} (h : Expectant front) :
    front.length % 2 = 0 := by
  cases h with
  | start => rfl
  | operator spelled _ =>
    have hodd := spelled.1.odd_length
    rw [List.length_append, List.length_singleton]
    omega

theorem SpellsSafe.not_defectAt {front : List Token} {s : ExactSum} (h : SpellsSafe front s)
    (back : List Token) {i : Nat} (hi : i < front.length) (d : Defect) :
    ¬ DefectAt (front ++ back) i d := by
  intro hd
  cases hd with
  | operator even found isOperator =>
    rw [List.getElem?_append_left hi] at found
    obtain ⟨x, span, rfl, -⟩ := h.1.operand found even
    cases isOperator
  | operand even found notNatural =>
    rw [List.getElem?_append_left hi] at found
    obtain ⟨y, place, hy, hnatural⟩ := h.1.operand found even
    cases hy
    rw [notNatural] at hnatural
    cases hnatural
  | total _ _ _ _ _ excess =>
    rw [List.take_append_of_le_length hi] at excess
    exact absurd (h.1.safe_iff.mp h.2 (i + 1)) (Nat.not_le.mpr excess)
  | number odd found =>
    rw [List.getElem?_append_left hi] at found
    obtain ⟨sign, hsign⟩ := h.1.operator found odd
    cases hsign

theorem Expectant.not_defectAt {front : List Token} (h : Expectant front) (back : List Token)
    {i : Nat} (hi : i < front.length) (d : Defect) : ¬ DefectAt (front ++ back) i d := by
  cases h with
  | start => cases hi
  | @operator front s operator sign spelled isOperator =>
    rw [List.length_append, List.length_singleton] at hi
    rw [List.append_assoc]
    rcases Nat.lt_succ_iff_lt_or_eq.mp hi with hi | rfl
    · exact spelled.not_defectAt _ hi d
    · -- the operator itself stands at an odd index, where it belongs
      have hodd := spelled.1.odd_length
      intro hd
      cases hd with
      | operator even | operand even | total even => omega
      | number _ found =>
        rw [List.getElem?_append_right (le_refl _), Nat.sub_self] at found
        obtain rfl := Option.some.inj found
        cases isOperator

/-! ## The leftmost defect -/

theorem Sign.natAbs_exact_le (sign : Sign) {a b : Int} (ha : a.natAbs ≤ safeLimit)
    (hb : b.natAbs ≤ safeLimit) : (sign.exact a b).natAbs ≤ 2 * safeLimit := by
  cases sign <;> simp only [Sign.exact] <;> omega

/-- A total out of range is only just so: it is one operator away from one in range. -/
def Defect.Near : Defect → Prop
  | .unexpected _ | .operand .. => True
  | .total exact _ => exact.natAbs ≤ 2 * safeLimit

theorem SpellsSafe.near_total {front : List Token} {s : ExactSum} (h : SpellsSafe front s)
    (sign : Sign) {x : Binary64} {n : Nat} (hx : x.safeInt? = some (n : Int)) (operator : Token) :
    (Defect.total (sign.exact s.total n) operator).Near := by
  obtain ⟨v, hv, -⟩ := total_append h.1 h.2
  exact sign.natAbs_exact_le (safeInt?_eq_some_iff.mp hv).2 (safeInt?_eq_some_iff.mp hx).2

theorem Spells.defectAt_total {front : List Token} {s : ExactSum} (h : Spells front s)
    {operator : Token} {sign : Sign} (hsign : operator.sign? = some sign) {x : Binary64} {n : Nat}
    (hx : x.safeInt? = some (n : Int)) (span : Option Span)
    (excess : safeLimit < (sign.exact s.total n).natAbs) (back : List Token) :
    DefectAt (front ++ operator :: .number x span :: back) (front.length + 1)
      (.total (sign.exact s.total n) operator) := by
  have hodd := h.odd_length
  generalize hsplit : front ++ operator :: .number x span :: back = tokens
  have htake : tokens.take (front.length + 1 + 1) = front ++ [operator, .number x span] := by
    rw [← hsplit, List.append_cons, List.append_cons, List.take_left' (by simp)]
    simp
  have hexact : exactTotal (tokens.take (front.length + 1 + 1)) = sign.exact s.total n := by
    rw [htake, (h.snoc hsign hx).exactTotal_eq, ExactSum.total_snoc]
  have hfound : tokens[front.length + 1]? = some (.number x span) := by simp [← hsplit]
  have hbefore : tokens[front.length + 1 - 1]? = some operator := by simp [← hsplit]
  rw [← hexact] at excess ⊢
  exact .total (by omega) (by omega) hfound (Accumulator.isSafeNatural_of_safeInt? hx) hbefore excess

theorem TotalFails.leftmost {tokens : List Token} {e : TotalError} (h : TotalFails tokens e) :
    (∃ j d, Leftmost (DefectAt tokens) j d ∧ e = d.error (Token.render tokens) ∧ d.Near) ∨
    (∀ j d, ¬ DefectAt tokens j d) ∧ tokens.length % 2 = 0 ∧ e = .grammar .endOfInput := by
  cases h with
  | endOfInput expectant =>
    refine .inr ⟨fun j d hd => ?_, expectant.even_length, rfl⟩
    rw [← List.append_nil tokens] at hd
    exact expectant.not_defectAt [] (by simpa using hd.lt_length) d hd
  | @operator front back operator sign split expectant isOperator =>
    have hfound : tokens[front.length]? = some operator := by simp [split]
    refine .inl ⟨_, _, ⟨.operator expectant.even_length hfound isOperator, ?_⟩, rfl, trivial⟩
    rw [split]
    exact fun i hi => expectant.not_defectAt _ hi
  | @operand front back x span split expectant notNatural =>
    have hfound : tokens[front.length]? = some (.number x span) := by simp [split]
    refine .inl ⟨_, _, ⟨.operand expectant.even_length hfound notNatural, ?_⟩, rfl, trivial⟩
    rw [split]
    exact fun i hi => expectant.not_defectAt _ hi
  | @number front back s x span split spelled =>
    have hfound : tokens[front.length]? = some (.number x span) := by simp [split]
    refine .inl ⟨_, _, ⟨.number spelled.1.odd_length hfound, ?_⟩, rfl, trivial⟩
    rw [split]
    exact fun i hi => spelled.not_defectAt _ hi
  | @total front back s operator sign x n span split spelled isOperator isNatural excess =>
    subst split
    have hdefect := spelled.1.defectAt_total isOperator isNatural span excess back
    refine .inl ⟨_, _, ⟨hdefect, fun i hi d => ?_⟩, rfl, spelled.near_total sign isNatural operator⟩
    rw [List.append_cons]
    exact (Expectant.operator spelled isOperator).not_defectAt _ (by simpa using hi) d

namespace Leftmost

variable {tokens : List Token} {j : Nat} {d : Defect}

theorem total_eq (h : Leftmost (DefectAt tokens) j d) :
    Token.total tokens = .error (d.error (Token.render tokens)) ∧ d.Near := by
  cases htotal : Token.total tokens with
  | ok v =>
    obtain ⟨s, hspells⟩ := exists_spells_of_total htotal
    have hd := h.defect
    rw [← List.append_nil tokens] at hd
    exact absurd hd (SpellsSafe.not_defectAt hspells [] h.defect.lt_length d)
  | error e =>
    rcases (totalFails_of_total htotal).leftmost with ⟨k, e, hfirst, rfl, hnear⟩ | ⟨hnone, -⟩
    · obtain rfl := h.unique (fun _ _ _ ha hb => ha.unique hb) hfirst
      exact ⟨rfl, hnear⟩
    · exact absurd h.defect (hnone j d)

theorem isNearest {n : Int} {operator : Token}
    (h : Leftmost (DefectAt tokens) j (.total n operator)) : IsNearest n (ofInt n) := by
  have hbound : n.natAbs ≤ 2 * safeLimit := h.total_eq.2
  have hpow : n.natAbs < 2 ^ 54 := lt_of_le_of_lt hbound (by decide)
  refine isNearest_ofInt ?_
  rcases Nat.eq_zero_or_pos n.natAbs with hzero | hpos
  · rw [hzero]
    decide
  · exact lt_trans ((Nat.log2_lt (by omega)).mpr hpow) (by decide)

end Leftmost

theorem total_of_no_defect {tokens : List Token} (h : ∀ j d, ¬ DefectAt tokens j d)
    (even : tokens.length % 2 = 0) : Token.total tokens = .error (.grammar .endOfInput) := by
  cases htotal : Token.total tokens with
  | ok v =>
    obtain ⟨s, hspells, -⟩ := exists_spells_of_total htotal
    have hodd := hspells.odd_length
    omega
  | error e =>
    rcases (totalFails_of_total htotal).leftmost with ⟨j, d, hfirst, -⟩ | ⟨-, -, rfl⟩
    · exact absurd hfirst.defect (h j d)
    · rfl

/-- A token list without a total has the error of its leftmost defect, or lacks its end where it has
none. What stands behind the defect changes only the expression of an error of a range, a total is
reported as the value nearest to it, and the place is that of the token. -/
theorem total_fails_iff (tokens : List Token) :
    (∀ e, Token.total tokens = .error e ↔
      (∃ j d, Leftmost (DefectAt tokens) j d ∧ e = d.error (Token.render tokens)) ∨
      (∀ j d, ¬ DefectAt tokens j d) ∧ tokens.length % 2 = 0 ∧ e = .grammar .endOfInput) ∧
    (∀ j d, Leftmost (DefectAt tokens) j d →
      (∀ others : List Token, others.take (j + 1) = tokens.take (j + 1) →
        Token.total others = .error (d.error (Token.render others))) ∧
      ∀ n operator, d = .total n operator → IsNearest n (ofInt n)) ∧
    (∀ (d : Defect) expression, (d.error expression).position = d.token.start? ∧
      (d.token.span = none → (d.error expression).position = none ∧
        (d.error expression).message = d.text)) ∧
    GrammarError.endOfInput.token? = none ∧ GrammarError.endOfInput.position = none := by
  refine ⟨fun e => ⟨fun h => ?_, ?_⟩, fun j d hfirst => ⟨fun others htake => ?_, ?_⟩,
    fun d expression => ⟨d.position_error expression, fun hspan => ⟨?_, d.message_error hspan _⟩⟩,
    rfl, rfl⟩
  · rcases (totalFails_of_total h).leftmost with ⟨j, d, hfirst, he, -⟩ | hnone
    · exact .inl ⟨j, d, hfirst, he⟩
    · exact .inr hnone
  · rintro (⟨j, d, hfirst, rfl⟩ | ⟨hnone, heven, rfl⟩)
    · exact hfirst.total_eq.1
    · exact total_of_no_defect hnone heven
  · have hothers : Leftmost (DefectAt others) j d := hfirst.congr fun i hi e => by
      have hi' : others.take (i + 1) = tokens.take (i + 1) := by
        have h := congrArg (List.take (i + 1)) htake
        rwa [List.take_take, List.take_take, Nat.min_eq_left (Nat.succ_le_succ hi)] at h
      exact ⟨DefectAt.congr_take hi', DefectAt.congr_take hi'.symm⟩
    exact hothers.total_eq.1
  · rintro n operator rfl
    exact hfirst.isNearest
  · rw [d.position_error]
    exact congrArg (Option.map Span.start) hspan

/-- Half way between two values the even one is reported, and what is wrong further on is not. -/
theorem total_fails_at_first :
    let tokens : List Token := [.number (ofNat safeLimit) none, .plus (some ⟨17, 18⟩),
      .number (ofNat 2) none, .number .nan none, .minus none]
    Token.total tokens =
        .error (.bounds ⟨.total (ofInt (safeLimit + 1)), Token.render tokens, some 17⟩) ∧
      IsNearest ((safeLimit : Int) + 2 : Int) (ofInt (safeLimit + 1)) := by
  intro tokens
  have hlimit := safeInt?_ofNat (le_refl safeLimit)
  have htwo := safeInt?_ofNat (show 2 ≤ safeLimit by decide)
  have hround : ofInt ((safeLimit : Int) + 2) = ofInt (safeLimit + 1) := by decide +kernel
  have hfront := SpellsSafe.number hlimit none
  have hplus : (Token.plus (some ⟨17, 18⟩)).sign? = some .plus := rfl
  have hexact : exactTotal (tokens.take 3) = (safeLimit : Int) + 2 :=
    (hfront.1.snoc hplus htwo).exactTotal_eq
  have hfirst : Leftmost (DefectAt tokens) 2
      (.total ((safeLimit : Int) + 2) (.plus (some ⟨17, 18⟩))) := by
    refine ⟨?_, fun i hi d => (Expectant.operator hfront hplus).not_defectAt _ hi d⟩
    rw [← hexact]
    exact .total rfl (le_refl 2) rfl (Accumulator.isSafeNatural_of_safeInt? htwo) rfl
      (by rw [hexact]; decide)
  obtain ⟨hfails, hdefect, -⟩ := total_fails_iff tokens
  rw [← hround]
  exact ⟨(hfails _).mpr (.inl ⟨2, _, hfirst, rfl⟩), (hdefect 2 _ hfirst).2 _ _ rfl⟩

end RunningTotal
