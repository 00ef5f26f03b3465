import RunningTotal.Proofs.Evaluation.Outcome
import RunningTotal.Proofs.Total.Failure

/-! Where an evaluation fails. Whatever the logger, as long as it never fails, the first stage that fails
gives the error (`evaluate_fails_iff`), which is about the expression as given and, where it has a
place, counts plain characters up to it. -/
set_option autoImplicit false

namespace RunningTotal

open Binary64 Log

/-! ## Errors as they are reported -/

structure Report where
  name : String
  message : String
  expression : Option String
  position : Option Offset
  cause : Option Malformation

namespace EvaluationError

def expression? : EvaluationError → Option String
  | .malformed _ expression => some expression
  | .bounds e => some e.expression
  | .misuse _ | .log _ => none

def position : EvaluationError → Option Offset
  | .malformed cause _ => cause.position
  | .bounds e => e.position
  | .misuse _ | .log _ => none

def cause? : EvaluationError → Option Malformation
  | .malformed cause _ => some cause
  | .bounds _ | .misuse _ | .log _ => none

def report (e : EvaluationError) : Report :=
  ⟨e.name, e.message, e.expression?, e.position, e.cause?⟩

end EvaluationError

/-- What the first stage that fails reports. -/
inductive FailsAt (expression : String) (limits : Value) : Report → Prop
  | limits {e : LimitError} (invalid : Limits.ofValue limits = .error e) :
      FailsAt expression limits
        ⟨"ExpressionRangeError", e.message, some expression, none, none⟩
  | length {resolved : Limits} (valid : Limits.ofValue limits = .ok resolved)
      (excess : resolved.maxLength.admits (characters expression).length = false) :
      FailsAt expression limits
        ⟨"ExpressionRangeError", (BoundsError.Cause.length resolved.maxLength).message,
          some expression, none, none⟩
  | stray {e : StrayCharacter} (admitted : Admitted expression limits)
      (scan : Token.scan expression = .error (.stray e)) :
      FailsAt expression limits
        ⟨"ExpressionSyntaxError", e.message, some expression, some e.offset, some (.stray e)⟩
  | literal {e : BoundsError} (admitted : Admitted expression limits)
      (scan : Token.scan expression = .error (.bounds e)) :
      FailsAt expression limits
        ⟨"ExpressionRangeError", e.message, some e.expression, e.position, none⟩
  | grammar {tokens : List Token} {e : GrammarError} (admitted : Admitted expression limits)
      (scan : Token.scan expression = .ok tokens) (total : Token.total tokens = .error (.grammar e)) :
      FailsAt expression limits
        ⟨"ExpressionSyntaxError", e.message, some expression, e.position, some (.grammar e)⟩
  | total {tokens : List Token} {e : BoundsError} (admitted : Admitted expression limits)
      (scan : Token.scan expression = .ok tokens) (total : Token.total tokens = .error (.bounds e)) :
      FailsAt expression limits
        ⟨"ExpressionRangeError", e.message, some expression, e.position, none⟩

theorem exists_outcome_of_failsAt {expression : String} {limits : Value} {report : Report}
    (h : FailsAt expression limits report) :
    ∃ e, outcome expression limits = .error e ∧ e.report = report := by
  cases h with
  | limits invalid => exact ⟨_, outcome_of_error (beforeTotal_of_invalid invalid), rfl⟩
  | length valid excess => exact ⟨_, outcome_of_error (beforeTotal_of_excess valid excess), rfl⟩
  | stray admitted scan => exact ⟨_, outcome_of_scan_error admitted scan, rfl⟩
  | literal admitted scan => exact ⟨_, outcome_of_scan_error admitted scan, rfl⟩
  | @grammar tokens e admitted scan total =>
    refine ⟨.malformed (.grammar e) expression, ?_, rfl⟩
    rw [outcome_of_scan admitted scan, total]
    rfl
  | @total tokens e admitted scan total =>
    refine ⟨.bounds ⟨e.cause, expression, e.position⟩, ?_, rfl⟩
    rw [outcome_of_scan admitted scan, total]
    rfl

theorem failsAt_of_outcome {expression : String} {limits : Value} {e : EvaluationError}
    (h : outcome expression limits = .error e) : FailsAt expression limits e.report := by
  rcases outcome_eq_error h with ⟨x, invalid, rfl⟩ | ⟨resolved, valid, excess, rfl⟩ |
    ⟨admitted, x, scan, rfl⟩ | ⟨admitted, tokens, x, scan, htotal, rfl⟩
  · exact .limits invalid
  · exact .length valid excess
  · cases x with
    | stray e => exact .stray admitted scan
    | bounds e => exact .literal admitted scan
    | misuse e => exact absurd scan (scan_ne_misuse expression e)
  · cases x with
    | grammar e => exact .grammar admitted scan htotal
    | bounds e =>
      have hfails := FailsAt.total admitted scan htotal
      exact hfails

/-! ## Places -/

/-- So many characters stand before the place, plain ones, so 16-bit units count the same. -/
def PlainPlace (expression : String) (place : Offset) : Prop :=
  ∃ front back, characters expression = singles front ++ back ∧ (∀ c ∈ front, IsPlain c) ∧
    place = (front.length : Int) ∧ place = (length16 (String.ofList front) : Int)

theorem plainPlace_of_plain {expression : String} {front : List Char} {back : List Cluster}
    (hsplit : characters expression = singles front ++ back) (hplain : ∀ c ∈ front, IsPlain c) :
    PlainPlace expression front.length :=
  ⟨front, back, hsplit, hplain, rfl, by rw [length16_of_plain hplain]⟩

theorem plainPlace_of_mem {expression : String} {tokens : List Token} {t : Token} {place : Offset}
    (hscan : Token.scan expression = .ok tokens) (ht : t ∈ tokens) (hplace : t.start? = some place) :
    PlainPlace expression place := by
  have hreads := scan_eq_ok_iff.mp hscan
  obtain ⟨front, back, htext, hstart⟩ := hreads.exists_start ht
  have hplain : ∀ c ∈ front, IsPlain c := fun c hc => hreads.isPlain c (by rw [htext]; simp [hc])
  have hsplit : characters expression = singles front ++ singles back := by
    rw [characters_of_reads hreads, htext, singles_append]
  obtain rfl : place = (front.length : Int) := by
    rw [hplace, Nat.zero_add] at hstart
    exact Option.some.inj hstart
  exact plainPlace_of_plain hsplit hplain

theorem ScanFails.plainPlace {expression : String} {e : ScanError} {place : Offset}
    (h : ScanFails expression e)
    (hplace : (EvaluationError.ofScan expression e).position = some place) :
    PlainPlace expression place := by
  cases h with
  | stray hsplit readable _ =>
    obtain rfl := Option.some.inj hplace
    exact plainPlace_of_plain hsplit readable.isPlain
  | oversized hsplit readable _ _ _ =>
    obtain rfl := Option.some.inj hplace
    exact plainPlace_of_plain hsplit readable.isPlain

theorem TotalFails.exists_mem {tokens : List Token} {e : TotalError} {expression : String}
    {place : Offset} (h : TotalFails tokens e)
    (hplace : (EvaluationError.ofTotal expression e).position = some place) :
    ∃ t ∈ tokens, t.start? = some place := by
  cases h with
  | endOfInput => cases hplace
  | @operator front back operator _ hsplit _ _ => exact ⟨operator, by simp [hsplit], hplace⟩
  | @operand front back x span hsplit _ _ => exact ⟨.number x span, by simp [hsplit], hplace⟩
  | @number front back _ x span hsplit _ => exact ⟨.number x span, by simp [hsplit], hplace⟩
  | @total front back _ operator _ x _ span hsplit _ _ _ _ =>
    exact ⟨operator, by simp [hsplit], hplace⟩

theorem total_ne_operand {expression : String} {tokens : List Token}
    (hscan : Token.scan expression = .ok tokens) (x : Binary64) (text : String)
    (place : Option Offset) : Token.total tokens ≠ .error (.bounds ⟨.operand x, text, place⟩) := by
  intro htotal
  cases totalFails_of_total htotal with
  | operand hsplit _ hnatural =>
    obtain ⟨n, rfl, hn⟩ := (scan_eq_ok_iff.mp hscan).exists_ofNat
      (hsplit ▸ List.mem_append_right _ (List.mem_cons_self ..))
    rw [isSafeNatural_iff.mpr ⟨n, safeInt?_ofNat hn⟩] at hnatural
    cases hnatural

theorem expression_of_outcome {expression : String} {limits : Value} {e : EvaluationError}
    (h : outcome expression limits = .error e) : e.report.expression = some expression := by
  rcases outcome_eq_error h with ⟨x, -, rfl⟩ | ⟨resolved, -, -, rfl⟩ |
    ⟨-, x, scan, rfl⟩ | ⟨-, tokens, x, -, -, rfl⟩
  · rfl
  · rfl
  · cases scanFails_of_scan scan <;> rfl
  · cases x <;> rfl

theorem plainPlace_of_outcome {expression : String} {limits : Value} {e : EvaluationError}
    {place : Offset} (h : outcome expression limits = .error e)
    (hplace : e.report.position = some place) : PlainPlace expression place := by
  rcases outcome_eq_error h with ⟨x, -, rfl⟩ | ⟨resolved, -, -, rfl⟩ |
    ⟨-, x, scan, rfl⟩ | ⟨-, tokens, x, scan, htotal, rfl⟩
  · cases hplace
  · cases hplace
  · exact (scanFails_of_scan scan).plainPlace hplace
  · obtain ⟨t, ht, hstart⟩ := (totalFails_of_total htotal).exists_mem hplace
    exact plainPlace_of_mem scan ht hstart

theorem outcome_ne_operand {expression : String} {limits : Value} (x : Binary64) (text : String)
    (place : Option Offset) :
    outcome expression limits ≠ .error (.bounds ⟨.operand x, text, place⟩) := by
  intro h
  rcases outcome_eq_error h with ⟨y, -, hy⟩ | ⟨resolved, -, -, hy⟩ |
    ⟨-, y, scan, hy⟩ | ⟨-, tokens, y, scan, htotal, hy⟩
  · cases hy
  · cases hy
  · cases scanFails_of_scan scan <;> cases hy
  · cases y with
    | grammar => cases hy
    | bounds e =>
      obtain ⟨cause, rendered, position⟩ := e
      cases hy
      exact total_ne_operand scan x rendered position htotal

/-! ## The error of an evaluation -/

/-- An evaluation fails at its first stage that does, with that stage's error about the expression as
given. A place in it has only plain characters before it, and no number is ever found unfit as
an operand. -/
theorem evaluate_fails_iff (expression : String) (limits : Value) {logger : Option Logger}
    {clock : Clock} (quiet : NeverFails logger clock) :
    (∀ report,
      (∃ e, (evaluate expression limits logger clock).result = .error e ∧ e.report = report) ↔
        FailsAt expression limits report) ∧
    ∀ e, (evaluate expression limits logger clock).result = .error e →
      e.report.expression = some expression ∧
      (∀ place, e.report.position = some place → PlainPlace expression place) ∧
      ∀ x text place, e ≠ .bounds ⟨.operand x, text, place⟩ := by
  rw [result_evaluate expression limits quiet]
  constructor
  · intro report
    constructor
    · rintro ⟨e, he, rfl⟩
      exact failsAt_of_outcome he
    · exact exists_outcome_of_failsAt
  · intro e he
    refine ⟨expression_of_outcome he, fun place => plainPlace_of_outcome he, ?_⟩
    rintro x text place rfl
    exact outcome_ne_operand x text place he

/-- The stray character is reported although an operator stands in place of the first number. -/
theorem evaluate_stray_before_grammar :
    let logger := Logger.create { environment := some .test } Sink.keeping
    let clock : Clock := some ⟨0, by decide⟩
    NeverFails (some logger) clock ∧
      ∃ e, (evaluate "+ + é" .undefined (some logger) clock).result = .error e ∧
        e.report = ⟨"ExpressionSyntaxError", "Unexpected character 'é' at offset 4", some "+ + é",
          some 4, some (.stray ⟨['é'], "+ + é", 4⟩)⟩ := by
  intro logger clock
  have quiet : NeverFails (some logger) clock :=
    neverFails_create { environment := some .test } ⟨0, by decide⟩ (fun _ _ h => by cases h)
  have scan : Token.scan "+ + é" = .error (.stray ⟨['é'], "+ + é", 4⟩) := by cbv
  have message : StrayCharacter.message ⟨['é'], "+ + é", 4⟩ =
      "Unexpected character 'é' at offset 4" := by
    have hfour : (ofInt 4).numeral = decimalInt 4 := numeral_ofInt (by decide)
    have hdigits : decimalInt 4 = ['4'] := by
      rw [decimalInt, decimal]
      rfl
    unfold StrayCharacter.message Offset.text Binary64.text
    rw [hfour, hdigits]
    rfl
  have admitted : Admitted "+ + é" .undefined := ⟨{}, rfl, by decide +kernel⟩
  have fails := FailsAt.stray admitted scan
  rw [message] at fails
  have reported := evaluate_fails_iff "+ + é" .undefined quiet
  exact ⟨quiet, (reported.1 _).mpr fails⟩

end RunningTotal
