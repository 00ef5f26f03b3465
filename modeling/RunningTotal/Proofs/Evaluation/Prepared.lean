import RunningTotal.Proofs.Evaluation.Announced
import RunningTotal.Proofs.Steps
import RunningTotal.Proofs.Total.Failure

/-! Prepared expressions. Preparation fails for what comes before the total and for nothing else
(`FailsBeforeTotal`), and where it succeeds, every total of the prepared expression, the first or
a later one, comes to what one evaluation comes to and logs what is left of its lines
(`prepare_agrees`). -/
set_option autoImplicit false

namespace RunningTotal

open Log

/-! ## What a total leaves behind -/

namespace Accumulator

variable (a : Accumulator)

theorem tokens_next : a.next.2.tokens = a.tokens := by
  unfold next
  split <;> rfl

theorem tokens_operand : a.operand.2.tokens = a.tokens := by
  have hnext := a.tokens_next
  unfold operand
  split
  all_goals rename_i h; rw [h] at hnext
  · exact hnext
  · split <;> exact hnext
  · exact hnext

theorem tokens_apply (value : Binary64) (token : Token) :
    (a.apply value token).2.tokens = a.tokens := by
  have hstep (operation : Binary64 → Binary64) :
      (apply.step token a.operand operation).2.tokens = a.tokens := by
    have hoperand := a.tokens_operand
    unfold apply.step
    split
    all_goals rename_i h; rw [h] at hoperand
    · exact hoperand
    · dsimp only
      split <;> exact hoperand
  unfold apply
  split
  · rfl
  · exact hstep _
  · exact hstep _

theorem tokens_totalFrom (value : Binary64) : (a.totalFrom value).2.tokens = a.tokens := by
  fun_induction totalFrom value a with
  | case1 value a b hnext =>
    have htokens := a.tokens_next
    rwa [hnext] at htokens
  | case2 value a token b hnext e c happly =>
    have htokens := b.tokens_apply value token
    rw [happly] at htokens
    have hb := a.tokens_next
    rw [hnext] at hb
    exact htokens.trans hb
  | case3 value a token b hnext total c happly ih =>
    have htokens := b.tokens_apply value token
    rw [happly] at htokens
    have hb := a.tokens_next
    rw [hnext] at hb
    exact ih.trans (htokens.trans hb)

theorem tokens_total : a.total.2.tokens = a.tokens := by
  have hoperand := a.tokens_operand
  unfold total
  split
  all_goals rename_i h; rw [h] at hoperand
  · exact hoperand
  · rw [tokens_totalFrom]
    exact hoperand

end Accumulator

namespace Prepared

/-- The answer of an evaluation, and the prepared expression with the tokens its accumulator leaves. -/
def call (p : Prepared) (clock : Clock) : Logged EvaluationError Binary64 × Prepared :=
  (p.evaluate clock, { p with tokens := (Accumulator.ofTokens p.tokens).total.2.tokens })

/-- The answers of evaluations one after another, and what is left after the last. -/
def calls (p : Prepared) (clocks : List Clock) :
    List (Logged EvaluationError Binary64) × Prepared :=
  ((Steps.run call p clocks).map Prod.fst, Steps.after call p clocks)

theorem call_eq (p : Prepared) (clock : Clock) : p.call clock = (p.evaluate clock, p) := by
  rw [call, Accumulator.tokens_total]
  rfl

theorem calls_eq (p : Prepared) (clocks : List Clock) : p.calls clocks = (clocks.map p.evaluate, p) := by
  have stays : ∀ clock ∈ clocks, (p.call clock).2 = p := fun clock _ => by rw [call_eq]
  rw [calls, Steps.run_eq_map call stays, Steps.after_eq_self call stays, List.map_map]
  rfl

end Prepared

/-! ## Failures of the preparation -/

/-- What comes before the total and can fail: limits, length, scanner and the event that tells the
logger of the tokens. -/
inductive FailsBeforeTotal (expression : String) (limits : Value) (logger : Logger) (clock : Clock) :
    EvaluationError → Prop
  | limits {e : LimitError} (invalid : Limits.ofValue limits = .error e) :
      FailsBeforeTotal expression limits logger clock (.bounds ⟨.limits e, expression, none⟩)
  | length {resolved : Limits} (valid : Limits.ofValue limits = .ok resolved)
      (excess : resolved.maxLength.admits (characters expression).length = false) :
      FailsBeforeTotal expression limits logger clock
        (.bounds ⟨.length resolved.maxLength, expression, none⟩)
  | scan {e : ScanError} (admitted : Admitted expression limits)
      (stops : Token.scan expression = .error e) :
      FailsBeforeTotal expression limits logger clock (.ofScan expression e)
  | event {tokens : List Token} {failure : Failure} (admitted : Admitted expression limits)
      (scan : Token.scan expression = .ok tokens)
      (ends : logger.log clock .debug "expression_lexed"
        [("token_count", .number (Binary64.ofNat tokens.length))] = .fail failure) :
      FailsBeforeTotal expression limits logger clock (.log failure)

section Prepare

variable {expression : String} {limits : Value}

theorem prepare_of_failsBeforeTotal {logger : Option Logger} {clock : Clock} {e : EvaluationError}
    (h : FailsBeforeTotal expression limits (logger.getD .silent) clock e) :
    prepare expression limits logger clock = .fail e := by
  cases h with
  | limits invalid => exact prepare_of_error (beforeTotal_of_invalid invalid) logger clock
  | length valid excess => exact prepare_of_error (beforeTotal_of_excess valid excess) logger clock
  | scan admitted stops =>
    exact prepare_of_error (by rw [beforeTotal_of_admitted admitted, stops]; rfl) logger clock
  | event admitted scan ends =>
    obtain ⟨resolved, hprepare⟩ :=
      exists_prepare_of_ok (beforeTotal_eq_ok_iff.mpr ⟨admitted, scan⟩) logger clock
    rw [hprepare, announce, ends]
    rfl

theorem prepare_cases (expression : String) (limits : Value) (logger : Option Logger)
    (clock : Clock) :
    (∃ e, FailsBeforeTotal expression limits (logger.getD .silent) clock e ∧
      prepare expression limits logger clock = .fail e) ∨
    ∃ p lines, p.expression = expression ∧ Token.scan expression = .ok p.tokens ∧
      prepare expression limits logger clock = ⟨.ok p, lines⟩ := by
  have hfails {e : EvaluationError}
      (h : FailsBeforeTotal expression limits (logger.getD .silent) clock e) :
      ∃ e, FailsBeforeTotal expression limits (logger.getD .silent) clock e ∧
        prepare expression limits logger clock = .fail e :=
    ⟨e, h, prepare_of_failsBeforeTotal h⟩
  rcases admitted_cases expression limits with ⟨x, invalid⟩ | ⟨resolved, valid, excess⟩ | admitted
  · exact .inl (hfails (.limits invalid))
  · exact .inl (hfails (.length valid excess))
  · cases scan : Token.scan expression with
    | error e => exact .inl (hfails (.scan admitted scan))
    | ok tokens =>
      rcases (logger.getD .silent).log_fails_or_succeeds clock .debug "expression_lexed"
        [("token_count", .number (Binary64.ofNat tokens.length))] with
        ⟨failure, ends⟩ | ⟨lines, ends⟩
      · exact .inl (hfails (.event admitted scan ends))
      · obtain ⟨resolved, hprepare⟩ :=
          exists_prepare_of_ok (beforeTotal_eq_ok_iff.mpr ⟨admitted, scan⟩) logger clock
        rw [announce, ends] at hprepare
        exact .inr ⟨⟨expression, tokens, ⟨_, _⟩⟩, lines ++ [], rfl, rfl, hprepare⟩

/-- No error of a total, of these tokens or of others, comes before the total. -/
theorem FailsBeforeTotal.ne_ofTotal {logger : Logger} {clock : Clock} {e : EvaluationError}
    (h : FailsBeforeTotal expression limits logger clock e) {tokens : List Token} {x : TotalError}
    (total : Token.total tokens = .error x) : e ≠ .ofTotal expression x := by
  intro heq
  have htotal := totalFails_of_total total
  cases h with
  | limits => cases htotal <;> cases heq
  | length => cases htotal <;> cases heq
  | scan _ stops => cases scanFails_of_scan stops <;> cases htotal <;> cases heq
  | event => cases htotal <;> cases heq

theorem evaluate_of_failsBeforeTotal {logger : Option Logger} {clock : Clock} {e : EvaluationError}
    (h : FailsBeforeTotal expression limits (logger.getD .silent) clock e) :
    evaluate expression limits logger clock = .fail e := by
  rw [evaluate_eq_prepare, prepare_of_failsBeforeTotal h]
  rfl

theorem evaluate_of_prepare {logger : Option Logger} {clock : Clock} {p : Prepared}
    {lines : List String} (h : prepare expression limits logger clock = ⟨.ok p, lines⟩) :
    evaluate expression limits logger clock =
      ⟨(p.evaluate clock).result, lines ++ (p.evaluate clock).lines⟩ := by
  rw [evaluate_eq_prepare, h]
  exact Logged.bind_ok rfl _

end Prepare

/-! ## Preparation and evaluation -/

/-- Preparation fails exactly for what comes before the total, and evaluation then fails alike. Else any
evaluations in a row leave the prepared expression as it was, and each comes to what one evaluation
comes to, whose lines are those of the preparation and then its own. -/
theorem prepare_agrees (expression : String) (limits : Value) (logger : Option Logger)
    (clock : Clock) :
    let prepared := prepare expression limits logger clock
    let evaluated := evaluate expression limits logger clock
    let FailsBefore := FailsBeforeTotal expression limits (logger.getD .silent) clock
    (∀ e, prepared.result = .error e ↔ FailsBefore e) ∧
    (∀ e, FailsBefore e →
      prepared = ⟨.error e, []⟩ ∧ evaluated = ⟨.error e, []⟩ ∧
      ∀ tokens x, Token.total tokens = .error x → e ≠ .ofTotal expression x) ∧
    ∀ p, prepared.result = .ok p →
      p.expression = expression ∧ Token.scan expression = .ok p.tokens ∧
      (∀ clocks, p.calls clocks = (clocks.map p.evaluate, p)) ∧
      ∀ n, (p.calls (List.replicate n clock)).1.length = n ∧
        ∀ answer ∈ (p.calls (List.replicate n clock)).1,
          answer.result = evaluated.result ∧ prepared.lines ++ answer.lines = evaluated.lines := by
  intro prepared evaluated FailsBefore
  refine ⟨?_, ?_, ?_⟩
  · intro e
    constructor
    · intro he
      rcases prepare_cases expression limits logger clock with
        ⟨found, hfails, hprepare⟩ | ⟨p, lines, -, -, hprepare⟩
      · simp only [prepared, hprepare] at he
        rwa [← Except.error.inj he]
      · simp only [prepared, hprepare] at he
        cases he
    · intro hfails
      simp only [prepared, prepare_of_failsBeforeTotal hfails]
      rfl
  · intro e hfails
    exact ⟨prepare_of_failsBeforeTotal hfails, evaluate_of_failsBeforeTotal hfails,
      fun tokens x total => hfails.ne_ofTotal total⟩
  · intro p hp
    rcases prepare_cases expression limits logger clock with
      ⟨found, -, hprepare⟩ | ⟨found, lines, hexpression, scan, hprepare⟩
    · simp only [prepared, hprepare] at hp
      cases hp
    · have hfound : found = p := by
        simp only [prepared, hprepare] at hp
        exact Except.ok.inj hp
      subst hfound
      have hevaluate := evaluate_of_prepare hprepare
      refine ⟨hexpression, scan, found.calls_eq, fun n => ?_⟩
      rw [found.calls_eq, List.map_replicate]
      refine ⟨List.length_replicate, fun answer hanswer => ?_⟩
      rw [List.eq_of_mem_replicate hanswer]
      simp only [evaluated, prepared, hevaluate, hprepare, and_self]

end RunningTotal
