import RunningTotal.Evaluation
import RunningTotal.Proofs.Token.Reading

/-! The outcome of an evaluation. Limits, length and scanner come before any event (`beforeTotal`), and
where they let the expression through, the total of its tokens is the outcome. Preparation and
evaluation go by `beforeTotal` alone (`exists_prepare_eq`, `evaluate_of_error`, `evaluate_of_ok`), so
an evaluation whose logger never fails comes to its outcome (`result_evaluate`). -/
set_option autoImplicit false

namespace RunningTotal

open Log

variable {expression : String} {limits : Value}

/-! ## Before the total -/

theorem mapError_eq_ok_iff {ε δ α : Type} {x : Except ε α} {f : ε → δ} {a : α} :
    x.mapError f = .ok a ↔ x = .ok a := by
  cases x <;> simp [Except.mapError]

theorem Limit.admitsText_eq (limit : Limit) (expression : String) :
    limit.admitsText expression = limit.admits (characters expression).length := by
  cases limit with
  | unlimited => rfl
  | atMost n =>
    -- characters never outnumber units, so the count in units decides only if it is within the limit
    have hle := length_characters_le expression
    by_cases h : length16 expression ≤ n
    · simp [Limit.admitsText, Limit.admits, h, le_trans hle h]
    · simp [Limit.admitsText, Limit.admits, h]

/-- Limits and length let the expression through to the scanner. -/
def Admitted (expression : String) (limits : Value) : Prop :=
  ∃ resolved, Limits.ofValue limits = .ok resolved ∧
    resolved.maxLength.admits (characters expression).length = true

/-- The tokens, if limits, length and scanner let the expression through. -/
def beforeTotal (expression : String) (limits : Value) : Except EvaluationError (List Token) :=
  match Limits.ofValue limits with
  | .error e => .error (.bounds ⟨.limits e, expression, none⟩)
  | .ok resolved =>
    if resolved.maxLength.admits (characters expression).length then
      (Token.scan expression).mapError (.ofScan expression)
    else .error (.bounds ⟨.length resolved.maxLength, expression, none⟩)

theorem beforeTotal_of_admitted (h : Admitted expression limits) :
    beforeTotal expression limits = (Token.scan expression).mapError (.ofScan expression) := by
  obtain ⟨resolved, valid, hadmits⟩ := h
  simp only [beforeTotal, valid, hadmits, if_true]

theorem beforeTotal_of_invalid {x : LimitError} (invalid : Limits.ofValue limits = .error x) :
    beforeTotal expression limits = .error (.bounds ⟨.limits x, expression, none⟩) := by
  rw [beforeTotal, invalid]

theorem beforeTotal_of_excess {resolved : Limits} (valid : Limits.ofValue limits = .ok resolved)
    (excess : resolved.maxLength.admits (characters expression).length = false) :
    beforeTotal expression limits =
      .error (.bounds ⟨.length resolved.maxLength, expression, none⟩) := by
  simp only [beforeTotal, valid, excess, Bool.false_eq_true, if_false]

/-- Where the expression is not admitted, either the limits are invalid or it is too long for them. -/
theorem admitted_cases (expression : String) (limits : Value) :
    (∃ x, Limits.ofValue limits = .error x) ∨
    (∃ resolved, Limits.ofValue limits = .ok resolved ∧
      resolved.maxLength.admits (characters expression).length = false) ∨
    Admitted expression limits := by
  cases valid : Limits.ofValue limits with
  | error x => exact .inl ⟨x, rfl⟩
  | ok resolved =>
    cases hadmits : resolved.maxLength.admits (characters expression).length with
    | false => exact .inr (.inl ⟨resolved, rfl, hadmits⟩)
    | true => exact .inr (.inr ⟨resolved, valid, hadmits⟩)

theorem beforeTotal_eq_ok_iff {tokens : List Token} :
    beforeTotal expression limits = .ok tokens ↔
      Admitted expression limits ∧ Token.scan expression = .ok tokens := by
  constructor
  · intro h
    rcases admitted_cases expression limits with
      ⟨x, invalid⟩ | ⟨resolved, valid, excess⟩ | admitted
    · cases (beforeTotal_of_invalid invalid).symm.trans h
    · cases (beforeTotal_of_excess valid excess).symm.trans h
    · rw [beforeTotal_of_admitted admitted, mapError_eq_ok_iff] at h
      exact ⟨admitted, h⟩
  · rintro ⟨admitted, scan⟩
    rw [beforeTotal_of_admitted admitted, mapError_eq_ok_iff]
    exact scan

/-! ## Preparation and evaluation -/

theorem exists_prepare_eq (expression : String) (limits : Value) (logger : Option Logger)
    (clock : Clock) :
    ∃ resolved : Limits, prepare expression limits logger clock =
      match beforeTotal expression limits with
      | .error e => .fail e
      | .ok tokens => announce (logger.getD .silent) clock "expression_lexed" "token_count"
          (Binary64.ofNat tokens.length) >>= fun _ =>
            pure ⟨expression, tokens, ⟨resolved, logger.getD .silent⟩⟩ := by
  unfold prepare setUp resolveLimits beforeTotal
  cases Limits.ofValue limits with
  | error e => exact ⟨{}, rfl⟩
  | ok resolved =>
    refine ⟨resolved, (Logged.pure_bind _ _).trans ?_⟩
    simp only [tokensWithin, Limit.admitsText_eq]
    split
    · cases Token.scan expression with
      | error e => rfl
      | ok tokens => simp only [Except.mapError, bind_assoc, pure_bind]
    · rfl

theorem prepare_of_error {e : EvaluationError} (h : beforeTotal expression limits = .error e)
    (logger : Option Logger) (clock : Clock) :
    prepare expression limits logger clock = .fail e := by
  obtain ⟨resolved, hprepare⟩ := exists_prepare_eq expression limits logger clock
  rw [hprepare, h]

theorem exists_prepare_of_ok {tokens : List Token} (h : beforeTotal expression limits = .ok tokens)
    (logger : Option Logger) (clock : Clock) :
    ∃ resolved : Limits, prepare expression limits logger clock =
      announce (logger.getD .silent) clock "expression_lexed" "token_count"
        (Binary64.ofNat tokens.length) >>= fun _ =>
          pure ⟨expression, tokens, ⟨resolved, logger.getD .silent⟩⟩ := by
  obtain ⟨resolved, hprepare⟩ := exists_prepare_eq expression limits logger clock
  exact ⟨resolved, by rw [hprepare, h]⟩

theorem evaluate_eq_prepare (logger : Option Logger) (clock : Clock) :
    evaluate expression limits logger clock =
      prepare expression limits logger clock >>= fun p => p.evaluate clock := by
  simp only [evaluate, prepare, bind_assoc, pure_bind]
  rfl

theorem evaluate_of_error {e : EvaluationError} (h : beforeTotal expression limits = .error e)
    (logger : Option Logger) (clock : Clock) :
    evaluate expression limits logger clock = .fail e := by
  rw [evaluate_eq_prepare, prepare_of_error h]
  rfl

theorem evaluate_of_ok {tokens : List Token} (h : beforeTotal expression limits = .ok tokens)
    (logger : Option Logger) (clock : Clock) :
    evaluate expression limits logger clock =
      announce (logger.getD .silent) clock "expression_lexed" "token_count"
        (Binary64.ofNat tokens.length) >>= fun _ =>
      match Token.total tokens with
      | .error e => .fail (.ofTotal expression e)
      | .ok value =>
        announce (logger.getD .silent) clock "expression_evaluated" "result" value >>= fun _ =>
          pure value := by
  obtain ⟨resolved, hprepare⟩ := exists_prepare_of_ok h logger clock
  calc evaluate expression limits logger clock
      = prepare expression limits logger clock >>= fun p => p.evaluate clock :=
        evaluate_eq_prepare logger clock
    _ = announce (logger.getD .silent) clock "expression_lexed" "token_count"
          (Binary64.ofNat tokens.length) >>= fun _ =>
        pure ⟨expression, tokens, ⟨resolved, logger.getD .silent⟩⟩ >>= fun p =>
          Prepared.evaluate p clock := by rw [hprepare, bind_assoc]
    _ = _ := rfl

/-! ## The outcome -/

/-- What an evaluation comes to if its logger takes every event. -/
def outcome (expression : String) (limits : Value) : Except EvaluationError Binary64 :=
  match beforeTotal expression limits with
  | .error e => .error e
  | .ok tokens => (Token.total tokens).mapError (.ofTotal expression)

theorem outcome_of_error {e : EvaluationError} (h : beforeTotal expression limits = .error e) :
    outcome expression limits = .error e := by rw [outcome, h]

theorem outcome_of_scan_error {e : ScanError} (admitted : Admitted expression limits)
    (scan : Token.scan expression = .error e) :
    outcome expression limits = .error (.ofScan expression e) :=
  outcome_of_error (by rw [beforeTotal_of_admitted admitted, scan]; rfl)

theorem outcome_of_scan {tokens : List Token} (admitted : Admitted expression limits)
    (scan : Token.scan expression = .ok tokens) :
    outcome expression limits = (Token.total tokens).mapError (.ofTotal expression) := by
  rw [outcome, beforeTotal_eq_ok_iff.mpr ⟨admitted, scan⟩]

theorem outcome_eq_ok_iff {v : Binary64} :
    outcome expression limits = .ok v ↔
      ∃ tokens, Admitted expression limits ∧ Token.scan expression = .ok tokens ∧
        Token.total tokens = .ok v := by
  constructor
  · intro h
    cases hbefore : beforeTotal expression limits with
    | error e => cases (outcome_of_error hbefore).symm.trans h
    | ok tokens =>
      obtain ⟨admitted, scan⟩ := beforeTotal_eq_ok_iff.mp hbefore
      rw [outcome_of_scan admitted scan, mapError_eq_ok_iff] at h
      exact ⟨tokens, admitted, scan, h⟩
  · rintro ⟨tokens, admitted, scan, total⟩
    rw [outcome_of_scan admitted scan, mapError_eq_ok_iff]
    exact total

theorem outcome_eq_error {e : EvaluationError} (h : outcome expression limits = .error e) :
    (∃ x, Limits.ofValue limits = .error x ∧ e = .bounds ⟨.limits x, expression, none⟩) ∨
    (∃ resolved, Limits.ofValue limits = .ok resolved ∧
      resolved.maxLength.admits (characters expression).length = false ∧
      e = .bounds ⟨.length resolved.maxLength, expression, none⟩) ∨
    (Admitted expression limits ∧
      ∃ x, Token.scan expression = .error x ∧ e = .ofScan expression x) ∨
    (Admitted expression limits ∧
      ∃ tokens x, Token.scan expression = .ok tokens ∧ Token.total tokens = .error x ∧
        e = .ofTotal expression x) := by
  rcases admitted_cases expression limits with ⟨x, invalid⟩ | ⟨resolved, valid, excess⟩ | admitted
  · rw [outcome_of_error (beforeTotal_of_invalid invalid)] at h
    exact .inl ⟨x, invalid, (Except.error.inj h).symm⟩
  · rw [outcome_of_error (beforeTotal_of_excess valid excess)] at h
    exact .inr (.inl ⟨resolved, valid, excess, (Except.error.inj h).symm⟩)
  · cases scan : Token.scan expression with
    | error x =>
      rw [outcome_of_scan_error admitted scan] at h
      exact .inr (.inr (.inl ⟨admitted, x, rfl, (Except.error.inj h).symm⟩))
    | ok tokens =>
      rw [outcome_of_scan admitted scan] at h
      cases total : Token.total tokens with
      | ok v =>
        rw [total] at h
        cases h
      | error x =>
        rw [total] at h
        exact .inr (.inr (.inr ⟨admitted, tokens, x, rfl, total, (Except.error.inj h).symm⟩))

/-! ## Loggers that never fail -/

namespace Log.Logged

variable {ε α β : Type}

theorem result_bind_ok {x : Logged ε α} {a : α} (h : x.result = .ok a) (f : α → Logged ε β) :
    (x >>= f).result = (f a).result := by
  change (x.bind f).result = (f a).result
  rw [bind_ok h]

theorem result_bind_error {x : Logged ε α} {e : ε} (h : x.result = .error e) (f : α → Logged ε β) :
    (x >>= f).result = .error e := by
  change (x.bind f).result = .error e
  rw [bind_error h]

end Log.Logged

/-- The logger takes every event of an evaluation. -/
def NeverFails (logger : Option Logger) (clock : Clock) : Prop :=
  ∀ event name value,
    (announce (logger.getD Logger.silent) clock event name value).result = .ok ()

theorem neverFails_none (clock : Clock) : NeverFails none clock := fun _ _ _ => rfl

theorem exists_line_create (config : Config) (sink : Sink) (time : Instant) (level : Level)
    (event name : String) (value : Binary64) :
    ∃ text, (Logger.create config sink).line (some time) level event [(name, .number value)] =
      .ok text := by
  have hmembers (keepsStacks : Bool) :
      ∃ members, Value.membersToJson (Logger.loggable keepsStacks [(name, .number value)]) =
        .ok members := by
    by_cases h : name = Logger.reservedName
    · refine ⟨[], ?_⟩
      simp [Logger.loggable, h, Value.membersToJson]
    · refine ⟨[(name, .number value)], ?_⟩
      simp [Logger.loggable, h]
      rfl
  obtain ⟨members, h⟩ := hmembers (Logger.create config sink).environment.preset.keepsStacks
  refine ⟨(Logger.entry level event members time).text, ?_⟩
  have hmerge : Record.merge (Logger.create config sink).metadata [(name, Value.number value)] =
      [(name, .number value)] := rfl
  simp only [Logger.line, hmerge, h]

/-- A logger without metadata takes every event if its clock has a reading and its sink refuses none. -/
theorem neverFails_create (config : Config) {sink : Sink} (time : Instant)
    (hsink : ∀ text message, sink text ≠ .refused message) :
    NeverFails (some (Logger.create config sink)) (some time) := by
  intro event name value
  obtain ⟨text, hline⟩ := exists_line_create config sink time .debug event name value
  simp only [announce, Option.getD_some, Logger.log, hline]
  have hsink := hsink text
  split
  · split
    · rfl
    · rfl
    · rename_i message h
      exact absurd h (hsink message)
  · rfl

theorem result_evaluate (expression : String) (limits : Value) {logger : Option Logger}
    {clock : Clock} (h : NeverFails logger clock) :
    (evaluate expression limits logger clock).result = outcome expression limits := by
  cases hbefore : beforeTotal expression limits with
  | error e =>
    rw [evaluate_of_error hbefore, outcome_of_error hbefore]
    rfl
  | ok tokens =>
    rw [evaluate_of_ok hbefore, Logged.result_bind_ok (h _ _ _), outcome, hbefore]
    dsimp only
    cases Token.total tokens with
    | error e => rfl
    | ok value => exact Logged.result_bind_ok (h _ _ _) _

end RunningTotal
