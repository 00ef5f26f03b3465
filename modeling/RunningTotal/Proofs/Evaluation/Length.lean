import Mathlib.Data.ENat.Basic
import RunningTotal.Proofs.Evaluation.Prepared

/-! The limit on the length. It is tested in 16-bit units first and in characters only where these
exceed it, which decides as the count of characters alone (`Segments.admits_or`): evaluation and
preparation report the length exactly of an expression with more characters than the limit, and
of two limits that admit an expression neither changes what it comes to (`length_gate_exact`). -/
set_option autoImplicit false

namespace RunningTotal

open Binary64 Log

/-! ## Limits as numbers -/

namespace Limit

/-- The greatest number of characters, or none. -/
def bound : Limit → ENat
  | .atMost n => n
  | .unlimited => ⊤

theorem admits_iff (limit : Limit) (length : Nat) :
    limit.admits length = true ↔ (length : ENat) ≤ limit.bound := by
  cases limit with
  | atMost n => simp [admits, bound]
  | unlimited => simp [admits, bound]

theorem admits_eq_false_iff (limit : Limit) (length : Nat) :
    limit.admits length = false ↔ limit.bound < length := by
  rw [← Bool.not_eq_true, admits_iff, not_le]

/-- A number is a limit if it is positive infinity or an integer from zero on, minus zero among them. -/
theorem ofNumber_eq_ok_iff {x : Binary64} {limit : Limit} :
    ofNumber x = .ok limit ↔
      x = .infinite false ∧ limit = .unlimited ∨
        ∃ n : Nat, x.toInt? = some (n : Int) ∧ limit = .atMost n := by
  cases x with
  | nan => simp [ofNumber, toInt?]
  | infinite negative => cases negative <;> simp [ofNumber, toInt?, eq_comm]
  | finite x =>
    cases h : (Binary64.finite x).toInt? with
    | none => simp [ofNumber, h]
    | some m =>
      rcases lt_or_ge m 0 with hm | hm
      · simp only [ofNumber, h, if_pos hm]
        constructor
        · intro h
          cases h
        · rintro (⟨h, -⟩ | ⟨n, hn, -⟩)
          · cases h
          · obtain rfl := Option.some.inj hn
            omega
      · obtain ⟨n, rfl⟩ := Int.eq_ofNat_of_zero_le hm
        simp [ofNumber, h, not_lt.mpr hm, eq_comm (b := limit)]

end Limit

theorem Limits.ofValue_number {x : Binary64} {limit : Limit} (h : Limit.ofNumber x = .ok limit) :
    Limits.ofValue (.object [(maxLengthName, .number x)]) = .ok ⟨limit⟩ := by
  have hget : Record.get? [(maxLengthName, Value.number x)] maxLengthName = some (.number x) := by
    simp [Record.get?_cons]
  simp only [ofValue, Value.properties?, ofRecord, hget, Limit.ofValue?, h]
  rfl

theorem Limits.ofValue_toValue_atMost {n : Nat} (h : n ≤ safeLimit) :
    Limits.ofValue (Limits.toValue ⟨.atMost n⟩) = .ok ⟨.atMost n⟩ :=
  Limits.ofValue_number (Limit.ofNumber_eq_ok_iff.mpr
    (.inr ⟨n, (safeInt?_eq_some_iff.mp (safeInt?_ofNat h)).1, rfl⟩))

theorem Limits.ofValue_toValue_unlimited :
    Limits.ofValue (Limits.toValue ⟨.unlimited⟩) = .ok ⟨.unlimited⟩ :=
  Limits.ofValue_number (Limit.ofNumber_eq_ok_iff.mpr (.inl ⟨rfl, rfl⟩))

/-! ## The test in two steps -/

/-- A division of a text into pieces, none of them empty. -/
structure Segments (text : String) (pieces : List Cluster) : Prop where
  joined : pieces.flatten = text.toList
  nonempty : ∀ piece ∈ pieces, piece ≠ []

theorem segments_characters (text : String) : Segments text (characters text) where
  joined := flatten_clusters text.toList
  nonempty := ne_nil_of_mem_clusters text.toList

namespace Segments

variable {text : String} {pieces : List Cluster}

theorem length_le (h : Segments text pieces) : pieces.length ≤ length16 text := by
  calc pieces.length
      ≤ pieces.flatten.length := length_le_length_flatten pieces h.nonempty
    _ = text.toList.length := by rw [h.joined]
    _ ≤ length16 text := length_le_length16 text

theorem admits_of_units (h : Segments text pieces) {limit : Limit}
    (hunits : limit.admits (length16 text) = true) : limit.admits pieces.length = true := by
  rw [Limit.admits_iff] at hunits ⊢
  exact le_trans (Nat.cast_le.mpr h.length_le) hunits

/-- However the text is divided, the units decide nothing that the pieces would not. -/
theorem admits_or (h : Segments text pieces) (limit : Limit) :
    (limit.admits (length16 text) || limit.admits pieces.length) = limit.admits pieces.length := by
  cases hunits : limit.admits (length16 text) with
  | false => rw [Bool.false_or]
  | true => rw [Bool.true_or, h.admits_of_units hunits]

end Segments

/-! ## The length error -/

/-- The error is about the length of the expression. -/
def EvaluationError.TooLong : EvaluationError → Prop
  | .bounds ⟨.length _, _, _⟩ => True
  | _ => False

section Length

variable {expression : String} {limits : Value}

theorem FailsBeforeTotal.not_tooLong {logger : Logger} {clock : Clock} {e : EvaluationError}
    (h : FailsBeforeTotal expression limits logger clock e) (admitted : Admitted expression limits) :
    ¬ e.TooLong := by
  cases h with
  | limits => exact id
  | length valid excess =>
    obtain ⟨resolved, hvalid, hadmits⟩ := admitted
    obtain rfl := Except.ok.inj (hvalid.symm.trans valid)
    rw [excess] at hadmits
    cases hadmits
  | scan _ stops => cases scanFails_of_scan stops <;> exact id
  | event => exact id

theorem not_tooLong_ofTotal {tokens : List Token} {x : TotalError}
    (total : Token.total tokens = .error x) :
    ¬ (EvaluationError.ofTotal expression x).TooLong := by
  cases totalFails_of_total total <;> exact id

theorem not_tooLong_announce {logger : Logger} {clock : Clock} {event name : String}
    {value : Binary64} {e : EvaluationError}
    (h : (announce logger clock event name value).result = .error e) : ¬ e.TooLong := by
  simp only [announce, Logged.mapError] at h
  cases hlog : (logger.log clock .debug event [(name, .number value)]).result with
  | ok u =>
    rw [hlog] at h
    cases h
  | error failure =>
    rw [hlog] at h
    cases h
    exact id

theorem Prepared.not_tooLong {p : Prepared} {clock : Clock} {e : EvaluationError}
    (h : (p.evaluate clock).result = .error e) : ¬ e.TooLong := by
  unfold Prepared.evaluate totalOf at h
  split at h
  · rename_i x total
    cases h
    exact not_tooLong_ofTotal total
  · rename_i value _
    cases hannounce : (announce p.setup.logger clock "expression_evaluated" "result" value).result with
    | error x =>
      rw [Logged.result_bind_error hannounce] at h
      cases h
      exact not_tooLong_announce hannounce
    | ok u =>
      rw [Logged.result_bind_ok hannounce] at h
      cases h

/-- What is admitted is never too long, neither for the preparation nor for the total. -/
theorem not_tooLong_of_admitted (admitted : Admitted expression limits) (logger : Option Logger)
    (clock : Clock) {e : EvaluationError} :
    ((prepare expression limits logger clock).result = .error e → ¬ e.TooLong) ∧
      ((evaluate expression limits logger clock).result = .error e → ¬ e.TooLong) := by
  rcases prepare_cases expression limits logger clock with
    ⟨found, hfails, hprepare⟩ | ⟨p, lines, -, -, hprepare⟩
  · have hfound := hfails.not_tooLong admitted
    rw [hprepare, evaluate_of_failsBeforeTotal hfails]
    constructor
    · rintro ⟨⟩
      exact hfound
    · rintro ⟨⟩
      exact hfound
  · rw [evaluate_of_prepare hprepare, hprepare]
    constructor
    · rintro ⟨⟩
    · exact Prepared.not_tooLong

/-- Evaluation depends on the limits by what comes before the total alone. -/
theorem evaluate_congr {larger : Value}
    (h : beforeTotal expression larger = beforeTotal expression limits) (logger : Option Logger)
    (clock : Clock) :
    evaluate expression larger logger clock = evaluate expression limits logger clock := by
  cases hlimits : beforeTotal expression limits with
  | error e => rw [evaluate_of_error hlimits, evaluate_of_error (h.trans hlimits)]
  | ok tokens => rw [evaluate_of_ok hlimits, evaluate_of_ok (h.trans hlimits)]

theorem evaluate_of_admitted {larger : Value} (hlimits : Admitted expression limits)
    (hlarger : Admitted expression larger) (logger : Option Logger) (clock : Clock) :
    evaluate expression larger logger clock = evaluate expression limits logger clock :=
  evaluate_congr ((beforeTotal_of_admitted hlarger).trans (beforeTotal_of_admitted hlimits).symm)
    logger clock

end Length

/-- The test in two steps decides as the count of characters does, however characters are divided off:
evaluation and preparation fail for the length just when there are more than the limit, and
otherwise no greater limit changes the evaluation. -/
theorem length_gate_exact (expression : String) {limits : Value} {resolved : Limits}
    (valid : Limits.ofValue limits = .ok resolved) (logger : Option Logger) (clock : Clock) :
    let limit := resolved.maxLength
    let count : ENat := (characters expression).length
    let evaluated := evaluate expression limits logger clock
    let prepared := prepare expression limits logger clock
    (∀ pieces, Segments expression pieces →
      ((length16 expression : ENat) ≤ limit.bound → (pieces.length : ENat) ≤ limit.bound) ∧
      ((limit.admits (length16 expression) || limit.admits pieces.length) = true ↔
        (pieces.length : ENat) ≤ limit.bound)) ∧
    Segments expression (characters expression) ∧
    ((∃ e, evaluated.result = .error e ∧ e.TooLong) ↔ limit.bound < count) ∧
    ((∃ e, prepared.result = .error e ∧ e.TooLong) ↔ limit.bound < count) ∧
    (limit.bound < count →
      evaluated = .fail (.bounds ⟨.length limit, expression, none⟩) ∧
      prepared = .fail (.bounds ⟨.length limit, expression, none⟩)) ∧
    (count ≤ limit.bound → ∀ larger resolved', Limits.ofValue larger = .ok resolved' →
      limit.bound ≤ resolved'.maxLength.bound →
      evaluate expression larger logger clock = evaluated) := by
  intro limit count evaluated prepared
  have hadmitted (h : ¬ limit.bound < count) : Admitted expression limits :=
    ⟨resolved, valid, (limit.admits_iff _).mpr (not_lt.mp h)⟩
  have hfails (h : limit.bound < count) :
      evaluated = .fail (.bounds ⟨.length limit, expression, none⟩) ∧
      prepared = .fail (.bounds ⟨.length limit, expression, none⟩) := by
    have hbefore : FailsBeforeTotal expression limits (logger.getD .silent) clock
        (.bounds ⟨.length limit, expression, none⟩) :=
      .length valid ((limit.admits_eq_false_iff _).mpr h)
    exact ⟨evaluate_of_failsBeforeTotal hbefore, prepare_of_failsBeforeTotal hbefore⟩
  refine ⟨fun pieces h => ⟨fun hunits => ?_, ?_⟩, segments_characters expression, ⟨?_, ?_⟩, ⟨?_, ?_⟩,
    hfails, fun hcount larger resolved' hvalid hle => ?_⟩
  · exact (limit.admits_iff _).mp (h.admits_of_units ((limit.admits_iff _).mpr hunits))
  · rw [h.admits_or, limit.admits_iff]
  · rintro ⟨e, he, htoo⟩
    by_contra h
    exact (not_tooLong_of_admitted (hadmitted h) logger clock).2 he htoo
  · intro h
    rw [(hfails h).1]
    exact ⟨_, rfl, trivial⟩
  · rintro ⟨e, he, htoo⟩
    by_contra h
    exact (not_tooLong_of_admitted (hadmitted h) logger clock).1 he htoo
  · intro h
    rw [(hfails h).2]
    exact ⟨_, rfl, trivial⟩
  · exact evaluate_of_admitted (hadmitted (not_lt.mpr hcount))
      ⟨resolved', hvalid, (resolved'.maxLength.admits_iff _).mpr (hcount.trans hle)⟩ logger clock

/-- A flag of two regional indicators and a letter with its accent are two characters in six units. -/
theorem length_gate_exact_flag :
    let text := "🇫🇷e\u0301"
    let limits (n : Nat) := Limits.toValue ⟨.atMost n⟩
    Limits.ofValue (limits 2) = .ok ⟨.atMost 2⟩ ∧ length16 text = 6 ∧
      (¬ ∃ e, (evaluate text (limits 2) none none).result = .error e ∧ e.TooLong) ∧
      (∃ e, (prepare text (limits 1) none none).result = .error e ∧ e.TooLong) ∧
      evaluate text (Limits.toValue ⟨.unlimited⟩) none none = evaluate text (limits 2) none none := by
  intro text limits
  have hcount : (characters text).length = 2 := by decide +kernel
  have two : Limits.ofValue (limits 2) = .ok ⟨.atMost 2⟩ :=
    Limits.ofValue_toValue_atMost (by decide)
  have one : Limits.ofValue (limits 1) = .ok ⟨.atMost 1⟩ :=
    Limits.ofValue_toValue_atMost (by decide)
  obtain ⟨-, -, evaluated, -, -, greater⟩ := length_gate_exact text two none none
  obtain ⟨-, -, -, prepared, -, -⟩ := length_gate_exact text one none none
  rw [hcount] at evaluated prepared greater
  refine ⟨two, by decide +kernel, ?_, ?_, ?_⟩
  · rw [evaluated]
    exact lt_irrefl _
  · rw [prepared]
    exact Nat.cast_lt.mpr (by decide : 1 < 2)
  · exact greater le_rfl _ _ Limits.ofValue_toValue_unlimited le_top

end RunningTotal
