import RunningTotal.Proofs.Evaluation.Length
import RunningTotal.Proofs.Evaluation.Stages

/-! Limits as they are given. `LimitsGiven` says which values stand for which limits and `FirstOffence`
what is wrong first with any other, in the words of its error; limits are checked just so
(`Limits.ofValue_eq_ok_iff`, `Limits.ofValue_eq_error_iff`). A limit as a number is the number that was
given, however great, but for the sign of zero, so limits that came out of a check pass it unchanged
(`LimitsGiven.toValue`). -/
set_option autoImplicit false

namespace RunningTotal

open Binary64 Log Record

/-! ## What may be given -/

/-- The limit that is meant by what stands under the name of the length. -/
inductive LengthGiven : Option Value → Limit → Prop
  | absent : LengthGiven none (.atMost 10000)
  | undefined : LengthGiven (some .undefined) (.atMost 10000)
  | natural {x : Binary64} {n : Nat} (value : x.toInt? = some (n : Int)) :
      LengthGiven (some (.number x)) (.atMost n)
  | infinity : LengthGiven (some (.number (.infinite false))) .unlimited

/-- What is wrong with a value that is no length. -/
inductive LengthRefused : Value → String → Prop
  | fraction {x : Binary64} (number : x ≠ .nan) (bounded : x ≠ .infinite false)
      (fraction : x.toInt? = none) : LengthRefused (.number x) "Expected integer, received float"
  | negative {x : Binary64} {n : Int} (value : x.toInt? = some n) (below : n < 0) :
      LengthRefused (.number x) "Number must be greater than or equal to 0"
  | nan : LengthRefused (.number .nan) "Invalid input"
  | other {value : Value} (given : value ≠ .undefined) (other : ∀ x, value ≠ .number x) :
      LengthRefused value "Invalid input"

def unknownNames (properties : Record Value) : List String :=
  (names properties).filter (· ≠ "maxExpressionLength")

/-- Limits are given by nothing at all, or by an object with no name but that of the length. -/
inductive LimitsGiven : Value → Limits → Prop
  | undefined : LimitsGiven .undefined ⟨.atMost 10000⟩
  | null : LimitsGiven .null ⟨.atMost 10000⟩
  | object {given : Value} {properties : Record Value} {limit : Limit}
      (object : given.properties? = some properties)
      (known : ∀ name ∈ names properties, name = "maxExpressionLength")
      (length : LengthGiven (get? properties "maxExpressionLength") limit) :
      LimitsGiven given ⟨limit⟩

/-- What is wrong first, and with what: a value that is no object, or else the length, or else the
names that mean nothing, in their order. -/
inductive FirstOffence : Value → String → String → Prop
  | notObject {given : Value} (defined : given ≠ .undefined) (notNull : given ≠ .null)
      (notObject : given.properties? = none) :
      FirstOffence given "limits" ("Expected object, received " ++ given.kind)
  | length {given value : Value} {properties : Record Value} {problem : String}
      (object : given.properties? = some properties)
      (length : get? properties "maxExpressionLength" = some value)
      (refused : LengthRefused value problem) :
      FirstOffence given "maxExpressionLength" problem
  | unknown {given : Value} {properties : Record Value} {limit : Limit}
      (object : given.properties? = some properties)
      (length : LengthGiven (get? properties "maxExpressionLength") limit)
      (unknown : unknownNames properties ≠ []) :
      FirstOffence given "limits" ("Unrecognized key(s) in object: " ++
        ", ".intercalate ((unknownNames properties).map fun name => "'" ++ name ++ "'"))

/-! ## The length -/

theorem lengthGiven_iff {given : Option Value} {limit : Limit} :
    LengthGiven given limit ↔
      ∃ found, Limit.ofValue? given = .ok found ∧ found.getD (.atMost 10000) = limit := by
  constructor
  · intro h
    cases h with
    | absent => exact ⟨none, rfl, rfl⟩
    | undefined => exact ⟨none, rfl, rfl⟩
    | @natural x n value =>
      have hnumber := Limit.ofNumber_eq_ok_iff.mpr (.inr ⟨n, value, rfl⟩)
      exact ⟨some (.atMost n), by rw [Limit.ofValue?, hnumber]; rfl, rfl⟩
    | infinity => exact ⟨some .unlimited, rfl, rfl⟩
  · rintro ⟨found, hfound, rfl⟩
    unfold Limit.ofValue? at hfound
    split at hfound
    · cases hfound
      exact .absent
    · cases hfound
      exact .undefined
    · rename_i x
      cases hnumber : Limit.ofNumber x with
      | error e =>
        rw [hnumber] at hfound
        cases hfound
      | ok limit =>
        rw [hnumber] at hfound
        cases hfound
        rcases Limit.ofNumber_eq_ok_iff.mp hnumber with ⟨rfl, rfl⟩ | ⟨n, value, rfl⟩
        · exact .infinity
        · exact .natural value
    · cases hfound

theorem lengthRefused_of_ofNumber {x : Binary64} {e : LimitError} (h : Limit.ofNumber x = .error e) :
    LengthRefused (.number x) e.problem ∧ e.subject = Limits.maxLengthName := by
  cases x with
  | nan =>
    cases h
    exact ⟨.nan, rfl⟩
  | infinite negative =>
    cases negative with
    | false => cases h
    | true =>
      cases h
      exact ⟨.fraction (by simp) (by simp) rfl, rfl⟩
  | finite x =>
    simp only [Limit.ofNumber] at h
    split at h
    · rename_i hfraction
      cases h
      exact ⟨.fraction (by simp) (by simp) hfraction, rfl⟩
    · rename_i n hvalue
      split at h
      · rename_i hbelow
        cases h
        exact ⟨.negative hvalue hbelow, rfl⟩
      · cases h

theorem exists_refused_of_ofValue? {given : Option Value} {e : LimitError}
    (h : Limit.ofValue? given = .error e) :
    e.subject = Limits.maxLengthName ∧ ∃ value, given = some value ∧ LengthRefused value e.problem := by
  unfold Limit.ofValue? at h
  split at h
  · cases h
  · cases h
  · rename_i x
    cases hnumber : Limit.ofNumber x with
    | ok limit =>
      rw [hnumber] at h
      cases h
    | error found =>
      rw [hnumber] at h
      cases h
      obtain ⟨hrefused, hsubject⟩ := lengthRefused_of_ofNumber hnumber
      exact ⟨hsubject, _, rfl, hrefused⟩
  · rename_i value hundefined hnumber
    cases h
    exact ⟨rfl, value, rfl, .other hundefined hnumber⟩

theorem LengthRefused.exists_ofValue? {value : Value} {problem : String}
    (h : LengthRefused value problem) :
    ∃ e, Limit.ofValue? (some value) = .error e ∧ e.problem = problem := by
  cases h with
  | @fraction x number bounded fraction =>
    cases x with
    | nan => exact absurd rfl number
    | infinite negative =>
      cases negative with
      | false => exact absurd rfl bounded
      | true => exact ⟨.notInteger, rfl, rfl⟩
    | finite x => exact ⟨.notInteger, by simp only [Limit.ofValue?, Limit.ofNumber, fraction]; rfl, rfl⟩
  | negative value below =>
    obtain ⟨x, rfl, -⟩ := exists_finite_of_toInt? value
    refine ⟨.negative, ?_, rfl⟩
    simp only [Limit.ofValue?, Limit.ofNumber, value, if_pos below]
    rfl
  | nan => exact ⟨.notNumber, rfl, rfl⟩
  | other given other =>
    refine ⟨.notNumber, ?_, rfl⟩
    cases value with
    | undefined => exact absurd rfl given
    | number x => exact absurd rfl (other x)
    | _ => rfl

/-! ## The limits -/

namespace Limits

theorem ofRecord_of_ok {properties : Record Value} {found : Option Limit}
    (h : Limit.ofValue? (get? properties maxLengthName) = .ok found) :
    ofRecord properties =
      if unknownNames properties = [] then .ok ⟨found.getD (.atMost 10000)⟩
      else .error (.unknownNames (unknownNames properties)) := by
  rw [ofRecord, h]
  rfl

theorem ofRecord_of_error {properties : Record Value} {e : LimitError}
    (h : Limit.ofValue? (get? properties maxLengthName) = .error e) :
    ofRecord properties = .error e := by
  rw [ofRecord, h]
  rfl

theorem ofValue_of_properties? {given : Value} {properties : Record Value}
    (h : given.properties? = some properties) : ofValue given = ofRecord properties := by
  cases given <;> cases h <;> rfl

theorem ofValue_of_notObject {given : Value} (defined : given ≠ .undefined) (notNull : given ≠ .null)
    (h : given.properties? = none) : ofValue given = .error (.notObject given.kind) := by
  cases given with
  | undefined => exact absurd rfl defined
  | null => exact absurd rfl notNull
  | object => cases h
  | error => cases h
  | _ => rfl

theorem unknownNames_eq_nil_iff {properties : Record Value} :
    unknownNames properties = [] ↔ ∀ name ∈ names properties, name = "maxExpressionLength" := by
  simp [unknownNames, List.filter_eq_nil_iff]

end Limits

theorem LimitsGiven.ofValue_eq {given : Value} {limits : Limits} (h : LimitsGiven given limits) :
    Limits.ofValue given = .ok limits := by
  cases h with
  | undefined => rfl
  | null => rfl
  | object object known length =>
    obtain ⟨found, hfound, rfl⟩ := lengthGiven_iff.mp length
    rw [Limits.ofValue_of_properties? object, Limits.ofRecord_of_ok hfound,
      if_pos (Limits.unknownNames_eq_nil_iff.mpr known)]

theorem FirstOffence.exists_ofValue_eq {given : Value} {subject problem : String}
    (h : FirstOffence given subject problem) :
    ∃ e, Limits.ofValue given = .error e ∧ e.subject = subject ∧ e.problem = problem := by
  cases h with
  | notObject defined notNull notObject =>
    exact ⟨_, Limits.ofValue_of_notObject defined notNull notObject, rfl, rfl⟩
  | length object length refused =>
    obtain ⟨e, he, hproblem⟩ := refused.exists_ofValue?
    rw [← length] at he
    refine ⟨e, ?_, (exists_refused_of_ofValue? he).1, hproblem⟩
    rw [Limits.ofValue_of_properties? object, Limits.ofRecord_of_error he]
  | unknown object length unknown =>
    obtain ⟨found, hfound, -⟩ := lengthGiven_iff.mp length
    refine ⟨.unknownNames _, ?_, rfl, rfl⟩
    rw [Limits.ofValue_of_properties? object, Limits.ofRecord_of_ok hfound, if_neg unknown]

/-- There is no third: limits are given, or something is wrong first. -/
theorem limitsGiven_or_firstOffence (given : Value) :
    (∃ limits, LimitsGiven given limits) ∨ ∃ subject problem, FirstOffence given subject problem := by
  cases hobject : given.properties? with
  | none =>
    by_cases defined : given = .undefined
    · rw [defined]
      exact .inl ⟨_, .undefined⟩
    · by_cases notNull : given = .null
      · rw [notNull]
        exact .inl ⟨_, .null⟩
      · exact .inr ⟨_, _, .notObject defined notNull hobject⟩
  | some properties =>
    cases hlength : Limit.ofValue? (get? properties Limits.maxLengthName) with
    | error e =>
      obtain ⟨-, value, hvalue, refused⟩ := exists_refused_of_ofValue? hlength
      exact .inr ⟨_, _, .length hobject hvalue refused⟩
    | ok found =>
      have length := lengthGiven_iff.mpr ⟨found, hlength, rfl⟩
      by_cases unknown : unknownNames properties = []
      · exact .inl ⟨_, .object hobject (Limits.unknownNames_eq_nil_iff.mp unknown) length⟩
      · exact .inr ⟨_, _, .unknown hobject length unknown⟩

theorem Limits.ofValue_eq_ok_iff {given : Value} {limits : Limits} :
    Limits.ofValue given = .ok limits ↔ LimitsGiven given limits := by
  refine ⟨fun h => ?_, LimitsGiven.ofValue_eq⟩
  rcases limitsGiven_or_firstOffence given with ⟨found, hgiven⟩ | ⟨_, _, hoffence⟩
  · obtain rfl := Except.ok.inj (hgiven.ofValue_eq.symm.trans h)
    exact hgiven
  · obtain ⟨e, he, -⟩ := hoffence.exists_ofValue_eq
    cases he.symm.trans h

theorem Limits.ofValue_eq_error_iff {given : Value} {subject problem : String} :
    (∃ e, Limits.ofValue given = .error e ∧ e.subject = subject ∧ e.problem = problem) ↔
      FirstOffence given subject problem := by
  refine ⟨?_, FirstOffence.exists_ofValue_eq⟩
  rintro ⟨e, he, rfl, rfl⟩
  rcases limitsGiven_or_firstOffence given with ⟨found, hgiven⟩ | ⟨_, _, hoffence⟩
  · cases hgiven.ofValue_eq.symm.trans he
  · obtain ⟨found, hfound, rfl, rfl⟩ := hoffence.exists_ofValue_eq
    obtain rfl := Except.error.inj (hfound.symm.trans he)
    exact hoffence

/-! ## Limits checked again -/

/-- The limit as a number is the one that was given, but for the sign of zero. -/
theorem LengthGiven.toNumber_eq {x : Binary64} {limit : Limit}
    (h : LengthGiven (some (.number x)) limit) :
    limit.toNumber = if x = zero true then zero false else x := by
  cases h with
  | infinity => rfl
  | natural value =>
    split
    · rename_i hzero
      rw [hzero] at value
      have hn := Option.some.inj (value.symm.trans (by decide +kernel : (zero true).toInt? = some 0))
      rw [Int.natCast_eq_zero.mp hn]
      rfl
    · rename_i hzero
      rw [Limit.toNumber, ← ofInt_natCast, ofInt_of_toInt? value hzero]

theorem LengthGiven.ofNumber_toNumber {given : Option Value} {limit : Limit}
    (h : LengthGiven given limit) : Limit.ofNumber limit.toNumber = .ok limit := by
  have hdefault : Limit.ofNumber (Limit.atMost 10000).toNumber = .ok (.atMost 10000) :=
    Limit.ofNumber_eq_ok_iff.mpr
      (.inr ⟨10000, (safeInt?_eq_some_iff.mp (safeInt?_ofNat (by decide))).1, rfl⟩)
  cases h with
  | absent => exact hdefault
  | undefined => exact hdefault
  | infinity => rfl
  | @natural x n value =>
    refine Limit.ofNumber_eq_ok_iff.mpr (.inr ⟨n, ?_, rfl⟩)
    rw [(LengthGiven.natural value).toNumber_eq]
    split
    · rename_i hzero
      rw [hzero] at value
      rw [← value]
      decide +kernel
    · exact value

theorem LimitsGiven.exists_lengthGiven {given : Value} {limits : Limits}
    (h : LimitsGiven given limits) : ∃ length, LengthGiven length limits.maxLength := by
  cases h with
  | undefined => exact ⟨none, .absent⟩
  | null => exact ⟨none, .absent⟩
  | object _ _ length => exact ⟨_, length⟩

theorem LimitsGiven.lengthGiven {given : Value} {limits : Limits} (h : LimitsGiven given limits)
    {properties : Record Value} (object : given.properties? = some properties) :
    LengthGiven (get? properties "maxExpressionLength") limits.maxLength := by
  cases h with
  | undefined => cases object
  | null => cases object
  | object found _ length =>
    obtain rfl := Option.some.inj (found.symm.trans object)
    exact length

theorem LimitsGiven.toValue {given : Value} {limits : Limits} (h : LimitsGiven given limits) :
    LimitsGiven limits.toValue limits := by
  obtain ⟨length, hlength⟩ := h.exists_lengthGiven
  exact Limits.ofValue_eq_ok_iff.mp (Limits.ofValue_number hlength.ofNumber_toNumber)

/-- No limit is a number that is not one, and none is negative. -/
theorem LengthGiven.toNumber_nonneg {given : Option Value} {limit : Limit}
    (h : LengthGiven given limit) :
    limit.toNumber ≠ .nan ∧ limit.toNumber.lt (zero false) = false := by
  have hread := Limit.ofNumber_eq_ok_iff.mp h.ofNumber_toNumber
  rcases hread with ⟨hinfinite, -⟩ | ⟨n, hvalue, -⟩
  · rw [hinfinite]
    exact ⟨by simp, rfl⟩
  · obtain ⟨y, hy, hrat⟩ := exists_finite_of_toInt? hvalue
    have hzero : Finite.toRat ⟨false, 0, -1074, by decide⟩ = 0 := by decide +kernel
    rw [hy]
    refine ⟨by simp, ?_⟩
    simp [zero, lt, hzero, hrat]

/-! ## The resolved limits -/

theorem setUp_eq_ok_iff {expression : String} {limits : Value} {logger : Option Logger}
    {setup : Setup} :
    setUp expression limits logger = .ok setup ↔
      LimitsGiven limits setup.limits ∧ setup.logger = logger.getD .silent := by
  rw [← Limits.ofValue_eq_ok_iff, setUp, resolveLimits]
  obtain ⟨resolved, chosen⟩ := setup
  cases Limits.ofValue limits with
  | error e =>
    constructor
    · intro h
      cases h
    · rintro ⟨h, -⟩
      cases h
  | ok found =>
    constructor
    · intro h
      cases h
      exact ⟨rfl, rfl⟩
    · rintro ⟨h, rfl⟩
      cases h
      rfl

theorem setUp_eq_error_iff {expression : String} {limits : Value} {logger : Option Logger}
    {e : EvaluationError} :
    setUp expression limits logger = .error e ↔
      ∃ x, Limits.ofValue limits = .error x ∧ e = .bounds ⟨.limits x, expression, none⟩ := by
  rw [setUp, resolveLimits]
  cases Limits.ofValue limits with
  | error x =>
    constructor
    · intro h
      cases h
      exact ⟨x, rfl, rfl⟩
    · rintro ⟨y, h, rfl⟩
      cases h
      rfl
  | ok found =>
    constructor
    · intro h
      cases h
    · rintro ⟨y, h, -⟩
      cases h

/-- An evaluation is set up just when limits are given, and else fails at their first offence. The limit
is the number given, if one is, and limits that were found are found again when they are given. -/
theorem limits_resolved (expression : String) (limits : Value) (logger : Option Logger) :
    let outcome := setUp expression limits logger
    (∀ setup, outcome = .ok setup ↔
      LimitsGiven limits setup.limits ∧ setup.logger = logger.getD .silent) ∧
    (∀ report, (∃ e, outcome = .error e ∧ e.report = report) ↔
      ∃ subject problem, FirstOffence limits subject problem ∧
        report = ⟨"ExpressionRangeError", "Invalid limit '" ++ subject ++ "': " ++ problem,
          some expression, none, none⟩) ∧
    ∀ setup, outcome = .ok setup →
      (∀ properties x, limits.properties? = some properties →
        get? properties "maxExpressionLength" = some (.number x) →
        setup.limits.maxLength.toNumber = if x = zero true then zero false else x) ∧
      setup.limits.maxLength.toNumber ≠ .nan ∧
      setup.limits.maxLength.toNumber.lt (zero false) = false ∧
      setUp expression setup.limits.toValue logger = .ok setup := by
  intro outcome
  refine ⟨fun setup => setUp_eq_ok_iff, fun report => ?_, fun setup hsetup => ?_⟩
  · constructor
    · rintro ⟨e, he, rfl⟩
      obtain ⟨x, hx, rfl⟩ := setUp_eq_error_iff.mp he
      exact ⟨x.subject, x.problem, Limits.ofValue_eq_error_iff.mp ⟨x, hx, rfl, rfl⟩, rfl⟩
    · rintro ⟨subject, problem, hoffence, rfl⟩
      obtain ⟨x, hx, rfl, rfl⟩ := hoffence.exists_ofValue_eq
      exact ⟨_, setUp_eq_error_iff.mpr ⟨x, hx, rfl⟩, rfl⟩
  · obtain ⟨hgiven, hlogger⟩ := setUp_eq_ok_iff.mp hsetup
    obtain ⟨length, hlength⟩ := hgiven.exists_lengthGiven
    refine ⟨?_, hlength.toNumber_nonneg.1, hlength.toNumber_nonneg.2, ?_⟩
    · intro properties x hproperties hx
      have hlength := hgiven.lengthGiven hproperties
      rw [hx] at hlength
      exact hlength.toNumber_eq
    · exact setUp_eq_ok_iff.mpr ⟨hgiven.toValue, hlogger⟩

end RunningTotal
