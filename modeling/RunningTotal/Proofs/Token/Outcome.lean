import RunningTotal.Proofs.Leftmost
import RunningTotal.Proofs.Token.Coverage

/-! What scanning a text comes to: the tokens that cover it (`scan_covers`), or the error of its
leftmost defect, whatever stands behind that (`scan_fails_iff`). `Scanner.DefectAt` says what is
wrong at one offset: a character that is not plain, or a run of digits that begins there and has
no safe number. A mark joins the plain character before it to one that is not plain
(`exists_joined`). -/
set_option autoImplicit false

namespace RunningTotal

open Binary64

/-! ## Defects -/

inductive Scanner.DefectAt (input : String) (k : Nat) : ScanError → Prop
  | stray {c : Cluster} (found : (characters input)[k]? = some c)
      (notPlain : ∀ d, c = [d] → ¬ IsPlain d) : DefectAt input k (.stray ⟨c, input, k⟩)
  | oversized {digits : List Char} (run : IsRun (characters input) k digits)
      (excess : safeLimit < ofDigits digits) :
      DefectAt input k (.bounds ⟨.literal k, input, some k⟩)

namespace Scanner.DefectAt

variable {input : String} {k : Nat} {e : ScanError}

theorem lt_length (h : DefectAt input k e) : k < (characters input).length := by
  cases h with
  | stray found => exact (List.getElem?_eq_some_iff.mp found).1
  | oversized run =>
    obtain ⟨d, hd, -⟩ := run.head
    exact (List.getElem?_eq_some_iff.mp hd).1

/-- A run begins with a digit, which is plain. -/
theorem unique {e' : ScanError} (h : DefectAt input k e) (h' : DefectAt input k e') : e = e' := by
  have apart {c : Cluster} {digits : List Char} (found : (characters input)[k]? = some c)
      (notPlain : ∀ d, c = [d] → ¬ IsPlain d) (run : IsRun (characters input) k digits) : False := by
    obtain ⟨d, hd, hdigit⟩ := run.head
    exact notPlain d (Option.some.inj (found.symm.trans hd)) (.inl hdigit)
  cases h with
  | stray found notPlain =>
    cases h' with
    | stray found' => rw [Option.some.inj (found.symm.trans found')]
    | oversized run => exact (apart found notPlain run).elim
  | oversized run =>
    cases h' with
    | stray found notPlain => exact (apart found notPlain run).elim
    | oversized => rfl

end Scanner.DefectAt

/-! ## The leftmost defect -/

/-- What is covered is a space, a sign, or in a run whose number is safe. -/
theorem Covers.not_defectAt {input : String} {stop : Nat} {tokens : List Token}
    (h : Covers (characters input) 0 stop tokens) {k : Nat} (hk : k < stop) (e : ScanError) :
    ¬ Scanner.DefectAt input k e := by
  intro hd
  cases hd with
  | stray found notPlain =>
    rcases h.plain_or_run (Nat.zero_le k) hk found with
      ⟨d, hd, hplain, -⟩ | ⟨i, digits, run, -, hle, hlt⟩
    · exact notPlain d hd hplain
    · obtain ⟨d, hd, hdigit⟩ := run.getElem? hle hlt
      exact notPlain d (Option.some.inj (found.symm.trans hd)) (.inl hdigit)
  | @oversized digits run excess =>
    obtain ⟨d, found, hdigit⟩ := run.head
    rcases h.plain_or_run (Nat.zero_le k) hk found with
      ⟨c, hc, -, hother⟩ | ⟨i, others, run', safe, hle, hlt⟩
    · rw [List.singleton_inj.mp hc, hother] at hdigit
      cases hdigit
    · obtain rfl := run'.start_eq run hle hlt
      rw [run.unique run'] at excess
      omega

theorem getLast_of_apart {text digits : List Char} {back : List Cluster}
    (h : Apart text (singles digits ++ back)) (hne : digits ≠ [])
    (hd : ∀ c ∈ digits, c.isDigit = true) : (singles text).getLast?.bind digit? = none := by
  rw [singles, List.getLast?_map]
  cases hlast : text.getLast? with
  | none => rfl
  | some c => exact if_neg fun hdigit => not_noDigit hne hd back (h c hlast hdigit)

/-- The scanner stops at the leftmost defect, whatever stands behind it. -/
theorem scan_outcome (input : String) :
    (∃ tokens, Token.scan input = .ok tokens ∧
      Covers (characters input) 0 (characters input).length tokens) ∨
      ∃ k e, Leftmost (Scanner.DefectAt input) k e ∧ Token.scan input = .error e := by
  obtain ⟨text, tokens, back, hsplit, hreads, hapart, hstop⟩ := exists_reads 0 (characters input)
  have hcovers := hreads.covers [] back rfl (.inl rfl) hapart
  rw [List.nil_append, ← hsplit, Nat.zero_add] at hcovers
  rcases hstop with rfl | hstuck
  · left
    rw [List.append_nil] at hsplit
    have hlength : (characters input).length = text.length := by rw [hsplit, length_singles]
    rw [hlength]
    exact ⟨tokens, scan_of_reads (toList_of_characters hsplit ▸ hreads), hcovers⟩
  · right
    cases hstuck with
    | @stray c back notPlain =>
      have hfound : (characters input)[text.length]? = some c := by simp [hsplit]
      exact ⟨_, _, ⟨.stray hfound notPlain, fun i hi e => hcovers.not_defectAt hi e⟩,
        scan_of_stray hsplit hreads hapart notPlain⟩
    | @oversized digits back isDigit whole excess =>
      have hne : digits ≠ [] := by
        rintro rfl
        exact absurd excess (by decide)
      have hrun := isRun_append hne isDigit (getLast_of_apart hapart hne isDigit) whole
      rw [← hsplit, length_singles] at hrun
      exact ⟨_, _, ⟨.oversized hrun excess, fun i hi e => hcovers.not_defectAt hi e⟩,
        scan_of_oversized hsplit hreads hapart isDigit excess⟩

theorem scan_eq_error_iff (input : String) (e : ScanError) :
    Token.scan input = .error e ↔ ∃ k, Leftmost (Scanner.DefectAt input) k e := by
  rcases scan_outcome input with ⟨tokens, hscan, hcovers⟩ | ⟨k, found, hfirst, hscan⟩
  · rw [hscan]
    constructor
    · intro h
      cases h
    · rintro ⟨k, hfirst⟩
      exact absurd hfirst.defect (hcovers.not_defectAt hfirst.defect.lt_length e)
  · rw [hscan, Except.error.injEq]
    constructor
    · rintro rfl
      exact ⟨k, hfirst⟩
    · rintro ⟨j, hfirst'⟩
      exact hfirst.unique (fun _ _ _ ha hb => ha.unique hb) hfirst'

theorem exists_scan_of_plain {input : String} (hplain : ∀ c ∈ input.toList, IsPlain c)
    (hsafe : ∀ k digits, IsRun (characters input) k digits → ofDigits digits ≤ safeLimit) :
    ∃ tokens, Token.scan input = .ok tokens := by
  rcases scan_outcome input with ⟨tokens, hscan, -⟩ | ⟨k, e, hfirst, -⟩
  · exact ⟨tokens, hscan⟩
  · exfalso
    cases hfirst.defect with
    | @stray c found notPlain =>
      have hsingles : characters input = singles input.toList :=
        clusters_of_printable fun c hc => (hplain c hc).printable
      rw [hsingles] at found
      obtain ⟨d, hd, rfl⟩ := List.mem_map.mp (List.mem_of_getElem? found)
      exact notPlain d rfl (hplain d hd)
    | oversized run excess => exact absurd (hsafe k _ run) (Nat.not_le.mpr excess)

/-! ## Covered texts -/

theorem scan_eq_ok_iff_covers {input : String} {tokens : List Token} :
    Token.scan input = .ok tokens ↔
      Covers (characters input) 0 (characters input).length tokens := by
  rcases scan_outcome input with ⟨found, hscan, hcovers⟩ | ⟨k, e, hfirst, hscan⟩
  · rw [hscan, Except.ok.injEq]
    constructor
    · rintro rfl
      exact hcovers
    · exact hcovers.unique
  · rw [hscan]
    constructor
    · intro h
      cases h
    · intro h
      exact absurd hfirst.defect (h.not_defectAt hfirst.defect.lt_length e)

/-- The tokens of a text are the only ones that take each of its characters but the spaces once. A
number is a whole run of digits with its exact value, two numbers one after the other have a
space between them, and every number is one that a token is made of, so no text is a misuse. -/
theorem scan_covers (input : String) :
    (∀ tokens, Token.scan input = .ok tokens ↔
      Covers (characters input) 0 (characters input).length tokens) ∧
    (∀ tokens, Token.scan input = .ok tokens →
      (∀ x span, .number x span ∈ tokens → Token.number? x span = .ok (.number x span) ∧
        ∃ (k : Nat) (digits : List Char), span = some ⟨k, k + digits.length⟩ ∧
          IsRun (characters input) k digits ∧ x.toInt? = some (ofDigits digits : Int)) ∧
      ∀ m x y p q, tokens[m]? = some (.number x p) → tokens[m + 1]? = some (.number y q) →
        ∀ i j k l, (Token.number x p).Spans i j → (Token.number y q).Spans k l →
          j < k ∧ (characters input)[j]? = some [' ']) ∧
    ∀ e, Token.scan input ≠ .error (.misuse e) := by
  refine ⟨fun tokens => scan_eq_ok_iff_covers, fun tokens h => ?_, scan_ne_misuse input⟩
  have hcovers := scan_eq_ok_iff_covers.mp h
  refine ⟨fun x span hx => ?_, fun m x y p q hx hy i j k l hij hkl =>
    hcovers.separated hx hy hij hkl⟩
  obtain ⟨k, digits, hspan, hrun, hvalue, hnatural⟩ := hcovers.isRun hx
  exact ⟨if_pos hnatural, k, digits, hspan, hrun, hvalue⟩

theorem scan_covers_zeros :
    let tokens : List Token := [.number (ofNat 7) (some ⟨0, 3⟩), .number (ofNat 8) (some ⟨4, 5⟩),
      .plus (some ⟨5, 6⟩)]
    Token.scan "007 8+" = .ok tokens ∧
      Covers (characters "007 8+") 0 (characters "007 8+").length tokens ∧
      (characters "007 8+")[3]? = some [' '] := by
  intro tokens
  have hscan : Token.scan "007 8+" = .ok tokens := by decide +kernel
  obtain ⟨hcovers, hnumbers, -⟩ := scan_covers "007 8+"
  have hseparated := (hnumbers tokens hscan).2 0 _ _ _ _ rfl rfl 0 3 4 5 rfl rfl
  exact ⟨hscan, (hcovers tokens).mp hscan, hseparated.2⟩

/-! ## Characters that are not plain -/

theorem not_plain_of_joined {d m : Char} {c : Cluster} (h : [d, m] <:+: c) :
    ∀ e, c = [e] → ¬ IsPlain e := by
  rintro e rfl
  exact absurd h.length_le (Nat.not_succ_le_self 1)

section

variable {input : String} {front rest : List Char} {d m : Char}
  (hsplit : input.toList = front ++ d :: m :: rest) (hd : IsPlain d)
  (hm : (BreakClass.ofChar m).continues = true)

include hsplit hd hm

theorem exists_joined :
    ∃ k c, [d, m] <:+: c ∧ Scanner.DefectAt input k (.stray ⟨c, input, k⟩) := by
  have hother := BreakClass.ofChar_printable hd.printable.1 hd.printable.2
  obtain ⟨c, hc, hmark⟩ := exists_mem_clusters_mark hother hm rest front
  rw [← hsplit] at hc
  obtain ⟨k, hk⟩ := List.getElem?_of_mem hc
  exact ⟨k, c, hmark, .stray hk (not_plain_of_joined hmark)⟩

theorem scan_joined {tokens : List Token} (h : Token.scan (String.ofList front) = .ok tokens) :
    ∃ more, Token.scan input = .error (.stray ⟨d :: m :: more, input, front.length⟩) := by
  have hreads := scan_eq_ok_iff.mp h
  rw [String.toList_ofList] at hreads
  have hother := BreakClass.ofChar_printable hd.printable.1 hd.printable.2
  obtain ⟨more, back, heq⟩ := exists_clusters_mark hother hm rest
  have hchars : characters input = singles front ++ (d :: m :: more) :: back := by
    rw [characters, hsplit, clusters_append_of_printable (fun c hc => (hreads.isPlain c hc).printable)
      hd.printable, heq]
  have hmark : [d, m] <:+: d :: m :: more := ⟨[], more, rfl⟩
  exact ⟨more, scan_of_stray hchars hreads (fun _ _ _ => rfl) (not_plain_of_joined hmark)⟩

end

/-- A text cannot be scanned just when it has a defect, and its error is that of the leftmost one. So
plain characters are scanned if all their runs are safe; and where a mark follows a plain
character, the two are one character that is rejected. -/
theorem scan_fails_iff (input : String) :
    (∀ e, Token.scan input = .error e ↔ ∃ k, Leftmost (Scanner.DefectAt input) k e) ∧
    ((∃ e, Token.scan input = .error e) ↔ ∃ k e, Scanner.DefectAt input k e) ∧
    ((∀ c ∈ input.toList, IsPlain c) →
      (∀ k digits, IsRun (characters input) k digits → ofDigits digits ≤ safeLimit) →
      ∃ tokens, Token.scan input = .ok tokens) ∧
    ∀ front d m rest, input.toList = front ++ d :: m :: rest → IsPlain d →
      (BreakClass.ofChar m).continues = true →
      (∃ k c, [d, m] <:+: c ∧ Scanner.DefectAt input k (.stray ⟨c, input, k⟩)) ∧
      ∀ tokens, Token.scan (String.ofList front) = .ok tokens →
        ∃ more, Token.scan input = .error (.stray ⟨d :: m :: more, input, front.length⟩) := by
  refine ⟨scan_eq_error_iff input, ⟨?_, ?_⟩, exists_scan_of_plain, ?_⟩
  · rintro ⟨e, he⟩
    obtain ⟨k, hfirst⟩ := (scan_eq_error_iff input e).mp he
    exact ⟨k, e, hfirst.defect⟩
  · rintro ⟨k, e, hd⟩
    obtain ⟨j, found, hfirst⟩ := exists_leftmost hd
    exact ⟨found, (scan_eq_error_iff input found).mpr ⟨j, hfirst⟩⟩
  · intro front d m rest hsplit hd hm
    exact ⟨exists_joined hsplit hd hm, fun tokens hscan => scan_joined hsplit hd hm hscan⟩

/-- A run that goes too far is reported before the digit behind it that a mark has joined. -/
theorem scan_fails_at_run :
    let input := "1 99999999999999999\u0301"
    let e : ScanError := .bounds ⟨.literal 2, input, some 2⟩
    Token.scan input = .error e ∧ (∃ k, Leftmost (Scanner.DefectAt input) k e) ∧
      Scanner.DefectAt input 18 (.stray ⟨['9', '\u0301'], input, 18⟩) := by
  intro input e
  have hscan : Token.scan input = .error e := by decide +kernel
  have hfound : (characters input)[18]? = some ['9', '\u0301'] := by decide +kernel
  refine ⟨hscan, ((scan_fails_iff input).1 e).mp hscan, .stray hfound ?_⟩
  intro d hd
  cases hd

end RunningTotal
