import RunningTotal.Proofs.Steps
import RunningTotal.Proofs.Token.Reading

/-! A scanner that goes on from where it was left. Whatever it was asked before, it stands at a `place`
in the characters of its input, and `Answers` says what it answers there and where it goes on.
Reading tokens takes every character up to the end, a stray one or the digit that goes too far
(`TokensEnd`), each round at least one (`lexeme_place`); `run_reads` puts this together for any
operations in any order. -/
set_option autoImplicit false

namespace RunningTotal

open Binary64

/-! ## Runs whose number is not safe -/

/-- The first `k` digits are the longest front whose number is safe, some of them but not all. -/
structure SafeFront (digits : List Char) (k : Nat) : Prop where
  pos : 0 < k
  lt_length : k < digits.length
  longest : ∀ j ≤ digits.length, ofDigits (digits.take j) ≤ safeLimit ↔ j ≤ k

theorem ofDigits_take_le (digits : List Char) {i j : Nat} (hij : i ≤ j) :
    ofDigits (digits.take i) ≤ ofDigits (digits.take j) := by
  have hsplit := List.take_append_drop i (digits.take j)
  rw [List.take_take, Nat.min_eq_left hij] at hsplit
  rw [← hsplit, ofDigits_eq_withDigits, ofDigits_eq_withDigits, withDigits_append]
  exact le_withDigits _ _

theorem exists_safeFront {digits : List Char} (hd : ∀ c ∈ digits, c.isDigit = true)
    (excess : safeLimit < ofDigits digits) : ∃ k, SafeFront digits k := by
  obtain ⟨front, c, back, rfl, hle, hlt⟩ := exists_first_unsafe (n := 0) (by omega) excess
  have hfront : (front ++ c :: back).take front.length = front := List.take_left' rfl
  have hnext : (front ++ c :: back).take (front.length + 1) = front ++ [c] := by
    rw [List.append_cons, List.take_left' (by simp)]
  refine ⟨front.length, ?_, by simp, fun j hj => ⟨fun h => ?_, fun h => ?_⟩⟩
  · -- a single digit is safe
    rcases List.eq_nil_or_concat front with rfl | ⟨front, d, rfl⟩
    · have hc := toNat_of_isDigit (hd c (by simp))
      have hlimit : 10 < safeLimit := by decide
      rw [List.nil_append, withDigits_cons, withDigits_nil] at hlt
      omega
    · simp
  · by_contra hj
    have hmono := ofDigits_take_le (front ++ c :: back) (show front.length + 1 ≤ j by omega)
    rw [hnext, ofDigits_eq_withDigits] at hmono
    omega
  · have hmono := ofDigits_take_le (front ++ c :: back) h
    rw [hfront, ofDigits_eq_withDigits front] at hmono
    omega

theorem SafeFront.split {digits : List Char} {k : Nat} (h : SafeFront digits k) :
    ∃ front c rear, digits = front ++ c :: rear ∧ front.length = k ∧
      ofDigits front ≤ safeLimit ∧ safeLimit < ofDigits (front ++ [c]) := by
  have hk := h.lt_length
  refine ⟨digits.take k, digits[k], digits.drop (k + 1), ?_, ?_,
    (h.longest k (by omega)).mpr (Nat.le_refl k), ?_⟩
  · rw [← List.drop_eq_getElem_cons hk, List.take_append_drop]
  · rw [List.length_take]
    omega
  · have hnext := mt (h.longest (k + 1) hk).mp (Nat.not_succ_le_self k)
    rw [List.take_concat_get' digits k hk]
    omega

namespace Scanner

/-! ## Places -/

/-- The scanner of an input with its first `p` characters behind it. -/
def place (input : String) (p : Nat) : Scanner := ⟨input, p, (characters input).drop p⟩

variable {input : String} {p q : Nat}

theorem place_of_append {front back : List Cluster}
    (h : (characters input).drop p = front ++ back) :
    place input (p + front.length) = ⟨input, p + front.length, back⟩ := by
  rw [place, ← List.drop_drop, h, List.drop_left]

theorem head?_place (input : String) (p : Nat) :
    (place input p).head? = (characters input)[p]? := List.head?_drop

theorem skip_place (h : p < (characters input).length) :
    (place input p).skip = (.ok (), place input (p + 1)) := by
  simp only [place, skip, List.drop_eq_getElem_cons h]

theorem single_place (h : p < (characters input).length) (found : Span → Option Token) :
    (place input p).single found = (.ok (found ⟨p, (p + 1 : Nat)⟩), place input (p + 1)) := by
  rw [single, skip_place h]
  rfl

theorem skip_place_length (input : String) :
    (place input (characters input).length).skip =
      (.error .pastEnd, place input (characters input).length) := by
  simp only [place, skip, List.drop_length]

theorem length_rest_place (input : String) (p : Nat) :
    (place input p).rest.length = (characters input).length - p := List.length_drop

theorem length_le_of_ahead {text : List Char} {back : List Cluster}
    (ahead : (characters input).drop p = singles text ++ back) :
    text.length ≤ (characters input).length - p := by
  have hlength := congrArg List.length ahead
  rw [List.length_drop, List.length_append, length_singles] at hlength
  omega

/-! ## A literal -/

/-- What reading a literal from `p` on comes to, and the place where it stops: behind the whole run of
digits there, which may be empty, or at the digit that goes too far. -/
inductive NumberEnds (input : String) (p : Nat) : Except ScanError Binary64 → Nat → Prop
  | whole {digits : List Char} {back : List Cluster}
      (ahead : (characters input).drop p = singles digits ++ back)
      (isDigit : ∀ c ∈ digits, c.isDigit = true) (stop : NoDigit back)
      (safe : ofDigits digits ≤ safeLimit) :
      NumberEnds input p (.ok (ofNat (ofDigits digits))) (p + digits.length)
  | oversized {digits : List Char} {back : List Cluster} {k : Nat}
      (ahead : (characters input).drop p = singles digits ++ back)
      (isDigit : ∀ c ∈ digits, c.isDigit = true) (stop : NoDigit back)
      (front : SafeFront digits k) :
      NumberEnds input p (.error (.bounds ⟨.literal p, input, some p⟩)) (p + k)

theorem exists_numberEnds (input : String) (p : Nat) :
    ∃ result q, NumberEnds input p result q := by
  obtain ⟨digits, back, ahead, hd, stop⟩ := exists_run ((characters input).drop p)
  by_cases hsafe : ofDigits digits ≤ safeLimit
  · exact ⟨_, _, .whole ahead hd stop hsafe⟩
  · obtain ⟨k, front⟩ := exists_safeFront hd (Nat.not_le.mp hsafe)
    exact ⟨_, _, .oversized ahead hd stop front⟩

theorem NumberEnds.number_eq {result : Except ScanError Binary64}
    (h : NumberEnds input p result q) : (place input p).number = (result, place input q) := by
  cases h with
  | @whole digits back ahead isDigit stop safe =>
    have hplace := place_of_append ahead
    rw [length_singles] at hplace
    rw [number, place, ahead, hplace, ← ofNat_zero]
    exact numberFrom_of_le p input p 0 digits back isDigit safe stop
  | @oversized digits back k ahead isDigit stop longest =>
    obtain ⟨front, c, rear, rfl, rfl, hle, hlt⟩ := longest.split
    rw [singles_append, singles_cons, List.append_assoc, List.cons_append] at ahead
    have hplace := place_of_append ahead
    rw [length_singles] at hplace
    rw [number, place, ahead, hplace, ← ofNat_zero]
    exact numberFrom_of_lt p input p 0 front _ (fun d hd => isDigit d (by simp [hd]))
      (isDigit c (by simp)) hle hlt

theorem NumberEnds.le {result : Except ScanError Binary64} (h : NumberEnds input p result q)
    (hp : p ≤ (characters input).length) : p ≤ q ∧ q ≤ (characters input).length := by
  cases h with
  | whole ahead =>
    have hrun := length_le_of_ahead ahead
    omega
  | oversized ahead _ _ front =>
    have hinside := front.lt_length
    have hrun := length_le_of_ahead ahead
    omega

/-! ## All tokens -/

/-- What reading the tokens from `p` on comes to, and the place where it stops: the end, a character
that is not plain, or the digit of a run that goes too far. -/
inductive TokensEnd (input : String) (p : Nat) : Except ScanError (List Token) → Nat → Prop
  | done {text : List Char} {tokens : List Token}
      (ahead : (characters input).drop p = singles text) (reads : Reads p text tokens) :
      TokensEnd input p (.ok tokens) (characters input).length
  | stray {text : List Char} {tokens : List Token} {c : Cluster} {back : List Cluster}
      (ahead : (characters input).drop p = singles text ++ c :: back)
      (reads : Reads p text tokens) (notPlain : ∀ d, c = [d] → ¬ IsPlain d) :
      TokensEnd input p (.error (.stray ⟨c, input, (p + text.length : Nat)⟩)) (p + text.length)
  | oversized {text digits : List Char} {tokens : List Token} {back : List Cluster} {k : Nat}
      (ahead : (characters input).drop p = singles text ++ (singles digits ++ back))
      (reads : Reads p text tokens) (apart : Apart text (singles digits ++ back))
      (isDigit : ∀ c ∈ digits, c.isDigit = true) (stop : NoDigit back)
      (longest : SafeFront digits k) :
      TokensEnd input p
        (.error (.bounds ⟨.literal (p + text.length : Nat), input, some (p + text.length : Nat)⟩))
        (p + text.length + k)

theorem exists_tokensEnd (input : String) (p : Nat) : ∃ result q, TokensEnd input p result q := by
  obtain ⟨text, tokens, back, ahead, reads, apart, hstop⟩ :=
    exists_reads p ((characters input).drop p)
  rcases hstop with rfl | hstuck
  · rw [List.append_nil] at ahead
    exact ⟨_, _, .done ahead reads⟩
  · cases hstuck with
    | stray back notPlain => exact ⟨_, _, .stray ahead reads notPlain⟩
    | oversized isDigit stop excess =>
      obtain ⟨k, longest⟩ := exists_safeFront isDigit excess
      exact ⟨_, _, .oversized ahead reads apart isDigit stop longest⟩

theorem TokensEnd.tokens_eq {result : Except ScanError (List Token)}
    (h : TokensEnd input p result q) (hp : p ≤ (characters input).length) :
    (place input p).tokens = (result, place input q) := by
  cases h with
  | @done text tokens ahead reads =>
    have hlength := congrArg List.length ahead
    rw [List.length_drop, length_singles] at hlength
    rw [← List.append_nil (singles text)] at ahead
    have hend : p + text.length = (characters input).length := by omega
    rw [place, tokens_append ahead reads (apart_nil text), tokensFrom_nil, List.reverse_reverse, hend,
      place, List.drop_length]
  | @stray text tokens c back ahead reads notPlain =>
    have apart : Apart text (c :: back) := fun _ _ _ => digit?_of_not_plain notPlain
    have hplace := place_of_append ahead
    rw [length_singles] at hplace
    rw [place, tokens_append ahead reads apart, tokensFrom_stray _ _ _ back notPlain, hplace]
  | @oversized text digits tokens back k ahead reads apart isDigit stop longest =>
    obtain ⟨front, c, rear, rfl, rfl, hle, hlt⟩ := longest.split
    have htokens : (place input p).tokens = _ := tokens_append ahead reads apart
    rw [singles_append, singles_cons, List.append_assoc, List.cons_append] at ahead htokens
    rw [← List.append_assoc] at ahead
    have hplace := place_of_append ahead
    rw [List.length_append, length_singles, length_singles, ← Nat.add_assoc] at hplace
    rw [htokens, hplace]
    exact tokensFrom_oversized _ input _ front _ (fun d hd => isDigit d (by simp [hd]))
      (isDigit c (by simp)) hle hlt

theorem TokensEnd.le {result : Except ScanError (List Token)} (h : TokensEnd input p result q)
    (hp : p ≤ (characters input).length) : p ≤ q ∧ q ≤ (characters input).length := by
  cases h with
  | done => exact ⟨hp, Nat.le_refl _⟩
  | stray ahead =>
    have htext := length_le_of_ahead ahead
    omega
  | oversized ahead _ _ _ _ longest =>
    have hinside := longest.lt_length
    rw [← List.append_assoc, ← singles_append] at ahead
    have hrun := length_le_of_ahead ahead
    rw [List.length_append] at hrun
    omega

theorem tokensEnd_length (input : String) :
    TokensEnd input (characters input).length (.ok []) (characters input).length := by
  have ahead : (characters input).drop (characters input).length = singles [] := List.drop_length
  exact .done ahead (.nil _)

/-- A stray character stops the scanner where it stands. -/
theorem TokensEnd.stray_again {e : StrayCharacter} (h : TokensEnd input p (.error (.stray e)) q) :
    e.offset = q ∧ (characters input)[q]? = some e.character ∧
      TokensEnd input q (.error (.stray e)) q := by
  cases h with
  | @stray text tokens c back ahead reads notPlain =>
    have hplace : (characters input).drop (p + text.length) = singles [] ++ c :: back := by
      rw [← List.drop_drop, ahead, ← length_singles, List.drop_left]
      rfl
    refine ⟨rfl, ?_, .stray hplace (.nil _) notPlain⟩
    rw [← List.head?_drop, hplace]
    rfl

/-! ## One round -/

theorem NumberEnds.ne_misuse {result : Except ScanError Binary64} (h : NumberEnds input p result q)
    (e : Misuse) : result ≠ .error (.misuse e) := by
  cases h <;> simp

theorem TokensEnd.ne_misuse {result : Except ScanError (List Token)}
    (h : TokensEnd input p result q) (e : Misuse) : result ≠ .error (.misuse e) := by
  cases h <;> simp

/-- A round of reading tokens fails, but not for a misuse, or takes at least one character. -/
theorem lexeme_place {c : Cluster} (hc : (characters input)[p]? = some c) :
    (∃ e q, (place input p).lexeme c = (.error e, place input q) ∧ ∀ m, e ≠ .misuse m) ∨
      ∃ found q, (place input p).lexeme c = (.ok found, place input q) ∧ p < q ∧
        q ≤ (characters input).length := by
  have hp : p < (characters input).length := (List.getElem?_eq_some_iff.mp hc).1
  by_cases hdigit : (digit? c).isSome = true
  · obtain ⟨result, q, hends⟩ := exists_numberEnds input p
    have hnumber := hends.number_eq
    have hle := hends.le (Nat.le_of_lt hp)
    cases hends with
    | oversized =>
      left
      simp [lexeme, hdigit, hnumber]
    | @whole digits back ahead isDigit stop safe =>
      have hnatural : (ofNat (ofDigits digits)).isSafeNatural = true :=
        isSafeNatural_iff.mpr ⟨_, safeInt?_ofNat safe⟩
      have hshorter := number_shorter (by rw [head?_place, hc]; exact hdigit) hnumber
      rw [length_rest_place, length_rest_place] at hshorter
      have hlexeme : (place input p).lexeme c =
          (.ok (some (.number (ofNat (ofDigits digits)) (some ⟨p, (p + digits.length : Nat)⟩))),
            place input (p + digits.length)) := by
        simp only [lexeme, hdigit, if_true, hnumber, Token.number?, hnatural]
        rfl
      exact .inr ⟨_, _, hlexeme, by omega, hle.2⟩
  · unfold lexeme
    simp only [if_neg hdigit, single_place hp]
    split_ifs
    · exact .inr ⟨_, _, rfl, Nat.lt_succ_self p, hp⟩
    · exact .inr ⟨_, _, rfl, Nat.lt_succ_self p, hp⟩
    · exact .inr ⟨_, _, rfl, Nat.lt_succ_self p, hp⟩
    · exact .inl ⟨_, _, rfl, by simp⟩

/-! ## Operations in any order -/

/-- What the scanner answers at `p`, and where it goes on from. -/
inductive Answers (input : String) (p : Nat) : Operation → Reply → Nat → Prop
  | head : Answers input p .head (.head (characters input)[p]?) p
  | skip (ahead : p < (characters input).length) : Answers input p .skip (.skip (.ok ())) (p + 1)
  | pastEnd (atEnd : p = (characters input).length) :
      Answers input p .skip (.skip (.error .pastEnd)) p
  | number {result : Except ScanError Binary64} {q : Nat} (ends : NumberEnds input p result q) :
      Answers input p .number (.number result) q
  | tokens {result : Except ScanError (List Token)} {q : Nat} (ends : TokensEnd input p result q) :
      Answers input p .tokens (.tokens result) q

theorem follows (input : String) :
    Steps.Follows perform (place input) (characters input).length (Answers input) where
  performs hp h := by
    cases h with
    | head => rw [perform, head?_place]
    | skip ahead => rw [perform, skip_place ahead]
    | pastEnd atEnd => rw [perform, atEnd, skip_place_length]
    | number ends => rw [perform, ends.number_eq]
    | tokens ends => rw [perform, ends.tokens_eq hp]
  total {p} hp operation := by
    cases operation with
    | head => exact ⟨_, _, .head⟩
    | skip =>
      rcases Nat.lt_or_eq_of_le hp with hlt | heq
      · exact ⟨_, _, .skip hlt⟩
      · exact ⟨_, _, .pastEnd heq⟩
    | number =>
      obtain ⟨result, q, ends⟩ := exists_numberEnds input p
      exact ⟨_, _, .number ends⟩
    | tokens =>
      obtain ⟨result, q, ends⟩ := exists_tokensEnd input p
      exact ⟨_, _, .tokens ends⟩
  forward hp h := by
    cases h with
    | head => exact ⟨Nat.le_refl _, hp⟩
    | skip ahead => exact ⟨Nat.le_succ _, ahead⟩
    | pastEnd => exact ⟨Nat.le_refl _, hp⟩
    | number ends => exact ends.le hp
    | tokens ends => exact ends.le hp

/-- Whatever operations a scanner performs, each is answered at its place as the rule says, failures
included, and none goes back. The rule has one answer at every place and no misuse, rounds take
characters, and at the end or at a stray character tokens are answered alike ever after. -/
theorem run_reads (input : String) (operations : List Operation) :
    let start := ofString input
    let n := (characters input).length
    let cursor (i : Nat) := (Steps.after perform start (operations.take i)).offset
    (∀ i operation, operations[i]? = some operation → ∃ reply,
      (start.run operations)[i]? = some (reply, place input (cursor (i + 1))) ∧
        Answers input (cursor i) operation reply (cursor (i + 1))) ∧
    (∀ i j, i ≤ j → cursor i ≤ cursor j) ∧ (∀ i, cursor i ≤ n) ∧
    ∀ p ≤ n,
      (∀ operation reply s, (place input p).perform operation = (reply, s) ↔
        ∃ q, s = place input q ∧ Answers input p operation reply q) ∧
      (NoDigit ((characters input).drop p) →
        (place input p).number = (.ok (zero false), place input p)) ∧
      (∀ q e, ¬ NumberEnds input p (.error (.misuse e)) q ∧
        ¬ TokensEnd input p (.error (.misuse e)) q) ∧
      (∀ c, (characters input)[p]? = some c →
        (∃ e q, (place input p).lexeme c = (.error e, place input q) ∧ ∀ m, e ≠ .misuse m) ∨
          ∃ found q, (place input p).lexeme c = (.ok found, place input q) ∧ p < q ∧ q ≤ n) ∧
      (∀ q tokens, TokensEnd input p (.ok tokens) q → q = n ∧ ∀ m,
        (place input q).run (List.replicate m .tokens) =
          List.replicate m (.tokens (.ok []), place input q)) ∧
      ∀ q e, TokensEnd input p (.error (.stray e)) q →
        e.offset = q ∧ (characters input)[q]? = some e.character ∧ ∀ m,
          (place input q).run (List.replicate m .tokens) =
            List.replicate m (.tokens (.error (.stray e)), place input q) := by
  intro start n cursor
  have h := follows input
  have hcursor (p : Nat) : (place input p).offset = p := rfl
  have again {q : Nat} {result : Except ScanError (List Token)} (hq : q ≤ n)
      (ends : TokensEnd input q result q) (m : Nat) :
      (place input q).run (List.replicate m .tokens) =
        List.replicate m (.tokens result, place input q) :=
    Steps.run_replicate perform (h.performs hq (.tokens ends)) m
  refine ⟨fun i operation hi => ?_, fun i j hij => h.after_take_le hcursor operations hij,
    fun i => (h.after_eq hcursor (operations.take i)).2, fun p hp => ?_⟩
  · exact h.answers_of_getElem? hcursor operations hi
  · refine ⟨h.perform_eq_iff hp, fun hnone => numberFrom_of_noDigit p _ hnone, fun q e => ⟨fun ends => ?_,
      fun ends => ?_⟩, fun c hc => lexeme_place hc, fun q tokens ends => ?_, fun q e ends => ?_⟩
    · exact ends.ne_misuse e rfl
    · exact ends.ne_misuse e rfl
    · cases ends with
      | done => exact ⟨rfl, again (Nat.le_refl n) (tokensEnd_length input)⟩
    · obtain ⟨hoffset, hfound, hagain⟩ := ends.stray_again
      exact ⟨hoffset, hfound, again (ends.le hp).2 hagain⟩

end Scanner

end RunningTotal
