import RunningTotal.Proofs.Token.Literal

/-! What the scanner reads. `Reads` is the rule of the tokens of a text: spaces count for nothing,
an operator is one character and a literal is a whole run of digits with a safe number. The scanner
takes a readable text from its input and goes on behind it (`tokensFrom_of_reads`), every input
is readable up to its end or to the first thing that is `Stuck` (`exists_reads`), and so it reads
just the readable texts (`scan_eq_ok_iff`). -/
set_option autoImplicit false

namespace RunningTotal

open Binary64

/-! ## The rule -/

/-- The tokens of a text that begins after `offset` characters. -/
inductive Reads : Nat → List Char → List Token → Prop
  | nil (offset : Nat) : Reads offset [] []
  | space {offset : Nat} {text : List Char} {tokens : List Token}
      (rest : Reads (offset + 1) text tokens) : Reads offset (' ' :: text) tokens
  | plus {offset : Nat} {text : List Char} {tokens : List Token}
      (rest : Reads (offset + 1) text tokens) :
      Reads offset ('+' :: text) (.plus (some ⟨offset, offset + 1⟩) :: tokens)
  | minus {offset : Nat} {text : List Char} {tokens : List Token}
      (rest : Reads (offset + 1) text tokens) :
      Reads offset ('-' :: text) (.minus (some ⟨offset, offset + 1⟩) :: tokens)
  | literal {offset : Nat} {digits text : List Char} {tokens : List Token}
      (ne_nil : digits ≠ []) (isDigit : ∀ c ∈ digits, c.isDigit = true)
      (safe : ofDigits digits ≤ safeLimit) (whole : NoDigit (singles text))
      (rest : Reads (offset + digits.length) text tokens) :
      Reads offset (digits ++ text)
        (.number (ofNat (ofDigits digits)) (some ⟨offset, offset + digits.length⟩) :: tokens)

/-- The characters that tokens and the spaces between them are made of. -/
def IsPlain (c : Char) : Prop := c.isDigit = true ∨ c = '+' ∨ c = '-' ∨ c = ' '

theorem IsPlain.printable {c : Char} (h : IsPlain c) : 0x20 ≤ c.toNat ∧ c.toNat < 0x7F := by
  rcases h with h | rfl | rfl | rfl
  · have hlow : '0'.toNat = 48 := rfl
    have hc := toNat_of_isDigit h
    omega
  all_goals decide

theorem Reads.isPlain {offset : Nat} {text : List Char} {tokens : List Token}
    (h : Reads offset text tokens) : ∀ c ∈ text, IsPlain c := by
  induction h with
  | nil => exact List.forall_mem_nil IsPlain
  | space _ ih => exact List.forall_mem_cons.mpr ⟨.inr (.inr (.inr rfl)), ih⟩
  | plus _ ih => exact List.forall_mem_cons.mpr ⟨.inr (.inl rfl), ih⟩
  | minus _ ih => exact List.forall_mem_cons.mpr ⟨.inr (.inr (.inl rfl)), ih⟩
  | literal _ hd _ _ _ ih =>
    exact List.forall_mem_append.mpr ⟨fun c hc => .inl (hd c hc), ih⟩

theorem characters_of_reads {input : String} {offset : Nat} {tokens : List Token}
    (h : Reads offset input.toList tokens) : characters input = singles input.toList :=
  clusters_of_printable fun c hc => (h.isPlain c hc).printable

theorem length16_of_plain {text : List Char} (h : ∀ c ∈ text, IsPlain c) :
    length16 (String.ofList text) = text.length := by
  rw [length16, String.toList_ofList]
  induction text with
  | nil => rfl
  | cons c text ih =>
    have hc := (h c (List.mem_cons_self ..)).printable
    have hunits : units16 c = 1 := if_pos (by omega)
    rw [List.foldr_cons, ih (fun d hd => h d (List.mem_cons_of_mem c hd)), hunits,
      List.length_cons]
    omega

/-! ## The seam -/

/-- No run of digits goes on from `front` into `back`. -/
def Apart (front : List Char) (back : List Cluster) : Prop :=
  ∀ c, front.getLast? = some c → c.isDigit = true → NoDigit back

theorem apart_nil (front : List Char) : Apart front [] := fun _ _ _ => rfl

theorem nil_apart (back : List Cluster) : Apart [] back := by
  intro c hc
  cases hc

theorem Apart.of_append {front text : List Char} {back : List Cluster}
    (h : Apart (front ++ text) back) : Apart text back := by
  intro c hc
  exact h c (by rw [List.getLast?_append, hc]; rfl)

theorem Apart.of_cons {c : Char} {text : List Char} {back : List Cluster}
    (h : Apart (c :: text) back) : Apart text back := by
  rw [← List.singleton_append] at h
  exact h.of_append

theorem NoDigit.append {text : List Char} {back : List Cluster} (h : NoDigit (singles text))
    (hback : text = [] → NoDigit back) : NoDigit (singles text ++ back) := by
  cases text with
  | nil => exact hback rfl
  | cons c text => exact h

theorem noDigit_of_apart {digits text : List Char} {back : List Cluster} (hne : digits ≠ [])
    (hd : ∀ c ∈ digits, c.isDigit = true) (whole : NoDigit (singles text))
    (h : Apart (digits ++ text) back) : NoDigit (singles text ++ back) := by
  refine whole.append ?_
  rintro rfl
  rw [List.append_nil] at h
  exact h _ (List.getLast?_eq_getLast_of_ne_nil hne) (hd _ (List.getLast_mem hne))

/-! ## The scanner on a readable text -/

namespace Scanner

variable (done : List Token) (input : String) (offset : Nat)

theorem tokensFrom_nil : tokensFrom done ⟨input, offset, []⟩ = (.ok done.reverse, ⟨input, offset, []⟩) := by
  rw [tokensFrom]
  rfl

theorem tokensFrom_cons (c : Cluster) (back : List Cluster) :
    tokensFrom done ⟨input, offset, c :: back⟩ =
      match lexeme c ⟨input, offset, c :: back⟩ with
      | (.error e, t) => (.error e, t)
      | (.ok found, t) => tokensFrom (found.toList ++ done) t := by
  rw [tokensFrom]
  simp only [head?, List.head?_cons]
  split <;> rename_i h <;> simp only [h]

theorem tokensFrom_space (back : List Cluster) :
    tokensFrom done ⟨input, offset, [' '] :: back⟩ =
      tokensFrom done ⟨input, offset + 1, back⟩ := by
  rw [tokensFrom_cons]
  rfl

theorem tokensFrom_plus (back : List Cluster) :
    tokensFrom done ⟨input, offset, ['+'] :: back⟩ =
      tokensFrom (.plus (some ⟨offset, offset + 1⟩) :: done) ⟨input, offset + 1, back⟩ := by
  rw [tokensFrom_cons]
  rfl

theorem tokensFrom_minus (back : List Cluster) :
    tokensFrom done ⟨input, offset, ['-'] :: back⟩ =
      tokensFrom (.minus (some ⟨offset, offset + 1⟩) :: done) ⟨input, offset + 1, back⟩ := by
  rw [tokensFrom_cons]
  rfl

theorem tokensFrom_literal (digits : List Char) (back : List Cluster) (hne : digits ≠ [])
    (hd : ∀ c ∈ digits, c.isDigit = true) (hsafe : ofDigits digits ≤ safeLimit)
    (hback : NoDigit back) :
    tokensFrom done ⟨input, offset, singles digits ++ back⟩ =
      tokensFrom (.number (ofNat (ofDigits digits)) (some ⟨offset, offset + digits.length⟩) :: done)
        ⟨input, offset + digits.length, back⟩ := by
  have hnumber := numberFrom_of_le offset input offset 0 digits back hd hsafe hback
  have hnatural : (ofNat (ofDigits digits)).isSafeNatural = true :=
    isSafeNatural_iff.mpr ⟨_, safeInt?_ofNat hsafe⟩
  cases digits with
  | nil => exact absurd rfl hne
  | cons c digits =>
    have hc := digit?_of_isDigit (hd c (List.mem_cons_self ..))
    rw [ofNat_zero, ← ofDigits_eq_withDigits] at hnumber
    rw [singles_cons, List.cons_append] at hnumber ⊢
    rw [tokensFrom_cons]
    simp only [lexeme, hc, number, hnumber, Token.number?, hnatural]
    rfl

theorem tokensFrom_of_reads {text : List Char} {tokens : List Token}
    (h : Reads offset text tokens) (back : List Cluster) (hback : Apart text back) :
    tokensFrom done ⟨input, offset, singles text ++ back⟩ =
      tokensFrom (tokens.reverse ++ done) ⟨input, offset + text.length, back⟩ := by
  -- the seam moves along: what is behind the text stays apart from what is left of it
  induction h generalizing done with
  | nil => rfl
  | @space offset text tokens _ ih =>
    rw [singles_cons, List.cons_append, tokensFrom_space, ih _ hback.of_cons, offset_cons]
  | @plus offset text tokens _ ih =>
    rw [singles_cons, List.cons_append, tokensFrom_plus, ih _ hback.of_cons, offset_cons,
      List.reverse_cons, List.append_assoc, List.singleton_append]
  | @minus offset text tokens _ ih =>
    rw [singles_cons, List.cons_append, tokensFrom_minus, ih _ hback.of_cons, offset_cons,
      List.reverse_cons, List.append_assoc, List.singleton_append]
  | @literal offset digits text tokens hne hd hsafe whole _ ih =>
    rw [singles_append, List.append_assoc,
      tokensFrom_literal done input offset digits _ hne hd hsafe
        (noDigit_of_apart hne hd whole hback),
      ih _ hback.of_append, offset_append, List.reverse_cons, List.append_assoc,
      List.singleton_append]

end Scanner

/-! ## Where reading stops -/

/-- What begins no token: a character that is not plain, or digits whose number is not safe. -/
inductive Stuck : List Cluster → Prop
  | stray {c : Cluster} (back : List Cluster) (notPlain : ∀ d, c = [d] → ¬ IsPlain d) :
      Stuck (c :: back)
  | oversized {digits : List Char} {back : List Cluster}
      (isDigit : ∀ c ∈ digits, c.isDigit = true) (whole : NoDigit back)
      (excess : safeLimit < ofDigits digits) : Stuck (singles digits ++ back)

theorem exists_run (rest : List Cluster) :
    ∃ digits back, rest = singles digits ++ back ∧ (∀ c ∈ digits, c.isDigit = true) ∧
      NoDigit back := by
  induction rest with
  | nil => exact ⟨[], [], rfl, by simp, rfl⟩
  | cons c rest ih =>
    by_cases hc : digit? c = none
    · exact ⟨[], c :: rest, rfl, by simp, hc⟩
    · obtain ⟨d, rfl, hd⟩ : ∃ d, c = [d] ∧ d.isDigit = true := by
        unfold digit? at hc
        split at hc
        · rename_i d
          exact ⟨d, rfl, by simpa using hc⟩
        · exact absurd rfl hc
      obtain ⟨digits, back, rfl, hdigits, hback⟩ := ih
      refine ⟨d :: digits, back, rfl, ?_, hback⟩
      intro e he
      rcases List.mem_cons.mp he with rfl | he
      · exact hd
      · exact hdigits e he

theorem Apart.cons {c : Char} {text : List Char} {back : List Cluster} (h : Apart text back)
    (hc : c.isDigit = false) : Apart (c :: text) back := by
  intro d hd hdigit
  cases text with
  | nil =>
    have hcd : c = d := by simpa using hd
    rw [← hcd, hc] at hdigit
    cases hdigit
  | cons e text => exact h d (by rw [← hd, List.getLast?_cons_cons]) hdigit

theorem Apart.append {digits text : List Char} {back : List Cluster} (h : Apart text back)
    (hback : text = [] → NoDigit back) : Apart (digits ++ text) back := by
  intro d hd hdigit
  cases text with
  | nil => exact hback rfl
  | cons e text =>
    rw [List.getLast?_append_of_ne_nil _ (List.cons_ne_nil e text)] at hd
    exact h d hd hdigit

theorem Reads.exists_cons {c : Char} {offset : Nat} {text : List Char} {tokens : List Token}
    (h : Reads (offset + 1) text tokens) (hplain : IsPlain c) (hd : c.isDigit = false) :
    ∃ more, Reads offset (c :: text) more := by
  rcases hplain with hdigit | rfl | rfl | rfl
  · rw [hd] at hdigit
    cases hdigit
  · exact ⟨_, h.plus⟩
  · exact ⟨_, h.minus⟩
  · exact ⟨_, h.space⟩

theorem exists_reads (offset : Nat) (rest : List Cluster) :
    ∃ text tokens back, rest = singles text ++ back ∧ Reads offset text tokens ∧
      Apart text back ∧ (back = [] ∨ Stuck back) := by
  -- a run of digits or another plain character is taken off the front, unless that is stuck
  induction hn : rest.length using Nat.strong_induction_on generalizing offset rest with
  | _ n ih =>
    obtain ⟨digits, back, rfl, hd, hback⟩ := exists_run rest
    rw [List.length_append, length_singles] at hn
    by_cases hne : digits = []
    · subst hne
      cases back with
      | nil => exact ⟨[], [], [], rfl, .nil offset, apart_nil [], .inl rfl⟩
      | cons c back =>
        by_cases hplain : ∃ d, c = [d] ∧ IsPlain d
        · obtain ⟨d, rfl, hplain⟩ := hplain
          have hdigit : d.isDigit = false := by
            have hnone : digit? [d] = none := hback
            simpa [digit?] using hnone
          have hlt : back.length < n := by
            rw [← hn, List.length_cons]
            omega
          obtain ⟨text, tokens, back', rfl, hreads, hapart, hstop⟩ := ih _ hlt (offset + 1) back rfl
          obtain ⟨more, hmore⟩ := hreads.exists_cons hplain hdigit
          exact ⟨d :: text, more, back', rfl, hmore, hapart.cons hdigit, hstop⟩
        · have hstray : ∀ d, c = [d] → ¬ IsPlain d := fun d hc hd => hplain ⟨d, hc, hd⟩
          exact ⟨[], [], c :: back, rfl, .nil offset, nil_apart _, .inr (.stray back hstray)⟩
    · by_cases hsafe : ofDigits digits ≤ safeLimit
      · have hlt : back.length < n := by
          have hpos := List.length_pos_iff.mpr hne
          omega
        obtain ⟨text, tokens, back', rfl, hreads, hapart, hstop⟩ :=
          ih _ hlt (offset + digits.length) back rfl
        have hwhole : NoDigit (singles text) := by
          cases text with
          | nil => rfl
          | cons c text => exact hback
        refine ⟨digits ++ text, _, back', by rw [singles_append, List.append_assoc],
          .literal hne hd hsafe hwhole hreads, hapart.append ?_, hstop⟩
        rintro rfl
        exact hback
      · exact ⟨[], [], _, rfl, .nil offset, nil_apart _,
          .inr (.oversized hd hback (Nat.not_le.mp hsafe))⟩

theorem digit?_of_not_plain {c : Cluster} (h : ∀ d, c = [d] → ¬ IsPlain d) : digit? c = none := by
  unfold digit?
  split
  · rename_i d
    exact if_neg fun hd => h d rfl (.inl hd)
  · rfl

namespace Scanner

variable (done : List Token) (input : String) (offset : Nat)

theorem tokensFrom_stray {c : Cluster} (back : List Cluster)
    (h : ∀ d, c = [d] → ¬ IsPlain d) :
    tokensFrom done ⟨input, offset, c :: back⟩ =
      (.error (.stray ⟨c, input, offset⟩), ⟨input, offset, c :: back⟩) := by
  have hdigit := digit?_of_not_plain h
  have hplus : c ≠ ['+'] := fun hc => h _ hc (.inr (.inl rfl))
  have hminus : c ≠ ['-'] := fun hc => h _ hc (.inr (.inr (.inl rfl)))
  have hspace : c ≠ [' '] := fun hc => h _ hc (.inr (.inr (.inr rfl)))
  rw [tokensFrom_cons]
  simp [lexeme, hdigit, hplus, hminus, hspace]

/-- The error is placed at the first digit and the scanner is left on the one that goes too far. -/
theorem tokensFrom_oversized (digits : List Char) {c : Char} (back : List Cluster)
    (hd : ∀ d ∈ digits, d.isDigit = true) (hc : c.isDigit = true)
    (hle : ofDigits digits ≤ safeLimit) (hlt : safeLimit < ofDigits (digits ++ [c])) :
    tokensFrom done ⟨input, offset, singles digits ++ [c] :: back⟩ =
      (.error (.bounds ⟨.literal offset, input, some offset⟩),
        ⟨input, offset + digits.length, [c] :: back⟩) := by
  have hnumber := numberFrom_of_lt offset input offset 0 digits back hd hc hle hlt
  rw [ofNat_zero] at hnumber
  cases digits with
  | nil =>
    rw [singles_nil, List.nil_append] at hnumber ⊢
    rw [tokensFrom_cons]
    simp only [lexeme, digit?_of_isDigit hc, number, hnumber]
    rfl
  | cons d digits =>
    rw [singles_cons, List.cons_append] at hnumber ⊢
    rw [tokensFrom_cons]
    simp only [lexeme, digit?_of_isDigit (hd d (List.mem_cons_self ..)), number, hnumber]
    rfl

end Scanner

/-! ## All of an input -/

/-- The error of an input that is readable only up to where it is stuck. -/
inductive ScanFails (input : String) : ScanError → Prop
  | stray {text : List Char} {tokens : List Token} {c : Cluster} {back : List Cluster}
      (split : characters input = singles text ++ c :: back) (readable : Reads 0 text tokens)
      (notPlain : ∀ d, c = [d] → ¬ IsPlain d) :
      ScanFails input (.stray ⟨c, input, text.length⟩)
  | oversized {text digits : List Char} {tokens : List Token} {back : List Cluster}
      (split : characters input = singles text ++ (singles digits ++ back))
      (readable : Reads 0 text tokens) (isDigit : ∀ c ∈ digits, c.isDigit = true)
      (whole : NoDigit back) (excess : safeLimit < ofDigits digits) :
      ScanFails input (.bounds ⟨.literal text.length, input, some text.length⟩)

/-- Behind a readable text the scanner goes on from there. -/
theorem Scanner.tokens_append {input : String} {offset : Nat} {rest back : List Cluster}
    {text : List Char} {tokens : List Token} (hsplit : rest = singles text ++ back)
    (hreads : Reads offset text tokens) (hapart : Apart text back) :
    Scanner.tokens ⟨input, offset, rest⟩ =
      tokensFrom tokens.reverse ⟨input, offset + text.length, back⟩ := by
  rw [Scanner.tokens, hsplit, tokensFrom_of_reads [] input offset hreads back hapart,
    List.append_nil]

theorem scan_append {input : String} {text : List Char} {tokens : List Token} {back : List Cluster}
    (hsplit : characters input = singles text ++ back) (hreads : Reads 0 text tokens)
    (hapart : Apart text back) :
    Token.scan input = (Scanner.tokensFrom tokens.reverse ⟨input, text.length, back⟩).1 := by
  rw [Token.scan, Scanner.ofString, Scanner.tokens_append hsplit hreads hapart, Nat.zero_add]

theorem scan_of_reads {input : String} {tokens : List Token} (h : Reads 0 input.toList tokens) :
    Token.scan input = .ok tokens := by
  have hsplit : characters input = singles input.toList ++ [] := by
    rw [List.append_nil, characters_of_reads h]
  rw [scan_append hsplit h (apart_nil _), Scanner.tokensFrom_nil, List.reverse_reverse]

theorem scan_of_stray {input : String} {text : List Char} {tokens : List Token} {c : Cluster}
    {back : List Cluster}
    (hsplit : characters input = singles text ++ c :: back) (hreads : Reads 0 text tokens)
    (hapart : Apart text (c :: back)) (notPlain : ∀ d, c = [d] → ¬ IsPlain d) :
    Token.scan input = .error (.stray ⟨c, input, text.length⟩) := by
  rw [scan_append hsplit hreads hapart, Scanner.tokensFrom_stray _ _ _ back notPlain]

theorem scan_of_oversized {input : String} {text digits : List Char} {tokens : List Token}
    {back : List Cluster}
    (hsplit : characters input = singles text ++ (singles digits ++ back))
    (hreads : Reads 0 text tokens) (hapart : Apart text (singles digits ++ back))
    (isDigit : ∀ c ∈ digits, c.isDigit = true) (excess : safeLimit < ofDigits digits) :
    Token.scan input = .error (.bounds ⟨.literal text.length, input, some text.length⟩) := by
  have hscan := scan_append hsplit hreads hapart
  obtain ⟨front, c, rear, rfl, hle, hlt⟩ := exists_first_unsafe (n := 0) (by omega) excess
  have hfront : ∀ d ∈ front, d.isDigit = true := fun d hd => isDigit d (by simp [hd])
  have hc : c.isDigit = true := isDigit c (by simp)
  have hend := Scanner.tokensFrom_oversized tokens.reverse input text.length front
    (singles rear ++ back) hfront hc hle hlt
  rw [← List.cons_append, ← singles_cons, ← List.append_assoc, ← singles_append] at hend
  rw [hscan, hend]

theorem scan_cases (input : String) :
    (∃ tokens, Reads 0 input.toList tokens ∧ Token.scan input = .ok tokens) ∨
      ∃ e, ScanFails input e ∧ Token.scan input = .error e := by
  obtain ⟨text, tokens, back, hsplit, hreads, hapart, hstop⟩ := exists_reads 0 (characters input)
  rcases hstop with rfl | hstuck
  · left
    rw [List.append_nil] at hsplit
    rw [← toList_of_characters hsplit] at hreads
    exact ⟨tokens, hreads, scan_of_reads hreads⟩
  · right
    cases hstuck with
    | stray back notPlain =>
      exact ⟨_, .stray hsplit hreads notPlain, scan_of_stray hsplit hreads hapart notPlain⟩
    | oversized isDigit whole excess =>
      exact ⟨_, .oversized hsplit hreads isDigit whole excess,
        scan_of_oversized hsplit hreads hapart isDigit excess⟩

theorem scan_eq_ok_iff {input : String} {tokens : List Token} :
    Token.scan input = .ok tokens ↔ Reads 0 input.toList tokens := by
  refine ⟨fun h => ?_, scan_of_reads⟩
  rcases scan_cases input with ⟨found, hreads, hscan⟩ | ⟨e, -, hscan⟩
  · rw [hscan] at h
    exact Except.ok.inj h ▸ hreads
  · rw [hscan] at h
    cases h

theorem scanFails_of_scan {input : String} {e : ScanError} (h : Token.scan input = .error e) :
    ScanFails input e := by
  rcases scan_cases input with ⟨tokens, -, hscan⟩ | ⟨found, hfails, hscan⟩
  · rw [hscan] at h
    cases h
  · rw [hscan] at h
    exact Except.error.inj h ▸ hfails

theorem scan_ne_misuse (input : String) (e : Misuse) : Token.scan input ≠ .error (.misuse e) := by
  intro h
  cases scanFails_of_scan h

/-! ## What is read -/

theorem Reads.exists_ofNat {offset : Nat} {text : List Char} {tokens : List Token}
    (h : Reads offset text tokens) {x : Binary64} {span : Option Span}
    (hx : Token.number x span ∈ tokens) : ∃ n, x = ofNat n ∧ n ≤ safeLimit := by
  induction h with
  | nil => cases hx
  | space _ ih => exact ih hx
  | plus _ ih =>
    rcases List.mem_cons.mp hx with h | h
    · cases h
    · exact ih h
  | minus _ ih =>
    rcases List.mem_cons.mp hx with h | h
    · cases h
    · exact ih h
  | literal _ _ hsafe _ _ ih =>
    rcases List.mem_cons.mp hx with h | h
    · cases h
      exact ⟨_, rfl, hsafe⟩
    · exact ih h

theorem Reads.exists_start {offset : Nat} {text : List Char} {tokens : List Token}
    (h : Reads offset text tokens) {t : Token} (ht : t ∈ tokens) :
    ∃ front back, text = front ++ back ∧ t.start? = some ((offset + front.length : Nat) : Int) := by
  have later {offset : Nat} {text : List Char} (before : List Char)
      (h : ∃ front back, text = front ++ back ∧
        t.start? = some ((offset + before.length + front.length : Nat) : Int)) :
      ∃ front back, before ++ text = front ++ back ∧
        t.start? = some ((offset + front.length : Nat) : Int) := by
    obtain ⟨front, back, rfl, hstart⟩ := h
    refine ⟨before ++ front, back, by rw [List.append_assoc], ?_⟩
    rw [hstart, List.length_append, Nat.add_assoc]
  induction h with
  | nil => cases ht
  | space _ ih => exact later [' '] (ih ht)
  | plus _ ih =>
    rcases List.mem_cons.mp ht with rfl | ht
    · exact ⟨[], _, rfl, rfl⟩
    · exact later ['+'] (ih ht)
  | minus _ ih =>
    rcases List.mem_cons.mp ht with rfl | ht
    · exact ⟨[], _, rfl, rfl⟩
    · exact later ['-'] (ih ht)
  | literal _ _ _ _ _ ih =>
    rcases List.mem_cons.mp ht with rfl | ht
    · exact ⟨[], _, rfl, rfl⟩
    · exact later _ (ih ht)

end RunningTotal
