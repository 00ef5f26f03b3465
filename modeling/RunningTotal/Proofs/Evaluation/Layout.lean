import RunningTotal.Proofs.Evaluation.Outcome
import RunningTotal.Proofs.Total.Failure

/-! The expressions that have a value. A `Layout` is a sum as it is written: literals with a sign
between each two, and spaces wherever there may be some. The tokens of a laid out sum spell it
(`Layout.exists_reads`), a text whose tokens spell a sum is laid out in one way
(`writes_of_reads`, `Layout.text_injective`), and so an evaluation succeeds just on the laid out
sums that stay in range (`evaluate_eq_ok_iff`). -/
set_option autoImplicit false

namespace RunningTotal

open Binary64 Log

/-! ## Written sums -/

structure Literal where
  digits : List Char
  ne_nil : digits ≠ []
  isDigit : ∀ c ∈ digits, c.isDigit = true

/-- Exact, however long the literal is and whatever zeros it begins with. -/
def Literal.number (literal : Literal) : Nat := ofDigits literal.digits

def Sign.char : Sign → Char
  | .plus => '+'
  | .minus => '-'

def spaces (n : Nat) : List Char := List.replicate n ' '

/-- A sign and its literal, with the spaces before each. -/
@[ext] structure Term where
  before : Nat
  sign : Sign
  between : Nat
  literal : Literal

def Term.text (t : Term) : List Char :=
  spaces t.before ++ t.sign.char :: (spaces t.between ++ t.literal.digits)

def termsText (terms : List Term) (trail : Nat) : List Char :=
  terms.flatMap Term.text ++ spaces trail

@[ext] structure Layout where
  lead : Nat
  first : Literal
  terms : List Term
  trail : Nat

namespace Layout

def text (l : Layout) : List Char :=
  spaces l.lead ++ (l.first.digits ++ termsText l.terms l.trail)

def literals (l : Layout) : List Literal := l.first :: l.terms.map Term.literal

end Layout

def exactTerms (terms : List Term) : List (Sign × Nat) :=
  terms.map fun t => (t.sign, t.literal.number)

def Layout.sum (l : Layout) : ExactSum := ⟨l.first.number, exactTerms l.terms⟩

theorem spaces_succ (n : Nat) : spaces (n + 1) = ' ' :: spaces n := rfl

@[simp] theorem length_spaces (n : Nat) : (spaces n).length = n := List.length_replicate

theorem termsText_nil (trail : Nat) : termsText [] trail = spaces trail := rfl

theorem termsText_cons (t : Term) (terms : List Term) (trail : Nat) :
    termsText (t :: terms) trail =
      spaces t.before ++ t.sign.char :: (spaces t.between ++ (t.literal.digits ++
        termsText terms trail)) := by
  simp [termsText, Term.text]

/-! ## The tokens of a written sum -/

theorem noDigit_spaces (n : Nat) {text : List Char} (h : NoDigit (singles text)) :
    NoDigit (singles (spaces n ++ text)) := by
  cases n with
  | zero => exact h
  | succ n => rfl

theorem Sign.noDigit_char (sign : Sign) (text : List Char) :
    NoDigit (singles (sign.char :: text)) := by
  cases sign <;> rfl

theorem noDigit_termsText (terms : List Term) (trail : Nat) :
    NoDigit (singles (termsText terms trail)) := by
  cases terms with
  | nil =>
    have h : NoDigit (singles (spaces trail ++ [])) := noDigit_spaces trail rfl
    rwa [List.append_nil] at h
  | cons t terms =>
    rw [termsText_cons]
    exact noDigit_spaces _ (t.sign.noDigit_char _)

theorem Reads.spaces {offset : Nat} (n : Nat) {text : List Char} {tokens : List Token}
    (h : Reads (offset + n) text tokens) : Reads offset (spaces n ++ text) tokens := by
  induction n generalizing offset with
  | zero => exact h
  | succ n ih =>
    rw [spaces_succ, List.cons_append]
    exact .space (ih (by rwa [Nat.add_assoc, Nat.add_comm 1 n]))

theorem Reads.sign {offset : Nat} (sign : Sign) {text : List Char} {tokens : List Token}
    (h : Reads (offset + 1) text tokens) :
    ∃ operator : Token, operator.sign? = some sign ∧
      Reads offset (sign.char :: text) (operator :: tokens) := by
  cases sign with
  | plus => exact ⟨_, rfl, h.plus⟩
  | minus => exact ⟨_, rfl, h.minus⟩

theorem exists_reads_termsText (offset : Nat) (terms : List Term) (trail : Nat)
    (h : ∀ t ∈ terms, t.literal.number ≤ safeLimit) :
    ∃ tokens, Reads offset (termsText terms trail) tokens ∧
      SpellsTerms tokens (exactTerms terms) := by
  induction terms generalizing offset with
  | nil =>
    refine ⟨[], ?_, .nil⟩
    have hreads := Reads.spaces trail (.nil (offset + trail))
    rwa [List.append_nil] at hreads
  | cons t terms ih =>
    have hsafe := h t (List.mem_cons_self ..)
    obtain ⟨tokens, hreads, hspells⟩ :=
      ih (offset + t.before + 1 + t.between + t.literal.digits.length)
        (fun u hu => h u (List.mem_cons_of_mem t hu))
    have hliteral := Reads.literal t.literal.ne_nil t.literal.isDigit hsafe
      (noDigit_termsText terms trail) hreads
    obtain ⟨operator, hsign, hoperator⟩ := (hliteral.spaces t.between).sign t.sign
    have hterm := hoperator.spaces t.before
    rw [← termsText_cons] at hterm
    exact ⟨_, hterm, .cons hsign (safeInt?_ofNat hsafe) hspells⟩

theorem Layout.exists_reads (l : Layout) (h : ∀ literal ∈ l.literals, literal.number ≤ safeLimit) :
    ∃ tokens, Reads 0 l.text tokens ∧ Spells tokens l.sum := by
  have hsafe := h l.first (List.mem_cons_self ..)
  obtain ⟨tokens, hreads, hspells⟩ :=
    exists_reads_termsText (0 + l.lead + l.first.digits.length) l.terms l.trail
      (fun t ht => h _ (List.mem_cons_of_mem _ (List.mem_map_of_mem ht)))
  have hliteral := Reads.literal l.first.ne_nil l.first.isDigit hsafe
    (noDigit_termsText l.terms l.trail) hreads
  exact ⟨_, hliteral.spaces l.lead, .mk (safeInt?_ofNat hsafe) hspells⟩

/-! ## From tokens to what is written -/

/-- The text is these terms as they may be written behind a number. -/
def WritesTerms (text : List Char) (terms : List (Sign × Nat)) : Prop :=
  ∃ written trail, termsText written trail = text ∧ exactTerms written = terms ∧
    ∀ t ∈ written, t.literal.number ≤ safeLimit

def Writes (text : List Char) (s : ExactSum) : Prop :=
  ∃ l : Layout, l.text = text ∧ l.sum = s ∧ ∀ literal ∈ l.literals, literal.number ≤ safeLimit

theorem writesTerms_nil : WritesTerms [] [] := ⟨[], 0, rfl, rfl, by simp⟩

theorem WritesTerms.space {text : List Char} {terms : List (Sign × Nat)}
    (h : WritesTerms text terms) : WritesTerms (' ' :: text) terms := by
  obtain ⟨written, trail, rfl, rfl, hsafe⟩ := h
  cases written with
  | nil => exact ⟨[], trail + 1, rfl, rfl, hsafe⟩
  | cons t written =>
    refine ⟨{ t with before := t.before + 1 } :: written, trail, ?_, rfl, ?_⟩
    · rw [termsText_cons, termsText_cons, spaces_succ]
      rfl
    · intro u hu
      rcases List.mem_cons.mp hu with rfl | hu
      · exact hsafe t (List.mem_cons_self ..)
      · exact hsafe u (List.mem_cons_of_mem t hu)

theorem Writes.space {text : List Char} {s : ExactSum} (h : Writes text s) :
    Writes (' ' :: text) s := by
  obtain ⟨l, rfl, rfl, hsafe⟩ := h
  exact ⟨{ l with lead := l.lead + 1 }, rfl, rfl, hsafe⟩

theorem Writes.sign {text : List Char} {s : ExactSum} (h : Writes text s) (sign : Sign) :
    WritesTerms (sign.char :: text) ((sign, s.first) :: s.terms) := by
  obtain ⟨l, rfl, rfl, hsafe⟩ := h
  refine ⟨⟨0, sign, l.lead, l.first⟩ :: l.terms, l.trail, ?_, rfl, ?_⟩
  · rw [termsText_cons]
    rfl
  · intro t ht
    rcases List.mem_cons.mp ht with rfl | ht
    · exact hsafe l.first (List.mem_cons_self ..)
    · exact hsafe t.literal (List.mem_cons_of_mem _ (List.mem_map_of_mem ht))

theorem WritesTerms.literal {text : List Char} {terms : List (Sign × Nat)}
    (h : WritesTerms text terms) {digits : List Char} (hne : digits ≠ [])
    (hd : ∀ c ∈ digits, c.isDigit = true) (hle : ofDigits digits ≤ safeLimit) :
    Writes (digits ++ text) ⟨ofDigits digits, terms⟩ := by
  obtain ⟨written, trail, rfl, rfl, hsafe⟩ := h
  refine ⟨⟨0, ⟨digits, hne, hd⟩, written, trail⟩, rfl, rfl, ?_⟩
  intro literal hliteral
  rcases List.mem_cons.mp hliteral with rfl | hliteral
  · exact hle
  · obtain ⟨t, ht, rfl⟩ := List.mem_map.mp hliteral
    exact hsafe t ht

/-- A text is read either behind a number or where one is expected. -/
theorem writes_of_reads {offset : Nat} {text : List Char} {tokens : List Token}
    (h : Reads offset text tokens) :
    (∀ terms, SpellsTerms tokens terms → WritesTerms text terms) ∧
      ∀ s, Spells tokens s → Writes text s := by
  have signed (sign : Sign) {text : List Char} {tokens : List Token} {operator : Token}
      (ih : ∀ s, Spells tokens s → Writes text s) (hsign : operator.sign? = some sign) :
      (∀ terms, SpellsTerms (operator :: tokens) terms → WritesTerms (sign.char :: text) terms) ∧
        ∀ s, Spells (operator :: tokens) s → Writes (sign.char :: text) s := by
    constructor
    · intro terms hterms
      cases hterms with
      | cons hfound hx hrest =>
        obtain rfl := Option.some.inj (hsign.symm.trans hfound)
        exact (ih _ (.mk hx hrest)).sign sign
    · intro s hs
      cases hs
      cases hsign
  -- a literal leads from the second statement to the first, a sign from the first to the second
  induction h with
  | nil =>
    constructor
    · intro terms hterms
      cases hterms
      exact writesTerms_nil
    · intro s hs
      cases hs
  | space _ ih => exact ⟨fun terms h => (ih.1 terms h).space, fun s h => (ih.2 s h).space⟩
  | plus _ ih => exact signed .plus ih.2 rfl
  | minus _ ih => exact signed .minus ih.2 rfl
  | literal hne hd hsafe _ _ ih =>
    constructor
    · intro terms hterms
      cases hterms with
      | cons hfound => cases hfound
    · intro s hs
      cases hs with
      | mk hx hrest =>
        obtain rfl := Int.natCast_inj.mp (Option.some.inj ((safeInt?_ofNat hsafe).symm.trans hx))
        exact (ih.1 _ hrest).literal hne hd hsafe

/-! ## One layout -/

theorem eq_of_spaces {m n : Nat} {text text' : List Char}
    (h : spaces m ++ text = spaces n ++ text') (ht : text.head? ≠ some ' ')
    (ht' : text'.head? ≠ some ' ') : m = n ∧ text = text' := by
  have hspace (k : Nat) : ∀ c ∈ spaces k, (c == ' ') = true := by
    intro c hc
    rw [List.eq_of_mem_replicate hc]
    rfl
  have hother {text : List Char} (ht : text.head? ≠ some ' ') :
      ∀ c, text.head? = some c → (c == ' ') = false := by
    rintro c hc
    rw [beq_eq_false_iff_ne]
    rintro rfl
    exact ht hc
  obtain ⟨hfront, hback⟩ := eq_of_run h (hspace m) (hspace n) (hother ht) (hother ht')
  have hlen := congrArg List.length hfront
  rw [length_spaces, length_spaces] at hlen
  exact ⟨hlen, hback⟩

theorem Literal.eq_of_append {a b : Literal} {text text' : List Char}
    (h : a.digits ++ text = b.digits ++ text') (ht : NoDigit (singles text))
    (ht' : NoDigit (singles text')) : a = b ∧ text = text' := by
  obtain ⟨digits, hne, hd⟩ := a
  obtain ⟨digits', hne', hd'⟩ := b
  obtain ⟨rfl, htext⟩ := eq_of_digits h hd hd' ht ht'
  exact ⟨rfl, htext⟩

theorem Sign.char_ne_space (sign : Sign) (text : List Char) :
    (sign.char :: text).head? ≠ some ' ' := by
  cases sign <;> simp [Sign.char]

theorem Sign.char_injective {a b : Sign} (h : a.char = b.char) : a = b := by
  cases a with
  | plus =>
    cases b with
    | plus => rfl
    | minus => cases h
  | minus =>
    cases b with
    | plus => cases h
    | minus => rfl

theorem Literal.head?_ne_space (literal : Literal) (text : List Char) :
    (literal.digits ++ text).head? ≠ some ' ' := by
  obtain ⟨digits, hne, hd⟩ := literal
  cases digits with
  | nil => exact absurd rfl hne
  | cons c digits =>
    intro h
    have hc := hd c (List.mem_cons_self ..)
    rw [Option.some.inj h] at hc
    cases hc

theorem termsText_injective {terms terms' : List Term} {trail trail' : Nat}
    (h : termsText terms trail = termsText terms' trail') : terms = terms' ∧ trail = trail' := by
  have noSign (n : Nat) (t : Term) (terms : List Term) (trail : Nat) :
      spaces n ≠ termsText (t :: terms) trail := by
    intro h
    have hmem : t.sign.char ∈ spaces n := by
      rw [h, termsText_cons]
      simp
    exact t.sign.char_ne_space [] (congrArg some (List.eq_of_mem_replicate hmem))
  induction terms generalizing terms' with
  | nil =>
    cases terms' with
    | nil =>
      have hlen := congrArg List.length h
      rw [termsText_nil, termsText_nil, length_spaces, length_spaces] at hlen
      exact ⟨rfl, hlen⟩
    | cons t terms' => exact absurd h (noSign _ t terms' trail')
  | cons t terms ih =>
    cases terms' with
    | nil => exact absurd h.symm (noSign _ t terms trail)
    | cons u terms' =>
      rw [termsText_cons, termsText_cons] at h
      obtain ⟨hbefore, h⟩ := eq_of_spaces h (t.sign.char_ne_space _) (u.sign.char_ne_space _)
      obtain ⟨hsign, h⟩ := List.cons.inj h
      obtain ⟨hbetween, h⟩ :=
        eq_of_spaces h (t.literal.head?_ne_space _) (u.literal.head?_ne_space _)
      obtain ⟨hliteral, h⟩ :=
        Literal.eq_of_append h (noDigit_termsText _ _) (noDigit_termsText _ _)
      obtain ⟨rfl, htrail⟩ := ih h
      obtain rfl : t = u := Term.ext hbefore (Sign.char_injective hsign) hbetween hliteral
      exact ⟨rfl, htrail⟩

theorem Layout.text_injective {l k : Layout} (h : l.text = k.text) : l = k := by
  obtain ⟨hlead, h⟩ := eq_of_spaces h (l.first.head?_ne_space _) (k.first.head?_ne_space _)
  obtain ⟨hfirst, h⟩ := Literal.eq_of_append h (noDigit_termsText _ _) (noDigit_termsText _ _)
  obtain ⟨hterms, htrail⟩ := termsText_injective h
  exact Layout.ext hlead hfirst hterms htrail

/-! ## The value of an expression -/

/-- What an evaluation asks of an expression that is laid out so. -/
structure Layout.Accepted (l : Layout) (expression : String) (limits : Limits) : Prop where
  text : l.text = expression.toList
  length : limits.maxLength.admits (characters expression).length = true
  literals : ∀ literal ∈ l.literals, literal.number ≤ safeLimit
  totals : l.sum.Safe

/-- Tokens that were scanned have no minus zero among them, so their total is none either. -/
theorem total_eq_ofInt {expression : String} {tokens : List Token} {s : ExactSum} {v : Binary64}
    (hreads : Reads 0 expression.toList tokens) (hspells : Spells tokens s) (hsafe : s.Safe)
    (htotal : Token.total tokens = .ok v) : v = ofInt s.total ∧ v.toInt? = some s.total := by
  obtain ⟨w, hw, hval, hzero⟩ := total_of_spells hspells hsafe
  obtain rfl := Except.ok.inj (htotal.symm.trans hw)
  have hne : v ≠ zero true := by
    refine hzero fun span hhead => ?_
    obtain ⟨n, hn, -⟩ := hreads.exists_ofNat (List.mem_of_mem_head? hhead)
    rw [← ofInt_natCast] at hn
    exact ofInt_ne_zero_true n hn.symm
  exact ⟨eq_ofInt hval hne, (safeInt?_eq_some_iff.mp hval).1⟩

/-- An evaluation succeeds just on the written sums whose length, literals and totals from left to
right are all in range, with the last total, exact. -/
theorem evaluate_eq_ok_iff (expression : String) (limits : Value) (clock : Clock) (v : Binary64) :
    (evaluate expression limits none clock).result = .ok v ↔
      ∃ resolved, Limits.ofValue limits = .ok resolved ∧
        ∃! l : Layout, l.Accepted expression resolved ∧
          v = ofInt l.sum.total ∧ v.toInt? = some l.sum.total := by
  rw [result_evaluate expression limits (neverFails_none clock), outcome_eq_ok_iff]
  constructor
  · rintro ⟨tokens, ⟨resolved, valid, admitted⟩, scan, htotal⟩
    have hreads := scan_eq_ok_iff.mp scan
    obtain ⟨s, hspells, hsafe⟩ := exists_spells_of_total htotal
    obtain ⟨l, htext, rfl, hliterals⟩ := (writes_of_reads hreads).2 s hspells
    refine ⟨resolved, valid, l, ⟨⟨htext, admitted, hliterals, hsafe⟩,
      total_eq_ofInt hreads hspells hsafe htotal⟩, ?_⟩
    rintro k ⟨accepted, -⟩
    exact Layout.text_injective (accepted.text.trans htext.symm)
  · rintro ⟨resolved, valid, l, ⟨accepted, rfl, -⟩, -⟩
    obtain ⟨tokens, hreads, hspells⟩ := l.exists_reads accepted.literals
    rw [accepted.text] at hreads
    obtain ⟨w, htotal, -, -⟩ := total_of_spells hspells accepted.totals
    obtain ⟨rfl, -⟩ := total_eq_ofInt hreads hspells accepted.totals htotal
    exact ⟨tokens, ⟨resolved, valid, accepted.length⟩, scan_eq_ok_iff.mpr hreads, htotal⟩

end RunningTotal
