import RunningTotal.Proofs.Token.Reading

/-! What tokens take of the characters of a text. `IsRun` is a run of digits that goes on in neither
direction; `Covers` says that tokens one behind another take up a stretch of characters but for
its spaces, operators one sign each and numbers a whole run with its value. A readable text is
covered by its tokens (`Reads.covers`), and by no others (`Covers.unique`); between two numbers
there is always a space (`Covers.separated`). -/
set_option autoImplicit false

namespace RunningTotal

open Binary64

/-! ## Runs of digits -/

/-- The digits that stand from `start` on, with none before them and none behind. -/
structure IsRun (chars : List Cluster) (start : Nat) (digits : List Char) : Prop where
  ne_nil : digits ≠ []
  isDigit : ∀ c ∈ digits, c.isDigit = true
  found : (chars.drop start).take digits.length = singles digits
  before : ∀ k, k + 1 = start → chars[k]?.bind digit? = none
  after : chars[start + digits.length]?.bind digit? = none

theorem isRun_append {front back : List Cluster} {digits : List Char} (ne_nil : digits ≠ [])
    (isDigit : ∀ c ∈ digits, c.isDigit = true) (before : front.getLast?.bind digit? = none)
    (after : NoDigit back) : IsRun (front ++ (singles digits ++ back)) front.length digits where
  ne_nil := ne_nil
  isDigit := isDigit
  found := by rw [List.drop_left, List.take_left' (length_singles digits)]
  before k hk := by
    rw [List.getElem?_append_left (by omega)]
    rw [List.getLast?_eq_getElem?, ← hk, Nat.add_sub_cancel] at before
    exact before
  after := by
    rw [List.getElem?_append_right (by omega), Nat.add_sub_cancel_left,
      List.getElem?_append_right (by rw [length_singles]), length_singles, Nat.sub_self,
      ← List.head?_eq_getElem?]
    exact after

theorem not_noDigit {digits : List Char} (hne : digits ≠ [])
    (hd : ∀ c ∈ digits, c.isDigit = true) (back : List Cluster) :
    ¬ NoDigit (singles digits ++ back) := by
  obtain ⟨c, digits, rfl⟩ := List.exists_cons_of_ne_nil hne
  intro hnone
  have hc : digit? [c] = none := hnone
  rw [digit?_of_isDigit (hd c (List.mem_cons_self ..))] at hc
  cases hc

namespace IsRun

variable {chars : List Cluster} {start : Nat} {digits : List Char}

theorem getElem? (h : IsRun chars start digits) {k : Nat} (hlow : start ≤ k)
    (hhigh : k < start + digits.length) : ∃ d, chars[k]? = some [d] ∧ d.isDigit = true := by
  have hk : k - start < digits.length := by omega
  refine ⟨digits[k - start], ?_, h.isDigit _ (List.getElem_mem hk)⟩
  calc chars[k]? = (chars.drop start)[k - start]? := by
        rw [List.getElem?_drop, Nat.add_sub_cancel' hlow]
    _ = (singles digits)[k - start]? := by rw [← h.found, List.getElem?_take_of_lt hk]
    _ = some [digits[k - start]] := by rw [singles, List.getElem?_map, List.getElem?_eq_getElem hk]; rfl

theorem pos (h : IsRun chars start digits) : 0 < digits.length := List.length_pos_iff.mpr h.ne_nil

theorem head (h : IsRun chars start digits) : ∃ d, chars[start]? = some [d] ∧ d.isDigit = true :=
  h.getElem? (Nat.le_refl start) (Nat.lt_add_of_pos_right h.pos)

theorem eq_append (h : IsRun chars start digits) :
    ∃ back, chars.drop start = singles digits ++ back ∧ NoDigit back := by
  refine ⟨chars.drop (start + digits.length), ?_, ?_⟩
  · rw [← h.found, ← List.drop_drop, List.take_append_drop]
  · rw [NoDigit, List.head?_drop]
    exact h.after

theorem unique (h : IsRun chars start digits) {others : List Char} (h' : IsRun chars start others) :
    digits = others := by
  obtain ⟨back, hback, hend⟩ := h.eq_append
  obtain ⟨back', hback', hend'⟩ := h'.eq_append
  have hdigit {text : List Char} (htext : ∀ c ∈ text, c.isDigit = true) :
      ∀ c ∈ singles text, (digit? c).isSome = true := by
    intro c hc
    obtain ⟨d, hd, rfl⟩ := List.mem_map.mp hc
    rw [digit?_of_isDigit (htext d hd)]
    rfl
  have hstop {rest : List Cluster} (hrest : NoDigit rest) (c : Cluster) (hc : rest.head? = some c) :
      (digit? c).isSome = false := by
    rw [NoDigit, hc] at hrest
    rw [show digit? c = none from hrest]
    rfl
  obtain ⟨heq, -⟩ := eq_of_run (hback.symm.trans hback') (hdigit h.isDigit) (hdigit h'.isDigit)
    (hstop hend) (hstop hend')
  rw [← flatten_singles digits, heq, flatten_singles]

/-- Two runs that meet are one. -/
theorem start_eq (h : IsRun chars start digits) {k : Nat} {others : List Char}
    (h' : IsRun chars k others) (hlow : start ≤ k) (hhigh : k < start + digits.length) :
    start = k := by
  rcases Nat.eq_or_lt_of_le hlow with heq | hlt
  · exact heq
  · -- the digit before `k` would belong to the run that begins there
    obtain ⟨j, rfl⟩ : ∃ j, k = j + 1 := ⟨k - 1, by omega⟩
    obtain ⟨d, hd, hdigit⟩ := h.getElem? (k := j) (by omega) (by omega)
    have hnone := h'.before j rfl
    rw [hd, Option.bind_some, digit?_of_isDigit hdigit] at hnone
    cases hnone

end IsRun

/-! ## Tokens over characters -/

/-- The token comes from the characters from `i` up to `j`. -/
def Token.Spans (t : Token) (i j : Nat) : Prop := t.span = some ⟨i, j⟩

theorem Token.Spans.unique {t : Token} {i j k l : Nat} (h : t.Spans i j) (h' : t.Spans k l) :
    i = k ∧ j = l := by
  have heq := Option.some.inj (h.symm.trans h')
  exact ⟨Int.ofNat.inj (congrArg Span.start heq), Int.ofNat.inj (congrArg Span.stop heq)⟩

def Token.Takes (t : Token) (k : Nat) : Prop := ∃ i j, t.Spans i j ∧ i ≤ k ∧ k < j

/-- What a token from the characters `i` up to `j` stands for there. -/
inductive Stands (chars : List Cluster) : Token → Nat → Nat → Prop
  | plus {i : Nat} (found : chars[i]? = some ['+']) :
      Stands chars (.plus (some ⟨i, i + 1⟩)) i (i + 1)
  | minus {i : Nat} (found : chars[i]? = some ['-']) :
      Stands chars (.minus (some ⟨i, i + 1⟩)) i (i + 1)
  | number {i : Nat} {digits : List Char} (run : IsRun chars i digits)
      (safe : ofDigits digits ≤ safeLimit) :
      Stands chars (.number (ofNat (ofDigits digits)) (some ⟨i, i + digits.length⟩)) i
        (i + digits.length)

namespace Stands

variable {chars : List Cluster} {t u : Token} {i j k : Nat}

theorem spans (h : Stands chars t i j) : t.Spans i j := by
  cases h <;> rfl

theorem lt (h : Stands chars t i j) : i < j := by
  cases h with
  | plus | minus => exact Nat.lt_succ_self i
  | number run => exact Nat.lt_add_of_pos_right run.pos

/-- A character of a token is a sign or one of the digits of a run. -/
theorem taken (h : Stands chars t i j) (hle : i ≤ k) (hlt : k < j) :
    ∃ c, chars[k]? = some [c] ∧ (c = '+' ∨ c = '-' ∨ c.isDigit = true ∧ ∃ digits,
      IsRun chars i digits ∧ ofDigits digits ≤ safeLimit ∧ j = i + digits.length) := by
  cases h with
  | plus found =>
    obtain rfl : k = i := by omega
    exact ⟨'+', found, .inl rfl⟩
  | minus found =>
    obtain rfl : k = i := by omega
    exact ⟨'-', found, .inr (.inl rfl)⟩
  | @number i digits run safe =>
    obtain ⟨c, hc, hdigit⟩ := run.getElem? hle hlt
    exact ⟨c, hc, .inr (.inr ⟨hdigit, digits, run, safe, rfl⟩)⟩

theorem not_space (h : Stands chars t i j) (hle : i ≤ k) (hlt : k < j) :
    chars[k]? ≠ some [' '] := by
  obtain ⟨c, hc, rfl | rfl | ⟨hdigit, -⟩⟩ := h.taken hle hlt
  · rw [hc]
    decide
  · rw [hc]
    decide
  · rintro hspace
    obtain rfl := List.singleton_inj.mp (Option.some.inj (hc.symm.trans hspace))
    cases hdigit

/-- The character at which a token begins decides what the token is. -/
theorem unique (ht : Stands chars t i j) (hu : Stands chars u i k) : t = u := by
  have same {c d : Char} (hc : chars[i]? = some [c]) (hd : chars[i]? = some [d]) : c = d :=
    List.singleton_inj.mp (Option.some.inj (hc.symm.trans hd))
  cases ht with
  | plus found =>
    cases hu with
    | plus => rfl
    | minus found' => cases same found found'
    | number run =>
      obtain ⟨d, hd, hdigit⟩ := run.head
      cases same found hd
      cases hdigit
  | minus found =>
    cases hu with
    | plus found' => cases same found found'
    | minus => rfl
    | number run =>
      obtain ⟨d, hd, hdigit⟩ := run.head
      cases same found hd
      cases hdigit
  | number run =>
    obtain ⟨d, hd, hdigit⟩ := run.head
    cases hu with
    | plus found =>
      cases same found hd
      cases hdigit
    | minus found =>
      cases same found hd
      cases hdigit
    | number run' => rw [run.unique run']

end Stands

/-- Tokens that take all characters from `start` up to `stop` but the spaces, from left to right. -/
structure Covers (chars : List Cluster) (start stop : Nat) (tokens : List Token) : Prop where
  located : ∀ t ∈ tokens, ∃ i j, t.Spans i j ∧ start ≤ i ∧ i < j ∧ j ≤ stop
  ordered : tokens.Pairwise fun a b => ∀ i j k l, a.Spans i j → b.Spans k l → j ≤ k
  stands : ∀ t ∈ tokens, ∀ i j, t.Spans i j → Stands chars t i j
  spaces : ∀ k, start ≤ k → k < stop →
    (chars[k]? = some [' '] ↔ ∀ t ∈ tokens, ¬ t.Takes k)

namespace Covers

variable {chars : List Cluster} {start mid stop : Nat} {tokens : List Token}

theorem nil (chars : List Cluster) (start : Nat) : Covers chars start start [] where
  located := List.forall_mem_nil _
  ordered := .nil
  stands := List.forall_mem_nil _
  spaces _ hlow hhigh := absurd hhigh (Nat.not_lt.mpr hlow)

theorem space (h : Covers chars (start + 1) stop tokens) (hspace : chars[start]? = some [' ']) :
    Covers chars start stop tokens where
  located t ht := by
    obtain ⟨i, j, hspan, hlow, hwidth, hhigh⟩ := h.located t ht
    exact ⟨i, j, hspan, Nat.le_of_succ_le hlow, hwidth, hhigh⟩
  ordered := h.ordered
  stands := h.stands
  spaces k hlow hhigh := by
    rcases Nat.eq_or_lt_of_le hlow with rfl | hlt
    · refine iff_of_true hspace ?_
      rintro t ht ⟨i, j, hij, hle, -⟩
      obtain ⟨i', j', hspan, hlow', -⟩ := h.located t ht
      have heq := (hij.unique hspan).1
      omega
    · exact h.spaces k hlt hhigh

theorem cons (h : Covers chars mid stop tokens) {t : Token} (ht : Stands chars t start mid)
    (hle : mid ≤ stop) : Covers chars start stop (t :: tokens) where
  located := by
    refine List.forall_mem_cons.mpr ⟨⟨_, _, ht.spans, Nat.le_refl _, ht.lt, hle⟩, fun u hu => ?_⟩
    obtain ⟨i, j, hij, hlow, hwidth, hhigh⟩ := h.located u hu
    exact ⟨i, j, hij, Nat.le_trans (Nat.le_of_lt ht.lt) hlow, hwidth, hhigh⟩
  ordered := by
    refine List.pairwise_cons.mpr ⟨fun u hu i j k l hij hkl => ?_, h.ordered⟩
    obtain ⟨k', l', hspan, hlow, -⟩ := h.located u hu
    rw [← (ht.spans.unique hij).2, (hkl.unique hspan).1]
    exact hlow
  stands := by
    refine List.forall_mem_cons.mpr ⟨fun i j hij => ?_, h.stands⟩
    obtain ⟨rfl, rfl⟩ := hij.unique ht.spans
    exact ht
  spaces k hlow hhigh := by
    rw [List.forall_mem_cons]
    by_cases hk : k < mid
    · exact iff_of_false (ht.not_space hlow hk) fun hnone => hnone.1 ⟨_, _, ht.spans, hlow, hk⟩
    · rw [h.spaces k (Nat.not_lt.mp hk) hhigh]
      refine (and_iff_right ?_).symm
      rintro ⟨i, j, hij, -, hkj⟩
      rw [← (ht.spans.unique hij).2] at hkj
      exact hk hkj

end Covers

/-- A readable text is covered by its tokens, between a front that no run comes out of and a back
that none goes on into. -/
theorem Reads.covers {offset : Nat} {text : List Char} {tokens : List Token}
    (h : Reads offset text tokens) (front back : List Cluster) (hlen : front.length = offset)
    (hfront : front.getLast?.bind digit? = none ∨ NoDigit (singles text))
    (hback : Apart text back) :
    Covers (front ++ (singles text ++ back)) offset (offset + text.length) tokens := by
  have seam (front : List Cluster) (c : Char) (text : List Char) :
      front ++ (singles (c :: text) ++ back) = (front ++ [[c]]) ++ (singles text ++ back) := by
    rw [singles_cons, List.cons_append, List.append_cons]
  have found (front : List Cluster) (c : Char) (rest : List Cluster) :
      ((front ++ [[c]]) ++ rest)[front.length]? = some [c] := by
    rw [List.getElem?_append_left (by simp), List.getElem?_concat_length]
  -- what was read goes to the front, and the run of digits ahead stays whole
  induction h generalizing front with
  | nil offset => exact .nil _ offset
  | space _ ih =>
    subst hlen
    have hrest := ih (front ++ [[' ']]) List.length_append (.inl (by simp [digit?])) hback.of_cons
    rw [seam, offset_cons]
    exact hrest.space (found front ' ' _)
  | plus _ ih =>
    subst hlen
    have hrest := ih (front ++ [['+']]) List.length_append (.inl (by simp [digit?])) hback.of_cons
    rw [seam, offset_cons]
    exact hrest.cons (.plus (found front '+' _)) (Nat.le_add_right _ _)
  | minus _ ih =>
    subst hlen
    have hrest := ih (front ++ [['-']]) List.length_append (.inl (by simp [digit?])) hback.of_cons
    rw [seam, offset_cons]
    exact hrest.cons (.minus (found front '-' _)) (Nat.le_add_right _ _)
  | @literal offset digits text tokens hne hd hsafe whole _ ih =>
    subst hlen
    rw [singles_append] at hfront
    have hlast := hfront.resolve_right (not_noDigit hne hd _)
    have hrun := isRun_append hne hd hlast (noDigit_of_apart hne hd whole hback)
    have hrest := ih (front ++ singles digits) (by simp) (.inr whole) hback.of_append
    rw [List.append_assoc, ← List.append_assoc (singles digits), ← singles_append] at hrest
    rw [offset_append]
    exact hrest.cons (.number (by simpa using hrun) hsafe) (Nat.le_add_right _ _)

/-! ## What is covered -/

namespace Covers

variable {chars : List Cluster} {start stop : Nat} {tokens : List Token}
  (h : Covers chars start stop tokens)

include h

theorem stop_le {m n : Nat} {a b : Token} (ha : tokens[m]? = some a) (hb : tokens[n]? = some b)
    (hlt : m < n) {i j k l : Nat} (hij : a.Spans i j) (hkl : b.Spans k l) : j ≤ k := by
  obtain ⟨hm, rfl⟩ := List.getElem?_eq_some_iff.mp ha
  obtain ⟨hn, rfl⟩ := List.getElem?_eq_some_iff.mp hb
  exact List.pairwise_iff_getElem.mp h.ordered m n hm hn hlt i j k l hij hkl

theorem isRun {x : Binary64} {span : Option Span} (hx : .number x span ∈ tokens) :
    ∃ (k : Nat) (digits : List Char), (Token.number x span).Spans k (k + digits.length) ∧
      IsRun chars k digits ∧ x.toInt? = some (ofDigits digits : Int) ∧ x.isSafeNatural = true := by
  obtain ⟨i, j, hij, -⟩ := h.located _ hx
  cases h.stands _ hx i j hij with
  | @number i digits run safe =>
    have hvalue := safeInt?_ofNat safe
    exact ⟨i, digits, rfl, run, (safeInt?_eq_some_iff.mp hvalue).1,
      isSafeNatural_iff.mpr ⟨_, hvalue⟩⟩

theorem plain_or_run {k : Nat} {c : Cluster} (hlow : start ≤ k) (hhigh : k < stop)
    (hc : chars[k]? = some c) :
    (∃ d, c = [d] ∧ IsPlain d ∧ d.isDigit = false) ∨
      ∃ i digits, IsRun chars i digits ∧ ofDigits digits ≤ safeLimit ∧ i ≤ k ∧
        k < i + digits.length := by
  by_cases hspace : chars[k]? = some [' ']
  · exact .inl ⟨' ', Option.some.inj (hc.symm.trans hspace), .inr (.inr (.inr rfl)), rfl⟩
  · have htaken := mt (h.spaces k hlow hhigh).mpr hspace
    simp only [not_forall, not_not] at htaken
    obtain ⟨t, ht, i, j, hij, hle, hlt⟩ := htaken
    obtain ⟨d, hd, hsign⟩ := (h.stands t ht i j hij).taken hle hlt
    obtain rfl := Option.some.inj (hc.symm.trans hd)
    rcases hsign with rfl | rfl | ⟨-, digits, run, safe, rfl⟩
    · exact .inl ⟨'+', rfl, .inr (.inl rfl), rfl⟩
    · exact .inl ⟨'-', rfl, .inr (.inr (.inl rfl)), rfl⟩
    · exact .inr ⟨i, digits, run, safe, hle, hlt⟩

/-- From the end of a token to the start of the next there are only spaces. -/
theorem gap {m : Nat} {a b : Token} (ha : tokens[m]? = some a) (hb : tokens[m + 1]? = some b)
    {i j k l : Nat} (hij : a.Spans i j) (hkl : b.Spans k l) {p : Nat} (hjp : j ≤ p) (hpk : p < k) :
    chars[p]? = some [' '] := by
  obtain ⟨i', j', hspan, hlow, hwidth, -⟩ := h.located a (List.mem_of_getElem? ha)
  obtain ⟨k', l', hspan', -, hwidth', hhigh⟩ := h.located b (List.mem_of_getElem? hb)
  obtain ⟨rfl, rfl⟩ := hspan.unique hij
  obtain ⟨rfl, rfl⟩ := hspan'.unique hkl
  refine (h.spaces p (by omega) (by omega)).mpr ?_
  rintro t ht ⟨first, last, hspan'', hle, hlt⟩
  obtain ⟨n, hn⟩ := List.getElem?_of_mem ht
  rcases Nat.lt_trichotomy n m with hnm | rfl | hmn
  · have hbefore := h.stop_le hn ha hnm hspan'' hij
    omega
  · obtain rfl := Option.some.inj (hn.symm.trans ha)
    have hstop := (hspan''.unique hij).2
    omega
  · rcases Nat.eq_or_lt_of_le hmn with rfl | hlater
    · obtain rfl := Option.some.inj (hn.symm.trans hb)
      have hstart := (hspan''.unique hkl).1
      omega
    · have hbehind := h.stop_le hb hn hlater hkl hspan''
      omega

/-- A number ends where it does because no digit follows, so the next one begins further on. -/
theorem separated {m : Nat} {x y : Binary64} {p q : Option Span}
    (hx : tokens[m]? = some (.number x p)) (hy : tokens[m + 1]? = some (.number y q))
    {i j k l : Nat} (hij : (Token.number x p).Spans i j) (hkl : (Token.number y q).Spans k l) :
    j < k ∧ chars[j]? = some [' '] := by
  obtain ⟨i', digits, hspan, hrun, -⟩ := h.isRun (List.mem_of_getElem? hx)
  obtain ⟨k', others, hspan', hrun', -⟩ := h.isRun (List.mem_of_getElem? hy)
  obtain ⟨rfl, rfl⟩ := hij.unique hspan
  obtain ⟨rfl, rfl⟩ := hkl.unique hspan'
  obtain ⟨d, hd, hdigit⟩ := hrun'.head
  have hlt : i + digits.length < k := by
    rcases Nat.eq_or_lt_of_le (h.stop_le hx hy (Nat.lt_succ_self m) hij hkl) with heq | hlt
    · have hafter := hrun.after
      rw [heq, hd, Option.bind_some, digit?_of_isDigit hdigit] at hafter
      cases hafter
    · exact hlt
  exact ⟨hlt, h.gap hx hy hij hkl (Nat.le_refl _) hlt⟩

end Covers

/-! ## The only tokens that cover a text -/

namespace Covers

variable {chars : List Cluster} {start stop i j : Nat} {t : Token} {tokens : List Token}

theorem tail (h : Covers chars start stop (t :: tokens)) (hij : t.Spans i j) :
    Covers chars j stop tokens where
  located u hu := by
    obtain ⟨k, l, hkl, -, hwidth, hhigh⟩ := h.located u (List.mem_cons_of_mem t hu)
    exact ⟨k, l, hkl, (List.pairwise_cons.mp h.ordered).1 u hu i j k l hij hkl, hwidth, hhigh⟩
  ordered := (List.pairwise_cons.mp h.ordered).2
  stands u hu := h.stands u (List.mem_cons_of_mem t hu)
  spaces k hlow hhigh := by
    obtain ⟨i', j', hspan, hstart, hwidth, -⟩ := h.located t (List.mem_cons_self ..)
    obtain ⟨rfl, rfl⟩ := hspan.unique hij
    rw [h.spaces k (by omega) hhigh, List.forall_mem_cons]
    refine and_iff_right ?_
    rintro ⟨k', l', hspan', -, hlt⟩
    have hstop := (hspan'.unique hspan).2
    omega

/-- Before the first token there are only spaces. -/
theorem before (h : Covers chars start stop (t :: tokens)) (hij : t.Spans i j) {k : Nat}
    (hlow : start ≤ k) (hk : k < i) : chars[k]? = some [' '] := by
  obtain ⟨i', j', hspan, -, hwidth, hhigh⟩ := h.located t (List.mem_cons_self ..)
  obtain ⟨rfl, rfl⟩ := hspan.unique hij
  refine (h.spaces k hlow (by omega)).mpr (List.forall_mem_cons.mpr ⟨?_, ?_⟩)
  · rintro ⟨k', l', hspan', hle, -⟩
    have hstart := (hspan'.unique hspan).1
    omega
  · rintro u hu ⟨k', l', hspan', hle, -⟩
    have hbehind := (List.pairwise_cons.mp h.ordered).1 u hu _ _ _ _ hij hspan'
    omega

theorem exists_first (h : Covers chars start stop (t :: tokens)) :
    ∃ i j, Stands chars t i j ∧ start ≤ i ∧ i < stop := by
  have ht := List.mem_cons_self (a := t) (l := tokens)
  obtain ⟨i, j, hij, hlow, hwidth, hhigh⟩ := h.located t ht
  exact ⟨i, j, h.stands t ht i j hij, hlow, Nat.lt_of_lt_of_le hwidth hhigh⟩

theorem eq_nil (h : Covers chars start stop []) {others : List Token}
    (h' : Covers chars start stop others) : others = [] := by
  cases others with
  | nil => rfl
  | cons u others =>
    obtain ⟨k, l, hu, hlow, hhigh⟩ := h'.exists_first
    exact absurd ((h.spaces k hlow hhigh).mpr (List.forall_mem_nil _))
      (hu.not_space (Nat.le_refl k) hu.lt)

theorem unique {others : List Token} (h : Covers chars start stop tokens)
    (h' : Covers chars start stop others) : tokens = others := by
  -- the next token of either list begins at the first character that is no space
  induction tokens generalizing start others with
  | nil => exact (h.eq_nil h').symm
  | cons t tokens ih =>
    cases others with
    | nil => exact h'.eq_nil h
    | cons u others =>
      obtain ⟨i, j, ht, hlow, -⟩ := h.exists_first
      obtain ⟨k, l, hu, hlow', -⟩ := h'.exists_first
      rcases Nat.lt_trichotomy i k with hlt | rfl | hgt
      · exact absurd (h'.before hu.spans hlow hlt) (ht.not_space (Nat.le_refl i) ht.lt)
      · obtain rfl := ht.unique hu
        rw [ih (h.tail ht.spans) (h'.tail ht.spans)]
      · exact absurd (h.before ht.spans hlow' hgt) (hu.not_space (Nat.le_refl k) hu.lt)

end Covers

end RunningTotal
