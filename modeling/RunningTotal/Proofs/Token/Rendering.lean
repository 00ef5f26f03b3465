import RunningTotal.Proofs.Token.Reading

/-! Tokens written and read again. `scan_render` gives what rendered tokens are scanned to: themselves,
each at the place where it was written. A text that is scanned and rendered comes back as it was
just when it was in normal form (`render_eq_iff`). -/
set_option autoImplicit false

namespace RunningTotal

open Binary64

namespace Token

/-- The token without its place. -/
def bare : Token → Token
  | .number x _ => .number x none
  | .plus _ => .plus none
  | .minus _ => .minus none

/-- Tokens that `number?` makes, and operators. -/
def IsSafe : Token → Prop
  | .number x _ => x.isSafeNatural = true
  | .plus _ | .minus _ => True

/-- The token as it is read where it was written; minus zero is written without its sign. -/
def readAt (start : Nat) (t : Token) : Token :=
  let span : Option Span := some ⟨start, start + t.written.length⟩
  match t with
  | .number x _ => .number (if x = zero true then zero false else x) span
  | .plus _ => .plus span
  | .minus _ => .minus span

/-- Where the token at index `i` begins when the tokens are rendered. -/
def startOf (tokens : List Token) (i : Nat) : Nat :=
  ((tokens.take i).map fun t => t.written.length).sum + i

def relocated (tokens : List Token) : List Token :=
  tokens.mapIdx fun i t => t.readAt (startOf tokens i)

theorem startOf_succ (t : Token) (tokens : List Token) (i : Nat) :
    startOf (t :: tokens) (i + 1) = t.written.length + 1 + startOf tokens i := by
  simp only [startOf, List.take_succ_cons, List.map_cons, List.sum_cons]
  omega

end Token

/-! ## Reading what was rendered -/

theorem written_number {x : Binary64} {n : Nat} (h : x.safeInt? = some (n : Int))
    (span : Option Span) : (Token.number x span).written = decimal n := by
  have hnumeral : x.numeral = decimalInt n := by
    unfold numeral
    rw [h]
  rw [Token.written, hnumeral, decimalInt, if_neg (by omega), Int.natAbs_natCast]

theorem unsigned_eq_ofNat {x : Binary64} {n : Nat} (h : x.safeInt? = some (n : Int)) :
    (if x = zero true then zero false else x) = ofNat n := by
  split
  · rename_i hx
    have hzero : (zero true).safeInt? = some 0 := by decide +kernel
    rw [hx, hzero] at h
    obtain rfl : n = 0 := (Int.natCast_inj.mp (Option.some.inj h)).symm
    exact ofNat_zero.symm
  · rename_i hx
    rw [eq_ofInt h hx, ofInt_natCast]

theorem Reads.written {offset : Nat} {t : Token} (ht : t.IsSafe) {text : List Char}
    {tokens : List Token} (h : Reads (offset + t.written.length) text tokens)
    (hend : NoDigit (singles text)) : Reads offset (t.written ++ text) (t.readAt offset :: tokens) := by
  cases t with
  | plus span => exact .plus h
  | minus span => exact .minus h
  | number x span =>
    obtain ⟨n, hn⟩ := isSafeNatural_iff.mp ht
    have hsafe := (safeInt?_eq_some_iff.mp hn).2
    rw [written_number hn] at h
    have hliteral := Reads.literal (decimal_ne_nil n) (isDigit_of_mem_decimal n)
      (by rw [ofDigits_decimal]; omega) hend h
    rw [ofDigits_decimal] at hliteral
    rw [Token.readAt, unsigned_eq_ofNat hn, written_number hn]
    exact hliteral

theorem reads_intercalate (offset : Nat) (t : Token) (tokens : List Token)
    (h : ∀ u ∈ t :: tokens, u.IsSafe) :
    Reads offset ([' '].intercalate ((t :: tokens).map Token.written))
      ((t :: tokens).mapIdx fun i u => u.readAt (offset + Token.startOf (t :: tokens) i)) := by
  induction tokens generalizing offset t with
  | nil =>
    have hword := Reads.written (h t (List.mem_cons_self ..)) (.nil (offset + t.written.length)) rfl
    rw [List.append_nil] at hword
    rw [List.map_singleton, List.intercalate_singleton]
    exact hword
  | cons u tokens ih =>
    have hrest := ih (offset + t.written.length + 1) u (fun v hv => h v (List.mem_cons_of_mem t hv))
    have hword := Reads.written (h t (List.mem_cons_self ..)) hrest.space rfl
    have hindex (i : Nat) : offset + Token.startOf (t :: u :: tokens) (i + 1) =
        offset + t.written.length + 1 + Token.startOf (u :: tokens) i := by
      rw [Token.startOf_succ]
      omega
    rw [List.mapIdx_cons, List.map_cons, List.map_cons, List.intercalate_cons_cons,
      List.append_assoc]
    simp only [hindex]
    exact hword

theorem reads_render (tokens : List Token) (h : ∀ t ∈ tokens, t.IsSafe) :
    Reads 0 (Token.render tokens).toList (Token.relocated tokens) := by
  rw [Token.render, String.toList_ofList]
  cases tokens with
  | nil => exact .nil 0
  | cons t tokens =>
    have hreads := reads_intercalate 0 t tokens h
    simp only [Nat.zero_add] at hreads
    exact hreads

theorem scan_render {tokens : List Token} (h : ∀ t ∈ tokens, t.IsSafe) :
    Token.scan (Token.render tokens) = .ok (Token.relocated tokens) :=
  scan_of_reads (reads_render tokens h)

/-! ## Tokens that were scanned -/

theorem Reads.isSafe {offset : Nat} {text : List Char} {tokens : List Token}
    (h : Reads offset text tokens) : ∀ t ∈ tokens, t.IsSafe := by
  intro t ht
  cases t with
  | plus => trivial
  | minus => trivial
  | number x span =>
    obtain ⟨n, rfl, hn⟩ := h.exists_ofNat ht
    exact isSafeNatural_iff.mpr ⟨n, safeInt?_ofNat hn⟩

theorem Token.bare_readAt {t : Token} (start : Nat) (h : ∀ span, t ≠ .number (zero true) span) :
    (t.readAt start).bare = t.bare := by
  cases t with
  | plus => rfl
  | minus => rfl
  | number x span =>
    have hx : x ≠ zero true := fun hx => h span (by rw [hx])
    rw [Token.readAt, if_neg hx]
    rfl

/-- None of them is minus zero, so relocation changes places only. -/
theorem Reads.bare_relocated {offset : Nat} {text : List Char} {tokens : List Token}
    (h : Reads offset text tokens) :
    (Token.relocated tokens).map Token.bare = tokens.map Token.bare := by
  have hne : ∀ t ∈ tokens, ∀ span, t ≠ .number (zero true) span := by
    rintro t ht span rfl
    obtain ⟨n, hn, -⟩ := h.exists_ofNat ht
    rw [← ofInt_natCast] at hn
    exact ofInt_ne_zero_true n hn.symm
  apply List.ext_getElem
  · rw [List.length_map, List.length_map, Token.relocated, List.length_mapIdx]
  · intro i hi hj
    simp only [Token.relocated, List.getElem_map, List.getElem_mapIdx]
    exact Token.bare_readAt _ (hne _ (List.getElem_mem _))

theorem Token.written_bare (t : Token) : t.bare.written = t.written := by cases t <;> rfl

theorem Token.render_congr {tokens others : List Token}
    (h : tokens.map Token.bare = others.map Token.bare) :
    Token.render tokens = Token.render others := by
  have hwritten (tokens : List Token) :
      tokens.map Token.written = (tokens.map Token.bare).map Token.written := by
    rw [List.map_map]
    exact List.map_congr_left fun t _ => t.written_bare.symm
  rw [Token.render, Token.render, hwritten tokens, hwritten others, h]

/-! ## The normal form -/

/-- The words, each behind a space. -/
def behindSpaces (words : List (List Char)) : List Char := words.flatMap fun w => ' ' :: w

theorem intercalate_cons (w : List Char) (words : List (List Char)) :
    [' '].intercalate (w :: words) = w ++ behindSpaces words := by
  induction words generalizing w with
  | nil => simp [behindSpaces]
  | cons v words ih =>
    rw [List.intercalate_cons_cons, ih]
    simp [behindSpaces]

theorem noDigit_behindSpaces (words : List (List Char)) :
    NoDigit (singles (behindSpaces words)) := by
  cases words with
  | nil => rfl
  | cons w words => rfl

/-- A sign, or a literal without a superfluous zero in front. -/
def IsWord (w : List Char) : Prop := w = ['+'] ∨ w = ['-'] ∨ IsNumeral w

/-- Words with one space between each two, and no other spaces. -/
def IsNormal (text : String) : Prop :=
  ∃ words, (∀ w ∈ words, IsWord w) ∧ text.toList = [' '].intercalate words

theorem Reads.isWord {offset : Nat} {text : List Char} {tokens : List Token}
    (h : Reads offset text tokens) {t : Token} (ht : t ∈ tokens) : IsWord t.written := by
  cases t with
  | plus => exact .inl rfl
  | minus => exact .inr (.inl rfl)
  | number x span =>
    obtain ⟨n, rfl, hn⟩ := h.exists_ofNat ht
    rw [written_number (safeInt?_ofNat hn)]
    exact .inr (.inr (isNumeral_decimal n))

theorem IsWord.exists_cons {w : List Char} (h : IsWord w) : ∃ c rest, w = c :: rest ∧ c ≠ ' ' := by
  rcases h with rfl | rfl | h
  · exact ⟨'+', [], rfl, by decide⟩
  · exact ⟨'-', [], rfl, by decide⟩
  · cases w with
    | nil => exact absurd rfl h.ne_nil
    | cons c rest =>
      refine ⟨c, rest, rfl, ?_⟩
      rintro rfl
      have hspace := h.isDigit ' ' (List.mem_cons_self ..)
      cases hspace

theorem IsWord.eq_of_sign {w text text' : List Char} {c : Char} (h : IsWord w)
    (hc : c.isDigit = false) (hw : c :: text = w ++ text') : w = [c] ∧ text = text' := by
  rcases h with rfl | rfl | h
  · obtain ⟨rfl, htext⟩ := List.cons.inj hw
    exact ⟨rfl, htext⟩
  · obtain ⟨rfl, htext⟩ := List.cons.inj hw
    exact ⟨rfl, htext⟩
  · cases w with
    | nil => exact absurd rfl h.ne_nil
    | cons d rest =>
      obtain ⟨rfl, -⟩ := List.cons.inj hw
      rw [h.isDigit c (List.mem_cons_self ..)] at hc
      cases hc

theorem IsWord.eq_of_digits {w digits text text' : List Char} (h : IsWord w) (hne : digits ≠ [])
    (hd : ∀ c ∈ digits, c.isDigit = true) (ht : NoDigit (singles text))
    (ht' : NoDigit (singles text')) (hw : digits ++ text = w ++ text') :
    IsNumeral w ∧ digits = w ∧ text = text' := by
  have sign {c : Char} (hc : c.isDigit = false) (hw : digits ++ text = [c] ++ text') : False := by
    cases digits with
    | nil => exact hne rfl
    | cons d digits =>
      obtain ⟨rfl, -⟩ := List.cons.inj hw
      rw [hd d (List.mem_cons_self ..)] at hc
      cases hc
  rcases h with rfl | rfl | h
  · exact (sign rfl hw).elim
  · exact (sign rfl hw).elim
  · exact ⟨h, RunningTotal.eq_of_digits hw hd h.isDigit ht ht'⟩

theorem behindSpaces_ne {c : Char} (hc : c ≠ ' ') (text : List Char) (words : List (List Char)) :
    c :: text ≠ behindSpaces words := by
  intro h
  cases words with
  | nil => cases h
  | cons w words => exact hc (List.cons.inj h).1

theorem Reads.written_eq {offset : Nat} {text : List Char} {tokens : List Token}
    (h : Reads offset text tokens) {words : List (List Char)} (hwords : ∀ w ∈ words, IsWord w) :
    (text = behindSpaces words → tokens.map Token.written = words) ∧
      ∀ w, IsWord w → text = w ++ behindSpaces words → tokens.map Token.written = w :: words := by
  have signed {text : List Char} {tokens : List Token} {t : Token} {c : Char}
      (hc : c ≠ ' ') (hdigit : c.isDigit = false) (ht : t.written = [c])
      {words : List (List Char)}
      (ih : text = behindSpaces words → tokens.map Token.written = words) :
      (c :: text = behindSpaces words → (t :: tokens).map Token.written = words) ∧
        ∀ w, IsWord w → c :: text = w ++ behindSpaces words →
          (t :: tokens).map Token.written = w :: words := by
    refine ⟨fun htext => absurd htext (behindSpaces_ne hc text words), ?_⟩
    intro w hw htext
    obtain ⟨rfl, hrest⟩ := hw.eq_of_sign hdigit htext
    rw [List.map_cons, ht, ih hrest]
  -- a space leads from the first statement to the second, a token from the second to the first
  induction h generalizing words with
  | nil =>
    constructor
    · intro htext
      cases words with
      | nil => rfl
      | cons w words => cases htext
    · intro w hw htext
      obtain ⟨c, rest, rfl, -⟩ := hw.exists_cons
      cases htext
  | space _ ih =>
    constructor
    · intro htext
      cases words with
      | nil => cases htext
      | cons w words =>
        have hrest : ∀ v ∈ words, IsWord v := fun v hv => hwords v (List.mem_cons_of_mem w hv)
        exact (ih hrest).2 w (hwords w (List.mem_cons_self ..)) (List.cons.inj htext).2
    · intro w hw htext
      obtain ⟨c, rest, rfl, hc⟩ := hw.exists_cons
      exact absurd (List.cons.inj htext).1.symm hc
  | plus _ ih => exact signed (by decide) rfl rfl (ih hwords).1
  | minus _ ih => exact signed (by decide) rfl rfl (ih hwords).1
  | @literal offset digits text tokens hne hd hsafe whole _ ih =>
    constructor
    · intro htext
      cases digits with
      | nil => exact absurd rfl hne
      | cons c digits =>
        have hc : c ≠ ' ' := by
          rintro rfl
          have hspace := hd ' ' (List.mem_cons_self ..)
          cases hspace
        exact absurd htext (behindSpaces_ne hc _ words)
    · intro w hw htext
      obtain ⟨hnumeral, rfl, hrest⟩ :=
        hw.eq_of_digits hne hd whole (noDigit_behindSpaces words) htext
      rw [List.map_cons, written_number (safeInt?_ofNat hsafe), decimal_ofDigits hnumeral,
        (ih hwords).1 hrest]

theorem render_eq_iff {text : String} {tokens : List Token} (h : Reads 0 text.toList tokens) :
    Token.render tokens = text ↔ IsNormal text := by
  constructor
  · intro hrender
    refine ⟨tokens.map Token.written, ?_, ?_⟩
    · intro w hw
      obtain ⟨t, ht, rfl⟩ := List.mem_map.mp hw
      exact h.isWord ht
    · rw [← hrender, Token.render, String.toList_ofList]
  · rintro ⟨words, hwords, htext⟩
    have hwritten : tokens.map Token.written = words := by
      cases words with
      | nil => exact (h.written_eq hwords).1 htext
      | cons w words =>
        rw [intercalate_cons] at htext
        have hrest : ∀ v ∈ words, IsWord v := fun v hv => hwords v (List.mem_cons_of_mem w hv)
        exact (h.written_eq hrest).2 w (hwords w (List.mem_cons_self ..)) htext
    rw [Token.render, hwritten, ← htext, String.ofList_toList]

end RunningTotal
