import RunningTotal.Error
import RunningTotal.Steps

/-! Scanning text into tokens. A `Scanner` is a place in the characters of one input; every operation
gives the scanner it leaves behind, after a failure too, so a caller can go on from there.
`tokens` reads to the end: spaces are skipped, digits are read as long as they last, and the first
other character stops it. Each round takes at least one character (`lexeme_shorter`). `run` performs
operations in any order. -/
set_option autoImplicit false

namespace RunningTotal

/-- `rest` is what lies ahead after `offset` characters of `input`. -/
structure Scanner where
  input : String
  offset : Nat
  rest : List Cluster

inductive ScanError where
  | stray (error : StrayCharacter)
  | bounds (error : BoundsError)
  | misuse (error : Misuse)
  deriving DecidableEq

/-- The value of a character that is a single decimal digit. -/
def digit? : Cluster → Option Nat
  | [c] => if c.isDigit then some (c.toNat - '0'.toNat) else none
  | _ => none

/-- Whether a further digit takes a literal past the safe range: ten times `value` and the digit is
compared through the quotient, which stays in range itself. -/
def overflows (value : Binary64) (digit : Nat) : Bool :=
  ((Binary64.ofNat Binary64.safeLimit - Binary64.ofNat digit) / Binary64.ofNat 10).lt value

namespace Scanner

def ofString (input : String) : Scanner := ⟨input, 0, characters input⟩

/-! ## One character -/

def head? (s : Scanner) : Option Cluster := s.rest.head?

def skip (s : Scanner) : Except Misuse Unit × Scanner :=
  match s.rest with
  | [] => (.error .pastEnd, s)
  | _ :: rest => (.ok (), { s with offset := s.offset + 1, rest := rest })

theorem skip_shorter {s t : Scanner} (h : s.skip = (.ok (), t)) :
    t.rest.length < s.rest.length := by
  unfold skip at h
  split at h
  · simp at h
  · rename_i hr
    simp only [Prod.mk.injEq, true_and] at h
    rw [← h, hr]
    exact Nat.lt_succ_self _

/-! ## A literal -/

/-- Reads on from a literal that began at `start` and has come to `value`. -/
def numberFrom (start : Offset) (value : Binary64) (s : Scanner) :
    Except ScanError Binary64 × Scanner :=
  match s.head?.bind digit? with
  | none => (.ok value, s)
  | some d =>
    if overflows value d then (.error (.bounds ⟨.literal start, s.input, some start⟩), s)
    else
      match _h : s.skip with
      | (.error e, t) => (.error (.misuse e), t)
      | (.ok (), t) => numberFrom start (value * Binary64.ofNat 10 + Binary64.ofNat d) t
termination_by s.rest.length
decreasing_by exact skip_shorter ‹_›

/-- The run of digits ahead as a number, zero if there is none. -/
def number (s : Scanner) : Except ScanError Binary64 × Scanner :=
  numberFrom s.offset (Binary64.zero false) s

theorem numberFrom_le (start : Offset) (value : Binary64) (s : Scanner) :
    (numberFrom start value s).2.rest.length ≤ s.rest.length := by
  fun_induction numberFrom start value s with
  | case1 => exact Nat.le_refl _
  | case2 => exact Nat.le_refl _
  | case3 value s d _ _ e t h =>
    unfold skip at h
    split at h
    · simp only [Prod.mk.injEq] at h
      obtain ⟨_, rfl⟩ := h
      exact Nat.le_refl _
    · simp at h
  | case4 value s d _ _ t h ih => exact Nat.le_trans ih (Nat.le_of_lt (skip_shorter h))

/-- Where a digit lies ahead, a literal that is read takes it. -/
theorem number_shorter {s t : Scanner} {value : Binary64}
    (hd : (s.head?.bind digit?).isSome) (h : s.number = (.ok value, t)) :
    t.rest.length < s.rest.length := by
  obtain ⟨d, hd⟩ := Option.isSome_iff_exists.mp hd
  unfold number at h
  rw [numberFrom, hd] at h
  simp only at h
  split at h
  · simp at h
  · split at h
    · simp at h
    · rename_i u hu
      have hle := numberFrom_le s.offset (Binary64.zero false * Binary64.ofNat 10 + Binary64.ofNat d) u
      rw [h] at hle
      exact Nat.lt_of_le_of_lt hle (skip_shorter hu)

/-! ## All tokens -/

/-- Takes the character ahead as what `found` makes of its span. -/
def single (s : Scanner) (found : Span → Option Token) : Except ScanError (Option Token) × Scanner :=
  match s.skip with
  | (.error e, t) => (.error (.misuse e), t)
  | (.ok (), t) => (.ok (found ⟨s.offset, t.offset⟩), t)

theorem single_shorter {s t : Scanner} {found : Span → Option Token} {token : Option Token}
    (h : s.single found = (.ok token, t)) : t.rest.length < s.rest.length := by
  unfold single at h
  split at h
  · simp at h
  · rename_i u hu
    simp only [Prod.mk.injEq] at h
    rw [← h.2]
    exact skip_shorter hu

/-- The token or space ahead: `none` is a space. -/
def lexeme (c : Cluster) (s : Scanner) : Except ScanError (Option Token) × Scanner :=
  if (digit? c).isSome then
    match s.number with
    | (.error e, t) => (.error e, t)
    | (.ok value, t) =>
      ((Token.number? value (some ⟨s.offset, t.offset⟩)).mapError ScanError.misuse |>.map some, t)
  else if c = ['+'] then s.single fun span => some (.plus (some span))
  else if c = ['-'] then s.single fun span => some (.minus (some span))
  else if c = [' '] then s.single fun _ => none
  else (.error (.stray ⟨c, s.input, s.offset⟩), s)

theorem lexeme_shorter {c : Cluster} {s t : Scanner} {found : Option Token}
    (hc : s.head? = some c) (h : s.lexeme c = (.ok found, t)) : t.rest.length < s.rest.length := by
  unfold lexeme at h
  split at h
  · rename_i hd
    split at h
    · simp at h
    · rename_i value u hu
      simp only [Prod.mk.injEq] at h
      rw [← h.2]
      exact number_shorter (by rw [hc]; exact hd) hu
  · split at h
    · exact single_shorter h
    · split at h
      · exact single_shorter h
      · split at h
        · exact single_shorter h
        · simp at h

/-- Reads on to the end; `done` is what was read so far, newest first. -/
def tokensFrom (done : List Token) (s : Scanner) : Except ScanError (List Token) × Scanner :=
  match _hc : s.head? with
  | none => (.ok done.reverse, s)
  | some c =>
    match _h : s.lexeme c with
    | (.error e, t) => (.error e, t)
    | (.ok found, t) => tokensFrom (found.toList ++ done) t
termination_by s.rest.length
decreasing_by exact lexeme_shorter ‹_› ‹_›

/-- The tokens from here to the end of the input. -/
def tokens (s : Scanner) : Except ScanError (List Token) × Scanner := s.tokensFrom []

/-! ## Operations in any order -/

inductive Operation where
  | head
  | skip
  | number
  | tokens
  deriving DecidableEq

inductive Reply where
  | head (character : Option Cluster)
  | skip (result : Except Misuse Unit)
  | number (result : Except ScanError Binary64)
  | tokens (result : Except ScanError (List Token))

def perform (s : Scanner) : Operation → Reply × Scanner
  | .head => (.head s.head?, s)
  | .skip => (.skip s.skip.1, s.skip.2)
  | .number => (.number s.number.1, s.number.2)
  | .tokens => (.tokens s.tokens.1, s.tokens.2)

/-- Each reply with the scanner after it. -/
def run (s : Scanner) (operations : List Operation) : List (Reply × Scanner) :=
  Steps.run perform s operations

end Scanner

/-- The tokens of a text. -/
def Token.scan (input : String) : Except ScanError (List Token) := (Scanner.ofString input).tokens.1

end RunningTotal
