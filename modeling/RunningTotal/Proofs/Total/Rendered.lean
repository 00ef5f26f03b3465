import Mathlib.Data.List.Forall2
import RunningTotal.Proofs.Token.Rendering
import RunningTotal.Proofs.Total.Exact

/-! Totals of rendered tokens. The places of tokens have no part in a total: token lists that differ in
places only come to alike results (`alike_total`), an error being about the token at the same
index. With what rendered tokens are scanned to, `render_scan_total` says how rendering and
scanning undo each other and that the total does not notice. -/
set_option autoImplicit false

namespace RunningTotal

open Binary64

/-- The tokens have the same index in two lists, and no more than a different place. -/
def Matches (tokens others : List Token) (t u : Token) : Prop :=
  t.bare = u.bare ∧ (t, u) ∈ tokens.zip others

/-- The results are the same up to the place of the token that an error is about. -/
inductive Alike (tokens others : List Token) :
    Except TotalError Binary64 → Except TotalError Binary64 → Prop
  | ok (v : Binary64) : Alike tokens others (.ok v) (.ok v)
  | endOfInput :
      Alike tokens others (.error (.grammar .endOfInput)) (.error (.grammar .endOfInput))
  | unexpected {t u : Token} (same : Matches tokens others t u) :
      Alike tokens others (.error (.grammar (.unexpected t))) (.error (.grammar (.unexpected u)))
  | bounds {t u : Token} (cause : BoundsError.Cause) (same : Matches tokens others t u) :
      Alike tokens others (.error (.bounds ⟨cause, Token.render tokens, t.start?⟩))
        (.error (.bounds ⟨cause, Token.render others, u.start?⟩))

theorem forall₂_matches {tokens others : List Token}
    (h : tokens.map Token.bare = others.map Token.bare) :
    List.Forall₂ (Matches tokens others) tokens others := by
  have hbare : List.Forall₂ (fun t u => t.bare = u.bare) tokens others := by
    rw [← List.forall₂_eq_eq_eq, List.forall₂_map_left_iff, List.forall₂_map_right_iff] at h
    exact h
  obtain ⟨hlength, hzip⟩ := List.forall₂_iff_zip.mp hbare
  exact List.forall₂_iff_zip.mpr ⟨hlength, fun hmem => ⟨hzip hmem, hmem⟩⟩

theorem sign?_bare (t : Token) : t.bare.sign? = t.sign? := by cases t <;> rfl

theorem sign?_eq_of_bare {t u : Token} (h : t.bare = u.bare) : t.sign? = u.sign? := by
  rw [← sign?_bare t, h, sign?_bare]

/-! ## Two accumulators side by side -/

variable {tokens others : List Token}

/-- Both operations succeed alike, with less than `n` tokens ahead, or fail alike. -/
inductive Lockstep (tokens others : List Token) (n : Nat) :
    Except TotalError Binary64 × Accumulator → Except TotalError Binary64 × Accumulator → Prop
  | ok (x : Binary64) (taken : Nat) {rest rest' : List Token}
      (ahead : List.Forall₂ (Matches tokens others) rest rest') (shorter : rest.length < n) :
      Lockstep tokens others n (.ok x, ⟨tokens, taken, rest⟩) (.ok x, ⟨others, taken, rest'⟩)
  | error {e e' : TotalError} {a b : Accumulator}
      (alike : Alike tokens others (.error e) (.error e')) :
      Lockstep tokens others n (.error e, a) (.error e', b)

namespace Accumulator

theorem lockstep_operand {rest rest' : List Token}
    (h : List.Forall₂ (Matches tokens others) rest rest') (taken : Nat) :
    Lockstep tokens others rest.length (operand ⟨tokens, taken, rest⟩)
      (operand ⟨others, taken, rest'⟩) := by
  cases h with
  | nil => exact .error .endOfInput
  | @cons t u rest rest' hsame hrest =>
    cases hsign : t.sign? with
    | some sign =>
      rw [operand_operator tokens taken hsign, operand_operator others taken
        ((sign?_eq_of_bare hsame.1).symm.trans hsign)]
      exact .error (.unexpected hsame)
    | none =>
      cases t with
      | plus => cases hsign
      | minus => cases hsign
      | number x span =>
        obtain ⟨span', rfl⟩ : ∃ span', u = .number x span' := by
          cases u <;> cases hsame.1
          exact ⟨_, rfl⟩
        rw [operand_number, operand_number]
        split
        · exact .ok x _ hrest (Nat.lt_succ_self _)
        · exact .error (.bounds _ hsame)

theorem lockstep_apply {t u : Token} {rest rest' : List Token} (hsame : Matches tokens others t u)
    (h : List.Forall₂ (Matches tokens others) rest rest') (value : Binary64) (taken : Nat) :
    Lockstep tokens others rest.length (apply value t ⟨tokens, taken, rest⟩)
      (apply value u ⟨others, taken, rest'⟩) := by
  cases hsign : t.sign? with
  | none =>
    cases t with
    | plus => cases hsign
    | minus => cases hsign
    | number x span =>
      cases u with
      | plus => cases hsame.1
      | minus => cases hsame.1
      | number y span' => exact .error (.unexpected hsame)
  | some sign =>
    rw [apply_operator hsign, apply_operator ((sign?_eq_of_bare hsame.1).symm.trans hsign)]
    -- the two results are generalised for the case analysis on their lockstep
    have hoperand := lockstep_operand h taken
    revert hoperand
    generalize operand ⟨tokens, taken, rest⟩ = p, operand ⟨others, taken, rest'⟩ = q
    intro hoperand
    cases hoperand with
    | error halike => exact .error halike
    | ok x taken hback hshorter =>
      simp only [apply.step]
      split
      · exact .ok _ _ hback hshorter
      · exact .error (.bounds _ hsame)

theorem alike_totalFrom {rest rest' : List Token}
    (h : List.Forall₂ (Matches tokens others) rest rest') (value : Binary64) (taken : Nat) :
    Alike tokens others (totalFrom value ⟨tokens, taken, rest⟩).1
      (totalFrom value ⟨others, taken, rest'⟩).1 := by
  induction hk : rest.length using Nat.strong_induction_on
    generalizing rest rest' value taken with
  | _ k ih =>
    cases h with
    | nil =>
      rw [totalFrom_nil, totalFrom_nil]
      exact .ok value
    | @cons t u rest rest' hsame hrest =>
      rw [totalFrom_cons, totalFrom_cons]
      have happly := lockstep_apply hsame hrest value (taken + 1)
      revert happly
      generalize apply value t ⟨tokens, taken + 1, rest⟩ = p,
        apply value u ⟨others, taken + 1, rest'⟩ = q
      intro happly
      cases happly with
      | error halike => exact halike
      | @ok total taken back back' hback hshorter =>
        have hlt : back.length < k := by
          rw [← hk, List.length_cons]
          omega
        exact ih _ hlt hback total taken rfl

end Accumulator

theorem alike_total (h : tokens.map Token.bare = others.map Token.bare) :
    Alike tokens others (Token.total tokens) (Token.total others) := by
  rw [Token.total, Token.total, Accumulator.ofTokens, Accumulator.ofTokens, Accumulator.total,
    Accumulator.total]
  have hoperand := Accumulator.lockstep_operand (forall₂_matches h) 0
  revert hoperand
  generalize Accumulator.operand ⟨tokens, 0, tokens⟩ = p,
    Accumulator.operand ⟨others, 0, others⟩ = q
  intro hoperand
  cases hoperand with
  | error halike => exact halike
  | ok x taken hback _ => exact Accumulator.alike_totalFrom hback x taken

/-! ## Round trips -/

/-- Rendered tokens are scanned to themselves, each where it was written; and a text that is scanned,
rendered and scanned again has the same tokens up to their places, is the same text from then on
and from the start if it was in normal form, and has the same total or lack of one. -/
theorem render_scan_total :
    (∀ tokens, (∀ t ∈ tokens, Token.IsSafe t) →
      Token.scan (Token.render tokens) = .ok (Token.relocated tokens)) ∧
    ∀ text tokens, Token.scan text = .ok tokens →
      ∃ again, Token.scan (Token.render tokens) = .ok again ∧
        again.map Token.bare = tokens.map Token.bare ∧
        Token.render again = Token.render tokens ∧
        (Token.render tokens = text ↔ IsNormal text) ∧
        Alike tokens again (Token.total tokens) (Token.total again) := by
  refine ⟨fun tokens => scan_render, fun text tokens hscan => ?_⟩
  have hreads := scan_eq_ok_iff.mp hscan
  have hbare := hreads.bare_relocated
  exact ⟨Token.relocated tokens, scan_render hreads.isSafe, hbare, Token.render_congr hbare,
    render_eq_iff hreads, alike_total hbare.symm⟩

/-- Minus zero is scanned as zero, and its text is in normal form. -/
theorem render_scan_total_minus_zero :
    (∀ t ∈ [Token.minus none, .number (zero true) none], t.IsSafe) ∧
      Token.scan "- 0" = .ok [.minus (some ⟨0, 1⟩), .number (zero false) (some ⟨2, 3⟩)] ∧
      IsNormal "- 0" := by
  have hzero (negative : Bool) : (zero negative).safeInt? = some ((0 : Nat) : Int) := by
    cases negative <;> decide +kernel
  have hwritten (negative : Bool) (span : Option Span) :
      (Token.number (zero negative) span).written = ['0'] := by
    rw [written_number (hzero negative), decimal]
    rfl
  have hrender (negative : Bool) (place span : Option Span) :
      Token.render [.minus place, .number (zero negative) span] = "- 0" := by
    rw [Token.render, List.map_cons, List.map_cons, hwritten]
    rfl
  have hsafe : ∀ t ∈ [Token.minus none, .number (zero true) none], t.IsSafe := by
    intro t ht
    rcases List.mem_pair.mp ht with rfl | rfl
    · trivial
    · exact isSafeNatural_iff.mpr ⟨0, hzero true⟩
  have hscan := render_scan_total.1 _ hsafe
  have hrelocated : Token.relocated [.minus none, .number (zero true) none] =
      [.minus (some ⟨0, 1⟩), .number (zero false) (some ⟨2, 3⟩)] := by
    simp only [Token.relocated, List.mapIdx_cons, List.mapIdx_nil, Token.readAt, hwritten]
    rfl
  rw [hrender, hrelocated] at hscan
  obtain ⟨again, -, -, -, hnormal, -⟩ := render_scan_total.2 _ _ hscan
  exact ⟨hsafe, hscan, hnormal.mp (hrender false _ _)⟩

end RunningTotal
