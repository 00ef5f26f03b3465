import Mathlib.Logic.Relation
import RunningTotal.Proofs.Total.Rendered

/-! Texts put together and spaced out. The rule of reading holds of two texts one behind the other just
when it holds of each (`Reads.append`, `Reads.splitsAt`), as long as no run of digits goes on
across the seam; the tokens of the second are those it has by itself, further on. So spaces that
part no digits change places and nothing else (`scan_concat`). -/
set_option autoImplicit false

namespace RunningTotal

open Binary64

/-! ## Further on -/

def Span.shift (d : Nat) (s : Span) : Span := ⟨s.start + d, s.stop + d⟩

/-- The token as it is read `d` characters further on. -/
def Token.shift (d : Nat) : Token → Token
  | .number x span => .number x (span.map (Span.shift d))
  | .plus span => .plus (span.map (Span.shift d))
  | .minus span => .minus (span.map (Span.shift d))

theorem Reads.shift {offset : Nat} {text : List Char} {tokens : List Token}
    (h : Reads offset text tokens) (d : Nat) :
    Reads (d + offset) text (tokens.map (Token.shift d)) := by
  have hspan (offset width : Nat) :
      Span.shift d ⟨offset, (offset + width : Int)⟩ =
        ⟨(d + offset : Nat), ((d + offset : Nat) + width : Int)⟩ := by
    simp only [Span.shift, Span.mk.injEq, Nat.cast_add]
    constructor <;> ring
  induction h with
  | nil => exact .nil _
  | space _ ih => exact .space ih
  | @plus offset text tokens _ ih =>
    rw [List.map_cons, Token.shift, Option.map_some, ← Nat.cast_one, hspan]
    exact .plus ih
  | @minus offset text tokens _ ih =>
    rw [List.map_cons, Token.shift, Option.map_some, ← Nat.cast_one, hspan]
    exact .minus ih
  | @literal offset digits text tokens hne hd hsafe whole _ ih =>
    rw [← Nat.add_assoc] at ih
    rw [List.map_cons, Token.shift, Option.map_some, hspan]
    exact .literal hne hd hsafe whole ih

/-- Wherever the text begins, the tokens are the same up to their places. -/
theorem Reads.exists_at {offset : Nat} {text : List Char} {tokens : List Token}
    (h : Reads offset text tokens) (start : Nat) :
    ∃ others, Reads start text others ∧ others.map Token.bare = tokens.map Token.bare := by
  induction h generalizing start with
  | nil => exact ⟨[], .nil start, rfl⟩
  | space _ ih =>
    obtain ⟨others, hreads, hbare⟩ := ih (start + 1)
    exact ⟨others, .space hreads, hbare⟩
  | plus _ ih =>
    obtain ⟨others, hreads, hbare⟩ := ih (start + 1)
    exact ⟨_, .plus hreads, congrArg (_ :: ·) hbare⟩
  | minus _ ih =>
    obtain ⟨others, hreads, hbare⟩ := ih (start + 1)
    exact ⟨_, .minus hreads, congrArg (_ :: ·) hbare⟩
  | @literal offset digits text tokens hne hd hsafe whole _ ih =>
    obtain ⟨others, hreads, hbare⟩ := ih (start + digits.length)
    exact ⟨_, .literal hne hd hsafe whole hreads, congrArg (_ :: ·) hbare⟩

/-! ## The seam of two texts -/

/-- A digit ends the one text and a digit begins the other. -/
def DigitsMeet (front back : List Char) : Prop :=
  ∃ c d, front.getLast? = some c ∧ back.head? = some d ∧ c.isDigit = true ∧ d.isDigit = true

theorem apart_iff (front back : List Char) :
    Apart front (singles back) ↔ ¬ DigitsMeet front back := by
  constructor
  · rintro h ⟨c, d, hc, hd, hcdigit, hddigit⟩
    rw [isDigit_head_of_noDigit (h c hc hcdigit) hd] at hddigit
    cases hddigit
  · intro h c hc hdigit
    cases back with
    | nil => rfl
    | cons d back =>
      have hd : d.isDigit = false := by
        by_contra hd
        exact h ⟨c, d, hc, rfl, hdigit, by simpa using hd⟩
      simp [NoDigit, digit?, hd]

theorem Reads.append {offset : Nat} {front back : List Char} {tokens more : List Token}
    (h : Reads offset front tokens) (hback : Reads (offset + front.length) back more)
    (hapart : Apart front (singles back)) : Reads offset (front ++ back) (tokens ++ more) := by
  induction h with
  | nil => exact hback
  | space _ ih =>
    rw [offset_cons] at hback
    exact .space (ih hback hapart.of_cons)
  | plus _ ih =>
    rw [offset_cons] at hback
    exact .plus (ih hback hapart.of_cons)
  | minus _ ih =>
    rw [offset_cons] at hback
    exact .minus (ih hback hapart.of_cons)
  | literal hne hd hsafe whole _ ih =>
    have hwhole := noDigit_of_apart hne hd whole hapart
    rw [← singles_append] at hwhole
    rw [offset_append] at hback
    rw [List.append_assoc]
    exact .literal hne hd hsafe hwhole (ih hback hapart.of_append)

/-- A run of digits cannot be parted where no digits meet. -/
theorem exists_eq_append_of_apart {digits text front back : List Char}
    (h : digits ++ text = front ++ back) (hd : ∀ c ∈ digits, c.isDigit = true) (hne : front ≠ [])
    (hapart : Apart front (singles back)) : ∃ rest, front = digits ++ rest ∧ text = rest ++ back := by
  rcases List.append_eq_append_iff.mp h with ⟨rest, hfront, htext⟩ | ⟨rest, hdigits, hback⟩
  · exact ⟨rest, hfront, htext⟩
  · cases rest with
    | nil => exact ⟨[], by rw [hdigits, List.append_nil, List.append_nil], hback.symm⟩
    | cons c rest =>
      have hlast : (front.getLast hne).isDigit = true :=
        hd _ (by rw [hdigits]; exact List.mem_append_left _ (List.getLast_mem hne))
      have hc : c.isDigit = true := hd c (by simp [hdigits])
      refine absurd ⟨_, c, List.getLast?_eq_getLast_of_ne_nil hne, ?_, hlast, hc⟩
        ((apart_iff front back).mp hapart)
      rw [hback]
      rfl

/-- The tokens are those of the front, and then those of the back. -/
def SplitsAt (offset : Nat) (front back : List Char) (tokens : List Token) : Prop :=
  ∃ before behind, Reads offset front before ∧ Reads (offset + front.length) back behind ∧
    tokens = before ++ behind

theorem splitsAt_nil {offset : Nat} {text : List Char} {tokens : List Token}
    (h : Reads offset text tokens) : SplitsAt offset [] text tokens :=
  ⟨[], tokens, .nil offset, h, rfl⟩

/-- A character that is read by itself, with the token it makes if any, belongs to the front. -/
theorem SplitsAt.cons {offset : Nat} {c : Char} {front back : List Char} {tokens : List Token}
    (h : SplitsAt (offset + 1) front back tokens) (made : List Token)
    (first : ∀ {text tokens}, Reads (offset + 1) text tokens →
      Reads offset (c :: text) (made ++ tokens)) :
    SplitsAt offset (c :: front) back (made ++ tokens) := by
  obtain ⟨before, behind, hfront, hback, rfl⟩ := h
  rw [← offset_cons _ c] at hback
  exact ⟨made ++ before, behind, first hfront, hback, (List.append_assoc ..).symm⟩

theorem Reads.splitsAt {offset : Nat} {text front back : List Char} {tokens : List Token}
    (h : Reads offset text tokens) (htext : text = front ++ back)
    (hapart : Apart front (singles back)) : SplitsAt offset front back tokens := by
  -- what is read first belongs to the front, unless that is empty
  induction h generalizing front with
  | nil offset =>
    obtain ⟨rfl, rfl⟩ := List.append_eq_nil_iff.mp htext.symm
    exact splitsAt_nil (.nil offset)
  | space rest ih =>
    rcases List.cons_eq_append_iff.mp htext with ⟨rfl, rfl⟩ | ⟨front, rfl, rfl⟩
    · exact splitsAt_nil rest.space
    · exact (ih rfl hapart.of_cons).cons [] .space
  | plus rest ih =>
    rcases List.cons_eq_append_iff.mp htext with ⟨rfl, rfl⟩ | ⟨front, rfl, rfl⟩
    · exact splitsAt_nil rest.plus
    · exact (ih rfl hapart.of_cons).cons [_] .plus
  | minus rest ih =>
    rcases List.cons_eq_append_iff.mp htext with ⟨rfl, rfl⟩ | ⟨front, rfl, rfl⟩
    · exact splitsAt_nil rest.minus
    · exact (ih rfl hapart.of_cons).cons [_] .minus
  | @literal offset digits text tokens hne hd hsafe whole rest ih =>
    by_cases hfront : front = []
    · subst hfront
      rw [List.nil_append] at htext
      rw [← htext]
      exact splitsAt_nil (rest.literal hne hd hsafe whole)
    · obtain ⟨others, rfl, rfl⟩ := exists_eq_append_of_apart htext hd hfront hapart
      obtain ⟨before, behind, hbefore, hback, rfl⟩ := ih rfl hapart.of_append
      have hwhole : NoDigit (singles others) := by
        cases others with
        | nil => rfl
        | cons c others => exact whole
      rw [← offset_append] at hback
      exact ⟨_, behind, hbefore.literal hne hd hsafe hwhole, hback, rfl⟩

/-! ## One space more -/

/-- The second text has one space more, which parts no two digits. -/
def SpaceAdded (text spaced : String) : Prop :=
  ∃ front back, text.toList = front ++ back ∧ spaced.toList = front ++ ' ' :: back ∧
    ¬ DigitsMeet front back

theorem Reads.of_space {offset : Nat} {text : List Char} {tokens : List Token}
    (h : Reads offset (' ' :: text) tokens) : Reads (offset + 1) text tokens := by
  generalize hspaced : ' ' :: text = spaced at h
  cases h with
  | nil => cases hspaced
  | space rest =>
    obtain ⟨-, rfl⟩ := List.cons.inj hspaced
    exact rest
  | plus => cases hspaced
  | minus => cases hspaced
  | @literal _ digits _ _ hne hd =>
    obtain ⟨c, digits, rfl⟩ := List.exists_cons_of_ne_nil hne
    obtain ⟨rfl, -⟩ := List.cons.inj hspaced
    have hspace := hd ' ' (List.mem_cons_self ..)
    cases hspace

/-- The tokens without their places, if the text can be scanned. -/
def bareScan (text : String) : Option (List Token) :=
  (Token.scan text).toOption.map (List.map Token.bare)

theorem bareScan_eq_some_iff {text : String} {bare : List Token} :
    bareScan text = some bare ↔ ∃ tokens, Reads 0 text.toList tokens ∧ tokens.map Token.bare = bare := by
  simp only [← scan_eq_ok_iff, bareScan]
  cases Token.scan text <;> simp [Except.toOption]

theorem SpaceAdded.bareScan_eq {text spaced : String} (h : SpaceAdded text spaced) :
    bareScan text = bareScan spaced := by
  obtain ⟨front, back, htext, hspaced, hmeet⟩ := h
  have hapart := (apart_iff front back).mpr hmeet
  have hspace : Apart front (singles (' ' :: back)) := fun _ _ _ => rfl
  ext bare
  rw [bareScan_eq_some_iff, bareScan_eq_some_iff]
  constructor
  · rintro ⟨tokens, hreads, rfl⟩
    obtain ⟨before, behind, hfront, hback, rfl⟩ := hreads.splitsAt htext hapart
    obtain ⟨others, hothers, hbare⟩ := hback.exists_at (0 + front.length + 1)
    refine ⟨before ++ others, ?_, by rw [List.map_append, List.map_append, hbare]⟩
    rw [hspaced]
    exact hfront.append hothers.space hspace
  · rintro ⟨tokens, hreads, rfl⟩
    obtain ⟨before, behind, hfront, hback, rfl⟩ := hreads.splitsAt hspaced hspace
    obtain ⟨others, hothers, hbare⟩ := hback.of_space.exists_at (0 + front.length)
    refine ⟨before ++ others, ?_, by rw [List.map_append, List.map_append, hbare]⟩
    rw [htext]
    exact hfront.append hothers hapart

theorem bareScan_eq_of_respaced {text spaced : String}
    (h : Relation.EqvGen SpaceAdded text spaced) : bareScan text = bareScan spaced := by
  induction h with
  | rel _ _ h => exact h.bareScan_eq
  | refl => rfl
  | symm _ _ _ ih => exact ih.symm
  | trans _ _ _ _ _ ih ih' => exact ih.trans ih'

theorem exists_scan_of_bareScan_eq {text spaced : String} (h : bareScan text = bareScan spaced)
    {tokens : List Token} (hscan : Token.scan text = .ok tokens) :
    ∃ others, Token.scan spaced = .ok others ∧
      others.map Token.bare = tokens.map Token.bare := by
  rw [bareScan, hscan] at h
  obtain ⟨others, hreads, hbare⟩ := bareScan_eq_some_iff.mp h.symm
  exact ⟨others, scan_eq_ok_iff.mpr hreads, hbare⟩

theorem scan_append_of_apart {a b : String} {first second : List Token}
    (ha : Token.scan a = .ok first) (hb : Token.scan b = .ok second)
    (hapart : Apart a.toList (singles b.toList)) :
    Token.scan (a ++ b) = .ok (first ++ second.map (Token.shift (characters a).length)) := by
  have hfirst := scan_eq_ok_iff.mp ha
  have hsecond := (scan_eq_ok_iff.mp hb).shift a.toList.length
  have hlength : (characters a).length = a.toList.length := by
    rw [characters_of_reads hfirst, length_singles]
  rw [hlength, scan_eq_ok_iff, String.toList_append]
  rw [Nat.add_comm] at hsecond
  exact hfirst.append hsecond hapart

/-- Two texts that can be scanned can be scanned as one, unless a digit of the one would meet a digit
of the other, with the second tokens moved on. So spaces may come and go anywhere but between two
digits: tokens and total stay as they are but for their places. -/
theorem scan_concat :
    (∀ a b first second, Token.scan a = .ok first → Token.scan b = .ok second →
      ¬ DigitsMeet a.toList b.toList →
        Token.scan (a ++ b) = .ok (first ++ second.map (Token.shift (characters a).length)) ∧
        (characters a).length = length16 a) ∧
    ∀ text spaced, Relation.EqvGen SpaceAdded text spaced →
      ∀ tokens, Token.scan text = .ok tokens → ∃ others, Token.scan spaced = .ok others ∧
        others.map Token.bare = tokens.map Token.bare ∧
        Alike tokens others (Token.total tokens) (Token.total others) := by
  constructor
  · intro a b first second ha hb hmeet
    have hreads := scan_eq_ok_iff.mp ha
    refine ⟨scan_append_of_apart ha hb ((apart_iff _ _).mpr hmeet), ?_⟩
    have hunits := length16_of_plain hreads.isPlain
    rw [String.ofList_toList] at hunits
    rw [characters_of_reads hreads, length_singles, hunits]
  · intro text spaced hspaced tokens hscan
    obtain ⟨others, hothers, hbare⟩ :=
      exists_scan_of_bareScan_eq (bareScan_eq_of_respaced hspaced) hscan
    exact ⟨others, hothers, hbare, alike_total hbare.symm⟩

end RunningTotal
