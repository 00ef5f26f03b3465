import RunningTotal.Proofs.Token.Resumption

/-! The rounds of reading a literal. `Arrives` says with which value and at which scanner a round begins;
from there on the reading is what it is from its start (`Arrives.number_eq`). On a run of digits
the rounds begin behind its safe fronts and nowhere else, each with the exact number of the digits
behind it (`arrives_iff`). So the guard, for all that its quotient is rounded, refuses a digit just
when the exact number would leave the safe range, and no product or sum is rounded
(`guard_exact`). -/
set_option autoImplicit false

namespace RunningTotal

open Binary64

namespace Scanner

/-! ## Rounds -/

/-- Round `k` of reading a literal from `s` begins with the value `value` at `t`. -/
inductive Arrives (s : Scanner) : Nat → Binary64 → Scanner → Prop
  | start : Arrives s 0 (zero false) s
  | digit {k d : Nat} {value : Binary64} {t u : Scanner} (before : Arrives s k value t)
      (ahead : t.head?.bind digit? = some d) (fits : overflows value d = false)
      (skips : t.skip = (.ok (), u)) : Arrives s (k + 1) (value * ofNat 10 + ofNat d) u

theorem Arrives.number_eq {s t : Scanner} {k : Nat} {value : Binary64} (h : Arrives s k value t) :
    s.number = numberFrom s.offset value t := by
  induction h with
  | start => rfl
  | digit _ ahead fits skips ih =>
    rw [ih, numberFrom, ahead]
    simp only [fits, Bool.false_eq_true, if_false]
    split
    · rename_i heq
      rw [skips] at heq
      cases heq
    · rename_i heq
      rw [skips] at heq
      cases heq
      rfl

theorem update_exact {n d : Nat} (h : n * 10 + d ≤ safeLimit) :
    (ofNat n * ofNat 10).safeInt? = some ((n * 10 : Nat) : Int) ∧
      (ofNat n * ofNat 10 + ofNat d).safeInt? = some ((n * 10 + d : Nat) : Int) := by
  have hlimit : 10 ≤ safeLimit := by decide
  constructor
  · rw [ofNat_mul (by omega) hlimit]
    exact safeInt?_ofNat (by omega)
  · rw [ofNat_withDigit (by omega), Nat.mul_comm 10 n]
    exact safeInt?_ofNat h

/-! ## The rounds on a run of digits -/

section

variable {digits : List Char} {k : Nat} {c : Char} (hc : digits[k]? = some c)

include hc

theorem ofDigits_take_succ :
    ofDigits (digits.take (k + 1)) = ofDigits (digits.take k) * 10 + (c.toNat - '0'.toNat) := by
  rw [List.take_add_one, hc, Option.toList_some, ofDigits_concat, Nat.mul_comm]

/-- The guard at a digit behind a safe front looks at the front that ends with it. -/
theorem overflows_front (isDigit : ∀ c ∈ digits, c.isDigit = true)
    (hsafe : ofDigits (digits.take k) ≤ safeLimit) :
    overflows (ofNat (ofDigits (digits.take k))) (c.toNat - '0'.toNat) =
      decide (safeLimit < ofDigits (digits.take (k + 1))) := by
  have hdigit := toNat_of_isDigit (isDigit c (List.mem_of_getElem? hc))
  rw [overflows_ofNat hsafe (by omega), ofDigits_take_succ hc, Nat.mul_comm]

theorem update_front (hsafe : ofDigits (digits.take (k + 1)) ≤ safeLimit) :
    ofNat (ofDigits (digits.take k)) * ofNat 10 + ofNat (c.toNat - '0'.toNat) =
      ofNat (ofDigits (digits.take (k + 1))) := by
  rw [ofDigits_take_succ hc, Nat.mul_comm] at hsafe ⊢
  exact ofNat_withDigit hsafe

end

section

variable {input : String} {p : Nat} {digits : List Char} {back : List Cluster}
  (ahead : (characters input).drop p = singles digits ++ back)
  (isDigit : ∀ c ∈ digits, c.isDigit = true) (stop : NoDigit back)

include ahead in
theorem skip_run {k : Nat} (hk : k < digits.length) :
    (place input (p + k)).skip = (.ok (), place input (p + k + 1)) := by
  have hrun := length_le_of_ahead ahead
  exact skip_place (by omega)

include ahead isDigit stop

theorem digit?_place {k : Nat} (hk : k ≤ digits.length) :
    (place input (p + k)).head?.bind digit? = digits[k]?.map fun c => c.toNat - '0'.toNat := by
  rw [head?_place, ← List.getElem?_drop, ahead]
  rcases Nat.lt_or_eq_of_le hk with hlt | rfl
  · rw [List.getElem?_append_left (by rwa [length_singles]), singles, List.getElem?_map,
      List.getElem?_eq_getElem hlt]
    exact digit?_of_isDigit (isDigit _ (List.getElem_mem hlt))
  · rw [List.getElem?_append_right (by rw [length_singles]), length_singles, Nat.sub_self,
      ← List.head?_eq_getElem?, List.getElem?_eq_none (Nat.le_refl _)]
    exact stop

/-- The rounds begin behind the safe fronts of the run, each with the number of its front. -/
theorem arrives_iff {k : Nat} {value : Binary64} {t : Scanner} :
    Arrives (place input p) k value t ↔
      k ≤ digits.length ∧ ofDigits (digits.take k) ≤ safeLimit ∧
        value = ofNat (ofDigits (digits.take k)) ∧ t = place input (p + k) := by
  constructor
  · intro h
    induction h with
    | start => exact ⟨Nat.zero_le _, Nat.zero_le _, rfl, rfl⟩
    | @digit k d value t u before found fits skips ih =>
      obtain ⟨hk, hsafe, rfl, rfl⟩ := ih
      rw [digit?_place ahead isDigit stop hk, Option.map_eq_some_iff] at found
      obtain ⟨c, hc, rfl⟩ := found
      have hlt := (List.getElem?_eq_some_iff.mp hc).1
      rw [overflows_front hc isDigit hsafe, decide_eq_false_iff_not, Nat.not_lt] at fits
      rw [skip_run ahead hlt] at skips
      cases skips
      exact ⟨hlt, fits, update_front hc fits, rfl⟩
  · rintro ⟨hk, hsafe, rfl, rfl⟩
    induction k with
    | zero => exact .start
    | succ k ih =>
      have hc : digits[k]? = some digits[k] := List.getElem?_eq_getElem hk
      have hfront := Nat.le_trans (ofDigits_take_le digits (Nat.le_succ k)) hsafe
      have fits := overflows_front hc isDigit hfront
      rw [decide_eq_false (Nat.not_lt.mpr hsafe)] at fits
      have found := digit?_place ahead isDigit stop (Nat.le_of_lt hk)
      rw [hc, Option.map_some] at found
      rw [← update_front hc hsafe]
      exact (ih (Nat.le_of_lt hk) hfront).digit found fits (skip_run ahead hk)

/-- The guard is exact for every integer and digit. So every round of a literal begins with the exact
safe number of the digits behind it, and the next round, if the guard lets it, neither rounds the
product nor the sum; the whole run is read just when its number is safe. -/
theorem guard_exact :
    (∀ (x : Binary64) (n : Int) (d : Nat), x.toInt? = some n → d < 10 →
      (overflows x d = true ↔ (safeLimit : Int) < n * 10 + d)) ∧
    (ofDigits digits ≤ safeLimit → ∃ value,
      (place input p).number = (.ok value, place input (p + digits.length)) ∧
        value.safeInt? = some (ofDigits digits : Int)) ∧
    (safeLimit < ofDigits digits → ∃ k, SafeFront digits k ∧
      (place input p).number =
        (.error (.bounds ⟨.literal p, input, some p⟩), place input (p + k))) ∧
    (∀ k value t, Arrives (place input p) k value t ↔
      k ≤ digits.length ∧ ofDigits (digits.take k) ≤ safeLimit ∧
        value = ofNat (ofDigits (digits.take k)) ∧ t = place input (p + k)) ∧
    ∀ k value t, Arrives (place input p) k value t →
      let n := ofDigits (digits.take k)
      (place input p).number = numberFrom p value t ∧ value.safeInt? = some (n : Int) ∧
      ∀ c, digits[k]? = some c →
        let d := c.toNat - '0'.toNat
        t.head?.bind digit? = some d ∧
        (overflows value d = true ↔ safeLimit < n * 10 + d) ∧
        (overflows value d = false →
          (value * ofNat 10).safeInt? = some ((n * 10 : Nat) : Int) ∧
            (value * ofNat 10 + ofNat d).safeInt? = some ((n * 10 + d : Nat) : Int)) := by
  refine ⟨fun x n d hx hd => ?_, fun hsafe => ?_, fun excess => ?_,
    fun k value t => arrives_iff ahead isDigit stop, fun k value t h => ?_⟩
  · rw [overflows_of_toInt? hx hd, decide_eq_true_iff, Int.mul_comm]
  · exact ⟨_, (NumberEnds.whole ahead isDigit stop hsafe).number_eq, safeInt?_ofNat hsafe⟩
  · obtain ⟨k, front⟩ := exists_safeFront isDigit excess
    exact ⟨k, front, (NumberEnds.oversized ahead isDigit stop front).number_eq⟩
  · have hnumber := h.number_eq
    obtain ⟨hk, hsafe, rfl, rfl⟩ := (arrives_iff ahead isDigit stop).mp h
    refine ⟨hnumber, safeInt?_ofNat hsafe, fun c hc => ?_⟩
    have hguard := overflows_front hc isDigit hsafe
    rw [ofDigits_take_succ hc] at hguard
    refine ⟨by rw [digit?_place ahead isDigit stop hk, hc, Option.map_some], ?_, fun fits => ?_⟩
    · rw [hguard, decide_eq_true_iff]
    · rw [hguard, decide_eq_false_iff_not, Nat.not_lt] at fits
      exact update_exact fits

end

/-- Behind the same fifteen digits a last digit one would still be taken, but two is refused. -/
theorem guard_exact_past_limit :
    let input := "1+9007199254740992"
    let digits := "9007199254740992".toList
    (characters input).drop 2 = singles digits ++ [] ∧ (∀ c ∈ digits, c.isDigit = true) ∧
      Arrives (place input 2) 15 (ofNat 900719925474099) (place input 17) ∧
      overflows (ofNat 900719925474099) 1 = false ∧ overflows (ofNat 900719925474099) 2 = true ∧
      (place input 2).number = (.error (.bounds ⟨.literal 2, input, some 2⟩), place input 17) := by
  intro input digits
  have ahead : (characters input).drop 2 = singles digits ++ [] := by decide +kernel
  have isDigit : ∀ c ∈ digits, c.isDigit = true := List.all_eq_true.mp (by decide +kernel)
  obtain ⟨hguard, -, hrefused, harrives, -⟩ := guard_exact ahead isDigit rfl
  have hvalue : (ofNat 900719925474099).toInt? = some 900719925474099 := by decide +kernel
  obtain ⟨k, front, hnumber⟩ := hrefused (by decide +kernel)
  -- the longest safe front is the one without the last digit
  have hlow := (front.longest 15 (by decide +kernel)).mp (by decide +kernel)
  have hhigh := mt (front.longest 16 (by decide +kernel)).mpr (by decide +kernel)
  obtain rfl : k = 15 := by omega
  refine ⟨ahead, isDigit, ?_, ?_, ?_, hnumber⟩
  · exact (harrives 15 _ _).mpr ⟨by decide +kernel, by decide +kernel, by decide +kernel, rfl⟩
  · exact Bool.eq_false_iff.mpr fun h => absurd ((hguard _ _ 1 hvalue (by decide)).mp h) (by decide)
  · exact (hguard _ _ 2 hvalue (by decide)).mpr (by decide)

end Scanner

end RunningTotal
