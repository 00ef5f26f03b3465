import RunningTotal.Proofs.Binary64.Integer
import RunningTotal.Proofs.Decimal
import RunningTotal.Proofs.Text.Characters
import RunningTotal.Token.Scanner

/-! Reading a literal. The comparison with a rounded quotient that guards each further digit is exact
(`overflows_of_toInt?`), so the value kept is always the number of the digits so far
(`ofNat_withDigit`). A run of digits is read to its end when its number is safe
(`numberFrom_of_le`); otherwise reading stops at the digit that goes too far
(`numberFrom_of_lt`). -/
set_option autoImplicit false

namespace RunningTotal

open Binary64

/-! ## The guard -/

/-- The quotient lies between two integers that no digit can tell from the exact one. -/
theorem lt_guard : ∀ d < 10,
    let quotient := (ofNat safeLimit - ofNat d) / ofNat 10
    quotient.lt (ofNat ((safeLimit - d) / 10)) = false ∧
      quotient.lt (ofNat ((safeLimit - d) / 10 + 1)) = true := by
  decide +kernel

theorem lt_of_toInt? {x y : Binary64} {k : Nat} {n : Int} (hk : k < safeLimit)
    (hlow : x.lt (ofNat k) = false) (hhigh : x.lt (ofNat (k + 1)) = true)
    (hy : y.toInt? = some n) : x.lt y = decide ((k : Int) < n) := by
  obtain ⟨v, hv, -, hvval⟩ := exists_ofInt_eq (n := k) (by omega)
  obtain ⟨z, hz, -, hzval⟩ := exists_ofInt_eq (n := (k + 1 : Nat)) (by omega)
  obtain ⟨w, rfl, hwval⟩ := exists_finite_of_toInt? hy
  rw [ofInt_natCast] at hv hz
  rw [hv] at hlow
  rw [hz] at hhigh
  cases x with
  | nan => simp [lt] at hhigh
  | infinite s =>
    simp only [lt] at hlow hhigh
    rw [hlow] at hhigh
    cases hhigh
  | finite x =>
    simp only [lt, decide_eq_false_iff_not, decide_eq_true_eq, hvval, hzval, Int.cast_natCast,
      not_lt] at hlow hhigh
    simp only [lt, hwval]
    rw [decide_eq_decide]
    constructor
    · intro h
      exact_mod_cast lt_of_le_of_lt hlow h
    · intro h
      exact lt_of_lt_of_le hhigh (by exact_mod_cast h)

/-- Although its quotient is rounded, the guard holds just when the digit goes too far, whatever
integer the value is. -/
theorem overflows_of_toInt? {x : Binary64} {n : Int} {d : Nat} (hx : x.toInt? = some n)
    (hd : d < 10) : overflows x d = decide ((safeLimit : Int) < 10 * n + d) := by
  obtain ⟨hlow, hhigh⟩ := lt_guard d hd
  have hlimit : 10 < safeLimit := by decide
  rw [overflows, lt_of_toInt? (by omega) hlow hhigh hx, decide_eq_decide]
  omega

theorem overflows_ofNat {n d : Nat} (hn : n ≤ safeLimit) (hd : d < 10) :
    overflows (ofNat n) d = decide (safeLimit < 10 * n + d) := by
  rw [overflows_of_toInt? (safeInt?_eq_some_iff.mp (safeInt?_ofNat hn)).1 hd, decide_eq_decide]
  omega

theorem ofNat_withDigit {n d : Nat} (h : 10 * n + d ≤ safeLimit) :
    ofNat n * ofNat 10 + ofNat d = ofNat (10 * n + d) := by
  rw [ofNat_mul (by omega) (by decide), ← ofInt_natCast, ← ofInt_natCast,
    ofInt_add (by omega) (by omega), ← ofInt_natCast]
  congr 1
  push_cast
  ring

/-! ## A run of digits -/

/-- No run of digits goes on here. -/
def NoDigit (rest : List Cluster) : Prop := rest.head?.bind digit? = none

theorem digit?_of_isDigit {c : Char} (h : c.isDigit = true) :
    digit? [c] = some (c.toNat - '0'.toNat) := by
  rw [digit?, if_pos h]

theorem eq_of_run {α : Type} {p : α → Bool} {front front' back back' : List α}
    (h : front ++ back = front' ++ back') (hf : ∀ c ∈ front, p c = true)
    (hf' : ∀ c ∈ front', p c = true) (hb : ∀ c, back.head? = some c → p c = false)
    (hb' : ∀ c, back'.head? = some c → p c = false) : front = front' ∧ back = back' := by
  induction front generalizing front' with
  | nil =>
    cases front' with
    | nil => exact ⟨rfl, h⟩
    | cons c front' =>
      have hc := hb c (by rw [← List.nil_append back, h]; rfl)
      rw [hf' c (List.mem_cons_self ..)] at hc
      cases hc
  | cons c front ih =>
    cases front' with
    | nil =>
      have hc := hb' c (by rw [← List.nil_append back', ← h]; rfl)
      rw [hf c (List.mem_cons_self ..)] at hc
      cases hc
    | cons d front' =>
      obtain ⟨rfl, hrest⟩ := List.cons.inj h
      obtain ⟨rfl, rfl⟩ := ih hrest (fun e he => hf e (List.mem_cons_of_mem c he))
        (fun e he => hf' e (List.mem_cons_of_mem c he))
      exact ⟨rfl, rfl⟩

theorem isDigit_head_of_noDigit {text : List Char} (h : NoDigit (singles text)) {c : Char}
    (hc : text.head? = some c) : c.isDigit = false := by
  cases text with
  | nil => cases hc
  | cons d text =>
    obtain rfl := Option.some.inj hc
    have hnone : digit? [d] = none := h
    simpa [digit?] using hnone

theorem eq_of_digits {digits digits' text text' : List Char}
    (h : digits ++ text = digits' ++ text') (hd : ∀ c ∈ digits, c.isDigit = true)
    (hd' : ∀ c ∈ digits', c.isDigit = true) (ht : NoDigit (singles text))
    (ht' : NoDigit (singles text')) : digits = digits' ∧ text = text' :=
  eq_of_run h hd hd' (fun _ hc => isDigit_head_of_noDigit ht hc)
    (fun _ hc => isDigit_head_of_noDigit ht' hc)

namespace Scanner

theorem numberFrom_of_noDigit (start : Offset) (value : Binary64) {s : Scanner} (h : NoDigit s.rest) :
    numberFrom start value s = (.ok value, s) := by
  have hd : s.head?.bind digit? = none := h
  rw [numberFrom, hd]

theorem numberFrom_digit (start : Offset) (value : Binary64) (input : String) (offset : Nat)
    {c : Char} (rest : List Cluster) (hc : c.isDigit = true) :
    numberFrom start value ⟨input, offset, [c] :: rest⟩ =
      if overflows value (c.toNat - '0'.toNat) then
        (.error (.bounds ⟨.literal start, input, some start⟩), ⟨input, offset, [c] :: rest⟩)
      else
        numberFrom start (value * ofNat 10 + ofNat (c.toNat - '0'.toNat))
          ⟨input, offset + 1, rest⟩ := by
  have hd : (Scanner.mk input offset ([c] :: rest)).head?.bind digit? =
      some (c.toNat - '0'.toNat) := digit?_of_isDigit hc
  rw [numberFrom, hd]
  simp only [skip]

theorem numberFrom_step (start : Offset) (input : String) (offset n : Nat) {c : Char}
    (rest : List Cluster) (hc : c.isDigit = true)
    (hle : 10 * n + (c.toNat - '0'.toNat) ≤ safeLimit) :
    numberFrom start (ofNat n) ⟨input, offset, [c] :: rest⟩ =
      numberFrom start (ofNat (10 * n + (c.toNat - '0'.toNat))) ⟨input, offset + 1, rest⟩ := by
  have hlt := toNat_of_isDigit hc
  rw [numberFrom_digit start _ input offset rest hc, overflows_ofNat (by omega) (by omega),
    ofNat_withDigit hle, decide_eq_false (by omega)]
  rfl

theorem numberFrom_of_le (start : Offset) (input : String) (offset n : Nat) (digits : List Char)
    (rest : List Cluster) (hd : ∀ c ∈ digits, c.isDigit = true)
    (hle : withDigits n digits ≤ safeLimit) (hrest : NoDigit rest) :
    numberFrom start (ofNat n) ⟨input, offset, singles digits ++ rest⟩ =
      (.ok (ofNat (withDigits n digits)), ⟨input, offset + digits.length, rest⟩) := by
  induction digits generalizing n offset with
  | nil => exact numberFrom_of_noDigit start _ hrest
  | cons c digits ih =>
    have hmono := le_withDigits (10 * n + (c.toNat - '0'.toNat)) digits
    rw [withDigits_cons] at hle
    rw [singles_cons, List.cons_append,
      numberFrom_step start input offset n _ (hd c (List.mem_cons_self ..)) (by omega),
      ih (offset + 1) _ (fun d h => hd d (List.mem_cons_of_mem c h)) hle, withDigits_cons]
    rw [offset_cons]

theorem numberFrom_of_lt (start : Offset) (input : String) (offset n : Nat) (digits : List Char)
    {c : Char} (rest : List Cluster) (hd : ∀ d ∈ digits, d.isDigit = true) (hc : c.isDigit = true)
    (hle : withDigits n digits ≤ safeLimit)
    (hlt : safeLimit < withDigits n (digits ++ [c])) :
    numberFrom start (ofNat n) ⟨input, offset, singles digits ++ [c] :: rest⟩ =
      (.error (.bounds ⟨.literal start, input, some start⟩),
        ⟨input, offset + digits.length, [c] :: rest⟩) := by
  induction digits generalizing n offset with
  | nil =>
    have hdigit := toNat_of_isDigit hc
    rw [List.nil_append, withDigits_cons, withDigits_nil] at hlt
    rw [withDigits_nil] at hle
    rw [singles_nil, List.nil_append, numberFrom_digit start _ input offset rest hc,
      overflows_ofNat hle (by omega), decide_eq_true hlt]
    rfl
  | cons d digits ih =>
    have hmono := le_withDigits (10 * n + (d.toNat - '0'.toNat)) digits
    rw [withDigits_cons] at hle
    rw [List.cons_append, withDigits_cons] at hlt
    rw [singles_cons, List.cons_append,
      numberFrom_step start input offset n _ (hd d (List.mem_cons_self ..)) (by omega),
      ih (offset + 1) _ (fun e h => hd e (List.mem_cons_of_mem d h)) hle hlt]
    rw [offset_cons]

end Scanner

theorem exists_first_unsafe {n : Nat} {digits : List Char} (hn : n ≤ safeLimit)
    (h : safeLimit < withDigits n digits) :
    ∃ front c back, digits = front ++ c :: back ∧ withDigits n front ≤ safeLimit ∧
      safeLimit < withDigits n (front ++ [c]) := by
  induction digits generalizing n with
  | nil => exact absurd hn (Nat.not_le.mpr h)
  | cons c digits ih =>
    rw [withDigits_cons] at h
    by_cases hc : 10 * n + (c.toNat - '0'.toNat) ≤ safeLimit
    · obtain ⟨front, d, back, rfl, hle, hlt⟩ := ih hc h
      exact ⟨c :: front, d, back, rfl, hle, hlt⟩
    · exact ⟨[], c, digits, rfl, hn, Nat.not_le.mp hc⟩

end RunningTotal
