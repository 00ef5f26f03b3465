import Mathlib.Data.List.Induction
import RunningTotal.Binary64.Numeral

/-! Decimal numerals. `decimal` and `ofDigits` undo each other: every number is read back from its
digits (`ofDigits_decimal`), and a run of digits without a superfluous zero in front is written
again as it was (`decimal_ofDigits`). `withDigits` is reading that goes on from a number already
read. -/
set_option autoImplicit false

namespace RunningTotal

/-! ## One digit -/

theorem toNat_of_isDigit {c : Char} (h : c.isDigit = true) :
    '0'.toNat ≤ c.toNat ∧ c.toNat < '0'.toNat + 10 := by
  simp only [Char.isDigit, Bool.and_eq_true, decide_eq_true_eq] at h
  have low : 48 ≤ c.val.toNat := h.1
  have high : c.val.toNat ≤ 57 := h.2
  change 48 ≤ c.val.toNat ∧ c.val.toNat < 48 + 10
  omega

theorem digitChar_isDigit {d : Nat} (h : d < 10) : (digitChar d).isDigit = true :=
  (by decide : ∀ d < 10, (digitChar d).isDigit = true) d h

theorem toNat_digitChar {d : Nat} (h : d < 10) : (digitChar d).toNat - '0'.toNat = d :=
  (by decide : ∀ d < 10, (digitChar d).toNat - '0'.toNat = d) d h

theorem digitChar_toNat {c : Char} (h : c.isDigit = true) :
    digitChar (c.toNat - '0'.toNat) = c := by
  have hc := (toNat_of_isDigit h).1
  rw [digitChar, Nat.add_sub_cancel' hc, Char.ofNat_toNat]

/-! ## Reading on -/

/-- The number that `n` becomes when digits are written behind its own. -/
def withDigits (n : Nat) (digits : List Char) : Nat :=
  digits.foldl (fun n c => 10 * n + (c.toNat - '0'.toNat)) n

@[simp] theorem withDigits_nil (n : Nat) : withDigits n [] = n := rfl

@[simp] theorem withDigits_cons (n : Nat) (c : Char) (digits : List Char) :
    withDigits n (c :: digits) = withDigits (10 * n + (c.toNat - '0'.toNat)) digits := by
  simp only [withDigits, List.foldl_cons]

theorem withDigits_append (n : Nat) (front back : List Char) :
    withDigits n (front ++ back) = withDigits (withDigits n front) back :=
  List.foldl_append

theorem ofDigits_eq_withDigits (digits : List Char) : ofDigits digits = withDigits 0 digits := rfl

theorem ofDigits_concat (digits : List Char) (c : Char) :
    ofDigits (digits ++ [c]) = 10 * ofDigits digits + (c.toNat - '0'.toNat) :=
  withDigits_append 0 digits [c]

theorem le_withDigits (n : Nat) (digits : List Char) : n ≤ withDigits n digits := by
  induction digits generalizing n with
  | nil => exact Nat.le_refl n
  | cons c digits ih =>
    have h := ih (10 * n + (c.toNat - '0'.toNat))
    rw [withDigits_cons]
    omega

/-! ## Numerals -/

theorem decimal_ne_nil (n : Nat) : decimal n ≠ [] := by
  rw [decimal]
  split <;> simp

theorem isDigit_of_mem_decimal (n : Nat) : ∀ c ∈ decimal n, c.isDigit = true := by
  fun_induction decimal n with
  | case1 n h =>
    intro c hc
    rw [List.mem_singleton.mp hc]
    exact digitChar_isDigit h
  | case2 n _ ih =>
    intro c hc
    rcases List.mem_append.mp hc with hc | hc
    · exact ih c hc
    · rw [List.mem_singleton.mp hc]
      exact digitChar_isDigit (Nat.mod_lt n (by omega))

theorem ofDigits_decimal (n : Nat) : ofDigits (decimal n) = n := by
  fun_induction decimal n with
  | case1 n h => simpa [ofDigits] using toNat_digitChar h
  | case2 n _ ih =>
    rw [ofDigits_concat, ih, toNat_digitChar (Nat.mod_lt n (by omega))]
    omega

/-- A run of digits with no zero in front, unless zero is all it is. -/
structure IsNumeral (digits : List Char) : Prop where
  ne_nil : digits ≠ []
  isDigit : ∀ c ∈ digits, c.isDigit = true
  lead : digits.head? = some '0' → digits = ['0']

theorem head?_decimal {n : Nat} (h : 0 < n) : (decimal n).head? ≠ some '0' := by
  fun_induction decimal n with
  | case1 n hn =>
    exact (by decide : ∀ d < 10, 0 < d → [digitChar d].head? ≠ some '0') n hn h
  | case2 n hn ih =>
    rw [List.head?_append, Option.or_of_isSome (by simpa using decimal_ne_nil _)]
    exact ih (by omega)

theorem isNumeral_decimal (n : Nat) : IsNumeral (decimal n) where
  ne_nil := decimal_ne_nil n
  isDigit := isDigit_of_mem_decimal n
  lead := by
    intro h
    rcases Nat.eq_zero_or_pos n with rfl | hn
    · rw [decimal, if_pos (by omega)]
      rfl
    · exact absurd h (head?_decimal hn)

theorem ofDigits_pos {digits : List Char} (hne : digits ≠ [])
    (hd : ∀ c ∈ digits, c.isDigit = true) (hz : digits.head? ≠ some '0') : 0 < ofDigits digits := by
  cases digits with
  | nil => exact absurd rfl hne
  | cons c rest =>
    have hc : c ≠ '0' := fun h => hz (by rw [h]; rfl)
    have hlow := (toNat_of_isDigit (hd c (List.mem_cons_self ..))).1
    have hne : c.toNat ≠ '0'.toNat := fun h => hc (Char.toNat_inj.mp h)
    have hle := le_withDigits (10 * 0 + (c.toNat - '0'.toNat)) rest
    rw [ofDigits_eq_withDigits, withDigits_cons]
    omega

theorem decimal_ofDigits {digits : List Char} (h : IsNumeral digits) :
    decimal (ofDigits digits) = digits := by
  induction digits using List.reverseRecOn with
  | nil => exact absurd rfl h.ne_nil
  | append_singleton front c ih =>
    have hc := h.isDigit c (by simp)
    have hlt := toNat_of_isDigit hc
    rw [ofDigits_concat]
    by_cases hf : front = []
    · subst hf
      have h0 : ofDigits [] = 0 := rfl
      rw [h0, Nat.mul_zero, Nat.zero_add, decimal, if_pos (by omega), digitChar_toNat hc]
      rfl
    · have hd : ∀ d ∈ front, d.isDigit = true := fun d hd => h.isDigit d (by simp [hd])
      have hz : front.head? ≠ some '0' := by
        intro hz
        have hall := h.lead (by rw [List.head?_append, hz]; rfl)
        have hlen := congrArg List.length hall
        have hpos := List.length_pos_iff.mpr hf
        simp only [List.length_append, List.length_cons, List.length_nil] at hlen
        omega
      have hpos := ofDigits_pos hf hd hz
      rw [decimal, if_neg (by omega)]
      rw [show (10 * ofDigits front + (c.toNat - '0'.toNat)) / 10 = ofDigits front by omega,
        show (10 * ofDigits front + (c.toNat - '0'.toNat)) % 10 = c.toNat - '0'.toNat by omega,
        ih ⟨hf, hd, fun h0 => absurd h0 hz⟩, digitChar_toNat hc]

end RunningTotal
