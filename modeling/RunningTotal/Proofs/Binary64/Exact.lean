import Mathlib.Algebra.Order.Field.Power
import Mathlib.Data.Rat.Lemmas
import Mathlib.Tactic.FieldSimp
import Mathlib.Tactic.Linarith
import Mathlib.Tactic.Positivity
import Mathlib.Tactic.Ring
import RunningTotal.Binary64.Arithmetic

/-! Values of `Binary64` as exact rational numbers. A finite value is a signed significand times a
power of two (`toRat_eq`), and but for the sign of zero no two of them are the same number
(`eq_of_toRat_eq`). Rounding leaves an integer of at most 53 bits as it is (`toRat_round`) and
takes no longer one back among the safe integers (`isSafe_round`). -/
set_option autoImplicit false

namespace RunningTotal.Binary64

/-! ## Finite values -/

theorem power_eq_zpow (k : Int) (h : 0 ≤ k) : ((power 2 k : Nat) : ℚ) = 2 ^ k := by
  obtain ⟨n, rfl⟩ := Int.eq_ofNat_of_zero_le h
  simp [power]

theorem power_of_nonpos (b : Nat) {k : Int} (h : k ≤ 0) : power b k = 1 := by
  rw [power, Int.toNat_eq_zero.mpr h]
  rfl

theorem mkRat_power (m : Nat) (e : Int) :
    mkRat (m * power 2 e) (power 2 (-e)) = (m : ℚ) * 2 ^ e := by
  rw [Rat.mkRat_eq_div]
  rcases le_total 0 e with he | he
  · rw [power_of_nonpos 2 (by omega : -e ≤ 0)]
    push_cast
    rw [power_eq_zpow e he, div_one]
  · rw [power_of_nonpos 2 he]
    push_cast
    rw [power_eq_zpow (-e) (by omega), zpow_neg, div_inv_eq_mul, mul_one]

theorem Finite.toRat_eq (x : Finite) :
    x.toRat = (if x.negative then -1 else 1) * (x.significand * 2 ^ x.exponent) := by
  simp only [Finite.toRat, mkRat_power]
  split <;> ring

theorem Finite.abs_toRat (x : Finite) : |x.toRat| = x.significand * 2 ^ x.exponent := by
  rw [x.toRat_eq, abs_mul, abs_of_nonneg (by positivity : (0 : ℚ) ≤ x.significand * 2 ^ x.exponent)]
  split <;> simp

theorem Finite.neg_toRat (x : Finite) :
    ({ x with negative := !x.negative } : Finite).toRat = -x.toRat := by
  rw [Finite.toRat_eq, Finite.toRat_eq]
  cases x.negative <;> simp

/-- A greater exponent makes a greater magnitude, since only the least one has short significands. -/
theorem Finite.abs_lt_of_exponent_lt {x y : Finite} (h : x.exponent < y.exponent) :
    |x.toRat| < |y.toRat| := by
  have hx : (x.significand : ℚ) < 2 * leadingBit := by exact_mod_cast x.inRange.1
  have hy : (leadingBit : ℚ) ≤ y.significand := by
    have hmin : y.exponent ≠ -1074 := by
      have := x.inRange.2.2.1
      omega
    exact_mod_cast y.inRange.2.1.resolve_right hmin
  have hp : (0 : ℚ) < 2 ^ x.exponent := by positivity
  rw [x.abs_toRat, y.abs_toRat]
  calc (x.significand : ℚ) * 2 ^ x.exponent
      < 2 * leadingBit * 2 ^ x.exponent := mul_lt_mul_of_pos_right hx hp
    _ = leadingBit * 2 ^ (x.exponent + 1) := by
        rw [zpow_add_one₀ (by norm_num)]
        ring
    _ ≤ leadingBit * 2 ^ y.exponent :=
        mul_le_mul_of_nonneg_left (zpow_le_zpow_right₀ (by norm_num) h) (by positivity)
    _ ≤ y.significand * 2 ^ y.exponent := mul_le_mul_of_nonneg_right hy (by positivity)

theorem Finite.negative_iff {x : Finite} (h : x.toRat ≠ 0) : x.negative = true ↔ x.toRat < 0 := by
  have hpos : 0 < |x.toRat| := abs_pos.mpr h
  rw [x.abs_toRat] at hpos
  rw [x.toRat_eq]
  cases x.negative
  · simpa using hpos.le
  · simpa using hpos

/-- But for zero, a number has one form. -/
theorem Finite.eq_of_toRat_eq {x y : Finite} (h : x.toRat = y.toRat) (hne : x.toRat ≠ 0) :
    x = y := by
  have hexp : x.exponent = y.exponent := by
    rcases lt_trichotomy x.exponent y.exponent with hlt | heq | hgt
    · exact absurd (congrArg abs h) (Finite.abs_lt_of_exponent_lt hlt).ne
    · exact heq
    · exact absurd (congrArg abs h) (Finite.abs_lt_of_exponent_lt hgt).ne'
  have hneg : x.negative = y.negative := by
    rw [Bool.eq_iff_iff, Finite.negative_iff hne, Finite.negative_iff (h ▸ hne), h]
  have hsig : x.significand = y.significand := by
    have habs := congrArg abs h
    rw [x.abs_toRat, y.abs_toRat, hexp] at habs
    exact_mod_cast mul_right_cancel₀ (by positivity) habs
  cases x
  cases y
  simp_all

/-! ## Integers -/

theorem toInt?_finite_iff {x : Finite} {n : Int} : (finite x).toInt? = some n ↔ x.toRat = n := by
  simp only [toInt?, Option.ite_none_right_eq_some, Option.some.injEq]
  constructor
  · rintro ⟨hden, rfl⟩
    exact (Rat.coe_int_num_of_den_eq_one hden).symm
  · intro h
    rw [h]
    exact ⟨Rat.den_intCast n, Rat.num_intCast n⟩

theorem exists_finite_of_toInt? {x : Binary64} {n : Int} (h : x.toInt? = some n) :
    ∃ y : Finite, x = finite y ∧ y.toRat = n := by
  cases x with
  | nan => simp [toInt?] at h
  | infinite s => simp [toInt?] at h
  | finite y => exact ⟨y, rfl, toInt?_finite_iff.mp h⟩

theorem safeInt?_eq_some_iff {x : Binary64} {n : Int} :
    x.safeInt? = some n ↔ x.toInt? = some n ∧ n.natAbs ≤ safeLimit := by
  simp [safeInt?, Option.filter_eq_some_iff]

theorem isSafe_iff {x : Binary64} :
    x.isSafe = true ↔ ∃ n, x.toInt? = some n ∧ n.natAbs ≤ safeLimit := by
  simp only [isSafe, Option.isSome_iff_exists, safeInt?_eq_some_iff]

/-! ## Rounding an integer -/

theorem leadingBit_eq : leadingBit = 2 ^ 52 := by decide

theorem two_mul_leadingBit : 2 * leadingBit = 2 ^ 53 := by decide

theorem roundHalfEven_one (n : Nat) : roundHalfEven n 1 = n := by
  simp [roundHalfEven, Nat.mod_one]

theorem div_le_roundHalfEven (n d : Nat) : n / d ≤ roundHalfEven n d := by
  unfold roundHalfEven
  dsimp only
  split_ifs <;> omega

theorem scaleUp_of_nonpos (n : Nat) {k : Int} (h : k ≤ 0) : scaleUp n k = n := by
  rw [scaleUp, power_of_nonpos 2 h, Nat.mul_one]

theorem scaleUp_natCast (n k : Nat) : scaleUp n (k : Int) = n * 2 ^ k := by
  rw [scaleUp, power, Int.toNat_natCast]
  rfl

theorem floorLog2_one {n : Nat} (h : 0 < n) : floorLog2 n 1 = n.log2 := by
  have h1 : Nat.log2 1 = 0 := by decide
  have hle := Nat.log2_self_le h.ne'
  simp only [floorLog2, h1, Nat.cast_zero, sub_zero]
  rw [scaleUp_natCast, scaleUp_of_nonpos n (by omega), if_pos (by omega)]

theorem exists_round_eq {n : Nat} (s : Bool) (hpos : 0 < n) (hlt : n < 2 * leadingBit) :
    ∃ x : Finite, round s n 1 = finite x ∧ x.negative = s ∧ |x.toRat| = n := by
  have hlow := Nat.log2_self_le hpos.ne'
  have hhigh := Nat.lt_log2_self (n := n)
  have hlog : n.log2 ≤ 52 := by
    by_contra hgt
    have hpow : 2 ^ 53 ≤ 2 ^ n.log2 := Nat.pow_le_pow_right (by omega) (by omega)
    rw [two_mul_leadingBit] at hlt
    omega
  have hmax : max ((n.log2 : Int) - 52) (-1074) = (n.log2 : Int) - 52 := by omega
  have hneg : -((n.log2 : Int) - 52) = ((52 - n.log2 : Nat) : Int) := by omega
  have hmul : n * 2 ^ (52 - n.log2) < 2 * leadingBit := by
    calc n * 2 ^ (52 - n.log2) < 2 ^ (n.log2 + 1) * 2 ^ (52 - n.log2) :=
          Nat.mul_lt_mul_of_pos_right hhigh (Nat.two_pow_pos _)
      _ = 2 ^ 53 := by rw [← Nat.pow_add]; congr 1; omega
      _ = 2 * leadingBit := two_mul_leadingBit.symm
  have hlead : leadingBit ≤ n * 2 ^ (52 - n.log2) := by
    calc leadingBit = 2 ^ n.log2 * 2 ^ (52 - n.log2) := by
          rw [← Nat.pow_add, Nat.add_sub_cancel' hlog, leadingBit_eq]
      _ ≤ n * 2 ^ (52 - n.log2) := Nat.mul_le_mul_right _ hlow
  have hrange : InRange (n * 2 ^ (52 - n.log2)) ((n.log2 : Int) - 52) :=
    ⟨hmul, .inl hlead, by omega, by omega⟩
  refine ⟨⟨s, _, _, hrange⟩, ?_, rfl, ?_⟩
  · simp only [round, if_neg hpos.ne', floorLog2_one hpos, hmax, hneg]
    rw [scaleUp_natCast, scaleUp_of_nonpos 1 (by omega), roundHalfEven_one, if_neg hmul.ne, pack,
      dif_pos hrange]
  · rw [Finite.abs_toRat]
    have hzpow : (2 : ℚ) ^ ((n.log2 : Int) - 52) = (2 ^ (52 - n.log2))⁻¹ := by
      rw [← neg_neg ((n.log2 : Int) - 52), hneg, zpow_neg, zpow_natCast]
    simp only [hzpow]
    push_cast
    field_simp

theorem isSafe_pack {s : Bool} {m : Nat} {e : Int} (hm : leadingBit ≤ m) (he : 1 ≤ e) :
    (pack s m e).isSafe = false := by
  rw [Bool.eq_false_iff, ne_eq, isSafe_iff]
  rintro ⟨n, hn, hle⟩
  unfold pack at hn
  split at hn
  · have hval := congrArg abs (toInt?_finite_iff.mp hn)
    rw [Finite.abs_toRat] at hval
    have hbig : (safeLimit : ℚ) < m * 2 ^ e := by
      calc (safeLimit : ℚ) < leadingBit * 2 ^ (1 : Int) := by norm_num [safeLimit, leadingBit]
        _ ≤ m * 2 ^ e := mul_le_mul (by exact_mod_cast hm)
            (zpow_le_zpow_right₀ (by norm_num) he) (by positivity) (by positivity)
    have habs : |(n : ℚ)| ≤ safeLimit := by
      rw [← Int.cast_abs, Int.abs_eq_natAbs]
      exact_mod_cast hle
    rw [← hval] at habs
    exact absurd hbig (not_lt.mpr habs)
  · simp [toInt?] at hn

theorem isSafe_round {n : Nat} (s : Bool) (h : 2 * leadingBit ≤ n) :
    (round s n 1).isSafe = false := by
  have hpos : 0 < n := lt_of_lt_of_le (by decide) h
  have hlow := Nat.log2_self_le hpos.ne'
  have hhigh := Nat.lt_log2_self (n := n)
  have hlog : 53 ≤ n.log2 := by
    by_contra hlt
    have hpow : 2 ^ (n.log2 + 1) ≤ 2 ^ 53 := Nat.pow_le_pow_right (by omega) (by omega)
    rw [two_mul_leadingBit] at h
    omega
  have hmax : max ((n.log2 : Int) - 52) (-1074) = ((n.log2 - 52 : Nat) : Int) := by omega
  have hlead : leadingBit ≤ roundHalfEven n (1 * 2 ^ (n.log2 - 52)) := by
    refine le_trans ?_ (div_le_roundHalfEven _ _)
    rw [Nat.one_mul, Nat.le_div_iff_mul_le (Nat.two_pow_pos _)]
    calc leadingBit * 2 ^ (n.log2 - 52) = 2 ^ 52 * 2 ^ (n.log2 - 52) := by rw [leadingBit_eq]
      _ = 2 ^ n.log2 := by rw [← Nat.pow_add, Nat.add_sub_cancel' (by omega)]
      _ ≤ n := hlow
  simp only [round, if_neg hpos.ne', floorLog2_one hpos, hmax]
  rw [scaleUp_natCast, scaleUp_of_nonpos n (by omega)]
  split
  · exact isSafe_pack (le_refl _) (by omega)
  · exact isSafe_pack hlead (by omega)

end RunningTotal.Binary64
