import RunningTotal.Binary64.Numeral
import RunningTotal.Proofs.Binary64.Exact

/-! Integer arithmetic on `Binary64`. `ofInt` is exact on safe integers (`toInt?_ofInt`) and leaves
the others unsafe (`isSafe_ofInt`); a value that is an integer of any size is the rounding of it
(`ofInt_of_toInt?`). A sum of integers is the exact one, rounded once
(`exists_add_eq`), so the rounded result is safe just when the exact one is (`isSafe_ofRat`). -/
set_option autoImplicit false

namespace RunningTotal.Binary64

/-! ## Safe integers -/

theorem ofInt_natCast (n : Nat) : ofInt n = ofNat n := by
  rw [ofInt, ofNat, decide_eq_false (by omega), Int.natAbs_natCast]

theorem ofNat_zero : ofNat 0 = zero false := rfl

theorem exists_ofInt_eq {n : Int} (h : n.natAbs ≤ safeLimit) :
    ∃ x : Finite, ofInt n = finite x ∧ x.negative = decide (n < 0) ∧ x.toRat = n := by
  rcases eq_or_ne n 0 with rfl | hne
  · exact ⟨_, rfl, rfl, by decide +kernel⟩
  · have hpos : 0 < n.natAbs := Int.natAbs_pos.mpr hne
    have hlt : n.natAbs < 2 * leadingBit := lt_of_le_of_lt h (by decide)
    obtain ⟨x, hx, hneg, habs⟩ := exists_round_eq (decide (n < 0)) hpos hlt
    refine ⟨x, hx, hneg, ?_⟩
    rw [x.abs_toRat] at habs
    rw [x.toRat_eq, habs, hneg, Nat.cast_natAbs, Int.cast_abs]
    by_cases hn : n < 0
    · rw [abs_of_neg (by exact_mod_cast hn)]
      simp [hn]
    · rw [abs_of_nonneg (by exact_mod_cast not_lt.mp hn)]
      simp [hn]

theorem toInt?_ofInt {n : Int} (h : n.natAbs ≤ safeLimit) : (ofInt n).toInt? = some n := by
  obtain ⟨x, hx, _, hval⟩ := exists_ofInt_eq h
  rw [hx, toInt?_finite_iff, hval]

theorem isSafe_ofInt (n : Int) : (ofInt n).isSafe = decide (n.natAbs ≤ safeLimit) := by
  by_cases h : n.natAbs ≤ safeLimit
  · rw [decide_eq_true h, isSafe_iff]
    exact ⟨n, toInt?_ofInt h, h⟩
  · rw [decide_eq_false h]
    have hlimit : safeLimit + 1 = 2 * leadingBit := by decide
    exact isSafe_round _ (by omega)

theorem safeInt?_ofInt {n : Int} (h : n.natAbs ≤ safeLimit) : (ofInt n).safeInt? = some n :=
  safeInt?_eq_some_iff.mpr ⟨toInt?_ofInt h, h⟩

theorem safeInt?_ofNat {n : Nat} (h : n ≤ safeLimit) : (ofNat n).safeInt? = some (n : Int) := by
  rw [← ofInt_natCast]
  exact safeInt?_ofInt (by omega)

theorem numeral_ofInt {n : Int} (h : n.natAbs ≤ safeLimit) : (ofInt n).numeral = decimalInt n := by
  unfold numeral
  rw [safeInt?_ofInt h]

theorem eq_zero_of_toRat {x : Finite} (h : x.toRat = 0) : finite x = zero x.negative := by
  have hzero : (x.significand : ℚ) * 2 ^ x.exponent = 0 := by rw [← x.abs_toRat, h, abs_zero]
  have hsig : x.significand = 0 := by
    rcases mul_eq_zero.mp hzero with hs | hp
    · exact_mod_cast hs
    · exact absurd hp (by positivity)
  have hexp : x.exponent = -1074 := by
    refine x.inRange.2.1.resolve_left ?_
    rw [hsig]
    decide
  cases x
  simp_all [zero]

/-- An integer has one form, but for the sign of zero. -/
theorem eq_ofInt {x : Binary64} {n : Int} (h : x.safeInt? = some n) (hx : x ≠ zero true) :
    x = ofInt n := by
  obtain ⟨hval, hle⟩ := safeInt?_eq_some_iff.mp h
  obtain ⟨y, rfl, hy⟩ := exists_finite_of_toInt? hval
  obtain ⟨z, hz, -, hzval⟩ := exists_ofInt_eq hle
  rcases eq_or_ne n 0 with rfl | hne
  · have hzero := eq_zero_of_toRat (by rw [hy, Int.cast_zero] : y.toRat = 0)
    rw [hzero] at hx ⊢
    cases hs : y.negative
    · rfl
    · exact absurd (by rw [hs]) hx
  · rw [hz, Finite.eq_of_toRat_eq (hy.trans hzval.symm) (by rw [hy]; exact_mod_cast hne)]

theorem isSafeNatural_iff {x : Binary64} :
    x.isSafeNatural = true ↔ ∃ n : Nat, x.safeInt? = some (n : Int) := by
  constructor
  · intro h
    simp only [isSafeNatural, Bool.and_eq_true, Bool.not_eq_true'] at h
    obtain ⟨n, hn, hle⟩ := isSafe_iff.mp h.1
    obtain ⟨y, rfl, hy⟩ := exists_finite_of_toInt? hn
    have hzero : Finite.toRat ⟨false, 0, -1074, by decide⟩ = 0 := by decide +kernel
    have hnonneg : 0 ≤ n := by
      have hlt := h.2
      simp only [zero, lt, hzero, hy, decide_eq_false_iff_not, not_lt] at hlt
      exact_mod_cast hlt
    obtain ⟨k, rfl⟩ := Int.eq_ofNat_of_zero_le hnonneg
    exact ⟨k, safeInt?_eq_some_iff.mpr ⟨hn, hle⟩⟩
  · rintro ⟨n, hn⟩
    obtain ⟨hval, hle⟩ := safeInt?_eq_some_iff.mp hn
    obtain ⟨y, rfl, hy⟩ := exists_finite_of_toInt? hval
    have hzero : Finite.toRat ⟨false, 0, -1074, by decide⟩ = 0 := by decide +kernel
    have hlt : (finite y).lt (zero false) = false := by
      simp [zero, lt, hzero, hy]
    simp [isSafeNatural, isSafe, hn, hlt]

/-! ## Integers of any size -/

theorem roundHalfEven_mul (m : Nat) {d : Nat} (hd : 0 < d) : roundHalfEven (m * d) d = m := by
  simp [roundHalfEven, Nat.mul_div_cancel m hd, hd]

theorem round_mul_two_pow {m : Nat} (s : Bool) (hlow : leadingBit ≤ m) (hhigh : m < 2 * leadingBit)
    (e : Nat) : round s (m * 2 ^ e) 1 = pack s m e := by
  have hpos : 0 < m * 2 ^ e := Nat.mul_pos (lt_of_lt_of_le (by decide) hlow) (Nat.two_pow_pos e)
  have hlog : (m * 2 ^ e).log2 = 52 + e := by
    refine (Nat.log2_eq_iff hpos.ne').mpr ⟨?_, ?_⟩
    · rw [Nat.pow_add, ← leadingBit_eq]
      exact Nat.mul_le_mul_right _ hlow
    · calc m * 2 ^ e < 2 * leadingBit * 2 ^ e := Nat.mul_lt_mul_of_pos_right hhigh (Nat.two_pow_pos e)
        _ = 2 ^ (52 + e + 1) := by rw [two_mul_leadingBit, ← Nat.pow_add]; congr 1; omega
  have hmax : max (((52 + e : Nat) : Int) - 52) (-1074) = (e : Int) := by omega
  simp only [round, if_neg hpos.ne', floorLog2_one hpos, hlog, hmax]
  rw [scaleUp_natCast, scaleUp_of_nonpos _ (by omega), Nat.one_mul,
    roundHalfEven_mul m (Nat.two_pow_pos e), if_neg hhigh.ne]

/-- An integral value is the rounding of its integer, however great that is. -/
theorem ofInt_of_toInt? {x : Binary64} {n : Int} (h : x.toInt? = some n) (hx : x ≠ zero true) :
    ofInt n = x := by
  rcases le_or_gt n.natAbs safeLimit with hle | hgt
  · exact (eq_ofInt (safeInt?_eq_some_iff.mpr ⟨h, hle⟩) hx).symm
  · obtain ⟨y, rfl, hy⟩ := exists_finite_of_toInt? h
    have habs : (y.significand : ℚ) * 2 ^ y.exponent = n.natAbs := by
      rw [← y.abs_toRat, hy, Nat.cast_natAbs, Int.cast_abs]
    have hsig : y.significand < 2 * leadingBit := y.inRange.1
    have hexp : 0 < y.exponent := by
      by_contra hle
      have hbound : (n.natAbs : ℚ) ≤ y.significand := by
        rw [← habs]
        exact mul_le_of_le_one_right (Nat.cast_nonneg _)
          (zpow_le_one_of_nonpos₀ (by norm_num) (not_lt.mp hle))
      have hlimit : safeLimit + 1 = 2 * leadingBit := by decide
      have hnat : n.natAbs ≤ y.significand := by exact_mod_cast hbound
      omega
    obtain ⟨e, he⟩ := Int.eq_ofNat_of_zero_le hexp.le
    have hlead : leadingBit ≤ y.significand := y.inRange.2.1.resolve_right (by omega)
    have hnat : n.natAbs = y.significand * 2 ^ e := by
      rw [he, zpow_natCast] at habs
      exact_mod_cast habs.symm
    have hne : y.toRat ≠ 0 := by
      rw [hy, Int.cast_ne_zero]
      omega
    have hneg : y.negative = decide (n < 0) := by
      rw [Bool.eq_iff_iff, Finite.negative_iff hne, hy, Int.cast_lt_zero, decide_eq_true_iff]
    rw [ofInt, hnat, round_mul_two_pow _ hlead hsig, ← he, ← hneg, pack, dif_pos y.inRange]

/-! ## Arithmetic -/

/-- An integral result is rounded as an integer; a zero result keeps the sign it is given. -/
theorem ofRat_intCast (s : Bool) (n : Int) :
    ofRat s (n : ℚ) = if n = 0 then zero s else ofInt n := by
  unfold ofRat ofInt
  simp

theorem ofRat_intCast_eq_ofInt {s : Bool} {n : Int} (h : n = 0 → s = false) :
    ofRat s (n : ℚ) = ofInt n := by
  rw [ofRat_intCast]
  split
  · rename_i hn
    rw [hn, h hn]
    rfl
  · rfl

theorem isSafe_ofRat (s : Bool) (n : Int) :
    (ofRat s (n : ℚ)).isSafe = decide (n.natAbs ≤ safeLimit) := by
  rw [ofRat_intCast]
  split
  · rename_i hn
    subst hn
    cases s <;> decide +kernel
  · exact isSafe_ofInt n

theorem safeInt?_ofRat (s : Bool) {n : Int} (h : n.natAbs ≤ safeLimit) :
    (ofRat s (n : ℚ)).safeInt? = some n := by
  rw [ofRat_intCast]
  split
  · rename_i hn
    subst hn
    cases s <;> decide +kernel
  · exact safeInt?_ofInt h

theorem toInt?_neg {x : Binary64} {n : Int} (h : x.toInt? = some n) : (neg x).toInt? = some (-n) := by
  obtain ⟨y, rfl, hy⟩ := exists_finite_of_toInt? h
  rw [neg, toInt?_finite_iff, Finite.neg_toRat, hy, Int.cast_neg]

theorem sub_eq (x y : Binary64) : x - y = x + neg y := rfl

/-- A sum of integers is the exact one, rounded once; it is minus zero only from minus zero. -/
theorem exists_add_eq {x y : Binary64} {a b : Int} (hx : x.toInt? = some a)
    (hy : y.toInt? = some b) :
    ∃ s, x + y = ofRat s ((a + b : Int) : ℚ) ∧ (x ≠ zero true → a + b = 0 → s = false) := by
  obtain ⟨u, rfl, hu⟩ := exists_finite_of_toInt? hx
  obtain ⟨w, rfl, hw⟩ := exists_finite_of_toInt? hy
  refine ⟨u.negative && w.negative, ?_, ?_⟩
  · rw [Int.cast_add, ← hu, ← hw]
    rfl
  · intro hne hsum
    rw [Bool.and_eq_false_iff]
    rcases lt_trichotomy a 0 with hlt | rfl | hgt
    · right
      have hpos : 0 < w.toRat := by
        rw [hw]
        exact_mod_cast (by omega : 0 < b)
      rw [Bool.eq_false_iff, ne_eq, Finite.negative_iff hpos.ne']
      exact not_lt.mpr hpos.le
    · left
      rw [eq_zero_of_toRat (by rw [hu, Int.cast_zero])] at hne
      rw [Bool.eq_false_iff]
      rintro hneg
      exact hne (by rw [hneg])
    · left
      have hpos : 0 < u.toRat := by
        rw [hu]
        exact_mod_cast hgt
      rw [Bool.eq_false_iff, ne_eq, Finite.negative_iff hpos.ne']
      exact not_lt.mpr hpos.le

theorem ofInt_ne_zero_true (n : Int) : ofInt n ≠ zero true := by
  intro h
  rcases eq_or_ne n 0 with rfl | hne
  · exact absurd h (by decide)
  · have hlt : ¬ n.natAbs ≤ safeLimit := by
      intro hle
      have hval := toInt?_ofInt hle
      rw [h] at hval
      exact hne (Option.some.inj (hval.symm.trans (by decide +kernel)))
    have hsafe := isSafe_ofInt n
    rw [h, decide_eq_false hlt] at hsafe
    exact absurd hsafe (by decide +kernel)

theorem ofInt_add {a b : Int} (ha : a.natAbs ≤ safeLimit) (hb : b.natAbs ≤ safeLimit) :
    ofInt a + ofInt b = ofInt (a + b) := by
  obtain ⟨s, hsum, hs⟩ := exists_add_eq (toInt?_ofInt ha) (toInt?_ofInt hb)
  rw [hsum, ofRat_intCast_eq_ofInt (hs (ofInt_ne_zero_true a))]

theorem ofNat_mul {a b : Nat} (ha : a ≤ safeLimit) (hb : b ≤ safeLimit) :
    ofNat a * ofNat b = ofNat (a * b) := by
  obtain ⟨x, hx, hxneg, hxval⟩ := exists_ofInt_eq (n := a) ha
  obtain ⟨y, hy, hyneg, hyval⟩ := exists_ofInt_eq (n := b) hb
  rw [← ofInt_natCast, ← ofInt_natCast, ← ofInt_natCast, hx, hy]
  change ofRat (x.negative != y.negative) (x.toRat * y.toRat) = _
  rw [hxval, hyval, hxneg, hyneg, ← Int.cast_mul, Nat.cast_mul]
  exact ofRat_intCast_eq_ofInt (fun _ => by simp; omega)

end RunningTotal.Binary64
