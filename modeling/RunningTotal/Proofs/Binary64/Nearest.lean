import RunningTotal.Proofs.Binary64.Integer

/-! Rounding an integer gives the value nearest to it, ties to even (`isNearest_ofInt`). Half-to-even
division is nearest on the grid of its divisor (`abs_roundHalfEven_le`), and a value off the grid
has a lesser exponent, which leaves it below the whole binade (`abs_sub_lt_of_exponent_lt`). -/
set_option autoImplicit false

namespace RunningTotal.Binary64

/-- No finite value is nearer to the number; where another is as near, the significand is even. -/
def IsNearest (q : ℚ) (v : Binary64) : Prop :=
  ∃ x : Finite, v = finite x ∧ ∀ y : Finite, |x.toRat - q| ≤ |y.toRat - q| ∧
    (y.toRat ≠ x.toRat → |y.toRat - q| = |x.toRat - q| → x.significand % 2 = 0)

/-! ## On a grid -/

theorem roundHalfEven_le_succ (n d : Nat) : roundHalfEven n d ≤ n / d + 1 := by
  unfold roundHalfEven
  dsimp only
  split_ifs <;> omega

theorem two_mul_abs_roundHalfEven (n : Nat) {d : Nat} (hd : 0 < d) :
    2 * |(roundHalfEven n d * d : ℤ) - n| ≤ d ∧
      (2 * |(roundHalfEven n d * d : ℤ) - n| = d → roundHalfEven n d % 2 = 0) := by
  have hmod : n % d < d := Nat.mod_lt n hd
  have hdiv : ((n / d : Nat) : ℤ) * d - n = -((n % d : Nat) : ℤ) := by
    have h := congrArg (Nat.cast (R := ℤ)) (Nat.div_add_mod n d)
    push_cast at h ⊢
    linarith
  have hsucc : ((n / d + 1 : Nat) : ℤ) * d - n = d - ((n % d : Nat) : ℤ) := by
    rw [Nat.cast_add, Nat.cast_one, add_mul, one_mul]
    omega
  unfold roundHalfEven
  dsimp only
  split_ifs with hlow hhigh heven
  · rw [hdiv, abs_neg, Nat.abs_cast]
    omega
  · rw [hsucc, abs_of_nonneg (by omega)]
    omega
  · rw [hdiv, abs_neg, Nat.abs_cast]
    omega
  · rw [hsucc, abs_of_nonneg (by omega)]
    omega

theorem abs_roundHalfEven_le (n : Nat) {d : Nat} (hd : 0 < d) (k : ℤ) :
    |(roundHalfEven n d * d : ℤ) - n| ≤ |k * d - n| ∧
      (k ≠ roundHalfEven n d → |k * d - n| = |(roundHalfEven n d * d : ℤ) - n| →
        roundHalfEven n d % 2 = 0) := by
  obtain ⟨hhalf, heven⟩ := two_mul_abs_roundHalfEven n hd
  rcases eq_or_ne k (roundHalfEven n d) with rfl | hk
  · exact ⟨le_refl _, fun h => absurd rfl h⟩
  · -- another point of the grid is at least one step away
    have hstep : (d : ℤ) ≤ |k * d - n| + |(roundHalfEven n d * d : ℤ) - n| := by
      calc (d : ℤ) = 1 * |(d : ℤ)| := by rw [one_mul, Nat.abs_cast]
        _ ≤ |k - roundHalfEven n d| * |(d : ℤ)| :=
            mul_le_mul_of_nonneg_right (Int.one_le_abs (sub_ne_zero.mpr hk)) (abs_nonneg _)
        _ = |(k * d - n) - (roundHalfEven n d * d - n)| := by
            rw [← abs_mul]
            congr 1
            ring
        _ ≤ |k * d - n| + |(roundHalfEven n d * d : ℤ) - n| := abs_sub _ _
    exact ⟨by omega, fun _ heq => heven (by omega)⟩

theorem Finite.exists_toRat_eq_mul {y : Finite} {e : Nat} (h : (e : Int) ≤ y.exponent) :
    ∃ k : ℤ, y.toRat = k * 2 ^ e := by
  obtain ⟨j, hj⟩ := Int.eq_ofNat_of_zero_le (sub_nonneg.mpr h)
  have hexp : y.exponent = (j : Int) + e := by omega
  refine ⟨(if y.negative then -1 else 1) * (y.significand * 2 ^ j), ?_⟩
  rw [y.toRat_eq, hexp, zpow_add₀ (by norm_num), zpow_natCast, zpow_natCast]
  push_cast
  split <;> ring

theorem Finite.abs_toRat_lt {y : Finite} {e : Nat} (h : y.exponent < e) :
    |y.toRat| < leadingBit * 2 ^ e := by
  have hsig : (y.significand : ℚ) < 2 * leadingBit := by exact_mod_cast y.inRange.1
  rw [y.abs_toRat]
  calc (y.significand : ℚ) * 2 ^ y.exponent
      < 2 * leadingBit * 2 ^ y.exponent := mul_lt_mul_of_pos_right hsig (by positivity)
    _ = leadingBit * 2 ^ (y.exponent + 1) := by
        rw [zpow_add_one₀ (by norm_num)]
        ring
    _ ≤ leadingBit * 2 ^ (e : Int) :=
        mul_le_mul_of_nonneg_left (zpow_le_zpow_right₀ (by norm_num) h) (by positivity)
    _ = leadingBit * 2 ^ e := by rw [zpow_natCast]

/-! ## Integers of more than 53 bits -/

theorem exists_pack_eq {m : Nat} {e : Nat} (hlow : leadingBit ≤ m) (hhigh : m < 2 * leadingBit)
    (he : e ≤ 971) :
    ∃ x : Finite, pack false m e = finite x ∧ x.toRat = m * 2 ^ e ∧ x.significand = m := by
  have hrange : InRange m e := ⟨hhigh, .inl hlow, by omega, by omega⟩
  refine ⟨⟨false, m, e, hrange⟩, by rw [pack, dif_pos hrange], ?_, rfl⟩
  rw [Finite.toRat_eq]
  simp

variable {n : Nat}

theorem leadingBit_mul_le (h : 53 ≤ n.log2) : leadingBit * 2 ^ (n.log2 - 52) ≤ n := by
  have hne : n ≠ 0 := by
    rintro rfl
    exact absurd h (by decide)
  calc leadingBit * 2 ^ (n.log2 - 52) = 2 ^ n.log2 := by
        rw [leadingBit_eq, ← Nat.pow_add, Nat.add_sub_cancel' (by omega)]
    _ ≤ n := Nat.log2_self_le hne

theorem exists_ofNat_eq (hlow : 53 ≤ n.log2) (hhigh : n.log2 < 1023) :
    let m := roundHalfEven n (2 ^ (n.log2 - 52))
    ∃ x : Finite, ofNat n = finite x ∧ x.toRat = m * 2 ^ (n.log2 - 52) ∧
      (m % 2 = 0 → x.significand % 2 = 0) := by
  intro m
  have hpos : 0 < n :=
    lt_of_lt_of_le (Nat.mul_pos (by decide) (Nat.two_pow_pos _)) (leadingBit_mul_le hlow)
  have hmax : max ((n.log2 : Int) - 52) (-1074) = ((n.log2 - 52 : Nat) : Int) := by omega
  have hround : ofNat n =
      if m = 2 * leadingBit then pack false leadingBit ((n.log2 - 52 : Nat) + 1)
      else pack false m (n.log2 - 52 : Nat) := by
    simp only [ofNat, round, if_neg hpos.ne', floorLog2_one hpos, hmax]
    rw [scaleUp_natCast, scaleUp_of_nonpos n (by omega), Nat.one_mul]
  have hm : leadingBit ≤ m ∧ m ≤ 2 * leadingBit := by
    have hge : leadingBit ≤ n / 2 ^ (n.log2 - 52) :=
      (Nat.le_div_iff_mul_le (Nat.two_pow_pos _)).mpr (leadingBit_mul_le hlow)
    have hlt : n / 2 ^ (n.log2 - 52) < 2 * leadingBit := by
      have hexp : 53 + (n.log2 - 52) = n.log2 + 1 := by omega
      rw [Nat.div_lt_iff_lt_mul (Nat.two_pow_pos _), two_mul_leadingBit, ← Nat.pow_add, hexp]
      exact Nat.lt_log2_self
    exact ⟨le_trans hge (div_le_roundHalfEven _ _), le_trans (roundHalfEven_le_succ _ _) hlt⟩
  rcases eq_or_ne m (2 * leadingBit) with heq | hne
  · obtain ⟨x, hx, hval, hsig⟩ :=
      exists_pack_eq (e := n.log2 - 52 + 1) (le_refl leadingBit) (by decide) (by omega)
    refine ⟨x, by rw [hround, if_pos heq, ← hx]; rfl, ?_, fun _ => by rw [hsig]; decide⟩
    rw [hval, heq]
    push_cast
    ring
  · obtain ⟨x, hx, hval, hsig⟩ :=
      exists_pack_eq (e := n.log2 - 52) hm.1 (lt_of_le_of_ne hm.2 hne) (by omega)
    exact ⟨x, by rw [hround, if_neg hne, hx], hval, fun h => by rw [hsig, h]⟩

theorem cast_grid_sub (k : ℤ) :
    (k : ℚ) * 2 ^ (n.log2 - 52) - n = ((k * (2 ^ (n.log2 - 52) : Nat) - n : ℤ) : ℚ) := by
  push_cast
  ring

theorem abs_sub_lt_of_exponent_lt (hlow : 53 ≤ n.log2) {y : Finite}
    (h : y.exponent < (n.log2 - 52 : Nat)) :
    |(roundHalfEven n (2 ^ (n.log2 - 52)) : ℚ) * 2 ^ (n.log2 - 52) - n| < |y.toRat - n| := by
  have hbest := (abs_roundHalfEven_le n (Nat.two_pow_pos (n.log2 - 52)) leadingBit).1
  have hlead : (leadingBit : ℚ) * 2 ^ (n.log2 - 52) ≤ n := by exact_mod_cast leadingBit_mul_le hlow
  have hy := Finite.abs_toRat_lt h
  calc |(roundHalfEven n (2 ^ (n.log2 - 52)) : ℚ) * 2 ^ (n.log2 - 52) - n|
      ≤ |(leadingBit : ℚ) * 2 ^ (n.log2 - 52) - n| := by
        rw [← Int.cast_natCast (roundHalfEven _ _), ← Int.cast_natCast leadingBit, cast_grid_sub,
          cast_grid_sub, ← Int.cast_abs, ← Int.cast_abs]
        exact Int.cast_le.mpr hbest
    _ = n - leadingBit * 2 ^ (n.log2 - 52) := by
        rw [abs_sub_comm, abs_of_nonneg (sub_nonneg.mpr hlead)]
    _ < n - |y.toRat| := by linarith
    _ ≤ n - y.toRat := by linarith [le_abs_self y.toRat]
    _ ≤ |y.toRat - n| := by
        rw [abs_sub_comm]
        exact le_abs_self _

/-! ## Among all values -/

theorem isNearest_ofNat (h : n.log2 < 1023) : IsNearest n (ofNat n) := by
  rcases Nat.lt_or_ge n (2 * leadingBit) with hlt | hge
  · have hsafe : n ≤ safeLimit := Nat.le_of_lt_succ hlt
    obtain ⟨x, hx, -, hval⟩ := exists_ofInt_eq (n := n) hsafe
    rw [ofInt_natCast] at hx
    rw [Int.cast_natCast] at hval
    refine ⟨x, hx, fun y => ?_⟩
    rw [hval, sub_self, abs_zero]
    exact ⟨abs_nonneg _, fun hne heq => absurd (sub_eq_zero.mp (abs_eq_zero.mp heq)) hne⟩
  · have hne : n ≠ 0 := by
      rintro rfl
      exact absurd hge (by decide)
    have hlow : 53 ≤ n.log2 := (Nat.le_log2 hne).mpr (two_mul_leadingBit ▸ hge)
    obtain ⟨x, hx, hval, heven⟩ := exists_ofNat_eq hlow h
    refine ⟨x, hx, fun y => ?_⟩
    rw [hval]
    rcases le_or_gt ((n.log2 - 52 : Nat) : Int) y.exponent with hgrid | hbelow
    · obtain ⟨k, hk⟩ := Finite.exists_toRat_eq_mul hgrid
      obtain ⟨hle, htie⟩ := abs_roundHalfEven_le n (Nat.two_pow_pos (n.log2 - 52)) k
      rw [hk, ← Int.cast_natCast (roundHalfEven _ _), cast_grid_sub, cast_grid_sub, ← Int.cast_abs,
        ← Int.cast_abs]
      refine ⟨Int.cast_le.mpr hle, fun hne heq => heven (htie ?_ (Int.cast_injective heq))⟩
      rintro rfl
      exact hne rfl
    · have hfar := abs_sub_lt_of_exponent_lt hlow hbelow
      exact ⟨hfar.le, fun _ heq => absurd heq hfar.ne'⟩

theorem IsNearest.neg {q : ℚ} {v : Binary64} (h : IsNearest q v) : IsNearest (-q) (neg v) := by
  obtain ⟨x, rfl, hx⟩ := h
  refine ⟨_, rfl, fun y => ?_⟩
  -- the values are as far from `-q` as their negations are from `q`
  have hflip (a : ℚ) : |a - -q| = |-a - q| := by
    rw [← abs_neg]
    congr 1
    ring
  have hy := hx { y with negative := !y.negative }
  rw [y.neg_toRat] at hy
  rw [x.neg_toRat, hflip, hflip, neg_neg]
  exact ⟨hy.1, fun hne => hy.2 fun heq => hne (by rw [← heq, neg_neg])⟩

theorem round_not (s : Bool) (n d : Nat) : round (!s) n d = neg (round s n d) := by
  have hpack (m : Nat) (e : Int) : pack (!s) m e = neg (pack s m e) := by
    unfold pack
    split <;> rfl
  unfold round
  dsimp only
  split_ifs
  · rfl
  · exact hpack _ _
  · exact hpack _ _

/-- Rounding an integer short of an overflow gives the nearest value, ties to even. -/
theorem isNearest_ofInt {n : Int} (h : n.natAbs.log2 < 1023) : IsNearest n (ofInt n) := by
  have hround := isNearest_ofNat h
  rcases lt_or_ge n 0 with hneg | hnonneg
  · rw [ofInt, decide_eq_true hneg, ← Bool.not_false, round_not]
    have hcast : (n : ℚ) = -(n.natAbs : ℚ) := by
      rw [Nat.cast_natAbs, Int.cast_abs, abs_of_neg (by exact_mod_cast hneg), neg_neg]
    rw [hcast]
    exact hround.neg
  · obtain ⟨k, rfl⟩ := Int.eq_ofNat_of_zero_le hnonneg
    rw [ofInt_natCast, Int.cast_natCast]
    exact hround

end RunningTotal.Binary64
