/-! Binary floating-point numbers of 64 bits, as exact data: `Binary64` is a number that is not
one, an infinity, or a signed significand times a power of two. `Binary64.round` is the value
nearest to a quotient, a half going to the even significand; every other module reaches a
`Binary64` through it or through `zero`. -/
set_option autoImplicit false

namespace RunningTotal

/-! ## Values -/

namespace Binary64

/-- The first number of 53 bits, `2 ^ 52`. -/
def leadingBit : Nat := 4503599627370496

/-- A significand has 53 bits, fewer only under the least exponent, so a value has one form. -/
def InRange (significand : Nat) (exponent : Int) : Prop :=
  significand < 2 * leadingBit ∧ (leadingBit ≤ significand ∨ exponent = -1074) ∧
    -1074 ≤ exponent ∧ exponent ≤ 971

instance (significand : Nat) (exponent : Int) : Decidable (InRange significand exponent) :=
  inferInstanceAs (Decidable (_ ∧ _))

/-- The value `± significand * 2 ^ exponent`. -/
structure Finite where
  negative : Bool
  significand : Nat
  exponent : Int
  inRange : InRange significand exponent
  deriving DecidableEq

end Binary64

inductive Binary64 where
  | nan
  | infinite (negative : Bool)
  | finite (value : Binary64.Finite)
  deriving DecidableEq

namespace Binary64

def zero (negative : Bool) : Binary64 := .finite ⟨negative, 0, -1074, by decide⟩

/-- Parts beyond the greatest exponent are an overflow. -/
def pack (negative : Bool) (significand : Nat) (exponent : Int) : Binary64 :=
  if h : InRange significand exponent then .finite ⟨negative, significand, exponent, h⟩
  else .infinite negative

/-- The power `b ^ k` where it is a natural number, else one. -/
def power (b : Nat) (k : Int) : Nat := Nat.pow b k.toNat

def Finite.toRat (x : Finite) : Rat :=
  let magnitude := mkRat (x.significand * power 2 x.exponent) (power 2 (-x.exponent))
  if x.negative then -magnitude else magnitude

/-! ## Rounding a quotient -/

/-- The natural number nearest to `n / d`, a half going to the even one. -/
def roundHalfEven (n d : Nat) : Nat :=
  let q := n / d
  let r := n % d
  if 2 * r < d then q
  else if d < 2 * r then q + 1
  else if q % 2 = 0 then q else q + 1

/-- Moves a factor `2 ^ k` into `n` when `k` is positive. -/
def scaleUp (n : Nat) (k : Int) : Nat := n * power 2 k

/-- The greatest `k` with `2 ^ k ≤ n / d`. -/
def floorLog2 (n d : Nat) : Int :=
  let k : Int := (n.log2 : Int) - d.log2
  if scaleUp d k ≤ scaleUp n (-k) then k else k - 1

/-- The value nearest to `± n / d`, ties to even. -/
def round (negative : Bool) (n d : Nat) : Binary64 :=
  if n = 0 then zero negative
  else
    let e := max (floorLog2 n d - 52) (-1074)
    let m := roundHalfEven (scaleUp n (-e)) (scaleUp d e)
    if m = 2 * leadingBit then pack negative leadingBit (e + 1) else pack negative m e

/-- A quotient that is zero has the sign `negative`, any other its own. -/
def ofRat (negative : Bool) (q : Rat) : Binary64 :=
  if q = 0 then zero negative else round (decide (q < 0)) q.num.natAbs q.den

def ofNat (n : Nat) : Binary64 := round false n 1

def ofInt (n : Int) : Binary64 := round (decide (n < 0)) n.natAbs 1

end Binary64

end RunningTotal
