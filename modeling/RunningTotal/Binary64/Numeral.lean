import RunningTotal.Binary64.Arithmetic

/-! Numerals: `Binary64.numeral` writes a value with the fewest digits that read back as it, and
`Binary64.ofDecimal` reads a decimal. Safe integers are written out in full; other values take
the digits of `shortest`, written positionally as far as 21 places before the point and six
zeros after it, with an exponent beyond. -/
set_option autoImplicit false

namespace RunningTotal

/-! ## Decimal digits -/

def digitChar (d : Nat) : Char := Char.ofNat ('0'.toNat + d)

/-- The decimal digits of a number, the most significant first. -/
def decimal (n : Nat) : List Char :=
  if n < 10 then [digitChar n] else decimal (n / 10) ++ [digitChar (n % 10)]

/-- The number that a run of decimal digits stands for. -/
def ofDigits (digits : List Char) : Nat :=
  digits.foldl (fun n c => 10 * n + (c.toNat - '0'.toNat)) 0

def decimalInt (n : Int) : List Char :=
  if n < 0 then '-' :: decimal n.natAbs else decimal n.natAbs

namespace Binary64

/-! ## The shortest digits -/

/-- The `p` with `10 ^ (p - 1) ≤ n / d < 10 ^ p`. -/
def decimalPoint (n d : Nat) : Int :=
  if d ≤ n then (decimal (n / d)).length else 1 - (decimal ((d - 1) / n)).length

/-- The decimal on a grid of `k` digits, as a number of grid steps and the exponent of a step,
that is nearest to the magnitude of `x` among those that round to it. -/
def onGrid? (x : Finite) (point : Int) (k : Nat) : Option (Nat × Int) :=
  let g := point - k
  let quarter := power 2 (x.exponent - 2) * power 10 (-g)
  let step := power 10 g * power 2 (2 - x.exponent)
  let value := 4 * x.significand * quarter
  let below := if x.significand = leadingBit ∧ x.exponent ≠ -1074 then quarter else 2 * quarter
  let above := 2 * quarter
  let reads (y : Nat) : Bool :=
    if x.significand % 2 = 0 then decide (value - below ≤ y ∧ y ≤ value + above)
    else decide (value - below < y ∧ y < value + above)
  let s := value / step
  match reads (s * step), reads ((s + 1) * step) with
  | true, true => some (roundHalfEven value step, g)
  | true, false => some (s, g)
  | false, true => some (s + 1, g)
  | false, false => none

/-- The digits of the shortest decimal that reads back as the magnitude of `x`, and the place of
its point counted from before the first digit. Seventeen digits always suffice. -/
def shortest (x : Finite) : List Char × Int :=
  let point := decimalPoint (x.significand * power 2 x.exponent) (power 2 (-x.exponent))
  let grid := ((List.range' 1 17).findSome? (onGrid? x point)).getD (0, 0)
  let digits := decimal grid.1
  ((digits.reverse.dropWhile (· == '0')).reverse, grid.2 + digits.length)

/-! ## Layout -/

def exponentForm (digits : List Char) (point : Int) : List Char :=
  let e := point - 1
  let fraction := if digits.length = 1 then [] else '.' :: digits.drop 1
  digits.take 1 ++ fraction ++ 'e' :: (if e < 0 then '-' else '+') :: decimal e.natAbs

/-- Positional for `0.000001` up to below `10 ^ 21`. -/
def layout (digits : List Char) (point : Int) : List Char :=
  let k : Int := digits.length
  if k ≤ point ∧ point ≤ 21 then digits ++ List.replicate (point - k).toNat '0'
  else if 0 < point ∧ point ≤ 21 then digits.take point.toNat ++ '.' :: digits.drop point.toNat
  else if -6 < point ∧ point ≤ 0 then '0' :: '.' :: List.replicate (-point).toNat '0' ++ digits
  else exponentForm digits point

/-- The written form; zero is written without its sign. -/
def numeral (x : Binary64) : List Char :=
  match x.safeInt? with
  | some n => decimalInt n
  | none =>
    match x with
    | .nan => "NaN".toList
    | .infinite negative => if negative then "-Infinity".toList else "Infinity".toList
    | .finite y =>
      let (digits, point) := shortest y
      if y.negative then '-' :: layout digits point else layout digits point

def text (x : Binary64) : String := String.ofList x.numeral

/-! ## Reading a decimal -/

/-- The value nearest to `± digits * 10 ^ exponent`. Exponents past the range of values are
decided without the power. -/
def ofDecimal (negative : Bool) (digits : Nat) (exponent : Int) : Binary64 :=
  if digits = 0 then zero negative
  else if 310 < exponent then .infinite negative
  else if exponent + (decimal digits).length < -330 then zero negative
  else round negative (digits * power 10 exponent) (power 10 (-exponent))

end Binary64

end RunningTotal
