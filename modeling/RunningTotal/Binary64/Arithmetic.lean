import RunningTotal.Binary64.Basic

/-! Arithmetic on `Binary64`: each operation is the exact one on rational values, rounded once.
`toInt?` gives an integral value as an integer, and `safeLimit` is the greatest number below
which every integer is a value and so is its successor. -/
set_option autoImplicit false

namespace RunningTotal.Binary64

/-! ## Operations -/

/-- A sum of two zeros is negative only if both are; opposite infinities have no sum. -/
def add : Binary64 → Binary64 → Binary64
  | .nan, _ => .nan
  | _, .nan => .nan
  | .infinite s, .infinite t => if s = t then .infinite s else .nan
  | .infinite s, .finite _ => .infinite s
  | .finite _, .infinite t => .infinite t
  | .finite x, .finite y => ofRat (x.negative && y.negative) (x.toRat + y.toRat)

def neg : Binary64 → Binary64
  | .nan => .nan
  | .infinite s => .infinite !s
  | .finite x => .finite { x with negative := !x.negative }

def mul : Binary64 → Binary64 → Binary64
  | .nan, _ => .nan
  | _, .nan => .nan
  | .infinite s, .infinite t => .infinite (s != t)
  | .infinite s, .finite y => if y.significand = 0 then .nan else .infinite (s != y.negative)
  | .finite x, .infinite t => if x.significand = 0 then .nan else .infinite (x.negative != t)
  | .finite x, .finite y => ofRat (x.negative != y.negative) (x.toRat * y.toRat)

def div : Binary64 → Binary64 → Binary64
  | .nan, _ => .nan
  | _, .nan => .nan
  | .infinite _, .infinite _ => .nan
  | .infinite s, .finite y => .infinite (s != y.negative)
  | .finite x, .infinite t => zero (x.negative != t)
  | .finite x, .finite y =>
    if y.significand ≠ 0 then ofRat (x.negative != y.negative) (x.toRat / y.toRat)
    else if x.significand = 0 then .nan else .infinite (x.negative != y.negative)

instance : Add Binary64 := ⟨add⟩
instance : Neg Binary64 := ⟨neg⟩
instance : Sub Binary64 := ⟨fun x y => add x (neg y)⟩
instance : Mul Binary64 := ⟨mul⟩
instance : Div Binary64 := ⟨div⟩

/-- The numeric order; a number that is not one is below nothing. -/
def lt : Binary64 → Binary64 → Bool
  | .nan, _ => false
  | _, .nan => false
  | .infinite s, .infinite t => s && !t
  | .infinite s, .finite _ => s
  | .finite _, .infinite t => !t
  | .finite x, .finite y => decide (x.toRat < y.toRat)

/-! ## Integers -/

/-- The greatest safe integer, `2 ^ 53 - 1`. -/
def safeLimit : Nat := 9007199254740991

/-- An integral value as an integer; both zeros are `0`. -/
def toInt? : Binary64 → Option Int
  | .finite x => if x.toRat.den = 1 then some x.toRat.num else none
  | _ => none

/-- The value as an integer of at most `safeLimit` either way. -/
def safeInt? (x : Binary64) : Option Int :=
  x.toInt?.filter fun n => n.natAbs ≤ safeLimit

def isSafe (x : Binary64) : Bool := x.safeInt?.isSome

/-- A safe integer that is not below zero. -/
def isSafeNatural (x : Binary64) : Bool := x.isSafe && !x.lt (zero false)

end RunningTotal.Binary64
