/-! The length of a text in 16-bit units: a character beyond the basic plane takes two. -/
set_option autoImplicit false

namespace RunningTotal

def units16 (c : Char) : Nat := if c.toNat < 0x10000 then 1 else 2

theorem one_le_units16 (c : Char) : 1 ≤ units16 c := by
  unfold units16
  split <;> omega

def length16 (text : String) : Nat := text.toList.foldr (fun c n => units16 c + n) 0

end RunningTotal
