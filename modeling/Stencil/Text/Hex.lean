/-!
# Hexadecimal digits
-/

namespace Stencil.Text

def hexValue? (c : Char) : Option Nat :=
  if c.isDigit then some (c.toNat - '0'.toNat)
  else if 'a' ≤ c ∧ c ≤ 'f' then some (c.toNat - 'a'.toNat + 10)
  else if 'A' ≤ c ∧ c ≤ 'F' then some (c.toNat - 'A'.toNat + 10)
  else none

/-- The number that a row of digits denotes in a base; characters that are no digits are passed over. -/
def natOfBase (base : Nat) (ds : List Char) : Nat :=
  (ds.filterMap hexValue?).foldl (fun n d => base * n + d) 0

def char? (n : Nat) : Option Char := if n.isValidChar then some (Char.ofNat n) else none

end Stencil.Text
