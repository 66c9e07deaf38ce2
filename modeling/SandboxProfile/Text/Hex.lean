/-!
# Hexadecimal digits
-/

namespace SandboxProfile

namespace Hex

/-- The value of a hexadecimal digit in either case. -/
def digit? (c : Char) : Option Nat :=
  if c.isDigit then some (c.toNat - '0'.toNat)
  else if 'a' ≤ c && c ≤ 'f' then some (c.toNat - 'a'.toNat + 10)
  else if 'A' ≤ c && c ≤ 'F' then some (c.toNat - 'A'.toNat + 10)
  else none

def isDigit (c : Char) : Bool := (digit? c).isSome

/-- The number that hexadecimal digits write. -/
def number (ds : List Char) : Nat := ds.foldl (fun n d => n * 16 + (digit? d).getD 0) 0

end Hex

end SandboxProfile
