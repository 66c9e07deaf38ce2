/-!
# Sets of code points given by ranges

A set of characters is a list of closed ranges of code points in ascending order, so that a search
may stop at the first range that begins above the character.
-/

namespace SandboxProfile

/-- Closed ranges of code points, lowest first. -/
abbrev CodeRanges := List (Nat × Nat)

namespace CodeRanges

/-- Whether one of the ranges holds the code point. -/
def holds (n : Nat) : CodeRanges → Bool
  | [] => false
  | (low, high) :: more => low ≤ n && (n ≤ high || holds n more)

end CodeRanges

end SandboxProfile
