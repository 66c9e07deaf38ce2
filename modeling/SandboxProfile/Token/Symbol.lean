import SandboxProfile.Text.Letter

/-!
# The characters of symbols

A symbol begins with a letter of any script or one of a few signs, and goes on with these, digits
and other numerals. Whatever can begin a symbol can also stand inside one (`isContinue_of_isStart`).
-/

namespace SandboxProfile

namespace Symbol

/-- The signs that stand in symbols besides letters and numerals. -/
def signs : List Char :=
  ['_', '$', '*', '-', '+', '/', '<', '>', '=', '?', '!', '.', ':', '\x27', '%']

def isStart (c : Char) : Bool := Letter.isLetter c || signs.contains c

def isContinue (c : Char) : Bool := Letter.isLetter c || Letter.isNumeral c || signs.contains c

theorem isContinue_of_isStart {c : Char} (h : isStart c) : isContinue c := by
  simp only [isStart, isContinue, Bool.or_eq_true] at h ⊢
  rcases h with h | h
  · exact .inl (.inl h)
  · exact .inr h

end Symbol

end SandboxProfile
