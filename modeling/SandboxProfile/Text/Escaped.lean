import SandboxProfile.Text.Unprintable

/-!
# Text shown in quotes

Diagnostics and token listings show characters and texts between quotes on one line. The usual
control characters, the backslash and the quote in use are written with a backslash, every other
character without a visible form by its number in braces, and the rest as they are.
-/

namespace SandboxProfile

namespace Escaped

/-- The number of a character in braces, in lower-case hexadecimal without padding. -/
def numbered (c : Char) : List Char :=
  ['\\', 'u', '\x7b'] ++ Nat.toDigits 16 c.toNat ++ ['\x7d']

/-- One character as it stands between two quotes. -/
def mark (quote c : Char) : List Char :=
  if c = '\x00' then ['\\', '0']
  else if c = '\t' then ['\\', 't']
  else if c = '\r' then ['\\', 'r']
  else if c = '\n' then ['\\', 'n']
  else if c = '\\' || c = quote then ['\\', c]
  else if Unprintable.isUnprintable c then numbered c
  else [c]

/-- Characters between two quotes. -/
def enclose (quote : Char) (cs : List Char) : String :=
  String.ofList (quote :: cs.flatMap (mark quote) ++ [quote])

/-- A character between apostrophes. -/
def ofChar (c : Char) : String := enclose '\x27' [c]

/-- A text between double quotes. -/
def ofString (s : String) : String := enclose '"' s.toList

end Escaped

end SandboxProfile
