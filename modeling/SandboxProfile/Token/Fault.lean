import SandboxProfile.Diagnostic.Basic
import SandboxProfile.Text.Escaped

/-!
# Faults in tokens

What can be wrong with the spelling of a token or of a comment. Each fault has its code and its
message; the place is the reporter's.
-/

namespace SandboxProfile

inductive LexicalFault where
  /-- A character no token begins with. -/
  | unknownCharacter (c : Char)
  /-- A hash sign before a character that does not follow one. -/
  | strayHash (next : Char)
  /-- A hash sign at the end of the text. -/
  | hashAtEnd
  | unterminatedString
  | unterminatedRawString
  | unterminatedBlockComment
  | invalidEscape (c : Char)
  | shortHexEscape (wanted found : Nat)
  /-- A number in an escape that is no character's. -/
  | invalidScalar (code : Nat)
  | integerOutOfRange (literal : String)
deriving DecidableEq, Repr

namespace LexicalFault

def code : LexicalFault → Code
  | unknownCharacter _ | strayHash _ => .unknownCharacter
  | hashAtEnd => .unexpectedEndOfFile
  | unterminatedString => .unterminatedString
  | unterminatedRawString => .unterminatedRawString
  | unterminatedBlockComment => .unterminatedBlockComment
  | invalidEscape _ => .invalidEscape
  | shortHexEscape _ _ | invalidScalar _ => .invalidHexEscape
  | integerOutOfRange _ => .invalidIntegerLiteral

def message : LexicalFault → String
  | unknownCharacter c => s!"unknown character {Escaped.ofChar c}"
  | strayHash next => s!"unexpected {Escaped.ofChar next} after '#'"
  | hashAtEnd => "unexpected end of file after '#'"
  | unterminatedString => "unterminated string"
  | unterminatedRawString => "unterminated raw string"
  | unterminatedBlockComment => "unterminated block comment"
  | invalidEscape c => s!"invalid escape sequence '\\{c}'"
  | shortHexEscape wanted found => s!"expected {wanted} hex digits in escape, found {found}"
  | invalidScalar code =>
    "escape value 0x" ++ String.ofList (Nat.toDigits 16 code) ++ " is not a valid character"
  | integerOutOfRange literal => s!"invalid integer literal '{literal}'"

def diagnostic (fault : LexicalFault) (range : Range) : Diagnostic :=
  .new fault.code fault.message range

end LexicalFault

end SandboxProfile
