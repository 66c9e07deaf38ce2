import SandboxProfile.Json.Basic

/-!
# Writing JSON

A value is written on one line without spaces, or with one item or field a line and two spaces a
level. In strings only the quote, the backslash and the controls below the space are escaped.
-/

namespace SandboxProfile

namespace Json

/-- A character of a string as it stands between the quotes. -/
def escape (c : Char) : List Char :=
  if c = '"' then ['\\', '"']
  else if c = '\\' then ['\\', '\\']
  else if c = '\x08' then ['\\', 'b']
  else if c = '\t' then ['\\', 't']
  else if c = '\n' then ['\\', 'n']
  else if c = '\x0c' then ['\\', 'f']
  else if c = '\r' then ['\\', 'r']
  else if c.toNat < 0x20 then
    ['\\', 'u', '0', '0', Nat.digitChar (c.toNat / 16), Nat.digitChar (c.toNat % 16)]
  else [c]

/-- A string between quotes. -/
def quote (s : String) : String := String.ofList ('"' :: s.toList.flatMap escape ++ ['"'])

mutual

/-- A value on one line. -/
def compact : Json → String
  | null => "null"
  | bool true => "true"
  | bool false => "false"
  | integer n => toString n
  | double x => x.display
  | string s => quote s
  | array items => "[" ++ String.intercalate "," (compactItems items) ++ "]"
  | object fields => "\x7b" ++ String.intercalate "," (compactFields fields) ++ "\x7d"

def compactItems : List Json → List String
  | [] => []
  | x :: xs => x.compact :: compactItems xs

def compactFields : List (String × Json) → List String
  | [] => []
  | (key, x) :: xs => (quote key ++ ":" ++ x.compact) :: compactFields xs

end

/-- The line break before an item that stands `level` levels deep. -/
def lineBreak (level : Nat) : String := String.ofList ('\n' :: List.replicate (2 * level) ' ')

/-- Items on lines of their own between two brackets, or just the brackets. -/
def block (level : Nat) (opened closed : String) : List String → String
  | [] => opened ++ closed
  | items =>
    opened ++ lineBreak (level + 1) ++ String.intercalate ("," ++ lineBreak (level + 1)) items
      ++ lineBreak level ++ closed

mutual

/-- A value over several lines, its closing bracket `level` levels deep. -/
def prettyAt (level : Nat) : Json → String
  | null => "null"
  | bool true => "true"
  | bool false => "false"
  | integer n => toString n
  | double x => x.display
  | string s => quote s
  | array items => block level "[" "]" (prettyItems (level + 1) items)
  | object fields => block level "\x7b" "\x7d" (prettyFields (level + 1) fields)

def prettyItems (level : Nat) : List Json → List String
  | [] => []
  | x :: xs => x.prettyAt level :: prettyItems level xs

def prettyFields (level : Nat) : List (String × Json) → List String
  | [] => []
  | (key, x) :: xs => (quote key ++ ": " ++ x.prettyAt level) :: prettyFields level xs

end

/-- A value over several lines. -/
def pretty (value : Json) : String := value.prettyAt 0

end Json

end SandboxProfile
