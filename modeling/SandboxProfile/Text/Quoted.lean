/-!
# Quoted text

A string as it stands in a profile: between quotation marks, with a backslash before a backslash or
a mark and a letter for a line feed, a carriage return and a tab. All else stands for itself.
-/

namespace SandboxProfile

namespace Quoted

/-- A character as it stands between the marks. -/
def escape (c : Char) : List Char :=
  if c = '\\' then ['\\', '\\']
  else if c = '"' then ['\\', '"']
  else if c = '\n' then ['\\', 'n']
  else if c = '\r' then ['\\', 'r']
  else if c = '\t' then ['\\', 't']
  else [c]

def ofString (s : String) : List Char := '"' :: (s.toList.flatMap escape ++ ['"'])

end Quoted

end SandboxProfile
