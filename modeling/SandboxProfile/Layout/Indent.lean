/-!
# Indentation

Lines are indented by one unit a level, which is some spaces or a tab.
-/

namespace SandboxProfile

inductive Indent where
  | spaces (width : Nat)
  | tabs
deriving DecidableEq, Repr, Inhabited

namespace Indent

/-- The indentation where no other is asked for. -/
def usual : Indent := spaces 2

/-- The indentation of one level. -/
def unit : Indent → List Char
  | spaces width => List.replicate width ' '
  | tabs => ['\t']

def atLevel (indent : Indent) (level : Nat) : List Char :=
  (List.replicate level indent.unit).flatten

/-- A new line at a level. -/
def line (indent : Indent) (level : Nat) (text : List Char) : List Char :=
  '\n' :: (indent.atLevel level ++ text)

end Indent

end SandboxProfile
