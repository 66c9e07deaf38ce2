import SandboxProfile.Layout.Indent
import SandboxProfile.Wire.Encoding

/-!
# Commands

What the program can be asked to do.
-/

namespace SandboxProfile.CommandLine

/-- The program's name and version. -/
def programVersion : String := "sbpl 0.1.0"

/-- Where a command finds its text. -/
inductive Source where
  | stdin
  | file (path : String)
deriving DecidableEq, Repr

namespace Source

def ofArgument (arg : String) : Source := if arg = "-" then stdin else file arg

/-- The name of a source in messages. -/
def name : Source → String
  | stdin => "<stdin>"
  | file path => path

end Source

inductive Command where
  /-- Lists the tokens of a text. -/
  | tokenize (source : Source)
  /-- Reports on a text. -/
  | check (source : Source)
  /-- Prints a text in the fixed layout. -/
  | format (source : Source) (output : Option String) (indent : Indent)
  /-- Tells whether a text is in the fixed layout. -/
  | checkFormat (source : Source) (indent : Indent)
  | toJson (source : Source) (output : Option String) (style : Wire.Style)
  | ofJson (source : Source) (output : Option String) (indent : Indent)
deriving DecidableEq, Repr

namespace Command

def source : Command → Source
  | tokenize s | check s | format s _ _ | checkFormat s _ | toJson s _ _ | ofJson s _ _ => s

end Command

/-- What the arguments ask for. -/
inductive Request where
  | version
  | command (command : Command)
deriving DecidableEq, Repr

end SandboxProfile.CommandLine
