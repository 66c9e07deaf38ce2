import SandboxProfile.Diagnostic.Code
import SandboxProfile.Source.Position

/-!
# Diagnostics

A diagnostic is a value: what was found, how serious it is and where, with edits that would mend it
and other places that matter to it.
-/

namespace SandboxProfile

/-- An edit that replaces the text of a range. -/
structure Fix where
  title : String
  range : Range
  replacement : String
deriving DecidableEq, Repr

/-- Another place that matters to a diagnostic. -/
structure Related where
  range : Range
  message : String
deriving DecidableEq, Repr

structure Diagnostic where
  range : Range
  code : Code
  message : String
  severity : Severity
  fixes : List Fix
  related : List Related
deriving DecidableEq, Repr

namespace Diagnostic

/-- A diagnostic with the code's own severity, no fix and no related place. -/
def new (code : Code) (message : String) (range : Range) : Diagnostic :=
  ⟨range, code, message, code.severity, [], []⟩

def withSeverity (d : Diagnostic) (severity : Severity) : Diagnostic :=
  ⟨d.range, d.code, d.message, severity, d.fixes, d.related⟩

def withFix (d : Diagnostic) (fix : Fix) : Diagnostic :=
  ⟨d.range, d.code, d.message, d.severity, d.fixes ++ [fix], d.related⟩

def withRelated (d : Diagnostic) (range : Range) (message : String) : Diagnostic :=
  ⟨d.range, d.code, d.message, d.severity, d.fixes, d.related ++ [⟨range, message⟩]⟩

def isError (d : Diagnostic) : Bool := d.severity = .error

/-- One line: the place, the severity and the message. -/
def display (d : Diagnostic) : String :=
  s!"{d.range.start.display}: {d.severity.name}: {d.message}"

/-- What is told of diagnostics that were not to be. -/
def listing (ds : List Diagnostic) : String :=
  "unexpected diagnostics:\n" ++ String.intercalate "\n" (ds.map display)

end Diagnostic

end SandboxProfile
