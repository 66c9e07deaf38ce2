import SandboxProfile.Layout.Profile
import SandboxProfile.Reading.Profile

/-!
# Formatting texts

A text is formatted by reading it and printing what could be read; comments are not kept.
-/

namespace SandboxProfile.Profile

/-- A text in the fixed layout, and what was found in it. -/
def format (indent : Indent) (text : String) : String × List Diagnostic :=
  let outcome := ofText text
  ((Wire.Profile.ofTree outcome.profile).source indent, outcome.diagnostics)

end SandboxProfile.Profile
