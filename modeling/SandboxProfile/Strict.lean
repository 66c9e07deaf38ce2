import SandboxProfile.Layout.Format
import SandboxProfile.Wire.Decoding
import SandboxProfile.Wire.Encoding

/-!
# Strict conversions

Conversions between texts that give nothing for a text with an error in it. Warnings do not matter.
-/

namespace SandboxProfile.Strict

/-- Why a text was not converted. -/
inductive Rejection where
  /-- All that was found in the text, an error among it. -/
  | invalid (diagnostics : List Diagnostic)
  | conversion (refusal : Wire.Profile.Refusal)
deriving DecidableEq, Repr

namespace Rejection

def diagnostics : Rejection → List Diagnostic
  | invalid ds => ds
  | conversion _ => []

def message : Rejection → String
  | invalid ds =>
    let errors := ds.filter (·.isError)
    let first := (errors.head?.map (·.display)).getD ""
    s!"profile has {errors.length} error(s), first at {first}"
  | conversion refusal => refusal.message

end Rejection

def read (text : String) : Except Rejection Profile :=
  (Profile.ofCleanText text).mapError .invalid

def validate (text : String) : Except Rejection Unit := (read text).map fun _ => ()

/-- The wire format of a text, over several lines. -/
def toJson (text : String) : Except Rejection String :=
  (read text).map fun p => (Wire.Profile.ofTree p).print .pretty

/-- The text of a profile in the wire format. -/
def ofJson (json : String) : Except Rejection String :=
  match Wire.Profile.ofText json with
  | .ok p => .ok (p.source .usual)
  | .error refusal => .error (.conversion refusal)

/-- A text in the fixed layout. -/
def format (text : String) : Except Rejection String :=
  let (formatted, diagnostics) := Profile.format .usual text
  if diagnostics.any (·.isError) then .error (.invalid diagnostics) else .ok formatted

end SandboxProfile.Strict
