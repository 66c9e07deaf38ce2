import SandboxProfile.Json.Printer
import SandboxProfile.Wire.Profile

/-!
# Writing the wire format

Fields are written in the order of their declaration. A field that is absent, or an empty list of a
profile or rule that may be left out, is not written.
-/

namespace SandboxProfile

namespace Json

/-- A field that is written only if there is a value for it. -/
def fieldOf {α : Type} (name : String) (encode : α → Json) : Option α → List (String × Json)
  | some x => [(name, encode x)]
  | none => []

/-- A field that is written only if the list is not empty. -/
def fieldOfList {α : Type} (name : String) (encode : α → Json) : List α → List (String × Json)
  | [] => []
  | xs => [(name, array (xs.map encode))]

end Json

namespace Wire

/-- The text of a string on the wire. -/
def marked (s : String) : String := "\"" ++ s ++ "\""

namespace Node

mutual

def toJson : Node → Json
  | integer n => .integer n.toInt
  | string s => .string (marked s)
  | boolean b => .bool b
  | symbol name => .string name
  | list items => .array (toJsonAll items)

def toJsonAll : List Node → List Json
  | [] => []
  | x :: xs => x.toJson :: toJsonAll xs

end

end Node

def Definition.toJson (d : Definition) : Json :=
  .object [("name", .string d.name), ("value", d.value.toJson)]

namespace Filter

mutual

def toJson : Filter → Json
  | ⟨type, value, none⟩ =>
    .object (("type", .string type) :: Json.fieldOf "value" Node.toJson value)
  | ⟨type, value, some filters⟩ =>
    .object (("type", .string type) ::
      (Json.fieldOf "value" Node.toJson value ++ [("filters", .array (toJsonAll filters))]))

def toJsonAll : List Filter → List Json
  | [] => []
  | f :: fs => f.toJson :: toJsonAll fs

end

end Filter

def Rule.toJson (r : Rule) : Json :=
  .object ([("action", .string r.action.text),
    ("operations", .array (r.operations.map .string))] ++
      Json.fieldOfList "filters" Filter.toJson r.filters)

def Profile.toJson (p : Profile) : Json :=
  .object (
    Json.fieldOf "version" (fun n => .integer n.toInt) p.version ++
    Json.fieldOf "debugMode" (fun a => .string a.text) p.debugMode ++
    Json.fieldOfList "imports" .string p.imports ++
    Json.fieldOfList "definitions" Definition.toJson p.definitions ++
    Json.fieldOfList "rules" Rule.toJson p.rules)

/-- How a text on the wire is laid out. -/
inductive Style where
  | compact
  | pretty
deriving DecidableEq, Repr

/-- A profile as text. -/
def Profile.print (style : Style) (p : Profile) : String :=
  match style with
  | .compact => p.toJson.compact
  | .pretty => p.toJson.pretty

end Wire

end SandboxProfile
