import SandboxProfile.Json.Basic
import SandboxProfile.Tree.Profile

/-!
# Trees as JSON values

A record becomes an object with all its fields in the order of their declaration, null for a value
that is absent. A variant becomes an object with its name over what it holds.
-/

namespace SandboxProfile

def Position.toJson (p : Position) : Json :=
  .object [("line", .integer p.line), ("column", .integer p.column), ("offset", .integer p.offset)]

def Range.toJson (r : Range) : Json := .object [("start", r.start.toJson), ("end", r.stop.toJson)]

namespace Expr

/-- A variant with the range it was read from. -/
def node (variant : String) (content : Json) (range : Range) : Json :=
  .object [("kind", .object [(variant, content)]), ("range", range.toJson)]

mutual

def toJson : Expr → Json
  | integer n r => node "Integer" (.integer n.toInt) r
  | string s r => node "String" (.string s) r
  | rawString s r => node "RawString" (.string s) r
  | boolean b r => node "Boolean" (.bool b) r
  | symbol name r => node "Symbol" (.string name) r
  | list items r => node "List" (.array (toJsonAll items)) r
  | quoted inner r => node "Quoted" inner.toJson r

def toJsonAll : List Expr → List Json
  | [] => []
  | x :: xs => x.toJson :: toJsonAll xs

end

end Expr

namespace Filter

mutual

def toJson : Filter → Json
  | simple type typeRange value range => .object [("Simple", .object [
      ("filter_type", .string type), ("type_range", typeRange.toJson), ("value", value.toJson),
      ("range", range.toJson)])]
  | compound kind filters range => .object [("Compound", .object [
      ("kind", .string kind.text), ("filters", .array (toJsonAll filters)),
      ("range", range.toJson)])]
  | negation filter range => .object [("Not", .object [
      ("filter", filter.toJson), ("range", range.toJson)])]
  | expression value => .object [("Expression", value.toJson)]

def toJsonAll : List Filter → List Json
  | [] => []
  | f :: fs => f.toJson :: toJsonAll fs

end

end Filter

def Version.toJson (v : Version) : Json :=
  .object [("version", .integer v.number.toInt), ("range", v.range.toJson)]

def DebugMode.toJson (m : DebugMode) : Json :=
  .object [("action", .string m.action.text), ("range", m.range.toJson)]

def Import.toJson (i : Import) : Json :=
  .object [("path", .string i.path), ("path_range", i.pathRange.toJson), ("range", i.range.toJson)]

def Definition.toJson (d : Definition) : Json :=
  .object [("name", .string d.name), ("name_range", d.nameRange.toJson), ("value", d.value.toJson),
    ("range", d.range.toJson)]

def Operation.toJson (o : Operation) : Json :=
  .object [("name", .string o.name), ("range", o.range.toJson)]

def Rule.toJson (r : Rule) : Json :=
  .object [("action", .string r.action.text),
    ("operations", .array (r.operations.map Operation.toJson)),
    ("filters", .array (r.filters.map Filter.toJson)), ("range", r.range.toJson)]

def Profile.toJson (p : Profile) : Json :=
  .object [
    ("version", (p.version.map Version.toJson).getD .null),
    ("debug", (p.debug.map DebugMode.toJson).getD .null),
    ("imports", .array (p.imports.map Import.toJson)),
    ("definitions", .array (p.definitions.map Definition.toJson)),
    ("rules", .array (p.rules.map Rule.toJson)),
    ("range", p.range.toJson)]

end SandboxProfile
