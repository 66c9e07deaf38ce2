import SandboxProfile.Json.Shape
import SandboxProfile.Tree.Profile

/-!
# Trees from JSON values

The inverse of encoding. Every field has to be there, save that a version or a debug mode may be
absent from an object.
-/

namespace SandboxProfile

open Json (Decodes)

namespace Position

structure Fields where
  line : Option Nat
  column : Option Nat
  offset : Option Nat

def Fields.take (d : Fields) (key : String) (x : Json) : Decodes Fields :=
  match key with
  | "line" => do pure ⟨some (← x.asCount), d.column, d.offset⟩
  | "column" => do pure ⟨d.line, some (← x.asCount), d.offset⟩
  | "offset" => do pure ⟨d.line, d.column, some (← x.asCount)⟩
  | _ => pure d

def Fields.complete (d : Fields) : Decodes Position := do
  pure ⟨← Json.required "line" d.line, ← Json.required "column" d.column,
    ← Json.required "offset" d.offset⟩

def ofJson : Json → Decodes Position :=
  Json.asRecord (.full "SourcePosition" ["line", "column", "offset"]) Fields.take ⟨none, none, none⟩
    Fields.complete

end Position

namespace Range

structure Fields where
  start : Option Position
  stop : Option Position

def Fields.take (d : Fields) (key : String) (x : Json) : Decodes Fields :=
  match key with
  | "start" => do pure ⟨some (← Position.ofJson x), d.stop⟩
  | "end" => do pure ⟨d.start, some (← Position.ofJson x)⟩
  | _ => pure d

def Fields.complete (d : Fields) : Decodes Range := do
  pure ⟨← Json.required "start" d.start, ← Json.required "end" d.stop⟩

def ofJson : Json → Decodes Range :=
  Json.asRecord (.full "SourceRange" ["start", "end"]) Fields.take ⟨none, none⟩ Fields.complete

end Range

namespace Action

/-- The names of the actions. -/
def names : List String := ["allow", "deny"]

def ofJson (value : Json) : Decodes Action := do
  match ← value.asUnitVariant names with
  | "allow" => pure allow
  | _ => pure deny

end Action

namespace CompoundKind

/-- The names of the kinds. -/
def names : List String := ["require-all", "require-any"]

def ofJson (value : Json) : Decodes CompoundKind := do
  match ← value.asUnitVariant names with
  | "require-all" => pure all
  | _ => pure any

end CompoundKind

namespace Expr

/-- The names of the variants. -/
def variants : List String :=
  ["Integer", "String", "RawString", "Boolean", "Symbol", "List", "Quoted"]

/-- An expression of which the variant or the range may be missing. -/
structure Fields where
  variant : Option (Range → Expr)
  range : Option Range

def Fields.complete (d : Fields) : Decodes Expr := do
  let variant ← Json.required "kind" d.variant
  let range ← Json.required "range" d.range
  pure (variant range)

def shape : Json.RecordShape := .full "Expr" ["kind", "range"]

/-- An atom, a range still to be given; under any other name there can only be a list, which the
content is not. -/
def atomOfJson (name : String) (content : Json) : Decodes (Range → Expr) :=
  match name with
  | "Integer" => content.asInteger.map integer
  | "String" => content.asString.map string
  | "RawString" => content.asString.map rawString
  | "Boolean" => content.asBool.map boolean
  | "Symbol" => content.asString.map symbol
  | _ => Json.mismatch content "a sequence"

mutual

def ofJson : Json → Decodes Expr
  | .object fields => do
    let taken ← ofFields ⟨none, none⟩ fields
    taken.complete
  | .array items => do
    let taken ← ofItems ⟨none, none⟩ shape.fields items
    shape.checkLength items.length
    taken.complete
  | x => Json.mismatch x s!"struct {shape.name}"

/-- Takes in a field. -/
def take (d : Fields) (key : String) (x : Json) : Decodes Fields :=
  match key, x with
  | "kind", .object [("List", .array items)] => do
    let items ← ofJsonAll items
    pure ⟨some (list items), d.range⟩
  | "kind", .object [("Quoted", inner)] => do
    let inner ← ofJson inner
    pure ⟨some (quoted inner), d.range⟩
  | "kind", x => do
    let (name, content) ← x.asVariant variants
    pure ⟨some (← Json.newtypeVariant (atomOfJson name) content), d.range⟩
  | "range", x => do pure ⟨d.variant, some (← Range.ofJson x)⟩
  | _, _ => pure d

def ofFields (d : Fields) : List (String × Json) → Decodes Fields
  | [] => .ok d
  | (key, x) :: more => do
    let d ← take d key x
    ofFields d more

/-- Takes in fields that stand in an array, given their names. -/
def ofItems (d : Fields) : List String → List Json → Decodes Fields
  | key :: keys, x :: xs => do
    let d ← take d key x
    ofItems d keys xs
  | _, _ => .ok d

def ofJsonAll : List Json → Decodes (List Expr)
  | [] => .ok []
  | x :: xs => do
    let value ← ofJson x
    let more ← ofJsonAll xs
    pure (value :: more)

end

end Expr

namespace Filter

/-- The names of the variants. -/
def variants : List String := ["Simple", "Compound", "Not", "Expression"]

structure SimpleFields where
  type : Option String
  typeRange : Option Range
  value : Option Expr
  range : Option Range

def SimpleFields.take (d : SimpleFields) (key : String) (x : Json) : Decodes SimpleFields :=
  match key with
  | "filter_type" => do pure ⟨some (← x.asString), d.typeRange, d.value, d.range⟩
  | "type_range" => do pure ⟨d.type, some (← Range.ofJson x), d.value, d.range⟩
  | "value" => do pure ⟨d.type, d.typeRange, some (← Expr.ofJson x), d.range⟩
  | "range" => do pure ⟨d.type, d.typeRange, d.value, some (← Range.ofJson x)⟩
  | _ => pure d

def SimpleFields.complete (d : SimpleFields) : Decodes Filter := do
  pure (simple (← Json.required "filter_type" d.type) (← Json.required "type_range" d.typeRange)
    (← Json.required "value" d.value) (← Json.required "range" d.range))

structure CompoundFields where
  kind : Option CompoundKind
  filters : Option (List Filter)
  range : Option Range

def CompoundFields.complete (d : CompoundFields) : Decodes Filter := do
  pure (compound (← Json.required "kind" d.kind) (← Json.required "filters" d.filters)
    (← Json.required "range" d.range))

structure NegationFields where
  filter : Option Filter
  range : Option Range

def NegationFields.complete (d : NegationFields) : Decodes Filter := do
  pure (negation (← Json.required "filter" d.filter) (← Json.required "range" d.range))

/-- A filter without further filters; one that has some stands over an object, which the content is
not. -/
def flatOfJson (name : String) (content : Option Json) : Decodes Filter :=
  match name with
  | "Simple" => Json.structVariant (fun fields => do
      let taken ← Json.takeFields SimpleFields.take ⟨none, none, none, none⟩ fields
      taken.complete) content
  | "Expression" => do
    let value ← Json.newtypeVariant Expr.ofJson content
    pure (expression value)
  | _ => Json.structVariant (fun fields => Json.mismatch (.object fields) "struct variant") content

mutual

def ofJson : Json → Decodes Filter
  | .object [("Compound", .object fields)] => do
    let taken ← compoundOfFields ⟨none, none, none⟩ fields
    taken.complete
  | .object [("Not", .object fields)] => do
    let taken ← negationOfFields ⟨none, none⟩ fields
    taken.complete
  | x => do
    let (name, content) ← x.asVariant variants
    flatOfJson name content

def compoundOfFields (d : CompoundFields) : List (String × Json) → Decodes CompoundFields
  | [] => .ok d
  | ("filters", .array items) :: more => do
    let filters ← ofJsonAll items
    compoundOfFields ⟨d.kind, some filters, d.range⟩ more
  | (key, x) :: more =>
    match key with
    | "kind" => do compoundOfFields ⟨some (← CompoundKind.ofJson x), d.filters, d.range⟩ more
    | "filters" => Json.mismatch x "a sequence"
    | "range" => do compoundOfFields ⟨d.kind, d.filters, some (← Range.ofJson x)⟩ more
    | _ => compoundOfFields d more

def negationOfFields (d : NegationFields) : List (String × Json) → Decodes NegationFields
  | [] => .ok d
  | (key, x) :: more =>
    match key with
    | "filter" => do negationOfFields ⟨some (← ofJson x), d.range⟩ more
    | "range" => do negationOfFields ⟨d.filter, some (← Range.ofJson x)⟩ more
    | _ => negationOfFields d more

def ofJsonAll : List Json → Decodes (List Filter)
  | [] => .ok []
  | x :: xs => do
    let filter ← ofJson x
    let more ← ofJsonAll xs
    pure (filter :: more)

end

end Filter

namespace Version

structure Fields where
  number : Option Int64
  range : Option Range

def Fields.take (d : Fields) (key : String) (x : Json) : Decodes Fields :=
  match key with
  | "version" => do pure ⟨some (← x.asInteger), d.range⟩
  | "range" => do pure ⟨d.number, some (← Range.ofJson x)⟩
  | _ => pure d

def Fields.complete (d : Fields) : Decodes Version := do
  pure ⟨← Json.required "version" d.number, ← Json.required "range" d.range⟩

def ofJson : Json → Decodes Version :=
  Json.asRecord (.full "VersionDecl" ["version", "range"]) Fields.take ⟨none, none⟩ Fields.complete

end Version

namespace DebugMode

structure Fields where
  action : Option Action
  range : Option Range

def Fields.take (d : Fields) (key : String) (x : Json) : Decodes Fields :=
  match key with
  | "action" => do pure ⟨some (← Action.ofJson x), d.range⟩
  | "range" => do pure ⟨d.action, some (← Range.ofJson x)⟩
  | _ => pure d

def Fields.complete (d : Fields) : Decodes DebugMode := do
  pure ⟨← Json.required "action" d.action, ← Json.required "range" d.range⟩

def ofJson : Json → Decodes DebugMode :=
  Json.asRecord (.full "DebugDecl" ["action", "range"]) Fields.take ⟨none, none⟩ Fields.complete

end DebugMode

namespace Import

structure Fields where
  path : Option String
  pathRange : Option Range
  range : Option Range

def Fields.take (d : Fields) (key : String) (x : Json) : Decodes Fields :=
  match key with
  | "path" => do pure ⟨some (← x.asString), d.pathRange, d.range⟩
  | "path_range" => do pure ⟨d.path, some (← Range.ofJson x), d.range⟩
  | "range" => do pure ⟨d.path, d.pathRange, some (← Range.ofJson x)⟩
  | _ => pure d

def Fields.complete (d : Fields) : Decodes Import := do
  pure ⟨← Json.required "path" d.path, ← Json.required "path_range" d.pathRange,
    ← Json.required "range" d.range⟩

def ofJson : Json → Decodes Import :=
  Json.asRecord (.full "ImportDecl" ["path", "path_range", "range"]) Fields.take
    ⟨none, none, none⟩ Fields.complete

end Import

namespace Definition

structure Fields where
  name : Option String
  nameRange : Option Range
  value : Option Expr
  range : Option Range

def Fields.take (d : Fields) (key : String) (x : Json) : Decodes Fields :=
  match key with
  | "name" => do pure ⟨some (← x.asString), d.nameRange, d.value, d.range⟩
  | "name_range" => do pure ⟨d.name, some (← Range.ofJson x), d.value, d.range⟩
  | "value" => do pure ⟨d.name, d.nameRange, some (← Expr.ofJson x), d.range⟩
  | "range" => do pure ⟨d.name, d.nameRange, d.value, some (← Range.ofJson x)⟩
  | _ => pure d

def Fields.complete (d : Fields) : Decodes Definition := do
  pure ⟨← Json.required "name" d.name, ← Json.required "name_range" d.nameRange,
    ← Json.required "value" d.value, ← Json.required "range" d.range⟩

def ofJson : Json → Decodes Definition :=
  Json.asRecord (.full "DefineDecl" ["name", "name_range", "value", "range"]) Fields.take
    ⟨none, none, none, none⟩ Fields.complete

end Definition

namespace Operation

structure Fields where
  name : Option String
  range : Option Range

def Fields.take (d : Fields) (key : String) (x : Json) : Decodes Fields :=
  match key with
  | "name" => do pure ⟨some (← x.asString), d.range⟩
  | "range" => do pure ⟨d.name, some (← Range.ofJson x)⟩
  | _ => pure d

def Fields.complete (d : Fields) : Decodes Operation := do
  pure ⟨← Json.required "name" d.name, ← Json.required "range" d.range⟩

def ofJson : Json → Decodes Operation :=
  Json.asRecord (.full "OperationRef" ["name", "range"]) Fields.take ⟨none, none⟩ Fields.complete

end Operation

namespace Rule

structure Fields where
  action : Option Action
  operations : Option (List Operation)
  filters : Option (List Filter)
  range : Option Range

def Fields.take (d : Fields) (key : String) (x : Json) : Decodes Fields :=
  match key with
  | "action" => do pure ⟨some (← Action.ofJson x), d.operations, d.filters, d.range⟩
  | "operations" => do
    pure ⟨d.action, some (← x.asListOf Operation.ofJson), d.filters, d.range⟩
  | "filters" => do pure ⟨d.action, d.operations, some (← x.asListOf Filter.ofJson), d.range⟩
  | "range" => do pure ⟨d.action, d.operations, d.filters, some (← Range.ofJson x)⟩
  | _ => pure d

def Fields.complete (d : Fields) : Decodes Rule := do
  pure ⟨← Json.required "action" d.action, ← Json.required "operations" d.operations,
    ← Json.required "filters" d.filters, ← Json.required "range" d.range⟩

def ofJson : Json → Decodes Rule :=
  Json.asRecord (.full "Rule" ["action", "operations", "filters", "range"]) Fields.take
    ⟨none, none, none, none⟩ Fields.complete

end Rule

namespace Profile

structure Fields where
  version : Option Version
  debug : Option DebugMode
  imports : Option (List Import)
  definitions : Option (List Definition)
  rules : Option (List Rule)
  range : Option Range

def Fields.take (d : Fields) (key : String) (x : Json) : Decodes Fields :=
  match key with
  | "version" => do
    pure ⟨← x.asOption Version.ofJson, d.debug, d.imports, d.definitions, d.rules, d.range⟩
  | "debug" => do
    pure ⟨d.version, ← x.asOption DebugMode.ofJson, d.imports, d.definitions, d.rules, d.range⟩
  | "imports" => do
    pure ⟨d.version, d.debug, some (← x.asListOf Import.ofJson), d.definitions, d.rules, d.range⟩
  | "definitions" => do
    pure ⟨d.version, d.debug, d.imports, some (← x.asListOf Definition.ofJson), d.rules, d.range⟩
  | "rules" => do
    pure ⟨d.version, d.debug, d.imports, d.definitions, some (← x.asListOf Rule.ofJson), d.range⟩
  | "range" => do
    pure ⟨d.version, d.debug, d.imports, d.definitions, d.rules, some (← Range.ofJson x)⟩
  | _ => pure d

def Fields.complete (d : Fields) : Decodes Profile := do
  pure ⟨d.version, d.debug, ← Json.required "imports" d.imports,
    ← Json.required "definitions" d.definitions, ← Json.required "rules" d.rules,
    ← Json.required "range" d.range⟩

def ofJson : Json → Decodes Profile :=
  Json.asRecord
    (.full "Profile" ["version", "debug", "imports", "definitions", "rules", "range"]) Fields.take
    ⟨none, none, none, none, none, none⟩ Fields.complete

end Profile

end SandboxProfile
