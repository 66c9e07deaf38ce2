import SandboxProfile.Json.Reader
import SandboxProfile.Json.Shape
import SandboxProfile.Tree.Decoding
import SandboxProfile.Wire.Profile

/-!
# Reading the wire format

A profile is read from a JSON value, the root of which has to be an object and which may nest only
so deep. Absent lists and absent optional fields are empty.
-/

namespace SandboxProfile

open Json (Decodes)

namespace Wire

namespace Node

mutual

def ofJson : Json → Decodes Node
  | .integer n =>
    match Integer.ofInt? n with
    | some i => .ok (integer i)
    | none => .error (.outOfRange n)
  | .string text => .ok (ofText text)
  | .bool b => .ok (boolean b)
  | .array items => list <$> ofJsonAll items
  | x => Json.mismatch x "an integer, boolean, string or array expression"

def ofJsonAll : List Json → Decodes (List Node)
  | [] => .ok []
  | x :: xs => do
    let node ← ofJson x
    let more ← ofJsonAll xs
    pure (node :: more)

end

end Node

namespace Definition

structure Fields where
  name : Option String
  value : Option Node

def Fields.take (d : Fields) (key : String) (x : Json) : Decodes Fields :=
  match key with
  | "name" => do pure ⟨some (← x.asString), d.value⟩
  | "value" => do pure ⟨d.name, some (← Node.ofJson x)⟩
  | _ => pure d

def Fields.complete (d : Fields) : Decodes Definition := do
  pure ⟨← Json.required "name" d.name, ← Json.required "value" d.value⟩

def ofJson : Json → Decodes Definition :=
  Json.asRecord (.full "DefinitionJson" ["name", "value"]) Fields.take ⟨none, none⟩ Fields.complete

end Definition

namespace Filter

structure Fields where
  type : Option String
  value : Option Node
  filters : Option (List Filter)

def Fields.complete (d : Fields) : Decodes Filter := do
  pure ⟨← Json.required "type" d.type, d.value, d.filters⟩

def shape : Json.RecordShape := ⟨"FilterJson", ["type", "value", "filters"], 1⟩

mutual

def ofJson : Json → Decodes Filter
  | .object fields => do
    let taken ← ofFields ⟨none, none, none⟩ fields
    taken.complete
  | .array items => do
    let taken ← ofItems ⟨none, none, none⟩ shape.fields items
    shape.checkLength items.length
    taken.complete
  | x => Json.mismatch x s!"struct {shape.name}"

/-- Takes in a field. -/
def take (d : Fields) (key : String) (x : Json) : Decodes Fields :=
  match key, x with
  | "type", x => do pure ⟨some (← x.asString), d.value, d.filters⟩
  | "value", x => do pure ⟨d.type, ← x.asOption Node.ofJson, d.filters⟩
  | "filters", .null => pure ⟨d.type, d.value, none⟩
  | "filters", .array items => do pure ⟨d.type, d.value, some (← ofJsonAll items)⟩
  | "filters", x => Json.mismatch x "a sequence"
  | _, _ => pure d

def ofFields (d : Fields) : List (String × Json) → Decodes Fields
  | [] => .ok d
  | (key, x) :: more => do
    let d ← take d key x
    ofFields d more

/-- Takes in fields that stand in an array, given their names. -/
def ofItems (d : Fields) : List String → List Json → Decodes Fields
  | key :: keys, x :: xs => do
    let d ← take d key x
    ofItems d keys xs
  | _, _ => .ok d

def ofJsonAll : List Json → Decodes (List Filter)
  | [] => .ok []
  | x :: xs => do
    let filter ← ofJson x
    let more ← ofJsonAll xs
    pure (filter :: more)

end

end Filter

namespace Rule

structure Fields where
  action : Option Action
  operations : Option (List String)
  filters : List Filter

def Fields.take (d : Fields) (key : String) (x : Json) : Decodes Fields :=
  match key with
  | "action" => do pure ⟨some (← Action.ofJson x), d.operations, d.filters⟩
  | "operations" => do pure ⟨d.action, some (← x.asListOf Json.asString), d.filters⟩
  | "filters" => do pure ⟨d.action, d.operations, ← x.asListOf Filter.ofJson⟩
  | _ => pure d

def Fields.complete (d : Fields) : Decodes Rule := do
  pure ⟨← Json.required "action" d.action, ← Json.required "operations" d.operations, d.filters⟩

def ofJson : Json → Decodes Rule :=
  Json.asRecord ⟨"RuleJson", ["action", "operations", "filters"], 2⟩ Fields.take ⟨none, none, []⟩
    Fields.complete

end Rule

namespace Profile

def take (p : Profile) (key : String) (x : Json) : Decodes Profile :=
  match key with
  | "version" => do
    pure ⟨← x.asOption Json.asInteger, p.debugMode, p.imports, p.definitions, p.rules⟩
  | "debugMode" => do
    pure ⟨p.version, ← x.asOption Action.ofJson, p.imports, p.definitions, p.rules⟩
  | "imports" => do
    pure ⟨p.version, p.debugMode, ← x.asListOf Json.asString, p.definitions, p.rules⟩
  | "definitions" => do
    pure ⟨p.version, p.debugMode, p.imports, ← x.asListOf Definition.ofJson, p.rules⟩
  | "rules" => do
    pure ⟨p.version, p.debugMode, p.imports, p.definitions, ← x.asListOf Rule.ofJson⟩
  | _ => pure p

def ofFields (fields : List (String × Json)) : Decodes Profile :=
  Json.takeFields take empty fields

/-- Why a value or a text holds no profile. -/
inductive Refusal where
  /-- The text is no JSON value. -/
  | malformed (message : String)
  | notAnObject (found : String)
  | tooDeep (depth limit : Nat)
  | misshapen (mismatch : Json.Mismatch)
deriving DecidableEq, Repr

def Refusal.message : Refusal → String
  | malformed message => s!"invalid JSON: {message}"
  | notAnObject found => s!"invalid JSON: root must be a JSON object, found {found}"
  | tooDeep depth limit => s!"invalid JSON: nesting depth {depth} exceeds the maximum of {limit}"
  | misshapen mismatch => s!"invalid JSON: {mismatch.message}"

/-- How deep a value may nest. -/
def depthLimit : Nat := 512

/-- The profile that a value holds. -/
def ofJson (x : Json) : Except Refusal Profile :=
  match x with
  | .object fields =>
    if depthLimit < x.nesting then .error (.tooDeep x.nesting depthLimit)
    else (ofFields fields).mapError .misshapen
  | _ => .error (.notAnObject x.kindName)

/-- The profile that a text holds. -/
def ofText (text : String) : Except Refusal Profile := do
  let x ← (Json.ofText text).mapError .malformed
  ofJson x

end Profile

end Wire

end SandboxProfile
