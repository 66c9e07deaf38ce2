import SandboxProfile.Json.Basic
import SandboxProfile.Text.Escaped
import SandboxProfile.Text.Integer

/-!
# Taking JSON values apart

A value has to have the shape that is asked for: text, an integer in range, a list, a record or one
of several variants. A record is an object, whose fields are looked at in its own order and whose
unknown fields are passed over, or an array of the fields in the order of their declaration.
-/

namespace SandboxProfile

namespace Json

/-- Why a value has another shape than the one asked for. -/
inductive Mismatch where
  | wrongType (found expected : String)
  | wrongValue (found expected : String)
  | wrongLength (count : Nat) (expected : String)
  | missingField (name : String)
  | unknownVariant (name : String) (known : List String)
  | outOfRange (value : Int)
deriving DecidableEq, Repr

/-- A list of names for a reader: one, two joined by "or", or more after "one of". -/
def alternatives (names : List String) : String :=
  match names with
  | [] => "there are no variants"
  | [a] => s!"expected `{a}`"
  | [a, b] => s!"expected `{a}` or `{b}`"
  | names => "expected one of " ++ String.intercalate ", " (names.map fun name => s!"`{name}`")

def Mismatch.message : Mismatch → String
  | wrongType found expected => s!"invalid type: {found}, expected {expected}"
  | wrongValue found expected => s!"invalid value: {found}, expected {expected}"
  | wrongLength count expected => s!"invalid length {count}, expected {expected}"
  | missingField name => s!"missing field `{name}`"
  | unknownVariant name known => s!"unknown variant `{name}`, {alternatives known}"
  | outOfRange value => s!"integer {value} is out of range"

abbrev Decodes (α : Type) := Except Mismatch α

/-- A value as a message names it. -/
def shown : Json → String
  | null => "null"
  | bool b => s!"boolean `{b}`"
  | integer n => s!"integer `{n}`"
  | double x => s!"floating point `{x.display}`"
  | string s => "string " ++ Escaped.ofString s
  | array _ => "sequence"
  | object _ => "map"

def mismatch {α : Type} (value : Json) (expected : String) : Decodes α :=
  .error (.wrongType value.shown expected)

def asString : Json → Decodes String
  | string s => .ok s
  | value => mismatch value "a string"

def asBool : Json → Decodes Bool
  | bool b => .ok b
  | value => mismatch value "a boolean"

def asList : Json → Decodes (List Json)
  | array xs => .ok xs
  | value => mismatch value "a sequence"

/-- A signed integer of 64 bits. -/
def asInteger : Json → Decodes Int64
  | integer n =>
    match Integer.ofInt? n with
    | some i => .ok i
    | none => .error (.wrongValue (integer n).shown "i64")
  | value => mismatch value "i64"

/-- An integer that is not negative. A larger one than 64 bits hold is never read from a text. -/
def asCount : Json → Decodes Nat
  | integer n => if 0 ≤ n then .ok n.toNat else .error (.wrongValue (integer n).shown "usize")
  | value => mismatch value "usize"

/-- A value or null. -/
def asOption {α : Type} (decode : Json → Decodes α) : Json → Decodes (Option α)
  | null => .ok none
  | value => (decode value).map some

/-- A list of values of one shape. -/
def asListOf {α : Type} (decode : Json → Decodes α) (value : Json) : Decodes (List α) := do
  (← value.asList).mapM decode

/-- One of several names, with what stands under it: a string alone, or an object of one field. -/
def asVariant (known : List String) : Json → Decodes (String × Option Json)
  | string s => if s ∈ known then .ok (s, none) else .error (.unknownVariant s known)
  | object [(key, value)] =>
    if key ∈ known then .ok (key, some value) else .error (.unknownVariant key known)
  | object fields => .error (.wrongValue (object fields).shown "map with a single key")
  | value => mismatch value "string or map"

/-- A variant that holds nothing: at most null stands under its name. -/
def asUnitVariant (known : List String) (value : Json) : Decodes String := do
  match ← value.asVariant known with
  | (name, none) | (name, some null) => .ok name
  | (_, some content) => mismatch content "unit"

/-- The content of a variant that holds a value. -/
def newtypeVariant {α : Type} (decode : Json → Decodes α) : Option Json → Decodes α
  | some content => decode content
  | none => .error (.wrongType "unit variant" "newtype variant")

/-- The fields of a variant that holds some. -/
def structVariant {α : Type} (decode : List (String × Json) → Decodes α) :
    Option Json → Decodes α
  | some (object fields) => decode fields
  | some content => mismatch content "struct variant"
  | none => .error (.wrongType "unit variant" "struct variant")

/-- The field of a record, which has to be there. -/
def required {α : Type} (name : String) : Option α → Decodes α
  | some x => .ok x
  | none => .error (.missingField name)

/-- Fields taken in one after the other. -/
def takeFields {σ : Type} (take : σ → String → Json → Decodes σ) (start : σ)
    (fields : List (String × Json)) : Decodes σ :=
  fields.foldlM (fun state (key, value) => take state key value) start

/-- How a record is read: the names of its fields in the order of their declaration, and how many of
them an array has to have. -/
structure RecordShape where
  name : String
  fields : List String
  needed : Nat
deriving DecidableEq, Repr

namespace RecordShape

/-- A record all fields of which are needed. -/
def full (name : String) (fields : List String) : RecordShape := ⟨name, fields, fields.length⟩

/-- Whether an array of `count` fields has the right length for a record. -/
def checkLength (shape : RecordShape) (count : Nat) : Decodes Unit :=
  if count < shape.needed then
    .error (.wrongLength count s!"struct {shape.name} with {shape.fields.length} elements")
  else if shape.fields.length < count then
    .error (.wrongLength count "fewer elements in array")
  else .ok ()

end RecordShape

/-- A record from an object or from an array: `take` takes in a field, and `complete` makes a record
of what was taken in. -/
def asRecord {σ α : Type} (shape : RecordShape) (take : σ → String → Json → Decodes σ) (start : σ)
    (complete : σ → Decodes α) : Json → Decodes α
  | object fields => do
    let taken ← takeFields take start fields
    complete taken
  | array items => do
    let taken ← takeFields take start (shape.fields.zip items)
    shape.checkLength items.length
    complete taken
  | value => mismatch value s!"struct {shape.name}"

end Json

end SandboxProfile
