import SandboxProfile.Tree.Filter

/-!
# Profiles

What a profile declares, each declaration with the range it was read from. Declarations are kept by
kind, each kind in the order of the text; how the kinds are mixed there is not kept.
-/

namespace SandboxProfile

/-- What a rule does with what it applies to. -/
inductive Action where
  | allow
  | deny
deriving DecidableEq, Repr, Inhabited

namespace Action

def text : Action → String
  | allow => "allow"
  | deny => "deny"

/-- A text that names no action. -/
structure Unknown where
  text : String
deriving DecidableEq, Repr

def Unknown.message (e : Unknown) : String :=
  s!"invalid action '{e.text}', expected 'allow' or 'deny'"

def ofText : String → Except Unknown Action
  | "allow" => .ok allow
  | "deny" => .ok deny
  | other => .error ⟨other⟩

@[simp] theorem ofText_text (a : Action) : ofText a.text = .ok a := by cases a <;> rfl

end Action

structure Version where
  number : Int64
  range : Range
deriving DecidableEq, Repr

/-- What debugging does with what no rule decides. -/
structure DebugMode where
  action : Action
  range : Range
deriving DecidableEq, Repr

structure Import where
  path : String
  pathRange : Range
  range : Range
deriving DecidableEq, Repr

/-- A name for a value. Of a definition with parameters the parameters are not kept. -/
structure Definition where
  name : String
  nameRange : Range
  value : Expr
  range : Range
deriving DecidableEq, Repr

/-- The name of an operation a rule is about. -/
structure Operation where
  name : String
  range : Range
deriving DecidableEq, Repr

structure Rule where
  action : Action
  operations : List Operation
  filters : List Filter
  range : Range
deriving DecidableEq, Repr

namespace Rule

def operationNames (r : Rule) : List String := r.operations.map Operation.name

end Rule

structure Profile where
  version : Option Version
  debug : Option DebugMode
  imports : List Import
  definitions : List Definition
  rules : List Rule
  range : Range
deriving DecidableEq, Repr

namespace Profile

def empty : Profile := ⟨none, none, [], [], [], Range.zero⟩

/-- Whether nothing is declared. -/
def isEmpty (p : Profile) : Bool :=
  p.version.isNone && p.debug.isNone && p.imports.isEmpty && p.definitions.isEmpty &&
    p.rules.isEmpty

/-- The first definition of a name. -/
def definition? (p : Profile) (name : String) : Option Definition :=
  p.definitions.find? (·.name = name)

def rulesWithAction (p : Profile) (action : Action) : List Rule :=
  p.rules.filter (·.action = action)

/-- The number of filters of all rules, the filters inside filters included. -/
def filterCount (p : Profile) : Nat :=
  p.rules.foldr (fun r n => Filter.countAll r.filters + n) 0

def operationCount (p : Profile) : Nat :=
  p.rules.foldr (fun r n => r.operations.length + n) 0

/-- How deep filters nest in any rule. -/
def filterDepth (p : Profile) : Nat :=
  (p.rules.map fun r => Filter.depthAll r.filters).foldl max 0

end Profile

end SandboxProfile
