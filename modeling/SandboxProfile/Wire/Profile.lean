import SandboxProfile.Tree.Profile
import SandboxProfile.Wire.Node

/-!
# Profiles on the wire

A profile without places, made to be handed on. A filter has a type and, as the type asks for, a
value or further filters; which of them it has is not checked here.
-/

namespace SandboxProfile.Wire

/-- The type of a filter that is an expression. -/
def expressionText : String := "expression"

structure Filter where
  type : String
  value : Option Node
  filters : Option (List Filter)
deriving Repr, Inhabited

namespace Filter

def ofValue (type : String) (value : Node) : Filter := ⟨type, some value, none⟩

def ofFilters (type : String) (filters : List Filter) : Filter := ⟨type, none, some filters⟩

def isCompound (f : Filter) : Bool := (CompoundKind.ofText? f.type).isSome

def isNegation (f : Filter) : Bool := f.type = negationText

def isExpression (f : Filter) : Bool := f.type = expressionText

/-- The filters inside, none if there is no list of them. -/
def children (f : Filter) : List Filter := f.filters.getD []

/-! ### Equality -/

mutual

def decEq : (a b : Filter) → Decidable (a = b)
  | ⟨t, v, none⟩, ⟨t', v', gs⟩ =>
    match gs with
    | none => decidable_of_iff (t = t' ∧ v = v') (by simp)
    | some _ => isFalse (by simp)
  | ⟨t, v, some fs⟩, ⟨t', v', gs⟩ =>
    match gs with
    | none => isFalse (by simp)
    | some gs =>
      match decEqList fs gs with
      | isTrue h => decidable_of_iff (t = t' ∧ v = v') (by simp [h])
      | isFalse h => isFalse (by simp [h])

def decEqList : (xs ys : List Filter) → Decidable (xs = ys)
  | [], [] => isTrue rfl
  | [], _ :: _ => isFalse nofun
  | _ :: _, [] => isFalse nofun
  | x :: xs, y :: ys =>
    match decEq x y with
    | isTrue h =>
      match decEqList xs ys with
      | isTrue hs => isTrue (by rw [h, hs])
      | isFalse hs => isFalse (by simp [hs])
    | isFalse h => isFalse (by simp [h])

end

instance : DecidableEq Filter := decEq

end Filter

structure Definition where
  name : String
  value : Node
deriving DecidableEq, Repr

structure Rule where
  action : Action
  operations : List String
  filters : List Filter
deriving DecidableEq, Repr

structure Profile where
  version : Option Int64
  debugMode : Option Action
  imports : List String
  definitions : List Definition
  rules : List Rule
deriving DecidableEq, Repr

namespace Profile

def empty : Profile := ⟨none, none, [], [], []⟩

/-- Whether anything but rules is declared. -/
def hasDeclarations (p : Profile) : Bool :=
  p.version.isSome || p.debugMode.isSome || !p.imports.isEmpty || !p.definitions.isEmpty

/-- Whether nothing is declared. -/
def isEmpty (p : Profile) : Bool := !p.hasDeclarations && p.rules.isEmpty

end Profile

/-! ### From the tree -/

namespace Node

mutual

/-- An expression without its places. A raw string becomes a string. -/
def ofTree : Expr → Node
  | .integer n _ => integer n
  | .string s _ | .rawString s _ => string s
  | .boolean b _ => boolean b
  | .symbol name _ => symbol name
  | .list items _ => list (ofTrees items)
  | .quoted inner _ => quoted (ofTree inner)

def ofTrees : List Expr → List Node
  | [] => []
  | x :: xs => ofTree x :: ofTrees xs

end

end Node

namespace Filter

mutual

/-- A filter without its places. -/
def ofTree : SandboxProfile.Filter → Filter
  | .simple type _ value _ => ofValue type (.ofTree value)
  | .compound kind filters _ => ofFilters kind.text (ofTrees filters)
  | .negation filter _ => ofFilters negationText [ofTree filter]
  | .expression value => ofValue expressionText (.ofTree value)

def ofTrees : List SandboxProfile.Filter → List Filter
  | [] => []
  | f :: fs => ofTree f :: ofTrees fs

end

end Filter

def Definition.ofTree (d : SandboxProfile.Definition) : Definition := ⟨d.name, .ofTree d.value⟩

def Rule.ofTree (r : SandboxProfile.Rule) : Rule :=
  ⟨r.action, r.operationNames, Filter.ofTrees r.filters⟩

/-- A profile without its places. -/
def Profile.ofTree (p : SandboxProfile.Profile) : Profile where
  version := p.version.map (·.number)
  debugMode := p.debug.map (·.action)
  imports := p.imports.map (·.path)
  definitions := p.definitions.map .ofTree
  rules := p.rules.map .ofTree

end SandboxProfile.Wire
