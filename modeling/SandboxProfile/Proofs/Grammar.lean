import SandboxProfile.Proofs.Declarations
import SandboxProfile.Proofs.Grouping

/-!
# The grammar of profiles

A derivation is a tree that says by which rules a sequence of tokens is a profile, a filter or an
expression. From it are read off the tokens that it derives, how deep its filters and lists nest,
and what it means on the wire; none of these looks at how a text is read.
-/

namespace SandboxProfile.Grammar

/-! ### Expressions -/

inductive Expr where
  | integer (value : Int64)
  | string (value : String)
  | rawString (value : String)
  | boolean (value : Bool)
  | symbol (name : String)
  | list (items : List Expr)

namespace Expr

def isSymbol : Expr → Bool
  | symbol _ => true
  | _ => false

mutual

def kinds : Expr → List TokenKind
  | integer n => [.integer n]
  | string s => [.string s]
  | rawString s => [.rawString s]
  | boolean b => [.boolean b]
  | symbol name => [.symbol name]
  | list items => .leftParen :: (kindsAll items ++ [.rightParen])

def kindsAll : List Expr → List TokenKind
  | [] => []
  | x :: xs => x.kinds ++ kindsAll xs

end

mutual

/-- How deep lists nest in an expression, itself included. -/
def depth : Expr → Nat
  | list items => 1 + depthAll items
  | _ => 0

def depthAll : List Expr → Nat
  | [] => 0
  | x :: xs => max x.depth (depthAll xs)

end

mutual

def node : Expr → Wire.Node
  | integer n => .integer n
  | string s | rawString s => .string s
  | boolean b => .boolean b
  | symbol name => .symbol name
  | list items => .list (nodes items)

def nodes : List Expr → List Wire.Node
  | [] => []
  | x :: xs => x.node :: nodes xs

end

end Expr

/-! ### Filters -/

inductive Filter where
  | empty
  | compound (kind : CompoundKind) (parts : List Filter)
  | negation (part : Filter)
  /-- A filter with a type and a value; what else is there does not count. -/
  | simple (type : String) (free : Wire.hasParts type = false) (value : Expr) (extras : List Expr)
  /-- A list that does not begin with a symbol. -/
  | expression (first : Expr) (plain : first.isSymbol = false) (more : List Expr)

namespace Filter

mutual

/-- The tokens between the parentheses. -/
def inner : Filter → List TokenKind
  | empty => []
  | compound kind parts => .symbol kind.text :: kindsAll parts
  | negation part => .symbol negationText :: .leftParen :: (part.inner ++ [.rightParen])
  | simple type _ value extras => .symbol type :: Expr.kindsAll (value :: extras)
  | expression first _ more => Expr.kindsAll (first :: more)

def kindsAll : List Filter → List TokenKind
  | [] => []
  | f :: fs => .leftParen :: (f.inner ++ .rightParen :: kindsAll fs)

end

def kinds (f : Filter) : List TokenKind := .leftParen :: (f.inner ++ [.rightParen])

mutual

/-- How deep filters and lists nest in a filter, itself included. -/
def depth : Filter → Nat
  | empty => 1
  | compound _ parts => 1 + depthAll parts
  | negation part => 1 + part.depth
  | simple _ _ value extras => 1 + Expr.depthAll (value :: extras)
  | expression first _ more => 1 + Expr.depthAll (first :: more)

def depthAll : List Filter → Nat
  | [] => 0
  | f :: fs => max f.depth (depthAll fs)

end

mutual

def wire : Filter → Wire.Filter
  | empty => .ofValue Wire.expressionText (.list [])
  | compound kind parts => .ofFilters kind.text (wires parts)
  | negation part => .ofFilters negationText [part.wire]
  | simple type _ value _ => .ofValue type value.node
  | expression first _ more => .ofValue Wire.expressionText (.list (Expr.nodes (first :: more)))

def wires : List Filter → List Wire.Filter
  | [] => []
  | f :: fs => f.wire :: wires fs

end

end Filter

/-! ### Forms -/

/-- What stands in a rule. -/
inductive Item where
  | operation (name : String)
  | filter (filter : Filter)

namespace Item

def kinds : Item → List TokenKind
  | operation name => [.symbol name]
  | filter f => f.kinds

def depth : Item → Nat
  | operation _ => 0
  | filter f => f.depth

def operation? : Item → Option String
  | operation name => some name
  | filter _ => none

def filter? : Item → Option Wire.Filter
  | operation _ => none
  | filter f => some f.wire

end Item

inductive Form where
  | empty
  | version (number : Int64)
  | debug (action : Action)
  | importPath (raw : Bool) (path : String)
  | definition (name : String) (value : Expr)
  /-- A definition with parameters, which are tokens of any kind. -/
  | procedure (name : String) (parameters : List TokenKind) (balanced : Balanced parameters)
    (value : Expr)
  | rule (action : Action) (items : List Item)
  /-- A form that begins with any other name. -/
  | unknown (name : String)
    (other : name ∉ ["version", "debug", "import", "define", "allow", "deny"])
    (body : List TokenKind) (balanced : Balanced body)

namespace Form

/-- The tokens between the parentheses. -/
def inner : Form → List TokenKind
  | empty => []
  | version n => [.symbol "version", .integer n]
  | debug action => [.symbol "debug", .symbol action.text]
  | importPath raw path =>
    [.symbol "import", if raw then .rawString path else .string path]
  | definition name value => .symbol "define" :: .symbol name :: value.kinds
  | procedure name parameters _ value =>
    .symbol "define" :: .leftParen :: .symbol name :: (parameters ++ .rightParen :: value.kinds)
  | rule action items => .symbol action.text :: items.flatMap Item.kinds
  | unknown name _ body _ => .symbol name :: body

def kinds (f : Form) : List TokenKind := .leftParen :: (f.inner ++ [.rightParen])

/-- How deep filters and lists nest in a form. Tokens that are passed over do not count. -/
def depth : Form → Nat
  | definition _ value | procedure _ _ _ value => value.depth
  | rule _ items => (items.map Item.depth).foldr max 0
  | empty | version _ | debug _ | importPath _ _ | unknown _ _ _ _ => 0

/-- What a form declares, if anything. -/
def declaration? : Form → Option Wire.Declaration
  | version n => some (.version n)
  | debug action => some (.debugMode action)
  | importPath _ path => some (.importPath path)
  | definition name value | procedure name _ _ value => some (.definition ⟨name, value.node⟩)
  | rule action items =>
    some (.rule ⟨action, items.filterMap Item.operation?, items.filterMap Item.filter?⟩)
  | empty | unknown _ _ _ _ => none

end Form

/-! ### Profiles -/

/-- The tokens that forms derive. -/
def kinds (forms : List Form) : List TokenKind := forms.flatMap Form.kinds

def depth (forms : List Form) : Nat := (forms.map Form.depth).foldr max 0

def declarations (forms : List Form) : List Wire.Declaration := forms.filterMap Form.declaration?

theorem declarations_cons (f : Form) (fs : List Form) :
    declarations (f :: fs) = f.declaration?.toList ++ declarations fs := by
  rw [declarations, List.filterMap_cons]
  cases f.declaration? <;> rfl

/-- The profile of a derivation: declarations in the order of the forms, each kind by itself, and of
versions and debug modes the first. -/
def wire (forms : List Form) : Wire.Profile := .ofDeclarations (declarations forms)

end SandboxProfile.Grammar
