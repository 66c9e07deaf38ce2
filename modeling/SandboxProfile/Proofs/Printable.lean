import Mathlib.Data.List.Basic
import SandboxProfile.Proofs.Declarations
import SandboxProfile.Proofs.Spelling

/-!
# Printable profiles

A profile on the wire can hold what no text says: a name that is no symbol, a filter without what
its type asks for, a pair that is printed as a quotation, an expression that is read as a filter of
another type. A printable profile holds none of these and does not nest too deep. The tokens of its
text are read off here without the layout.
-/

namespace SandboxProfile.Wire

/-! ### Expressions -/

namespace Node

mutual

/-- Whether a property holds of an expression and of all inside. -/
def Every (P : Node → Prop) : Node → Prop
  | list items => P (list items) ∧ EveryAll P items
  | x => P x

def EveryAll (P : Node → Prop) : List Node → Prop
  | [] => True
  | x :: xs => x.Every P ∧ EveryAll P xs

end

/-- All symbols are symbols in a text. -/
def Legible (x : Node) : Prop := x.Every fun y => ∀ name, y = symbol name → IsSymbol name

/-- There is no pair headed by the symbol of quotation, whose form in a text means something else.
-/
def QuoteFree (x : Node) : Prop := x.Every fun y => y.quoted? = none

/-- Whether an expression is a list that does not begin with a symbol. -/
def isPlainList : Node → Bool
  | list (symbol _ :: _) => false
  | list _ => true
  | _ => false

mutual

def kinds : Node → List TokenKind
  | integer n => [.integer n]
  | string s => [.string s]
  | boolean b => [.boolean b]
  | symbol name => [.symbol name]
  | list items => .leftParen :: (kindsAll items ++ [.rightParen])

def kindsAll : List Node → List TokenKind
  | [] => []
  | x :: xs => x.kinds ++ kindsAll xs

end

mutual

/-- How deep lists nest in an expression, itself included. -/
def depth : Node → Nat
  | list items => 1 + depthAll items
  | _ => 0

def depthAll : List Node → Nat
  | [] => 0
  | x :: xs => max x.depth (depthAll xs)

end

mutual

theorem Every.imp {P Q : Node → Prop} (h : ∀ x, P x → Q x) : ∀ {x : Node}, x.Every P → x.Every Q
  | list _, hx => ⟨h _ hx.1, EveryAll.imp h hx.2⟩
  | integer _, hx | string _, hx | boolean _, hx | symbol _, hx => h _ hx

theorem EveryAll.imp {P Q : Node → Prop} (h : ∀ x, P x → Q x) :
    ∀ {xs : List Node}, EveryAll P xs → EveryAll Q xs
  | [], _ => trivial
  | _ :: _, hxs => ⟨Every.imp h hxs.1, EveryAll.imp h hxs.2⟩

end

end Node

/-! ### Filters -/

namespace Filter

mutual

/-- Whether a property holds of a filter and of all inside. -/
def Every (P : Filter → Prop) : Filter → Prop
  | ⟨type, value, none⟩ => P ⟨type, value, none⟩
  | ⟨type, value, some parts⟩ => P ⟨type, value, some parts⟩ ∧ EveryAll P parts

def EveryAll (P : Filter → Prop) : List Filter → Prop
  | [] => True
  | f :: fs => f.Every P ∧ EveryAll P fs

end

/-- A filter has what its type asks for: a compound one its parts, a negation one part, and any
other a value and a type that is a symbol. -/
def Legible (f : Filter) : Prop :=
  if f.isCompound || f.isNegation then
    f.value = none ∧ ∃ parts, f.filters = some parts ∧ (f.isNegation → parts.length = 1)
  else IsSymbol f.type ∧ f.filters = none ∧ ∃ value, f.value = some value ∧ value.Legible

def QuoteFree (f : Filter) : Prop := ∀ value, f.value = some value → value.QuoteFree

/-- A filter that is an expression is a list that does not begin with a symbol. -/
def Plain (f : Filter) : Prop :=
  f.isExpression → ∃ value, f.value = some value ∧ value.isPlainList

mutual

/-- The tokens of a filter. An expression stands for itself. -/
def kinds : Filter → List TokenKind
  | ⟨type, value, none⟩ =>
    if type = expressionText then value.elim [] Node.kinds
    else .leftParen :: .symbol type :: (value.elim [] Node.kinds ++ [.rightParen])
  | ⟨type, _, some parts⟩ => .leftParen :: .symbol type :: (kindsAll parts ++ [.rightParen])

def kindsAll : List Filter → List TokenKind
  | [] => []
  | f :: fs => f.kinds ++ kindsAll fs

end

mutual

/-- How deep filters and lists nest in a filter, itself included. An expression is a list itself. -/
def depth : Filter → Nat
  | ⟨type, value, none⟩ =>
    if type = expressionText then value.elim 0 Node.depth else 1 + value.elim 0 Node.depth
  | ⟨_, _, some parts⟩ => 1 + depthAll parts

def depthAll : List Filter → Nat
  | [] => 0
  | f :: fs => max f.depth (depthAll fs)

end

mutual

theorem Every.imp {P Q : Filter → Prop} (h : ∀ f, P f → Q f) :
    ∀ {f : Filter}, f.Every P → f.Every Q
  | ⟨_, _, none⟩, hf => h _ hf
  | ⟨_, _, some _⟩, hf => ⟨h _ hf.1, EveryAll.imp h hf.2⟩

theorem EveryAll.imp {P Q : Filter → Prop} (h : ∀ f, P f → Q f) :
    ∀ {fs : List Filter}, EveryAll P fs → EveryAll Q fs
  | [], _ => trivial
  | _ :: _, hfs => ⟨Every.imp h hfs.1, EveryAll.imp h hfs.2⟩

end

theorem hasParts_of_legible {type : String} {value : Option Node} {parts : List Filter}
    (h : Legible ⟨type, value, some parts⟩) : hasParts type = true := by
  unfold Legible at h
  split at h
  next hparts => exact hparts
  next => cases h.2.1

theorem parts_of_legible {type : String} {value : Option Node} {parts : List Filter}
    (h : Legible ⟨type, value, some parts⟩) :
    value = none ∧ (decide (type = negationText) = true → parts.length = 1) := by
  unfold Legible at h
  split at h
  next =>
    obtain ⟨hvalue, fs, hfs, hone⟩ := h
    obtain rfl : parts = fs := Option.some.inj hfs
    exact ⟨hvalue, hone⟩
  next => cases h.2.1

theorem value_of_legible {type : String} {value : Option Node}
    (h : Legible ⟨type, value, none⟩) :
    hasParts type = false ∧ IsSymbol type ∧ ∃ v, value = some v ∧ v.Legible := by
  unfold Legible at h
  split at h
  next =>
    obtain ⟨-, parts, hparts, -⟩ := h
    cases hparts
  next hparts => exact ⟨Bool.eq_false_iff.mpr hparts, h.1, h.2.2⟩

end Filter

/-! ### Declarations -/

namespace Declaration

/-- Names are symbols, and filters have what their types ask for. -/
def Legible : Declaration → Prop
  | definition d => IsSymbol d.name ∧ d.value.Legible
  | rule r => (∀ name ∈ r.operations, IsSymbol name) ∧ Filter.EveryAll Filter.Legible r.filters
  | version _ | debugMode _ | importPath _ => True

def QuoteFree : Declaration → Prop
  | definition d => d.value.QuoteFree
  | rule r => Filter.EveryAll Filter.QuoteFree r.filters
  | version _ | debugMode _ | importPath _ => True

def Plain : Declaration → Prop
  | rule r => Filter.EveryAll Filter.Plain r.filters
  | version _ | debugMode _ | importPath _ | definition _ => True

/-- The tokens between the parentheses. -/
def inner : Declaration → List TokenKind
  | version n => [.symbol "version", .integer n]
  | debugMode a => [.symbol "debug", .symbol a.text]
  | importPath path => [.symbol "import", .string path]
  | definition d => .symbol "define" :: .symbol d.name :: d.value.kinds
  | rule r => .symbol r.action.text :: (r.operations.map .symbol ++ Filter.kindsAll r.filters)

def kinds (d : Declaration) : List TokenKind := .leftParen :: (d.inner ++ [.rightParen])

def depth : Declaration → Nat
  | definition d => d.value.depth
  | rule r => Filter.depthAll r.filters
  | version _ | debugMode _ | importPath _ => 0

end Declaration

/-! ### Profiles -/

namespace Profile

/-- The declarations of a profile but the rules. -/
def front (p : Profile) : List Declaration :=
  p.version.toList.map .version ++ p.debugMode.toList.map .debugMode ++
    p.imports.map .importPath ++ p.definitions.map .definition

/-- The declarations of a profile in the order in which they are printed. -/
def declarations (p : Profile) : List Declaration := p.front ++ p.rules.map .rule

def Legible (p : Profile) : Prop := ∀ d ∈ p.declarations, d.Legible

/-- No value holds, at any depth, a pair headed by the symbol of quotation. -/
def QuoteFree (p : Profile) : Prop := ∀ d ∈ p.declarations, d.QuoteFree

/-- No expression among the filters, at any depth, begins with a symbol, and all are lists. -/
def Plain (p : Profile) : Prop := ∀ d ∈ p.declarations, d.Plain

def Shallow (limit : Nat) (p : Profile) : Prop := ∀ d ∈ p.declarations, d.depth ≤ limit

/-- Whether a profile can be read back from its text. -/
structure Printable (p : Profile) : Prop where
  legible : p.Legible
  quoteFree : p.QuoteFree
  plain : p.Plain
  shallow : p.Shallow SandboxProfile.Profile.defaultLimit

def kinds (p : Profile) : List TokenKind := p.declarations.flatMap Declaration.kinds

/-- A profile is made up of its declarations. -/
theorem ofDeclarations_declarations (p : Profile) : ofDeclarations p.declarations = p := by
  obtain ⟨version, debugMode, imports, definitions, rules⟩ := p
  have hnone {α β : Type} (xs : List α) : xs.findSome? (fun _ => (none : Option β)) = none :=
    List.findSome?_eq_none_iff.mpr fun _ _ => rfl
  simp only [ofDeclarations, declarations, front, List.findSome?_append, List.findSome?_map,
    List.filterMap_append, List.filterMap_map, Function.comp_def, Declaration.version?,
    Declaration.debugMode?, Declaration.importPath?, Declaration.definition?, Declaration.rule?,
    hnone, List.filterMap_none]
  cases version <;> cases debugMode <;> simp

end Profile

end SandboxProfile.Wire
