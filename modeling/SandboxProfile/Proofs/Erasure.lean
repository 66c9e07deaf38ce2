import SandboxProfile.Reading.Profile
import SandboxProfile.Wire.Profile

/-!
# Data without its places

Erasing moves every place in a piece of data to the origin and drops the text and the trivia of
tokens. What is left of a token is its kind. The wire model holds no places, so erasing a tree does
not change it.
-/

namespace SandboxProfile

/-- Data in which places of a text may stand. -/
class Placed (α : Type) where
  /-- The same data with every place at the origin. -/
  erase : α → α

open Placed (erase)

instance : Placed Unit := ⟨id⟩
instance : Placed String := ⟨id⟩
instance : Placed Action := ⟨id⟩
instance : Placed TokenKind := ⟨id⟩
instance : Placed Position := ⟨fun _ => .origin⟩
instance : Placed Range := ⟨fun _ => .zero⟩

instance {α : Type} [Placed α] : Placed (List α) := ⟨List.map erase⟩
instance {α : Type} [Placed α] : Placed (Option α) := ⟨Option.map erase⟩
instance {α β : Type} [Placed α] [Placed β] : Placed (α × β) := ⟨fun p => (erase p.1, erase p.2)⟩

/-! ### Diagnostics -/

instance : Placed Fix := ⟨fun f => ⟨f.title, .zero, f.replacement⟩⟩
instance : Placed Related := ⟨fun r => ⟨.zero, r.message⟩⟩

instance : Placed Diagnostic :=
  ⟨fun d => ⟨.zero, d.code, d.message, d.severity, erase d.fixes, erase d.related⟩⟩

/-! ### Tokens -/

/-- A token of which only the kind is known. -/
def Token.bare (kind : TokenKind) : Token := ⟨kind, "", .zero, .zero, [], []⟩

instance : Placed Token := ⟨fun t => .bare t.kind⟩

/-- The end of a file at the origin. -/
def ListEnd.bareEnd : ListEnd := .endOfFile .zero .origin

instance : Placed ListEnd where
  erase
    | .closed t => .closed (erase t)
    | .endOfFile _ _ => .bareEnd

def Forest.erase : Forest → Forest
  | done => done
  | leaf t rest => leaf (Placed.erase t) rest.erase
  | list o items stop rest => list (Placed.erase o) items.erase (Placed.erase stop) rest.erase

instance : Placed Forest := ⟨Forest.erase⟩

/-! ### Trees -/

mutual

def Expr.erase : Expr → Expr
  | integer n _ => integer n .zero
  | string s _ => string s .zero
  | rawString s _ => rawString s .zero
  | boolean b _ => boolean b .zero
  | symbol name _ => symbol name .zero
  | list items _ => list (eraseAll items) .zero
  | quoted inner _ => quoted inner.erase .zero

def Expr.eraseAll : List Expr → List Expr
  | [] => []
  | x :: xs => x.erase :: eraseAll xs

end

instance : Placed Expr := ⟨Expr.erase⟩

mutual

def Filter.erase : Filter → Filter
  | simple type _ value _ => simple type .zero (Placed.erase value) .zero
  | compound kind filters _ => compound kind (eraseAll filters) .zero
  | negation filter _ => negation filter.erase .zero
  | expression value => expression (Placed.erase value)

def Filter.eraseAll : List Filter → List Filter
  | [] => []
  | f :: fs => f.erase :: eraseAll fs

end

instance : Placed Filter := ⟨Filter.erase⟩

instance : Placed Version := ⟨fun v => ⟨v.number, .zero⟩⟩
instance : Placed DebugMode := ⟨fun d => ⟨d.action, .zero⟩⟩
instance : Placed Import := ⟨fun i => ⟨i.path, .zero, .zero⟩⟩
instance : Placed Definition := ⟨fun d => ⟨d.name, .zero, erase d.value, .zero⟩⟩
instance : Placed Operation := ⟨fun o => ⟨o.name, .zero⟩⟩
instance : Placed Rule := ⟨fun r => ⟨r.action, erase r.operations, erase r.filters, .zero⟩⟩

instance : Placed Declaration where
  erase
    | .version v => .version (erase v)
    | .debug d => .debug (erase d)
    | .importPath i => .importPath (erase i)
    | .definition d => .definition (erase d)
    | .rule r => .rule (erase r)

instance : Placed Step := ⟨fun s => ⟨erase s.notes, erase s.declaration?⟩⟩

namespace Expr

@[simp] theorem eraseAll_eq (xs : List Expr) : eraseAll xs = Placed.erase xs := by
  induction xs with
  | nil => rfl
  | cons x xs ih =>
    rw [eraseAll, ih]
    rfl

end Expr

namespace Filter

@[simp] theorem eraseAll_eq (fs : List Filter) : eraseAll fs = Placed.erase fs := by
  induction fs with
  | nil => rfl
  | cons f fs ih =>
    rw [eraseAll, ih]
    rfl

end Filter

/-! ### Equations -/

section

variable {α β : Type} [Placed α] [Placed β]

@[simp] theorem erase_nil : erase ([] : List α) = [] := rfl

@[simp] theorem erase_cons (x : α) (xs : List α) : erase (x :: xs) = erase x :: erase xs := rfl

@[simp] theorem erase_append (xs ys : List α) : erase (xs ++ ys) = erase xs ++ erase ys :=
  List.map_append

@[simp] theorem erase_none : erase (none : Option α) = none := rfl

@[simp] theorem erase_some (x : α) : erase (some x) = some (erase x) := rfl

@[simp] theorem erase_pair (x : α) (y : β) : erase (x, y) = (erase x, erase y) := rfl

end

@[simp] theorem erase_position (p : Position) : erase p = .origin := rfl

@[simp] theorem erase_range (r : Range) : erase r = .zero := rfl

@[simp] theorem erase_string (s : String) : erase s = s := rfl

@[simp] theorem erase_kind (k : TokenKind) : erase k = k := rfl

@[simp] theorem erase_token (t : Token) : erase t = .bare t.kind := rfl

@[simp] theorem bare_kind (k : TokenKind) : (Token.bare k).kind = k := rfl

@[simp] theorem bare_range (k : TokenKind) : (Token.bare k).range = .zero := rfl

@[simp] theorem zero_start : Range.zero.start = .origin := rfl

@[simp] theorem zero_stop : Range.zero.stop = .origin := rfl

@[simp] theorem mk_origin : (⟨.origin, .origin⟩ : Range) = .zero := rfl

@[simp] theorem merge_zero : Range.zero.merge .zero = .zero := rfl

namespace Forest

@[simp] theorem erase_done : Placed.erase done = done := rfl

@[simp] theorem erase_leaf (t : Token) (f : Forest) :
    Placed.erase (leaf t f) = leaf (.bare t.kind) (Placed.erase f) := rfl

@[simp] theorem erase_list (o : Token) (items : Forest) (stop : ListEnd) (rest : Forest) :
    Placed.erase (list o items stop rest) =
      list (.bare o.kind) (Placed.erase items) (Placed.erase stop) (Placed.erase rest) := rfl

@[simp] theorem erase_append (f g : Forest) :
    Placed.erase (f ++ g) = Placed.erase f ++ Placed.erase g := by
  induction f with
  | done => rfl
  | leaf t rest ih => simp [ih]
  | list o items stop rest _ ih => simp [ih]

@[simp] theorem erase_ofEnd (stop : ListEnd) :
    Placed.erase (ofEnd stop) = ofEnd (Placed.erase stop) := by
  cases stop <;> rfl

@[simp] theorem erase_closedBy (f : Forest) (stop : ListEnd) :
    Placed.erase (f.closedBy stop) = (Placed.erase f).closedBy (Placed.erase stop) := by
  simp [closedBy]

@[simp] theorem erase_dropLeaves (f : Forest) :
    Placed.erase f.dropLeaves = (Placed.erase f).dropLeaves := by
  induction f with
  | done => rfl
  | leaf t rest ih => exact ih
  | list o items stop rest => rfl

@[simp] theorem erase_resume (f : Forest) : Placed.erase f.resume = (Placed.erase f).resume := by
  cases f with
  | done => rfl
  | leaf t rest => exact erase_dropLeaves rest
  | list o items stop rest => simp [resume]

@[simp] theorem erase_next (f : Forest) (stop : ListEnd) :
    Placed.erase (f.next stop) = (Placed.erase f).next (Placed.erase stop) := by
  cases f with
  | done => cases stop <;> rfl
  | leaf t rest => rfl
  | list o items e rest => rfl

@[simp] theorem erase_start? (f : Forest) :
    Placed.erase f.start? = (Placed.erase f).start? := by
  cases f <;> rfl

@[simp] theorem erase_stop? (f : Forest) : Placed.erase f.stop? = (Placed.erase f).stop? := by
  induction f with
  | done => rfl
  | leaf t rest ih =>
    rw [erase_leaf, stop?, stop?, ← ih]
    cases rest.stop? <;> rfl
  | list o items stop rest _ ih =>
    rw [erase_list]
    cases stop with
    | closed c =>
      change _ = some ((Placed.erase rest).stop?.getD Position.origin)
      rw [stop?, ← ih]
      cases rest.stop? <;> rfl
    | endOfFile r last =>
      change _ = some ((Placed.erase rest).stop?.getD Position.origin)
      rw [stop?, ← ih]
      cases rest.stop? <;> rfl

end Forest

/-! ### The wire model -/

namespace Wire

mutual

theorem Node.ofTree_erase : ∀ x : Expr, Node.ofTree (erase x) = Node.ofTree x
  | .integer .. | .string .. | .rawString .. | .boolean .. | .symbol .. => rfl
  | .list items _ => by
    change Node.list (Node.ofTrees (Expr.eraseAll items)) = _
    rw [Expr.eraseAll_eq, Node.ofTrees_erase items, Node.ofTree]
  | .quoted inner _ => by
    change Node.quoted (Node.ofTree (erase inner)) = _
    rw [Node.ofTree_erase inner, Node.ofTree]

theorem Node.ofTrees_erase : ∀ xs : List Expr, Node.ofTrees (erase xs) = Node.ofTrees xs
  | [] => rfl
  | x :: xs => by
    rw [erase_cons, Node.ofTrees, Node.ofTrees, Node.ofTree_erase x, Node.ofTrees_erase xs]

end

mutual

theorem Filter.ofTree_erase :
    ∀ f : SandboxProfile.Filter, Filter.ofTree (erase f) = Filter.ofTree f
  | .simple type _ value _ => by
    change Filter.ofValue type (Node.ofTree (erase value)) = _
    rw [Node.ofTree_erase, Filter.ofTree]
  | .compound kind filters _ => by
    change Filter.ofFilters kind.text (Filter.ofTrees (SandboxProfile.Filter.eraseAll filters)) = _
    rw [SandboxProfile.Filter.eraseAll_eq, Filter.ofTrees_erase filters, Filter.ofTree]
  | .negation filter _ => by
    change Filter.ofFilters negationText [Filter.ofTree (erase filter)] = _
    rw [Filter.ofTree_erase filter, Filter.ofTree]
  | .expression value => by
    change Filter.ofValue expressionText (Node.ofTree (erase value)) = _
    rw [Node.ofTree_erase, Filter.ofTree]

theorem Filter.ofTrees_erase :
    ∀ fs : List SandboxProfile.Filter, Filter.ofTrees (erase fs) = Filter.ofTrees fs
  | [] => rfl
  | f :: fs => by
    rw [erase_cons, Filter.ofTrees, Filter.ofTrees, Filter.ofTree_erase f, Filter.ofTrees_erase fs]

end

end Wire

end SandboxProfile
