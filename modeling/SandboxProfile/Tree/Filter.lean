import SandboxProfile.Tree.Expr

/-!
# Filters of a rule

A filter is a condition on what a rule applies to: a simple one with a type and a value, several
joined by "all" or "any", the negation of one, or a list of another shape that is kept as it is.
Beside the type stand the measures of a filter, how many filters it holds and how deep they nest.
-/

namespace SandboxProfile

/-- How the parts of a compound filter are joined. -/
inductive CompoundKind where
  | all
  | any
deriving DecidableEq, Repr, Inhabited

namespace CompoundKind

def text : CompoundKind → String
  | all => "require-all"
  | any => "require-any"

def ofText? : String → Option CompoundKind
  | "require-all" => some all
  | "require-any" => some any
  | _ => none

@[simp] theorem ofText?_text (k : CompoundKind) : ofText? k.text = some k := by
  cases k <;> rfl

end CompoundKind

/-- The type name of a negation. -/
def negationText : String := "require-not"

inductive Filter where
  | simple (type : String) (typeRange : Range) (value : Expr) (range : Range)
  | compound (kind : CompoundKind) (filters : List Filter) (range : Range)
  | negation (filter : Filter) (range : Range)
  /-- A list of another shape. -/
  | expression (value : Expr)
deriving Repr, Inhabited

namespace Filter

def range : Filter → Range
  | simple _ _ _ r | compound _ _ r | negation _ r => r
  | expression value => value.range

/-- The type of a filter on the wire. -/
def typeName : Filter → String
  | simple type _ _ _ => type
  | compound kind _ _ => kind.text
  | negation _ _ => negationText
  | expression _ => "expression"

def isCompound : Filter → Bool
  | compound _ _ _ => true
  | _ => false

mutual

/-- The number of filters in a filter, itself included. -/
def count : Filter → Nat
  | compound _ filters _ => 1 + countAll filters
  | negation filter _ => 1 + filter.count
  | simple .. | expression _ => 1

def countAll : List Filter → Nat
  | [] => 0
  | f :: fs => f.count + countAll fs

end

mutual

/-- How deep filters nest in a filter, itself included. -/
def depth : Filter → Nat
  | compound _ filters _ => 1 + depthAll filters
  | negation filter _ => 1 + filter.depth
  | simple .. | expression _ => 1

def depthAll : List Filter → Nat
  | [] => 0
  | f :: fs => max f.depth (depthAll fs)

end

/-! ### Equality -/

mutual

def decEq : (a b : Filter) → Decidable (a = b)
  | simple t r v s, b =>
    match b with
    | simple t' r' v' s' => decidable_of_iff (t = t' ∧ r = r' ∧ v = v' ∧ s = s') (by simp)
    | compound .. | negation .. | expression .. => isFalse nofun
  | compound k xs r, b =>
    match b with
    | compound k' ys r' =>
      match decEqList xs ys with
      | isTrue h => decidable_of_iff (k = k' ∧ r = r') (by simp [h])
      | isFalse h => isFalse (by simp [h])
    | simple .. | negation .. | expression .. => isFalse nofun
  | negation x r, b =>
    match b with
    | negation y r' =>
      match decEq x y with
      | isTrue h => decidable_of_iff (r = r') (by simp [h])
      | isFalse h => isFalse (by simp [h])
    | simple .. | compound .. | expression .. => isFalse nofun
  | expression v, b =>
    match b with
    | expression v' => decidable_of_iff (v = v') (by simp)
    | simple .. | compound .. | negation .. => isFalse nofun

def decEqList : (xs ys : List Filter) → Decidable (xs = ys)
  | [], [] => isTrue rfl
  | [], _ :: _ => isFalse nofun
  | _ :: _, [] => isFalse nofun
  | x :: xs, y :: ys =>
    match decEq x y with
    | isTrue h =>
      match decEqList xs ys with
      | isTrue hs => isTrue (by rw [h, hs])
      | isFalse hs => isFalse (by simp [hs])
    | isFalse h => isFalse (by simp [h])

end

instance : DecidableEq Filter := decEq

end Filter

end SandboxProfile
