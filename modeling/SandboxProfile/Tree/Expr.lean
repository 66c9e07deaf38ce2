import SandboxProfile.Source.Position
import SandboxProfile.Text.Integer

/-!
# Expressions of a profile

An expression is an atom or a list of expressions, with the range it was read from. Equality counts
the ranges.
-/

namespace SandboxProfile

inductive Expr where
  | integer (value : Int64) (range : Range)
  /-- A quoted string, its escapes replaced by what they denote. -/
  | string (value : String) (range : Range)
  | rawString (value : String) (range : Range)
  | boolean (value : Bool) (range : Range)
  | symbol (name : String) (range : Range)
  | list (items : List Expr) (range : Range)
  /-- An expression that stands for itself. Reading yields none; such a node is only built. -/
  | quoted (inner : Expr) (range : Range)
deriving Repr, Inhabited

namespace Expr

def range : Expr → Range
  | integer _ r | string _ r | rawString _ r | boolean _ r | symbol _ r | list _ r | quoted _ r => r

def symbol? : Expr → Option String
  | symbol name _ => some name
  | _ => none

/-- The text of a string of either kind. -/
def text? : Expr → Option String
  | string s _ | rawString s _ => some s
  | _ => none

def integer? : Expr → Option Int64
  | integer n _ => some n
  | _ => none

def items? : Expr → Option (List Expr)
  | list items _ => some items
  | _ => none

/-- Whether an expression holds no other one. -/
def isAtom : Expr → Bool
  | list _ _ | quoted _ _ => false
  | _ => true

/-! ### Equality -/

mutual

def decEq : (a b : Expr) → Decidable (a = b)
  | integer m r, b =>
    match b with
    | integer n s => decidable_of_iff (m = n ∧ r = s) (by simp)
    | string .. | rawString .. | boolean .. | symbol .. | list .. | quoted .. => isFalse nofun
  | string m r, b =>
    match b with
    | string n s => decidable_of_iff (m = n ∧ r = s) (by simp)
    | integer .. | rawString .. | boolean .. | symbol .. | list .. | quoted .. => isFalse nofun
  | rawString m r, b =>
    match b with
    | rawString n s => decidable_of_iff (m = n ∧ r = s) (by simp)
    | integer .. | string .. | boolean .. | symbol .. | list .. | quoted .. => isFalse nofun
  | boolean m r, b =>
    match b with
    | boolean n s => decidable_of_iff (m = n ∧ r = s) (by simp)
    | integer .. | string .. | rawString .. | symbol .. | list .. | quoted .. => isFalse nofun
  | symbol m r, b =>
    match b with
    | symbol n s => decidable_of_iff (m = n ∧ r = s) (by simp)
    | integer .. | string .. | rawString .. | boolean .. | list .. | quoted .. => isFalse nofun
  | list xs r, b =>
    match b with
    | list ys s =>
      match decEqList xs ys with
      | isTrue h => decidable_of_iff (r = s) (by simp [h])
      | isFalse h => isFalse (by simp [h])
    | integer .. | string .. | rawString .. | boolean .. | symbol .. | quoted .. => isFalse nofun
  | quoted x r, b =>
    match b with
    | quoted y s =>
      match decEq x y with
      | isTrue h => decidable_of_iff (r = s) (by simp [h])
      | isFalse h => isFalse (by simp [h])
    | integer .. | string .. | rawString .. | boolean .. | symbol .. | list .. => isFalse nofun

def decEqList : (xs ys : List Expr) → Decidable (xs = ys)
  | [], [] => isTrue rfl
  | [], _ :: _ => isFalse nofun
  | _ :: _, [] => isFalse nofun
  | x :: xs, y :: ys =>
    match decEq x y with
    | isTrue h =>
      match decEqList xs ys with
      | isTrue hs => isTrue (by rw [h, hs])
      | isFalse hs => isFalse (by simp [hs])
    | isFalse h => isFalse (by simp [h])

end

instance : DecidableEq Expr := decEq

end Expr

end SandboxProfile
