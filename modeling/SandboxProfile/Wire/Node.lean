import SandboxProfile.Text.Integer

/-!
# Expressions on the wire

An expression without places. Its text form is a JSON value; there a string stands between quotation
marks of its own, and any other text is a symbol.
-/

namespace SandboxProfile.Wire

inductive Node where
  | integer (value : Int64)
  | string (value : String)
  | boolean (value : Bool)
  | symbol (name : String)
  | list (items : List Node)
deriving Repr, Inhabited

namespace Node

/-- The string or symbol that a text on the wire denotes. The last character after an opening mark
counts as the closing one, whatever it is. -/
def ofText (text : String) : Node :=
  match text.toList with
  | '"' :: cs => string (String.ofList cs.dropLast)
  | _ => symbol text

/-- An expression that stands for itself, as a list. -/
def quoted (inner : Node) : Node := list [symbol "quote", inner]

/-- The expression inside such a list. -/
def quoted? : Node → Option Node
  | list [symbol head, inner] => if head = "quote" then some inner else none
  | _ => none

@[simp] theorem quoted?_quoted (inner : Node) : (quoted inner).quoted? = some inner := rfl

/-! ### Equality -/

mutual

def decEq : (a b : Node) → Decidable (a = b)
  | integer m, b =>
    match b with
    | integer n => decidable_of_iff (m = n) (by simp)
    | string _ | boolean _ | symbol _ | list _ => isFalse nofun
  | string m, b =>
    match b with
    | string n => decidable_of_iff (m = n) (by simp)
    | integer _ | boolean _ | symbol _ | list _ => isFalse nofun
  | boolean m, b =>
    match b with
    | boolean n => decidable_of_iff (m = n) (by simp)
    | integer _ | string _ | symbol _ | list _ => isFalse nofun
  | symbol m, b =>
    match b with
    | symbol n => decidable_of_iff (m = n) (by simp)
    | integer _ | string _ | boolean _ | list _ => isFalse nofun
  | list xs, b =>
    match b with
    | list ys =>
      match decEqList xs ys with
      | isTrue h => isTrue (by rw [h])
      | isFalse h => isFalse (by simp [h])
    | integer _ | string _ | boolean _ | symbol _ => isFalse nofun

def decEqList : (xs ys : List Node) → Decidable (xs = ys)
  | [], [] => isTrue rfl
  | [], _ :: _ => isFalse nofun
  | _ :: _, [] => isFalse nofun
  | x :: xs, y :: ys =>
    match decEq x y with
    | isTrue h =>
      match decEqList xs ys with
      | isTrue hs => isTrue (by rw [h, hs])
      | isFalse hs => isFalse (by simp [hs])
    | isFalse h => isFalse (by simp [h])

end

instance : DecidableEq Node := decEq

end Node

end SandboxProfile.Wire
