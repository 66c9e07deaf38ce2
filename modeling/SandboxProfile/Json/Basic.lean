import SandboxProfile.Json.Binary64

/-!
# JSON values

A number is an integer or a double. The fields of an object stand in a list; a value that was read
from text has them in ascending order of their keys, each key once.
-/

namespace SandboxProfile

inductive Json where
  | null
  | bool (value : Bool)
  | integer (value : Int)
  | double (value : Binary64)
  | string (value : String)
  | array (items : List Json)
  | object (fields : List (String × Json))
deriving Repr, Inhabited

namespace Json

/-- Puts a field in its place among fields in ascending order, in place of one with the same key. -/
def insertField (key : String) (value : Json) : List (String × Json) → List (String × Json)
  | [] => [(key, value)]
  | (k, v) :: more =>
    if key = k then (key, value) :: more
    else if key < k then (key, value) :: (k, v) :: more
    else (k, v) :: insertField key value more

/-- Fields in ascending order of keys; of several with one key the last is kept. -/
def sortFields (fields : List (String × Json)) : List (String × Json) :=
  fields.foldl (fun sorted (key, value) => insertField key value sorted) []

mutual

/-- The same value with the fields of every object in ascending order. -/
def sorted : Json → Json
  | array items => array (sortedItems items)
  | object fields => object (sortFields (sortedFields fields))
  | value => value

def sortedItems : List Json → List Json
  | [] => []
  | x :: xs => x.sorted :: sortedItems xs

def sortedFields : List (String × Json) → List (String × Json)
  | [] => []
  | (key, x) :: xs => (key, x.sorted) :: sortedFields xs

end

mutual

/-- How deep arrays and objects nest, counting the value itself. -/
def depth : Json → Nat
  | array items => 1 + depthItems items
  | object fields => 1 + depthFields fields
  | _ => 1

def depthItems : List Json → Nat
  | [] => 0
  | x :: xs => max x.depth (depthItems xs)

def depthFields : List (String × Json) → Nat
  | [] => 0
  | (_, x) :: xs => max x.depth (depthFields xs)

end

mutual

/-- The number of values in a value, itself included. -/
def size : Json → Nat
  | array items => 1 + sizeItems items
  | object fields => 1 + sizeFields fields
  | _ => 1

def sizeItems : List Json → Nat
  | [] => 0
  | x :: xs => x.size + sizeItems xs

def sizeFields : List (String × Json) → Nat
  | [] => 0
  | (_, x) :: xs => x.size + sizeFields xs

end

/-- The values that stand directly in a value. -/
def children : Json → List Json
  | array items => items
  | object fields => fields.map (·.2)
  | _ => []

theorem sizeItems_append (xs ys : List Json) :
    sizeItems (xs ++ ys) = sizeItems xs + sizeItems ys := by
  induction xs with
  | nil => simp [sizeItems]
  | cons x xs ih => simp [sizeItems, ih, Nat.add_assoc]

theorem sizeItems_map_snd (fields : List (String × Json)) :
    sizeItems (fields.map (·.2)) = sizeFields fields := by
  induction fields with
  | nil => rfl
  | cons field fields ih => simp [sizeItems, sizeFields, ih]

theorem size_eq (x : Json) : x.size = 1 + sizeItems x.children := by
  cases x <;> simp [size, children, sizeItems, sizeItems_map_snd]

/-- The greatest of `best` and the depths in values yet to be looked at, each with the depth it
stands at. No more is kept than a list of these, however deep the values nest. -/
def deepest (best : Nat) : List (Json × Nat) → Nat
  | [] => best
  | (x, level) :: more =>
    deepest (max best level) (x.children.map (·, level + 1) ++ more)
termination_by work => sizeItems (work.map (·.1))
decreasing_by
  simp only [List.map_append, List.map_map, List.map_cons, sizeItems, sizeItems_append, size_eq x]
  have : (x.children.map ((·.1) ∘ (·, level + 1))) = x.children := by simp [Function.comp_def]
  rw [this]
  omega

/-- How deep a value nests, found without recursion on the value. -/
def nesting (x : Json) : Nat := deepest 0 [(x, 1)]

/-- What kind of value it is, for a reader. -/
def kindName : Json → String
  | null => "null"
  | bool _ => "boolean"
  | integer _ | double _ => "number"
  | string _ => "string"
  | array _ => "array"
  | object _ => "object"

end Json

end SandboxProfile
