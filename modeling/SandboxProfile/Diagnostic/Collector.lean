import SandboxProfile.Diagnostic.Basic

/-!
# Collected diagnostics

A collector keeps diagnostics in the order in which they were offered and drops one that equals an
earlier one in every part.
-/

namespace SandboxProfile

structure Collector where
  items : Array Diagnostic
deriving DecidableEq, Repr

namespace Collector

def empty : Collector := ⟨#[]⟩

/-- Offers a diagnostic; tells whether it was new. -/
def push (c : Collector) (d : Diagnostic) : Bool × Collector :=
  if d ∈ c.items then (false, c) else (true, ⟨c.items.push d⟩)

/-- Offers diagnostics one after the other. -/
def extend (c : Collector) (ds : List Diagnostic) : Collector :=
  ds.foldl (fun c d => (c.push d).2) c

def ofList (ds : List Diagnostic) : Collector := empty.extend ds

def toList (c : Collector) : List Diagnostic := c.items.toList

def size (c : Collector) : Nat := c.items.size

def isEmpty (c : Collector) : Bool := c.size = 0

def errorCount (c : Collector) : Nat := c.toList.countP Diagnostic.isError

def hasErrors (c : Collector) : Bool := 0 < c.errorCount

@[simp] theorem toList_empty : empty.toList = [] := rfl

theorem toList_push (c : Collector) (d : Diagnostic) :
    (c.push d).2.toList = if d ∈ c.toList then c.toList else c.toList ++ [d] := by
  by_cases h : d ∈ c.items <;> simp [push, toList, h]

@[simp] theorem extend_nil (c : Collector) : c.extend [] = c := rfl

@[simp] theorem extend_cons (c : Collector) (d : Diagnostic) (ds : List Diagnostic) :
    c.extend (d :: ds) = (c.push d).2.extend ds := rfl

end Collector

end SandboxProfile
