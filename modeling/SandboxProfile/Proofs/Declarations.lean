import SandboxProfile.Proofs.Erasure

/-!
# Declarations on the wire

A profile on the wire is made up of declarations without places. It is the same whether the
declarations of a tree lose their places before or after they are put together
(`Profile.ofTree_ofDeclarations`).
-/

namespace SandboxProfile

open Placed (erase)

namespace Wire

/-- Whether filters of a type have filters for their parts. -/
def hasParts (type : String) : Bool := (CompoundKind.ofText? type).isSome || type = negationText

/-- One declaration of a profile on the wire. -/
inductive Declaration where
  | version (number : Int64)
  | debugMode (action : Action)
  | importPath (path : String)
  | definition (definition : Definition)
  | rule (rule : Rule)
deriving DecidableEq, Repr

namespace Declaration

def version? : Declaration → Option Int64
  | version n => some n
  | _ => none

def debugMode? : Declaration → Option Action
  | debugMode a => some a
  | _ => none

def importPath? : Declaration → Option String
  | importPath p => some p
  | _ => none

def definition? : Declaration → Option Definition
  | definition d => some d
  | _ => none

def rule? : Declaration → Option Rule
  | rule r => some r
  | _ => none

def ofTree : SandboxProfile.Declaration → Declaration
  | .version v => version v.number
  | .debug d => debugMode d.action
  | .importPath i => importPath i.path
  | .definition d => definition (.ofTree d)
  | .rule r => rule (.ofTree r)

theorem ofTree_erase (d : SandboxProfile.Declaration) : ofTree (erase d) = ofTree d := by
  cases d with
  | version v => rfl
  | debug d => rfl
  | importPath i => rfl
  | definition d =>
    change definition ⟨d.name, Node.ofTree (erase d.value)⟩ = _
    rw [Node.ofTree_erase]
    rfl
  | rule r =>
    have hnames : (erase r.operations).map Operation.name = r.operations.map Operation.name := by
      induction r.operations with
      | nil => rfl
      | cons o os ih => exact congrArg (o.name :: ·) ih
    change rule ⟨r.action, (erase r.operations).map Operation.name,
      Filter.ofTrees (erase r.filters)⟩ = _
    rw [hnames, Filter.ofTrees_erase]
    rfl

end Declaration

/-- How many versions are declared. -/
def versions (ds : List Declaration) : Nat := (ds.filterMap (·.version?)).length

/-- The profile that declarations make up: of versions and of debug modes the first counts. -/
def Profile.ofDeclarations (ds : List Declaration) : Profile where
  version := ds.findSome? (·.version?)
  debugMode := ds.findSome? (·.debugMode?)
  imports := ds.filterMap (·.importPath?)
  definitions := ds.filterMap (·.definition?)
  rules := ds.filterMap (·.rule?)

theorem Profile.ofTree_ofDeclarations (ds : List SandboxProfile.Declaration) (r : Range) :
    ofTree (.ofDeclarations ds r) = ofDeclarations (ds.map .ofTree) := by
  have hv : (·.version?) ∘ Declaration.ofTree = fun d => d.version?.map (·.number) :=
    funext fun d => by cases d <;> rfl
  have hd : (·.debugMode?) ∘ Declaration.ofTree = fun d => d.debug?.map (·.action) :=
    funext fun d => by cases d <;> rfl
  have hi : (·.importPath?) ∘ Declaration.ofTree = fun d => d.importPath?.map (·.path) :=
    funext fun d => by cases d <;> rfl
  have hf : (·.definition?) ∘ Declaration.ofTree = fun d => d.definition?.map .ofTree :=
    funext fun d => by cases d <;> rfl
  have hr : (·.rule?) ∘ Declaration.ofTree = fun d => d.rule?.map .ofTree :=
    funext fun d => by cases d <;> rfl
  rw [ofDeclarations, List.findSome?_map, List.findSome?_map, List.filterMap_map,
    List.filterMap_map, List.filterMap_map, hv, hd, hi, hf, hr]
  simp only [ofTree, SandboxProfile.Profile.ofDeclarations, List.map_findSome?,
    List.map_filterMap]
  rfl

end Wire

end SandboxProfile
