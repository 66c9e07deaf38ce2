import SandboxProfile.Layout.Indent
import SandboxProfile.Text.Quoted
import SandboxProfile.Wire.Profile

/-!
# Laying out profiles

A profile is printed in one fixed layout: a line for each declaration, an empty line, and the rules.
A filter that is not compound stands on one line, and behind its rule if it is the only one; the
parts of a compound filter stand on lines of their own, one level deeper, save inside a negation.
Names and symbols are printed as they are.
-/

namespace SandboxProfile.Wire

/-- Each text after a space. -/
def spaced (texts : List (List Char)) : List Char := texts.flatMap (' ' :: ·)

/-- A list of a head and further texts. -/
def parens (head : List Char) (texts : List (List Char)) : List Char :=
  '(' :: (head ++ spaced texts ++ [')'])

namespace Node

mutual

def layout : Node → List Char
  | integer n => (Integer.display n).toList
  | string s => Quoted.ofString s
  | boolean true => ['#', 't']
  | boolean false => ['#', 'f']
  | symbol name => name.toList
  | list [symbol "quote", inner] => '\x27' :: inner.layout
  | list items => '(' :: (List.intercalate [' '] (layoutAll items) ++ [')'])

def layoutAll : List Node → List (List Char)
  | [] => []
  | x :: xs => x.layout :: layoutAll xs

end

end Node

namespace Filter

/-- A filter on one line, its parts given. Only the types that have parts show them, and only the
others a value. -/
def oneLine (type : String) (value : Option Node) (parts : List (List Char)) : List Char :=
  if type = expressionText then (value.map Node.layout).getD ['(', ')']
  else if (CompoundKind.ofText? type).isSome || type = negationText then parens type.toList parts
  else parens type.toList (value.map Node.layout).toList

mutual

/-- A filter on one line. -/
def inline : Filter → List Char
  | ⟨type, value, none⟩ => oneLine type value []
  | ⟨type, value, some parts⟩ => oneLine type value (inlineAll parts)

def inlineAll : List Filter → List (List Char)
  | [] => []
  | f :: fs => f.inline :: inlineAll fs

end

mutual

/-- A filter whose first line stands at `level`. -/
def layout (indent : Indent) (level : Nat) : Filter → List Char
  | ⟨type, value, none⟩ => oneLine type value []
  | ⟨type, value, some parts⟩ =>
    if (CompoundKind.ofText? type).isSome then
      '(' :: (type.toList ++ (layoutAll indent (level + 1) parts).flatMap (indent.line (level + 1))
        ++ [')'])
    else oneLine type value (inlineAll parts)

def layoutAll (indent : Indent) (level : Nat) : List Filter → List (List Char)
  | [] => []
  | f :: fs => f.layout indent level :: layoutAll indent level fs

end

end Filter

namespace Rule

/-- The action and the operations. -/
def header (r : Rule) : List Char :=
  '(' :: (r.action.text.toList ++ spaced (r.operations.map String.toList))

/-- The filters of a rule: behind the header, or on lines of their own. -/
def body (indent : Indent) (filters : List Filter) : List Char :=
  let below := (Filter.layoutAll indent 1 filters).flatMap (indent.line 1)
  match filters with
  | [only] =>
    let text := only.layout indent 1
    if !only.isCompound && !text.contains '\n' then ' ' :: text else below
  | _ => below

def layout (indent : Indent) (r : Rule) : List Char := r.header ++ body indent r.filters ++ [')']

end Rule

def Definition.layout (d : Definition) : List Char :=
  parens "define".toList [d.name.toList, d.value.layout]

namespace Profile

/-- The lines of all declarations but the rules. -/
def declarationLines (p : Profile) : List (List Char) :=
  (p.version.map fun n => parens "version".toList [(Integer.display n).toList]).toList ++
  (p.debugMode.map fun a => parens "debug".toList [a.text.toList]).toList ++
  p.imports.map (fun path => parens "import".toList [Quoted.ofString path]) ++
  p.definitions.map Definition.layout

def layout (indent : Indent) (p : Profile) : List Char :=
  p.declarationLines.flatMap (· ++ ['\n']) ++
    (if p.hasDeclarations && !p.rules.isEmpty then ['\n'] else []) ++
    p.rules.flatMap (·.layout indent ++ ['\n'])

/-- The text of a profile, empty if nothing is declared. -/
def source (indent : Indent) (p : Profile) : String := String.ofList (p.layout indent)

end Profile

def Node.source (x : Node) : String := String.ofList x.layout

end SandboxProfile.Wire
