import SandboxProfile.Diagnostic.Collector
import SandboxProfile.Reading.Declaration
import SandboxProfile.Source.Document
import SandboxProfile.Token.Lexer

/-!
# Reading profiles

A text is read form by form, and a form that cannot be read is left behind at the next opening
parenthesis, so reading never fails: what is wrong with a text is told by diagnostics. Of several
versions or debug modes the first is kept.
-/

namespace SandboxProfile

/-- What came of one form, or of one run of tokens that belong to none. -/
structure Step where
  notes : List Diagnostic
  declaration? : Option Declaration
deriving DecidableEq, Repr

namespace Reading

/-- Reads the forms of a document. After a form that was given up, the next is the first list behind
the token at which the reader stood. -/
def steps (limit : Nat) : Forest → List Step
  | .done => []
  | .leaf t rest =>
    ⟨[(SyntaxFault.strayAtTop t.kind).diagnostic t.range], none⟩ :: steps limit rest.dropLeaves
  | .list o items stop rest =>
    let form := declaration limit o items stop
    match _hform : form.outcome with
    | .ok declared => ⟨form.notes, declared⟩ :: steps limit rest
    | .error unread => ⟨form.notes, none⟩ :: steps limit (unread ++ rest).resume
termination_by f => f.size
decreasing_by
  · have := (Forest.tokens_dropLeaves rest).length_le
    simp only [Forest.size_leaf]
    exact Nat.lt_succ_of_le this
  · rw [Forest.size_list]
    omega
  · exact size_resume_lt _hform rest

end Reading

namespace Declaration

def version? : Declaration → Option Version
  | version v => some v
  | _ => none

def debug? : Declaration → Option DebugMode
  | debug m => some m
  | _ => none

def importPath? : Declaration → Option Import
  | importPath i => some i
  | _ => none

def definition? : Declaration → Option Definition
  | definition d => some d
  | _ => none

def rule? : Declaration → Option Rule
  | rule r => some r
  | _ => none

/-- The report on a declaration that comes too late, given the first version and debug mode. -/
def late? (version? : Option Version) (debug? : Option DebugMode) : Declaration → Option Diagnostic
  | version v => version?.map fun first =>
    (SyntaxFault.secondVersion.diagnostic v.range).withRelated first.range
      "version first declared here"
  | debug m => debug?.map fun first =>
    (SyntaxFault.secondDebugMode.diagnostic m.range).withRelated first.range
      "debug mode first declared here"
  | _ => none

end Declaration

namespace Step

/-- All diagnostics of the steps of a document, of which the first version and debug mode so far are
given. -/
def diagnostics (version? : Option Version) (debug? : Option DebugMode) :
    List Step → List Diagnostic
  | [] => []
  | s :: more =>
    s.notes ++ (s.declaration?.bind (·.late? version? debug?)).toList ++
      diagnostics (version? <|> s.declaration?.bind (·.version?))
        (debug? <|> s.declaration?.bind (·.debug?)) more

end Step

namespace Profile

/-- The profile of a list of declarations. -/
def ofDeclarations (ds : List Declaration) (range : Range) : Profile where
  version := ds.findSome? (·.version?)
  debug := ds.findSome? (·.debug?)
  imports := ds.filterMap (·.importPath?)
  definitions := ds.filterMap (·.definition?)
  rules := ds.filterMap (·.rule?)
  range := range

/-- How deep filters and lists nest where no other limit is given. -/
def defaultLimit : Nat := 256

/-- What came of reading a text. -/
structure Outcome where
  profile : Profile
  diagnostics : List Diagnostic
deriving DecidableEq, Repr

namespace Outcome

def errors (o : Outcome) : List Diagnostic := o.diagnostics.filter (·.isError)

def hasErrors (o : Outcome) : Bool := o.diagnostics.any (·.isError)

/-- Whether the profile is ready for use; a warning does not matter. -/
def isOk (o : Outcome) : Bool := !o.hasErrors

end Outcome

/-- Reads a text in which filters and lists nest at most `limit` deep. -/
def read (limit : Nat) (text : String) : Outcome :=
  let (tokens, faults) := tokenize text
  let steps := Reading.steps limit (Forest.ofTokens tokens)
  ⟨ofDeclarations (steps.filterMap (·.declaration?)) (Document.ofString text).fullRange,
    (Collector.ofList (faults ++ Step.diagnostics none none steps)).toList⟩

def ofText (text : String) : Outcome := read defaultLimit text

/-- The profile of a text in which there is no error, or else all that was found. -/
def ofCleanText (text : String) : Except (List Diagnostic) Profile :=
  let outcome := ofText text
  if outcome.hasErrors then .error outcome.diagnostics else .ok outcome.profile

end Profile

end SandboxProfile
