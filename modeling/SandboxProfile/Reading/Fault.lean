import SandboxProfile.Diagnostic.Basic
import SandboxProfile.Token.Basic
import SandboxProfile.Tree.Profile

/-!
# Faults in forms

What can be found in the forms of a profile while they are read. Each fault has its code, its
message and its severity; the place is the reader's.
-/

namespace SandboxProfile

/-- What a reader asked for. -/
inductive Expected where
  | formName
  | versionNumber
  | debugMode
  | importPath
  | definitionName
  | expression
  | negatedFilter
deriving DecidableEq, Repr

def Expected.text : Expected → String
  | formName => "a form name after '('"
  | versionNumber => "an integer version"
  | debugMode => "'allow' or 'deny'"
  | importPath => "an import path string"
  | definitionName => "a definition name"
  | expression => "an expression"
  | negatedFilter => "a filter in require-not"

/-- What a closing parenthesis ends. -/
inductive Construct where
  | version
  | debug
  | importPath
  | definition
  | definitionHead
  | rule
  | compound (kind : CompoundKind)
  | negation
  | filter
  | list
deriving DecidableEq, Repr

def Construct.text : Construct → String
  | version => "version declaration"
  | debug => "debug declaration"
  | importPath => "import"
  | definition => "definition"
  | definitionHead => "definition head"
  | rule => "rule"
  | compound kind => kind.text
  | negation => negationText
  | filter => "filter"
  | list => "list"

inductive SyntaxFault where
  | expected (what : Expected) (found : TokenKind)
  /-- Another token, or none, where a closing parenthesis has to be. -/
  | unclosed (what : Construct) (found : TokenKind)
  /-- An unrecognized form that is not closed. -/
  | unclosedForm (head : String)
  | strayAtTop (found : TokenKind)
  | strayInRule (found : TokenKind)
  | strayInCompound (kind : CompoundKind) (found : TokenKind)
  | debugWithoutMode
  | definitionWithoutName
  | definitionWithoutValue (name : String)
  | filterWithoutValue (type : String)
  | negationWithoutFilter
  | negationOfSeveral
  | invalidDebugMode (found : TokenKind)
  | unrecognizedForm (head : String)
  | emptyForm
  | emptyFilter
  | nestingTooDeep (limit : Nat)
  | emptyRule (action : Action)
  | secondVersion
  | secondDebugMode
deriving DecidableEq, Repr

namespace SyntaxFault

def code : SyntaxFault → Code
  | expected .expression _ => .expectedExpression
  | expected _ _ => .expectedToken
  | unclosed _ _ | unclosedForm _ => .expectedCloseParen
  | strayAtTop _ | strayInRule _ | strayInCompound _ _ => .unexpectedToken
  | debugWithoutMode | definitionWithoutName | definitionWithoutValue _ | filterWithoutValue _
  | negationWithoutFilter => .missingArgument
  | negationOfSeveral => .tooManyArguments
  | invalidDebugMode _ | unrecognizedForm _ => .invalidForm
  | emptyForm | emptyFilter => .emptyList
  | nestingTooDeep _ => .nestingTooDeep
  | emptyRule _ => .emptyRule
  | secondVersion => .duplicateDefinition
  | secondDebugMode => .duplicateDebugMode

def message : SyntaxFault → String
  | expected what found => s!"expected {what.text}, found {found.describe}"
  | unclosed what found => s!"expected ')' to close {what.text}, found {found.describe}"
  | unclosedForm head => s!"expected ')' to close form '{head}', found end of file"
  | strayAtTop found => s!"unexpected {found.describe} at top level, expected '('"
  | strayInRule found => s!"unexpected {found.describe} in rule, expected an operation or filter"
  | strayInCompound kind found => s!"unexpected {found.describe} in {kind.text}, expected a filter"
  | debugWithoutMode => "debug declaration requires 'allow' or 'deny'"
  | definitionWithoutName => "define requires a name"
  | definitionWithoutValue name => s!"definition '{name}' requires a value"
  | filterWithoutValue type => s!"filter '{type}' requires a value"
  | negationWithoutFilter => "require-not requires a filter"
  | negationOfSeveral => "require-not takes exactly one filter"
  | invalidDebugMode found => s!"invalid debug mode {found.describe}, expected 'allow' or 'deny'"
  | unrecognizedForm head => s!"unrecognized form '{head}' skipped"
  | emptyForm => "empty list at top level"
  | emptyFilter => "empty filter list"
  | nestingTooDeep limit => s!"nesting exceeds the maximum depth of {limit}"
  | emptyRule action => s!"{action.text} rule has no operations or filters"
  | secondVersion => "duplicate version declaration"
  | secondDebugMode => "duplicate debug declaration"

/-- A form that is passed over is worth a remark only; all else has the severity of its code. -/
def severity : SyntaxFault → Severity
  | unrecognizedForm _ => .information
  | fault => fault.code.severity

def diagnostic (fault : SyntaxFault) (range : Range) : Diagnostic :=
  (Diagnostic.new fault.code fault.message range).withSeverity fault.severity

end SyntaxFault

/-- The edit that closes a construct behind its last token. -/
def Fix.insertClose (p : Position) : Fix := ⟨"insert ')'", .point p, ")"⟩

end SandboxProfile
