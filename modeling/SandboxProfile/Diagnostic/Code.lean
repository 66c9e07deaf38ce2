/-!
# Diagnostic codes

The closed list of conditions that a diagnostic can report. A code is a letter, which tells the
category, and three digits. Semantic codes and most warnings are set aside for checks on top of
reading.
-/

namespace SandboxProfile

/-- How serious a diagnostic is, mildest first. -/
inductive Severity where
  | hint
  | information
  | warning
  | error
deriving DecidableEq, Repr, Inhabited

namespace Severity

def name : Severity → String
  | hint => "hint"
  | information => "information"
  | warning => "warning"
  | error => "error"

def ofName? : String → Option Severity
  | "hint" => some hint
  | "information" => some information
  | "warning" => some warning
  | "error" => some error
  | _ => none

end Severity

/-- What part of the work a code belongs to. -/
inductive Category where
  | lexical
  | syntactic
  | semantic
  | warning
deriving DecidableEq, Repr, Inhabited

namespace Category

def name : Category → String
  | lexical => "Lexical"
  | syntactic => "Syntactic"
  | semantic => "Semantic"
  | warning => "Warning"

end Category

inductive Code where
  | unknownCharacter
  | unterminatedString
  | unterminatedRawString
  | unterminatedBlockComment
  | invalidEscape
  | invalidHexEscape
  | invalidIntegerLiteral
  | unexpectedEndOfFile
  | expectedToken
  | expectedExpression
  | expectedCloseParen
  | unexpectedToken
  | missingArgument
  | tooManyArguments
  | invalidForm
  | emptyList
  | nestingTooDeep
  | undefinedVariable
  | undefinedFunction
  | typeMismatch
  | invalidOperation
  | invalidFilter
  | duplicateDefinition
  | circularImport
  | missingImport
  | invalidRegex
  | unusedDefinition
  | deprecatedOperation
  | emptyRule
  | duplicateDebugMode
deriving DecidableEq, Repr, Inhabited

namespace Code

/-- Every code, in the order of their texts within a category. -/
def all : List Code := [
  unknownCharacter, unterminatedString, unterminatedRawString, unterminatedBlockComment,
  invalidEscape, invalidHexEscape, invalidIntegerLiteral, unexpectedEndOfFile,
  expectedToken, expectedExpression, expectedCloseParen, unexpectedToken, missingArgument,
  tooManyArguments, invalidForm, emptyList, nestingTooDeep,
  undefinedVariable, undefinedFunction, typeMismatch, invalidOperation, invalidFilter,
  duplicateDefinition, circularImport, missingImport, invalidRegex,
  unusedDefinition, deprecatedOperation, emptyRule, duplicateDebugMode]

/-- The stable text of a code. -/
def text : Code → String
  | unknownCharacter => "L001"
  | unterminatedString => "L002"
  | unterminatedRawString => "L003"
  | unterminatedBlockComment => "L004"
  | invalidEscape => "L005"
  | invalidHexEscape => "L006"
  | invalidIntegerLiteral => "L007"
  | unexpectedEndOfFile => "L008"
  | expectedToken => "P001"
  | expectedExpression => "P002"
  | expectedCloseParen => "P003"
  | unexpectedToken => "P004"
  | missingArgument => "P005"
  | tooManyArguments => "P006"
  | invalidForm => "P007"
  | emptyList => "P008"
  | nestingTooDeep => "P009"
  | undefinedVariable => "S001"
  | undefinedFunction => "S002"
  | typeMismatch => "S003"
  | invalidOperation => "S004"
  | invalidFilter => "S005"
  | duplicateDefinition => "S006"
  | circularImport => "S007"
  | missingImport => "S008"
  | invalidRegex => "S009"
  | unusedDefinition => "W001"
  | deprecatedOperation => "W002"
  | emptyRule => "W003"
  | duplicateDebugMode => "W004"

/-- The descriptive name of a code. -/
def name : Code → String
  | unknownCharacter => "UnknownCharacter"
  | unterminatedString => "UnterminatedString"
  | unterminatedRawString => "UnterminatedRawString"
  | unterminatedBlockComment => "UnterminatedBlockComment"
  | invalidEscape => "InvalidEscape"
  | invalidHexEscape => "InvalidHexEscape"
  | invalidIntegerLiteral => "InvalidIntegerLiteral"
  | unexpectedEndOfFile => "UnexpectedEndOfFile"
  | expectedToken => "ExpectedToken"
  | expectedExpression => "ExpectedExpression"
  | expectedCloseParen => "ExpectedCloseParen"
  | unexpectedToken => "UnexpectedToken"
  | missingArgument => "MissingArgument"
  | tooManyArguments => "TooManyArguments"
  | invalidForm => "InvalidForm"
  | emptyList => "EmptyList"
  | nestingTooDeep => "NestingTooDeep"
  | undefinedVariable => "UndefinedVariable"
  | undefinedFunction => "UndefinedFunction"
  | typeMismatch => "TypeMismatch"
  | invalidOperation => "InvalidOperation"
  | invalidFilter => "InvalidFilter"
  | duplicateDefinition => "DuplicateDefinition"
  | circularImport => "CircularImport"
  | missingImport => "MissingImport"
  | invalidRegex => "InvalidRegex"
  | unusedDefinition => "UnusedDefinition"
  | deprecatedOperation => "DeprecatedOperation"
  | emptyRule => "EmptyRule"
  | duplicateDebugMode => "DuplicateDebugMode"

def category : Code → Category
  | unknownCharacter | unterminatedString | unterminatedRawString | unterminatedBlockComment
  | invalidEscape | invalidHexEscape | invalidIntegerLiteral | unexpectedEndOfFile => .lexical
  | expectedToken | expectedExpression | expectedCloseParen | unexpectedToken | missingArgument
  | tooManyArguments | invalidForm | emptyList | nestingTooDeep => .syntactic
  | undefinedVariable | undefinedFunction | typeMismatch | invalidOperation | invalidFilter
  | duplicateDefinition | circularImport | missingImport | invalidRegex => .semantic
  | unusedDefinition | deprecatedOperation | emptyRule | duplicateDebugMode => .warning

/-- The severity of a diagnostic whose reporter chooses none. -/
def severity : Code → Severity
  | emptyList => .warning
  | code => if code.category = .warning then .warning else .error

/-- A text that is no code's, in either case of its letters. -/
structure Unknown where
  text : String
deriving DecidableEq, Repr

def Unknown.message (e : Unknown) : String := s!"unknown diagnostic code '{e.text}'"

/-- The code with a given text; the case of ASCII letters does not count. -/
def ofText (s : String) : Except Unknown Code :=
  match all.find? fun c => c.text.toList.map Char.toLower == s.toList.map Char.toLower with
  | some c => .ok c
  | none => .error ⟨s⟩

end Code

end SandboxProfile
