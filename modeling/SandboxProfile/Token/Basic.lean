import SandboxProfile.Text.Integer
import SandboxProfile.Token.Trivia

/-!
# Tokens

A token is a lexeme with its meaning, its place and the trivia around it. The texts of the tokens of
a document, trivia included, make up the document.
-/

namespace SandboxProfile

/-- What a token means. -/
inductive TokenKind where
  | leftParen
  | rightParen
  | integer (value : Int64)
  /-- A quoted string, its escapes replaced by what they denote. -/
  | string (value : String)
  /-- A string taken as it stands. -/
  | rawString (value : String)
  | boolean (value : Bool)
  | symbol (name : String)
  | endOfFile
  /-- A character no token begins with. -/
  | unknown (c : Char)
  /-- A token that was expected and is not there. -/
  | missing (expected : String)
deriving DecidableEq, Repr, Inhabited

namespace TokenKind

def name : TokenKind → String
  | leftParen => "left-paren"
  | rightParen => "right-paren"
  | integer _ => "integer"
  | string _ => "string"
  | rawString _ => "raw-string"
  | boolean _ => "boolean"
  | symbol _ => "symbol"
  | endOfFile => "eof"
  | unknown _ => "unknown"
  | missing _ => "missing"

/-- How a message calls a token. -/
def describe : TokenKind → String
  | leftParen => "'('"
  | rightParen => "')'"
  | integer n => s!"integer {Integer.display n}"
  | string _ => "string"
  | rawString _ => "raw string"
  | boolean _ => "boolean"
  | symbol name => s!"symbol '{name}'"
  | endOfFile => "end of file"
  | unknown c => s!"unknown character {Escaped.ofChar c}"
  | missing expected => s!"missing {expected}"

end TokenKind

structure Token where
  kind : TokenKind
  /-- The lexeme as it stands in the document. -/
  text : String
  range : Range
  /-- The range with the trivia on both sides. -/
  fullRange : Range
  leading : Trivia
  trailing : Trivia
deriving DecidableEq, Repr, Inhabited

namespace Token

/-- Stands for an expected token that is not there; it covers no text. -/
def missing (expected : String) (range : Range) : Token :=
  ⟨.missing expected, "", range, range, [], []⟩

def isEnd (t : Token) : Bool := t.kind = .endOfFile

def isMissing (t : Token) : Bool :=
  match t.kind with
  | .missing _ => true
  | _ => false

def symbol? (t : Token) : Option String :=
  match t.kind with
  | .symbol name => some name
  | _ => none

/-- The lexeme and the trivia on both sides, as they stand in the document. -/
def fullText (t : Token) : String := t.leading.text ++ t.text ++ t.trailing.text

/-- One line of a listing: the place, the kind and the lexeme. -/
def display (t : Token) : String :=
  s!"{t.range.start.display} {t.kind.name}" ++
    if t.text.isEmpty then "" else " " ++ Escaped.ofString t.text

end Token

end SandboxProfile
