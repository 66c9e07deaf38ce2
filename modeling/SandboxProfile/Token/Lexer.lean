import SandboxProfile.Token.Basic
import SandboxProfile.Token.Literal
import SandboxProfile.Token.Symbol

/-!
# Cutting a text into tokens

A lexer stands at a place in a text, with what is left of it and the faults found so far. It never
fails: a malformed lexeme becomes the best token there is, with a diagnostic. Each token takes the
trivia before it and that behind it up to the first line end. Every token but the end of the file
takes at least one character (`nextToken_shorter`), so the tokens of a text are finitely many.
-/

namespace SandboxProfile

/-- A scanned lexeme: its meaning, its text, the items of a string, what is wrong with the whole,
and what follows. -/
structure Lexeme where
  kind : TokenKind
  text : List Char
  items : List StringLiteral.Item
  fault? : Option LexicalFault
  rest : List Char
deriving Repr

namespace Lexeme

/-- A lexeme without items. -/
def simple (kind : TokenKind) (text rest : List Char) : Lexeme := ⟨kind, text, [], none, rest⟩

/-- A string, after its opening quote. -/
def quoted (cs : List Char) : Lexeme :=
  let s := StringLiteral.scan cs
  let fault := if s.ending = .closed then none else some .unterminatedString
  ⟨.string (StringLiteral.value s.items),
    '"' :: (StringLiteral.chars s.items ++ s.ending.chars), s.items, fault, s.rest⟩

/-- A raw string, after its opening marks. -/
def raw (cs : List Char) : Lexeme :=
  let s := RawString.scan cs
  let fault := if s.closed then none else some .unterminatedRawString
  ⟨.rawString (String.ofList s.text),
    ['#', '"'] ++ s.text ++ (if s.closed then ['"'] else []), [], fault, s.rest⟩

/-- What a hash sign begins. -/
def hash : List Char → Lexeme
  | [] => ⟨.unknown '#', ['#'], [], some .hashAtEnd, []⟩
  | c :: cs =>
    if c = 't' || c = 'T' then simple (.boolean true) ['#', c] cs
    else if c = 'f' || c = 'F' then simple (.boolean false) ['#', c] cs
    else if c = '"' then raw cs
    else ⟨.unknown '#', ['#'], [], some (.strayHash c), c :: cs⟩

/-- An integer, after its first character. One out of range counts as zero. -/
def integer (c : Char) (cs : List Char) : Lexeme :=
  let (digits, rest) := IntegerLiteral.scan cs
  let text := c :: digits
  match Integer.ofInt? (IntegerLiteral.value text) with
  | some value => simple (.integer value) text rest
  | none => ⟨.integer 0, text, [], some (.integerOutOfRange (String.ofList text)), rest⟩

def startsWithDigit : List Char → Bool
  | [] => false
  | c :: _ => c.isDigit

/-- The lexeme at the front of a text. -/
def scan : List Char → Lexeme
  | [] => simple .endOfFile [] []
  | c :: cs =>
    if c = '(' then simple .leftParen ['('] cs
    else if c = ')' then simple .rightParen [')'] cs
    else if c = '"' then quoted cs
    else if c = '#' then hash cs
    else if c.isDigit || (IntegerLiteral.isSign c && startsWithDigit cs) then integer c cs
    else if Symbol.isStart c then
      let text := c :: cs.takeWhile Symbol.isContinue
      simple (.symbol (String.ofList text)) text (cs.dropWhile Symbol.isContinue)
    else ⟨.unknown c, [c], [], some (.unknownCharacter c), cs⟩

/-- The faults of a lexeme that begins at `p`: those of its items, then that of the whole. -/
def diagnostics (p : Position) (l : Lexeme) : List Diagnostic :=
  StringLiteral.diagnostics (p.after ['"']) l.items ++
    (l.fault?.map (·.diagnostic (.covering p l.text))).toList

theorem scan_nil : scan [] = simple .endOfFile [] [] := rfl

theorem scan_cons_shorter (c : Char) (cs : List Char) :
    (scan (c :: cs)).rest.length ≤ cs.length := by
  rw [scan]
  split
  · exact Nat.le_refl _
  split
  · exact Nat.le_refl _
  split
  · exact StringLiteral.scanFrom_rest [] cs
  split
  · unfold hash
    split
    · exact Nat.le_refl _
    split
    · exact Nat.le_succ _
    split
    · exact Nat.le_succ _
    split
    · exact Nat.le_succ_of_le (RawString.scan_rest _)
    · exact Nat.le_refl _
  split
  · unfold integer IntegerLiteral.scan
    have := (List.dropWhile_sublist (l := cs) Char.isDigit).length_le
    simp only
    split <;> exact this
  split
  · exact (List.dropWhile_sublist _).length_le
  · exact Nat.le_refl _

end Lexeme

/-- A comment that was not closed, which is then the last piece of trivia beginning at `p`. -/
def Trivia.Scanned.diagnostics (p : Position) (s : Trivia.Scanned) : List Diagnostic :=
  if s.closed then []
  else
    let start := p.after (Trivia.chars s.pieces.dropLast)
    [LexicalFault.unterminatedBlockComment.diagnostic ⟨start, p.after (Trivia.chars s.pieces)⟩]

structure Lexer where
  place : Position
  rest : List Char
  diagnostics : Array Diagnostic
  /-- Whether the end of the file was given out by `next?`. -/
  finished : Bool
deriving Repr

namespace Lexer

def ofString (text : String) : Lexer := ⟨Position.origin, text.toList, #[], false⟩

/-- The token that comes next, with its trivia. At the end of the text that is the end of the file,
again and again. -/
def nextToken (l : Lexer) : Token × Lexer :=
  let leading := Trivia.scan false l.rest
  let start := l.place.after (Trivia.chars leading.pieces)
  let lexeme := Lexeme.scan leading.rest
  let stop := start.after lexeme.text
  let trailing :=
    if lexeme.kind = .endOfFile then ⟨[], true, lexeme.rest⟩ else Trivia.scan true lexeme.rest
  let fullStop := stop.after (Trivia.chars trailing.pieces)
  let token : Token :=
    ⟨lexeme.kind, String.ofList lexeme.text, ⟨start, stop⟩, ⟨l.place, fullStop⟩,
      leading.pieces, trailing.pieces⟩
  let found := leading.diagnostics l.place ++ lexeme.diagnostics start ++ trailing.diagnostics stop
  (token, ⟨fullStop, trailing.rest, l.diagnostics ++ found.toArray, l.finished⟩)

/-- The token that comes next, until the end of the file was given out once. -/
def next? (l : Lexer) : Option Token × Lexer :=
  if l.finished then (none, l)
  else
    let (token, after) := l.nextToken
    (some token, ⟨after.place, after.rest, after.diagnostics, token.isEnd⟩)

theorem nextToken_shorter {l : Lexer} (h : l.nextToken.1.isEnd = false) :
    l.nextToken.2.rest.length < l.rest.length := by
  have hl := Trivia.scan_shorter false l.rest
  have hk : (Lexeme.scan (Trivia.scan false l.rest).rest).kind ≠ .endOfFile := by
    simpa [nextToken, Token.isEnd] using h
  simp only [nextToken, if_neg hk]
  refine Nat.lt_of_le_of_lt (Trivia.scan_shorter true _) (Nat.lt_of_lt_of_le ?_ hl)
  cases hr : (Trivia.scan false l.rest).rest with
  | nil => simp [hr, Lexeme.scan, Lexeme.simple] at hk
  | cons c cs => exact Nat.lt_succ_of_le (Lexeme.scan_cons_shorter c cs)

/-- All tokens up to the end of the file; `before` are those already given out. -/
def drain (before : Array Token) (l : Lexer) : Array Token × Lexer :=
  let step := l.nextToken
  if _h : step.1.isEnd then
    (before.push step.1, ⟨step.2.place, step.2.rest, step.2.diagnostics, true⟩)
  else drain (before.push step.1) step.2
termination_by l.rest.length
decreasing_by exact nextToken_shorter (by simpa using _h)

/-- The tokens that `next?` has yet to give out. -/
def tokens (l : Lexer) : List Token × Lexer :=
  if l.finished then ([], l)
  else
    let (tokens, after) := drain #[] l
    (tokens.toList, after)

end Lexer

/-- The tokens of a text, the last of which is the end of the file, and the faults among them. -/
def tokenize (text : String) : List Token × List Diagnostic :=
  let (tokens, after) := (Lexer.ofString text).tokens
  (tokens, after.diagnostics.toList)

end SandboxProfile
