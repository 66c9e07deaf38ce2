import SandboxProfile.Source.Position

/-!
# Documents

A text with the table of the offsets at which its lines begin. Offsets, positions, lines and slices
are converted into each other by the table: the line of an offset is the last one that begins at or
before it, and its column is measured again from that beginning.
-/

namespace SandboxProfile

namespace Bytes

/-- The longest run of characters at the front that fits in `n` bytes. -/
def take (n : Nat) : List Char → List Char
  | [] => []
  | c :: cs => if c.utf8Size ≤ n then c :: take (n - c.utf8Size) cs else []

/-- What remains after that run. -/
def drop (n : Nat) : List Char → List Char
  | [] => []
  | c :: cs => if c.utf8Size ≤ n then drop (n - c.utf8Size) cs else c :: cs

/-- The greatest character boundary at or before an offset. -/
def floor (cs : List Char) (n : Nat) : Nat := utf8Length (take n cs)

/-- The characters between two character boundaries. -/
def slice (cs : List Char) (start stop : Nat) : List Char := drop start (take stop cs)

@[simp] theorem take_append_drop (n : Nat) (cs : List Char) : take n cs ++ drop n cs = cs := by
  induction cs generalizing n with
  | nil => rfl
  | cons c cs ih => by_cases h : c.utf8Size ≤ n <;> simp [take, drop, h, ih]

theorem utf8Length_take_le (n : Nat) (cs : List Char) : utf8Length (take n cs) ≤ n := by
  induction cs generalizing n with
  | nil => simp [take]
  | cons c cs ih =>
    by_cases h : c.utf8Size ≤ n
    · have := ih (n - c.utf8Size)
      simp only [take, h, if_true, utf8Length_cons]
      omega
    · simp [take, h]

end Bytes

/-- Offsets of the lines that begin after a line feed, in a text that begins at offset `n`. -/
def lineStartsFrom (n : Nat) : List Char → List Nat
  | [] => []
  | c :: cs =>
    if c = '\n' then (n + 1) :: lineStartsFrom (n + 1) cs
    else lineStartsFrom (n + c.utf8Size) cs

/-- A line without its terminator: a line feed at its end, then a carriage return at its end. -/
def withoutTerminator (cs : List Char) : List Char :=
  let cs := if cs.getLast? = some '\n' then cs.dropLast else cs
  if cs.getLast? = some '\r' then cs.dropLast else cs

/-- The offset of the character boundary that lies a given number of UTF-16 units into a run. -/
def offsetOfUnits (offset : Nat) : Nat → List Char → Option Nat
  | 0, _ => some offset
  | _ + 1, [] => none
  | units + 1, c :: cs =>
    if utf16Size c ≤ units + 1 then
      offsetOfUnits (offset + c.utf8Size) (units + 1 - utf16Size c) cs
    else none

/-- A text and the offsets at which its lines begin. -/
structure Document where
  text : String
  lineStarts : List Nat
deriving DecidableEq, Repr

namespace Document

def ofString (text : String) : Document := ⟨text, 0 :: lineStartsFrom 0 text.toList⟩

def chars (d : Document) : List Char := d.text.toList

/-- The length in bytes. -/
def size (d : Document) : Nat := utf8Length d.chars

def isEmpty (d : Document) : Bool := d.size = 0

/-- The number of lines; the last may be empty. -/
def lineCount (d : Document) : Nat := d.lineStarts.length

/-- The position of an offset, which an offset inside a character shares with the character's first
byte. -/
def position? (d : Document) (offset : Nat) : Option Position :=
  if d.size < offset then none
  else
    let offset := Bytes.floor d.chars offset
    let line := d.lineStarts.countP (· ≤ offset) - 1
    let start := d.lineStarts.getD line 0
    some ⟨line, utf16Length (Bytes.slice d.chars start offset), offset⟩

/-- The characters of the line that begins at `start`, its terminator included. -/
def fullLine (d : Document) (line start : Nat) : List Char :=
  Bytes.slice d.chars start (d.lineStarts.getD (line + 1) d.size)

/-- The offset of a place given by line and column. There is none for an unknown line, for a column
beyond the line's text, or for one between the two halves of a surrogate pair. -/
def offset? (d : Document) (line column : Nat) : Option Nat :=
  d.lineStarts[line]?.bind fun start =>
    offsetOfUnits start column (withoutTerminator (d.fullLine line start))

/-- The text of a line, without its terminator. -/
def lineText? (d : Document) (line : Nat) : Option String :=
  d.lineStarts[line]?.map fun start => String.ofList (withoutTerminator (d.fullLine line start))

/-- The range of a line, without its terminator. -/
def lineRange? (d : Document) (line : Nat) : Option Range :=
  d.lineStarts[line]?.map fun start =>
    let content := withoutTerminator (d.fullLine line start)
    ⟨⟨line, 0, start⟩, ⟨line, utf16Length content, start + utf8Length content⟩⟩

/-- The position after the last character. -/
def endPosition (d : Document) : Position :=
  let line := d.lineCount - 1
  let start := d.lineStarts.getD line 0
  ⟨line, utf16Length (Bytes.drop start d.chars), d.size⟩

def fullRange (d : Document) : Range := ⟨Position.origin, d.endPosition⟩

/-- The text that a range covers. Its end is brought into the text and back to a character boundary,
and then its start likewise, so that any range has a text. -/
def textOf (d : Document) (r : Range) : String :=
  let stop := Bytes.floor d.chars (min r.stop.offset d.size)
  let start := Bytes.floor d.chars (min r.start.offset stop)
  String.ofList (Bytes.slice d.chars start stop)

end Document

end SandboxProfile
