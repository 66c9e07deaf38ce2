import SandboxProfile.Source.Position
import SandboxProfile.Text.Hex
import SandboxProfile.Text.Integer
import SandboxProfile.Token.Fault

/-!
# Literals

A quoted string is a sequence of items, each a plain character or an escape; every item has a text,
denotes one character, and may be faulty. A string ends at its closing quote, or without one before
a line break. An integer is a sign and digits.
-/

namespace SandboxProfile

namespace StringLiteral

/-- The two lengths of an escape by number. -/
inductive Width where
  | byte
  | word
deriving DecidableEq, Repr

namespace Width

def letter : Width → Char
  | byte => 'x'
  | word => 'u'

def digits : Width → Nat
  | byte => 2
  | word => 4

def ofLetter? (c : Char) : Option Width :=
  if c = 'x' then some byte else if c = 'u' then some word else none

end Width

/-- What a letter after a backslash denotes. -/
def shortEscape? (c : Char) : Option Char :=
  if c = 'n' then some '\n'
  else if c = 'r' then some '\r'
  else if c = 't' then some '\t'
  else if c = '\\' then some '\\'
  else if c = '"' then some '"'
  else if c = '0' then some '\x00'
  else none

/-- Stands for an escape that denotes no character. -/
def replacement : Char := '\uFFFD'

/-- A number as a character, unless it is a surrogate's. -/
def scalar? (n : Nat) : Option Char := if n.isValidChar then some (Char.ofNat n) else none

inductive Item where
  | plain (c : Char)
  /-- A backslash and a character. -/
  | short (c : Char)
  /-- An escape by number with the digits that were there. -/
  | hex (width : Width) (digits : List Char)
deriving DecidableEq, Repr

namespace Item

def chars : Item → List Char
  | plain c => [c]
  | short c => ['\\', c]
  | hex width digits => '\\' :: width.letter :: digits

/-- The character that an item denotes. An unknown escape denotes its character. -/
def value : Item → Char
  | plain c => c
  | short c => (shortEscape? c).getD c
  | hex width digits =>
    if digits.length < width.digits then replacement
    else (scalar? (Hex.number digits)).getD replacement

def fault? : Item → Option LexicalFault
  | plain _ => none
  | short c => if (shortEscape? c).isNone then some (.invalidEscape c) else none
  | hex width digits =>
    if digits.length < width.digits then some (.shortHexEscape width.digits digits.length)
    else if (scalar? (Hex.number digits)).isNone then some (.invalidScalar (Hex.number digits))
    else none

end Item

/-- How a string ends. -/
inductive Ending where
  | closed
  /-- Before a line break or at the end of the text. -/
  | unclosed
  /-- The same, after a backslash. -/
  | afterBackslash
deriving DecidableEq, Repr

namespace Ending

def chars : Ending → List Char
  | closed => ['"']
  | unclosed => []
  | afterBackslash => ['\\']

end Ending

/-- A scanned string without its opening quote, and what follows. -/
structure Scanned where
  items : List Item
  ending : Ending
  rest : List Char
deriving DecidableEq, Repr

/-- The digits that an escape by number finds, at most as many as it wants. -/
def hexDigits (width : Width) (cs : List Char) : List Char :=
  (cs.take width.digits).takeWhile Hex.isDigit

/-- The items from here on; `before` are those already scanned, last one first. -/
def scanFrom (before : List Item) : List Char → Scanned
  | [] => ⟨before.reverse, .unclosed, []⟩
  | c :: cs =>
    if c = '"' then ⟨before.reverse, .closed, cs⟩
    else if isLineBreak c then ⟨before.reverse, .unclosed, c :: cs⟩
    else if c = '\\' then
      match cs with
      | [] => ⟨before.reverse, .afterBackslash, []⟩
      | d :: ds =>
        if isLineBreak d then ⟨before.reverse, .afterBackslash, d :: ds⟩
        else
          match Width.ofLetter? d with
          | some width =>
            let digits := hexDigits width ds
            scanFrom (.hex width digits :: before) (ds.drop digits.length)
          | none => scanFrom (.short d :: before) ds
    else scanFrom (.plain c :: before) cs
termination_by cs => cs.length
decreasing_by all_goals simp only [List.length_cons, List.length_drop]; omega

/-- A string whose opening quote was just read. -/
def scan (cs : List Char) : Scanned := scanFrom [] cs

/-- The text of items. -/
def chars (items : List Item) : List Char := items.flatMap Item.chars

/-- The text that items denote. -/
def value (items : List Item) : String := String.ofList (items.map Item.value)

/-- The faults of items that begin at `p`. -/
def diagnostics (p : Position) : List Item → List Diagnostic
  | [] => []
  | item :: items =>
    let more := diagnostics (p.after item.chars) items
    match item.fault? with
    | some fault => fault.diagnostic (.covering p item.chars) :: more
    | none => more

theorem scanFrom_rest (before : List Item) (cs : List Char) :
    (scanFrom before cs).rest.length ≤ cs.length := by
  fun_induction scanFrom before cs <;> simp_all <;> omega

end StringLiteral

namespace RawString

/-- A raw string without its opening marks: its text, whether it was closed, and what follows. -/
structure Scanned where
  text : List Char
  closed : Bool
  rest : List Char
deriving DecidableEq, Repr

def isContent (c : Char) : Bool := c ≠ '"' && !isLineBreak c

def scan (cs : List Char) : Scanned :=
  match cs.dropWhile isContent with
  | '"' :: rest => ⟨cs.takeWhile isContent, true, rest⟩
  | rest => ⟨cs.takeWhile isContent, false, rest⟩

theorem scan_rest (cs : List Char) : (scan cs).rest.length ≤ cs.length := by
  have h := (List.dropWhile_sublist (l := cs) isContent).length_le
  unfold scan
  split
  next hd => simp only [hd, List.length_cons] at h; exact Nat.le_of_succ_le h
  next => exact h

end RawString

namespace IntegerLiteral

def isSign (c : Char) : Bool := c = '+' || c = '-'

/-- The number that decimal digits write. -/
def number (ds : List Char) : Nat := ds.foldl (fun n d => n * 10 + (d.toNat - '0'.toNat)) 0

/-- The number that a sign and digits write. -/
def value : List Char → Int
  | '-' :: ds => -number ds
  | '+' :: ds => number ds
  | ds => number ds

/-- The digits of an integer after its first character, and what follows. -/
def scan (cs : List Char) : List Char × List Char :=
  (cs.takeWhile Char.isDigit, cs.dropWhile Char.isDigit)

end IntegerLiteral

end SandboxProfile
