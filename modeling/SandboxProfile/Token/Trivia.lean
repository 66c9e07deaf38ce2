import SandboxProfile.Text.Escaped
import SandboxProfile.Source.Position
import SandboxProfile.Token.Comment

/-!
# Trivia

The blanks, line ends and comments around tokens, kept piece by piece so that their text can be
given back. A scan takes pieces as long as there are any; one that follows a token ends with the
first line end.
-/

namespace SandboxProfile

/-- A run of spaces or tabs, one line end, or one comment with its marks. -/
inductive Piece where
  | spaces (count : Nat)
  | tabs (count : Nat)
  | lineFeed
  | carriageReturn
  /-- A carriage return and a line feed. -/
  | bothReturns
  | lineComment (text : String)
  | blockComment (text : String)
deriving DecidableEq, Repr

namespace Piece

/-- The text of a piece. -/
def chars : Piece → List Char
  | spaces n => List.replicate n ' '
  | tabs n => List.replicate n '\t'
  | lineFeed => ['\n']
  | carriageReturn => ['\r']
  | bothReturns => ['\r', '\n']
  | lineComment text | blockComment text => text.toList

/-- The length in bytes. -/
def size : Piece → Nat
  | spaces n | tabs n => n
  | lineFeed | carriageReturn => 1
  | bothReturns => 2
  | lineComment text | blockComment text => utf8Length text.toList

def isEmpty (p : Piece) : Bool := p.size = 0

def isLineEnd : Piece → Bool
  | lineFeed | carriageReturn | bothReturns => true
  | _ => false

def isComment : Piece → Bool
  | lineComment _ | blockComment _ => true
  | _ => false

def display : Piece → String
  | spaces n => s!"spaces({n})"
  | tabs n => s!"tabs({n})"
  | lineFeed => "newline"
  | carriageReturn => "cr"
  | bothReturns => "crlf"
  | lineComment text => s!"comment({text})"
  | blockComment text => s!"block({Escaped.ofString text})"

/-- A scanned piece: whether it is complete, and what follows. -/
structure Scanned where
  piece : Piece
  closed : Bool
  rest : List Char
deriving DecidableEq, Repr

/-- The piece at the front of a text. -/
def scan? : List Char → Option Scanned
  | [] => none
  | c :: cs =>
    if c = ' ' then
      some ⟨spaces (1 + (cs.takeWhile (· = ' ')).length), true, cs.dropWhile (· = ' ')⟩
    else if c = '\t' then
      some ⟨tabs (1 + (cs.takeWhile (· = '\t')).length), true, cs.dropWhile (· = '\t')⟩
    else if c = '\n' then some ⟨lineFeed, true, cs⟩
    else if c = '\r' then
      match cs with
      | '\n' :: rest => some ⟨bothReturns, true, rest⟩
      | _ => some ⟨carriageReturn, true, cs⟩
    else if c = ';' then
      some ⟨lineComment (String.ofList (c :: cs.takeWhile (!isLineBreak ·))), true,
        cs.dropWhile (!isLineBreak ·)⟩
    else if c = '#' then
      match cs with
      | '|' :: rest =>
        let comment := Comment.scan rest
        some ⟨blockComment (String.ofList comment.text), comment.closed, comment.rest⟩
      | _ => none
    else none

theorem scan?_shorter {cs : List Char} {s : Scanned} (h : scan? cs = some s) :
    s.rest.length < cs.length := by
  unfold scan? at h
  split at h
  · cases h
  · split at h
    · cases h; exact Nat.lt_succ_of_le (List.dropWhile_sublist _).length_le
    split at h
    · cases h; exact Nat.lt_succ_of_le (List.dropWhile_sublist _).length_le
    split at h
    · cases h; exact Nat.lt_succ_self _
    split at h
    · split at h
      · cases h; simp only [List.length_cons]; omega
      · cases h; exact Nat.lt_succ_self _
    split at h
    · cases h; exact Nat.lt_succ_of_le (List.dropWhile_sublist _).length_le
    split at h
    · split at h
      · cases h
        have := Comment.scanFrom_rest 0 ['|', '#'] ‹List Char›
        simp only [Comment.scan, List.length_cons]
        omega
      · cases h
    · cases h

end Piece

/-- Pieces in the order of the text. -/
abbrev Trivia := List Piece

namespace Trivia

/-- The text that the pieces cover. -/
def chars (t : Trivia) : List Char := t.flatMap Piece.chars

def text (t : Trivia) : String := String.ofList t.chars

/-- The length in bytes. -/
def size (t : Trivia) : Nat := t.foldr (fun p n => p.size + n) 0

def hasLineEnd (t : Trivia) : Bool := t.any Piece.isLineEnd

def comments (t : Trivia) : List Piece := t.filter Piece.isComment

/-- The names of the pieces, with counts and comments, in brackets. -/
def display (t : Trivia) : String :=
  "[" ++ String.intercalate " " (t.map Piece.display) ++ "]"

/-- Scanned pieces: whether the last is complete, and what follows. -/
structure Scanned where
  pieces : Trivia
  closed : Bool
  rest : List Char
deriving DecidableEq, Repr

/-- The pieces at the front of a text, up to the first line end if they follow a token. -/
def scan (trailing : Bool) (cs : List Char) : Scanned :=
  match _h : Piece.scan? cs with
  | none => ⟨[], true, cs⟩
  | some s =>
    if !s.closed || (trailing && s.piece.isLineEnd) then ⟨[s.piece], s.closed, s.rest⟩
    else
      let more := scan trailing s.rest
      ⟨s.piece :: more.pieces, more.closed, more.rest⟩
termination_by cs.length
decreasing_by exact Piece.scan?_shorter _h

/-- What begins with no trivia is left as it is by a scan of trivia. -/
theorem scan_of_scan?_none {trailing : Bool} {cs : List Char} (h : Piece.scan? cs = none) :
    scan trailing cs = ⟨[], true, cs⟩ := by
  rw [scan]
  split
  next => rfl
  next s hs =>
    rw [h] at hs
    cases hs

theorem scan_nil (trailing : Bool) : scan trailing [] = ⟨[], true, []⟩ :=
  scan_of_scan?_none rfl

/-- A scan that ends with its first piece. -/
theorem scan_of_last {trailing : Bool} {cs : List Char} {s : Piece.Scanned}
    (h : Piece.scan? cs = some s)
    (hlast : (!s.closed || (trailing && s.piece.isLineEnd)) = true) :
    scan trailing cs = ⟨[s.piece], s.closed, s.rest⟩ := by
  rw [scan]
  split
  next hnone =>
    rw [h] at hnone
    cases hnone
  next s' hs =>
    rw [h] at hs
    cases hs
    exact if_pos hlast

/-- A scan that goes on behind its first piece. -/
theorem scan_of_more {trailing : Bool} {cs : List Char} {s : Piece.Scanned}
    (h : Piece.scan? cs = some s)
    (hmore : (!s.closed || (trailing && s.piece.isLineEnd)) = false) :
    scan trailing cs = ⟨s.piece :: (scan trailing s.rest).pieces, (scan trailing s.rest).closed,
      (scan trailing s.rest).rest⟩ := by
  rw [scan]
  split
  next hnone =>
    rw [h] at hnone
    cases hnone
  next s' hs =>
    rw [h] at hs
    cases hs
    exact if_neg (Bool.eq_false_iff.mp hmore)

theorem scan_ne_nil {trailing : Bool} {cs : List Char} {s : Piece.Scanned}
    (h : Piece.scan? cs = some s) : (scan trailing cs).pieces ≠ [] := by
  intro hnil
  cases hlast : (!s.closed || (trailing && s.piece.isLineEnd)) with
  | true =>
    rw [scan_of_last h hlast] at hnil
    cases hnil
  | false =>
    rw [scan_of_more h hlast] at hnil
    cases hnil

theorem scan_shorter (trailing : Bool) (cs : List Char) :
    (scan trailing cs).rest.length ≤ cs.length := by
  fun_induction scan trailing cs with
  | case1 => exact Nat.le_refl _
  | case2 _ _ h => exact Nat.le_of_lt (Piece.scan?_shorter h)
  | case3 _ _ h _ _ ih => exact Nat.le_trans ih (Nat.le_of_lt (Piece.scan?_shorter h))

end Trivia

end SandboxProfile
