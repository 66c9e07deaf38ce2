/-!
# Positions and ranges

A position names a place in a text three times: by line, by column in UTF-16 units, and by offset in
UTF-8 bytes, all counted from zero. Only a line feed begins a new line. Positions of one text are
ordered by their offsets.
-/

namespace SandboxProfile

/-- A line feed or a carriage return. -/
def isLineBreak (c : Char) : Bool := c = '\n' || c = '\r'

/-- The number of UTF-16 units of a character. -/
def utf16Size (c : Char) : Nat := if c.toNat < 0x10000 then 1 else 2

/-- The number of UTF-16 units of a run of characters. -/
def utf16Length (cs : List Char) : Nat := cs.foldr (fun c n => utf16Size c + n) 0

/-- The number of UTF-8 bytes of a run of characters. -/
def utf8Length (cs : List Char) : Nat := cs.foldr (fun c n => c.utf8Size + n) 0

@[simp] theorem utf16Length_nil : utf16Length [] = 0 := rfl

@[simp] theorem utf16Length_cons (c : Char) (cs : List Char) :
    utf16Length (c :: cs) = utf16Size c + utf16Length cs := rfl

@[simp] theorem utf8Length_nil : utf8Length [] = 0 := rfl

@[simp] theorem utf8Length_cons (c : Char) (cs : List Char) :
    utf8Length (c :: cs) = c.utf8Size + utf8Length cs := rfl

@[simp] theorem utf8Length_append (cs ds : List Char) :
    utf8Length (cs ++ ds) = utf8Length cs + utf8Length ds := by
  induction cs with
  | nil => rw [List.nil_append, utf8Length_nil, Nat.zero_add]
  | cons c cs ih => rw [List.cons_append, utf8Length_cons, utf8Length_cons, ih, Nat.add_assoc]

structure Position where
  line : Nat
  column : Nat
  offset : Nat
deriving DecidableEq, Repr, Inhabited

namespace Position

/-- The place before the first character of any text. -/
def origin : Position := ⟨0, 0, 0⟩

/-- The place after a character that stands at `p`. -/
def next (p : Position) (c : Char) : Position :=
  if c = '\n' then ⟨p.line + 1, 0, p.offset + 1⟩
  else ⟨p.line, p.column + utf16Size c, p.offset + c.utf8Size⟩

/-- The place after a run of characters that begins at `p`. -/
def after (p : Position) (cs : List Char) : Position := cs.foldl next p

/-- Comparison by offset alone. -/
def order (p q : Position) : Ordering := compare p.offset q.offset

/-- Line and column counted from one. -/
def display (p : Position) : String := s!"{p.line + 1}:{p.column + 1}"

@[simp] theorem after_nil (p : Position) : p.after [] = p := rfl

@[simp] theorem after_cons (p : Position) (c : Char) (cs : List Char) :
    p.after (c :: cs) = (p.next c).after cs := rfl

theorem after_append (p : Position) (cs ds : List Char) :
    p.after (cs ++ ds) = (p.after cs).after ds := by
  simp [after]

end Position

/-- The places from `start` up to, and not including, `stop`. -/
structure Range where
  start : Position
  stop : Position
deriving DecidableEq, Repr, Inhabited

namespace Range

/-- The range at the beginning of any text that covers nothing. -/
def zero : Range := ⟨Position.origin, Position.origin⟩

/-- The range at `p` that covers nothing. -/
def point (p : Position) : Range := ⟨p, p⟩

/-- The range that a run of characters beginning at `p` covers. -/
def covering (p : Position) (cs : List Char) : Range := ⟨p, p.after cs⟩

/-- The number of bytes covered, none for an inverted range. -/
def length (r : Range) : Nat := r.stop.offset - r.start.offset

def isEmpty (r : Range) : Bool := r.length = 0

/-- Whether the byte at a position is covered. -/
def contains (r : Range) (p : Position) : Bool :=
  r.start.offset ≤ p.offset && p.offset < r.stop.offset

/-- Whether another range lies within this one. -/
def containsRange (r s : Range) : Bool :=
  r.start.offset ≤ s.start.offset && s.stop.offset ≤ r.stop.offset

/-- Whether two ranges share a byte. -/
def overlaps (r s : Range) : Bool :=
  r.start.offset < s.stop.offset && s.start.offset < r.stop.offset

/-- The least range that covers both. Of two starts with one offset the first range's is kept, of
two stops with one offset the second range's. -/
def merge (r s : Range) : Range where
  start := if s.start.offset < r.start.offset then s.start else r.start
  stop := if s.stop.offset < r.stop.offset then r.stop else s.stop

/-- Both ends, counted from one. -/
def display (r : Range) : String := s!"{r.start.display}-{r.stop.display}"

end Range

end SandboxProfile
