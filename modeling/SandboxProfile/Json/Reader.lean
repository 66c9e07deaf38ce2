import SandboxProfile.Json.Basic
import SandboxProfile.Source.Position
import SandboxProfile.Text.Hex

/-!
# Reading JSON

Reading goes from left to right and stops at the first fault. Where it stopped is told by what was
left unread, so that places are only computed for a fault that is shown. Every reader of a value
leaves less than it was given (`ValueReader.shorter`), which is why the loops over items and fields
end; nesting ends because each bracket uses up one level.
-/

namespace SandboxProfile

namespace Json

/-- Why reading stopped. -/
inductive Fault where
  | endInValue
  | endInList
  | endInObject
  | endInString
  | expectedValue
  | expectedIdent
  | expectedListEnd
  | expectedObjectEnd
  | expectedColon
  | expectedKey
  | trailingComma
  | trailingCharacters
  | invalidNumber
  | numberOutOfRange
  | invalidEscape
  | controlCharacter
  | loneSurrogate
  | unpairedSurrogate
  | tooDeep
deriving DecidableEq, Repr

def Fault.message : Fault → String
  | endInValue => "EOF while parsing a value"
  | endInList => "EOF while parsing a list"
  | endInObject => "EOF while parsing an object"
  | endInString => "EOF while parsing a string"
  | expectedValue => "expected value"
  | expectedIdent => "expected ident"
  | expectedListEnd => "expected `,` or `]`"
  | expectedObjectEnd => "expected `,` or `\x7d`"
  | expectedColon => "expected `:`"
  | expectedKey => "key must be a string"
  | trailingComma => "trailing comma"
  | trailingCharacters => "trailing characters"
  | invalidNumber => "invalid number"
  | numberOutOfRange => "number out of range"
  | invalidEscape => "invalid escape"
  | controlCharacter => "control character (\\u0000-\\u001F) found while parsing a string"
  | loneSurrogate => "lone leading surrogate in hex escape"
  | unpairedSurrogate => "unexpected end of hex escape"
  | tooDeep => "recursion limit exceeded"

/-- A fault and its place: `ahead` bytes into what was left unread. -/
structure Stop where
  fault : Fault
  unread : List Char
  ahead : Nat
deriving DecidableEq, Repr

/-- Reading one thing from the front of a text. -/
abbrev Reads (α : Type) := Except Stop (α × List Char)

/-- Stops at the character in front, whose first byte counts as seen. -/
def stopAt (fault : Fault) (unread : List Char) : Reads α := .error ⟨fault, unread, 1⟩

/-- Stops after all that was read. -/
def stopAfter (fault : Fault) (unread : List Char) : Reads α := .error ⟨fault, unread, 0⟩

/-- Stops at the end of the text. -/
def stopAtEnd (fault : Fault) : Reads α := .error ⟨fault, [], 0⟩

def isBlank (c : Char) : Bool := c = ' ' || c = '\t' || c = '\n' || c = '\r'

/-- The text from its first character that is not blank. -/
def skipBlank (cs : List Char) : List Char := cs.dropWhile isBlank

/-- The rest of a word whose first letter was read. -/
def word : List Char → List Char → Reads Unit
  | [], cs => .ok ((), cs)
  | _ :: _, [] => stopAtEnd .endInValue
  | w :: ws, c :: cs => if c = w then word ws cs else stopAt .expectedIdent (c :: cs)

/-! ## Strings -/

/-- A character that stands for itself in a string. -/
def isPlain (c : Char) : Bool := c ≠ '"' && c ≠ '\\' && 0x20 ≤ c.toNat

/-- What a single letter after a backslash stands for. -/
def shortEscape? : Char → Option Char
  | '"' => some '"'
  | '\\' => some '\\'
  | '/' => some '/'
  | 'b' => some '\x08'
  | 'f' => some '\x0c'
  | 'n' => some '\n'
  | 'r' => some '\r'
  | 't' => some '\t'
  | _ => none

/-- Four hexadecimal digits. Four other bytes are a fault behind them, fewer the end of the text. -/
def hexDigits (cs : List Char) : Reads Nat :=
  let fault : Reads Nat :=
    if 4 ≤ utf8Length (cs.take 4) then .error ⟨.invalidEscape, cs, 4⟩ else stopAtEnd .endInString
  match cs with
  | a :: b :: c :: d :: rest =>
    if [a, b, c, d].all Hex.isDigit then .ok (Hex.number [a, b, c, d], rest) else fault
  | _ => fault

def isHighSurrogate (n : Nat) : Bool := 0xD800 ≤ n && n ≤ 0xDBFF

def isLowSurrogate (n : Nat) : Bool := 0xDC00 ≤ n && n ≤ 0xDFFF

/-- The second half of a pair whose first half was read: another escape with a low surrogate. -/
def lowHalf (high : Nat) : List Char → Reads Char
  | [] => stopAtEnd .endInString
  | '\\' :: 'u' :: cs =>
    match hexDigits cs with
    | .error stop => .error stop
    | .ok (low, rest) =>
      if isLowSurrogate low then
        .ok (Char.ofNat (0x10000 + (high - 0xD800) * 0x400 + (low - 0xDC00)), rest)
      else stopAfter .loneSurrogate rest
  | ['\\'] => stopAtEnd .endInString
  | '\\' :: cs => stopAt .unpairedSurrogate cs
  | cs => stopAt .unpairedSurrogate cs

/-- An escape by number, after its `u`. -/
def numberedEscape (cs : List Char) : Reads Char :=
  match hexDigits cs with
  | .error stop => .error stop
  | .ok (n, rest) =>
    if isLowSurrogate n then stopAfter .loneSurrogate rest
    else if isHighSurrogate n then lowHalf n rest
    else .ok (Char.ofNat n, rest)

/-- An escape, after its backslash. -/
def escapeSequence : List Char → Reads Char
  | [] => stopAtEnd .endInString
  | c :: cs =>
    if c = 'u' then numberedEscape cs
    else
      match shortEscape? c with
      | some value => .ok (value, cs)
      | none => stopAt .invalidEscape (c :: cs)

theorem hexDigits_shorter {cs rest : List Char} {n : Nat} (h : hexDigits cs = .ok (n, rest)) :
    rest.length ≤ cs.length := by
  unfold hexDigits at h
  simp only at h
  split at h
  · split at h
    · cases h; simp only [List.length_cons]; omega
    · split at h <;> cases h
  · split at h <;> cases h

theorem lowHalf_shorter {high : Nat} {cs rest : List Char} {c : Char}
    (h : lowHalf high cs = .ok (c, rest)) : rest.length ≤ cs.length := by
  unfold lowHalf at h
  split at h
  · cases h
  · split at h
    · cases h
    next hd =>
      have := hexDigits_shorter hd
      split at h
      · simp only [Except.ok.injEq, Prod.mk.injEq] at h
        simp only [← h.2, List.length_cons]
        omega
      · cases h
  all_goals cases h

theorem numberedEscape_shorter {cs rest : List Char} {c : Char}
    (h : numberedEscape cs = .ok (c, rest)) : rest.length ≤ cs.length := by
  unfold numberedEscape at h
  split at h
  · cases h
  next hd =>
    have := hexDigits_shorter hd
    split at h
    · cases h
    · split at h
      · exact Nat.le_trans (lowHalf_shorter h) this
      · simp only [Except.ok.injEq, Prod.mk.injEq] at h
        exact h.2 ▸ this

theorem escapeSequence_shorter {cs rest : List Char} {c : Char}
    (h : escapeSequence cs = .ok (c, rest)) : rest.length ≤ cs.length := by
  unfold escapeSequence at h
  split at h
  · cases h
  · split at h
    · exact Nat.le_succ_of_le (numberedEscape_shorter h)
    · split at h
      · cases h; simp
      · cases h

/-- The characters of a string, after its opening quote. -/
def stringBody (cs : List Char) : Reads (List Char) :=
  match _hd : cs.dropWhile isPlain with
  | [] => stopAtEnd .endInString
  | '"' :: rest => .ok (cs.takeWhile isPlain, rest)
  | '\\' :: rest =>
    match _he : escapeSequence rest with
    | .error stop => .error stop
    | .ok (c, rest) =>
      match stringBody rest with
      | .error stop => .error stop
      | .ok (more, rest) => .ok (cs.takeWhile isPlain ++ c :: more, rest)
  | c :: rest => stopAt .controlCharacter (c :: rest)
termination_by cs.length
decreasing_by
  have h₁ := escapeSequence_shorter _he
  have h₂ := (List.dropWhile_sublist (l := cs) isPlain).length_le
  simp only [_hd, List.length_cons] at h₂
  omega

theorem stringBody_shorter {cs s rest : List Char} (h : stringBody cs = .ok (s, rest)) :
    rest.length < cs.length := by
  fun_induction stringBody cs generalizing s rest with
  | case1 => cases h
  | case2 cs tail hd =>
    cases h
    have := (List.dropWhile_sublist (l := cs) isPlain).length_le
    simp only [hd, List.length_cons] at this
    omega
  | case3 => cases h
  | case4 => cases h
  | case5 cs tail hd c after he more last hb ih =>
    cases h
    have h₁ := escapeSequence_shorter he
    have h₂ := ih hb
    have h₃ := (List.dropWhile_sublist (l := cs) isPlain).length_le
    simp only [hd, List.length_cons] at h₃
    omega
  | case6 => cases h

/-! ## Numbers -/

def greatestWord : Nat := 0xFFFFFFFFFFFFFFFF

/-- The value of the leading digits that fit a 64-bit word after `n`, and how many are left over. -/
def significand (n : Nat) : List Char → Nat × Nat
  | [] => (n, 0)
  | d :: ds =>
    let next := n * 10 + (d.toNat - '0'.toNat)
    if next ≤ greatestWord then significand next ds else (n, ds.length + 1)

/-- A double from its digits and its power of ten. -/
def double? (negative : Bool) (digits : Nat) (exponent : Int) (rest : List Char) : Reads Json :=
  match Binary64.ofDecimal? negative digits exponent with
  | some x => .ok (double x, rest)
  | none => stopAfter .numberOutOfRange rest

/-- The value of the digits of an exponent as long as it fits 32 bits; past that, what follows the
first digit that does not fit. -/
def exponentValue (n : Nat) : List Char → Except (List Char) Nat
  | [] => .ok n
  | d :: ds =>
    let next := n * 10 + (d.toNat - '0'.toNat)
    if next < 0x80000000 then exponentValue next ds else .error ds

/-- The digits of an exponent and its sign. An exponent beyond 32 bits makes zero of a zero or with
a minus sign, and is out of range otherwise. -/
def exponentDigits (negative : Bool) (digits : Nat) (exponent : Int) (minus : Bool)
    (cs : List Char) : Reads Json :=
  match cs with
  | [] => stopAtEnd .endInValue
  | c :: _ =>
    if c.isDigit then
      let rest := cs.dropWhile Char.isDigit
      match exponentValue 0 (cs.takeWhile Char.isDigit) with
      | .ok n => double? negative digits (if minus then exponent - n else exponent + n) rest
      | .error unread =>
        if digits = 0 || minus then .ok (double ⟨negative, .zero⟩, rest)
        else stopAfter .numberOutOfRange (unread ++ rest)
    else stopAt .invalidNumber cs

/-- The power of ten after its mark. -/
def exponentPart (negative : Bool) (digits : Nat) (exponent : Int) : List Char → Reads Json
  | '+' :: cs => exponentDigits negative digits exponent false cs
  | '-' :: cs => exponentDigits negative digits exponent true cs
  | cs => exponentDigits negative digits exponent false cs

def isExponentMark (c : Char) : Bool := c = 'e' || c = 'E'

/-- The digits after the point, of which there is at least one. -/
def fractionPart (negative : Bool) (digits dropped : Nat) (cs : List Char) : Reads Json :=
  match cs with
  | [] => stopAtEnd .endInValue
  | c :: _ =>
    if c.isDigit then
      let places := cs.takeWhile Char.isDigit
      let (digits, left) := significand digits places
      let exponent : Int := dropped - ((places.length - left : Nat) : Int)
      match cs.dropWhile Char.isDigit with
      | [] => double? negative digits exponent []
      | e :: rest =>
        if isExponentMark e then exponentPart negative digits exponent rest
        else double? negative digits exponent (e :: rest)
    else stopAt .invalidNumber cs

/-- A number that ends after its whole part: an integer if it fits 64 bits, but `-0` is a double. -/
def wholeNumber (negative : Bool) (digits dropped : Nat) (rest : List Char) : Reads Json :=
  if dropped ≠ 0 then double? negative digits dropped rest
  else if !negative then .ok (integer digits, rest)
  else if digits = 0 || 0x8000000000000000 < digits then double? true digits 0 rest
  else .ok (integer (-digits), rest)

/-- What follows the whole part. -/
def afterWhole (negative : Bool) (digits dropped : Nat) : List Char → Reads Json
  | [] => wholeNumber negative digits dropped []
  | c :: rest =>
    if c = '.' then fractionPart negative digits dropped rest
    else if isExponentMark c then exponentPart negative digits dropped rest
    else wholeNumber negative digits dropped (c :: rest)

/-- A number without its sign. A zero in front stands alone. -/
def unsigned (negative : Bool) : List Char → Reads Json
  | [] => stopAtEnd .endInValue
  | c :: cs =>
    if c = '0' then
      match cs with
      | d :: rest =>
        if d.isDigit then stopAt .invalidNumber (d :: rest) else afterWhole negative 0 0 (d :: rest)
      | [] => afterWhole negative 0 0 []
    else if c.isDigit then
      let (digits, dropped) := significand 0 ((c :: cs).takeWhile Char.isDigit)
      afterWhole negative digits dropped (cs.dropWhile Char.isDigit)
    else stopAt .invalidNumber (c :: cs)

theorem double?_rest {negative : Bool} {digits : Nat} {exponent : Int} {cs rest : List Char}
    {x : Json} (h : double? negative digits exponent cs = .ok (x, rest)) : rest = cs := by
  unfold double? at h
  split at h <;> cases h
  rfl

theorem exponentDigits_shorter {negative minus : Bool} {digits : Nat} {exponent : Int}
    {cs rest : List Char} {x : Json}
    (h : exponentDigits negative digits exponent minus cs = .ok (x, rest)) :
    rest.length ≤ cs.length := by
  unfold exponentDigits at h
  split at h
  · cases h
  next c tail =>
    have hd := (List.dropWhile_sublist (l := c :: tail) Char.isDigit).length_le
    split at h
    · simp only at h
      split at h
      · cases double?_rest h; exact hd
      · split at h
        · cases h; exact hd
        · cases h
    · cases h

theorem exponentPart_shorter {negative : Bool} {digits : Nat} {exponent : Int}
    {cs rest : List Char} {x : Json}
    (h : exponentPart negative digits exponent cs = .ok (x, rest)) : rest.length ≤ cs.length := by
  unfold exponentPart at h
  split at h
  · exact Nat.le_succ_of_le (exponentDigits_shorter h)
  · exact Nat.le_succ_of_le (exponentDigits_shorter h)
  · exact exponentDigits_shorter h

theorem fractionPart_shorter {negative : Bool} {digits dropped : Nat}
    {cs rest : List Char} {x : Json}
    (h : fractionPart negative digits dropped cs = .ok (x, rest)) : rest.length ≤ cs.length := by
  unfold fractionPart at h
  split at h
  · cases h
  next c tail =>
    have hd := (List.dropWhile_sublist (l := c :: tail) Char.isDigit).length_le
    split at h
    · simp only at h
      split at h
      · cases double?_rest h; simp
      next e more he =>
        rw [he] at hd
        split at h
        · exact Nat.le_trans (Nat.le_succ_of_le (exponentPart_shorter h)) hd
        · cases double?_rest h; exact hd
    · cases h

theorem wholeNumber_rest {negative : Bool} {digits dropped : Nat} {cs rest : List Char} {x : Json}
    (h : wholeNumber negative digits dropped cs = .ok (x, rest)) : rest = cs := by
  unfold wholeNumber at h
  split at h
  · exact double?_rest h
  · split at h
    · cases h; rfl
    · split at h
      · exact double?_rest h
      · cases h; rfl

theorem afterWhole_shorter {negative : Bool} {digits dropped : Nat} {cs rest : List Char} {x : Json}
    (h : afterWhole negative digits dropped cs = .ok (x, rest)) : rest.length ≤ cs.length := by
  unfold afterWhole at h
  split at h
  · cases wholeNumber_rest h; simp
  · split at h
    · exact Nat.le_succ_of_le (fractionPart_shorter h)
    · split at h
      · exact Nat.le_succ_of_le (exponentPart_shorter h)
      · cases wholeNumber_rest h; simp

theorem unsigned_shorter {negative : Bool} {cs rest : List Char} {x : Json}
    (h : unsigned negative cs = .ok (x, rest)) : rest.length < cs.length := by
  unfold unsigned at h
  split at h
  · cases h
  · split at h
    · split at h
      · split at h
        · cases h
        · exact Nat.lt_succ_of_le (afterWhole_shorter h)
      · exact Nat.lt_succ_of_le (afterWhole_shorter h)
    · split at h
      · have h₁ := afterWhole_shorter h
        have h₂ := (List.dropWhile_sublist (l := ‹List Char›) Char.isDigit).length_le
        simp only [List.length_cons]
        omega
      · cases h

/-! ## Values -/

/-- A reader of values that leaves less than it is given. -/
structure ValueReader where
  read : List Char → Reads Json
  shorter : ∀ {cs rest x}, read cs = .ok (x, rest) → rest.length < cs.length

theorem length_skipBlank_le (cs : List Char) : (skipBlank cs).length ≤ cs.length :=
  (List.dropWhile_sublist isBlank).length_le

/-- The items after the first, up to the closing bracket. -/
def moreItems (item : ValueReader) (cs : List Char) : Reads (List Json) :=
  match _hb : skipBlank cs with
  | [] => stopAtEnd .endInList
  | ']' :: rest => .ok ([], rest)
  | ',' :: rest =>
    match skipBlank rest with
    | [] => stopAtEnd .endInValue
    | ']' :: after => stopAt .trailingComma (']' :: after)
    | _ =>
      match _hr : item.read rest with
      | .error stop => .error stop
      | .ok (x, rest) =>
        match moreItems item rest with
        | .error stop => .error stop
        | .ok (xs, rest) => .ok (x :: xs, rest)
  | rest => stopAt .expectedListEnd rest
termination_by cs.length
decreasing_by
  have h₁ := item.shorter _hr
  have h₂ := length_skipBlank_le cs
  simp only [_hb, List.length_cons] at h₂
  omega

theorem moreItems_shorter {item : ValueReader} {cs rest : List Char} {xs : List Json}
    (h : moreItems item cs = .ok (xs, rest)) : rest.length < cs.length := by
  fun_induction moreItems item cs generalizing xs rest with
  | case2 cs tail hb =>
    cases h
    have := length_skipBlank_le cs
    simp only [hb, List.length_cons] at this
    omega
  | case7 cs tail hb _ _ hr _ _ hm _ _ ih =>
    cases h
    have h₁ := item.shorter hr
    have h₂ := ih hm
    have h₃ := length_skipBlank_le cs
    simp only [hb, List.length_cons] at h₃
    omega
  | _ => cases h

/-- The items of an array, after its opening bracket. -/
def items (item : ValueReader) (cs : List Char) : Reads (List Json) :=
  match skipBlank cs with
  | [] => stopAtEnd .endInList
  | ']' :: rest => .ok ([], rest)
  | rest =>
    match item.read rest with
    | .error stop => .error stop
    | .ok (x, rest) =>
      match moreItems item rest with
      | .error stop => .error stop
      | .ok (xs, rest) => .ok (x :: xs, rest)

theorem items_shorter {item : ValueReader} {cs rest : List Char} {xs : List Json}
    (h : items item cs = .ok (xs, rest)) : rest.length < cs.length := by
  have hc := length_skipBlank_le cs
  unfold items at h
  split at h
  · cases h
  next hb =>
    cases h
    simp only [hb, List.length_cons] at hc
    omega
  · split at h
    · cases h
    next hr =>
      have h₁ := item.shorter hr
      split at h
      · cases h
      next hm =>
        have h₂ := moreItems_shorter hm
        cases h
        omega

/-- One field, after the opening quote of its key. -/
def field (item : ValueReader) (cs : List Char) : Reads (String × Json) :=
  match stringBody cs with
  | .error stop => .error stop
  | .ok (key, rest) =>
    match skipBlank rest with
    | [] => stopAtEnd .endInObject
    | ':' :: rest =>
      match item.read rest with
      | .error stop => .error stop
      | .ok (x, rest) => .ok ((String.ofList key, x), rest)
    | rest => stopAt .expectedColon rest

theorem field_shorter {item : ValueReader} {cs rest : List Char} {x : String × Json}
    (h : field item cs = .ok (x, rest)) : rest.length < cs.length := by
  unfold field at h
  split at h
  · cases h
  next after hs =>
    have h₁ := stringBody_shorter hs
    have h₂ := length_skipBlank_le after
    split at h
    · cases h
    next hb =>
      simp only [hb, List.length_cons] at h₂
      split at h
      · cases h
      next hr =>
        have := item.shorter hr
        cases h
        omega
    · cases h

/-- The fields after the first, up to the closing brace. -/
def moreFields (item : ValueReader) (cs : List Char) : Reads (List (String × Json)) :=
  match _hb : skipBlank cs with
  | [] => stopAtEnd .endInObject
  | '\x7d' :: rest => .ok ([], rest)
  | ',' :: tail =>
    match _hk : skipBlank tail with
    | [] => stopAtEnd .endInValue
    | '\x7d' :: after => stopAt .trailingComma ('\x7d' :: after)
    | '"' :: key =>
      match _hf : field item key with
      | .error stop => .error stop
      | .ok (x, rest) =>
        match moreFields item rest with
        | .error stop => .error stop
        | .ok (xs, rest) => .ok (x :: xs, rest)
    | rest => stopAt .expectedKey rest
  | rest => stopAt .expectedObjectEnd rest
termination_by cs.length
decreasing_by
  have h₁ := field_shorter _hf
  have h₂ := length_skipBlank_le cs
  have h₃ := length_skipBlank_le tail
  simp only [_hb, _hk, List.length_cons] at h₂ h₃
  omega

theorem moreFields_shorter {item : ValueReader} {cs rest : List Char} {xs : List (String × Json)}
    (h : moreFields item cs = .ok (xs, rest)) : rest.length < cs.length := by
  fun_induction moreFields item cs generalizing xs rest with
  | case2 cs tail hb =>
    cases h
    have := length_skipBlank_le cs
    simp only [hb, List.length_cons] at this
    omega
  | case7 cs tail hb key hk x after hf xs' last hm ih =>
    cases h
    have h₁ := field_shorter hf
    have h₂ := ih hm
    have h₃ := length_skipBlank_le cs
    have h₄ := length_skipBlank_le tail
    simp only [hb, hk, List.length_cons] at h₃ h₄
    omega
  | _ => cases h

/-- The fields of an object, after its opening brace. -/
def fields (item : ValueReader) (cs : List Char) : Reads (List (String × Json)) :=
  match skipBlank cs with
  | [] => stopAtEnd .endInObject
  | '\x7d' :: rest => .ok ([], rest)
  | '"' :: key =>
    match field item key with
    | .error stop => .error stop
    | .ok (x, rest) =>
      match moreFields item rest with
      | .error stop => .error stop
      | .ok (xs, rest) => .ok (x :: xs, rest)
  | rest => stopAt .expectedKey rest

theorem fields_shorter {item : ValueReader} {cs rest : List Char} {xs : List (String × Json)}
    (h : fields item cs = .ok (xs, rest)) : rest.length < cs.length := by
  have hc := length_skipBlank_le cs
  unfold fields at h
  split at h
  · cases h
  next hb =>
    cases h
    simp only [hb, List.length_cons] at hc
    omega
  next hb =>
    simp only [hb, List.length_cons] at hc
    split at h
    · cases h
    next hf =>
      have h₁ := field_shorter hf
      split at h
      · cases h
      next hm =>
        have h₂ := moreFields_shorter hm
        cases h
        omega
  · cases h

/-- A value whose first character is known; `inner` reads what its brackets hold, unless they would
stand too deep. -/
def valueFrom (inner : Option ValueReader) (c : Char) (cs : List Char) : Reads Json :=
  if c = 'n' then (word ['u', 'l', 'l'] cs).map fun (_, rest) => (null, rest)
  else if c = 't' then (word ['r', 'u', 'e'] cs).map fun (_, rest) => (bool true, rest)
  else if c = 'f' then (word ['a', 'l', 's', 'e'] cs).map fun (_, rest) => (bool false, rest)
  else if c = '-' then unsigned true cs
  else if c.isDigit then unsigned false (c :: cs)
  else if c = '"' then (stringBody cs).map fun (s, rest) => (string (String.ofList s), rest)
  else if c = '[' then
    match inner with
    | none => stopAt .tooDeep (c :: cs)
    | some item => (items item cs).map fun (xs, rest) => (array xs, rest)
  else if c = '\x7b' then
    match inner with
    | none => stopAt .tooDeep (c :: cs)
    | some item => (fields item cs).map fun (xs, rest) => (object (sortFields xs), rest)
  else stopAt .expectedValue (c :: cs)

theorem word_shorter {ws cs rest : List Char} (h : word ws cs = .ok ((), rest)) :
    rest.length ≤ cs.length := by
  fun_induction word ws cs with
  | case1 => cases h; exact Nat.le_refl _
  | case2 => cases h
  | case3 _ _ _ ih => exact Nat.le_succ_of_le (ih h)
  | case4 => cases h

theorem map_ok {α β : Type} {r : Reads α} {f : α × List Char → β × List Char} {y : β × List Char}
    (h : r.map f = .ok y) : ∃ x, r = .ok x ∧ f x = y := by
  cases r with
  | error => cases h
  | ok x => cases h; exact ⟨x, rfl, rfl⟩

theorem valueFrom_shorter {inner : Option ValueReader} {c : Char} {cs rest : List Char} {x : Json}
    (h : valueFrom inner c cs = .ok (x, rest)) : rest.length < cs.length + 1 := by
  unfold valueFrom at h
  split at h
  · obtain ⟨_, hw, hx⟩ := map_ok h; cases hx; exact Nat.lt_succ_of_le (word_shorter hw)
  split at h
  · obtain ⟨_, hw, hx⟩ := map_ok h; cases hx; exact Nat.lt_succ_of_le (word_shorter hw)
  split at h
  · obtain ⟨_, hw, hx⟩ := map_ok h; cases hx; exact Nat.lt_succ_of_le (word_shorter hw)
  split at h
  · exact Nat.lt_succ_of_lt (unsigned_shorter h)
  split at h
  · exact unsigned_shorter h
  split at h
  · obtain ⟨_, hs, hx⟩ := map_ok h; cases hx; exact Nat.lt_succ_of_lt (stringBody_shorter hs)
  split at h
  · split at h
    · cases h
    · obtain ⟨_, hs, hx⟩ := map_ok h; cases hx; exact Nat.lt_succ_of_lt (items_shorter hs)
  split at h
  · split at h
    · cases h
    · obtain ⟨_, hs, hx⟩ := map_ok h; cases hx; exact Nat.lt_succ_of_lt (fields_shorter hs)
  · cases h

/-- A value after blanks. -/
def readWith (inner : Option ValueReader) (cs : List Char) : Reads Json :=
  match skipBlank cs with
  | [] => stopAtEnd .endInValue
  | c :: rest => valueFrom inner c rest

theorem readWith_shorter {inner : Option ValueReader} {cs rest : List Char} {x : Json}
    (h : readWith inner cs = .ok (x, rest)) : rest.length < cs.length := by
  have hc := length_skipBlank_le cs
  unfold readWith at h
  split at h
  · cases h
  next hb =>
    simp only [hb, List.length_cons] at hc
    have := valueFrom_shorter h
    omega

/-- The reader of values that nest at most `limit` brackets. -/
def valueReader : Nat → ValueReader
  | 0 => ⟨readWith none, readWith_shorter⟩
  | limit + 1 => ⟨readWith (some (valueReader limit)), readWith_shorter⟩

/-! ## Texts -/

/-- A place in a text: the line, counted from one, and the bytes since it began. -/
structure Place where
  line : Nat
  column : Nat
deriving DecidableEq, Repr

/-- The place of a byte offset, for the rest `cs` of a text from offset `n` on. -/
def placeFrom (n lineStart line offset : Nat) : List Char → Place
  | [] => ⟨line, offset - lineStart⟩
  | c :: cs =>
    if offset ≤ n then ⟨line, offset - lineStart⟩
    else if c = '\n' then placeFrom (n + 1) (n + 1) (line + 1) offset cs
    else placeFrom (n + c.utf8Size) lineStart line offset cs

/-- The place at which reading a text stopped. -/
def Stop.place (stop : Stop) (text : List Char) : Place :=
  let size := utf8Length text
  placeFrom 0 0 1 (min size (size - utf8Length stop.unread + stop.ahead)) text

/-- The fault and its place. -/
def Stop.message (stop : Stop) (text : List Char) : String :=
  let place := stop.place text
  s!"{stop.fault.message} at line {place.line} column {place.column}"

/-- A text that holds one value, which nests at most `limit` brackets. -/
def readText (limit : Nat) (cs : List Char) : Except Stop Json :=
  match (valueReader limit).read cs with
  | .error stop => .error stop
  | .ok (value, rest) =>
    match skipBlank rest with
    | [] => .ok value
    | c :: more => .error ⟨.trailingCharacters, c :: more, 1⟩

/-- How many brackets deep a text may nest. -/
def textLimit : Nat := 127

/-- The value that a text holds, or why and where it holds none. -/
def ofText (s : String) : Except String Json :=
  (readText textLimit s.toList).mapError (·.message s.toList)

end Json

end SandboxProfile
