import SandboxProfile.Proofs.LineTable

/-!
# Lines and columns

A line is what stands between two line feeds, and its content ends before one carriage return at its
end. An offset is found from a line and a column by going over the content, and line and column are
found from an offset by the table. On the boundaries of characters in the content of a line the two
undo each other, and nowhere else is an offset found (`offset?_eq_some_iff`).
-/

namespace SandboxProfile

/-- What ends a line in front of the lines below it: a line feed, or the end of the text, and before
it a carriage return if there is one. -/
inductive Terminates : (content terminator below : List Char) → Prop
  | lineFeed {content below : List Char} (bare : content.getLast? ≠ some '\r') :
      Terminates content ['\n'] below
  | bothReturns {content below : List Char} : Terminates content ['\r', '\n'] below
  | textEnd {content : List Char} (bare : content.getLast? ≠ some '\r') : Terminates content [] []
  | carriageReturn {content : List Char} : Terminates content ['\r'] []

/-- A line of the characters `cs`, with what stands above and below it. -/
structure Line (cs : List Char) where
  above : List Char
  content : List Char
  terminator : List Char
  below : List Char
  whole : cs = above ++ (content ++ (terminator ++ below))
  begins : above = [] ∨ above.getLast? = some '\n'
  plain : '\n' ∉ content
  ends : Terminates content terminator below

namespace Line

variable {cs : List Char}

/-- Lines are numbered by the line feeds above them. -/
def number (l : Line cs) : Nat := l.above.count '\n'

/-- Whether an offset is a boundary of characters in the content of a line, its ends included. -/
def HasBoundary (l : Line cs) (offset : Nat) : Prop :=
  ∃ before behind, l.content = before ++ behind ∧ offset = utf8Length (l.above ++ before)

end Line

/-! ### Going over a line -/

theorem utf16Size_pos (c : Char) : 0 < utf16Size c := by
  unfold utf16Size
  split <;> decide

theorem eq_nil_of_utf16Length {cs : List Char} (h : utf16Length cs = 0) : cs = [] := by
  cases cs with
  | nil => rfl
  | cons c cs =>
    have hpos := utf16Size_pos c
    rw [utf16Length_cons] at h
    omega

theorem Position.after_plain {cs : List Char} (h : '\n' ∉ cs) (p : Position) :
    p.after cs = ⟨p.line, p.column + utf16Length cs, p.offset + utf8Length cs⟩ := by
  induction cs generalizing p with
  | nil => rfl
  | cons c cs ih =>
    rw [List.mem_cons, not_or] at h
    rw [after_cons, ih h.2, next, if_neg (Ne.symm h.1), utf16Length_cons, utf8Length_cons]
    simp only [Nat.add_assoc]

theorem length_lineStartsFrom (n : Nat) (cs : List Char) :
    (lineStartsFrom n cs).length = cs.count '\n' := by
  induction cs generalizing n with
  | nil => rfl
  | cons c cs ih =>
    rw [lineStartsFrom, List.count_cons]
    by_cases hc : c = '\n'
    · rw [if_pos hc, List.length_cons, ih, hc]
      rfl
    · rw [if_neg hc, ih, if_neg (by simpa using hc), Nat.add_zero]

theorem lineStartsFrom_plain {cs : List Char} (h : '\n' ∉ cs) (n : Nat) :
    lineStartsFrom n cs = [] := by
  rw [← List.length_eq_zero_iff, length_lineStartsFrom, List.count_eq_zero]
  exact h

/-- The offset that many UTF-16 units into a run is that of a boundary with so many in front. -/
theorem offsetOfUnits_eq_some_iff {start units o : Nat} {cs : List Char} :
    offsetOfUnits start units cs = some o ↔ ∃ before behind, cs = before ++ behind ∧
      utf16Length before = units ∧ o = start + utf8Length before := by
  induction cs generalizing start units with
  | nil =>
    cases units with
    | zero => simp [offsetOfUnits, eq_comm]
    | succ units => simp [offsetOfUnits]
  | cons c cs ih =>
    cases units with
    | zero =>
      rw [offsetOfUnits, Option.some_inj]
      constructor
      · rintro rfl
        exact ⟨[], c :: cs, rfl, rfl, rfl⟩
      · rintro ⟨before, behind, -, hunits, rfl⟩
        rw [eq_nil_of_utf16Length hunits]
        rfl
    | succ units =>
      rw [offsetOfUnits]
      constructor
      · intro h
        split at h
        next hle =>
          obtain ⟨before, behind, rfl, hunits, rfl⟩ := ih.mp h
          refine ⟨c :: before, behind, rfl, ?_, ?_⟩
          · rw [utf16Length_cons]
            omega
          · rw [utf8Length_cons, Nat.add_assoc]
        next => cases h
      · rintro ⟨before, behind, hcs, hunits, rfl⟩
        cases before with
        | nil => cases hunits
        | cons d before =>
          obtain ⟨rfl, rfl⟩ := List.cons.inj hcs
          rw [utf16Length_cons] at hunits
          have hrest : utf16Length before = units + 1 - utf16Size c := by omega
          have ho : start + utf8Length (c :: before) = start + c.utf8Size + utf8Length before := by
            rw [utf8Length_cons, Nat.add_assoc]
          rw [if_pos (by omega)]
          exact ih.mpr ⟨before, behind, rfl, hrest, ho⟩

/-! ### Lines in the table -/

/-- A terminator ends in a line feed, or else the text ends. -/
theorem Terminates.feed_or_end {content terminator below : List Char}
    (h : Terminates content terminator below) :
    (∃ init, '\n' ∉ init ∧ terminator = init ++ ['\n']) ∨ '\n' ∉ terminator ∧ below = [] := by
  cases h with
  | lineFeed bare => exact .inl ⟨[], by decide, rfl⟩
  | bothReturns => exact .inl ⟨['\r'], by decide, rfl⟩
  | textEnd bare => exact .inr ⟨by decide, rfl⟩
  | carriageReturn => exact .inr ⟨by decide, rfl⟩

theorem withoutTerminator_terminated {content terminator below : List Char}
    (h : Terminates content terminator below) (hplain : '\n' ∉ content) :
    withoutTerminator (content ++ terminator) = content := by
  cases h with
  | lineFeed bare => simp [withoutTerminator, bare]
  | bothReturns => simp [withoutTerminator]
  | textEnd bare =>
    have hfeed : content.getLast? ≠ some '\n' := fun h => hplain (List.mem_of_getLast? h)
    simp [withoutTerminator, bare, hfeed]
  | carriageReturn => simp [withoutTerminator]

/-- Some line begins with any number of line feeds above it, up to all that there are. -/
theorem exists_above {cs : List Char} {n : Nat} (h : n ≤ cs.count '\n') :
    ∃ above rest, cs = above ++ rest ∧ above.count '\n' = n ∧
      (above = [] ∨ above.getLast? = some '\n') := by
  induction cs generalizing n with
  | nil => exact ⟨[], [], rfl, (Nat.le_zero.mp h).symm, .inl rfl⟩
  | cons c cs ih =>
    cases n with
    | zero => exact ⟨[], c :: cs, rfl, rfl, .inl rfl⟩
    | succ n =>
      by_cases hc : c = '\n'
      · have hn : n ≤ cs.count '\n' := by
          rw [hc, List.count_cons_self] at h
          exact Nat.le_of_succ_le_succ h
        obtain ⟨above, rest, rfl, hcount, hbegins⟩ := ih hn
        refine ⟨c :: above, rest, rfl, by rw [hc, List.count_cons_self, hcount], .inr ?_⟩
        rcases hbegins with rfl | hlast
        · rw [hc]
          rfl
        · rw [List.getLast?_cons, hlast]
          rfl
      · have hcons (ds : List Char) : (c :: ds).count '\n' = ds.count '\n' :=
          List.count_cons_of_ne hc
        rw [hcons] at h
        obtain ⟨above, rest, rfl, hcount, hbegins⟩ := ih h
        refine ⟨c :: above, rest, rfl, by rw [hcons, hcount], .inr ?_⟩
        rcases hbegins with rfl | hlast
        · cases hcount
        · rw [List.getLast?_cons, hlast]
          rfl

/-- What stands in front of the end of a line is its content, less a carriage return at its end. -/
theorem exists_bare (cs : List Char) :
    cs.getLast? ≠ some '\r' ∨ ∃ content, cs = content ++ ['\r'] := by
  by_cases h : cs.getLast? = some '\r'
  · exact .inr (List.getLast?_eq_some_iff.mp h)
  · exact .inl h

/-- The characters behind the beginning of a line begin with its content and its terminator. -/
theorem exists_content (cs : List Char) :
    ∃ content terminator below, cs = content ++ (terminator ++ below) ∧ '\n' ∉ content ∧
      Terminates content terminator below := by
  by_cases hfeed : '\n' ∈ cs
  · obtain ⟨line, below, rfl, hplain⟩ := List.eq_append_cons_of_mem hfeed
    rcases exists_bare line with hbare | ⟨content, rfl⟩
    · exact ⟨line, ['\n'], below, rfl, hplain, .lineFeed hbare⟩
    · exact ⟨content, ['\r', '\n'], below, by simp, by simpa using hplain, .bothReturns⟩
  · rcases exists_bare cs with hbare | ⟨content, rfl⟩
    · exact ⟨cs, [], [], by simp, hfeed, .textEnd hbare⟩
    · exact ⟨content, ['\r'], [], by simp, by simpa using hfeed, .carriageReturn⟩

namespace Line

variable {cs : List Char} {text : String}

/-- A line begins at its first column, and the lines above it are in front of it in the table. -/
theorem above_eq (l : Line cs) :
    (0 :: lineStartsFrom 0 l.above)[l.number]? = some (utf8Length l.above) ∧
      Position.origin.after l.above = ⟨l.number, 0, utf8Length l.above⟩ := by
  obtain ⟨above, line, habove, hstart, hafter⟩ := exists_line l.above
  rw [length_lineStartsFrom] at hstart hafter
  have hcolumn : (Position.origin.after l.above).column = 0 := by
    rcases l.begins with hnil | hlast
    · rw [hnil]
      rfl
    · obtain ⟨init, hinit⟩ := List.getLast?_eq_some_iff.mp hlast
      rw [hinit, Position.after_append]
      rfl
  have hline : line = [] := by
    rw [hafter] at hcolumn
    exact eq_nil_of_utf16Length hcolumn
  subst hline
  rw [List.append_nil] at habove
  rw [← habove] at hstart
  exact ⟨hstart, hafter⟩

theorem lineStarts_eq (l : Line text.toList) :
    (Document.ofString text).lineStarts = (0 :: lineStartsFrom 0 l.above) ++
      lineStartsFrom (utf8Length l.above) (l.content ++ (l.terminator ++ l.below)) := by
  have htable : lineStartsFrom 0 text.toList = _ := congrArg (lineStartsFrom 0) l.whole
  rw [Document.ofString, htable, lineStartsFrom_append, Nat.zero_add]
  rfl

/-- The table has the beginning of a line under its number. -/
theorem getElem?_lineStarts (l : Line text.toList) :
    (Document.ofString text).lineStarts[l.number]? = some (utf8Length l.above) := by
  rw [l.lineStarts_eq, List.getElem?_append_left]
  · exact l.above_eq.1
  · rw [List.length_cons, length_lineStartsFrom]
    exact Nat.lt_succ_self _

/-- The next entry of the table, or else the end of the text, is behind the line's terminator. -/
theorem getD_lineStarts (l : Line text.toList) :
    (Document.ofString text).lineStarts.getD (l.number + 1) (Document.ofString text).size =
      utf8Length (l.above ++ (l.content ++ l.terminator)) := by
  have hsize : (Document.ofString text).size =
      utf8Length (l.above ++ (l.content ++ l.terminator)) + utf8Length l.below := by
    refine Document.size_between (l.whole.trans ?_)
    simp only [List.append_assoc]
  have hlength : (0 :: lineStartsFrom 0 l.above).length = l.number + 1 := by
    rw [List.length_cons, length_lineStartsFrom]
    rfl
  rw [List.getD_eq_getElem?_getD, l.lineStarts_eq,
    List.getElem?_append_right (Nat.le_of_eq hlength), hlength, Nat.sub_self]
  rcases l.ends.feed_or_end with ⟨init, hinit, hterminator⟩ | ⟨hterminator, hbelow⟩
  · have hplain : '\n' ∉ l.content ++ init := by simp [l.plain, hinit]
    have hrest : l.content ++ (l.terminator ++ l.below) =
        (l.content ++ init) ++ '\n' :: l.below := by simp [hterminator]
    rw [hrest, lineStartsFrom_append, lineStartsFrom_plain hplain, hterminator]
    simp [lineStartsFrom, Nat.add_assoc]
    rfl
  · have hplain : '\n' ∉ l.content ++ l.terminator := by simp [l.plain, hterminator]
    rw [hsize, hbelow, List.append_nil, lineStartsFrom_plain hplain]
    rfl

/-- The characters of a line by the table. -/
theorem fullLine_eq (l : Line text.toList) :
    (Document.ofString text).fullLine l.number (utf8Length l.above) =
      l.content ++ l.terminator := by
  have hchars : (Document.ofString text).chars =
      l.above ++ (l.content ++ l.terminator) ++ l.below := by
    refine l.whole.trans ?_
    simp only [List.append_assoc]
  rw [Document.fullLine, l.getD_lineStarts, hchars, Bytes.slice, Bytes.take_utf8Length,
    Bytes.drop_utf8Length]

theorem offset?_iff_boundary (l : Line text.toList) {column o : Nat} :
    (Document.ofString text).offset? l.number column = some o ↔
      ∃ before behind, l.content = before ++ behind ∧ utf16Length before = column ∧
        o = utf8Length (l.above ++ before) := by
  rw [Document.offset?, l.getElem?_lineStarts, Option.bind_some, l.fullLine_eq,
    withoutTerminator_terminated l.ends l.plain, offsetOfUnits_eq_some_iff]
  simp only [utf8Length_append]

theorem position?_eq (l : Line text.toList) {before behind : List Char}
    (h : l.content = before ++ behind) :
    (Document.ofString text).position? (utf8Length (l.above ++ before)) =
      some ⟨l.number, utf16Length before, utf8Length (l.above ++ before)⟩ := by
  have hplain : '\n' ∉ before := fun hmem => l.plain (by rw [h]; exact List.mem_append_left _ hmem)
  have hafter : Position.origin.after (l.above ++ before) =
      ⟨l.number, utf16Length before, utf8Length (l.above ++ before)⟩ := by
    rw [Position.after_append, l.above_eq.2, Position.after_plain hplain, utf8Length_append,
      Nat.zero_add]
  have hbetween : text.toList = (l.above ++ before) ++ (behind ++ (l.terminator ++ l.below)) := by
    refine l.whole.trans ?_
    rw [h]
    simp only [List.append_assoc]
  have hposition := Document.position?_after hbetween
  rwa [hafter] at hposition

end Line

namespace Document

/-- Every entry of the table is the beginning of a line. -/
theorem exists_of_getElem?_lineStarts {text : String} {n start : Nat}
    (h : (ofString text).lineStarts[n]? = some start) : ∃ l : Line text.toList, l.number = n := by
  have hn : n ≤ text.toList.count '\n' := by
    obtain ⟨hlt, -⟩ := List.getElem?_eq_some_iff.mp h
    rw [ofString, List.length_cons, length_lineStartsFrom] at hlt
    exact Nat.le_of_lt_succ hlt
  obtain ⟨above, rest, htext, hcount, hbegins⟩ := exists_above hn
  obtain ⟨content, terminator, below, hrest, hplain, hends⟩ := exists_content rest
  exact ⟨⟨above, content, terminator, below, by rw [htext, hrest], hbegins, hplain, hends⟩, hcount⟩

/-- Line and column have an offset if and only if it is a boundary in the content of the line and
the offset has line and column. -/
theorem offset?_eq_some_iff (text : String) (line column o : Nat) :
    (ofString text).offset? line column = some o ↔
      (∃ l : Line text.toList, l.number = line ∧ l.HasBoundary o) ∧
        (ofString text).position? o = some ⟨line, column, o⟩ := by
  constructor
  · intro h
    have hoffset := h
    rw [offset?, Option.bind_eq_some_iff] at hoffset
    obtain ⟨start, hstart, -⟩ := hoffset
    obtain ⟨l, rfl⟩ := exists_of_getElem?_lineStarts hstart
    obtain ⟨before, behind, hcontent, rfl, rfl⟩ := l.offset?_iff_boundary.mp h
    exact ⟨⟨l, rfl, before, behind, hcontent, rfl⟩, l.position?_eq hcontent⟩
  · rintro ⟨⟨l, rfl, before, behind, hcontent, rfl⟩, hposition⟩
    rw [l.position?_eq hcontent, Option.some_inj] at hposition
    exact l.offset?_iff_boundary.mpr
      ⟨before, behind, hcontent, congrArg Position.column hposition, rfl⟩

/-- No column is between the two halves of a surrogate pair, and none is in a terminator. -/
example : [0, 1, 2, 3, 4].map ((ofString "a😀\r\nb").offset? 0) =
    [some 0, some 1, none, some 5, none] := by decide +kernel

end Document

end SandboxProfile
