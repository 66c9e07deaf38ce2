import SandboxProfile.Proofs.Lines
import SandboxProfile.Proofs.Places

/-!
# Lines tile a text

The table has a line for each line feed and one more. The texts of the lines, each with what stands
between it and the next line, are the whole text, one after the other (`tiled_ofString`), although
the end of a line is found backwards from the next one.
-/

namespace SandboxProfile

namespace Document

/-- What stands behind the range of a line, up to the next line or else the end of the text. -/
def gap? (d : Document) (line : Nat) : Option String :=
  (d.lineRange? line).map fun r =>
    d.textOf ⟨r.stop, ((d.lineRange? (line + 1)).map Range.start).getD d.endPosition⟩

theorem lineCount_ofString (text : String) :
    (ofString text).lineCount = text.toList.count '\n' + 1 := by
  rw [lineCount, ofString, List.length_cons, length_lineStartsFrom]

/-- A line has no number from the number of lines on. -/
theorem unknown_line {d : Document} {n : Nat} (h : d.lineCount ≤ n) :
    d.lineText? n = none ∧ d.lineRange? n = none := by
  have hnone : d.lineStarts[n]? = none := List.getElem?_eq_none h
  rw [lineText?, lineRange?, hnone]
  exact ⟨rfl, rfl⟩

theorem exists_line_of_lt {text : String} {n : Nat} (h : n < (ofString text).lineCount) :
    ∃ l : Line text.toList, l.number = n :=
  exists_of_getElem?_lineStarts (List.getElem?_eq_getElem h)

end Document

/-- A terminator with a line feed has one, at its end, and one without is at the end of the text. -/
theorem Terminates.cases_feed {content terminator below : List Char}
    (h : Terminates content terminator below) :
    (terminator = ['\n'] ∨ terminator = ['\r', '\n']) ∧ terminator.count '\n' = 1 ∨
      (terminator = [] ∨ terminator = ['\r']) ∧ terminator.count '\n' = 0 ∧ below = [] := by
  cases h with
  | lineFeed bare => exact .inl ⟨.inl rfl, rfl⟩
  | bothReturns => exact .inl ⟨.inr rfl, rfl⟩
  | textEnd bare => exact .inr ⟨.inl rfl, rfl, rfl⟩
  | carriageReturn => exact .inr ⟨.inr rfl, rfl, rfl⟩

/-- A carriage return at the end of a line belongs to what ends it. -/
theorem Terminates.bare_of_head {content terminator below : List Char}
    (h : Terminates content terminator below) (hhead : terminator.head? ≠ some '\r') :
    content.getLast? ≠ some '\r' := by
  cases h with
  | lineFeed bare => exact bare
  | bothReturns => exact absurd rfl hhead
  | textEnd bare => exact bare
  | carriageReturn => exact absurd rfl hhead

namespace Line

variable {text : String}

theorem behind_content (l : Line text.toList) :
    text.toList = (l.above ++ l.content) ++ (l.terminator ++ l.below) := by
  refine l.whole.trans ?_
  rw [List.append_assoc]

theorem behind_terminator (l : Line text.toList) :
    text.toList = (l.above ++ (l.content ++ l.terminator)) ++ l.below := by
  refine l.whole.trans ?_
  simp only [List.append_assoc]

/-- The range of the content of a line. -/
def range (l : Line text.toList) : Range where
  start := ⟨l.number, 0, utf8Length l.above⟩
  stop := ⟨l.number, utf16Length l.content, utf8Length (l.above ++ l.content)⟩

theorem lineText?_eq (l : Line text.toList) :
    (Document.ofString text).lineText? l.number = some (String.ofList l.content) := by
  rw [Document.lineText?, l.getElem?_lineStarts, Option.map_some, l.fullLine_eq,
    withoutTerminator_terminated l.ends l.plain]

theorem lineRange?_eq (l : Line text.toList) :
    (Document.ofString text).lineRange? l.number = some l.range := by
  rw [Document.lineRange?, l.getElem?_lineStarts, Option.map_some, l.fullLine_eq,
    withoutTerminator_terminated l.ends l.plain, range, utf8Length_append]

theorem textOf_range (l : Line text.toList) :
    (Document.ofString text).textOf l.range = String.ofList l.content :=
  Document.textOf_between l.whole rfl rfl

theorem agrees_range (l : Line text.toList) : l.range.Agrees (.ofString text) := by
  have hstart := l.position?_eq (List.nil_append l.content).symm
  have hsize := Document.size_between l.behind_content
  rw [List.append_nil] at hstart
  constructor
  · exact hstart
  · exact l.position?_eq (List.append_nil l.content).symm
  · change utf8Length l.above ≤ utf8Length (l.above ++ l.content)
    rw [utf8Length_append]
    exact Nat.le_add_right _ _
  · change utf8Length (l.above ++ l.content) ≤ _
    rw [hsize]
    exact Nat.le_add_right _ _

/-- The next line begins behind the terminator, and behind the last one is the end. -/
theorem gap?_eq (l : Line text.toList) :
    (Document.ofString text).gap? l.number = some (String.ofList l.terminator) := by
  have hnext (d : Document) (n : Nat) : (((d.lineRange? n).map Range.start).getD
      d.endPosition).offset = d.lineStarts.getD n d.size := by
    rw [Document.lineRange?, List.getD_eq_getElem?_getD]
    cases d.lineStarts[n]? <;> rfl
  rw [Document.gap?, l.lineRange?_eq, Option.map_some,
    Document.textOf_between l.behind_content rfl]
  rw [hnext, l.getD_lineStarts, List.append_assoc]

/-- The lines below a line are those behind its terminator. -/
theorem lineCount_eq (l : Line text.toList) :
    (Document.ofString text).lineCount =
      l.number + l.terminator.count '\n' + l.below.count '\n' + 1 := by
  have hcontent : l.content.count '\n' = 0 := List.count_eq_zero.mpr l.plain
  have hcount : text.toList.count '\n' =
      (l.above ++ (l.content ++ (l.terminator ++ l.below))).count '\n' :=
    congrArg (List.count '\n') l.whole
  rw [List.count_append, List.count_append, List.count_append] at hcount
  rw [Document.lineCount_ofString, hcount, number]
  omega

/-- A line above another one ends in a line feed, and the last line does not. -/
theorem terminator_cases (l : Line text.toList) :
    l.number + 1 < (Document.ofString text).lineCount ∧
        (l.terminator = ['\n'] ∨ l.terminator = ['\r', '\n']) ∨
      l.number + 1 = (Document.ofString text).lineCount ∧
        (l.terminator = [] ∨ l.terminator = ['\r']) := by
  have hlines := l.lineCount_eq
  rcases l.ends.cases_feed with ⟨hfeed, hcount⟩ | ⟨hnone, hcount, hbelow⟩
  · exact .inl ⟨by omega, hfeed⟩
  · rw [hbelow, List.count_nil] at hlines
    exact .inr ⟨by omega, hnone⟩

end Line

namespace Document

/-- The lines above a number, each with the gap behind it, are the text up to where the table has
the line of that number begin. -/
theorem flatMap_lines {text : String} {n : Nat} (h : n ≤ (ofString text).lineCount) :
    (List.range n).flatMap (fun m => (((ofString text).lineText? m).getD "").toList ++
        (((ofString text).gap? m).getD "").toList) =
      Bytes.take ((ofString text).lineStarts.getD n (ofString text).size) text.toList := by
  induction n with
  | zero =>
    have hstart : (ofString text).lineStarts.getD 0 (ofString text).size = utf8Length [] := rfl
    conv => rhs; rw [hstart, ← List.nil_append text.toList, Bytes.take_utf8Length]
    rfl
  | succ n ih =>
    obtain ⟨l, rfl⟩ := exists_line_of_lt h
    have hstart : (ofString text).lineStarts.getD l.number (ofString text).size =
        utf8Length l.above := by
      rw [List.getD_eq_getElem?_getD, l.getElem?_lineStarts]
      rfl
    have habove : Bytes.take (utf8Length l.above) text.toList = l.above := by
      conv => lhs; arg 2; rw [l.whole]
      exact Bytes.take_utf8Length _ _
    have hline : Bytes.take (utf8Length (l.above ++ (l.content ++ l.terminator))) text.toList =
        l.above ++ (l.content ++ l.terminator) := by
      conv => lhs; arg 2; rw [l.behind_terminator]
      exact Bytes.take_utf8Length _ _
    rw [List.range_succ, List.flatMap_append, ih (Nat.le_of_succ_le h), hstart, habove,
      l.getD_lineStarts, hline, List.flatMap_singleton, l.lineText?_eq, l.gap?_eq]
    simp

theorem gap?_between {text : String} {n : Nat} (h : n + 1 < (ofString text).lineCount) :
    (ofString text).gap? n = some "\n" ∨ (ofString text).gap? n = some "\r\n" := by
  obtain ⟨l, rfl⟩ := exists_line_of_lt (Nat.lt_of_succ_lt h)
  rcases l.terminator_cases with ⟨-, hfeed | hboth⟩ | ⟨hlast, -⟩
  · exact .inl (by rw [l.gap?_eq, hfeed])
  · exact .inr (by rw [l.gap?_eq, hboth])
  · omega

theorem gap?_last {text : String} {n : Nat} (h : n + 1 = (ofString text).lineCount) :
    (ofString text).gap? n = some "" ∨ (ofString text).gap? n = some "\r" := by
  obtain ⟨l, rfl⟩ := exists_line_of_lt (Nat.lt_of_succ_le (Nat.le_of_eq h))
  rcases l.terminator_cases with ⟨hbelow, -⟩ | ⟨-, hnone | hreturn⟩
  · omega
  · exact .inl (by rw [l.gap?_eq, hnone])
  · exact .inr (by rw [l.gap?_eq, hreturn])

/-- A carriage return at the end of a line stands in the gap behind it. -/
theorem stripped_of_gap? {text t : String} {n : Nat} (h : (ofString text).lineText? n = some t)
    (hgap : (ofString text).gap? n = some "\n" ∨ (ofString text).gap? n = some "") :
    t.toList.getLast? ≠ some '\r' := by
  have hn : n < (ofString text).lineCount := by
    apply Nat.lt_of_not_le
    intro hle
    rw [(unknown_line hle).1] at h
    cases h
  obtain ⟨l, rfl⟩ := exists_line_of_lt hn
  rw [l.lineText?_eq, Option.some_inj] at h
  rw [l.gap?_eq, Option.some_inj, Option.some_inj] at hgap
  rw [← h, String.toList_ofList]
  apply l.ends.bare_of_head
  rcases hgap with hfeed | hnone
  · rw [String.ofList_inj.mp hfeed]
    decide
  · rw [String.ofList_inj.mp hnone]
    decide

/-- All lines with the gaps behind them are the text: behind the last line the table has its end. -/
theorem join_lines (text : String) :
    String.join ((List.range (ofString text).lineCount).map fun n =>
      ((ofString text).lineText? n).getD "" ++ ((ofString text).gap? n).getD "") = text := by
  have hlines := flatMap_lines (Nat.le_refl (ofString text).lineCount)
  have hend : (ofString text).lineStarts.getD (ofString text).lineCount (ofString text).size =
      utf8Length text.toList := by
    have hnone : (ofString text).lineStarts[(ofString text).lineCount]? = none :=
      List.getElem?_eq_none (Nat.le_refl _)
    rw [List.getD_eq_getElem?_getD, hnone]
    rfl
  have hall := Bytes.take_utf8Length text.toList []
  rw [List.append_nil] at hall
  rw [hend, hall] at hlines
  refine String.toList_inj.mp ?_
  rw [String.toList_join, List.flatMap_map]
  refine Eq.trans ?_ hlines
  simp only [String.toList_append]

/-- The lines of a document tile its text. -/
structure Tiled (d : Document) : Prop where
  count : d.lineCount = d.chars.count '\n' + 1
  known : ∀ n < d.lineCount, ∃ r t, d.lineRange? n = some r ∧ d.lineText? n = some t ∧
    d.textOf r = t ∧ r.Agrees d ∧ '\n' ∉ t.toList
  unknown : ∀ n, d.lineCount ≤ n → d.lineText? n = none ∧ d.lineRange? n = none
  between : ∀ n, n + 1 < d.lineCount → d.gap? n = some "\n" ∨ d.gap? n = some "\r\n"
  last : ∀ n, n + 1 = d.lineCount → d.gap? n = some "" ∨ d.gap? n = some "\r"
  /-- No carriage return is left at the end of a line that the gap behind it could have taken. -/
  stripped : ∀ n t, d.lineText? n = some t → d.gap? n = some "\n" ∨ d.gap? n = some "" →
    t.toList.getLast? ≠ some '\r'
  whole : String.join ((List.range d.lineCount).map fun n =>
    (d.lineText? n).getD "" ++ (d.gap? n).getD "") = d.text

/-- Every text is tiled by its lines: there is one more than line feeds, the range and the text of
each say the same, a line feed with or without a carriage return stands between two of them and at
most a carriage return behind the last, and together they are the text. -/
theorem tiled_ofString (text : String) : (ofString text).Tiled := by
  constructor
  · exact lineCount_ofString text
  · intro n hn
    obtain ⟨l, rfl⟩ := exists_line_of_lt hn
    refine ⟨l.range, String.ofList l.content, l.lineRange?_eq, l.lineText?_eq, l.textOf_range,
      l.agrees_range, ?_⟩
    rw [String.toList_ofList]
    exact l.plain
  · exact fun n hn => unknown_line hn
  · exact fun n hn => gap?_between hn
  · exact fun n hn => gap?_last hn
  · exact fun n t ht hgap => stripped_of_gap? ht hgap
  · exact join_lines text

/-- A carriage return before a line feed is stripped once, and one inside a line is kept. -/
example : (List.range 5).map ((ofString "a\rb\r\r\n\n\r").lineText? ·) =
    [some "a\rb\r", some "", some "", none, none] := by decide +kernel

end Document

end SandboxProfile
