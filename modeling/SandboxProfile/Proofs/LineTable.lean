import Mathlib.Data.List.Induction
import SandboxProfile.Proofs.Partition

/-!
# The table of lines

A place in a text is found in two ways: by going over the characters in front of it, and by looking
its offset up in the table of the lines and measuring from the beginning of the line. Both find the
same (`position?_after`).
-/

namespace SandboxProfile

/-! ### Going over characters -/

@[simp] theorem utf16Length_append (cs ds : List Char) :
    utf16Length (cs ++ ds) = utf16Length cs + utf16Length ds := by
  induction cs with
  | nil => rw [List.nil_append, utf16Length_nil, Nat.zero_add]
  | cons c cs ih => rw [List.cons_append, utf16Length_cons, utf16Length_cons, ih, Nat.add_assoc]

theorem lineStartsFrom_append (n : Nat) (cs ds : List Char) :
    lineStartsFrom n (cs ++ ds) =
      lineStartsFrom n cs ++ lineStartsFrom (n + utf8Length cs) ds := by
  induction cs generalizing n with
  | nil => rfl
  | cons c cs ih =>
    rw [List.cons_append, lineStartsFrom, lineStartsFrom, utf8Length_cons]
    by_cases hc : c = '\n'
    · have hsize : c.utf8Size = 1 := by rw [hc]; rfl
      rw [if_pos hc, if_pos hc, ih, List.cons_append, hsize, Nat.add_assoc]
    · rw [if_neg hc, if_neg hc, ih, Nat.add_assoc]

/-- A line begins behind the line feed that ends the one before, in the text. -/
theorem mem_lineStartsFrom {n m : Nat} {cs : List Char} (h : m ∈ lineStartsFrom n cs) :
    n < m ∧ m ≤ n + utf8Length cs := by
  induction cs generalizing n with
  | nil => cases h
  | cons c cs ih =>
    have hpos := c.utf8Size_pos
    rw [lineStartsFrom] at h
    rw [utf8Length_cons]
    by_cases hc : c = '\n'
    · have hsize : c.utf8Size = 1 := by rw [hc]; rfl
      rw [if_pos hc] at h
      rcases List.mem_cons.mp h with rfl | h
      · omega
      · have := ih h
        omega
    · rw [if_neg hc] at h
      have := ih h
      omega

/-- The place behind a run of characters tells how many lines begin in the run and how far the last
of them reaches. -/
theorem exists_line (cs : List Char) :
    ∃ above line, cs = above ++ line ∧
      (0 :: lineStartsFrom 0 cs)[(lineStartsFrom 0 cs).length]? = some (utf8Length above) ∧
      Position.origin.after cs =
        ⟨(lineStartsFrom 0 cs).length, utf16Length line, utf8Length cs⟩ := by
  induction cs using List.reverseRecOn with
  | nil => exact ⟨[], [], rfl, rfl, rfl⟩
  | append_singleton cs c ih =>
    obtain ⟨above, line, hcs, hstart, hafter⟩ := ih
    have hnext : Position.origin.after (cs ++ [c]) = (Position.origin.after cs).next c := by
      rw [Position.after_append]
      rfl
    rw [hnext, hafter, lineStartsFrom_append, lineStartsFrom, Nat.zero_add, utf8Length_append,
      Position.next]
    by_cases hc : c = '\n'
    · have hsize : utf8Length [c] = 1 := by rw [hc]; rfl
      refine ⟨cs ++ [c], [], (List.append_nil _).symm, ?_, ?_⟩
      · rw [if_pos hc, utf8Length_append, hsize]
        simp [lineStartsFrom]
      · rw [if_pos hc, if_pos hc, hsize]
        simp [lineStartsFrom]
    · refine ⟨above, line ++ [c], by rw [hcs, List.append_assoc], ?_, ?_⟩
      · rw [if_neg hc, lineStartsFrom, List.append_nil]
        exact hstart
      · rw [if_neg hc, if_neg hc, lineStartsFrom, List.append_nil, utf16Length_append]
        rfl

/-! ### Looking up -/

namespace Document

theorem size_between {text : String} {before behind : List Char}
    (h : text.toList = before ++ behind) :
    (ofString text).size = utf8Length before + utf8Length behind := by
  rw [size, chars, ofString, h, utf8Length_append]

/-- The lines that begin at or before a place between two characters. -/
theorem countP_lineStarts {text : String} {before behind : List Char}
    (h : text.toList = before ++ behind) :
    (ofString text).lineStarts.countP (· ≤ utf8Length before) =
      (lineStartsFrom 0 before).length + 1 := by
  have hbefore : ∀ m ∈ lineStartsFrom 0 before, decide (m ≤ utf8Length before) = true := by
    intro m hm
    have := (mem_lineStartsFrom hm).2
    exact decide_eq_true (by omega)
  have hbehind : ∀ m ∈ lineStartsFrom (0 + utf8Length before) behind,
      ¬ decide (m ≤ utf8Length before) = true := by
    intro m hm
    have := (mem_lineStartsFrom hm).1
    rw [decide_eq_true_iff]
    omega
  rw [ofString, h, lineStartsFrom_append, List.countP_cons_of_pos (by simp), List.countP_append,
    List.countP_eq_length.mpr hbefore, List.countP_eq_zero.mpr hbehind]

/-- The table of the lines gives a place between two characters the position that is reached by
going over the characters in front of it. -/
theorem position?_after {text : String} {before behind : List Char}
    (h : text.toList = before ++ behind) :
    (ofString text).position? (Position.origin.after before).offset =
      some (Position.origin.after before) := by
  obtain ⟨above, line, hbefore, hstart, hafter⟩ := exists_line before
  have hsize := size_between h
  have hcount := countP_lineStarts h
  have hchars : (ofString text).chars = before ++ behind := h
  have hfloor : Bytes.floor (before ++ behind) (utf8Length before) = utf8Length before := by
    rw [Bytes.floor, Bytes.take_utf8Length]
  have hlook : (ofString text).lineStarts.getD (lineStartsFrom 0 before).length 0 =
      utf8Length above := by
    have htable : (ofString text).lineStarts =
        (0 :: lineStartsFrom 0 before) ++ lineStartsFrom (0 + utf8Length before) behind := by
      rw [ofString, h, lineStartsFrom_append]
      rfl
    rw [htable, List.getD_eq_getElem?_getD, List.getElem?_append_left (by simp), hstart]
    rfl
  have hslice : Bytes.slice (before ++ behind) (utf8Length above) (utf8Length before) = line := by
    rw [Bytes.slice, Bytes.take_utf8Length, hbefore, Bytes.drop_utf8Length]
  rw [hafter]
  simp only [position?, hchars, hfloor, hcount, Nat.add_sub_cancel, hlook, hslice]
  rw [if_neg (by omega)]

/-- The end of a document is reached by going over all its characters. -/
theorem endPosition_ofString (text : String) :
    (ofString text).endPosition = Position.origin.after text.toList := by
  obtain ⟨above, line, htext, hstart, hafter⟩ := exists_line text.toList
  have hcount : (ofString text).lineCount - 1 = (lineStartsFrom 0 text.toList).length := rfl
  have hlook : (ofString text).lineStarts.getD (lineStartsFrom 0 text.toList).length 0 =
      utf8Length above := by
    rw [List.getD_eq_getElem?_getD]
    exact congrArg (Option.getD · 0) hstart
  have hchars : (ofString text).chars = above ++ line := htext
  rw [endPosition, hcount, hlook, hchars, Bytes.drop_utf8Length, hafter]
  rfl

end Document

end SandboxProfile
