import Mathlib.Data.Nat.Find
import SandboxProfile.Proofs.Partition

/-!
# Slices of a document

Any two offsets give a slice: the later one is brought into the text and back to a boundary between
characters, and then the earlier one is brought before it and back likewise. So the slice is always
cut at two boundaries in order (`Document.sliced_textOf`), and offsets that are boundaries already
stay where they are.
-/

namespace SandboxProfile

/-- Whether a character of the text begins at an offset, or the text ends there. -/
def IsBoundary (text : String) (o : Nat) : Prop := (String.Pos.Raw.mk o).IsValid text

instance (text : String) : DecidablePred (IsBoundary text) :=
  fun o => inferInstanceAs (Decidable ((String.Pos.Raw.mk o).IsValid text))

/-- The boundary that is met first on the way back from an offset. -/
def boundaryBefore (text : String) (o : Nat) : Nat := Nat.findGreatest (IsBoundary text) o

namespace Document

/-- How the text of a range is cut out, between the offsets `start` and `stop`: at two boundaries in
order, which are the ends of the range where these are boundaries. -/
structure Sliced (text : String) (r : Range) (start stop : Nat) : Prop where
  ordered : start ≤ stop
  bounded : stop ≤ text.utf8ByteSize
  atStart : IsBoundary text start
  atStop : IsBoundary text stop
  bytes : ((ofString text).textOf r).toByteArray = text.toByteArray.extract start stop
  kept : IsBoundary text r.start.offset → IsBoundary text r.stop.offset →
    ((ofString text).textOf r).toByteArray =
      text.toByteArray.extract r.start.offset r.stop.offset

end Document

/-! ### Bytes of characters -/

theorem utf8ByteSize_ofList (cs : List Char) : (String.ofList cs).utf8ByteSize = utf8Length cs := by
  induction cs with
  | nil => rfl
  | cons c cs ih =>
    have hsplit : String.ofList (c :: cs) = .singleton c ++ .ofList cs := by
      rw [String.singleton_eq_ofList, ← String.ofList_append]
      rfl
    rw [hsplit, String.utf8ByteSize_append, String.utf8ByteSize_singleton, ih, utf8Length_cons]

theorem utf8ByteSize_eq (text : String) : text.utf8ByteSize = utf8Length text.toList := by
  rw [← utf8ByteSize_ofList, String.ofList_toList]

theorem isBoundary_iff {text : String} {o : Nat} : IsBoundary text o ↔
    ∃ before behind, text.toList = before ++ behind ∧ o = utf8Length before := by
  rw [IsBoundary, String.Pos.Raw.isValid_iff_exists_append]
  constructor
  · rintro ⟨s, t, rfl, hs⟩
    refine ⟨s.toList, t.toList, String.toList_append, ?_⟩
    rw [← utf8ByteSize_eq]
    exact congrArg String.Pos.Raw.byteIdx hs
  · rintro ⟨before, behind, htext, rfl⟩
    refine ⟨.ofList before, .ofList behind, ?_, ?_⟩
    · rw [← String.ofList_append, ← htext, String.ofList_toList]
    · rw [← utf8ByteSize_ofList]
      rfl

/-- What stands between two boundaries has the bytes between their offsets. -/
theorem toByteArray_between {text : String} {before cs behind : List Char}
    (h : text.toList = before ++ (cs ++ behind)) :
    (String.ofList cs).toByteArray =
      text.toByteArray.extract (utf8Length before) (utf8Length (before ++ cs)) := by
  have htext : text = .ofList (before ++ cs) ++ .ofList behind := by
    rw [← String.ofList_append, List.append_assoc, ← h, String.ofList_toList]
  have hsize : (String.ofList (before ++ cs)).toByteArray.size = utf8Length (before ++ cs) := by
    rw [String.size_toByteArray, utf8ByteSize_ofList]
  rw [htext, String.toByteArray_append, ← hsize, ByteArray.extract_append_size_left, hsize,
    String.ofList_append, String.toByteArray_append]
  refine (ByteArray.extract_append_eq_right ?_ ?_).symm
  · rw [String.size_toByteArray, utf8ByteSize_ofList]
  · rw [utf8Length_append, String.size_toByteArray, String.size_toByteArray, utf8ByteSize_ofList,
      utf8ByteSize_ofList]

/-! ### Going back to a boundary -/

namespace Bytes

/-- No more characters at the front fit in some bytes than are taken. -/
theorem utf8Length_le_take {n : Nat} {before : List Char} (h : utf8Length before ≤ n)
    (behind : List Char) : utf8Length before ≤ utf8Length (take n (before ++ behind)) := by
  induction before generalizing n with
  | nil => exact Nat.zero_le _
  | cons c before ih =>
    rw [utf8Length_cons] at h
    have hrest : utf8Length before ≤ utf8Length (take (n - c.utf8Size) (before ++ behind)) :=
      ih (by omega)
    rw [List.cons_append, take, if_pos (by omega), utf8Length_cons, utf8Length_cons]
    omega

/-- The run of characters that fits ends at the boundary that is met first on the way back. -/
theorem floor_eq (text : String) (n : Nat) : floor text.toList n = boundaryBefore text n := by
  symm
  refine Nat.findGreatest_eq_iff.mpr ⟨utf8Length_take_le n _, fun _ => ?_, fun b hb hle h => ?_⟩
  · exact isBoundary_iff.mpr ⟨take n text.toList, drop n text.toList, by simp, rfl⟩
  · obtain ⟨before, behind, htext, rfl⟩ := isBoundary_iff.mp h
    have htake := utf8Length_le_take hle behind
    rw [htext] at hb
    exact absurd htake (Nat.not_le_of_lt hb)

end Bytes

theorem isBoundary_before (text : String) (o : Nat) : IsBoundary text (boundaryBefore text o) :=
  Nat.findGreatest_spec (Nat.zero_le o) (isBoundary_iff.mpr ⟨[], text.toList, rfl, rfl⟩)

theorem boundaryBefore_le (text : String) (o : Nat) : boundaryBefore text o ≤ o :=
  Nat.findGreatest_le o

/-- There is no way to go from a boundary. -/
theorem boundaryBefore_of_isBoundary {text : String} {o : Nat} (h : IsBoundary text o) :
    boundaryBefore text o = o :=
  Nat.le_antisymm (boundaryBefore_le text o) (Nat.le_findGreatest (Nat.le_refl o) h)

theorem IsBoundary.le_size {text : String} {o : Nat} (h : IsBoundary text o) :
    o ≤ text.utf8ByteSize := by
  obtain ⟨before, behind, htext, rfl⟩ := isBoundary_iff.mp h
  rw [utf8ByteSize_eq, htext, utf8Length_append]
  exact Nat.le_add_right ..

/-- Two boundaries cut a text in three. -/
theorem exists_between_boundaries {text : String} {s e : Nat} (hs : IsBoundary text s)
    (he : IsBoundary text e) (h : s ≤ e) : ∃ before cs behind,
      text.toList = before ++ (cs ++ behind) ∧ s = utf8Length before ∧
        e = utf8Length (before ++ cs) := by
  obtain ⟨front, behind, htext, rfl⟩ := isBoundary_iff.mp he
  obtain ⟨before, rest, htext', rfl⟩ := isBoundary_iff.mp hs
  rw [htext] at htext'
  rcases List.append_eq_append_iff.mp htext' with ⟨cs, rfl, rfl⟩ | ⟨cs, rfl, rfl⟩
  · have hnil : utf8Length cs = 0 := by
      rw [utf8Length_append] at h
      omega
    refine ⟨front ++ cs, [], rest, by simpa using htext, rfl, ?_⟩
    rw [List.append_nil, utf8Length_append, hnil, Nat.add_zero]
  · exact ⟨before, cs, behind, by simpa using htext, rfl, rfl⟩

/-! ### Any range -/

namespace Document

/-- A text is cut between two of its boundaries. -/
theorem toByteArray_slice {text : String} {s e : Nat} (hs : IsBoundary text s)
    (he : IsBoundary text e) (h : s ≤ e) :
    (String.ofList (Bytes.slice text.toList s e)).toByteArray = text.toByteArray.extract s e := by
  obtain ⟨before, cs, behind, htext, rfl, rfl⟩ := exists_between_boundaries hs he h
  have hslice : Bytes.slice text.toList (utf8Length before) (utf8Length (before ++ cs)) = cs := by
    rw [Bytes.slice, htext, ← List.append_assoc, Bytes.take_utf8Length, Bytes.drop_utf8Length]
  rw [hslice, toByteArray_between htext]

/-- The text of any range is cut out at two boundaries: the end of the range, brought into the text
and back to a boundary, and its start, brought before that one and back likewise. -/
theorem sliced_textOf (text : String) (r : Range) :
    let stop := boundaryBefore text (min r.stop.offset text.utf8ByteSize)
    let start := boundaryBefore text (min r.start.offset stop)
    Sliced text r start stop := by
  intro stop start
  have hstop : IsBoundary text stop := isBoundary_before text _
  have hstart : IsBoundary text start := isBoundary_before text _
  have hordered : start ≤ stop := Nat.le_trans (boundaryBefore_le text _) (Nat.min_le_right _ _)
  have htext : (ofString text).textOf r = .ofList (Bytes.slice text.toList start stop) := by
    have hsize : (ofString text).size = text.utf8ByteSize := (utf8ByteSize_eq text).symm
    simp only [textOf, chars, hsize]
    change String.ofList (Bytes.slice text.toList (Bytes.floor text.toList
      (min r.start.offset (Bytes.floor text.toList _))) (Bytes.floor text.toList _)) = _
    rw [Bytes.floor_eq, Bytes.floor_eq]
  have hbytes := toByteArray_slice hstart hstop hordered
  rw [← htext] at hbytes
  refine ⟨hordered, hstop.le_size, hstart, hstop, hbytes, fun hs he => ?_⟩
  have hstop_eq : stop = r.stop.offset :=
    (congrArg (boundaryBefore text) (Nat.min_eq_left he.le_size)).trans
      (boundaryBefore_of_isBoundary he)
  rcases Nat.le_total r.start.offset r.stop.offset with hle | hle
  · have hmin : min r.start.offset stop = r.start.offset := by omega
    have hstart_eq : start = r.start.offset :=
      (congrArg (boundaryBefore text) hmin).trans (boundaryBefore_of_isBoundary hs)
    rw [hbytes, hstart_eq, hstop_eq]
  · -- An inverted range has no bytes, and neither has the slice at its end.
    have hmin : min r.start.offset stop = stop := by omega
    have hstart_eq : start = stop :=
      (congrArg (boundaryBefore text) hmin).trans (boundaryBefore_of_isBoundary hstop)
    rw [hbytes, hstart_eq, ByteArray.extract_same, eq_comm, ByteArray.extract_eq_empty_iff]
    exact Nat.le_trans (Nat.min_le_left _ _) hle

example : (ofString "aéb").textOf ⟨⟨0, 2, 2⟩, ⟨0, 2, 3⟩⟩ = "é" := by decide

end Document

end SandboxProfile
