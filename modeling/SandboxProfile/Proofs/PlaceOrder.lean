import SandboxProfile.Proofs.Lines

/-!
# The order of places

Positions of one text are compared by their offsets alone. That is the order in which they are read,
by lines and on a line by columns, because every character moves a place on in both ways
(`ordered_ofString`).
-/

namespace SandboxProfile

/-! ### Reading order -/

namespace Position

/-- Comparison by line, and on one line by column. -/
def readingOrder (p q : Position) : Ordering :=
  (compare p.line q.line).then (compare p.column q.column)

theorem readingOrder_eq_lt_iff {p q : Position} :
    p.readingOrder q = .lt ↔ p.line < q.line ∨ p.line = q.line ∧ p.column < q.column := by
  simp [readingOrder, Ordering.then_eq_lt, Nat.compare_eq_lt]

theorem readingOrder_swap (p q : Position) : (p.readingOrder q).swap = q.readingOrder p := by
  simp [readingOrder, Ordering.swap_then, Nat.compare_swap]

theorem order_swap (p q : Position) : (p.order q).swap = q.order p := Nat.compare_swap _ _

theorem readingOrder_self (p : Position) : p.readingOrder p = .eq := by simp [readingOrder]

theorem readingOrder_trans {p q r : Position} (h : p.readingOrder q = .lt)
    (h' : q.readingOrder r = .lt) : p.readingOrder r = .lt := by
  rw [readingOrder_eq_lt_iff] at h h' ⊢
  omega

/-- A line feed moves a place to a line below, any other character to a column behind. -/
theorem readingOrder_next (p : Position) (c : Char) : p.readingOrder (p.next c) = .lt := by
  rw [readingOrder_eq_lt_iff, next]
  split
  · exact .inl (Nat.lt_succ_self _)
  · exact .inr ⟨rfl, Nat.lt_add_of_pos_right (utf16Size_pos c)⟩

theorem readingOrder_after (p : Position) (c : Char) (cs : List Char) :
    p.readingOrder (p.after (c :: cs)) = .lt := by
  induction cs generalizing p c with
  | nil => exact readingOrder_next p c
  | cons d cs ih => exact readingOrder_trans (readingOrder_next p c) (ih (p.next c) d)

/-- Of two places that are reached one from the other, both orders say the same. -/
theorem order_after (p : Position) (cs : List Char) :
    p.order (p.after cs) = p.readingOrder (p.after cs) := by
  cases cs with
  | nil => rw [after_nil, readingOrder_self, order, Nat.compare_eq_eq]
  | cons c cs =>
    have hpos := c.utf8Size_pos
    rw [readingOrder_after, order, offset_after, utf8Length_cons, Nat.compare_eq_lt]
    omega

end Position

/-! ### Cuts between characters -/

namespace Bytes

/-- Less than a character is not taken. -/
theorem take_inside {k : Nat} {c : Char} (h : k < c.utf8Size) (cs ds : List Char) :
    take (utf8Length cs + k) (cs ++ c :: ds) = cs := by
  induction cs with
  | nil => rw [List.nil_append, take, if_neg (by simpa using h)]
  | cons d cs ih =>
    have hrest : d.utf8Size + utf8Length cs + k - d.utf8Size = utf8Length cs + k := by omega
    rw [List.cons_append, utf8Length_cons, take, if_pos (by omega), hrest, ih]

theorem floor_between (cs ds : List Char) : floor (cs ++ ds) (utf8Length cs) = utf8Length cs := by
  rw [floor, take_utf8Length]

end Bytes

namespace Document

/-- Whether an offset is a boundary of characters. -/
def HasBoundary (d : Document) (o : Nat) : Prop :=
  ∃ before behind, d.chars = before ++ behind ∧ o = utf8Length before

/-- An offset in the text has the position behind the characters that it takes. -/
theorem position?_eq_some_iff {text : String} {o : Nat} {p : Position} :
    (ofString text).position? o = some p ↔
      o ≤ (ofString text).size ∧ p = Position.origin.after (Bytes.take o text.toList) := by
  have hsplit : text.toList = Bytes.take o text.toList ++ Bytes.drop o text.toList :=
    (Bytes.take_append_drop o text.toList).symm
  have hfloor : Bytes.floor (ofString text).chars
      (Bytes.floor (ofString text).chars o) = Bytes.floor (ofString text).chars o := by
    change Bytes.floor text.toList (utf8Length (Bytes.take o text.toList)) = _
    conv => lhs; arg 1; rw [hsplit]
    exact Bytes.floor_between _ _
  have hle : Bytes.floor (ofString text).chars o ≤ o := Bytes.utf8Length_take_le o _
  have hafter := position?_after hsplit
  have hoffset : (Position.origin.after (Bytes.take o text.toList)).offset =
      Bytes.floor (ofString text).chars o := by
    rw [Position.offset_after]
    exact Nat.zero_add _
  rw [hoffset] at hafter
  by_cases hsize : (ofString text).size < o
  · rw [position?, if_pos hsize]
    constructor
    · intro h
      cases h
    · exact fun h => absurd h.1 (Nat.not_le_of_lt hsize)
  · have hsame : (ofString text).position? o =
        (ofString text).position? (Bytes.floor (ofString text).chars o) := by
      simp only [position?, hfloor]
      rw [if_neg hsize, if_neg (by omega)]
    rw [hsame, hafter, Option.some_inj]
    exact ⟨fun h => ⟨Nat.le_of_not_lt hsize, h.symm⟩, fun h => h.2.symm⟩

theorem position?_eq_none_iff {text : String} {o : Nat} :
    (ofString text).position? o = none ↔ (ofString text).size < o := by
  rw [Option.eq_none_iff_forall_ne_some]
  constructor
  · intro h
    apply Nat.lt_of_not_le
    intro hle
    exact h _ (position?_eq_some_iff.mpr ⟨hle, rfl⟩)
  · intro h p hp
    exact Nat.not_le_of_lt h (position?_eq_some_iff.mp hp).1

/-- One of two positions of a text is reached from the other. -/
theorem exists_between {text : String} {o₁ o₂ : Nat} {p q : Position}
    (hp : (ofString text).position? o₁ = some p) (hq : (ofString text).position? o₂ = some q) :
    ∃ cs, q = p.after cs ∨ p = q.after cs := by
  obtain ⟨-, rfl⟩ := position?_eq_some_iff.mp hp
  obtain ⟨-, rfl⟩ := position?_eq_some_iff.mp hq
  have hfront (o : Nat) : Bytes.take o text.toList <+: text.toList :=
    ⟨Bytes.drop o text.toList, Bytes.take_append_drop o text.toList⟩
  rcases List.prefix_or_prefix_of_prefix (hfront o₁) (hfront o₂) with ⟨cs, hcs⟩ | ⟨cs, hcs⟩
  · exact ⟨cs, .inl (by rw [← hcs, Position.after_append])⟩
  · exact ⟨cs, .inr (by rw [← hcs, Position.after_append])⟩

/-- Offsets and reading put the positions of a text in one order. -/
theorem order_eq_readingOrder {text : String} {o₁ o₂ : Nat} {p q : Position}
    (hp : (ofString text).position? o₁ = some p) (hq : (ofString text).position? o₂ = some q) :
    p.order q = p.readingOrder q := by
  obtain ⟨cs, rfl | rfl⟩ := exists_between hp hq
  · exact p.order_after cs
  · rw [← Position.order_swap, ← Position.readingOrder_swap, q.order_after cs]

theorem position?_boundary {text : String} {o : Nat} (h : (ofString text).HasBoundary o) :
    ∃ p, (ofString text).position? o = some p ∧ p.offset = o := by
  obtain ⟨before, behind, htext, rfl⟩ := h
  have hoffset : (Position.origin.after before).offset = utf8Length before := by
    rw [Position.offset_after]
    exact Nat.zero_add _
  have hafter := position?_after htext
  rw [hoffset] at hafter
  exact ⟨_, hafter, hoffset⟩

/-- An offset inside a character has the position of the character's first byte. -/
theorem position?_inside {text : String} {before behind : List Char} {c : Char} {k : Nat}
    (htext : text.toList = before ++ c :: behind) (hk : k < c.utf8Size) :
    (ofString text).position? (utf8Length before + k) =
      (ofString text).position? (utf8Length before) := by
  have hsize := size_between htext
  have htake : Bytes.take (utf8Length before + k) text.toList =
      Bytes.take (utf8Length before) text.toList := by
    rw [htext, Bytes.take_inside hk, Bytes.take_utf8Length]
  rw [utf8Length_cons] at hsize
  ext p
  rw [position?_eq_some_iff, position?_eq_some_iff, htake]
  exact and_congr_left fun _ => iff_of_true (by omega) (by omega)

theorem position?_size (text : String) :
    (ofString text).position? (ofString text).size = some (ofString text).endPosition := by
  have hafter := position?_after (List.append_nil text.toList).symm
  rwa [← endPosition_ofString] at hafter

theorem countP_of_position? {text : String} {o : Nat} {p : Position}
    (h : (ofString text).position? o = some p) :
    (ofString text).lineStarts.countP (· ≤ p.offset) = p.line + 1 := by
  obtain ⟨-, rfl⟩ := position?_eq_some_iff.mp h
  obtain ⟨above, line, -, -, hafter⟩ := exists_line (Bytes.take o text.toList)
  rw [hafter]
  exact countP_lineStarts (Bytes.take_append_drop o text.toList).symm

/-- No position lies behind the end. -/
theorem readingOrder_endPosition {text : String} {o : Nat} {p : Position}
    (h : (ofString text).position? o = some p) :
    p = (ofString text).endPosition ∨ p.readingOrder (ofString text).endPosition = .lt := by
  obtain ⟨-, rfl⟩ := position?_eq_some_iff.mp h
  have hend : (ofString text).endPosition =
      (Position.origin.after (Bytes.take o text.toList)).after (Bytes.drop o text.toList) := by
    rw [endPosition_ofString, ← Position.after_append, Bytes.take_append_drop]
  rw [hend]
  cases Bytes.drop o text.toList with
  | nil => exact .inl rfl
  | cons c cs => exact .inr (Position.readingOrder_after _ c cs)

/-- The positions of a document are in the order of their offsets. -/
structure Ordered (d : Document) : Prop where
  defined : ∀ o, d.position? o = none ↔ d.size < o
  inside : ∀ before c behind k, d.chars = before ++ c :: behind → k < c.utf8Size →
    d.position? (utf8Length before + k) = d.position? (utf8Length before)
  atBoundary : ∀ o, d.HasBoundary o → ∃ p, d.position? o = some p ∧ p.offset = o
  /-- The line of a position is the last one that begins at or before it, and there is one. -/
  counted : ∀ o p, d.position? o = some p → d.lineStarts.countP (· ≤ p.offset) = p.line + 1
  increasing : ∀ o₁ o₂ p q, d.HasBoundary o₁ → d.HasBoundary o₂ → o₁ < o₂ →
    d.position? o₁ = some p → d.position? o₂ = some q → p.readingOrder q = .lt
  agreeing : ∀ o₁ o₂ p q, d.position? o₁ = some p → d.position? o₂ = some q →
    p.order q = p.readingOrder q
  ended : d.position? d.size = some d.endPosition
  greatest : ∀ o p, d.position? o = some p → p = d.endPosition ∨ p.readingOrder d.endPosition = .lt

/-- A text has positions for the offsets up to its end, an offset inside a character having that of
its first byte. On boundaries the position grows with the offset by line and column, so that
offsets alone compare positions, and none lies behind the end. -/
theorem ordered_ofString (text : String) : (ofString text).Ordered := by
  constructor
  · exact fun o => position?_eq_none_iff
  · exact fun before c behind k htext hk => position?_inside htext hk
  · exact fun o h => position?_boundary h
  · exact fun o p h => countP_of_position? h
  · intro o₁ o₂ p q h₁ h₂ hlt hp hq
    obtain ⟨p', hp', rfl⟩ := position?_boundary h₁
    obtain ⟨q', hq', rfl⟩ := position?_boundary h₂
    obtain rfl : p = p' := Option.some.inj (hp.symm.trans hp')
    obtain rfl : q = q' := Option.some.inj (hq.symm.trans hq')
    rw [← order_eq_readingOrder hp hq, Position.order, Nat.compare_eq_lt]
    exact hlt
  · exact fun o₁ o₂ p q hp hq => order_eq_readingOrder hp hq
  · exact position?_size text
  · exact fun o p h => readingOrder_endPosition h

/-- Inside the second character, and behind the end. -/
example : [1, 3, 6, 8].map ((ofString "a😀\nb").position? ·) =
    [some ⟨0, 1, 1⟩, some ⟨0, 1, 1⟩, some ⟨1, 0, 6⟩, none] := by decide +kernel

end Document

end SandboxProfile
