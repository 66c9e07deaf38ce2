import SandboxProfile.Proofs.Lexemes

/-!
# Line breaks

Nothing but a block comment reaches over a line break, so a lexeme in front of one is the lexeme
that it is at the end of a text (`scan_break`); only a hash sign that stands alone is told apart.
Where no comment is left open, the text before a line feed and the text behind it are cut into
lexemes independently (`ofChars_append_lineFeed`).
-/

namespace SandboxProfile

theorem eq_of_isLineBreak {b : Char} (h : isLineBreak b = true) : b = '\n' ∨ b = '\r' := by
  simpa [isLineBreak] using h

section Runs

variable {p : Char → Bool} {b : Char}

theorem stops_of_isLineBreak (hb : isLineBreak b = true) (hfeed : p '\n' = false)
    (hreturn : p '\r' = false) : p b = false := by
  rcases eq_of_isLineBreak hb with rfl | rfl
  · exact hfeed
  · exact hreturn

theorem takeWhile_break (h : p b = false) (cs ds : List Char) :
    (cs ++ b :: ds).takeWhile p = cs.takeWhile p := by
  induction cs with
  | nil =>
    rw [List.nil_append, List.takeWhile_cons_of_neg (by simp [h])]
    rfl
  | cons c cs ih => rw [List.cons_append, List.takeWhile_cons, List.takeWhile_cons, ih]

theorem dropWhile_break (h : p b = false) (cs ds : List Char) :
    (cs ++ b :: ds).dropWhile p = cs.dropWhile p ++ b :: ds := by
  induction cs with
  | nil =>
    rw [List.nil_append, List.dropWhile_cons_of_neg (by simp [h])]
    rfl
  | cons c cs ih =>
    rw [List.cons_append, List.dropWhile_cons, List.dropWhile_cons, ih]
    split <;> rfl

end Runs

/-! ### Trivia -/

/-- A comment that is closed does not depend on what follows it. -/
theorem Comment.scanFrom_append {inner : Nat} {before cs : List Char}
    (h : (scanFrom inner before cs).closed = true) (ds : List Char) :
    scanFrom inner before (cs ++ ds) =
      ⟨(scanFrom inner before cs).text, true, (scanFrom inner before cs).rest ++ ds⟩ := by
  fun_induction scanFrom inner before cs with
  | case1 before cs => rfl
  | case2 before cs inner ih => exact ih h
  | case3 inner before cs ih => exact ih h
  | case4 inner before c cs hclose hopen ih =>
    have hcs : cs ≠ [] := by
      intro h
      subst h
      cases h
    rw [← ih h, List.cons_append, scanFrom]
    · intro ds' hc hds
      cases cs with
      | nil => contradiction
      | cons d cs => exact hclose cs hc (by simp_all)
    · intro ds' hc hds
      cases cs with
      | nil => contradiction
      | cons d cs => exact hopen cs hc (by simp_all)
  | case5 inner before => cases h

theorem Piece.scan?_carriageReturn {cs : List Char} (h : ∀ rest, cs ≠ '\n' :: rest) :
    scan? ('\r' :: cs) = some ⟨carriageReturn, true, cs⟩ := by
  unfold scan?
  simp only [Char.reduceEq, if_false, if_true]

/-- A line break makes no piece of what is none. -/
theorem Piece.scan?_break {b c : Char} {cs : List Char} (hb : isLineBreak b = true)
    (h : scan? (c :: cs) = none) (ds : List Char) : scan? (c :: (cs ++ b :: ds)) = none := by
  unfold scan? at h ⊢
  simp only at h ⊢
  split at h
  · cases h
  split at h
  · cases h
  split at h
  · cases h
  split at h
  · split at h <;> cases h
  split at h
  · cases h
  next hspace htab hline hreturn hsemi =>
  simp only [hspace, htab, hline, hreturn, hsemi, if_false]
  split at h
  next hhash =>
    rw [if_pos hhash]
    cases cs with
    | nil => rcases eq_of_isLineBreak hb with rfl | rfl <;> rfl
    | cons d cs =>
      split at h
      · cases h
      next hbar =>
        split
        next heq =>
          obtain ⟨rfl, -⟩ := List.cons.inj heq
          exact absurd rfl (hbar cs)
        next => rfl
  next hhash => rw [if_neg hhash]

/-! ### Lexemes -/

/-- What a fault at the end of a text is if a character follows. -/
def LexicalFault.before (b : Char) : LexicalFault → LexicalFault
  | hashAtEnd => strayHash b
  | fault => fault

/-- What a lexeme at the end of a text is if a line break and more follow. -/
def Lexeme.before (b : Char) (ds : List Char) (l : Lexeme) : Lexeme :=
  ⟨l.kind, l.text, l.items, l.fault?.map (·.before b), l.rest ++ b :: ds⟩

section Break

variable {b : Char} (hb : isLineBreak b = true)

include hb

theorem hexDigits_break (width : StringLiteral.Width) (cs ds : List Char) :
    StringLiteral.hexDigits width (cs ++ b :: ds) = StringLiteral.hexDigits width cs := by
  have hstop : Hex.isDigit b = false := stops_of_isLineBreak hb rfl rfl
  unfold StringLiteral.hexDigits
  generalize width.digits = n
  induction n generalizing cs with
  | zero => rfl
  | succ n ih =>
    cases cs with
    | nil =>
      rw [List.nil_append, List.take_succ_cons, List.takeWhile_cons_of_neg (by simp [hstop])]
      rfl
    | cons c cs =>
      rw [List.cons_append, List.take_succ_cons, List.take_succ_cons, List.takeWhile_cons,
        List.takeWhile_cons, ih]

omit hb in
theorem length_hexDigits_le (width : StringLiteral.Width) (cs : List Char) :
    (StringLiteral.hexDigits width cs).length ≤ cs.length :=
  ((List.takeWhile_sublist _).trans (List.take_sublist _ _)).length_le

/-- A string ends before a line break at the latest. -/
theorem StringLiteral.scanFrom_break (before : List Item) (cs ds : List Char) :
    scanFrom before (cs ++ b :: ds) =
      ⟨(scanFrom before cs).items, (scanFrom before cs).ending,
        (scanFrom before cs).rest ++ b :: ds⟩ := by
  have hends (items : List Item) :
      scanFrom items (b :: ds) = ⟨items.reverse, .unclosed, b :: ds⟩ := by
    rw [scanFrom.eq_def]
    rcases eq_of_isLineBreak hb with rfl | rfl <;> rfl
  have hbackslash (items : List Item) :
      scanFrom items ('\\' :: b :: ds) = ⟨items.reverse, .afterBackslash, b :: ds⟩ := by
    rw [scanFrom.eq_def]
    rcases eq_of_isLineBreak hb with rfl | rfl <;> rfl
  fun_induction scanFrom before cs with
  | case1 before => exact hends before
  | case2 before cs =>
    rw [List.cons_append, scanFrom.eq_def]
    rfl
  | case3 before c cs hquote hline =>
    rw [List.cons_append, scanFrom.eq_def]
    simp only [hquote, hline, if_false, if_true]
  | case4 before hquote hline => exact hbackslash before
  | case5 before d cs hbreak hquote hline =>
    rw [List.cons_append, List.cons_append, scanFrom.eq_def]
    simp only [hquote, hline, hbreak, Bool.false_eq_true, if_false, if_true]
  | case6 before d cs hbreak width hwidth digits hquote hline ih =>
    rw [List.cons_append, List.cons_append, scanFrom.eq_def, ← ih]
    simp only [hquote, hline, hbreak, hwidth, Bool.false_eq_true, if_false, if_true]
    rw [hexDigits_break hb, List.drop_append_of_le_length (length_hexDigits_le _ _)]
  | case7 before d cs hbreak hwidth hquote hline ih =>
    rw [List.cons_append, List.cons_append, scanFrom.eq_def, ← ih]
    simp only [hquote, hline, hbreak, hwidth, Bool.false_eq_true, if_false, if_true]
  | case8 before c cs hquote hline hback ih =>
    rw [List.cons_append, scanFrom.eq_def, ← ih]
    simp only [hquote, hline, hback, Bool.false_eq_true, if_false]

theorem RawString.scan_break (cs ds : List Char) :
    scan (cs ++ b :: ds) = ⟨(scan cs).text, (scan cs).closed, (scan cs).rest ++ b :: ds⟩ := by
  have hstop : isContent b = false := stops_of_isLineBreak hb rfl rfl
  unfold scan
  rw [takeWhile_break hstop, dropWhile_break hstop]
  cases cs.dropWhile isContent with
  | nil => rcases eq_of_isLineBreak hb with rfl | rfl <;> rfl
  | cons c rest =>
    by_cases hc : c = '"'
    · subst hc
      rfl
    · rw [List.cons_append]
      split
      next heq => exact absurd (List.cons.inj heq).1 hc
      next =>
        split
        next heq => exact absurd (List.cons.inj heq).1 hc
        next => rfl

namespace Lexeme

theorem startsWithDigit_break (cs ds : List Char) :
    startsWithDigit (cs ++ b :: ds) = startsWithDigit cs := by
  have hstop : Char.isDigit b = false := stops_of_isLineBreak hb rfl rfl
  cases cs with
  | nil => exact hstop
  | cons c cs => rfl

theorem quoted_break (cs ds : List Char) : quoted (cs ++ b :: ds) = (quoted cs).before b ds := by
  simp only [quoted, before, StringLiteral.scan, StringLiteral.scanFrom_break hb]
  by_cases hclosed : (StringLiteral.scanFrom [] cs).ending = .closed
  · simp [hclosed]
  · simp [hclosed, LexicalFault.before]

theorem raw_break (cs ds : List Char) : raw (cs ++ b :: ds) = (raw cs).before b ds := by
  simp only [raw, before, RawString.scan_break hb]
  cases (RawString.scan cs).closed <;> rfl

theorem hash_break (cs ds : List Char) : hash (cs ++ b :: ds) = (hash cs).before b ds := by
  cases cs with
  | nil => rcases eq_of_isLineBreak hb with rfl | rfl <;> rfl
  | cons c cs =>
    rw [List.cons_append, hash, hash]
    split
    · rfl
    split
    · rfl
    split
    · exact raw_break hb cs ds
    · rfl

theorem integer_break (c : Char) (cs ds : List Char) :
    integer c (cs ++ b :: ds) = (integer c cs).before b ds := by
  have hstop : Char.isDigit b = false := stops_of_isLineBreak hb rfl rfl
  unfold integer IntegerLiteral.scan
  rw [takeWhile_break hstop, dropWhile_break hstop]
  simp only
  split <;> rfl

/-- A lexeme ends before a line break at the latest, and means what it does at the end of a text. -/
theorem scan_break (c : Char) (cs ds : List Char) :
    scan (c :: (cs ++ b :: ds)) = (scan (c :: cs)).before b ds := by
  have hstop : Symbol.isContinue b = false := stops_of_isLineBreak hb rfl rfl
  rw [scan, scan, startsWithDigit_break hb]
  split
  · rfl
  split
  · rfl
  split
  · exact quoted_break hb cs ds
  split
  · exact hash_break hb cs ds
  split
  · exact integer_break hb c cs ds
  split
  · rw [takeWhile_break hstop, dropWhile_break hstop]
    rfl
  · rfl

end Lexeme

end Break

/-- Whether a lexeme `l`, taken from a text with a line feed and `ds` behind it, ends in the text
and means what the lexeme `m` of the text alone does. Only what is wrong with it may differ. -/
def Lexeme.Ends (l m : Lexeme) (ds : List Char) : Prop :=
  l.kind = m.kind ∧ l.rest = m.rest ++ '\n' :: ds

theorem Lexeme.ends_scan (c : Char) (cs ds : List Char) :
    (scan (c :: (cs ++ '\n' :: ds))).Ends (scan (c :: cs)) ds := by
  rw [scan_break rfl]
  exact ⟨rfl, rfl⟩

/-- No item of a string stands at the end of a text as a hash sign does. -/
theorem StringLiteral.Item.before_fault? (b : Char) (item : Item) :
    item.fault?.map (·.before b) = item.fault? := by
  cases item with
  | plain c => rfl
  | short c =>
    rw [fault?]
    split <;> rfl
  | hex width digits =>
    rw [fault?]
    split
    · rfl
    split <;> rfl

theorem Lexeme.faults_before (b : Char) (ds : List Char) (l : Lexeme) :
    (l.before b ds).faults = l.faults.map (·.before b) := by
  have hitems : (l.items.filterMap (·.fault?)).map (·.before b) =
      l.items.filterMap (·.fault?) := by
    rw [List.map_filterMap]
    exact congrArg (l.items.filterMap ·) (funext (StringLiteral.Item.before_fault? b))
  rw [faults, faults, List.map_append, hitems]
  cases h : l.fault? <;> simp [before, h]

/-! ### Texts -/

/-- Texts that stand on lines of their own. -/
theorem toList_join_lines (texts : List String) :
    (String.join (texts.map (· ++ "\n"))).toList = texts.flatMap fun t => t.toList ++ ['\n'] := by
  induction texts with
  | nil => rfl
  | cons t ts ih =>
    rw [List.map_cons, String.join_cons, String.toList_append, String.toList_append, ih]
    rfl

namespace Lexed

/-- A carriage return at the end of a text takes the line feed behind it with it. -/
theorem ofChars_carriageReturn {cs : List Char} (h : ∀ rest, cs ≠ '\n' :: rest) (ds : List Char) :
    ofChars ('\r' :: (cs ++ '\n' :: ds)) = ofChars (cs ++ '\n' :: ds) := by
  cases cs with
  | nil =>
    rw [List.nil_append, ofChars_lineFeed]
    exact ofChars_of_piece (s := ⟨.bothReturns, true, ds⟩) rfl rfl
  | cons c cs =>
    apply ofChars_of_piece (Piece.scan?_carriageReturn ?_) rfl
    intro rest heq
    obtain ⟨rfl, -⟩ := List.cons.inj heq
    exact h cs rfl

theorem ofChars_lineComment (cs ds : List Char) :
    ofChars (';' :: (cs ++ '\n' :: ds)) =
      ofChars (cs.dropWhile (!isLineBreak ·) ++ '\n' :: ds) := by
  rw [← dropWhile_break (by decide)]
  exact ofChars_of_piece (s := ⟨_, true, _⟩) rfl rfl

theorem ofChars_blockComment {cs : List Char} (h : (Comment.scan cs).closed = true)
    (ds : List Char) :
    ofChars ('#' :: '|' :: (cs ++ ds)) = ofChars ((Comment.scan cs).rest ++ ds) := by
  have hscan : Comment.scan (cs ++ ds) = ⟨_, true, _⟩ := Comment.scanFrom_append h ds
  have hpiece : Piece.scan? ('#' :: '|' :: (cs ++ ds)) = some ⟨_, true, _⟩ :=
    congrArg (fun c : Comment.Scanned =>
      some (Piece.Scanned.mk (.blockComment (String.ofList c.text)) c.closed c.rest)) hscan
  exact ofChars_of_piece hpiece rfl

/-- A piece of trivia that is complete is passed over in the same way before a line feed. -/
theorem ofChars_piece_lineFeed {cs : List Char} {s : Piece.Scanned} (h : Piece.scan? cs = some s)
    (hs : s.closed = true) (ds : List Char) :
    ofChars (cs ++ '\n' :: ds) = ofChars (s.rest ++ '\n' :: ds) := by
  unfold Piece.scan? at h
  split at h
  · cases h
  next c cs =>
  rw [List.cons_append]
  split at h
  next hc =>
    cases h
    rw [hc, ofChars_space, ← ofChars_dropWhile ' ' (.inl rfl), dropWhile_break rfl]
  split at h
  next hc =>
    cases h
    rw [hc, ofChars_tab, ← ofChars_dropWhile '\t' (.inr rfl), dropWhile_break rfl]
  split at h
  next hc =>
    cases h
    rw [hc, ofChars_lineFeed]
  split at h
  next hc =>
    subst hc
    split at h
    next rest =>
      cases h
      exact ofChars_of_piece (s := ⟨.bothReturns, true, rest ++ '\n' :: ds⟩) rfl rfl
    next hcs =>
      cases h
      exact ofChars_carriageReturn (fun rest heq => hcs rest heq) ds
  split at h
  next hc =>
    cases h
    rw [hc, ofChars_lineComment]
  split at h
  next hc =>
    subst hc
    split at h
    next rest =>
      cases h
      exact ofChars_blockComment hs _
    · cases h
  · cases h

/-- If a text leaves no comment open, its lexemes come first and those behind the line feed follow,
with the same faults but for a hash sign that ended the text. -/
theorem ofChars_append_lineFeed {cs : List Char}
    (h : .unterminatedBlockComment ∉ (ofChars cs).faults) (ds : List Char) :
    ofChars (cs ++ '\n' :: ds) = ⟨(ofChars cs).kinds ++ (ofChars ds).kinds,
      (ofChars cs).faults.map (·.before '\n') ++ (ofChars ds).faults⟩ := by
  fun_induction ofChars cs with
  | case1 cs s hs hclosed ih =>
    rw [ofChars_piece_lineFeed hs hclosed]
    exact ih h
  | case2 cs s hs hopen => exact absurd (List.mem_singleton.mpr rfl) h
  | case3 hs =>
    rw [List.nil_append, ofChars_lineFeed]
    rfl
  | case4 c cs hs ih =>
    have hmore : .unterminatedBlockComment ∉ (ofChars (Lexeme.scan (c :: cs)).rest).faults :=
      fun hmem => h (List.mem_append_right _ hmem)
    have hrest : ((Lexeme.scan (c :: cs)).before '\n' ds).rest =
        (Lexeme.scan (c :: cs)).rest ++ '\n' :: ds := rfl
    rw [List.cons_append, ofChars_of_lexeme (Piece.scan?_break rfl hs ds), Lexeme.scan_break rfl,
      hrest, ih hmore, cons, cons, Lexeme.faults_before, List.map_append, List.append_assoc]
    rfl

theorem kinds_lineFeed {cs : List Char} (h : .unterminatedBlockComment ∉ (ofChars cs).faults)
    (ds : List Char) :
    (ofChars (cs ++ '\n' :: ds)).kinds = (ofChars cs).kinds ++ (ofChars ds).kinds := by
  rw [ofChars_append_lineFeed h]

end Lexed

end SandboxProfile
