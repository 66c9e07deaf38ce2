import SandboxProfile.Proofs.Lexemes
import SandboxProfile.Source.Document

/-!
# Tokens partition their text

Every scan gives back, as the text of what it found, the characters it took, and leaves the others.
So the tokens of a text, each with its trivia, stand end to end and cover it, and what a token says
of its text and its ranges is what stands there (`partition_tokenize`).
-/

namespace SandboxProfile

/-! ### Scans lose nothing -/

theorem replicate_takeWhile (b : Char) (cs : List Char) :
    List.replicate (cs.takeWhile (· = b)).length b = cs.takeWhile (· = b) := by
  symm
  rw [List.eq_replicate_iff]
  refine ⟨rfl, fun c hc => ?_⟩
  simpa using List.all_eq_true.mp List.all_takeWhile c hc

/-- A run of one character, counted from its second one on. -/
theorem replicate_run (b : Char) (cs : List Char) :
    List.replicate (1 + (cs.takeWhile (· = b)).length) b ++ cs.dropWhile (· = b) = b :: cs := by
  rw [Nat.add_comm, List.replicate_succ, List.cons_append, replicate_takeWhile,
    List.takeWhile_append_dropWhile]

theorem Piece.scan?_text {cs : List Char} {s : Piece.Scanned} (h : Piece.scan? cs = some s) :
    s.piece.chars ++ s.rest = cs := by
  unfold Piece.scan? at h
  split at h
  · cases h
  next c cs =>
    split at h
    next hc =>
      cases h
      subst hc
      exact replicate_run ' ' cs
    split at h
    next hc =>
      cases h
      subst hc
      exact replicate_run '\t' cs
    split at h
    next hc =>
      cases h
      subst hc
      rfl
    split at h
    next hc =>
      subst hc
      split at h <;> cases h <;> rfl
    split at h
    next hc =>
      cases h
      simp [Piece.chars]
    split at h
    next hc =>
      subst hc
      split at h
      next rest =>
        cases h
        simpa [Piece.chars] using Comment.scan_text rest
      next => cases h
    · cases h

theorem Trivia.scan_text (trailing : Bool) (cs : List Char) :
    Trivia.chars (Trivia.scan trailing cs).pieces ++ (Trivia.scan trailing cs).rest = cs := by
  fun_induction Trivia.scan trailing cs with
  | case1 => rfl
  | case2 cs s h _ =>
    simp only [Trivia.chars, List.flatMap_cons, List.flatMap_nil, List.append_nil]
    exact Piece.scan?_text h
  | case3 cs s h _ more ih =>
    simp only [Trivia.chars, List.flatMap_cons, List.append_assoc] at ih ⊢
    rw [ih]
    exact Piece.scan?_text h

theorem StringLiteral.hexDigits_append_drop (width : Width) (cs : List Char) :
    hexDigits width cs ++ cs.drop (hexDigits width cs).length = cs := by
  have hprefix : hexDigits width cs <+: cs :=
    (List.takeWhile_prefix _).trans (List.take_prefix _ _)
  exact List.prefix_iff_eq_append.mp hprefix

theorem StringLiteral.Width.letter_of_ofLetter? {c : Char} {width : Width}
    (h : Width.ofLetter? c = some width) : width.letter = c := by
  unfold Width.ofLetter? at h
  split at h
  next hc =>
    cases h
    exact hc.symm
  split at h
  next hc =>
    cases h
    exact hc.symm
  next => cases h

theorem StringLiteral.scanFrom_text (before : List Item) (cs : List Char) :
    chars (scanFrom before cs).items ++ ((scanFrom before cs).ending.chars ++
      (scanFrom before cs).rest) = chars before.reverse ++ cs := by
  fun_induction scanFrom before cs with
  | case1 before => simp [Ending.chars]
  | case2 before cs => simp [Ending.chars]
  | case3 before c cs => simp [Ending.chars]
  | case4 before => simp [Ending.chars]
  | case5 before d ds => simp [Ending.chars]
  | case6 before d ds _ width hw digits _ _ ih =>
    rw [ih]
    simp [chars, Item.chars, Width.letter_of_ofLetter? hw, digits, hexDigits_append_drop]
  | case7 before d ds _ _ _ _ ih =>
    rw [ih]
    simp [chars, Item.chars]
  | case8 before c cs _ _ _ ih =>
    rw [ih]
    simp [chars, Item.chars]

theorem RawString.scan_text (cs : List Char) :
    (RawString.scan cs).text ++ ((if (RawString.scan cs).closed then ['"'] else []) ++
      (RawString.scan cs).rest) = cs := by
  have h := List.takeWhile_append_dropWhile (p := RawString.isContent) (l := cs)
  unfold RawString.scan
  split
  next rest hd =>
    rw [hd] at h
    exact h
  next => exact h

namespace Lexeme

theorem quoted_text (cs : List Char) : (quoted cs).text ++ (quoted cs).rest = '"' :: cs := by
  have h := StringLiteral.scanFrom_text [] cs
  simp only [quoted, StringLiteral.scan, List.cons_append, List.append_assoc]
  rw [h]
  rfl

theorem raw_text (cs : List Char) : (raw cs).text ++ (raw cs).rest = '#' :: '"' :: cs := by
  have h := RawString.scan_text cs
  simp only [raw, List.cons_append, List.nil_append, List.append_assoc]
  rw [h]

theorem hash_text (cs : List Char) : (hash cs).text ++ (hash cs).rest = '#' :: cs := by
  unfold hash
  split
  · rfl
  split
  · rfl
  split
  · rfl
  split
  next hc =>
    subst hc
    exact raw_text _
  next => rfl

theorem integer_text (c : Char) (cs : List Char) :
    (integer c cs).text ++ (integer c cs).rest = c :: cs := by
  unfold integer IntegerLiteral.scan
  simp only
  split <;> simp [simple]

/-- A lexeme is the text in front of what it leaves. -/
theorem scan_text (cs : List Char) : (scan cs).text ++ (scan cs).rest = cs := by
  unfold scan
  split
  · rfl
  next c cs =>
    split
    next hc =>
      subst hc
      rfl
    split
    next hc =>
      subst hc
      rfl
    split
    next hc =>
      subst hc
      exact quoted_text cs
    split
    next hc =>
      subst hc
      exact hash_text cs
    split
    next => exact integer_text c cs
    split
    next => simp [simple]
    next => rfl

theorem text_ne_nil {cs : List Char} (h : (scan cs).kind ≠ .endOfFile) : (scan cs).text ≠ [] := by
  cases cs with
  | nil => exact absurd rfl h
  | cons c cs =>
    intro hnil
    have htext := scan_text (c :: cs)
    have hrest := scan_cons_shorter c cs
    rw [hnil, List.nil_append] at htext
    rw [htext, List.length_cons] at hrest
    omega

end Lexeme

/-! ### Places and slices -/

theorem Position.offset_next (p : Position) (c : Char) :
    (p.next c).offset = p.offset + c.utf8Size := by
  unfold next
  split
  next hc =>
    subst hc
    rfl
  next => rfl

theorem Position.offset_after (p : Position) (cs : List Char) :
    (p.after cs).offset = p.offset + utf8Length cs := by
  induction cs generalizing p with
  | nil => rfl
  | cons c cs ih => rw [after_cons, ih, offset_next, utf8Length_cons, Nat.add_assoc]

namespace Bytes

theorem take_utf8Length (cs ds : List Char) : take (utf8Length cs) (cs ++ ds) = cs := by
  induction cs with
  | nil =>
    cases ds with
    | nil => rfl
    | cons d ds =>
      have hd := d.utf8Size_pos
      rw [utf8Length_nil, List.nil_append, take, if_neg (by omega)]
  | cons c cs ih =>
    rw [utf8Length_cons, List.cons_append, take, if_pos (Nat.le_add_right ..),
      Nat.add_sub_cancel_left, ih]

theorem drop_utf8Length (cs ds : List Char) : drop (utf8Length cs) (cs ++ ds) = ds := by
  have h := take_append_drop (utf8Length cs) (cs ++ ds)
  rw [take_utf8Length] at h
  exact List.append_cancel_left h

end Bytes

/-- The text of a range between two characters is what stands between them. -/
theorem Document.textOf_between {text : String} {before cs behind : List Char} {r : Range}
    (h : text.toList = before ++ (cs ++ behind)) (hstart : r.start.offset = utf8Length before)
    (hstop : r.stop.offset = utf8Length (before ++ cs)) :
    (ofString text).textOf r = String.ofList cs := by
  have hsize : (ofString text).size = utf8Length (before ++ cs) + utf8Length behind := by
    rw [size, chars, ofString, h, ← List.append_assoc, utf8Length_append]
  have hstop' : min r.stop.offset (ofString text).size = utf8Length (before ++ cs) := by omega
  have hstart' : min r.start.offset (utf8Length (before ++ cs)) = utf8Length before := by
    rw [utf8Length_append]
    omega
  have hchars : (ofString text).chars = before ++ cs ++ behind := by
    rw [chars, ofString, h, List.append_assoc]
  have hbefore : Bytes.take (utf8Length before) (before ++ cs ++ behind) = before := by
    rw [List.append_assoc, Bytes.take_utf8Length]
  simp only [textOf, hstop', Bytes.floor, hchars, Bytes.take_utf8Length, hstart', Bytes.slice]
  rw [hbefore, Bytes.drop_utf8Length]

/-! ### Tokens in their places -/

namespace Token

/-- The characters that a token takes, trivia included. -/
def chars (t : Token) : List Char := t.leading.chars ++ (t.text.toList ++ t.trailing.chars)

theorem fullText_eq (t : Token) : t.fullText = String.ofList t.chars := by
  simp [fullText, chars, Trivia.text, String.append_assoc]

/-- A token that stands behind the characters `before` of its text. -/
structure Behind (before : List Char) (t : Token) : Prop where
  range : t.range =
    .covering (Position.origin.after (before ++ t.leading.chars)) t.text.toList
  fullRange : t.fullRange = .covering (Position.origin.after before) t.chars

/-- Tokens that stand end to end behind the characters `before` of their text. -/
def AllBehind (before : List Char) : List Token → Prop
  | [] => True
  | t :: ts => t.Behind before ∧ AllBehind (before ++ t.chars) ts

/-- Tokens of which only the last is the end of the file, and which have a lexeme each. -/
def Ended (ts : List Token) : Prop :=
  ∃ own last, ts = own ++ [last] ∧ last.isEnd = true ∧
    ∀ t ∈ own, t.isEnd = false ∧ t.text ≠ ""

end Token

namespace Lexer

/-- A step of the lexer takes the characters of its token. -/
theorem nextToken_chars (l : Lexer) : l.nextToken.1.chars ++ l.nextToken.2.rest = l.rest := by
  have hlead := Trivia.scan_text false l.rest
  have hlexeme := Lexeme.scan_text (Trivia.scan false l.rest).rest
  have htrail := Trivia.scan_text true (Lexeme.scan (Trivia.scan false l.rest).rest).rest
  simp only [nextToken, Token.chars, String.toList_ofList, List.append_assoc]
  split
  · exact (congrArg _ hlexeme).trans hlead
  · exact (congrArg _ ((congrArg _ htrail).trans hlexeme)).trans hlead

section

variable {l : Lexer} {before : List Char}

theorem nextToken_behind (h : l.place = Position.origin.after before) :
    l.nextToken.1.Behind before := by
  refine ⟨?_, ?_⟩
  · simp only [nextToken, h, Position.after_append, Range.covering, String.toList_ofList]
  · simp only [nextToken, h, Position.after_append, Range.covering, Token.chars,
      String.toList_ofList]

theorem nextToken_place (h : l.place = Position.origin.after before) :
    l.nextToken.2.place = Position.origin.after (before ++ l.nextToken.1.chars) := by
  simp only [nextToken, h, Position.after_append, Token.chars, String.toList_ofList]

end

theorem nextToken_text_ne_nil {l : Lexer} (h : l.nextToken.1.isEnd = false) :
    l.nextToken.1.text ≠ "" := by
  have hkind : (Lexeme.scan (Trivia.scan false l.rest).rest).kind ≠ .endOfFile := by
    simpa [nextToken, Token.isEnd] using h
  intro htext
  refine Lexeme.text_ne_nil hkind ?_
  simpa [nextToken] using congrArg String.toList htext

theorem nextToken_rest_of_end {l : Lexer} (h : l.nextToken.1.isEnd = true) :
    l.nextToken.2.rest = [] := by
  have hkind : (Lexeme.scan (Trivia.scan false l.rest).rest).kind = .endOfFile := by
    simpa [nextToken, Token.isEnd] using h
  cases hr : (Trivia.scan false l.rest).rest with
  | nil => simp [nextToken, hr, Lexeme.scan_nil, Lexeme.simple]
  | cons c cs =>
    rw [hr] at hkind
    exact absurd hkind (Lexed.scan_kind_ne_end c cs)

/-- A whole run of the lexer: the tokens that it adds take all characters that were left. -/
theorem drain_partition (given : Array Token) (l : Lexer) :
    ∃ ts, (drain given l).1.toList = given.toList ++ ts ∧ Token.Ended ts ∧
      ts.flatMap Token.chars = l.rest ∧
      ∀ before, l.place = Position.origin.after before → Token.AllBehind before ts := by
  fun_induction drain given l with
  | case1 given l step hend =>
    refine ⟨[step.1], by simp, ⟨[], step.1, rfl, hend, List.forall_mem_nil _⟩, ?_,
      fun before hplace => ?_⟩
    · rw [List.flatMap_singleton, ← nextToken_chars l, nextToken_rest_of_end hend, List.append_nil]
    · exact ⟨nextToken_behind hplace, trivial⟩
  | case2 given l step hgo ih =>
    obtain ⟨ts, hts, ⟨own, last, rfl, hlast, hown⟩, hrest, hall⟩ := ih
    rw [Bool.not_eq_true] at hgo
    refine ⟨step.1 :: (own ++ [last]), by simp [hts], ⟨step.1 :: own, last, rfl, hlast, ?_⟩, ?_,
      fun before hplace => ?_⟩
    · exact List.forall_mem_cons.mpr ⟨⟨hgo, nextToken_text_ne_nil hgo⟩, hown⟩
    · rw [List.flatMap_cons, hrest]
      exact nextToken_chars l
    · exact ⟨nextToken_behind hplace, hall _ (nextToken_place hplace)⟩

end Lexer

/-! ### The partition -/

namespace Token

/-- Full ranges that begin at an offset, each where the one before ends, the last at another. -/
def Adjoining (start stop : Nat) : List Token → Prop
  | [] => start = stop
  | t :: ts => t.fullRange.start.offset = start ∧ Adjoining t.fullRange.stop.offset stop ts

/-- What a token says of its text: its ranges lie in each other, and they are those of its lexeme
and of its full text. -/
structure Faithful (d : Document) (t : Token) : Prop where
  leading : t.fullRange.start.offset ≤ t.range.start.offset
  ordered : t.range.start.offset ≤ t.range.stop.offset
  trailing : t.range.stop.offset ≤ t.fullRange.stop.offset
  bounded : t.fullRange.stop.offset ≤ d.size
  lexeme : d.textOf t.range = t.text
  full : d.textOf t.fullRange = t.fullText

theorem Behind.fullStop {before : List Char} {t : Token} (h : t.Behind before) :
    t.fullRange.stop.offset = utf8Length (before ++ t.chars) := by
  rw [h.fullRange, Range.covering, ← Position.after_append, Position.offset_after]
  exact Nat.zero_add _

theorem Behind.faithful {text : String} {before behind : List Char} {t : Token}
    (h : t.Behind before) (htext : text.toList = before ++ (t.chars ++ behind)) :
    t.Faithful (.ofString text) := by
  have hoffset : ∀ cs : List Char, (Position.origin.after cs).offset = utf8Length cs := fun cs => by
    rw [Position.offset_after]
    exact Nat.zero_add _
  have hstart : t.range.start.offset = utf8Length (before ++ t.leading.chars) := by
    rw [h.range]
    exact hoffset _
  have hstop : t.range.stop.offset =
      utf8Length (before ++ t.leading.chars ++ t.text.toList) := by
    rw [h.range, Range.covering, ← Position.after_append]
    exact hoffset _
  have hfullStart : t.fullRange.start.offset = utf8Length before := by
    rw [h.fullRange]
    exact hoffset _
  have hfullStop := h.fullStop
  have hlexeme : text.toList = before ++ t.leading.chars ++
      (t.text.toList ++ (t.trailing.chars ++ behind)) := by
    simp [htext, chars]
  refine ⟨?_, ?_, ?_, ?_, ?_, ?_⟩
  · rw [hfullStart, hstart, utf8Length_append]
    exact Nat.le_add_right ..
  · rw [hstart, hstop, utf8Length_append _ t.text.toList]
    exact Nat.le_add_right ..
  · rw [hstop, hfullStop, chars]
    simp only [utf8Length_append]
    omega
  · rw [hfullStop, Document.size, Document.chars, Document.ofString, htext]
    simp only [utf8Length_append]
    omega
  · rw [Document.textOf_between hlexeme hstart hstop, String.ofList_toList]
  · rw [Document.textOf_between htext hfullStart hfullStop, fullText_eq]

theorem AllBehind.faithful {text : String} {before : List Char} {ts : List Token}
    (h : AllBehind before ts) (htext : text.toList = before ++ ts.flatMap chars) :
    ∀ t ∈ ts, t.Faithful (.ofString text) := by
  induction ts generalizing before with
  | nil => exact nofun
  | cons t ts ih =>
    rw [List.flatMap_cons] at htext
    refine List.forall_mem_cons.mpr ⟨h.1.faithful htext, ih h.2 ?_⟩
    rw [htext, List.append_assoc]

theorem AllBehind.adjoining {before : List Char} {ts : List Token} (h : AllBehind before ts) :
    Adjoining (utf8Length before) (utf8Length (before ++ ts.flatMap chars)) ts := by
  induction ts generalizing before with
  | nil => rw [List.flatMap_nil, List.append_nil, Adjoining]
  | cons t ts ih =>
    have hmore := ih h.2
    rw [← h.1.fullStop, List.append_assoc, ← List.flatMap_cons] at hmore
    refine ⟨?_, hmore⟩
    rw [h.1.fullRange, Range.covering, Position.offset_after]
    exact Nat.zero_add _

/-- Tokens that partition a text. -/
structure Partition (text : String) (ts : List Token) : Prop where
  ended : Ended ts
  adjoining : Adjoining 0 (Document.ofString text).size ts
  faithful : ∀ t ∈ ts, t.Faithful (.ofString text)
  whole : String.join (ts.map fullText) = text

end Token

theorem join_ofList (css : List (List Char)) :
    String.join (css.map String.ofList) = String.ofList css.flatten := by
  induction css with
  | nil => rfl
  | cons cs css ih => simp [String.join_cons, ih]

/-- The tokens of a text partition it: the last of them is the end of the file and no other is, the
others have a lexeme, full ranges follow each other from the beginning of the text to its end, and
each token has the lexeme and the full text that stand in its ranges. -/
theorem partition_tokenize (text : String) : Token.Partition text (tokenize text).1 := by
  obtain ⟨ts, hts, hended, hchars, hall⟩ := Lexer.drain_partition #[] (.ofString text)
  have hbehind : Token.AllBehind [] ts := hall [] rfl
  have htokens : (tokenize text).1 = ts := by
    change (Lexer.drain #[] (.ofString text)).1.toList = ts
    rw [hts]
    rfl
  have htext : ts.flatMap Token.chars = text.toList := hchars
  rw [htokens]
  refine ⟨hended, ?_, hbehind.faithful htext.symm, ?_⟩
  · have hadjoining := hbehind.adjoining
    rw [List.nil_append, htext] at hadjoining
    exact hadjoining
  · have hfull : ts.map Token.fullText = (ts.map Token.chars).map String.ofList := by
      rw [List.map_map]
      exact List.map_congr_left fun t _ => t.fullText_eq
    rw [hfull, join_ofList, ← List.flatMap_def, htext, String.ofList_toList]

end SandboxProfile
