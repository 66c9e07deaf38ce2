import SandboxProfile.Proofs.LineTable

/-!
# Places that the lexer reports

The lexer keeps its place by going over the characters that it takes. Every range that it gives to a
token or to a fault covers a run of characters of the text, so its ends are places that the table of
the lines knows by the same line and column (`agrees_tokenize`).
-/

namespace SandboxProfile

/-! ### Runs of a text -/

/-- Whether a range covers a run of the characters `cs`, which begin at `p`. -/
def Range.Spans (p : Position) (cs : List Char) (r : Range) : Prop :=
  ∃ before run behind, cs = before ++ (run ++ behind) ∧ r = .covering (p.after before) run

namespace Range.Spans

variable {p : Position} {cs : List Char} {r : Range}

theorem whole (p : Position) (cs : List Char) : (Range.covering p cs).Spans p cs :=
  ⟨[], cs, [], by simp, rfl⟩

theorem append (h : r.Spans p cs) (ds : List Char) : r.Spans p (cs ++ ds) := by
  obtain ⟨before, run, behind, rfl, hr⟩ := h
  exact ⟨before, run, behind ++ ds, by simp, hr⟩

theorem shift {before : List Char} (h : r.Spans (p.after before) cs) :
    r.Spans p (before ++ cs) := by
  obtain ⟨more, run, behind, rfl, hr⟩ := h
  refine ⟨before ++ more, run, behind, by simp, ?_⟩
  rw [Position.after_append]
  exact hr

theorem offsets (h : r.Spans p cs) :
    p.offset ≤ r.start.offset ∧ r.start.offset ≤ r.stop.offset ∧
      r.stop.offset ≤ p.offset + utf8Length cs := by
  obtain ⟨before, run, behind, rfl, rfl⟩ := h
  have hstart : (covering (p.after before) run).start.offset = p.offset + utf8Length before :=
    Position.offset_after p before
  have hstop : (covering (p.after before) run).stop.offset =
      p.offset + utf8Length before + utf8Length run := by
    rw [← hstart]
    exact Position.offset_after (p.after before) run
  rw [hstart, hstop, utf8Length_append, utf8Length_append]
  omega

end Range.Spans

/-! ### Faults -/

/-- An open comment is the last piece of its trivia. -/
theorem Trivia.Scanned.spans_diagnostics {p : Position} {s : Trivia.Scanned} {d : Diagnostic}
    (h : d ∈ s.diagnostics p) : d.range.Spans p (Trivia.chars s.pieces) := by
  unfold Trivia.Scanned.diagnostics at h
  split at h
  · cases h
  · obtain rfl := List.mem_singleton.mp h
    rcases List.eq_nil_or_concat s.pieces with hnil | ⟨pieces, last, hlast⟩
    · rw [hnil]
      exact .whole p []
    · have hchars : Trivia.chars s.pieces = Trivia.chars pieces ++ last.chars := by
        simp [hlast, Trivia.chars]
      have hinit : s.pieces.dropLast = pieces := by simp [hlast]
      refine ⟨Trivia.chars pieces, last.chars, [], by rw [hchars, List.append_nil], ?_⟩
      rw [hinit, hchars, Position.after_append]
      rfl

namespace StringLiteral

theorem spans_diagnostics {p : Position} {items : List Item} {d : Diagnostic}
    (h : d ∈ diagnostics p items) : d.range.Spans p (chars items) := by
  induction items generalizing p with
  | nil => cases h
  | cons item items ih =>
    have hchars : chars (item :: items) = item.chars ++ chars items := List.flatMap_cons
    have hmore : d ∈ diagnostics (p.after item.chars) items →
        d.range.Spans p (chars (item :: items)) := by
      intro hd
      rw [hchars]
      exact (ih hd).shift
    rw [diagnostics] at h
    cases hfault : item.fault? with
    | none =>
      rw [hfault] at h
      exact hmore h
    | some fault =>
      rw [hfault] at h
      rcases List.mem_cons.mp h with rfl | h
      · rw [hchars]
        exact (Range.Spans.whole p item.chars).append _
      · exact hmore h

end StringLiteral

namespace Lexeme

/-- The items of a lexeme stand behind a quotation mark. -/
theorem exists_ending (cs : List Char) : (scan cs).items = [] ∨
    ∃ ending, (scan cs).text = '"' :: (StringLiteral.chars (scan cs).items ++ ending) := by
  have hhash (cs : List Char) : (hash cs).items = [] := by
    unfold hash
    split
    · rfl
    split
    · rfl
    split
    · rfl
    split <;> rfl
  have hinteger (c : Char) (cs : List Char) : (integer c cs).items = [] := by
    unfold integer
    simp only
    split <;> rfl
  unfold scan
  split
  · exact .inl rfl
  split
  · exact .inl rfl
  split
  · exact .inl rfl
  split
  · exact .inr ⟨_, rfl⟩
  split
  · exact .inl (hhash _)
  split
  · exact .inl (hinteger _ _)
  split <;> exact .inl rfl

theorem spans_diagnostics {p : Position} {cs : List Char} {d : Diagnostic}
    (h : d ∈ (scan cs).diagnostics p) : d.range.Spans p (scan cs).text := by
  rw [diagnostics, List.mem_append] at h
  rcases h with hitem | hwhole
  · rcases exists_ending cs with hnil | ⟨ending, htext⟩
    · rw [hnil] at hitem
      cases hitem
    · have hspan := (StringLiteral.spans_diagnostics hitem).append ending
      rw [htext]
      exact hspan.shift
  · rw [Option.mem_toList, Option.map_eq_some_iff] at hwhole
    obtain ⟨fault, -, rfl⟩ := hwhole
    exact .whole p _

end Lexeme

/-! ### The lexer -/

namespace Lexer

theorem place_nextToken (l : Lexer) :
    l.nextToken.2.place = l.place.after l.nextToken.1.chars := by
  simp only [nextToken, Token.chars, String.toList_ofList, Position.after_append]

/-- What a step reports, behind what was found before, lies in the characters of its token. -/
theorem found_nextToken (l : Lexer) :
    ∃ found, l.nextToken.2.diagnostics.toList = l.diagnostics.toList ++ found ∧
      ∀ d ∈ found, d.range.Spans l.place l.nextToken.1.chars := by
  have hchars : l.nextToken.1.chars = Trivia.chars l.nextToken.1.leading ++
      ((Lexeme.scan (Trivia.scan false l.rest).rest).text ++
        Trivia.chars l.nextToken.1.trailing) := by
    simp only [nextToken, Token.chars, String.toList_ofList]
  refine ⟨_, by rw [nextToken, Array.toList_append, List.toList_toArray], ?_⟩
  intro d h
  rw [hchars]
  simp only [List.mem_append] at h
  rcases h with (hleading | hlexeme) | htrailing
  · exact (Trivia.Scanned.spans_diagnostics hleading).append _
  · exact ((Lexeme.spans_diagnostics hlexeme).append _).shift
  · exact (Trivia.Scanned.spans_diagnostics htrailing).shift.shift

/-- What a whole run reports, behind what was found before, lies in the characters left to it. -/
theorem found_drain (given : Array Token) (l : Lexer) :
    ∃ found, (drain given l).2.diagnostics.toList = l.diagnostics.toList ++ found ∧
      ∀ d ∈ found, d.range.Spans l.place l.rest := by
  fun_induction drain given l with
  | case1 given l step hend =>
    obtain ⟨found, hfound, hspans⟩ := found_nextToken l
    refine ⟨found, hfound, fun d hd => ?_⟩
    have hrest := (hspans d hd).append step.2.rest
    rwa [nextToken_chars] at hrest
  | case2 given l step hgo ih =>
    have hchars : step.1.chars ++ step.2.rest = l.rest := nextToken_chars l
    have hplace : step.2.place = l.place.after step.1.chars := place_nextToken l
    obtain ⟨found, hfound, hspans⟩ := found_nextToken l
    obtain ⟨later, hlater, hlaterspans⟩ := ih
    refine ⟨found ++ later, by rw [hlater, hfound, List.append_assoc], ?_⟩
    rw [← hchars]
    intro d hd
    rcases List.mem_append.mp hd with hd | hd
    · exact (hspans d hd).append _
    · have hspan := hlaterspans d hd
      rw [hplace] at hspan
      exact hspan.shift

theorem spans_of_mem_drain {given : Array Token} {l : Lexer} {d : Diagnostic}
    (h : d ∈ (drain given l).2.diagnostics) :
    d ∈ l.diagnostics ∨ d.range.Spans l.place l.rest := by
  obtain ⟨found, hfound, hspans⟩ := found_drain given l
  rw [← Array.mem_toList_iff, hfound, List.mem_append, Array.mem_toList_iff] at h
  exact h.imp_right (hspans d)

/-- What holds of a report of any step, with the place and the characters left there, and then holds
in front of them too, holds of it in a run. -/
theorem mem_drain {d : Diagnostic} {Q : Position → List Char → Prop}
    (hstep : ∀ l : Lexer, d ∈ l.nextToken.2.diagnostics → d ∈ l.diagnostics ∨ Q l.place l.rest)
    (hshift : ∀ p cs ds, Q (Position.after p cs) ds → Q p (cs ++ ds)) {given : Array Token}
    {l : Lexer} (h : d ∈ (drain given l).2.diagnostics) :
    d ∈ l.diagnostics ∨ Q l.place l.rest := by
  fun_induction drain given l with
  | case1 given l step hend => exact hstep l h
  | case2 given l step hgo ih =>
    rcases ih h with hfound | hlater
    · exact hstep l hfound
    · have hchars : step.1.chars ++ step.2.rest = l.rest := nextToken_chars l
      have hplace : step.2.place = l.place.after step.1.chars := place_nextToken l
      rw [hplace] at hlater
      rw [← hchars]
      exact .inr (hshift _ _ _ hlater)

end Lexer

/-! ### Tokens -/

namespace Token

variable {before : List Char} {t : Token} {ts : List Token}

theorem Behind.spans (h : t.Behind before) :
    t.range.Spans (Position.origin.after before) t.chars ∧
      t.fullRange.Spans (Position.origin.after before) t.chars := by
  refine ⟨⟨t.leading.chars, t.text.toList, t.trailing.chars, rfl, ?_⟩, ?_⟩
  · rw [h.range, Position.after_append]
  · rw [h.fullRange]
    exact .whole _ _

theorem AllBehind.spans (h : AllBehind before ts) :
    ∀ t ∈ ts, t.range.Spans (Position.origin.after before) (ts.flatMap chars) ∧
      t.fullRange.Spans (Position.origin.after before) (ts.flatMap chars) := by
  induction ts generalizing before with
  | nil => exact List.forall_mem_nil _
  | cons u us ih =>
    rw [List.flatMap_cons]
    intro t ht
    rcases List.mem_cons.mp ht with rfl | ht
    · exact ⟨h.1.spans.1.append _, h.1.spans.2.append _⟩
    · have hmore := ih h.2 t ht
      rw [Position.after_append] at hmore
      exact ⟨hmore.1.shift, hmore.2.shift⟩

/-- Of tokens that stand end to end none begins before one in front of it ends. -/
theorem AllBehind.ordered (h : AllBehind before ts) :
    ts.Pairwise fun t u => t.range.stop.offset ≤ u.range.start.offset := by
  induction ts generalizing before with
  | nil => exact .nil
  | cons t ts ih =>
    refine List.pairwise_cons.mpr ⟨fun u hu => ?_, ih h.2⟩
    have hstop := h.1.spans.1.offsets.2.2
    have hstart := (h.2.spans u hu).1.offsets.1
    rw [Position.after_append, Position.offset_after _ t.chars] at hstart
    exact Nat.le_trans hstop hstart

end Token

/-! ### Agreement -/

/-- Whether the table of a document's lines knows both ends of a range as the range gives them, in
order and in the document. -/
structure Range.Agrees (d : Document) (r : Range) : Prop where
  start : d.position? r.start.offset = some r.start
  stop : d.position? r.stop.offset = some r.stop
  ordered : r.start.offset ≤ r.stop.offset
  bounded : r.stop.offset ≤ d.size

theorem Range.Spans.agrees {text : String} {r : Range}
    (h : r.Spans .origin text.toList) : r.Agrees (.ofString text) := by
  have hoffsets := h.offsets
  have horigin : Position.origin.offset = 0 := rfl
  have hsize : (Document.ofString text).size = utf8Length text.toList := rfl
  obtain ⟨before, run, behind, htext, rfl⟩ := h
  have hstop : text.toList = before ++ run ++ behind := by rw [htext, List.append_assoc]
  constructor
  · exact Document.position?_after htext
  · rw [covering, ← Position.after_append]
    exact Document.position?_after hstop
  · exact hoffsets.2.1
  · omega

/-- The place of the lexer and the table of the lines agree at both ends of every range and full
range of a token and of every range of a fault. No token begins before one in front of it ends, and
the ranges of faults lie in the text. -/
theorem agrees_tokenize (text : String) :
    (∀ t ∈ (tokenize text).1,
      t.range.Agrees (.ofString text) ∧ t.fullRange.Agrees (.ofString text)) ∧
    (tokenize text).1.Pairwise (fun t u => t.range.stop.offset ≤ u.range.start.offset) ∧
    ∀ d ∈ (tokenize text).2, d.range.Agrees (.ofString text) := by
  obtain ⟨ts, hts, -, hchars, hall⟩ := Lexer.drain_partition #[] (.ofString text)
  have htokens : (tokenize text).1 = ts := hts
  have htext : ts.flatMap Token.chars = text.toList := hchars
  have hbehind : Token.AllBehind [] ts := hall [] rfl
  have hspans := hbehind.spans
  rw [htext] at hspans
  rw [htokens]
  refine ⟨fun t ht => ?_, hbehind.ordered, fun d hd => ?_⟩
  · exact ⟨(hspans t ht).1.agrees, (hspans t ht).2.agrees⟩
  · have hdrain : d ∈ (Lexer.drain #[] (.ofString text)).2.diagnostics := Array.mem_toList_iff.mp hd
    rcases Lexer.spans_of_mem_drain hdrain with hnone | hspan
    · exact absurd hnone (Array.not_mem_empty d)
    · exact hspan.agrees

end SandboxProfile
