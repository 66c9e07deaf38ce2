import SandboxProfile.Proofs.LexerCalls
import SandboxProfile.Proofs.LineFaults

/-!
# What is reported of tokens

The lexer reports what is wrong with a lexeme while it scans it, and the range of the token is taken
when the scan is over. Still each report has its token: an unknown character has a token of its own,
what is not closed or out of range is the whole of its token, and a faulty escape stands in the
token of its string (`accounted_tokenize`). Only a comment that is not closed belongs to no token;
it is the last thing in its text.
-/

namespace SandboxProfile

namespace TokenKind

def isUnknown : TokenKind → Bool
  | unknown _ => true
  | _ => false

def isString : TokenKind → Bool
  | string _ => true
  | _ => false

def isRawString : TokenKind → Bool
  | rawString _ => true
  | _ => false

end TokenKind

/-- Whether a code finds fault with the whole of a token of some kind. -/
def Code.blames : Code → TokenKind → Bool
  | unknownCharacter, kind | unexpectedEndOfFile, kind => kind.isUnknown
  | unterminatedString, kind => kind.isString
  | unterminatedRawString, kind => kind.isRawString
  | invalidIntegerLiteral, kind => kind = .integer 0
  | _, _ => false

theorem Code.lexical_of_blames {code : Code} {kind : TokenKind} (h : code.blames kind = true) :
    code.category = .lexical := by
  unfold blames at h
  split at h
  case h_6 => cases h
  all_goals rfl

/-- A code that finds fault with a token is an unknown character's if and only if the token is. -/
theorem Code.contains_eq_isUnknown {code : Code} {kind : TokenKind} (h : code.blames kind = true) :
    [unknownCharacter, unexpectedEndOfFile].contains code = kind.isUnknown := by
  unfold blames at h
  split at h
  · exact h.symm
  · exact h.symm
  all_goals cases kind <;> first | rfl | cases h

/-- The ranges of what is reported with one of some codes, in order. -/
def Diagnostic.rangesOf (codes : List Code) (ds : List Diagnostic) : List Range :=
  (ds.filter (codes.contains ·.code)).map (·.range)

/-- The ranges of the tokens of a kind, in order. -/
def Token.rangesOf (p : TokenKind → Bool) (ts : List Token) : List Range :=
  (ts.filter (p ·.kind)).map (·.range)

/-- Whether tokens account for what is reported: unknown characters and unknown tokens have the same
ranges one by one; what is not closed or out of range has the range of a token, each token at most
once; an escape is in the token of a string; and the lexer reports nothing that is not its own. -/
structure Token.Accounted (ts : List Token) (ds : List Diagnostic) : Prop where
  unknown : Diagnostic.rangesOf [.unknownCharacter, .unexpectedEndOfFile] ds =
    rangesOf TokenKind.isUnknown ts
  string : (Diagnostic.rangesOf [.unterminatedString] ds).Sublist (rangesOf TokenKind.isString ts)
  rawString : (Diagnostic.rangesOf [.unterminatedRawString] ds).Sublist
    (rangesOf TokenKind.isRawString ts)
  integer : (Diagnostic.rangesOf [.invalidIntegerLiteral] ds).Sublist
    (rangesOf (· = .integer 0) ts)
  escape : ∀ d ∈ ds, d.code = .invalidEscape ∨ d.code = .invalidHexEscape →
    ∃ t ∈ ts, t.kind.isString = true ∧ d.range.Spans t.range.start t.text.toList
  lexical : ∀ d ∈ ds, d.code.category = .lexical

namespace Diagnostic

variable {codes : List Code} {ds es : List Diagnostic}

theorem rangesOf_append : rangesOf codes (ds ++ es) = rangesOf codes ds ++ rangesOf codes es := by
  rw [rangesOf, List.filter_append, List.map_append]
  rfl

theorem rangesOf_eq_nil (h : ∀ d ∈ ds, d.code ∉ codes) : rangesOf codes ds = [] := by
  rw [rangesOf, List.map_eq_nil_iff, List.filter_eq_nil_iff]
  intro d hd
  rw [List.contains_iff_mem]
  exact h d hd

end Diagnostic

namespace Token

variable {ts us : List Token} {ds es : List Diagnostic}

theorem rangesOf_append (p : TokenKind → Bool) :
    rangesOf p (ts ++ us) = rangesOf p ts ++ rangesOf p us := by
  rw [rangesOf, List.filter_append, List.map_append]
  rfl

theorem Accounted.append (h : Accounted ts ds) (h' : Accounted us es) :
    Accounted (ts ++ us) (ds ++ es) := by
  constructor
  · rw [Diagnostic.rangesOf_append, rangesOf_append, h.unknown, h'.unknown]
  · rw [Diagnostic.rangesOf_append, rangesOf_append]
    exact h.string.append h'.string
  · rw [Diagnostic.rangesOf_append, rangesOf_append]
    exact h.rawString.append h'.rawString
  · rw [Diagnostic.rangesOf_append, rangesOf_append]
    exact h.integer.append h'.integer
  · intro d hd hcode
    rcases List.mem_append.mp hd with hd | hd
    · obtain ⟨t, ht, hin⟩ := h.escape d hd hcode
      exact ⟨t, List.mem_append_left us ht, hin⟩
    · obtain ⟨t, ht, hin⟩ := h'.escape d hd hcode
      exact ⟨t, List.mem_append_right ts ht, hin⟩
  · exact List.forall_mem_append.mpr ⟨h.lexical, h'.lexical⟩

/-- Tokens of which nothing is reported. -/
theorem accounted_nil (h : ∀ t ∈ ts, t.kind.isUnknown = false) : Accounted ts [] := by
  have hnone : rangesOf TokenKind.isUnknown ts = [] := by
    rw [rangesOf, List.map_eq_nil_iff, List.filter_eq_nil_iff]
    intro t ht
    rw [h t ht]
    exact Bool.false_ne_true
  exact ⟨hnone.symm, List.nil_sublist _, List.nil_sublist _, List.nil_sublist _,
    List.forall_mem_nil _, List.forall_mem_nil _⟩

/-- A token of which one thing is reported as a whole. -/
theorem accounted_whole {t : Token} {d : Diagnostic} (hrange : d.range = t.range)
    (h : d.code.blames t.kind = true) : Accounted [t] [d] := by
  have hreports (codes : List Code) :
      Diagnostic.rangesOf codes [d] = if codes.contains d.code then [t.range] else [] := by
    rw [Diagnostic.rangesOf, List.filter_cons, ← hrange]
    cases codes.contains d.code <;> rfl
  have htokens (p : TokenKind → Bool) : rangesOf p [t] = if p t.kind then [t.range] else [] := by
    rw [rangesOf, List.filter_cons]
    cases p t.kind <;> rfl
  have hsublist {code : Code} {p : TokenKind → Bool} (hp : d.code = code → p t.kind = true) :
      (Diagnostic.rangesOf [code] [d]).Sublist (rangesOf p [t]) := by
    by_cases hcode : d.code = code
    · have hreport : Diagnostic.rangesOf [code] [d] = [t.range] :=
        (hreports [code]).trans (if_pos (by simp [hcode]))
      have htoken : rangesOf p [t] = [t.range] := (htokens p).trans (if_pos (hp hcode))
      exact (hreport.trans htoken.symm) ▸ List.Sublist.refl _
    · have hreport : Diagnostic.rangesOf [code] [d] = [] :=
        (hreports [code]).trans (if_neg (by simpa using hcode))
      exact hreport ▸ List.nil_sublist _
  constructor
  · rw [hreports, htokens, Code.contains_eq_isUnknown h]
  · exact hsublist fun hcode => by rwa [hcode] at h
  · exact hsublist fun hcode => by rwa [hcode] at h
  · exact hsublist fun hcode => by rwa [hcode] at h
  · rintro d' hd (hcode | hcode) <;> rw [List.mem_singleton.mp hd] at hcode <;>
      rw [hcode] at h <;> cases h
  · intro d' hd
    rw [List.mem_singleton.mp hd]
    exact Code.lexical_of_blames h

/-- Escapes in front of what is reported of a string as a whole. -/
theorem Accounted.escapes {t : Token} (h : Accounted [t] es) (hstring : t.kind.isString = true)
    (hcode : ∀ d ∈ ds, d.code = .invalidEscape ∨ d.code = .invalidHexEscape)
    (hrange : ∀ d ∈ ds, d.range.Spans t.range.start t.text.toList) : Accounted [t] (ds ++ es) := by
  have hnone {codes : List Code} (hshort : .invalidEscape ∉ codes)
      (hhex : .invalidHexEscape ∉ codes) :
      Diagnostic.rangesOf codes (ds ++ es) = Diagnostic.rangesOf codes es := by
    rw [Diagnostic.rangesOf_append, Diagnostic.rangesOf_eq_nil, List.nil_append]
    intro d hd
    rcases hcode d hd with hd | hd <;> rw [hd]
    · exact hshort
    · exact hhex
  constructor
  · rw [hnone (by decide) (by decide)]
    exact h.unknown
  · rw [hnone (by decide) (by decide)]
    exact h.string
  · rw [hnone (by decide) (by decide)]
    exact h.rawString
  · rw [hnone (by decide) (by decide)]
    exact h.integer
  · intro d hd hescape
    rcases List.mem_append.mp hd with hd | hd
    · exact ⟨t, List.mem_singleton_self t, hstring, hrange d hd⟩
    · exact h.escape d hd hescape
  · refine List.forall_mem_append.mpr ⟨fun d hd => ?_, h.lexical⟩
    rcases hcode d hd with hd | hd <;> rw [hd] <;> rfl

/-- A comment that is not closed belongs to no token. -/
theorem accounted_comment {p : Position} (s : Trivia.Scanned) : Accounted [] (s.diagnostics p) := by
  have hcode : ∀ d ∈ s.diagnostics p, d.code = .unterminatedBlockComment :=
    fun d hd => Trivia.Scanned.code_of_mem hd
  have hnone (codes : List Code) (hcodes : .unterminatedBlockComment ∉ codes) :
      Diagnostic.rangesOf codes (s.diagnostics p) = [] :=
    Diagnostic.rangesOf_eq_nil fun d hd => by rw [hcode d hd]; exact hcodes
  constructor
  · exact hnone _ (by decide)
  · rw [hnone _ (by decide)]
    exact List.nil_sublist _
  · rw [hnone _ (by decide)]
    exact List.nil_sublist _
  · rw [hnone _ (by decide)]
    exact List.nil_sublist _
  · intro d hd hescape
    rw [hcode d hd] at hescape
    rcases hescape with h | h <;> cases h
  · intro d hd
    rw [hcode d hd]
    rfl

end Token

/-! ### Lexemes -/

/-- What can be wrong with a lexeme of each kind. -/
inductive Lexeme.Verdict : Lexeme → Prop
  | sound {kind : TokenKind} {text rest : List Char} (known : kind.isUnknown = false) :
      Verdict ⟨kind, text, [], none, rest⟩
  | unknown {c : Char} {text rest : List Char} {fault : LexicalFault}
      (code : fault.code ∈ [Code.unknownCharacter, .unexpectedEndOfFile]) :
      Verdict ⟨.unknown c, text, [], some fault, rest⟩
  | string {value : String} {items : List StringLiteral.Item} {ending rest : List Char}
      {fault? : Option LexicalFault} (fault : ∀ f ∈ fault?, f = .unterminatedString) :
      Verdict ⟨.string value, '"' :: (StringLiteral.chars items ++ ending), items, fault?, rest⟩
  | rawString {value : String} {text rest : List Char} :
      Verdict ⟨.rawString value, text, [], some .unterminatedRawString, rest⟩
  | integer {literal : String} {text rest : List Char} :
      Verdict ⟨.integer 0, text, [], some (.integerOutOfRange literal), rest⟩

namespace Lexeme

theorem verdict_quoted (cs : List Char) : (quoted cs).Verdict := by
  refine .string ?_
  intro fault hfault
  split at hfault
  · cases hfault
  · cases hfault
    rfl

theorem verdict_raw (cs : List Char) : (raw cs).Verdict := by
  unfold raw
  cases hclosed : (RawString.scan cs).closed with
  | true =>
    simp only [hclosed, if_true]
    exact .sound rfl
  | false =>
    simp only [hclosed, Bool.false_eq_true, if_false]
    exact .rawString

theorem verdict_hash (cs : List Char) : (hash cs).Verdict := by
  unfold hash
  split
  · exact .unknown (by decide)
  split
  · exact .sound rfl
  split
  · exact .sound rfl
  split
  · exact verdict_raw _
  · exact .unknown (by simp [LexicalFault.code])

theorem verdict_integer (c : Char) (cs : List Char) : (integer c cs).Verdict := by
  unfold integer
  simp only
  split
  · exact .sound rfl
  · exact .integer

theorem verdict_scan (cs : List Char) : (scan cs).Verdict := by
  unfold scan
  split
  · exact .sound rfl
  split
  · exact .sound rfl
  split
  · exact .sound rfl
  split
  · exact verdict_quoted _
  split
  · exact verdict_hash _
  split
  · exact verdict_integer _ _
  split
  · exact .sound rfl
  · exact .unknown (by simp [LexicalFault.code])

end Lexeme

/-- A token accounts for what is reported of its lexeme. -/
theorem Lexeme.Verdict.accounted {l : Lexeme} (h : l.Verdict) {p : Position} {t : Token}
    (hkind : t.kind = l.kind) (htext : t.text = String.ofList l.text)
    (hrange : t.range = .covering p l.text) : Token.Accounted [t] (l.diagnostics p) := by
  have hone (fault : LexicalFault) (hblames : fault.code.blames t.kind = true) :
      Token.Accounted [t] [fault.diagnostic (.covering p l.text)] :=
    Token.accounted_whole hrange.symm hblames
  have hnone (hknown : t.kind.isUnknown = false) : Token.Accounted [t] [] :=
    Token.accounted_nil (List.forall_mem_singleton.mpr hknown)
  cases h with
  | sound known => exact hnone (by rw [hkind]; exact known)
  | unknown code =>
    refine hone _ ?_
    rw [hkind]
    simp only [List.mem_cons, List.not_mem_nil, or_false] at code
    rcases code with code | code <;> rw [code] <;> rfl
  | @string _ _ _ _ whole? fault =>
    have hstring : t.kind.isString = true := by rw [hkind]; rfl
    refine Token.Accounted.escapes ?_ hstring (fun d hd => StringLiteral.code_of_mem hd) ?_
    · cases whole? with
      | none => exact hnone (by rw [hkind]; rfl)
      | some whole =>
        refine hone whole ?_
        rw [fault whole rfl, hkind]
        rfl
    · intro d hd
      rw [hrange, htext, String.toList_ofList]
      exact ((StringLiteral.spans_diagnostics hd).append _).shift
  | rawString => exact hone _ (by rw [hkind]; rfl)
  | integer => exact hone _ (by rw [hkind]; rfl)

/-! ### The lexer -/

namespace Lexer

/-- A step accounts for what it reports by its token. -/
theorem accounted_nextToken (l : Lexer) :
    ∃ found, l.nextToken.2.diagnostics.toList = l.diagnostics.toList ++ found ∧
      Token.Accounted [l.nextToken.1] found := by
  refine ⟨_, by rw [nextToken, Array.toList_append, List.toList_toArray], ?_⟩
  have hlexeme := (Lexeme.verdict_scan (Trivia.scan false l.rest).rest).accounted
    (p := l.place.after (Trivia.chars (Trivia.scan false l.rest).pieces))
    (t := l.nextToken.1) rfl rfl rfl
  exact ((Token.accounted_comment _).append hlexeme).append (Token.accounted_comment _)

/-- A run accounts for what it reports by its tokens. -/
theorem accounted_drain (given : Array Token) (l : Lexer) :
    ∃ ts found, (drain given l).1.toList = given.toList ++ ts ∧
      (drain given l).2.diagnostics.toList = l.diagnostics.toList ++ found ∧
      Token.Accounted ts found := by
  fun_induction drain given l with
  | case1 given l step hend =>
    obtain ⟨found, hfound, haccounted⟩ := accounted_nextToken l
    exact ⟨[step.1], found, by simp, hfound, haccounted⟩
  | case2 given l step hgo ih =>
    obtain ⟨found, hfound, haccounted⟩ := accounted_nextToken l
    obtain ⟨ts, later, hts, hlater, hmore⟩ := ih
    refine ⟨step.1 :: ts, found ++ later, by simp [hts], ?_, haccounted.append hmore⟩
    rw [hlater, hfound, List.append_assoc]

end Lexer

/-! ### Comments that are not closed -/

/-- Trivia that is not complete goes on to the end of the text. -/
theorem Trivia.Scanned.stop_of_mem {trailing : Bool} {p : Position} {cs : List Char}
    {d : Diagnostic} (h : d ∈ (Trivia.scan trailing cs).diagnostics p) :
    d.range.stop = p.after cs := by
  have htext := Trivia.scan_text trailing cs
  unfold diagnostics at h
  split at h
  · cases h
  next hopen =>
    rw [(Lexed.ofChars_open_trivia (Bool.eq_false_iff.mpr hopen)).1, List.append_nil] at htext
    rw [List.mem_singleton.mp h, htext]
    rfl

namespace Lexeme

theorem Verdict.code_ne {l : Lexeme} (h : l.Verdict) {fault : LexicalFault}
    (hfault : l.fault? = some fault) : fault.code ≠ .unterminatedBlockComment := by
  cases h with
  | sound known => cases hfault
  | unknown code =>
    cases hfault
    rintro hcode
    rw [hcode] at code
    exact absurd code (by decide)
  | string only =>
    rw [only fault hfault]
    decide
  | rawString =>
    cases hfault
    decide
  | integer =>
    cases hfault
    intro hcode
    cases hcode

/-- What is wrong with a lexeme is not a comment. -/
theorem code_ne_of_mem_faults {cs : List Char} {fault : LexicalFault}
    (h : fault ∈ (scan cs).faults) : fault.code ≠ .unterminatedBlockComment := by
  rw [faults, List.mem_append, List.mem_filterMap, Option.mem_toList] at h
  rcases h with ⟨item, -, hitem⟩ | hwhole
  · rcases item.code_of_fault? hitem with hcode | hcode <;> rw [hcode] <;> decide
  · exact (verdict_scan cs).code_ne hwhole

theorem code_ne_of_mem {p : Position} {cs : List Char} {d : Diagnostic}
    (h : d ∈ (scan cs).diagnostics p) : d.code ≠ .unterminatedBlockComment := by
  have herase : Placed.erase d ∈ (scan cs).faults.map Lexed.report := by
    rw [← Lexed.erase_lexeme_diagnostics p]
    exact List.mem_map_of_mem h
  obtain ⟨fault, hfault, hreport⟩ := List.mem_map.mp herase
  have hcode : fault.code = d.code := congrArg Diagnostic.code hreport
  rw [← hcode]
  exact code_ne_of_mem_faults hfault

end Lexeme

namespace Lexer

/-- A comment that is not closed is reported up to the end of what was left. -/
theorem stop_nextToken {l : Lexer} {d : Diagnostic} (h : d ∈ l.nextToken.2.diagnostics)
    (hcode : d.code = .unterminatedBlockComment) :
    d ∈ l.diagnostics ∨ d.range.stop = l.place.after l.rest := by
  have hleading := Trivia.scan_text false l.rest
  have hlexeme := Lexeme.scan_text (Trivia.scan false l.rest).rest
  simp only [nextToken, Array.mem_append, List.mem_toArray, List.mem_append] at h
  rcases h with hbefore | (htrivia | hown) | htrivia
  · exact .inl hbefore
  · exact .inr (Trivia.Scanned.stop_of_mem htrivia)
  · exact absurd hcode (Lexeme.code_ne_of_mem hown)
  · right
    split at htrivia
    · cases htrivia
    · rw [Trivia.Scanned.stop_of_mem htrivia, ← Position.after_append, hlexeme,
        ← Position.after_append, hleading]

theorem stop_drain {given : Array Token} {l : Lexer} {d : Diagnostic}
    (h : d ∈ (drain given l).2.diagnostics) (hcode : d.code = .unterminatedBlockComment) :
    d ∈ l.diagnostics ∨ d.range.stop = l.place.after l.rest := by
  refine mem_drain (Q := fun p cs => d.range.stop = p.after cs)
    (fun _ hfound => stop_nextToken hfound hcode) (fun p cs ds hlater => ?_) h
  rw [hlater, Position.after_append]

end Lexer

/-- At most one comment is not closed. -/
theorem Lexed.count_comment_le (cs : List Char) :
    ((ofChars cs).faults.map LexicalFault.code).count .unterminatedBlockComment ≤ 1 := by
  fun_induction ofChars cs with
  | case1 cs s hs hclosed ih => exact ih
  | case2 cs s hs hopen => exact Nat.le_refl 1
  | case3 hs => exact Nat.zero_le 1
  | case4 c cs hs ih =>
    have hown :
        .unterminatedBlockComment ∉ (Lexeme.scan (c :: cs)).faults.map LexicalFault.code := by
      intro h
      obtain ⟨fault, hfault, hcode⟩ := List.mem_map.mp h
      exact Lexeme.code_ne_of_mem_faults hfault hcode
    rw [cons, List.map_append, List.count_append, List.count_eq_zero_of_not_mem hown, Nat.zero_add]
    exact ih

/-! ### The text -/

namespace Token

variable {before : List Char} {ts : List Token}

/-- A token with a lexeme takes up room. -/
theorem AllBehind.start_lt_stop (h : AllBehind before ts) :
    ∀ t ∈ ts, t.text ≠ "" → t.range.start.offset < t.range.stop.offset := by
  induction ts generalizing before with
  | nil => exact List.forall_mem_nil _
  | cons t ts ih =>
    refine List.forall_mem_cons.mpr ⟨fun htext => ?_, ih h.2⟩
    have hroom : 0 < utf8Length t.text.toList := by
      cases hchars : t.text.toList with
      | nil => exact absurd (String.toList_eq_nil_iff.mp hchars) htext
      | cons c cs => exact Nat.add_pos_left c.utf8Size_pos _
    rw [h.1.range]
    show (Position.origin.after _).offset < ((Position.origin.after _).after _).offset
    rw [Position.offset_after _ t.text.toList]
    exact Nat.lt_add_of_pos_right hroom

/-- No two tokens have the same range. -/
theorem AllBehind.distinct (h : AllBehind before ts) (hended : Ended ts) :
    ts.Pairwise fun t u => t.range ≠ u.range := by
  obtain ⟨own, last, rfl, -, hown⟩ := hended
  have hroom := h.start_lt_stop
  have hne : ∀ t ∈ own, ∀ u : Token, t.range.stop.offset ≤ u.range.start.offset →
      t.range ≠ u.range := by
    intro t ht u hle heq
    have hlt := hroom t (List.mem_append_left _ ht) (hown t ht).2
    rw [← heq] at hle
    omega
  obtain ⟨hordered, -, hlast⟩ := List.pairwise_append.mp h.ordered
  refine List.pairwise_append.mpr ⟨?_, List.pairwise_singleton _ _, ?_⟩
  · exact hordered.imp_of_mem fun ht _ hle => hne _ ht _ hle
  · intro t ht u hu
    exact hne t ht u (hlast t ht u hu)

end Token

/-- The tokens of a text account for what is reported of it, by their ranges, of which no two are
the same. What is left is one comment at most, which goes on to the end of the text. -/
theorem accounted_tokenize (text : String) :
    Token.Accounted (tokenize text).1 (tokenize text).2 ∧
    (tokenize text).1.Pairwise (fun t u => t.range ≠ u.range) ∧
    ((tokenize text).2.map Diagnostic.code).count .unterminatedBlockComment ≤ 1 ∧
    ∀ d ∈ (tokenize text).2, d.code = .unterminatedBlockComment →
      d.range.stop = (Document.ofString text).endPosition := by
  obtain ⟨ts, hts, hended, -, hall⟩ := Lexer.drain_partition #[] (.ofString text)
  have htokens : (tokenize text).1 = ts := hts
  have hbehind : Token.AllBehind [] ts := hall [] rfl
  refine ⟨?_, ?_, ?_, fun d hd hcode => ?_⟩
  · obtain ⟨us, found, hus, hfound, haccounted⟩ := Lexer.accounted_drain #[] (.ofString text)
    have htext : tokenize text = (us, found) := Prod.ext hus hfound
    rw [htext]
    exact haccounted
  · rw [htokens]
    exact hbehind.distinct hended
  · rw [codes_tokenize]
    exact Lexed.count_comment_le text.toList
  · have hdrain : d ∈ (Lexer.drain #[] (.ofString text)).2.diagnostics := Array.mem_toList_iff.mp hd
    rw [Document.endPosition_ofString]
    rcases Lexer.stop_drain hdrain hcode with hnone | hstop
    · exact absurd hnone (Array.not_mem_empty d)
    · exact hstop

/-- A string may have a report of its own and others of its escapes, in their places. -/
example : (tokenize "\"\\q").2.map (fun d => (d.code, d.range)) =
    [(.invalidEscape, ⟨⟨0, 1, 1⟩, ⟨0, 3, 3⟩⟩), (.unterminatedString, ⟨⟨0, 0, 0⟩, ⟨0, 3, 3⟩⟩)] := by
  decide +kernel

end SandboxProfile
