import SandboxProfile.Proofs.Concatenation
import SandboxProfile.Proofs.Places

/-!
# Faults on lines of their own

A fault in a lexeme is the business of its line. So two texts, one on the lines behind the other,
have the tokens and the faults that they have alone (`tokenize_lineFeed`), unless the first leaves a
comment open. One fault is told apart by its code: a hash sign that ends a text has an end of file
behind it, and one that ends a line has not.
-/

namespace SandboxProfile

/-- The code that a fault at the end of a text has if another line follows. -/
def Code.beforeLine : Code → Code
  | unexpectedEndOfFile => unknownCharacter
  | code => code

theorem LexicalFault.code_before (b : Char) (fault : LexicalFault) :
    (fault.before b).code = fault.code.beforeLine := by
  cases fault <;> rfl

theorem LexicalFault.code_eq_endOfFile {fault : LexicalFault} :
    fault.code = .unexpectedEndOfFile ↔ fault = .hashAtEnd := by
  cases fault <;> simp [code]

/-- The codes of the faults of a text. -/
theorem codes_tokenize (text : String) :
    (tokenize text).2.map Diagnostic.code =
      (Lexed.ofChars text.toList).faults.map LexicalFault.code := by
  have hcode : Diagnostic.code ∘ Lexed.report = LexicalFault.code := rfl
  have herase : Diagnostic.code ∘ Placed.erase = Diagnostic.code := rfl
  have hfaults : ((tokenize text).2.map Placed.erase).map Diagnostic.code = _ :=
    congrArg (List.map Diagnostic.code) (erase_faults_tokenize text)
  rwa [List.map_map, herase, List.map_map, hcode] at hfaults

/-! ### A hash sign at the end -/

/-- Whether a range covers a hash sign that ends the characters `cs`, which begin at `p`. -/
def Range.CoversLastHash (p : Position) (cs : List Char) (r : Range) : Prop :=
  ∃ before, cs = before ++ ['#'] ∧ r = .covering (p.after before) ['#']

theorem Range.CoversLastHash.shift {p : Position} {before cs : List Char} {r : Range}
    (h : r.CoversLastHash (p.after before) cs) : r.CoversLastHash p (before ++ cs) := by
  obtain ⟨more, rfl, hr⟩ := h
  refine ⟨before ++ more, by simp, ?_⟩
  rw [Position.after_append]
  exact hr

theorem StringLiteral.Item.code_of_fault? {item : Item} {fault : LexicalFault}
    (h : item.fault? = some fault) :
    fault.code = .invalidEscape ∨ fault.code = .invalidHexEscape := by
  cases item with
  | plain c => cases h
  | short c =>
    rw [fault?] at h
    split at h <;> cases h
    exact .inl rfl
  | hex width digits =>
    rw [fault?] at h
    split at h
    · cases h
      exact .inr rfl
    split at h <;> cases h
    exact .inr rfl

/-- What is wrong inside a string is an escape. -/
theorem StringLiteral.code_of_mem {p : Position} {items : List Item} {d : Diagnostic}
    (h : d ∈ diagnostics p items) : d.code = .invalidEscape ∨ d.code = .invalidHexEscape := by
  induction items generalizing p with
  | nil => cases h
  | cons item items ih =>
    rw [diagnostics] at h
    cases hfault : item.fault? with
    | none =>
      rw [hfault] at h
      exact ih h
    | some fault =>
      rw [hfault] at h
      rcases List.mem_cons.mp h with rfl | h
      · exact item.code_of_fault? hfault
      · exact ih h

namespace Lexeme

theorem eq_nil_of_hash_fault? {cs : List Char} (h : (hash cs).fault? = some .hashAtEnd) :
    cs = [] := by
  unfold hash at h
  split at h
  · rfl
  split at h
  · cases h
  split at h
  · cases h
  split at h
  · simp only [raw] at h
    split at h <;> cases h
  · cases h

theorem eq_hash_of_fault? {cs : List Char} (h : (scan cs).fault? = some .hashAtEnd) :
    cs = ['#'] := by
  unfold scan at h
  split at h
  · cases h
  next c cs =>
    split at h
    · cases h
    split at h
    · cases h
    split at h
    · simp only [quoted] at h
      split at h <;> cases h
    split at h
    next hc => rw [hc, eq_nil_of_hash_fault? h]
    split at h
    · unfold integer at h
      simp only at h
      split at h <;> cases h
    split at h <;> cases h

/-- Only a lone hash sign in front of the end of the text is reported as such. -/
theorem covers_hash {p : Position} {cs : List Char} {d : Diagnostic}
    (h : d ∈ (scan cs).diagnostics p) (hcode : d.code = .unexpectedEndOfFile) :
    cs = ['#'] ∧ d.range = .covering p ['#'] := by
  rw [diagnostics, List.mem_append] at h
  rcases h with hitem | hwhole
  · rcases StringLiteral.code_of_mem hitem with hescape | hescape <;> rw [hcode] at hescape <;>
      cases hescape
  · rw [Option.mem_toList, Option.map_eq_some_iff] at hwhole
    obtain ⟨fault, hfault, rfl⟩ := hwhole
    rw [LexicalFault.code_eq_endOfFile.mp hcode] at hfault
    have hcs := eq_hash_of_fault? hfault
    rw [hcs]
    exact ⟨rfl, rfl⟩

end Lexeme

theorem Trivia.Scanned.code_of_mem {p : Position} {s : Trivia.Scanned} {d : Diagnostic}
    (h : d ∈ s.diagnostics p) : d.code = .unterminatedBlockComment := by
  unfold diagnostics at h
  split at h
  · cases h
  · rw [List.mem_singleton.mp h]
    rfl

namespace Lexer

/-- A step reports a hash sign at the end of the text in its place. -/
theorem coversLastHash_nextToken {l : Lexer} {d : Diagnostic}
    (h : d ∈ l.nextToken.2.diagnostics) (hcode : d.code = .unexpectedEndOfFile) :
    d ∈ l.diagnostics ∨ d.range.CoversLastHash l.place l.rest := by
  have hleading := Trivia.scan_text false l.rest
  simp only [nextToken, Array.mem_append, List.mem_toArray, List.mem_append] at h
  rcases h with hbefore | (htrivia | hlexeme) | htrivia
  · exact .inl hbefore
  · have hopen := Trivia.Scanned.code_of_mem htrivia
    rw [hcode] at hopen
    cases hopen
  · obtain ⟨hrest, hrange⟩ := Lexeme.covers_hash hlexeme hcode
    rw [hrest] at hleading
    exact .inr ⟨_, hleading.symm, hrange⟩
  · have hopen := Trivia.Scanned.code_of_mem htrivia
    rw [hcode] at hopen
    cases hopen

theorem coversLastHash_drain {given : Array Token} {l : Lexer} {d : Diagnostic}
    (h : d ∈ (drain given l).2.diagnostics) (hcode : d.code = .unexpectedEndOfFile) :
    d ∈ l.diagnostics ∨ d.range.CoversLastHash l.place l.rest :=
  mem_drain (Q := fun p cs => d.range.CoversLastHash p cs)
    (fun _ hfound => coversLastHash_nextToken hfound hcode) (fun _ _ _ hlater => hlater.shift) h

end Lexer

/-! ### Two texts -/

/-- If a text leaves no comment open, its tokens but for the end of the file come first and those of
the text on the next line follow, and so do the codes of the faults. The code of an unexpected end,
which only a hash sign at the very end of a text has, becomes that of an unknown character. -/
theorem tokenize_lineFeed (a b : String)
    (h : ∀ d ∈ (tokenize a).2, d.code ≠ .unterminatedBlockComment) :
    (tokenize (a ++ "\n" ++ b)).1.map Token.kind =
        ((tokenize a).1.map Token.kind).filter (· ≠ .endOfFile) ++
          (tokenize b).1.map Token.kind ∧
      (tokenize (a ++ "\n" ++ b)).2.map Diagnostic.code =
        ((tokenize a).2.map Diagnostic.code).map Code.beforeLine ++
          (tokenize b).2.map Diagnostic.code ∧
      ∀ d ∈ (tokenize a).2, d.code = .unexpectedEndOfFile →
        d.range.CoversLastHash .origin a.toList := by
  have hchars : (a ++ "\n" ++ b).toList = a.toList ++ '\n' :: b.toList := by
    rw [String.toList_append, String.toList_append, List.append_assoc]
    rfl
  have hlexed := Lexed.ofChars_append_lineFeed (Profile.unterminated_notMem_faults h) b.toList
  have hown : (Lexed.ofChars a.toList).kinds.filter (· ≠ .endOfFile) =
      (Lexed.ofChars a.toList).kinds := by
    rw [List.filter_eq_self]
    intro kind hkind
    have hne : kind ≠ .endOfFile := fun heq => Lexed.end_notMem_kinds _ (heq ▸ hkind)
    simpa using hne
  have hcodes : LexicalFault.code ∘ (·.before '\n') = Code.beforeLine ∘ LexicalFault.code :=
    funext (LexicalFault.code_before '\n')
  refine ⟨?_, ?_, fun d hd hcode => ?_⟩
  · rw [kinds_tokenize, kinds_tokenize, kinds_tokenize, hchars, hlexed, List.filter_append, hown]
    simp
  · rw [codes_tokenize, codes_tokenize, codes_tokenize, hchars, hlexed, List.map_append,
      List.map_map, List.map_map, hcodes]
  · have hdrain : d ∈ (Lexer.drain #[] (.ofString a)).2.diagnostics := Array.mem_toList_iff.mp hd
    rcases Lexer.coversLastHash_drain hdrain hcode with hnone | hlast
    · exact absurd hnone (Array.not_mem_empty d)
    · exact hlast

/-- A short escape in a string that is not closed before a carriage return, then a hash sign. -/
theorem tokenize_lineFeed_hash :
    (∀ d ∈ (tokenize "\"\\x4\r#").2, d.code ≠ .unterminatedBlockComment) ∧
      (tokenize ("\"\\x4\r#" ++ "\n" ++ "\"open")).1.map Token.kind =
        [.string "\uFFFD", .unknown '#', .string "open", .endOfFile] ∧
      (tokenize ("\"\\x4\r#" ++ "\n" ++ "\"open")).2.map Diagnostic.code =
        [.invalidHexEscape, .unterminatedString, .unknownCharacter, .unterminatedString] := by
  have hcomment : ∀ d ∈ (tokenize "\"\\x4\r#").2, d.code ≠ .unterminatedBlockComment := by
    decide +kernel
  obtain ⟨hkinds, hcodes, -⟩ := tokenize_lineFeed "\"\\x4\r#" "\"open" hcomment
  exact ⟨hcomment, hkinds.trans (by decide +kernel), hcodes.trans (by decide +kernel)⟩

end SandboxProfile
