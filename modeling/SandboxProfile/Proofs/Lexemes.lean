import SandboxProfile.Proofs.Erasure

/-!
# What a text says, without its places

A text is cut one piece of trivia or one lexeme at a time. What remains of it are the kinds of its
lexemes and the faults in their spelling; the lexer finds the same (`kinds_tokenize`,
`erase_faults_tokenize`), however it deals the trivia out to the tokens.
-/

namespace SandboxProfile

open Placed (erase)

/-- The faults of a lexeme in the order in which they are reported. -/
def Lexeme.faults (l : Lexeme) : List LexicalFault :=
  l.items.filterMap (·.fault?) ++ l.fault?.toList

structure Lexed where
  kinds : List TokenKind
  faults : List LexicalFault
deriving DecidableEq, Repr

namespace Lexed

/-- Puts a lexeme in front. -/
def cons (l : Lexeme) (x : Lexed) : Lexed := ⟨l.kind :: x.kinds, l.faults ++ x.faults⟩

def ofChars (cs : List Char) : Lexed :=
  match _h : Piece.scan? cs with
  | some s => if s.closed then ofChars s.rest else ⟨[], [.unterminatedBlockComment]⟩
  | none =>
    match cs with
    | [] => ⟨[], []⟩
    | c :: cs => cons (Lexeme.scan (c :: cs)) (ofChars (Lexeme.scan (c :: cs)).rest)
termination_by cs.length
decreasing_by
  · exact Piece.scan?_shorter _h
  · exact Nat.lt_succ_of_le (Lexeme.scan_cons_shorter c cs)

/-! ### One step -/

@[simp] theorem ofChars_nil : ofChars [] = ⟨[], []⟩ := by rw [ofChars]; rfl

theorem ofChars_of_piece {cs : List Char} {s : Piece.Scanned} (h : Piece.scan? cs = some s)
    (hs : s.closed = true) : ofChars cs = ofChars s.rest := by
  rw [ofChars]
  split
  next s' h' =>
    obtain rfl : s = s' := Option.some.inj (h.symm.trans h')
    rw [if_pos hs]
  next h' => rw [h] at h'; cases h'

theorem ofChars_of_open {cs : List Char} {s : Piece.Scanned} (h : Piece.scan? cs = some s)
    (hs : s.closed = false) : ofChars cs = ⟨[], [.unterminatedBlockComment]⟩ := by
  rw [ofChars]
  split
  next s' h' =>
    obtain rfl : s = s' := Option.some.inj (h.symm.trans h')
    rw [hs]
    rfl
  next h' => rw [h] at h'; cases h'

theorem ofChars_of_lexeme {c : Char} {cs : List Char} (h : Piece.scan? (c :: cs) = none) :
    ofChars (c :: cs) = cons (Lexeme.scan (c :: cs)) (ofChars (Lexeme.scan (c :: cs)).rest) := by
  rw [ofChars]
  split
  next s h' => rw [h] at h'; cases h'
  next => rfl

/-- Blanks and line feeds say nothing. -/
theorem ofChars_dropWhile (b : Char) (hb : b = ' ' ∨ b = '\t') (cs : List Char) :
    ofChars (cs.dropWhile (· = b)) = ofChars cs := by
  cases cs with
  | nil => rfl
  | cons c cs =>
    by_cases hc : c = b
    · subst hc
      rw [List.dropWhile_cons_of_pos (by simp)]
      refine (ofChars_of_piece (s := ⟨?_, true, cs.dropWhile (· = c)⟩) ?_ rfl).symm
      · exact if c = ' ' then .spaces (1 + (cs.takeWhile (· = ' ')).length)
          else .tabs (1 + (cs.takeWhile (· = '\t')).length)
      · rcases hb with rfl | rfl <;> rfl
    · rw [List.dropWhile_cons_of_neg (by simpa using hc)]

@[simp] theorem ofChars_space (cs : List Char) : ofChars (' ' :: cs) = ofChars cs := by
  rw [← ofChars_dropWhile ' ' (.inl rfl), ← ofChars_dropWhile ' ' (.inl rfl) cs]
  rfl

@[simp] theorem ofChars_tab (cs : List Char) : ofChars ('\t' :: cs) = ofChars cs := by
  rw [← ofChars_dropWhile '\t' (.inr rfl), ← ofChars_dropWhile '\t' (.inr rfl) cs]
  rfl

@[simp] theorem ofChars_lineFeed (cs : List Char) : ofChars ('\n' :: cs) = ofChars cs :=
  ofChars_of_piece (s := ⟨.lineFeed, true, cs⟩) rfl rfl

theorem kinds_leftParen (cs : List Char) :
    (ofChars ('(' :: cs)).kinds = .leftParen :: (ofChars cs).kinds := by
  rw [ofChars_of_lexeme rfl]
  rfl

theorem kinds_rightParen (cs : List Char) :
    (ofChars (')' :: cs)).kinds = .rightParen :: (ofChars cs).kinds := by
  rw [ofChars_of_lexeme rfl]
  rfl

/-! ### The lexer -/

theorem rest_of_open {cs : List Char} {s : Piece.Scanned} (h : Piece.scan? cs = some s)
    (hs : s.closed = false) : s.rest = [] := by
  unfold Piece.scan? at h
  split at h
  · cases h
  split at h
  · cases h; cases hs
  split at h
  · cases h; cases hs
  split at h
  · cases h; cases hs
  split at h
  · split at h <;> cases h <;> cases hs
  split at h
  · cases h; cases hs
  split at h
  · split at h
    · cases h
      exact Comment.scanFrom_rest_of_open hs
    · cases h
  · cases h

/-- Trivia that is complete says nothing. -/
theorem ofChars_trivia {trailing : Bool} {cs : List Char}
    (h : (Trivia.scan trailing cs).closed = true) :
    ofChars (Trivia.scan trailing cs).rest = ofChars cs := by
  fun_induction Trivia.scan trailing cs with
  | case1 cs hs => rfl
  | case2 cs s hs stops => exact (ofChars_of_piece hs h).symm
  | case3 cs s hs goes more ih =>
    rw [ih h]
    refine (ofChars_of_piece hs ?_).symm
    cases hc : s.closed with
    | true => rfl
    | false => simp [hc] at goes

/-- Trivia that is not complete takes all that is left. -/
theorem ofChars_open_trivia {trailing : Bool} {cs : List Char}
    (h : (Trivia.scan trailing cs).closed = false) :
    (Trivia.scan trailing cs).rest = [] ∧ ofChars cs = ⟨[], [.unterminatedBlockComment]⟩ := by
  fun_induction Trivia.scan trailing cs with
  | case1 cs hs => cases h
  | case2 cs s hs stops => exact ⟨rest_of_open hs h, ofChars_of_open hs h⟩
  | case3 cs s hs goes more ih =>
    have hc : s.closed = true := by
      cases hc : s.closed with
      | true => rfl
      | false => simp [hc] at goes
    exact ⟨(ih h).1, (ofChars_of_piece hs hc).trans (ih h).2⟩

/-- Leading trivia leaves no piece in front. -/
theorem scan?_of_trivia {cs : List Char} (h : (Trivia.scan false cs).closed = true) :
    Piece.scan? (Trivia.scan false cs).rest = none := by
  generalize ht : false = trailing at h ⊢
  fun_induction Trivia.scan trailing cs with
  | case1 cs hs => exact hs
  | case2 cs s hs stops =>
    subst ht
    have hc : s.closed = true := h
    simp [hc] at stops
  | case3 cs s hs goes more ih => exact ih h

theorem scan_kind_ne_end (c : Char) (cs : List Char) :
    (Lexeme.scan (c :: cs)).kind ≠ .endOfFile := by
  rw [Lexeme.scan]
  split
  · intro h
    cases h
  split
  · intro h
    cases h
  split
  · intro h
    cases h
  split
  · unfold Lexeme.hash
    split
    · intro h
      cases h
    split
    · intro h
      cases h
    split
    · intro h
      cases h
    split <;> rintro ⟨⟩
  split
  · unfold Lexeme.integer
    simp only
    split <;> rintro ⟨⟩
  split <;> rintro ⟨⟩

theorem end_notMem_kinds (cs : List Char) : TokenKind.endOfFile ∉ (ofChars cs).kinds := by
  fun_induction ofChars cs with
  | case1 cs s hs hclosed ih => exact ih
  | case2 cs s hs hopen => exact List.not_mem_nil
  | case3 hs => exact List.not_mem_nil
  | case4 c cs hs ih =>
    intro hmem
    rcases List.mem_cons.mp hmem with heq | hmem
    · exact scan_kind_ne_end c cs heq.symm
    · exact ih hmem

/-- A report on a fault, its place aside. -/
def report (fault : LexicalFault) : Diagnostic := fault.diagnostic .zero

theorem erase_lexeme_diagnostics (p : Position) (l : Lexeme) :
    erase (l.diagnostics p) = l.faults.map report := by
  have hitems : ∀ (q : Position) (items : List StringLiteral.Item),
      erase (StringLiteral.diagnostics q items) = (items.filterMap (·.fault?)).map report := by
    intro q items
    induction items generalizing q with
    | nil => rfl
    | cons item items ih =>
      rw [StringLiteral.diagnostics, List.filterMap_cons]
      cases item.fault? with
      | none => exact ih _
      | some fault => exact congrArg (report fault :: ·) (ih _)
  rw [Lexeme.diagnostics, Lexeme.faults, erase_append, hitems, List.map_append]
  cases l.fault? <;> rfl

/-- The fault of trivia, if there is one. -/
def triviaFaults (s : Trivia.Scanned) : List LexicalFault :=
  if s.closed then [] else [.unterminatedBlockComment]

theorem erase_trivia_diagnostics (p : Position) (s : Trivia.Scanned) :
    erase (s.diagnostics p) = (triviaFaults s).map report := by
  unfold Trivia.Scanned.diagnostics triviaFaults
  split <;> rfl

theorem ofChars_triviaFaults (trailing : Bool) (cs : List Char) :
    ofChars cs =
      ⟨(ofChars (Trivia.scan trailing cs).rest).kinds,
        triviaFaults (Trivia.scan trailing cs) ++
          (ofChars (Trivia.scan trailing cs).rest).faults⟩ := by
  unfold triviaFaults
  cases h : (Trivia.scan trailing cs).closed with
  | true => exact (ofChars_trivia h).symm
  | false =>
    obtain ⟨hrest, hchars⟩ := ofChars_open_trivia h
    rw [hrest, hchars, ofChars_nil]
    rfl

end Lexed

namespace Lexer

open Lexed

theorem nextToken_of_end {l : Lexer} (h : (Trivia.scan false l.rest).rest = []) :
    l.nextToken.1.kind = .endOfFile ∧
      erase l.nextToken.2.diagnostics.toList =
        erase l.diagnostics.toList ++ (ofChars l.rest).faults.map report ∧
      (ofChars l.rest).kinds = [] := by
  have hchars := ofChars_triviaFaults false l.rest
  rw [h, ofChars_nil] at hchars
  rw [hchars]
  refine ⟨by simp [nextToken, h, Lexeme.scan_nil, Lexeme.simple], ?_, rfl⟩
  simp only [nextToken, h, Lexeme.scan_nil, Lexeme.simple, if_true, Array.toList_append,
    erase_append, erase_trivia_diagnostics, erase_lexeme_diagnostics, List.map_append]
  simp [Lexeme.faults, triviaFaults]

theorem nextToken_of_lexeme {l : Lexer} {c : Char} {cs : List Char}
    (h : (Trivia.scan false l.rest).rest = c :: cs) :
    l.nextToken.1.kind ≠ .endOfFile ∧ ∃ found : List LexicalFault,
      erase l.nextToken.2.diagnostics.toList = erase l.diagnostics.toList ++ found.map report ∧
      ofChars l.rest = ⟨l.nextToken.1.kind :: (ofChars l.nextToken.2.rest).kinds,
        found ++ (ofChars l.nextToken.2.rest).faults⟩ := by
  have hclosed : (Trivia.scan false l.rest).closed = true := by
    cases hc : (Trivia.scan false l.rest).closed with
    | true => rfl
    | false => rw [(ofChars_open_trivia hc).1] at h; cases h
  have hnone := scan?_of_trivia hclosed
  have hkind := scan_kind_ne_end c cs
  have hchars := ofChars_trivia hclosed
  rw [h] at hnone hchars
  rw [ofChars_of_lexeme hnone, ofChars_triviaFaults true] at hchars
  refine ⟨by simpa [nextToken, h] using hkind, ?_⟩
  refine ⟨(Lexeme.scan (c :: cs)).faults ++
    triviaFaults (Trivia.scan true (Lexeme.scan (c :: cs)).rest), ?_, ?_⟩
  · have hlead : triviaFaults (Trivia.scan false l.rest) = [] := by simp [triviaFaults, hclosed]
    simp only [nextToken, h, if_neg hkind, Array.toList_append, erase_append,
      erase_trivia_diagnostics, erase_lexeme_diagnostics, List.map_append, hlead]
    rfl
  · rw [← hchars]
    simp [nextToken, h, if_neg hkind, Lexed.cons, List.append_assoc]

/-- The lexer gives out the kinds and reports the faults that a cut of the text finds. -/
theorem drain_takes (before : Array Token) (l : Lexer) :
    (drain before l).1.toList.map Token.kind =
        before.toList.map Token.kind ++ (ofChars l.rest).kinds ++ [.endOfFile] ∧
      erase (drain before l).2.diagnostics.toList =
        erase l.diagnostics.toList ++ (ofChars l.rest).faults.map report := by
  fun_induction drain before l with
  | case1 before l step hend =>
    cases h : (Trivia.scan false l.rest).rest with
    | nil =>
      obtain ⟨hkind, hdiag, hkinds⟩ := nextToken_of_end h
      refine ⟨?_, hdiag⟩
      rw [hkinds]
      simp [step, hkind]
    | cons c cs => exact absurd (of_decide_eq_true hend) (nextToken_of_lexeme h).1
  | case2 before l step hgo ih =>
    cases h : (Trivia.scan false l.rest).rest with
    | nil => exact absurd (decide_eq_true (nextToken_of_end h).1) hgo
    | cons c cs =>
      obtain ⟨-, found, hdiag, hchars⟩ := nextToken_of_lexeme h
      rw [ih.1, ih.2, hchars, hdiag]
      simp [step]

end Lexer

/-- The kinds of the tokens of a text. -/
theorem kinds_tokenize (text : String) :
    (tokenize text).1.map Token.kind = (Lexed.ofChars text.toList).kinds ++ [.endOfFile] :=
  (Lexer.drain_takes #[] (Lexer.ofString text)).1

/-- The faults of a text. -/
theorem erase_faults_tokenize (text : String) :
    erase (tokenize text).2 = (Lexed.ofChars text.toList).faults.map Lexed.report :=
  (Lexer.drain_takes #[] (Lexer.ofString text)).2

end SandboxProfile
