import Mathlib.Data.List.Chain
import SandboxProfile.Proofs.LexerCalls
import SandboxProfile.Proofs.LineBreaks
import SandboxProfile.Proofs.Spelling

/-!
# Trivia by itself

A piece of trivia is decided by its own characters, and it takes as many as it can: whatever of the
text behind it is left, it is the same piece. So the text of trivia alone gives its pieces back.
Between two lexemes trivia is cut into the pieces that it would have without them, and the first
line end is where it is shared out between the tokens (`dealt_tokenize`).
-/

namespace SandboxProfile

/-- Whether a piece would have taken a character that follows it. -/
def Piece.goesOn : Piece → Char → Bool
  | spaces _, c => c = ' '
  | tabs _, c => c = '\t'
  | carriageReturn, c => c = '\n'
  | lineComment _, c => !isLineBreak c
  | lineFeed, _ | bothReturns, _ | blockComment _, _ => false

/-- Whether trivia is what its text by itself is cut into, which has no token but the end of the
file; and each of its pieces ends where it cannot go on. -/
structure Trivia.Canonical (t : Trivia) : Prop where
  alone : ∃ last, (tokenize t.text).1 = [last] ∧ last.isEnd = true ∧ last.leading = t
  maximal : t.IsChain fun p q => ∀ c ∈ q.chars.head?, p.goesOn c = false

/-- Whether the trivia of tokens in a row is shared out at line ends: behind a token it goes on to
the first line end, and in front of a token there is some only if it did. -/
structure Token.Dealt (ts : List Token) : Prop where
  canonical : ∀ t ∈ ts, t.leading.Canonical ∧ t.trailing.Canonical
  lineEnd : ∀ t ∈ ts, ∀ p ∈ t.trailing.dropLast, p.isLineEnd = false
  leading : ts.IsChain fun t u =>
    u.leading ≠ [] → ∃ p, t.trailing.getLast? = some p ∧ p.isLineEnd = true
  between : ts.IsChain fun t u => Trivia.Canonical (t.trailing ++ u.leading)

/-! ### Pieces -/

/-- The characters of a comment that is closed are this comment by themselves. -/
theorem Comment.scanFrom_alone {inner : Nat} {before cs : List Char}
    (h : (scanFrom inner before cs).closed = true) :
    ∃ used, cs = used ++ (scanFrom inner before cs).rest ∧
      scanFrom inner before used = ⟨(scanFrom inner before cs).text, true, []⟩ := by
  fun_induction scanFrom inner before cs with
  | case1 before cs => exact ⟨['|', '#'], rfl, rfl⟩
  | case2 before cs inner ih =>
    obtain ⟨used, hcs, hscan⟩ := ih h
    exact ⟨'|' :: '#' :: used, congrArg ('|' :: '#' :: ·) hcs, hscan⟩
  | case3 inner before cs ih =>
    obtain ⟨used, hcs, hscan⟩ := ih h
    exact ⟨'#' :: '|' :: used, congrArg ('#' :: '|' :: ·) hcs, hscan⟩
  | case4 inner before c cs hclose hopen ih =>
    obtain ⟨used, hcs, hscan⟩ := ih h
    refine ⟨c :: used, congrArg (c :: ·) hcs, ?_⟩
    rw [scanFrom]
    · exact hscan
    · rintro ds rfl rfl
      exact hclose _ rfl hcs
    · rintro ds rfl rfl
      exact hopen _ rfl hcs
  | case5 inner before => cases h

/-- A run of one character in front of what does not begin with it. -/
theorem span_replicate {b : Char} (n : Nat) {rest : List Char}
    (h : ∀ c ∈ rest.head?, decide (c = b) = false) :
    (List.replicate n b ++ rest).takeWhile (· = b) = List.replicate n b ∧
      (List.replicate n b ++ rest).dropWhile (· = b) = rest := by
  refine span_append (fun c hc => ?_) h
  rw [decide_eq_true_iff]
  exact List.eq_of_mem_replicate hc

namespace Piece

/-- A piece ends where it cannot go on. -/
theorem goesOn_of_scan? {cs : List Char} {s : Scanned} (h : scan? cs = some s) :
    ∀ c ∈ s.rest.head?, s.piece.goesOn c = false := by
  have hrun (p : Char → Bool) (ds : List Char) :
      ∀ c ∈ (ds.dropWhile p).head?, p c = false := by
    intro c hc
    have hstop := List.head?_dropWhile_not p ds
    rw [Option.mem_def.mp hc] at hstop
    simpa using hstop
  unfold scan? at h
  split at h
  · cases h
  split at h
  · cases h
    exact hrun (· = ' ') _
  split at h
  · cases h
    exact hrun (· = '\t') _
  split at h
  · cases h
    exact fun c _ => rfl
  split at h
  · split at h
    · cases h
      exact fun c _ => rfl
    next cs hcs =>
      cases h
      intro c hc
      rw [goesOn, decide_eq_false_iff_not]
      rintro rfl
      obtain ⟨rest, rfl⟩ := List.head?_eq_some_iff.mp hc
      exact hcs rest rfl
  split at h
  · cases h
    exact hrun (!isLineBreak ·) _
  split at h
  · split at h
    · cases h
      exact fun c _ => rfl
    · cases h
  · cases h

theorem scan?_spaces (n : Nat) {rest : List Char} (h : ∀ c ∈ rest.head?, decide (c = ' ') = false) :
    scan? (List.replicate (1 + n) ' ' ++ rest) = some ⟨spaces (1 + n), true, rest⟩ := by
  obtain ⟨htake, hdrop⟩ := span_replicate n h
  rw [Nat.add_comm, List.replicate_succ, List.cons_append]
  unfold scan?
  simp only [if_true, htake, hdrop, List.length_replicate, Nat.add_comm]

theorem scan?_tabs (n : Nat) {rest : List Char} (h : ∀ c ∈ rest.head?, decide (c = '\t') = false) :
    scan? (List.replicate (1 + n) '\t' ++ rest) = some ⟨tabs (1 + n), true, rest⟩ := by
  obtain ⟨htake, hdrop⟩ := span_replicate n h
  rw [Nat.add_comm, List.replicate_succ, List.cons_append]
  unfold scan?
  simp only [Char.reduceEq, if_true, if_false, htake, hdrop, List.length_replicate, Nat.add_comm]

theorem scan?_lineComment {cs rest : List Char} (hcs : ∀ c ∈ cs, (!isLineBreak c) = true)
    (hrest : ∀ c ∈ rest.head?, (!isLineBreak c) = false) :
    scan? (';' :: (cs ++ rest)) =
      some ⟨lineComment (String.ofList (';' :: cs)), true, rest⟩ := by
  obtain ⟨htake, hdrop⟩ := span_append hcs hrest
  unfold scan?
  simp only [Char.reduceEq, if_true, if_false, htake, hdrop]

theorem scan?_blockComment {cs : List Char} (h : (Comment.scan cs).closed = true)
    (rest : List Char) :
    scan? ((Comment.scan cs).text ++ rest) =
      some ⟨blockComment (String.ofList (Comment.scan cs).text), true, rest⟩ := by
  obtain ⟨used, hused, halone⟩ := Comment.scanFrom_alone h
  have htext := Comment.scan_text used
  rw [Comment.scan, halone, List.append_nil] at htext
  have happend := Comment.scanFrom_append (congrArg Comment.Scanned.closed halone) rest
  rw [halone, List.nil_append] at happend
  have hscan : Comment.scan (used ++ rest) = ⟨(Comment.scan cs).text, true, rest⟩ := happend
  have hfront : (Comment.scan cs).text ++ rest = '#' :: '|' :: (used ++ rest) :=
    congrArg (· ++ rest) htext
  rw [hfront]
  unfold scan?
  simp only [Char.reduceEq, if_true, if_false, hscan]

/-- A complete piece is decided by its own characters: it is the same in front of all that it cannot
go on with. -/
theorem scan?_of_closed {cs rest : List Char} {s : Scanned} (h : scan? cs = some s)
    (hclosed : s.closed = true) (hrest : ∀ c ∈ rest.head?, s.piece.goesOn c = false) :
    scan? (s.piece.chars ++ rest) = some ⟨s.piece, true, rest⟩ := by
  unfold scan? at h
  split at h
  · cases h
  split at h
  · cases h
    exact scan?_spaces _ hrest
  split at h
  · cases h
    exact scan?_tabs _ hrest
  split at h
  · cases h
    rfl
  split at h
  · split at h
    · cases h
      rfl
    · cases h
      refine scan?_carriageReturn ?_
      rintro ds rfl
      cases hrest '\n' rfl
  split at h
  next hc =>
    cases h
    subst hc
    rw [chars, String.toList_ofList]
    exact scan?_lineComment (List.all_eq_true.mp List.all_takeWhile) hrest
  split at h
  · split at h
    · cases h
      rw [chars, String.toList_ofList]
      exact scan?_blockComment hclosed rest
    · cases h
  · cases h

end Piece

/-! ### Trivia -/

namespace Trivia

/-- Scanned trivia begins with the first character of the text. -/
theorem head?_of_scan {trailing : Bool} {cs : List Char} {c : Char}
    (h : c ∈ (chars (scan trailing cs).pieces).head?) : c ∈ cs.head? := by
  rw [← scan_text trailing cs, List.head?_append, Option.mem_def.mp h]
  rfl

/-- The text of trivia gives its pieces back. -/
theorem scan_alone (trailing : Bool) (cs : List Char) :
    scan false (chars (scan trailing cs).pieces) =
      ⟨(scan trailing cs).pieces, (scan trailing cs).closed, []⟩ := by
  fun_induction scan trailing cs with
  | case1 cs hs => exact scan_nil false
  | case2 cs s hs stops =>
    have hchars : chars [s.piece] = s.piece.chars ++ [] := rfl
    rw [hchars]
    cases hc : s.closed with
    | false =>
      -- an open comment has taken all that was left, so its characters are the whole text
      have htext := Piece.scan?_text hs
      rw [Lexed.rest_of_open hs hc] at htext
      rw [htext, scan_of_last hs (by rw [hc]; rfl), hc, Lexed.rest_of_open hs hc]
    | true =>
      have hpiece : Piece.scan? (s.piece.chars ++ []) = some ⟨s.piece, true, []⟩ :=
        Piece.scan?_of_closed hs hc fun c h => by cases h
      rw [scan_of_more hpiece rfl]
      simp only [scan_nil]
  | case3 cs s hs goes more ih =>
    have hc : s.closed = true := by
      cases hc : s.closed with
      | true => rfl
      | false => simp [hc] at goes
    have hpiece : Piece.scan? (s.piece.chars ++ chars more.pieces) =
        some ⟨s.piece, true, chars more.pieces⟩ :=
      Piece.scan?_of_closed hs hc fun c h => Piece.goesOn_of_scan? hs c (head?_of_scan h)
    have hchars : chars (s.piece :: more.pieces) = s.piece.chars ++ chars more.pieces := rfl
    have hmore : scan false (chars more.pieces) = ⟨more.pieces, more.closed, []⟩ := ih
    rw [hchars, scan_of_more hpiece rfl, hmore]

/-- Each piece of trivia ends where it cannot go on. -/
theorem maximal_scan (trailing : Bool) (cs : List Char) :
    (scan trailing cs).pieces.IsChain fun p q => ∀ c ∈ q.chars.head?, p.goesOn c = false := by
  fun_induction scan trailing cs with
  | case1 cs hs => exact .nil
  | case2 cs s hs stops => exact .singleton _
  | case3 cs s hs goes more ih =>
    refine List.isChain_cons.mpr ⟨?_, ih⟩
    intro q hq c hc
    obtain ⟨others, hpieces⟩ := List.head?_eq_some_iff.mp hq
    have hfirst : c ∈ (chars more.pieces).head? := by
      rw [hpieces, chars, List.flatMap_cons, List.head?_append, Option.mem_def.mp hc]
      rfl
    exact Piece.goesOn_of_scan? hs c (head?_of_scan hfirst)

/-- Trivia behind a token goes on to the first line end: there is none before its last piece, and if
its last piece is none then nothing more follows. -/
theorem scan_lineEnd (cs : List Char) :
    (∀ p ∈ (scan true cs).pieces.dropLast, p.isLineEnd = false) ∧
      ((scan false (scan true cs).rest).pieces ≠ [] →
        ∃ p, (scan true cs).pieces.getLast? = some p ∧ p.isLineEnd = true) := by
  fun_induction scan true cs with
  | case1 cs hs =>
    refine ⟨List.forall_mem_nil _, fun h => absurd ?_ h⟩
    rw [scan_of_scan?_none hs]
  | case2 cs s hs stops =>
    refine ⟨List.forall_mem_nil _, fun h => ⟨s.piece, rfl, ?_⟩⟩
    cases hc : s.closed with
    | true => simpa [hc] using stops
    | false =>
      rw [Lexed.rest_of_open hs hc, scan_nil] at h
      exact absurd rfl h
  | case3 cs s hs goes more ih =>
    have hgoes : s.closed = true ∧ s.piece.isLineEnd = false := by simpa using goes
    constructor
    · cases hpieces : more.pieces with
      | nil => exact List.forall_mem_nil _
      | cons p ps =>
        rw [List.dropLast_cons_cons, ← hpieces]
        exact List.forall_mem_cons.mpr ⟨hgoes.2, ih.1⟩
    · intro h
      obtain ⟨p, hlast, hend⟩ := ih.2 h
      have hlast' : more.pieces.getLast? = some p := hlast
      exact ⟨p, by rw [List.getLast?_cons, hlast']; rfl, hend⟩

/-- Trivia behind a token and in front of the next is together what it is without the token. -/
theorem scan_split (cs : List Char) :
    (scan false cs).pieces = (scan true cs).pieces ++ (scan false (scan true cs).rest).pieces := by
  fun_induction scan true cs with
  | case1 cs hs => rfl
  | case2 cs s hs stops =>
    cases hc : s.closed with
    | false =>
      rw [scan_of_last hs (by rw [hc]; rfl), Lexed.rest_of_open hs hc, scan_nil]
      rfl
    | true =>
      rw [scan_of_more hs (by rw [hc]; rfl)]
      rfl
  | case3 cs s hs goes more ih =>
    have hgoes : s.closed = true ∧ s.piece.isLineEnd = false := by simpa using goes
    rw [scan_of_more hs (by rw [hgoes.1]; rfl), ih]
    rfl

/-- The text of trivia is cut into no token but the end of the file, which has the same pieces. -/
theorem canonical_scan (trailing : Bool) (cs : List Char) :
    (scan trailing cs).pieces.Canonical := by
  refine ⟨?_, maximal_scan trailing cs⟩
  have hscan : scan false (Lexer.ofString (scan trailing cs).pieces.text).rest =
      ⟨(scan trailing cs).pieces, (scan trailing cs).closed, []⟩ := by
    rw [Lexer.ofString, text, String.toList_ofList]
    exact scan_alone trailing cs
  have hend : (Lexer.ofString (scan trailing cs).pieces.text).nextToken.1.isEnd = true := by
    simp [Lexer.nextToken, hscan, Lexeme.scan_nil, Lexeme.simple, Token.isEnd]
  have htokens : (tokenize (scan trailing cs).pieces.text).1 =
      [(Lexer.ofString (scan trailing cs).pieces.text).nextToken.1] :=
    congrArg (·.1.toList) (Lexer.drain_of_end hend)
  refine ⟨_, htokens, hend, ?_⟩
  rw [Lexer.nextToken, hscan]

/-- The text determines the pieces. -/
theorem Canonical.eq_of_text {t t' : Trivia} (h : t.Canonical) (h' : t'.Canonical)
    (htext : t.text = t'.text) : t = t' := by
  obtain ⟨last, htokens, -, hleading⟩ := h.alone
  obtain ⟨last', htokens', -, hleading'⟩ := h'.alone
  rw [htext, htokens'] at htokens
  rw [← hleading, ← hleading', (List.cons.inj htokens).1]

end Trivia

/-! ### Tokens -/

namespace Lexer

/-- The trivia behind a token is what is scanned there, and the lexer stands behind it. -/
theorem trailing_nextToken (l : Lexer) :
    ∃ cs, l.nextToken.1.trailing = (Trivia.scan true cs).pieces ∧
      l.nextToken.2.rest = (Trivia.scan true cs).rest := by
  refine ⟨(Lexeme.scan (Trivia.scan false l.rest).rest).rest, ?_⟩
  cases hrest : (Trivia.scan false l.rest).rest with
  | nil => simp [nextToken, hrest, Lexeme.scan_nil, Lexeme.simple, Trivia.scan_nil]
  | cons c cs => simp only [nextToken, hrest, if_neg (Lexed.scan_kind_ne_end c cs), and_self]

theorem canonical_nextToken (l : Lexer) :
    l.nextToken.1.leading.Canonical ∧ l.nextToken.1.trailing.Canonical := by
  obtain ⟨cs, htrailing, -⟩ := trailing_nextToken l
  rw [htrailing]
  exact ⟨Trivia.canonical_scan false l.rest, Trivia.canonical_scan true cs⟩

theorem lineEnd_nextToken (l : Lexer) :
    ∀ p ∈ l.nextToken.1.trailing.dropLast, p.isLineEnd = false := by
  obtain ⟨cs, htrailing, -⟩ := trailing_nextToken l
  rw [htrailing]
  exact (Trivia.scan_lineEnd cs).1

/-- Tokens that begin with the next one share out their trivia if those behind it do. -/
theorem dealt_cons (l : Lexer) {ts : List Token} (h : Token.Dealt ts)
    (hhead : ∀ t ∈ ts.head?, t = l.nextToken.2.nextToken.1) :
    Token.Dealt (l.nextToken.1 :: ts) := by
  obtain ⟨cs, htrailing, hrest⟩ := trailing_nextToken l
  have hleading : l.nextToken.2.nextToken.1.leading =
      (Trivia.scan false (Trivia.scan true cs).rest).pieces := by
    rw [← hrest]
    rfl
  constructor
  · exact List.forall_mem_cons.mpr ⟨canonical_nextToken l, h.canonical⟩
  · exact List.forall_mem_cons.mpr ⟨lineEnd_nextToken l, h.lineEnd⟩
  · refine h.leading.cons fun t ht => ?_
    rw [hhead t ht, htrailing, hleading]
    exact (Trivia.scan_lineEnd cs).2
  · refine h.between.cons fun t ht => ?_
    rw [hhead t ht, htrailing, hleading, ← Trivia.scan_split]
    exact Trivia.canonical_scan false cs

/-- A run gives out tokens of which this holds, the next one first. -/
theorem dealt_drain (given : Array Token) (l : Lexer) :
    ∃ ts, (drain given l).1.toList = given.toList ++ ts ∧ ts.head? = some l.nextToken.1 ∧
      Token.Dealt ts := by
  have hnone : Token.Dealt [] :=
    ⟨List.forall_mem_nil _, List.forall_mem_nil _, .nil, .nil⟩
  fun_induction drain given l with
  | case1 given l step hend =>
    refine ⟨[step.1], Array.toList_push, rfl, dealt_cons l hnone ?_⟩
    exact fun t ht => by cases ht
  | case2 given l step hgo ih =>
    obtain ⟨ts, hts, hhead, hdealt⟩ := ih
    refine ⟨step.1 :: ts, ?_, rfl, dealt_cons l hdealt ?_⟩
    · rw [hts, Array.toList_push, List.append_assoc]
      rfl
    · intro t ht
      rw [hhead] at ht
      exact (Option.some.inj ht).symm

end Lexer

/-- The trivia of any text is shared out between its tokens at line ends, and the text of each share
gives its pieces back. -/
theorem dealt_tokenize (text : String) : Token.Dealt (tokenize text).1 := by
  obtain ⟨ts, htokens, -, hdealt⟩ := Lexer.dealt_drain #[] (.ofString text)
  have hall : (tokenize text).1 = ts := htokens
  rw [hall]
  exact hdealt

/-- A comment that reaches over lines does not end the trivia behind a token. -/
example : ((tokenize "a #|\n|# \r\n\tb").1.map fun t => (t.leading, t.trailing)) =
    [([], [.spaces 1, .blockComment "#|\n|#", .spaces 1, .bothReturns]), ([.tabs 1], []),
      ([], [])] := by decide +kernel

end SandboxProfile
