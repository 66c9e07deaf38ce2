import SandboxProfile.Proofs.TriviaPieces

/-!
# Nested comments

Block comments nest as their marks say, to any depth and without any character between the marks:
the scan of a comment ends behind its own closing mark. A text that begins with a comment has the
tokens and the faults of what follows, with the comment in front of the first token; without its
closing mark the comment is all that there is, and that is reported (`tokenize_comment`).
-/

namespace SandboxProfile

namespace Comment

/-- What stands between the marks of a comment: text that has no character of a mark, and
comments. -/
inductive Body where
  | done
  | text (cs : List Char) (plain : ∀ c ∈ cs, c ≠ '#' ∧ c ≠ '|') (rest : Body)
  | nested (inner rest : Body)

namespace Body

def chars : Body → List Char
  | done => []
  | text cs _ rest => cs ++ rest.chars
  | nested inner rest => '#' :: '|' :: (inner.chars ++ '|' :: '#' :: rest.chars)

/-- A comment without its closing mark. -/
def opened (b : Body) : List Char := '#' :: '|' :: b.chars

def comment (b : Body) : List Char := b.opened ++ ['|', '#']

end Body

theorem scanFrom_plain {inner : Nat} {before cs ds : List Char}
    (h : ∀ c ∈ cs, c ≠ '#' ∧ c ≠ '|') :
    scanFrom inner before (cs ++ ds) = scanFrom inner (cs.reverse ++ before) ds := by
  induction cs generalizing before with
  | nil => rfl
  | cons c cs ih =>
    obtain ⟨⟨hhash, hbar⟩, hcs⟩ := List.forall_mem_cons.mp h
    rw [List.cons_append, scanFrom, ih hcs, List.reverse_cons, List.append_assoc]
    · rfl
    · exact fun _ hc _ => hbar hc
    · exact fun _ hc _ => hhash hc

/-- The scan goes over the body of a comment as a whole. The comments inside leave the count of
open ones as it was. -/
theorem scanFrom_body (b : Body) (inner : Nat) (before ds : List Char) :
    scanFrom inner before (b.chars ++ ds) = scanFrom inner (b.chars.reverse ++ before) ds := by
  induction b generalizing inner before ds with
  | done => rfl
  | text cs plain rest ih =>
    rw [Body.chars, List.append_assoc, scanFrom_plain plain, ih, List.reverse_append,
      List.append_assoc]
  | nested body rest ihBody ihRest =>
    -- the opening mark raises the count and the closing mark lowers it, whatever it was before
    have hopen : scanFrom inner before ((Body.nested body rest).chars ++ ds) =
        scanFrom (inner + 1) ('|' :: '#' :: before)
          (body.chars ++ '|' :: '#' :: (rest.chars ++ ds)) := by
      simp only [Body.chars, List.cons_append, List.append_assoc]
      rfl
    have hclose : scanFrom (inner + 1) (body.chars.reverse ++ '|' :: '#' :: before)
        ('|' :: '#' :: (rest.chars ++ ds)) =
          scanFrom inner ('#' :: '|' :: (body.chars.reverse ++ '|' :: '#' :: before))
            (rest.chars ++ ds) := rfl
    rw [hopen, ihBody, hclose, ihRest]
    simp [Body.chars]

/-- The scan of a comment ends behind its own closing mark. -/
theorem scan_closed (b : Body) (ds : List Char) :
    scan (b.chars ++ '|' :: '#' :: ds) = ⟨b.comment, true, ds⟩ := by
  have hclose : scanFrom 0 (b.chars.reverse ++ ['|', '#']) ('|' :: '#' :: ds) =
      ⟨('#' :: '|' :: (b.chars.reverse ++ ['|', '#'])).reverse, true, ds⟩ := rfl
  rw [scan, scanFrom_body, hclose]
  simp [Body.comment, Body.opened]

theorem scan_opened (b : Body) : scan b.chars = ⟨b.opened, false, []⟩ := by
  have hbody := scanFrom_body b 0 ['|', '#'] []
  have hend : scanFrom 0 (b.chars.reverse ++ ['|', '#']) [] =
      ⟨(b.chars.reverse ++ ['|', '#']).reverse, false, []⟩ := rfl
  rw [List.append_nil, hend] at hbody
  rw [scan, hbody]
  simp [Body.opened]

end Comment

namespace Piece

open Comment

theorem scan?_comment (b : Body) (ds : List Char) :
    scan? (b.comment ++ ds) = some ⟨blockComment (String.ofList b.comment), true, ds⟩ := by
  have hfront : b.comment ++ ds = '#' :: '|' :: (b.chars ++ '|' :: '#' :: ds) := by
    simp [Body.comment, Body.opened]
  rw [hfront]
  unfold scan?
  simp only [Char.reduceEq, if_true, if_false, scan_closed]

theorem scan?_opened (b : Body) :
    scan? b.opened = some ⟨blockComment (String.ofList b.opened), false, []⟩ := by
  unfold scan? Body.opened
  simp only [Char.reduceEq, if_true, if_false, scan_opened, Body.opened]

end Piece

/-! ### Texts that begin with a piece of trivia -/

/-- A token with one more piece in front of it, which begins at `p`. -/
def Token.behind (p : Position) (piece : Piece) (t : Token) : Token :=
  ⟨t.kind, t.text, t.range, ⟨p, t.fullRange.stop⟩, piece :: t.leading, t.trailing⟩

/-- What is reported of trivia does not depend on a complete piece in front. -/
theorem Trivia.diagnostics_of_more {cs : List Char} {s : Piece.Scanned}
    (h : Piece.scan? cs = some s) (hclosed : s.closed = true) (p : Position) :
    (scan false cs).diagnostics p = (scan false s.rest).diagnostics (p.after s.piece.chars) := by
  have hchars (t : Trivia) : p.after (chars (s.piece :: t)) =
      (p.after s.piece.chars).after (chars t) := Position.after_append p s.piece.chars (chars t)
  rw [scan_of_more h (by rw [hclosed]; rfl)]
  unfold Scanned.diagnostics
  cases hmore : Piece.scan? s.rest with
  | none =>
    rw [scan_of_scan?_none hmore]
    rfl
  | some next => rw [List.dropLast_cons_of_ne_nil (scan_ne_nil hmore), hchars, hchars]

namespace Lexer

/-- The lexer of a text, when it stands behind other characters. -/
def ofStringAfter (before : List Char) (text : String) : Lexer :=
  ⟨Position.origin.after before, text.toList, #[], false⟩

/-- A lexer in front of a complete piece gives out what it gives out behind it, with the piece in
front. -/
theorem nextToken_of_piece {l : Lexer} {s : Piece.Scanned} (h : Piece.scan? l.rest = some s)
    (hclosed : s.closed = true) :
    l.nextToken =
      let after : Lexer := ⟨l.place.after s.piece.chars, s.rest, l.diagnostics, l.finished⟩
      (after.nextToken.1.behind l.place s.piece, after.nextToken.2) := by
  have hscan : Trivia.scan false l.rest = ⟨s.piece :: (Trivia.scan false s.rest).pieces,
      (Trivia.scan false s.rest).closed, (Trivia.scan false s.rest).rest⟩ :=
    Trivia.scan_of_more h (by rw [hclosed]; rfl)
  have hfound := Trivia.diagnostics_of_more h hclosed l.place
  have hplace (t : Trivia) : l.place.after (Trivia.chars (s.piece :: t)) =
      (l.place.after s.piece.chars).after (Trivia.chars t) :=
    Position.after_append l.place s.piece.chars (Trivia.chars t)
  simp only [nextToken, hfound]
  rw [hscan]
  simp only [hplace]
  rfl

end Lexer

/-- A text that begins with a complete piece has the tokens and the faults of what follows, with the
piece in front of the first token. -/
theorem tokenize_of_piece {text : String} {s : Piece.Scanned}
    (h : Piece.scan? text.toList = some s) (hclosed : s.closed = true) :
    let after := Lexer.ofStringAfter s.piece.chars (String.ofList s.rest)
    ∃ first more, after.tokens.1 = first :: more ∧
      tokenize text =
        (first.behind .origin s.piece :: more, after.tokens.2.diagnostics.toList) := by
  intro after
  have hstep : (Lexer.ofString text).nextToken =
      (after.nextToken.1.behind .origin s.piece, after.nextToken.2) := by
    rw [Lexer.nextToken_of_piece h hclosed, Lexer.ofString, ← String.toList_ofList (l := s.rest)]
    rfl
  have hkind : (Lexer.ofString text).nextToken.1.isEnd = after.nextToken.1.isEnd := by
    rw [hstep]
    rfl
  have hrun : after.tokens = ((Lexer.drain #[] after).1.toList, (Lexer.drain #[] after).2) := rfl
  have hrunText : tokenize text = ((Lexer.drain #[] (.ofString text)).1.toList,
      (Lexer.drain #[] (.ofString text)).2.diagnostics.toList) := rfl
  rw [hrun, hrunText]
  cases hend : after.nextToken.1.isEnd with
  | true =>
    rw [Lexer.drain_of_end hend, Lexer.drain_of_end (hkind.trans hend), hstep]
    exact ⟨_, _, rfl, rfl⟩
  | false =>
    obtain ⟨htokens, hlast⟩ := Lexer.drain_cons hend
    obtain ⟨htokensText, hlastText⟩ := Lexer.drain_cons (hkind.trans hend)
    refine ⟨_, _, htokens, ?_⟩
    rw [htokensText, hlastText, hlast, hstep]

/-- A lexer that stands behind other characters reports nothing of them. -/
theorem Lexer.le_of_mem_ofStringAfter {before : List Char} {text : String} {d : Diagnostic}
    (h : d ∈ (ofStringAfter before text).tokens.2.diagnostics) :
    (Position.origin.after before).offset ≤ d.range.start.offset := by
  obtain ⟨found, hfound, hspans⟩ := found_drain #[] (ofStringAfter before text)
  have hmem : d ∈ (drain #[] (ofStringAfter before text)).2.diagnostics.toList :=
    Array.mem_toList_iff.mpr h
  rw [hfound] at hmem
  exact (hspans d hmem).offsets.1

/-- A text that begins with a comment that is not closed has no token but the end of the file. -/
theorem tokenize_of_open {text : String} {s : Piece.Scanned}
    (h : Piece.scan? text.toList = some s) (hopen : s.closed = false) :
    ∃ last, last.isEnd = true ∧ last.leading = [s.piece] ∧ tokenize text =
      ([last], [LexicalFault.unterminatedBlockComment.diagnostic
        (.covering .origin s.piece.chars)]) := by
  have hscan : Trivia.scan false (Lexer.ofString text).rest = ⟨[s.piece], false, []⟩ := by
    rw [Lexer.ofString, Trivia.scan_of_last h (by rw [hopen]; rfl), hopen,
      Lexed.rest_of_open h hopen]
  have hend : (Lexer.ofString text).nextToken.1.isEnd = true := by
    simp [Lexer.nextToken, hscan, Lexeme.scan_nil, Lexeme.simple, Token.isEnd]
  have hchars : Trivia.chars [s.piece] = s.piece.chars := List.append_nil _
  have hfound : (Lexer.ofString text).nextToken.2.diagnostics.toList =
      [LexicalFault.unterminatedBlockComment.diagnostic (.covering .origin s.piece.chars)] := by
    rw [Lexer.nextToken, hscan, ← hchars]
    rfl
  refine ⟨(Lexer.ofString text).nextToken.1, hend, by rw [Lexer.nextToken, hscan], ?_⟩
  show ((Lexer.drain #[] (.ofString text)).1.toList,
    (Lexer.drain #[] (.ofString text)).2.diagnostics.toList) = _
  rw [Lexer.drain_of_end hend, hfound]
  rfl

/-- A comment with its closing mark is one piece in front of the tokens of what follows, and nothing
is reported of it; without its closing mark it is all that its text has, and that is reported. -/
theorem tokenize_comment (b : Comment.Body) :
    (∀ behind : String, ∃ first more,
      (Lexer.ofStringAfter b.comment behind).tokens.1 = first :: more ∧
      tokenize (String.ofList b.comment ++ behind) =
        (first.behind .origin (.blockComment (String.ofList b.comment)) :: more,
          (Lexer.ofStringAfter b.comment behind).tokens.2.diagnostics.toList) ∧
      ∀ d ∈ (tokenize (String.ofList b.comment ++ behind)).2,
        (Position.origin.after b.comment).offset ≤ d.range.start.offset) ∧
    ∃ last, last.isEnd = true ∧ last.leading = [.blockComment (String.ofList b.opened)] ∧
      tokenize (String.ofList b.opened) =
        ([last], [LexicalFault.unterminatedBlockComment.diagnostic
          (.covering .origin b.opened)]) := by
  constructor
  · intro behind
    have hpiece : Piece.scan? (String.ofList b.comment ++ behind).toList =
        some ⟨.blockComment (String.ofList b.comment), true, behind.toList⟩ := by
      rw [String.toList_append, String.toList_ofList]
      exact Piece.scan?_comment b behind.toList
    obtain ⟨first, more, htokens, hall⟩ := tokenize_of_piece hpiece rfl
    rw [Piece.chars, String.toList_ofList, String.ofList_toList] at htokens hall
    refine ⟨first, more, htokens, hall, fun d hd => ?_⟩
    rw [hall] at hd
    exact Lexer.le_of_mem_ofStringAfter (Array.mem_toList_iff.mp hd)
  · have hpiece : Piece.scan? (String.ofList b.opened).toList =
        some ⟨.blockComment (String.ofList b.opened), false, []⟩ := by
      rw [String.toList_ofList]
      exact Piece.scan?_opened b
    obtain ⟨last, hend, hleading, hall⟩ := tokenize_of_open hpiece rfl
    rw [Piece.chars, String.toList_ofList] at hall
    exact ⟨last, hend, hleading, hall⟩

/-- Marks may follow each other without any character between. -/
example : (tokenize "#|#||##||#|##t").1.map (fun t => (t.leading, t.kind)) =
    [([.blockComment "#|#||##||#|#"], .boolean true), ([], .endOfFile)] := by decide +kernel

end SandboxProfile
