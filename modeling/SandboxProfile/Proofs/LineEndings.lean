import SandboxProfile.Layout.Format
import SandboxProfile.Proofs.BareText

/-!
# Line endings

A carriage return in front of every line feed makes no difference. Wherever it is put, in front of a
line feed there is trivia, a comment or the end of a literal, and only the line feed begins a new
line. So the text has the same tokens, at the same lines and columns, and it is read and formatted
the same (`withReturns_keeps`), whatever carriage returns it had before.
-/

namespace SandboxProfile

/-- Characters with a carriage return put in front of every line feed. -/
def withReturns (cs : List Char) : List Char :=
  cs.flatMap fun c => if c = '\n' then ['\r', '\n'] else [c]

/-- A text with a carriage return put in front of every line feed. -/
def textWithReturns (text : String) : String := String.ofList (withReturns text.toList)

@[simp] theorem withReturns_nil : withReturns [] = [] := rfl

@[simp] theorem withReturns_lineFeed (cs : List Char) :
    withReturns ('\n' :: cs) = '\r' :: '\n' :: withReturns cs := rfl

theorem withReturns_cons {c : Char} (h : c ≠ '\n') (cs : List Char) :
    withReturns (c :: cs) = c :: withReturns cs := by
  simp [withReturns, h]

@[simp] theorem withReturns_append (cs ds : List Char) :
    withReturns (cs ++ ds) = withReturns cs ++ withReturns ds := List.flatMap_append

theorem withReturns_eq_self {cs : List Char} (h : '\n' ∉ cs) : withReturns cs = cs := by
  induction cs with
  | nil => rfl
  | cons c cs ih =>
    rw [List.mem_cons, not_or] at h
    rw [withReturns_cons (Ne.symm h.1), ih h.2]

/-- A first character other than a carriage return was there before; it is no line feed then. -/
theorem eq_cons_of_withReturns {d : Char} {cs ds : List Char} (h : withReturns cs = d :: ds)
    (hd : d ≠ '\r') : d ≠ '\n' ∧ ∃ es, cs = d :: es := by
  cases cs with
  | nil => cases h
  | cons c cs =>
    by_cases hc : c = '\n'
    · subst hc
      exact absurd (List.cons.inj h).1.symm hd
    · rw [withReturns_cons hc] at h
      obtain ⟨rfl, -⟩ := List.cons.inj h
      exact ⟨hc, cs, rfl⟩

theorem withReturns_ne_lineFeed (cs rest : List Char) : withReturns cs ≠ '\n' :: rest := by
  intro h
  exact (eq_cons_of_withReturns h (by decide)).1 rfl

theorem withReturns_break {b : Char} (hb : isLineBreak b = true) (ds : List Char) :
    ∃ more, withReturns (b :: ds) = '\r' :: more := by
  rcases eq_of_isLineBreak hb with rfl | rfl
  · exact ⟨_, rfl⟩
  · exact ⟨withReturns ds, withReturns_cons (by decide) ds⟩

/-- The first line of a text stays as it is; what ends it begins with a carriage return then. -/
theorem exists_firstLine (cs : List Char) : '\n' ∉ cs ∨ ∃ line b ds more,
    isLineBreak b = true ∧ '\n' ∉ line ∧ cs = line ++ b :: ds ∧
      withReturns (b :: ds) = '\r' :: more := by
  induction cs with
  | nil => exact .inl List.not_mem_nil
  | cons c cs ih =>
    by_cases hc : isLineBreak c = true
    · obtain ⟨more, hmore⟩ := withReturns_break hc cs
      exact .inr ⟨[], c, cs, more, hc, List.not_mem_nil, rfl, hmore⟩
    · have hne : '\n' ≠ c := by
        rintro rfl
        exact hc rfl
      rcases ih with hline | ⟨line, b, ds, more, hb, hline, rfl, hmore⟩
      · exact .inl (List.not_mem_cons_of_ne_of_not_mem hne hline)
      · exact .inr ⟨c :: line, b, ds, more, hb, List.not_mem_cons_of_ne_of_not_mem hne hline, rfl,
          hmore⟩

theorem dropWhile_withReturns {p : Char → Bool} (hfeed : p '\n' = false) (hreturn : p '\r' = false)
    (cs : List Char) : (withReturns cs).dropWhile p = withReturns (cs.dropWhile p) := by
  induction cs with
  | nil => rfl
  | cons c cs ih =>
    by_cases hc : c = '\n'
    · subst hc
      rw [withReturns_lineFeed, List.dropWhile_cons_of_neg (by simp [hreturn]),
        List.dropWhile_cons_of_neg (by simp [hfeed]), withReturns_lineFeed]
    · rw [withReturns_cons hc, List.dropWhile_cons, List.dropWhile_cons, ih]
      split
      · rfl
      · exact (withReturns_cons hc cs).symm

/-! ### Lines and columns -/

/-- The line and the column of a place. -/
def Position.lineColumn (p : Position) : Nat × Nat := (p.line, p.column)

theorem Position.lineColumn_next {p q : Position} (h : p.lineColumn = q.lineColumn) (c : Char) :
    (p.next c).lineColumn = (q.next c).lineColumn := by
  obtain ⟨hline, hcolumn⟩ := Prod.mk.inj h
  unfold next lineColumn
  split
  · simp [hline]
  · simp [hline, hcolumn]

/-- A carriage return in front of a line feed moves neither the line nor the column behind it. -/
theorem Position.lineColumn_withReturns {p q : Position} (h : p.lineColumn = q.lineColumn)
    (cs : List Char) : (p.after (withReturns cs)).lineColumn = (q.after cs).lineColumn := by
  induction cs generalizing p q with
  | nil => exact h
  | cons c cs ih =>
    by_cases hc : c = '\n'
    · subst hc
      have hline : p.line = q.line := (Prod.mk.inj h).1
      have hnext : ((p.next '\r').next '\n').lineColumn = (q.next '\n').lineColumn := by
        simp [next, lineColumn, hline]
      exact ih hnext
    · rw [withReturns_cons hc]
      exact ih (lineColumn_next h c)

/-! ### Trivia -/

/-- A comment is closed at the same place, and what is left has its carriage returns. -/
theorem Comment.scanFrom_withReturns (inner : Nat) (before before' cs : List Char) :
    (scanFrom inner before' (withReturns cs)).closed = (scanFrom inner before cs).closed ∧
      (scanFrom inner before' (withReturns cs)).rest =
        withReturns (scanFrom inner before cs).rest := by
  fun_induction scanFrom inner before cs generalizing before' with
  | case1 before cs => exact ⟨rfl, rfl⟩
  | case2 before cs inner ih => exact ih _
  | case3 inner before cs ih => exact ih _
  | case4 inner before c cs hclose hopen ih =>
    by_cases hc : c = '\n'
    · subst hc
      have hstep : scanFrom inner before' (withReturns ('\n' :: cs)) =
          scanFrom inner ('\n' :: '\r' :: before') (withReturns cs) := by
        rw [withReturns_lineFeed, scanFrom, scanFrom] <;> simp
      rw [hstep]
      exact ih _
    · rw [withReturns_cons hc, scanFrom]
      · exact ih _
      · intro ds hbar hds
        obtain ⟨-, es, hes⟩ := eq_cons_of_withReturns hds (by decide)
        exact hclose es hbar hes
      · intro ds hhash hds
        obtain ⟨-, es, hes⟩ := eq_cons_of_withReturns hds (by decide)
        exact hopen es hhash hes
  | case5 inner before => exact ⟨rfl, rfl⟩

/-- A piece of trivia stays one piece, but for a carriage return and a line feed. -/
theorem Piece.scan?_withReturns {cs : List Char} {s : Scanned} (h : scan? cs = some s)
    (hpiece : s.piece ≠ .bothReturns) :
    ∃ piece, scan? (withReturns cs) = some ⟨piece, s.closed, withReturns s.rest⟩ := by
  unfold scan? at h
  split at h
  · cases h
  next c cs =>
  split at h
  next hc =>
    cases h
    subst hc
    refine ⟨.spaces (1 + ((withReturns cs).takeWhile (· = ' ')).length), ?_⟩
    rw [← dropWhile_withReturns (by decide) (by decide)]
    rfl
  split at h
  next hc =>
    cases h
    subst hc
    refine ⟨.tabs (1 + ((withReturns cs).takeWhile (· = '\t')).length), ?_⟩
    rw [← dropWhile_withReturns (by decide) (by decide)]
    rfl
  split at h
  next hc =>
    cases h
    subst hc
    exact ⟨.bothReturns, rfl⟩
  split at h
  next hc =>
    subst hc
    split at h
    · cases h
      exact absurd rfl hpiece
    · cases h
      refine ⟨.carriageReturn, ?_⟩
      rw [withReturns_cons (by decide)]
      exact scan?_carriageReturn (withReturns_ne_lineFeed cs)
  split at h
  next hc =>
    cases h
    subst hc
    refine ⟨.lineComment (String.ofList (';' :: (withReturns cs).takeWhile (!isLineBreak ·))), ?_⟩
    rw [← dropWhile_withReturns (by decide) (by decide)]
    rfl
  split at h
  next hc =>
    subst hc
    split at h
    next rest =>
      cases h
      have hscan := Comment.scanFrom_withReturns 0 ['|', '#'] ['|', '#'] rest
      have hclosed : (Comment.scan (withReturns rest)).closed = (Comment.scan rest).closed :=
        hscan.1
      have hrest : (Comment.scan (withReturns rest)).rest = withReturns (Comment.scan rest).rest :=
        hscan.2
      refine ⟨.blockComment (String.ofList (Comment.scan (withReturns rest)).text), ?_⟩
      simp only [← hclosed, ← hrest]
      rfl
    · cases h
  · cases h

/-! ### Lexemes -/

/-- A lexeme stays what it is, and has no line feed in it. -/
theorem Lexeme.scan_withReturns {c : Char} {cs : List Char} (h : Piece.scan? (c :: cs) = none) :
    Piece.scan? (c :: withReturns cs) = none ∧
      (scan (c :: withReturns cs)).kind = (scan (c :: cs)).kind ∧
      (scan (c :: withReturns cs)).text = (scan (c :: cs)).text ∧
      (scan (c :: withReturns cs)).rest = withReturns (scan (c :: cs)).rest ∧
      '\n' ∉ (scan (c :: cs)).text := by
  have hc : '\n' ≠ c := by
    rintro rfl
    cases h
  -- the lexeme ends on the first line, so both scans are scans of that line
  rcases exists_firstLine cs with hline | ⟨line, b, ds, more, hb, hline, rfl, hmore⟩
  · have htext : '\n' ∉ (scan (c :: cs)).text ++ (scan (c :: cs)).rest := by
      rw [scan_text]
      exact List.not_mem_cons_of_ne_of_not_mem hc hline
    rw [List.mem_append, not_or] at htext
    rw [withReturns_eq_self hline, withReturns_eq_self htext.2]
    exact ⟨h, rfl, rfl, rfl, htext.1⟩
  · have htext : '\n' ∉ (scan (c :: line)).text ++ (scan (c :: line)).rest := by
      rw [scan_text]
      exact List.not_mem_cons_of_ne_of_not_mem hc hline
    rw [List.mem_append, not_or] at htext
    have hrest : withReturns ((scan (c :: line)).rest ++ b :: ds) =
        (scan (c :: line)).rest ++ '\r' :: more := by
      rw [withReturns_append, withReturns_eq_self htext.2, hmore]
    rw [withReturns_append, withReturns_eq_self hline, hmore, scan_break rfl, scan_break hb]
    exact ⟨Piece.scan?_break rfl (Piece.scan?_of_append h) more, rfl, rfl, hrest.symm, htext.1⟩

/-! ### Tokens -/

/-- A token as it is seen on its line: its kind, and the lines and columns of its ends. -/
structure Sight where
  kind : TokenKind
  start : Nat × Nat
  stop : Nat × Nat
deriving DecidableEq, Repr

namespace Sight

/-- What is seen of a run of characters that begins at `p`. -/
def covering (kind : TokenKind) (p : Position) (cs : List Char) : Sight :=
  ⟨kind, p.lineColumn, (p.after cs).lineColumn⟩

/-- What is seen of the tokens of characters that begin at `p`. -/
def ofChars (p : Position) (cs : List Char) : List Sight :=
  match _h : Piece.scan? cs with
  | some s => ofChars (p.after s.piece.chars) s.rest
  | none =>
    match cs with
    | [] => [covering .endOfFile p []]
    | c :: cs =>
      covering (Lexeme.scan (c :: cs)).kind p (Lexeme.scan (c :: cs)).text ::
        ofChars (p.after (Lexeme.scan (c :: cs)).text) (Lexeme.scan (c :: cs)).rest
termination_by cs.length
decreasing_by
  · exact Piece.scan?_shorter _h
  · exact Nat.lt_succ_of_le (Lexeme.scan_cons_shorter c cs)

theorem ofChars_nil (p : Position) : ofChars p [] = [covering .endOfFile p []] := by
  rw [ofChars]
  rfl

theorem ofChars_of_piece {cs : List Char} {s : Piece.Scanned} (h : Piece.scan? cs = some s)
    (p : Position) : ofChars p cs = ofChars (p.after s.piece.chars) s.rest := by
  rw [ofChars]
  split
  next s' h' =>
    obtain rfl : s = s' := Option.some.inj (h.symm.trans h')
    rfl
  next h' => rw [h] at h'; cases h'

theorem ofChars_of_lexeme {c : Char} {cs : List Char} (h : Piece.scan? (c :: cs) = none)
    (p : Position) :
    ofChars p (c :: cs) = covering (Lexeme.scan (c :: cs)).kind p (Lexeme.scan (c :: cs)).text ::
      ofChars (p.after (Lexeme.scan (c :: cs)).text) (Lexeme.scan (c :: cs)).rest := by
  rw [ofChars]
  split
  next s h' => rw [h] at h'; cases h'
  next => rfl

theorem ofChars_trivia (trailing : Bool) (p : Position) (cs : List Char) :
    ofChars p cs = ofChars (p.after (Trivia.chars (Trivia.scan trailing cs).pieces))
      (Trivia.scan trailing cs).rest := by
  fun_induction Trivia.scan trailing cs generalizing p with
  | case1 cs hs => rfl
  | case2 cs s hs stops =>
    rw [ofChars_of_piece hs]
    simp [Trivia.chars]
  | case3 cs s hs goes more ih =>
    rw [ofChars_of_piece hs, ih]
    simp [Trivia.chars, more, Position.after_append]

end Sight

/-- What is seen of a token. -/
def Token.sight (t : Token) : Sight := ⟨t.kind, t.range.start.lineColumn, t.range.stop.lineColumn⟩

namespace Lexer

theorem sight_nextToken_of_end {l : Lexer} (h : l.nextToken.1.isEnd = true) :
    Sight.ofChars l.place l.rest = [l.nextToken.1.sight] := by
  have hkind : (Lexeme.scan (Trivia.scan false l.rest).rest).kind = .endOfFile := by
    simpa [nextToken, Token.isEnd] using h
  cases hrest : (Trivia.scan false l.rest).rest with
  | nil =>
    rw [Sight.ofChars_trivia false, hrest, Sight.ofChars_nil]
    simp [nextToken, hrest, Lexeme.scan_nil, Lexeme.simple, Token.sight, Sight.covering]
  | cons c cs =>
    rw [hrest] at hkind
    exact absurd hkind (Lexed.scan_kind_ne_end c cs)

theorem sight_nextToken {l : Lexer} (h : l.nextToken.1.isEnd = false) :
    Sight.ofChars l.place l.rest =
      l.nextToken.1.sight :: Sight.ofChars l.nextToken.2.place l.nextToken.2.rest := by
  have hkind : (Lexeme.scan (Trivia.scan false l.rest).rest).kind ≠ .endOfFile := by
    simpa [nextToken, Token.isEnd] using h
  have hnone : Piece.scan? (Trivia.scan false l.rest).rest = none := by
    cases hclosed : (Trivia.scan false l.rest).closed with
    | true => exact Lexed.scan?_of_trivia hclosed
    | false =>
      rw [(Lexed.ofChars_open_trivia hclosed).1]
      rfl
  rw [Sight.ofChars_trivia false]
  cases hrest : (Trivia.scan false l.rest).rest with
  | nil =>
    rw [hrest] at hkind
    exact absurd rfl hkind
  | cons c cs =>
    rw [hrest] at hnone hkind
    rw [Sight.ofChars_of_lexeme hnone, Sight.ofChars_trivia true]
    simp [nextToken, hrest, hkind, Token.sight, Sight.covering]

theorem sight_drain (given : Array Token) (l : Lexer) :
    (drain given l).1.toList.map Token.sight =
      given.toList.map Token.sight ++ Sight.ofChars l.place l.rest := by
  fun_induction drain given l with
  | case1 given l step hend =>
    rw [sight_nextToken_of_end hend]
    simp [step]
  | case2 given l step hgo ih =>
    have hstep : Sight.ofChars l.place l.rest =
        step.1.sight :: Sight.ofChars step.2.place step.2.rest :=
      sight_nextToken (Bool.eq_false_iff.mpr hgo)
    rw [ih, hstep]
    simp

end Lexer

theorem sight_tokenize (text : String) :
    (tokenize text).1.map Token.sight = Sight.ofChars .origin text.toList :=
  Lexer.sight_drain #[] (.ofString text)

/-! ### Texts -/

/-- The same is seen with carriage returns and without. -/
theorem Sight.ofChars_withReturns {p q : Position} (h : p.lineColumn = q.lineColumn)
    (cs : List Char) : ofChars p (withReturns cs) = ofChars q cs := by
  fun_induction ofChars q cs generalizing p with
  | case1 q cs s hs ih =>
    have htext := Piece.scan?_text hs
    by_cases hboth : s.piece = .bothReturns
    · -- a carriage return and a line feed become two pieces: the return, and both
      rw [hboth] at htext ih ⊢
      have hcs : withReturns cs = '\r' :: '\r' :: '\n' :: withReturns s.rest := by
        rw [← htext]
        rfl
      have hreturn : Piece.scan? ('\r' :: '\r' :: '\n' :: withReturns s.rest) =
          some ⟨.carriageReturn, true, '\r' :: '\n' :: withReturns s.rest⟩ := rfl
      have hfeed : Piece.scan? ('\r' :: '\n' :: withReturns s.rest) =
          some ⟨.bothReturns, true, withReturns s.rest⟩ := rfl
      have hafter := Position.lineColumn_withReturns h ['\r', '\n']
      rw [hcs, ofChars_of_piece hreturn, ofChars_of_piece hfeed, ← Position.after_append]
      exact ih hafter
    · obtain ⟨piece, hpiece⟩ := Piece.scan?_withReturns hs hboth
      have hchars : piece.chars = withReturns s.piece.chars := by
        have hboth : piece.chars ++ withReturns s.rest = withReturns cs := Piece.scan?_text hpiece
        rw [← htext, withReturns_append] at hboth
        exact List.append_cancel_right hboth
      rw [ofChars_of_piece hpiece, hchars]
      exact ih (Position.lineColumn_withReturns h s.piece.chars)
  | case2 q hs =>
    rw [withReturns_nil, ofChars_nil, covering, covering, Position.after_nil, Position.after_nil, h]
  | case3 q c cs hs ih =>
    obtain ⟨hnone, hkind, htext, hrest, hline⟩ := Lexeme.scan_withReturns hs
    have hc : c ≠ '\n' := by
      rintro rfl
      cases hs
    have hafter := Position.lineColumn_withReturns h (Lexeme.scan (c :: cs)).text
    rw [withReturns_eq_self hline] at hafter
    rw [withReturns_cons hc, ofChars_of_lexeme hnone, hkind, htext, hrest, ih hafter, covering,
      covering, h, hafter]

/-- A carriage return in front of every line feed changes neither the kinds of the tokens nor the
lines and columns at which they begin and end, nor the profile, nor its formatted text. -/
theorem withReturns_keeps (text : String) :
    (tokenize (textWithReturns text)).1.map Token.sight = (tokenize text).1.map Token.sight ∧
      (∀ limit, Wire.Profile.ofTree (Profile.read limit (textWithReturns text)).profile =
        Wire.Profile.ofTree (Profile.read limit text).profile) ∧
      ∀ indent, (Profile.format indent (textWithReturns text)).1 =
        (Profile.format indent text).1 := by
  have hsight : (tokenize (textWithReturns text)).1.map Token.sight =
      (tokenize text).1.map Token.sight := by
    rw [sight_tokenize, sight_tokenize, textWithReturns, String.toList_ofList]
    exact Sight.ofChars_withReturns rfl _
  have hkinds : (Lexed.ofChars (textWithReturns text).toList).kinds =
      (Lexed.ofChars text.toList).kinds := by
    have hmap := congrArg (List.map Sight.kind) hsight
    have hkind : Sight.kind ∘ Token.sight = Token.kind := rfl
    rw [List.map_map, List.map_map, hkind, kinds_tokenize, kinds_tokenize] at hmap
    exact List.append_cancel_right hmap
  have hwire : ∀ limit, Wire.Profile.ofTree (Profile.read limit (textWithReturns text)).profile =
      Wire.Profile.ofTree (Profile.read limit text).profile := by
    intro limit
    rw [Profile.wire_read, Profile.wire_read, hkinds]
  exact ⟨hsight, hwire, fun indent => congrArg (·.source indent) (hwire Profile.defaultLimit)⟩

end SandboxProfile
