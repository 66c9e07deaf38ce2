import SandboxProfile.Proofs.LexerCalls

/-!
# The token at the front of a text

A text that begins with no trivia begins with a lexeme, and its first token is that lexeme. What is
reported of the text are the faults of the lexeme and behind them those of what follows, which all
lie behind it (`leads_of_scan`).
-/

namespace SandboxProfile

/-- Whether a text begins with a token of a given kind that has exactly these characters, of which
`found` is reported, and nothing else. -/
def Leads (text : String) (kind : TokenKind) (chars : List Char) (found : List Diagnostic) : Prop :=
  ∃ token more later, tokenize text = (token :: more, found ++ later) ∧
    token.kind = kind ∧ token.text = String.ofList chars ∧
    token.range = .covering .origin chars ∧
    ∀ d ∈ later, (Position.origin.after chars).offset ≤ d.range.start.offset

namespace Lexer

variable {l : Lexer} {c : Char} {cs : List Char}

/-- A step from the front of a lexeme gives this lexeme out. What it reports behind the lexeme's own
faults lies behind the lexeme. -/
theorem nextToken_of_front (hrest : l.rest = c :: cs) (hfront : Piece.scan? (c :: cs) = none) :
    l.nextToken.1.kind = (Lexeme.scan (c :: cs)).kind ∧
      l.nextToken.1.text = String.ofList (Lexeme.scan (c :: cs)).text ∧
      l.nextToken.1.range = .covering l.place (Lexeme.scan (c :: cs)).text ∧
      (l.place.after (Lexeme.scan (c :: cs)).text).offset ≤ l.nextToken.2.place.offset ∧
      ∃ later, l.nextToken.2.diagnostics.toList =
          l.diagnostics.toList ++ ((Lexeme.scan (c :: cs)).diagnostics l.place ++ later) ∧
        ∀ d ∈ later,
          (l.place.after (Lexeme.scan (c :: cs)).text).offset ≤ d.range.start.offset := by
  have hscan : Trivia.scan false l.rest = ⟨[], true, c :: cs⟩ := by
    rw [hrest]
    exact Trivia.scan_of_scan?_none hfront
  have hkind := Lexed.scan_kind_ne_end c cs
  have hleading : Trivia.Scanned.diagnostics l.place ⟨[], true, c :: cs⟩ = [] := rfl
  have hplace : l.place.after (Trivia.chars []) = l.place := rfl
  simp only [nextToken, hscan, hplace, hleading, if_neg hkind, Array.toList_append,
    List.nil_append]
  refine ⟨trivial, trivial, rfl, ?_, _, rfl, ?_⟩
  · rw [Position.offset_after (l.place.after (Lexeme.scan (c :: cs)).text)]
    exact Nat.le_add_right _ _
  · intro d hd
    exact (Trivia.Scanned.spans_diagnostics hd).offsets.1

end Lexer

/-- The lexeme that a text begins with is its first token, with the faults of the lexeme. -/
theorem leads_of_scan {c : Char} {cs : List Char} (hfront : Piece.scan? (c :: cs) = none) :
    Leads (String.ofList (c :: cs)) (Lexeme.scan (c :: cs)).kind (Lexeme.scan (c :: cs)).text
      ((Lexeme.scan (c :: cs)).diagnostics .origin) := by
  obtain ⟨hkind, htext, hrange, hplace, trailing, hstep, htrailing⟩ :=
    Lexer.nextToken_of_front (l := .ofString (String.ofList (c :: cs)))
      (String.toList_ofList ..) hfront
  have hgo : (Lexer.ofString (String.ofList (c :: cs))).nextToken.1.isEnd = false := by
    rw [Token.isEnd, hkind, decide_eq_false_iff_not]
    exact Lexed.scan_kind_ne_end c cs
  obtain ⟨htokens, hlast⟩ := Lexer.drain_cons hgo
  obtain ⟨behind, hfound, hbehind⟩ := Lexer.found_drain #[]
    (Lexer.ofString (String.ofList (c :: cs))).nextToken.2
  refine ⟨_, _, trailing ++ behind, Prod.ext htokens ?_, hkind, htext, hrange, ?_⟩
  · show (Lexer.drain #[] (.ofString (String.ofList (c :: cs)))).2.diagnostics.toList = _
    rw [hlast, hfound, hstep, List.append_assoc, List.append_assoc]
    rfl
  · intro d hd
    rcases List.mem_append.mp hd with hd | hd
    · exact htrailing d hd
    · exact Nat.le_trans hplace (hbehind d hd).offsets.1

end SandboxProfile
