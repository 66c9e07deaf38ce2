import SandboxProfile.Proofs.Places

/-!
# Calls of one lexer

A lexer is asked for tokens in three ways: for one token, for one until the end of the file was
given out, and for all that are left. However the calls follow each other, either what was given out
and what is left are together the tokens of the text, or these were all given out and nothing but
the end of the file is given out again (`Standing`). So no token is lost or given out twice
(`handedOut_drive`).
-/

namespace SandboxProfile

namespace Lexer

/-- A way to ask for tokens. -/
inductive Call where
  | nextToken
  | next?
  | tokens
deriving DecidableEq, Repr

/-- The tokens that a call gives out, and the lexer behind them. -/
def answer (l : Lexer) : Call → List Token × Lexer
  | .nextToken => ([l.nextToken.1], l.nextToken.2)
  | .next? => (l.next?.1.toList, l.next?.2)
  | .tokens => l.tokens

/-- The tokens that calls give out one after another, and the lexer behind them all. -/
def drive (l : Lexer) : List Call → List Token × Lexer
  | [] => ([], l)
  | call :: calls =>
    let (given, after) := l.answer call
    let (more, last) := drive after calls
    (given ++ more, last)

end Lexer

/-- The end of the file at a place where it was given out before. -/
def Token.endAgain (p : Position) : Token := ⟨.endOfFile, "", .point p, .point p, [], []⟩

/-- What may have been given out of a text, and found in it: the tokens other than the end of the
file are the first ones of the text, and those are all when the end of the file is among what was
given out; so it is with what was found; and the end of the file takes up no room when it is given
out again. -/
structure Token.HandedOut (text : String) (given : List Token) (found : List Diagnostic) :
    Prop where
  tokens : given.filter (!·.isEnd) <+: (tokenize text).1.filter (!·.isEnd)
  tokensAtEnd : given.any isEnd = true →
    given.filter (!·.isEnd) = (tokenize text).1.filter (!·.isEnd)
  again : ∀ t ∈ (given.filter isEnd).tail,
    t.leading = [] ∧ t.trailing = [] ∧ t.range = .point (Position.origin.after text.toList)
  reports : found <+: (tokenize text).2
  reportsAtEnd : given.any isEnd = true → found = (tokenize text).2

/-- The end of the file is among such tokens once. -/
theorem Token.Ended.filter_isEnd {ts : List Token} (h : Token.Ended ts) :
    ∃ last, ts.filter Token.isEnd = [last] := by
  obtain ⟨own, last, rfl, hlast, hown⟩ := h
  have hnone : own.filter Token.isEnd = [] := by
    rw [List.filter_eq_nil_iff]
    intro t ht
    rw [(hown t ht).1]
    exact Bool.false_ne_true
  exact ⟨last, by rw [List.filter_append, hnone, List.filter_cons_of_pos hlast]; rfl⟩

theorem ended_tokenize (text : String) : Token.Ended (tokenize text).1 := by
  obtain ⟨ts, hts, hended, -⟩ := Lexer.drain_partition #[] (.ofString text)
  have htokens : (tokenize text).1 = ts := hts
  rw [htokens]
  exact hended

namespace Lexer

/-! ### A whole run -/

section

variable {given : Array Token} {l : Lexer}

theorem drain_of_end (h : l.nextToken.1.isEnd = true) :
    drain given l = (given.push l.nextToken.1,
      ⟨l.nextToken.2.place, l.nextToken.2.rest, l.nextToken.2.diagnostics, true⟩) := by
  rw [drain]
  exact dif_pos h

theorem drain_of_token (h : l.nextToken.1.isEnd = false) :
    drain given l = drain (given.push l.nextToken.1) l.nextToken.2 := by
  rw [drain]
  exact dif_neg (by simp [h])

end

/-- Tokens given out before make no difference to a run. -/
theorem drain_append (before given : Array Token) (l : Lexer) :
    drain (before ++ given) l = (before ++ (drain given l).1, (drain given l).2) := by
  fun_induction drain given l with
  | case1 given l step hend =>
    rw [drain_of_end hend, Array.push_append]
  | case2 given l step hgo ih =>
    rw [drain_of_token (Bool.eq_false_iff.mpr hgo), Array.push_append]
    exact ih

/-- A run that begins with a token. -/
theorem drain_cons {l : Lexer} (h : l.nextToken.1.isEnd = false) :
    (drain #[] l).1.toList = l.nextToken.1 :: (drain #[] l.nextToken.2).1.toList ∧
      (drain #[] l).2 = (drain #[] l.nextToken.2).2 := by
  have happend := drain_append #[l.nextToken.1] #[] l.nextToken.2
  rw [drain_of_token h]
  exact ⟨by simpa using congrArg (·.1.toList) happend, congrArg (·.2) happend⟩

/-- A run leaves nothing and ends behind all that was left. -/
theorem drain_end (given : Array Token) (l : Lexer) :
    (drain given l).2.rest = [] ∧ (drain given l).2.place = l.place.after l.rest := by
  fun_induction drain given l with
  | case1 given l step hend =>
    have hrest : step.2.rest = [] := nextToken_rest_of_end hend
    have hchars : step.1.chars ++ step.2.rest = l.rest := nextToken_chars l
    rw [hrest, List.append_nil] at hchars
    rw [← hchars]
    exact ⟨hrest, place_nextToken l⟩
  | case2 given l step hgo ih =>
    have hchars : step.1.chars ++ step.2.rest = l.rest := nextToken_chars l
    have hplace : step.2.place = l.place.after step.1.chars := place_nextToken l
    rw [hplace, ← Position.after_append, hchars] at ih
    exact ih

/-- A run reports behind what was found before. -/
theorem diagnostics_drain (given : Array Token) (l : Lexer) :
    l.diagnostics.toList <+: (drain given l).2.diagnostics.toList := by
  obtain ⟨found, hfound, -⟩ := found_drain given l
  exact ⟨found, hfound.symm⟩

/-- Behind the end of the file there is nothing but the end of the file. -/
theorem nextToken_of_rest_nil {l : Lexer} (h : l.rest = []) :
    l.nextToken = (Token.endAgain l.place, l) := by
  obtain ⟨place, rest, diagnostics, finished⟩ := l
  subst h
  simp [nextToken, Trivia.scan_nil, Lexeme.scan_nil, Lexeme.simple, Token.endAgain, Range.point,
    Trivia.chars, Trivia.Scanned.diagnostics, Lexeme.diagnostics, StringLiteral.diagnostics]

/-! ### Calls one after another -/

/-- How a lexer stands that has given out tokens of a text. -/
inductive Standing (text : String) (given : List Token) (l : Lexer) : Prop where
  /-- What was given out and what is left are the tokens of the text. -/
  | running (tokens : given ++ (drain #[] l).1.toList = (tokenize text).1)
      (last : (drain #[] l).2 = (ofString text).tokens.2)
      (ongoing : ∀ t ∈ given, t.isEnd = false) (unfinished : l.finished = false)
  /-- All tokens of the text were given out, and then the end of the file again and again. -/
  | ended (n : Nat)
      (tokens : given = (tokenize text).1 ++
        List.replicate n (.endAgain (Position.origin.after text.toList)))
      (place : l.place = Position.origin.after text.toList) (rest : l.rest = [])
      (found : l.diagnostics = (ofString text).tokens.2.diagnostics)

namespace Standing

variable {text : String} {given : List Token} {l : Lexer}

theorem start (text : String) : Standing text [] (.ofString text) :=
  .running rfl rfl (List.forall_mem_nil _) rfl

/-- The end of a whole run, whether or not it counts as given out by `next?`. -/
theorem atEnd (text : String) (finished : Bool) :
    Standing text (tokenize text).1 ⟨(ofString text).tokens.2.place, (ofString text).tokens.2.rest,
      (ofString text).tokens.2.diagnostics, finished⟩ := by
  have hend : (ofString text).tokens.2.rest = [] ∧
      (ofString text).tokens.2.place = Position.origin.after text.toList :=
    drain_end #[] (.ofString text)
  refine .ended 0 ?_ hend.2 hend.1 rfl
  rw [List.replicate_zero, List.append_nil]

/-- One more token is given out. Before the end of the file, a token leaves the mark of `next?`
alone. -/
theorem step (h : Standing text given l) {finished : Bool}
    (hfinished : l.nextToken.1.isEnd = false → finished = l.finished) :
    Standing text (given ++ [l.nextToken.1])
      ⟨l.nextToken.2.place, l.nextToken.2.rest, l.nextToken.2.diagnostics, finished⟩ := by
  cases h with
  | running tokens last ongoing unfinished =>
    by_cases hend : l.nextToken.1.isEnd = true
    · have hlast := atEnd text finished
      rw [drain_of_end hend] at tokens last
      rw [← tokens, ← last] at hlast
      exact hlast
    · have hgo : l.nextToken.1.isEnd = false := Bool.eq_false_iff.mpr hend
      obtain ⟨htokens, hlast⟩ := drain_cons hgo
      have hunfinished : finished = l.nextToken.2.finished := hfinished hgo
      subst hunfinished
      refine .running ?_ (hlast.symm.trans last) ?_ unfinished
      · rw [List.append_assoc, List.singleton_append, ← htokens]
        exact tokens
      · exact List.forall_mem_append.mpr ⟨ongoing, List.forall_mem_singleton.mpr hgo⟩
  | ended n tokens place rest found =>
    rw [nextToken_of_rest_nil rest, place]
    refine .ended (n + 1) ?_ rfl rest found
    rw [tokens, List.append_assoc, List.replicate_succ']

/-- A whole run is given out, or nothing when the end of the file was given out by `next?`. -/
theorem run (h : Standing text given l) :
    Standing text (given ++ l.tokens.1) l.tokens.2 := by
  by_cases hfinished : l.finished = true
  · rw [tokens, if_pos hfinished, List.append_nil]
    exact h
  · rw [tokens, if_neg hfinished]
    cases h with
    | running tokens last ongoing unfinished =>
      have hlast := atEnd text (ofString text).tokens.2.finished
      rw [← tokens, ← last] at hlast
      exact hlast
    | ended n tokens place rest found =>
      have hnext := nextToken_of_rest_nil rest
      have hend : l.nextToken.1.isEnd = true := by
        rw [hnext]
        rfl
      rw [drain_of_end hend]
      exact step (.ended n tokens place rest found) fun hgo => absurd hend (by simp [hgo])

/-- A call keeps what holds of the tokens given out. -/
theorem answer (h : Standing text given l) (call : Call) :
    Standing text (given ++ (l.answer call).1) (l.answer call).2 := by
  cases call with
  | nextToken => exact h.step fun _ => rfl
  | next? =>
    rw [Lexer.answer, next?]
    by_cases hfinished : l.finished = true
    · rw [if_pos hfinished]
      exact (List.append_nil given).symm ▸ h
    · rw [if_neg hfinished]
      exact h.step fun hgo => hgo.trans (Bool.eq_false_iff.mpr hfinished).symm
  | tokens => exact h.run

/-- So do any calls. -/
theorem drive (h : Standing text given l) (calls : List Call) :
    Standing text (given ++ (l.drive calls).1) (l.drive calls).2 := by
  induction calls generalizing given l with
  | nil => exact (List.append_nil given).symm ▸ h
  | cons call calls ih =>
    have hcall := ih (h.answer call)
    rw [List.append_assoc] at hcall
    exact hcall

/-- Tokens of an ongoing run are the first ones of the text. -/
theorem handedOut_running (tokens : given ++ (drain #[] l).1.toList = (tokenize text).1)
    (last : (drain #[] l).2 = (ofString text).tokens.2) (ongoing : ∀ t ∈ given, t.isEnd = false) :
    Token.HandedOut text given l.diagnostics.toList := by
  have hnone : ∀ t ∈ given, ¬ t.isEnd = true := by
    intro t ht
    rw [ongoing t ht]
    exact Bool.false_ne_true
  have hany : ¬ given.any Token.isEnd = true := by
    rw [List.any_eq_true]
    rintro ⟨t, ht, hend⟩
    exact hnone t ht hend
  have hends : given.filter Token.isEnd = [] := List.filter_eq_nil_iff.mpr hnone
  have hreports := diagnostics_drain #[] l
  rw [last] at hreports
  constructor
  · rw [← tokens, List.filter_append]
    exact List.prefix_append _ _
  · exact fun h => absurd h hany
  · rw [hends]
    exact List.forall_mem_nil _
  · exact hreports
  · exact fun h => absurd h hany

/-- Behind the tokens of the text stands the end of the file, which takes up no room. -/
theorem handedOut_ended {n : Nat}
    (tokens : given = (tokenize text).1 ++
      List.replicate n (.endAgain (Position.origin.after text.toList)))
    (found : l.diagnostics = (ofString text).tokens.2.diagnostics) :
    Token.HandedOut text given l.diagnostics.toList := by
  obtain ⟨last, hlast⟩ := Token.Ended.filter_isEnd (ended_tokenize text)
  have hown : given.filter (!·.isEnd) = (tokenize text).1.filter (!·.isEnd) := by
    rw [tokens, List.filter_append, List.filter_replicate_of_neg Bool.false_ne_true,
      List.append_nil]
  have hends : (given.filter Token.isEnd).tail =
      List.replicate n (.endAgain (Position.origin.after text.toList)) := by
    rw [tokens, List.filter_append, hlast, List.filter_replicate_of_pos rfl]
    rfl
  have hreports : l.diagnostics.toList = (tokenize text).2 := by
    rw [found]
    rfl
  constructor
  · simp only [hown, List.prefix_refl]
  · exact fun _ => hown
  · intro t ht
    rw [hends] at ht
    rw [List.eq_of_mem_replicate ht]
    exact ⟨rfl, rfl, rfl⟩
  · simp only [hreports, List.prefix_refl]
  · exact fun _ => hreports

end Standing

end Lexer

/-- However one lexer of a text is asked for tokens, none is lost and none is given out twice. -/
theorem handedOut_drive (text : String) (calls : List Lexer.Call) :
    Token.HandedOut text ((Lexer.ofString text).drive calls).1
      ((Lexer.ofString text).drive calls).2.diagnostics.toList := by
  have hstanding := (Lexer.Standing.start text).drive calls
  rw [List.nil_append] at hstanding
  cases hstanding with
  | running tokens last ongoing unfinished =>
    exact Lexer.Standing.handedOut_running tokens last ongoing
  | ended n tokens place rest found => exact Lexer.Standing.handedOut_ended tokens found

/-- The end of the file is given out by `tokens` even if `nextToken` gave it out before. -/
example : ((Lexer.ofString "x #|").drive [.nextToken, .nextToken, .tokens, .next?]).1.map
    Token.kind = [.symbol "x", .endOfFile, .endOfFile] := by decide +kernel

end SandboxProfile
