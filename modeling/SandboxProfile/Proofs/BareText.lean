import SandboxProfile.Proofs.LineBreaks
import SandboxProfile.Proofs.Partition
import SandboxProfile.Proofs.ReadKinds
import SandboxProfile.Proofs.Spelling

/-!
# Texts without trivia

A lexeme is decided by its own characters: taken by itself, it is scanned to its end and means the
same (`alone_scan`). So a text is read as its lexemes are when each stands on a line of its own and
everything between them is left out (`bareText_keeps`).
-/

namespace SandboxProfile

/-! ### Runs -/

theorem takeWhile_run (p : Char → Bool) (cs : List Char) :
    (cs.takeWhile p).takeWhile p = cs.takeWhile p ∧ (cs.takeWhile p).dropWhile p = [] := by
  have hall : ∀ c ∈ cs.takeWhile p, p c = true := List.all_eq_true.mp List.all_takeWhile
  have htake : (cs.takeWhile p ++ []).takeWhile p = _ := List.takeWhile_append_of_pos hall
  have hdrop : (cs.takeWhile p ++ []).dropWhile p = _ := List.dropWhile_append_of_pos hall
  rw [List.append_nil, List.takeWhile_nil, List.append_nil] at htake
  rw [List.append_nil, List.dropWhile_nil] at hdrop
  exact ⟨htake, hdrop⟩

/-- A run among the first `n` characters that ends in `cs` does not depend on what follows `cs`. -/
theorem takeWhile_take_append {p : Char → Bool} {n : Nat} {cs rest : List Char}
    (h : (((cs ++ rest).take n).takeWhile p).length ≤ cs.length) :
    (cs.take n).takeWhile p = ((cs ++ rest).take n).takeWhile p := by
  induction n generalizing cs with
  | zero => rfl
  | succ n ih =>
    cases cs with
    | nil =>
      have hnil := List.eq_nil_of_length_eq_zero (Nat.le_zero.mp h)
      rw [hnil]
      rfl
    | cons c cs =>
      rw [List.cons_append, List.take_succ_cons, List.takeWhile_cons] at h ⊢
      rw [List.take_succ_cons, List.takeWhile_cons]
      by_cases hc : p c = true
      · rw [if_pos hc, List.length_cons, List.length_cons] at h
        rw [if_pos hc, if_pos hc, ih (by omega)]
      · rw [if_neg hc, if_neg hc]

/-! ### Literals -/

namespace StringLiteral

theorem hexDigits_alone {width : Width} {digits used rest : List Char}
    (h : hexDigits width (digits ++ (used ++ rest)) = digits) :
    hexDigits width (digits ++ used) = digits := by
  rw [← List.append_assoc] at h
  have hlength : (hexDigits width (digits ++ used ++ rest)).length ≤ (digits ++ used).length := by
    rw [h, List.length_append]
    omega
  exact (takeWhile_take_append hlength).trans h

/-- The characters that a string takes are the same string by themselves. -/
theorem scanFrom_alone (before : List Item) (cs : List Char) :
    ∃ used, used ++ (scanFrom before cs).rest = cs ∧
      scanFrom before used = ⟨(scanFrom before cs).items, (scanFrom before cs).ending, []⟩ := by
  fun_induction scanFrom before cs with
  | case1 before => exact ⟨[], rfl, by rw [scanFrom.eq_def]⟩
  | case2 before cs => exact ⟨['"'], rfl, by rw [scanFrom.eq_def]; rfl⟩
  | case3 before c cs hquote hline => exact ⟨[], rfl, by rw [scanFrom.eq_def]⟩
  | case4 before hquote hline => exact ⟨['\\'], rfl, by rw [scanFrom.eq_def]; rfl⟩
  | case5 before d ds hbreak hquote hline => exact ⟨['\\'], rfl, by rw [scanFrom.eq_def]; rfl⟩
  | case6 before d ds hbreak width hwidth digits hquote hline ih =>
    obtain ⟨used, hused, hscan⟩ := ih
    have hds : digits ++ (used ++ (scanFrom (.hex width digits :: before)
        (ds.drop digits.length)).rest) = ds := by
      rw [hused]
      exact hexDigits_append_drop width ds
    have hdigits : hexDigits width (digits ++ used) = digits := by
      apply hexDigits_alone
      rw [hds]
    refine ⟨'\\' :: d :: (digits ++ used), by rw [List.cons_append, List.cons_append,
      List.append_assoc, hds], ?_⟩
    rw [scanFrom.eq_def]
    simp only [hquote, hline, hbreak, hwidth, hdigits, Bool.false_eq_true, if_false, if_true]
    rw [List.drop_left, hscan]
  | case7 before d ds hbreak hwidth hquote hline ih =>
    obtain ⟨used, hused, hscan⟩ := ih
    refine ⟨'\\' :: d :: used, by rw [List.cons_append, List.cons_append, hused], ?_⟩
    rw [scanFrom.eq_def]
    simp only [hquote, hline, hbreak, hwidth, Bool.false_eq_true, if_false, if_true]
    exact hscan
  | case8 before c cs hquote hline hback ih =>
    obtain ⟨used, hused, hscan⟩ := ih
    refine ⟨c :: used, by rw [List.cons_append, hused], ?_⟩
    rw [scanFrom.eq_def]
    simp only [hquote, hline, hback, Bool.false_eq_true, if_false]
    exact hscan

end StringLiteral

namespace RawString

theorem scan_of_closed {cs rest : List Char} (h : cs.dropWhile isContent = '"' :: rest) :
    scan cs = ⟨cs.takeWhile isContent, true, rest⟩ := by
  rw [scan, h]
  rfl

theorem scan_of_open {cs : List Char} (h : ∀ rest, cs.dropWhile isContent ≠ '"' :: rest) :
    scan cs = ⟨cs.takeWhile isContent, false, cs.dropWhile isContent⟩ := by
  unfold scan
  split
  next rest hrest => exact absurd hrest (h rest)
  next => rfl

theorem scan_alone (cs : List Char) :
    scan ((scan cs).text ++ if (scan cs).closed then ['"'] else []) =
      ⟨(scan cs).text, (scan cs).closed, []⟩ := by
  have hall : ∀ c ∈ cs.takeWhile isContent, isContent c = true :=
    List.all_eq_true.mp List.all_takeWhile
  by_cases hclosed : ∃ rest, cs.dropWhile isContent = '"' :: rest
  · obtain ⟨rest, hrest⟩ := hclosed
    rw [scan_of_closed hrest]
    show scan (cs.takeWhile isContent ++ ['"']) = ⟨cs.takeWhile isContent, true, []⟩
    have htake : (cs.takeWhile isContent ++ ['"']).takeWhile isContent = _ :=
      List.takeWhile_append_of_pos hall
    have hdrop : (cs.takeWhile isContent ++ ['"']).dropWhile isContent = _ :=
      List.dropWhile_append_of_pos hall
    rw [List.takeWhile_cons_of_neg (by decide), List.append_nil] at htake
    rw [List.dropWhile_cons_of_neg (by decide)] at hdrop
    rw [scan_of_closed hdrop, htake]
  · have hopen : ∀ rest, cs.dropWhile isContent ≠ '"' :: rest :=
      fun rest hrest => hclosed ⟨rest, hrest⟩
    obtain ⟨htake, hdrop⟩ := takeWhile_run isContent cs
    rw [scan_of_open hopen]
    show scan (cs.takeWhile isContent ++ []) = ⟨cs.takeWhile isContent, false, []⟩
    rw [List.append_nil, scan_of_open (by simp [hdrop]), htake, hdrop]

end RawString

/-! ### Lexemes -/

namespace Lexeme

/-- Whether the text of a lexeme is scanned to its end, with the same meaning. -/
def Alone (l : Lexeme) : Prop := (scan l.text).kind = l.kind ∧ (scan l.text).rest = []

theorem alone_quoted (cs : List Char) : (quoted cs).Alone := by
  obtain ⟨used, hused, hscan⟩ := StringLiteral.scanFrom_alone [] cs
  have htext : (quoted cs).text = '"' :: used := by
    have hrest : (quoted cs).rest = (StringLiteral.scanFrom [] cs).rest := rfl
    have hchars := quoted_text cs
    rw [hrest, ← hused, ← List.cons_append] at hchars
    rw [hused] at hchars
    exact List.append_cancel_right hchars
  have hquoted : scan (quoted cs).text = quoted used := by rw [htext]; rfl
  rw [Alone, hquoted]
  simp only [quoted, StringLiteral.scan, hscan, and_self]

theorem alone_raw (cs : List Char) : (raw cs).Alone := by
  have hraw : scan (raw cs).text =
      raw ((RawString.scan cs).text ++ if (RawString.scan cs).closed then ['"'] else []) := rfl
  rw [Alone, hraw]
  simp only [raw, RawString.scan_alone, and_self]

theorem alone_hash (cs : List Char) : (hash cs).Alone := by
  unfold hash
  split
  · exact ⟨rfl, rfl⟩
  split
  next c cs hc =>
    rcases Bool.or_eq_true_iff.mp hc with hc | hc <;> obtain rfl := of_decide_eq_true hc <;>
      exact ⟨rfl, rfl⟩
  split
  next c cs _ hc =>
    rcases Bool.or_eq_true_iff.mp hc with hc | hc <;> obtain rfl := of_decide_eq_true hc <;>
      exact ⟨rfl, rfl⟩
  split
  · exact alone_raw _
  · exact ⟨rfl, rfl⟩

theorem text_integer (c : Char) (cs : List Char) :
    (integer c cs).text = c :: cs.takeWhile Char.isDigit := by
  unfold integer IntegerLiteral.scan
  simp only
  split <;> rfl

theorem rest_integer (c : Char) (cs : List Char) :
    (integer c cs).rest = cs.dropWhile Char.isDigit := by
  unfold integer IntegerLiteral.scan
  simp only
  split <;> rfl

/-- The digits of an integer decide what it is. -/
theorem kind_integer {c : Char} {cs ds : List Char}
    (h : cs.takeWhile Char.isDigit = ds.takeWhile Char.isDigit) :
    (integer c cs).kind = (integer c ds).kind := by
  unfold integer IntegerLiteral.scan
  rw [h]
  simp only
  split <;> rfl

theorem startsWithDigit_digits (cs : List Char) :
    startsWithDigit (cs.takeWhile Char.isDigit) = startsWithDigit cs := by
  cases cs with
  | nil => rfl
  | cons c cs =>
    rw [List.takeWhile_cons]
    by_cases hc : c.isDigit = true
    · rw [if_pos hc]
      rfl
    · rw [if_neg hc]
      exact (Bool.not_eq_true _ ▸ hc).symm

theorem alone_scan (cs : List Char) : (scan cs).Alone := by
  cases cs with
  | nil => exact ⟨rfl, rfl⟩
  | cons c cs =>
    by_cases hopen : c = '('
    · rw [hopen]
      exact ⟨rfl, rfl⟩
    by_cases hclose : c = ')'
    · rw [hclose]
      exact ⟨rfl, rfl⟩
    by_cases hquote : c = '"'
    · rw [hquote]
      exact alone_quoted cs
    by_cases hhash : c = '#'
    · rw [hhash]
      exact alone_hash cs
    -- the first character is none of the marks, so it is told by its class
    have hplain (ds : List Char) : scan (c :: ds) =
        if c.isDigit || (IntegerLiteral.isSign c && startsWithDigit ds) then integer c ds
        else if Symbol.isStart c then
          simple (.symbol (String.ofList (c :: ds.takeWhile Symbol.isContinue)))
            (c :: ds.takeWhile Symbol.isContinue) (ds.dropWhile Symbol.isContinue)
        else ⟨.unknown c, [c], [], some (.unknownCharacter c), ds⟩ := by
      rw [scan, if_neg hopen, if_neg hclose, if_neg hquote, if_neg hhash]
    rw [hplain]
    by_cases hnumber : (c.isDigit || (IntegerLiteral.isSign c && startsWithDigit cs)) = true
    · rw [if_pos hnumber]
      obtain ⟨htake, hdrop⟩ := takeWhile_run Char.isDigit cs
      rw [Alone, text_integer, hplain, startsWithDigit_digits, if_pos hnumber, rest_integer]
      exact ⟨kind_integer htake, hdrop⟩
    rw [if_neg hnumber]
    have hbare {ds : List Char} (hds : startsWithDigit cs = false → startsWithDigit ds = false) :
        ¬ (c.isDigit || (IntegerLiteral.isSign c && startsWithDigit ds)) = true := by
      intro hdigits
      rw [Bool.or_eq_true, Bool.and_eq_true] at hdigits
      rcases hdigits with hdigit | ⟨hsign, hfirst⟩
      · exact hnumber (by rw [hdigit, Bool.true_or])
      · cases hcs : startsWithDigit cs with
        | true => exact hnumber (by rw [hsign, hcs, Bool.and_self, Bool.or_true])
        | false =>
          rw [hds hcs] at hfirst
          cases hfirst
    by_cases hstart : Symbol.isStart c = true
    · rw [if_pos hstart]
      obtain ⟨htake, hdrop⟩ := takeWhile_run Symbol.isContinue cs
      show (scan (c :: cs.takeWhile Symbol.isContinue)).kind = _ ∧
        (scan (c :: cs.takeWhile Symbol.isContinue)).rest = []
      have hrun : startsWithDigit cs = false →
          startsWithDigit (cs.takeWhile Symbol.isContinue) = false :=
        fun h => Symbol.startsWithDigit_takeWhile h Symbol.isContinue
      rw [hplain, if_neg (hbare hrun), if_pos hstart]
      simp only [simple, htake, hdrop, and_self]
    · rw [if_neg hstart]
      have hnil : startsWithDigit cs = false → startsWithDigit [] = false := fun _ => rfl
      show (scan [c]).kind = .unknown c ∧ (scan [c]).rest = []
      rw [hplain, if_neg (hbare hnil), if_neg hstart]
      exact ⟨rfl, rfl⟩

end Lexeme

/-! ### Lexemes of a text -/

/-- Cutting a text short behind a lexeme makes no piece of trivia of it. -/
theorem Piece.scan?_of_append {c : Char} {cs rest : List Char}
    (h : scan? (c :: (cs ++ rest)) = none) : scan? (c :: cs) = none := by
  unfold scan? at h ⊢
  simp only at h ⊢
  split at h
  · cases h
  split at h
  · cases h
  split at h
  · cases h
  split at h
  · split at h <;> cases h
  split at h
  · cases h
  next hspace htab hline hreturn hsemi =>
  simp only [hspace, htab, hline, hreturn, hsemi, if_false]
  split at h
  next hhash =>
    rw [if_pos hhash]
    split
    next more => cases h
    next => rfl
  next hhash => rw [if_neg hhash]

/-- A lexeme on a line of its own is the same lexeme. -/
theorem Lexed.kinds_lexeme_lineFeed {cs : List Char} (h : Piece.scan? cs = none)
    (hkind : (Lexeme.scan cs).kind ≠ .endOfFile) (ds : List Char) :
    (ofChars ((Lexeme.scan cs).text ++ '\n' :: ds)).kinds =
      (Lexeme.scan cs).kind :: (ofChars ds).kinds := by
  obtain ⟨hsame, hend⟩ := Lexeme.alone_scan cs
  have htext := Lexeme.scan_text cs
  cases hlexeme : (Lexeme.scan cs).text with
  | nil => exact absurd hlexeme (Lexeme.text_ne_nil hkind)
  | cons c text =>
    rw [hlexeme] at hsame hend htext
    have hall : Piece.scan? (c :: (text ++ (Lexeme.scan cs).rest)) = none := by
      rw [← List.cons_append, htext]
      exact h
    have hpiece := Piece.scan?_of_append hall
    obtain ⟨hends, hbehind⟩ := Lexeme.ends_scan c text ds
    rw [List.cons_append, ofChars_of_lexeme (Piece.scan?_break rfl hpiece ds), cons, hends, hsame,
      hbehind, hend, List.nil_append, ofChars_lineFeed]

/-- Whether a token has the kind and the text of a lexeme. -/
def Token.IsLexeme (t : Token) : Prop :=
  ∃ cs, Piece.scan? cs = none ∧ t.kind = (Lexeme.scan cs).kind ∧
    t.text.toList = (Lexeme.scan cs).text

namespace Lexer

theorem isLexeme_nextToken (l : Lexer) : l.nextToken.1.IsLexeme := by
  refine ⟨(Trivia.scan false l.rest).rest, ?_, rfl, String.toList_ofList⟩
  cases hclosed : (Trivia.scan false l.rest).closed with
  | true => exact Lexed.scan?_of_trivia hclosed
  | false =>
    rw [(Lexed.ofChars_open_trivia hclosed).1]
    rfl

theorem isLexeme_of_mem_drain {given : Array Token} {l : Lexer} {t : Token}
    (h : t ∈ (drain given l).1) : t ∈ given ∨ t.IsLexeme := by
  fun_induction drain given l with
  | case1 given l step hend =>
    rcases Array.mem_push.mp h with hgiven | rfl
    · exact .inl hgiven
    · exact .inr (isLexeme_nextToken l)
  | case2 given l step hgo ih =>
    rcases ih h with hgiven | hlexeme
    · rcases Array.mem_push.mp hgiven with hgiven | rfl
      · exact .inl hgiven
      · exact .inr (isLexeme_nextToken l)
    · exact .inr hlexeme

end Lexer

/-! ### Bare texts -/

/-- The lexemes of a text, each on a line of its own, without anything between them. -/
def bareText (text : String) : String :=
  String.join ((tokenize text).1.map fun t => t.text ++ "\n")

theorem toList_bareText (text : String) :
    (bareText text).toList = (tokenize text).1.flatMap fun t => t.text.toList ++ ['\n'] := by
  have hlines : (tokenize text).1.map (fun t => t.text ++ "\n") =
      ((tokenize text).1.map Token.text).map (· ++ "\n") := by
    rw [List.map_map]
    rfl
  rw [bareText, hlines, toList_join_lines, List.flatMap_map]

example : bareText "(a ; note\n  1)" = "(\na\n1\n)\n\n" := by decide +kernel

theorem kinds_lines {ts : List Token} (h : ∀ t ∈ ts, t.IsLexeme) :
    (Lexed.ofChars (ts.flatMap fun t => t.text.toList ++ ['\n'])).kinds =
      (ts.map Token.kind).filter (· ≠ .endOfFile) := by
  induction ts with
  | nil => simp
  | cons t ts ih =>
    obtain ⟨⟨cs, hpiece, hkind, htext⟩, hts⟩ := List.forall_mem_cons.mp h
    rw [List.flatMap_cons, htext, List.append_assoc, List.singleton_append, List.map_cons, hkind]
    by_cases hend : (Lexeme.scan cs).kind = .endOfFile
    · cases cs with
      | nil =>
        rw [hend, List.filter_cons_of_neg (by simp), ← ih hts]
        exact congrArg Lexed.kinds (Lexed.ofChars_lineFeed _)
      | cons c cs => exact absurd hend (Lexed.scan_kind_ne_end c cs)
    · rw [Lexed.kinds_lexeme_lineFeed hpiece hend, ih hts, List.filter_cons_of_pos (by simp [hend])]

theorem kinds_bareText (text : String) :
    (Lexed.ofChars (bareText text).toList).kinds = (Lexed.ofChars text.toList).kinds := by
  have hlexemes : ∀ t ∈ (tokenize text).1, t.IsLexeme := by
    intro t ht
    have hdrain : t ∈ (Lexer.drain #[] (.ofString text)).1 := Array.mem_toList_iff.mp ht
    rcases Lexer.isLexeme_of_mem_drain hdrain with hnone | hlexeme
    · exact absurd hnone (Array.not_mem_empty t)
    · exact hlexeme
  have hown : ∀ k ∈ (Lexed.ofChars text.toList).kinds, decide (k ≠ .endOfFile) = true := by
    intro k hk
    refine decide_eq_true fun hend => Lexed.end_notMem_kinds text.toList ?_
    rw [← hend]
    exact hk
  rw [toList_bareText, kinds_lines hlexemes, kinds_tokenize, List.filter_append,
    List.filter_eq_self.mpr hown]
  simp

namespace Profile

/-- A text means what its lexemes mean when they stand on lines of their own: blanks, line ends and
comments between them decide neither the tokens nor, at any limit, the profile. -/
theorem bareText_keeps (text : String) :
    (tokenize (bareText text)).1.map Token.kind = (tokenize text).1.map Token.kind ∧
      ∀ limit, Wire.Profile.ofTree (read limit (bareText text)).profile =
        Wire.Profile.ofTree (read limit text).profile := by
  have hkinds := kinds_bareText text
  constructor
  · rw [kinds_tokenize, kinds_tokenize, hkinds]
  · intro limit
    rw [wire_read, wire_read, hkinds]

end Profile

end SandboxProfile
