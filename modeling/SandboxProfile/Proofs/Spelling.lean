import SandboxProfile.Proofs.Lexemes
import SandboxProfile.Layout.Profile

/-!
# Spelling

A text spells a sequence of tokens if the lexer takes these tokens from it, without a fault,
whatever follows behind a blank, a line feed or a closing parenthesis. Spelled texts are put
together from atoms, blanks and parentheses.
-/

namespace SandboxProfile

/-- Whether no lexeme before this text goes on into it. -/
def Boundary : List Char → Prop
  | [] => True
  | c :: _ => c = ' ' ∨ c = '\n' ∨ c = ')'

theorem boundary_append {cs rest : List Char} (h : Boundary cs) (hrest : Boundary rest) :
    Boundary (cs ++ rest) := by
  cases cs with
  | nil => exact hrest
  | cons c cs => exact h

/-- What stands in front of the kinds of a text. -/
def Lexed.after (ks : List TokenKind) (x : Lexed) : Lexed := ⟨ks ++ x.kinds, x.faults⟩

def Spells (cs : List Char) (ks : List TokenKind) : Prop :=
  ∀ rest, Boundary rest → Lexed.ofChars (cs ++ rest) = (Lexed.ofChars rest).after ks

namespace Spells

theorem nil : Spells [] [] := fun _ _ => rfl

theorem append {cs ds : List Char} {ks ls : List TokenKind} (hc : Spells cs ks)
    (hd : Spells ds ls) (hb : Boundary ds) : Spells (cs ++ ds) (ks ++ ls) := by
  intro rest hrest
  rw [List.append_assoc, hc _ (boundary_append hb hrest), hd rest hrest]
  simp [Lexed.after]

theorem opening {cs : List Char} {ks : List TokenKind} (h : Spells cs ks) :
    Spells ('(' :: cs) (.leftParen :: ks) := by
  intro rest hrest
  rw [List.cons_append, Lexed.ofChars_of_lexeme rfl]
  change Lexed.cons _ (Lexed.ofChars (cs ++ rest)) = _
  rw [h rest hrest]
  rfl

theorem closing {cs : List Char} {ks : List TokenKind} (h : Spells cs ks) :
    Spells (')' :: cs) (.rightParen :: ks) := by
  intro rest hrest
  rw [List.cons_append, Lexed.ofChars_of_lexeme rfl]
  change Lexed.cons _ (Lexed.ofChars (cs ++ rest)) = _
  rw [h rest hrest]
  rfl

theorem blank {c : Char} {cs : List Char} {ks : List TokenKind}
    (hc : c = ' ' ∨ c = '\t' ∨ c = '\n') (h : Spells cs ks) : Spells (c :: cs) ks := by
  intro rest hrest
  rw [← h rest hrest]
  rcases hc with rfl | rfl | rfl
  · exact Lexed.ofChars_space _
  · exact Lexed.ofChars_tab _
  · exact Lexed.ofChars_lineFeed _

theorem blanks {bs cs : List Char} {ks : List TokenKind}
    (hb : ∀ c ∈ bs, c = ' ' ∨ c = '\t' ∨ c = '\n') (h : Spells cs ks) : Spells (bs ++ cs) ks := by
  induction bs with
  | nil => exact h
  | cons b bs ih =>
    rw [List.forall_mem_cons] at hb
    exact blank hb.1 (ih hb.2)

theorem line {cs : List Char} {ks : List TokenKind} (indent : Indent) (level : Nat)
    (h : Spells cs ks) : Spells (indent.line level cs) ks := by
  refine blank (.inr (.inr rfl)) (blanks ?_ h)
  intro c hc
  obtain ⟨unit, hunit, hmem⟩ := List.mem_flatten.mp hc
  obtain rfl := List.eq_of_mem_replicate hunit
  cases indent with
  | spaces width => exact .inl (List.eq_of_mem_replicate hmem)
  | tabs => exact .inr (.inl (List.mem_singleton.mp hmem))

/-- A spelled text says what it spells. -/
theorem ofChars {cs : List Char} {ks : List TokenKind} (h : Spells cs ks) :
    Lexed.ofChars cs = ⟨ks, []⟩ := by
  have hnil := h [] trivial
  rw [List.append_nil, Lexed.ofChars_nil] at hnil
  rw [hnil]
  simp [Lexed.after]

/-- A spelled text has the tokens that it spells, and nothing is reported of it. -/
theorem tokenized {cs : List Char} {ks : List TokenKind} (h : Spells cs ks) :
    (tokenize (String.ofList cs)).1.map Token.kind = ks ++ [.endOfFile] ∧
      (tokenize (String.ofList cs)).2 = [] := by
  have hkinds := kinds_tokenize (String.ofList cs)
  have hfaults := erase_faults_tokenize (String.ofList cs)
  rw [String.toList_ofList, h.ofChars] at hkinds hfaults
  exact ⟨hkinds, List.map_eq_nil_iff.mp hfaults⟩

end Spells

/-- A run of characters ends where what follows does not go on with it. -/
theorem span_append {p : Char → Bool} {cs rest : List Char} (hcs : ∀ c ∈ cs, p c = true)
    (hrest : ∀ c ∈ rest.head?, p c = false) :
    (cs ++ rest).takeWhile p = cs ∧ (cs ++ rest).dropWhile p = rest := by
  have hstop : rest.takeWhile p = [] ∧ rest.dropWhile p = rest := by
    cases rest with
    | nil => exact ⟨rfl, rfl⟩
    | cons c rest =>
      have hc : ¬ p c = true := by
        rw [hrest c rfl]
        exact Bool.false_ne_true
      exact ⟨List.takeWhile_cons_of_neg hc, List.dropWhile_cons_of_neg hc⟩
  rw [List.takeWhile_append_of_pos hcs, List.dropWhile_append_of_pos hcs, hstop.1, hstop.2,
    List.append_nil]
  exact ⟨rfl, rfl⟩

/-! ### Symbols -/

namespace Symbol

/-- Whether characters are those of one symbol. A sign before a digit begins a number. -/
def isSpelling : List Char → Bool
  | [] => false
  | c :: cs =>
    isStart c && !c.isDigit && !(IntegerLiteral.isSign c && Lexeme.startsWithDigit cs) &&
      cs.all isContinue

theorem ne_of_holds {p : Char → Bool} {c d : Char} (h : p c = true) (hd : p d = false) :
    c ≠ d := by
  intro h
  subst h
  rw [h] at hd
  cases hd

theorem scan?_of_isStart {c : Char} {cs : List Char} (h : isStart c = true) :
    Piece.scan? (c :: cs) = none := by
  simp [Piece.scan?, ne_of_holds h (d := ' ') rfl, ne_of_holds h (d := '\t') rfl,
    ne_of_holds h (d := '\n') rfl, ne_of_holds h (d := '\r') rfl,
    ne_of_holds h (d := ';') rfl, ne_of_holds h (d := '#') rfl]

/-- The lexeme of a symbol, whatever follows that cannot be part of it. -/
theorem scan_of_isStart {c : Char} {cs : List Char} (h : isStart c = true)
    (hdigit : c.isDigit = false)
    (hsign : (IntegerLiteral.isSign c && Lexeme.startsWithDigit cs) = false) :
    Lexeme.scan (c :: cs) =
      .simple (.symbol (String.ofList (c :: cs.takeWhile isContinue)))
        (c :: cs.takeWhile isContinue) (cs.dropWhile isContinue) := by
  simp [Lexeme.scan, ne_of_holds h (d := '(') rfl, ne_of_holds h (d := ')') rfl,
    ne_of_holds h (d := '"') rfl, ne_of_holds h (d := '#') rfl, hdigit, hsign, h]

theorem takeWhile_boundary {p : Char → Bool} {cs rest : List Char} (hcs : cs.all p = true)
    (hrest : Boundary rest) (hspace : p ' ' = false) (hline : p '\n' = false)
    (hclose : p ')' = false) :
    (cs ++ rest).takeWhile p = cs ∧ (cs ++ rest).dropWhile p = rest := by
  refine span_append (List.all_eq_true.mp hcs) ?_
  cases rest with
  | nil => exact nofun
  | cons c rest =>
    intro d hd
    cases hd
    rcases hrest with rfl | rfl | rfl <;> assumption

theorem startsWithDigit_append {cs rest : List Char} (hrest : Boundary rest)
    (h : Lexeme.startsWithDigit cs = false) : Lexeme.startsWithDigit (cs ++ rest) = false := by
  cases cs with
  | nil =>
    cases rest with
    | nil => rfl
    | cons c rest => rcases hrest with rfl | rfl | rfl <;> rfl
  | cons c cs => exact h

end Symbol

theorem Spells.symbol {name : String} (h : Symbol.isSpelling name.toList = true) :
    Spells name.toList [.symbol name] := by
  cases hname : name.toList with
  | nil =>
    rw [hname] at h
    cases h
  | cons c cs =>
    rw [hname] at h
    simp only [Symbol.isSpelling, Bool.and_eq_true, Bool.not_eq_true'] at h
    obtain ⟨⟨⟨hstart, hdigit⟩, hsign⟩, hall⟩ := h
    intro rest hrest
    obtain ⟨htake, hdrop⟩ := Symbol.takeWhile_boundary hall hrest rfl rfl rfl
    have hsign' : (IntegerLiteral.isSign c && Lexeme.startsWithDigit (cs ++ rest)) = false := by
      cases hc : IntegerLiteral.isSign c with
      | false => rfl
      | true =>
        rw [hc, Bool.true_and] at hsign
        exact Symbol.startsWithDigit_append hrest hsign
    rw [List.cons_append, Lexed.ofChars_of_lexeme (Symbol.scan?_of_isStart hstart),
      Symbol.scan_of_isStart hstart hdigit hsign', htake, hdrop, ← hname, String.ofList_toList]
    rfl

namespace Symbol

theorem kind_of_hash (cs : List Char) (name : String) : (Lexeme.hash cs).kind ≠ .symbol name := by
  unfold Lexeme.hash
  split
  · intro h
    cases h
  split
  · intro h
    cases h
  split
  · intro h
    cases h
  split <;> rintro ⟨⟩

theorem kind_of_integer (c : Char) (cs : List Char) (name : String) :
    (Lexeme.integer c cs).kind ≠ .symbol name := by
  unfold Lexeme.integer
  simp only
  split <;> rintro ⟨⟩

theorem startsWithDigit_takeWhile {cs : List Char} (h : Lexeme.startsWithDigit cs = false)
    (p : Char → Bool) : Lexeme.startsWithDigit (cs.takeWhile p) = false := by
  cases cs with
  | nil => rfl
  | cons c cs =>
    rw [List.takeWhile_cons]
    split
    · exact h
    · rfl

theorem isSpelling_of_scan {c : Char} {cs : List Char} {name : String}
    (h : (Lexeme.scan (c :: cs)).kind = .symbol name) : isSpelling name.toList = true := by
  rw [Lexeme.scan] at h
  split at h
  · cases h
  split at h
  · cases h
  split at h
  · cases h
  split at h
  · exact absurd h (kind_of_hash _ _)
  split at h
  · exact absurd h (kind_of_integer _ _ _)
  split at h
  next hnumber hstart =>
    cases h
    rw [Bool.or_eq_true, not_or, Bool.not_eq_true, Bool.not_eq_true] at hnumber
    obtain ⟨hdigit, hsign⟩ := hnumber
    have hsign' : (IntegerLiteral.isSign c &&
        Lexeme.startsWithDigit (cs.takeWhile isContinue)) = false := by
      cases hc : IntegerLiteral.isSign c with
      | false => rfl
      | true =>
        rw [hc, Bool.true_and] at hsign
        exact startsWithDigit_takeWhile hsign _
    rw [String.toList_ofList, isSpelling, hstart, hdigit, hsign']
    simp
  next => cases h

/-- Every symbol of a text is one by itself. -/
theorem isSpelling_of_mem {cs : List Char} {name : String}
    (h : .symbol name ∈ (Lexed.ofChars cs).kinds) : isSpelling name.toList = true := by
  fun_induction Lexed.ofChars cs with
  | case1 cs s hs hclosed ih => exact ih h
  | case2 cs s hs hopen => cases h
  | case3 hs => cases h
  | case4 c cs hs ih =>
    rcases List.mem_cons.mp h with heq | hmem
    · exact isSpelling_of_scan heq.symm
    · exact ih hmem

end Symbol

/-- Whether the lexer takes a text, as a whole, for one symbol and finds no fault. -/
def IsSymbol (name : String) : Prop :=
  (tokenize name).1.map Token.kind = [.symbol name, .endOfFile] ∧ (tokenize name).2 = []

theorem isSpelling_of_isSymbol {name : String} (h : IsSymbol name) :
    Symbol.isSpelling name.toList = true := by
  have hmem : TokenKind.symbol name ∈ (Lexed.ofChars name.toList).kinds ++ [.endOfFile] := by
    rw [← kinds_tokenize, h.1]
    exact List.mem_cons_self ..
  rcases List.mem_append.mp hmem with hkind | hend
  · exact Symbol.isSpelling_of_mem hkind
  · simp at hend

/-! ### Strings -/

namespace Quoted

/-- A character between quotation marks as an item of a string. -/
def item (c : Char) : StringLiteral.Item :=
  if c = '\\' || c = '"' then .short c
  else if c = '\n' then .short 'n'
  else if c = '\r' then .short 'r'
  else if c = '\t' then .short 't'
  else .plain c

theorem value_item (c : Char) : (item c).value = c := by
  unfold item
  split
  next h =>
    simp only [Bool.or_eq_true, decide_eq_true_eq] at h
    rcases h with rfl | rfl <;> rfl
  split
  next h => exact h.symm
  split
  next h => exact h.symm
  split
  next h => exact h.symm
  next => rfl

theorem fault_item (c : Char) : (item c).fault? = none := by
  unfold item
  split
  next h =>
    simp only [Bool.or_eq_true, decide_eq_true_eq] at h
    rcases h with rfl | rfl <;> rfl
  split
  · rfl
  split
  · rfl
  split <;> rfl

theorem scanFrom_short {before : List StringLiteral.Item} {c : Char} {cs : List Char}
    (hline : isLineBreak c = false) (hwidth : StringLiteral.Width.ofLetter? c = none) :
    StringLiteral.scanFrom before ('\\' :: c :: cs) =
      StringLiteral.scanFrom (.short c :: before) cs := by
  rw [StringLiteral.scanFrom]
  simp only [hline, hwidth]
  rfl

theorem scanFrom_plain {before : List StringLiteral.Item} {c : Char} {cs : List Char}
    (hquote : c ≠ '"') (hback : c ≠ '\\') (hbreak : isLineBreak c = false) :
    StringLiteral.scanFrom before (c :: cs) = StringLiteral.scanFrom (.plain c :: before) cs := by
  rw [StringLiteral.scanFrom.eq_def]
  simp only [hquote, hback, hbreak, Bool.false_eq_true, if_false]

/-- The escape of a character is scanned as one item. -/
theorem scanFrom_escape (before : List StringLiteral.Item) (c : Char) (cs : List Char) :
    StringLiteral.scanFrom before (escape c ++ cs) =
      StringLiteral.scanFrom (item c :: before) cs := by
  unfold escape item
  by_cases hback : c = '\\'
  · subst hback
    exact scanFrom_short rfl rfl
  by_cases hquote : c = '"'
  · subst hquote
    exact scanFrom_short rfl rfl
  by_cases hline : c = '\n'
  · subst hline
    exact scanFrom_short rfl rfl
  by_cases hreturn : c = '\r'
  · subst hreturn
    exact scanFrom_short rfl rfl
  by_cases htab : c = '\t'
  · subst htab
    exact scanFrom_short rfl rfl
  have hbreak : isLineBreak c = false := by simp [isLineBreak, hline, hreturn]
  simp only [hback, hquote, hline, hreturn, htab, decide_false, Bool.or_self, Bool.false_eq_true,
    if_false, List.cons_append, List.nil_append]
  exact scanFrom_plain hquote hback hbreak

theorem scanFrom_quoted (before : List StringLiteral.Item) (s rest : List Char) :
    StringLiteral.scanFrom before (s.flatMap escape ++ '"' :: rest) =
      ⟨before.reverse ++ s.map item, .closed, rest⟩ := by
  induction s generalizing before with
  | nil =>
    rw [List.flatMap_nil, List.nil_append, StringLiteral.scanFrom.eq_def]
    simp
  | cons c s ih =>
    rw [List.flatMap_cons, List.append_assoc, scanFrom_escape, ih]
    simp

end Quoted

/-- A string in quotation marks is read back. -/
theorem quoted_ofString (s : String) (rest : List Char) :
    Lexeme.quoted (s.toList.flatMap Quoted.escape ++ '"' :: rest) =
      ⟨.string s, '"' :: (StringLiteral.chars (s.toList.map Quoted.item) ++ ['"']),
        s.toList.map Quoted.item, none, rest⟩ := by
  have hvalue : StringLiteral.value (s.toList.map Quoted.item) = s := by
    have hid : StringLiteral.Item.value ∘ Quoted.item = id := funext Quoted.value_item
    rw [StringLiteral.value, List.map_map, hid, List.map_id, String.ofList_toList]
  rw [Lexeme.quoted, StringLiteral.scan, Quoted.scanFrom_quoted, List.reverse_nil,
    List.nil_append]
  simp only [hvalue]
  rfl

theorem Spells.string (s : String) : Spells (Quoted.ofString s) [.string s] := by
  intro rest hrest
  have hfaults : (s.toList.map Quoted.item).filterMap (·.fault?) = [] := by
    rw [List.filterMap_map]
    refine List.filterMap_eq_nil_iff.mpr fun c _ => ?_
    exact Quoted.fault_item c
  rw [Quoted.ofString, List.cons_append, List.append_assoc, Lexed.ofChars_of_lexeme rfl]
  change Lexed.cons (Lexeme.quoted _) (Lexed.ofChars (Lexeme.quoted _).rest) = _
  rw [List.singleton_append, quoted_ofString, Lexed.cons, Lexeme.faults, hfaults]
  rfl

/-! ### Integers and booleans -/

theorem number_eq_ofDigitChars (ds : List Char) :
    IntegerLiteral.number ds = Nat.ofDigitChars 10 ds 0 := by
  rw [IntegerLiteral.number, Nat.ofDigitChars_eq_foldl]
  congr 1
  funext m d
  rw [Nat.mul_comm]

theorem number_toDigits (n : Nat) : IntegerLiteral.number (Nat.toDigits 10 n) = n := by
  rw [number_eq_ofDigitChars, Nat.ofDigitChars_ten_toDigits]

/-- Whether a number can begin with a character. -/
def isNumeric (c : Char) : Bool := c.isDigit || IntegerLiteral.isSign c

theorem toDigits_eq_cons (n : Nat) : ∃ d ds, Nat.toDigits 10 n = d :: ds ∧
    d.isDigit = true ∧ ds.all Char.isDigit = true := by
  have hdigits : ∀ c ∈ Nat.toDigits 10 n, c.isDigit = true := fun c hc =>
    Nat.isDigit_of_mem_toDigits (by decide) (by decide) hc
  cases h : Nat.toDigits 10 n with
  | nil => exact absurd h Nat.toDigits_ne_nil
  | cons d ds =>
    rw [h, List.forall_mem_cons] at hdigits
    exact ⟨d, ds, rfl, hdigits.1, List.all_eq_true.mpr hdigits.2⟩

theorem value_of_digit {d : Char} {ds : List Char} (h : d.isDigit = true) :
    IntegerLiteral.value (d :: ds) = IntegerLiteral.number (d :: ds) := by
  have hminus : d ≠ '-' := Symbol.ne_of_holds h rfl
  have hplus : d ≠ '+' := Symbol.ne_of_holds h rfl
  unfold IntegerLiteral.value
  split
  next heq => exact absurd (List.cons.inj heq).1 hminus
  next heq => exact absurd (List.cons.inj heq).1 hplus
  next => rfl

/-- The decimal text of an integer is one lexeme with the value of the integer. -/
theorem toString_int (z : Int) : ∃ c ds, (toString z).toList = c :: ds ∧
    (c.isDigit || IntegerLiteral.isSign c && Lexeme.startsWithDigit ds) = true ∧
    ds.all Char.isDigit = true ∧ IntegerLiteral.value (c :: ds) = z := by
  rw [Int.toString_eq_repr]
  cases z with
  | ofNat n =>
    obtain ⟨d, ds, hcons, hd, hds⟩ := toDigits_eq_cons n
    refine ⟨d, ds, by rw [← hcons]; exact Nat.toList_repr, by rw [hd, Bool.true_or], hds, ?_⟩
    rw [value_of_digit hd, ← hcons, number_toDigits]
    rfl
  | negSucc n =>
    obtain ⟨d, ds, hcons, hd, hds⟩ := toDigits_eq_cons (n + 1)
    refine ⟨'-', d :: ds, ?_, ?_, ?_, ?_⟩
    · change ("-" ++ (n + 1).repr).toList = _
      rw [String.toList_append, Nat.toList_repr, hcons]
      rfl
    · rw [Lexeme.startsWithDigit, hd]
      rfl
    · rw [List.all_cons, hd, hds]
      rfl
    · change -(IntegerLiteral.number (d :: ds) : Int) = _
      rw [← hcons, number_toDigits]
      rfl

/-- A digit, or a sign before a digit, begins an integer. -/
theorem scan_integer {c : Char} {cs : List Char}
    (h : (c.isDigit || IntegerLiteral.isSign c && Lexeme.startsWithDigit cs) = true) :
    Piece.scan? (c :: cs) = none ∧ Lexeme.scan (c :: cs) = Lexeme.integer c cs := by
  have hnumeric : isNumeric c = true := by
    rw [Bool.or_eq_true, Bool.and_eq_true] at h
    rw [isNumeric, Bool.or_eq_true]
    exact h.imp_right And.left
  constructor
  · simp [Piece.scan?, Symbol.ne_of_holds hnumeric (d := ' ') rfl,
      Symbol.ne_of_holds hnumeric (d := '\t') rfl, Symbol.ne_of_holds hnumeric (d := '\n') rfl,
      Symbol.ne_of_holds hnumeric (d := '\r') rfl, Symbol.ne_of_holds hnumeric (d := ';') rfl,
      Symbol.ne_of_holds hnumeric (d := '#') rfl]
  · simp only [Lexeme.scan, Symbol.ne_of_holds hnumeric (d := '(') rfl,
      Symbol.ne_of_holds hnumeric (d := ')') rfl, Symbol.ne_of_holds hnumeric (d := '"') rfl,
      Symbol.ne_of_holds hnumeric (d := '#') rfl, if_false, h, if_true]

theorem Spells.integer (n : Int64) : Spells (Integer.display n).toList [.integer n] := by
  obtain ⟨c, ds, hcons, hfirst, hds, hvalue⟩ := toString_int n.toInt
  intro rest hrest
  obtain ⟨htake, hdrop⟩ := Symbol.takeWhile_boundary hds hrest rfl rfl rfl
  have hfirst' : (c.isDigit ||
      IntegerLiteral.isSign c && Lexeme.startsWithDigit (ds ++ rest)) = true := by
    cases ds with
    | nil =>
      simp only [Lexeme.startsWithDigit, Bool.and_false, Bool.or_false] at hfirst
      rw [hfirst, Bool.true_or]
    | cons d ds => exact hfirst
  obtain ⟨hpiece, hscan⟩ := scan_integer hfirst'
  have hinteger : Lexeme.integer c (ds ++ rest) = .simple (.integer n) (c :: ds) rest := by
    simp only [Lexeme.integer, IntegerLiteral.scan, htake, hdrop, hvalue, Integer.ofInt?_toInt]
  rw [Integer.display, hcons, List.cons_append, Lexed.ofChars_of_lexeme hpiece, hscan, hinteger]
  rfl

theorem Spells.boolean (b : Bool) :
    Spells (if b then ['#', 't'] else ['#', 'f']) [.boolean b] := by
  intro rest hrest
  cases b <;> exact Lexed.ofChars_of_lexeme rfl

end SandboxProfile
