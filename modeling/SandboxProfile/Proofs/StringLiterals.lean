import Mathlib.Data.List.Forall2
import Mathlib.Data.List.TakeWhile
import SandboxProfile.Proofs.FrontToken
import SandboxProfile.Proofs.Spelling

/-!
# What string literals denote

The content of a string literal is a sequence of items, plain characters and escapes, and each of
them denotes one character. An escape by number takes exactly its digits, so whatever follows, more
digits or another escape, is the next item (`Denotes.exists_item`). A literal of such items is the
first token of its text, and its value are the characters that they denote (`leads_string`).
-/

namespace SandboxProfile

namespace Hex

/-- Whether a character is the digit of a number, in either case. -/
def Writes (c : Char) (n : Nat) : Prop :=
  "0123456789abcdef".toList[n]? = some c ∨ "0123456789ABCDEF".toList[n]? = some c

theorem digit?_of_writes {c : Char} {n : Nat} (h : Writes c n) : n < 16 ∧ digit? c = some n := by
  have hdigits : ∀ n < 16, "0123456789abcdef".toList[n]?.bind digit? = some n ∧
      "0123456789ABCDEF".toList[n]?.bind digit? = some n := by decide
  rcases h with h | h
  · obtain ⟨hlt, -⟩ := List.getElem?_eq_some_iff.mp h
    have hdigit := (hdigits n hlt).1
    rw [h] at hdigit
    exact ⟨hlt, hdigit⟩
  · obtain ⟨hlt, -⟩ := List.getElem?_eq_some_iff.mp h
    have hdigit := (hdigits n hlt).2
    rw [h] at hdigit
    exact ⟨hlt, hdigit⟩

theorem isDigit_of_writes {c : Char} {n : Nat} (h : Writes c n) : isDigit c = true := by
  rw [isDigit, (digit?_of_writes h).2]
  rfl

end Hex

namespace StringLiteral

/-- What the text of an item denotes: a plain character itself, a letter behind a backslash the
character it stands for, and hexadecimal digits the character of that number. -/
inductive Denotes : List Char → Char → Prop
  | plain {c : Char} (quote : c ≠ '"') (backslash : c ≠ '\\') (lineFeed : c ≠ '\n')
      (carriageReturn : c ≠ '\r') : Denotes [c] c
  | lineFeed : Denotes ['\\', 'n'] '\n'
  | carriageReturn : Denotes ['\\', 'r'] '\r'
  | tab : Denotes ['\\', 't'] '\t'
  | backslash : Denotes ['\\', '\\'] '\\'
  | quote : Denotes ['\\', '"'] '"'
  | zero : Denotes ['\\', '0'] '\x00'
  | byte {c d : Char} {m n : Nat} (first : Hex.Writes c m) (last : Hex.Writes d n) :
      Denotes ['\\', 'x', c, d] (Char.ofNat (16 * m + n))
  /-- Four digits, save those of a surrogate. -/
  | word {c₁ c₂ c₃ c₄ : Char} {n₁ n₂ n₃ n₄ : Nat} (first : Hex.Writes c₁ n₁)
      (second : Hex.Writes c₂ n₂) (third : Hex.Writes c₃ n₃) (last : Hex.Writes c₄ n₄)
      (scalar : 4096 * n₁ + 256 * n₂ + 16 * n₃ + n₄ < 0xD800 ∨
        0xDFFF < 4096 * n₁ + 256 * n₂ + 16 * n₃ + n₄) :
      Denotes ['\\', 'u', c₁, c₂, c₃, c₄] (Char.ofNat (4096 * n₁ + 256 * n₂ + 16 * n₃ + n₄))

/-! ### One item -/

/-- Whether an item without a fault is what a scan finds of a text, whatever stands behind it. -/
structure Item.SpelledBy (item : Item) (text : List Char) : Prop where
  chars : item.chars = text
  fault : item.fault? = none
  scan : ∀ before cs, scanFrom before (text ++ cs) = scanFrom (item :: before) cs

theorem Item.spelledBy_short {c : Char} (hline : isLineBreak c = false)
    (hwidth : Width.ofLetter? c = none) (hfault : (Item.short c).fault? = none) :
    (Item.short c).SpelledBy ['\\', c] where
  chars := rfl
  fault := hfault
  scan _ _ := Quoted.scanFrom_short hline hwidth

section Hex

variable {width : Width} {ds cs : List Char}

/-- An escape takes no more digits than it wants, whatever follows. -/
theorem hexDigits_append (hlength : ds.length = width.digits)
    (hdigits : ∀ d ∈ ds, Hex.isDigit d = true) : hexDigits width (ds ++ cs) = ds := by
  rw [hexDigits, ← hlength, List.take_left]
  exact List.takeWhile_eq_self_iff.mpr hdigits

theorem Item.spelledBy_hex {n : Nat} (hlength : ds.length = width.digits)
    (hdigits : ∀ d ∈ ds, Hex.isDigit d = true) (hnumber : Hex.number ds = n)
    (hscalar : n.isValidChar) :
    (Item.hex width ds).SpelledBy ('\\' :: width.letter :: ds) ∧
      (Item.hex width ds).value = Char.ofNat n := by
  have hlong : ¬ ds.length < width.digits := by omega
  have hchar : scalar? n = some (Char.ofNat n) := if_pos hscalar
  refine ⟨⟨rfl, ?_, ?_⟩, ?_⟩
  · rw [Item.fault?, if_neg hlong, hnumber, hchar]
    rfl
  · intro before cs
    have hscan : hexDigits width (ds ++ cs) = ds := hexDigits_append hlength hdigits
    rw [List.cons_append, List.cons_append, scanFrom.eq_def]
    cases width with
    | byte => simp [isLineBreak, Width.letter, Width.ofLetter?, hscan]
    | word => simp [isLineBreak, Width.letter, Width.ofLetter?, hscan]
  · rw [Item.value, if_neg hlong, hnumber, hchar]
    rfl

end Hex

/-- The text of an item is scanned as one, and has the value that it denotes. -/
theorem Denotes.exists_item {text : List Char} {c : Char} (h : Denotes text c) :
    ∃ item : Item, item.SpelledBy text ∧ item.value = c := by
  cases h with
  | plain quote backslash lineFeed carriageReturn =>
    have hbreak : isLineBreak c = false := by simp [isLineBreak, lineFeed, carriageReturn]
    exact ⟨.plain c, ⟨rfl, rfl, fun _ _ => Quoted.scanFrom_plain quote backslash hbreak⟩, rfl⟩
  | lineFeed => exact ⟨.short 'n', Item.spelledBy_short rfl rfl rfl, rfl⟩
  | carriageReturn => exact ⟨.short 'r', Item.spelledBy_short rfl rfl rfl, rfl⟩
  | tab => exact ⟨.short 't', Item.spelledBy_short rfl rfl rfl, rfl⟩
  | backslash => exact ⟨.short '\\', Item.spelledBy_short rfl rfl rfl, rfl⟩
  | quote => exact ⟨.short '"', Item.spelledBy_short rfl rfl rfl, rfl⟩
  | zero => exact ⟨.short '0', Item.spelledBy_short rfl rfl rfl, rfl⟩
  | @byte c d m n first last =>
    obtain ⟨hm, hc⟩ := Hex.digit?_of_writes first
    obtain ⟨hn, hd⟩ := Hex.digit?_of_writes last
    have hnumber : Hex.number [c, d] = 16 * m + n := by
      simp only [Hex.number, List.foldl_cons, List.foldl_nil, hc, hd, Option.getD_some]
      omega
    have hdigits : ∀ e ∈ [c, d], Hex.isDigit e = true := by
      simp [Hex.isDigit_of_writes first, Hex.isDigit_of_writes last]
    have hscalar : (16 * m + n).isValidChar := .inl (by omega)
    have hlength : [c, d].length = Width.byte.digits := rfl
    exact ⟨_, Item.spelledBy_hex hlength hdigits hnumber hscalar⟩
  | @word c₁ c₂ c₃ c₄ n₁ n₂ n₃ n₄ first second third last scalar =>
    obtain ⟨hn₁, hc₁⟩ := Hex.digit?_of_writes first
    obtain ⟨hn₂, hc₂⟩ := Hex.digit?_of_writes second
    obtain ⟨hn₃, hc₃⟩ := Hex.digit?_of_writes third
    obtain ⟨hn₄, hc₄⟩ := Hex.digit?_of_writes last
    have hnumber : Hex.number [c₁, c₂, c₃, c₄] = 4096 * n₁ + 256 * n₂ + 16 * n₃ + n₄ := by
      simp only [Hex.number, List.foldl_cons, List.foldl_nil, hc₁, hc₂, hc₃, hc₄,
        Option.getD_some]
      omega
    have hdigits : ∀ e ∈ [c₁, c₂, c₃, c₄], Hex.isDigit e = true := by
      simp [Hex.isDigit_of_writes first, Hex.isDigit_of_writes second,
        Hex.isDigit_of_writes third, Hex.isDigit_of_writes last]
    have hscalar : (4096 * n₁ + 256 * n₂ + 16 * n₃ + n₄).isValidChar :=
      scalar.imp_right fun h => ⟨h, by omega⟩
    have hlength : [c₁, c₂, c₃, c₄].length = Width.word.digits := rfl
    exact ⟨_, Item.spelledBy_hex hlength hdigits hnumber hscalar⟩

/-! ### Sequences of items -/

/-- Texts of items, one behind the other, are scanned as these items, up to the closing mark. -/
theorem exists_items {texts : List (List Char)} {value : List Char}
    (h : List.Forall₂ Denotes texts value) (before : List Item) (behind : List Char) :
    ∃ items : List Item, chars items = texts.flatten ∧ items.map Item.value = value ∧
      (∀ item ∈ items, item.fault? = none) ∧
      scanFrom before (texts.flatten ++ '"' :: behind) =
        ⟨before.reverse ++ items, .closed, behind⟩ := by
  induction h generalizing before with
  | nil =>
    refine ⟨[], rfl, rfl, List.forall_mem_nil _, ?_⟩
    rw [List.flatten_nil, List.nil_append, scanFrom.eq_def, List.append_nil]
    rfl
  | cons hfirst _ ih =>
    obtain ⟨item, hspelled, hvalue⟩ := hfirst.exists_item
    obtain ⟨items, hchars, hvalues, hfaults, hscan⟩ := ih (item :: before)
    refine ⟨item :: items, ?_, ?_, List.forall_mem_cons.mpr ⟨hspelled.fault, hfaults⟩, ?_⟩
    · rw [chars, List.flatMap_cons, hspelled.chars, List.flatten_cons, ← hchars, chars]
    · rw [List.map_cons, hvalue, hvalues]
    · rw [List.flatten_cons, List.append_assoc, hspelled.scan, hscan, List.reverse_cons,
        List.append_assoc, List.singleton_append]

theorem diagnostics_of_faultless {items : List Item} (h : ∀ item ∈ items, item.fault? = none)
    (p : Position) : diagnostics p items = [] := by
  induction items generalizing p with
  | nil => rfl
  | cons item items ih =>
    obtain ⟨hitem, hitems⟩ := List.forall_mem_cons.mp h
    rw [diagnostics, hitem]
    exact ih hitems _

/-- A literal of such items is a lexeme without a fault. -/
theorem scan_literal {texts : List (List Char)} {value : List Char}
    (h : List.Forall₂ Denotes texts value) (behind : List Char) (p : Position) :
    let lexeme := Lexeme.scan ('"' :: (texts.flatten ++ '"' :: behind))
    lexeme.kind = .string (String.ofList value) ∧
      lexeme.text = '"' :: (texts.flatten ++ ['"']) ∧ lexeme.diagnostics p = [] := by
  obtain ⟨items, hchars, hvalues, hfaults, hscan⟩ := exists_items h [] behind
  intro lexeme
  have hlexeme : lexeme = ⟨.string (StringLiteral.value items),
      '"' :: (chars items ++ ['"']), items, none, behind⟩ := by
    show Lexeme.quoted (texts.flatten ++ '"' :: behind) = _
    rw [Lexeme.quoted, StringLiteral.scan, hscan]
    rfl
  rw [hlexeme]
  refine ⟨by rw [StringLiteral.value, hvalues], by rw [hchars], ?_⟩
  rw [Lexeme.diagnostics, diagnostics_of_faultless hfaults]
  rfl

/-- A literal is the first token of its text, whatever follows: its items, quoted, make up the
token, the value of which are the characters that they denote, and nothing is reported of it. A
string that is printed is one token by itself, of which the string is the value. -/
theorem leads_string :
    (∀ (texts : List (List Char)) (value behind : List Char), List.Forall₂ Denotes texts value →
      Leads (String.ofList ('"' :: (texts.flatten ++ '"' :: behind)))
        (.string (String.ofList value)) ('"' :: (texts.flatten ++ ['"'])) []) ∧
    ∀ s : String, (tokenize (String.ofList (Quoted.ofString s))).1.map Token.kind =
        [.string s, .endOfFile] ∧ (tokenize (String.ofList (Quoted.ofString s))).2 = [] := by
  constructor
  · intro texts value behind h
    obtain ⟨hkind, htext, hnone⟩ := scan_literal h behind .origin
    have hfront : Piece.scan? ('"' :: (texts.flatten ++ '"' :: behind)) = none := rfl
    have hleads := leads_of_scan hfront
    rwa [hkind, htext, hnone] at hleads
  · intro s
    exact (Spells.string s).tokenized

/-- Two escapes by number, with a third digit behind the first, before another string. -/
theorem leads_string_numbers :
    let texts := [['\\', 'x', '4', 'a'], ['4'], ['\\', 'u', '2', '6', '3', 'A'], ['\\', '\\']]
    let value := ['J', '4', '\u263A', '\\']
    List.Forall₂ Denotes texts value ∧
      Leads (String.ofList ('"' :: (texts.flatten ++ '"' :: ['"', '\\', 'q'])))
        (.string (String.ofList value)) ('"' :: (texts.flatten ++ ['"'])) [] := by
  intro texts value
  have hitems : List.Forall₂ Denotes texts value := by
    refine .cons ?_ (.cons ?_ (.cons ?_ (.cons .backslash .nil)))
    · exact .byte (m := 4) (n := 10) (.inl rfl) (.inl rfl)
    · exact .plain (by decide) (by decide) (by decide) (by decide)
    · exact .word (.inl rfl : Hex.Writes '2' 2) (.inl rfl : Hex.Writes '6' 6)
        (.inl rfl : Hex.Writes '3' 3) (.inr rfl : Hex.Writes 'A' 10) (.inl (by decide))
  exact ⟨hitems, leads_string.1 texts value ['"', '\\', 'q'] hitems⟩

end StringLiteral

end SandboxProfile
