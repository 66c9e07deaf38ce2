import SandboxProfile.Proofs.FrontToken
import SandboxProfile.Proofs.Spelling

/-!
# What integer literals denote

An integer literal is a sign, which may be left out, and any number of digits, as many zeros in
front as there may be. It is read exactly if it is a number of 64 bits, of which the least one has
no positive counterpart; any other number is reported and counts as zero (`leads_integer`).
-/

namespace SandboxProfile.IntegerLiteral

/-- The number that a literal writes: the digits in base ten, negated behind a minus sign. -/
inductive Denotes : List Char → Int → Prop
  | unsigned {ds : List Char} (some : ds ≠ []) (decimal : ∀ d ∈ ds, d.isDigit = true) :
      Denotes ds (Nat.ofDigitChars 10 ds 0)
  | plus {ds : List Char} (some : ds ≠ []) (decimal : ∀ d ∈ ds, d.isDigit = true) :
      Denotes ('+' :: ds) (Nat.ofDigitChars 10 ds 0)
  | minus {ds : List Char} (some : ds ≠ []) (decimal : ∀ d ∈ ds, d.isDigit = true) :
      Denotes ('-' :: ds) (-(Nat.ofDigitChars 10 ds 0))

theorem startsWithDigit_digits {ds : List Char} (hsome : ds ≠ [])
    (hdigits : ∀ d ∈ ds, d.isDigit = true) (behind : List Char) :
    Lexeme.startsWithDigit (ds ++ behind) = true := by
  cases ds with
  | nil => exact absurd rfl hsome
  | cons d ds => exact hdigits d (List.mem_cons_self ..)

/-- A literal begins as an integer does, goes on with digits, and has its value. -/
theorem Denotes.exists_first {literal : List Char} {z : Int} (h : Denotes literal z) :
    ∃ c ds, literal = c :: ds ∧ (∀ d ∈ ds, d.isDigit = true) ∧ value literal = z ∧
      ∀ behind, (c.isDigit || isSign c && Lexeme.startsWithDigit (ds ++ behind)) = true := by
  cases h with
  | unsigned hsome hdigits =>
    cases literal with
    | nil => exact absurd rfl hsome
    | cons c ds =>
      obtain ⟨hc, hds⟩ := List.forall_mem_cons.mp hdigits
      refine ⟨c, ds, rfl, hds, ?_, ?_⟩
      · rw [value_of_digit hc, number_eq_ofDigitChars]
      · intro behind
        rw [hc, Bool.true_or]
  | @plus ds hsome hdigits =>
    refine ⟨'+', ds, rfl, hdigits, ?_, startsWithDigit_digits hsome hdigits⟩
    rw [← number_eq_ofDigitChars]
    rfl
  | @minus ds hsome hdigits =>
    refine ⟨'-', ds, rfl, hdigits, ?_, startsWithDigit_digits hsome hdigits⟩
    rw [← number_eq_ofDigitChars]
    rfl

section Scan

variable {literal behind : List Char} {z : Int}

/-- A literal is taken as a whole, whatever its length, and what follows is left. -/
theorem leads_literal (h : Denotes literal z) (hbehind : ∀ c ∈ behind.head?, c.isDigit = false) :
    (∀ n, Integer.ofInt? z = some n →
      Leads (String.ofList (literal ++ behind)) (.integer n) literal []) ∧
    (Integer.ofInt? z = none →
      Leads (String.ofList (literal ++ behind)) (.integer 0) literal
        [(LexicalFault.integerOutOfRange (String.ofList literal)).diagnostic
          (.covering .origin literal)]) := by
  obtain ⟨c, ds, rfl, hds, hvalue, hfirst⟩ := h.exists_first
  obtain ⟨htake, hdrop⟩ := span_append hds hbehind
  obtain ⟨hpiece, hscan⟩ := scan_integer (hfirst behind)
  have hleads := leads_of_scan hpiece
  rw [hscan, Lexeme.integer] at hleads
  simp only [scan, htake, hdrop, hvalue] at hleads
  constructor
  · intro n hn
    rw [hn] at hleads
    exact hleads
  · intro hnone
    rw [hnone] at hleads
    exact hleads

end Scan

/-- A literal before anything but a digit is the first token of its text and has exactly its number,
or zero if that is no number of 64 bits, which is the one thing that is reported of it. An integer
that is printed is one token by itself, of which the integer is the value. -/
theorem leads_integer :
    (∀ (literal behind : List Char) (z : Int), Denotes literal z →
      (∀ c ∈ behind.head?, c.isDigit = false) →
      (-0x8000000000000000 ≤ z ∧ z ≤ 0x7FFFFFFFFFFFFFFF → ∃ n : Int64, n.toInt = z ∧
        Leads (String.ofList (literal ++ behind)) (.integer n) literal []) ∧
      (z < -0x8000000000000000 ∨ 0x7FFFFFFFFFFFFFFF < z → ∃ d : Diagnostic,
        d.code = .invalidIntegerLiteral ∧ d.range = .covering .origin literal ∧
        Leads (String.ofList (literal ++ behind)) (.integer 0) literal [d])) ∧
    ∀ n : Int64, (tokenize (Integer.display n)).1.map Token.kind = [.integer n, .endOfFile] ∧
      (tokenize (Integer.display n)).2 = [] := by
  constructor
  · intro literal behind z hliteral hbehind
    obtain ⟨hexact, hlimited⟩ := leads_literal hliteral hbehind
    constructor
    · rintro ⟨hlow, hhigh⟩
      have hread : Integer.ofInt? z = some (Int64.ofInt z) := if_pos ⟨hlow, by omega⟩
      exact ⟨Int64.ofInt z, Integer.toInt_of_ofInt? hread, hexact _ hread⟩
    · intro houtside
      have hread : Integer.ofInt? z = none := if_neg (by omega)
      exact ⟨_, rfl, rfl, hlimited hread⟩
  · intro n
    have htokens := (Spells.integer n).tokenized
    rwa [String.ofList_toList] at htokens

/-- The least integer with a zero in front, before a parenthesis, and the same number without its
sign. -/
theorem leads_integer_least :
    let digits := "09223372036854775808".toList
    Denotes ('-' :: digits) (-0x8000000000000000) ∧ Denotes digits 0x8000000000000000 ∧
    (∃ n : Int64, n.toInt = -0x8000000000000000 ∧
      Leads (String.ofList ('-' :: digits ++ [')'])) (.integer n) ('-' :: digits) []) ∧
    ∃ d : Diagnostic, d.code = .invalidIntegerLiteral ∧ d.range = .covering .origin digits ∧
      Leads (String.ofList (digits ++ [')'])) (.integer 0) digits [d] := by
  intro digits
  have hsome : digits ≠ [] := by decide
  have hdigits : ∀ d ∈ digits, d.isDigit = true := List.all_eq_true.mp rfl
  have hnumber : Nat.ofDigitChars 10 digits 0 = 0x8000000000000000 := by decide
  have hbehind : ∀ c ∈ [')'].head?, c.isDigit = false := by
    intro c hc
    cases hc
    rfl
  have hminus : Denotes ('-' :: digits) (-0x8000000000000000) := by
    have h := Denotes.minus hsome hdigits
    rwa [hnumber] at h
  have hunsigned : Denotes digits 0x8000000000000000 := by
    have h := Denotes.unsigned hsome hdigits
    rwa [hnumber] at h
  exact ⟨hminus, hunsigned,
    (leads_integer.1 _ [')'] _ hminus hbehind).1 ⟨by decide, by decide⟩,
    (leads_integer.1 _ [')'] _ hunsigned hbehind).2 (.inr (by decide))⟩

end SandboxProfile.IntegerLiteral
