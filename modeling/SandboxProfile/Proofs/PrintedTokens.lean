import SandboxProfile.Proofs.Printable

/-!
# The tokens of printed profiles

A pair headed by the symbol of quotation is printed as an apostrophe in front of what is quoted, and
an apostrophe is a character of symbols: in front of a symbol or an integer it makes one symbol with
it, and in front of anything else it is a symbol of its own. Here are the tokens of any profile of
which all names are symbols, quotations and filters of any shape among it. Those of a legible
profile without quotations are its kinds.
-/

namespace SandboxProfile.Wire

/-- The symbol that apostrophes are in front of a token that they cannot be part of. -/
def apostrophes : Nat → List TokenKind
  | 0 => []
  | n + 1 => [.symbol (String.ofList (List.replicate (n + 1) '\x27'))]

/-- A token of a given text, or the symbol that apostrophes in front make with it. -/
def joined (ticks : Nat) (k : TokenKind) (text : List Char) : TokenKind :=
  match ticks with
  | 0 => k
  | n + 1 => .symbol (String.ofList (List.replicate (n + 1) '\x27' ++ text))

/-! ### Expressions -/

namespace Node

mutual

/-- The tokens of an expression behind apostrophes. -/
def printed (ticks : Nat) : Node → List TokenKind
  | integer n => [joined ticks (.integer n) (Integer.display n).toList]
  | string s => apostrophes ticks ++ [.string s]
  | boolean b => apostrophes ticks ++ [.boolean b]
  | symbol name => [joined ticks (.symbol name) name.toList]
  | list [symbol "quote", inner] => inner.printed (ticks + 1)
  | list items => apostrophes ticks ++ .leftParen :: (printedAll items ++ [.rightParen])

def printedAll : List Node → List TokenKind
  | [] => []
  | x :: xs => x.printed 0 ++ printedAll xs

end

theorem ne_quotation {items : List Node} (h : (list items).quoted? = none) (inner : Node) :
    items ≠ [symbol "quote", inner] := by
  rintro rfl
  cases h

theorem printed_list {items : List Node} (h : (list items).quoted? = none) (ticks : Nat) :
    (list items).printed ticks =
      apostrophes ticks ++ .leftParen :: (printedAll items ++ [.rightParen]) := by
  rw [printed]
  exact fun inner => ne_quotation h inner

mutual

theorem printed_eq_kinds : (x : Node) → x.QuoteFree → x.printed 0 = x.kinds
  | integer _, _ | string _, _ | boolean _, _ | symbol _, _ => rfl
  | list items, h => by
    rw [printed_list h.1, kinds, printedAll_eq_kindsAll items h.2]
    rfl

theorem printedAll_eq_kindsAll : (xs : List Node) →
    EveryAll (fun y => y.quoted? = none) xs → printedAll xs = kindsAll xs
  | [], _ => rfl
  | x :: xs, h => by
    rw [printedAll, kindsAll, printed_eq_kinds x h.1, printedAll_eq_kindsAll xs h.2]

end

end Node

/-! ### Filters -/

namespace Filter

/-- The type and all symbols of the value are symbols in a text. -/
def Named (f : Filter) : Prop :=
  IsSymbol f.type ∧ ∀ value, f.value = some value → value.Legible

/-- The tokens of a filter, those of its parts given. Only the types that have parts show them, and
only the others a value. -/
def tokens (type : String) (value : Option Node) (parts : List TokenKind) : List TokenKind :=
  if type = expressionText then value.elim [.leftParen, .rightParen] (Node.printed 0)
  else if hasParts type then .leftParen :: .symbol type :: (parts ++ [.rightParen])
  else .leftParen :: .symbol type :: (value.elim [] (Node.printed 0) ++ [.rightParen])

mutual

def printed : Filter → List TokenKind
  | ⟨type, value, none⟩ => tokens type value []
  | ⟨type, value, some parts⟩ => tokens type value (printedAll parts)

def printedAll : List Filter → List TokenKind
  | [] => []
  | f :: fs => f.printed ++ printedAll fs

end

theorem isSymbol_partsType {type : String} (h : hasParts type = true) : IsSymbol type := by
  rw [hasParts, Bool.or_eq_true] at h
  rcases h with h | h
  · unfold CompoundKind.ofText? at h
    unfold IsSymbol
    split at h
    · decide +kernel
    · decide +kernel
    · cases h
  · obtain rfl := of_decide_eq_true h
    unfold IsSymbol
    decide +kernel

theorem named_of_legible {f : Filter} (h : f.Legible) : f.Named := by
  obtain ⟨type, value, filters⟩ := f
  cases filters with
  | none =>
    obtain ⟨-, hsymbol, v, rfl, hv⟩ := value_of_legible h
    exact ⟨hsymbol, fun _ heq => by cases heq; exact hv⟩
  | some parts =>
    obtain ⟨rfl, -⟩ := parts_of_legible h
    exact ⟨isSymbol_partsType (hasParts_of_legible h), nofun⟩

theorem expressionText_ne {type : String} (h : hasParts type = true) : type ≠ expressionText := by
  rintro rfl
  revert h
  decide

mutual

theorem printed_eq_kinds : {f : Filter} → f.Every Legible → f.Every QuoteFree →
    f.printed = f.kinds
  | ⟨type, value, none⟩, h, hq => by
    obtain ⟨hparts, -, v, rfl, -⟩ := value_of_legible h
    rw [printed, tokens, kinds, hparts, if_neg Bool.false_ne_true]
    simp only [Option.elim_some, Node.printed_eq_kinds v (hq v rfl)]
  | ⟨type, value, some parts⟩, h, hq => by
    have hparts := hasParts_of_legible h.1
    rw [printed, tokens, if_neg (expressionText_ne hparts), if_pos hparts, kinds,
      printedAll_eq_kindsAll h.2 hq.2]

theorem printedAll_eq_kindsAll : {fs : List Filter} → EveryAll Legible fs →
    EveryAll QuoteFree fs → printedAll fs = kindsAll fs
  | [], _, _ => rfl
  | f :: fs, h, hq => by
    rw [printedAll, kindsAll, printed_eq_kinds h.1 hq.1, printedAll_eq_kindsAll h.2 hq.2]

end

end Filter

/-! ### Declarations -/

namespace Declaration

/-- All names are symbols. -/
def Named : Declaration → Prop
  | definition d => IsSymbol d.name ∧ d.value.Legible
  | rule r => (∀ name ∈ r.operations, IsSymbol name) ∧ Filter.EveryAll Filter.Named r.filters
  | version _ | debugMode _ | importPath _ => True

/-- The tokens between the parentheses. -/
def printedInner : Declaration → List TokenKind
  | version n => [.symbol "version", .integer n]
  | debugMode a => [.symbol "debug", .symbol a.text]
  | importPath path => [.symbol "import", .string path]
  | definition d => .symbol "define" :: .symbol d.name :: d.value.printed 0
  | rule r => .symbol r.action.text :: (r.operations.map .symbol ++ Filter.printedAll r.filters)

def printed (d : Declaration) : List TokenKind := .leftParen :: (d.printedInner ++ [.rightParen])

theorem named_of_legible {d : Declaration} (h : d.Legible) : d.Named := by
  cases d with
  | definition d => exact h
  | rule r => exact ⟨h.1, h.2.imp fun _ => Filter.named_of_legible⟩
  | version _ | debugMode _ | importPath _ => trivial

theorem printed_eq_kinds {d : Declaration} (h : d.Legible) (hq : d.QuoteFree) :
    d.printed = d.kinds := by
  rw [printed, kinds]
  cases d with
  | definition d => rw [printedInner, inner, Node.printed_eq_kinds d.value hq]
  | rule r => rw [printedInner, inner, Filter.printedAll_eq_kindsAll h.2 hq]
  | version _ | debugMode _ | importPath _ => rfl

end Declaration

namespace Profile

/-- Every name and symbol is a symbol in a text. -/
def Named (p : Profile) : Prop := ∀ d ∈ p.declarations, d.Named

/-- The tokens that a profile is printed as. -/
def printed (p : Profile) : List TokenKind := p.declarations.flatMap Declaration.printed

theorem named_of_legible {p : Profile} (h : p.Legible) : p.Named :=
  fun d hd => Declaration.named_of_legible (h d hd)

theorem printed_eq_kinds {p : Profile} (h : p.Legible) (hq : p.QuoteFree) : p.printed = p.kinds :=
  congrArg List.flatten
    (List.map_congr_left fun d hd => Declaration.printed_eq_kinds (h d hd) (hq d hd))

end Profile

end SandboxProfile.Wire
