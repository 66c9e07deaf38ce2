import SandboxProfile.Proofs.DerivedModel
import SandboxProfile.Proofs.PrintedForms
import SandboxProfile.Proofs.RoundTrip

/-!
# Quotations in a text

A quotation is printed as an apostrophe in front of what is quoted, and no text is read as one: the
apostrophe goes into the symbol behind it, or is a symbol of its own. Here is what a printed
expression is read as (`Node.respelled`), and how its text changes when that is printed again: where
an apostrophe stands in front of a list, a string or a boolean, a blank comes in between
(`Node.widened_respelled`). The text stays as it is exactly if apostrophes stand in front of symbols
and integers only (`Node.gaps_eq_zero_iff`).
-/

namespace SandboxProfile.Wire

/-! ### Blanks put into a text -/

/-- Whether a text is another one with a number of blanks put in. -/
inductive Widened : Nat → List Char → List Char → Prop
  | nil : Widened 0 [] []
  | keep {n : Nat} {s t : List Char} (c : Char) : Widened n s t → Widened n (c :: s) (c :: t)
  | blank {n : Nat} {s t : List Char} : Widened n s t → Widened (n + 1) s (' ' :: t)

namespace Widened

variable {m n : Nat} {s s' t t' : List Char}

theorem refl (s : List Char) : Widened 0 s s := by
  induction s with
  | nil => exact .nil
  | cons c s ih => exact .keep c ih

theorem append (h : Widened m s t) (h' : Widened n s' t') :
    Widened (m + n) (s ++ s') (t ++ t') := by
  induction h with
  | nil => rwa [Nat.zero_add]
  | keep c _ ih => exact .keep c ih
  | blank _ ih =>
    rw [Nat.add_right_comm]
    exact .blank ih

theorem prefixed (u : List Char) (h : Widened n s t) : Widened n (u ++ s) (u ++ t) := by
  have happend := (refl u).append h
  rwa [Nat.zero_add] at happend

theorem suffixed (h : Widened n s t) (u : List Char) : Widened n (s ++ u) (t ++ u) :=
  h.append (refl u)

theorem length (h : Widened n s t) : t.length = s.length + n := by
  induction h with
  | nil => rfl
  | keep c _ ih =>
    rw [List.length_cons, List.length_cons, ih]
    omega
  | blank _ ih =>
    rw [List.length_cons, ih]
    omega

theorem eq_of_zero (h : Widened n s t) (hn : n = 0) : s = t := by
  induction h with
  | nil => rfl
  | keep c _ ih => rw [ih hn]
  | blank _ _ => cases hn

/-- No line feed is put in. -/
theorem contains_lineFeed (h : Widened n s t) : t.contains '\n' = s.contains '\n' := by
  induction h with
  | nil => rfl
  | keep c _ ih => rw [List.contains_cons, List.contains_cons, ih]
  | blank _ ih =>
    rw [List.contains_cons, ih]
    rfl

/-- A blank in front counts as put in if it is not there in the text itself. -/
theorem drop (h : Widened n (' ' :: s) t) : Widened (n + 1) s t := by
  generalize hs : ' ' :: s = u at h
  induction h with
  | nil => cases hs
  | keep c h _ =>
    obtain ⟨rfl, rfl⟩ := List.cons.inj hs
    exact .blank h
  | blank _ ih => exact .blank (ih hs)

theorem tail (h : Widened n (' ' :: s) (' ' :: t)) : Widened n s t := by
  cases h with
  | keep _ h => exact h
  | blank h => exact h.drop

end Widened

theorem spaced_append (ts us : List (List Char)) : spaced (ts ++ us) = spaced ts ++ spaced us :=
  List.flatMap_append

namespace Node

/-! ### What is read -/

/-- The symbol that apostrophes by themselves are read as. -/
def marks : Nat → List Node
  | 0 => []
  | n + 1 => [symbol (String.ofList (List.replicate (n + 1) '\x27'))]

/-- An expression of a given text, or the symbol that apostrophes in front make with it. -/
def glued (ticks : Nat) (x : Node) (text : List Char) : Node :=
  match ticks with
  | 0 => x
  | n + 1 => symbol (String.ofList (List.replicate (n + 1) '\x27' ++ text))

mutual

/-- The expressions that an expression behind apostrophes is read as when it was printed. -/
def respelled (ticks : Nat) : Node → List Node
  | integer n => [glued ticks (integer n) (Integer.display n).toList]
  | string s => marks ticks ++ [string s]
  | boolean b => marks ticks ++ [boolean b]
  | symbol name => [glued ticks (symbol name) name.toList]
  | list [symbol "quote", inner] => inner.respelled (ticks + 1)
  | list items => marks ticks ++ [list (respelledAll items)]

def respelledAll : List Node → List Node
  | [] => []
  | x :: xs => x.respelled 0 ++ respelledAll xs

end

theorem respelled_list {items : List Node} (h : (list items).quoted? = none) (ticks : Nat) :
    (list items).respelled ticks = marks ticks ++ [list (respelledAll items)] := by
  rw [respelled]
  exact fun inner => ne_quotation h inner

theorem kindsAll_append (xs ys : List Node) : kindsAll (xs ++ ys) = kindsAll xs ++ kindsAll ys := by
  induction xs with
  | nil => rfl
  | cons x xs ih => rw [List.cons_append, kindsAll, ih, kindsAll, List.append_assoc]

theorem kindsAll_marks (ticks : Nat) (x : Node) :
    kindsAll (marks ticks ++ [x]) = apostrophes ticks ++ x.kinds := by
  cases ticks with
  | zero => exact List.append_nil _
  | succ n => exact congrArg (_ :: ·) (List.append_nil _)

theorem kinds_glued (ticks : Nat) {x : Node} {k : TokenKind} (h : x.kinds = [k])
    (text : List Char) : kindsAll [glued ticks x text] = [joined ticks k text] := by
  cases ticks with
  | zero => exact (List.append_nil _).trans h
  | succ n => rfl

mutual

/-- What is read has the tokens that were printed. -/
theorem kindsAll_respelled (ticks : Nat) : (x : Node) →
    kindsAll (x.respelled ticks) = x.printed ticks
  | integer n => kinds_glued ticks (k := .integer n) rfl _
  | string s => kindsAll_marks ticks (string s)
  | boolean b => kindsAll_marks ticks (boolean b)
  | symbol name => kinds_glued ticks (k := .symbol name) rfl _
  | list items => by
    by_cases hq : (list items).quoted? = none
    · rw [respelled_list hq, printed_list hq, kindsAll_marks, kinds, kindsAll_respelledAll items]
    · obtain ⟨inner, rfl⟩ := eq_quotation hq
      rw [respelled, printed]
      exact kindsAll_respelled (ticks + 1) inner

theorem kindsAll_respelledAll : (xs : List Node) → kindsAll (respelledAll xs) = printedAll xs
  | [] => rfl
  | x :: xs => by
    rw [respelledAll, kindsAll_append, kindsAll_respelled 0 x, kindsAll_respelledAll xs, printedAll]

end

/-- Expressions are found again in their tokens. -/
theorem kindsAll_inj {xs ys : List Node} (h : kindsAll xs = kindsAll ys) : xs = ys := by
  obtain ⟨es, hes, rfl, -⟩ := exists_exprs xs
  obtain ⟨gs, hgs, rfl, -⟩ := exists_exprs ys
  have hforms : Grammar.kinds [.definition "list" (.list es)] =
      Grammar.kinds [.definition "list" (.list gs)] := by
    simp only [Grammar.kinds, List.flatMap_singleton, Grammar.Form.kinds, Grammar.Form.inner,
      Grammar.Expr.kinds, hes, h, hgs]
  have hsame := SandboxProfile.Profile.declarations_unique hforms
  simp only [Grammar.declarations, List.filterMap_cons, List.filterMap_nil,
    Grammar.Form.declaration?, Grammar.Expr.node, List.cons.injEq, Declaration.definition.injEq,
    Definition.mk.injEq, list.injEq, and_true, true_and] at hsame
  exact hsame

/-! ### What is read holds no quotation -/

theorem respelled_ne_nil (ticks : Nat) : (x : Node) → x.respelled ticks ≠ []
  | integer _ | symbol _ => List.cons_ne_nil _ _
  | string _ | boolean _ => List.append_ne_nil_of_right_ne_nil _ (List.cons_ne_nil _ _)
  | list items => by
    by_cases hq : (list items).quoted? = none
    · rw [respelled_list hq]
      exact List.append_ne_nil_of_right_ne_nil _ (List.cons_ne_nil _ _)
    · obtain ⟨inner, rfl⟩ := eq_quotation hq
      rw [respelled]
      exact respelled_ne_nil (ticks + 1) inner

/-- The first character of a symbol that is made by an apostrophe. -/
def IsTicked (name : String) : Prop := name.toList.head? = some '\x27'

theorem isTicked_replicate (n : Nat) (text : List Char) :
    IsTicked (String.ofList (List.replicate (n + 1) '\x27' ++ text)) := by
  rw [IsTicked, String.toList_ofList, List.replicate_succ]
  rfl

theorem isTicked_of_marks {ticks : Nat} {name : String} {x : Node} {rest : List Node}
    (hx : ∀ word, x ≠ symbol word) (h : marks ticks ++ [x] = symbol name :: rest) :
    IsTicked name := by
  cases ticks with
  | zero => exact absurd (List.cons.inj h).1 (hx name)
  | succ n =>
    obtain ⟨hname, -⟩ := List.cons.inj h
    obtain rfl := symbol.inj hname
    rw [← List.append_nil (List.replicate _ _)]
    exact isTicked_replicate n []

/-- A symbol that is read first is the symbol that was there, or begins with an apostrophe. -/
theorem eq_or_isTicked {ticks : Nat} {name : String} {rest : List Node} : {x : Node} →
    x.respelled ticks = symbol name :: rest → x = symbol name ∧ ticks = 0 ∨ IsTicked name
  | integer n, h => by
    obtain ⟨hfirst, -⟩ := List.cons.inj h
    cases ticks with
    | zero => cases hfirst
    | succ n =>
      obtain rfl := symbol.inj hfirst
      exact .inr (isTicked_replicate _ _)
  | symbol word, h => by
    obtain ⟨hfirst, -⟩ := List.cons.inj h
    cases ticks with
    | zero => exact .inl ⟨hfirst, rfl⟩
    | succ n =>
      obtain rfl := symbol.inj hfirst
      exact .inr (isTicked_replicate _ _)
  | string s, h => .inr (isTicked_of_marks (x := string s) nofun h)
  | boolean b, h => .inr (isTicked_of_marks (x := boolean b) nofun h)
  | list items, h => by
    by_cases hq : (list items).quoted? = none
    · rw [respelled_list hq] at h
      have hlist : ∀ word, list (respelledAll items) ≠ symbol word := by
        intro word heq
        cases heq
      exact .inr (isTicked_of_marks hlist h)
    · obtain ⟨inner, rfl⟩ := eq_quotation hq
      rw [respelled] at h
      rcases eq_or_isTicked h with ⟨-, hticks⟩ | hticked
      · cases hticks
      · exact .inr hticked

/-- What the items of a list are read as is no quotation if the list is none. -/
theorem quoted?_respelledAll {items : List Node} (h : (list items).quoted? = none) :
    (list (respelledAll items)).quoted? = none := by
  refine Decidable.byContradiction fun hq => ?_
  obtain ⟨inner, hpair⟩ := eq_quotation hq
  cases items with
  | nil => cases hpair
  | cons x xs =>
    rw [respelledAll] at hpair
    obtain ⟨y, ys, hx⟩ := List.exists_cons_of_ne_nil (respelled_ne_nil 0 x)
    rw [hx, List.cons_append] at hpair
    obtain ⟨rfl, hrest⟩ := List.cons.inj hpair
    rcases eq_or_isTicked hx with ⟨rfl, -⟩ | hticked
    · -- the head is the symbol of quotation itself, so one expression follows it
      obtain rfl : [] = ys := (List.cons.inj hx).2
      cases xs with
      | nil => cases hrest
      | cons z zs =>
        cases zs with
        | nil => cases h
        | cons w ws =>
          have hz := List.length_pos_iff.mpr (respelled_ne_nil 0 z)
          have hw := List.length_pos_iff.mpr (respelled_ne_nil 0 w)
          have hlength := congrArg List.length hrest
          simp only [respelledAll, List.nil_append, List.length_append, List.length_cons,
            List.length_nil] at hlength
          omega
    · revert hticked
      unfold IsTicked
      decide

theorem everyAll_append {P : Node → Prop} {xs ys : List Node} :
    EveryAll P (xs ++ ys) ↔ EveryAll P xs ∧ EveryAll P ys := by
  induction xs with
  | nil => exact (and_iff_right trivial).symm
  | cons x xs ih => rw [List.cons_append, EveryAll, EveryAll, ih, and_assoc]

theorem everyAll_marks {P : Node → Prop} (hP : ∀ name, P (symbol name)) (ticks : Nat) :
    EveryAll P (marks ticks) := by
  cases ticks with
  | zero => trivial
  | succ n => exact ⟨hP _, trivial⟩

mutual

theorem quoteFree_respelled (ticks : Nat) : (x : Node) →
    EveryAll (fun y => y.quoted? = none) (x.respelled ticks)
  | integer n | symbol name => by
    cases ticks <;> exact ⟨rfl, trivial⟩
  | string s | boolean b =>
    everyAll_append.mpr ⟨everyAll_marks (fun _ => rfl) ticks, rfl, trivial⟩
  | list items => by
    by_cases hq : (list items).quoted? = none
    · rw [respelled_list hq]
      exact everyAll_append.mpr ⟨everyAll_marks (fun _ => rfl) ticks,
        ⟨quoted?_respelledAll hq, quoteFree_respelledAll items⟩, trivial⟩
    · obtain ⟨inner, rfl⟩ := eq_quotation hq
      rw [respelled]
      exact quoteFree_respelled (ticks + 1) inner

theorem quoteFree_respelledAll : (xs : List Node) →
    EveryAll (fun y => y.quoted? = none) (respelledAll xs)
  | [] => trivial
  | x :: xs => everyAll_append.mpr ⟨quoteFree_respelled 0 x, quoteFree_respelledAll xs⟩

end

/-! ### What is read is legible and nests no deeper -/

theorem legible_of_kindsAll {xs : List Node} (h : SymbolsLegible (kindsAll xs)) :
    EveryAll (fun y => ∀ name, y = symbol name → IsSymbol name) xs := by
  obtain ⟨es, hkinds, rfl, -⟩ := exists_exprs xs
  rw [← hkinds] at h
  exact Grammar.Expr.legible_nodes es h

/-- Symbols that an expression is read as were read from its text. -/
theorem legible_respelled (ticks : Nat) {x : Node} (h : x.Legible) :
    EveryAll (fun y => ∀ name, y = symbol name → IsSymbol name) (x.respelled ticks) := by
  apply legible_of_kindsAll
  have hsymbols := symbolsLegible_ofChars (List.replicate ticks '\x27' ++ x.layout)
  rw [(spells_layout ticks h).ofChars] at hsymbols
  rwa [kindsAll_respelled]

theorem legible_respelledAll {xs : List Node}
    (h : EveryAll (fun y => ∀ name, y = symbol name → IsSymbol name) xs) :
    EveryAll (fun y => ∀ name, y = symbol name → IsSymbol name) (respelledAll xs) := by
  induction xs with
  | nil => trivial
  | cons x xs ih => exact everyAll_append.mpr ⟨legible_respelled 0 h.1, ih h.2⟩

theorem depthAll_append (xs ys : List Node) :
    depthAll (xs ++ ys) = max (depthAll xs) (depthAll ys) := by
  induction xs with
  | nil => exact (Nat.zero_max _).symm
  | cons x xs ih => rw [List.cons_append, depthAll, ih, depthAll, Nat.max_assoc]

theorem depthAll_marks (ticks : Nat) (x : Node) : depthAll (marks ticks ++ [x]) = x.depth := by
  cases ticks with
  | zero => exact Nat.max_zero _
  | succ n => exact (Nat.zero_max _).trans (Nat.max_zero _)

mutual

theorem depth_respelled (ticks : Nat) : (x : Node) → depthAll (x.respelled ticks) ≤ x.depth
  | integer n | symbol name => by
    cases ticks <;> exact Nat.le_refl 0
  | string s => Nat.le_of_eq (depthAll_marks ticks (string s))
  | boolean b => Nat.le_of_eq (depthAll_marks ticks (boolean b))
  | list items => by
    by_cases hq : (list items).quoted? = none
    · have hitems := depth_respelledAll items
      rw [respelled_list hq, depthAll_marks, depth, depth]
      omega
    · obtain ⟨inner, rfl⟩ := eq_quotation hq
      have hinner := depth_respelled (ticks + 1) inner
      rw [respelled, depth, depthAll, depthAll]
      omega

theorem depth_respelledAll : (xs : List Node) → depthAll (respelledAll xs) ≤ depthAll xs
  | [] => Nat.le_refl 0
  | x :: xs => by
    have hx := depth_respelled 0 x
    have hxs := depth_respelledAll xs
    rw [respelledAll, depthAll_append, depthAll]
    omega

end

/-! ### How the text changes -/

mutual

/-- How many blanks come into an expression behind apostrophes when it is read and printed again. -/
def gaps (ticks : Nat) : Node → Nat
  | integer _ | symbol _ => 0
  | string _ | boolean _ => (marks ticks).length
  | list [symbol "quote", inner] => inner.gaps (ticks + 1)
  | list items => (marks ticks).length + gapsAll items

def gapsAll : List Node → Nat
  | [] => 0
  | x :: xs => x.gaps 0 + gapsAll xs

end

theorem gaps_list {items : List Node} (h : (list items).quoted? = none) (ticks : Nat) :
    (list items).gaps ticks = (marks ticks).length + gapsAll items := by
  rw [gaps]
  exact fun inner => ne_quotation h inner

theorem layoutAll_append (xs ys : List Node) :
    layoutAll (xs ++ ys) = layoutAll xs ++ layoutAll ys := by
  induction xs with
  | nil => rfl
  | cons x xs ih => rw [List.cons_append, layoutAll, ih, layoutAll, List.cons_append]

theorem spaced_singleton (text : List Char) : spaced [text] = ' ' :: text := List.append_nil _

theorem widened_marks (ticks : Nat) {n : Nat} {text : List Char} {x : Node}
    (h : Widened n text x.layout) :
    Widened ((marks ticks).length + n) (' ' :: (List.replicate ticks '\x27' ++ text))
      (spaced (layoutAll (marks ticks ++ [x]))) := by
  cases ticks with
  | zero =>
    have hlength : (marks 0).length + n = n := Nat.zero_add n
    rw [hlength]
    change Widened n (' ' :: text) (spaced [x.layout])
    rw [spaced_singleton]
    exact .keep ' ' h
  | succ t =>
    have hlength : (marks (t + 1)).length + n = n + 1 := Nat.add_comm 1 n
    have htext : spaced (layoutAll (marks (t + 1) ++ [x])) =
        ' ' :: (List.replicate (t + 1) '\x27' ++ ' ' :: x.layout) := by
      change spaced [(symbol (String.ofList (List.replicate (t + 1) '\x27'))).layout, x.layout] = _
      rw [layout, String.toList_ofList]
      exact congrArg (fun u => ' ' :: (List.replicate (t + 1) '\x27' ++ u))
        (spaced_singleton x.layout)
    rw [hlength, htext]
    exact .keep ' ' (.prefixed _ (.blank h))

/-- The items of a list on one line, with a blank in front. -/
theorem spaced_layoutAll {items : List Node} (h : items ≠ []) :
    spaced (layoutAll items) = ' ' :: List.intercalate [' '] (layoutAll items) := by
  cases items with
  | nil => exact absurd rfl h
  | cons x xs =>
    rw [layoutAll, intercalate_cons]
    rfl

theorem widened_list {n : Nat} {items : List Node} (h : (list items).quoted? = none)
    (hitems : Widened n (spaced (layoutAll items)) (spaced (layoutAll (respelledAll items)))) :
    Widened n (list items).layout (list (respelledAll items)).layout := by
  rw [layout_list h, layout_list (quoted?_respelledAll h)]
  refine .keep '(' (.suffixed ?_ [')'])
  cases items with
  | nil => exact hitems
  | cons x xs =>
    have hne : respelledAll (x :: xs) ≠ [] :=
      List.append_ne_nil_of_left_ne_nil (respelled_ne_nil 0 x) _
    rw [spaced_layoutAll (List.cons_ne_nil x xs), spaced_layoutAll hne] at hitems
    exact hitems.tail

theorem widened_glued (ticks : Nat) {x : Node} {text : List Char} (h : x.layout = text) :
    Widened 0 (' ' :: (List.replicate ticks '\x27' ++ text))
      (spaced (layoutAll [glued ticks x text])) := by
  cases ticks with
  | zero =>
    change Widened 0 (' ' :: text) (spaced [x.layout])
    rw [h, spaced_singleton]
    exact .refl _
  | succ n =>
    change Widened 0 _ (spaced [(symbol (String.ofList _)).layout])
    rw [layout, String.toList_ofList, spaced_singleton]
    exact .refl _

mutual

/-- What an expression behind apostrophes is read as is printed with blanks put in. -/
theorem widened_respelled (ticks : Nat) : (x : Node) →
    Widened (x.gaps ticks) (' ' :: (List.replicate ticks '\x27' ++ x.layout))
      (spaced (layoutAll (x.respelled ticks)))
  | integer n => widened_glued ticks rfl
  | symbol name => widened_glued ticks rfl
  | string s => widened_marks ticks (.refl (string s).layout)
  | boolean b => widened_marks ticks (.refl (boolean b).layout)
  | list items => by
    by_cases hq : (list items).quoted? = none
    · rw [respelled_list hq, gaps_list hq]
      exact widened_marks ticks (widened_list hq (widened_respelledAll items))
    · obtain ⟨inner, rfl⟩ := eq_quotation hq
      have hinner := widened_respelled (ticks + 1) inner
      rw [List.replicate_succ', List.append_assoc] at hinner
      rw [respelled, gaps, layout]
      exact hinner

theorem widened_respelledAll : (xs : List Node) →
    Widened (gapsAll xs) (spaced (layoutAll xs)) (spaced (layoutAll (respelledAll xs)))
  | [] => .nil
  | x :: xs => by
    rw [respelledAll, layoutAll_append, spaced_append]
    exact (widened_respelled 0 x).append (widened_respelledAll xs)

end

/-! ### Settled expressions -/

/-- Whether an apostrophe in front makes one symbol with an expression. -/
def isGlued : Node → Bool
  | integer _ | symbol _ => true
  | list [symbol "quote", inner] => inner.isGlued
  | string _ | boolean _ | list _ => false

/-- Whether each quotation is one of a symbol or an integer, or of such a quotation. -/
def Settled (x : Node) : Prop := x.Every fun y => ∀ inner, y.quoted? = some inner → inner.isGlued

theorem isGlued_list {items : List Node} (h : (list items).quoted? = none) :
    (list items).isGlued = false := by
  rw [isGlued]
  exact fun inner => ne_quotation h inner

theorem length_marks_succ (n : Nat) : (marks (n + 1)).length = 1 := rfl

theorem glued_iff (ticks : Nat) : (x : Node) → (x.gaps (ticks + 1) = 0 ↔ x.isGlued = true)
  | integer _ | symbol _ => iff_of_true rfl rfl
  | string _ | boolean _ => iff_of_false nofun nofun
  | list items => by
    by_cases hq : (list items).quoted? = none
    · rw [gaps_list hq, isGlued_list hq, length_marks_succ]
      exact iff_of_false (by omega) nofun
    · obtain ⟨inner, rfl⟩ := eq_quotation hq
      rw [gaps, isGlued]
      exact glued_iff (ticks + 1) inner

theorem settled_of_isGlued : (x : Node) → x.isGlued = true → x.Settled
  | integer _, _ | symbol _, _ => nofun
  | list items, h => by
    by_cases hq : (list items).quoted? = none
    · rw [isGlued_list hq] at h
      cases h
    · obtain ⟨inner, rfl⟩ := eq_quotation hq
      rw [isGlued] at h
      refine ⟨?_, nofun, settled_of_isGlued inner h, trivial⟩
      rintro _ ⟨⟩
      exact h

mutual

/-- The text of an expression stays as it is exactly if the expression is settled. -/
theorem gaps_eq_zero_iff : (x : Node) → (x.gaps 0 = 0 ↔ x.Settled)
  | integer _ | symbol _ | string _ | boolean _ => iff_of_true rfl nofun
  | list items => by
    by_cases hq : (list items).quoted? = none
    · have hnone : ∀ inner, (list items).quoted? = some inner → inner.isGlued := by
        intro inner hinner
        rw [hq] at hinner
        cases hinner
      have hzero : (marks 0).length + gapsAll items = gapsAll items := Nat.zero_add _
      rw [gaps_list hq, hzero, gapsAll_eq_zero_iff items]
      exact (and_iff_right hnone).symm
    · obtain ⟨inner, rfl⟩ := eq_quotation hq
      rw [gaps, glued_iff]
      constructor
      · intro h
        exact settled_of_isGlued (list [symbol "quote", inner]) h
      · rintro ⟨h, -⟩
        exact h inner rfl

theorem gapsAll_eq_zero_iff : (xs : List Node) → (gapsAll xs = 0 ↔
    EveryAll (fun y => ∀ inner, y.quoted? = some inner → inner.isGlued) xs)
  | [] => iff_of_true rfl trivial
  | x :: xs => by
    rw [gapsAll, Nat.add_eq_zero_iff, gaps_eq_zero_iff x, gapsAll_eq_zero_iff xs]
    exact Iff.rfl

end

/-- Without a blank put in, an expression is read as one. -/
theorem exists_respelled (ticks : Nat) : (x : Node) → x.gaps ticks = 0 →
    ∃ y, x.respelled ticks = [y]
  | integer _, _ | symbol _, _ => ⟨_, rfl⟩
  | string _, h | boolean _, h => by
    rw [gaps, List.length_eq_zero_iff] at h
    rw [respelled, h]
    exact ⟨_, rfl⟩
  | list items, h => by
    by_cases hq : (list items).quoted? = none
    · rw [gaps_list hq, Nat.add_eq_zero_iff, List.length_eq_zero_iff] at h
      rw [respelled_list hq, h.1]
      exact ⟨_, rfl⟩
    · obtain ⟨inner, rfl⟩ := eq_quotation hq
      rw [gaps] at h
      rw [respelled]
      exact exists_respelled (ticks + 1) inner h

theorem length_respelledAll {xs : List Node} (h : gapsAll xs = 0) :
    (respelledAll xs).length = xs.length := by
  induction xs with
  | nil => rfl
  | cons x xs ih =>
    rw [gapsAll, Nat.add_eq_zero_iff] at h
    obtain ⟨y, hy⟩ := exists_respelled 0 x h.1
    rw [respelledAll, hy, List.singleton_append, List.length_cons, ih h.2, List.length_cons]

/-- Behind an apostrophe a symbol is read first. -/
theorem exists_symbol_respelled (ticks : Nat) : (x : Node) →
    ∃ name rest, x.respelled (ticks + 1) = symbol name :: rest
  | integer _ | symbol _ | string _ | boolean _ => ⟨_, _, rfl⟩
  | list items => by
    by_cases hq : (list items).quoted? = none
    · rw [respelled_list hq]
      exact ⟨_, _, rfl⟩
    · obtain ⟨inner, rfl⟩ := eq_quotation hq
      rw [respelled]
      exact exists_symbol_respelled (ticks + 1) inner

/-- An expression is read as a symbol, or as more than one beginning with a symbol, if it is a
symbol or a quotation, and else as one expression of its own sort. -/
theorem respelled_of_isWord {x : Node} (h : x.isWord = true) :
    ∃ name rest, x.respelled 0 = symbol name :: rest := by
  cases x with
  | symbol name => exact ⟨_, _, rfl⟩
  | list items =>
    obtain ⟨inner, rfl⟩ := eq_quotation (Option.isSome_iff_ne_none.mp h)
    rw [respelled]
    exact exists_symbol_respelled 0 inner
  | integer _ | string _ | boolean _ => cases h

theorem respelled_of_not_isWord {x : Node} (h : x.isWord = false) :
    ∃ y, x.respelled 0 = [y] ∧ ∀ name, y ≠ symbol name := by
  cases x with
  | integer n => exact ⟨integer n, rfl, nofun⟩
  | string s => exact ⟨string s, rfl, nofun⟩
  | boolean b => exact ⟨boolean b, rfl, nofun⟩
  | symbol name => cases h
  | list items =>
    have hq : (list items).quoted? = none := Option.not_isSome_iff_eq_none.mp (by simp_all [isWord])
    refine ⟨list (respelledAll items), respelled_list hq 0, ?_⟩
    intro name heq
    cases heq

/-! ### Counting tokens -/

mutual

/-- An expression has no more tokens printed than it has by itself, but for apostrophes in front,
and as many only if there is no quotation in it. -/
theorem length_printed (ticks : Nat) : (x : Node) →
    (x.printed ticks).length ≤ (apostrophes ticks).length + x.kinds.length ∧
      ((x.printed ticks).length = (apostrophes ticks).length + x.kinds.length → x.QuoteFree)
  | integer _ | symbol _ => ⟨Nat.le_add_left 1 _, fun _ => rfl⟩
  | string _ | boolean _ => by
    rw [printed, List.length_append]
    exact ⟨Nat.le_refl _, fun _ => rfl⟩
  | list items => by
    by_cases hq : (list items).quoted? = none
    · obtain ⟨hle, hfree⟩ := length_printedAll items
      rw [printed_list hq, kinds]
      simp only [List.length_append, List.length_cons, List.length_nil]
      exact ⟨by omega, fun heq => ⟨hq, hfree (by omega)⟩⟩
    · obtain ⟨inner, rfl⟩ := eq_quotation hq
      have hinner := (length_printed (ticks + 1) inner).1
      have hone : (apostrophes (ticks + 1)).length = 1 := rfl
      simp only [printed, kinds, kindsAll, List.length_append, List.length_cons,
        List.length_nil]
      exact ⟨by omega, by omega⟩

theorem length_printedAll : (xs : List Node) →
    (printedAll xs).length ≤ (kindsAll xs).length ∧
      ((printedAll xs).length = (kindsAll xs).length →
        EveryAll (fun y => y.quoted? = none) xs)
  | [] => ⟨Nat.le_refl 0, fun _ => trivial⟩
  | x :: xs => by
    obtain ⟨hle, hfree⟩ := length_printed 0 x
    obtain ⟨hle', hfree'⟩ := length_printedAll xs
    have hnone : (apostrophes 0).length = 0 := rfl
    rw [printedAll, kindsAll, List.length_append, List.length_append]
    exact ⟨by omega, fun heq => ⟨hfree (by omega), hfree' (by omega)⟩⟩

end

end Node

end SandboxProfile.Wire
