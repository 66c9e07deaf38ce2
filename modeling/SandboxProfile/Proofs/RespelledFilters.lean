import Mathlib.Data.List.Forall2
import SandboxProfile.Proofs.Quotations

/-!
# Filters read again

A filter that has the tokens of another one printed, and no quotation, is what that one is read as.
Its text is the other's with blanks put in, on one line and on several, and a filter of which the
text stays as it is was settled (`Filter.readAs_of_printed`). Each settled filter is read as such a
filter (`Filter.exists_respelling`).
-/

namespace SandboxProfile

/-- A closing parenthesis without a partner is found again behind tokens in which parentheses match.
-/
theorem Balanced.cut {ks ls ks' ls' : List TokenKind} (hk : Balanced ks) (hl : Balanced ls)
    (h : ks ++ .rightParen :: ks' = ls ++ .rightParen :: ls') : ks = ls ∧ ks' = ls' := by
  induction hk generalizing ls ks' ls' with
  | nil =>
    cases hl with
    | nil => exact ⟨rfl, (List.cons.inj h).2⟩
    | token hopen hclose _ => exact absurd (List.cons.inj h).1.symm hclose
    | parens _ _ => cases (List.cons.inj h).1
  | token hopen hclose _ ih =>
    cases hl with
    | nil => exact absurd (List.cons.inj h).1 hclose
    | token _ _ hmore =>
      obtain ⟨rfl, hrest⟩ := List.cons.inj h
      obtain ⟨rfl, hbehind⟩ := ih hmore hrest
      exact ⟨rfl, hbehind⟩
    | parens _ _ => exact absurd (List.cons.inj h).1 hopen
  | parens _ _ ihinner ih =>
    cases hl with
    | nil => cases (List.cons.inj h).1
    | token hopen _ _ => exact absurd (List.cons.inj h).1.symm hopen
    | parens hinner hmore =>
      simp only [List.cons_append, List.append_assoc, List.cons.injEq, true_and] at h
      obtain ⟨rfl, hrest⟩ := ihinner hinner h
      obtain ⟨rfl, hbehind⟩ := ih hmore hrest
      exact ⟨rfl, hbehind⟩

namespace Wire

namespace Filter

/-! ### Shapes -/

/-- What a legible filter can be of which every expression is plain. -/
inductive Shape : Filter → Prop
  | simple {type : String} {value : Node} : hasParts type = false → type ≠ expressionText →
      IsSymbol type → value.Legible → Shape ⟨type, some value, none⟩
  | expression {items : List Node} : (Node.list items).isPlainList = true →
      (Node.list items).Legible → Shape ⟨expressionText, some (.list items), none⟩
  | parts {type : String} {parts : List Filter} : hasParts type = true →
      (type = negationText → parts.length = 1) → Shape ⟨type, none, some parts⟩

theorem shape_of_legible {f : Filter} (h : f.Legible) (hp : f.Plain) : f.Shape := by
  obtain ⟨type, value, filters⟩ := f
  cases filters with
  | none =>
    obtain ⟨hparts, hsymbol, v, rfl, hv⟩ := value_of_legible h
    by_cases htype : type = expressionText
    · subst htype
      obtain ⟨value, hvalue, hplain⟩ := hp (decide_eq_true rfl)
      obtain rfl : v = value := Option.some.inj hvalue
      cases v with
      | list items => exact .expression hplain hv
      | integer _ | string _ | boolean _ | symbol _ => cases hplain
    · exact .simple hparts htype hsymbol hv
  | some parts =>
    obtain ⟨rfl, hone⟩ := parts_of_legible h
    exact .parts (hasParts_of_legible h) fun htype => hone (decide_eq_true htype)

/-- A list that does not begin with a symbol is no quotation. -/
theorem quoted?_of_isPlainList {items : List Node} (h : (Node.list items).isPlainList = true) :
    (Node.list items).quoted? = none := by
  refine Decidable.byContradiction fun hq => ?_
  obtain ⟨inner, rfl⟩ := Node.eq_quotation hq
  cases h

theorem printed_simple {type : String} {value : Node} (hparts : hasParts type = false)
    (htype : type ≠ expressionText) : printed ⟨type, some value, none⟩ =
      .leftParen :: ((.symbol type :: value.printed 0) ++ [.rightParen]) := by
  rw [printed, tokens, if_neg htype, hparts, if_neg Bool.false_ne_true]
  rfl

theorem printed_expression {items : List Node} (h : (Node.list items).isPlainList = true) :
    printed ⟨expressionText, some (.list items), none⟩ =
      .leftParen :: (Node.printedAll items ++ [.rightParen]) := by
  rw [printed, tokens, if_pos rfl]
  exact Node.printed_list (quoted?_of_isPlainList h) 0

theorem printed_parts {type : String} {parts : List Filter} (h : hasParts type = true) :
    printed ⟨type, none, some parts⟩ =
      .leftParen :: ((.symbol type :: printedAll parts) ++ [.rightParen]) := by
  rw [printed, tokens, if_neg (expressionText_ne h), if_pos h]
  rfl

/-- A filter is printed as one list. -/
theorem exists_inner {f : Filter} (h : f.Shape) :
    ∃ ks, Balanced ks ∧ f.printed = .leftParen :: (ks ++ [.rightParen]) := by
  cases h with
  | simple hparts htype _ _ =>
    exact ⟨_, .symbol _ (Node.balanced_printed 0 _), printed_simple hparts htype⟩
  | expression hplain _ => exact ⟨_, Node.balanced_printedAll _, printed_expression hplain⟩
  | parts hparts _ => exact ⟨_, .symbol _ (balanced_printedAll _), printed_parts hparts⟩

/-- Filters are found again in what is printed. -/
theorem printed_cut {f g : Filter} (hf : f.Shape) (hg : g.Shape) {ks ls : List TokenKind}
    (h : f.printed ++ ks = g.printed ++ ls) : f.printed = g.printed ∧ ks = ls := by
  obtain ⟨inner, hinner, hprinted⟩ := exists_inner hf
  obtain ⟨inner', hinner', hprinted'⟩ := exists_inner hg
  rw [hprinted, hprinted'] at h
  simp only [List.cons_append, List.append_assoc, List.nil_append, List.cons.injEq, true_and] at h
  obtain ⟨hsame, hrest⟩ := hinner.cut hinner' h
  exact ⟨by rw [hprinted, hprinted', hsame], hrest⟩

theorem inner_inj {ks ls : List TokenKind}
    (h : TokenKind.leftParen :: (ks ++ [.rightParen]) = .leftParen :: (ls ++ [.rightParen])) :
    ks = ls :=
  List.append_cancel_right (List.cons.inj h).2

/-! ### Settled filters -/

end Filter

/-- Whether a list that begins with a quotation has just one more item, as a filter with a type has.
-/
def Node.isPaired : Node → Bool
  | list (x :: xs) => x.quoted?.isNone || xs.length = 1
  | _ => true

namespace Filter

/-- Whether the value of a filter is settled. An expression that begins with a quotation is read as
a filter with the quotation for its type. -/
def Settled (f : Filter) : Prop :=
  ∀ value, f.value = some value → value.Settled ∧ (f.isExpression → value.isPaired)

mutual

/-- How many blanks come into a filter when it is read and printed again. -/
def gaps : Filter → Nat
  | ⟨_, value, none⟩ => value.elim 0 (Node.gaps 0)
  | ⟨_, _, some parts⟩ => gapsAll parts

def gapsAll : List Filter → Nat
  | [] => 0
  | f :: fs => f.gaps + gapsAll fs

end

mutual

theorem gaps_of_settled : {f : Filter} → f.Every Settled → f.gaps = 0
  | ⟨_, none, none⟩, _ => rfl
  | ⟨_, some value, none⟩, h => (Node.gaps_eq_zero_iff value).mpr (h value rfl).1
  | ⟨_, _, some _⟩, h => gapsAll_of_settled h.2

theorem gapsAll_of_settled : {fs : List Filter} → EveryAll Settled fs → gapsAll fs = 0
  | [], _ => rfl
  | _ :: _, h => Nat.add_eq_zero_iff.mpr ⟨gaps_of_settled h.1, gapsAll_of_settled h.2⟩

end

/-! ### Reading again -/

/-- Whether a filter is what another one is read as when it was printed. -/
structure ReadAs (f g : Filter) : Prop where
  isCompound : g.isCompound = f.isCompound
  inline : Widened f.gaps f.inline g.inline
  layout : ∀ indent level, Widened f.gaps (f.layout indent level) (g.layout indent level)
  settled : f.gaps = 0 → f.Every Settled

theorem readAs_value {type type' : String} {value value' : Node}
    (htype : hasParts type = false) (htype' : hasParts type' = false)
    (h : Widened (value.gaps 0) (oneLine type (some value) []) (oneLine type' (some value') []))
    (hsettled : value.gaps 0 = 0 → Settled ⟨type, some value, none⟩) :
    ReadAs ⟨type, some value, none⟩ ⟨type', some value', none⟩ := by
  rw [hasParts, Bool.or_eq_false_iff] at htype htype'
  exact ⟨htype'.1.trans htype.1.symm, h, fun _ _ => h, hsettled⟩

theorem oneLine_simple {type : String} {value : Node} (hparts : hasParts type = false)
    (htype : type ≠ expressionText) :
    oneLine type (some value) [] = parens type.toList [value.layout] := by
  rw [oneLine, if_neg htype, ← hasParts, hparts, if_neg Bool.false_ne_true]
  rfl

theorem oneLine_expression (value : Node) : oneLine expressionText (some value) [] = value.layout :=
  if_pos rfl

/-- A value without quotations that has the tokens another one is printed as. -/
theorem respelled_of_printed {x y : Node} (hy : y.QuoteFree) (h : y.printed 0 = x.printed 0) :
    x.respelled 0 = [y] := by
  apply Node.kindsAll_inj
  rw [Node.kindsAll_respelled, ← h, Node.printed_eq_kinds y hy]
  exact (List.append_nil _).symm

theorem widened_value {x y : Node} (h : x.respelled 0 = [y]) :
    Widened (x.gaps 0) x.layout y.layout := by
  have hspaced := Node.widened_respelled 0 x
  rw [h, Node.layoutAll, Node.layoutAll, Node.spaced_singleton] at hspaced
  exact hspaced.tail

theorem readAs_simple {type : String} {value value' : Node} (hparts : hasParts type = false)
    (htype : type ≠ expressionText) (h : value.respelled 0 = [value']) :
    ReadAs ⟨type, some value, none⟩ ⟨type, some value', none⟩ := by
  refine readAs_value hparts hparts ?_ fun hgaps => ?_
  · rw [oneLine_simple hparts htype, oneLine_simple hparts htype]
    refine .keep '(' (.suffixed (.prefixed _ ?_) [')'])
    rw [Node.spaced_singleton, Node.spaced_singleton]
    exact .keep ' ' (widened_value h)
  · rintro _ ⟨⟩
    exact ⟨(Node.gaps_eq_zero_iff value).mp hgaps, fun hexpr =>
      absurd (of_decide_eq_true hexpr) htype⟩

/-- An expression that is read as an expression. -/
theorem readAs_expression {items : List Node} (h : (Node.list items).isPlainList = true)
    (hread : (Node.list (Node.respelledAll items)).isPlainList = true) :
    ReadAs ⟨expressionText, some (.list items), none⟩
      ⟨expressionText, some (.list (Node.respelledAll items)), none⟩ := by
  have hq := quoted?_of_isPlainList h
  have hgaps : (Node.list items).gaps 0 = Node.gapsAll items :=
    (Node.gaps_list hq 0).trans (Nat.zero_add _)
  refine readAs_value rfl rfl ?_ fun hzero => ?_
  · rw [oneLine_expression, oneLine_expression, hgaps]
    exact Node.widened_list hq (Node.widened_respelledAll items)
  · rintro _ ⟨⟩
    refine ⟨(Node.gaps_eq_zero_iff _).mp hzero, fun _ => ?_⟩
    cases items with
    | nil => rfl
    | cons x xs =>
      cases hx : x.quoted? with
      | none => rw [Node.isPaired, hx]; rfl
      | some inner =>
        have hword : x.isWord = true := by
          cases x with
          | list items => exact Option.isSome_iff_exists.mpr ⟨inner, hx⟩
          | integer _ | string _ | boolean _ | symbol _ => cases hx
        obtain ⟨name, rest, hfirst⟩ := Node.respelled_of_isWord hword
        rw [Node.respelledAll, hfirst] at hread
        cases hread

/-- An expression that is read as a filter with a type. -/
theorem readAs_typed {items : List Node} {type : String} {value : Node}
    (h : (Node.list items).isPlainList = true) (hparts : hasParts type = false)
    (htype : type ≠ expressionText) (hread : Node.respelledAll items = [.symbol type, value]) :
    ReadAs ⟨expressionText, some (.list items), none⟩ ⟨type, some value, none⟩ := by
  have hq := quoted?_of_isPlainList h
  have hgaps : (Node.list items).gaps 0 = Node.gapsAll items :=
    (Node.gaps_list hq 0).trans (Nat.zero_add _)
  have htext : (Node.list [.symbol type, value]).layout = parens type.toList [value.layout] := by
    have hfree := Node.quoted?_respelledAll hq
    rw [hread] at hfree
    rw [Node.layout_list hfree, Node.layoutAll, Node.layoutAll, Node.layoutAll, intercalate_cons,
      Node.layout]
    rfl
  refine readAs_value rfl hparts ?_ fun hzero => ?_
  · rw [oneLine_expression, oneLine_simple hparts htype, hgaps, ← htext, ← hread]
    exact Node.widened_list hq (Node.widened_respelledAll items)
  · rintro _ ⟨⟩
    refine ⟨(Node.gaps_eq_zero_iff _).mp hzero, fun _ => ?_⟩
    rw [hgaps] at hzero
    have hlength := Node.length_respelledAll hzero
    rw [hread] at hlength
    cases items with
    | nil => rfl
    | cons x xs =>
      have hone : xs.length = 1 := by simpa using hlength.symm
      rw [Node.isPaired, hone]
      exact Bool.or_true _

section

variable {fs gs : List Filter}

theorem widened_inlineAll (h : List.Forall₂ ReadAs fs gs) :
    Widened (gapsAll fs) (spaced (inlineAll fs)) (spaced (inlineAll gs)) := by
  induction h with
  | nil => exact .nil
  | cons hf _ ih => exact (Widened.keep ' ' hf.inline).append ih

/-- Filters on lines of their own. -/
theorem widened_lines (indent : Indent) (level : Nat) (h : List.Forall₂ ReadAs fs gs) :
    Widened (gapsAll fs) ((layoutAll indent level fs).flatMap (indent.line level))
      ((layoutAll indent level gs).flatMap (indent.line level)) := by
  induction h with
  | nil => exact .nil
  | cons hf _ ih =>
    have hline := (hf.layout indent level).prefixed ('\n' :: indent.atLevel level)
    exact hline.append ih

theorem settled_of_readAs (h : List.Forall₂ ReadAs fs gs) (hgaps : gapsAll fs = 0) :
    EveryAll Settled fs := by
  induction h with
  | nil => trivial
  | cons hf _ ih =>
    rw [gapsAll, Nat.add_eq_zero_iff] at hgaps
    exact ⟨hf.settled hgaps.1, ih hgaps.2⟩

end

theorem oneLine_parts {type : String} (h : hasParts type = true) (texts : List (List Char)) :
    oneLine type none texts = parens type.toList texts := by
  rw [oneLine, if_neg (expressionText_ne h), ← hasParts, if_pos h]

theorem readAs_parts {type : String} {fs gs : List Filter} (hparts : hasParts type = true)
    (h : List.Forall₂ ReadAs fs gs) : ReadAs ⟨type, none, some fs⟩ ⟨type, none, some gs⟩ := by
  have hline : Widened (gapsAll fs) (oneLine type none (inlineAll fs))
      (oneLine type none (inlineAll gs)) := by
    rw [oneLine_parts hparts, oneLine_parts hparts]
    exact .keep '(' (.suffixed (.prefixed _ (widened_inlineAll h)) [')'])
  refine ⟨rfl, hline, fun indent level => ?_, fun hgaps => ⟨nofun, settled_of_readAs h hgaps⟩⟩
  rw [gaps, layout, layout]
  split
  · exact .keep '(' (.suffixed (.prefixed _ (widened_lines indent (level + 1) h)) [')'])
  · exact hline

/-! ### Filters of the same tokens -/

theorem kindsAll_symbol {xs : List Node} {name : String} {ks : List TokenKind}
    (h : Node.kindsAll xs = .symbol name :: ks) : ∃ rest, xs = .symbol name :: rest := by
  cases xs with
  | nil => cases h
  | cons x xs =>
    cases x with
    | symbol word =>
      cases (List.cons.inj h).1
      exact ⟨xs, rfl⟩
    | integer _ | string _ | boolean _ | list _ => cases (List.cons.inj h).1

/-- A symbol that an expression is printed with in front was made by an apostrophe. -/
theorem isTicked_of_printed {items : List Node} {name : String} {ks : List TokenKind}
    (h : (Node.list items).isPlainList = true)
    (hprinted : Node.printedAll items = .symbol name :: ks) : Node.IsTicked name := by
  rw [← Node.kindsAll_respelledAll] at hprinted
  obtain ⟨rest, hrest⟩ := kindsAll_symbol hprinted
  cases items with
  | nil => cases hrest
  | cons x xs =>
    obtain ⟨y, ys, hx⟩ := List.exists_cons_of_ne_nil (Node.respelled_ne_nil 0 x)
    rw [Node.respelledAll, hx, List.cons_append] at hrest
    obtain ⟨rfl, -⟩ := List.cons.inj hrest
    rcases Node.eq_or_isTicked hx with ⟨rfl, -⟩ | hticked
    · cases h
    · exact hticked

/-- An expression without quotations is not printed with a symbol in front. -/
theorem printedAll_ne_symbol {items : List Node} {name : String} {ks : List TokenKind}
    (h : (Node.list items).isPlainList = true) (hq : (Node.list items).QuoteFree) :
    Node.printedAll items ≠ .symbol name :: ks := by
  intro hprinted
  rw [Node.printedAll_eq_kindsAll items hq.2] at hprinted
  obtain ⟨rest, rfl⟩ := kindsAll_symbol hprinted
  cases h

theorem not_isTicked_of_hasParts {type : String} (h : hasParts type = true) :
    ¬ Node.IsTicked type := by
  unfold hasParts CompoundKind.ofText? at h
  unfold Node.IsTicked
  split at h
  · decide
  · decide
  · obtain rfl : type = negationText := by simpa using h
    decide

theorem readAs_of_value {type : String} {value : Option Node} {g : Filter}
    (hf : Shape ⟨type, value, none⟩) (hg : g.Shape) (hq : g.QuoteFree)
    (h : g.printed = printed ⟨type, value, none⟩) : ReadAs ⟨type, value, none⟩ g := by
  cases hf with
  | simple hparts htype hsymbol hlegible =>
    rw [printed_simple hparts htype] at h
    cases hg with
    | simple hparts' htype' _ _ =>
      rw [printed_simple hparts' htype'] at h
      obtain ⟨hsame, hvalue⟩ := List.cons.inj (inner_inj h)
      cases hsame
      exact readAs_simple hparts htype (respelled_of_printed (hq _ rfl) hvalue)
    | expression hplain _ =>
      rw [printed_expression hplain] at h
      exact absurd (inner_inj h) (printedAll_ne_symbol hplain (hq _ rfl))
    | parts hparts' _ =>
      rw [printed_parts hparts'] at h
      cases (List.cons.inj (inner_inj h)).1
      rw [hparts] at hparts'
      cases hparts'
  | @expression items hplain _ =>
    rw [printed_expression hplain] at h
    cases hg with
    | @simple type' value' hparts' htype' _ _ =>
      rw [printed_simple hparts' htype'] at h
      refine readAs_typed hplain hparts' htype' (Node.kindsAll_inj ?_)
      rw [Node.kindsAll_respelledAll, ← inner_inj h, Node.printed_eq_kinds _ (hq _ rfl)]
      exact congrArg (_ :: ·) (List.append_nil _).symm
    | @expression items' hplain' _ =>
      rw [printed_expression hplain'] at h
      obtain rfl : Node.respelledAll items = items' := by
        apply Node.kindsAll_inj
        rw [Node.kindsAll_respelledAll, ← inner_inj h, Node.printedAll_eq_kindsAll _ (hq _ rfl).2]
      exact readAs_expression hplain hplain'
    | parts hparts' _ =>
      rw [printed_parts hparts'] at h
      exact absurd (isTicked_of_printed hplain (inner_inj h).symm)
        (not_isTicked_of_hasParts hparts')

theorem parts_of_printed {type : String} {value : Option Node} {parts : List Filter} {g : Filter}
    (hf : Shape ⟨type, value, some parts⟩) (hg : g.Shape) (hq : g.QuoteFree)
    (h : g.printed = printed ⟨type, value, some parts⟩) :
    hasParts type = true ∧ value = none ∧
      ∃ parts', g = ⟨type, none, some parts'⟩ ∧ printedAll parts' = printedAll parts := by
  cases hf with
  | parts hparts _ =>
    rw [printed_parts hparts] at h
    cases hg with
    | simple hparts' htype' _ _ =>
      rw [printed_simple hparts' htype'] at h
      cases (List.cons.inj (inner_inj h)).1
      rw [hparts] at hparts'
      cases hparts'
    | expression hplain _ =>
      rw [printed_expression hplain] at h
      exact absurd (inner_inj h) (printedAll_ne_symbol hplain (hq _ rfl))
    | @parts type' parts' hparts' _ =>
      rw [printed_parts hparts'] at h
      obtain ⟨hsame, hrest⟩ := List.cons.inj (inner_inj h)
      cases hsame
      exact ⟨hparts, rfl, parts', rfl, hrest⟩

theorem every_self {P : Filter → Prop} {f : Filter} (h : f.Every P) : P f := by
  obtain ⟨type, value, filters⟩ := f
  cases filters with
  | none => exact h
  | some parts => exact h.1

theorem shape_of_every {f : Filter} (h : f.Every Legible) (hp : f.Every Plain) : f.Shape :=
  shape_of_legible (every_self h) (every_self hp)

mutual

/-- A filter without quotations that has the tokens another one is printed as. -/
theorem readAs_of_printed : {f g : Filter} → f.Every Legible → f.Every Plain → g.Every Legible →
    g.Every Plain → g.Every QuoteFree → g.printed = f.printed → ReadAs f g
  | ⟨_, _, none⟩, _, hf, hp, hg, hp', hq, h =>
    readAs_of_value (shape_of_every hf hp) (shape_of_every hg hp') (every_self hq) h
  | ⟨_, _, some _⟩, _, hf, hp, hg, hp', hq, h => by
    obtain ⟨hparts, rfl, parts', rfl, hprinted⟩ := parts_of_printed
      (shape_of_every hf hp) (shape_of_every hg hp') (every_self hq) h
    exact readAs_parts hparts (forall₂_readAs hf.2 hp.2 hg.2 hp'.2 hq.2 hprinted)

theorem forall₂_readAs : {fs gs : List Filter} → EveryAll Legible fs → EveryAll Plain fs →
    EveryAll Legible gs → EveryAll Plain gs → EveryAll QuoteFree gs →
    printedAll gs = printedAll fs → List.Forall₂ ReadAs fs gs
  | [], [], _, _, _, _, _, _ => .nil
  | [], _ :: _, _, _, hg, hp', _, h => by
    obtain ⟨inner, -, hinner⟩ := exists_inner (shape_of_every hg.1 hp'.1)
    rw [printedAll, printedAll, hinner] at h
    cases h
  | _ :: _, [], hf, hp, _, _, _, h => by
    obtain ⟨inner, -, hinner⟩ := exists_inner (shape_of_every hf.1 hp.1)
    rw [printedAll, printedAll, hinner] at h
    cases h
  | _ :: _, _ :: _, hf, hp, hg, hp', hq, h => by
    rw [printedAll, printedAll] at h
    obtain ⟨hsame, hrest⟩ :=
      printed_cut (shape_of_every hg.1 hp'.1) (shape_of_every hf.1 hp.1) h
    exact .cons (readAs_of_printed hf.1 hp.1 hg.1 hp'.1 hq.1 hsame)
      (forall₂_readAs hf.2 hp.2 hg.2 hp'.2 hq.2 hrest)

end

/-! ### Settled filters are read as filters -/

/-- A filter that can be read back and has the tokens that another one is printed as. -/
structure Respelling (f g : Filter) : Prop where
  legible : g.Every Legible
  plain : g.Every Plain
  quoteFree : g.Every QuoteFree
  depth : g.depth ≤ f.depth
  printed : g.printed = f.printed

theorem respelling_simple {f : Filter} {type : String} {value : Node}
    (hparts : hasParts type = false) (htype : type ≠ expressionText) (hsymbol : IsSymbol type)
    (hlegible : value.Legible) (hq : value.QuoteFree) (hdepth : 1 + value.depth ≤ f.depth)
    (hprinted : f.printed =
      .leftParen :: (Node.kindsAll [.symbol type, value] ++ [.rightParen])) :
    Respelling f ⟨type, some value, none⟩ := by
  have hfree : QuoteFree ⟨type, some value, none⟩ := by
    rintro _ ⟨⟩
    exact hq
  refine ⟨Grammar.Filter.legible_ofValue hparts hsymbol hlegible, ?_, hfree, ?_, ?_⟩
  · exact fun hexpr => absurd (of_decide_eq_true hexpr) htype
  · rw [depth, if_neg htype]
    exact hdepth
  · rw [printed_simple hparts htype, hprinted, Node.printed_eq_kinds value hq, Node.kindsAll,
      Node.kindsAll, Node.kindsAll, List.append_nil]
    rfl

theorem respelling_expression {f : Filter} {items : List Node}
    (h : (Node.list items).isPlainList = true) (hlegible : (Node.list items).Legible)
    (hq : (Node.list items).QuoteFree) (hdepth : (Node.list items).depth ≤ f.depth)
    (hprinted : f.printed = .leftParen :: (Node.kindsAll items ++ [.rightParen])) :
    Respelling f ⟨expressionText, some (.list items), none⟩ := by
  have hfree : QuoteFree ⟨expressionText, some (.list items), none⟩ := by
    rintro _ ⟨⟩
    exact hq
  have hfilter := Grammar.Filter.legible_ofValue rfl Grammar.Filter.isSymbol_expression hlegible
  refine ⟨hfilter, fun _ => ⟨_, rfl, h⟩, hfree, hdepth, ?_⟩
  rw [printed_expression h, hprinted, Node.printedAll_eq_kindsAll items hq.2]

theorem name_of_isTicked {type : String} (h : Node.IsTicked type) :
    hasParts type = false ∧ type ≠ expressionText := by
  constructor
  · rw [← Bool.not_eq_true]
    exact fun hparts => not_isTicked_of_hasParts hparts h
  · rintro rfl
    revert h
    unfold Node.IsTicked
    decide

theorem exists_respelling_simple {type : String} {value : Node} (hparts : hasParts type = false)
    (htype : type ≠ expressionText) (hsymbol : IsSymbol type) (hlegible : value.Legible)
    (h : value.Settled) : ∃ g, Respelling ⟨type, some value, none⟩ g := by
  obtain ⟨y, hy⟩ := Node.exists_respelled 0 value ((Node.gaps_eq_zero_iff value).mpr h)
  have hlegible' := Node.legible_respelled 0 hlegible
  have hfree := Node.quoteFree_respelled 0 value
  have hdepth := Node.depth_respelled 0 value
  have hkinds := Node.kindsAll_respelled 0 value
  rw [hy] at hlegible' hfree hdepth hkinds
  refine ⟨_, respelling_simple hparts htype hsymbol hlegible'.1 hfree.1 ?_ ?_⟩
  · have hy : y.depth ≤ value.depth := Nat.le_trans (Nat.le_max_left _ _) hdepth
    rw [depth, if_neg htype]
    exact Nat.add_le_add_left hy 1
  · rw [printed_simple hparts htype, ← hkinds]
    rfl

/-- An expression that begins with a quotation and has one more item. -/
theorem exists_respelling_typed {x z : Node} (h : (Node.list [x, z]).isPlainList = true)
    (hlegible : (Node.list [x, z]).Legible) (hx : x.isWord = true)
    (hgaps : Node.gapsAll [x, z] = 0) :
    ∃ g, Respelling ⟨expressionText, some (.list [x, z]), none⟩ g := by
  have hlegible' := Node.legible_respelledAll hlegible.2
  have hfree := Node.quoteFree_respelledAll [x, z]
  have hdepth := Node.depth_respelledAll [x, z]
  have hkinds := Node.kindsAll_respelledAll [x, z]
  obtain ⟨type, rest, htype⟩ := Node.respelled_of_isWord hx
  have hlength := Node.length_respelledAll hgaps
  obtain ⟨value, hread⟩ : ∃ value, Node.respelledAll [x, z] = [.symbol type, value] := by
    rw [Node.respelledAll, htype, List.cons_append] at hlength ⊢
    obtain ⟨value, hvalue⟩ := List.length_eq_one_iff.mp (Nat.succ.inj hlength)
    exact ⟨value, congrArg _ hvalue⟩
  have hticked : Node.IsTicked type := by
    rcases Node.eq_or_isTicked htype with ⟨rfl, -⟩ | hticked
    · cases h
    · exact hticked
  obtain ⟨hparts, hname⟩ := name_of_isTicked hticked
  rw [hread] at hlegible' hfree hdepth hkinds
  refine ⟨_, respelling_simple hparts hname (hlegible'.1 type rfl) hlegible'.2.1 hfree.2.1 ?_ ?_⟩
  · have hvalue : value.depth ≤ Node.depthAll [x, z] :=
      Nat.le_trans (Nat.le_trans (Nat.le_max_left _ _) (Nat.le_max_right _ _)) hdepth
    exact Nat.add_le_add_left hvalue 1
  · rw [printed_expression h, hkinds]

/-- An expression that does not begin with a quotation. -/
theorem exists_respelling_plain {items : List Node} (h : (Node.list items).isPlainList = true)
    (hlegible : (Node.list items).Legible)
    (hread : (Node.list (Node.respelledAll items)).isPlainList = true) :
    ∃ g, Respelling ⟨expressionText, some (.list items), none⟩ g := by
  have hlegible' := Node.legible_respelledAll hlegible.2
  have hfree := Node.quoted?_respelledAll (quoted?_of_isPlainList h)
  refine ⟨_, respelling_expression hread ⟨nofun, hlegible'⟩
    ⟨hfree, Node.quoteFree_respelledAll items⟩ ?_ ?_⟩
  · exact Nat.add_le_add_left (Node.depth_respelledAll items) 1
  · rw [printed_expression h, Node.kindsAll_respelledAll]

theorem exists_respelling_value {type : String} {value : Option Node}
    (hf : Shape ⟨type, value, none⟩) (h : Settled ⟨type, value, none⟩) :
    ∃ g, Respelling ⟨type, value, none⟩ g := by
  cases hf with
  | @simple _ value hparts htype hsymbol hlegible =>
    exact exists_respelling_simple hparts htype hsymbol hlegible (h value rfl).1
  | @expression items hplain hlegible =>
    obtain ⟨hsettled, hpaired⟩ := h _ rfl
    have hgaps := (Node.gapsAll_eq_zero_iff items).mpr hsettled.2
    cases items with
    | nil => exact exists_respelling_plain hplain hlegible rfl
    | cons x xs =>
      by_cases hx : x.isWord = true
      · have hquoted : x.quoted?.isNone = false := by
          cases x with
          | symbol name => cases hplain
          | list items => simpa [Node.isWord] using hx
          | integer _ | string _ | boolean _ => cases hx
        have hone : xs.length = 1 := by
          have hpair := hpaired (decide_eq_true rfl)
          rw [Node.isPaired, hquoted, Bool.false_or] at hpair
          exact of_decide_eq_true hpair
        obtain ⟨z, rfl⟩ := List.length_eq_one_iff.mp hone
        exact exists_respelling_typed hplain hlegible hx hgaps
      · obtain ⟨y, hy, hname⟩ := Node.respelled_of_not_isWord (Bool.not_eq_true _ ▸ hx)
        refine exists_respelling_plain hplain hlegible ?_
        rw [Node.respelledAll, hy]
        cases y with
        | symbol name => exact absurd rfl (hname name)
        | integer _ | string _ | boolean _ | list _ => rfl

/-- Filters read again one by one. -/
structure Respellings (fs gs : List Filter) : Prop where
  legible : EveryAll Legible gs
  plain : EveryAll Plain gs
  quoteFree : EveryAll QuoteFree gs
  depth : depthAll gs ≤ depthAll fs
  printed : printedAll gs = printedAll fs
  length : gs.length = fs.length

theorem respelling_parts {type : String} {parts gs : List Filter}
    (hf : Shape ⟨type, none, some parts⟩) (h : Respellings parts gs) :
    Respelling ⟨type, none, some parts⟩ ⟨type, none, some gs⟩ := by
  cases hf with
  | parts hparts hone =>
    refine ⟨⟨?_, h.legible⟩, ⟨?_, h.plain⟩, ⟨nofun, h.quoteFree⟩, ?_, ?_⟩
    · have hboth : (isCompound ⟨type, none, some gs⟩ || isNegation ⟨type, none, some gs⟩) = true :=
        hparts
      rw [Legible, if_pos hboth]
      refine ⟨rfl, gs, rfl, fun hnegation => ?_⟩
      rw [h.length]
      exact hone (of_decide_eq_true hnegation)
    · exact fun hexpr => absurd (of_decide_eq_true hexpr) (expressionText_ne hparts)
    · exact Nat.add_le_add_left h.depth 1
    · rw [printed_parts hparts, printed_parts hparts, h.printed]

mutual

/-- A settled filter is read as a filter without quotations. -/
theorem exists_respelling : {f : Filter} → f.Every Legible → f.Every Plain → f.Every Settled →
    ∃ g, Respelling f g
  | ⟨_, _, none⟩, hf, hp, h => exists_respelling_value (shape_of_every hf hp) h
  | ⟨_, _, some _⟩, hf, hp, h => by
    obtain ⟨gs, hgs⟩ := exists_respellings hf.2 hp.2 h.2
    obtain ⟨rfl, -⟩ := parts_of_legible hf.1
    exact ⟨_, respelling_parts (shape_of_every hf hp) hgs⟩

theorem exists_respellings : {fs : List Filter} → EveryAll Legible fs → EveryAll Plain fs →
    EveryAll Settled fs → ∃ gs, Respellings fs gs
  | [], _, _, _ => ⟨[], trivial, trivial, trivial, Nat.le_refl 0, rfl, rfl⟩
  | _ :: _, hf, hp, h => by
    obtain ⟨g, hg⟩ := exists_respelling hf.1 hp.1 h.1
    obtain ⟨gs, hgs⟩ := exists_respellings hf.2 hp.2 h.2
    have hdepth := hg.depth
    have hdepths := hgs.depth
    refine ⟨g :: gs, ⟨hg.legible, hgs.legible⟩, ⟨hg.plain, hgs.plain⟩,
      ⟨hg.quoteFree, hgs.quoteFree⟩, ?_, ?_, congrArg Nat.succ hgs.length⟩
    · rw [depthAll, depthAll]
      omega
    · rw [printedAll, printedAll, hg.printed, hgs.printed]

end

/-! ### Counting tokens -/

mutual

/-- A legible filter has no more tokens printed than by itself, and as many only if there is no
quotation in it. -/
theorem length_printed : {f : Filter} → f.Every Legible →
    f.printed.length ≤ f.kinds.length ∧
      (f.printed.length = f.kinds.length → f.Every QuoteFree)
  | ⟨type, value, none⟩, h => by
    obtain ⟨hparts, -, v, rfl, -⟩ := value_of_legible h
    obtain ⟨hle, hfree⟩ := Node.length_printed 0 v
    have hnone : (apostrophes 0).length = 0 := rfl
    have hvalue : v.QuoteFree → QuoteFree ⟨type, some v, none⟩ := by
      rintro hv _ ⟨⟩
      exact hv
    rw [printed, tokens, kinds, hparts, if_neg Bool.false_ne_true]
    simp only [Option.elim_some]
    split
    · exact ⟨by omega, fun heq => hvalue (hfree (by omega))⟩
    · simp only [List.length_cons, List.length_append, List.length_nil]
      exact ⟨by omega, fun heq => hvalue (hfree (by omega))⟩
  | ⟨type, value, some parts⟩, h => by
    obtain ⟨rfl, -⟩ := parts_of_legible h.1
    obtain ⟨hle, hfree⟩ := length_printedAll h.2
    rw [printed_parts (hasParts_of_legible h.1), kinds]
    simp only [List.length_cons, List.length_append, List.length_nil]
    exact ⟨by omega, fun heq => ⟨nofun, hfree (by omega)⟩⟩

theorem length_printedAll : {fs : List Filter} → EveryAll Legible fs →
    (printedAll fs).length ≤ (kindsAll fs).length ∧
      ((printedAll fs).length = (kindsAll fs).length → EveryAll QuoteFree fs)
  | [], _ => ⟨Nat.le_refl 0, fun _ => trivial⟩
  | f :: fs, h => by
    obtain ⟨hle, hfree⟩ := length_printed h.1
    obtain ⟨hle', hfree'⟩ := length_printedAll h.2
    rw [printedAll, kindsAll, List.length_append, List.length_append]
    exact ⟨by omega, fun heq => ⟨hfree (by omega), hfree' (by omega)⟩⟩

end

end Filter

end Wire

end SandboxProfile
