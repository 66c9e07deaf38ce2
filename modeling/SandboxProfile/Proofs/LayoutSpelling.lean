import SandboxProfile.Proofs.PrintedTokens

/-!
# The layout spells the tokens of a profile

On one line or on several, at any indentation, a profile of which all names are symbols is printed
as its tokens: no two of them run into each other but for apostrophes and what they are in front of,
and blanks and line feeds say nothing.
-/

namespace SandboxProfile.Wire

theorem boundary_spaced (texts : List (List Char)) : Boundary (spaced texts) := by
  cases texts with
  | nil => exact trivial
  | cons t ts => exact .inl rfl

theorem spells_spaced_cons {t : List Char} {ts : List (List Char)} {ks ls : List TokenKind}
    (ht : Spells t ks) (hts : Spells (spaced ts) ls) : Spells (spaced (t :: ts)) (ks ++ ls) := by
  refine .blank (.inl rfl) ?_
  exact ht.append hts (boundary_spaced ts)

theorem spells_parens {head : List Char} {texts : List (List Char)} {ks ls : List TokenKind}
    (hhead : Spells head ks) (htexts : Spells (spaced texts) ls) :
    Spells (parens head texts) (.leftParen :: (ks ++ ls ++ [.rightParen])) := by
  refine .opening (.append (.append hhead htexts (boundary_spaced texts)) ?_ (.inr (.inr rfl)))
  exact .closing .nil

theorem intercalate_cons (t : List Char) (ts : List (List Char)) :
    List.intercalate [' '] (t :: ts) = t ++ spaced ts := by
  induction ts generalizing t with
  | nil => simp [spaced, List.intercalate]
  | cons u ts ih =>
    have hu : List.intercalate [' '] (t :: u :: ts) =
        t ++ [' '] ++ List.intercalate [' '] (u :: ts) := by
      simp [List.intercalate]
    rw [hu, ih]
    simp [spaced]

theorem spells_symbol {name : String} (h : IsSymbol name) : Spells name.toList [.symbol name] :=
  .symbol (isSpelling_of_isSymbol h)

theorem spells_keyword (name : String) (h : Symbol.isSpelling name.toList = true) :
    Spells name.toList [.symbol name] := .symbol h

/-! ### Expressions -/

namespace Node

theorem layout_list {items : List Node} (h : (list items).quoted? = none) :
    (list items).layout = '(' :: (List.intercalate [' '] (layoutAll items) ++ [')']) := by
  have hne : ∀ inner, items = [symbol "quote", inner] → False := by
    rintro inner rfl
    cases h
  rw [layout]
  exact hne

/-- Apostrophes in front of a text that begins with no character of symbols. -/
theorem spells_apostrophes (ticks : Nat) {c : Char} {cs : List Char} {ks : List TokenKind}
    (hc : Symbol.isContinue c = false) (h : Spells (c :: cs) ks) :
    Spells (List.replicate ticks '\x27' ++ c :: cs) (apostrophes ticks ++ ks) := by
  cases ticks with
  | zero => exact h
  | succ n =>
    intro rest hrest
    have hall : ∀ d ∈ List.replicate n '\x27', Symbol.isContinue d = true := fun d hd => by
      rw [List.eq_of_mem_replicate hd]
      rfl
    have hstop : ¬ Symbol.isContinue c = true := by
      rw [hc]
      exact Bool.false_ne_true
    rw [List.replicate_succ, List.cons_append, List.cons_append, List.append_assoc,
      Lexed.ofChars_of_lexeme (Symbol.scan?_of_isStart rfl),
      Symbol.scan_of_isStart rfl rfl (by rw [show IntegerLiteral.isSign '\x27' = false from rfl,
        Bool.false_and]), List.takeWhile_append_of_pos hall, List.dropWhile_append_of_pos hall,
      List.cons_append, List.takeWhile_cons_of_neg hstop, List.dropWhile_cons_of_neg hstop,
      List.append_nil]
    change Lexed.cons _ (Lexed.ofChars (c :: cs ++ rest)) = _
    rw [h rest hrest]
    rfl

/-- Apostrophes in front of the text of one token that consists of characters of symbols. -/
theorem spells_joined (ticks : Nat) {text : List Char} {k : TokenKind}
    (htext : text.all Symbol.isContinue = true) (h : Spells text [k]) :
    Spells (List.replicate ticks '\x27' ++ text) [joined ticks k text] := by
  cases ticks with
  | zero => exact h
  | succ n =>
    have hall : (List.replicate n '\x27' ++ text).all Symbol.isContinue = true := by
      rw [List.all_append, htext, List.all_replicate]
      simp [show Symbol.isContinue '\x27' = true from rfl]
    have hspelling : Symbol.isSpelling
        (String.ofList (List.replicate (n + 1) '\x27' ++ text)).toList = true := by
      rw [String.toList_ofList, List.replicate_succ, List.cons_append, Symbol.isSpelling, hall]
      rfl
    have hsymbol := Spells.symbol hspelling
    rwa [String.toList_ofList] at hsymbol

theorem all_isContinue_of_isSpelling {cs : List Char} (h : Symbol.isSpelling cs = true) :
    cs.all Symbol.isContinue = true := by
  cases cs with
  | nil => rfl
  | cons c cs =>
    simp only [Symbol.isSpelling, Bool.and_eq_true] at h
    rw [List.all_cons, Symbol.isContinue_of_isStart h.1.1.1, h.2]
    rfl

theorem all_isContinue_display (n : Int64) :
    (Integer.display n).toList.all Symbol.isContinue = true := by
  have hdigit {c : Char} (h : c.isDigit = true) : Symbol.isContinue c = true := by
    rw [Symbol.isContinue, Letter.isNumeral_of_isDigit h, Bool.or_true, Bool.true_or]
  obtain ⟨c, ds, hcons, hfirst, hds, -⟩ := toString_int n.toInt
  rw [Integer.display, hcons, List.all_cons, Bool.and_eq_true]
  refine ⟨?_, List.all_eq_true.mpr fun d hd => hdigit (List.all_eq_true.mp hds d hd)⟩
  rw [Bool.or_eq_true, Bool.and_eq_true] at hfirst
  rcases hfirst with h | h
  · exact hdigit h
  · simp only [IntegerLiteral.isSign, Bool.or_eq_true, decide_eq_true_eq] at h
    rcases h.1 with rfl | rfl <;> rfl

mutual

theorem spells_layout (ticks : Nat) : ∀ {x : Node}, x.Legible →
    Spells (List.replicate ticks '\x27' ++ x.layout) (x.printed ticks)
  | integer n, _ => spells_joined ticks (all_isContinue_display n) (.integer n)
  | string s, _ => spells_apostrophes ticks rfl (.string s)
  | boolean true, _ => spells_apostrophes ticks rfl (.boolean true)
  | boolean false, _ => spells_apostrophes ticks rfl (.boolean false)
  | symbol name, h =>
    spells_joined ticks (all_isContinue_of_isSpelling (isSpelling_of_isSymbol (h name rfl)))
      (spells_symbol (h name rfl))
  | list items, h => by
    by_cases hq : (list items).quoted? = none
    · rw [layout_list hq, printed_list hq]
      refine spells_apostrophes ticks rfl (.opening ?_)
      exact (spells_items h.2).append (.closing .nil) (.inr (.inr rfl))
    · match items, h, hq with
      | [symbol head, inner], h, hq =>
        obtain rfl : head = "quote" := by
          refine Decidable.byContradiction fun hne => hq ?_
          rw [quoted?, if_neg hne]
        have htext : List.replicate ticks '\x27' ++ (list [symbol "quote", inner]).layout =
            List.replicate (ticks + 1) '\x27' ++ inner.layout := by
          rw [layout, List.replicate_succ', List.append_assoc]
          rfl
        rw [htext, printed]
        exact spells_layout (ticks + 1) h.2.2.1

/-- Expressions with a blank between each two. -/
theorem spells_items : ∀ {xs : List Node},
    EveryAll (fun y => ∀ name, y = symbol name → IsSymbol name) xs →
    Spells (List.intercalate [' '] (layoutAll xs)) (printedAll xs)
  | [], _ => .nil
  | x :: xs, h => by
    rw [layoutAll, intercalate_cons]
    exact (spells_layout 0 h.1).append (spells_layoutAll h.2) (boundary_spaced _)

theorem spells_layoutAll : ∀ {xs : List Node},
    EveryAll (fun y => ∀ name, y = symbol name → IsSymbol name) xs →
    Spells (spaced (layoutAll xs)) (printedAll xs)
  | [], _ => .nil
  | _ :: _, h => spells_spaced_cons (spells_layout 0 h.1) (spells_layoutAll h.2)

end

end Node

/-! ### Filters -/

namespace Filter

/-- A filter on one line, its parts spelled. -/
theorem spells_oneLine {type : String} {value : Option Node} (h : Named ⟨type, value, none⟩)
    {parts : List (List Char)} {ks : List TokenKind} (hparts : Spells (spaced parts) ks) :
    Spells (oneLine type value parts) (tokens type value ks) := by
  have hvalue : ∀ v, value = some v → Spells v.layout (v.printed 0) := fun v hv =>
    Node.spells_layout 0 (h.2 v hv)
  rw [oneLine, tokens, ← hasParts]
  split
  next =>
    cases value with
    | none => exact .opening (.closing .nil)
    | some v => exact hvalue v rfl
  split
  next => exact spells_parens (spells_symbol h.1) hparts
  next =>
    cases value with
    | none => exact spells_parens (spells_symbol h.1) .nil
    | some v =>
      have htexts := spells_spaced_cons (hvalue v rfl) (show Spells (spaced []) [] from .nil)
      rw [List.append_nil] at htexts
      exact spells_parens (spells_symbol h.1) htexts

mutual

theorem spells_inline : ∀ {f : Filter}, f.Every Named → Spells f.inline f.printed
  | ⟨_, _, none⟩, h => spells_oneLine h .nil
  | ⟨_, _, some _⟩, h => spells_oneLine h.1 (spells_inlineAll h.2)

theorem spells_inlineAll : ∀ {fs : List Filter}, EveryAll Named fs →
    Spells (spaced (inlineAll fs)) (printedAll fs)
  | [], _ => .nil
  | _ :: _, h => spells_spaced_cons (spells_inline h.1) (spells_inlineAll h.2)

end

theorem boundary_lines (indent : Indent) (level : Nat) (texts : List (List Char)) :
    Boundary (texts.flatMap (indent.line level)) := by
  cases texts with
  | nil => exact trivial
  | cons t ts => exact .inr (.inl rfl)

mutual

theorem spells_layout (indent : Indent) (level : Nat) : ∀ {f : Filter}, f.Every Named →
    Spells (f.layout indent level) f.printed
  | ⟨_, _, none⟩, h => spells_oneLine h .nil
  | ⟨type, value, some parts⟩, h => by
    rw [layout, printed]
    split
    next hcompound =>
      have hparts : hasParts type = true := by rw [hasParts, hcompound, Bool.true_or]
      rw [tokens, if_neg (expressionText_ne hparts), if_pos hparts]
      refine .opening (.append (.append (spells_symbol h.1.1) ?_ (boundary_lines ..))
        (.closing .nil) (.inr (.inr rfl)))
      exact spells_layoutAll indent (level + 1) h.2
    next => exact spells_oneLine h.1 (spells_inlineAll h.2)

theorem spells_layoutAll (indent : Indent) (level : Nat) : ∀ {fs : List Filter},
    EveryAll Named fs →
    Spells ((layoutAll indent level fs).flatMap (indent.line level)) (printedAll fs)
  | [], _ => .nil
  | f :: fs, h => by
    rw [layoutAll, List.flatMap_cons, printedAll]
    exact .append (.line indent level (spells_layout indent level h.1))
      (spells_layoutAll indent level h.2) (boundary_lines ..)

end

end Filter

/-! ### Declarations -/

theorem spells_operations {names : List String} (h : ∀ name ∈ names, IsSymbol name) :
    Spells (spaced (names.map String.toList)) (names.map .symbol) := by
  induction names with
  | nil => exact .nil
  | cons name names ih =>
    rw [List.forall_mem_cons] at h
    exact spells_spaced_cons (spells_symbol h.1) (ih h.2)

theorem spells_action (action : Action) : Spells action.text.toList [.symbol action.text] := by
  cases action <;> exact .symbol (by decide)

theorem spells_body (indent : Indent) {fs : List Filter} (h : Filter.EveryAll Filter.Named fs) :
    Spells (Rule.body indent fs) (Filter.printedAll fs) ∧ Boundary (Rule.body indent fs) := by
  have hbelow := Filter.spells_layoutAll indent 1 h
  have hboundary := Filter.boundary_lines indent 1 (Filter.layoutAll indent 1 fs)
  unfold Rule.body
  simp only
  split
  next only =>
    split
    next =>
      have honly := Filter.spells_layout indent 1 h.1
      rw [Filter.printedAll, Filter.printedAll, List.append_nil]
      exact ⟨.blank (.inl rfl) honly, .inl rfl⟩
    next => exact ⟨hbelow, hboundary⟩
  next => exact ⟨hbelow, hboundary⟩

theorem spells_rule (indent : Indent) {r : Rule} (h : (Declaration.rule r).Named) :
    Spells (r.layout indent) (Declaration.rule r).printed := by
  obtain ⟨hbody, hboundary⟩ := spells_body indent h.2
  have hheader : Spells (r.action.text.toList ++ spaced (r.operations.map String.toList))
      ([.symbol r.action.text] ++ r.operations.map .symbol) :=
    .append (spells_action r.action) (spells_operations h.1) (boundary_spaced _)
  have hinner := (hheader.append hbody hboundary).append (.closing .nil) (.inr (.inr rfl))
  rw [Rule.layout, Rule.header, Declaration.printed, Declaration.printedInner]
  have hopen := hinner.opening
  rw [List.append_assoc [_]] at hopen
  exact hopen

theorem spells_definition {d : Definition} (h : (Declaration.definition d).Named) :
    Spells d.layout (Declaration.definition d).printed := by
  have htexts : Spells (spaced [d.name.toList, d.value.layout])
      ([.symbol d.name] ++ (d.value.printed 0 ++ [])) :=
    spells_spaced_cons (spells_symbol h.1) (spells_spaced_cons (Node.spells_layout 0 h.2) .nil)
  have hparens := spells_parens (spells_keyword "define" (by decide)) htexts
  rw [List.append_nil] at hparens
  exact hparens

namespace Declaration

/-- The text of a declaration. -/
def text (indent : Indent) : Declaration → List Char
  | version n => parens "version".toList [(Integer.display n).toList]
  | debugMode a => parens "debug".toList [a.text.toList]
  | importPath path => parens "import".toList [Quoted.ofString path]
  | definition d => d.layout
  | rule r => r.layout indent

theorem spells_text (indent : Indent) {d : Declaration} (h : d.Named) :
    Spells (d.text indent) d.printed := by
  cases d with
  | version n =>
    exact spells_parens (spells_keyword "version" (by decide))
      (spells_spaced_cons (.integer n) .nil)
  | debugMode a =>
    exact spells_parens (spells_keyword "debug" (by decide))
      (spells_spaced_cons (spells_action a) .nil)
  | importPath path =>
    exact spells_parens (spells_keyword "import" (by decide))
      (spells_spaced_cons (.string path) .nil)
  | definition d => exact spells_definition h
  | rule r => exact spells_rule indent h

/-- Each declaration on lines of its own, in front of more text. -/
theorem spells_lines (indent : Indent) (ds : List Declaration) (h : ∀ d ∈ ds, d.Named)
    {more : List Char} {ks : List TokenKind} (hmore : Spells more ks) :
    Spells (ds.flatMap (fun d => d.text indent ++ ['\n']) ++ more) (ds.flatMap printed ++ ks) := by
  induction ds with
  | nil => exact hmore
  | cons d ds ih =>
    rw [List.forall_mem_cons] at h
    have hline := (spells_text indent h.1).append (.blank (.inr (.inr rfl)) (ih h.2))
      (.inr (.inl rfl))
    simpa [List.append_assoc] using hline

end Declaration

namespace Profile

theorem declarationLines_eq (indent : Indent) (p : Profile) :
    p.declarationLines = p.front.map (Declaration.text indent) := by
  obtain ⟨version, debugMode, imports, definitions, rules⟩ := p
  cases version <;> cases debugMode <;>
    simp [declarationLines, front, Declaration.text, Function.comp_def]

/-- The text of a profile says what its declarations are. -/
theorem spells_layout (indent : Indent) {p : Profile} (h : p.Named) :
    Spells (p.layout indent) p.printed := by
  have hrules : Spells (p.rules.flatMap (·.layout indent ++ ['\n']))
      ((p.rules.map Declaration.rule).flatMap Declaration.printed) := by
    have hlines := Declaration.spells_lines indent (p.rules.map .rule)
      (fun d hd => h d (List.mem_append_right _ hd)) .nil
    rw [List.append_nil, List.append_nil, List.flatMap_map] at hlines
    exact hlines
  have hsep : Spells ((if p.hasDeclarations && !p.rules.isEmpty then ['\n'] else []) ++
      p.rules.flatMap (·.layout indent ++ ['\n']))
      ((p.rules.map Declaration.rule).flatMap Declaration.printed) := by
    refine .blanks ?_ hrules
    split
    · exact List.forall_mem_singleton.mpr (.inr (.inr rfl))
    · exact nofun
  have hlines := Declaration.spells_lines indent p.front
    (fun d hd => h d (List.mem_append_left _ hd)) hsep
  rw [layout, declarationLines_eq indent, List.flatMap_map, List.append_assoc, printed,
    declarations, List.flatMap_append]
  exact hlines

/-- What the lexer finds in the text of a profile, quotations included. -/
theorem ofChars_printed (indent : Indent) {p : Profile} (h : p.Named) :
    Lexed.ofChars (p.source indent).toList = ⟨p.printed, []⟩ := by
  rw [source, String.toList_ofList]
  exact (spells_layout indent h).ofChars

/-- What the lexer finds in the text of a profile without quotations. -/
theorem ofChars_source (indent : Indent) {p : Profile} (h : p.Legible) (hq : p.QuoteFree) :
    Lexed.ofChars (p.source indent).toList = ⟨p.kinds, []⟩ := by
  rw [ofChars_printed indent (named_of_legible h), printed_eq_kinds h hq]

end Profile

end SandboxProfile.Wire
