import SandboxProfile.Proofs.Acceptance
import SandboxProfile.Proofs.LayoutSpelling

/-!
# The forms of printed profiles

Parentheses match in the tokens of a printed declaration, so a text without an error that is made up
of such declarations has one form for each, of the same kind and with the same names. Only filters
may turn into something else: an expression that begins with a symbol of its own adds that symbol to
the operations of its rule.
-/

namespace SandboxProfile

/-! ### Matching parentheses -/

namespace Balanced

theorem append {ks ls : List TokenKind} (h : Balanced ks) (hl : Balanced ls) :
    Balanced (ks ++ ls) := by
  induction h with
  | nil => exact hl
  | token hopen hclose _ ih => exact .token hopen hclose ih
  | parens hinner _ _ ih =>
    rw [List.cons_append, List.append_assoc, List.cons_append]
    exact .parens hinner ih

theorem enclosed {ks : List TokenKind} (h : Balanced ks) :
    Balanced (.leftParen :: (ks ++ [.rightParen])) := .parens h .nil

theorem single {k : TokenKind} (hopen : k ≠ .leftParen) (hclose : k ≠ .rightParen) :
    Balanced [k] := .token hopen hclose .nil

theorem symbol (name : String) {ks : List TokenKind} (h : Balanced ks) :
    Balanced (.symbol name :: ks) := by
  refine .token ?_ ?_ h
  · intro heq
    cases heq
  · intro heq
    cases heq

end Balanced

namespace Forest

/-- A list for each of several sequences of tokens. -/
def groups : List (List TokenKind) → Forest
  | [] => .done
  | ks :: more => group (ofKinds ks) (groups more)

theorem kinds_groups (lists : List (List TokenKind)) :
    (groups lists).kinds = lists.flatMap fun ks => .leftParen :: (ks ++ [.rightParen]) := by
  induction lists with
  | nil => rfl
  | cons ks more ih =>
    rw [groups, kinds_group, kinds_ofKinds, ih, List.flatMap_cons]
    simp

theorem whole_groups {lists : List (List TokenKind)} (h : ∀ ks ∈ lists, Balanced ks) :
    Whole (groups lists) := by
  induction lists with
  | nil => exact .done
  | cons ks more ih =>
    rw [List.forall_mem_cons] at h
    exact .group (whole_ofKinds h.1) (ih h.2)

theorem groups_inj {xs ys : List (List TokenKind)} (h : groups xs = groups ys) : xs = ys := by
  induction xs generalizing ys with
  | nil =>
    cases ys with
    | nil => rfl
    | cons y ys => cases h
  | cons x xs ih =>
    cases ys with
    | nil => cases h
    | cons y ys =>
      obtain ⟨-, hitems, -, hrest⟩ := Forest.list.inj h
      rw [← kinds_ofKinds x, hitems, kinds_ofKinds, ih hrest]

/-- Sequences of tokens in which parentheses match are found again in the lists they make up. -/
theorem lists_unique {xs ys : List (List TokenKind)} (hx : ∀ ks ∈ xs, Balanced ks)
    (hy : ∀ ks ∈ ys, Balanced ks)
    (h : xs.flatMap (fun ks => .leftParen :: (ks ++ [.rightParen])) =
      ys.flatMap fun ks => .leftParen :: (ks ++ [.rightParen])) : xs = ys := by
  apply groups_inj
  rw [← ofKinds_kinds (whole_groups hx).closed, ← ofKinds_kinds (whole_groups hy).closed,
    kinds_groups, kinds_groups, h]

end Forest

/-- The symbols that stand in no list, after `level` opening parentheses. -/
def topSymbols (level : Nat) : List TokenKind → List String
  | [] => []
  | .leftParen :: ks => topSymbols (level + 1) ks
  | .rightParen :: ks => topSymbols (level - 1) ks
  | .symbol name :: ks => if level = 0 then name :: topSymbols level ks else topSymbols level ks
  | _ :: ks => topSymbols level ks

namespace Balanced

theorem topSymbols_succ {ks : List TokenKind} (h : Balanced ks) (level : Nat)
    (ls : List TokenKind) : topSymbols (level + 1) (ks ++ ls) = topSymbols (level + 1) ls := by
  induction h generalizing level ls with
  | nil => rfl
  | @token k ks hopen hclose _ ih =>
    cases k <;> first | exact ih level ls | contradiction
  | parens _ _ ihinner ih =>
    rw [List.cons_append, List.append_assoc, List.cons_append, topSymbols, ihinner, topSymbols]
    exact ih level ls

theorem topSymbols_list {ks : List TokenKind} (h : Balanced ks) (ls : List TokenKind) :
    topSymbols 0 (.leftParen :: (ks ++ .rightParen :: ls)) = topSymbols 0 ls := by
  rw [topSymbols, h.topSymbols_succ, topSymbols]

theorem topSymbols_append {ks : List TokenKind} (h : Balanced ks) (ls : List TokenKind) :
    topSymbols 0 (ks ++ ls) = topSymbols 0 ks ++ topSymbols 0 ls := by
  induction h with
  | nil => rfl
  | @token k ks hopen hclose _ ih =>
    cases k with
    | leftParen | rightParen => contradiction
    | symbol name => exact congrArg (name :: ·) ih
    | _ => exact ih
  | parens hinner _ _ ih =>
    rw [List.cons_append, List.append_assoc, List.cons_append, hinner.topSymbols_list,
      hinner.topSymbols_list, ih]

end Balanced

namespace Wire

/-! ### Expressions -/

theorem balanced_apostrophes (ticks : Nat) : Balanced (apostrophes ticks) := by
  cases ticks with
  | zero => exact .nil
  | succ n => exact .symbol _ .nil

theorem balanced_joined (ticks : Nat) {k : TokenKind} (h : Balanced [k]) (text : List Char) :
    Balanced [joined ticks k text] := by
  cases ticks with
  | zero => exact h
  | succ n => exact .symbol _ .nil

namespace Node

/-- Whether an expression is printed with a symbol that stands in no list. -/
def isWord : Node → Bool
  | symbol _ => true
  | x => x.quoted?.isSome

theorem eq_quotation {items : List Node} (h : (list items).quoted? ≠ none) :
    ∃ inner, items = [symbol "quote", inner] := by
  unfold quoted? at h
  split at h
  next head inner heq =>
    split at h
    next hhead => exact ⟨inner, by rw [← hhead]; exact list.inj heq⟩
    next => exact absurd rfl h
  next => exact absurd rfl h

mutual

theorem balanced_printed (ticks : Nat) : (x : Node) → Balanced (x.printed ticks)
  | integer n => balanced_joined ticks (.single (k := .integer n) nofun nofun) _
  | string _ | boolean _ => (balanced_apostrophes ticks).append (.single nofun nofun)
  | symbol name => balanced_joined ticks (.symbol name .nil) _
  | list items => by
    by_cases hq : (list items).quoted? = none
    · rw [printed_list hq]
      exact (balanced_apostrophes ticks).append (balanced_printedAll items).enclosed
    · match items, hq with
      | [symbol head, inner], hq =>
        obtain ⟨_, heq⟩ := eq_quotation hq
        cases heq
        rw [printed]
        exact balanced_printed (ticks + 1) inner

theorem balanced_printedAll : (xs : List Node) → Balanced (printedAll xs)
  | [] => .nil
  | x :: xs => (balanced_printed 0 x).append (balanced_printedAll xs)

end

/-- An expression behind apostrophes is printed with a symbol in front. -/
theorem topSymbols_ticked (ticks : Nat) : (x : Node) →
    topSymbols 0 (x.printed (ticks + 1)) ≠ []
  | integer _ | string _ | boolean _ | symbol _ => nofun
  | list items => by
    by_cases hq : (list items).quoted? = none
    · rw [printed_list hq]
      exact nofun
    · match items, hq with
      | [symbol head, inner], hq =>
        obtain ⟨_, heq⟩ := eq_quotation hq
        cases heq
        rw [printed]
        exact topSymbols_ticked (ticks + 1) inner

theorem topSymbols_printed (x : Node) : topSymbols 0 (x.printed 0) = [] ↔ x.isWord = false := by
  cases x with
  | integer _ | string _ | boolean _ => exact iff_of_true rfl rfl
  | symbol _ => exact iff_of_false nofun nofun
  | list items =>
    by_cases hq : (list items).quoted? = none
    · refine iff_of_true ?_ (Option.isSome_eq_false_iff.mpr (Option.isNone_iff_eq_none.mpr hq))
      rw [printed_list hq]
      exact (balanced_printedAll items).topSymbols_list []
    · obtain ⟨inner, rfl⟩ := eq_quotation hq
      refine iff_of_false ?_ nofun
      rw [printed]
      exact topSymbols_ticked 0 inner

end Node

/-! ### Filters -/

namespace Filter

/-- Whether a filter is an expression that is printed with a symbol of its own. -/
def isStray (f : Filter) : Bool := f.isExpression && f.value.any Node.isWord

theorem balanced_value (value : Option Node) : Balanced (value.elim [] (Node.printed 0)) := by
  cases value with
  | none => exact .nil
  | some v => exact v.balanced_printed 0

theorem balanced_tokens (type : String) (value : Option Node) {parts : List TokenKind}
    (h : Balanced parts) : Balanced (tokens type value parts) := by
  unfold tokens
  split
  next =>
    cases value with
    | none => exact .enclosed .nil
    | some v => exact v.balanced_printed 0
  split
  next => exact (Balanced.symbol type h).enclosed
  next => exact (Balanced.symbol type (balanced_value value)).enclosed

mutual

theorem balanced_printed : (f : Filter) → Balanced f.printed
  | ⟨type, value, none⟩ => balanced_tokens type value .nil
  | ⟨type, value, some parts⟩ => balanced_tokens type value (balanced_printedAll parts)

theorem balanced_printedAll : (fs : List Filter) → Balanced (printedAll fs)
  | [] => .nil
  | f :: fs => (balanced_printed f).append (balanced_printedAll fs)

end

theorem topSymbols_tokens (type : String) (value : Option Node) {parts : List TokenKind}
    (h : Balanced parts) (filters : Option (List Filter)) :
    topSymbols 0 (tokens type value parts) = [] ↔ isStray ⟨type, value, filters⟩ = false := by
  unfold tokens
  split
  next htype =>
    have hstray : isStray ⟨type, value, filters⟩ = value.any Node.isWord := by
      rw [isStray, isExpression, decide_eq_true htype, Bool.true_and]
    rw [hstray]
    cases value with
    | none => exact iff_of_true rfl rfl
    | some v => exact v.topSymbols_printed
  next htype =>
    have hstray : isStray ⟨type, value, filters⟩ = false := by
      rw [isStray, isExpression, decide_eq_false htype, Bool.false_and]
    refine iff_of_true ?_ hstray
    split
    next => exact (Balanced.symbol type h).topSymbols_list []
    next => exact (Balanced.symbol type (balanced_value value)).topSymbols_list []

theorem topSymbols_printed (f : Filter) : topSymbols 0 f.printed = [] ↔ f.isStray = false := by
  obtain ⟨type, value, filters⟩ := f
  cases filters with
  | none => exact topSymbols_tokens type value .nil none
  | some parts => exact topSymbols_tokens type value (balanced_printedAll parts) _

theorem topSymbols_printedAll (fs : List Filter) :
    topSymbols 0 (printedAll fs) = [] ↔ ∀ f ∈ fs, f.isStray = false := by
  induction fs with
  | nil => exact iff_of_true rfl nofun
  | cons f fs ih =>
    rw [printedAll, f.balanced_printed.topSymbols_append, List.append_eq_nil_iff,
      topSymbols_printed, ih, List.forall_mem_cons]

end Filter

/-! ### Declarations -/

namespace Declaration

theorem balanced_symbols (names : List String) : Balanced (names.map TokenKind.symbol) := by
  induction names with
  | nil => exact .nil
  | cons name names ih => exact .symbol name ih

theorem topSymbols_symbols (names : List String) : topSymbols 0 (names.map .symbol) = names := by
  induction names with
  | nil => rfl
  | cons name names ih => exact congrArg (name :: ·) ih

theorem balanced_printedInner (d : Declaration) : Balanced d.printedInner := by
  cases d with
  | version n => exact .symbol _ (.single nofun nofun)
  | debugMode a => exact .symbol _ (.symbol _ .nil)
  | importPath path => exact .symbol _ (.single nofun nofun)
  | definition d => exact .symbol _ (.symbol _ (d.value.balanced_printed 0))
  | rule r => exact .symbol _ ((balanced_symbols _).append (Filter.balanced_printedAll _))

/-- A declaration without the value of a definition and the filters of a rule, the operations of
which are given. -/
def outline (operations : Rule → List String) : Declaration → Declaration
  | definition d => definition ⟨d.name, .list []⟩
  | rule r => rule ⟨r.action, operations r, []⟩
  | d => d

end Declaration

/-- The operations that a rule is printed with: its own and the symbols of its filters that stand in
no list. -/
def Rule.printedOperations (r : Rule) : List String :=
  r.operations ++ topSymbols 0 (Filter.printedAll r.filters)

namespace Profile

def outline (operations : Rule → List String) (p : Profile) : Profile where
  version := p.version
  debugMode := p.debugMode
  imports := p.imports
  definitions := p.definitions.map fun d => ⟨d.name, .list []⟩
  rules := p.rules.map fun r => ⟨r.action, operations r, []⟩

theorem ofDeclarations_outline (operations : Rule → List String) (ds : List Declaration) :
    ofDeclarations (ds.map (·.outline operations)) = (ofDeclarations ds).outline operations := by
  have hv : (·.version?) ∘ Declaration.outline operations = (·.version?) :=
    funext fun d => by cases d <;> rfl
  have hd : (·.debugMode?) ∘ Declaration.outline operations = (·.debugMode?) :=
    funext fun d => by cases d <;> rfl
  have hi : (·.importPath?) ∘ Declaration.outline operations = (·.importPath?) :=
    funext fun d => by cases d <;> rfl
  have hf : (·.definition?) ∘ Declaration.outline operations =
      fun d => d.definition?.map fun d => ⟨d.name, .list []⟩ :=
    funext fun d => by cases d <;> rfl
  have hr : (·.rule?) ∘ Declaration.outline operations =
      fun d => d.rule?.map fun r => ⟨r.action, operations r, []⟩ :=
    funext fun d => by cases d <;> rfl
  rw [ofDeclarations, List.findSome?_map, List.findSome?_map, List.filterMap_map,
    List.filterMap_map, List.filterMap_map, hv, hd, hi, hf, hr]
  simp only [outline, ofDeclarations, List.map_filterMap]

end Profile

end Wire

/-! ### Forms -/

namespace Grammar

theorem Form.balanced_inner (f : Form) : Balanced f.inner := by
  rw [← f.kinds_innerForest]
  exact f.whole_innerForest.balanced

theorem Item.topSymbols_kinds (is : List Item) :
    topSymbols 0 (is.flatMap Item.kinds) = is.filterMap Item.operation? := by
  induction is with
  | nil => rfl
  | cons i is ih =>
    rw [List.flatMap_cons]
    cases i with
    | operation name => exact congrArg (name :: ·) ih
    | filter f =>
      have hinner : Balanced f.inner := by
        rw [← f.kinds_innerForest]
        exact f.whole_innerForest.balanced
      rw [Item.kinds, Filter.kinds, List.cons_append, List.append_assoc, List.singleton_append,
        hinner.topSymbols_list, ih]
      rfl

namespace Form

theorem inner_unknown_ne {name word : String}
    {other : name ∉ ["version", "debug", "import", "define", "allow", "deny"]}
    {body ks : List TokenKind} {balanced : Balanced body}
    (h : word ∈ ["version", "debug", "import", "define", "allow", "deny"]) :
    (unknown name other body balanced).inner ≠ .symbol word :: ks := by
  intro heq
  cases (List.cons.inj heq).1
  exact other h

theorem of_version {f : Form} {n : Int64} (h : f.inner = [.symbol "version", .integer n]) :
    f.declaration? = some (.version n) := by
  cases f with
  | unknown => exact absurd h (inner_unknown_ne (by decide))
  | rule action => cases action <;> simp [inner, Action.text] at h
  | _ => simp_all [inner, declaration?]

theorem of_debug {f : Form} {a : Action} (h : f.inner = [.symbol "debug", .symbol a.text]) :
    f.declaration? = some (.debugMode a) := by
  cases f with
  | unknown => exact absurd h (inner_unknown_ne (by decide))
  | rule action => cases action <;> simp [inner, Action.text] at h
  | debug action => cases action <;> cases a <;> simp_all [inner, declaration?, Action.text]
  | _ => simp_all [inner]

theorem of_importPath {f : Form} {path : String} (h : f.inner = [.symbol "import", .string path]) :
    f.declaration? = some (.importPath path) := by
  cases f with
  | unknown => exact absurd h (inner_unknown_ne (by decide))
  | rule action => cases action <;> simp [inner, Action.text] at h
  | importPath raw path => cases raw <;> simp_all [inner, declaration?]
  | _ => simp_all [inner]

theorem of_definition {f : Form} {name : String} {ks : List TokenKind}
    (h : f.inner = .symbol "define" :: .symbol name :: ks) :
    ∃ value, f.declaration? = some (.definition ⟨name, value⟩) := by
  cases f with
  | unknown => exact absurd h (inner_unknown_ne (by decide))
  | rule action => cases action <;> simp [inner, Action.text] at h
  | _ => simp_all [inner, declaration?]

theorem of_rule {f : Form} {action : Action} {ks : List TokenKind}
    (h : f.inner = .symbol action.text :: ks) :
    ∃ filters, f.declaration? = some (.rule ⟨action, topSymbols 0 ks, filters⟩) := by
  cases f with
  | unknown => exact absurd h (inner_unknown_ne (by cases action <;> decide))
  | rule other items =>
    obtain ⟨hhead, hitems⟩ := List.cons.inj h
    obtain rfl : other = action := by
      cases other <;> cases action <;> first | rfl | simp [Action.text] at hhead
    rw [← hitems, Item.topSymbols_kinds]
    exact ⟨_, rfl⟩
  | _ => cases action <;> simp_all [inner, Action.text]

end Form

/-- A form with the tokens of a printed declaration declares the same, but for the value of a
definition and the filters of a rule. -/
theorem Form.outline_of_inner {f : Form} {d : Wire.Declaration} (h : f.inner = d.printedInner) :
    ∃ e, f.declaration? = some e ∧
      e.outline Wire.Rule.operations = d.outline Wire.Rule.printedOperations := by
  cases d with
  | version n => exact ⟨_, Form.of_version h, rfl⟩
  | debugMode a => exact ⟨_, Form.of_debug h, rfl⟩
  | importPath path => exact ⟨_, Form.of_importPath h, rfl⟩
  | definition d =>
    obtain ⟨value, hd⟩ := Form.of_definition h
    exact ⟨_, hd, rfl⟩
  | rule r =>
    obtain ⟨filters, hd⟩ := Form.of_rule h
    refine ⟨_, hd, ?_⟩
    rw [(Wire.Declaration.balanced_symbols _).topSymbols_append,
      Wire.Declaration.topSymbols_symbols]
    rfl

theorem outline_declarations {fs : List Form} {ds : List Wire.Declaration}
    (h : fs.map Form.inner = ds.map Wire.Declaration.printedInner) :
    (declarations fs).map (·.outline Wire.Rule.operations) =
      ds.map (·.outline Wire.Rule.printedOperations) := by
  induction fs generalizing ds with
  | nil =>
    obtain rfl := List.map_eq_nil_iff.mp h.symm
    rfl
  | cons f fs ih =>
    cases ds with
    | nil => cases h
    | cons d ds =>
      obtain ⟨hhead, htail⟩ := List.cons.inj h
      obtain ⟨e, he, houtline⟩ := Form.outline_of_inner hhead
      rw [declarations_cons, he, List.map_append, ih htail, List.map_cons, ← houtline]
      rfl

end Grammar

namespace Profile

/-- The profile of a printed text without an error has the declarations of the one that was printed,
and its rules the operations that they were printed with. -/
theorem outline_of_printed {limit : Nat} {indent : Indent} {p : Wire.Profile} (h : p.Named)
    (hclean : (read limit (p.source indent)).hasErrors = false) :
    (Wire.Profile.ofTree (read limit (p.source indent)).profile).outline Wire.Rule.operations =
      p.outline Wire.Rule.printedOperations := by
  obtain ⟨-, fs, hkinds, -, hdepth⟩ := (hasErrors_iff_derives limit _).mp hclean
  have hlists : fs.map Grammar.Form.inner =
      p.declarations.map Wire.Declaration.printedInner := by
    apply Forest.lists_unique
    · exact List.forall_mem_map.mpr fun f _ => f.balanced_inner
    · exact List.forall_mem_map.mpr fun d _ => d.balanced_printedInner
    · rw [List.flatMap_map, List.flatMap_map]
      rw [Wire.Profile.ofChars_printed indent h] at hkinds
      exact hkinds.symm
  rw [wire_of_derives hkinds hdepth, Grammar.wire, ← Wire.Profile.ofDeclarations_outline,
    Grammar.outline_declarations hlists, Wire.Profile.ofDeclarations_outline,
    Wire.Profile.ofDeclarations_declarations]

end Profile

end SandboxProfile
