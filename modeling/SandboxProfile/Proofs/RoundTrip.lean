import SandboxProfile.Proofs.Acceptance
import SandboxProfile.Proofs.LayoutSpelling

/-!
# Reading what was printed

The tokens of a printable profile derive from the grammar, by a derivation that stands for the
profile. So its text, at any indentation, is read without an error and as the same profile.
-/

namespace SandboxProfile.Wire

/-! ### Derivations of printed tokens -/

namespace Node

mutual

theorem exists_expr : ∀ x : Node,
    ∃ e : Grammar.Expr, e.kinds = x.kinds ∧ e.node = x ∧ e.depth = x.depth
  | integer n => ⟨.integer n, rfl, rfl, rfl⟩
  | string s => ⟨.string s, rfl, rfl, rfl⟩
  | boolean b => ⟨.boolean b, rfl, rfl, rfl⟩
  | symbol name => ⟨.symbol name, rfl, rfl, rfl⟩
  | list items => by
    obtain ⟨es, hkinds, hnodes, hdepth⟩ := exists_exprs items
    refine ⟨.list es, ?_, ?_, ?_⟩
    · rw [Grammar.Expr.kinds, hkinds, kinds]
    · rw [Grammar.Expr.node, hnodes]
    · rw [Grammar.Expr.depth, hdepth, depth]

theorem exists_exprs : ∀ xs : List Node, ∃ es : List Grammar.Expr,
    Grammar.Expr.kindsAll es = kindsAll xs ∧ Grammar.Expr.nodes es = xs ∧
      Grammar.Expr.depthAll es = depthAll xs
  | [] => ⟨[], rfl, rfl, rfl⟩
  | x :: xs => by
    obtain ⟨e, hkinds, hnode, hdepth⟩ := exists_expr x
    obtain ⟨es, hkinds', hnodes, hdepth'⟩ := exists_exprs xs
    refine ⟨e :: es, ?_, ?_, ?_⟩
    · rw [Grammar.Expr.kindsAll, hkinds, hkinds', kindsAll]
    · rw [Grammar.Expr.nodes, hnode, hnodes]
    · rw [Grammar.Expr.depthAll, hdepth, hdepth', depthAll]

end

end Node

namespace Filter

theorem kindsAll_cons (g : Grammar.Filter) (gs : List Grammar.Filter) :
    Grammar.Filter.kindsAll (g :: gs) = g.kinds ++ Grammar.Filter.kindsAll gs := by
  rw [Grammar.Filter.kindsAll, Grammar.Filter.kinds]
  simp

/-- An expression among the filters is a list that does not begin with a symbol. -/
theorem exists_expression {items : List Node} (h : (Node.list items).isPlainList = true) :
    ∃ g : Grammar.Filter, g.kinds = (Node.list items).kinds ∧
      g.wire = ofValue expressionText (.list items) ∧ g.depth = (Node.list items).depth := by
  cases items with
  | nil => exact ⟨.empty, rfl, rfl, rfl⟩
  | cons x xs =>
    obtain ⟨e, hkinds, hnode, hdepth⟩ := x.exists_expr
    obtain ⟨es, hkinds', hnodes, hdepth'⟩ := Node.exists_exprs xs
    have hplain : e.isSymbol = false := by
      cases e with
      | symbol name =>
        rw [← hnode] at h
        cases h
      | integer _ | string _ | rawString _ | boolean _ | list _ => rfl
    refine ⟨.expression e hplain es, ?_, ?_, ?_⟩
    · rw [Grammar.Filter.kinds, Grammar.Filter.inner, Grammar.Expr.kindsAll, hkinds, hkinds',
        Node.kinds, Node.kindsAll]
    · rw [Grammar.Filter.wire, Grammar.Expr.nodes, hnode, hnodes]
    · rw [Grammar.Filter.depth, Grammar.Expr.depthAll, hdepth, hdepth', Node.depth, Node.depthAll]

theorem exists_value {type : String} {value : Option Node} (h : Legible ⟨type, value, none⟩)
    (hp : Plain ⟨type, value, none⟩) : ∃ g : Grammar.Filter,
      g.kinds = kinds ⟨type, value, none⟩ ∧ g.wire = ⟨type, value, none⟩ ∧
        g.depth = depth ⟨type, value, none⟩ := by
  obtain ⟨hparts, -, v, rfl, -⟩ := value_of_legible h
  by_cases htype : type = expressionText
  · subst htype
    obtain ⟨value, hvalue, hplain⟩ := hp (decide_eq_true rfl)
    obtain rfl : v = value := Option.some.inj hvalue
    cases v with
    | list items =>
      obtain ⟨g, hkinds, hwire, hdepth⟩ := exists_expression hplain
      exact ⟨g, hkinds, hwire, hdepth⟩
    | integer _ | string _ | boolean _ | symbol _ => cases hplain
  · obtain ⟨e, hkinds, hnode, hdepth⟩ := v.exists_expr
    refine ⟨.simple type hparts e [], ?_, ?_, ?_⟩
    · rw [Grammar.Filter.kinds, Grammar.Filter.inner, Grammar.Expr.kindsAll, hkinds,
        Grammar.Expr.kindsAll, List.append_nil, kinds, if_neg htype]
      rfl
    · rw [Grammar.Filter.wire, hnode]
      rfl
    · rw [Grammar.Filter.depth, Grammar.Expr.depthAll, hdepth, Grammar.Expr.depthAll, Nat.max_zero,
        depth, if_neg htype]
      rfl

/-- A filter with parts, given the derivations of the parts. -/
theorem exists_parts {type : String} {value : Option Node} {parts : List Filter}
    (h : Legible ⟨type, value, some parts⟩) {gs : List Grammar.Filter}
    (hkinds : Grammar.Filter.kindsAll gs = kindsAll parts)
    (hwires : Grammar.Filter.wires gs = parts)
    (hdepth : Grammar.Filter.depthAll gs = depthAll parts) :
    ∃ g : Grammar.Filter, g.kinds = kinds ⟨type, value, some parts⟩ ∧
      g.wire = ⟨type, value, some parts⟩ ∧ g.depth = depth ⟨type, value, some parts⟩ := by
  obtain ⟨rfl, hone⟩ := parts_of_legible h
  cases hkind : CompoundKind.ofText? type with
  | some kind =>
    obtain rfl := Reading.text_of_ofText? hkind
    refine ⟨.compound kind gs, ?_, ?_, ?_⟩
    · rw [Grammar.Filter.kinds, Grammar.Filter.inner, hkinds, kinds]
      rfl
    · rw [Grammar.Filter.wire, hwires]
      rfl
    · rw [Grammar.Filter.depth, hdepth, depth]
  | none =>
    have hneg : type = negationText := by
      have hparts := hasParts_of_legible h
      rw [hasParts, hkind] at hparts
      exact of_decide_eq_true hparts
    subst hneg
    have hlength : parts.length = 1 := hone (decide_eq_true rfl)
    obtain ⟨g, rfl⟩ : ∃ g, gs = [g] := by
      rw [← hwires] at hlength
      cases gs with
      | nil => cases hlength
      | cons g more =>
        cases more with
        | nil => exact ⟨g, rfl⟩
        | cons g' more => cases hlength
    refine ⟨.negation g, ?_, ?_, ?_⟩
    · rw [Grammar.Filter.kinds, Grammar.Filter.inner, kinds, ← hkinds]
      rfl
    · rw [Grammar.Filter.wire, ← hwires]
      rfl
    · rw [Grammar.Filter.depth, depth, ← hdepth, Grammar.Filter.depthAll, Grammar.Filter.depthAll,
        Nat.max_zero]

mutual

theorem exists_filter : ∀ {f : Filter}, f.Every Legible → f.Every Plain →
    ∃ g : Grammar.Filter, g.kinds = f.kinds ∧ g.wire = f ∧ g.depth = f.depth
  | ⟨type, value, none⟩, h, hp => exists_value h hp
  | ⟨type, value, some parts⟩, h, hp => by
    obtain ⟨gs, hkinds, hwires, hdepth⟩ := exists_filters h.2 hp.2
    exact exists_parts h.1 hkinds hwires hdepth

theorem exists_filters : ∀ {fs : List Filter}, EveryAll Legible fs → EveryAll Plain fs →
    ∃ gs : List Grammar.Filter, Grammar.Filter.kindsAll gs = kindsAll fs ∧
      Grammar.Filter.wires gs = fs ∧ Grammar.Filter.depthAll gs = depthAll fs
  | [], _, _ => ⟨[], rfl, rfl, rfl⟩
  | f :: fs, h, hp => by
    obtain ⟨g, hkinds, hwire, hdepth⟩ := exists_filter h.1 hp.1
    obtain ⟨gs, hkinds', hwires, hdepth'⟩ := exists_filters h.2 hp.2
    refine ⟨g :: gs, ?_, ?_, ?_⟩
    · rw [kindsAll_cons, hkinds, hkinds', kindsAll]
    · rw [Grammar.Filter.wires, hwire, hwires]
    · rw [Grammar.Filter.depthAll, hdepth, hdepth', depthAll]

end

end Filter

namespace Declaration

/-- What stands in a printed rule: the operations, then the filters. -/
def items (names : List String) (gs : List Grammar.Filter) : List Grammar.Item :=
  names.map .operation ++ gs.map .filter

theorem depth_items (names : List String) (gs : List Grammar.Filter) :
    ((items names gs).map Grammar.Item.depth).foldr max 0 =
      Grammar.Filter.depthAll gs := by
  induction names with
  | nil =>
    induction gs with
    | nil => rfl
    | cons g gs ih =>
      rw [Grammar.Filter.depthAll, ← ih]
      rfl
  | cons name names ih =>
    rw [← ih]
    exact Nat.zero_max _

theorem kinds_items (names : List String) (gs : List Grammar.Filter) :
    (items names gs).flatMap Grammar.Item.kinds =
      names.map .symbol ++ Grammar.Filter.kindsAll gs := by
  induction names with
  | nil =>
    induction gs with
    | nil => rfl
    | cons g gs ih =>
      rw [Filter.kindsAll_cons]
      exact congrArg (g.kinds ++ ·) ih
  | cons name names ih => exact congrArg (.symbol name :: ·) ih

theorem operations_items (names : List String) (gs : List Grammar.Filter) :
    (items names gs).filterMap Grammar.Item.operation? = names := by
  induction names with
  | nil =>
    induction gs with
    | nil => rfl
    | cons g gs ih => exact ih
  | cons name names ih => exact congrArg (name :: ·) ih

theorem filters_items (names : List String) (gs : List Grammar.Filter) :
    (items names gs).filterMap Grammar.Item.filter? = Grammar.Filter.wires gs := by
  induction names with
  | nil =>
    induction gs with
    | nil => rfl
    | cons g gs ih => exact congrArg (g.wire :: ·) ih
  | cons name names ih => exact ih

/-- The tokens of a declaration derive from the grammar, and the derivation means the declaration.
-/
theorem exists_form {d : Declaration} (h : d.Legible) (hp : d.Plain) :
    ∃ f : Grammar.Form, f.kinds = d.kinds ∧ f.declaration? = some d ∧ f.depth = d.depth := by
  cases d with
  | version n => exact ⟨.version n, rfl, rfl, rfl⟩
  | debugMode a => exact ⟨.debug a, rfl, rfl, rfl⟩
  | importPath path => exact ⟨.importPath false path, rfl, rfl, rfl⟩
  | definition d =>
    obtain ⟨name, value⟩ := d
    obtain ⟨e, hkinds, hnode, hdepth⟩ := value.exists_expr
    refine ⟨.definition name e, ?_, ?_, hdepth⟩
    · rw [Grammar.Form.kinds, Grammar.Form.inner, hkinds]
      rfl
    · rw [Grammar.Form.declaration?, hnode]
  | rule r =>
    obtain ⟨action, names, filters⟩ := r
    obtain ⟨gs, hkinds, hwires, hdepth⟩ := Filter.exists_filters h.2 hp
    refine ⟨.rule action (items names gs), ?_, ?_, ?_⟩
    · rw [Grammar.Form.kinds, Grammar.Form.inner, kinds_items, hkinds]
      rfl
    · rw [Grammar.Form.declaration?, operations_items, filters_items, hwires]
    · rw [Grammar.Form.depth, depth_items, hdepth]
      rfl

theorem exists_forms {limit : Nat} {ds : List Declaration} (h : ∀ d ∈ ds, d.Legible)
    (hp : ∀ d ∈ ds, d.Plain) (hd : ∀ d ∈ ds, d.depth ≤ limit) :
    ∃ fs : List Grammar.Form, Grammar.kinds fs = ds.flatMap kinds ∧
      Grammar.declarations fs = ds ∧ Grammar.depth fs ≤ limit := by
  induction ds with
  | nil => exact ⟨[], rfl, rfl, Nat.zero_le _⟩
  | cons d ds ih =>
    rw [List.forall_mem_cons] at h hp hd
    obtain ⟨f, hkinds, hdeclaration, hdepth⟩ := exists_form h.1 hp.1
    obtain ⟨fs, hkinds', hdeclarations, hdepth'⟩ := ih h.2 hp.2 hd.2
    refine ⟨f :: fs, ?_, ?_, ?_⟩
    · rw [Grammar.kinds, List.flatMap_cons, hkinds, ← Grammar.kinds, hkinds', List.flatMap_cons]
    · rw [Grammar.declarations_cons, hdeclaration, hdeclarations]
      rfl
    · rw [Grammar.depth, List.map_cons, List.foldr_cons, hdepth]
      exact Nat.max_le.mpr ⟨hd.1, hdepth'⟩

end Declaration

namespace Profile

theorem versions_declarations (p : Profile) : versions p.declarations ≤ 1 := by
  have hversions : p.declarations.filterMap Declaration.version? = p.version.toList := by
    simp only [declarations, front, List.filterMap_append, List.filterMap_map, Function.comp_def,
      Declaration.version?, List.filterMap_none, List.append_nil]
    exact List.filterMap_some
  rw [versions, hversions]
  cases p.version <;> simp

/-- What is true of a printable profile for any limit of nesting. -/
theorem read_printed {limit : Nat} {p : Profile} (hl : p.Legible) (hq : p.QuoteFree)
    (hp : p.Plain) (hd : p.Shallow limit) (indent : Indent) :
    (SandboxProfile.Profile.read limit (p.source indent)).hasErrors = false ∧
      ofTree (SandboxProfile.Profile.read limit (p.source indent)).profile = p := by
  have hchars := ofChars_source indent hl hq
  obtain ⟨fs, hkinds, hdeclarations, hdepth⟩ := Declaration.exists_forms hl hp hd
  have hderives : (Lexed.ofChars (p.source indent).toList).kinds = Grammar.kinds fs := by
    rw [hchars, hkinds, kinds]
  constructor
  · rw [SandboxProfile.Profile.hasErrors_iff_derives]
    refine ⟨by rw [hchars], fs, hderives, ?_, hdepth⟩
    rw [hdeclarations]
    exact p.versions_declarations
  · rw [SandboxProfile.Profile.wire_of_derives hderives hdepth, Grammar.wire, hdeclarations,
      ofDeclarations_declarations]

/-- The text of a printable profile, at any indentation, is read without an error and as the same
profile. -/
theorem ofText_source (p : Profile) (h : p.Printable) (indent : Indent) :
    (SandboxProfile.Profile.ofText (p.source indent)).hasErrors = false ∧
      ofTree (SandboxProfile.Profile.ofText (p.source indent)).profile = p :=
  read_printed h.legible h.quoteFree h.plain h.shallow indent

/-- A profile of a version and a rule. -/
def readable : Profile :=
  ⟨some 1, none, [], [],
    [⟨.allow, ["file-read*"], [.ofFilters negationText [.ofValue "path" (.string "/")]]⟩]⟩

theorem printable_readable : readable.Printable where
  legible := by
    refine List.forall_mem_cons.mpr ⟨trivial, List.forall_mem_singleton.mpr ?_⟩
    have hsymbol : IsSymbol "file-read*" := by
      unfold IsSymbol
      decide +kernel
    have htype : IsSymbol "path" := by
      unfold IsSymbol
      decide +kernel
    refine ⟨List.forall_mem_singleton.mpr hsymbol, ⟨?_, ⟨?_, trivial⟩⟩, trivial⟩
    · exact ⟨rfl, _, rfl, fun _ => rfl⟩
    · exact ⟨htype, rfl, _, rfl, nofun⟩
  quoteFree := by
    refine List.forall_mem_cons.mpr ⟨trivial, List.forall_mem_singleton.mpr ?_⟩
    refine ⟨⟨nofun, ?_, trivial⟩, trivial⟩
    rintro _ ⟨⟩
    rfl
  plain := by
    refine List.forall_mem_cons.mpr ⟨trivial, List.forall_mem_singleton.mpr ?_⟩
    exact ⟨⟨nofun, nofun, trivial⟩, trivial⟩
  shallow := by
    unfold Shallow
    decide

theorem ofText_source_readable : readable.Printable ∧
    ofTree (SandboxProfile.Profile.ofText (readable.source .usual)).profile = readable :=
  ⟨printable_readable, (ofText_source readable printable_readable .usual).2⟩

end Profile

end SandboxProfile.Wire
