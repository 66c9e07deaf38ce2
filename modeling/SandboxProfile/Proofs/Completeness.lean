import SandboxProfile.Proofs.GrammarForest
import SandboxProfile.Proofs.ReadKinds

/-!
# What derives is read

Each reader, on the forest of a derivation that does not nest too deep, reports no error and yields
what the derivation means.
-/

namespace SandboxProfile

namespace Reading

open Forest (word group)

variable {α β : Type}

/-- A reading without an error, of a value with a property. -/
def Yields (r : Reading α) (P : α → Prop) : Prop :=
  Harmless r.notes ∧ ∃ x, r.outcome = .ok x ∧ P x

theorem yields_pure {x : α} {P : α → Prop} (h : P x) : Yields (pure x) P :=
  ⟨harmless_nil, x, rfl, h⟩

theorem yields_note {d : Diagnostic} (h : d.isError = false) : Yields (note d) fun _ => True :=
  ⟨by simp [note, h], (), rfl, trivial⟩

theorem yields_bind {r : Reading α} {f : α → Reading β} {P : α → Prop} {Q : β → Prop}
    (hr : Yields r P) (hf : ∀ x, P x → Yields (f x) Q) : Yields (r >>= f) Q := by
  obtain ⟨notes, outcome⟩ := r
  obtain ⟨hnotes, x, rfl, hx⟩ := hr
  obtain ⟨hmore, y, hy, hQ⟩ := hf x hx
  exact ⟨(harmless_append _ _).mpr ⟨hnotes, hmore⟩, y, hy, hQ⟩

theorem yields_map {r : Reading α} {g : α → β} {P : α → Prop} {Q : β → Prop} (hr : Yields r P)
    (hg : ∀ x, P x → Q (g x)) : Yields (g <$> r) Q :=
  yields_bind hr fun x hx => yields_pure (hg x hx)

theorem yields_enter {limit depth : Nat} {o : Token} {items : Forest} {stop : ListEnd}
    (h : depth < limit) : Yields (enter limit depth o items stop) fun _ => True := by
  rw [enter, if_pos h]
  exact yields_pure trivial

theorem yields_inside {r : Reading α} {P : α → Prop} (rest : Forest) (stop : ListEnd)
    (h : Yields r P) : Yields (r.inside rest stop) P := by
  obtain ⟨notes, outcome⟩ := r
  obtain ⟨hnotes, x, rfl, hx⟩ := h
  exact ⟨hnotes, x, rfl, hx⟩

theorem yields_recover {r : Reading α} {P : α → Prop} (h : Yields r P) :
    Yields r.recover fun x? => ∃ x, x? = some x ∧ P x := by
  obtain ⟨notes, outcome⟩ := r
  obtain ⟨hnotes, x, rfl, hx⟩ := h
  exact ⟨hnotes, some x, rfl, x, rfl, hx⟩

variable {limit : Nat}

/-- A list that is entered and read, and would be left out if it could not be read. -/
theorem yields_recover_entered {depth : Nat} {o : Token} {items : Forest} {stop : ListEnd}
    {r : Reading α} {P : α → Prop} (hd : depth < limit) (h : Yields r P) :
    Yields (recover do
      enter limit depth o items stop
      r) fun x? => ∃ x, x? = some x ∧ P x :=
  yields_recover (yields_bind (yields_enter hd) fun _ _ => h)

/-! ### Expressions -/

mutual

theorem yields_exprs_forest : ∀ (x : Grammar.Expr) {depth : Nat} {what : Construct} {c : Token}
    {rest : Forest} {ns : List Wire.Node}, depth + x.depth ≤ limit →
    Yields (exprs limit depth what (.closed c) rest) (fun r => Wire.Node.ofTrees r.1 = ns) →
    Yields (exprs limit depth what (.closed c) (x.forest rest))
      fun r => Wire.Node.ofTrees r.1 = x.node :: ns
  | .integer _, _, _, _, _, _, _, h | .string _, _, _, _, _, _, _, h
  | .rawString _, _, _, _, _, _, _, h | .boolean _, _, _, _, _, _, _, h
  | .symbol _, _, _, _, _, _, _, h =>
    yields_bind h fun _ hmore => yields_pure (congrArg (_ :: ·) hmore)
  | .list items, depth, what, c, rest, ns, hd, h => by
    rw [Grammar.Expr.depth] at hd
    rw [Grammar.Expr.forest, exprs]
    refine yields_bind (yields_enter (by omega)) fun _ _ => ?_
    have hitems : Yields (exprs limit (depth + 1) .list (.closed (.bare .rightParen))
        (Grammar.Expr.forestAll items)) _ := yields_exprs items (by omega)
    refine yields_bind (yields_inside rest (.closed c) hitems) fun ⟨inner, place⟩ hinner => ?_
    refine yields_bind h fun ⟨more, last⟩ hmore => yields_pure ?_
    simp only at hinner hmore
    rw [Wire.Node.ofTrees, Wire.Node.ofTree, hinner, hmore, Grammar.Expr.node]

theorem yields_exprs : ∀ (xs : List Grammar.Expr) {depth : Nat} {what : Construct} {c : Token},
    depth + Grammar.Expr.depthAll xs ≤ limit →
    Yields (exprs limit depth what (.closed c) (Grammar.Expr.forestAll xs))
      fun r => Wire.Node.ofTrees r.1 = Grammar.Expr.nodes xs
  | [], _, _, _, _ => by
    rw [Grammar.Expr.forestAll, exprs]
    exact yields_bind (yields_pure (P := fun _ => True) trivial) fun _ _ => yields_pure rfl
  | x :: xs, depth, what, c, hd => by
    rw [Grammar.Expr.depthAll] at hd
    rw [Grammar.Expr.forestAll, Grammar.Expr.nodes]
    exact yields_exprs_forest x (by omega) (yields_exprs xs (by omega))

end

theorem yields_listTail {xs : List Grammar.Expr} {depth : Nat} {o c : Token}
    (h : depth + Grammar.Expr.depthAll xs ≤ limit) :
    Yields (listTail limit depth o (Grammar.Expr.forestAll xs) (.closed c))
      fun y => Wire.Node.ofTree y = .list (Grammar.Expr.nodes xs) := by
  refine yields_bind (yields_exprs xs h) fun ⟨inner, place⟩ hinner => yields_pure ?_
  simp only at hinner
  rw [Wire.Node.ofTree, hinner]

theorem yields_expr (x : Grammar.Expr) {depth : Nat} {stop : ListEnd} {rest : Forest}
    (h : depth + x.depth ≤ limit) :
    Yields (expr limit depth stop (x.forest rest))
      fun r => Wire.Node.ofTree r.1 = x.node ∧ r.2 = rest := by
  cases x with
  | integer n => exact yields_pure ⟨rfl, rfl⟩
  | string s => exact yields_pure ⟨rfl, rfl⟩
  | rawString s => exact yields_pure ⟨rfl, rfl⟩
  | boolean b => exact yields_pure ⟨rfl, rfl⟩
  | symbol name => exact yields_pure ⟨rfl, rfl⟩
  | list items =>
    rw [Grammar.Expr.depth] at h
    refine yields_bind (yields_enter (by omega)) fun _ _ => ?_
    have hlist : Yields (listTail limit (depth + 1) (.bare .leftParen)
        (Grammar.Expr.forestAll items) (.closed (.bare .rightParen))) _ :=
      yields_listTail (by omega)
    refine yields_bind (yields_inside rest stop hlist) fun y hy => yields_pure ⟨?_, rfl⟩
    rw [hy, Grammar.Expr.node]

/-! ### Filters -/

theorem forest_ne_done (x : Grammar.Expr) (rest : Forest) : x.forest rest ≠ .done := by
  cases x <;> exact nofun

theorem simpleFilter_of_items {depth : Nat} {o type : Token} {name : String} {items : Forest}
    {stop : ListEnd} (h : items ≠ .done) :
    simpleFilter limit depth o type name items stop = (do
      let (value, more) ← expr limit depth stop items
      let (_, place) ← exprs limit depth .filter stop more
      pure (.simple name type.range value ⟨o.range.start, place⟩)) := by
  cases items with
  | done => exact absurd rfl h
  | leaf t rest => rfl
  | list p inner e rest => rfl

theorem yields_simpleFilter (value : Grammar.Expr) (extras : List Grammar.Expr) {depth : Nat}
    {o type c : Token} {name : String}
    (h : depth + Grammar.Expr.depthAll (value :: extras) ≤ limit) :
    Yields (simpleFilter limit depth o type name
        (value.forest (Grammar.Expr.forestAll extras)) (.closed c))
      fun y => Wire.Filter.ofTree y = .ofValue name value.node := by
  rw [Grammar.Expr.depthAll] at h
  rw [simpleFilter_of_items (forest_ne_done _ _)]
  apply yields_bind (yields_expr value (by omega))
  rintro ⟨y, more⟩ ⟨hy, rfl⟩
  refine yields_bind (yields_exprs extras (by omega)) fun _ _ => yields_pure ?_
  simp only at hy
  rw [Wire.Filter.ofTree, hy]

theorem yields_negationEnd (c : Token) :
    Yields (negationEnd .done (.closed c)) fun _ => True :=
  yields_bind (yields_pure (P := fun _ => True) trivial) fun _ _ => yields_pure trivial

/-- A list that does not begin with a symbol is read as an expression. -/
theorem yields_plainFilter (first : Grammar.Expr) (plain : first.isSymbol = false)
    (more : List Grammar.Expr) {depth : Nat} {o c : Token}
    (h : depth + Grammar.Expr.depthAll (first :: more) ≤ limit) :
    Yields (filter limit depth o (.closed c) (first.forest (Grammar.Expr.forestAll more)))
      fun y => Wire.Filter.ofTree y =
        .ofValue Wire.expressionText (.list (Grammar.Expr.nodes (first :: more))) := by
  have hlist : Yields (listTail limit depth o (Grammar.Expr.forestAll (first :: more))
      (.closed c)) _ := yields_listTail h
  have hfilter : filter limit depth o (.closed c) (first.forest (Grammar.Expr.forestAll more)) =
      (do
        let list ← listTail limit depth o (Grammar.Expr.forestAll (first :: more)) (.closed c)
        pure (.expression list)) := by
    cases first with
    | symbol name => cases plain
    | integer n => rfl
    | string s => rfl
    | rawString s => rfl
    | boolean b => rfl
    | list items => rfl
  rw [hfilter]
  refine yields_bind hlist fun y hy => yields_pure ?_
  rw [Wire.Filter.ofTree, hy]

theorem one_le_depth (f : Grammar.Filter) : 1 ≤ f.depth := by
  cases f <;> simp only [Grammar.Filter.depth] <;> omega

theorem of_not_hasParts {name : String} (h : Wire.hasParts name = false) :
    CompoundKind.ofText? name = none ∧ name ≠ negationText := by
  simp only [Wire.hasParts, Bool.or_eq_false_iff, decide_eq_false_iff_not] at h
  exact ⟨Option.not_isSome_iff_eq_none.mp (by simp [h.1]), h.2⟩

mutual

theorem yields_filter : ∀ (f : Grammar.Filter) {depth : Nat} {o c : Token},
    depth + f.depth ≤ limit + 1 →
    Yields (filter limit depth o (.closed c) f.innerForest)
      fun y => Wire.Filter.ofTree y = f.wire
  | .empty, _, _, _, _ => by
    rw [Grammar.Filter.innerForest, filter]
    exact yields_bind (yields_note rfl) fun _ _ => yields_pure rfl
  | .compound kind parts, depth, o, c, h => by
    rw [Grammar.Filter.depth] at h
    rw [Grammar.Filter.innerForest, filter]
    simp only [bare_kind, CompoundKind.ofText?_text]
    refine yields_bind (yields_filters parts (by omega)) fun ⟨ys, place⟩ hys => yields_pure ?_
    simp only at hys
    rw [Wire.Filter.ofTree, hys, Grammar.Filter.wire]
  | .negation part, depth, o, c, h => by
    rw [Grammar.Filter.depth] at h
    have hpos := one_le_depth part
    have hnone : CompoundKind.ofText? negationText = none := rfl
    rw [Grammar.Filter.innerForest, filter]
    simp only [bare_kind, hnone, if_true]
    rw [negation]
    have hpart : Yields (filter limit (depth + 1) (.bare .leftParen)
        (.closed (.bare .rightParen)) part.innerForest) _ := yields_filter part (by omega)
    refine yields_bind (P := fun r => Wire.Filter.ofTree r.1 = part.wire) ?_ fun r hr => ?_
    · refine yields_bind (yields_enter (by omega)) fun _ _ => ?_
      refine yields_bind (yields_inside .done (.closed c) hpart) fun y hy => ?_
      exact yields_bind (yields_negationEnd c) fun _ _ => yields_pure hy
    · refine yields_pure ?_
      rw [Wire.Filter.ofTree, hr, Grammar.Filter.wire]
  | .simple type free value extras, depth, o, c, h => by
    rw [Grammar.Filter.depth] at h
    obtain ⟨hkind, hneg⟩ := of_not_hasParts free
    rw [Grammar.Filter.innerForest, filter]
    simp only [bare_kind, hkind, if_neg hneg]
    rw [Grammar.Filter.wire]
    exact yields_simpleFilter value extras (by omega)
  | .expression first plain more, depth, o, c, h => by
    rw [Grammar.Filter.depth] at h
    rw [Grammar.Filter.innerForest, Grammar.Filter.wire]
    exact yields_plainFilter first plain more (by omega)

theorem yields_filters : ∀ (fs : List Grammar.Filter) {depth : Nat} {kind : CompoundKind}
    {c : Token}, depth + Grammar.Filter.depthAll fs ≤ limit →
    Yields (filters limit depth kind (.closed c) (Grammar.Filter.forestAll fs))
      fun r => Wire.Filter.ofTrees r.1 = Grammar.Filter.wires fs
  | [], _, _, _, _ => by
    rw [Grammar.Filter.forestAll, filters]
    exact yields_bind (yields_pure (P := fun _ => True) trivial) fun _ _ => yields_pure rfl
  | f :: fs, depth, kind, c, h => by
    rw [Grammar.Filter.depthAll] at h
    have hpos := one_le_depth f
    rw [Grammar.Filter.forestAll, filters]
    have hpart : Yields (filter limit (depth + 1) (.bare .leftParen)
        (.closed (.bare .rightParen)) f.innerForest) _ := yields_filter f (by omega)
    apply yields_bind (yields_recover_entered (by omega) hpart)
    rintro _ ⟨y, rfl, hy⟩
    refine yields_bind (yields_filters fs (by omega)) fun ⟨ys, place⟩ hys => yields_pure ?_
    simp only at hys
    change Wire.Filter.ofTrees (y :: ys) = _
    rw [Wire.Filter.ofTrees, hy, hys, Grammar.Filter.wires]

end

theorem yields_ruleItems (is : List Grammar.Item) {c : Token}
    (h : (is.map Grammar.Item.depth).foldr max 0 ≤ limit) :
    Yields (ruleItems limit (.closed c) (Grammar.Item.forestAll is)) fun r =>
      r.1.map Operation.name = is.filterMap Grammar.Item.operation? ∧
        Wire.Filter.ofTrees r.2.1 = is.filterMap Grammar.Item.filter? := by
  induction is with
  | nil =>
    rw [Grammar.Item.forestAll, ruleItems]
    exact yields_bind (yields_pure (P := fun _ => True) trivial) fun _ _ => yields_pure ⟨rfl, rfl⟩
  | cons i is ih =>
    rw [List.map_cons, List.foldr_cons] at h
    have hmore := ih (by omega)
    cases i with
    | operation name =>
      rw [Grammar.Item.forestAll, Grammar.Item.forest, ruleItems]
      apply yields_bind hmore
      rintro ⟨operations, filters, place⟩ ⟨hops, hfilters⟩
      exact yields_pure ⟨congrArg (name :: ·) hops, hfilters⟩
    | filter f =>
      have hpos := one_le_depth f
      have hdepth : f.depth ≤ limit := Nat.le_trans (Nat.le_max_left _ _) h
      rw [Grammar.Item.forestAll, Grammar.Item.forest, ruleItems]
      have hpart : Yields (filter limit 1 (.bare .leftParen) (.closed (.bare .rightParen))
          f.innerForest) _ := yields_filter f (by omega)
      apply yields_bind (yields_recover_entered (by omega) hpart)
      rintro _ ⟨y, rfl, hy⟩
      apply yields_bind hmore
      rintro ⟨operations, filters, place⟩ ⟨hops, hfilters⟩
      refine yields_pure ⟨hops, ?_⟩
      change Wire.Filter.ofTrees (y :: filters) = f.wire :: _
      rw [Wire.Filter.ofTrees, hy, hfilters]

/-! ### Forms -/

variable {start : Position}

theorem yields_definition (name : String) (value : Grammar.Expr) {c : Token} {items : Forest}
    (hname : Yields (definitionName items (.closed c))
      fun r => r.1.1 = name ∧ r.2 = value.forest .done)
    (h : value.depth ≤ limit) :
    Yields (definition limit start items (.closed c))
      fun d => Wire.Definition.ofTree d = ⟨name, value.node⟩ := by
  apply yields_bind hname
  rintro ⟨⟨n, range⟩, rest⟩ ⟨rfl, rfl⟩
  have hread : Yields (do
      let (y, more) ← expr limit 0 (.closed c) (value.forest .done)
      let place ← closing .definition y.range.stop more (.closed c)
      pure (⟨n, range, y, ⟨start, place⟩⟩ : Definition))
      fun d => Wire.Definition.ofTree d = ⟨n, value.node⟩ := by
    apply yields_bind (yields_expr value (by omega))
    rintro ⟨y, more⟩ ⟨hy, rfl⟩
    refine yields_bind (yields_pure (P := fun _ => True) trivial) fun _ _ => yields_pure ?_
    exact congrArg (Wire.Definition.mk n) hy
  cases value <;> exact hread

theorem yields_rule (action : Action) (is : List Grammar.Item) {c : Token}
    (h : (is.map Grammar.Item.depth).foldr max 0 ≤ limit) :
    Yields (rule limit action start (Grammar.Item.forestAll is) (.closed c)) fun r =>
      Wire.Rule.ofTree r =
        ⟨action, is.filterMap Grammar.Item.operation?, is.filterMap Grammar.Item.filter?⟩ := by
  apply yields_bind (yields_ruleItems is h)
  rintro ⟨operations, filters, place⟩ ⟨hops, hfilters⟩
  have hrule : Wire.Rule.ofTree ⟨action, operations, filters, ⟨start, place⟩⟩ =
      ⟨action, is.filterMap Grammar.Item.operation?, is.filterMap Grammar.Item.filter?⟩ := by
    rw [Wire.Rule.ofTree, ← hops, ← hfilters]
    rfl
  simp only
  split
  · exact yields_bind (yields_note rfl) fun _ _ => yields_pure hrule
  · exact yields_pure hrule

theorem yields_debugAction (action : Action) :
    Yields (debugAction (.bare (.symbol action.text))) (· = action) := by
  cases action <;> exact yields_pure rfl

theorem namedForm_unknown {head : String} {range : Range} {items : Forest} {stop : ListEnd}
    (h : head ∉ ["version", "debug", "import", "define", "allow", "deny"]) :
    namedForm limit start head range items stop = (do
      unrecognized head range stop
      pure none) := by
  unfold namedForm
  split <;> first | rfl | exact absurd (by decide) h

/-- What a form declares. -/
theorem yields_declaration (f : Grammar.Form) {o c : Token} (h : f.depth ≤ limit) :
    Yields (declaration limit o f.innerForest (.closed c))
      fun d? => d?.map Wire.Declaration.ofTree = f.declaration? := by
  cases f with
  | empty => exact yields_bind (yields_note rfl) fun _ _ => yields_pure rfl
  | version n => exact yields_pure rfl
  | debug action =>
    refine yields_map (P := fun d => d.action = action) ?_ ?_
    · refine yields_bind (yields_debugAction action) ?_
      rintro _ rfl
      exact yields_pure rfl
    · rintro d rfl
      rfl
  | importPath raw path => cases raw <;> exact yields_pure rfl
  | definition name value =>
    refine yields_map (yields_definition name value (yields_pure ⟨rfl, rfl⟩) h) ?_
    intro d hd
    exact congrArg (fun d => some (Wire.Declaration.definition d)) hd
  | procedure name parameters balanced value =>
    refine yields_map (yields_definition name value (yields_pure ⟨rfl, rfl⟩) h) ?_
    intro d hd
    exact congrArg (fun d => some (Wire.Declaration.definition d)) hd
  | rule action items =>
    have hrule : Yields (rule limit action o.range.start (Grammar.Item.forestAll items)
        (.closed c)) _ := yields_rule action items h
    cases action with
    | allow =>
      refine yields_map hrule fun r hr => ?_
      exact congrArg (fun r => some (Wire.Declaration.rule r)) hr
    | deny =>
      refine yields_map hrule fun r hr => ?_
      exact congrArg (fun r => some (Wire.Declaration.rule r)) hr
  | unknown name other body balanced =>
    change Yields (namedForm limit o.range.start name .zero (.ofKinds body) (.closed c)) _
    rw [namedForm_unknown other]
    refine yields_bind (P := fun _ => True) ?_ fun _ _ => yields_pure rfl
    exact yields_bind (yields_note rfl) fun _ _ => yields_pure trivial

/-! ### Documents -/

/-- The steps of a derivation are harmless and declare what its forms do. -/
theorem steps_forestAll (fs : List Grammar.Form) (h : Grammar.depth fs ≤ limit) :
    (∀ s ∈ steps limit (Grammar.forestAll fs), Harmless s.notes) ∧
      Step.declared (steps limit (Grammar.forestAll fs)) = Grammar.declarations fs := by
  induction fs with
  | nil =>
    rw [Grammar.forestAll, steps_done]
    exact ⟨List.forall_mem_nil _, rfl⟩
  | cons f fs ih =>
    rw [Grammar.depth, List.map_cons, List.foldr_cons] at h
    have hform : Yields (declaration limit (.bare .leftParen) f.innerForest
        (.closed (.bare .rightParen))) _ := yields_declaration f (by omega)
    obtain ⟨hnotes, d?, hok, hd⟩ := hform
    obtain ⟨hmore, hdeclared⟩ := ih (by rw [Grammar.depth]; omega)
    rw [Grammar.forestAll, steps_of_ok hok]
    refine ⟨List.forall_mem_cons.mpr ⟨hnotes, hmore⟩, ?_⟩
    rw [Step.declared_cons, hdeclared, hd, Grammar.declarations_cons]

end Reading

end SandboxProfile
