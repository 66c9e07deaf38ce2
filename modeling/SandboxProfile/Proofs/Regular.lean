import SandboxProfile.Proofs.Declared
import SandboxProfile.Proofs.DerivedModel

/-!
# Trees that reading yields

Whatever a text is, its tree is regular (`Profile.regular_read`): each of its names is one symbol by
itself, a filter with a type has none of the types that other filters have, a filter without one is
a list that does not begin with a symbol, and nothing is quoted. A reader takes names from symbols
of its forest, and these are symbols of the text, after a form that was given up as well.
-/

namespace SandboxProfile

/-! ### Regular trees -/

namespace Expr

mutual

/-- Whether all symbols of an expression are symbols by themselves, and nothing in it is quoted. -/
def Regular : Expr → Prop
  | symbol name _ => IsSymbol name
  | list items _ => RegularAll items
  | quoted .. => False
  | integer .. | string .. | rawString .. | boolean .. => True

def RegularAll : List Expr → Prop
  | [] => True
  | x :: xs => x.Regular ∧ RegularAll xs

end

end Expr

namespace Filter

mutual

/-- Whether a filter is what reading yields: with a type that is a symbol and not one of compound
filters or negations, or a list that does not begin with a symbol, or made up of such filters. -/
def Regular : Filter → Prop
  | simple type _ value _ =>
    IsSymbol type ∧ (∀ kind : CompoundKind, type ≠ kind.text) ∧ type ≠ negationText ∧ value.Regular
  | compound _ filters _ => RegularAll filters
  | negation filter _ => filter.Regular
  | expression value => value.Regular ∧
    ∃ items, value.items? = some items ∧ ∀ x ∈ items.head?, x.symbol? = none

def RegularAll : List Filter → Prop
  | [] => True
  | f :: fs => f.Regular ∧ RegularAll fs

end

end Filter

/-- Whether all names of a declaration are symbols by themselves, and its parts are regular. -/
def Declaration.Regular : Declaration → Prop
  | version _ | debug _ | importPath _ => True
  | definition x => IsSymbol x.name ∧ x.value.Regular
  | rule r => (∀ o ∈ r.operations, IsSymbol o.name) ∧ Filter.RegularAll r.filters

structure Profile.Regular (p : Profile) : Prop where
  names : ∀ x ∈ p.definitions, IsSymbol x.name
  values : ∀ x ∈ p.definitions, x.value.Regular
  operations : ∀ r ∈ p.rules, ∀ o ∈ r.operations, IsSymbol o.name
  filters : ∀ r ∈ p.rules, Filter.RegularAll r.filters

/-! ### Legible forests -/

namespace Forest

/-- Whether all symbols of a forest are symbols by themselves. -/
def Legible (f : Forest) : Prop := ∀ t ∈ f.tokens, ∀ name, t.kind = .symbol name → IsSymbol name

variable {f u inner behind : Forest} {t o : Token} {e : ListEnd}

theorem Legible.mono (h : f.Legible) (hu : ∀ t ∈ u.tokens, t ∈ f.tokens) : u.Legible :=
  fun t ht => h t (hu t ht)

theorem Legible.first (h : (leaf t behind).Legible) {name : String} (ht : t.kind = .symbol name) :
    IsSymbol name :=
  h t (List.mem_cons_self ..) name ht

theorem Legible.tail (h : (leaf t behind).Legible) : behind.Legible :=
  h.mono fun _ ht => List.mem_cons_of_mem _ ht

theorem Legible.items (h : (list o inner e behind).Legible) : inner.Legible :=
  h.mono fun _ ht => List.mem_cons_of_mem _ (List.mem_append_left _ ht)

theorem Legible.rest (h : (list o inner e behind).Legible) : behind.Legible :=
  h.mono fun _ ht => List.mem_cons_of_mem _ (List.mem_append_right _ (List.mem_append_right _ ht))

end Forest

/-- The symbols of a text are symbols by themselves. -/
theorem Forest.legible_ofTokens (text : String) : (ofTokens (tokenize text).1).Legible := by
  intro t ht name hname
  rw [ofTokens, tokens_ofOwn _ rfl] at ht
  have hkind : TokenKind.symbol name ∈ (tokenize text).1.map Token.kind := by
    rw [← hname]
    exact List.mem_map_of_mem (List.takeWhile_subset _ ht)
  rw [kinds_tokenize] at hkind
  rcases List.mem_append.mp hkind with hkind | hend
  · exact symbolsLegible_ofChars _ name hkind
  · cases List.mem_singleton.mp hend

namespace Reading

variable {limit depth : Nat} {items : Forest} {stop : ListEnd}

/-! ### Expressions -/

theorem regular_of_token {t : Token} {x : Expr}
    (ht : ∀ name, t.kind = .symbol name → IsSymbol name) (h : Expr.ofToken? t = some x) :
    x.Regular := by
  unfold Expr.ofToken? at h
  split at h <;> cases h
  · trivial
  · trivial
  · trivial
  · trivial
  next name hkind => exact ht name hkind

/-- Whether a forest does not begin with a symbol. -/
def Unnamed : Forest → Prop
  | .leaf t _ => ∀ name, t.kind ≠ .symbol name
  | .done | .list .. => True

theorem symbol?_of_token {t : Token} {x : Expr} (ht : ∀ name, t.kind ≠ .symbol name)
    (h : Expr.ofToken? t = some x) : x.symbol? = none := by
  unfold Expr.ofToken? at h
  split at h <;> cases h
  · rfl
  · rfl
  · rfl
  · rfl
  next name hkind => exact absurd hkind (ht name)

/-- Expressions of a legible forest are regular, and the first is a symbol only where the forest
begins with one. -/
theorem regular_exprs {what : Construct} (h : items.Legible) :
    Gives (fun y => Expr.RegularAll y.1 ∧ (Unnamed items → ∀ x ∈ y.1.head?, x.symbol? = none))
      (exprs limit depth what stop items) := by
  induction items generalizing depth what stop with
  | done =>
    rw [exprs]
    exact ensures_bind (gives_any _) fun _ _ => ensures_pure ⟨trivial, fun _ => nofun⟩
  | leaf t rest ih =>
    rw [exprs]
    split
    next atom hatom =>
      refine ensures_bind (ih h.tail) ?_
      rintro ⟨more, place⟩ hmore
      have hfirst : Unnamed (.leaf t rest) → ∀ x ∈ some atom, x.symbol? = none := by
        rintro hunnamed _ ⟨⟩
        exact symbol?_of_token hunnamed hatom
      exact ensures_pure ⟨⟨regular_of_token (fun _ => h.first) hatom, hmore.1⟩, hfirst⟩
    next => exact gives_expected _ _ _
  | list o inner e rest ihi ihr =>
    rw [exprs]
    refine ensures_bind (gives_any _) fun _ _ => ?_
    refine ensures_bind (ensures_inside rest stop (ihi h.items)) ?_
    rintro ⟨xs, place⟩ hxs
    refine ensures_bind (ihr h.rest) ?_
    rintro ⟨more, last⟩ hmore
    have hfirst : ∀ x ∈ some (Expr.list xs ⟨o.range.start, place⟩), x.symbol? = none := by
      rintro _ ⟨⟩
      rfl
    exact ensures_pure ⟨⟨hxs.1, hmore.1⟩, fun _ => hfirst⟩

theorem regular_listTail {o : Token} (h : items.Legible) :
    Gives (fun x => x.Regular ∧ (Unnamed items → (Filter.expression x).Regular))
      (listTail limit depth o items stop) := by
  refine ensures_bind (regular_exprs h) ?_
  rintro ⟨xs, place⟩ hxs
  exact ensures_pure ⟨hxs.1, fun hunnamed => ⟨hxs.1, xs, rfl, hxs.2 hunnamed⟩⟩

theorem regular_expr (h : items.Legible) :
    Gives (fun y => y.1.Regular ∧ y.2.Legible) (expr limit depth stop items) := by
  unfold expr
  split
  next t rest =>
    split
    next atom hatom =>
      exact ensures_pure ⟨regular_of_token (fun _ => h.first) hatom, h.tail⟩
    next => exact gives_expected _ _ _
  next o inner e rest =>
    refine ensures_bind (gives_any _) fun _ _ => ?_
    refine ensures_bind (ensures_inside rest stop (regular_listTail h.items)) fun x hx => ?_
    exact ensures_pure ⟨hx.1, h.rest⟩
  next => exact gives_expected _ _ _

/-! ### Filters -/

theorem regularAll_add {f? : Option Filter} {fs : List Filter} (hf : ∀ f ∈ f?, f.Regular)
    (hfs : Filter.RegularAll fs) : Filter.RegularAll (f?.toList ++ fs) := by
  cases f? with
  | none => exact hfs
  | some f => exact ⟨hf f rfl, hfs⟩

theorem ne_text_of_ofText? {name : String} (h : CompoundKind.ofText? name = none) :
    ∀ kind : CompoundKind, name ≠ kind.text := by
  rintro kind rfl
  rw [CompoundKind.ofText?_text] at h
  cases h

theorem regular_simpleFilter {o type : Token} {name : String} (hname : IsSymbol name)
    (hcompound : CompoundKind.ofText? name = none) (hnegation : name ≠ negationText)
    (h : items.Legible) :
    Gives Filter.Regular (simpleFilter limit depth o type name items stop) := by
  unfold simpleFilter
  split
  · exact ensures_giveUp trivial _ _
  · exact gives_unclosed _ _ _ _
  · refine ensures_bind (regular_expr h) ?_
    rintro ⟨value, more⟩ hvalue
    refine ensures_bind (gives_any _) ?_
    rintro ⟨extras, place⟩ -
    exact ensures_pure ⟨hname, ne_text_of_ofText? hcompound, hnegation, hvalue.1⟩

mutual

theorem regular_filter : ∀ (items : Forest) {depth : Nat} {o : Token} {stop : ListEnd},
    items.Legible → Gives Filter.Regular (filter limit depth o stop items)
  | .done, depth, o, .closed c, h => by
    rw [filter]
    exact ensures_bind (gives_any _) fun _ _ => ensures_pure ⟨trivial, [], rfl, nofun⟩
  | .done, depth, o, .endOfFile r last, h => by
    rw [filter]
    exact ensures_bind (regular_listTail h) fun x hx => ensures_pure (hx.2 trivial)
  | .leaf t rest, depth, o, stop, h => by
    rw [filter]
    split
    next name hkind =>
      split
      next kind hcompound =>
        refine ensures_bind (regular_filters rest h.tail) ?_
        rintro ⟨parts, place⟩ hparts
        exact ensures_pure hparts
      next hsimple =>
        split
        · refine ensures_bind (regular_negation rest h.tail) ?_
          rintro ⟨part, place⟩ hpart
          exact ensures_pure hpart
        next hnegation =>
          exact regular_simpleFilter (h.first hkind) hsimple hnegation h.tail
    next hkind =>
      exact ensures_bind (regular_listTail h) fun x hx => ensures_pure (hx.2 hkind)
  | .list p inner e rest, depth, o, stop, h => by
    rw [filter]
    exact ensures_bind (regular_listTail h) fun x hx => ensures_pure (hx.2 trivial)

theorem regular_negation : ∀ (items : Forest) {depth : Nat} {stop : ListEnd},
    items.Legible → Gives (fun y => y.1.Regular) (negation limit depth stop items)
  | .done, depth, .closed c, h => by
    rw [negation]
    exact ensures_giveUp trivial _ _
  | .done, depth, .endOfFile r last, h => by
    rw [negation]
    exact gives_unclosed _ _ _ _
  | .leaf t rest, depth, stop, h => by
    rw [negation]
    exact gives_expected _ _ _
  | .list o inner e extras, depth, stop, h => by
    rw [negation]
    refine ensures_bind (gives_any _) fun _ _ => ?_
    refine ensures_bind (ensures_inside extras stop (regular_filter inner h.items))
      fun part hpart => ?_
    exact ensures_bind (gives_any _) fun _ _ => ensures_pure hpart

theorem regular_filters : ∀ (items : Forest) {depth : Nat} {kind : CompoundKind} {stop : ListEnd},
    items.Legible → Gives (fun y => Filter.RegularAll y.1) (filters limit depth kind stop items)
  | .done, depth, kind, stop, h => by
    rw [filters]
    exact ensures_bind (gives_any _) fun _ _ => ensures_pure trivial
  | .leaf t rest, depth, kind, stop, h => by
    rw [filters]
    exact ensures_bind (gives_any _) fun _ _ => regular_filters rest h.tail
  | .list o inner e rest, depth, kind, stop, h => by
    have hpart : Gives Filter.Regular (do
        enter limit depth o inner e
        filter limit (depth + 1) o e inner) :=
      ensures_bind (gives_any _) fun _ _ => regular_filter inner h.items
    rw [filters]
    refine ensures_bind (ensures_recover hpart) fun part hpart => ?_
    refine ensures_bind (regular_filters rest h.rest) ?_
    rintro ⟨more, place⟩ hmore
    exact ensures_pure (regularAll_add hpart hmore)

end

/-! ### Declarations -/

theorem regular_ruleItems (h : items.Legible) :
    Gives (fun y => (∀ o ∈ y.1, IsSymbol o.name) ∧ Filter.RegularAll y.2.1)
      (ruleItems limit stop items) := by
  induction items with
  | done =>
    rw [ruleItems]
    exact ensures_bind (gives_any _) fun _ _ => ensures_pure ⟨List.forall_mem_nil _, trivial⟩
  | leaf t rest ih =>
    rw [ruleItems]
    split
    next name hkind =>
      refine ensures_bind (ih h.tail) ?_
      rintro ⟨operations, filters, place⟩ hmore
      exact ensures_pure ⟨List.forall_mem_cons.mpr ⟨h.first hkind, hmore.1⟩, hmore.2⟩
    next => exact ensures_giveUp trivial _ _
  | list o inner e rest _ ih =>
    have hpart : Gives Filter.Regular (do
        enter limit 0 o inner e
        filter limit 1 o e inner) :=
      ensures_bind (gives_any _) fun _ _ => regular_filter inner h.items
    rw [ruleItems]
    refine ensures_bind (ensures_recover hpart) fun part hpart => ?_
    refine ensures_bind (ih h.rest) ?_
    rintro ⟨operations, filters, place⟩ hmore
    exact ensures_pure ⟨hmore.1, regularAll_add hpart hmore.2⟩

theorem regular_rule {action : Action} {start : Position} (h : items.Legible) :
    Gives (fun r => (Declaration.rule r).Regular) (rule limit action start items stop) := by
  refine ensures_bind (regular_ruleItems h) ?_
  rintro ⟨operations, filters, place⟩ hitems
  simp only
  split
  · exact ensures_bind (gives_any _) fun _ _ => ensures_pure hitems
  · exact ensures_pure hitems

theorem regular_definitionName (h : items.Legible) :
    Gives (fun y => IsSymbol y.1.1 ∧ y.2.Legible) (definitionName items stop) := by
  unfold definitionName
  split
  · exact ensures_giveUp trivial _ _
  next t rest =>
    split
    next name hkind => exact ensures_pure ⟨h.first hkind, h.tail⟩
    next => exact gives_expected _ _ _
  next p head e rest =>
    have hhead : Gives (fun y => IsSymbol y.1) (definitionHead head e) := by
      unfold definitionHead
      split
      · split
        next name c hkind => exact ensures_pure (h.items.first hkind)
        · exact gives_unclosed _ _ _ _
        · exact gives_expected _ _ _
      · exact gives_expected _ _ _
    exact ensures_bind (ensures_inside rest stop hhead) fun name hname =>
      ensures_pure ⟨hname, h.rest⟩

theorem regular_definition {start : Position} (h : items.Legible) :
    Gives (fun x => (Declaration.definition x).Regular) (definition limit start items stop) := by
  refine ensures_bind (regular_definitionName h) ?_
  rintro ⟨⟨name, range⟩, rest⟩ hname
  simp only
  split
  · exact ensures_giveUp trivial _ _
  · refine ensures_bind (regular_expr hname.2) ?_
    rintro ⟨value, more⟩ hvalue
    exact ensures_bind (gives_any _) fun _ _ => ensures_pure ⟨hname.1, hvalue.1⟩

/-! ### Profiles -/

theorem regular_declares (limit : Nat) :
    Declares limit (fun t => ∀ name, t.kind = .symbol name → IsSymbol name)
      Declaration.Regular where
  version _ := trivial
  debug _ := trivial
  importPath _ := trivial
  definition _ _ _ h := regular_definition h
  rule _ _ _ _ h := regular_rule h

/-- What is declared by the steps of a legible forest is regular. -/
theorem regular_steps (limit : Nat) {f : Forest} (h : f.Legible) :
    ∀ x ∈ (steps limit f).filterMap (·.declaration?), x.Regular :=
  forall_declared (regular_declares limit) f h

end Reading

/-- Whatever the text and the limit, the profile is regular: every name in it is one symbol by
itself, no filter with a type has that of a compound filter or of a negation, every other filter is
a list that does not begin with a symbol, and nothing is quoted. -/
theorem Profile.regular_read (limit : Nat) (text : String) :
    (read limit text).profile.Regular := by
  have hsteps := Reading.regular_steps limit (Forest.legible_ofTokens text)
  have hdefinition : ∀ x ∈ (read limit text).profile.definitions,
      (Declaration.definition x).Regular := by
    intro x hx
    obtain ⟨y, hy, hx⟩ := List.mem_filterMap.mp hx
    have hregular := hsteps y hy
    cases y <;> cases hx
    exact hregular
  have hrule : ∀ r ∈ (read limit text).profile.rules, (Declaration.rule r).Regular := by
    intro r hr
    obtain ⟨y, hy, hr⟩ := List.mem_filterMap.mp hr
    have hregular := hsteps y hy
    cases y <;> cases hr
    exact hregular
  exact ⟨fun x hx => (hdefinition x hx).1, fun x hx => (hdefinition x hx).2,
    fun r hr => (hrule r hr).1, fun r hr => (hrule r hr).2⟩

end SandboxProfile
