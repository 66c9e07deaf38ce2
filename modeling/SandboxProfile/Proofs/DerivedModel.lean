import SandboxProfile.Proofs.RoundTrip

/-!
# The wire model of a derivation

What a derivation stands for is legible if its symbols are, nests no deeper than the derivation, and
has no more tokens. It has as many only if no filter of type `expression` was spelled out, for then
the model drops the type.
-/

namespace SandboxProfile

/-- All symbols among some tokens are symbols by themselves. -/
def SymbolsLegible (ks : List TokenKind) : Prop := ∀ name, .symbol name ∈ ks → IsSymbol name

namespace SymbolsLegible

variable {k : TokenKind} {ks ls : List TokenKind}

theorem head {name : String} (h : SymbolsLegible (.symbol name :: ks)) : IsSymbol name :=
  h name (List.mem_cons_self ..)

theorem tail (h : SymbolsLegible (k :: ks)) : SymbolsLegible ks :=
  fun name hname => h name (List.mem_cons_of_mem _ hname)

theorem left (h : SymbolsLegible (ks ++ ls)) : SymbolsLegible ks :=
  fun name hname => h name (List.mem_append_left _ hname)

theorem right (h : SymbolsLegible (ks ++ ls)) : SymbolsLegible ls :=
  fun name hname => h name (List.mem_append_right _ hname)

end SymbolsLegible

/-- The symbols of a text are symbols by themselves. -/
theorem symbolsLegible_ofChars (cs : List Char) : SymbolsLegible (Lexed.ofChars cs).kinds := by
  intro name h
  have hchars := (Spells.symbol (Symbol.isSpelling_of_mem h)).ofChars
  constructor
  · rw [kinds_tokenize, hchars]
    rfl
  · rw [Profile.tokenize_faults_iff, hchars]

namespace Grammar

/-! ### Expressions -/

namespace Expr

mutual

theorem legible_node : ∀ x : Expr, SymbolsLegible x.kinds → x.node.Legible
  | integer _, _ | string _, _ | rawString _, _ | boolean _, _ => nofun
  | symbol name, h => by
    rintro _ ⟨⟩
    exact h.head
  | list items, h => by
    rw [kinds] at h
    exact ⟨nofun, legible_nodes items h.tail.left⟩

theorem legible_nodes : ∀ xs : List Expr, SymbolsLegible (kindsAll xs) →
    Wire.Node.EveryAll (fun y => ∀ name, y = .symbol name → IsSymbol name) (nodes xs)
  | [], _ => trivial
  | x :: xs, h => by
    rw [kindsAll] at h
    exact ⟨legible_node x h.left, legible_nodes xs h.right⟩

end

mutual

theorem depth_node : ∀ x : Expr, x.node.depth = x.depth
  | integer _ | string _ | rawString _ | boolean _ | symbol _ => rfl
  | list items => by rw [node, Wire.Node.depth, depth_nodes items, depth]

theorem depth_nodes : ∀ xs : List Expr, Wire.Node.depthAll (nodes xs) = depthAll xs
  | [] => rfl
  | x :: xs => by rw [nodes, Wire.Node.depthAll, depth_node x, depth_nodes xs, depthAll]

end

mutual

theorem length_node : ∀ x : Expr, x.node.kinds.length = x.kinds.length
  | integer _ | string _ | rawString _ | boolean _ | symbol _ => rfl
  | list items => by
    have hitems := length_nodes items
    simp only [node, Wire.Node.kinds, kinds, List.length_cons, List.length_append]
    omega

theorem length_nodes : ∀ xs : List Expr,
    (Wire.Node.kindsAll (nodes xs)).length = (kindsAll xs).length
  | [] => rfl
  | x :: xs => by
    have hx := length_node x
    have hxs := length_nodes xs
    simp only [nodes, Wire.Node.kindsAll, kindsAll, List.length_append]
    omega

end

theorem isPlainList_nodes {first : Expr} (plain : first.isSymbol = false) (more : List Expr) :
    (Wire.Node.list (nodes (first :: more))).isPlainList = true := by
  cases first with
  | symbol name => cases plain
  | integer _ | string _ | rawString _ | boolean _ | list _ => rfl

end Expr

/-! ### Filters -/

namespace Filter

open Wire (expressionText)

theorem legible_ofValue {type : String} (free : Wire.hasParts type = false)
    (h : IsSymbol type) {value : Wire.Node} (hv : value.Legible) :
    (Wire.Filter.ofValue type value).Legible := by
  have hparts : ((Wire.Filter.ofValue type value).isCompound ||
      (Wire.Filter.ofValue type value).isNegation) = false := free
  rw [Wire.Filter.Legible, hparts, if_neg Bool.false_ne_true]
  exact ⟨h, rfl, value, rfl, hv⟩

theorem isSymbol_expression : IsSymbol expressionText := by
  unfold IsSymbol
  decide +kernel

mutual

theorem legible_wire : ∀ f : Filter, SymbolsLegible f.inner → f.wire.Every Wire.Filter.Legible
  | empty, _ => legible_ofValue rfl isSymbol_expression ⟨nofun, trivial⟩
  | compound kind parts, h => by
    rw [inner] at h
    refine ⟨?_, legible_wires parts h.tail⟩
    cases kind <;> exact ⟨rfl, _, rfl, nofun⟩
  | negation part, h => by
    rw [inner] at h
    exact ⟨⟨rfl, _, rfl, fun _ => rfl⟩, legible_wire part h.tail.tail.left, trivial⟩
  | simple type free value extras, h => by
    rw [inner, Expr.kindsAll] at h
    exact legible_ofValue free h.head (value.legible_node h.tail.left)
  | expression first plain more, h =>
    legible_ofValue rfl isSymbol_expression ⟨nofun, Expr.legible_nodes (first :: more) h⟩

theorem legible_wires : ∀ fs : List Filter, SymbolsLegible (kindsAll fs) →
    Wire.Filter.EveryAll Wire.Filter.Legible (wires fs)
  | [], _ => trivial
  | f :: fs, h => by
    rw [kindsAll] at h
    exact ⟨legible_wire f h.tail.left, legible_wires fs h.tail.right.tail⟩

end

mutual

theorem depth_wire_le : ∀ f : Filter, f.wire.depth ≤ f.depth
  | empty => Nat.le_refl 1
  | compound kind parts => by
    have hparts := depth_wires_le parts
    rw [wire, Wire.Filter.ofFilters, Wire.Filter.depth, depth]
    omega
  | negation part => by
    have hpart := depth_wire_le part
    rw [wire, Wire.Filter.ofFilters, Wire.Filter.depth, Wire.Filter.depthAll, Wire.Filter.depthAll,
      depth]
    omega
  | simple type free value extras => by
    have hvalue := value.depth_node
    rw [wire, Wire.Filter.ofValue, Wire.Filter.depth, depth, Expr.depthAll]
    simp only [Option.elim_some]
    split <;> omega
  | expression first plain more => by
    have hitems := Expr.depth_nodes (first :: more)
    rw [wire, Wire.Filter.ofValue, Wire.Filter.depth, depth, if_pos rfl]
    simp only [Option.elim_some, Wire.Node.depth]
    omega

theorem depth_wires_le : ∀ fs : List Filter, Wire.Filter.depthAll (wires fs) ≤ depthAll fs
  | [] => Nat.le_refl 0
  | f :: fs => by
    have hf := depth_wire_le f
    have hfs := depth_wires_le fs
    rw [wires, Wire.Filter.depthAll, depthAll]
    omega

end

mutual

/-- The model has no more tokens, and as many only if every expression is plain. -/
theorem length_wire : ∀ f : Filter, f.wire.kinds.length ≤ f.kinds.length ∧
    (f.wire.kinds.length = f.kinds.length → f.wire.Every Wire.Filter.Plain)
  | empty => ⟨Nat.le_refl 2, fun _ _ => ⟨_, rfl, rfl⟩⟩
  | compound kind parts => by
    obtain ⟨hle, hplain⟩ := length_wires parts
    simp only [wire, Wire.Filter.ofFilters, Wire.Filter.kinds, kinds, inner, List.length_cons,
      List.length_append] at hle ⊢
    refine ⟨by omega, fun heq => ⟨?_, hplain (by omega)⟩⟩
    cases kind <;> exact nofun
  | negation part => by
    obtain ⟨hle, hplain⟩ := length_wire part
    simp only [wire, Wire.Filter.ofFilters, Wire.Filter.kinds, Wire.Filter.kindsAll, kinds, inner,
      List.length_cons, List.length_append, List.length_nil] at hle hplain ⊢
    exact ⟨by omega, fun heq => ⟨nofun, hplain (by omega), trivial⟩⟩
  | simple type free value extras => by
    have hvalue := value.length_node
    simp only [wire, Wire.Filter.ofValue, Wire.Filter.kinds, Expr.kindsAll, kinds, inner,
      Option.elim_some, List.length_cons, List.length_append, List.length_nil]
    split
    next => exact ⟨by omega, by omega⟩
    next htype =>
      simp only [List.length_cons, List.length_append, List.length_nil]
      exact ⟨by omega, fun _ hexpr => absurd (of_decide_eq_true hexpr) htype⟩
  | expression first plain more => by
    have hitems := Expr.length_nodes (first :: more)
    simp only [wire, Wire.Filter.ofValue, Wire.Filter.kinds, kinds, inner, if_true,
      Option.elim_some, Wire.Node.kinds, List.length_cons, List.length_append, List.length_nil]
    exact ⟨by omega, fun _ _ => ⟨_, rfl, Expr.isPlainList_nodes plain more⟩⟩

theorem length_wires : ∀ fs : List Filter,
    (Wire.Filter.kindsAll (wires fs)).length ≤ (kindsAll fs).length ∧
      ((Wire.Filter.kindsAll (wires fs)).length = (kindsAll fs).length →
        Wire.Filter.EveryAll Wire.Filter.Plain (wires fs))
  | [] => ⟨Nat.le_refl 0, fun _ => trivial⟩
  | f :: fs => by
    obtain ⟨hle, hplain⟩ := length_wire f
    obtain ⟨hle', hplain'⟩ := length_wires fs
    simp only [wires, Wire.Filter.kindsAll, kindsAll, kinds, List.length_cons, List.length_append,
      List.length_nil] at hle hplain ⊢
    exact ⟨by omega, fun heq => ⟨hplain (by omega), hplain' (by omega)⟩⟩

end

end Filter

/-! ### Forms -/

namespace Item

theorem legible_items (is : List Item) (h : SymbolsLegible (is.flatMap kinds)) :
    (∀ name ∈ is.filterMap operation?, IsSymbol name) ∧
      Wire.Filter.EveryAll Wire.Filter.Legible (is.filterMap filter?) := by
  induction is with
  | nil => exact ⟨nofun, trivial⟩
  | cons i is ih =>
    rw [List.flatMap_cons] at h
    obtain ⟨hops, hfilters⟩ := ih h.right
    cases i with
    | operation name => exact ⟨List.forall_mem_cons.mpr ⟨h.left.head, hops⟩, hfilters⟩
    | filter f => exact ⟨hops, f.legible_wire h.left.tail.left, hfilters⟩

theorem depth_items_le (is : List Item) :
    Wire.Filter.depthAll (is.filterMap filter?) ≤ (is.map depth).foldr max 0 := by
  induction is with
  | nil => exact Nat.le_refl 0
  | cons i is ih =>
    cases i with
    | operation name => exact Nat.le_trans ih (Nat.le_max_right _ _)
    | filter f => exact Nat.max_le.mpr ⟨Nat.le_trans f.depth_wire_le (Nat.le_max_left _ _),
        Nat.le_trans ih (Nat.le_max_right _ _)⟩

theorem length_items (is : List Item) :
    (is.filterMap operation?).length + (Wire.Filter.kindsAll (is.filterMap filter?)).length ≤
        (is.flatMap kinds).length ∧
      ((is.filterMap operation?).length + (Wire.Filter.kindsAll (is.filterMap filter?)).length =
          (is.flatMap kinds).length →
        Wire.Filter.EveryAll Wire.Filter.Plain (is.filterMap filter?)) := by
  induction is with
  | nil => exact ⟨Nat.le_refl 0, fun _ => trivial⟩
  | cons i is ih =>
    obtain ⟨hle, hplain⟩ := ih
    cases i with
    | operation name =>
      simp only [List.filterMap_cons, operation?, filter?, List.flatMap_cons, kinds,
        List.length_cons, List.length_append, List.length_nil]
      exact ⟨by omega, fun heq => hplain (by omega)⟩
    | filter f =>
      obtain ⟨hle', hplain'⟩ := f.length_wire
      simp only [List.filterMap_cons, operation?, filter?, List.flatMap_cons, kinds,
        Wire.Filter.kindsAll, List.length_append]
      exact ⟨by omega, fun heq => ⟨hplain' (by omega), hplain (by omega)⟩⟩

end Item

namespace Form

variable {f : Form} {d : Wire.Declaration}

theorem legible_declaration (hd : f.declaration? = some d) (h : SymbolsLegible f.inner) :
    d.Legible := by
  cases f with
  | empty => cases hd
  | version n | debug action | importPath raw path =>
    cases hd
    trivial
  | definition name value =>
    cases hd
    exact ⟨h.tail.head, value.legible_node h.tail.tail⟩
  | procedure name parameters balanced value =>
    cases hd
    exact ⟨h.tail.tail.head, value.legible_node h.tail.tail.tail.right.tail⟩
  | rule action items =>
    cases hd
    exact Item.legible_items items h.tail
  | unknown name other body balanced => cases hd

theorem depth_declaration_le (hd : f.declaration? = some d) : d.depth ≤ f.depth := by
  cases f with
  | empty => cases hd
  | version n | debug action | importPath raw path =>
    cases hd
    exact Nat.le_refl 0
  | definition name value =>
    cases hd
    exact Nat.le_of_eq value.depth_node
  | procedure name parameters balanced value =>
    cases hd
    exact Nat.le_of_eq value.depth_node
  | rule action items =>
    cases hd
    exact Item.depth_items_le items
  | unknown name other body balanced => cases hd

theorem length_declaration (hd : f.declaration? = some d) :
    d.kinds.length ≤ f.kinds.length ∧ (d.kinds.length = f.kinds.length → d.Plain) := by
  cases f with
  | empty => cases hd
  | version n | debug action | importPath raw path =>
    cases hd
    exact ⟨Nat.le_refl _, fun _ => trivial⟩
  | definition name value =>
    cases hd
    have hvalue := value.length_node
    simp only [Wire.Declaration.kinds, Wire.Declaration.inner, kinds, inner, List.length_cons,
      List.length_append]
    exact ⟨by omega, fun _ => trivial⟩
  | procedure name parameters balanced value =>
    cases hd
    have hvalue := value.length_node
    simp only [Wire.Declaration.kinds, Wire.Declaration.inner, kinds, inner, List.length_cons,
      List.length_append]
    exact ⟨by omega, fun _ => trivial⟩
  | rule action items =>
    cases hd
    obtain ⟨hle, hplain⟩ := Item.length_items items
    simp only [Wire.Declaration.kinds, Wire.Declaration.inner, kinds, inner, List.length_cons,
      List.length_append, List.length_map]
    exact ⟨by omega, fun heq => hplain (by omega)⟩
  | unknown name other body balanced => cases hd

end Form

/-! ### Profiles -/

theorem legible_declarations (fs : List Form) (h : SymbolsLegible (kinds fs)) :
    ∀ d ∈ declarations fs, d.Legible := by
  intro d hd
  obtain ⟨f, hf, hdeclaration⟩ := List.mem_filterMap.mp hd
  have hkinds : SymbolsLegible f.kinds :=
    fun name hname => h name (List.mem_flatMap.mpr ⟨f, hf, hname⟩)
  exact f.legible_declaration hdeclaration hkinds.tail.left

theorem depth_declarations_le {limit : Nat} (fs : List Form) (h : depth fs ≤ limit) :
    ∀ d ∈ declarations fs, d.depth ≤ limit := by
  induction fs with
  | nil => exact nofun
  | cons f fs ih =>
    rw [depth, List.map_cons, List.foldr_cons, ← depth, Nat.max_le] at h
    rw [declarations_cons, List.forall_mem_append]
    refine ⟨?_, ih h.2⟩
    intro d hd
    exact Nat.le_trans (f.depth_declaration_le (Option.mem_toList.mp hd)) h.1

theorem length_declarations (fs : List Form) :
    ((declarations fs).flatMap Wire.Declaration.kinds).length ≤ (kinds fs).length ∧
      (((declarations fs).flatMap Wire.Declaration.kinds).length = (kinds fs).length →
        ∀ d ∈ declarations fs, d.Plain) := by
  induction fs with
  | nil => exact ⟨Nat.le_refl 0, fun _ => nofun⟩
  | cons f fs ih =>
    obtain ⟨hle, hplain⟩ := ih
    rw [declarations_cons, kinds, List.flatMap_cons, ← kinds, List.flatMap_append,
      List.length_append, List.length_append, List.forall_mem_append]
    cases hd : f.declaration? with
    | none =>
      have hzero : ((none : Option Wire.Declaration).toList.flatMap
        Wire.Declaration.kinds).length = 0 := rfl
      have hpos : 0 < f.kinds.length := Nat.succ_pos _
      exact ⟨by omega, fun heq => by omega⟩
    | some d =>
      obtain ⟨hle', hplain'⟩ := f.length_declaration hd
      rw [Option.toList_some, List.flatMap_singleton, List.forall_mem_singleton]
      exact ⟨by omega, fun heq => ⟨hplain' (by omega), hplain (by omega)⟩⟩

end Grammar

namespace Wire

theorem Declaration.eq_version {d : Declaration} {n : Int64} (h : d.version? = some n) :
    d = .version n := by
  cases d <;> cases h
  rfl

theorem Declaration.eq_debugMode {d : Declaration} {a : Action} (h : d.debugMode? = some a) :
    d = .debugMode a := by
  cases d <;> cases h
  rfl

theorem Declaration.eq_importPath {d : Declaration} {path : String}
    (h : d.importPath? = some path) : d = .importPath path := by
  cases d <;> cases h
  rfl

theorem Declaration.eq_definition {d : Declaration} {e : Definition}
    (h : d.definition? = some e) : d = .definition e := by
  cases d <;> cases h
  rfl

theorem Declaration.eq_rule {d : Declaration} {r : Rule} (h : d.rule? = some r) :
    d = .rule r := by
  cases d <;> cases h
  rfl

namespace Profile

/-- A profile has no declarations but those it is made of. -/
theorem mem_of_mem_declarations {ds : List Declaration} {d : Declaration}
    (h : d ∈ (ofDeclarations ds).declarations) : d ∈ ds := by
  simp only [declarations, front, ofDeclarations, List.mem_append, List.mem_map,
    Option.mem_toList, List.mem_filterMap, List.findSome?_eq_some_iff] at h
  rcases h with
    ((((⟨n, ⟨ds₁, e, ds₂, rfl, hn, -⟩, rfl⟩ | ⟨a, ⟨ds₁, e, ds₂, rfl, ha, -⟩, rfl⟩) |
      ⟨path, ⟨e, he, hpath⟩, rfl⟩) | ⟨f, ⟨e, he, hf⟩, rfl⟩) | ⟨r, ⟨e, he, hr⟩, rfl⟩)
  · rw [← Declaration.eq_version hn]
    simp
  · rw [← Declaration.eq_debugMode ha]
    simp
  · rwa [← Declaration.eq_importPath hpath]
  · rwa [← Declaration.eq_definition hf]
  · rwa [← Declaration.eq_rule hr]

theorem length_ofDeclarations_le (ds : List Declaration) :
    (ofDeclarations ds).kinds.length ≤ (ds.flatMap Declaration.kinds).length := by
  induction ds with
  | nil => exact Nat.le_refl 0
  | cons d ds ih =>
    rw [List.flatMap_cons, List.length_append]
    refine Nat.le_trans ?_ (Nat.add_le_add_left ih _)
    cases d <;>
      simp only [kinds, declarations, front, ofDeclarations, List.findSome?_cons,
        List.filterMap_cons, Declaration.version?, Declaration.debugMode?, Declaration.importPath?,
        Declaration.definition?, Declaration.rule?, List.flatMap_append, List.length_append,
        Option.toList_some, List.map_cons, List.map_nil, List.flatMap_cons, List.flatMap_nil,
        List.length_nil] <;>
      omega

end Profile

end Wire

end SandboxProfile
