import SandboxProfile.Proofs.DepthLimit
import SandboxProfile.Proofs.JsonRoute

/-!
# How deep the wire format nests

A filter inside a filter takes two levels on the wire, an object and the array that it stands in,
where a text counts one. The root, its rules, one of them and its filters take four levels more, and
what is no array or object counts as a level as well. So a value may nest deeper than is read from
values, although the limit for these is twice that for texts: that happens to texts with as few as
252 filters inside each other, and to every text with 255 (`Wire.Profile.ofJson_read_iff`).
-/

namespace SandboxProfile

/-! ### Values -/

namespace Json

theorem depthItems_le_iff {n : Nat} {xs : List Json} :
    depthItems xs ≤ n ↔ ∀ x ∈ xs, x.depth ≤ n := by
  induction xs with
  | nil => exact iff_of_true (Nat.zero_le n) (List.forall_mem_nil _)
  | cons x xs ih => rw [depthItems, Nat.max_le, ih, List.forall_mem_cons]

theorem depth_array_le_iff {n : Nat} {xs : List Json} :
    (array xs).depth ≤ n + 1 ↔ ∀ x ∈ xs, x.depth ≤ n := by
  rw [← depthItems_le_iff, depth]
  omega

theorem depth_object_le_iff {n : Nat} {fields : List (String × Json)} :
    (object fields).depth ≤ n + 1 ↔ ∀ f ∈ fields, f.2.depth ≤ n := by
  rw [← depthFields_le_iff, depth]
  omega

section Fields

variable {α : Type} {name : String} {encode : α → Json} {n : Nat}

theorem depth_fieldOf_le_iff {x : Option α} :
    (∀ f ∈ sortedFields (fieldOf name encode x), f.2.depth ≤ n) ↔
      ∀ y ∈ x, (encode y).sorted.depth ≤ n := by
  cases x with
  | none => exact iff_of_true (List.forall_mem_nil _) nofun
  | some y =>
    show (∀ f ∈ [(name, (encode y).sorted)], f.2.depth ≤ n) ↔ _
    rw [List.forall_mem_singleton]
    exact ⟨fun h _ heq => Option.some.inj heq ▸ h, fun h => h y rfl⟩

theorem depth_items_le_iff {xs : List α} :
    (array (xs.map encode)).sorted.depth ≤ n + 1 ↔ ∀ x ∈ xs, (encode x).sorted.depth ≤ n := by
  rw [sorted, sortedItems_map, depth_array_le_iff, List.forall_mem_map]

theorem depth_fieldOfList_le_iff {xs : List α} :
    (∀ f ∈ sortedFields (fieldOfList name encode xs), f.2.depth ≤ n + 1) ↔
      ∀ x ∈ xs, (encode x).sorted.depth ≤ n := by
  cases xs with
  | nil => exact iff_of_true (List.forall_mem_nil _) (List.forall_mem_nil _)
  | cons x xs =>
    show (∀ f ∈ [(name, (array ((x :: xs).map encode)).sorted)], f.2.depth ≤ n + 1) ↔ _
    rw [List.forall_mem_singleton, depth_items_le_iff]

end Fields

end Json

/-! ### Levels of a tree -/

namespace Expr

mutual

/-- How many levels an expression takes on the wire, one for a scalar. -/
def levels : Expr → Nat
  | list items _ => 1 + levelsAll items
  | quoted inner _ => 1 + inner.levels
  | integer .. | string .. | rawString .. | boolean .. | symbol .. => 1

def levelsAll : List Expr → Nat
  | [] => 0
  | x :: xs => max x.levels (levelsAll xs)

end

theorem levels_pos (x : Expr) : 0 < x.levels := by
  cases x <;> simp only [levels] <;> omega

mutual

/-- What is no list is a level below the deepest list. -/
theorem levels_le_depth : (x : Expr) → x.levels ≤ x.depth + 1
  | list items _ => by
    have hitems := levelsAll_le_depthAll items
    simp only [levels, depth]
    omega
  | quoted inner _ => by
    have hinner := levels_le_depth inner
    simp only [levels, depth]
    omega
  | integer .. | string .. | rawString .. | boolean .. | symbol .. => Nat.le_refl 1

theorem levelsAll_le_depthAll : (xs : List Expr) → levelsAll xs ≤ depthAll xs + 1
  | [] => Nat.zero_le _
  | x :: xs => by
    have hx := levels_le_depth x
    have hxs := levelsAll_le_depthAll xs
    simp only [levelsAll, depthAll]
    omega

end

end Expr

namespace Filter

mutual

/-- How many levels a filter takes on the wire. Its type or value is the level below the filter, and
filters inside it are two levels below. -/
def levels : Filter → Nat
  | simple _ _ value _ | expression value => 1 + value.levels
  | compound _ filters _ => 2 + levelsAll filters
  | negation filter _ => 2 + filter.levels

def levelsAll : List Filter → Nat
  | [] => 0
  | f :: fs => max f.levels (levelsAll fs)

end

mutual

theorem two_mul_depth_le_levels : (f : Filter) → 2 * f.depth ≤ f.levels
  | simple _ _ value _ | expression value => by
    have hvalue := value.levels_pos
    simp only [depth, levels]
    omega
  | compound _ filters _ => by
    have hfilters := two_mul_depthAll_le_levelsAll filters
    simp only [depth, levels]
    omega
  | negation filter _ => by
    have hfilter := two_mul_depth_le_levels filter
    simp only [depth, levels]
    omega

theorem two_mul_depthAll_le_levelsAll : (fs : List Filter) → 2 * depthAll fs ≤ levelsAll fs
  | [] => Nat.le_refl 0
  | f :: fs => by
    have hf := two_mul_depth_le_levels f
    have hfs := two_mul_depthAll_le_levelsAll fs
    simp only [depthAll, levelsAll]
    omega

end

mutual

/-- A level of filters counts twice, one of lists once. -/
theorem levels_le_depth_add_nesting : (f : Filter) → f.levels ≤ f.depth + f.nesting + 1
  | simple _ _ value _ | expression value => by
    have hvalue := value.levels_le_depth
    simp only [levels, depth, nesting]
    omega
  | compound _ filters _ => by
    have hfilters := levelsAll_le_depthAll_add_nestingAll filters
    simp only [levels, depth, nesting]
    omega
  | negation filter _ => by
    have hfilter := levels_le_depth_add_nesting filter
    simp only [levels, depth, nesting]
    omega

theorem levelsAll_le_depthAll_add_nestingAll : (fs : List Filter) →
    levelsAll fs ≤ depthAll fs + nestingAll fs + 1
  | [] => Nat.zero_le _
  | f :: fs => by
    have hf := levels_le_depth_add_nesting f
    have hfs := levelsAll_le_depthAll_add_nestingAll fs
    simp only [levelsAll, depthAll, nestingAll]
    omega

end

theorem depthAll_le_iff {fs : List Filter} {n : Nat} :
    depthAll fs ≤ n ↔ ∀ f ∈ fs, f.depth ≤ n := by
  induction fs with
  | nil => exact iff_of_true (Nat.zero_le n) (List.forall_mem_nil _)
  | cons f fs ih => rw [depthAll, Nat.max_le, ih, List.forall_mem_cons]

end Filter

/-! ### Levels on the wire -/

namespace Wire

open Json (depth_object_le_iff depth_fieldOf_le_iff depth_fieldOfList_le_iff depth_items_le_iff)

namespace Node

mutual

theorem depth_toJson : (x : Expr) → (ofTree x).toJson.sorted.depth = x.levels
  | .integer .. | .string .. | .rawString .. | .boolean .. | .symbol .. => rfl
  | .list items _ => congrArg (1 + ·) (depth_toJsonAll items)
  | .quoted inner _ => by
    have hinner := depth_toJson inner
    have hpos := inner.levels_pos
    show 1 + max 1 (max (ofTree inner).toJson.sorted.depth 0) = 1 + inner.levels
    omega

theorem depth_toJsonAll : (xs : List Expr) →
    Json.depthItems (Json.sortedItems (toJsonAll (ofTrees xs))) = Expr.levelsAll xs
  | [] => rfl
  | x :: xs => by
    rw [ofTrees, toJsonAll, Json.sortedItems, Json.depthItems, depth_toJson x, depth_toJsonAll xs]
    rfl

end

end Node

namespace Filter

/-- A filter that has only a value nests one level more than that. -/
theorem depth_ofValue (type : String) (value : Expr) :
    (ofValue type (.ofTree value)).toJson.sorted.depth = 1 + value.levels := by
  have hsorted : (ofValue type (.ofTree value)).toJson.sorted =
      .object [("type", .string type), ("value", (Node.ofTree value).toJson.sorted)] :=
    congrArg Json.object (sortFields_filter (.string type)
      (.inr ⟨(Node.ofTree value).toJson.sorted, rfl⟩) (.inl rfl))
  have hvalue := Node.depth_toJson value
  have hpos := value.levels_pos
  rw [hsorted]
  show 1 + max 1 (max (Node.ofTree value).toJson.sorted.depth 0) = _
  omega

/-- A filter that has only parts nests two levels more than the deepest of them. -/
theorem depth_ofFilters (type : String) (filters : List Filter) :
    (ofFilters type filters).toJson.sorted.depth =
      2 + Json.depthItems (Json.sortedItems (toJsonAll filters)) := by
  have hsorted : (ofFilters type filters).toJson.sorted =
      .object [("filters", .array (Json.sortedItems (toJsonAll filters))),
        ("type", .string type)] :=
    congrArg Json.object (sortFields_filter (.string type) (.inl rfl)
      (.inr ⟨.array (Json.sortedItems (toJsonAll filters)), rfl⟩))
  rw [hsorted]
  show 1 + max (1 + Json.depthItems (Json.sortedItems (toJsonAll filters))) (max 1 0) = _
  omega

mutual

theorem depth_toJson : (f : SandboxProfile.Filter) → (ofTree f).toJson.sorted.depth = f.levels
  | .simple type _ value _ => depth_ofValue type value
  | .expression value => depth_ofValue expressionText value
  | .compound kind filters _ => by
    rw [ofTree, depth_ofFilters, depth_toJsonAll filters]
    rfl
  | .negation filter _ => by
    have hfilter := depth_toJson filter
    rw [ofTree, depth_ofFilters]
    show 2 + max (ofTree filter).toJson.sorted.depth 0 = 2 + filter.levels
    omega

theorem depth_toJsonAll : (fs : List SandboxProfile.Filter) →
    Json.depthItems (Json.sortedItems (toJsonAll (ofTrees fs))) =
      SandboxProfile.Filter.levelsAll fs
  | [] => rfl
  | f :: fs => by
    rw [ofTrees, toJsonAll, Json.sortedItems, Json.depthItems, depth_toJson f, depth_toJsonAll fs]
    rfl

end

end Filter

theorem Definition.depth_le_iff {d : SandboxProfile.Definition} {n : Nat} :
    (ofTree d).toJson.sorted.depth ≤ n + 2 ↔ d.value.levels ≤ n + 1 := by
  rw [sorted_toJson, depth_object_le_iff, List.forall_mem_cons, List.forall_mem_singleton]
  show 1 ≤ n + 1 ∧ (Node.ofTree d.value).toJson.sorted.depth ≤ n + 1 ↔ _
  rw [Node.depth_toJson]
  omega

theorem Filter.ofTrees_eq_map (fs : List SandboxProfile.Filter) : ofTrees fs = fs.map ofTree := by
  induction fs with
  | nil => rfl
  | cons f fs ih => rw [ofTrees, ih, List.map_cons]

theorem Rule.depth_le_iff {r : SandboxProfile.Rule} {n : Nat} :
    (ofTree r).toJson.sorted.depth ≤ n + 3 ↔ ∀ f ∈ r.filters, f.levels ≤ n + 1 := by
  have hoperations : (Json.array ((ofTree r).operations.map .string)).sorted.depth ≤ n + 2 :=
    depth_items_le_iff.mpr fun _ _ => Nat.le_add_left 1 n
  rw [sorted_toJson, depth_object_le_iff, List.forall_mem_cons, List.forall_mem_append,
    List.forall_mem_singleton, depth_fieldOfList_le_iff, ofTree, Filter.ofTrees_eq_map,
    List.forall_mem_map]
  simp only [Filter.depth_toJson]
  exact ⟨fun h => h.2.1, fun h => ⟨Nat.le_add_left 1 (n + 1), h, hoperations⟩⟩

namespace Profile

/-- The levels of a whole profile. A definition holds its value at the fourth level, and a rule its
filters at the fifth. -/
theorem depth_le_iff {p : SandboxProfile.Profile} {n : Nat} :
    (ofTree p).toJson.sorted.depth ≤ n + 5 ↔
      (∀ d ∈ p.definitions, d.value.levels ≤ n + 2) ∧
        ∀ r ∈ p.rules, ∀ f ∈ r.filters, f.levels ≤ n + 1 := by
  have hscalar : 1 ≤ n + 4 := Nat.le_add_left 1 (n + 3)
  rw [sorted_toJson, depth_object_le_iff]
  simp only [List.forall_mem_append, depth_fieldOf_le_iff, depth_fieldOfList_le_iff, ofTree,
    List.forall_mem_map, Definition.depth_le_iff, Rule.depth_le_iff]
  constructor
  · rintro ⟨-, hdefinitions, -, hrules, -⟩
    exact ⟨hdefinitions, hrules⟩
  · rintro ⟨hdefinitions, hrules⟩
    exact ⟨fun _ _ => hscalar, hdefinitions, fun _ _ => Nat.le_add_left 1 (n + 2), hrules,
      fun _ _ => hscalar⟩

end Profile

/-! ### Values of a text -/

namespace Profile

/-- What a text says, as a value, is within the limit for values exactly if none of its filters
takes more than the levels that are left below the root, the rules, a rule and its filters. Lists
alone never reach that limit. -/
theorem nesting_read_le_iff (text : String) :
    let tree := (SandboxProfile.Profile.ofText text).profile
    (ofTree tree).toJson.sorted.nesting ≤ depthLimit ↔
      ∀ r ∈ tree.rules, ∀ f ∈ r.filters, f.levels ≤ 508 := by
  intro tree
  have hvalues : ∀ d ∈ tree.definitions, d.value.levels ≤ 507 + 2 := by
    intro d hd
    have hdepth := (SandboxProfile.Profile.within_read _ text).values d hd
    have hlevels := d.value.levels_le_depth
    have hlimit : SandboxProfile.Profile.defaultLimit = 256 := rfl
    omega
  rw [Json.nesting_eq_depth]
  exact depth_le_iff.trans ⟨And.right, fun h => ⟨hvalues, h⟩⟩

/-- Filters nest half as deep as levels, and a text bounds filters and lists together. -/
theorem nesting_read_le_of_filterDepth {text : String}
    (h : (SandboxProfile.Profile.ofText text).profile.filterDepth ≤ 251) :
    (ofTree (SandboxProfile.Profile.ofText text).profile).toJson.sorted.nesting ≤ depthLimit := by
  apply (nesting_read_le_iff text).mpr
  intro r hr f hf
  have hdepth : f.depth ≤ 251 := SandboxProfile.Filter.depthAll_le_iff.mp
    (SandboxProfile.Profile.filterDepth_le_iff.mp h r hr) f hf
  have hnesting := (SandboxProfile.Profile.within_read _ text).filters r hr f hf
  have hlevels := f.levels_le_depth_add_nesting
  have hlimit : SandboxProfile.Profile.defaultLimit = 256 := rfl
  omega

theorem filterDepth_le_of_nesting_read {text : String}
    (h : (ofTree (SandboxProfile.Profile.ofText text).profile).toJson.sorted.nesting ≤ depthLimit) :
    (SandboxProfile.Profile.ofText text).profile.filterDepth ≤ 254 := by
  apply SandboxProfile.Profile.filterDepth_le_iff.mpr
  intro r hr
  apply SandboxProfile.Filter.depthAll_le_iff.mpr
  intro f hf
  have hlevels := (nesting_read_le_iff text).mp h r hr f hf
  have hdepth := f.two_mul_depth_le_levels
  omega

/-- What a text says, errors or not, is written as a value, and that value gives it back exactly if
no filter takes more than 508 levels; otherwise the value is refused as too deep. Up to 251 filters
inside each other are always read back, more than 254 never, although a text may have 256. -/
theorem ofJson_read_iff (text : String) :
    let tree := (SandboxProfile.Profile.ofText text).profile
    let value := (ofTree tree).toJson.sorted
    (ofJson value = .ok (ofTree tree) ↔ ∀ r ∈ tree.rules, ∀ f ∈ r.filters, f.levels ≤ 508) ∧
      (ofJson value ≠ .ok (ofTree tree) →
        ofJson value = .error (.tooDeep value.nesting depthLimit)) ∧
      (tree.filterDepth ≤ 251 → ofJson value = .ok (ofTree tree)) ∧
      (ofJson value = .ok (ofTree tree) → tree.filterDepth ≤ 254) := by
  intro tree value
  have hread : ofJson value = .ok (ofTree tree) ↔ value.nesting ≤ depthLimit :=
    ofJson_toJson_iff (unmarked_ofTree (SandboxProfile.Profile.regular_read _ text))
  refine ⟨hread.trans (nesting_read_le_iff text), ?_, ?_, ?_⟩
  · intro hne
    have hdeep : ¬ value.nesting ≤ depthLimit := fun hle => hne (hread.mpr hle)
    exact ofJson_toJson_deep (Nat.lt_of_not_le hdeep)
  · intro hdepth
    exact hread.mpr (nesting_read_le_of_filterDepth hdepth)
  · intro hok
    exact filterDepth_le_of_nesting_read (hread.mp hok)

/-- Also of what is left of a text with an error. -/
theorem ofJson_read_negation :
    let tree := (SandboxProfile.Profile.ofText "(allow (require-not (path 1)) (x").profile
    tree.filterDepth ≤ 251 ∧ ofJson (ofTree tree).toJson.sorted = .ok (ofTree tree) := by
  intro tree
  have hdepth : tree.filterDepth ≤ 251 := by decide +kernel
  obtain ⟨-, -, hshallow, -⟩ := ofJson_read_iff "(allow (require-not (path 1)) (x"
  exact ⟨hdepth, hshallow hdepth⟩

end Profile

/-! ### Filters inside each other -/

/-- A filter inside `n` negations. -/
def Filter.negated : Nat → Filter
  | 0 => ofValue "path" (.integer 1)
  | n + 1 => ofFilters negationText [negated n]

theorem Filter.depth_negated (n : Nat) : (negated n).depth = n + 1 := by
  induction n with
  | zero => decide
  | succ n ih =>
    show 1 + max (negated n).depth 0 = _
    rw [ih]
    omega

theorem Filter.legible_negated (n : Nat) : (negated n).Every Legible := by
  induction n with
  | zero =>
    have htype : IsSymbol "path" := by
      unfold IsSymbol
      decide +kernel
    exact ⟨htype, rfl, _, rfl, fun _ heq => by cases heq⟩
  | succ n ih => exact ⟨⟨rfl, _, rfl, fun _ => rfl⟩, ih, trivial⟩

theorem Filter.quoteFree_negated (n : Nat) : (negated n).Every QuoteFree := by
  induction n with
  | zero =>
    intro value hvalue
    cases hvalue
    rfl
  | succ n ih =>
    refine ⟨?_, ih, trivial⟩
    intro value hvalue
    cases hvalue

theorem Filter.plain_negated (n : Nat) : (negated n).Every Plain := by
  induction n with
  | zero =>
    intro hexpression
    cases hexpression
  | succ n ih =>
    refine ⟨?_, ih, trivial⟩
    intro hexpression
    cases hexpression

theorem Filter.inline_negated (n : Nat) : (negated n).inline =
    (List.replicate n "(require-not ".toList).flatten ++ "(path 1)".toList ++
      List.replicate n ')' := by
  induction n with
  | zero => decide
  | succ n ih =>
    have hinline : (negated (n + 1)).inline =
        "(require-not ".toList ++ ((negated n).inline ++ [')']) := by
      simp [negated, ofFilters, inline, inlineAll, oneLine, parens, spaced, negationText,
        expressionText]
    rw [hinline, ih, List.replicate_succ, List.flatten_cons, List.replicate_succ']
    simp only [List.append_assoc]

theorem Filter.lineFeed_not_mem_negated (n : Nat) : '\n' ∉ (negated n).inline := by
  rw [inline_negated]
  intro hmem
  rcases List.mem_append.mp hmem with hmem | hclose
  · rcases List.mem_append.mp hmem with hopen | hpath
    · obtain ⟨word, hword, hmem⟩ := List.mem_flatten.mp hopen
      rw [List.eq_of_mem_replicate hword] at hmem
      exact absurd hmem (by decide)
    · exact absurd hpath (by decide)
  · cases List.eq_of_mem_replicate hclose

/-- A rule of such a filter. -/
def Profile.negated (n : Nat) : Profile := ⟨none, none, [], [], [⟨.allow, [], [.negated n]⟩]⟩

/-- The text of the rule. -/
theorem Profile.source_negated (n : Nat) : (negated n).source .usual = String.ofList
    ("(allow ".toList ++ (List.replicate n "(require-not ".toList).flatten ++
      "(path 1)".toList ++ List.replicate n ')' ++ [')', '\n']) := by
  have hlayout : (Filter.negated n).layout .usual 1 = (Filter.negated n).inline := by
    cases n <;> rfl
  have hcompound : (Filter.negated n).isCompound = false := by
    cases n <;> rfl
  have hline : (Filter.negated n).inline.contains '\n' = false := by
    simpa using Filter.lineFeed_not_mem_negated n
  have hbody : Rule.body .usual [Filter.negated n] = ' ' :: (Filter.negated n).inline := by
    simp only [Rule.body, hlayout, hcompound, hline, Bool.not_false, Bool.and_self, if_true]
  have hsource : (negated n).layout .usual =
      "(allow".toList ++ Rule.body .usual [Filter.negated n] ++ [')', '\n'] := by
    simp [layout, declarationLines, negated, hasDeclarations, Rule.layout, Rule.header, spaced,
      Action.text]
  rw [source, hsource, hbody, Filter.inline_negated]
  simp

theorem Profile.read_negated {n : Nat} (h : n < SandboxProfile.Profile.defaultLimit) :
    (SandboxProfile.Profile.ofText ((negated n).source .usual)).hasErrors = false ∧
      ofTree (SandboxProfile.Profile.ofText ((negated n).source .usual)).profile = negated n := by
  refine read_printed ?_ ?_ ?_ ?_ .usual
  · exact List.forall_mem_singleton.mpr
      ⟨List.forall_mem_nil _, Filter.legible_negated n, trivial⟩
  · exact List.forall_mem_singleton.mpr ⟨Filter.quoteFree_negated n, trivial⟩
  · exact List.forall_mem_singleton.mpr ⟨Filter.plain_negated n, trivial⟩
  · refine List.forall_mem_singleton.mpr ?_
    show max (Filter.negated n).depth 0 ≤ _
    rw [Filter.depth_negated]
    omega

theorem Filter.depth_toJson_negated (n : Nat) :
    (negated n).toJson.sorted.depth = 2 * n + 2 := by
  induction n with
  | zero => decide
  | succ n ih =>
    rw [negated, depth_ofFilters]
    show 2 + max (negated n).toJson.sorted.depth 0 = _
    omega

theorem Profile.nesting_negated (n : Nat) : (negated n).toJson.sorted.nesting = 2 * n + 6 := by
  have hfilter := Filter.depth_toJson_negated n
  have hrule : (Rule.mk .allow [] [.negated n]).toJson.sorted.depth =
      1 + max 1 (max (1 + max (Filter.negated n).toJson.sorted.depth 0) (max 1 0)) := by
    rw [Rule.sorted_toJson]
    rfl
  rw [Json.nesting_eq_depth, sorted_toJson]
  show 1 + max (1 + max (Rule.mk .allow [] [.negated n]).toJson.sorted.depth 0) 0 = _
  omega

/-- A text of 255 filters inside each other, one less than a text may have, is read without an
error, and its value is not read back. -/
theorem Profile.ofJson_refuses_negated :
    let text := String.ofList ("(allow ".toList ++
      (List.replicate 254 "(require-not ".toList).flatten ++ "(path 1)".toList ++
        List.replicate 254 ')' ++ [')', '\n'])
    let p := ofTree (SandboxProfile.Profile.ofText text).profile
    (SandboxProfile.Profile.ofText text).hasErrors = false ∧
      p.toJson.sorted.nesting = 514 ∧ ofJson p.toJson.sorted = .error (.tooDeep 514 512) := by
  intro text p
  have htext : text = (negated 254).source .usual := (source_negated 254).symm
  obtain ⟨hclean, hwire⟩ := read_negated (n := 254) (by decide)
  rw [← htext] at hclean hwire
  have hnesting : p.toJson.sorted.nesting = 514 := by
    show (ofTree (SandboxProfile.Profile.ofText text).profile).toJson.sorted.nesting = 514
    rw [hwire, nesting_negated]
  refine ⟨hclean, hnesting, ?_⟩
  have hdeep : depthLimit < p.toJson.sorted.nesting := by
    rw [hnesting]
    decide
  rw [ofJson_toJson_deep hdeep, hnesting]
  rfl

end Wire

end SandboxProfile
