import Mathlib.Data.List.Pairwise
import SandboxProfile.Proofs.ForestPlaces
import SandboxProfile.Reading.Profile

/-!
# Trees in their document

All ranges of a tree, and what it is for them to nest: every part of a node lies in the node, the
name of a definition ends before its value begins and the type of a filter before its value, parts
of one list stand in order, and no two declarations of a profile have a place in common.
-/

namespace SandboxProfile

/-! ### Expressions -/

namespace Expr

mutual

/-- The range of an expression and those of all expressions in it. -/
def ranges : Expr → List Range
  | list items r => r :: rangesAll items
  | quoted inner r => r :: inner.ranges
  | integer _ r | string _ r | rawString _ r | boolean _ r | symbol _ r => [r]

def rangesAll : List Expr → List Range
  | [] => []
  | x :: xs => x.ranges ++ rangesAll xs

end

mutual

def Nested : Expr → Prop
  | list items r => r.InOrder (items.map range) ∧ NestedAll items
  | quoted inner r => r.InOrder [inner.range] ∧ inner.Nested
  | integer .. | string .. | rawString .. | boolean .. | symbol .. => True

def NestedAll : List Expr → Prop
  | [] => True
  | x :: xs => x.Nested ∧ NestedAll xs

end

/-- Whether an expression stands in a document: its ranges agree with it, and they nest. -/
structure Stands (d : Document) (x : Expr) : Prop where
  agrees : ∀ r ∈ x.ranges, r.Agrees d
  nested : x.Nested

variable {d : Document} {x : Expr} {xs : List Expr} {r : Range}

theorem range_mem_ranges (x : Expr) : x.range ∈ x.ranges := by
  cases x <;> exact List.mem_cons_self ..

theorem Stands.range (h : x.Stands d) : x.range.Agrees d := h.agrees _ x.range_mem_ranges

theorem mem_rangesAll : r ∈ rangesAll xs ↔ ∃ x ∈ xs, r ∈ x.ranges := by
  induction xs with
  | nil => simp [rangesAll]
  | cons x xs ih => simp [rangesAll, ih]

theorem nestedAll_iff : NestedAll xs ↔ ∀ x ∈ xs, x.Nested := by
  induction xs with
  | nil => exact iff_of_true trivial (List.forall_mem_nil _)
  | cons x xs ih => rw [NestedAll, ih, List.forall_mem_cons]

theorem stands_list (hr : r.Agrees d) (hrow : r.InOrder (xs.map Expr.range))
    (h : ∀ x ∈ xs, x.Stands d) : (list xs r).Stands d := by
  refine ⟨List.forall_mem_cons.mpr ⟨hr, fun s hs => ?_⟩, hrow, ?_⟩
  · obtain ⟨x, hx, hs⟩ := mem_rangesAll.mp hs
    exact (h x hx).agrees s hs
  · exact nestedAll_iff.mpr fun x hx => (h x hx).nested

/-- An atom has the range of its token and no other. -/
theorem ranges_of_token {t : Token} (h : Expr.ofToken? t = some x) :
    x.range = t.range ∧ x.ranges = [t.range] ∧ x.Nested := by
  unfold Expr.ofToken? at h
  split at h <;> cases h <;> exact ⟨rfl, rfl, trivial⟩

theorem stands_of_token {t : Token} (ht : t.range.Agrees d) (h : Expr.ofToken? t = some x) :
    x.Stands d := by
  obtain ⟨-, hranges, hnested⟩ := ranges_of_token h
  refine ⟨?_, hnested⟩
  rw [hranges]
  exact List.forall_mem_singleton.mpr ht

end Expr

/-! ### Filters -/

namespace Filter

mutual

/-- The ranges of a filter, of its type, and of all filters and expressions in it. -/
def ranges : Filter → List Range
  | simple _ typeRange value r => r :: typeRange :: value.ranges
  | compound _ filters r => r :: rangesAll filters
  | negation filter r => r :: filter.ranges
  | expression value => value.ranges

def rangesAll : List Filter → List Range
  | [] => []
  | f :: fs => f.ranges ++ rangesAll fs

end

mutual

def Nested : Filter → Prop
  | simple _ typeRange value r => r.InOrder [typeRange, value.range] ∧ value.Nested
  | compound _ filters r => r.InOrder (filters.map range) ∧ NestedAll filters
  | negation filter r => r.InOrder [filter.range] ∧ filter.Nested
  | expression value => value.Nested

def NestedAll : List Filter → Prop
  | [] => True
  | f :: fs => f.Nested ∧ NestedAll fs

end

structure Stands (d : Document) (f : Filter) : Prop where
  agrees : ∀ r ∈ f.ranges, r.Agrees d
  nested : f.Nested

variable {d : Document} {f : Filter} {fs : List Filter} {r : Range}

theorem mem_rangesAll : r ∈ rangesAll fs ↔ ∃ f ∈ fs, r ∈ f.ranges := by
  induction fs with
  | nil => simp [rangesAll]
  | cons f fs ih => simp [rangesAll, ih]

theorem nestedAll_iff : NestedAll fs ↔ ∀ f ∈ fs, f.Nested := by
  induction fs with
  | nil => exact iff_of_true trivial (List.forall_mem_nil _)
  | cons f fs ih => rw [NestedAll, ih, List.forall_mem_cons]

theorem stands_simple {type : String} {typeRange : Range} {value : Expr} (hr : r.Agrees d)
    (ht : typeRange.Agrees d) (hrow : r.InOrder [typeRange, value.range]) (hv : value.Stands d) :
    (simple type typeRange value r).Stands d :=
  ⟨List.forall_mem_cons.mpr ⟨hr, List.forall_mem_cons.mpr ⟨ht, hv.agrees⟩⟩, hrow, hv.nested⟩

theorem stands_compound {kind : CompoundKind} (hr : r.Agrees d)
    (hrow : r.InOrder (fs.map Filter.range)) (h : ∀ f ∈ fs, f.Stands d) :
    (compound kind fs r).Stands d := by
  refine ⟨List.forall_mem_cons.mpr ⟨hr, fun s hs => ?_⟩, hrow, ?_⟩
  · obtain ⟨f, hf, hs⟩ := mem_rangesAll.mp hs
    exact (h f hf).agrees s hs
  · exact nestedAll_iff.mpr fun f hf => (h f hf).nested

theorem stands_negation (hr : r.Agrees d) (hrow : r.InOrder [f.range]) (h : f.Stands d) :
    (negation f r).Stands d :=
  ⟨List.forall_mem_cons.mpr ⟨hr, h.agrees⟩, hrow, h.nested⟩

theorem stands_expression {value : Expr} (h : value.Stands d) : (expression value).Stands d :=
  ⟨h.agrees, h.nested⟩

end Filter

/-! ### Declarations -/

namespace Declaration

def range : Declaration → Range
  | version v => v.range
  | debug m => m.range
  | importPath i => i.range
  | definition x => x.range
  | rule r => r.range

/-- The ranges of a declaration and of all that it is made of. -/
def ranges : Declaration → List Range
  | version v => [v.range]
  | debug m => [m.range]
  | importPath i => [i.range, i.pathRange]
  | definition x => x.range :: x.nameRange :: x.value.ranges
  | rule r => r.range :: (r.operations.map (·.range) ++ Filter.rangesAll r.filters)

def Nested : Declaration → Prop
  | version _ | debug _ => True
  | importPath i => i.range.InOrder [i.pathRange]
  | definition x => x.range.InOrder [x.nameRange, x.value.range] ∧ x.value.Nested
  | rule r => r.range.InOrder (r.operations.map (·.range)) ∧
      r.range.InOrder (r.filters.map (·.range)) ∧ Filter.NestedAll r.filters

structure Stands (d : Document) (x : Declaration) : Prop where
  agrees : ∀ r ∈ x.ranges, r.Agrees d
  nested : x.Nested

theorem range_mem_ranges (x : Declaration) : x.range ∈ x.ranges := by
  cases x <;> exact List.mem_cons_self ..

theorem Stands.range {d : Document} {x : Declaration} (h : x.Stands d) : x.range.Agrees d :=
  h.agrees _ x.range_mem_ranges

end Declaration

/-! ### Profiles -/

/-- Whether one of two ranges ends before the other begins. -/
def Range.Apart (r s : Range) : Prop := r.Precedes s ∨ s.Precedes r

namespace Profile

/-- All declarations of a profile, by kind. -/
def declarations (p : Profile) : List Declaration :=
  p.version.toList.map .version ++ (p.debug.toList.map .debug ++ (p.imports.map .importPath ++
    (p.definitions.map .definition ++ p.rules.map .rule)))

/-- The range of a profile and all ranges in it. -/
def ranges (p : Profile) : List Range := p.range :: p.declarations.flatMap (·.ranges)

/-- Whether the ranges of a profile nest, at every level. -/
structure Nested (p : Profile) : Prop where
  contained : ∀ x ∈ p.declarations, p.range.containsRange x.range = true
  apart : (p.declarations.map (·.range)).Pairwise Range.Apart
  imports : (p.imports.map (·.range)).Pairwise Range.Precedes
  definitions : (p.definitions.map (·.range)).Pairwise Range.Precedes
  rules : (p.rules.map (·.range)).Pairwise Range.Precedes
  declarations : ∀ x ∈ p.declarations, x.Nested

/-- Whatever a profile declares was declared. -/
theorem mem_of_mem_declarations {ds : List Declaration} {r : Range} {x : Declaration}
    (h : x ∈ (ofDeclarations ds r).declarations) : x ∈ ds := by
  have hfind {α : Type} {f : Declaration → Option α} {g : α → Declaration}
      (hf : ∀ y a, f y = some a → g a = y) (hx : x ∈ (ds.findSome? f).toList.map g) : x ∈ ds := by
    obtain ⟨a, ha, rfl⟩ := List.mem_map.mp hx
    obtain ⟨y, hy, hya⟩ := List.exists_of_findSome?_eq_some (Option.mem_toList.mp ha)
    rwa [hf y a hya]
  have hfilter {α : Type} {f : Declaration → Option α} {g : α → Declaration}
      (hf : ∀ y a, f y = some a → g a = y) (hx : x ∈ (ds.filterMap f).map g) : x ∈ ds := by
    obtain ⟨a, ha, rfl⟩ := List.mem_map.mp hx
    obtain ⟨y, hy, hya⟩ := List.mem_filterMap.mp ha
    rwa [hf y a hya]
  simp only [declarations, ofDeclarations, List.mem_append] at h
  rcases h with h | h | h | h | h
  · exact hfind (fun y a hy => by cases y <;> cases hy; rfl) h
  · exact hfind (fun y a hy => by cases y <;> cases hy; rfl) h
  · exact hfilter (fun y a hy => by cases y <;> cases hy; rfl) h
  · exact hfilter (fun y a hy => by cases y <;> cases hy; rfl) h
  · exact hfilter (fun y a hy => by cases y <;> cases hy; rfl) h

/-- Declarations of one kind stand in the order of all declarations. -/
theorem ordered_filterMap {α : Type} {ds : List Declaration} {f : Declaration → Option α}
    {range : α → Range} (hf : ∀ y a, f y = some a → range a = y.range)
    (h : (ds.map (·.range)).Pairwise Range.Precedes) :
    ((ds.filterMap f).map range).Pairwise Range.Precedes := by
  rw [List.pairwise_map, List.pairwise_filterMap]
  refine (List.pairwise_map.mp h).imp fun {x y} hxy a ha b hb => ?_
  rwa [hf x a ha, hf y b hb]

theorem apart_of_precedes {rs : List Range} (h : rs.Pairwise Range.Precedes) :
    rs.Pairwise Range.Apart :=
  h.imp .inl

/-- Declarations of one kind and others of other kinds, all of them among declarations that stand in
order. -/
theorem apart_append {α : Type} {ds ys : List Declaration} {as : List α} {g : α → Declaration}
    (h : (ds.map (·.range)).Pairwise Range.Precedes) (has : ∀ x ∈ as.map g, x ∈ ds)
    (hys : ∀ y ∈ ys, y ∈ ds) (hkind : ∀ a, g a ∉ ys)
    (ha : ((as.map g).map (·.range)).Pairwise Range.Apart)
    (hy : (ys.map (·.range)).Pairwise Range.Apart) :
    ((as.map g ++ ys).map (·.range)).Pairwise Range.Apart := by
  have happart : ds.Pairwise fun x y => x.range.Apart y.range :=
    List.pairwise_map.mp (apart_of_precedes h)
  have hsymm : Std.Symm fun x y : Declaration => x.range.Apart y.range := ⟨fun _ _ => Or.symm⟩
  rw [List.map_append]
  refine List.pairwise_append.mpr ⟨ha, hy, ?_⟩
  refine List.forall_mem_map.mpr fun x hx => List.forall_mem_map.mpr fun y hmem => ?_
  refine happart.forall (has x hx) (hys y hmem) ?_
  rintro rfl
  obtain ⟨a, -, rfl⟩ := List.mem_map.mp hx
  exact hkind a hmem

theorem apart_toList {α : Type} (x? : Option α) (f : α → Range) :
    (x?.toList.map f).Pairwise Range.Apart := by
  cases x? with
  | none => exact .nil
  | some x => exact List.pairwise_singleton _ _

theorem apart_ofDeclarations {ds : List Declaration} {r : Range}
    (h : (ds.map (·.range)).Pairwise Range.Precedes) :
    ((ofDeclarations ds r).declarations.map (·.range)).Pairwise Range.Apart := by
  have hmem : ∀ x ∈ (ofDeclarations ds r).declarations, x ∈ ds :=
    fun _ hx => mem_of_mem_declarations hx
  obtain ⟨hversion, hmem⟩ := List.forall_mem_append.mp hmem
  obtain ⟨hdebug, hmem'⟩ := List.forall_mem_append.mp hmem
  obtain ⟨himports, hmem''⟩ := List.forall_mem_append.mp hmem'
  obtain ⟨hdefinitions, hrules⟩ := List.forall_mem_append.mp hmem''
  have hof {α : Type} {f : Declaration → Option α} {g : α → Declaration}
      (hf : ∀ y a, f y = some a → (g a).range = y.range) :
      (((ds.filterMap f).map g).map (·.range)).Pairwise Range.Apart := by
    rw [List.map_map]
    exact apart_of_precedes (ordered_filterMap hf h)
  have hof? {α : Type} (x? : Option α) (g : α → Declaration) :
      ((x?.toList.map g).map (·.range)).Pairwise Range.Apart := by
    rw [List.map_map]
    exact apart_toList _ _
  refine apart_append h hversion hmem (by simp) (hof? _ _) ?_
  refine apart_append h hdebug hmem' (by simp) (hof? _ _) ?_
  refine apart_append h himports hmem'' (by simp) (hof fun y a hy => ?_) ?_
  · cases y <;> cases hy
    rfl
  refine apart_append h hdefinitions hrules (by simp) (hof fun y a hy => ?_) (hof fun y a hy => ?_)
  · cases y <;> cases hy
    rfl
  · cases y <;> cases hy
    rfl

/-- A profile of nested declarations that stand in order in its range is nested. -/
theorem nested_ofDeclarations {ds : List Declaration} {r : Range}
    (h : r.InOrder (ds.map (·.range))) (hnested : ∀ x ∈ ds, x.Nested) :
    (ofDeclarations ds r).Nested where
  contained x hx := h.contained _ (List.mem_map_of_mem (mem_of_mem_declarations hx))
  apart := apart_ofDeclarations h.ordered
  imports := ordered_filterMap (fun y a hy => by cases y <;> cases hy; rfl) h.ordered
  definitions := ordered_filterMap (fun y a hy => by cases y <;> cases hy; rfl) h.ordered
  rules := ordered_filterMap (fun y a hy => by cases y <;> cases hy; rfl) h.ordered
  declarations x hx := hnested x (mem_of_mem_declarations hx)

theorem agrees_ofDeclarations {d : Document} {ds : List Declaration} {r : Range}
    (hr : r.Agrees d) (h : ∀ x ∈ ds, x.Stands d) :
    ∀ s ∈ (ofDeclarations ds r).ranges, s.Agrees d := by
  refine List.forall_mem_cons.mpr ⟨hr, fun s hs => ?_⟩
  obtain ⟨x, hx, hs⟩ := List.mem_flatMap.mp hs
  exact (h x (mem_of_mem_declarations hx)).agrees s hs

end Profile

end SandboxProfile
