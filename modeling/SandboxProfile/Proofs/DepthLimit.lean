import SandboxProfile.Proofs.LargerLimit
import SandboxProfile.Proofs.Regular

/-!
# How deep a tree nests

No filter and no list of a tree that was read nests deeper than the limit, on texts in order and on
erroneous ones. Filters and the lists in their values are counted together, and a form at the top
does not count. So the limit decides which texts are cut off, and nothing else
(`Profile.limit_cuts_off`).
-/

namespace SandboxProfile

namespace Expr

mutual

/-- How deep lists nest in an expression, itself included. A quotation counts as the list of two
that it stands for. -/
def depth : Expr → Nat
  | list items _ => 1 + depthAll items
  | quoted inner _ => 1 + inner.depth
  | integer .. | string .. | rawString .. | boolean .. | symbol .. => 0

def depthAll : List Expr → Nat
  | [] => 0
  | x :: xs => max x.depth (depthAll xs)

end

end Expr

namespace Filter

mutual

/-- How deep filters and lists nest in a filter, itself included. A filter of another shape is the
list that it holds. -/
def nesting : Filter → Nat
  | simple _ _ value _ => 1 + value.depth
  | compound _ filters _ => 1 + nestingAll filters
  | negation filter _ => 1 + filter.nesting
  | expression value => max 1 value.depth

def nestingAll : List Filter → Nat
  | [] => 0
  | f :: fs => max f.nesting (nestingAll fs)

end

mutual

theorem depth_le_nesting : (f : Filter) → f.depth ≤ f.nesting
  | simple .. => Nat.le_add_right 1 _
  | compound _ filters _ => Nat.add_le_add_left (depthAll_le_nestingAll filters) 1
  | negation filter _ => Nat.add_le_add_left (depth_le_nesting filter) 1
  | expression _ => Nat.le_max_left 1 _

theorem depthAll_le_nestingAll : (fs : List Filter) → depthAll fs ≤ nestingAll fs
  | [] => Nat.le_refl 0
  | f :: fs => by
    have hf := depth_le_nesting f
    have hfs := depthAll_le_nestingAll fs
    simp only [depthAll, nestingAll]
    omega

end

theorem nestingAll_le_iff {fs : List Filter} {n : Nat} :
    nestingAll fs ≤ n ↔ ∀ f ∈ fs, f.nesting ≤ n := by
  induction fs with
  | nil => exact iff_of_true (Nat.zero_le n) (List.forall_mem_nil _)
  | cons f fs ih => rw [nestingAll, Nat.max_le, ih, List.forall_mem_cons]

end Filter

/-- How deep filters and lists nest in a declaration. -/
def Declaration.nesting : Declaration → Nat
  | version _ | debug _ | importPath _ => 0
  | definition x => x.value.depth
  | rule r => Filter.nestingAll r.filters

/-- Whether no filter and no list of a profile nests deeper than the limit. -/
structure Profile.Within (limit : Nat) (p : Profile) : Prop where
  values : ∀ x ∈ p.definitions, x.value.depth ≤ limit
  filters : ∀ r ∈ p.rules, ∀ f ∈ r.filters, f.nesting ≤ limit

theorem foldl_max_le_iff {ns : List Nat} {best n : Nat} :
    ns.foldl max best ≤ n ↔ best ≤ n ∧ ∀ k ∈ ns, k ≤ n := by
  induction ns generalizing best with
  | nil => exact ⟨fun h => ⟨h, List.forall_mem_nil _⟩, And.left⟩
  | cons k ns ih => rw [List.foldl_cons, ih, Nat.max_le, List.forall_mem_cons, and_assoc]

theorem Profile.filterDepth_le_iff {p : Profile} {n : Nat} :
    p.filterDepth ≤ n ↔ ∀ r ∈ p.rules, Filter.depthAll r.filters ≤ n := by
  rw [filterDepth, foldl_max_le_iff, List.forall_mem_map]
  exact ⟨And.right, fun h => ⟨Nat.zero_le n, h⟩⟩

/-- Then no filters nest deeper either. -/
theorem Profile.Within.filterDepth_le {limit : Nat} {p : Profile} (h : p.Within limit) :
    p.filterDepth ≤ limit := by
  apply filterDepth_le_iff.mpr
  intro r hr
  have hnesting := Filter.nestingAll_le_iff.mpr (h.filters r hr)
  exact Nat.le_trans (Filter.depthAll_le_nestingAll r.filters) hnesting

namespace Reading

variable {limit depth : Nat} {items : Forest} {stop : ListEnd}

theorem gives_enter (o : Token) (items : Forest) (stop : ListEnd) :
    Gives (fun _ => depth < limit) (enter limit depth o items stop) := by
  unfold enter
  by_cases hlt : depth < limit
  · rw [if_pos hlt]
    exact ensures_pure hlt
  · rw [if_neg hlt]
    exact ensures_giveUp trivial _ _

/-! ### Expressions -/

theorem depth_of_token {t : Token} {x : Expr} (h : Expr.ofToken? t = some x) : x.depth = 0 := by
  unfold Expr.ofToken? at h
  split at h <;> cases h <;> rfl

/-- Expressions that are read at a depth nest no deeper than the limit, counted from there. -/
theorem deep_exprs {what : Construct} (hdepth : depth ≤ limit) :
    Gives (fun y => Expr.depthAll y.1 + depth ≤ limit) (exprs limit depth what stop items) := by
  induction items generalizing depth what stop with
  | done =>
    rw [exprs]
    refine ensures_bind (gives_any _) fun _ _ => ensures_pure ?_
    simp only [Expr.depthAll]
    omega
  | leaf t rest ih =>
    rw [exprs]
    split
    next atom hatom =>
      refine ensures_bind (ih hdepth) ?_
      rintro ⟨more, place⟩ hmore
      apply ensures_pure
      simp only [Expr.depthAll, depth_of_token hatom] at hmore ⊢
      omega
    next => exact gives_expected _ _ _
  | list o inner e rest ihi ihr =>
    rw [exprs]
    refine ensures_bind (gives_enter o _ _) ?_
    intro _ hlt
    refine ensures_bind (ensures_inside rest stop (ihi hlt)) ?_
    rintro ⟨xs, place⟩ hxs
    refine ensures_bind (ihr hdepth) ?_
    rintro ⟨more, last⟩ hmore
    apply ensures_pure
    simp only [Expr.depthAll, Expr.depth] at hxs hmore ⊢
    omega

theorem deep_listTail {o : Token} (hdepth : depth ≤ limit) :
    Gives (fun x => x.depth + depth ≤ limit + 1) (listTail limit depth o items stop) := by
  refine ensures_bind (deep_exprs hdepth) ?_
  rintro ⟨xs, place⟩ hxs
  apply ensures_pure
  simp only [Expr.depth] at hxs ⊢
  omega

theorem deep_expr (hdepth : depth ≤ limit) :
    Gives (fun y => y.1.depth + depth ≤ limit) (expr limit depth stop items) := by
  unfold expr
  split
  next t rest =>
    split
    next atom hatom =>
      apply ensures_pure
      simp only [depth_of_token hatom]
      omega
    next => exact gives_expected _ _ _
  next o inner e rest =>
    refine ensures_bind (gives_enter o _ _) ?_
    intro _ hlt
    refine ensures_bind (ensures_inside rest stop (deep_listTail hlt)) ?_
    intro x hx
    apply ensures_pure
    simp only
    omega
  next => exact gives_expected _ _ _

/-! ### Filters -/

theorem deep_simpleFilter {o type : Token} {name : String} (hdepth : depth ≤ limit) :
    Gives (fun f => f.nesting + depth ≤ limit + 1)
      (simpleFilter limit depth o type name items stop) := by
  unfold simpleFilter
  split
  · exact ensures_giveUp trivial _ _
  · exact gives_unclosed _ _ _ _
  · refine ensures_bind (deep_expr hdepth) ?_
    rintro ⟨value, more⟩ hvalue
    refine ensures_bind (gives_any _) ?_
    rintro ⟨extras, place⟩ -
    apply ensures_pure
    simp only [Filter.nesting] at hvalue ⊢
    omega

theorem deep_listFilter {o : Token} (hdepth : depth ≤ limit) :
    Gives (fun f : Filter => f.nesting + depth ≤ limit + 1)
      (listTail limit depth o items stop >>= fun x => pure (.expression x)) := by
  refine ensures_bind (deep_listTail hdepth) ?_
  intro x hx
  apply ensures_pure
  simp only [Filter.nesting]
  omega

/-- The parts that may be added to others are as deep as these. -/
theorem nestingAll_add_le {n : Nat} {f? : Option Filter} {fs : List Filter}
    (hf : ∀ f ∈ f?, f.nesting ≤ n) (hfs : Filter.nestingAll fs ≤ n) :
    Filter.nestingAll (f?.toList ++ fs) ≤ n := by
  cases f? with
  | none => exact hfs
  | some f => exact Nat.max_le.mpr ⟨hf f rfl, hfs⟩

mutual

/-- A filter that is read at a depth, itself counted, nests no deeper than the limit. -/
theorem deep_filter : ∀ (items : Forest) {depth : Nat} {o : Token} {stop : ListEnd},
    depth ≤ limit → Gives (fun f => f.nesting + depth ≤ limit + 1) (filter limit depth o stop items)
  | .done, depth, o, .closed c, hdepth => by
    rw [filter]
    refine ensures_bind (gives_any _) fun _ _ => ensures_pure ?_
    simp only [Filter.nesting, Expr.depth, Expr.depthAll]
    omega
  | .done, depth, o, .endOfFile r last, hdepth => by
    rw [filter]
    exact deep_listFilter hdepth
  | .leaf t rest, depth, o, stop, hdepth => by
    rw [filter]
    split
    · split
      · refine ensures_bind (deep_filters rest hdepth) ?_
        rintro ⟨parts, place⟩ hparts
        apply ensures_pure
        simp only [Filter.nesting] at hparts ⊢
        omega
      · split
        · refine ensures_bind (deep_negation rest hdepth) ?_
          rintro ⟨part, place⟩ hpart
          apply ensures_pure
          simp only [Filter.nesting] at hpart ⊢
          omega
        · exact deep_simpleFilter hdepth
    · exact deep_listFilter hdepth
  | .list p inner e rest, depth, o, stop, hdepth => by
    rw [filter]
    exact deep_listFilter hdepth

theorem deep_negation : ∀ (items : Forest) {depth : Nat} {stop : ListEnd},
    depth ≤ limit → Gives (fun y => y.1.nesting + depth ≤ limit) (negation limit depth stop items)
  | .done, depth, .closed c, hdepth => by
    rw [negation]
    exact ensures_giveUp trivial _ _
  | .done, depth, .endOfFile r last, hdepth => by
    rw [negation]
    exact gives_unclosed _ _ _ _
  | .leaf t rest, depth, stop, hdepth => by
    rw [negation]
    exact gives_expected _ _ _
  | .list o inner e extras, depth, stop, hdepth => by
    rw [negation]
    refine ensures_bind (gives_enter o _ _) ?_
    intro _ hlt
    refine ensures_bind (ensures_inside extras stop (deep_filter inner hlt)) ?_
    intro part hpart
    refine ensures_bind (gives_any _) fun _ _ => ensures_pure ?_
    simp only
    omega

theorem deep_filters : ∀ (items : Forest) {depth : Nat} {kind : CompoundKind} {stop : ListEnd},
    depth ≤ limit →
      Gives (fun y => Filter.nestingAll y.1 + depth ≤ limit) (filters limit depth kind stop items)
  | .done, depth, kind, stop, hdepth => by
    rw [filters]
    refine ensures_bind (gives_any _) fun _ _ => ensures_pure ?_
    simp only [Filter.nestingAll]
    omega
  | .leaf t rest, depth, kind, stop, hdepth => by
    rw [filters]
    exact ensures_bind (gives_any _) fun _ _ => deep_filters rest hdepth
  | .list o inner e rest, depth, kind, stop, hdepth => by
    have hpart : Gives (fun f => f.nesting ≤ limit - depth) (do
        enter limit depth o inner e
        filter limit (depth + 1) o e inner) := by
      refine ensures_bind (gives_enter o _ _) ?_
      intro _ hlt
      refine (deep_filter inner hlt).imp fun f hf => ?_
      omega
    rw [filters]
    refine ensures_bind (ensures_recover hpart) ?_
    intro part hpart
    refine ensures_bind (deep_filters rest hdepth) ?_
    rintro ⟨more, place⟩ hmore
    apply ensures_pure
    have hadd : Filter.nestingAll (part.toList ++ more) ≤ limit - depth :=
      nestingAll_add_le hpart (by simp only at hmore; omega)
    simp only
    omega

end

/-! ### Declarations -/

theorem deep_ruleItems :
    Gives (fun y => Filter.nestingAll y.2.1 ≤ limit) (ruleItems limit stop items) := by
  induction items with
  | done =>
    rw [ruleItems]
    exact ensures_bind (gives_any _) fun _ _ => ensures_pure (Nat.zero_le _)
  | leaf t rest ih =>
    rw [ruleItems]
    split
    · refine ensures_bind ih ?_
      rintro ⟨operations, filters, place⟩ hmore
      exact ensures_pure hmore
    · exact ensures_giveUp trivial _ _
  | list o inner e rest _ ih =>
    have hpart : Gives (fun f => f.nesting ≤ limit) (do
        enter limit 0 o inner e
        filter limit 1 o e inner) := by
      refine ensures_bind (gives_enter o _ _) ?_
      intro _ hlt
      refine (deep_filter inner hlt).imp fun f hf => ?_
      omega
    rw [ruleItems]
    refine ensures_bind (ensures_recover hpart) ?_
    intro part hpart
    refine ensures_bind ih ?_
    rintro ⟨operations, filters, place⟩ hmore
    exact ensures_pure (nestingAll_add_le hpart hmore)

theorem deep_rule {action : Action} {start : Position} :
    Gives (fun r => (Declaration.rule r).nesting ≤ limit) (rule limit action start items stop) := by
  refine ensures_bind deep_ruleItems ?_
  rintro ⟨operations, filters, place⟩ hitems
  simp only
  split
  · exact ensures_bind (gives_any _) fun _ _ => ensures_pure hitems
  · exact ensures_pure hitems

theorem deep_definition {start : Position} :
    Gives (fun x => (Declaration.definition x).nesting ≤ limit)
      (definition limit start items stop) := by
  refine ensures_bind (gives_any _) ?_
  rintro ⟨⟨name, range⟩, rest⟩ -
  simp only
  split
  · exact ensures_giveUp trivial _ _
  · refine ensures_bind (deep_expr (Nat.zero_le limit)) ?_
    rintro ⟨value, more⟩ hvalue
    exact ensures_bind (gives_any _) fun _ _ => ensures_pure hvalue

theorem deep_declares (limit : Nat) :
    Declares limit (fun _ => True) (fun x => x.nesting ≤ limit) where
  version _ := Nat.zero_le _
  debug _ := Nat.zero_le _
  importPath _ := Nat.zero_le _
  definition _ _ _ _ := deep_definition
  rule _ _ _ _ _ := deep_rule

end Reading

namespace Profile

/-- No filter and no list of a tree nests deeper than the limit, whatever the text. -/
theorem within_read (limit : Nat) (text : String) : (read limit text).profile.Within limit := by
  obtain ⟨hdefinitions, hrules⟩ :=
    Reading.forall_read (Reading.deep_declares limit) text fun _ _ => trivial
  exact ⟨hdefinitions, fun r hr => Filter.nestingAll_le_iff.mp (hrules r hr)⟩

/-- The limit on nesting cuts off and does nothing else: a text of which nothing is reported to nest
too deep is read alike at any larger limit, and at every limit no filter and no list of the tree
nests deeper. -/
theorem limit_cuts_off (text : String) (limit : Nat) :
    ((∀ d ∈ (read limit text).diagnostics, d.code ≠ .nestingTooDeep) →
      ∀ larger, limit ≤ larger → read larger text = read limit text) ∧
    (∀ x ∈ (read limit text).profile.definitions, x.value.depth ≤ limit) ∧
    (∀ r ∈ (read limit text).profile.rules, ∀ f ∈ r.filters, f.nesting ≤ limit) ∧
    (read limit text).profile.filterDepth ≤ limit := by
  have hwithin := within_read limit text
  refine ⟨?_, hwithin.values, hwithin.filters, hwithin.filterDepth_le⟩
  intro hroomy larger hle
  exact read_larger hle hroomy

/-- The depth is the same behind a part that failed: two levels are enough for this text, in which
two forms are broken, and no text differs at more of them. -/
theorem limit_cuts_off_recovered :
    let text := "(allow (require-any (require-not) (path 1)) x)\n(deny 5)\n(allow (path (1) 2))"
    (∀ d ∈ (read 2 text).diagnostics, d.code ≠ .nestingTooDeep) ∧ 2 ≤ 256 ∧
      read 256 text = read 2 text := by
  intro text
  have hroomy : ∀ d ∈ (read 2 text).diagnostics, d.code ≠ .nestingTooDeep := by
    decide +kernel
  exact ⟨hroomy, by decide, (limit_cuts_off text 2).1 hroomy 256 (by decide)⟩

end Profile

end SandboxProfile
