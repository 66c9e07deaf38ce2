import SandboxProfile.Proofs.Ensures
import SandboxProfile.Proofs.ReadKinds

/-!
# Reading at a larger limit

The limit on nesting cuts off and does nothing else: a reading in which nothing nested too deep is
the same reading at any larger limit. The depth is handed down to the readers of lists inside a
list, so whatever failed at one place, the lists behind it are entered at their own depth.
-/

namespace SandboxProfile

/-- Whether none of these diagnostics says that filters or lists nest too deep. -/
def Roomy (notes : List Diagnostic) : Prop := ∀ d ∈ notes, d.code ≠ .nestingTooDeep

namespace Reading

variable {α β : Type} {limit larger depth : Nat} {stop : ListEnd}

/-- Whether a second reading is the first one, unless something in the first nested too deep. -/
def Widens (r r' : Reading α) : Prop := Roomy r.notes → r' = r

theorem widens_refl (r : Reading α) : Widens r r := fun _ => rfl

theorem widens_bind {r r' : Reading α} {f f' : α → Reading β} (hr : Widens r r')
    (hf : ∀ x, Widens (f x) (f' x)) : Widens (r >>= f) (r' >>= f') := by
  intro h
  obtain ⟨notes, outcome⟩ := r
  cases outcome with
  | ok x =>
    obtain ⟨hnotes, hnext⟩ := List.forall_mem_append.mp h
    rw [hr hnotes]
    show (⟨notes ++ (f' x).notes, (f' x).outcome⟩ : Reading β) =
      ⟨notes ++ (f x).notes, (f x).outcome⟩
    rw [hf x hnext]
  | error unread =>
    rw [hr h]
    rfl

theorem widens_map {r r' : Reading α} {g : α → β} (hr : Widens r r') :
    Widens (g <$> r) (g <$> r') :=
  widens_bind hr fun _ => widens_refl _

theorem widens_inside {r r' : Reading α} (rest : Forest) (stop : ListEnd) (hr : Widens r r') :
    Widens (r.inside rest stop) (r'.inside rest stop) := by
  intro h
  have hnotes : (r.inside rest stop).notes = r.notes := by
    unfold inside
    split <;> rfl
  rw [hnotes] at h
  rw [hr h]

theorem widens_recover {r r' : Reading α} (hr : Widens r r') : Widens r.recover r'.recover := by
  intro h
  rw [hr h]

/-- A list that is entered at a limit is entered at a larger one. -/
theorem widens_enter (hle : limit ≤ larger) (o : Token) (items : Forest) :
    Widens (enter limit depth o items stop) (enter larger depth o items stop) := by
  intro h
  by_cases hlt : depth < limit
  · rw [enter, enter, if_pos hlt, if_pos (Nat.lt_of_lt_of_le hlt hle)]
  · rw [enter, if_neg hlt] at h
    exact absurd rfl (h _ (List.mem_singleton_self _))

/-! ### Expressions -/

theorem widens_exprs (hle : limit ≤ larger) {what : Construct} (items : Forest) :
    Widens (exprs limit depth what stop items) (exprs larger depth what stop items) := by
  induction items generalizing depth what stop with
  | done =>
    rw [exprs, exprs]
    exact widens_refl _
  | leaf t rest ih =>
    rw [exprs, exprs]
    split
    · exact widens_bind ih fun _ => widens_refl _
    · exact widens_refl _
  | list o inner e rest ihi ihr =>
    rw [exprs, exprs]
    apply widens_bind (widens_enter hle o _)
    intro _
    apply widens_bind (widens_inside rest stop ihi)
    intro _
    exact widens_bind ihr fun _ => widens_refl _

theorem widens_listTail (hle : limit ≤ larger) {o : Token} (items : Forest) :
    Widens (listTail limit depth o items stop) (listTail larger depth o items stop) :=
  widens_bind (widens_exprs hle items) fun _ => widens_refl _

theorem widens_expr (hle : limit ≤ larger) (items : Forest) :
    Widens (expr limit depth stop items) (expr larger depth stop items) := by
  cases items with
  | done => exact widens_refl _
  | leaf t rest => exact widens_refl _
  | list o inner e rest =>
    apply widens_bind (widens_enter hle o _)
    intro _
    exact widens_bind (widens_inside rest stop (widens_listTail hle inner)) fun _ => widens_refl _

/-! ### Filters -/

theorem widens_simpleFilter (hle : limit ≤ larger) {o type : Token} {name : String}
    (items : Forest) :
    Widens (simpleFilter limit depth o type name items stop)
      (simpleFilter larger depth o type name items stop) := by
  unfold simpleFilter
  split
  · exact widens_refl _
  · exact widens_refl _
  · apply widens_bind (widens_expr hle items)
    intro _
    exact widens_bind (widens_exprs hle _) fun _ => widens_refl _

mutual

theorem widens_filter (hle : limit ≤ larger) : ∀ (items : Forest) {depth : Nat} {o : Token}
    {stop : ListEnd},
    Widens (filter limit depth o stop items) (filter larger depth o stop items)
  | .done, depth, o, .closed c => by
    rw [filter, filter]
    exact widens_refl _
  | .done, depth, o, .endOfFile range last => by
    rw [filter, filter]
    exact widens_bind (widens_listTail hle .done) fun _ => widens_refl _
  | .leaf t rest, depth, o, stop => by
    rw [filter, filter]
    split
    · split
      · exact widens_bind (widens_filters hle rest) fun _ => widens_refl _
      · split
        · exact widens_bind (widens_negation hle rest) fun _ => widens_refl _
        · exact widens_simpleFilter hle rest
    · exact widens_bind (widens_listTail hle _) fun _ => widens_refl _
  | .list p inner e rest, depth, o, stop => by
    rw [filter, filter]
    exact widens_bind (widens_listTail hle _) fun _ => widens_refl _

theorem widens_negation (hle : limit ≤ larger) : ∀ (items : Forest) {depth : Nat} {stop : ListEnd},
    Widens (negation limit depth stop items) (negation larger depth stop items)
  | .done, depth, .closed c => by
    rw [negation, negation]
    exact widens_refl _
  | .done, depth, .endOfFile range last => by
    rw [negation, negation]
    exact widens_refl _
  | .leaf t rest, depth, stop => by
    rw [negation, negation]
    exact widens_refl _
  | .list o inner e extras, depth, stop => by
    rw [negation, negation]
    apply widens_bind (widens_enter hle o _)
    intro _
    exact widens_bind (widens_inside extras stop (widens_filter hle inner)) fun _ => widens_refl _

theorem widens_filters (hle : limit ≤ larger) : ∀ (items : Forest) {depth : Nat}
    {kind : CompoundKind} {stop : ListEnd},
    Widens (filters limit depth kind stop items) (filters larger depth kind stop items)
  | .done, depth, kind, stop => by
    rw [filters, filters]
    exact widens_refl _
  | .leaf t rest, depth, kind, stop => by
    rw [filters, filters]
    exact widens_bind (widens_refl _) fun _ => widens_filters hle rest
  | .list o inner e rest, depth, kind, stop => by
    rw [filters, filters]
    apply widens_bind
    · apply widens_recover
      exact widens_bind (widens_enter hle o inner) fun _ => widens_filter hle inner
    · intro _
      exact widens_bind (widens_filters hle rest) fun _ => widens_refl _

end

/-! ### Declarations -/

theorem widens_ruleItems (hle : limit ≤ larger) (items : Forest) :
    Widens (ruleItems limit stop items) (ruleItems larger stop items) := by
  induction items with
  | done =>
    rw [ruleItems, ruleItems]
    exact widens_refl _
  | leaf t rest ih =>
    rw [ruleItems, ruleItems]
    split
    · exact widens_bind ih fun _ => widens_refl _
    · exact widens_refl _
  | list o inner e rest _ ih =>
    rw [ruleItems, ruleItems]
    apply widens_bind
    · apply widens_recover
      exact widens_bind (widens_enter hle o inner) fun _ => widens_filter hle inner
    · intro _
      exact widens_bind ih fun _ => widens_refl _

theorem widens_rule (hle : limit ≤ larger) {action : Action} {start : Position} (items : Forest) :
    Widens (rule limit action start items stop) (rule larger action start items stop) :=
  widens_bind (widens_ruleItems hle items) fun _ => widens_refl _

theorem widens_definition (hle : limit ≤ larger) {start : Position} (items : Forest) :
    Widens (definition limit start items stop) (definition larger start items stop) := by
  apply widens_bind (widens_refl _)
  rintro ⟨⟨name, range⟩, rest⟩
  cases rest with
  | done => exact widens_refl _
  | leaf t rest => exact widens_bind (widens_expr hle _) fun _ => widens_refl _
  | list o inner e rest => exact widens_bind (widens_expr hle _) fun _ => widens_refl _

theorem widens_namedForm (hle : limit ≤ larger) {start : Position} {head : String} {range : Range}
    (items : Forest) :
    Widens (namedForm limit start head range items stop)
      (namedForm larger start head range items stop) := by
  unfold namedForm
  split
  · exact widens_refl _
  · exact widens_refl _
  · exact widens_refl _
  · exact widens_map (widens_definition hle items)
  · exact widens_map (widens_rule hle items)
  · exact widens_map (widens_rule hle items)
  · exact widens_refl _

theorem widens_declaration (hle : limit ≤ larger) {o : Token} (items : Forest) :
    Widens (declaration limit o items stop) (declaration larger o items stop) := by
  unfold declaration
  split
  · exact widens_refl _
  · split
    · exact widens_namedForm hle _
    · exact widens_refl _
  · exact widens_refl _

/-! ### Texts -/

/-- Steps in which nothing nested too deep are the steps at any larger limit. -/
theorem steps_larger (hle : limit ≤ larger) {f : Forest}
    (h : ∀ s ∈ steps limit f, Roomy s.notes) : steps larger f = steps limit f := by
  induction f using steps_induction limit with
  | done => rw [steps_done, steps_done]
  | leaf t rest ih =>
    rw [steps_leaf] at h
    rw [steps_leaf, steps_leaf, ih (List.forall_mem_cons.mp h).2]
  | read o items stop rest declared houtcome ih =>
    rw [steps_of_ok houtcome] at h
    obtain ⟨hform, hrest⟩ := List.forall_mem_cons.mp h
    have hsame := widens_declaration hle items hform
    have houtcome' : (declaration larger o items stop).outcome = .ok declared := by
      rw [hsame, houtcome]
    rw [steps_of_ok houtcome, steps_of_ok houtcome', hsame, ih hrest]
  | givenUp o items stop rest unread houtcome ih =>
    rw [steps_of_error houtcome] at h
    obtain ⟨hform, hrest⟩ := List.forall_mem_cons.mp h
    have hsame := widens_declaration hle items hform
    have houtcome' : (declaration larger o items stop).outcome = .error unread := by
      rw [hsame, houtcome]
    rw [steps_of_error houtcome, steps_of_error houtcome', hsame, ih hrest]

end Reading

/-- What a step found out is among the diagnostics of all steps. -/
theorem Step.notes_mem_diagnostics {s : Step} {ss : List Step} {d : Diagnostic} (hs : s ∈ ss)
    (hd : d ∈ s.notes) (version? : Option Version) (debug? : Option DebugMode) :
    d ∈ diagnostics version? debug? ss := by
  induction ss generalizing version? debug? with
  | nil => cases hs
  | cons s' ss ih =>
    rw [diagnostics]
    rcases List.mem_cons.mp hs with rfl | hs
    · exact List.mem_append_left _ (List.mem_append_left _ hd)
    · exact List.mem_append_right _ (ih hs _ _)

/-- A text in which nothing nests too deep is read alike at any larger limit. -/
theorem Profile.read_larger {text : String} {limit larger : Nat} (hle : limit ≤ larger)
    (h : Roomy (read limit text).diagnostics) : read larger text = read limit text := by
  have hsteps : ∀ s ∈ Reading.steps limit (Forest.ofTokens (tokenize text).1), Roomy s.notes := by
    intro s hs d hd
    apply h
    apply (Collector.mem_ofList _ _).mpr
    exact List.mem_append_right _ (Step.notes_mem_diagnostics hs hd none none)
  simp only [read, Reading.steps_larger hle hsteps]

end SandboxProfile
