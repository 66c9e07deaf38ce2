import SandboxProfile.Proofs.ReadPlaces

/-!
# Places of a profile

What a form declares stands in the document between the parentheses of the form, and the forms of a
document are read one behind the other, after a form that was given up as well. So every range in
what comes of a text agrees with the table of its lines (`Profile.agrees_read`), and the profile is
nested (`Profile.nested_read`).
-/

namespace SandboxProfile

open Forest (Within row_leaf row_list)

variable {d : Document} {lo hi limit : Nat} {p : Position} {o : Token} {items : Forest}
  {stop : ListEnd}

namespace Reading

/-! ### Declarations -/

/-- Operations and filters that stand between an offset and the end of their rule. -/
structure RuleIn (d : Document) (lo : Nat) (stop : ListEnd) (operations : List Operation)
    (filters : List Filter) (p : Position) : Prop where
  row : Range.Row lo (operations.map (·.range)) stop.range.start.offset
  agrees : ∀ x ∈ operations, x.range.Agrees d
  filters : FiltersIn d lo stop filters p

theorem real_ruleItems (h : Within d lo items stop) :
    Ensures (·.Real d) (fun y => RuleIn d lo stop y.1 y.2.1 y.2.2)
      (ruleItems limit stop items) := by
  induction items generalizing lo with
  | done =>
    rw [ruleItems]
    refine ensures_bind (real_ending .rule h.stop) fun p hp => ensures_pure ?_
    exact ⟨h.items, List.forall_mem_nil _, h.items, List.forall_mem_nil _, hp⟩
  | leaf t rest ih =>
    have ht := h.items.1
    rw [ruleItems]
    split
    next name hkind =>
      refine ensures_bind (ih ⟨h.items.2.2, h.stop⟩) ?_
      rintro ⟨operations, filters, place⟩ hmore
      have hle : lo ≤ t.range.stop.offset := Nat.le_trans h.items.2.1 ht.ordered
      exact ensures_pure ⟨row_leaf h.items hmore.row,
        List.forall_mem_cons.mpr ⟨ht, hmore.agrees⟩, hmore.filters.weaken hle⟩
    next => exact ensures_giveUp (SyntaxFault.real_diagnostic _ ht) _ _
  | list o inner e rest _ ih =>
    have hpart : Ensures (·.Real d) (FilterOf d o e) (do
        enter limit 0 o inner e
        filter limit 1 o e inner) :=
      ensures_bind (real_enter h.items.1) fun _ _ => real_filter inner h.items.1 h.items.inner
    rw [ruleItems]
    refine ensures_bind (ensures_recover hpart) fun part hpart => ?_
    refine ensures_bind (ih ⟨h.items.2.2.2.2, h.stop⟩) ?_
    rintro ⟨operations, filters, place⟩ hmore
    exact ensures_pure ⟨hmore.row.weaken h.items.le_place (Nat.le_refl _), hmore.agrees,
      FiltersIn.add h.items hpart hmore.filters⟩

/-- A declaration that a form is. -/
structure DeclarationOf (d : Document) (o : Token) (stop : ListEnd) (x : Declaration) : Prop where
  stands : x.Stands d
  list : x.range.OfList o stop

section

variable (ho : o.range.Agrees d) (hlo : o.range.stop.offset ≤ lo) (h : Within d lo items stop)
include ho hlo h

theorem real_version : Ensures (·.Real d) (fun v => DeclarationOf d o stop (.version v))
    (version o.range.start items stop) := by
  unfold version
  split
  next t rest =>
    split
    next n hkind =>
      have ht := h.items.1
      refine ensures_bind (real_closing .version ht.stop (Nat.le_refl _) ⟨h.items.2.2, h.stop⟩)
        fun place hplace => ensures_pure ?_
      have hlist := hplace.ofList o
      have hwhole := h.whole ho hlo hlist
      exact ⟨⟨List.forall_mem_singleton.mpr hwhole.1, trivial⟩, hlist⟩
    next => exact real_expected _ h
  next => exact real_expected _ h

theorem real_debugMode : Ensures (·.Real d) (fun m => DeclarationOf d o stop (.debug m))
    (debugMode o.range.start items stop) := by
  have haction {t : Token} (ht : t.range.Agrees d) :
      Ensures (·.Real d) (fun _ => True) (debugAction t) := by
    unfold debugAction
    split
    · exact ensures_pure trivial
    · exact ensures_bind (ensures_note (SyntaxFault.real_diagnostic _ ht)) fun _ _ =>
        ensures_pure trivial
  unfold debugMode
  split
  · exact ensures_giveUp (SyntaxFault.real_diagnostic _ h.stop.range) _ _
  next t rest =>
    have ht := h.items.1
    refine ensures_bind (haction ht) fun action _ => ?_
    refine ensures_bind (real_closing .debug ht.stop (Nat.le_refl _) ⟨h.items.2.2, h.stop⟩)
      fun place hplace => ensures_pure ?_
    have hlist := hplace.ofList o
    have hwhole := h.whole ho hlo hlist
    exact ⟨⟨List.forall_mem_singleton.mpr hwhole.1, trivial⟩, hlist⟩
  next => exact real_expected _ h

theorem real_importPath : Ensures (·.Real d) (fun i => DeclarationOf d o stop (.importPath i))
    (importPath o.range.start items stop) := by
  have hpath {t : Token} {rest : Forest} {path : String} {place : Position}
      (h : Within d lo (.leaf t rest) stop) (hplace : stop.ClosedAt place) :
      DeclarationOf d o stop (.importPath ⟨path, t.range, ⟨o.range.start, place⟩⟩) := by
    have hlist := hplace.ofList o
    have hwhole := h.whole ho hlo hlist
    have hrow : Range.Row lo [t.range] stop.range.start.offset := row_leaf h.items h.items.2.2.le
    refine ⟨⟨?_, hwhole.2.2 _ hrow⟩, hlist⟩
    exact List.forall_mem_cons.mpr ⟨hwhole.1, List.forall_mem_singleton.mpr h.items.1⟩
  unfold importPath
  split
  next t rest =>
    have hclosing := real_closing .importPath h.items.1.stop (Nat.le_refl _) ⟨h.items.2.2, h.stop⟩
    split
    · exact ensures_bind hclosing fun place hplace => ensures_pure (hpath h hplace)
    · exact ensures_bind hclosing fun place hplace => ensures_pure (hpath h hplace)
    · exact real_expected _ h
  next => exact real_expected _ h

/-- The name of a definition stands in front of what follows it. -/
structure NameIn (d : Document) (lo : Nat) (stop : ListEnd) (r : Range) (rest : Forest) : Prop where
  agrees : r.Agrees d
  start : lo ≤ r.start.offset
  rest : Within d r.stop.offset rest stop

omit ho hlo in
theorem real_definitionName : Ensures (·.Real d) (fun y => NameIn d lo stop y.1.2 y.2)
    (definitionName items stop) := by
  unfold definitionName
  split
  · exact ensures_giveUp (SyntaxFault.real_diagnostic _ h.stop.range) _ _
  next t rest =>
    split
    · exact ensures_pure ⟨h.items.1, h.items.2.1, h.items.2.2, h.stop⟩
    · exact real_expected _ h
  next p head e rest =>
    have hinner := h.items.inner
    have hhead : Ensures (·.Real d) (fun y => y.2.Agrees d ∧
        p.range.stop.offset ≤ y.2.start.offset ∧ y.2.stop.offset ≤ e.range.start.offset)
        (definitionHead head e) := by
      unfold definitionHead
      split
      · split
        · exact ensures_pure ⟨hinner.items.1, hinner.items.2.1, hinner.items.2.2.le⟩
        · exact real_unclosed_last _ hinner.stop
        · exact real_expected _ hinner
      · exact real_expected _ hinner
    refine ensures_bind (ensures_inside rest stop hhead) ?_
    rintro ⟨name, range⟩ ⟨hrange, hstart, hstop⟩
    have hlo : lo ≤ range.start.offset :=
      Nat.le_trans h.items.2.1 (Nat.le_trans h.items.1.ordered hstart)
    have hbehind : range.stop.offset ≤ e.place.offset := Nat.le_trans hstop hinner.stop.le_place
    exact ensures_pure
      ⟨hrange, hlo, h.items.2.2.2.2.weaken hbehind (Nat.le_refl _), h.stop⟩

theorem real_definition : Ensures (·.Real d) (fun x => DeclarationOf d o stop (.definition x))
    (definition limit o.range.start items stop) := by
  refine ensures_bind (real_definitionName h) ?_
  rintro ⟨⟨name, range⟩, rest⟩ hname
  simp only
  split
  · exact ensures_giveUp (SyntaxFault.real_diagnostic _ h.stop.range) _ _
  · refine ensures_bind (real_expr hname.rest) ?_
    rintro ⟨value, more⟩ hvalue
    have hv := hvalue.stands.range
    refine ensures_bind (real_closing .definition hv.stop (Nat.le_refl _) hvalue.rest)
      fun place hplace => ensures_pure ?_
    have hlist := hplace.ofList o
    have hwhole := h.whole ho hlo hlist
    have hrow : Range.Row lo [range, value.range] stop.range.start.offset :=
      ⟨hname.start, hname.agrees.ordered, hvalue.start, hv.ordered, hvalue.rest.le⟩
    refine ⟨⟨?_, hwhole.2.2 _ hrow, hvalue.stands.nested⟩, hlist⟩
    exact List.forall_mem_cons.mpr
      ⟨hwhole.1, List.forall_mem_cons.mpr ⟨hname.agrees, hvalue.stands.agrees⟩⟩

theorem real_rule {action : Action} : Ensures (·.Real d)
    (fun x => DeclarationOf d o stop (.rule x)) (rule limit action o.range.start items stop) := by
  refine ensures_bind (real_ruleItems h) ?_
  rintro ⟨operations, filters, place⟩ hitems
  have hlist := hitems.filters.closed.ofList o
  have hwhole := h.whole ho hlo hlist
  have hrule : DeclarationOf d o stop
      (.rule ⟨action, operations, filters, ⟨o.range.start, place⟩⟩) := by
    refine ⟨⟨?_, hwhole.2.2 _ hitems.row, hwhole.2.2 _ hitems.filters.row, ?_⟩, hlist⟩
    · refine List.forall_mem_cons.mpr ⟨hwhole.1, List.forall_mem_append.mpr ⟨?_, fun s hs => ?_⟩⟩
      · exact List.forall_mem_map.mpr hitems.agrees
      · obtain ⟨f, hf, hs⟩ := Filter.mem_rangesAll.mp hs
        exact (hitems.filters.stands f hf).agrees s hs
    · exact Filter.nestedAll_iff.mpr fun f hf => (hitems.filters.stands f hf).nested
  simp only
  split
  · exact ensures_bind (ensures_note (SyntaxFault.real_diagnostic _ hwhole.1)) fun _ _ =>
      ensures_pure hrule
  · exact ensures_pure hrule

end

theorem real_unrecognized {head : String} {range : Range} (hr : range.Agrees d)
    (h : stop.Stands d) : Ensures (·.Real d) (fun _ => True) (unrecognized head range stop) := by
  refine ensures_bind (ensures_note (SyntaxFault.real_diagnostic _ hr)) fun _ _ => ?_
  cases stop with
  | closed c => exact ensures_pure trivial
  | endOfFile r last => exact ensures_note (SyntaxFault.real_diagnostic _ h.1)

theorem real_namedForm {head : String} {range : Range} (ho : o.range.Agrees d)
    (hlo : o.range.stop.offset ≤ lo) (hr : range.Agrees d) (h : Within d lo items stop) :
    Ensures (·.Real d) (fun x? => ∀ x ∈ x?, DeclarationOf d o stop x)
      (namedForm limit o.range.start head range items stop) := by
  have hsome {α : Type} {f : α → Declaration} (a : α) (ha : DeclarationOf d o stop (f a)) :
      ∀ x ∈ some (f a), DeclarationOf d o stop x := by
    intro x hx
    obtain rfl := Option.some.inj hx
    exact ha
  unfold namedForm
  split
  · exact ensures_map (real_version ho hlo h) hsome
  · exact ensures_map (real_debugMode ho hlo h) hsome
  · exact ensures_map (real_importPath ho hlo h) hsome
  · exact ensures_map (real_definition ho hlo h) hsome
  · exact ensures_map (real_rule ho hlo h) hsome
  · exact ensures_map (real_rule ho hlo h) hsome
  · exact ensures_bind (real_unrecognized hr h.stop) fun _ _ => ensures_pure nofun

theorem real_declaration (ho : o.range.Agrees d) (h : Within d o.range.stop.offset items stop) :
    Ensures (·.Real d) (fun x? => ∀ x ∈ x?, DeclarationOf d o stop x)
      (declaration limit o items stop) := by
  unfold declaration
  split
  next c =>
    have hwhole := h.whole ho (Nat.le_refl _) (Range.merge_ends ho h)
    exact ensures_bind (ensures_note (SyntaxFault.real_diagnostic _ hwhole.1)) fun _ _ =>
      ensures_pure nofun
  next t rest =>
    split
    next head hkind =>
      have ht := h.items.1
      have hle : o.range.stop.offset ≤ t.range.stop.offset := Nat.le_trans h.items.2.1 ht.ordered
      exact real_namedForm ho hle ht ⟨h.items.2.2, h.stop⟩
    next => exact real_expected _ h
  next => exact real_expected _ h

/-! ### Steps -/

/-- Steps of a document whose declarations stand in a row from an offset on. -/
structure StepsIn (d : Document) (lo : Nat) (ss : List Step) (hi : Nat) : Prop where
  notes : ∀ s ∈ ss, ∀ n ∈ s.notes, n.Real d
  row : Range.Row lo ((ss.filterMap (·.declaration?)).map (·.range)) hi
  stands : ∀ x ∈ ss.filterMap (·.declaration?), x.Stands d

theorem StepsIn.skip {notes : List Diagnostic} {ss : List Step} {mid : Nat}
    (hnotes : ∀ n ∈ notes, n.Real d) (hle : lo ≤ mid) (h : StepsIn d mid ss hi) :
    StepsIn d lo (⟨notes, none⟩ :: ss) hi :=
  ⟨List.forall_mem_cons.mpr ⟨hnotes, h.notes⟩, h.row.weaken hle (Nat.le_refl _), h.stands⟩

theorem StepsIn.add {notes : List Diagnostic} {x : Declaration} {rest : Forest} {ss : List Step}
    (hnotes : ∀ n ∈ notes, n.Real d) (hlist : (Forest.list o items stop rest).Stands d lo hi)
    (hx : DeclarationOf d o stop x) (h : StepsIn d stop.place.offset ss hi) :
    StepsIn d lo (⟨notes, some x⟩ :: ss) hi :=
  ⟨List.forall_mem_cons.mpr ⟨hnotes, h.notes⟩, row_list hlist hx.list h.row,
    List.forall_mem_cons.mpr ⟨hx.stands, h.stands⟩⟩

/-- The steps of a forest that stands in a document. A form that was given up left a part of itself,
which stands in the document too. -/
theorem real_steps {f : Forest} (h : f.Stands d lo hi) : StepsIn d lo (steps limit f) hi := by
  induction f using steps_induction limit generalizing lo with
  | done =>
    rw [steps_done]
    exact ⟨List.forall_mem_nil _, h, List.forall_mem_nil _⟩
  | leaf t rest ih =>
    have ht := h.1
    have hle : lo ≤ t.range.stop.offset := Nat.le_trans h.2.1 ht.ordered
    rw [steps_leaf]
    exact (ih (Forest.stands_dropLeaves h.2.2)).skip
      (List.forall_mem_singleton.mpr (SyntaxFault.real_diagnostic _ ht)) hle
  | read o items stop rest declared houtcome ih =>
    have hform : Ensures (·.Real d) (fun x? => ∀ x ∈ x?, DeclarationOf d o stop x)
        (declaration limit o items stop) := real_declaration h.1 h.inner
    have hrest := ih h.2.2.2.2
    rw [steps_of_ok houtcome]
    cases declared with
    | none => exact hrest.skip hform.notes h.le_place
    | some x => exact hrest.add hform.notes h (hform.value _ houtcome x rfl)
  | givenUp o items stop rest unread houtcome ih =>
    have hform : Ensures (·.Real d) (fun x? => ∀ x ∈ x?, DeclarationOf d o stop x)
        (declaration limit o items stop) := real_declaration h.1 h.inner
    obtain ⟨u, hu, rfl⟩ := keeps_declaration items unread houtcome
    have hleft : (u.closedBy stop ++ rest).Stands d lo hi := h.into (hu.stands h.inner.items)
    rw [steps_of_error houtcome]
    exact (ih (Forest.stands_resume hleft)).skip hform.notes (Nat.le_refl _)

end Reading

/-! ### Diagnostics of steps -/

namespace Step

theorem real_late {version? : Option Version} {debug? : Option DebugMode} {x : Declaration}
    (hv : ∀ v ∈ version?, v.range.Agrees d) (hm : ∀ m ∈ debug?, m.range.Agrees d)
    (hx : x.range.Agrees d) : ∀ n ∈ x.late? version? debug?, n.Real d := by
  intro n hn
  cases x with
  | version v =>
    obtain ⟨first, hfirst, rfl⟩ := Option.map_eq_some_iff.mp hn
    exact SyntaxFault.real_withRelated _ hx (hv first hfirst) _
  | debug m =>
    obtain ⟨first, hfirst, rfl⟩ := Option.map_eq_some_iff.mp hn
    exact SyntaxFault.real_withRelated _ hx (hm first hfirst) _
  | importPath i => cases hn
  | definition x => cases hn
  | rule r => cases hn

theorem forall_mem_orElse {α : Type} {a? b? : Option α} {P : α → Prop} (ha : ∀ a ∈ a?, P a)
    (hb : ∀ a ∈ b?, P a) : ∀ a ∈ (a? <|> b?), P a := by
  cases a? with
  | none => exact hb
  | some a => exact ha

theorem real_diagnostics {version? : Option Version} {debug? : Option DebugMode} {ss : List Step}
    (hv : ∀ v ∈ version?, v.range.Agrees d) (hm : ∀ m ∈ debug?, m.range.Agrees d)
    (hnotes : ∀ s ∈ ss, ∀ n ∈ s.notes, n.Real d)
    (hranges : ∀ s ∈ ss, ∀ x ∈ s.declaration?, x.range.Agrees d) :
    ∀ n ∈ diagnostics version? debug? ss, n.Real d := by
  induction ss generalizing version? debug? with
  | nil => exact List.forall_mem_nil _
  | cons s ss ih =>
    obtain ⟨hown, hnotes⟩ := List.forall_mem_cons.mp hnotes
    obtain ⟨hrange, hranges⟩ := List.forall_mem_cons.mp hranges
    have hlate : ∀ n ∈ (s.declaration?.bind (·.late? version? debug?)).toList, n.Real d := by
      intro n hn
      obtain ⟨x, hx, hn⟩ := Option.bind_eq_some_iff.mp (Option.mem_toList.mp hn)
      exact real_late hv hm (hrange x hx) n hn
    rw [diagnostics]
    refine List.forall_mem_append.mpr ⟨List.forall_mem_append.mpr ⟨hown, hlate⟩, ?_⟩
    refine ih (forall_mem_orElse hv ?_) (forall_mem_orElse hm ?_) hnotes hranges
    · intro v hv
      obtain ⟨x, hx, hv⟩ := Option.bind_eq_some_iff.mp hv
      have hx := hrange x hx
      cases x <;> cases hv
      exact hx
    · intro m hm
      obtain ⟨x, hx, hm⟩ := Option.bind_eq_some_iff.mp hm
      have hx := hrange x hx
      cases x <;> cases hm
      exact hx

end Step

/-! ### Texts -/

theorem Document.agrees_fullRange (text : String) :
    (ofString text).fullRange.Agrees (ofString text) := by
  have hspans : (ofString text).fullRange.Spans .origin text.toList := by
    refine ⟨[], text.toList, [], by simp, ?_⟩
    rw [fullRange, endPosition_ofString]
    rfl
  exact hspans.agrees

/-- What the lexer finds fault with stands in the text, and comes without a fix. -/
theorem real_of_mem_tokenize {text : String} {n : Diagnostic} (h : n ∈ (tokenize text).2) :
    n.Real (.ofString text) := by
  have hrange : n.range.Agrees (.ofString text) := by
    have hdrain : n ∈ (Lexer.drain #[] (.ofString text)).2.diagnostics := Array.mem_toList_iff.mp h
    rcases Lexer.spans_of_mem_drain hdrain with hnone | hspans
    · exact absurd hnone (Array.not_mem_empty n)
    · exact hspans.agrees
  obtain ⟨fault, -, hfault⟩ : ∃ fault, fault ∈ (Lexed.ofChars text.toList).faults ∧
      Lexed.report fault = Placed.erase n := by
    rw [← List.mem_map, ← erase_faults_tokenize]
    exact List.mem_map_of_mem h
  have hfixes : n.fixes = [] := List.map_eq_nil_iff.mp (congrArg Diagnostic.fixes hfault).symm
  have hrelated : n.related = [] := List.map_eq_nil_iff.mp (congrArg Diagnostic.related hfault).symm
  refine ⟨?_, by simp [hfixes]⟩
  rw [Diagnostic.ranges, hfixes, hrelated]
  exact List.forall_mem_singleton.mpr hrange

namespace Profile

/-- The steps of a text stand in it. -/
theorem stepsIn_read (limit : Nat) (text : String) :
    Reading.StepsIn (.ofString text) 0 (Reading.steps limit (.ofTokens (tokenize text).1))
      (Document.ofString text).size :=
  Reading.real_steps (Forest.stands_ofTokens text)

/-- Whatever the text and the limit, all places in what comes of reading are places of the text:
both ends of every range are where the table of the lines has them, in order, and no fix does
anything but put a closing parenthesis where its diagnostic begins or in front of that. -/
theorem agrees_read (limit : Nat) (text : String) :
    (∀ r ∈ (read limit text).profile.ranges, r.Agrees (.ofString text)) ∧
    ∀ n ∈ (read limit text).diagnostics, (∀ r ∈ n.ranges, r.Agrees (.ofString text)) ∧
      ∀ f ∈ n.fixes, f.Closes n.range.start := by
  have hsteps := stepsIn_read limit text
  refine ⟨agrees_ofDeclarations (Document.agrees_fullRange text) hsteps.stands, fun n hn => ?_⟩
  have hreal : n.Real (.ofString text) := by
    rcases List.mem_append.mp ((Collector.mem_ofList _ _).mp hn) with hfault | hstep
    · exact real_of_mem_tokenize hfault
    · refine Step.real_diagnostics (by simp) (by simp) hsteps.notes (fun s hs x hx => ?_) n hstep
      exact (hsteps.stands x (List.mem_filterMap.mpr ⟨s, hs, hx⟩)).range
  exact ⟨hreal.agrees, hreal.closes⟩

/-- Whatever the text and the limit, the profile is nested. -/
theorem nested_read (limit : Nat) (text : String) : (read limit text).profile.Nested := by
  have hsteps := stepsIn_read limit text
  have hstop : (Document.ofString text).size ≤ (Document.ofString text).fullRange.stop.offset :=
    Nat.le_refl _
  exact nested_ofDeclarations (hsteps.row.inOrder (Nat.zero_le _) hstop)
    fun x hx => (hsteps.stands x hx).nested

end Profile

end SandboxProfile
