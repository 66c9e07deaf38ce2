import SandboxProfile.Proofs.Erasure

/-!
# Reading looks at kinds only

Every reader commutes with erasing: what is read from a forest without places is what is read from
the forest, without its places. So the declarations of a text, and the codes, messages and
severities of what is reported on it, depend on the kinds of its tokens alone (`erase_steps`).
-/

namespace SandboxProfile

open Placed (erase)

instance {α : Type} [Placed α] : Placed (Reading α) where
  erase r :=
    ⟨erase r.notes,
      match r.outcome with
      | .ok x => .ok (erase x)
      | .error unread => .error (erase unread)⟩

namespace Reading

variable {α β : Type}

theorem outcome_bind {r : Reading α} {x : α} (h : r.outcome = .ok x) (f : α → Reading β) :
    (r >>= f).outcome = (f x).outcome := by
  obtain ⟨notes, outcome⟩ := r
  subst h
  rfl

theorem outcome_bind_error {r : Reading α} {unread : Forest} (h : r.outcome = .error unread)
    (f : α → Reading β) : (r >>= f).outcome = .error unread := by
  obtain ⟨notes, outcome⟩ := r
  subst h
  rfl

variable [Placed α] [Placed β]

@[simp] theorem erase_pure (x : α) : erase (pure x : Reading α) = pure (erase x) := rfl

theorem erase_bind {r : Reading α} {f g : α → Reading β}
    (h : ∀ x, erase (f x) = g (erase x)) : erase (r >>= f) = erase r >>= g := by
  obtain ⟨notes, outcome⟩ := r
  cases outcome with
  | ok x =>
    change erase (⟨notes ++ (f x).notes, (f x).outcome⟩ : Reading β) =
      ⟨erase notes ++ (g (erase x)).notes, (g (erase x)).outcome⟩
    rw [← h x]
    change (⟨erase (notes ++ (f x).notes), _⟩ : Reading β) = _
    rw [erase_append]
    rfl
  | error unread => rfl

theorem erase_outcome_ok {r : Reading α} {x : α} (h : r.outcome = .ok x) :
    (erase r).outcome = .ok (erase x) := by
  obtain ⟨notes, outcome⟩ := r
  subst h
  rfl

theorem erase_outcome_error {r : Reading α} {unread : Forest} (h : r.outcome = .error unread) :
    (erase r).outcome = .error (erase unread) := by
  obtain ⟨notes, outcome⟩ := r
  subst h
  rfl

@[simp] theorem erase_note (d : Diagnostic) : erase (note d) = note (erase d) := rfl

@[simp] theorem erase_giveUp (d : Diagnostic) (items : Forest) (stop : ListEnd) :
    erase (giveUp d items stop : Reading α) = giveUp (erase d) (erase items) (erase stop) := by
  rw [giveUp, giveUp, ← Forest.erase_closedBy]
  rfl

@[simp] theorem erase_diagnostic (fault : SyntaxFault) (r : Range) :
    erase (fault.diagnostic r) = fault.diagnostic .zero := rfl

@[simp] theorem erase_withFix (d : Diagnostic) (p : Position) :
    erase (d.withFix (.insertClose p)) = (erase d).withFix (.insertClose .origin) := by
  change (⟨_, _, _, _, erase (d.fixes ++ [_]), _⟩ : Diagnostic) = _
  rw [erase_append]
  rfl

theorem next_erase (items : Forest) (stop : ListEnd) :
    (erase items).next (erase stop) = ((items.next stop).1, .zero) := by
  rw [← Forest.erase_next]
  rfl

@[simp] theorem erase_expected (what : Expected) (items : Forest) (stop : ListEnd) :
    erase (expected what items stop : Reading α) = expected what (erase items) (erase stop) := by
  rw [expected, expected, next_erase, erase_giveUp, erase_diagnostic]

@[simp] theorem erase_unclosed (what : Construct) (p : Position) (items : Forest)
    (stop : ListEnd) :
    erase (unclosed what p items stop : Reading α) =
      unclosed what .origin (erase items) (erase stop) := by
  rw [unclosed, unclosed, next_erase, erase_giveUp, erase_withFix, erase_diagnostic]

@[simp] theorem erase_closing (what : Construct) (p : Position) (items : Forest)
    (stop : ListEnd) :
    erase (closing what p items stop) = closing what .origin (erase items) (erase stop) := by
  cases items with
  | done =>
    cases stop with
    | closed c => rfl
    | endOfFile r last => exact erase_unclosed what p .done (.endOfFile r last)
  | leaf t rest => exact erase_unclosed what p (.leaf t rest) stop
  | list o inner e rest => exact erase_unclosed what p (.list o inner e rest) stop

@[simp] theorem erase_ending (what : Construct) (stop : ListEnd) :
    erase (ending what stop) = ending what (erase stop) := by
  cases stop with
  | closed c => rfl
  | endOfFile r last => exact erase_unclosed what last .done (.endOfFile r last)

@[simp] theorem erase_enter (limit depth : Nat) (o : Token) (items : Forest) (stop : ListEnd) :
    erase (enter limit depth o items stop) =
      enter limit depth (.bare o.kind) (erase items) (erase stop) := by
  rw [enter, enter]
  split
  · rfl
  · exact erase_giveUp ..

@[simp] theorem erase_inside (rest : Forest) (stop : ListEnd) (r : Reading α) :
    erase (r.inside rest stop) = (erase r).inside (erase rest) (erase stop) := by
  obtain ⟨notes, outcome⟩ := r
  cases outcome with
  | ok x => rfl
  | error unread =>
    change (⟨erase notes, .error (erase (unread ++ rest.closedBy stop))⟩ : Reading α) = _
    rw [Forest.erase_append, Forest.erase_closedBy]
    rfl

@[simp] theorem erase_recover (r : Reading α) : erase r.recover = (erase r).recover := by
  obtain ⟨notes, outcome⟩ := r
  cases outcome <;> rfl

/-! ### Expressions -/

@[simp] theorem ofToken?_bare (t : Token) :
    Expr.ofToken? (.bare t.kind) = erase (Expr.ofToken? t) := by
  unfold Expr.ofToken?
  rw [bare_kind]
  cases t.kind <;> rfl

variable {limit depth : Nat} {what : Construct}

theorem erase_exprs (items : Forest) (stop : ListEnd) :
    erase (exprs limit depth what stop items) =
      exprs limit depth what (erase stop) (erase items) := by
  induction items generalizing depth what stop with
  | done =>
    rw [exprs, Forest.erase_done, exprs, ← erase_ending]
    exact erase_bind fun _ => rfl
  | leaf t rest ih =>
    rw [exprs, Forest.erase_leaf, exprs, ofToken?_bare]
    cases Expr.ofToken? t with
    | none => exact erase_expected ..
    | some atom =>
      rw [← ih]
      exact erase_bind fun _ => rfl
  | list o inner e rest ihi ihr =>
    rw [exprs, Forest.erase_list, exprs, ← Forest.erase_list, ← erase_enter]
    refine erase_bind fun _ => ?_
    rw [← ihi, ← ihr, ← erase_inside]
    apply erase_bind
    rintro ⟨xs, p⟩
    apply erase_bind
    rintro ⟨more, last⟩
    change pure (Expr.list (Expr.eraseAll xs) .zero :: erase more, Position.origin) = _
    rw [Expr.eraseAll_eq]
    rfl

theorem erase_listTail (o : Token) (items : Forest) (stop : ListEnd) :
    erase (listTail limit depth o items stop) =
      listTail limit depth (.bare o.kind) (erase items) (erase stop) := by
  rw [listTail, listTail, ← erase_exprs]
  refine erase_bind fun ⟨xs, p⟩ => ?_
  change pure (Expr.list (Expr.eraseAll xs) .zero) = _
  rw [Expr.eraseAll_eq]
  rfl

theorem erase_expr (items : Forest) (stop : ListEnd) :
    erase (expr limit depth stop items) = expr limit depth (erase stop) (erase items) := by
  cases items with
  | done => exact erase_expected ..
  | leaf t rest =>
    rw [Forest.erase_leaf, expr, expr, ofToken?_bare]
    cases Expr.ofToken? t with
    | none => exact erase_expected ..
    | some atom => rfl
  | list o inner e rest =>
    rw [expr, Forest.erase_list, expr, ← Forest.erase_list, ← erase_enter, ← erase_listTail,
      ← erase_inside]
    exact erase_bind fun _ => erase_bind fun _ => rfl

/-! ### Filters -/

/-- What a simple filter reads behind its type. -/
theorem erase_simpleValue (o type : Token) (name : String) (stop : ListEnd) (rest : Forest) :
    erase (do
      let (value, more) ← expr limit depth stop rest
      let (_, place) ← exprs limit depth .filter stop more
      pure (Filter.simple name type.range value ⟨o.range.start, place⟩)) =
    (do
      let (value, more) ← expr limit depth (erase stop) (erase rest)
      let (_, place) ← exprs limit depth .filter (erase stop) more
      pure (Filter.simple name .zero value ⟨.origin, place⟩)) := by
  rw [← erase_expr]
  apply erase_bind
  rintro ⟨value, more⟩
  change _ = exprs limit depth .filter (erase stop) (erase more) >>= _
  rw [← erase_exprs]
  exact erase_bind fun _ => rfl

theorem erase_simpleFilter (o type : Token) (name : String) (items : Forest) (stop : ListEnd) :
    erase (simpleFilter limit depth o type name items stop) =
      simpleFilter limit depth (.bare o.kind) (.bare type.kind) name (erase items)
        (erase stop) := by
  cases items with
  | done =>
    cases stop with
    | closed c => exact erase_giveUp _ .done (.closed c)
    | endOfFile r last => exact erase_unclosed .filter last .done (.endOfFile r last)
  | leaf t rest => exact erase_simpleValue o type name stop (.leaf t rest)
  | list p inner e rest => exact erase_simpleValue o type name stop (.list p inner e rest)

theorem erase_negationEnd (extras : Forest) (stop : ListEnd) :
    erase (negationEnd extras stop) = negationEnd (erase extras) (erase stop) := by
  rw [negationEnd, negationEnd, ← Forest.erase_start?, ← Forest.erase_stop?, ← erase_ending]
  cases extras.start? with
  | none => rfl
  | some first =>
    cases extras.stop? with
    | none => rfl
    | some last => exact erase_bind fun _ => rfl

mutual

theorem erase_filter (depth : Nat) (o : Token) (stop : ListEnd) : ∀ items : Forest,
    erase (filter limit depth o stop items) =
      filter limit depth (.bare o.kind) (erase stop) (erase items)
  | .done => by
    cases stop with
    | closed c => exact erase_bind fun _ => rfl
    | endOfFile r last =>
      rw [filter]
      change _ = listTail limit depth (.bare o.kind) (erase .done) (erase (.endOfFile r last)) >>= _
      rw [← erase_listTail]
      exact erase_bind fun _ => rfl
  | .leaf t rest => by
    have htail : erase (do
        let list ← listTail limit depth o (.leaf t rest) stop
        pure (Filter.expression list)) = (do
        let list ← listTail limit depth (.bare o.kind) (erase (Forest.leaf t rest)) (erase stop)
        pure (.expression list)) := by
      rw [← erase_listTail]
      exact erase_bind fun _ => rfl
    rw [Forest.erase_leaf, filter, filter, bare_kind]
    cases hk : t.kind with
    | symbol name =>
      simp only
      cases CompoundKind.ofText? name with
      | some kind =>
        simp only
        rw [← erase_filters depth kind stop rest]
        refine erase_bind fun ⟨parts, place⟩ => ?_
        change pure (Filter.compound kind (Filter.eraseAll parts) .zero) = _
        rw [Filter.eraseAll_eq]
        rfl
      | none =>
        simp only
        split
        · rw [← erase_negation depth stop rest]
          exact erase_bind fun _ => rfl
        · rw [erase_simpleFilter, hk]
    | leftParen | rightParen | integer n | string s | rawString s | boolean b | endOfFile
    | unknown c | missing what =>
      rw [Forest.erase_leaf, hk] at htail
      exact htail
  | .list p inner e rest => by
    rw [Forest.erase_list, filter, filter, ← Forest.erase_list, ← erase_listTail]
    exact erase_bind fun _ => rfl

theorem erase_negation (depth : Nat) (stop : ListEnd) : ∀ items : Forest,
    erase (negation limit depth stop items) = negation limit depth (erase stop) (erase items)
  | .done => by
    cases stop with
    | closed c => exact erase_giveUp _ .done (.closed c)
    | endOfFile r last => exact erase_unclosed .negation last .done (.endOfFile r last)
  | .leaf t rest => by
    rw [negation, Forest.erase_leaf, negation, ← Forest.erase_leaf, ← erase_expected]
  | .list o items e extras => by
    rw [negation, Forest.erase_list, negation, ← Forest.erase_list, ← erase_enter,
      ← erase_filter (depth + 1) o e items, ← erase_inside, ← erase_negationEnd]
    exact erase_bind fun _ => erase_bind fun _ => erase_bind fun _ => rfl

theorem erase_filters (depth : Nat) (kind : CompoundKind) (stop : ListEnd) : ∀ items : Forest,
    erase (filters limit depth kind stop items) =
      filters limit depth kind (erase stop) (erase items)
  | .done => by
    rw [filters, Forest.erase_done, filters, ← erase_ending]
    exact erase_bind fun _ => rfl
  | .leaf t rest => by
    rw [filters, Forest.erase_leaf, filters, ← erase_filters depth kind stop rest]
    exact erase_bind fun _ => rfl
  | .list o items e rest => by
    rw [filters, Forest.erase_list, filters, ← erase_filters depth kind stop rest, ← erase_enter,
      ← erase_filter (depth + 1) o e items]
    rw [← erase_bind (f := fun _ => filter limit (depth + 1) o e items) fun _ => rfl,
      ← erase_recover]
    refine erase_bind fun part => erase_bind fun ⟨more, place⟩ => ?_
    cases part <;> rfl

end

theorem erase_ruleItems (stop : ListEnd) (items : Forest) :
    erase (ruleItems limit stop items) = ruleItems limit (erase stop) (erase items) := by
  induction items with
  | done =>
    rw [ruleItems, Forest.erase_done, ruleItems, ← erase_ending]
    exact erase_bind fun _ => rfl
  | leaf t rest ih =>
    rw [ruleItems, Forest.erase_leaf, ruleItems, bare_kind]
    cases hk : t.kind with
    | symbol name =>
      simp only
      rw [← ih]
      exact erase_bind fun _ => rfl
    | leftParen | rightParen | integer n | string s | rawString s | boolean b | endOfFile
    | unknown c | missing what =>
      simp only
      rw [erase_giveUp, Forest.erase_leaf, hk, erase_diagnostic, bare_range]
  | list o inner e rest _ ih =>
    rw [ruleItems, Forest.erase_list, ruleItems, ← ih, ← erase_enter, ← erase_filter 1 o e inner]
    rw [← erase_bind (f := fun _ => filter limit 1 o e inner) fun _ => rfl, ← erase_recover]
    refine erase_bind fun part => erase_bind ?_
    rintro ⟨operations, more, place⟩
    cases part <;> rfl

/-! ### Declarations -/

theorem erase_declared {f : α → Declaration} (h : ∀ x, erase (f x) = f (erase x))
    (r : Reading α) :
    erase ((fun x => some (f x)) <$> r) = (fun x => some (f x)) <$> erase r :=
  erase_bind fun x => congrArg (fun d => pure (some d)) (h x)

theorem erase_version (start : Position) (items : Forest) (stop : ListEnd) :
    erase (version start items stop) = version .origin (erase items) (erase stop) := by
  cases items with
  | done => exact erase_expected ..
  | list o inner e rest => exact erase_expected .versionNumber (.list o inner e rest) stop
  | leaf t rest =>
    rw [Forest.erase_leaf, version, version, bare_kind]
    cases hk : t.kind with
    | integer n =>
      simp only
      rw [bare_range, zero_stop, ← erase_closing .version t.range.stop]
      exact erase_bind fun _ => rfl
    | leftParen | rightParen | symbol name | string s | rawString s | boolean b | endOfFile
    | unknown c | missing what =>
      simp only
      rw [erase_expected, Forest.erase_leaf, hk]

theorem erase_debugAction (t : Token) :
    erase (debugAction t) = debugAction (.bare t.kind) := by
  have hsymbol : (Token.bare t.kind).symbol? = t.symbol? := rfl
  rw [debugAction, debugAction, hsymbol, bare_kind, bare_range]
  cases t.symbol?.bind fun name => (Action.ofText name).toOption with
  | some action => rfl
  | none => exact erase_bind fun _ => rfl

theorem erase_debugMode (start : Position) (items : Forest) (stop : ListEnd) :
    erase (debugMode start items stop) = debugMode .origin (erase items) (erase stop) := by
  cases items with
  | done =>
    rw [debugMode, Forest.erase_done, debugMode, erase_giveUp, erase_diagnostic]
    cases stop <;> rfl
  | list o inner e rest => exact erase_expected .debugMode (.list o inner e rest) stop
  | leaf t rest =>
    rw [debugMode, Forest.erase_leaf, debugMode, ← erase_debugAction]
    refine erase_bind fun action => ?_
    rw [bare_range, zero_stop, ← erase_closing .debug t.range.stop]
    exact erase_bind fun _ => rfl

theorem erase_importPath (start : Position) (items : Forest) (stop : ListEnd) :
    erase (importPath start items stop) = importPath .origin (erase items) (erase stop) := by
  cases items with
  | done => exact erase_expected ..
  | list o inner e rest => exact erase_expected .importPath (.list o inner e rest) stop
  | leaf t rest =>
    rw [Forest.erase_leaf, importPath, importPath, bare_kind]
    cases hk : t.kind with
    | string path | rawString path =>
      simp only
      rw [bare_range, zero_stop, ← erase_closing .importPath t.range.stop]
      exact erase_bind fun _ => rfl
    | leftParen | rightParen | symbol name | integer n | boolean b | endOfFile
    | unknown c | missing what =>
      simp only
      rw [erase_expected, Forest.erase_leaf, hk]

theorem erase_definitionHead (items : Forest) (stop : ListEnd) :
    erase (definitionHead items stop) = definitionHead (erase items) (erase stop) := by
  cases items with
  | done => exact erase_expected ..
  | list o inner e rest => exact erase_expected .definitionName (.list o inner e rest) stop
  | leaf t rest =>
    cases hk : t.kind with
    | symbol name =>
      simp only [definitionHead, Forest.erase_leaf, bare_kind, hk]
      cases stop with
      | closed c => rfl
      | endOfFile r last => exact erase_unclosed .definitionHead last .done (.endOfFile r last)
    | leftParen | rightParen | string s | rawString s | integer n | boolean b | endOfFile
    | unknown c | missing what =>
      simp only [definitionHead, hk, Forest.erase_leaf, bare_kind]
      rw [erase_expected, Forest.erase_leaf, hk]

theorem erase_definitionName (items : Forest) (stop : ListEnd) :
    erase (definitionName items stop) = definitionName (erase items) (erase stop) := by
  cases items with
  | done =>
    rw [definitionName, Forest.erase_done, definitionName, erase_giveUp, erase_diagnostic]
    cases stop <;> rfl
  | list o head e rest =>
    rw [definitionName, Forest.erase_list, definitionName, ← erase_definitionHead, ← erase_inside]
    exact erase_bind fun _ => rfl
  | leaf t rest =>
    rw [Forest.erase_leaf, definitionName, definitionName, bare_kind]
    cases hk : t.kind with
    | symbol name => rfl
    | leftParen | rightParen | string s | rawString s | integer n | boolean b | endOfFile
    | unknown c | missing what =>
      simp only
      rw [erase_expected, Forest.erase_leaf, hk]

/-- What a definition reads behind its name. -/
theorem erase_definitionValue (start : Position) (name : String) (nameRange : Range)
    (stop : ListEnd) (rest : Forest) :
    erase (do
      let (value, more) ← expr limit 0 stop rest
      let place ← closing .definition value.range.stop more stop
      pure (⟨name, nameRange, value, ⟨start, place⟩⟩ : Definition)) =
    (do
      let (value, more) ← expr limit 0 (erase stop) (erase rest)
      let place ← closing .definition value.range.stop more (erase stop)
      pure ⟨name, .zero, value, ⟨.origin, place⟩⟩) := by
  rw [← erase_expr]
  apply erase_bind
  rintro ⟨value, more⟩
  have hrange : (erase value).range.stop = .origin := by cases value <;> rfl
  change _ = closing .definition (erase value).range.stop (erase more) (erase stop) >>= _
  rw [hrange, ← erase_closing .definition value.range.stop]
  exact erase_bind fun _ => rfl

theorem erase_definition (start : Position) (items : Forest) (stop : ListEnd) :
    erase (definition limit start items stop) =
      definition limit .origin (erase items) (erase stop) := by
  rw [definition, definition, ← erase_definitionName]
  apply erase_bind
  rintro ⟨⟨name, nameRange⟩, rest⟩
  cases rest with
  | done =>
    simp only
    rw [erase_giveUp, erase_diagnostic]
    cases stop <;> rfl
  | leaf t rest => exact erase_definitionValue start name nameRange stop (.leaf t rest)
  | list o inner e rest =>
    exact erase_definitionValue start name nameRange stop (.list o inner e rest)

theorem erase_rule (start : Position) (action : Action) (items : Forest) (stop : ListEnd) :
    erase (rule limit action start items stop) =
      rule limit action .origin (erase items) (erase stop) := by
  rw [rule, rule, ← erase_ruleItems]
  refine erase_bind fun ⟨operations, filters, place⟩ => ?_
  have hempty : ((erase operations).isEmpty && (erase filters).isEmpty) =
      (operations.isEmpty && filters.isEmpty) := by
    cases operations <;> cases filters <;> rfl
  simp only [erase_pair, hempty]
  cases operations.isEmpty && filters.isEmpty with
  | true => exact erase_bind fun _ => rfl
  | false => rfl

theorem erase_unrecognized (head : String) (r : Range) (stop : ListEnd) :
    erase (unrecognized head r stop) = unrecognized head .zero (erase stop) := by
  refine erase_bind fun _ => ?_
  cases stop <;> rfl

theorem erase_namedForm (start : Position) (head : String) (r : Range) (items : Forest)
    (stop : ListEnd) :
    erase (namedForm limit start head r items stop) =
      namedForm limit .origin head .zero (erase items) (erase stop) := by
  unfold namedForm
  split
  · rw [← erase_version start]
    exact erase_declared (f := Declaration.version) (fun _ => rfl) _
  · rw [← erase_debugMode start]
    exact erase_declared (f := Declaration.debug) (fun _ => rfl) _
  · rw [← erase_importPath start]
    exact erase_declared (f := Declaration.importPath) (fun _ => rfl) _
  · rw [← erase_definition start]
    exact erase_declared (f := Declaration.definition) (fun _ => rfl) _
  · rw [← erase_rule start]
    exact erase_declared (f := Declaration.rule) (fun _ => rfl) _
  · rw [← erase_rule start]
    exact erase_declared (f := Declaration.rule) (fun _ => rfl) _
  · rw [← erase_unrecognized]
    exact erase_bind fun _ => rfl

theorem erase_declaration (o : Token) (items : Forest) (stop : ListEnd) :
    erase (declaration limit o items stop) =
      declaration limit (.bare o.kind) (erase items) (erase stop) := by
  cases items with
  | done =>
    cases stop with
    | closed c => exact erase_bind fun _ => rfl
    | endOfFile r last => exact erase_expected .formName .done (.endOfFile r last)
  | list p inner e rest =>
    have h := erase_expected (α := Option Declaration) .formName (.list p inner e rest) stop
    cases stop <;> exact h
  | leaf t rest =>
    have h := erase_expected (α := Option Declaration) .formName (.leaf t rest) stop
    cases hk : t.kind with
    | symbol head =>
      have hform : erase (declaration limit o (.leaf t rest) stop) =
          namedForm limit .origin head .zero (erase rest) (erase stop) := by
        simp only [declaration, hk]
        exact erase_namedForm ..
      rw [hform, Forest.erase_leaf, hk]
      cases stop <;> rfl
    | leftParen | rightParen | string s | rawString s | integer n | boolean b | endOfFile
    | unknown c | missing what =>
      have hform : erase (declaration limit o (.leaf t rest) stop) =
          expected .formName (erase (Forest.leaf t rest)) (erase stop) := by
        simp only [declaration, hk]
        exact h
      rw [hform, Forest.erase_leaf, hk]
      cases stop <;> rfl

/-! ### Documents -/

@[simp] theorem steps_done : steps limit .done = [] := by rw [steps]

@[simp] theorem steps_leaf (t : Token) (rest : Forest) :
    steps limit (.leaf t rest) =
      ⟨[(SyntaxFault.strayAtTop t.kind).diagnostic t.range], none⟩ ::
        steps limit rest.dropLeaves := by
  rw [steps]

theorem steps_of_ok {o : Token} {items : Forest} {stop : ListEnd} {rest : Forest}
    {declared : Option Declaration} (h : (declaration limit o items stop).outcome = .ok declared) :
    steps limit (.list o items stop rest) =
      ⟨(declaration limit o items stop).notes, declared⟩ :: steps limit rest := by
  rw [steps]
  split
  next d hd =>
    obtain rfl : declared = d := Except.ok.inj (h.symm.trans hd)
    rfl
  next u hu => rw [h] at hu; cases hu

theorem steps_of_error {o : Token} {items : Forest} {stop : ListEnd} {rest unread : Forest}
    (h : (declaration limit o items stop).outcome = .error unread) :
    steps limit (.list o items stop rest) =
      ⟨(declaration limit o items stop).notes, none⟩ ::
        steps limit (unread ++ rest).resume := by
  rw [steps]
  split
  next d hd => rw [h] at hd; cases hd
  next u hu =>
    obtain rfl : unread = u := Except.error.inj (h.symm.trans hu)
    rfl

/-- The steps of a document without its places. -/
theorem erase_steps (f : Forest) : erase (steps limit f) = steps limit (erase f) := by
  fun_induction steps limit f with
  | case1 => rw [Forest.erase_done, steps_done, erase_nil]
  | case2 t rest ih =>
    rw [erase_cons, ih, Forest.erase_leaf, steps_leaf, Forest.erase_dropLeaves]
    rfl
  | case3 o items stop rest form declared hform ih =>
    have hd : erase (declaration limit o items stop) =
        declaration limit (.bare o.kind) (erase items) (erase stop) :=
      erase_declaration o items stop
    have ho := hd ▸ erase_outcome_ok hform
    rw [erase_cons, ih, Forest.erase_list, steps_of_ok ho, ← hd]
    rfl
  | case4 o items stop rest form unread hform ih =>
    have hd : erase (declaration limit o items stop) =
        declaration limit (.bare o.kind) (erase items) (erase stop) :=
      erase_declaration o items stop
    have ho := hd ▸ erase_outcome_error hform
    rw [erase_cons, ih, Forest.erase_list, steps_of_error ho, ← hd, Forest.erase_resume,
      Forest.erase_append]
    rfl

end Reading

end SandboxProfile
