import SandboxProfile.Proofs.Completeness

/-!
# What is read without an error derives

A reader that reports no error stood in a closed list whose trees are those of a derivation, and the
derivation nests no deeper than allowed. So no reader drops a token without an error, save where the
grammar says so.
-/

namespace SandboxProfile

namespace Reading

open Forest (word group Whole Grouped)

variable {α β : Type}

theorem harmless_left {r : Reading α} {f : α → Reading β} (h : Harmless (r >>= f).notes) :
    Harmless r.notes := by
  obtain ⟨notes, outcome⟩ := r
  cases outcome with
  | ok x => exact ((harmless_append _ _).mp h).1
  | error unread => exact h

/-- Goes on behind a reading whose value is known to have a property. -/
theorem harmless_next {r : Reading α} {f : α → Reading β} {P : α → Prop} (hr : Yields r P)
    (h : Harmless (r >>= f).notes) : ∃ x, P x ∧ Harmless (f x).notes := by
  obtain ⟨notes, outcome⟩ := r
  obtain ⟨-, x, rfl, hx⟩ := hr
  exact ⟨x, hx, ((harmless_append _ _).mp h).2⟩

theorem harmless_map {r : Reading α} {g : α → β} (h : Harmless (g <$> r).notes) :
    Harmless r.notes :=
  harmless_left h

@[simp] theorem notes_inside (rest : Forest) (stop : ListEnd) (r : Reading α) :
    (r.inside rest stop).notes = r.notes := by
  obtain ⟨notes, outcome⟩ := r
  cases outcome <;> rfl

@[simp] theorem notes_recover (r : Reading α) : r.recover.notes = r.notes := rfl

/-! ### Errors -/

theorem not_harmless_note {d : Diagnostic} (h : d.isError = true) : ¬Harmless (note d).notes := by
  intro hd
  have hf : d.isError = false := hd d (List.mem_singleton.mpr rfl)
  rw [h] at hf
  cases hf

theorem not_harmless_giveUp {d : Diagnostic} {items : Forest} {stop : ListEnd}
    (h : d.isError = true) : ¬Harmless (giveUp d items stop : Reading α).notes :=
  not_harmless_note h

theorem not_harmless_expected {what : Expected} {items : Forest} {stop : ListEnd} :
    ¬Harmless (expected what items stop : Reading α).notes :=
  not_harmless_giveUp (by cases what <;> rfl)

theorem not_harmless_unclosed {what : Construct} {place : Position} {items : Forest}
    {stop : ListEnd} : ¬Harmless (unclosed what place items stop : Reading α).notes :=
  not_harmless_giveUp rfl

theorem closed_of_ending {what : Construct} {stop : ListEnd}
    (h : Harmless (ending what stop).notes) : ∃ c, stop = .closed c := by
  cases stop with
  | closed c => exact ⟨c, rfl⟩
  | endOfFile range last =>
    rw [ending] at h
    exact absurd h not_harmless_unclosed

theorem closed_of_closing {what : Construct} {place : Position} {items : Forest} {stop : ListEnd}
    (h : Harmless (closing what place items stop).notes) :
    items = .done ∧ ∃ c, stop = .closed c := by
  unfold closing at h
  split at h
  · exact ⟨rfl, _, rfl⟩
  · exact absurd h not_harmless_unclosed

theorem lt_of_enter {limit depth : Nat} {o : Token} {items : Forest} {stop : ListEnd}
    (h : Harmless (enter limit depth o items stop).notes) : depth < limit := by
  unfold enter at h
  split at h
  · assumption
  · exact absurd h (not_harmless_giveUp rfl)

/-- A list that was entered, and what follows. -/
theorem harmless_entered {limit depth : Nat} {o : Token} {items : Forest} {stop : ListEnd}
    {r : Reading α} (h : Harmless (enter limit depth o items stop >>= fun _ => r).notes) :
    depth < limit ∧ Harmless r.notes := by
  have hlt := lt_of_enter (harmless_left h)
  obtain ⟨-, -, hr⟩ := harmless_next (yields_enter hlt) h
  exact ⟨hlt, hr⟩

/-! ### Expressions -/

variable {limit : Nat}

theorem atom_of_ofToken? {k : TokenKind} {a : Expr} (h : Expr.ofToken? (.bare k) = some a) :
    ∃ x : Grammar.Expr, x.depth = 0 ∧ ∀ rest, x.forest rest = word k rest := by
  cases k with
  | integer n => exact ⟨.integer n, rfl, fun _ => rfl⟩
  | string s => exact ⟨.string s, rfl, fun _ => rfl⟩
  | rawString s => exact ⟨.rawString s, rfl, fun _ => rfl⟩
  | boolean b => exact ⟨.boolean b, rfl, fun _ => rfl⟩
  | symbol name => exact ⟨.symbol name, rfl, fun _ => rfl⟩
  | leftParen | rightParen | endOfFile | unknown c | missing what => cases h

theorem sound_exprs (f : Forest) {stray : Bool} (hg : Grouped stray f) {depth : Nat}
    {what : Construct} {stop : ListEnd} (hd : depth ≤ limit)
    (h : Harmless (exprs limit depth what stop f).notes) :
    (∃ c, stop = .closed c) ∧
      ∃ xs, f = Grammar.Expr.forestAll xs ∧ depth + Grammar.Expr.depthAll xs ≤ limit := by
  induction f generalizing stray depth what stop with
  | done =>
    rw [exprs] at h
    exact ⟨closed_of_ending (harmless_left h), [], rfl, hd⟩
  | leaf t rest ih =>
    cases hg with
    | leaf _ _ hrest =>
      rw [exprs] at h
      split at h
      next atom ha =>
        obtain ⟨hstop, xs, rfl, hxs⟩ := ih hrest hd (harmless_left h)
        obtain ⟨x, hx, hforest⟩ := atom_of_ofToken? ha
        refine ⟨hstop, x :: xs, (hforest _).symm, ?_⟩
        rw [Grammar.Expr.depthAll, hx]
        omega
      next => exact absurd h not_harmless_expected
  | list o items e rest ihi ihr =>
    rw [exprs] at h
    obtain ⟨hlt, h⟩ := harmless_entered h
    cases hg with
    | group hitems hrest =>
      have hinner := harmless_left h
      rw [notes_inside] at hinner
      obtain ⟨-, xs, rfl, hxs⟩ := ihi (hitems.grouped : Grouped true items) hlt hinner
      obtain ⟨⟨inner, place⟩, -, h⟩ := harmless_next (yields_inside _ _ (yields_exprs xs hxs)) h
      obtain ⟨hstop, ys, rfl, hys⟩ := ihr hrest hd (harmless_left h)
      refine ⟨hstop, .list xs :: ys, rfl, ?_⟩
      rw [Grammar.Expr.depthAll, Grammar.Expr.depth]
      omega
    | unclosed hitems =>
      have hinner := harmless_left h
      rw [notes_inside] at hinner
      obtain ⟨⟨c, hc⟩, -⟩ := ihi hitems hlt hinner
      cases hc

theorem sound_listTail {f : Forest} {stray : Bool} (hg : Grouped stray f) {depth : Nat} {o : Token}
    {stop : ListEnd} (hd : depth ≤ limit)
    (h : Harmless (listTail limit depth o f stop).notes) :
    (∃ c, stop = .closed c) ∧
      ∃ xs, f = Grammar.Expr.forestAll xs ∧ depth + Grammar.Expr.depthAll xs ≤ limit :=
  sound_exprs f hg hd (harmless_left h)

theorem sound_expr {f : Forest} {stray : Bool} (hg : Grouped stray f) {depth : Nat}
    {stop : ListEnd} (hd : depth ≤ limit) (h : Harmless (expr limit depth stop f).notes) :
    ∃ x rest, f = Grammar.Expr.forest x rest ∧ Grouped stray rest ∧ depth + x.depth ≤ limit := by
  cases hg with
  | done => exact absurd h not_harmless_expected
  | @leaf _ k rest _ _ hrest =>
    rw [expr] at h
    split at h
    next atom ha =>
      obtain ⟨x, hx, hforest⟩ := atom_of_ofToken? ha
      exact ⟨x, rest, (hforest rest).symm, hrest, by omega⟩
    next => exact absurd h not_harmless_expected
  | @group _ items rest hitems hrest =>
    obtain ⟨hlt, h⟩ := harmless_entered h
    have hinner := harmless_left h
    rw [notes_inside] at hinner
    obtain ⟨-, xs, rfl, hxs⟩ := sound_listTail (hitems.grouped : Grouped true items) hlt hinner
    refine ⟨.list xs, rest, rfl, hrest, ?_⟩
    rw [Grammar.Expr.depth]
    omega
  | unclosed hitems =>
    obtain ⟨hlt, h⟩ := harmless_entered h
    have hinner := harmless_left h
    rw [notes_inside] at hinner
    obtain ⟨⟨c, hc⟩, -⟩ := sound_listTail hitems hlt hinner
    cases hc

/-! ### Filters -/

theorem text_of_ofText? {name : String} {kind : CompoundKind}
    (h : CompoundKind.ofText? name = some kind) : name = kind.text := by
  unfold CompoundKind.ofText? at h
  split at h <;> cases h <;> rfl

theorem not_hasParts {name : String} (hk : CompoundKind.ofText? name = none)
    (hn : name ≠ negationText) : Wire.hasParts name = false := by
  simp [Wire.hasParts, hk, hn]

/-- A list that was read as an expression and does not begin with a symbol. -/
theorem sound_plain {f : Forest} {stray : Bool} (hg : Grouped stray f) (hne : f ≠ .done)
    (hs : ∀ name rest, f ≠ word (.symbol name) rest) {depth : Nat} {o : Token} {stop : ListEnd}
    (hd : depth ≤ limit) (h : Harmless (listTail limit depth o f stop).notes) :
    (∃ c, stop = .closed c) ∧
      ∃ g : Grammar.Filter, f = g.innerForest ∧ depth + g.depth ≤ limit + 1 := by
  obtain ⟨hstop, xs, rfl, hxs⟩ := sound_listTail hg hd h
  cases xs with
  | nil => exact absurd rfl hne
  | cons x xs =>
    have hplain : x.isSymbol = false := by
      cases x with
      | symbol name => exact absurd rfl (hs name _)
      | integer _ | string _ | rawString _ | boolean _ | list _ => rfl
    refine ⟨hstop, .expression x hplain xs, rfl, ?_⟩
    rw [Grammar.Filter.depth]
    omega

theorem sound_simpleFilter {f : Forest} {stray : Bool} (hg : Grouped stray f) {depth : Nat}
    {o type : Token} {name : String} {stop : ListEnd} (hd : depth ≤ limit)
    (h : Harmless (simpleFilter limit depth o type name f stop).notes) :
    (∃ c, stop = .closed c) ∧ ∃ value extras,
      f = Grammar.Expr.forest value (Grammar.Expr.forestAll extras) ∧
        depth + Grammar.Expr.depthAll (value :: extras) ≤ limit := by
  by_cases hne : f = .done
  · subst hne
    cases stop with
    | closed c => exact absurd h (not_harmless_giveUp rfl)
    | endOfFile range last =>
      rw [simpleFilter] at h
      exact absurd h not_harmless_unclosed
  · rw [simpleFilter_of_items hne] at h
    obtain ⟨value, rest, rfl, hrest, hvalue⟩ := sound_expr hg hd (harmless_left h)
    obtain ⟨⟨y, more⟩, ⟨-, hmore⟩, hnext⟩ := harmless_next (yields_expr value hvalue) h
    obtain rfl : more = rest := hmore
    obtain ⟨hstop, extras, rfl, hextras⟩ := sound_exprs more hrest hd (harmless_left hnext)
    refine ⟨hstop, value, extras, rfl, ?_⟩
    rw [Grammar.Expr.depthAll]
    omega

theorem start?_of_ne_done {f : Forest} (h : f ≠ .done) : ∃ p, f.start? = some p := by
  cases f with
  | done => exact absurd rfl h
  | leaf t rest => exact ⟨_, rfl⟩
  | list o items stop rest => exact ⟨_, rfl⟩

theorem stop?_of_ne_done {f : Forest} (h : f ≠ .done) : ∃ p, f.stop? = some p := by
  cases f with
  | done => exact absurd rfl h
  | leaf t rest => exact ⟨_, rfl⟩
  | list o items stop rest => cases stop <;> exact ⟨_, rfl⟩

theorem done_of_negationEnd {extras : Forest} {stop : ListEnd}
    (h : Harmless (negationEnd extras stop).notes) :
    extras = .done ∧ ∃ c, stop = .closed c := by
  by_cases hne : extras = .done
  · subst hne
    have hend : Harmless (ending .negation stop).notes := h
    exact ⟨rfl, closed_of_ending hend⟩
  · obtain ⟨first, hfirst⟩ := start?_of_ne_done hne
    obtain ⟨last, hlast⟩ := stop?_of_ne_done hne
    rw [negationEnd, hfirst, hlast] at h
    exact absurd (harmless_left h) (not_harmless_note rfl)

mutual

theorem sound_filter (depth : Nat) (o : Token) (stop : ListEnd) : ∀ (f : Forest) {stray : Bool},
    Grouped stray f → depth ≤ limit → Harmless (filter limit depth o stop f).notes →
    (∃ c, stop = .closed c) ∧
      ∃ g : Grammar.Filter, f = g.innerForest ∧ depth + g.depth ≤ limit + 1
  | .done, _, hg, hd, h => by
    cases stop with
    | closed c =>
      refine ⟨⟨c, rfl⟩, .empty, rfl, ?_⟩
      rw [Grammar.Filter.depth]
      omega
    | endOfFile range last =>
      obtain ⟨⟨c, hc⟩, -⟩ := sound_listTail hg hd (harmless_left h)
      cases hc
  | .leaf t rest, _, hg, hd, h => by
    cases hg with
    | @leaf _ k rest hl hr hrest =>
      rw [filter] at h
      split at h
      next name hk =>
        obtain rfl : k = .symbol name := hk
        cases hkind : CompoundKind.ofText? name with
        | some kind =>
          obtain rfl := text_of_ofText? hkind
          simp only [hkind] at h
          obtain ⟨hstop, fs, rfl, hfs⟩ :=
            sound_filters depth kind stop rest hrest hd (harmless_left h)
          refine ⟨hstop, .compound kind fs, rfl, ?_⟩
          rw [Grammar.Filter.depth]
          omega
        | none =>
          simp only [hkind] at h
          split at h
          next hneg =>
            subst hneg
            obtain ⟨hstop, part, rfl, hpart⟩ :=
              sound_negation depth stop rest hrest hd (harmless_left h)
            refine ⟨hstop, .negation part, rfl, ?_⟩
            rw [Grammar.Filter.depth]
            omega
          next hneg =>
            obtain ⟨hstop, value, extras, rfl, hvalue⟩ := sound_simpleFilter hrest hd h
            refine ⟨hstop, .simple name (not_hasParts hkind hneg) value extras, rfl, ?_⟩
            rw [Grammar.Filter.depth]
            omega
      next hk =>
        refine sound_plain (.leaf hl hr hrest) nofun ?_ hd (harmless_left h)
        intro name more heq
        cases heq
        exact hk name rfl
  | .list p inner e rest, _, hg, hd, h => by
    rw [filter] at h
    exact sound_plain hg nofun nofun hd (harmless_left h)

theorem sound_negation (depth : Nat) (stop : ListEnd) : ∀ (f : Forest) {stray : Bool},
    Grouped stray f → depth ≤ limit → Harmless (negation limit depth stop f).notes →
    (∃ c, stop = .closed c) ∧
      ∃ part : Grammar.Filter, f = group part.innerForest .done ∧ depth + part.depth ≤ limit
  | .done, _, _, _, h => by
    cases stop with
    | closed c => exact absurd h (not_harmless_giveUp rfl)
    | endOfFile range last =>
      rw [negation] at h
      exact absurd h not_harmless_unclosed
  | .leaf t rest, _, _, _, h => absurd h not_harmless_expected
  | .list o items e extras, _, hg, hd, h => by
    rw [negation] at h
    obtain ⟨hlt, h⟩ := harmless_entered h
    have hinner := harmless_left h
    rw [notes_inside] at hinner
    cases hg with
    | group hitems hextras =>
      obtain ⟨-, part, rfl, hpart⟩ := sound_filter (depth + 1) _ _ items
        (hitems.grouped : Grouped true items) hlt hinner
      obtain ⟨y, -, h⟩ := harmless_next (yields_inside _ _ (yields_filter part hpart)) h
      obtain ⟨rfl, hstop⟩ := done_of_negationEnd (harmless_left h)
      exact ⟨hstop, part, rfl, by omega⟩
    | unclosed hitems =>
      obtain ⟨⟨c, hc⟩, -⟩ := sound_filter (depth + 1) _ _ items hitems hlt hinner
      cases hc

theorem sound_filters (depth : Nat) (kind : CompoundKind) (stop : ListEnd) :
    ∀ (f : Forest) {stray : Bool}, Grouped stray f → depth ≤ limit →
    Harmless (filters limit depth kind stop f).notes →
    (∃ c, stop = .closed c) ∧
      ∃ fs, f = Grammar.Filter.forestAll fs ∧ depth + Grammar.Filter.depthAll fs ≤ limit
  | .done, _, _, hd, h => by
    rw [filters] at h
    exact ⟨closed_of_ending (harmless_left h), [], rfl, hd⟩
  | .leaf t rest, _, _, _, h => by
    rw [filters] at h
    exact absurd (harmless_left h) (not_harmless_note (by cases kind <;> rfl))
  | .list o items e rest, _, hg, hd, h => by
    rw [filters] at h
    have hinner := harmless_left h
    rw [notes_recover] at hinner
    obtain ⟨hlt, hinner⟩ := harmless_entered hinner
    cases hg with
    | group hitems hrest =>
      obtain ⟨-, part, rfl, hpart⟩ := sound_filter (depth + 1) _ _ items
        (hitems.grouped : Grouped true items) hlt hinner
      obtain ⟨y, -, h⟩ := harmless_next
        (yields_recover (yields_bind (yields_enter hlt) fun _ _ => yields_filter part hpart)) h
      obtain ⟨hstop, fs, rfl, hfs⟩ := sound_filters depth kind stop rest hrest hd (harmless_left h)
      refine ⟨hstop, part :: fs, rfl, ?_⟩
      rw [Grammar.Filter.depthAll]
      omega
    | unclosed hitems =>
      obtain ⟨⟨c, hc⟩, -⟩ := sound_filter (depth + 1) _ _ items hitems hlt hinner
      cases hc

end

theorem sound_ruleItems (f : Forest) {stray : Bool} (hg : Grouped stray f) {stop : ListEnd}
    (h : Harmless (ruleItems limit stop f).notes) :
    (∃ c, stop = .closed c) ∧
      ∃ is, f = Grammar.Item.forestAll is ∧ (is.map Grammar.Item.depth).foldr max 0 ≤ limit := by
  induction f generalizing stray with
  | done =>
    rw [ruleItems] at h
    exact ⟨closed_of_ending (harmless_left h), [], rfl, Nat.zero_le _⟩
  | leaf t rest ih =>
    cases hg with
    | @leaf _ k rest _ _ hrest =>
      rw [ruleItems] at h
      split at h
      next name hk =>
        obtain rfl : k = .symbol name := hk
        obtain ⟨hstop, is, rfl, his⟩ := ih hrest (harmless_left h)
        refine ⟨hstop, .operation name :: is, rfl, ?_⟩
        rw [List.map_cons, List.foldr_cons, Grammar.Item.depth]
        omega
      next => exact absurd h (not_harmless_giveUp rfl)
  | list o items e rest _ ih =>
    rw [ruleItems] at h
    have hinner := harmless_left h
    rw [notes_recover] at hinner
    obtain ⟨hlt, hinner⟩ := harmless_entered hinner
    cases hg with
    | group hitems hrest =>
      obtain ⟨-, part, rfl, hpart⟩ := sound_filter 1 _ _ items
        (hitems.grouped : Grouped true items) hlt hinner
      obtain ⟨y, -, h⟩ := harmless_next
        (yields_recover (yields_bind (yields_enter hlt) fun _ _ => yields_filter part hpart)) h
      obtain ⟨hstop, is, rfl, his⟩ := ih hrest (harmless_left h)
      refine ⟨hstop, .filter part :: is, rfl, ?_⟩
      rw [List.map_cons, List.foldr_cons, Grammar.Item.depth]
      omega
    | unclosed hitems =>
      obtain ⟨⟨c, hc⟩, -⟩ := sound_filter 1 _ _ items hitems hlt hinner
      cases hc

/-! ### Forms -/

variable {start : Position}

theorem sound_version {f : Forest} {stray : Bool} (hg : Grouped stray f) {stop : ListEnd}
    (h : Harmless (version start f stop).notes) :
    (∃ c, stop = .closed c) ∧ ∃ n, f = word (.integer n) .done := by
  cases hg with
  | done => exact absurd h not_harmless_expected
  | group => exact absurd h not_harmless_expected
  | unclosed => exact absurd h not_harmless_expected
  | @leaf _ k rest =>
    rw [version] at h
    split at h
    next n hk =>
      obtain rfl : k = .integer n := hk
      obtain ⟨rfl, hstop⟩ := closed_of_closing (harmless_left h)
      exact ⟨hstop, n, rfl⟩
    next => exact absurd h not_harmless_expected

theorem sound_debugAction {k : TokenKind} (h : Harmless (debugAction (.bare k)).notes) :
    ∃ action : Action, k = .symbol action.text := by
  unfold debugAction at h
  split at h
  next action ha =>
    refine ⟨action, ?_⟩
    cases k with
    | symbol name =>
      change (Action.ofText name).toOption = some action at ha
      unfold Action.ofText at ha
      split at ha <;> cases ha <;> rfl
    | leftParen | rightParen | integer n | string s | rawString s | boolean b | endOfFile
    | unknown c | missing what => cases ha
  next => exact absurd (harmless_left h) (not_harmless_note rfl)

theorem sound_debugMode {f : Forest} {stray : Bool} (hg : Grouped stray f) {stop : ListEnd}
    (h : Harmless (debugMode start f stop).notes) :
    (∃ c, stop = .closed c) ∧ ∃ action : Action, f = word (.symbol action.text) .done := by
  cases hg with
  | done => exact absurd h (not_harmless_giveUp rfl)
  | group => exact absurd h not_harmless_expected
  | unclosed => exact absurd h not_harmless_expected
  | @leaf _ k rest =>
    rw [debugMode] at h
    obtain ⟨action, rfl⟩ := sound_debugAction (harmless_left h)
    obtain ⟨y, -, h⟩ := harmless_next (yields_debugAction action) h
    obtain ⟨rfl, hstop⟩ := closed_of_closing (harmless_left h)
    exact ⟨hstop, action, rfl⟩

theorem sound_importPath {f : Forest} {stray : Bool} (hg : Grouped stray f) {stop : ListEnd}
    (h : Harmless (importPath start f stop).notes) :
    (∃ c, stop = .closed c) ∧
      ∃ (raw : Bool) (path : String),
        f = word (if raw then .rawString path else .string path) .done := by
  cases hg with
  | done => exact absurd h not_harmless_expected
  | group => exact absurd h not_harmless_expected
  | unclosed => exact absurd h not_harmless_expected
  | @leaf _ k rest =>
    rw [importPath] at h
    split at h
    next path hk =>
      obtain rfl : k = .string path := hk
      obtain ⟨rfl, hstop⟩ := closed_of_closing (harmless_left h)
      exact ⟨hstop, false, path, rfl⟩
    next path hk =>
      obtain rfl : k = .rawString path := hk
      obtain ⟨rfl, hstop⟩ := closed_of_closing (harmless_left h)
      exact ⟨hstop, true, path, rfl⟩
    next => exact absurd h not_harmless_expected

theorem sound_definitionHead {f : Forest} (hw : Grouped true f) {stop : ListEnd}
    (h : Harmless (definitionHead f stop).notes) :
    (∃ c, stop = .closed c) ∧ ∃ name parameters, f = word (.symbol name) parameters := by
  cases hw with
  | done => exact absurd h not_harmless_expected
  | group => exact absurd h not_harmless_expected
  | unclosed => exact absurd h not_harmless_expected
  | @leaf _ k rest =>
    cases k with
    | symbol name =>
      cases stop with
      | closed c => exact ⟨⟨c, rfl⟩, name, rest, rfl⟩
      | endOfFile range last =>
        change Harmless (unclosed .definitionHead last .done (.endOfFile range last)).notes at h
        exact absurd h not_harmless_unclosed
    | leftParen | rightParen | integer n | string s | rawString s | boolean b | endOfFile
    | unknown c | missing what => exact absurd h not_harmless_expected

/-- The name that is defined, with or without parameters. -/
theorem sound_definitionName {f : Forest} {stray : Bool} (hg : Grouped stray f) {stop : ListEnd}
    (h : Harmless (definitionName f stop).notes) :
    ∃ name rest, Grouped stray rest ∧
      (f = word (.symbol name) rest ∨ ∃ parameters, Balanced parameters ∧
        f = group (word (.symbol name) (.ofKinds parameters)) rest) := by
  cases hg with
  | done => exact absurd h (not_harmless_giveUp rfl)
  | @leaf _ k rest _ _ hrest =>
    rw [definitionName] at h
    split at h
    next name hk =>
      obtain rfl : k = .symbol name := hk
      exact ⟨name, rest, hrest, .inl rfl⟩
    next => exact absurd h not_harmless_expected
  | @group _ items rest hitems hrest =>
    have hhead := harmless_left h
    rw [notes_inside] at hhead
    obtain ⟨-, name, parameters, rfl⟩ := sound_definitionHead hitems.grouped hhead
    cases hitems with
    | leaf _ _ hparameters =>
      refine ⟨name, rest, hrest, .inr ⟨parameters.kinds, hparameters.balanced, ?_⟩⟩
      rw [Forest.ofKinds_kinds hparameters.closed]
  | unclosed hitems =>
    have hhead := harmless_left h
    rw [notes_inside] at hhead
    obtain ⟨⟨c, hc⟩, -⟩ := sound_definitionHead hitems.weaken hhead
    cases hc

theorem sound_value {f rest : Forest} {stray : Bool} (hg : Grouped stray rest) {stop : ListEnd}
    (hname : Yields (definitionName f stop) fun r => r.2 = rest)
    (h : Harmless (definition limit start f stop).notes) :
    (∃ c, stop = .closed c) ∧
      ∃ value : Grammar.Expr, rest = value.forest .done ∧ value.depth ≤ limit := by
  obtain ⟨⟨⟨name, range⟩, r⟩, hr, hnext⟩ := harmless_next hname h
  obtain rfl : r = rest := hr
  simp only at hnext
  split at hnext
  · exact absurd hnext (not_harmless_giveUp rfl)
  · obtain ⟨value, more, rfl, -, hvalue⟩ := sound_expr hg (Nat.zero_le _) (harmless_left hnext)
    obtain ⟨⟨y, m⟩, ⟨-, hm⟩, hclosing⟩ := harmless_next (yields_expr value hvalue) hnext
    obtain ⟨hdone, hstop⟩ := closed_of_closing (harmless_left hclosing)
    obtain rfl : m = more := hm
    obtain rfl : m = .done := hdone
    exact ⟨hstop, value, rfl, by omega⟩

theorem sound_definition {f : Forest} {stray : Bool} (hg : Grouped stray f) {stop : ListEnd}
    (h : Harmless (definition limit start f stop).notes) :
    (∃ c, stop = .closed c) ∧
      ∃ g : Grammar.Form, word (.symbol "define") f = g.innerForest ∧ g.depth ≤ limit := by
  obtain ⟨name, rest, hrest, rfl | ⟨parameters, hbalanced, rfl⟩⟩ :=
    sound_definitionName hg (harmless_left h)
  · have hname : Yields (definitionName (word (.symbol name) rest) stop) fun r => r.2 = rest :=
      ⟨harmless_nil, _, rfl, rfl⟩
    obtain ⟨hstop, value, rfl, hvalue⟩ := sound_value hrest hname h
    exact ⟨hstop, .definition name value, rfl, hvalue⟩
  · have hname : Yields (definitionName
        (group (word (.symbol name) (.ofKinds parameters)) rest) stop) fun r => r.2 = rest :=
      ⟨harmless_nil, _, rfl, rfl⟩
    obtain ⟨hstop, value, rfl, hvalue⟩ := sound_value hrest hname h
    exact ⟨hstop, .procedure name parameters hbalanced value, rfl, hvalue⟩

theorem sound_rule {f : Forest} {stray : Bool} (hg : Grouped stray f) {action : Action}
    {stop : ListEnd} (h : Harmless (rule limit action start f stop).notes) :
    (∃ c, stop = .closed c) ∧ ∃ g : Grammar.Form,
      word (.symbol action.text) f = g.innerForest ∧ g.depth ≤ limit := by
  obtain ⟨hstop, is, rfl, his⟩ := sound_ruleItems f hg (harmless_left h)
  exact ⟨hstop, .rule action is, rfl, his⟩

theorem closed_of_unrecognized {head : String} {range : Range} {stop : ListEnd}
    (h : Harmless (unrecognized head range stop).notes) : ∃ c, stop = .closed c := by
  cases stop with
  | closed c => exact ⟨c, rfl⟩
  | endOfFile r last =>
    obtain ⟨-, -, hnext⟩ := harmless_next (yields_note rfl) h
    exact absurd hnext (not_harmless_note rfl)

/-- The form behind a name. What an unknown form holds is balanced, since a closed list is whole. -/
theorem sound_namedForm {f : Forest} {stray : Bool} (hg : Grouped stray f) {stop : ListEnd}
    (hw : (∃ c, stop = .closed c) → Whole f) {head : String} {range : Range}
    (h : Harmless (namedForm limit start head range f stop).notes) :
    (∃ c, stop = .closed c) ∧ ∃ g : Grammar.Form,
      word (.symbol head) f = g.innerForest ∧ g.depth ≤ limit := by
  unfold namedForm at h
  split at h
  · obtain ⟨hstop, n, rfl⟩ := sound_version hg (harmless_map h)
    exact ⟨hstop, .version n, rfl, Nat.zero_le _⟩
  · obtain ⟨hstop, action, rfl⟩ := sound_debugMode hg (harmless_map h)
    exact ⟨hstop, .debug action, rfl, Nat.zero_le _⟩
  · obtain ⟨hstop, raw, path, rfl⟩ := sound_importPath hg (harmless_map h)
    exact ⟨hstop, .importPath raw path, rfl, Nat.zero_le _⟩
  · exact sound_definition hg (harmless_map h)
  · obtain ⟨hstop, g, hform, hdepth⟩ := sound_rule hg (harmless_map h)
    exact ⟨hstop, g, hform, hdepth⟩
  · obtain ⟨hstop, g, hform, hdepth⟩ := sound_rule hg (harmless_map h)
    exact ⟨hstop, g, hform, hdepth⟩
  · rename_i hversion hdebug himport hdefine hallow hdeny
    have hstop := closed_of_unrecognized (harmless_left h)
    have hother : head ∉ ["version", "debug", "import", "define", "allow", "deny"] := by
      simp only [List.mem_cons, List.not_mem_nil, or_false, not_or]
      exact ⟨hversion, hdebug, himport, hdefine, hallow, hdeny⟩
    refine ⟨hstop, .unknown head hother f.kinds (hw hstop).balanced, ?_, Nat.zero_le _⟩
    rw [Grammar.Form.innerForest, Forest.ofKinds_kinds (hw hstop).closed]

theorem sound_declaration {f : Forest} {stray : Bool} (hg : Grouped stray f) {stop : ListEnd}
    (hw : (∃ c, stop = .closed c) → Whole f) {o : Token}
    (h : Harmless (declaration limit o f stop).notes) :
    (∃ c, stop = .closed c) ∧ ∃ g : Grammar.Form, f = g.innerForest ∧ g.depth ≤ limit := by
  cases hg with
  | done =>
    cases stop with
    | closed c => exact ⟨⟨c, rfl⟩, .empty, rfl, Nat.zero_le _⟩
    | endOfFile range last => exact absurd h not_harmless_expected
  | group => cases stop <;> exact absurd h not_harmless_expected
  | unclosed => cases stop <;> exact absurd h not_harmless_expected
  | @leaf _ k rest _ _ hrest =>
    cases k with
    | symbol head =>
      have hrestw : (∃ c, stop = .closed c) → Whole rest := fun hstop => by
        cases hw hstop
        assumption
      have hnamed : Harmless (namedForm limit o.range.start head .zero rest stop).notes := by
        cases stop <;> exact h
      exact sound_namedForm hrest hrestw hnamed
    | leftParen | rightParen | integer n | string s | rawString s | boolean b | endOfFile
    | unknown c | missing what => cases stop <;> exact absurd h not_harmless_expected

/-! ### Documents -/

/-- The trees of a document without an error are those of a derivation. -/
theorem sound_steps {f : Forest} (hg : Grouped true f)
    (h : ∀ s ∈ steps limit f, Harmless s.notes) :
    ∃ fs, f = Grammar.forestAll fs ∧ Grammar.depth fs ≤ limit := by
  induction f with
  | done => exact ⟨[], rfl, Nat.zero_le _⟩
  | leaf t rest ih =>
    rw [steps_leaf] at h
    exact absurd (h _ (List.mem_cons_self ..)) (not_harmless_note rfl)
  | list o items stop rest _ ih =>
    have hform : Harmless (declaration limit o items stop).notes := by
      cases ho : (declaration limit o items stop).outcome with
      | ok d =>
        rw [steps_of_ok ho] at h
        exact h _ (List.mem_cons_self ..)
      | error unread =>
        rw [steps_of_error ho] at h
        exact h _ (List.mem_cons_self ..)
    cases hg with
    | group hitems hrest =>
      obtain ⟨-, g, rfl, hdepth⟩ :=
        sound_declaration (hitems.grouped : Grouped true items) (fun _ => hitems) hform
      obtain ⟨-, d, hok, -⟩ : Yields (declaration limit (.bare .leftParen) g.innerForest
        (.closed (.bare .rightParen))) _ := yields_declaration g hdepth
      rw [steps_of_ok hok, List.forall_mem_cons] at h
      obtain ⟨fs, rfl, hfs⟩ := ih hrest h.2
      refine ⟨g :: fs, rfl, ?_⟩
      rw [Grammar.depth, List.map_cons, List.foldr_cons]
      exact Nat.max_le.mpr ⟨hdepth, hfs⟩
    | unclosed hitems =>
      have hopen : ¬∃ c, ListEnd.bareEnd = .closed c := by
        rintro ⟨c, hc⟩
        cases hc
      exact absurd (sound_declaration hitems (fun hc => absurd hc hopen) hform).1 hopen

end Reading

end SandboxProfile
