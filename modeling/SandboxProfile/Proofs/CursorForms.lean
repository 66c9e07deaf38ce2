import SandboxProfile.Proofs.Completeness
import SandboxProfile.Proofs.CursorReadings
import SandboxProfile.Proofs.TreePlaces

/-!
# Walks over forms

The walks over the forms of a profile follow the readings of the forests in them, where they begin
outside of all filters and lists.
-/

namespace SandboxProfile

open Forest Stream.Facing

namespace Walk

variable {s : Stream} {α β : Type} {depth limit n : Nat} {left behind : List Token}
  {t o : Token} {items rest : Forest} {stop e : ListEnd} {start : Position}

/-- A walk that asks for a token of some kind, which no parenthesis has. -/
theorem follows_asked (what : Expected) {r : Reading α} {after : α → β × List Token}
    {f : Token → Walk β} (h : s.Facing items stop behind)
    (hasked : ∀ u, u.kind = .leftParen ∨ u.kind = .rightParen ∨ u.kind = .endOfFile →
      f u = expected s what)
    (hr : (∀ u more, items ≠ .leaf u more) → r = Reading.expected what items stop)
    (hleaf : ∀ u more, items = .leaf u more →
      Follows s depth (u :: more.ahead stop behind) behind r after (f u)) :
    Follows s depth (items.ahead stop behind) behind r after (peek s >>= f) := by
  have hfacing := h
  cases h with
  | closed hc hown =>
    refine .peek hown ?_
    rw [hasked _ (.inr (.inl hc))]
    exact follows_expected hfacing rfl (hr (by simp))
  | ended =>
    refine .peek_end ?_
    rw [hasked _ (.inr (.inr s.last_kind))]
    exact follows_expected hfacing rfl (hr (by simp))
  | leaf _ _ hown _ => exact .peek hown (hleaf _ _ rfl)
  | list ho hown _ _ =>
    refine .peek hown ?_
    rw [hasked _ (.inl ho)]
    exact follows_expected hfacing rfl (hr (by simp))

theorem follows_version (hown : t :: items.ahead stop behind <:+ s.own)
    (h : s.Facing items stop behind) :
    Follows s depth (t :: items.ahead stop behind) behind (Reading.version start items stop)
      (·, behind) (version s start) := by
  refine .bump hown (follows_asked .versionNumber h ?_ ?_ ?_)
  · rintro u (hu | hu | hu) <;> simp only [hu]
  · intro hleaf
    cases items <;> first | rfl | exact absurd rfl (hleaf _ _)
  · rintro u more rfl
    cases h with | leaf hl hr hown hrest =>
    rw [Reading.version]
    cases u.kind with
    | integer number =>
      refine .bump hown (.bind (follows_closing hrest (Stream.stopBefore_front hown)) ?_)
      exact fun _ _ _ => rfl
    | _ => exact follows_expected (.leaf hl hr hown hrest) rfl rfl

theorem follows_importPath (hown : t :: items.ahead stop behind <:+ s.own)
    (h : s.Facing items stop behind) :
    Follows s depth (t :: items.ahead stop behind) behind (Reading.importPath start items stop)
      (·, behind) (importPath s start) := by
  refine .bump hown (follows_asked .importPath h ?_ ?_ ?_)
  · rintro u (hu | hu | hu) <;> simp only [hu]
  · intro hleaf
    cases items <;> first | rfl | exact absurd rfl (hleaf _ _)
  · rintro u more rfl
    cases h with | leaf hl hr hown hrest =>
    rw [Reading.importPath]
    cases u.kind with
    | string path | rawString path =>
      refine .bump hown (.bind (follows_closing hrest (Stream.stopBefore_front hown)) ?_)
      exact fun _ _ _ => rfl
    | _ => exact follows_expected (.leaf hl hr hown hrest) rfl rfl

theorem follows_definitionHead (hown : t :: items.ahead stop behind <:+ s.own)
    (h : s.Facing items stop behind) :
    Follows s depth (t :: items.ahead stop behind) behind (Reading.definitionHead items stop)
      (·, behind) (definitionHead s) := by
  refine .bump hown (follows_asked .definitionName h ?_ ?_ ?_)
  · rintro u (hu | hu | hu) <;> simp only [hu]
  · intro hleaf
    cases items <;> first | rfl | exact absurd rfl (hleaf _ _)
  · rintro u more rfl
    cases h with | leaf hl hr hown hrest =>
    unfold Reading.definitionHead
    simp only
    cases u.kind with
    | symbol name =>
      refine .bump hown (.run (fun _ => run_skipToClose hrest) ?_)
      cases stop with
      | closed c => exact fun _ => rfl
      | endOfFile range last =>
        obtain ⟨hstop, rfl⟩ := hrest.eq_ending
        obtain ⟨rfl, rfl⟩ := ListEnd.endOfFile.inj hstop
        exact follows_unclosed_end rfl
    | _ => exact follows_expected (.leaf hl hr hown hrest) rfl rfl

theorem follows_definitionName (h : s.Facing items stop behind) :
    Follows s depth (items.ahead stop behind) behind (Reading.definitionName items stop)
      (fun x => (x.1, x.2.ahead stop behind)) (definitionName s) := by
  have hfacing := h
  cases h with
  | closed hc hown =>
    refine .peek hown ?_
    simp only [hc]
    exact follows_fail hfacing rfl rfl
  | ended =>
    refine .peek_end ?_
    simp only [s.last_kind]
    exact follows_fail hfacing rfl rfl
  | @leaf u more _ _ hl hr hown hrest =>
    have hend := Stream.kind_ne_end hown
    refine .peek hown ?_
    rw [Reading.definitionName]
    cases hkind : u.kind with
    | symbol name => exact .bump hown fun _ => rfl
    | leftParen => exact absurd hkind hl
    | rightParen => exact absurd hkind hr
    | endOfFile => exact absurd hkind hend
    | _ => exact follows_expected hfacing rfl rfl
  | list ho hown hitems hrest =>
    refine .peek hown ?_
    simp only [ho, Reading.definitionName]
    exact .map (follows_definitionHead hown hitems).inside

theorem debugAction_of_ne (hallow : t.kind ≠ .symbol "allow") (hdeny : t.kind ≠ .symbol "deny") :
    Reading.debugAction t = (do
      Reading.note ((SyntaxFault.invalidDebugMode t.kind).diagnostic t.range)
      pure .deny) := by
  have hnone : (t.symbol?.bind fun name => (Action.ofText name).toOption) = none := by
    unfold Token.symbol?
    split
    next name hname =>
      rw [Option.bind_some]
      unfold Action.ofText
      split
      · exact absurd hname hallow
      · exact absurd hname hdeny
      · rfl
    next => rfl
  rw [Reading.debugAction, hnone]

theorem follows_debugAction (hown : t :: left <:+ s.own) (hl : t.kind ≠ .leftParen)
    (hr : t.kind ≠ .rightParen) :
    Follows s depth (t :: left) behind (Reading.debugAction t) (·, left) (debugAction s) := by
  have hend := Stream.kind_ne_end hown
  refine .peek hown ?_
  split
  next => contradiction
  next => contradiction
  next => contradiction
  next hallow =>
    have hread : Reading.debugAction t = pure .allow := by
      rw [Reading.debugAction, Token.symbol?, hallow]
      rfl
    rw [hread]
    exact .bump hown fun _ => rfl
  next hdeny =>
    have hread : Reading.debugAction t = pure .deny := by
      rw [Reading.debugAction, Token.symbol?, hdeny]
      rfl
    rw [hread]
    exact .bump hown fun _ => rfl
  next hallow hdeny =>
    rw [debugAction_of_ne hallow hdeny]
    exact .bump hown (.report fun _ => rfl)

theorem follows_debugMode (hown : t :: items.ahead stop behind <:+ s.own)
    (h : s.Facing items stop behind) :
    Follows s depth (t :: items.ahead stop behind) behind (Reading.debugMode start items stop)
      (·, behind) (debugMode s start) := by
  refine .bump hown ?_
  have hfacing := h
  cases h with
  | closed hc hown =>
    refine .stopped (.peek hown ?_)
    simp only [hc]
    exact follows_fail hfacing rfl rfl
  | ended =>
    refine .stopped (.peek_end ?_)
    simp only [s.last_kind]
    exact follows_fail hfacing rfl rfl
  | leaf hl hr hown hrest =>
    refine .bind (follows_debugAction hown hl hr) fun action _ => ?_
    refine .bind (follows_closing hrest (Stream.stopBefore_front hown)) ?_
    exact fun _ _ _ => rfl
  | list ho hown hitems hrest =>
    refine .stopped (.peek hown ?_)
    simp only [ho]
    exact follows_expected hfacing rfl rfl

/-! ### Definitions -/

theorem rest_of_definitionName {name : String × Range}
    (h : (Reading.definitionName items stop).outcome = .ok (name, rest)) : rest = items.others := by
  revert h
  unfold Reading.definitionName
  split
  · intro h
    cases h
  · split
    · intro h
      cases h
      rfl
    · intro h
      cases h
  · intro h
    simp only [bind, pure] at h
    split at h
    · cases h
      rfl
    · cases h

/-- The expressions of a list are read up to its end. -/
theorem ends_exprs {what : Construct} (items : Forest) :
    Reading.Ensures (fun _ => True) (fun x => stop.stop? = some x.2)
      (Reading.exprs limit depth what stop items) := by
  induction items generalizing depth what stop with
  | done =>
    rw [Reading.exprs]
    cases stop with
    | closed c => exact Reading.ensures_pure rfl
    | endOfFile range last => exact Reading.ensures_giveUp trivial _ _
  | leaf t rest ih =>
    rw [Reading.exprs]
    split
    · exact Reading.ensures_bind ih fun _ hx => Reading.ensures_pure hx
    · exact Reading.ensures_giveUp trivial _ _
  | list o inner e rest ihi ihr =>
    rw [Reading.exprs]
    refine Reading.ensures_bind (Reading.ensures_enter trivial) fun _ _ => ?_
    refine Reading.ensures_bind (Reading.ensures_inside _ _ ihi) fun _ _ => ?_
    exact Reading.ensures_bind ihr fun _ hx => Reading.ensures_pure hx

/-- Behind an expression the cursor stands at its end. -/
theorem ends_expr (h : s.Facing items stop behind) :
    Reading.Ensures (fun _ => True)
      (fun x => s.stopBefore (s.front (x.2.ahead stop behind)) = x.1.range.stop)
      (Reading.expr limit depth stop items) := by
  cases h with
  | closed => exact Reading.ensures_giveUp trivial _ _
  | ended => exact Reading.ensures_giveUp trivial _ _
  | leaf hl hr hown hrest =>
    rw [Reading.expr]
    split
    next atom hatom =>
      refine Reading.ensures_pure ?_
      rw [Stream.stopBefore_front hown, (Expr.ranges_of_token hatom).1]
    next => exact Reading.ensures_giveUp trivial _ _
  | @list o inner e rest _ _ ho hown hitems hrest =>
    have hlist : Reading.Ensures (fun _ => True) (fun x => e.stop? = some x.range.stop)
        (Reading.listTail limit (depth + 1) o inner e) :=
      Reading.ensures_bind (ends_exprs inner) fun _ hx => Reading.ensures_pure hx
    rw [Reading.expr]
    refine Reading.ensures_bind (Reading.ensures_enter trivial) fun _ _ => ?_
    refine Reading.ensures_bind (Reading.ensures_inside _ _ hlist) fun x hx => ?_
    refine Reading.ensures_pure ?_
    cases e with
    | closed c =>
      have hclosed := (suffix_closed inner c (rest.ahead stop behind)).trans hitems.suffix
      rw [Stream.stopBefore_front hclosed]
      exact Option.some.inj hx
    | endOfFile range last => cases hx

theorem follows_definition (hown : t :: items.ahead stop behind <:+ s.own)
    (h : s.Facing items stop behind) (hn : 2 * (items.ahead stop behind).length ≤ n) :
    Follows s 0 (t :: items.ahead stop behind) behind (Reading.definition limit start items stop)
      (·, behind) (definition s limit start n) := by
  refine .bump hown (.bind (follows_definitionName h) ?_)
  rintro ⟨⟨name, range⟩, rest⟩ hname
  obtain rfl := rest_of_definitionName hname
  have hlen := (suffix_others items stop behind).length_le
  have hrest := h.others
  generalize items.others = rest at hlen hrest ⊢
  simp only
  split
  next =>
    cases hrest with
    | closed hc hown =>
      refine .peek hown ?_
      simp only [hc]
      exact follows_fail (.closed hc hown) rfl rfl
    | ended =>
      refine .peek_end ?_
      simp only [s.last_kind]
      exact follows_fail .ended rfl rfl
  next hne =>
    obtain ⟨u, left, hleft, hr⟩ := hrest.exists_token hne
    have hend := Stream.kind_ne_end (hleft ▸ hrest.suffix)
    have hexpr : Follows s 0 (rest.ahead stop behind) behind (Reading.expr limit 0 stop rest)
        (fun x => (x.1, x.2.ahead stop behind)) (expr s limit n) :=
      follows_expr hrest hne (by omega)
    rw [hleft] at hexpr ⊢
    refine .peek (hleft ▸ hrest.suffix) ?_
    simp only
    refine .bind hexpr ?_
    rintro ⟨value, more⟩ hx
    obtain rfl := Reading.rest_of_expr hx
    exact .bind (follows_closing hrest.others ((ends_expr hrest).value _ hx)) fun _ _ _ => rfl

/-! ### Rules -/

theorem follows_ruleItems (h : s.Facing items stop behind)
    (hn : 2 * (items.ahead stop behind).length < n) :
    Follows s 0 (items.ahead stop behind) behind (Reading.ruleItems limit stop items) (·, behind)
      (ruleItems s limit n) := by
  induction h generalizing n with
  | closed hc hown =>
    obtain ⟨n, rfl⟩ : ∃ m, n = m + 1 := ⟨n - 1, by omega⟩
    refine .peek hown ?_
    simp only [hc]
    exact .bump hown fun _ => rfl
  | ended =>
    obtain ⟨n, rfl⟩ : ∃ m, n = m + 1 := ⟨n - 1, by omega⟩
    refine .peek_end ?_
    simp only [s.last_kind]
    exact follows_ending_end
  | @leaf t rest stop behind hl hr hown hrest ih =>
    simp only [ahead, List.length_cons] at hn
    obtain ⟨n, rfl⟩ : ∃ m, n = m + 1 := ⟨n - 1, by omega⟩
    have hend := Stream.kind_ne_end hown
    refine .peek hown ?_
    rw [Reading.ruleItems]
    cases hkind : t.kind with
    | symbol name =>
      refine .bump hown (.bind (ih (by omega)) ?_)
      rintro ⟨operations, filters, place⟩ _
      exact fun _ => rfl
    | leftParen => exact absurd hkind hl
    | rightParen => exact absurd hkind hr
    | endOfFile => exact absurd hkind hend
    | _ => exact follows_fail (.leaf hl hr hown hrest) rfl rfl
  | @list o items e rest stop behind ho hown hitems hrest _ ih =>
    have hlen := (suffix_behind items e (rest.ahead stop behind)).length_le
    simp only [ahead, List.length_cons] at hn
    obtain ⟨n, rfl⟩ : ∃ m, n = m + 1 := ⟨n - 1, by omega⟩
    have hpart : Enters s limit 0 o (items.ahead e (rest.ahead stop behind))
        (rest.ahead stop behind) (Reading.filter limit 1 o e items) (·, rest.ahead stop behind)
        (filter s limit n) := (filterFollows hitems).filter hown (by omega)
    refine .peek hown ?_
    simp only [ho, Reading.ruleItems]
    refine .bind (hpart.attempt hitems hown) fun part _ => .bind (ih (by omega)) ?_
    rintro ⟨operations, filters, place⟩ _
    exact fun _ => rfl

theorem follows_rule {action : Action} (hown : t :: items.ahead stop behind <:+ s.own)
    (h : s.Facing items stop behind) (hn : 2 * (items.ahead stop behind).length < n) :
    Follows s 0 (t :: items.ahead stop behind) behind (Reading.rule limit action start items stop)
      (·, behind) (rule s limit action start n) := by
  refine .bump hown (.bind (follows_ruleItems h hn) ?_)
  rintro ⟨operations, filters, place⟩ _
  simp only
  split
  · exact .report fun _ => rfl
  · exact fun _ => rfl

/-! ### Forms -/

theorem follows_unrecognized {head : String} (hown : t :: items.ahead stop behind <:+ s.own)
    (h : s.Facing items stop behind) :
    Follows s depth (t :: items.ahead stop behind) behind
      (Reading.unrecognized head t.range stop) (·, behind) (unrecognized s head) := by
  refine .bump hown (.report (.run (fun _ => run_skipToClose h) ?_))
  cases stop with
  | closed c => exact fun _ => rfl
  | endOfFile range last =>
    obtain ⟨hstop, rfl⟩ := h.eq_ending
    obtain ⟨rfl, rfl⟩ := ListEnd.endOfFile.inj hstop
    refine .peek_end ?_
    exact fun _ => rfl

end Walk

/-- A declaration that comes too late is not taken in. -/
theorem Profile.add_late {p : Profile} {d : Declaration} {late : Diagnostic}
    (h : d.late? p.version p.debug = some late) : p.add d = p := by
  obtain ⟨version, debug, imports, definitions, rules, range⟩ := p
  cases d with
  | version v =>
    obtain ⟨first, rfl, -⟩ := Option.map_eq_some_iff.mp h
    rfl
  | debug m =>
    obtain ⟨first, rfl, -⟩ := Option.map_eq_some_iff.mp h
    rfl
  | importPath i => cases h
  | definition d => cases h
  | rule r => cases h

/-- What a profile becomes by what a form declares, with the report on what comes too late. -/
def Reading.taken (p : Profile) (declared? : Option Declaration) : Reading Profile :=
  ⟨(declared?.bind (·.late? p.version p.debug)).toList, .ok (declared?.toList.foldl .add p)⟩

namespace Walk

variable {s : Stream} {depth limit n : Nat} {left behind : List Token} {t o : Token}
  {items rest : Forest} {stop e : ListEnd} {start : Position}

theorem follows_declare (p : Profile) (d : Declaration) :
    Follows s depth left behind (Reading.taken p (some d)) (·, left) (declare p d) := by
  intro found
  unfold declare
  rw [Reading.taken, Option.bind_some]
  cases hlate : d.late? p.version p.debug with
  | none => rfl
  | some late =>
    change _ = some (Except.ok (p.add d), _)
    rw [Profile.add_late hlate]
    rfl

theorem follows_form (hown : o :: items.ahead stop behind <:+ s.own)
    (h : s.Facing items stop behind) (hn : 2 * (items.ahead stop behind).length < n) (p : Profile) :
    Follows s 0 (o :: items.ahead stop behind) behind
      (Reading.declaration limit o items stop >>= Reading.taken p) (·, behind)
      (form s limit n p) := by
  have hfacing := h
  refine .bump hown ?_
  cases h with
  | closed hc hown =>
    refine .peek hown ?_
    simp only [hc]
    exact .bump hown (.report fun _ => rfl)
  | ended =>
    refine .peek_end ?_
    simp only [s.last_kind]
    exact follows_expected hfacing rfl rfl
  | @leaf u rest _ _ hl hr hown hrest =>
    simp only [ahead, List.length_cons] at hn
    have hdeclare {β : Type} {r : Reading β} {w : Walk β} (f : β → Declaration)
        (hw : Follows s 0 (u :: rest.ahead stop behind) behind r (·, behind) w) :
        Follows s 0 (u :: rest.ahead stop behind) behind
          ((some <| f ·) <$> r >>= Reading.taken p) (·, behind) (do declare p (f (← w))) := by
      change Follows s 0 _ behind (r >>= (fun x => pure (some (f x))) >>= Reading.taken p) _ _
      rw [Reading.bind_assoc]
      exact .bind hw fun x _ => follows_declare p (f x)
    refine .peek hown ?_
    split
    next hhead =>
      simp only [Reading.declaration, hhead]
      exact hdeclare .version (follows_version hown hrest)
    next hhead =>
      simp only [Reading.declaration, hhead]
      exact hdeclare .debug (follows_debugMode hown hrest)
    next hhead =>
      simp only [Reading.declaration, hhead]
      exact hdeclare .importPath (follows_importPath hown hrest)
    next hhead =>
      simp only [Reading.declaration, hhead]
      exact hdeclare .definition (follows_definition hown hrest (by omega))
    next hhead =>
      simp only [Reading.declaration, hhead]
      exact hdeclare .rule (follows_rule hown hrest (by omega))
    next hhead =>
      simp only [Reading.declaration, hhead]
      exact hdeclare .rule (follows_rule hown hrest (by omega))
    next head hversion hdebug himport hdefine hallow hdeny hhead =>
      simp only [Reading.declaration, hhead]
      have hother : head ∉ ["version", "debug", "import", "define", "allow", "deny"] := by
        simp only [List.mem_cons, List.not_mem_nil, or_false, not_or]
        exact ⟨hversion, hdebug, himport, hdefine, hallow, hdeny⟩
      rw [Reading.namedForm_unknown hother, Reading.bind_assoc]
      exact .bind (follows_unrecognized hown hrest) fun _ _ _ => rfl
    next => contradiction
    next hhead _ =>
      simp only [Reading.declaration]
      exact follows_expected hfacing rfl rfl
  | list ho hown hitems hrest =>
    refine .peek hown ?_
    simp only [ho]
    exact follows_expected hfacing rfl rfl

end Walk

end SandboxProfile
