import SandboxProfile.Proofs.CursorSteps
import SandboxProfile.Proofs.Ensures

/-!
# Walks that follow readings

A walk over the tokens of a forest comes to what the reading of the forest says (`Follows`): it
tells the notes of the reading in their order, gives its value, and where the reading gave up the
cursor stands in front of what that left unread. The relation goes along with the binds of both, so
one lemma for each walk names the reading that it follows.
-/

namespace SandboxProfile

open Forest Stream.Facing

/-! ### Behind the first tree -/

/-- What follows the first tree of a forest. -/
def Forest.others : Forest → Forest
  | .done => .done
  | .leaf _ rest => rest
  | .list _ _ _ rest => rest

theorem Forest.suffix_others (items : Forest) (stop : ListEnd) (behind : List Token) :
    items.others.ahead stop behind <:+ items.ahead stop behind := by
  cases items with
  | done => exact List.suffix_refl _
  | leaf t rest => exact List.suffix_cons t _
  | list o inner e rest => exact suffix_rest o inner e rest stop behind

theorem Stream.Facing.others {s : Stream} {items : Forest} {stop : ListEnd} {behind : List Token}
    (h : s.Facing items stop behind) : s.Facing items.others stop behind := by
  cases h with
  | closed hc hown => exact .closed hc hown
  | ended => exact .ended
  | leaf _ _ _ hrest => exact hrest
  | list _ _ _ hrest => exact hrest

/-- A forest that ends somewhere begins with the token in front. -/
theorem Forest.start?_of_stop? {items : Forest} {last : Position} (h : items.stop? = some last)
    {stop : ListEnd} {behind : List Token} {t : Token} :
    items.start? = some ((items.ahead stop behind).headD t).range.start := by
  cases items with
  | done => cases h
  | leaf u rest => rfl
  | list o inner e rest => rfl

/-! ### Readings of expressions -/

namespace Reading

variable {α β γ : Type} {limit depth : Nat} {items rest : Forest} {stop : ListEnd}

theorem bind_assoc (r : Reading α) (f : α → Reading β) (g : β → Reading γ) :
    r >>= f >>= g = r >>= fun x => f x >>= g := by
  obtain ⟨notes, outcome⟩ := r
  cases outcome with
  | error unread => rfl
  | ok x =>
    cases hx : f x with | mk more result =>
    cases result <;> simp [bind, hx]

/-- An expression is the first tree. -/
theorem rest_of_expr {x : Expr} (h : (expr limit depth stop items).outcome = .ok (x, rest)) :
    rest = items.others := by
  revert h
  unfold expr
  split
  · split
    · intro h
      cases h
      rfl
    · intro h
      cases h
  · intro h
    simp only [bind, pure] at h
    split at h
    · split at h
      · cases h
        rfl
      · cases h
    · cases h
  · intro h
    cases h

/-- All expressions of a list are the first and those behind it. -/
theorem exprs_of_ne {what : Construct} (hne : items ≠ .done) :
    exprs limit depth what stop items = (do
      let (x, rest) ← expr limit depth stop items
      let (more, place) ← exprs limit depth what stop rest
      pure (x :: more, place)) := by
  cases items with
  | done => contradiction
  | leaf t rest =>
    rw [exprs, expr]
    cases Expr.ofToken? t <;> rfl
  | list o items e rest =>
    rw [exprs, expr, listTail, enter]
    split
    · cases exprs limit (depth + 1) .list e items with | mk notes outcome =>
      cases outcome with
      | ok x => simp [bind, pure, inside]
      | error unread => rfl
    · rfl

theorem simpleFilter_of_ne {o t : Token} {name : String} (hne : items ≠ .done) :
    simpleFilter limit depth o t name items stop = (do
      let (value, more) ← expr limit depth stop items
      let (_, place) ← exprs limit depth .filter stop more
      pure (.simple name t.range value ⟨o.range.start, place⟩)) := by
  cases items <;> first | contradiction | rfl

end Reading

/-! ### What is told of a reading -/

/-- What a reading comes to as a walk. Behind its value the cursor stands as `after` says; where it
gave up, what was left unread is in front of the tokens `behind`. -/
def Stream.told {α β : Type} (s : Stream) (depth : Nat) (found : Collector) (behind : List Token)
    (r : Reading α) (after : α → β × List Token) : Option (Except Unit β × Cursor) :=
  match r.outcome with
  | .ok x => some (.ok (after x).1, s.cursor (after x).2 depth (found.extend r.notes))
  | .error unread =>
    some (.error (), s.cursor (unread.tokens ++ behind) depth (found.extend r.notes))

namespace Walk

variable {s : Stream} {α β γ δ : Type} {depth limit n : Nat} {left behind : List Token}
  {t o : Token} {items rest : Forest} {stop e : ListEnd}

/-- The walk from `left` on comes to what the reading says. -/
def Follows (s : Stream) (depth : Nat) (left behind : List Token) (r : Reading α)
    (after : α → β × List Token) (w : Walk β) : Prop :=
  ∀ found, w.run (s.cursor left depth found) = s.told depth found behind r after

namespace Follows

theorem bind {r : Reading α} {after : α → β × List Token} {w : Walk β} {k : α → Reading γ}
    {after' : γ → δ × List Token} {f : β → Walk δ} (hw : Follows s depth left behind r after w)
    (hf : ∀ x, r.outcome = .ok x →
      Follows s depth (after x).2 behind (k x) after' (f (after x).1)) :
    Follows s depth left behind (r >>= k) after' (w >>= f) := by
  intro found
  have hfirst := hw found
  obtain ⟨notes, outcome⟩ := r
  cases outcome with
  | ok x =>
    rw [run_bind_ok hfirst, hf x rfl]
    change s.told depth ((found.extend notes)) behind (k x) after' = s.told depth found behind
      ⟨notes ++ (k x).notes, (k x).outcome⟩ after'
    simp only [Stream.told, Collector.extend_append]
  | error unread => exact run_bind_error hfirst

/-- A reading that goes on to make another value of its own. -/
theorem map {r : Reading α} {g : α → γ} {after : γ → β × List Token} {w : Walk β}
    (hw : Follows s depth left behind r (after ∘ g) w) :
    Follows s depth left behind (r >>= fun x => pure (g x)) after w := by
  intro found
  rw [hw found]
  obtain ⟨notes, outcome⟩ := r
  cases outcome with
  | ok x =>
    change _ = s.told depth found behind ⟨notes ++ [], .ok (g x)⟩ after
    rw [List.append_nil]
    rfl
  | error unread => rfl

/-- Where a reading gave up at once, what would have come behind it is not reached. -/
theorem stopped {d : Diagnostic} {w : Walk α} {after : β → γ × List Token} {f : α → Walk γ}
    (hw : Follows s depth left behind (Reading.giveUp d items stop) (·, behind) w) :
    Follows s depth left behind (Reading.giveUp d items stop) after (w >>= f) := by
  have hnext : Follows s depth left behind (Reading.giveUp d items stop >>= fun _ =>
      Reading.giveUp d items stop) after (w >>= f) :=
    hw.bind fun _ hx => nomatch hx
  exact hnext

theorem peek_next {r : Reading α} {after : α → β × List Token} {f : Token → Walk β}
    (hown : left <:+ s.own) (h : Follows s depth left behind r after (f (left.headD s.last))) :
    Follows s depth left behind r after (Walk.peek s >>= f) :=
  fun found => (run_peek hown f).trans (h found)

theorem peek {r : Reading α} {after : α → β × List Token} {f : Token → Walk β}
    (hown : t :: left <:+ s.own) (h : Follows s depth (t :: left) behind r after (f t)) :
    Follows s depth (t :: left) behind r after (Walk.peek s >>= f) :=
  peek_next hown h

theorem peek_end {r : Reading α} {after : α → β × List Token} {f : Token → Walk β}
    (h : Follows s depth [] behind r after (f s.last)) :
    Follows s depth [] behind r after (Walk.peek s >>= f) :=
  peek_next List.nil_suffix h

theorem bump {r : Reading α} {after : α → β × List Token} {f : Range → Walk β}
    (hown : t :: left <:+ s.own) (h : Follows s depth left behind r after (f t.range)) :
    Follows s depth (t :: left) behind r after (Walk.bump s >>= f) :=
  fun found => (run_bump hown f).trans (h found)

theorem report {d : Diagnostic} {r : Reading α} {after : α → β × List Token} {f : Unit → Walk β}
    (h : Follows s depth left behind r after (f ())) :
    Follows s depth left behind (Reading.note d >>= fun _ => r) after (Walk.report d >>= f) := by
  intro found
  exact (run_report d f).trans (h _)

/-- A step that the reading does not tell of. -/
theorem run {r : Reading α} {after : α → β × List Token} {w : Walk γ} {x : γ} {f : γ → Walk β}
    {mid : List Token}
    (hw : ∀ found, w.run (s.cursor left depth found) = some (.ok x, s.cursor mid depth found))
    (h : Follows s depth mid behind r after (f x)) :
    Follows s depth left behind r after (w >>= f) :=
  fun found => (run_bind_ok (hw found)).trans (h found)

/-- What a reading of the list in front gave up is, with what follows, what the reading of the whole
gave up. -/
theorem inside {r : Reading α} {after : α → β × List Token} {w : Walk β}
    (h : Follows s depth left (rest.ahead stop behind) r after w) :
    Follows s depth left behind (r.inside rest stop) after w := by
  intro found
  rw [h found]
  obtain ⟨notes, outcome⟩ := r
  cases outcome with
  | ok x => rfl
  | error unread =>
    change _ = some (_, s.cursor ((unread ++ rest.closedBy stop).tokens ++ behind) _ _)
    rw [tokens_append, List.append_assoc, tokens_closedBy_append]
    rfl

end Follows

/-! ### Giving up -/

/-- The token under the cursor is what a reader of the forest meets. -/
theorem next_eq (h : s.Facing items stop behind) :
    (((items.ahead stop behind).headD s.last).kind,
      ((items.ahead stop behind).headD s.last).range) = items.next stop := by
  cases h with
  | closed hc _ => exact congrArg (·, _) hc
  | ended => exact congrArg (·, _) s.last_kind
  | leaf => rfl
  | list ho _ _ _ => exact congrArg (·, _) ho

theorem follows_giveUp {d : Diagnostic} {after : α → β × List Token} {w : Walk β}
    (hw : ∀ found, w.run (s.cursor (items.ahead stop behind) depth found) =
      some (.error (), s.cursor (items.ahead stop behind) depth (found.push d).2)) :
    Follows s depth (items.ahead stop behind) behind (Reading.giveUp d items stop) after w := by
  intro found
  rw [hw found, ← tokens_closedBy_append]
  rfl

theorem follows_fail {fault : SyntaxFault} {r : Reading α} {after : α → β × List Token}
    (h : s.Facing items stop behind) (hleft : left = items.ahead stop behind)
    (hr : r = Reading.giveUp (fault.diagnostic (items.next stop).2) items stop) :
    Follows s depth left behind r after (fail s fault) := by
  subst hleft hr
  rw [← next_eq h]
  exact follows_giveUp fun _ => run_fail h.suffix fault

theorem follows_expected {what : Expected} {r : Reading α} {after : α → β × List Token}
    (h : s.Facing items stop behind) (hleft : left = items.ahead stop behind)
    (hr : r = Reading.expected what items stop) :
    Follows s depth left behind r after (expected s what) := by
  subst hleft hr
  unfold Reading.expected
  rw [← next_eq h]
  exact follows_giveUp fun _ => run_expected h.suffix what

theorem follows_unclosed {what : Construct} {place : Position} {r : Reading α}
    {after : α → β × List Token} (h : s.Facing items stop behind)
    (hleft : left = items.ahead stop behind) (hplace : s.stopBefore (s.front left) = place)
    (hr : r = Reading.unclosed what place items stop) :
    Follows s depth left behind r after (unclosed s what) := by
  subst hleft hr
  unfold Reading.unclosed
  rw [← next_eq h, ← hplace]
  exact follows_giveUp fun _ => run_unclosed h.suffix what

/-- At the end of the file the last list of all is not closed. -/
theorem follows_unclosed_end {what : Construct} {r : Reading α} {after : α → β × List Token}
    (hr : r = Reading.unclosed what (s.stopBefore s.own.length) .done s.ending) :
    Follows s depth [] [] r after (unclosed s what) :=
  follows_unclosed .ended rfl rfl hr

theorem follows_ending {what : Construct} (h : s.Facing .done stop behind) :
    Follows s depth (stop.tokens ++ behind) behind (Reading.ending what stop) (·, behind)
      (close s what) := by
  cases h with
  | closed hc hown =>
    refine .peek hown ?_
    simp only [hc]
    exact .bump hown fun _ => rfl
  | ended =>
    refine .peek_end ?_
    simp only [s.last_kind]
    exact follows_unclosed_end rfl

theorem closing_of_ne {what : Construct} {place : Position} (hne : items ≠ .done) :
    Reading.closing what place items stop = Reading.unclosed what place items stop := by
  cases items <;> first | contradiction | rfl

theorem follows_closing {what : Construct} {place : Position} (h : s.Facing items stop behind)
    (hplace : s.stopBefore (s.front (items.ahead stop behind)) = place) :
    Follows s depth (items.ahead stop behind) behind (Reading.closing what place items stop)
      (·, behind) (close s what) := by
  by_cases hne : items = .done
  · subst hne
    cases h with
    | closed hc hown => exact follows_ending (.closed hc hown)
    | ended =>
      obtain rfl : s.stopBefore s.own.length = place := hplace
      exact follows_ending .ended
  · obtain ⟨t, left, hleft, hr⟩ := h.exists_token hne
    rw [hleft] at hplace ⊢
    refine .peek (hleft ▸ h.suffix) ?_
    simp only
    exact follows_unclosed h hleft.symm hplace (closing_of_ne hne)

theorem follows_ending_end {what : Construct} {k : Position → Reading γ}
    {after : γ → β × List Token} :
    Follows s depth [] [] (Reading.ending what s.ending >>= k) after (unclosed s what) := by
  intro found
  refine (run_unclosed List.nil_suffix what).trans ?_
  rw [List.headD_nil, s.last_kind]
  rfl

/-! ### Entering lists -/

/-- The walk enters the list behind `o`, where it may nest as deep, and follows the reading. -/
def Enters (s : Stream) (limit depth : Nat) (o : Token) (left behind : List Token) (r : Reading α)
    (after : α → β × List Token) (w : Walk β) : Prop :=
  ∀ found, w.run (s.cursor (o :: left) depth found) =
    if depth < limit then s.told depth found behind r after
    else some (.error (), s.cursor (o :: left) depth
      (found.push ((SyntaxFault.nestingTooDeep limit).diagnostic o.range)).2)

theorem enters_nested {r : Reading α} {after : α → β × List Token} {w : Walk β}
    (hown : o :: left <:+ s.own) (h : Follows s (depth + 1) (o :: left) behind r after w) :
    Enters s limit depth o left behind r after (nested s limit w) := by
  intro found
  by_cases hdepth : depth < limit
  · have hw := h found
    rw [if_pos hdepth]
    obtain ⟨notes, outcome⟩ := r
    cases outcome with
    | ok x => exact run_nested hdepth hw
    | error unread => exact run_nested hdepth hw
  · rw [if_neg hdepth, run_nested_deep hdepth]
    exact run_fail hown _

namespace Enters

variable {r : Reading α} {after : α → β × List Token} {w : Walk β}

theorem follows (h : Enters s limit depth o (items.ahead e (rest.ahead stop behind))
      (rest.ahead stop behind) r after w) :
    Follows s depth (o :: items.ahead e (rest.ahead stop behind)) behind
      (Reading.enter limit depth o (.list o items e rest) stop >>= fun _ => r.inside rest stop)
      after w := by
  intro found
  by_cases hdepth : depth < limit
  · have hr : Follows s depth (o :: items.ahead e (rest.ahead stop behind))
        (rest.ahead stop behind) r after w := fun found => (h found).trans (if_pos hdepth)
    rw [Reading.enter, if_pos hdepth]
    exact hr.inside found
  · rw [h found, if_neg hdepth, Reading.enter, if_neg hdepth]
    change _ = some (_, s.cursor
      (((Forest.list o items e rest).closedBy stop).tokens ++ behind) _ _)
    rw [tokens_closedBy_append]
    rfl

/-- Where the list cannot be read the walk goes on behind it. -/
theorem attempt {w : Walk α}
    (h : Enters s limit depth o (items.ahead e left) left r (fun x => (x, left)) w)
    (hitems : s.Facing items e left) (hown : o :: items.ahead e left <:+ s.own) :
    Follows s depth (o :: items.ahead e left) behind
      (Reading.recover (do
        Reading.enter limit depth o items e
        r))
      (fun x => (x, left)) (Walk.attempt s w) := by
  intro found
  have hw := h found
  by_cases hdepth : depth < limit
  · rw [if_pos hdepth] at hw
    rw [Reading.enter, if_pos hdepth]
    obtain ⟨notes, outcome⟩ := r
    cases outcome with
    | ok x => exact run_attempt_ok hw
    | error unread => exact run_attempt_error hitems hown hw
  · rw [if_neg hdepth] at hw
    rw [Reading.enter, if_neg hdepth]
    exact run_attempt_error hitems hown hw

end Enters

/-! ### Expressions -/

theorem follows_atom (h : s.Facing (.leaf t rest) stop behind) :
    Follows s depth (t :: rest.ahead stop behind) behind
      (Reading.expr limit depth stop (.leaf t rest)) (fun x => (x.1, x.2.ahead stop behind))
      (expr s limit (n + 1)) := by
  have hfacing := h
  cases h with | leaf hl hr hown hrest =>
  have hend := Stream.kind_ne_end hown
  refine .peek hown ?_
  simp only [Reading.expr]
  cases Expr.ofToken? t with
  | none => exact follows_expected hfacing rfl rfl
  | some atom => exact .bump hown fun _ => rfl

theorem enters_list (hown : o :: items.ahead stop behind <:+ s.own) (ho : o.kind = .leftParen)
    (h : Follows s (depth + 1) (items.ahead stop behind) behind
      (Reading.exprs limit (depth + 1) .list stop items) (·, behind) (exprs s limit .list n)) :
    Enters s limit depth o (items.ahead stop behind) behind
      (Reading.listTail limit (depth + 1) o items stop) (·, behind) (expr s limit (n + 1)) := by
  have hpeek (found : Collector) : (expr s limit (n + 1)).run
      (s.cursor (o :: items.ahead stop behind) depth found) = (nested s limit do
        let opened ← bump s
        let (items, stop) ← exprs s limit .list n
        pure (.list items ⟨opened.start, stop⟩)).run
      (s.cursor (o :: items.ahead stop behind) depth found) := by
    refine (run_peek hown _).trans ?_
    simp only [List.headD_cons, ho]
  intro found
  rw [hpeek]
  exact enters_nested hown (.bump hown (.bind h fun x _ _ => rfl)) found

theorem follows_list (h : s.Facing (.list o items e rest) stop behind)
    (hitems : Follows s (depth + 1) (items.ahead e (rest.ahead stop behind))
      (rest.ahead stop behind) (Reading.exprs limit (depth + 1) .list e items)
      (·, rest.ahead stop behind) (exprs s limit .list n)) :
    Follows s depth (o :: items.ahead e (rest.ahead stop behind)) behind
      (Reading.expr limit depth stop (.list o items e rest))
      (fun x => (x.1, x.2.ahead stop behind)) (expr s limit (n + 1)) := by
  cases h with | list ho hown _ _ =>
  have hlist := (enters_list hown ho hitems).follows
  rw [Reading.expr, ← Reading.bind_assoc]
  exact .map hlist

theorem follows_exprs {what : Construct} (h : s.Facing items stop behind)
    (hn : 2 * (items.ahead stop behind).length < n) :
    Follows s depth (items.ahead stop behind) behind (Reading.exprs limit depth what stop items)
      (·, behind) (exprs s limit what n) := by
  induction h generalizing depth what n with
  | closed hc hown =>
    obtain ⟨n, rfl⟩ : ∃ m, n = m + 1 := ⟨n - 1, by omega⟩
    refine .peek hown ?_
    simp only [hc]
    exact .bump hown fun _ => rfl
  | ended =>
    obtain ⟨n, rfl⟩ : ∃ m, n = m + 1 := ⟨n - 1, by omega⟩
    refine .peek_end ?_
    simp only [s.last_kind]
    exact follows_ending_end
  | @leaf t rest stop behind hl hr hown hrest ih =>
    have hend := Stream.kind_ne_end hown
    have hne : Forest.leaf t rest ≠ .done := by simp
    simp only [ahead, List.length_cons] at hn
    obtain ⟨n, rfl⟩ : ∃ m, n = m + 1 + 1 := ⟨n - 2, by omega⟩
    rw [Reading.exprs_of_ne hne]
    refine .peek hown ?_
    simp only
    refine .bind (follows_atom (.leaf hl hr hown hrest)) ?_
    rintro ⟨x, more⟩ hx
    obtain rfl := Reading.rest_of_expr hx
    refine .bind (ih (by omega)) ?_
    rintro ⟨xs, place⟩ _
    exact fun _ => rfl
  | @list o items e rest stop behind ho hown hitems hrest ihi ihr =>
    have hlen := (suffix_behind items e (rest.ahead stop behind)).length_le
    have hne : Forest.list o items e rest ≠ .done := by simp
    simp only [ahead, List.length_cons] at hn
    obtain ⟨n, rfl⟩ : ∃ m, n = m + 1 + 1 := ⟨n - 2, by omega⟩
    rw [Reading.exprs_of_ne hne]
    refine .peek hown ?_
    simp only [ho]
    refine .bind (follows_list (.list ho hown hitems hrest) (ihi (by omega))) ?_
    rintro ⟨x, more⟩ hx
    obtain rfl := Reading.rest_of_expr hx
    refine .bind (ihr (by omega)) ?_
    rintro ⟨xs, place⟩ _
    exact fun _ => rfl

theorem follows_expr (h : s.Facing items stop behind) (hne : items ≠ .done)
    (hn : 2 * (items.ahead stop behind).length ≤ n) :
    Follows s depth (items.ahead stop behind) behind (Reading.expr limit depth stop items)
      (fun x => (x.1, x.2.ahead stop behind)) (expr s limit n) := by
  cases h with
  | closed => contradiction
  | ended => contradiction
  | leaf hl hr hown hrest =>
    simp only [ahead, List.length_cons] at hn
    obtain ⟨n, rfl⟩ : ∃ m, n = m + 1 := ⟨n - 1, by omega⟩
    exact follows_atom (.leaf hl hr hown hrest)
  | list ho hown hitems hrest =>
    simp only [ahead, List.length_cons] at hn
    obtain ⟨n, rfl⟩ : ∃ m, n = m + 1 := ⟨n - 1, by omega⟩
    exact follows_list (.list ho hown hitems hrest) (follows_exprs hitems (by omega))

/-! ### Filters -/

theorem follows_simpleFilter {name : String} (hown : t :: items.ahead stop behind <:+ s.own)
    (h : s.Facing items stop behind) (hn : 2 * (items.ahead stop behind).length < n) :
    Follows s depth (t :: items.ahead stop behind) behind
      (Reading.simpleFilter limit depth o t name items stop) (·, behind)
      (simpleFilter s limit o.range.start name n) := by
  refine .bump hown ?_
  by_cases hne : items = .done
  · subst hne
    cases h with
    | closed hc hown =>
      refine .peek hown ?_
      simp only [hc]
      exact follows_fail (.closed hc hown) rfl rfl
    | ended =>
      refine .peek_end ?_
      simp only [s.last_kind]
      exact follows_unclosed_end rfl
  · obtain ⟨u, left, hleft, hr⟩ := h.exists_token hne
    have hend := Stream.kind_ne_end (hleft ▸ h.suffix)
    have hlen := (suffix_others items stop behind).length_le
    have hexpr : Follows s depth (items.ahead stop behind) behind
        (Reading.expr limit depth stop items) (fun x => (x.1, x.2.ahead stop behind))
        (expr s limit n) := follows_expr h hne (by omega)
    have hmore : Follows s depth (items.others.ahead stop behind) behind
        (Reading.exprs limit depth .filter stop items.others) (·, behind)
        (exprs s limit .filter n) := follows_exprs h.others (by omega)
    rw [Reading.simpleFilter_of_ne hne]
    rw [hleft] at hexpr ⊢
    refine .peek (hleft ▸ h.suffix) ?_
    simp only
    refine .bind hexpr ?_
    rintro ⟨value, more⟩ hx
    obtain rfl := Reading.rest_of_expr hx
    refine .bind hmore ?_
    rintro ⟨xs, place⟩ _
    exact fun _ => rfl

/-- The walks that read a filter follow the readings of the forest in it. -/
structure FilterFollows (s : Stream) (limit : Nat) (items : Forest) (stop : ListEnd)
    (behind : List Token) : Prop where
  filter {o : Token} {depth n : Nat} : o :: items.ahead stop behind <:+ s.own →
    2 * (items.ahead stop behind).length + 2 ≤ n →
    Enters s limit depth o (items.ahead stop behind) behind
      (Reading.filter limit (depth + 1) o stop items) (·, behind) (filter s limit n)
  parts {kind : CompoundKind} {depth n : Nat} : 2 * (items.ahead stop behind).length < n →
    Follows s depth (items.ahead stop behind) behind (Reading.filters limit depth kind stop items)
      (·, behind) (parts s limit kind n)
  negation {t : Token} {start : Position} {depth n : Nat} : t :: items.ahead stop behind <:+ s.own →
    2 * (items.ahead stop behind).length < n →
    Follows s depth (t :: items.ahead stop behind) behind (Reading.negation limit depth stop items)
      (fun x => (Filter.negation x.1 ⟨start, x.2⟩, behind)) (negation s limit start n)

theorem follows_listFilter (h : s.Facing items stop behind)
    (hn : 2 * (items.ahead stop behind).length < n) :
    Follows s depth (items.ahead stop behind) behind (do
        let list ← Reading.listTail limit depth o items stop
        pure (Filter.expression list))
      (·, behind) (do
        let (items, stop) ← exprs s limit .list n
        pure (Filter.expression (.list items ⟨o.range.start, stop⟩))) := by
  rw [Reading.listTail, Reading.bind_assoc]
  refine .bind (follows_exprs h hn) ?_
  rintro ⟨inner, place⟩ _
  exact fun _ => rfl

theorem filterFollows_done (h : s.Facing .done stop behind) :
    FilterFollows s limit .done stop behind := by
  cases h with
  | closed hc hown =>
    refine ⟨fun {o depth n} ho hn => ?_, fun {kind depth n} hn => ?_,
      fun {t start depth n} ht hn => ?_⟩
    · obtain ⟨n, rfl⟩ : ∃ m, n = m + 1 := ⟨n - 1, by omega⟩
      refine enters_nested ho (.bump ho (.peek hown ?_))
      simp only [hc]
      exact .bump hown (.report fun _ => rfl)
    · obtain ⟨n, rfl⟩ : ∃ m, n = m + 1 := ⟨n - 1, by omega⟩
      refine .peek hown ?_
      simp only [hc]
      exact .bump hown fun _ => rfl
    · obtain ⟨n, rfl⟩ : ∃ m, n = m + 1 := ⟨n - 1, by omega⟩
      refine .bump ht (.peek hown ?_)
      simp only [hc]
      exact follows_fail (.closed hc hown) rfl rfl
  | ended =>
    refine ⟨fun {o depth n} ho hn => ?_, fun {kind depth n} hn => ?_,
      fun {t start depth n} ht hn => ?_⟩
    · obtain ⟨n, rfl⟩ : ∃ m, n = m + 1 := ⟨n - 1, by omega⟩
      refine enters_nested ho (.bump ho (.peek_end ?_))
      simp only [s.last_kind]
      change Follows s (depth + 1) (Forest.done.ahead s.ending []) [] _ _ _
      exact follows_listFilter .ended (by omega)
    · obtain ⟨n, rfl⟩ : ∃ m, n = m + 1 := ⟨n - 1, by omega⟩
      refine .peek_end ?_
      simp only [s.last_kind]
      exact follows_ending_end
    · obtain ⟨n, rfl⟩ : ∃ m, n = m + 1 := ⟨n - 1, by omega⟩
      refine .bump ht (.peek_end ?_)
      simp only [s.last_kind]
      exact follows_unclosed_end rfl

theorem filterFollows_leaf (h : s.Facing (.leaf t rest) stop behind)
    (ih : FilterFollows s limit rest stop behind) :
    FilterFollows s limit (.leaf t rest) stop behind := by
  have hfacing := h
  cases h with | leaf hl hr hown hrest =>
  have hend := Stream.kind_ne_end hown
  refine ⟨fun {o depth n} ho hn => ?_, fun {kind depth n} hn => ?_,
    fun {u start depth n} hu hn => ?_⟩
  · simp only [ahead, List.length_cons] at hn
    obtain ⟨n, rfl⟩ : ∃ m, n = m + 1 := ⟨n - 1, by omega⟩
    refine enters_nested ho (.bump ho (.peek hown ?_))
    rw [Reading.filter]
    -- Walk and reading look at the same token: the cases are those of both.
    cases hkind : t.kind with
    | symbol name =>
      simp only
      cases CompoundKind.ofText? name with
      | some kind =>
        refine .bump hown (.bind (ih.parts (by omega)) ?_)
        rintro ⟨parts, place⟩ _
        exact fun _ => rfl
      | none =>
        simp only
        split
        · exact .map (ih.negation hown (by omega))
        · exact follows_simpleFilter hown hrest (by omega)
    | rightParen => exact absurd hkind hr
    | _ => exact follows_listFilter hfacing (by simp only [ahead, List.length_cons]; omega)
  · simp only [ahead, List.length_cons] at hn
    obtain ⟨n, rfl⟩ : ∃ m, n = m + 1 := ⟨n - 1, by omega⟩
    refine .peek hown ?_
    simp only [Reading.filters]
    exact .bump hown (.report (ih.parts (by omega)))
  · obtain ⟨n, rfl⟩ : ∃ m, n = m + 1 := ⟨n - 1, by omega⟩
    refine .bump hu (.peek hown ?_)
    simp only [Reading.negation]
    exact follows_expected hfacing rfl rfl

/-- Behind the part of a negation there is nothing but its end. -/
theorem follows_negationEnd {part : Filter} {start : Position} (h : s.Facing rest stop behind)
    (hn : (rest.ahead stop behind).length < n) :
    Follows s depth (rest.ahead stop behind) behind (do
        let place ← Reading.negationEnd rest stop
        pure (part, place))
      (fun x => (Filter.negation x.1 ⟨start, x.2⟩, behind)) (do
        let first ← peek s
        match ← skipExtras s n none with
        | some last => report (SyntaxFault.negationOfSeveral.diagnostic ⟨first.range.start, last⟩)
        | none => pure ()
        let stop ← close s .negation
        pure (Filter.negation part ⟨start, stop⟩)) := by
  have hclose : Follows s depth (stop.tokens ++ behind) behind (do
        let place ← Reading.ending .negation stop
        pure (part, place))
      (fun x => (Filter.negation x.1 ⟨start, x.2⟩, behind)) (do
        let stop ← close s .negation
        pure (Filter.negation part ⟨start, stop⟩)) :=
    .bind (follows_ending h.atEnd) fun _ _ _ => rfl
  refine .peek_next h.suffix (.run (fun _ => run_skipExtras h hn none) ?_)
  rw [Reading.negationEnd]
  cases hstop : rest.stop? with
  | none => cases rest.start? <;> exact hclose
  | some last =>
    have hstart : rest.start? = some ((rest.ahead stop behind).headD s.last).range.start :=
      start?_of_stop? hstop
    rw [hstart]
    change Follows s depth _ behind (Reading.note _ >>= (fun _ => Reading.ending .negation stop) >>=
      fun place => pure (part, place)) _ _
    rw [Reading.bind_assoc]
    exact .report hclose

theorem filterFollows_list (h : s.Facing (.list o items e rest) stop behind)
    (ihi : FilterFollows s limit items e (rest.ahead stop behind))
    (ihr : FilterFollows s limit rest stop behind) :
    FilterFollows s limit (.list o items e rest) stop behind := by
  have hfacing := h
  have hlen := (suffix_behind items e (rest.ahead stop behind)).length_le
  cases h with | list ho hown hitems hrest =>
  refine ⟨fun {u depth n} hu hn => ?_, fun {kind depth n} hn => ?_,
    fun {u start depth n} hu hn => ?_⟩
  · simp only [ahead, List.length_cons] at hn
    obtain ⟨n, rfl⟩ : ∃ m, n = m + 1 := ⟨n - 1, by omega⟩
    refine enters_nested hu (.bump hu (.peek hown ?_))
    simp only [ho, Reading.filter]
    exact follows_listFilter hfacing (by simp only [ahead, List.length_cons]; omega)
  · simp only [ahead, List.length_cons] at hn
    obtain ⟨n, rfl⟩ : ∃ m, n = m + 1 := ⟨n - 1, by omega⟩
    have hpart : Enters s limit depth o (items.ahead e (rest.ahead stop behind))
        (rest.ahead stop behind) (Reading.filter limit (depth + 1) o e items)
        (·, rest.ahead stop behind) (filter s limit n) := ihi.filter hown (by omega)
    refine .peek hown ?_
    simp only [ho, Reading.filters]
    refine .bind (hpart.attempt hitems hown) fun part _ => .bind (ihr.parts (by omega)) ?_
    rintro ⟨more, place⟩ _
    exact fun _ => rfl
  · simp only [ahead, List.length_cons] at hn
    obtain ⟨n, rfl⟩ : ∃ m, n = m + 1 := ⟨n - 1, by omega⟩
    have hpart : Enters s limit depth o (items.ahead e (rest.ahead stop behind))
        (rest.ahead stop behind) (Reading.filter limit (depth + 1) o e items)
        (·, rest.ahead stop behind) (filter s limit n) := ihi.filter hown (by omega)
    refine .bump hu (.peek hown ?_)
    simp only [ho]
    rw [Reading.negation, ← Reading.bind_assoc]
    exact .bind hpart.follows fun part _ => follows_negationEnd hrest (by omega)

theorem filterFollows (h : s.Facing items stop behind) :
    FilterFollows s limit items stop behind := by
  induction h with
  | closed hc hown => exact filterFollows_done (.closed hc hown)
  | ended => exact filterFollows_done .ended
  | leaf hl hr hown hrest ih => exact filterFollows_leaf (.leaf hl hr hown hrest) ih
  | list ho hown hitems hrest ihi ihr =>
    exact filterFollows_list (.list ho hown hitems hrest) ihi ihr

end Walk

end SandboxProfile
