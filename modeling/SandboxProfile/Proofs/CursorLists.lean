import SandboxProfile.Proofs.CursorSteps

/-!
# A cursor inside a list

A walk that begins in a closed list goes through it or gives up inside it (`Stays`). In either case
it comes back to the depth at which it began, and where it gave up the last it told is an error at
the token under the cursor. One lemma for each walk says so, by induction on the forest in the list.
-/

namespace SandboxProfile

/-! ### Closed lists -/

namespace Stream.Facing

variable {s : Stream} {items rest : Forest} {behind : List Token} {c : Token} {e : ListEnd}

/-- In a closed list all lists are closed. -/
theorem inner_closed (h : s.Facing items e (rest.ahead (.closed c) behind))
    (hrest : s.Facing rest (.closed c) behind) : ∃ d, e = .closed d := by
  cases e with
  | closed d => exact ⟨d, rfl⟩
  | endOfFile range last =>
    obtain ⟨-, -, hstop, -⟩ := h.of_endOfFile hrest
    cases hstop

/-- Induction on the forest in a closed list. -/
theorem closed_induction {s : Stream}
    {motive : ∀ {items c behind}, s.Facing items (.closed c) behind → Prop}
    (closed : ∀ {c behind} (hc : c.kind = .rightParen) (hown : c :: behind <:+ s.own),
      motive (.closed hc hown))
    (leaf : ∀ {t rest c behind} (hl : t.kind ≠ .leftParen) (hr : t.kind ≠ .rightParen)
      (hown : t :: rest.ahead (.closed c) behind <:+ s.own)
      (hrest : s.Facing rest (.closed c) behind),
      motive hrest → motive (.leaf hl hr hown hrest))
    (list : ∀ {o items d rest c behind} (ho : o.kind = .leftParen)
      (hown : o :: items.ahead (.closed d) (rest.ahead (.closed c) behind) <:+ s.own)
      (hitems : s.Facing items (.closed d) (rest.ahead (.closed c) behind))
      (hrest : s.Facing rest (.closed c) behind),
      motive hitems → motive hrest → motive (.list ho hown hitems hrest))
    {items : Forest} {c : Token} {behind : List Token} (h : s.Facing items (.closed c) behind) :
    motive h := by
  induction items generalizing c behind with
  | done =>
    cases h with
    | closed hc hown => exact closed hc hown
  | leaf t rest ih =>
    cases h with
    | leaf hl hr hown hrest => exact leaf hl hr hown hrest (ih hrest)
  | list o items e rest ihi ihr =>
    cases h with
    | list ho hown hitems hrest =>
      obtain ⟨d, rfl⟩ := hitems.inner_closed hrest
      exact list ho hown hitems hrest (ihi hitems) (ihr hrest)

end Stream.Facing

/-! ### Walks that stay in a list -/

/-- A walk from `left` on went through to `after`, or it gave up before it took `stop`, for an error
at the token under the cursor. The depth is what it was. -/
inductive Stream.Kept (s : Stream) (depth : Nat) (found : Collector) (left stop after : List Token)
    {α : Type} : Option (Except Unit α × Cursor) → Prop
  | through (x : α) (notes : List Diagnostic) :
    Kept s depth found left stop after (some (.ok x, s.cursor after depth (found.extend notes)))
  | within {t : Token} {rest : List Token} (notes : List Diagnostic) {d : Diagnostic} :
    stop <:+ t :: rest → t :: rest <:+ left → d.isError = true → d.range = t.range →
    Kept s depth found left stop after
      (some (.error (), s.cursor (t :: rest) depth (found.extend (notes ++ [d]))))

namespace Walk

open Forest Stream.Facing

variable {s : Stream} {α β : Type} {depth limit n : Nat} {left mid after stop : List Token}
  {t c : Token} {items rest : Forest} {behind : List Token}

def Stays (s : Stream) (depth : Nat) (left stop after : List Token) (w : Walk α) : Prop :=
  ∀ found, s.Kept depth found left stop after (w.run (s.cursor left depth found))

namespace Stays

theorem weaken {stop' : List Token} {w : Walk α} (h : Stays s depth left stop after w)
    (hstop : stop' <:+ stop) : Stays s depth left stop' after w := by
  intro found
  have hw := h found
  generalize w.run _ = r at hw
  cases hw with
  | through x notes => exact .through x notes
  | within notes hs hl herror hrange => exact .within notes (hstop.trans hs) hl herror hrange

theorem pure (x : α) : Stays s depth left stop left (Pure.pure x : Walk α) :=
  fun _ => .through x []

theorem bind {w : Walk α} {f : α → Walk β} (hw : Stays s depth left stop mid w)
    (hmid : mid <:+ left) (hf : ∀ x, Stays s depth mid stop after (f x)) :
    Stays s depth left stop after (w >>= f) := by
  intro found
  have hfirst := hw found
  rw [run_bind]
  generalize w.run _ = r at hfirst
  cases hfirst with
  | through x notes =>
    have hnext := hf x (found.extend notes)
    change s.Kept _ _ _ _ _ ((f x).run (s.cursor mid depth (found.extend notes)))
    generalize (f x).run _ = r at hnext
    cases hnext with
    | through y more =>
      rw [← Collector.extend_append]
      exact .through y _
    | within more hs hl herror hrange =>
      rw [← Collector.extend_append, ← List.append_assoc]
      exact .within _ hs (hl.trans hmid) herror hrange
  | within notes hs hl herror hrange => exact .within notes hs hl herror hrange

/-- A walk goes on as another one that begins further on. -/
theorem step {w : Walk α} {w' : Walk α} (hmid : mid <:+ left)
    (hrun : ∀ found, ∃ notes, w.run (s.cursor left depth found) =
      w'.run (s.cursor mid depth (found.extend notes)))
    (h : Stays s depth mid stop after w') : Stays s depth left stop after w := by
  intro found
  obtain ⟨notes, hnotes⟩ := hrun found
  have hnext := h (found.extend notes)
  rw [hnotes]
  generalize w'.run _ = r at hnext
  cases hnext with
  | through y more =>
    rw [← Collector.extend_append]
    exact .through y _
  | within more hs hl herror hrange =>
    rw [← Collector.extend_append, ← List.append_assoc]
    exact .within _ hs (hl.trans hmid) herror hrange

theorem peek {f : Token → Walk α} (hown : t :: left <:+ s.own)
    (h : Stays s depth (t :: left) stop after (f t)) :
    Stays s depth (t :: left) stop after (Walk.peek s >>= f) :=
  step (List.suffix_refl _) (fun _ => ⟨[], run_peek hown f⟩) h

theorem bump {f : Range → Walk α} (hown : t :: left <:+ s.own)
    (h : Stays s depth left stop after (f t.range)) :
    Stays s depth (t :: left) stop after (Walk.bump s >>= f) :=
  step (List.suffix_cons t left) (fun _ => ⟨[], run_bump hown f⟩) h

theorem report {d : Diagnostic} {f : Unit → Walk α} (h : Stays s depth left stop after (f ())) :
    Stays s depth left stop after (Walk.report d >>= f) :=
  step (List.suffix_refl left) (fun _ => ⟨[d], run_report d f⟩) h

theorem run {w : Walk α} {x : α} {f : α → Walk β} (hmid : mid <:+ left)
    (hw : ∀ found, w.run (s.cursor left depth found) = some (.ok x, s.cursor mid depth found))
    (h : Stays s depth mid stop after (f x)) : Stays s depth left stop after (w >>= f) :=
  step hmid (fun found => ⟨[], run_bind_ok (hw found)⟩) h

theorem of_error {w : Walk α} {d : Diagnostic} (hstop : stop <:+ t :: left)
    (hw : ∀ found, w.run (s.cursor (t :: left) depth found) =
      some (.error (), s.cursor (t :: left) depth (found.push d).2))
    (herror : d.isError = true) (hrange : d.range = t.range) :
    Stays s depth (t :: left) stop after w := by
  intro found
  rw [hw found]
  exact .within [] hstop (List.suffix_refl _) herror hrange

end Stays

theorem stays_fail {fault : SyntaxFault} (hown : t :: left <:+ s.own) (hstop : stop <:+ t :: left)
    (herror : fault.severity = .error) :
    Stays s depth (t :: left) stop after (fail s fault : Walk α) :=
  .of_error hstop (fun _ => run_fail hown fault) (decide_eq_true herror) rfl

theorem stays_expected {what : Expected} (hown : t :: left <:+ s.own)
    (hstop : stop <:+ t :: left) :
    Stays s depth (t :: left) stop after (expected s what : Walk α) :=
  .of_error hstop (fun _ => run_expected hown what) (by cases what <;> rfl) rfl

theorem stays_unclosed {what : Construct} (hown : t :: left <:+ s.own)
    (hstop : stop <:+ t :: left) :
    Stays s depth (t :: left) stop after (unclosed s what : Walk α) :=
  .of_error hstop (fun _ => run_unclosed hown what) rfl rfl

theorem stays_nested {w : Walk α} (hown : t :: left <:+ s.own) (hstop : stop <:+ t :: left)
    (h : Stays s (depth + 1) (t :: left) stop after w) :
    Stays s depth (t :: left) stop after (nested s limit w) := by
  by_cases hdepth : depth < limit
  · intro found
    have hw := h found
    cases hr : w.run (s.cursor (t :: left) (depth + 1) found) with
    | none =>
      rw [hr] at hw
      cases hw
    | some r =>
      obtain ⟨x, c⟩ := r
      rw [hr] at hw
      cases hw with
      | through x notes =>
        rw [run_nested hdepth hr]
        exact .through x notes
      | within notes hs hl herror hrange =>
        rw [run_nested hdepth hr]
        exact .within notes hs hl herror hrange
  · -- Beyond the limit nothing of the list is looked at.
    have hfail (found : Collector) : (nested s limit w).run (s.cursor (t :: left) depth found) =
        some (.error (), s.cursor (t :: left) depth
          (found.push ((SyntaxFault.nestingTooDeep limit).diagnostic t.range)).2) :=
      (run_nested_deep hdepth w).trans (run_fail hown (.nestingTooDeep limit))
    exact .of_error hstop hfail rfl rfl

/-- Where a list is not gone through, it is passed over. -/
theorem stays_attempt {w : Walk α} (hown : t :: items.ahead (.closed c) behind <:+ s.own)
    (h : s.Facing items (.closed c) behind)
    (hw : Stays s depth (t :: items.ahead (.closed c) behind) (c :: behind) behind w) :
    Stays s depth (t :: items.ahead (.closed c) behind) stop behind (attempt s w) := by
  intro found
  have hw := hw found
  cases hr : w.run (s.cursor (t :: items.ahead (.closed c) behind) depth found) with
  | none =>
    rw [hr] at hw
    cases hw
  | some r =>
    obtain ⟨x, c⟩ := r
    rw [hr] at hw
    cases hw with
    | through x notes =>
      rw [run_attempt_ok hr]
      exact .through (some x) notes
    | within notes _ _ _ _ =>
      rw [run_attempt_error h hown hr]
      exact .through none _

/-! ### Expressions -/

theorem stays_close {what : Construct} (h : s.Facing items (.closed c) behind) :
    Stays s depth (items.ahead (.closed c) behind) (c :: behind) behind (close s what) := by
  have hstop := suffix_closed items c behind
  cases h with
  | closed hc hown =>
    refine .peek hown ?_
    simp only [hc]
    exact .bump hown (.pure _)
  | leaf hl hr hown _ =>
    refine .peek hown ?_
    simp only
    exact stays_unclosed hown hstop
  | list ho hown _ _ =>
    refine .peek hown ?_
    simp only [ho]
    exact stays_unclosed hown hstop

theorem stays_atom (hown : t :: left <:+ s.own) (hl : t.kind ≠ .leftParen)
    (hstop : stop <:+ t :: left) : Stays s depth (t :: left) stop left (expr s limit (n + 1)) := by
  have hend := Stream.kind_ne_end hown
  refine .peek hown ?_
  simp only
  cases Expr.ofToken? t with
  | none => exact stays_expected hown hstop
  | some atom => exact .bump hown (.pure atom)

theorem stays_list (ht : t.kind = .leftParen) (hown : t :: items.ahead (.closed c) behind <:+ s.own)
    (h : Stays s (depth + 1) (items.ahead (.closed c) behind) (c :: behind) behind
      (exprs s limit .list n)) :
    Stays s depth (t :: items.ahead (.closed c) behind) (c :: behind) behind
      (expr s limit (n + 1)) := by
  have hstop := suffix_closed items c behind
  refine .peek hown ?_
  simp only [ht]
  refine stays_nested hown (hstop.trans (List.suffix_cons _ _)) (.bump hown ?_)
  refine .bind h (suffix_behind ..) ?_
  rintro ⟨inner, place⟩
  exact .pure _

theorem stays_exprs {what : Construct} (h : s.Facing items (.closed c) behind)
    (hn : 2 * (items.ahead (.closed c) behind).length < n) :
    Stays s depth (items.ahead (.closed c) behind) (c :: behind) behind
      (exprs s limit what n) := by
  -- Each item needs two walks, the one over the item and the one over what follows it.
  induction h using Stream.Facing.closed_induction generalizing depth what n with
  | closed hc hown =>
    obtain ⟨n, rfl⟩ := Nat.exists_eq_add_one_of_ne_zero (Nat.ne_zero_of_lt hn)
    refine .peek hown ?_
    simp only [hc]
    exact .bump hown (.pure _)
  | @leaf t rest c behind hl hr hown hrest ih =>
    have hend := Stream.kind_ne_end hown
    simp only [ahead, List.length_cons] at hn
    obtain ⟨n, rfl⟩ : ∃ m, n = m + 1 + 1 := ⟨n - 2, by omega⟩
    have hitem : Stays s depth (t :: rest.ahead (.closed c) behind) (c :: behind)
        (rest.ahead (.closed c) behind) (expr s limit (n + 1)) :=
      stays_atom hown hl ((suffix_closed ..).trans (List.suffix_cons _ _))
    refine .peek hown ?_
    simp only
    refine .bind hitem (List.suffix_cons _ _) fun x => ?_
    refine .bind (ih (by omega)) (suffix_behind ..) ?_
    rintro ⟨more, place⟩
    exact .pure _
  | @list o items d rest c behind ho hown hitems hrest ihi ihr =>
    have hlen := length_lt_ahead items d (rest.ahead (.closed c) behind)
    simp only [ahead, List.length_cons] at hn
    obtain ⟨n, rfl⟩ : ∃ m, n = m + 1 + 1 := ⟨n - 2, by omega⟩
    have hitem : Stays s depth (o :: items.ahead (.closed d) (rest.ahead (.closed c) behind))
        (d :: rest.ahead (.closed c) behind) (rest.ahead (.closed c) behind)
        (expr s limit (n + 1)) :=
      stays_list ho hown (ihi (by omega))
    refine .peek hown ?_
    simp only [ho]
    refine .bind (hitem.weaken ((suffix_closed ..).trans (List.suffix_cons _ _))) ?_ fun x => ?_
    · exact (suffix_behind ..).trans (List.suffix_cons _ _)
    refine .bind (ihr (by omega)) (suffix_behind ..) ?_
    rintro ⟨more, place⟩
    exact .pure _

/-- An expression leaves a part of the list it is in, and not all of it. -/
theorem stays_expr (depth limit : Nat) (h : s.Facing items (.closed c) behind) (hne : items ≠ .done)
    (hn : 2 * (items.ahead (.closed c) behind).length ≤ n) :
    ∃ rest, s.Facing rest (.closed c) behind ∧
      rest.ahead (.closed c) behind <:+ (items.ahead (.closed c) behind).tail ∧
      Stays s depth (items.ahead (.closed c) behind) (c :: behind) (rest.ahead (.closed c) behind)
        (expr s limit n) := by
  cases h with
  | closed => contradiction
  | @leaf t rest _ _ hl hr hown hrest =>
    simp only [ahead, List.length_cons] at hn
    obtain ⟨n, rfl⟩ : ∃ m, n = m + 1 := ⟨n - 1, by omega⟩
    refine ⟨rest, hrest, List.suffix_refl _, stays_atom hown hl ?_⟩
    exact (suffix_closed ..).trans (List.suffix_cons _ _)
  | @list o inner e rest _ _ ho hown hitems hrest =>
    obtain ⟨d, rfl⟩ := hitems.inner_closed hrest
    simp only [ahead, List.length_cons] at hn
    obtain ⟨n, rfl⟩ : ∃ m, n = m + 1 := ⟨n - 1, by omega⟩
    have hinner : Stays s (depth + 1) _ _ _ (exprs s limit .list n) :=
      stays_exprs hitems (by omega)
    refine ⟨rest, hrest, suffix_behind .., (stays_list ho hown hinner).weaken ?_⟩
    exact (suffix_closed ..).trans (List.suffix_cons _ _)

/-! ### Filters -/

theorem stays_simpleFilter {start : Position} {name : String}
    (hown : t :: items.ahead (.closed c) behind <:+ s.own) (h : s.Facing items (.closed c) behind)
    (hn : 2 * (items.ahead (.closed c) behind).length < n) :
    Stays s depth (t :: items.ahead (.closed c) behind) (c :: behind) behind
      (simpleFilter s limit start name n) := by
  refine .bump hown ?_
  by_cases hne : items = .done
  · subst hne
    cases h with
    | closed hc hown =>
      refine .peek hown ?_
      simp only [hc]
      exact stays_fail hown (List.suffix_refl _) rfl
  · obtain ⟨u, left, hleft, hr⟩ := h.exists_token hne
    obtain ⟨rest, hrest, htail, hexpr⟩ := stays_expr depth limit h hne (Nat.le_of_lt hn)
    have hend := Stream.kind_ne_end (hleft ▸ h.suffix)
    have hlen := htail.length_le
    rw [List.length_tail] at hlen
    rw [hleft] at hexpr htail ⊢
    refine .peek (hleft ▸ h.suffix) ?_
    simp only
    refine .bind hexpr (htail.trans (List.tail_suffix _)) fun value => ?_
    refine .bind (stays_exprs hrest (by omega)) (suffix_behind ..) ?_
    rintro ⟨more, place⟩
    exact .pure _

/-- The walks that read a filter stay in it, where the forest in it is given. -/
structure FilterStays (s : Stream) (limit : Nat) (items : Forest) (c : Token)
    (behind : List Token) : Prop where
  filter {o : Token} {depth n : Nat} : o :: items.ahead (.closed c) behind <:+ s.own →
    2 * (items.ahead (.closed c) behind).length + 2 ≤ n →
    Stays s depth (o :: items.ahead (.closed c) behind) (c :: behind) behind (filter s limit n)
  parts {kind : CompoundKind} {depth n : Nat} : 2 * (items.ahead (.closed c) behind).length < n →
    Stays s depth (items.ahead (.closed c) behind) (c :: behind) behind (parts s limit kind n)
  negation {t : Token} {start : Position} {depth n : Nat} :
    t :: items.ahead (.closed c) behind <:+ s.own →
    2 * (items.ahead (.closed c) behind).length < n →
    Stays s depth (t :: items.ahead (.closed c) behind) (c :: behind) behind
      (negation s limit start n)

/-- A list with no type in front is an expression. -/
theorem stays_listFilter {start : Position} (h : s.Facing items (.closed c) behind)
    (hn : 2 * (items.ahead (.closed c) behind).length < n) :
    Stays s depth (items.ahead (.closed c) behind) (c :: behind) behind (do
      let (items, stop) ← exprs s limit .list n
      pure (Filter.expression (.list items ⟨start, stop⟩))) := by
  refine .bind (stays_exprs h hn) (suffix_behind ..) ?_
  rintro ⟨inner, place⟩
  exact .pure _

theorem filterStays_done (hc : c.kind = .rightParen) (hown : c :: behind <:+ s.own) :
    FilterStays s limit .done c behind where
  filter {o depth n} ho hn := by
    obtain ⟨n, rfl⟩ : ∃ m, n = m + 1 := ⟨n - 1, by omega⟩
    refine stays_nested ho (List.suffix_cons _ _) (.bump ho (.peek hown ?_))
    simp only [hc]
    exact .bump hown (.report (.pure _))
  parts {kind depth n} hn := by
    obtain ⟨n, rfl⟩ : ∃ m, n = m + 1 := ⟨n - 1, by omega⟩
    refine .peek hown ?_
    simp only [hc]
    exact .bump hown (.pure _)
  negation {t start depth n} ht hn := by
    obtain ⟨n, rfl⟩ : ∃ m, n = m + 1 := ⟨n - 1, by omega⟩
    refine .bump ht (.peek hown ?_)
    simp only [hc]
    exact stays_fail hown (List.suffix_refl _) rfl

theorem filterStays_leaf (h : s.Facing (.leaf t rest) (.closed c) behind)
    (ih : FilterStays s limit rest c behind) : FilterStays s limit (.leaf t rest) c behind := by
  have hstop := (suffix_closed rest c behind).trans (List.suffix_cons t _)
  cases h with | leaf hl hr hown hrest =>
  have hend := Stream.kind_ne_end hown
  refine ⟨fun {o depth n} ho hn => ?_, fun {kind depth n} hn => ?_,
    fun {u start depth n} hu hn => ?_⟩
  · simp only [ahead, List.length_cons] at hn
    obtain ⟨n, rfl⟩ : ∃ m, n = m + 1 := ⟨n - 1, by omega⟩
    refine stays_nested ho (hstop.trans (List.suffix_cons _ _)) (.bump ho (.peek hown ?_))
    split
    next name _ =>
      split
      next kind _ =>
        refine .bump hown (.bind (ih.parts (by omega)) (suffix_behind ..) ?_)
        rintro ⟨parts, place⟩
        exact .pure _
      next =>
        split
        · exact ih.negation hown (by omega)
        · exact stays_simpleFilter hown hrest (by omega)
    next => contradiction
    next =>
      exact stays_listFilter (.leaf hl hr hown hrest)
        (by simp only [ahead, List.length_cons]; omega)
  · simp only [ahead, List.length_cons] at hn
    obtain ⟨n, rfl⟩ : ∃ m, n = m + 1 := ⟨n - 1, by omega⟩
    refine .peek hown ?_
    simp only
    exact .bump hown (.report (ih.parts (by omega)))
  · obtain ⟨n, rfl⟩ : ∃ m, n = m + 1 := ⟨n - 1, by omega⟩
    refine .bump hu (.peek hown ?_)
    simp only
    exact stays_expected hown hstop

theorem filterStays_list {o d : Token}
    (h : s.Facing (.list o items (.closed d) rest) (.closed c) behind)
    (ihi : FilterStays s limit items d (rest.ahead (.closed c) behind))
    (ihr : FilterStays s limit rest c behind) :
    FilterStays s limit (.list o items (.closed d) rest) c behind := by
  have hlen := length_lt_ahead items d (rest.ahead (.closed c) behind)
  have hstop : c :: behind <:+ o :: items.ahead (.closed d) (rest.ahead (.closed c) behind) :=
    suffix_closed (.list o items (.closed d) rest) c behind
  cases h with | list ho hown hitems hrest =>
  refine ⟨fun {u depth n} hu hn => ?_, fun {kind depth n} hn => ?_,
    fun {u start depth n} hu hn => ?_⟩
  · simp only [ahead, List.length_cons] at hn
    obtain ⟨n, rfl⟩ : ∃ m, n = m + 1 := ⟨n - 1, by omega⟩
    refine stays_nested hu (hstop.trans (List.suffix_cons _ _)) (.bump hu (.peek hown ?_))
    simp only [ho]
    exact stays_listFilter (.list ho hown hitems hrest)
      (by simp only [ahead, List.length_cons]; omega)
  · simp only [ahead, List.length_cons] at hn
    obtain ⟨n, rfl⟩ : ∃ m, n = m + 1 := ⟨n - 1, by omega⟩
    have hpart : Stays s depth _ (c :: behind) (rest.ahead (.closed c) behind)
        (attempt s (filter s limit n)) :=
      stays_attempt hown hitems (ihi.filter hown (by omega))
    refine .peek hown ?_
    simp only [ho]
    refine .bind hpart ((suffix_behind ..).trans (List.suffix_cons _ _)) fun part => ?_
    refine .bind (ihr.parts (by omega)) (suffix_behind ..) ?_
    rintro ⟨more, place⟩
    exact .pure _
  · simp only [ahead, List.length_cons] at hn
    obtain ⟨n, rfl⟩ : ∃ m, n = m + 1 := ⟨n - 1, by omega⟩
    have hpart : Stays s depth _ (c :: behind) (rest.ahead (.closed c) behind)
        (filter s limit n) :=
      (ihi.filter hown (by omega)).weaken ((suffix_closed ..).trans (List.suffix_cons _ _))
    refine .bump hu (.peek hown ?_)
    simp only [ho]
    refine .bind hpart ((suffix_behind ..).trans (List.suffix_cons _ _)) fun part => ?_
    refine .step (List.suffix_refl _) (fun _ => ⟨[], run_peek hrest.suffix _⟩) ?_
    refine .run (suffix_closed ..) (fun _ => run_skipExtras hrest (by omega) none) ?_
    have hclose : Stays s depth (c :: behind) (c :: behind) behind (do
        let stop ← close s .negation
        Pure.pure (Filter.negation part ⟨start, stop⟩)) :=
      .bind (stays_close hrest.atEnd) (List.suffix_cons _ _) fun _ => .pure _
    split
    · exact .report hclose
    · exact hclose

theorem filterStays (h : s.Facing items (.closed c) behind) :
    FilterStays s limit items c behind := by
  induction h using Stream.Facing.closed_induction with
  | closed hc hown => exact filterStays_done hc hown
  | leaf hl hr hown hrest ih => exact filterStays_leaf (.leaf hl hr hown hrest) ih
  | list ho hown hitems hrest ihi ihr =>
    exact filterStays_list (.list ho hown hitems hrest) ihi ihr

/-! ### Forms -/

/-- A walk that asks for a token of some kind, which no parenthesis has. -/
theorem stays_asked (what : Expected) {f : Token → Walk α} (h : s.Facing items (.closed c) behind)
    (hasked : ∀ u, u.kind = .leftParen ∨ u.kind = .rightParen → f u = expected s what)
    (hleaf : ∀ u more, items = .leaf u more →
      Stays s depth (u :: more.ahead (.closed c) behind) (c :: behind) behind (f u)) :
    Stays s depth (items.ahead (.closed c) behind) (c :: behind) behind (peek s >>= f) := by
  cases h with
  | closed hc hown =>
    refine .peek hown ?_
    rw [hasked _ (.inr hc)]
    exact stays_expected hown (List.suffix_refl _)
  | leaf _ _ hown _ => exact .peek hown (hleaf _ _ rfl)
  | list ho hown _ _ =>
    refine .peek hown ?_
    rw [hasked _ (.inl ho)]
    exact stays_expected hown (suffix_closed (.list ..) ..)

section Forms

variable (hown : t :: items.ahead (.closed c) behind <:+ s.own)
  (h : s.Facing items (.closed c) behind)

include hown h

theorem stays_version {start : Position} :
    Stays s depth (t :: items.ahead (.closed c) behind) (c :: behind) behind (version s start) := by
  refine .bump hown (stays_asked .versionNumber h ?_ ?_)
  · rintro u (hu | hu) <;> simp only [hu]
  · rintro u more rfl
    cases h with | leaf _ _ hown hrest =>
    split
    next => exact .bump hown (.bind (stays_close hrest) (suffix_behind ..) fun place => .pure _)
    next => exact stays_expected hown ((suffix_closed ..).trans (List.suffix_cons _ _))

theorem stays_importPath {start : Position} :
    Stays s depth (t :: items.ahead (.closed c) behind) (c :: behind) behind
      (importPath s start) := by
  refine .bump hown (stays_asked .importPath h ?_ ?_)
  · rintro u (hu | hu) <;> simp only [hu]
  · rintro u more rfl
    cases h with | leaf _ _ hown hrest =>
    split
    next => exact .bump hown (.bind (stays_close hrest) (suffix_behind ..) fun place => .pure _)
    next => exact .bump hown (.bind (stays_close hrest) (suffix_behind ..) fun place => .pure _)
    next => exact stays_expected hown ((suffix_closed ..).trans (List.suffix_cons _ _))

omit hown in
theorem stays_debugAction : ∃ rest, s.Facing rest (.closed c) behind ∧
    rest.ahead (.closed c) behind <:+ items.ahead (.closed c) behind ∧
    Stays s depth (items.ahead (.closed c) behind) (c :: behind) (rest.ahead (.closed c) behind)
      (debugAction s) := by
  cases h with
  | closed hc hown =>
    refine ⟨.done, .closed hc hown, List.suffix_refl _, .peek hown ?_⟩
    simp only [hc]
    exact stays_fail hown (List.suffix_refl _) rfl
  | @leaf u rest _ _ hl hr hown hrest =>
    have hend := Stream.kind_ne_end hown
    refine ⟨rest, hrest, List.suffix_cons _ _, .peek hown ?_⟩
    split
    next => contradiction
    next => contradiction
    next => contradiction
    next => exact .bump hown (.pure _)
    next => exact .bump hown (.pure _)
    next => exact .bump hown (.report (.pure _))
  | @list o inner e rest _ _ ho hown hitems hrest =>
    refine ⟨rest, hrest, suffix_rest .., .peek hown ?_⟩
    simp only [ho]
    exact stays_expected hown (suffix_closed (.list ..) ..)

theorem stays_debugMode {start : Position} :
    Stays s depth (t :: items.ahead (.closed c) behind) (c :: behind) behind
      (debugMode s start) := by
  obtain ⟨rest, hrest, hafter, haction⟩ := stays_debugAction h
  refine .bump hown (.bind haction hafter fun action => ?_)
  exact .bind (stays_close hrest) (suffix_behind ..) fun place => .pure _

theorem stays_definitionHead :
    Stays s depth (t :: items.ahead (.closed c) behind) (c :: behind) behind
      (definitionHead s) := by
  refine .bump hown (stays_asked .definitionName h ?_ ?_)
  · rintro u (hu | hu) <;> simp only [hu]
  · rintro u more rfl
    cases h with | leaf _ _ hown hrest =>
    split
    next =>
      refine .bump hown (.run (suffix_behind ..) (fun _ => run_skipToClose hrest) ?_)
      exact .pure _
    next => exact stays_expected hown ((suffix_closed ..).trans (List.suffix_cons _ _))

omit hown in
theorem stays_definitionName (depth : Nat) : ∃ rest, s.Facing rest (.closed c) behind ∧
    rest.ahead (.closed c) behind <:+ items.ahead (.closed c) behind ∧
    Stays s depth (items.ahead (.closed c) behind) (c :: behind) (rest.ahead (.closed c) behind)
      (definitionName s) := by
  cases h with
  | closed hc hown =>
    refine ⟨.done, .closed hc hown, List.suffix_refl _, .peek hown ?_⟩
    simp only [hc]
    exact stays_fail hown (List.suffix_refl _) rfl
  | @leaf u rest _ _ hl hr hown hrest =>
    have hend := Stream.kind_ne_end hown
    refine ⟨rest, hrest, List.suffix_cons _ _, .peek hown ?_⟩
    split
    next => exact .bump hown (.pure _)
    next => contradiction
    next => contradiction
    next => contradiction
    next => exact stays_expected hown ((suffix_closed ..).trans (List.suffix_cons _ _))
  | @list o inner e rest _ _ ho hown hitems hrest =>
    obtain ⟨d, rfl⟩ := hitems.inner_closed hrest
    refine ⟨rest, hrest, suffix_rest .., .peek hown ?_⟩
    simp only [ho]
    refine (stays_definitionHead hown hitems).weaken ?_
    exact (suffix_closed ..).trans (List.suffix_cons _ _)

theorem stays_definition {start : Position} (hn : 2 * (items.ahead (.closed c) behind).length ≤ n) :
    Stays s depth (t :: items.ahead (.closed c) behind) (c :: behind) behind
      (definition s limit start n) := by
  obtain ⟨rest, hrest, hafter, hname⟩ := stays_definitionName h depth
  refine .bump hown (.bind hname hafter ?_)
  rintro ⟨name, range⟩
  by_cases hne : rest = .done
  · subst hne
    cases hrest with
    | closed hc hown =>
      refine .peek hown ?_
      simp only [hc]
      exact stays_fail hown (List.suffix_refl _) rfl
  · obtain ⟨u, left, hleft, hr⟩ := hrest.exists_token hne
    have hlen := hafter.length_le
    obtain ⟨more, hmore, htail, hexpr⟩ := stays_expr (n := n) depth limit hrest hne
      (by omega)
    have hend := Stream.kind_ne_end (hleft ▸ hrest.suffix)
    rw [hleft] at hexpr htail ⊢
    refine .peek (hleft ▸ hrest.suffix) ?_
    simp only
    refine .bind hexpr (htail.trans (List.tail_suffix _)) fun value => ?_
    exact .bind (stays_close hmore) (suffix_behind ..) fun place => .pure _

omit hown in
theorem stays_ruleItems (hn : 2 * (items.ahead (.closed c) behind).length < n) :
    Stays s depth (items.ahead (.closed c) behind) (c :: behind) behind (ruleItems s limit n) := by
  induction h using Stream.Facing.closed_induction generalizing n with
  | closed hc hown =>
    obtain ⟨n, rfl⟩ : ∃ m, n = m + 1 := ⟨n - 1, by omega⟩
    refine .peek hown ?_
    simp only [hc]
    exact .bump hown (.pure _)
  | @leaf t rest c behind hl hr hown hrest ih =>
    simp only [ahead, List.length_cons] at hn
    obtain ⟨n, rfl⟩ : ∃ m, n = m + 1 := ⟨n - 1, by omega⟩
    have hend := Stream.kind_ne_end hown
    refine .peek hown ?_
    split
    next =>
      refine .bump hown (.bind (ih (by omega)) (suffix_behind ..) ?_)
      rintro ⟨operations, filters, place⟩
      exact .pure _
    next => contradiction
    next => contradiction
    next => contradiction
    next => exact stays_fail hown ((suffix_closed ..).trans (List.suffix_cons _ _)) rfl
  | @list o items d rest c behind ho hown hitems hrest _ ih =>
    have hlen := length_lt_ahead items d (rest.ahead (.closed c) behind)
    simp only [ahead, List.length_cons] at hn
    obtain ⟨n, rfl⟩ : ∃ m, n = m + 1 := ⟨n - 1, by omega⟩
    have hpart : Stays s depth _ (c :: behind) (rest.ahead (.closed c) behind)
        (attempt s (filter s limit n)) :=
      stays_attempt hown hitems ((filterStays hitems).filter hown (by omega))
    refine .peek hown ?_
    simp only [ho]
    refine .bind hpart (suffix_rest ..) fun part => ?_
    refine .bind (ih (by omega)) (suffix_behind ..) ?_
    rintro ⟨operations, filters, place⟩
    exact .pure _

theorem stays_rule {action : Action} {start : Position}
    (hn : 2 * (items.ahead (.closed c) behind).length < n) :
    Stays s depth (t :: items.ahead (.closed c) behind) (c :: behind) behind
      (rule s limit action start n) := by
  refine .bump hown (.bind (stays_ruleItems h hn) (suffix_behind ..) ?_)
  rintro ⟨operations, filters, place⟩
  simp only
  split
  · exact .report (.pure _)
  · exact .pure _

theorem stays_unrecognized {head : String} :
    Stays s depth (t :: items.ahead (.closed c) behind) (c :: behind) behind
      (unrecognized s head) := by
  refine .bump hown (.report ?_)
  refine .run (suffix_behind ..) (fun _ => run_skipToClose h) ?_
  exact .pure _

omit hown h in
theorem stays_declare (p : Profile) (d : Declaration) :
    Stays s depth left stop left (declare p d) := by
  unfold declare
  split
  · exact .report (.pure _)
  · exact .pure _

/-- A form is gone through or given up inside it. -/
theorem stays_form (hn : 2 * (items.ahead (.closed c) behind).length < n) (p : Profile) :
    Stays s depth (t :: items.ahead (.closed c) behind) (c :: behind) behind
      (form s limit n p) := by
  refine .bump hown ?_
  cases h with
  | closed hc hown =>
    refine .peek hown ?_
    simp only [hc]
    exact .bump hown (.report (.pure _))
  | @leaf u rest _ _ hl hr hown hrest =>
    simp only [ahead, List.length_cons] at hn
    have hdeclare {β : Type} {w : Walk β} (f : β → Declaration)
        (hw : Stays s depth (u :: rest.ahead (.closed c) behind) (c :: behind) behind w) :
        Stays s depth (u :: rest.ahead (.closed c) behind) (c :: behind) behind
          (do declare p (f (← w))) :=
      .bind hw (suffix_behind (.leaf u rest) ..) fun x => stays_declare p (f x)
    refine .peek hown ?_
    split
    next => exact hdeclare .version (stays_version hown hrest)
    next => exact hdeclare .debug (stays_debugMode hown hrest)
    next => exact hdeclare .importPath (stays_importPath hown hrest)
    next => exact hdeclare .definition (stays_definition hown hrest (by omega))
    next => exact hdeclare .rule (stays_rule hown hrest (by omega))
    next => exact hdeclare .rule (stays_rule hown hrest (by omega))
    next =>
      refine .bind (stays_unrecognized hown hrest) (suffix_behind (.leaf u rest) ..) fun _ => ?_
      exact .pure p
    next => contradiction
    next => exact stays_expected hown ((suffix_closed ..).trans (List.suffix_cons _ _))
  | list ho hown hitems hrest =>
    refine .peek hown ?_
    simp only [ho]
    exact stays_expected hown (suffix_closed (.list ..) ..)

end Forms

end Walk

end SandboxProfile
