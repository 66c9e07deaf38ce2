import SandboxProfile.Proofs.Cursor

/-!
# Steps of a cursor

What the single steps of a walk come to where the tokens that are left are known. A forest with an
end and with tokens behind that end says how the tokens that are left are grouped (`Facing`); to
skip to the end of a list is to skip the forest in it (`run_skipToClose`).
-/

namespace SandboxProfile

theorem Collector.extend_append (c : Collector) (xs ys : List Diagnostic) :
    c.extend (xs ++ ys) = (c.extend xs).extend ys :=
  List.foldl_append

/-! ### Runs -/

namespace Walk

variable {s : Stream} {α β : Type} {f : α → Walk β} {c c' : Cursor}

theorem run_bind (w : Walk α) (f : α → Walk β) (c : Cursor) :
    (w >>= f).run c = (w.run c).bind fun
      | (.ok x, c') => (f x).run c'
      | (.error _, c') => some (.error (), c') := by
  change (w c).bind _ = (w c).bind _
  congr 1
  funext r
  obtain ⟨x | x, c'⟩ := r <;> rfl

theorem run_bind_ok {w : Walk α} {x : α} (h : w.run c = some (.ok x, c')) :
    (w >>= f).run c = (f x).run c' := by
  rw [run_bind, h]
  rfl

theorem run_bind_error {w : Walk α} {u : Unit} (h : w.run c = some (.error u, c')) :
    (w >>= f).run c = some (.error (), c') := by
  rw [run_bind, h]
  rfl

theorem run_outcome {w : Walk α} {r : Except Unit α} (h : w.run c = some (r, c')) :
    (outcome w).run c = some (.ok r, c') := by
  change (w c).bind _ = _
  rw [show w c = some (r, c') from h]
  rfl

end Walk

/-! ### Where a cursor stands -/

namespace Stream

variable {s : Stream} {t : Token} {left : List Token}

/-- The end of a list that is not closed. -/
def ending (s : Stream) : ListEnd := .endOfFile s.last.range (s.stopBefore s.own.length)

/-- The index at which the last tokens of a stream begin. -/
def front (s : Stream) (left : List Token) : Nat := s.own.length - left.length

/-- The cursor in front of the last tokens of a stream. -/
def cursor (s : Stream) (left : List Token) (depth : Nat) (found : Collector) : Cursor :=
  ⟨s.front left, depth, found⟩

theorem front_cons (h : t :: left <:+ s.own) : s.front left = s.front (t :: left) + 1 := by
  have hle := h.length_le
  simp only [front, List.length_cons] at hle ⊢
  omega

theorem token_front (h : left <:+ s.own) : s.token (s.front left) = left.headD s.last := by
  obtain ⟨before, hown⟩ := h
  have hfront : s.front left = before.length := by simp [front, ← hown]
  rw [token, hfront, ← hown, List.getElem?_append_right (Nat.le_refl _), Nat.sub_self]
  cases left <;> rfl

theorem stopBefore_front (h : t :: left <:+ s.own) :
    s.stopBefore (s.front left) = t.range.stop := by
  obtain ⟨before, hown⟩ := h
  have hfront : s.front (t :: left) = before.length := by simp [front, ← hown]
  rw [front_cons ⟨before, hown⟩, stopBefore, hfront, ← hown,
    List.getElem?_append_right (Nat.le_refl _), Nat.sub_self]
  rfl

theorem kind_ne_end (h : t :: left <:+ s.own) : t.kind ≠ .endOfFile := by
  have hown := s.own_isEnd t (h.subset List.mem_cons_self)
  simpa [Token.isEnd] using hown

theorem last_kind (s : Stream) : s.last.kind = .endOfFile := by
  simpa [Token.isEnd] using s.last_isEnd

theorem suffix_tail (h : t :: left <:+ s.own) : left <:+ s.own :=
  (List.suffix_cons t left).trans h

end Stream

/-! ### Single steps -/

namespace Walk

variable {s : Stream} {α β : Type} {t : Token} {left : List Token} {depth : Nat}
  {found : Collector}

theorem run_peek (h : left <:+ s.own) (f : Token → Walk β) :
    (peek s >>= f).run (s.cursor left depth found) =
      (f (left.headD s.last)).run (s.cursor left depth found) := by
  have htoken := Stream.token_front h
  change (f (s.token (s.front left))).run _ = _
  rw [htoken]

theorem run_bump (h : t :: left <:+ s.own) (f : Range → Walk β) :
    (bump s >>= f).run (s.cursor (t :: left) depth found) =
      (f t.range).run (s.cursor left depth found) := by
  have hend : t.isEnd = false := s.own_isEnd t (h.subset List.mem_cons_self)
  rw [bump, bind_assoc, run_peek h]
  simp only [List.headD_cons, hend, Bool.not_false, if_true]
  change (f t.range).run ⟨s.front (t :: left) + 1, depth, found⟩ = _
  rw [← Stream.front_cons h]
  rfl

theorem run_bump_end (f : Range → Walk β) :
    (bump s >>= f).run (s.cursor [] depth found) =
      (f s.last.range).run (s.cursor [] depth found) := by
  rw [bump, bind_assoc, run_peek List.nil_suffix]
  simp only [List.headD_nil, s.last_isEnd]
  rfl

theorem run_report (d : Diagnostic) (f : Unit → Walk β) :
    (report d >>= f).run (s.cursor left depth found) =
      (f ()).run (s.cursor left depth (found.push d).2) := rfl

theorem run_fail (h : left <:+ s.own) (fault : SyntaxFault) :
    (fail s fault : Walk α).run (s.cursor left depth found) =
      some (.error (), s.cursor left depth
        (found.push (fault.diagnostic (left.headD s.last).range)).2) :=
  run_peek h _

theorem run_expected (h : left <:+ s.own) (what : Expected) :
    (expected s what : Walk α).run (s.cursor left depth found) =
      some (.error (), s.cursor left depth (found.push ((SyntaxFault.expected what
        (left.headD s.last).kind).diagnostic (left.headD s.last).range)).2) :=
  run_peek h _

theorem run_unclosed (h : left <:+ s.own) (what : Construct) :
    (unclosed s what : Walk α).run (s.cursor left depth found) =
      some (.error (), s.cursor left depth (found.push (((SyntaxFault.unclosed what
        (left.headD s.last).kind).diagnostic (left.headD s.last).range).withFix
          (.insertClose (s.stopBefore (s.front left))))).2) :=
  run_peek h _

theorem run_nested {limit : Nat} {w : Walk α} {r : Except Unit α} {after : List Token}
    {later : Collector} (hdepth : depth < limit)
    (h : w.run (s.cursor left (depth + 1) found) = some (r, s.cursor after (depth + 1) later)) :
    (nested s limit w).run (s.cursor left depth found) = some (r, s.cursor after depth later) := by
  change (if depth < limit then do
    modify Cursor.deeper
    let result ← outcome w
    modify Cursor.shallower
    liftExcept result
    else fail s (.nestingTooDeep limit) : Walk α).run _ = _
  rw [if_pos hdepth]
  refine (run_bind_ok (run_outcome h)).trans ?_
  cases r <;> rfl

theorem run_nested_deep {limit : Nat} (hdepth : ¬depth < limit) (w : Walk α) :
    (nested s limit w).run (s.cursor left depth found) =
      (fail s (.nestingTooDeep limit) : Walk α).run (s.cursor left depth found) := by
  change (if depth < limit then _ else fail s (.nestingTooDeep limit) : Walk α).run _ = _
  rw [if_neg hdepth]

end Walk

/-! ### What a cursor faces -/

/-- The tokens from the front of a forest on, which stands in front of its end and what is behind.
-/
def Forest.ahead : Forest → ListEnd → List Token → List Token
  | .done, stop, behind => stop.tokens ++ behind
  | .leaf t rest, stop, behind => t :: rest.ahead stop behind
  | .list o items e rest, stop, behind => o :: items.ahead e (rest.ahead stop behind)

theorem Forest.ahead_eq (items : Forest) (stop : ListEnd) (behind : List Token) :
    items.ahead stop behind = items.tokens ++ (stop.tokens ++ behind) := by
  induction items generalizing stop behind with
  | done => rfl
  | leaf t rest ih => rw [ahead, ih, tokens_leaf, List.cons_append]
  | list o items e rest ihi ihr => simp [ahead, ihi, ihr]

theorem Forest.tokens_closedBy_append (items : Forest) (stop : ListEnd) (behind : List Token) :
    (items.closedBy stop).tokens ++ behind = items.ahead stop behind := by
  rw [tokens_closedBy, List.append_assoc, ahead_eq]

/-- The forest, its end and the tokens behind that end are what is left of a stream. Only the last
list of all can be one that is not closed. -/
inductive Stream.Facing (s : Stream) : Forest → ListEnd → List Token → Prop
  | closed {c : Token} {behind : List Token} : c.kind = .rightParen → c :: behind <:+ s.own →
    Facing s .done (.closed c) behind
  | ended : Facing s .done s.ending []
  | leaf {t : Token} {rest : Forest} {stop : ListEnd} {behind : List Token} :
    t.kind ≠ .leftParen → t.kind ≠ .rightParen → t :: rest.ahead stop behind <:+ s.own →
    Facing s rest stop behind → Facing s (.leaf t rest) stop behind
  | list {o : Token} {items : Forest} {e : ListEnd} {rest : Forest} {stop : ListEnd}
    {behind : List Token} :
    o.kind = .leftParen → o :: items.ahead e (rest.ahead stop behind) <:+ s.own →
    Facing s items e (rest.ahead stop behind) → Facing s rest stop behind →
    Facing s (.list o items e rest) stop behind

namespace Stream.Facing

open Forest

variable {s : Stream} {items rest : Forest} {stop : ListEnd} {behind : List Token}

theorem suffix (h : s.Facing items stop behind) : items.ahead stop behind <:+ s.own := by
  cases h with
  | closed _ hown => exact hown
  | ended => exact List.nil_suffix
  | leaf _ _ hown _ => exact hown
  | list _ hown _ _ => exact hown

/-- What is left when a whole forest was passed over. -/
theorem suffix_ahead (items : Forest) (stop : ListEnd) (behind : List Token) :
    stop.tokens ++ behind <:+ items.ahead stop behind := by
  rw [ahead_eq]
  exact List.suffix_append _ _

theorem suffix_closed (items : Forest) (c : Token) (behind : List Token) :
    c :: behind <:+ items.ahead (.closed c) behind :=
  suffix_ahead items (.closed c) behind

theorem suffix_behind (items : Forest) (stop : ListEnd) (behind : List Token) :
    behind <:+ items.ahead stop behind :=
  (List.suffix_append _ _).trans (suffix_ahead items stop behind)

theorem suffix_rest (o : Token) (items : Forest) (e : ListEnd) (rest : Forest) (stop : ListEnd)
    (behind : List Token) :
    rest.ahead stop behind <:+ (Forest.list o items e rest).ahead stop behind :=
  (suffix_behind items e _).trans (List.suffix_cons o _)

theorem length_lt_ahead (items : Forest) (c : Token) (behind : List Token) :
    behind.length < (items.ahead (.closed c) behind).length :=
  (suffix_closed items c behind).length_le

/-- In front of a list of which something is left is a token that does not end it. -/
theorem exists_token (h : s.Facing items stop behind) (hne : items ≠ .done) :
    ∃ t left, items.ahead stop behind = t :: left ∧ t.kind ≠ .rightParen := by
  cases h with
  | closed => contradiction
  | ended => contradiction
  | leaf _ hr _ _ => exact ⟨_, _, rfl, hr⟩
  | list ho _ _ _ => exact ⟨_, _, rfl, by simp [ho]⟩

theorem atEnd (h : s.Facing items stop behind) : s.Facing .done stop behind := by
  induction h with
  | closed hc hown => exact .closed hc hown
  | ended => exact .ended
  | leaf _ _ _ _ ih => exact ih
  | list _ _ _ _ _ ih => exact ih

theorem eq_ending {range : Range} {last : Position}
    (h : s.Facing items (.endOfFile range last) behind) :
    ListEnd.endOfFile range last = s.ending ∧ behind = [] := by
  cases h.atEnd
  exact ⟨rfl, rfl⟩

theorem ahead_eq_nil (h : items.ahead stop behind = []) :
    items = .done ∧ stop.tokens ++ behind = [] := by
  cases items with
  | done => exact ⟨rfl, h⟩
  | leaf t rest => cases h
  | list o items e rest => cases h

/-- Only the last list of all is not closed. -/
theorem of_endOfFile {range : Range} {last : Position}
    (h : s.Facing items (.endOfFile range last) (rest.ahead stop behind))
    (hrest : s.Facing rest stop behind) :
    ListEnd.endOfFile range last = s.ending ∧ rest = .done ∧ stop = s.ending ∧ behind = [] := by
  obtain ⟨he, hnil⟩ := h.eq_ending
  obtain ⟨rfl, hstop⟩ := ahead_eq_nil hnil
  cases hrest with
  | closed => cases hstop
  | ended => exact ⟨he, rfl, rfl, rfl⟩

end Stream.Facing

/-! ### Passing over lists -/

/-- Where a list ends, if it is closed. -/
def ListEnd.stop? : ListEnd → Option Position
  | .closed c => some c.range.stop
  | .endOfFile _ _ => none

namespace Stream

variable {s : Stream} {items : Forest} {stop : ListEnd} {behind left : List Token} {t : Token}

theorem closeFrom_leaf (h : t :: left <:+ s.own) (hl : t.kind ≠ .leftParen)
    (hr : t.kind ≠ .rightParen) (lists : Nat) :
    s.closeFrom lists (s.front (t :: left)) = s.closeFrom lists (s.front left) := by
  rw [closeFrom, token_front h, front_cons h]
  simp only [List.headD_cons]
  rw [dif_neg (kind_ne_end h)]

theorem closeFrom_opened (h : t :: left <:+ s.own) (ht : t.kind = .leftParen) (lists : Nat) :
    s.closeFrom lists (s.front (t :: left)) = s.closeFrom (lists + 1) (s.front left) := by
  rw [closeFrom, token_front h, front_cons h]
  simp [ht]

theorem closeFrom_closed (h : t :: left <:+ s.own) (ht : t.kind = .rightParen) (lists : Nat) :
    s.closeFrom (lists + 1) (s.front (t :: left)) = s.closeFrom lists (s.front left) := by
  rw [closeFrom, token_front h, front_cons h]
  simp [ht]

theorem closeFrom_last (h : t :: left <:+ s.own) (ht : t.kind = .rightParen) :
    s.closeFrom 0 (s.front (t :: left)) = (some t.range.stop, s.front left) := by
  rw [closeFrom, token_front h, front_cons h]
  simp [ht]

theorem closeFrom_end (lists : Nat) : s.closeFrom lists (s.front []) = (none, s.front []) := by
  rw [closeFrom, token_front List.nil_suffix]
  simp [last_kind]

/-- A forest is passed over on the way to the end of its list. -/
theorem closeFrom_ahead (h : s.Facing items stop behind) (lists : Nat) :
    s.closeFrom lists (s.front (items.ahead stop behind)) =
      s.closeFrom lists (s.front (stop.tokens ++ behind)) := by
  induction h generalizing lists with
  | closed => rfl
  | ended => rfl
  | leaf hl hr hown _ ih => exact (closeFrom_leaf hown hl hr lists).trans (ih lists)
  | @list o items e rest stop behind ho hown hitems hrest ihi ihr =>
    rw [Forest.ahead, closeFrom_opened hown ho, ihi]
    cases e with
    | closed c =>
      cases hitems.atEnd with
      | closed hc hown => exact (closeFrom_closed hown hc lists).trans (ihr lists)
    | endOfFile range last =>
      obtain ⟨he, rfl, rfl, rfl⟩ := hitems.of_endOfFile hrest
      exact (closeFrom_end _).trans (closeFrom_end _).symm

theorem closeFrom_facing (h : s.Facing items stop behind) :
    s.closeFrom 0 (s.front (items.ahead stop behind)) = (stop.stop?, s.front behind) := by
  rw [closeFrom_ahead h]
  cases h.atEnd with
  | closed hc hown => exact closeFrom_last hown hc
  | ended => exact closeFrom_end 0

end Stream

namespace Walk

variable {s : Stream} {α : Type} {items extras : Forest} {stop : ListEnd} {behind : List Token}
  {o : Token} {depth n : Nat} {found : Collector}

theorem run_skipToClose (h : s.Facing items stop behind) :
    (skipToClose s).run (s.cursor (items.ahead stop behind) depth found) =
      some (.ok stop.stop?, s.cursor behind depth found) := by
  have hclose := Stream.closeFrom_facing h
  change some (Except.ok (s.closeFrom 0 (s.front _)).1, (⟨(s.closeFrom 0 (s.front _)).2, _, _⟩ :
    Cursor)) = _
  rw [hclose]
  rfl

theorem run_skipList (h : s.Facing items stop behind)
    (hown : o :: items.ahead stop behind <:+ s.own) :
    (skipList s).run (s.cursor (o :: items.ahead stop behind) depth found) =
      some (.ok stop.stop?, s.cursor behind depth found) :=
  (run_bump hown _).trans (run_skipToClose h)

/-- From wherever it is called, recovering passes over the list at an index. -/
theorem run_recover (h : s.Facing items stop behind) (hown : o :: items.ahead stop behind <:+ s.own)
    (c : Cursor) :
    (recover s (s.front (o :: items.ahead stop behind))).run c =
      some (.ok (), s.cursor behind c.depth c.found) := by
  have hskip : (skipList s).run (s.cursor (o :: items.ahead stop behind) c.depth c.found) =
      some (.ok stop.stop?, s.cursor behind c.depth c.found) := run_skipList h hown
  exact (run_bind_ok hskip).trans rfl

theorem run_attempt_ok {w : Walk α} {x : α} {c c' : Cursor} (hw : w.run c = some (.ok x, c')) :
    (attempt s w).run c = some (.ok (some x), c') :=
  (run_bind_ok (run_outcome hw)).trans rfl

theorem run_attempt_error {w : Walk α} {u : Unit} {c : Cursor} (h : s.Facing items stop behind)
    (hown : o :: items.ahead stop behind <:+ s.own)
    (hw : w.run (s.cursor (o :: items.ahead stop behind) depth found) = some (.error u, c)) :
    (attempt s w).run (s.cursor (o :: items.ahead stop behind) depth found) =
      some (.ok none, s.cursor behind c.depth c.found) :=
  (run_bind_ok (run_outcome hw)).trans (run_bind_ok (run_recover h hown c))

theorem run_skipExtras (h : s.Facing extras stop behind)
    (hn : (extras.ahead stop behind).length < n) (seen : Option Position) :
    (skipExtras s n seen).run (s.cursor (extras.ahead stop behind) depth found) =
      some (.ok (extras.stop? <|> seen), s.cursor (stop.tokens ++ behind) depth found) := by
  induction h generalizing n seen with
  | closed hc hown =>
    obtain ⟨n, rfl⟩ := Nat.exists_eq_add_one_of_ne_zero (Nat.ne_zero_of_lt hn)
    refine (run_peek hown _).trans ?_
    simp only [List.headD_cons, hc]
    rfl
  | ended =>
    obtain ⟨n, rfl⟩ := Nat.exists_eq_add_one_of_ne_zero (Nat.ne_zero_of_lt hn)
    refine (run_peek List.nil_suffix _).trans ?_
    simp only [List.headD_nil, Stream.last_kind]
    rfl
  | @leaf t rest stop behind hl hr hown _ ih =>
    obtain ⟨n, rfl⟩ := Nat.exists_eq_add_one_of_ne_zero (Nat.ne_zero_of_lt hn)
    have hend := Stream.kind_ne_end hown
    refine (run_peek hown _).trans ?_
    simp only [List.headD_cons]
    refine (run_bump hown _).trans ?_
    rw [ih (Nat.lt_of_succ_lt_succ hn), Forest.stop?]
    cases rest.stop? <;> rfl
  | @list o items e rest stop behind ho hown hitems hrest _ ih =>
    obtain ⟨n, rfl⟩ := Nat.exists_eq_add_one_of_ne_zero (Nat.ne_zero_of_lt hn)
    have hlen : (rest.ahead stop behind).length < n := by
      have hle := (Stream.Facing.suffix_behind items e (rest.ahead stop behind)).length_le
      exact Nat.lt_of_le_of_lt hle (Nat.lt_of_succ_lt_succ hn)
    refine (run_peek hown _).trans ?_
    simp only [List.headD_cons, ho]
    refine (run_bind_ok (run_skipList hitems hown)).trans ?_
    refine (run_peek hrest.suffix _).trans ?_
    rw [ih hlen]
    cases e with
    | closed c =>
      rw [Forest.stop?]
      cases rest.stop? <;> rfl
    | endOfFile range last =>
      -- A list that is not closed goes on to the end of the file, so nothing is behind it.
      obtain ⟨he, rfl, rfl, rfl⟩ := hitems.of_endOfFile hrest
      obtain ⟨rfl, rfl⟩ := ListEnd.endOfFile.inj he
      rfl

end Walk

end SandboxProfile
