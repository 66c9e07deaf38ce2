import SandboxProfile.Proofs.Ensures
import SandboxProfile.Proofs.ReadKinds
import SandboxProfile.Proofs.TreePlaces

/-!
# Places that reading reports

Each reader, on a part of a document, reports places of that part and yields a tree that stands in
it (`Forest.Stands`). So every range of a reading, of its tree and of its diagnostics, agrees with
the table of the lines, the fixes insert closing parentheses (`Profile.agrees_read`), and the tree
nests (`Profile.nested_read`), whatever the text.
-/

namespace SandboxProfile

open Forest (Within)

/-! ### Diagnostics -/

/-- Whether a fix puts a closing parenthesis in one place, which is not behind another. -/
structure Fix.Closes (f : Fix) (p : Position) : Prop where
  replacement : f.replacement = ")"
  empty : f.range.start = f.range.stop
  place : f.range.start.offset ≤ p.offset

namespace Diagnostic

/-- The range of a diagnostic and those of its fixes and of the other places that matter to it. -/
def ranges (n : Diagnostic) : List Range :=
  n.range :: (n.fixes.map (·.range) ++ n.related.map (·.range))

/-- Whether the places of a diagnostic are places of a document, and its fixes close something that
begins no later than the diagnostic does. -/
structure Real (d : Document) (n : Diagnostic) : Prop where
  agrees : ∀ r ∈ n.ranges, r.Agrees d
  closes : ∀ f ∈ n.fixes, f.Closes n.range.start

end Diagnostic

variable {d : Document} {lo hi : Nat} {r : Range} {p : Position}

namespace SyntaxFault

theorem real_diagnostic (fault : SyntaxFault) (h : r.Agrees d) : (fault.diagnostic r).Real d :=
  ⟨List.forall_mem_singleton.mpr h, List.forall_mem_nil _⟩

theorem real_withFix (fault : SyntaxFault) (h : r.Agrees d) (hp : d.Knows p)
    (hle : p.offset ≤ r.start.offset) :
    ((fault.diagnostic r).withFix (.insertClose p)).Real d := by
  have hbound : p.offset ≤ d.size := Nat.le_trans hle (Nat.le_trans h.ordered h.bounded)
  refine ⟨?_, List.forall_mem_singleton.mpr ⟨rfl, rfl, hle⟩⟩
  exact List.forall_mem_cons.mpr ⟨h, List.forall_mem_singleton.mpr (.point hp hbound)⟩

theorem real_withRelated (fault : SyntaxFault) (h : r.Agrees d) {s : Range} (hs : s.Agrees d)
    (message : String) : ((fault.diagnostic r).withRelated s message).Real d :=
  ⟨List.forall_mem_cons.mpr ⟨h, List.forall_mem_singleton.mpr hs⟩, List.forall_mem_nil _⟩

end SyntaxFault

/-! ### Lists of a document -/

/-- Whether a list is closed, and by a parenthesis that ends at `p`. -/
def ListEnd.ClosedAt (e : ListEnd) (p : Position) : Prop := ∃ c, e = .closed c ∧ c.range.stop = p

theorem ListEnd.ClosedAt.place {e : ListEnd} (h : e.ClosedAt p) : e.place = p := by
  obtain ⟨c, rfl, hc⟩ := h
  exact hc

theorem ListEnd.ClosedAt.stop {e : ListEnd} (h : e.ClosedAt p) : e.range.stop = p := by
  obtain ⟨c, rfl, hc⟩ := h
  exact hc

/-- Whether a range is that of a list: from its opening parenthesis to its closing one. -/
structure Range.OfList (o : Token) (e : ListEnd) (r : Range) : Prop where
  start : r.start = o.range.start
  stop : e.ClosedAt r.stop

theorem ListEnd.ClosedAt.ofList {e : ListEnd} (h : e.ClosedAt p) (o : Token) :
    Range.OfList o e ⟨o.range.start, p⟩ :=
  ⟨rfl, h⟩

namespace Forest

variable {o t : Token} {items rest : Forest} {e : ListEnd} {rs : List Range}

theorem row_leaf (h : (leaf t rest).Stands d lo hi) {hi' : Nat}
    (hrow : Range.Row t.range.stop.offset rs hi') : Range.Row lo (t.range :: rs) hi' :=
  ⟨h.2.1, h.1.ordered, hrow⟩

/-- A list of a document agrees with it and encloses its items. -/
theorem Within.whole (ho : o.range.Agrees d) (hlo : o.range.stop.offset ≤ lo)
    (h : Within d lo items e) (hr : r.OfList o e) :
    r.Agrees d ∧ o.range.stop.offset ≤ r.stop.offset ∧
      ∀ rs, Range.Row lo rs e.range.start.offset → r.InOrder rs := by
  have hopened := ho.ordered
  have hclosed := h.stop.range.ordered
  have hinner := h.le
  obtain ⟨start, stop⟩ := r
  obtain rfl : start = o.range.start := hr.start
  obtain rfl : e.range.stop = stop := hr.stop.stop
  refine ⟨ho.between h.stop.range (by omega), ?_, fun rs hrow => hrow.inOrder ?_ hclosed⟩
  · change o.range.stop.offset ≤ e.range.stop.offset
    omega
  · change o.range.start.offset ≤ lo
    omega

/-- The items of a list stand in it. -/
theorem Stands.inner (h : (list o items e rest).Stands d lo hi) :
    Within d o.range.stop.offset items e :=
  ⟨h.2.2.1, h.2.2.2.1⟩

theorem row_list (h : (list o items e rest).Stands d lo hi) (hr : r.OfList o e) {hi' : Nat}
    (hrow : Range.Row e.place.offset rs hi') : Range.Row lo (r :: rs) hi' := by
  have hwhole := (h.inner.whole h.1 (Nat.le_refl _) hr).1.ordered
  rw [hr.stop.place] at hrow
  refine ⟨?_, hwhole, hrow⟩
  rw [hr.start]
  exact h.2.1

theorem Stands.le_place (h : (list o items e rest).Stands d lo hi) : lo ≤ e.place.offset := by
  obtain ⟨ho, hlo, hitems, he, hrest⟩ := h
  have hrange := ho.ordered
  have hinner := hitems.le
  have hplace := he.le_place
  omega

end Forest

/-- The least range around both parentheses of a list with nothing between them. -/
theorem Range.merge_ends {o : Token} {items : Forest} {c : Token} (ho : o.range.Agrees d)
    (h : Within d o.range.stop.offset items (.closed c)) :
    (o.range.merge c.range).OfList o (.closed c) := by
  have hopened := ho.ordered
  have hclosed : c.range.start.offset ≤ c.range.stop.offset := h.stop.ordered
  have hinner : o.range.stop.offset ≤ c.range.start.offset := h.le
  refine ⟨?_, c, rfl, ?_⟩
  · exact if_neg (by omega)
  · exact (if_neg (by omega)).symm

namespace Reading

open Forest (row_leaf row_list)

variable {α : Type} {P : α → Prop} {limit depth : Nat} {items : Forest} {stop : ListEnd}

/-! ### Ends of lists -/

theorem real_expected (what : Expected) (h : Within d lo items stop) :
    Ensures (·.Real d) P (expected what items stop : Reading α) :=
  ensures_giveUp (SyntaxFault.real_diagnostic _ h.next.1) _ _

theorem real_unclosed (what : Construct) (hp : d.Knows p) (hle : p.offset ≤ lo)
    (h : Within d lo items stop) :
    Ensures (·.Real d) P (unclosed what p items stop : Reading α) :=
  ensures_giveUp (SyntaxFault.real_withFix _ h.next.1 hp (Nat.le_trans hle h.next.2)) _ _

/-- At the end of the file something is missing behind the last token. -/
theorem real_unclosed_last (what : Construct) {last : Position}
    (h : (ListEnd.endOfFile r last).Stands d) :
    Ensures (·.Real d) P (unclosed what last .done (.endOfFile r last) : Reading α) :=
  real_unclosed what h.2.1 (Nat.le_refl _) ⟨h.2.2, h⟩

theorem real_closing (what : Construct) (hp : d.Knows p) (hle : p.offset ≤ lo)
    (h : Within d lo items stop) :
    Ensures (·.Real d) stop.ClosedAt (closing what p items stop) := by
  unfold closing
  split
  · exact ensures_pure ⟨_, rfl, rfl⟩
  · exact real_unclosed what hp hle h

theorem real_ending (what : Construct) (h : stop.Stands d) :
    Ensures (·.Real d) stop.ClosedAt (ending what stop) := by
  cases stop with
  | closed c => exact ensures_pure ⟨c, rfl, rfl⟩
  | endOfFile r last => exact real_unclosed_last what h

theorem real_enter {o : Token} (ho : o.range.Agrees d) :
    Ensures (·.Real d) (fun _ => True) (enter limit depth o items stop) :=
  ensures_enter (SyntaxFault.real_diagnostic _ ho)

/-! ### Expressions -/

/-- Expressions that stand in a row between an offset and the end of their list, which is closed. -/
structure ExprsIn (d : Document) (lo : Nat) (stop : ListEnd) (xs : List Expr) (p : Position) :
    Prop where
  row : Range.Row lo (xs.map Expr.range) stop.range.start.offset
  stands : ∀ x ∈ xs, x.Stands d
  closed : stop.ClosedAt p

/-- The list of expressions that fill a list of a document. -/
theorem ExprsIn.stands_list {o : Token} {xs : List Expr} (ho : o.range.Agrees d)
    (h : Within d o.range.stop.offset items stop)
    (hxs : ExprsIn d o.range.stop.offset stop xs p) :
    (Expr.list xs ⟨o.range.start, p⟩).Stands d := by
  have hwhole := h.whole ho (Nat.le_refl _) (hxs.closed.ofList o)
  exact Expr.stands_list hwhole.1 (hwhole.2.2 _ hxs.row) hxs.stands

theorem real_exprs (what : Construct) (h : Within d lo items stop) :
    Ensures (·.Real d) (fun y => ExprsIn d lo stop y.1 y.2)
      (exprs limit depth what stop items) := by
  induction items generalizing lo depth what stop with
  | done =>
    rw [exprs]
    refine ensures_bind (real_ending what h.stop) fun p hp => ensures_pure ?_
    exact ⟨h.items, List.forall_mem_nil _, hp⟩
  | leaf t rest ih =>
    rw [exprs]
    split
    next atom hatom =>
      refine ensures_bind (ih what ⟨h.items.2.2, h.stop⟩) ?_
      rintro ⟨more, place⟩ hmore
      have hstands := Expr.stands_of_token h.items.1 hatom
      have hrange := (Expr.ranges_of_token hatom).1
      refine ensures_pure ⟨?_, List.forall_mem_cons.mpr ⟨hstands, hmore.stands⟩, hmore.closed⟩
      rw [List.map_cons, hrange]
      exact row_leaf h.items hmore.row
    next => exact real_expected _ h
  | list o inner e rest ihi ihr =>
    rw [exprs]
    have hinner := h.items.inner
    have ho := h.items.1
    refine ensures_bind (real_enter ho) fun _ _ => ?_
    refine ensures_bind (ensures_inside rest stop (ihi .list hinner)) ?_
    rintro ⟨xs, place⟩ hxs
    refine ensures_bind (ihr what ⟨h.items.2.2.2.2, h.stop⟩) ?_
    rintro ⟨more, last⟩ hmore
    have hstands := hxs.stands_list ho hinner
    refine ensures_pure ⟨?_, List.forall_mem_cons.mpr ⟨hstands, hmore.stands⟩, hmore.closed⟩
    exact row_list h.items (hxs.closed.ofList o) hmore.row

theorem real_listTail {o : Token} (ho : o.range.Agrees d)
    (h : Within d o.range.stop.offset items stop) :
    Ensures (·.Real d) (fun x => x.Stands d ∧ x.range.OfList o stop)
      (listTail limit depth o items stop) := by
  refine ensures_bind (real_exprs .list h) ?_
  rintro ⟨xs, place⟩ hxs
  exact ensures_pure ⟨hxs.stands_list ho h, hxs.closed.ofList o⟩

/-- An expression that stands in front of the rest of its list. -/
structure ExprIn (d : Document) (lo : Nat) (stop : ListEnd) (x : Expr) (rest : Forest) : Prop where
  stands : x.Stands d
  start : lo ≤ x.range.start.offset
  rest : Within d x.range.stop.offset rest stop

theorem real_expr (h : Within d lo items stop) :
    Ensures (·.Real d) (fun y => ExprIn d lo stop y.1 y.2) (expr limit depth stop items) := by
  unfold expr
  split
  next t rest =>
    split
    next atom hatom =>
      have hrange := (Expr.ranges_of_token hatom).1
      refine ensures_pure ⟨Expr.stands_of_token h.items.1 hatom, ?_, ?_⟩
      · rw [hrange]
        exact h.items.2.1
      · rw [hrange]
        exact ⟨h.items.2.2, h.stop⟩
    next => exact real_expected _ h
  next o inner e rest =>
    have ho := h.items.1
    refine ensures_bind (real_enter ho) fun _ _ => ?_
    refine ensures_bind (ensures_inside rest stop (real_listTail ho h.items.inner)) fun x hx => ?_
    obtain ⟨hstands, hlist⟩ := hx
    refine ensures_pure ⟨hstands, ?_, ?_⟩
    · rw [hlist.start]
      exact h.items.2.1
    · rw [← hlist.stop.place]
      exact ⟨h.items.2.2.2.2, h.stop⟩
  next => exact real_expected _ h

/-! ### Filters -/

/-- Filters that stand in a row between an offset and the end of their list, which is closed. -/
structure FiltersIn (d : Document) (lo : Nat) (stop : ListEnd) (fs : List Filter) (p : Position) :
    Prop where
  row : Range.Row lo (fs.map Filter.range) stop.range.start.offset
  stands : ∀ f ∈ fs, f.Stands d
  closed : stop.ClosedAt p

/-- A filter that a list is. -/
structure FilterOf (d : Document) (o : Token) (stop : ListEnd) (f : Filter) : Prop where
  stands : f.Stands d
  list : f.range.OfList o stop

theorem FiltersIn.weaken {fs : List Filter} {lo' : Nat} (h : FiltersIn d lo stop fs p)
    (hle : lo' ≤ lo) : FiltersIn d lo' stop fs p :=
  ⟨h.row.weaken hle (Nat.le_refl _), h.stands, h.closed⟩

/-- The filter that a list is, if it could be read, in front of those behind it. -/
theorem FiltersIn.add {o : Token} {inner rest : Forest} {e : ListEnd} {f? : Option Filter}
    {fs : List Filter} (h : (Forest.list o inner e rest).Stands d lo hi)
    (hf : ∀ f ∈ f?, FilterOf d o e f) (hfs : FiltersIn d e.place.offset stop fs p) :
    FiltersIn d lo stop (f?.toList ++ fs) p := by
  cases f? with
  | none => exact hfs.weaken h.le_place
  | some f =>
    have hf := hf f rfl
    exact ⟨row_list h hf.list hfs.row, List.forall_mem_cons.mpr ⟨hf.stands, hfs.stands⟩, hfs.closed⟩

/-- A list that is read as an expression among filters. -/
theorem real_listFilter {o : Token} (ho : o.range.Agrees d)
    (h : Within d o.range.stop.offset items stop) :
    Ensures (·.Real d) (FilterOf d o stop) (do
      let list ← listTail limit depth o items stop
      pure (.expression list)) := by
  refine ensures_bind (real_listTail ho h) fun x hx => ?_
  exact ensures_pure ⟨Filter.stands_expression hx.1, hx.2⟩

theorem real_simpleFilter {o type : Token} {name : String} (ho : o.range.Agrees d)
    (h : (Forest.leaf type items).Stands d o.range.stop.offset stop.range.start.offset)
    (hstop : stop.Stands d) :
    Ensures (·.Real d) (FilterOf d o stop) (simpleFilter limit depth o type name items stop) := by
  have hitems : Within d type.range.stop.offset items stop := ⟨h.2.2, hstop⟩
  unfold simpleFilter
  split
  · exact ensures_giveUp (SyntaxFault.real_diagnostic _ hstop) _ _
  · exact real_unclosed_last _ hstop
  · refine ensures_bind (real_expr hitems) ?_
    rintro ⟨value, more⟩ hvalue
    refine ensures_bind (real_exprs .filter hvalue.rest) ?_
    rintro ⟨extras, place⟩ hextras
    have hlist := hextras.closed.ofList o
    have hwhole := Within.whole ho (Nat.le_refl _) ⟨h, hstop⟩ hlist
    have hrow : Range.Row o.range.stop.offset [type.range, value.range]
        stop.range.start.offset :=
      row_leaf h ⟨hvalue.start, hvalue.stands.range.ordered, hvalue.rest.le⟩
    exact ensures_pure
      ⟨Filter.stands_simple hwhole.1 h.1 (hwhole.2.2 _ hrow) hvalue.stands, hlist⟩

theorem real_negationEnd (h : Within d lo items stop) :
    Ensures (·.Real d) stop.ClosedAt (negationEnd items stop) := by
  have hend : Ensures (·.Real d) stop.ClosedAt (ending .negation stop) := real_ending _ h.stop
  rw [negationEnd]
  cases hfirst : items.start? with
  | none => exact hend
  | some first =>
    cases hlast : items.stop? with
    | none => exact hend
    | some last =>
      have hwhole := (h.items.whole hfirst hlast).1
      exact ensures_bind (ensures_note (SyntaxFault.real_diagnostic _ hwhole)) fun _ _ => hend

mutual

theorem real_filter : ∀ (items : Forest) {depth : Nat} {o : Token} {stop : ListEnd},
    o.range.Agrees d → Within d o.range.stop.offset items stop →
    Ensures (·.Real d) (FilterOf d o stop) (filter limit depth o stop items)
  | .done, depth, o, .closed c, ho, h => by
    have hlist := Range.merge_ends ho h
    have hwhole := h.whole ho (Nat.le_refl _) hlist
    rw [filter]
    refine ensures_bind (ensures_note (SyntaxFault.real_diagnostic _ hwhole.1)) fun _ _ => ?_
    have hstands : (Expr.list [] (o.range.merge c.range)).Stands d :=
      Expr.stands_list hwhole.1 (hwhole.2.2 [] h.le) (List.forall_mem_nil _)
    exact ensures_pure ⟨Filter.stands_expression hstands, hlist⟩
  | .done, depth, o, .endOfFile r last, ho, h => by
    rw [filter]
    exact real_listFilter ho h
  | .leaf t rest, depth, o, stop, ho, h => by
    rw [filter]
    split
    next name hkind =>
      have hrest : Within d t.range.stop.offset rest stop := ⟨h.items.2.2, h.stop⟩
      have hle : o.range.stop.offset ≤ t.range.stop.offset :=
        Nat.le_trans h.items.2.1 h.items.1.ordered
      split
      next kind hcompound =>
        refine ensures_bind (real_filters rest hrest) ?_
        rintro ⟨parts, place⟩ hparts
        have hlist := hparts.closed.ofList o
        have hwhole := hrest.whole ho hle hlist
        have hstands : (Filter.compound kind parts ⟨o.range.start, place⟩).Stands d :=
          Filter.stands_compound hwhole.1 (hwhole.2.2 _ hparts.row) hparts.stands
        exact ensures_pure ⟨hstands, hlist⟩
      next hsimple =>
        split
        · refine ensures_bind (real_negation rest hrest) ?_
          rintro ⟨part, place⟩ hpart
          have hlist := hpart.closed.ofList o
          have hwhole := hrest.whole ho hle hlist
          have hstands : (Filter.negation part ⟨o.range.start, place⟩).Stands d :=
            Filter.stands_negation hwhole.1 (hwhole.2.2 _ hpart.row)
              (hpart.stands part (List.mem_singleton_self _))
          exact ensures_pure ⟨hstands, hlist⟩
        · exact real_simpleFilter ho h.items h.stop
    next =>
      exact real_listFilter ho h
  | .list p inner e rest, depth, o, stop, ho, h => by
    rw [filter]
    exact real_listFilter ho h

theorem real_negation : ∀ (items : Forest) {lo depth : Nat} {stop : ListEnd},
    Within d lo items stop →
    Ensures (·.Real d) (fun y => FiltersIn d lo stop [y.1] y.2)
      (negation limit depth stop items)
  | .done, lo, depth, .closed c, h => by
    rw [negation]
    exact ensures_giveUp (SyntaxFault.real_diagnostic _ h.stop) _ _
  | .done, lo, depth, .endOfFile r last, h => by
    rw [negation]
    exact real_unclosed_last _ h.stop
  | .leaf t rest, lo, depth, stop, h => by
    rw [negation]
    exact real_expected _ h
  | .list o inner e extras, lo, depth, stop, h => by
    have hextras : Within d e.place.offset extras stop := ⟨h.items.2.2.2.2, h.stop⟩
    rw [negation]
    refine ensures_bind (real_enter h.items.1) fun _ _ => ?_
    refine ensures_bind (ensures_inside extras stop (real_filter inner h.items.1 h.items.inner))
      fun part hpart => ?_
    refine ensures_bind (real_negationEnd hextras) fun place hplace => ensures_pure ?_
    exact ⟨row_list h.items hpart.list hextras.le, List.forall_mem_singleton.mpr hpart.stands,
      hplace⟩

theorem real_filters : ∀ (items : Forest) {lo depth : Nat} {kind : CompoundKind} {stop : ListEnd},
    Within d lo items stop →
    Ensures (·.Real d) (fun y => FiltersIn d lo stop y.1 y.2)
      (filters limit depth kind stop items)
  | .done, lo, depth, kind, stop, h => by
    rw [filters]
    refine ensures_bind (real_ending (.compound kind) h.stop) fun p hp => ensures_pure ?_
    exact ⟨h.items, List.forall_mem_nil _, hp⟩
  | .leaf t rest, lo, depth, kind, stop, h => by
    have ht := h.items.1
    have hle : lo ≤ t.range.stop.offset := Nat.le_trans h.items.2.1 ht.ordered
    rw [filters]
    refine ensures_bind (ensures_note (SyntaxFault.real_diagnostic _ ht)) fun _ _ => ?_
    exact (real_filters rest ⟨h.items.2.2, h.stop⟩).imp fun y hy => hy.weaken hle
  | .list o inner e rest, lo, depth, kind, stop, h => by
    have hpart : Ensures (·.Real d) (FilterOf d o e) (do
        enter limit depth o inner e
        filter limit (depth + 1) o e inner) :=
      ensures_bind (real_enter h.items.1) fun _ _ => real_filter inner h.items.1 h.items.inner
    rw [filters]
    refine ensures_bind (ensures_recover hpart) fun part hpart => ?_
    refine ensures_bind (real_filters rest ⟨h.items.2.2.2.2, h.stop⟩) ?_
    rintro ⟨more, place⟩ hmore
    exact ensures_pure (FiltersIn.add h.items hpart hmore)

end

end Reading

end SandboxProfile
