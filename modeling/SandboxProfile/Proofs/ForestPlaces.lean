import SandboxProfile.Proofs.Places
import SandboxProfile.Token.Forest

/-!
# Forests in their document

The trees of a forest stand one behind the other in the document, each list with its items between
its parentheses (`Forest.Stands`). Grouping the tokens of a text gives such a forest
(`Forest.stands_ofTokens`), and what is left of one when a reader gave up is such a forest again
(`Forest.Tail.stands`, `Forest.stands_resume`).
-/

namespace SandboxProfile

/-! ### Ranges in a row -/

/-- Whether the table of a document's lines gives a position for the position's own offset. -/
def Document.Knows (d : Document) (p : Position) : Prop := d.position? p.offset = some p

namespace Range

/-- Whether a range ends before another begins. -/
def Precedes (r s : Range) : Prop := r.stop.offset ≤ s.start.offset

/-- Ranges that lie in another one, none of them before its predecessor ends. -/
structure InOrder (r : Range) (parts : List Range) : Prop where
  contained : ∀ s ∈ parts, r.containsRange s = true
  ordered : parts.Pairwise Precedes

/-- Ranges that follow each other from one offset to another. -/
def Row (lo : Nat) : List Range → Nat → Prop
  | [], hi => lo ≤ hi
  | r :: rs, hi => lo ≤ r.start.offset ∧ r.start.offset ≤ r.stop.offset ∧ Row r.stop.offset rs hi

theorem containsRange_iff {r s : Range} : r.containsRange s = true ↔
    r.start.offset ≤ s.start.offset ∧ s.stop.offset ≤ r.stop.offset := by
  simp [containsRange]

namespace Row

variable {lo lo' hi hi' : Nat} {r : Range} {rs : List Range}

theorem le (h : Row lo rs hi) : lo ≤ hi := by
  induction rs generalizing lo with
  | nil => exact h
  | cons r rs ih =>
    have hrest := ih h.2.2
    have hstart := h.1
    have hrange := h.2.1
    omega

theorem weaken (h : Row lo rs hi) (hlo : lo' ≤ lo) (hhi : hi ≤ hi') : Row lo' rs hi' := by
  induction rs generalizing lo lo' with
  | nil => exact Nat.le_trans hlo (Nat.le_trans h hhi)
  | cons r rs ih => exact ⟨Nat.le_trans hlo h.1, h.2.1, ih h.2.2 (Nat.le_refl _)⟩

theorem bounds (h : Row lo rs hi) : ∀ s ∈ rs, lo ≤ s.start.offset ∧ s.stop.offset ≤ hi := by
  induction rs generalizing lo with
  | nil => exact List.forall_mem_nil _
  | cons r rs ih =>
    have hrest := ih h.2.2
    have hlast := h.2.2.le
    refine List.forall_mem_cons.mpr ⟨⟨h.1, hlast⟩, fun s hs => ?_⟩
    have hs := hrest s hs
    have hstart := h.1
    have hrange := h.2.1
    omega

theorem ordered (h : Row lo rs hi) : rs.Pairwise Precedes := by
  induction rs generalizing lo with
  | nil => exact .nil
  | cons r rs ih => exact List.pairwise_cons.mpr ⟨fun s hs => (h.2.2.bounds s hs).1, ih h.2.2⟩

theorem inOrder (h : Row lo rs hi) (hstart : r.start.offset ≤ lo) (hstop : hi ≤ r.stop.offset) :
    r.InOrder rs := by
  refine ⟨fun s hs => containsRange_iff.mpr ?_, h.ordered⟩
  have hs := h.bounds s hs
  omega

/-- Ranges in order between two offsets are in a row there. -/
theorem of_ordered (hle : lo ≤ hi) (hrange : ∀ s ∈ rs, s.start.offset ≤ s.stop.offset)
    (hlo : ∀ s ∈ rs, lo ≤ s.start.offset) (hhi : ∀ s ∈ rs, s.stop.offset ≤ hi)
    (h : rs.Pairwise Precedes) : Row lo rs hi := by
  induction rs generalizing lo with
  | nil => exact hle
  | cons r rs ih =>
    obtain ⟨hr, hrs⟩ := List.pairwise_cons.mp h
    obtain ⟨hrhi, hhi⟩ := List.forall_mem_cons.mp hhi
    obtain ⟨hrlo, -⟩ := List.forall_mem_cons.mp hlo
    obtain ⟨hrr, hrange⟩ := List.forall_mem_cons.mp hrange
    exact ⟨hrlo, hrr, ih hrhi hrange hr hhi hrs⟩

end Row

namespace Agrees

variable {d : Document} {r s : Range} {p : Position}

/-- From the start of one range to the stop of one that is not before it. -/
theorem between (hr : r.Agrees d) (hs : s.Agrees d) (h : r.start.offset ≤ s.stop.offset) :
    (⟨r.start, s.stop⟩ : Range).Agrees d :=
  ⟨hr.start, hs.stop, h, hs.bounded⟩

theorem point (hp : d.Knows p) (h : p.offset ≤ d.size) : (Range.point p).Agrees d :=
  ⟨hp, hp, Nat.le_refl _, h⟩

end Agrees

end Range

/-! ### Forests -/

/-- The place behind a list: behind its closing parenthesis, or where the end of the file begins. -/
def ListEnd.place : ListEnd → Position
  | .closed c => c.range.stop
  | .endOfFile r _ => r.start

/-- The end of a list of a document. The end of the file does not stand before the last token. -/
def ListEnd.Stands (d : Document) : ListEnd → Prop
  | .closed c => c.range.Agrees d
  | .endOfFile r last => r.Agrees d ∧ d.Knows last ∧ last.offset ≤ r.start.offset

theorem ListEnd.Stands.range {d : Document} {e : ListEnd} (h : e.Stands d) : e.range.Agrees d := by
  cases e with
  | closed c => exact h
  | endOfFile r last => exact h.1

theorem ListEnd.Stands.le_place {d : Document} {e : ListEnd} (h : e.Stands d) :
    e.range.start.offset ≤ e.place.offset := by
  cases e with
  | closed c => exact Range.Agrees.ordered h
  | endOfFile r last => exact Nat.le_refl _

namespace Forest

/-- Whether the trees of a forest stand in a document one behind the other, from one offset to
another. -/
def Stands (d : Document) (lo : Nat) : Forest → Nat → Prop
  | done, hi => lo ≤ hi
  | leaf t rest, hi => t.range.Agrees d ∧ lo ≤ t.range.start.offset ∧
      rest.Stands d t.range.stop.offset hi
  | list o items e rest, hi => o.range.Agrees d ∧ lo ≤ o.range.start.offset ∧
      items.Stands d o.range.stop.offset e.range.start.offset ∧ e.Stands d ∧
      rest.Stands d e.place.offset hi

/-- Whether what is left of a list stands in a document behind an offset, its end included. -/
structure Within (d : Document) (lo : Nat) (items : Forest) (stop : ListEnd) : Prop where
  items : items.Stands d lo stop.range.start.offset
  stop : stop.Stands d

variable {d : Document} {lo lo' mid hi hi' : Nat} {f g u : Forest} {stop : ListEnd}

theorem Stands.le (h : f.Stands d lo hi) : lo ≤ hi := by
  induction f generalizing lo hi with
  | done => exact h
  | leaf t rest ih =>
    have hrest := ih h.2.2
    have hstart := h.2.1
    have hrange := h.1.ordered
    omega
  | list o items e rest ihi ih =>
    obtain ⟨ho, hlo, hitems, he, hrest⟩ := h
    have hinner := ihi hitems
    have hbehind := ih hrest
    have hrange := ho.ordered
    have hplace := he.le_place
    omega

theorem Stands.weaken (h : f.Stands d lo hi) (hlo : lo' ≤ lo) (hhi : hi ≤ hi') :
    f.Stands d lo' hi' := by
  induction f generalizing lo lo' with
  | done => exact Nat.le_trans hlo (Nat.le_trans h hhi)
  | leaf t rest ih => exact ⟨h.1, Nat.le_trans hlo h.2.1, ih h.2.2 (Nat.le_refl _)⟩
  | list o items e rest _ ih =>
    obtain ⟨ho, hstart, hitems, he, hrest⟩ := h
    exact ⟨ho, Nat.le_trans hlo hstart, hitems, he, ih hrest (Nat.le_refl _)⟩

theorem Stands.append (hf : f.Stands d lo mid) (hg : g.Stands d mid hi) :
    (f ++ g).Stands d lo hi := by
  induction f generalizing lo with
  | done => exact hg.weaken hf (Nat.le_refl _)
  | leaf t rest ih => exact ⟨hf.1, hf.2.1, ih hf.2.2⟩
  | list o items e rest _ ih =>
    obtain ⟨ho, hlo, hitems, he, hrest⟩ := hf
    exact ⟨ho, hlo, hitems, he, ih hrest⟩

/-- A leaf parts the trees in front of it from those behind it. -/
theorem stands_append_leaf {t : Token} : (f ++ leaf t g).Stands d lo hi ↔
    f.Stands d lo t.range.start.offset ∧ t.range.Agrees d ∧ g.Stands d t.range.stop.offset hi := by
  induction f generalizing lo with
  | done =>
    rw [done_append]
    exact and_left_comm
  | leaf u rest ih =>
    rw [leaf_append, Stands, Stands, ih, and_assoc, and_assoc]
  | list o items e rest _ ih =>
    rw [list_append, Stands, Stands, ih]
    simp only [and_assoc]

theorem Within.closedBy (h : Within d lo f stop) :
    (f.closedBy stop).Stands d lo stop.place.offset := by
  refine h.items.append ?_
  cases stop with
  | closed c => exact ⟨h.stop, Nat.le_refl _, Nat.le_refl c.range.stop.offset⟩
  | endOfFile r last => exact Nat.le_refl r.start.offset

theorem Within.le (h : Within d lo f stop) : lo ≤ stop.range.start.offset := h.items.le

/-- What a reader meets at the front stands behind what it has taken. -/
theorem Within.next (h : Within d lo f stop) :
    (f.next stop).2.Agrees d ∧ lo ≤ (f.next stop).2.start.offset := by
  cases f with
  | done => exact ⟨h.stop.range, h.items⟩
  | leaf t rest => exact ⟨h.items.1, h.items.2.1⟩
  | list o items e rest => exact ⟨h.items.1, h.items.2.1⟩

/-! ### What is left of a forest -/

theorem stands_dropLeaves (h : f.Stands d lo hi) : f.dropLeaves.Stands d lo hi := by
  induction f generalizing lo with
  | done => exact h
  | leaf t rest ih =>
    have hrange := h.1.ordered
    have hstart := h.2.1
    exact (ih h.2.2).weaken (by omega) (Nat.le_refl _)
  | list o items e rest => exact h

/-- Behind a list that was entered, its items and its end stand before what follows it. -/
theorem Stands.into {o : Token} {items rest : Forest} {e : ListEnd}
    (h : (list o items e rest).Stands d lo hi)
    (hu : u.Stands d o.range.stop.offset e.range.start.offset) :
    (u.closedBy e ++ rest).Stands d lo hi := by
  obtain ⟨ho, hlo, -, he, hrest⟩ := h
  have hclosed : (u.closedBy e).Stands d o.range.stop.offset e.place.offset :=
    Within.closedBy ⟨hu, he⟩
  have hrange := ho.ordered
  exact (hclosed.append hrest).weaken (by omega) (Nat.le_refl _)

theorem stands_resume (h : f.Stands d lo hi) : f.resume.Stands d lo hi := by
  cases f with
  | done => exact h
  | leaf t rest => exact stands_dropLeaves (f := .leaf t rest) h
  | list o items e rest => exact stands_dropLeaves (h.into h.2.2.1)

theorem Tail.stands (htail : Tail f u) (h : f.Stands d lo hi) : u.Stands d lo hi := by
  induction htail generalizing lo hi with
  | refl f => exact h
  | @leaf t rest u _ ih =>
    have hrange := h.1.ordered
    have hstart := h.2.1
    exact (ih h.2.2).weaken (by omega) (Nat.le_refl _)
  | @list o items rest u e _ ih =>
    obtain ⟨ho, hlo, hitems, he, hrest⟩ := h
    have hrange := ho.ordered
    have hinner := hitems.le
    have hplace := he.le_place
    exact (ih hrest).weaken (by omega) (Nat.le_refl _)
  | @into o items rest u e _ ih => exact h.into (ih h.2.2.1)

/-! ### The ends of a forest -/

theorem Stands.start? (h : f.Stands d lo hi) {p : Position} (hp : f.start? = some p) :
    d.Knows p ∧ lo ≤ p.offset := by
  cases f with
  | done => cases hp
  | leaf t rest =>
    obtain rfl : t.range.start = p := Option.some.inj hp
    exact ⟨h.1.start, h.2.1⟩
  | list o items e rest =>
    obtain rfl : o.range.start = p := Option.some.inj hp
    exact ⟨h.1.start, h.2.1⟩

/-- The stop of the trees behind a place, or else that place. -/
theorem stop?_getD {p q : Position} (hp : d.Knows p ∧ p.offset ≤ d.size)
    (h : ∀ q, f.stop? = some q → d.Knows q ∧ p.offset ≤ q.offset ∧ q.offset ≤ d.size)
    (hq : some (f.stop?.getD p) = some q) :
    d.Knows q ∧ p.offset ≤ q.offset ∧ q.offset ≤ d.size := by
  obtain rfl := Option.some.inj hq
  cases hstop : f.stop? with
  | none => exact ⟨hp.1, Nat.le_refl _, hp.2⟩
  | some q => exact h q hstop

theorem Stands.stop? (h : f.Stands d lo hi) {q : Position} (hq : f.stop? = some q) :
    d.Knows q ∧ lo ≤ q.offset ∧ q.offset ≤ d.size := by
  induction f generalizing lo q with
  | done => cases hq
  | leaf t rest ih =>
    have hbehind := stop?_getD ⟨h.1.stop, h.1.bounded⟩ (fun q hq => ih h.2.2 hq) hq
    have hrange := h.1.ordered
    have hstart := h.2.1
    exact ⟨hbehind.1, by omega, hbehind.2.2⟩
  | list o items e rest _ ih =>
    obtain ⟨ho, hlo, hitems, he, hrest⟩ := h
    have hrange := ho.ordered
    have hinner := hitems.le
    have hplace := he.le_place
    have hknown : d.Knows e.place ∧ e.place.offset ≤ d.size := by
      cases e with
      | closed c => exact ⟨Range.Agrees.stop he, Range.Agrees.bounded he⟩
      | endOfFile r last => exact ⟨he.1.start, Nat.le_trans he.1.ordered he.1.bounded⟩
    have hstop : some (rest.stop?.getD e.place) = some q := by
      rw [← hq]
      cases e <;> rfl
    have hbehind := stop?_getD hknown (fun q hq => ih hrest hq) hstop
    exact ⟨hbehind.1, by omega, hbehind.2.2⟩

/-- Whole trees reach from where the first begins to where the last ends. -/
theorem Stands.whole (h : f.Stands d lo hi) {p q : Position} (hp : f.start? = some p)
    (hq : f.stop? = some q) : (⟨p, q⟩ : Range).Agrees d ∧ lo ≤ p.offset := by
  have hstart := h.start? hp
  have hfront : f.Stands d p.offset hi := by
    cases f with
    | done => cases hp
    | leaf t rest =>
      obtain rfl : t.range.start = p := Option.some.inj hp
      exact ⟨h.1, Nat.le_refl _, h.2.2⟩
    | list o items e rest =>
      obtain rfl : o.range.start = p := Option.some.inj hp
      exact ⟨h.1, Nat.le_refl _, h.2.2⟩
  have hstop := hfront.stop? hq
  exact ⟨⟨hstart.1, hstop.1, hstop.2.1, hstop.2.2⟩, hstart.2⟩

/-! ### Grouping -/

theorem settle_list {o : Token} {items rest : Forest} {e : ListEnd}
    (waiting : List (Token × Forest)) :
    settle (list o items e rest) waiting = list o items e (settle rest waiting) := by
  cases waiting <;> rfl

theorem settle_leaf {t : Token} {rest : Forest} (waiting : List (Token × Forest)) :
    settle (leaf t rest) waiting = leaf t (settle rest waiting) := by
  cases waiting <;> rfl

/-- A token in front of trees that stand behind it. The end of the file, where trees without a
closing parenthesis end, is the end of them all. -/
theorem stands_add {r : Range} {last : Position} {t : Token} {p : Partial}
    (hend : (ListEnd.endOfFile r last).Stands d) (ht : t.range.Agrees d)
    (hlo : lo ≤ t.range.start.offset)
    (h : (settle p.front p.waiting).Stands d t.range.stop.offset r.start.offset) :
    (settle (p.add (.endOfFile r last) t).front (p.add (.endOfFile r last) t).waiting).Stands d lo
      r.start.offset := by
  unfold Partial.add
  split
  · exact ⟨ht, hlo, h⟩
  · split <;> rename_i hwaiting
    · rw [hwaiting] at h
      exact ⟨ht, hlo, h, hend, Nat.le_refl r.start.offset⟩
    · next c after more =>
      rw [hwaiting, settle, stands_append_leaf] at h
      obtain ⟨hfront, hc, hafter⟩ := h
      rw [settle_list]
      exact ⟨ht, hlo, hfront, hc, hafter⟩
  · rw [settle_leaf]
    exact ⟨ht, hlo, h⟩

theorem stands_ofOwn {r : Range} {last : Position} (hend : (ListEnd.endOfFile r last).Stands d)
    {ts : List Token} (hts : ∀ t ∈ ts, t.range.Agrees d)
    (h : Range.Row lo (ts.map Token.range) r.start.offset) :
    (ofOwn (.endOfFile r last) ts).Stands d lo r.start.offset := by
  unfold ofOwn
  induction ts generalizing lo with
  | nil => exact h
  | cons t ts ih =>
    obtain ⟨ht, hts⟩ := List.forall_mem_cons.mp hts
    exact stands_add hend ht h.1 (ih hts h.2.2)

/-- The parts from which the forest of a document's tokens is made. -/
theorem ofTokens_append {own : List Token} {last : Token} (hown : ∀ t ∈ own, t.isEnd = false)
    (hlast : last.isEnd = true) : ofTokens (own ++ [last]) =
      ofOwn (.endOfFile last.range ((own.getLast?.map (·.range.stop)).getD .origin)) own := by
  have htake : (own ++ [last]).takeWhile (!·.isEnd) = own := by
    rw [List.takeWhile_append_of_pos fun t ht => by rw [hown t ht]; rfl]
    simp [hlast]
  have hfind : (own ++ [last]).find? (·.isEnd) = some last := by
    rw [List.find?_append, List.find?_eq_none.mpr fun t ht => by simp [hown t ht]]
    simp [hlast]
  rw [ofTokens, htake, hfind]
  rfl

/-- The trees of a text stand in it. -/
theorem stands_ofTokens (text : String) :
    (ofTokens (tokenize text).1).Stands (.ofString text) 0 (Document.ofString text).size := by
  obtain ⟨ts, hts, ⟨own, last, rfl, hlast, hown⟩, hchars, hall⟩ :=
    Lexer.drain_partition #[] (.ofString text)
  have htokens : (tokenize text).1 = own ++ [last] := hts
  have htext : (own ++ [last]).flatMap Token.chars = text.toList := hchars
  have hbehind : Token.AllBehind [] (own ++ [last]) := hall [] rfl
  have hspans := hbehind.spans
  rw [htext] at hspans
  have hagrees : ∀ t ∈ own ++ [last], t.range.Agrees (.ofString text) :=
    fun t ht => (hspans t ht).1.agrees
  obtain ⟨hordered, -, hbefore⟩ := List.pairwise_append.mp hbehind.ordered
  have hend : last.range.Agrees (.ofString text) := hagrees last (by simp)
  have hrow : Range.Row 0 (own.map Token.range) last.range.start.offset := by
    refine .of_ordered (Nat.zero_le _) ?_ (fun _ _ => Nat.zero_le _) ?_
      (List.pairwise_map.mpr hordered)
    · exact List.forall_mem_map.mpr fun t ht => (hagrees t (List.mem_append_left _ ht)).ordered
    · exact List.forall_mem_map.mpr fun t ht => hbefore t ht last (List.mem_singleton_self _)
  have hstop : (ListEnd.endOfFile last.range
      ((own.getLast?.map (·.range.stop)).getD .origin)).Stands (.ofString text) := by
    refine ⟨hend, ?_⟩
    cases hl : own.getLast? with
    | none => exact ⟨Document.position?_after (List.nil_append _).symm, Nat.zero_le _⟩
    | some t =>
      have ht : t ∈ own := List.mem_of_getLast? hl
      have hstop := (hagrees t (List.mem_append_left _ ht)).stop
      exact ⟨hstop, hbefore t ht last (List.mem_singleton_self _)⟩
  rw [htokens, ofTokens_append (fun t ht => (hown t ht).1) hlast]
  refine (stands_ofOwn hstop (fun t ht => hagrees t (List.mem_append_left _ ht)) hrow).weaken
    (Nat.le_refl _) ?_
  have hrange := hend.ordered
  have hbound := hend.bounded
  omega

end Forest

end SandboxProfile
