import SandboxProfile.Proofs.CursorDocument
import SandboxProfile.Proofs.CursorLists

/-!
# No walk leaves its list

A walk over a form, a filter or an expression begins at an opening parenthesis. It ends behind the
partner of that parenthesis, or it gives up with the cursor at the one, at the other or between
them, and tells why. Either way it is as deep as it was where it began, and from wherever it gave up
the whole list can be passed over (`keepsTo_list`). These are the walks of a reader: all forms of a
text come to what is read from the text.
-/

namespace SandboxProfile

open Forest Stream.Facing

namespace Stream

variable {s : Stream} {α : Type}

/-- At `start` stands an opening parenthesis, and at `stop` its partner. -/
structure Matches (s : Stream) (start stop : Nat) : Prop where
  lt : start < stop
  opened : (s.token start).kind = .leftParen
  closed : (s.token stop).kind = .rightParen
  inner : Balanced (((s.own.take stop).drop (start + 1)).map Token.kind)

/-- What comes of a walk over a list from a cursor at its opening parenthesis, where the closing one
is at `stop`: it went through and stands behind the list, or it gave up and stands at one of the
tokens of the list, and the last that it told is an error at that token. -/
inductive KeepsTo (s : Stream) (c : Cursor) (stop : Nat) : Option (Except Unit α × Cursor) → Prop
  | through (x : α) (notes : List Diagnostic) :
    KeepsTo s c stop (some (.ok x, ⟨stop + 1, c.depth, c.found.extend notes⟩))
  | givenUp {index : Nat} (notes : List Diagnostic) {d : Diagnostic} : c.index ≤ index →
    index ≤ stop → d.isError = true → d.range = (s.token index).range →
    d ∈ (c.found.extend (notes ++ [d])).toList →
    KeepsTo s c stop (some (.error (), ⟨index, c.depth, c.found.extend (notes ++ [d])⟩))

/-! ### From indices to forests -/

/-- Tokens in which all parentheses match, in front of a closing one, are the forest in a list. -/
theorem exists_facing {ks : List TokenKind} (h : Balanced ks) {ts behind : List Token} {c : Token}
    (hts : ts.map Token.kind = ks) (hc : c.kind = .rightParen)
    (hown : ts ++ c :: behind <:+ s.own) :
    ∃ items, s.Facing items (.closed c) behind ∧
      items.ahead (.closed c) behind = ts ++ c :: behind := by
  induction h generalizing ts behind c with
  | nil =>
    obtain rfl := List.map_eq_nil_iff.mp hts
    exact ⟨.done, .closed hc hown, rfl⟩
  | token hl hr _ ih =>
    obtain ⟨t, ts, rfl, rfl, hmore⟩ := List.map_eq_cons_iff.mp hts
    obtain ⟨rest, hrest, hahead⟩ := ih hmore hc ((List.suffix_cons _ _).trans hown)
    rw [List.cons_append, ← hahead] at hown ⊢
    exact ⟨.leaf t rest, .leaf hl hr hown hrest, rfl⟩
  | parens _ _ ihi ihr =>
    obtain ⟨o, ts, rfl, ho, hlist⟩ := List.map_eq_cons_iff.mp hts
    obtain ⟨inner, ts, rfl, hinner, hmore⟩ := List.map_eq_append_iff.mp hlist
    obtain ⟨d, more, rfl, hd, hmore⟩ := List.map_eq_cons_iff.mp hmore
    rw [List.cons_append, List.append_assoc, List.cons_append] at hown ⊢
    have hbehind : inner ++ d :: (more ++ c :: behind) <:+ s.own :=
      (List.suffix_cons _ _).trans hown
    -- What is behind the inner list comes first, as its own tokens stand in front of that.
    obtain ⟨rest, hrest, hahead⟩ := ihr hmore hc
      ((List.suffix_cons _ _).trans ((List.suffix_append _ _).trans hbehind))
    rw [← hahead] at hown hbehind ⊢
    obtain ⟨items, hitems, hall⟩ := ihi hinner hd hbehind
    rw [← hall] at hown ⊢
    exact ⟨.list o items (.closed d) rest, .list ho hown hitems hrest, rfl⟩

/-- Where two parentheses match, the tokens from the one to the other are a list. -/
theorem Matches.exists_list {start stop : Nat} (h : s.Matches start stop) :
    ∃ o items c behind, s.Facing items (.closed c) behind ∧ o.kind = .leftParen ∧
      o :: items.ahead (.closed c) behind <:+ s.own ∧
      s.front (o :: items.ahead (.closed c) behind) = start ∧ s.front behind = stop + 1 := by
  have hstop : stop < s.own.length := lt_length (by rw [h.closed]; simp)
  have hstart : start < s.own.length := h.lt.trans hstop
  have hdrop {index : Nat} (hindex : index < s.own.length) :
      s.own.drop index = s.token index :: s.own.drop (index + 1) := by
    rw [List.drop_eq_getElem_cons hindex, token, List.getElem?_eq_getElem hindex]
    rfl
  have hinner : s.own.drop (start + 1) =
      (s.own.take stop).drop (start + 1) ++ s.own.drop stop := by
    rw [← List.drop_append_of_le_length (by rw [List.length_take]; have hlt := h.lt; omega),
      List.take_append_drop]
  have hsplit : s.own.drop start = s.token start :: (s.own.take stop).drop (start + 1) ++
      s.token stop :: s.own.drop (stop + 1) := by
    rw [hdrop hstart, hinner, hdrop hstop]
    rfl
  have hown : s.token start :: (s.own.take stop).drop (start + 1) ++
      s.token stop :: s.own.drop (stop + 1) <:+ s.own :=
    hsplit ▸ List.drop_suffix start s.own
  obtain ⟨items, hitems, hahead⟩ := exists_facing h.inner rfl h.closed
    ((List.suffix_cons _ _).trans hown)
  rw [List.cons_append, ← hahead] at hown hsplit
  refine ⟨_, items, _, _, hitems, h.opened, hown, ?_, ?_⟩
  · rw [← hsplit, front, List.length_drop]
    omega
  · rw [front, List.length_drop]
    omega

theorem front_le {left more : List Token} (h : left <:+ more) : s.front more ≤ s.front left :=
  Nat.sub_le_sub_left h.length_le _

/-- A walk that stays in a list keeps to the indices of its parentheses. -/
theorem Kept.keepsTo {r : Option (Except Unit α × Cursor)} {depth : Nat} {found : Collector}
    {left behind : List Token} {c : Token} {stop : Nat}
    (h : s.Kept depth found left (c :: behind) behind r) (hleft : left <:+ s.own)
    (hstop : s.front behind = stop + 1) : s.KeepsTo ⟨s.front left, depth, found⟩ stop r := by
  cases h with
  | through x notes =>
    rw [cursor, hstop]
    exact .through x notes
  | within notes hbelow hwithin herror hrange =>
    refine .givenUp notes (front_le hwithin) ?_ herror ?_ ?_
    · have hclosing := front_le (s := s) hbelow
      rw [front_cons (hbelow.trans (hwithin.trans hleft))] at hstop
      omega
    · rw [token_front (hwithin.trans hleft), hrange]
      rfl
    · refine (Collector.mem_extend _ _ _).mpr (.inr ?_)
      exact List.mem_append_right _ (List.mem_singleton_self _)

end Stream

/-! ### Walks over lists -/

namespace Walk

/-- A walk over a form, a filter or an expression keeps to its list, at whatever depth it begins and
whatever was found before, and from anywhere the list is passed over up to its end. Each of them
comes to a result where more than twice as many walks may be under way as there are tokens. Together
they make the reader: over all forms of a text they come to what is read from it. -/
theorem keepsTo_list (s : Stream) (limit n : Nat) (c : Cursor) (stop : Nat)
    (h : s.Matches c.index stop) (hn : 2 * s.own.length < n) :
    (∀ p, s.KeepsTo c stop ((form s limit n p).run c)) ∧
      s.KeepsTo c stop ((filter s limit n).run c) ∧
      s.KeepsTo c stop ((expr s limit n).run c) ∧
      (∀ c', (recover s c.index).run c' = some (.ok (), ⟨stop + 1, c'.depth, c'.found⟩)) ∧
      ∀ text, read limit text = some (Profile.read limit text) := by
  obtain ⟨index, depth, found⟩ := c
  obtain ⟨o, items, c, behind, hitems, ho, hown, rfl, hstop⟩ := h.exists_list
  have hlen := hown.length_le
  rw [List.length_cons] at hlen
  refine ⟨fun p => ?_, ?_, ?_, fun c' => ?_, read_eq limit⟩
  · exact (stays_form hown hitems (by omega) p found).keepsTo hown hstop
  · exact ((filterStays hitems).filter hown (by omega) found).keepsTo hown hstop
  · obtain ⟨n, rfl⟩ : ∃ m, n = m + 1 := ⟨n - 1, by omega⟩
    exact (stays_list ho hown (stays_exprs hitems (by omega)) found).keepsTo hown hstop
  · rw [← hstop]
    exact run_recover hitems hown c'

theorem keepsTo_list_broken :
    let s := Stream.ofTokens (tokenize "(version 1)\n(allow (require-not) 5)").1
    let c : Cursor := ⟨4, 2, .empty⟩
    s.Matches c.index 10 ∧ 2 * s.own.length < 23 ∧
      (∀ p, s.KeepsTo c 10 ((form s 3 23 p).run c)) ∧ s.KeepsTo c 10 ((filter s 3 23).run c) ∧
      s.KeepsTo c 10 ((expr s 3 23).run c) ∧
      (∀ c', (recover s c.index).run c' = some (.ok (), ⟨11, c'.depth, c'.found⟩)) ∧
      ∀ text, read 3 text = some (Profile.read 3 text) := by
  intro s c
  have hmatches : s.Matches 4 10 := by
    have hkinds : ((s.own.take 10).drop 5).map Token.kind = .symbol "allow" ::
        .leftParen :: ([.symbol "require-not"] ++ .rightParen :: [.integer 5]) := by
      decide +kernel
    refine ⟨by decide, by decide +kernel, by decide +kernel, ?_⟩
    rw [hkinds]
    refine .token (by decide) (by decide) (.parens ?_ ?_)
    · exact .token (by decide) (by decide) .nil
    · exact .token (by decide) (by decide) .nil
  have hlength : 2 * s.own.length < 23 := by decide +kernel
  exact ⟨hmatches, hlength, keepsTo_list s 3 23 c 10 hmatches hlength⟩

end Walk

end SandboxProfile
