import SandboxProfile.Proofs.Lexemes

/-!
# Grouping and its inverse

Grouping undoes the writing out of a forest in which every list is closed (`ofKinds_kinds`), and it
deals with such a forest before it looks at what follows (`ofKinds_append`). A list that is not
closed can only be the last tree where it stands.
-/

namespace SandboxProfile

open Placed (erase)

/-- Tokens in which all parentheses match. -/
inductive Balanced : List TokenKind → Prop
  | nil : Balanced []
  | token {k : TokenKind} {ks : List TokenKind} :
    k ≠ .leftParen → k ≠ .rightParen → Balanced ks → Balanced (k :: ks)
  | parens {inner ks : List TokenKind} :
    Balanced inner → Balanced ks → Balanced (.leftParen :: (inner ++ .rightParen :: ks))

/-- The number of opening parentheses without a partner, after `n` of them. A closing one without a
partner does not count. -/
def unmatched (n : Nat) : List TokenKind → Nat
  | [] => n
  | .leftParen :: ks => unmatched (n + 1) ks
  | .rightParen :: ks => unmatched (n - 1) ks
  | _ :: ks => unmatched n ks

theorem unmatched_token {k : TokenKind} (hl : k ≠ .leftParen) (hr : k ≠ .rightParen) (n : Nat)
    (ks : List TokenKind) : unmatched n (k :: ks) = unmatched n ks := by
  cases k <;> first | rfl | contradiction

theorem unmatched_append (n : Nat) (ks ls : List TokenKind) :
    unmatched n (ks ++ ls) = unmatched (unmatched n ks) ls := by
  fun_induction unmatched n ks with
  | case1 n => rfl
  | case2 n ks ih => exact ih
  | case3 n ks ih => exact ih
  | case4 n k ks hl hr ih =>
    rw [List.cons_append, unmatched_token hl hr]
    exact ih

namespace Forest

def kinds (f : Forest) : List TokenKind := f.tokens.map Token.kind

@[simp] theorem kinds_done : done.kinds = [] := rfl

@[simp] theorem kinds_leaf (t : Token) (rest : Forest) :
    (leaf t rest).kinds = t.kind :: rest.kinds := rfl

/-- A token without its place. -/
abbrev word (k : TokenKind) (rest : Forest) : Forest := leaf (.bare k) rest

/-- A closed list without its places. -/
abbrev group (items rest : Forest) : Forest :=
  list (.bare .leftParen) items (.closed (.bare .rightParen)) rest

@[simp] theorem kinds_group (items rest : Forest) :
    (group items rest).kinds = .leftParen :: (items.kinds ++ .rightParen :: rest.kinds) := by
  simp [kinds, ListEnd.tokens]

@[simp] theorem kinds_unclosed (items : Forest) :
    (list (.bare .leftParen) items .bareEnd done).kinds = .leftParen :: items.kinds := by
  simp [kinds, ListEnd.bareEnd, ListEnd.tokens]

/-- A forest without places in which every parenthesis is one of a list. -/
inductive Whole : Forest → Prop
  | done : Whole done
  | leaf {k : TokenKind} {rest : Forest} :
    k ≠ .leftParen → k ≠ .rightParen → Whole rest → Whole (word k rest)
  | group {items rest : Forest} : Whole items → Whole rest → Whole (group items rest)

/-- A forest without places in which every list is closed. -/
inductive Closed : Forest → Prop
  | done : Closed done
  | leaf {k : TokenKind} {rest : Forest} : k ≠ .leftParen → Closed rest → Closed (word k rest)
  | group {items rest : Forest} : Whole items → Closed rest → Closed (group items rest)

/-- What grouping yields: of the lists that follow each other only the last may be open, and a
closing parenthesis without a partner, a `stray` one, stands in no list. -/
inductive Grouped : Bool → Forest → Prop
  | done {stray : Bool} : Grouped stray done
  | leaf {stray : Bool} {k : TokenKind} {rest : Forest} :
    k ≠ .leftParen → (k = .rightParen → stray = true) → Grouped stray rest →
      Grouped stray (word k rest)
  | group {stray : Bool} {items rest : Forest} :
    Whole items → Grouped stray rest → Grouped stray (group items rest)
  | unclosed {stray : Bool} {items : Forest} :
    Grouped false items → Grouped stray (list (.bare .leftParen) items .bareEnd done)

namespace Whole

theorem closed {f : Forest} (h : Whole f) : Closed f := by
  induction h with
  | done => exact .done
  | leaf hl _ _ ih => exact .leaf hl ih
  | group hi _ _ ih => exact .group hi ih

theorem grouped {stray : Bool} {f : Forest} (h : Whole f) : Grouped stray f := by
  induction h with
  | done => exact .done
  | leaf hl hr _ ih => exact .leaf hl (fun h => absurd h hr) ih
  | group hi _ _ ih => exact .group hi ih

theorem balanced {f : Forest} (h : Whole f) : Balanced f.kinds := by
  induction h with
  | done => exact .nil
  | leaf hl hr _ ih => exact .token hl hr ih
  | group _ _ ihi ihr =>
    rw [kinds_group]
    exact .parens ihi ihr

theorem unmatched {f : Forest} (h : Whole f) (n : Nat) : unmatched n f.kinds = n := by
  induction h generalizing n with
  | done => rfl
  | leaf hl hr _ ih => rw [kinds_leaf, bare_kind, unmatched_token hl hr, ih]
  | group _ _ ihi ihr =>
    rw [kinds_group, SandboxProfile.unmatched, unmatched_append, ihi, SandboxProfile.unmatched]
    exact ihr n

end Whole

theorem exists_whole {ks : List TokenKind} (h : Balanced ks) : ∃ f, Whole f ∧ f.kinds = ks := by
  induction h with
  | nil => exact ⟨done, .done, rfl⟩
  | token hl hr _ ih =>
    obtain ⟨f, hf, rfl⟩ := ih
    exact ⟨word _ f, .leaf hl hr hf, rfl⟩
  | parens _ _ ihi ihr =>
    obtain ⟨items, hi, rfl⟩ := ihi
    obtain ⟨rest, hr, rfl⟩ := ihr
    exact ⟨group items rest, .group hi hr, kinds_group items rest⟩

namespace Grouped

theorem weaken {f : Forest} (h : Grouped false f) : Grouped true f := by
  generalize hs : false = stray at h
  induction h with
  | done => exact .done
  | leaf hl _ _ ih => exact .leaf hl (fun _ => rfl) (ih hs)
  | group hi _ ih => exact .group hi (ih hs)
  | unclosed hi => exact .unclosed hi

theorem append {stray : Bool} {f g : Forest} (hf : Whole f) (hg : Grouped stray g) :
    Grouped stray (f ++ g) := by
  induction hf with
  | done => exact hg
  | leaf hl hr _ ih => exact .leaf hl (fun h => absurd h hr) ih
  | group hi _ _ ih => exact .group hi ih

theorem le_unmatched {f : Forest} (h : Grouped false f) (n : Nat) : n ≤ unmatched n f.kinds := by
  generalize hs : false = stray at h
  induction h generalizing n with
  | done => exact Nat.le_refl _
  | @leaf stray k rest hl hr _ ih =>
    have hr' : k ≠ .rightParen := fun h => by simp [hr h] at hs
    rw [kinds_leaf, bare_kind, unmatched_token hl hr']
    exact ih n hs
  | group hi _ ih =>
    rw [kinds_group, unmatched, unmatched_append, hi.unmatched]
    exact ih n hs
  | unclosed _ ih =>
    rw [kinds_unclosed, unmatched]
    exact Nat.le_trans (Nat.le_succ n) (ih (n + 1) rfl)

/-- Where every opening parenthesis has a partner, every list is closed. -/
theorem closed {f : Forest} (h : Grouped true f) (hm : unmatched 0 f.kinds = 0) : Closed f := by
  generalize hs : true = stray at h
  induction h with
  | done => exact .done
  | @leaf stray k rest hl hr _ ih =>
    refine .leaf hl (ih ?_ hs)
    by_cases hk : k = .rightParen
    · subst hk
      exact hm
    · rwa [kinds_leaf, bare_kind, unmatched_token hl hk] at hm
  | group hi _ ih =>
    refine .group hi (ih ?_ hs)
    rwa [kinds_group, unmatched, unmatched_append, hi.unmatched] at hm
  | unclosed hi =>
    have hle := hi.le_unmatched (0 + 1)
    rw [kinds_unclosed, unmatched] at hm
    omega

end Grouped

/-! ### Grouping kinds -/

/-- Groups tokens of which only the kinds are known. -/
def ofKinds (ks : List TokenKind) : Forest := ofOwn .bareEnd (ks.map Token.bare)

@[simp] theorem kinds_ofKinds (ks : List TokenKind) : (ofKinds ks).kinds = ks := by
  rw [kinds, ofKinds, tokens_ofOwn _ rfl, List.map_map]
  exact List.map_id ks

/-- The invariant of grouping from the right: what stands before a closing parenthesis that waits
for its partner is whole. -/
def Partial.Fine : Forest → List (Token × Forest) → Prop
  | front, [] => Grouped false front
  | front, (c, after) :: more => Whole front ∧ c = .bare .rightParen ∧ Fine after more

theorem fine_add {k : TokenKind} {p : Partial} (h : Partial.Fine p.front p.waiting) :
    Partial.Fine (p.add .bareEnd (.bare k)).front (p.add .bareEnd (.bare k)).waiting := by
  obtain ⟨front, waiting⟩ := p
  unfold Partial.add
  rw [bare_kind]
  split
  next hk => exact ⟨.done, rfl, h⟩
  next hk =>
    cases waiting with
    | nil => exact .unclosed h
    | cons w more =>
      obtain ⟨c, after⟩ := w
      obtain ⟨hfront, rfl, hafter⟩ := h
      cases more with
      | nil => exact .group hfront hafter
      | cons w more => exact ⟨.group hfront hafter.1, hafter.2⟩
  next hr hl =>
    cases waiting with
    | nil => exact .leaf hl (fun h => absurd h hr) h
    | cons w more => exact ⟨.leaf hl hr h.1, h.2⟩

theorem fine_settle {front : Forest} {waiting : List (Token × Forest)}
    (h : Partial.Fine front waiting) : Grouped true (settle front waiting) := by
  induction waiting generalizing front with
  | nil => exact Grouped.weaken h
  | cons w more ih =>
    obtain ⟨c, after⟩ := w
    obtain ⟨hfront, rfl, hafter⟩ := h
    exact .append hfront (.leaf (by decide) (fun _ => rfl) (ih hafter))

theorem grouped_ofKinds (ks : List TokenKind) : Grouped true (ofKinds ks) := by
  apply fine_settle
  induction ks with
  | nil => exact .done
  | cons k ks ih => exact fine_add ih

theorem closed_ofKinds {ks : List TokenKind} (h : unmatched 0 ks = 0) : Closed (ofKinds ks) :=
  (grouped_ofKinds ks).closed (by rwa [kinds_ofKinds])

/-! ### The inverse -/

theorem foldr_whole {f : Forest} (h : Whole f) (p : Partial) :
    (f.kinds.map Token.bare).foldr (Partial.add .bareEnd) p = ⟨f ++ p.front, p.waiting⟩ := by
  induction h generalizing p with
  | done => rfl
  | @leaf k rest hl hr _ ih =>
    rw [kinds_leaf, bare_kind, List.map_cons, List.foldr_cons, ih, Partial.add, bare_kind]
    split
    · contradiction
    · contradiction
    · rfl
  | @group items rest _ _ ihi ihr =>
    rw [kinds_group, List.map_cons, List.foldr_cons, List.map_append, List.foldr_append,
      List.map_cons, List.foldr_cons, ihr, ihi]
    simp [Partial.add]

theorem settle_append (f front : Forest) (waiting : List (Token × Forest)) :
    settle (f ++ front) waiting = f ++ settle front waiting := by
  cases waiting with
  | nil => rfl
  | cons w more => exact append_assoc f front _

theorem settle_foldr {f : Forest} (h : Closed f) (p : Partial) :
    settle ((f.kinds.map Token.bare).foldr (Partial.add .bareEnd) p).front
        ((f.kinds.map Token.bare).foldr (Partial.add .bareEnd) p).waiting =
      f ++ settle p.front p.waiting := by
  induction h with
  | done => rfl
  | @leaf k rest hl _ ih =>
    rw [kinds_leaf, bare_kind, List.map_cons, List.foldr_cons, leaf_append, ← ih, Partial.add,
      bare_kind]
    split
    · rfl
    · contradiction
    · exact settle_append (word k .done) _ _
  | @group items rest hi _ ih =>
    rw [kinds_group, List.map_cons, List.foldr_cons, List.map_append, List.foldr_append,
      List.map_cons, List.foldr_cons, foldr_whole hi, list_append, ← ih]
    simp only [Partial.add, bare_kind, append_done]
    exact settle_append (group items .done) _ _

/-- Grouping deals with closed lists before it looks at what follows. -/
theorem ofKinds_append {f : Forest} (h : Closed f) (ks : List TokenKind) :
    ofKinds (f.kinds ++ ks) = f ++ ofKinds ks := by
  rw [ofKinds, List.map_append, ofOwn, List.foldr_append]
  exact settle_foldr h _

theorem ofKinds_kinds {f : Forest} (h : Closed f) : ofKinds f.kinds = f := by
  have happ := ofKinds_append h []
  rw [List.append_nil] at happ
  rw [happ]
  exact append_done f

theorem whole_ofKinds {ks : List TokenKind} (h : Balanced ks) : Whole (ofKinds ks) := by
  obtain ⟨f, hf, rfl⟩ := exists_whole h
  rw [ofKinds_kinds hf.closed]
  exact hf

/-! ### Grouping tokens -/

instance : Placed Partial := ⟨fun p => ⟨Placed.erase p.front, Placed.erase p.waiting⟩⟩

theorem erase_settle (front : Forest) (waiting : List (Token × Forest)) :
    Placed.erase (settle front waiting) = settle (Placed.erase front) (Placed.erase waiting) := by
  induction waiting generalizing front with
  | nil => rfl
  | cons w more ih =>
    obtain ⟨c, after⟩ := w
    rw [settle, erase_append, erase_leaf, ih]
    rfl

theorem erase_add (stop : ListEnd) (t : Token) (p : Partial) :
    Placed.erase (p.add stop t) = (Placed.erase p).add (Placed.erase stop) (.bare t.kind) := by
  obtain ⟨front, waiting⟩ := p
  simp only [Partial.add, bare_kind]
  split
  · rfl
  · cases waiting <;> rfl
  · rfl

theorem erase_ofOwn (stop : ListEnd) (ts : List Token) :
    Placed.erase (ofOwn stop ts) =
      ofOwn (Placed.erase stop) ((ts.map Token.kind).map Token.bare) := by
  have hfold : Placed.erase (ts.foldr (Partial.add stop) ⟨done, []⟩) =
      ((ts.map Token.kind).map Token.bare).foldr (Partial.add (Placed.erase stop)) ⟨done, []⟩ := by
    induction ts with
    | nil => rfl
    | cons t ts ih => rw [List.foldr_cons, erase_add, ih, List.map_cons, List.map_cons,
        List.foldr_cons]
  rw [ofOwn, erase_settle, ofOwn, ← hfold]
  rfl

/-- The trees of a document, without their places, are those of the kinds of its tokens. -/
theorem erase_ofTokens {ts : List Token} {ks : List TokenKind}
    (h : ts.map Token.kind = ks ++ [.endOfFile]) (hks : .endOfFile ∉ ks) :
    Placed.erase (ofTokens ts) = ofKinds ks := by
  have hown : (ts.takeWhile (!·.isEnd)).map Token.kind = ks := by
    induction ts generalizing ks with
    | nil => simp at h
    | cons t ts ih =>
      cases ks with
      | nil =>
        obtain ⟨ht, -⟩ := List.cons.inj h
        rw [List.takeWhile_cons_of_neg (by simp [Token.isEnd, ht])]
        rfl
      | cons k ks =>
        obtain ⟨rfl, hts⟩ := List.cons.inj h
        have hne : t.kind ≠ .endOfFile := fun ht => hks (by simp [ht])
        rw [List.takeWhile_cons_of_pos (by simp [Token.isEnd, hne]), List.map_cons,
          ih hts fun hmem => hks (List.mem_cons_of_mem _ hmem)]
  rw [ofTokens, erase_ofOwn, hown]
  rfl

end Forest

end SandboxProfile
