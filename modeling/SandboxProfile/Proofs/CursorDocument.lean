import SandboxProfile.Proofs.CursorForms
import SandboxProfile.Proofs.ErasedReading

/-!
# Walks over documents

Outside of all lists a cursor goes from form to form, and from one that was given up to the next
list behind the token where that happened. Where the tokens of a document are grouped, it goes the
way of the steps of a reading (`run_forms`), so both ways to read a text come to the same
(`read_eq`).
-/

namespace SandboxProfile

open Forest Stream.Facing

/-! ### Forests outside of all lists -/

/-- The forest is what is left of a stream, and the cursor is in no list. A closing parenthesis
without a partner is a leaf. -/
inductive Stream.Top (s : Stream) : Forest → Prop
  | done : Top s .done
  | leaf {t : Token} {rest : Forest} : t.kind ≠ .leftParen → t :: rest.tokens <:+ s.own →
    Top s rest → Top s (.leaf t rest)
  | list {o : Token} {items : Forest} {e : ListEnd} {rest : Forest} : o.kind = .leftParen →
    o :: items.ahead e rest.tokens <:+ s.own → s.Facing items e rest.tokens → Top s rest →
    Top s (.list o items e rest)

namespace Stream.Top

variable {s : Stream} {f items rest u : Forest} {e : ListEnd}

theorem suffix (h : s.Top f) : f.tokens <:+ s.own := by
  cases h with
  | done => exact List.nil_suffix
  | leaf _ hown _ => exact hown
  | list _ hown _ _ =>
    rw [ahead_eq] at hown
    exact hown

theorem dropLeaves (h : s.Top f) : s.Top f.dropLeaves := by
  induction h with
  | done => exact .done
  | leaf _ _ _ ih => exact ih
  | list ho hown hitems hrest => exact .list ho hown hitems hrest

/-- A list of which the parenthesis in front was taken goes on with what is behind the list. -/
theorem opened (h : s.Facing items e rest.tokens) (hrest : s.Top rest) :
    s.Top (items.closedBy e ++ rest) := by
  generalize hbehind : rest.tokens = behind at h
  induction h generalizing rest with
  | closed hc hown =>
    subst hbehind
    exact .leaf (by simp [hc]) hown hrest
  | ended => exact hrest
  | @leaf t more e behind hl hr hown hmore ih =>
    subst hbehind
    refine .leaf hl ?_ (ih hrest rfl)
    rw [← tokens_closedBy_append, ← tokens_append] at hown
    exact hown
  | @list o inner d more e behind ho hown hinner hmore ihi ihr =>
    subst hbehind
    rw [← tokens_closedBy_append more, ← tokens_append] at hown hinner
    exact .list ho hown hinner (ihr hrest rfl)

/-- What is left of a list that was begun goes on with what is behind the list. -/
theorem tail (h : s.Facing items e rest.tokens) (hrest : s.Top rest) (hu : Tail items u) :
    s.Top (u.closedBy e ++ rest) := by
  induction hu generalizing e rest with
  | refl f => exact opened h hrest
  | leaf _ ih =>
    cases h with | leaf _ _ _ hmore =>
    exact ih hmore hrest
  | list _ ih =>
    cases h with | list _ _ _ hmore =>
    exact ih hmore hrest
  | @into o inner more u d _ ih =>
    cases h with | list ho hown hinner hmore =>
    have hbehind : s.Top (more.closedBy e ++ rest) := opened hmore hrest
    rw [← tokens_closedBy_append more, ← tokens_append] at hinner
    have htop := ih hinner hbehind
    rw [← append_assoc, closedBy_append] at htop
    exact htop

theorem resume (h : s.Top f) : s.Top f.resume := by
  cases h with
  | done => exact .done
  | leaf _ _ hrest => exact hrest.dropLeaves
  | list _ _ hitems hrest => exact (opened hitems hrest).dropLeaves

end Stream.Top

/-! ### Resuming -/

namespace Stream

variable {s : Stream} {f : Forest}

/-- The next list, or the end of the file, is behind the leaves in front. -/
theorem listFrom_front (h : s.Top f) :
    s.listFrom (s.front f.tokens) = s.front f.dropLeaves.tokens := by
  induction h with
  | done =>
    rw [tokens_done, listFrom, token_front List.nil_suffix]
    exact dif_pos (.inl s.last_kind)
  | leaf hl hown _ ih =>
    rw [tokens_leaf, listFrom, token_front hown, List.headD_cons, ← front_cons hown]
    rw [dif_neg (not_or.mpr ⟨kind_ne_end hown, hl⟩)]
    exact ih
  | list ho hown hitems hrest =>
    have hsuffix := (Top.list ho hown hitems hrest).suffix
    rw [listFrom, token_front hsuffix]
    exact dif_pos (.inr ho)

end Stream

namespace Walk

variable {s : Stream} {f : Forest} {depth : Nat} {found : Collector}

theorem run_listFrom (h : s.Top f) :
    (modify fun c => c.moved (s.listFrom c.index) : Walk Unit).run (s.cursor f.tokens depth found) =
      some (.ok (), s.cursor f.dropLeaves.tokens depth found) := by
  have hlist := Stream.listFrom_front h
  change some (Except.ok (), (⟨s.listFrom (s.front f.tokens), _, _⟩ : Cursor)) = _
  rw [hlist]
  rfl

theorem run_resume (h : s.Top f) :
    (resume s).run (s.cursor f.tokens depth found) =
      some (.ok (), s.cursor f.resume.tokens depth found) := by
  cases h with
  | done => exact (run_bump_end _).trans (run_listFrom .done)
  | leaf _ hown hrest => exact (run_bump hown _).trans (run_listFrom hrest)
  | @list o items e rest ho hown hitems hrest =>
    have htop := Stream.Top.opened hitems hrest
    have htokens : (items.closedBy e ++ rest).tokens = items.ahead e rest.tokens := by
      rw [tokens_append, tokens_closedBy_append]
    rw [Forest.resume, tokens_list, ← ahead_eq]
    refine (run_bump hown _).trans ?_
    rw [← htokens]
    exact run_listFrom htop

end Walk

/-! ### Profiles -/

namespace Profile

theorem add_version (p : Profile) (d : Declaration) :
    (p.add d).version = (p.version <|> d.version?) := by
  cases d <;> cases hv : p.version <;> simp [add, Declaration.version?, hv]

theorem add_debug (p : Profile) (d : Declaration) :
    (p.add d).debug = (p.debug <|> d.debug?) := by
  cases d <;> cases hd : p.debug <;> simp [add, Declaration.debug?, hd]

/-- What a profile becomes by declarations that are taken in one after the other. -/
theorem foldl_add (p : Profile) (ds : List Declaration) :
    ds.foldl add p = {
      version := p.version <|> ds.findSome? (·.version?)
      debug := p.debug <|> ds.findSome? (·.debug?)
      imports := p.imports ++ ds.filterMap (·.importPath?)
      definitions := p.definitions ++ ds.filterMap (·.definition?)
      rules := p.rules ++ ds.filterMap (·.rule?)
      range := p.range } := by
  induction ds generalizing p with
  | nil =>
    obtain ⟨version, debug, imports, definitions, rules, range⟩ := p
    cases version <;> cases debug <;> simp
  | cons d ds ih =>
    obtain ⟨version, debug, imports, definitions, rules, range⟩ := p
    rw [List.foldl_cons, ih]
    cases d <;> cases version <;> cases debug <;>
      simp [add, Declaration.version?, Declaration.debug?, Declaration.importPath?,
        Declaration.definition?, Declaration.rule?]

theorem ofDeclarations_eq (ds : List Declaration) (range : Range) :
    ofDeclarations ds range = { ds.foldl add .empty with range := range } := by
  rw [foldl_add]
  rfl

end Profile

namespace Step

theorem foldl_cons (p : Profile) (step : Step) (more : List Step) :
    ((step :: more).filterMap (·.declaration?)).foldl .add p =
      (more.filterMap (·.declaration?)).foldl .add (step.declaration?.toList.foldl .add p) := by
  obtain ⟨notes, declared?⟩ := step
  cases declared? <;> rfl

/-- The first version and debug mode so far are those of the profile so far. -/
theorem diagnostics_cons (p : Profile) (step : Step) (more : List Step) :
    diagnostics p.version p.debug (step :: more) =
      step.notes ++ (step.declaration?.bind (·.late? p.version p.debug)).toList ++
        diagnostics (step.declaration?.toList.foldl .add p).version
          (step.declaration?.toList.foldl .add p).debug more := by
  obtain ⟨notes, declared?⟩ := step
  cases declared? with
  | none => simp [diagnostics]
  | some d =>
    change _ = _ ++ diagnostics (p.add d).version (p.add d).debug more
    rw [Profile.add_version, Profile.add_debug]
    rfl

end Step

namespace Walk

variable {s : Stream} {f : Forest} {found : Collector} {limit n : Nat}

section Forms

variable {o : Token} {items : Forest} {e : ListEnd} {behind : List Token}
  (hown : o :: items.ahead e behind <:+ s.own) (h : s.Facing items e behind)
  (hn : 2 * (items.ahead e behind).length < n)

include hown h hn

theorem run_form_read {declared? : Option Declaration}
    (hread : (Reading.declaration limit o items e).outcome = .ok declared?) (p : Profile) :
    (form s limit n p).run (s.cursor (o :: items.ahead e behind) 0 found) =
      some (.ok (declared?.toList.foldl .add p),
        s.cursor behind 0 (found.extend ((Reading.declaration limit o items e).notes ++
          (declared?.bind (·.late? p.version p.debug)).toList))) := by
  rw [follows_form hown h hn p found]
  generalize Reading.declaration limit o items e = r at hread
  obtain ⟨notes, outcome⟩ := r
  obtain rfl : outcome = .ok declared? := hread
  rfl

theorem run_form_givenUp {unread : Forest}
    (hread : (Reading.declaration limit o items e).outcome = .error unread) (p : Profile) :
    (form s limit n p).run (s.cursor (o :: items.ahead e behind) 0 found) =
      some (.error (), s.cursor (unread.tokens ++ behind) 0
        (found.extend (Reading.declaration limit o items e).notes)) := by
  rw [follows_form hown h hn p found]
  generalize Reading.declaration limit o items e = r at hread
  obtain ⟨notes, outcome⟩ := r
  obtain rfl : outcome = .error unread := hread
  rfl

end Forms

/-- From form to form a cursor goes the way of the steps of a reading. -/
theorem run_forms (h : s.Top f) (hn : 2 * f.tokens.length < n) (p : Profile) :
    (forms s limit n p).run (s.cursor f.tokens 0 found) =
      some (.ok (((Reading.steps limit f).filterMap (·.declaration?)).foldl .add p),
        s.cursor [] 0
          (found.extend (Step.diagnostics p.version p.debug (Reading.steps limit f)))) := by
  -- By the steps, not by the trees: behind a form that was given up the next may be a list in it.
  induction f using Reading.steps_induction limit generalizing p n found with
  | done =>
    obtain ⟨n, rfl⟩ : ∃ m, n = m + 1 := ⟨n - 1, by omega⟩
    refine (run_peek List.nil_suffix _).trans ?_
    simp only [List.headD_nil, s.last_kind, Reading.steps_done]
    rfl
  | leaf t rest ih =>
    cases h with | leaf hl hown hrest =>
    have hlen := (tokens_dropLeaves rest).length_le
    obtain ⟨n, rfl⟩ : ∃ m, n = m + 1 := ⟨n - 1, by omega⟩
    rw [tokens_leaf, List.length_cons] at hn
    have hend := Stream.kind_ne_end hown
    refine (run_peek hown _).trans ?_
    simp only [List.headD_cons]
    refine (run_report _ _).trans ((run_bind_ok (run_resume (.leaf hl hown hrest))).trans ?_)
    refine (ih hrest.dropLeaves (by omega) p).trans ?_
    rw [Reading.steps_leaf, Step.foldl_cons, Step.diagnostics_cons, Collector.extend_append]
    rfl
  | read o items e rest declared hread ih =>
    cases h with | list ho hown hitems hrest =>
    have hlen := (suffix_behind items e rest.tokens).length_le
    rw [tokens_list, ← ahead_eq] at hn ⊢
    rw [List.length_cons] at hn
    obtain ⟨n, rfl⟩ : ∃ m, n = m + 1 := ⟨n - 1, by omega⟩
    refine (run_peek hown _).trans ?_
    simp only [List.headD_cons, ho]
    refine (run_bind_ok (run_outcome (run_form_read hown hitems (by omega) hread p))).trans ?_
    refine (ih hrest (by omega) _).trans ?_
    rw [Reading.steps_of_ok hread, Step.foldl_cons, Step.diagnostics_cons,
      ← Collector.extend_append]
  | givenUp o items e rest unread hread ih =>
    cases h with | list ho hown hitems hrest =>
    have hlen : (unread ++ rest).resume.tokens.length <
        (Forest.list o items e rest).tokens.length := Reading.size_resume_lt hread rest
    obtain ⟨u, hu, rfl⟩ := Reading.keeps_declaration items unread hread
    have htop := Stream.Top.tail hitems hrest hu
    rw [tokens_list, ← ahead_eq] at hn hlen ⊢
    rw [List.length_cons] at hn hlen
    obtain ⟨n, rfl⟩ : ∃ m, n = m + 1 := ⟨n - 1, by omega⟩
    refine (run_peek hown _).trans ?_
    simp only [List.headD_cons, ho]
    refine (run_bind_ok (run_outcome (run_form_givenUp hown hitems (by omega) hread p))).trans ?_
    rw [← tokens_append]
    refine (run_bind_ok (run_resume htop)).trans ?_
    refine (ih htop.resume (by omega) p).trans ?_
    rw [Reading.steps_of_error hread, Step.foldl_cons, Step.diagnostics_cons,
      Collector.extend_append, Collector.extend_append]
    rfl

end Walk

/-! ### Grouping -/

namespace Stream

variable {s : Stream} {front : Forest} {waiting : List (Token × Forest)} {t : Token}

/-- Where the list ends that has closing parentheses behind it that wait for their partners. -/
def waitingEnd (s : Stream) : List (Token × Forest) → ListEnd
  | [] => s.ending
  | (c, _) :: _ => .closed c

/-- The tokens behind the first closing parenthesis that waits. -/
def waitingTokens (s : Stream) : List (Token × Forest) → List Token
  | [] => []
  | (_, after) :: more => after.ahead (s.waitingEnd more) (s.waitingTokens more)

theorem tokens_settle_ahead (front : Forest) (waiting : List (Token × Forest)) :
    (settle front waiting).tokens =
      front.ahead (s.waitingEnd waiting) (s.waitingTokens waiting) := by
  induction waiting generalizing front with
  | nil =>
    rw [ahead_eq]
    exact (List.append_nil _).symm
  | cons w more ih =>
    obtain ⟨c, after⟩ := w
    rw [settle, tokens_append, tokens_leaf, ih, ahead_eq front]
    rfl

/-- What follows a closing parenthesis that waits is what is left up to the next one. -/
inductive Waits (s : Stream) : List (Token × Forest) → Prop
  | nil : Waits s []
  | cons {c : Token} {after : Forest} {more : List (Token × Forest)} :
    s.Facing after (s.waitingEnd more) (s.waitingTokens more) → Waits s more →
    Waits s ((c, after) :: more)

/-- The invariant of grouping from the right. -/
structure Stands (s : Stream) (p : Partial) : Prop where
  front : s.Facing p.front (s.waitingEnd p.waiting) (s.waitingTokens p.waiting)
  waiting : s.Waits p.waiting

theorem stands_add {p : Partial} (h : s.Stands p)
    (hown : t :: (settle p.front p.waiting).tokens <:+ s.own) : s.Stands (p.add s.ending t) := by
  obtain ⟨front, waiting⟩ := p
  obtain ⟨hfront, hwaiting⟩ := h
  have hahead := tokens_settle_ahead (s := s) front waiting
  unfold Partial.add
  split
  next ht =>
    simp only [hahead] at hown
    exact ⟨.closed ht hown, .cons hfront hwaiting⟩
  next ht =>
    simp only [hahead] at hown
    cases hwaiting with
    | nil => exact ⟨.list ht hown hfront .ended, .nil⟩
    | cons hafter hmore => exact ⟨.list ht hown hfront hafter, hmore⟩
  next hr hl =>
    simp only [hahead] at hown
    exact ⟨.leaf hl hr hown hfront, hwaiting⟩

theorem top_settle (hfront : s.Facing front (s.waitingEnd waiting) (s.waitingTokens waiting))
    (hwaiting : s.Waits waiting) : s.Top (settle front waiting) := by
  induction hwaiting generalizing front with
  | nil =>
    have htop := Top.opened hfront .done
    rw [append_done] at htop
    exact (append_done front).symm ▸ htop
  | @cons c after more hafter _ ih =>
    have hbehind : s.Facing front (.closed c) (settle after more).tokens := by
      rw [tokens_settle_ahead]
      exact hfront
    have htop := Top.opened hbehind (ih hafter)
    rw [closedBy, ofEnd, append_assoc] at htop
    exact htop

theorem stands_foldr {ts : List Token} (h : ts <:+ s.own) :
    s.Stands (ts.foldr (Partial.add s.ending) ⟨.done, []⟩) := by
  induction ts with
  | nil => exact ⟨.ended, .nil⟩
  | cons t ts ih =>
    have htokens : (ofOwn s.ending ts).tokens = ts := tokens_ofOwn s.ending rfl ts
    refine stands_add (ih (suffix_tail h)) ?_
    change t :: (ofOwn s.ending ts).tokens <:+ s.own
    rw [htokens]
    exact h

theorem top_ofOwn (s : Stream) : s.Top (ofOwn s.ending s.own) := by
  obtain ⟨hfront, hwaiting⟩ := stands_foldr (List.suffix_refl s.own)
  exact top_settle hfront hwaiting

theorem stopBefore_length (s : Stream) :
    s.stopBefore s.own.length = (s.own.getLast?.map (·.range.stop)).getD .origin := by
  rw [List.getLast?_eq_getElem?]
  cases hlen : s.own.length with
  | zero =>
    rw [List.eq_nil_of_length_eq_zero hlen]
    rfl
  | succ n => rfl

/-- Grouping the tokens of a document is grouping those of its stream. -/
theorem ofTokens_eq (ts : List Token) :
    Forest.ofTokens ts = ofOwn (Stream.ofTokens ts).ending (Stream.ofTokens ts).own := by
  rw [ending, stopBefore_length, Forest.ofTokens]
  simp only [Stream.ofTokens]
  rw [← Option.getD_map Token.range]
  rfl

end Stream

/-- A walk over a text comes to what is read from the text. -/
theorem Walk.read_eq (limit : Nat) (text : String) :
    Walk.read limit text = some (Profile.read limit text) := by
  rw [Walk.read, Profile.read]
  generalize tokenize text = scanned
  obtain ⟨tokens, faults⟩ := scanned
  have htop := Stream.top_ofOwn (Stream.ofTokens tokens)
  have htokens := tokens_ofOwn (Stream.ofTokens tokens).ending rfl (Stream.ofTokens tokens).own
  rw [← Stream.ofTokens_eq] at htop htokens
  have hstart : (⟨0, 0, .ofList faults⟩ : Cursor) =
      (Stream.ofTokens tokens).cursor (ofTokens tokens).tokens 0 (.ofList faults) := by
    rw [htokens, Stream.cursor, Stream.front, Nat.sub_self]
  simp only [hstart, ← htokens, run_forms htop (Nat.lt_succ_self _)]
  rw [Profile.ofDeclarations_eq, Collector.ofList, Collector.ofList, Collector.extend_append]
  rfl

end SandboxProfile
