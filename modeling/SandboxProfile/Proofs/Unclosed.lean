import SandboxProfile.Proofs.Acceptance
import SandboxProfile.Proofs.Concatenation

/-!
# Declarations that are not closed

Where a declaration lacks only its closing parenthesis, reading stops in front of the form behind it
and goes on behind the opening parenthesis of that form. So that form is read as if it had no
opening parenthesis: what it declares is lost, save what lists in it declare as forms of their own,
and the forms behind it are read as they are (`read_unclosed`).
-/

namespace SandboxProfile

/-! ### The forest behind an opening parenthesis -/

namespace Forest

theorem append_left_cancel {f g h : Forest} (heq : f ++ g = f ++ h) : g = h := by
  induction f with
  | done => exact heq
  | leaf t rest ih => exact ih (Forest.leaf.inj heq).2
  | list o items stop rest _ ih => exact ih (Forest.list.inj heq).2.2.2

/-- The trees in front of the first closing parenthesis that has no partner. -/
def front (ks : List TokenKind) : Forest :=
  ((ks.map Token.bare).foldr (Partial.add .bareEnd) ⟨done, []⟩).front

theorem front_append {f : Forest} (h : Whole f) (ks : List TokenKind) :
    front (f.kinds ++ ks) = f ++ front ks := by
  rw [front, List.map_append, List.foldr_append, foldr_whole h]
  rfl

/-- An opening parenthesis takes the trees up to its partner into a list and leaves the others. -/
theorem ofKinds_leftParen (ks : List TokenKind) :
    ∃ stop rest, ofKinds (.leftParen :: ks) = list (.bare .leftParen) (front ks) stop rest ∧
      (front ks).closedBy stop ++ rest = ofKinds ks := by
  rw [front, ofKinds, ofKinds, ofOwn, ofOwn, List.map_cons, List.foldr_cons]
  generalize (ks.map Token.bare).foldr (Partial.add .bareEnd) ⟨done, []⟩ = p
  obtain ⟨items, waiting⟩ := p
  cases waiting with
  | nil =>
    refine ⟨.bareEnd, done, rfl, ?_⟩
    rw [append_done]
    exact append_done items
  | cons w more =>
    obtain ⟨c, after⟩ := w
    refine ⟨.closed c, settle after more, ?_, ?_⟩
    · exact settle_append (list (.bare .leftParen) items (.closed c) done) after more
    · exact append_assoc items (leaf c done) (settle after more)

theorem front_leftParen (ks : List TokenKind) :
    ∃ stop rest, front (.leftParen :: ks) = list (.bare .leftParen) (front ks) stop rest := by
  rw [front, front, List.map_cons, List.foldr_cons]
  generalize (ks.map Token.bare).foldr (Partial.add .bareEnd) ⟨done, []⟩ = p
  obtain ⟨items, waiting⟩ := p
  cases waiting with
  | nil => exact ⟨.bareEnd, done, rfl⟩
  | cons w more => exact ⟨.closed w.1, w.2, rfl⟩

theorem resume_leftParen (ks : List TokenKind) :
    (ofKinds (.leftParen :: ks)).resume = (ofKinds ks).dropLeaves := by
  obtain ⟨stop, rest, hlist, hrest⟩ := ofKinds_leftParen ks
  rw [hlist, resume, hrest]

/-- An opening parenthesis before closed trees and another opening parenthesis: the list begins with
these trees, and behind them comes what the other one opens. -/
theorem ofKinds_open {f : Forest} (h : Whole f) (ks : List TokenKind) :
    ∃ items e more stop rest,
      ofKinds (.leftParen :: (f.kinds ++ .leftParen :: ks)) =
        list (.bare .leftParen) (f ++ list (.bare .leftParen) items e more) stop rest ∧
      (list (.bare .leftParen) items e more).closedBy stop ++ rest =
        ofKinds (.leftParen :: ks) := by
  obtain ⟨stop, rest, hlist, hrest⟩ := ofKinds_leftParen (f.kinds ++ .leftParen :: ks)
  obtain ⟨e, more, hfront⟩ := front_leftParen ks
  rw [front_append h, hfront] at hlist hrest
  refine ⟨front ks, e, more, stop, rest, hlist, ?_⟩
  rw [ofKinds_append h.closed, closedBy, append_assoc, append_assoc] at hrest
  rw [closedBy, append_assoc]
  exact append_left_cancel hrest

end Forest

/-! ### Readers of declarations that are not closed -/

/-- Whether nothing but its end may follow the last argument of a form. -/
def Grammar.Form.isSealed : Grammar.Form → Bool
  | version _ | debug _ | importPath _ _ | definition _ _ | procedure _ _ _ _ => true
  | empty | rule _ _ | unknown _ _ _ _ => false

theorem Grammar.Expr.forest_append (x : Grammar.Expr) (f g : Forest) :
    x.forest f ++ g = x.forest (f ++ g) := by
  cases x <;> rfl

namespace Reading

variable {limit : Nat} {o : Token} {items rest : Forest} {e stop : ListEnd}

/-- The end of a definition is missed where a list follows its value. -/
theorem outcome_definition {start : Position} {name : String × Range} {value : Grammar.Expr}
    {before : Forest}
    (hname : (definitionName before stop).outcome =
      .ok (name, value.forest (.list o items e rest)))
    (h : value.depth ≤ limit) :
    (definition limit start before stop).outcome =
      .error ((Forest.list o items e rest).closedBy stop) := by
  have hvalue : Yields (expr limit 0 stop (value.forest (.list o items e rest))) _ :=
    yields_expr value (by omega)
  obtain ⟨-, ⟨y, more⟩, hy, -, rfl⟩ := hvalue
  have hne := forest_ne_done value (.list o items e rest)
  rw [definition, outcome_bind hname]
  generalize value.forest (.list o items e rest) = behind at hne hy
  cases behind with
  | done => exact absurd rfl hne
  | leaf t more => exact outcome_bind hy _
  | list p inner c more => exact outcome_bind hy _

/-- A form that misses its end where a list follows leaves that list and what is behind it. -/
theorem outcome_sealed {form : Grammar.Form} (hs : form.isSealed) (h : form.depth ≤ limit)
    (start : Token) :
    (declaration limit start (form.innerForest ++ .list o items e rest) stop).outcome =
      .error ((Forest.list o items e rest).closedBy stop) := by
  cases form with
  | version n => rfl
  | debug action => cases action <;> rfl
  | importPath raw path => cases raw <;> rfl
  | definition name value =>
    have hname : (definitionName (.word (.symbol name) (value.forest .done) ++
        .list o items e rest) stop).outcome =
        .ok ((name, .zero), value.forest (.list o items e rest)) := by
      rw [Forest.leaf_append, value.forest_append]
      rfl
    exact outcome_bind_error (outcome_definition hname h) _
  | procedure name parameters balanced value =>
    have hname : (definitionName (.group (.word (.symbol name) (.ofKinds parameters))
        (value.forest .done) ++ .list o items e rest) stop).outcome =
        .ok ((name, .zero), value.forest (.list o items e rest)) := by
      rw [Forest.list_append, value.forest_append]
      rfl
    exact outcome_bind_error (outcome_definition hname h) _
  | empty | rule action items | unknown name other body balanced => cases hs

/-- What an open declaration and what an opening parenthesis opens behind it declare is what they
declare without that parenthesis. -/
theorem declares_unclosed {form : Grammar.Form} (hs : form.isSealed) (h : form.depth ≤ limit)
    (ks : List TokenKind) :
    declares limit (.ofKinds (.leftParen :: (form.inner ++ .leftParen :: ks))) =
      declares limit (.ofKinds ks) := by
  obtain ⟨items, e, more, stop, rest, hlist, hrest⟩ :=
    Forest.ofKinds_open form.whole_innerForest ks
  rw [← form.kinds_innerForest, hlist, declares, steps_of_error (outcome_sealed hs h _),
    Step.declared_cons, hrest, Forest.resume_leftParen]
  exact declares_dropLeaves _

/-- Where there is no list, nothing is declared. -/
theorem declares_flat {f : Forest} (hf : f.Whole) (h : .leftParen ∉ f.kinds) :
    declares limit f = [] := by
  induction hf with
  | done =>
    rw [declares, steps_done]
    rfl
  | leaf _ _ _ ih =>
    rw [declares_leaf, declares_dropLeaves]
    exact ih fun hmem => h (List.mem_cons_of_mem _ hmem)
  | group _ _ _ _ => exact absurd List.mem_cons_self h

/-- A closing parenthesis without a partner, between the inside of a form and other forms, keeps
them apart. -/
theorem declares_inner (first : Grammar.Form) {more : List Grammar.Form}
    (h : Grammar.depth more ≤ limit) :
    declares limit (.ofKinds (first.inner ++ .rightParen :: Grammar.kinds more)) =
      declares limit (.ofKinds first.inner) ++ Grammar.declarations more := by
  have hinner := first.whole_innerForest.closed
  have hstray : Forest.Closed (.word .rightParen (Grammar.forestAll more)) :=
    .leaf (by decide) (Grammar.whole_forestAll more).closed
  have hforest : Forest.ofKinds (.rightParen :: Grammar.kinds more) =
      .word .rightParen (Grammar.forestAll more) := by
    rw [← Grammar.kinds_forestAll]
    exact Forest.ofKinds_kinds hstray
  rw [← first.kinds_innerForest, Forest.ofKinds_append hinner, Forest.ofKinds_kinds hinner,
    declares_append hinner, hforest, declares_leaf, declares_dropLeaves]
  exact congrArg _ (steps_forestAll more h).2

end Reading

/-! ### Profiles -/

/-- What the lists in a form declare where they are read as forms. -/
def Grammar.Form.within (limit : Nat) (f : Grammar.Form) : Wire.Profile :=
  .ofDeclarations (Reading.declares limit (.ofKinds f.inner))

theorem Grammar.Form.within_flat {f : Grammar.Form} (h : .leftParen ∉ f.inner) (limit : Nat) :
    f.within limit = .empty := by
  have hwhole := f.whole_innerForest
  rw [← f.kinds_innerForest] at h
  rw [within, ← f.kinds_innerForest, Forest.ofKinds_kinds hwhole.closed,
    Reading.declares_flat hwhole h]
  rfl

namespace Wire.Profile

/-- Every import, definition and rule of one profile is one of another. -/
structure Includes (p q : Profile) : Prop where
  imports : q.imports ⊆ p.imports
  definitions : q.definitions ⊆ p.definitions
  rules : q.rules ⊆ p.rules

theorem includes_merge (p q r : Profile) :
    p.Includes (q.merge r) ↔ p.Includes q ∧ p.Includes r := by
  constructor
  · rintro ⟨himports, hdefinitions, hrules⟩
    obtain ⟨hiq, hir⟩ := List.append_subset.mp himports
    obtain ⟨hdq, hdr⟩ := List.append_subset.mp hdefinitions
    obtain ⟨hrq, hrr⟩ := List.append_subset.mp hrules
    exact ⟨⟨hiq, hdq, hrq⟩, ⟨hir, hdr, hrr⟩⟩
  · rintro ⟨hq, hr⟩
    constructor
    · exact List.append_subset.mpr ⟨hq.imports, hr.imports⟩
    · exact List.append_subset.mpr ⟨hq.definitions, hr.definitions⟩
    · exact List.append_subset.mpr ⟨hq.rules, hr.rules⟩

theorem merge_includes (p q : Profile) : (p.merge q).Includes q := by
  constructor
  · exact List.subset_append_right _ _
  · exact List.subset_append_right _ _
  · exact List.subset_append_right _ _

end Wire.Profile

namespace Profile

theorem kinds_open (rest : String) :
    (Lexed.ofChars ("(" ++ rest).toList).kinds =
      .leftParen :: (Lexed.ofChars rest.toList).kinds := by
  rw [String.toList_append]
  exact Lexed.kinds_leftParen rest.toList

/-- The tokens of a text without an error that begins with a parenthesis: the inside of a form, its
end and the forms behind it. -/
theorem exists_first {limit : Nat} {rest : String}
    (h : (read limit ("(" ++ rest)).hasErrors = false) :
    ∃ first more, (Lexed.ofChars ("(" ++ rest).toList).kinds = Grammar.kinds (first :: more) ∧
      (Lexed.ofChars rest.toList).kinds = first.inner ++ .rightParen :: Grammar.kinds more ∧
      Grammar.depth (first :: more) ≤ limit := by
  obtain ⟨-, fs, hkinds, -, hd⟩ := (hasErrors_iff_derives limit ("(" ++ rest)).mp h
  have hopen := (kinds_open rest).symm.trans hkinds
  cases fs with
  | nil => cases hopen
  | cons first more =>
    refine ⟨first, more, hkinds, ?_, hd⟩
    rw [Grammar.kinds, List.flatMap_cons, Grammar.Form.kinds, List.cons_append] at hopen
    rw [(List.cons.inj hopen).2, List.append_assoc]
    rfl

theorem depth_tail {limit : Nat} {first : Grammar.Form} {more : List Grammar.Form}
    (h : Grammar.depth (first :: more) ≤ limit) : Grammar.depth more ≤ limit := by
  rw [Grammar.depth, List.map_cons, List.foldr_cons] at h
  rw [Grammar.depth]
  omega

/-- What a declaration without its closing parenthesis leaves of the text on the next line: all but
the parenthesis in front. -/
theorem wire_unclosed (limit : Nat) (form : Grammar.Form) (hs : form.isSealed)
    (hd : form.depth ≤ limit) {a : String}
    (hcomment : ∀ d ∈ (tokenize a).2, d.code ≠ .unterminatedBlockComment)
    (ha : (Lexed.ofChars a.toList).kinds = .leftParen :: form.inner) (rest : String) :
    Wire.Profile.ofTree (read limit (a ++ "\n" ++ ("(" ++ rest))).profile =
      Wire.Profile.ofTree (read limit rest).profile := by
  have hchars : (a ++ "\n" ++ ("(" ++ rest)).toList =
      a.toList ++ '\n' :: ("(" ++ rest).toList := by
    rw [String.toList_append, String.toList_append, List.append_assoc]
    rfl
  have hkinds := Lexed.kinds_lineFeed (unterminated_notMem_faults hcomment) ("(" ++ rest).toList
  rw [wire_read, wire_read, hchars, hkinds, ha, kinds_open]
  exact congrArg Wire.Profile.ofDeclarations (Reading.declares_unclosed hs hd _)

/-- A version, debug mode, import or definition that lacks only its closing parenthesis takes the
opening parenthesis off the text on the next line. Of a text without an error the forms behind the
first are kept, and of the first itself only what lists in it declare. So every import, definition
and rule of the text is still there exactly if those of its first form are, from lists in that form
or from the forms behind it. -/
theorem read_unclosed (limit : Nat) (form : Grammar.Form) (hs : form.isSealed)
    (hd : form.depth ≤ limit) (a rest : String)
    (hcomment : ∀ d ∈ (tokenize a).2, d.code ≠ .unterminatedBlockComment)
    (ha : (tokenize a).1.map Token.kind = .leftParen :: (form.inner ++ [.endOfFile])) :
    Wire.Profile.ofTree (read limit (a ++ "\n" ++ ("(" ++ rest))).profile =
        Wire.Profile.ofTree (read limit rest).profile ∧
      ((read limit ("(" ++ rest)).hasErrors = false → ∃ first more,
        (tokenize ("(" ++ rest)).1.map Token.kind =
            Grammar.kinds (first :: more) ++ [.endOfFile] ∧
          Wire.Profile.ofTree (read limit (a ++ "\n" ++ ("(" ++ rest))).profile =
            (first.within limit).merge (Grammar.wire more) ∧
          (.leftParen ∉ first.inner →
            Wire.Profile.ofTree (read limit (a ++ "\n" ++ ("(" ++ rest))).profile =
              Grammar.wire more) ∧
          ((Wire.Profile.ofTree (read limit (a ++ "\n" ++ ("(" ++ rest))).profile).Includes
              (Wire.Profile.ofTree (read limit ("(" ++ rest)).profile) ↔
            ((first.within limit).merge (Grammar.wire more)).Includes
              (Grammar.wire [first]))) := by
  have hwire := wire_unclosed limit form hs hd hcomment (tokenize_kinds_iff.mp ha) rest
  refine ⟨hwire, fun hclean => ?_⟩
  obtain ⟨first, more, hkinds, hrest, hdepth⟩ := exists_first hclean
  have hkept : Wire.Profile.ofTree (read limit rest).profile =
      (first.within limit).merge (Grammar.wire more) := by
    rw [wire_read, hrest, stepsOfKinds]
    change Wire.Profile.ofDeclarations (Reading.declares limit _) = _
    rw [Reading.declares_inner first (depth_tail hdepth), Wire.Profile.ofDeclarations_append]
    rfl
  have hown : Grammar.wire (first :: more) = (Grammar.wire [first]).merge (Grammar.wire more) := by
    rw [Grammar.wire, Grammar.wire, Grammar.wire, ← Wire.Profile.ofDeclarations_append,
      Grammar.declarations_cons, Grammar.declarations_cons]
    simp [Grammar.declarations]
  refine ⟨first, more, tokenize_kinds_iff.mpr hkinds, hwire.trans hkept, ?_, ?_⟩
  · intro hflat
    rw [hwire, hkept, Grammar.Form.within_flat hflat]
    rfl
  · rw [hwire, hkept, wire_of_derives hkinds hdepth, hown, Wire.Profile.includes_merge]
    exact and_iff_left (Wire.Profile.merge_includes _ _)

/-- Of two rules behind an open version the second is kept. -/
theorem read_unclosed_version :
    Wire.Profile.ofTree
        (read 256 ("(version 1" ++ "\n" ++ ("(" ++ "deny default)\n(allow x)"))).profile =
      ⟨none, none, [], [], [⟨.allow, ["x"], []⟩]⟩ ∧
    ∃ first more,
      (tokenize ("(" ++ "deny default)\n(allow x)")).1.map Token.kind =
          Grammar.kinds (first :: more) ++ [.endOfFile] ∧
        Wire.Profile.ofTree
            (read 256 ("(version 1" ++ "\n" ++ ("(" ++ "deny default)\n(allow x)"))).profile =
          (first.within 256).merge (Grammar.wire more) := by
  have hread := read_unclosed 256 (.version 1) rfl (by decide) "(version 1"
    "deny default)\n(allow x)" (by decide +kernel) (by decide +kernel)
  obtain ⟨first, more, hkinds, hkept, -⟩ := hread.2 (by decide +kernel)
  exact ⟨hread.1.trans (by decide +kernel), first, more, hkinds, hkept⟩

/-- A version without its closing parenthesis hides the rule on the next line, although no error is
found in that rule by itself. -/
theorem unclosed_hides_rule :
    (tokenize "(version 1").1.map Token.kind =
        .leftParen :: ((Grammar.Form.version 1).inner ++ [.endOfFile]) ∧
      (read 256 "(deny default)").hasErrors = false ∧
      ⟨.deny, ["default"], []⟩ ∈ (Wire.Profile.ofTree (read 256 "(deny default)").profile).rules ∧
      ¬(Wire.Profile.ofTree (read 256 ("(version 1" ++ "\n" ++ "(deny default)")).profile).Includes
        (Wire.Profile.ofTree (read 256 "(deny default)").profile) := by
  have hrule : ⟨.deny, ["default"], []⟩ ∈
      (Wire.Profile.ofTree (read 256 "(deny default)").profile).rules := by
    decide +kernel
  refine ⟨by decide +kernel, by decide +kernel, hrule, ?_⟩
  intro hall
  have hlost : ⟨.deny, ["default"], []⟩ ∉ (Wire.Profile.ofTree
      (read 256 ("(version 1" ++ "\n" ++ "(deny default)")).profile).rules := by
    decide +kernel
  exact hlost (hall.rules hrule)

end Profile

end SandboxProfile
