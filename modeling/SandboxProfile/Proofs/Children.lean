import Mathlib.Data.List.Basic
import SandboxProfile.Proofs.LineBreaks
import SandboxProfile.Proofs.PrintedForms

/-!
# Children of a list

A rule reads each of its children, and a compound filter each of its parts, as if it stood there
alone: what one of them does to the reader, or how it fails, decides nothing about the next
(`read_children`).
-/

namespace SandboxProfile

open Placed (erase)

/-! ### Forests of children -/

namespace Forest

/-- Symbols and closed lists in any order. -/
inductive Children : Forest → Prop
  | done : Children done
  | symbol {name : String} {rest : Forest} : Children rest → Children (word (.symbol name) rest)
  | list {items rest : Forest} : Whole items → Children rest → Children (group items rest)

namespace Children

theorem whole {f : Forest} (h : Children f) : Whole f := by
  induction h with
  | done => exact .done
  | symbol _ ih =>
    refine .leaf ?_ ?_ ih
    · intro heq
      cases heq
    · intro heq
      cases heq
  | list hitems _ ih => exact .group hitems ih

theorem append {f g : Forest} (hf : Children f) (hg : Children g) : Children (f ++ g) := by
  induction hf with
  | done => exact hg
  | symbol _ ih => exact .symbol ih
  | list hitems _ ih => exact .list hitems ih

end Children

theorem ofKinds_append_of_balanced {ks : List TokenKind} (h : Balanced ks) (ls : List TokenKind) :
    ofKinds (ks ++ ls) = ofKinds ks ++ ofKinds ls := by
  have happ := ofKinds_append (whole_ofKinds h).closed ls
  rwa [kinds_ofKinds] at happ

theorem ofKinds_list {f : Forest} (h : Whole f) :
    ofKinds (.leftParen :: (f.kinds ++ [.rightParen])) = group f .done := by
  rw [← ofKinds_kinds (.group h .done), kinds_group]
  rfl

end Forest

/-! ### Readers of children -/

namespace Reading

open Forest (Children group word)

variable {limit : Nat}

/-- The filter that a list is when it is read by itself, below `depth` others. There is none where
the reader gives up. -/
def part (limit depth : Nat) (o : Token) (items : Forest) (e : ListEnd) : Option Filter :=
  (do
    enter limit depth o items e
    filter limit (depth + 1) o e items : Reading Filter).outcome.toOption

/-- The filters that the lists of a forest are, each read by itself. -/
def parts (limit depth : Nat) : Forest → List Filter
  | .done => []
  | .leaf _ rest => parts limit depth rest
  | .list o items e rest => (part limit depth o items e).toList ++ parts limit depth rest

theorem parts_append (depth : Nat) (f g : Forest) :
    parts limit depth (f ++ g) = parts limit depth f ++ parts limit depth g := by
  induction f with
  | done => rfl
  | leaf t rest ih => exact ih
  | list o items e rest _ ih =>
    rw [Forest.list_append, parts, parts, ih, List.append_assoc]

theorem outcome_filters (depth : Nat) (kind : CompoundKind) (c : Token) (f : Forest) :
    (filters limit depth kind (.closed c) f).outcome =
      .ok (parts limit depth f, c.range.stop) := by
  induction f with
  | done =>
    rw [filters]
    rfl
  | leaf t rest ih =>
    rw [filters, outcome_bind rfl]
    exact ih
  | list o items e rest _ ih =>
    rw [filters, outcome_bind rfl, outcome_bind ih]
    rfl

/-- The operations that names stand for, without places. -/
def operationsOf (names : List String) : List Operation := names.map (⟨·, .zero⟩)

theorem outcome_ruleItems {f : Forest} (h : Children f) (c : Token) :
    (ruleItems limit (.closed c) f).outcome =
      .ok (operationsOf (topSymbols 0 f.kinds), parts limit 0 f, c.range.stop) := by
  induction h with
  | done =>
    rw [ruleItems]
    rfl
  | symbol _ ih =>
    rw [ruleItems, bare_kind]
    simp only
    rw [outcome_bind ih]
    rfl
  | list hitems _ ih =>
    rw [ruleItems, outcome_bind rfl, outcome_bind ih, Forest.kinds_group,
      hitems.balanced.topSymbols_list]
    rfl

theorem outcome_rule {f : Forest} (h : Children f) (action : Action) (start : Position)
    (c : Token) :
    (rule limit action start f (.closed c)).outcome =
      .ok ⟨action, operationsOf (topSymbols 0 f.kinds), parts limit 0 f,
        ⟨start, c.range.stop⟩⟩ := by
  rw [rule, outcome_bind (outcome_ruleItems h c)]
  simp only
  split
  · rfl
  · rfl

/-- A rule, as the only form of a document. -/
theorem steps_rule {f : Forest} (h : Children f) (action : Action) :
    (steps limit (group (word (.symbol action.text) f) .done)).filterMap (·.declaration?) =
      [.rule ⟨action, operationsOf (topSymbols 0 f.kinds), parts limit 0 f, .zero⟩] := by
  have hrule : (rule limit action .origin f (.closed (.bare .rightParen))).outcome = .ok _ :=
    outcome_rule h action .origin (.bare .rightParen)
  have hform : (declaration limit (.bare .leftParen) (word (.symbol action.text) f)
      (.closed (.bare .rightParen))).outcome =
      .ok (some (.rule ⟨action, operationsOf (topSymbols 0 f.kinds), parts limit 0 f, .zero⟩)) := by
    cases action with
    | allow => exact outcome_bind hrule _
    | deny => exact outcome_bind hrule _
  rw [steps_of_ok hform, steps_done]
  rfl

/-- A compound filter, as the only list of a forest. -/
theorem parts_compound (f : Forest) (kind : CompoundKind) (h : 0 < limit) :
    parts limit 0 (group (word (.symbol kind.text) f) .done) =
      [.compound kind (parts limit 1 f) .zero] := by
  have hfilter : (filter limit 1 (.bare .leftParen) (.closed (.bare .rightParen))
      (word (.symbol kind.text) f)).outcome = .ok (.compound kind (parts limit 1 f) .zero) := by
    rw [filter, bare_kind]
    simp only [CompoundKind.ofText?_text]
    exact outcome_bind (outcome_filters 1 kind (.bare .rightParen) f) _
  have hpart : part limit 0 (.bare .leftParen) (word (.symbol kind.text) f)
      (.closed (.bare .rightParen)) = some (.compound kind (parts limit 1 f) .zero) := by
    rw [part, enter, if_pos h, outcome_bind rfl, hfilter]
    rfl
  rw [parts, hpart]
  rfl

end Reading

/-! ### Texts of children -/

/-- A list as it is written with its head and each of its children on a line. -/
def listText (head : String) (children : List String) : String :=
  "(" ++ head ++ "\n" ++ String.join (children.map (· ++ "\n")) ++ ")"

/-- A text that has one symbol and nothing else for its tokens. -/
def IsSymbolText (text : String) : Prop :=
  (tokenize text).2 = [] ∧
    ∃ name, (tokenize text).1.map Token.kind = [.symbol name, .endOfFile]

/-- A text that has a list in which all parentheses match for its tokens. -/
def IsListText (text : String) : Prop :=
  (tokenize text).2 = [] ∧ ∃ ks, Balanced ks ∧
    (tokenize text).1.map Token.kind = .leftParen :: (ks ++ [.rightParen, .endOfFile])

/-- The filters joined by a compound filter. -/
def Filter.parts : Filter → List Filter
  | compound _ filters _ => filters
  | _ => []

/-- The name that a text begins with, if it begins with a symbol. -/
def headSymbol? (text : String) : Option String := (tokenize text).1.head?.bind Token.symbol?

theorem toList_listText (head : String) (children : List String) :
    (listText head children).toList =
      ("(" ++ head).toList ++
        '\n' :: (children.flatMap (fun t => t.toList ++ ['\n']) ++ [')']) := by
  rw [listText, String.toList_append, String.toList_append, toList_join_lines,
    String.toList_append]
  simp

namespace Lexed

/-- The kinds of the tokens of a text, without the end of the file. -/
def textKinds (text : String) : List TokenKind := (ofChars text.toList).kinds

/-- A text that takes nothing of the line behind it. -/
def EndsLine (text : String) : Prop :=
  ∀ ds, (ofChars (text.toList ++ '\n' :: ds)).kinds = textKinds text ++ (ofChars ds).kinds

theorem endsLine_of_faults {text : String} (h : (tokenize text).2 = []) : EndsLine text := by
  intro ds
  apply kinds_lineFeed
  rw [Profile.tokenize_faults_iff.mp h]
  exact List.not_mem_nil

theorem kinds_childLines {texts : List String} (h : ∀ t ∈ texts, EndsLine t) (ds : List Char) :
    (ofChars (texts.flatMap (fun t => t.toList ++ ['\n']) ++ ds)).kinds =
      texts.flatMap textKinds ++ (ofChars ds).kinds := by
  induction texts with
  | nil => rfl
  | cons t ts ih =>
    rw [List.forall_mem_cons] at h
    rw [List.flatMap_cons, List.append_assoc, List.append_assoc, List.singleton_append, h.1,
      ih h.2, List.flatMap_cons, List.append_assoc]

/-- The tokens of a list whose head is spelled as a symbol, with `ds` behind it. -/
theorem kinds_listText_append {head : String}
    (hhead : ofChars ("(" ++ head).toList = ⟨[.leftParen, .symbol head], []⟩)
    {children : List String} (h : ∀ t ∈ children, EndsLine t) (ds : List Char) :
    (ofChars ((listText head children).toList ++ ds)).kinds =
      .leftParen :: .symbol head ::
        (children.flatMap textKinds ++ .rightParen :: (ofChars ds).kinds) := by
  have hclosed : .unterminatedBlockComment ∉ (ofChars ("(" ++ head).toList).faults := by
    rw [hhead]
    exact List.not_mem_nil
  rw [toList_listText, List.append_assoc, List.cons_append, kinds_lineFeed hclosed,
    List.append_assoc, kinds_childLines h, List.singleton_append, kinds_rightParen, hhead]
  rfl

theorem textKinds_listText {head : String}
    (hhead : ofChars ("(" ++ head).toList = ⟨[.leftParen, .symbol head], []⟩)
    {children : List String} (h : ∀ t ∈ children, EndsLine t) :
    textKinds (listText head children) =
      .leftParen :: .symbol head :: (children.flatMap textKinds ++ [.rightParen]) := by
  have happ := kinds_listText_append hhead h []
  rw [List.append_nil, ofChars_nil] at happ
  exact happ

theorem ofChars_action (action : Action) :
    ofChars ("(" ++ action.text).toList = ⟨[.leftParen, .symbol action.text], []⟩ := by
  cases action <;> decide +kernel

theorem ofChars_compound (kind : CompoundKind) :
    ofChars ("(" ++ kind.text).toList = ⟨[.leftParen, .symbol kind.text], []⟩ := by
  cases kind <;> decide +kernel

theorem endsLine_compound (kind : CompoundKind) {children : List String}
    (h : ∀ t ∈ children, EndsLine t) : EndsLine (listText kind.text children) := by
  intro ds
  rw [kinds_listText_append (ofChars_compound kind) h, ofChars_lineFeed,
    textKinds_listText (ofChars_compound kind) h]
  simp

end Lexed

open Lexed (textKinds)

/-- A text with which a child of a list can be written on a line of its own. -/
structure IsChild (text : String) : Prop where
  endsLine : Lexed.EndsLine text
  children : Forest.Children (.ofKinds (textKinds text))

theorem headSymbol?_of_kinds {text : String} {k : TokenKind} {ks : List TokenKind}
    (h : (tokenize text).1.map Token.kind = k :: ks) :
    headSymbol? text = (Token.bare k).symbol? := by
  unfold headSymbol?
  cases hts : (tokenize text).1 with
  | nil =>
    rw [hts] at h
    cases h
  | cons t ts =>
    rw [hts] at h
    have hkind := (List.cons.inj h).1
    simp [Token.symbol?, hkind]

/-- The symbols of a text that stand in no list. -/
def symbolsOf (text : String) : List String := topSymbols 0 (textKinds text)

/-- The filters that the lists of a text are below `depth` others. -/
def partsOf (limit depth : Nat) (text : String) : List Filter :=
  Reading.parts limit depth (.ofKinds (textKinds text))

namespace IsSymbolText

variable {text : String}

theorem exists_name (h : IsSymbolText text) :
    ∃ name, textKinds text = [.symbol name] ∧ headSymbol? text = some name := by
  obtain ⟨-, name, hkinds⟩ := h
  exact ⟨name, Profile.tokenize_kinds_iff.mp hkinds, headSymbol?_of_kinds hkinds⟩

theorem isChild (h : IsSymbolText text) : IsChild text := by
  obtain ⟨name, hkinds, -⟩ := h.exists_name
  constructor
  · exact Lexed.endsLine_of_faults h.1
  · rw [hkinds]
    exact .symbol .done

theorem symbolsOf_eq (h : IsSymbolText text) : symbolsOf text = (headSymbol? text).toList := by
  obtain ⟨name, hkinds, hname⟩ := h.exists_name
  rw [symbolsOf, hkinds, hname]
  rfl

theorem partsOf_eq (h : IsSymbolText text) (limit depth : Nat) : partsOf limit depth text = [] := by
  obtain ⟨name, hkinds, -⟩ := h.exists_name
  rw [partsOf, hkinds]
  rfl

end IsSymbolText

namespace IsListText

variable {text : String}

theorem exists_items (h : IsListText text) :
    ∃ items, Forest.Whole items ∧
      textKinds text = .leftParen :: (items.kinds ++ [.rightParen]) ∧ headSymbol? text = none := by
  obtain ⟨-, ks, hks, hkinds⟩ := h
  obtain ⟨items, hitems, rfl⟩ := Forest.exists_whole hks
  refine ⟨items, hitems, ?_, headSymbol?_of_kinds hkinds⟩
  apply Profile.tokenize_kinds_iff.mp
  rw [hkinds]
  simp

theorem isChild (h : IsListText text) : IsChild text := by
  obtain ⟨items, hitems, hkinds, -⟩ := h.exists_items
  constructor
  · exact Lexed.endsLine_of_faults h.1
  · rw [hkinds, Forest.ofKinds_list hitems]
    exact .list hitems .done

theorem symbolsOf_eq (h : IsListText text) : symbolsOf text = (headSymbol? text).toList := by
  obtain ⟨items, hitems, hkinds, hname⟩ := h.exists_items
  rw [symbolsOf, hkinds, hname]
  exact hitems.balanced.topSymbols_list []

end IsListText

theorem flatMap_symbolsOf {texts : List String} (h : ∀ t ∈ texts, IsSymbolText t ∨ IsListText t) :
    texts.flatMap symbolsOf = texts.filterMap headSymbol? := by
  rw [List.filterMap_eq_flatMap_toList]
  apply List.flatMap_congr
  intro t ht
  rcases h t ht with hsymbol | hlist
  · exact hsymbol.symbolsOf_eq
  · exact hlist.symbolsOf_eq

namespace IsChild

theorem balanced {text : String} (h : IsChild text) : Balanced (textKinds text) := by
  have hwhole := h.children.whole.balanced
  rwa [Forest.kinds_ofKinds] at hwhole

variable {texts : List String}

theorem children_flatMap (h : ∀ t ∈ texts, IsChild t) :
    Forest.Children (.ofKinds (texts.flatMap textKinds)) := by
  induction texts with
  | nil => exact .done
  | cons t ts ih =>
    rw [List.forall_mem_cons] at h
    rw [List.flatMap_cons, Forest.ofKinds_append_of_balanced h.1.balanced]
    exact h.1.children.append (ih h.2)

theorem topSymbols_flatMap (h : ∀ t ∈ texts, IsChild t) :
    topSymbols 0 (texts.flatMap textKinds) = texts.flatMap symbolsOf := by
  induction texts with
  | nil => rfl
  | cons t ts ih =>
    rw [List.forall_mem_cons] at h
    rw [List.flatMap_cons, h.1.balanced.topSymbols_append, ih h.2, List.flatMap_cons]
    rfl

theorem parts_flatMap (limit depth : Nat) (h : ∀ t ∈ texts, IsChild t) :
    Reading.parts limit depth (.ofKinds (texts.flatMap textKinds)) =
      texts.flatMap (partsOf limit depth) := by
  induction texts with
  | nil => rfl
  | cons t ts ih =>
    rw [List.forall_mem_cons] at h
    rw [List.flatMap_cons, Forest.ofKinds_append_of_balanced h.1.balanced, Reading.parts_append,
      ih h.2, List.flatMap_cons]
    rfl

/-- A list of children is the list of their trees. -/
theorem ofKinds_listText {head : String}
    (hhead : Lexed.ofChars ("(" ++ head).toList = ⟨[.leftParen, .symbol head], []⟩)
    (h : ∀ t ∈ texts, IsChild t) :
    Forest.ofKinds (textKinds (listText head texts)) =
      .group (.word (.symbol head) (.ofKinds (texts.flatMap textKinds))) .done := by
  have hwhole : Forest.Whole (.word (.symbol head) (.ofKinds (texts.flatMap textKinds))) :=
    (Forest.Children.symbol (children_flatMap h)).whole
  have hkinds := Lexed.textKinds_listText hhead fun t ht => (h t ht).endsLine
  rw [hkinds, ← Forest.ofKinds_list hwhole, Forest.kinds_leaf, Forest.kinds_ofKinds]
  rfl

theorem compound (kind : CompoundKind) (h : ∀ t ∈ texts, IsChild t) :
    IsChild (listText kind.text texts) := by
  constructor
  · exact Lexed.endsLine_compound kind fun t ht => (h t ht).endsLine
  · rw [ofKinds_listText (Lexed.ofChars_compound kind) h]
    exact .list (Forest.Children.symbol (children_flatMap h)).whole .done

theorem symbolsOf_compound (kind : CompoundKind) (h : ∀ t ∈ texts, IsChild t) :
    symbolsOf (listText kind.text texts) = [] := by
  have hitems : Balanced (.symbol kind.text :: texts.flatMap textKinds) := by
    have hwhole := (children_flatMap h).whole.balanced
    rw [Forest.kinds_ofKinds] at hwhole
    exact hwhole.symbol kind.text
  rw [symbolsOf, Lexed.textKinds_listText (Lexed.ofChars_compound kind) fun t ht =>
    (h t ht).endsLine]
  exact hitems.topSymbols_list []

theorem partsOf_compound {limit : Nat} (hlimit : 0 < limit) (kind : CompoundKind)
    (h : ∀ t ∈ texts, IsChild t) :
    partsOf limit 0 (listText kind.text texts) =
      [.compound kind (texts.flatMap (partsOf limit 1)) .zero] := by
  rw [partsOf, ofKinds_listText (Lexed.ofChars_compound kind) h,
    Reading.parts_compound _ kind hlimit, parts_flatMap limit 1 h]

end IsChild

/-! ### Rules -/

namespace Profile

theorem erase_rules (ss : List Step) :
    erase ((ss.filterMap (·.declaration?)).filterMap (·.rule?)) =
      ((erase ss).filterMap (·.declaration?)).filterMap (·.rule?) := by
  induction ss with
  | nil => rfl
  | cons s ss ih =>
    obtain ⟨notes, declaration?⟩ := s
    cases declaration? with
    | none => exact ih
    | some d =>
      cases d with
      | rule r => exact congrArg (erase r :: ·) ih
      | version _ | debug _ | importPath _ | definition _ => exact ih

theorem erase_rules_read (limit : Nat) (text : String) :
    erase (read limit text).profile.rules =
      ((stepsOfKinds limit (textKinds text)).filterMap (·.declaration?)).filterMap (·.rule?) := by
  rw [textKinds, ← erase_steps_tokenize, ← erase_rules]
  rfl

/-- The filters of the rules of a text, without their places. -/
def filtersOf (limit : Nat) (text : String) : List Filter :=
  erase ((read limit text).profile.rules.flatMap (·.filters))

variable {texts : List String}

theorem erase_rules_listText (limit : Nat) (action : Action) (h : ∀ t ∈ texts, IsChild t) :
    erase (read limit (listText action.text texts)).profile.rules =
      [⟨action, Reading.operationsOf (texts.flatMap symbolsOf), texts.flatMap (partsOf limit 0),
        .zero⟩] := by
  rw [erase_rules_read, stepsOfKinds, IsChild.ofKinds_listText (Lexed.ofChars_action action) h,
    Reading.steps_rule (IsChild.children_flatMap h), Forest.kinds_ofKinds,
    IsChild.topSymbols_flatMap h, IsChild.parts_flatMap limit 0 h]
  rfl

theorem exists_rule_listText (limit : Nat) (action : Action) (h : ∀ t ∈ texts, IsChild t) :
    ∃ r, (read limit (listText action.text texts)).profile.rules = [r] ∧ r.action = action ∧
      r.operationNames = texts.flatMap symbolsOf ∧
      erase r.filters = texts.flatMap (partsOf limit 0) := by
  obtain ⟨r, hr, herase⟩ := List.map_eq_singleton_iff.mp (erase_rules_listText limit action h)
  refine ⟨r, hr, congrArg Rule.action herase, ?_, congrArg Rule.filters herase⟩
  have hnames := congrArg Rule.operationNames herase
  have hown : (erase r).operationNames = r.operationNames := List.map_map
  rw [← hown, hnames]
  exact (List.map_map).trans (List.map_id _)

theorem filtersOf_listText (limit : Nat) (action : Action) (h : ∀ t ∈ texts, IsChild t) :
    filtersOf limit (listText action.text texts) = texts.flatMap (partsOf limit 0) := by
  obtain ⟨r, hr, -, -, hfilters⟩ := exists_rule_listText limit action h
  rw [filtersOf, hr, ← hfilters, List.flatMap_singleton]

/-- Symbols have no filters, and each list has those it has alone in a rule. -/
theorem flatMap_partsOf (limit : Nat) (action : Action)
    (h : ∀ t ∈ texts, IsSymbolText t ∨ IsListText t) :
    texts.flatMap (partsOf limit 0) =
      (texts.filter fun t => (headSymbol? t).isNone).flatMap fun t =>
        filtersOf limit (listText action.text [t]) := by
  induction texts with
  | nil => rfl
  | cons t ts ih =>
    rw [List.forall_mem_cons] at h
    rw [List.flatMap_cons, ih h.2]
    rcases h.1 with hsymbol | hlist
    · obtain ⟨name, -, hname⟩ := hsymbol.exists_name
      rw [List.filter_cons_of_neg (by simp [hname]), hsymbol.partsOf_eq, List.nil_append]
    · obtain ⟨-, -, -, hname⟩ := hlist.exists_items
      have halone := filtersOf_listText limit action (List.forall_mem_singleton.mpr hlist.isChild)
      rw [List.filter_cons_of_pos (by simp [hname]), List.flatMap_cons, halone,
        List.flatMap_singleton]

/-- A compound filter among symbols is the only filter of its rule, and its parts are the filters
that its lists are by themselves. -/
theorem exists_rule_compound {limit : Nat} (hlimit : 0 < limit) (action : Action)
    (kind : CompoundKind) {before after : List String}
    (hsymbols : ∀ t ∈ before ++ after, IsSymbolText t) (h : ∀ t ∈ texts, IsChild t) :
    ∃ r, (read limit (listText action.text
        (before ++ listText kind.text texts :: after))).profile.rules = [r] ∧ r.action = action ∧
      r.operationNames = (before ++ after).filterMap headSymbol? ∧
      erase r.filters = [.compound kind (texts.flatMap (partsOf limit 1)) .zero] := by
  have hchildren : ∀ t ∈ before ++ listText kind.text texts :: after, IsChild t := by
    intro t ht
    rcases List.mem_append.mp ht with hbefore | hrest
    · exact (hsymbols t (List.mem_append_left _ hbefore)).isChild
    · rcases List.mem_cons.mp hrest with rfl | hafter
      · exact IsChild.compound kind h
      · exact (hsymbols t (List.mem_append_right _ hafter)).isChild
  have hnames := flatMap_symbolsOf fun t ht => .inl (hsymbols t ht)
  have hnone : (before ++ after).flatMap (partsOf limit 0) = [] :=
    List.flatMap_eq_nil_iff.mpr fun t ht => (hsymbols t ht).partsOf_eq limit 0
  rw [List.flatMap_append, List.append_eq_nil_iff] at hnone
  obtain ⟨r, hr, haction, hoperations, hfilters⟩ := exists_rule_listText limit action hchildren
  refine ⟨r, hr, haction, ?_, ?_⟩
  · rw [hoperations, List.flatMap_append, List.flatMap_cons, IsChild.symbolsOf_compound kind h,
      List.nil_append, ← List.flatMap_append, hnames]
  · rw [hfilters, List.flatMap_append, List.flatMap_cons, hnone.1, hnone.2,
      IsChild.partsOf_compound hlimit kind h]
    rfl

/-- A rule reads its children one by one: it has the operations that the symbols among them are and
the filters that each list has alone in such a rule, in their order, so a list that is no filter
leaves nothing behind. The same goes for the lists in a compound filter. -/
theorem read_children (limit : Nat) (action : Action) :
    (∀ children, (∀ c ∈ children, IsSymbolText c ∨ IsListText c) →
      ∃ r, (read limit (listText action.text children)).profile.rules = [r] ∧
        r.action = action ∧ r.operationNames = children.filterMap headSymbol? ∧
        erase r.filters = (children.filter fun c => (headSymbol? c).isNone).flatMap fun c =>
          filtersOf limit (listText action.text [c])) ∧
    ∀ (kind : CompoundKind) (before after children : List String), 0 < limit →
      (∀ c ∈ before ++ after, IsSymbolText c) → (∀ c ∈ children, IsListText c) →
      ∃ r, (read limit (listText action.text
          (before ++ listText kind.text children :: after))).profile.rules = [r] ∧
        r.action = action ∧ r.operationNames = (before ++ after).filterMap headSymbol? ∧
        erase r.filters = [.compound kind (children.flatMap fun c =>
          (filtersOf limit (listText action.text
            (before ++ listText kind.text [c] :: after))).flatMap Filter.parts) .zero] := by
  constructor
  · intro children hchildren
    have hchild : ∀ c ∈ children, IsChild c := by
      intro c hc
      rcases hchildren c hc with hsymbol | hlist
      · exact hsymbol.isChild
      · exact hlist.isChild
    obtain ⟨r, hr, haction, hoperations, hfilters⟩ := exists_rule_listText limit action hchild
    refine ⟨r, hr, haction, ?_, ?_⟩
    · rw [hoperations, flatMap_symbolsOf hchildren]
    · rw [hfilters, flatMap_partsOf limit action hchildren]
  · intro kind before after children hlimit hsymbols hlists
    have hchild : ∀ c ∈ children, IsChild c := fun c hc => (hlists c hc).isChild
    have halone : children.flatMap (fun c => (filtersOf limit (listText action.text
        (before ++ listText kind.text [c] :: after))).flatMap Filter.parts) =
        children.flatMap (partsOf limit 1) := by
      apply List.flatMap_congr
      intro c hc
      obtain ⟨r, hr, -, -, hfilters⟩ := exists_rule_compound hlimit action kind hsymbols
        (List.forall_mem_singleton.mpr (hchild c hc))
      rw [filtersOf, hr, List.flatMap_singleton, hfilters, List.flatMap_singleton]
      exact List.flatMap_singleton ..
    rw [halone]
    exact exists_rule_compound hlimit action kind hsymbols hchild

/-- A filter without a value is left out of a rule and out of a compound filter, and what stands
before it and behind it is kept. -/
theorem read_children_skips :
    (∃ r, (read 256 (listText "allow"
        ["file-read*", "(subpath) ; nothing", "(literal \"/b\")", "sysctl*"])).profile.rules = [r] ∧
      r.operationNames = ["file-read*", "sysctl*"] ∧
      erase r.filters = [.simple "literal" .zero (.string "/b" .zero) .zero]) ∧
    ∃ r, (read 256 (listText "allow" (["file-read*"] ++ listText "require-any"
        ["(subpath) ; nothing", "(literal \"/b\")"] :: []))).profile.rules = [r] ∧
      r.operationNames = ["file-read*"] ∧
      erase r.filters =
        [.compound .any [.simple "literal" .zero (.string "/b" .zero) .zero] .zero] := by
  have hread : IsSymbolText "file-read*" := ⟨by decide +kernel, "file-read*", by decide +kernel⟩
  have hsysctl : IsSymbolText "sysctl*" := ⟨by decide +kernel, "sysctl*", by decide +kernel⟩
  have hsubpath : IsListText "(subpath) ; nothing" :=
    ⟨by decide +kernel, [.symbol "subpath"], .symbol _ .nil, by decide +kernel⟩
  have hliteral : IsListText "(literal \"/b\")" :=
    ⟨by decide +kernel, [.symbol "literal", .string "/b"],
      .symbol _ (.single (by decide) (by decide)), by decide +kernel⟩
  constructor
  · obtain ⟨r, hr, -, hoperations, hfilters⟩ := (read_children 256 .allow).1
      ["file-read*", "(subpath) ; nothing", "(literal \"/b\")", "sysctl*"] (by
        simp [hread, hsysctl, hsubpath, hliteral])
    exact ⟨r, hr, hoperations.trans (by decide +kernel), hfilters.trans (by decide +kernel)⟩
  · obtain ⟨r, hr, -, hoperations, hfilters⟩ := (read_children 256 .allow).2 .any ["file-read*"] []
      ["(subpath) ; nothing", "(literal \"/b\")"] (by decide) (by simp [hread])
      (by simp [hsubpath, hliteral])
    exact ⟨r, hr, hoperations.trans (by decide +kernel), hfilters.trans (by decide +kernel)⟩

end Profile

end SandboxProfile
