import SandboxProfile.Proofs.Formatting
import SandboxProfile.Proofs.RespelledFilters

/-!
# When formatting settles

A formatted text is a fixed point of formatting exactly if an apostrophe was printed in front of
symbols and integers only (`Profile.format_settles_iff`). In front of anything else it is read as a
symbol of its own: a definition then has two values, which is an error, and elsewhere a blank comes
in behind the apostrophe or what was quoted is passed over.
-/

namespace SandboxProfile

namespace Wire

/-! ### Declarations -/

namespace Declaration

def isRule : Declaration → Bool
  | rule _ => true
  | version _ | debugMode _ | importPath _ | definition _ => false

/-- Whether the values of a declaration are settled. -/
def Settled : Declaration → Prop
  | definition d => d.value.Settled
  | rule r => Filter.EveryAll Filter.Settled r.filters
  | version _ | debugMode _ | importPath _ => True

/-- How many blanks come into a declaration when it is read and printed again. -/
def gaps : Declaration → Nat
  | definition d => d.value.gaps 0
  | rule r => Filter.gapsAll r.filters
  | version _ | debugMode _ | importPath _ => 0

theorem gaps_of_settled {d : Declaration} (h : d.Settled) : d.gaps = 0 := by
  cases d with
  | definition d => exact (Node.gaps_eq_zero_iff d.value).mpr h
  | rule r => exact Filter.gapsAll_of_settled h
  | version _ | debugMode _ | importPath _ => rfl

/-- Whether a declaration is what another one is read as when it was printed. -/
structure ReadAs (d e : Declaration) : Prop where
  isRule : e.isRule = d.isRule
  text : ∀ indent, Widened d.gaps (d.text indent) (e.text indent)
  settled : d.gaps = 0 → d.Settled

theorem widened_body (indent : Indent) {fs gs : List Filter}
    (h : List.Forall₂ Filter.ReadAs fs gs) :
    Widened (Filter.gapsAll fs) (Rule.body indent fs) (Rule.body indent gs) := by
  have hbelow := Filter.widened_lines indent 1 h
  cases h with
  | nil => exact hbelow
  | @cons f g _ _ hf hrest =>
    cases hrest with
    | nil =>
      have htext := hf.layout indent 1
      rw [Rule.body, Rule.body]
      simp only [hf.isCompound, htext.contains_lineFeed]
      split
      · exact .keep ' ' htext
      · exact hbelow
    | cons _ _ => exact hbelow

theorem readAs_rule {action : Action} {names : List String} {fs gs : List Filter}
    (h : List.Forall₂ Filter.ReadAs fs gs) :
    ReadAs (.rule ⟨action, names, fs⟩) (.rule ⟨action, names, gs⟩) :=
  ⟨rfl, fun indent => .suffixed (.prefixed _ (widened_body indent h)) [')'],
    Filter.settled_of_readAs h⟩

theorem readAs_definition {name : String} {x y : Node} (h : x.respelled 0 = [y]) :
    ReadAs (.definition ⟨name, x⟩) (.definition ⟨name, y⟩) := by
  refine ⟨rfl, fun indent => ?_, (Node.gaps_eq_zero_iff x).mp⟩
  have hvalue : Widened (x.gaps 0) (spaced [name.toList, x.layout])
      (spaced [name.toList, y.layout]) := by
    change Widened _ (' ' :: (name.toList ++ spaced [x.layout]))
      (' ' :: (name.toList ++ spaced [y.layout]))
    rw [Node.spaced_singleton, Node.spaced_singleton]
    exact .keep ' ' (.prefixed _ (.keep ' ' (Filter.widened_value h)))
  exact .keep '(' (.suffixed (.prefixed _ hvalue) [')'])

theorem readAs_refl {d : Declaration} (h : d.gaps = 0) (hs : d.Settled) : ReadAs d d := by
  refine ⟨rfl, fun indent => ?_, fun _ => hs⟩
  rw [h]
  exact .refl _

/-! ### Declarations of the same tokens -/

section

variable {e : Declaration}

theorem printedInner_rule_ne {r : Rule} {word : String} {ks : List TokenKind}
    (h : word ∉ ["allow", "deny"]) : (rule r).printedInner ≠ .symbol word :: ks := by
  intro heq
  obtain ⟨action, names, filters⟩ := r
  cases action <;> simp_all [printedInner, Action.text]

theorem of_version {n : Int64} (h : e.printedInner = [.symbol "version", .integer n]) :
    e = .version n := by
  cases e with
  | rule r => exact absurd h (printedInner_rule_ne (by decide))
  | _ => simp_all [printedInner]

theorem of_debugMode {a : Action} (h : e.printedInner = [.symbol "debug", .symbol a.text]) :
    e = .debugMode a := by
  cases e with
  | rule r => exact absurd h (printedInner_rule_ne (by decide))
  | debugMode b => cases a <;> cases b <;> simp_all [printedInner, Action.text]
  | _ => simp_all [printedInner]

theorem of_importPath {path : String} (h : e.printedInner = [.symbol "import", .string path]) :
    e = .importPath path := by
  cases e with
  | rule r => exact absurd h (printedInner_rule_ne (by decide))
  | _ => simp_all [printedInner]

theorem of_definition {name : String} {ks : List TokenKind}
    (h : e.printedInner = .symbol "define" :: .symbol name :: ks) :
    ∃ value, e = .definition ⟨name, value⟩ ∧ value.printed 0 = ks := by
  cases e with
  | rule r => exact absurd h (printedInner_rule_ne (by decide))
  | definition d =>
    obtain ⟨other, value⟩ := d
    simp only [printedInner, List.cons.injEq, TokenKind.symbol.injEq, true_and] at h
    exact ⟨value, by rw [h.1], h.2⟩
  | _ => simp_all [printedInner]

theorem of_rule {action : Action} {ks : List TokenKind}
    (h : e.printedInner = .symbol action.text :: ks) :
    ∃ names filters, e = .rule ⟨action, names, filters⟩ ∧
      names.map .symbol ++ Filter.printedAll filters = ks := by
  cases e with
  | rule r =>
    obtain ⟨other, names, filters⟩ := r
    obtain ⟨haction, hrest⟩ := List.cons.inj h
    obtain rfl : other = action := by
      cases other <;> cases action <;> simp_all [Action.text]
    exact ⟨names, filters, rfl, hrest⟩
  | _ => cases action <;> simp_all [printedInner, Action.text]

end

theorem printedAll_ne_word {fs : List Filter} (hf : Filter.EveryAll Filter.Legible fs)
    (hp : Filter.EveryAll Filter.Plain fs) {name : String} {ks : List TokenKind} :
    Filter.printedAll fs ≠ .symbol name :: ks := by
  cases fs with
  | nil => exact nofun
  | cons f fs =>
    obtain ⟨inner, -, hinner⟩ := Filter.exists_inner (Filter.shape_of_every hf.1 hp.1)
    rw [Filter.printedAll, hinner]
    exact nofun

/-- The operations of a rule are found again in front of its filters. -/
theorem operations_cut {names names' : List String} {fs gs : List Filter}
    (hf : Filter.EveryAll Filter.Legible fs) (hp : Filter.EveryAll Filter.Plain fs)
    (hg : Filter.EveryAll Filter.Legible gs) (hp' : Filter.EveryAll Filter.Plain gs)
    (h : names.map .symbol ++ Filter.printedAll fs =
      names'.map .symbol ++ Filter.printedAll gs) :
    names = names' ∧ Filter.printedAll fs = Filter.printedAll gs := by
  induction names generalizing names' with
  | nil =>
    cases names' with
    | nil => exact ⟨rfl, h⟩
    | cons name names' => exact absurd h (printedAll_ne_word hf hp)
  | cons name names ih =>
    cases names' with
    | nil => exact absurd h.symm (printedAll_ne_word hg hp')
    | cons name' names' =>
      obtain ⟨hname, hrest⟩ := List.cons.inj h
      obtain ⟨rfl, hprinted⟩ := ih hrest
      cases hname
      exact ⟨rfl, hprinted⟩

/-- A declaration without quotations that has the tokens another one is printed as. -/
theorem readAs_of_printed {d e : Declaration} (hd : d.Legible) (hp : d.Plain) (he : e.Legible)
    (hp' : e.Plain) (hq : e.QuoteFree) (h : e.printedInner = d.printedInner) : ReadAs d e := by
  cases d with
  | version n =>
    obtain rfl := of_version h
    exact readAs_refl rfl trivial
  | debugMode a =>
    obtain rfl := of_debugMode h
    exact readAs_refl rfl trivial
  | importPath path =>
    obtain rfl := of_importPath h
    exact readAs_refl rfl trivial
  | definition d =>
    obtain ⟨value, rfl, hvalue⟩ := of_definition h
    exact readAs_definition (Filter.respelled_of_printed hq hvalue)
  | rule r =>
    obtain ⟨action, names, fs⟩ := r
    obtain ⟨names', gs, rfl, hrest⟩ := of_rule h
    obtain ⟨rfl, hprinted⟩ := operations_cut he.2 hp' hd.2 hp hrest
    exact readAs_rule (Filter.forall₂_readAs hd.2 hp he.2 hp' hq hprinted)

/-- Declarations of the same tokens are read again one by one. -/
theorem forall₂_readAs {ds es : List Declaration} (hd : ∀ d ∈ ds, d.Legible)
    (hp : ∀ d ∈ ds, d.Plain) (he : ∀ e ∈ es, e.Legible) (hp' : ∀ e ∈ es, e.Plain)
    (hq : ∀ e ∈ es, e.QuoteFree) (h : es.flatMap printed = ds.flatMap printed) :
    List.Forall₂ ReadAs ds es := by
  have hinner : es.map printedInner = ds.map printedInner := by
    apply Forest.lists_unique
    · exact List.forall_mem_map.mpr fun e _ => e.balanced_printedInner
    · exact List.forall_mem_map.mpr fun d _ => d.balanced_printedInner
    · rw [List.flatMap_map, List.flatMap_map]
      exact h
  clear h
  induction ds generalizing es with
  | nil =>
    obtain rfl := List.map_eq_nil_iff.mp hinner
    exact .nil
  | cons d ds ih =>
    cases es with
    | nil => cases hinner
    | cons e es =>
      rw [List.forall_mem_cons] at hd hp he hp' hq
      obtain ⟨hsame, hrest⟩ := List.cons.inj hinner
      exact .cons (readAs_of_printed hd.1 hp.1 he.1 hp'.1 hq.1 hsame)
        (ih hd.2 hp.2 he.2 hp'.2 hq.2 hrest)

/-! ### The lines of declarations -/

def gapsAll : List Declaration → Nat
  | [] => 0
  | d :: ds => d.gaps + gapsAll ds

theorem gapsAll_append (ds es : List Declaration) :
    gapsAll (ds ++ es) = gapsAll ds + gapsAll es := by
  induction ds with
  | nil => exact (Nat.zero_add _).symm
  | cons d ds ih => rw [List.cons_append, gapsAll, ih, gapsAll, Nat.add_assoc]

theorem gapsAll_of_settled {ds : List Declaration} (h : ∀ d ∈ ds, d.Settled) :
    gapsAll ds = 0 := by
  induction ds with
  | nil => rfl
  | cons d ds ih =>
    rw [List.forall_mem_cons] at h
    rw [gapsAll, gaps_of_settled h.1, ih h.2]

/-- Each declaration on lines of its own. -/
def lines (indent : Indent) (ds : List Declaration) : List Char :=
  ds.flatMap fun d => d.text indent ++ ['\n']

section

variable {ds es : List Declaration} (h : List.Forall₂ ReadAs ds es)
include h

theorem widened_lines (indent : Indent) :
    Widened (gapsAll ds) (lines indent ds) (lines indent es) := by
  induction h with
  | nil => exact .nil
  | cons hd _ ih => exact ((hd.text indent).suffixed ['\n']).append ih

theorem settled_of_readAs (hgaps : gapsAll ds = 0) : ∀ d ∈ ds, d.Settled := by
  induction h with
  | nil => exact nofun
  | cons hd _ ih =>
    rw [gapsAll, Nat.add_eq_zero_iff] at hgaps
    exact List.forall_mem_cons.mpr ⟨hd.settled hgaps.1, ih hgaps.2⟩

end

/-! ### Counting tokens -/

theorem length_printed {d : Declaration} (h : d.Legible) :
    d.printed.length ≤ d.kinds.length ∧
      (d.printed.length = d.kinds.length → d.QuoteFree) := by
  cases d with
  | version _ | debugMode _ | importPath _ => exact ⟨Nat.le_refl _, fun _ => trivial⟩
  | definition d =>
    obtain ⟨hle, hfree⟩ := d.value.length_printed 0
    have hnone : (apostrophes 0).length = 0 := rfl
    simp only [printed, printedInner, kinds, inner, List.length_cons, List.length_append,
      List.length_nil]
    exact ⟨by omega, fun heq => hfree (by omega)⟩
  | rule r =>
    obtain ⟨hle, hfree⟩ := Filter.length_printedAll h.2
    simp only [printed, printedInner, kinds, inner, List.length_cons, List.length_append,
      List.length_map, List.length_nil]
    exact ⟨by omega, fun heq => hfree (by omega)⟩

theorem length_printedAll {ds : List Declaration} (h : ∀ d ∈ ds, d.Legible) :
    (ds.flatMap printed).length ≤ (ds.flatMap kinds).length ∧
      ((ds.flatMap printed).length = (ds.flatMap kinds).length → ∀ d ∈ ds, d.QuoteFree) := by
  induction ds with
  | nil => exact ⟨Nat.le_refl 0, fun _ => nofun⟩
  | cons d ds ih =>
    rw [List.forall_mem_cons] at h
    obtain ⟨hle, hfree⟩ := length_printed h.1
    obtain ⟨hle', hfree'⟩ := ih h.2
    rw [List.flatMap_cons, List.flatMap_cons, List.length_append, List.length_append,
      List.forall_mem_cons]
    exact ⟨by omega, fun heq => ⟨hfree (by omega), hfree' (by omega)⟩⟩

/-! ### Settled declarations are read as declarations -/

/-- A declaration that can be read back and has the tokens that another one is printed as. -/
structure Respelling (d e : Declaration) : Prop where
  legible : e.Legible
  plain : e.Plain
  quoteFree : e.QuoteFree
  depth : e.depth ≤ d.depth
  printed : e.printed = d.printed

theorem exists_respelling_definition {d : Definition} (hd : (definition d).Legible)
    (h : (definition d).Settled) :
    ∃ e : Definition, Respelling (.definition d) (.definition e) := by
  obtain ⟨name, x⟩ := d
  obtain ⟨y, hy⟩ := Node.exists_respelled 0 x ((Node.gaps_eq_zero_iff x).mpr h)
  have hlegible := Node.legible_respelled 0 hd.2
  have hfree := Node.quoteFree_respelled 0 x
  have hdepth := Node.depth_respelled 0 x
  have hkinds := Node.kindsAll_respelled 0 x
  rw [hy] at hlegible hfree hdepth hkinds
  have hprinted : y.printed 0 = x.printed 0 := by
    rw [Node.printed_eq_kinds y hfree.1, ← hkinds]
    exact (List.append_nil _).symm
  refine ⟨⟨name, y⟩, ⟨hd.1, hlegible.1⟩, trivial, hfree.1,
    Nat.le_trans (Nat.le_max_left _ _) hdepth, ?_⟩
  rw [printed, printedInner, hprinted]
  rfl

theorem exists_respelling_rule {r : Rule} (hr : (rule r).Legible) (hp : (rule r).Plain)
    (h : (rule r).Settled) : ∃ s : Rule, Respelling (.rule r) (.rule s) := by
  obtain ⟨action, names, fs⟩ := r
  obtain ⟨gs, hgs⟩ := Filter.exists_respellings hr.2 hp h
  refine ⟨⟨action, names, gs⟩, ⟨hr.1, hgs.legible⟩, hgs.plain, hgs.quoteFree, hgs.depth, ?_⟩
  rw [printed, printedInner, hgs.printed]
  rfl

theorem exists_respellings {α : Type} (declare : α → Declaration) {xs : List α}
    (h : ∀ x ∈ xs, ∃ y, Respelling (declare x) (declare y)) :
    ∃ ys : List α, List.Forall₂ Respelling (xs.map declare) (ys.map declare) := by
  induction xs with
  | nil => exact ⟨[], .nil⟩
  | cons x xs ih =>
    rw [List.forall_mem_cons] at h
    obtain ⟨y, hy⟩ := h.1
    obtain ⟨ys, hys⟩ := ih h.2
    exact ⟨y :: ys, .cons hy hys⟩

theorem exists_of_mem_respellings {ds es : List Declaration} (h : List.Forall₂ Respelling ds es) :
    ∀ e ∈ es, ∃ d ∈ ds, Respelling d e := by
  induction h with
  | nil => exact nofun
  | cons hd _ ih =>
    refine List.forall_mem_cons.mpr ⟨⟨_, List.mem_cons_self, hd⟩, fun e he => ?_⟩
    obtain ⟨d, hmem, hd⟩ := ih e he
    exact ⟨d, List.mem_cons_of_mem _ hmem, hd⟩

theorem printed_of_respellings {ds es : List Declaration} (h : List.Forall₂ Respelling ds es) :
    es.flatMap Declaration.printed = ds.flatMap Declaration.printed := by
  induction h with
  | nil => rfl
  | cons hd _ ih => rw [List.flatMap_cons, List.flatMap_cons, hd.printed, ih]

end Declaration

/-! ### Profiles -/

namespace Profile

variable {p q : Profile}

/-- Whether each quotation in a profile is one of a symbol or an integer, or of such a quotation,
and an expression among the filters begins with a quotation only if just one more item follows. -/
def Settled (p : Profile) : Prop := ∀ d ∈ p.declarations, d.Settled

theorem filter_front (p : Profile) : p.declarations.filter (!·.isRule) = p.front := by
  obtain ⟨version, debugMode, imports, definitions, rules⟩ := p
  cases version <;> cases debugMode <;>
    simp [declarations, front, Declaration.isRule, List.filter_map, Function.comp_def]

theorem filter_rules (p : Profile) :
    p.declarations.filter (·.isRule) = p.rules.map .rule := by
  obtain ⟨version, debugMode, imports, definitions, rules⟩ := p
  cases version <;> cases debugMode <;>
    simp [declarations, front, Declaration.isRule, List.filter_map, Function.comp_def]

theorem hasDeclarations_eq (p : Profile) : p.hasDeclarations = !p.front.isEmpty := by
  obtain ⟨version, debugMode, imports, definitions, rules⟩ := p
  cases version <;> cases debugMode <;> cases imports <;> cases definitions <;> rfl

/-- The text of a profile in terms of its declarations. -/
theorem layout_eq (indent : Indent) (p : Profile) :
    p.layout indent = Declaration.lines indent p.front ++
      (if !p.front.isEmpty && !(p.rules.map Declaration.rule).isEmpty then ['\n'] else []) ++
      Declaration.lines indent (p.rules.map .rule) := by
  rw [layout, declarationLines_eq indent, List.flatMap_map, hasDeclarations_eq, List.isEmpty_map,
    Declaration.lines, Declaration.lines, List.flatMap_map]
  rfl

theorem isEmpty_of_readAs {ds es : List Declaration} (h : List.Forall₂ Declaration.ReadAs ds es) :
    es.isEmpty = ds.isEmpty := by
  cases h <;> rfl

/-- The text of a profile read again is the text that was read with blanks put in. -/
theorem widened_layout (indent : Indent)
    (h : List.Forall₂ Declaration.ReadAs p.declarations q.declarations) :
    Widened (Declaration.gapsAll p.declarations) (p.layout indent) (q.layout indent) := by
  have hfront : List.Forall₂ Declaration.ReadAs p.front q.front := by
    rw [← filter_front, ← filter_front]
    refine List.rel_filter (fun _ _ hd => Iff.of_eq ?_) h
    exact congrArg (fun b => (!b) = true) hd.isRule.symm
  have hrules : List.Forall₂ Declaration.ReadAs (p.rules.map .rule) (q.rules.map .rule) := by
    rw [← filter_rules, ← filter_rules]
    refine List.rel_filter (fun _ _ hd => Iff.of_eq ?_) h
    exact congrArg (· = true) hd.isRule.symm
  rw [layout_eq, layout_eq, isEmpty_of_readAs hfront, isEmpty_of_readAs hrules, declarations,
    Declaration.gapsAll_append]
  exact ((Declaration.widened_lines hfront indent).suffixed _).append
    (Declaration.widened_lines hrules indent)

/-- A settled profile has the tokens of a profile without quotations. -/
theorem exists_respelling (hl : p.Legible) (hp : p.Plain) (h : p.Settled) :
    ∃ q : Profile, List.Forall₂ Declaration.Respelling p.declarations q.declarations := by
  obtain ⟨version, debugMode, imports, definitions, rules⟩ := p
  have hself {d : Declaration} (hlegible : d.Legible) (hplain : d.Plain) (hfree : d.QuoteFree) :
      Declaration.Respelling d d := ⟨hlegible, hplain, hfree, Nat.le_refl _, rfl⟩
  simp only [Legible, Plain, Settled, declarations, front, List.forall_mem_append,
    List.forall_mem_map] at hl hp h
  obtain ⟨definitions', hdefinitions⟩ := Declaration.exists_respellings .definition
    fun d hd => Declaration.exists_respelling_definition (hl.1.2 d hd) (h.1.2 d hd)
  obtain ⟨rules', hrules⟩ := Declaration.exists_respellings .rule
    fun r hr => Declaration.exists_respelling_rule (hl.2 r hr) (hp.2 r hr) (h.2 r hr)
  refine ⟨⟨version, debugMode, imports, definitions', rules'⟩, ?_⟩
  refine List.rel_append (List.rel_append ?_ hdefinitions) hrules
  refine List.forall₂_same.mpr ?_
  simp only [List.forall_mem_append, List.forall_mem_map]
  exact ⟨⟨fun _ _ => hself trivial trivial trivial, fun _ _ => hself trivial trivial trivial⟩,
    fun _ _ => hself trivial trivial trivial⟩

theorem shallow_of_respellings {limit : Nat} (hp : p.Shallow limit)
    (h : List.Forall₂ Declaration.Respelling p.declarations q.declarations) : q.Shallow limit := by
  intro e he
  obtain ⟨d, hd, hread⟩ := Declaration.exists_of_mem_respellings h e he
  exact Nat.le_trans hread.depth (hp d hd)

/-- A profile read from a printed text that is printed as this text again leaves out none of its
tokens. -/
theorem quoteFree_of_fixed {limit : Nat} {indent : Indent} (hp : p.Legible)
    (hclean : (SandboxProfile.Profile.read limit (p.source indent)).hasErrors = false)
    (hq : ofTree (SandboxProfile.Profile.read limit (p.source indent)).profile = q)
    (hfixed : q.source indent = p.source indent) :
    q.Legible ∧ q.QuoteFree ∧ q.Plain ∧ q.printed = p.printed := by
  have hlegible : q.Legible := hq ▸ (SandboxProfile.Profile.legible_of_clean hclean).1
  have hchars := ofChars_printed indent (named_of_legible hp)
  have hchars' := ofChars_printed indent (named_of_legible hlegible)
  rw [hfixed, hchars] at hchars'
  have hprinted : p.printed = q.printed := congrArg Lexed.kinds hchars'
  obtain ⟨-, fs, hfs, -, hdepth⟩ :=
    (SandboxProfile.Profile.hasErrors_iff_derives limit _).mp hclean
  have hwire : q = ofDeclarations (Grammar.declarations fs) := by
    rw [← hq, SandboxProfile.Profile.wire_of_derives hfs hdepth]
    rfl
  rw [hchars] at hfs
  have hlength : q.printed.length = (Grammar.kinds fs).length := by rw [← hprinted, ← hfs]
  have hforms := (Grammar.length_declarations fs).1
  have hdeclared : q.kinds.length ≤ _ := hwire ▸ length_ofDeclarations_le _
  obtain ⟨hle, hfree⟩ := Declaration.length_printedAll hlegible
  change q.printed.length ≤ q.kinds.length at hle
  have hquote : q.QuoteFree := hfree (show q.printed.length = q.kinds.length by omega)
  refine ⟨hlegible, hquote, ?_, hprinted.symm⟩
  refine SandboxProfile.Profile.plain_of_kinds hclean ?_ hq
  rw [hchars, hprinted, printed_eq_kinds hlegible hquote]

/-- The text of a profile is read and printed as it is exactly if the profile is settled. -/
theorem fixed_iff_settled {limit : Nat} (hl : p.Legible) (hp : p.Plain) (hs : p.Shallow limit)
    (indent : Indent) :
    ((SandboxProfile.Profile.read limit (p.source indent)).hasErrors = false ∧
        (ofTree (SandboxProfile.Profile.read limit (p.source indent)).profile).source indent =
          p.source indent) ↔ p.Settled := by
  constructor
  · rintro ⟨hclean, hfixed⟩
    obtain ⟨hlegible, hquote, hplain, hprinted⟩ := quoteFree_of_fixed hl hclean rfl hfixed
    have hread := Declaration.forall₂_readAs hl hp hlegible hplain hquote hprinted
    have hlength := (widened_layout indent hread).length
    rw [String.ofList_injective hfixed] at hlength
    exact Declaration.settled_of_readAs hread (by omega)
  · intro hsettled
    obtain ⟨q, hq⟩ := exists_respelling hl hp hsettled
    have hall {P : Declaration → Prop} (hP : ∀ d e, Declaration.Respelling d e → P e) :
        ∀ e ∈ q.declarations, P e := by
      intro e he
      obtain ⟨d, -, hd⟩ := Declaration.exists_of_mem_respellings hq e he
      exact hP d e hd
    have hlegible : q.Legible := hall fun _ _ h => h.legible
    have hplain : q.Plain := hall fun _ _ h => h.plain
    have hquote : q.QuoteFree := hall fun _ _ h => h.quoteFree
    have hread := Declaration.forall₂_readAs hl hp hlegible hplain hquote
      (Declaration.printed_of_respellings hq)
    have hsame : p.source indent = q.source indent := congrArg String.ofList
      ((widened_layout indent hread).eq_of_zero (Declaration.gapsAll_of_settled hsettled))
    obtain ⟨hclean, hprofile⟩ :=
      read_printed hlegible hquote hplain (shallow_of_respellings hs hq) indent
    rw [hsame, hprofile]
    exact ⟨hclean, rfl⟩

end Profile

end Wire

namespace Profile

/-- What is formatted of a text without an error stays as it is, and without an error, when it is
formatted once more, exactly if apostrophes were printed in front of symbols and integers only, and
first in an expression among the filters only where one more item follows. -/
theorem format_settles_iff (text : String) (indent : Indent)
    (hclean : (ofText text).hasErrors = false)
    (hplain : (Wire.Profile.ofTree (ofText text).profile).Plain) :
    ((ofText (format indent text).1).hasErrors = false ∧
        (format indent (format indent text).1).1 = (format indent text).1) ↔
      (Wire.Profile.ofTree (ofText text).profile).Settled := by
  obtain ⟨hlegible, hshallow⟩ := legible_of_clean hclean
  exact Wire.Profile.fixed_iff_settled hlegible hplain hshallow indent

theorem format_settles_quoted :
    (ofText "(allow (path (quote x)))").hasErrors = false ∧
      (format .tabs (format .tabs "(allow (path (quote x)))").1).1 =
        (format .tabs "(allow (path (quote x)))").1 := by
  have hclean : (ofText "(allow (path (quote x)))").hasErrors = false := by decide +kernel
  have hwire : Wire.Profile.ofTree (ofText "(allow (path (quote x)))").profile =
      ⟨none, none, [], [],
        [⟨.allow, [], [.ofValue "path" (.list [.symbol "quote", .symbol "x"])]⟩]⟩ := by
    decide +kernel
  have hplain : (Wire.Profile.ofTree (ofText "(allow (path (quote x)))").profile).Plain := by
    rw [hwire]
    exact List.forall_mem_singleton.mpr ⟨nofun, trivial⟩
  have hsettled : (Wire.Profile.ofTree (ofText "(allow (path (quote x)))").profile).Settled := by
    rw [hwire]
    refine List.forall_mem_singleton.mpr ⟨?_, trivial⟩
    rintro _ ⟨⟩
    exact ⟨Wire.Node.settled_of_isGlued _ rfl, nofun⟩
  have hsettles := (format_settles_iff "(allow (path (quote x)))" .tabs hclean hplain).mpr hsettled
  exact ⟨hclean, hsettles.2⟩

/-- An apostrophe in front of a list is read as a value of its own, and a definition has only one.
-/
theorem format_breaks_quotation :
    (ofText "(define a (quote (b)))").hasErrors = false ∧
      (ofText (format .usual "(define a (quote (b)))").1).hasErrors = true := by
  decide +kernel

/-- Where more than one value may stand, a blank comes in between. -/
example : (format .usual (format .usual "(define a (x (quote (b))))").1).1 =
    "(define a (x \x27 (b)))\n" := by
  decide +kernel

end Profile

end SandboxProfile
