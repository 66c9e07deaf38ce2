import SandboxProfile.Layout.Format
import SandboxProfile.Proofs.CommentNesting
import SandboxProfile.Proofs.LineBreaks
import SandboxProfile.Proofs.ReadKinds

/-!
# Indentation

Spaces and tabs behind a line feed say nothing, whatever stands in front of it: no literal and no
symbol reaches over a line feed, and a comment that does holds them as it holds anything else
(`Lexed.ofChars_indents`). Printing puts indentation nowhere else, so profiles that are printed with
different indentation are read the same, whatever their names and strings hold
(`Wire.Profile.indent_keeps`).
-/

namespace SandboxProfile

/-! ### Comments -/

namespace Comment

/-- What a comment held so far decides neither whether it is closed nor what follows. -/
theorem scanFrom_before (inner : Nat) (before before' cs : List Char) :
    (scanFrom inner before' cs).closed = (scanFrom inner before cs).closed ∧
      (scanFrom inner before' cs).rest = (scanFrom inner before cs).rest := by
  fun_induction scanFrom inner before cs generalizing before' with
  | case1 before cs => exact ⟨rfl, rfl⟩
  | case2 before cs inner ih => exact ih _
  | case3 inner before cs ih => exact ih _
  | case4 inner before c cs hclose hopen ih =>
    rw [scanFrom]
    · exact ih _
    · exact hclose
    · exact hopen
  | case5 inner before => exact ⟨rfl, rfl⟩

/-- A comment that is open at a line feed goes on behind it in the same way, whatever follows. -/
theorem exists_scanFrom_lineFeed {inner : Nat} {before cs : List Char}
    (h : (scanFrom inner before cs).closed = false) : ∃ inner' before', ∀ ds,
      scanFrom inner before (cs ++ '\n' :: ds) = scanFrom inner' before' ds := by
  fun_induction scanFrom inner before cs with
  | case1 before cs => cases h
  | case2 before cs inner ih => exact ih h
  | case3 inner before cs ih => exact ih h
  | case4 inner before c cs hclose hopen ih =>
    obtain ⟨inner', before', hscan⟩ := ih h
    refine ⟨inner', before', fun ds => ?_⟩
    rw [← hscan ds, List.cons_append, scanFrom]
    · intro ds' hc hds
      cases cs with
      | nil => cases hds
      | cons d cs => exact hclose cs hc (by simp_all)
    · intro ds' hc hds
      cases cs with
      | nil => cases hds
      | cons d cs => exact hopen cs hc (by simp_all)
  | case5 inner before =>
    refine ⟨inner, '\n' :: before, fun ds => ?_⟩
    rw [List.nil_append, scanFrom] <;> simp

end Comment

/-- Only a block comment is left open. -/
theorem Piece.exists_comment_of_open {cs : List Char} {s : Scanned} (h : scan? cs = some s)
    (hs : s.closed = false) :
    ∃ rest, cs = '#' :: '|' :: rest ∧ (Comment.scan rest).closed = false := by
  unfold scan? at h
  split at h
  · cases h
  split at h
  · cases h; cases hs
  split at h
  · cases h; cases hs
  split at h
  · cases h; cases hs
  split at h
  · split at h <;> cases h <;> cases hs
  split at h
  · cases h; cases hs
  split at h
  next hhash =>
    split at h
    next rest =>
      cases h
      exact ⟨rest, by rw [hhash], hs⟩
    · cases h
  · cases h

/-! ### Blanks behind line feeds -/

/-- Whether a run holds nothing but spaces and tabs. -/
def Blank (cs : List Char) : Prop := ∀ c ∈ cs, c = ' ' ∨ c = '\t'

/-- Whether the second text is the first with blanks put in behind some of its line feeds. -/
inductive Indents : (flush indented : List Char) → Prop
  | nil : Indents [] []
  | cons (c : Char) {cs ds : List Char} : Indents cs ds → Indents (c :: cs) (c :: ds)
  | lineFeed {blanks cs ds : List Char} (blank : Blank blanks) :
      Indents cs ds → Indents ('\n' :: cs) ('\n' :: (blanks ++ ds))

namespace Lexed

theorem ofChars_blanks {blanks : List Char} (h : Blank blanks) (ds : List Char) :
    ofChars (blanks ++ ds) = ofChars ds := by
  induction blanks with
  | nil => rfl
  | cons c blanks ih =>
    obtain ⟨hc, hblanks⟩ := List.forall_mem_cons.mp h
    rw [List.cons_append]
    rcases hc with rfl | rfl
    · rw [ofChars_space, ih hblanks]
    · rw [ofChars_tab, ih hblanks]

theorem ofChars_comment (cs : List Char) :
    ofChars ('#' :: '|' :: cs) = if (Comment.scan cs).closed then ofChars (Comment.scan cs).rest
      else ⟨[], [.unterminatedBlockComment]⟩ := by
  have hpiece : Piece.scan? ('#' :: '|' :: cs) =
      some ⟨.blockComment (String.ofList (Comment.scan cs).text), (Comment.scan cs).closed,
        (Comment.scan cs).rest⟩ := rfl
  cases hclosed : (Comment.scan cs).closed with
  | true => exact ofChars_of_piece hpiece hclosed
  | false => exact ofChars_of_open hpiece hclosed

/-- A comment that is open at a line feed is closed at the same place behind blanks. -/
theorem ofChars_comment_blanks {cs : List Char} (h : (Comment.scan cs).closed = false)
    {blanks : List Char} (hblanks : Blank blanks) (ds : List Char) :
    ofChars ('#' :: '|' :: (cs ++ '\n' :: (blanks ++ ds))) =
      ofChars ('#' :: '|' :: (cs ++ '\n' :: ds)) := by
  have hplain : ∀ c ∈ blanks, c ≠ '#' ∧ c ≠ '|' := by
    intro c hc
    rcases hblanks c hc with rfl | rfl <;> decide
  obtain ⟨inner, before, hscan⟩ := Comment.exists_scanFrom_lineFeed h
  obtain ⟨hclosed, hrest⟩ := Comment.scanFrom_before inner before (blanks.reverse ++ before) ds
  rw [ofChars_comment, ofChars_comment, Comment.scan, Comment.scan, hscan, hscan,
    Comment.scanFrom_plain hplain, hclosed, hrest]

/-- Blanks behind a line feed say nothing. -/
theorem ofChars_lineFeed_blanks {blanks : List Char} (hblanks : Blank blanks) (cs ds : List Char) :
    ofChars (cs ++ '\n' :: (blanks ++ ds)) = ofChars (cs ++ '\n' :: ds) := by
  fun_induction ofChars cs with
  | case1 cs s hs hclosed ih =>
    rw [ofChars_piece_lineFeed hs hclosed, ofChars_piece_lineFeed hs hclosed, ih]
  | case2 cs s hs hopen =>
    obtain ⟨rest, rfl, hrest⟩ := Piece.exists_comment_of_open hs (by simpa using hopen)
    exact ofChars_comment_blanks hrest hblanks ds
  | case3 hs =>
    rw [List.nil_append, List.nil_append, ofChars_lineFeed, ofChars_lineFeed,
      ofChars_blanks hblanks]
  | case4 c cs hs ih =>
    have hlexeme (es : List Char) : ofChars (c :: cs ++ '\n' :: es) =
        cons ((Lexeme.scan (c :: cs)).before '\n' es)
          (ofChars ((Lexeme.scan (c :: cs)).rest ++ '\n' :: es)) := by
      rw [List.cons_append, ofChars_of_lexeme (Piece.scan?_break rfl hs es),
        Lexeme.scan_break rfl]
      rfl
    rw [hlexeme, hlexeme, ih]
    rfl

/-- A text says the same with its lines indented. -/
theorem ofChars_indents {cs ds : List Char} (h : Indents cs ds) (before : List Char) :
    ofChars (before ++ ds) = ofChars (before ++ cs) := by
  induction h generalizing before with
  | nil => rfl
  | cons c h ih =>
    rw [List.append_cons, ih, ← List.append_cons]
  | lineFeed blank h ih =>
    rw [ofChars_lineFeed_blanks blank, List.append_cons, ih, ← List.append_cons]

end Lexed

/-! ### Printed profiles -/

namespace Indents

theorem refl (cs : List Char) : Indents cs cs := by
  induction cs with
  | nil => exact .nil
  | cons c cs ih => exact .cons c ih

theorem append {cs ds cs' ds' : List Char} (h : Indents cs ds) (h' : Indents cs' ds') :
    Indents (cs ++ cs') (ds ++ ds') := by
  induction h with
  | nil => exact h'
  | cons c h ih => exact .cons c ih
  | lineFeed blank h ih =>
    rw [List.cons_append, List.cons_append, List.append_assoc]
    exact .lineFeed blank ih

theorem flatMap {α : Type} {f g : α → List Char} {xs : List α} (h : ∀ x ∈ xs, Indents (f x) (g x)) :
    Indents (xs.flatMap f) (xs.flatMap g) := by
  induction xs with
  | nil => exact .nil
  | cons x xs ih =>
    obtain ⟨hx, hxs⟩ := List.forall_mem_cons.mp h
    rw [List.flatMap_cons, List.flatMap_cons]
    exact hx.append (ih hxs)

end Indents

namespace Indent

/-- No indentation at all. -/
def flush : Indent := spaces 0

theorem atLevel_flush (level : Nat) : flush.atLevel level = [] := by
  simp [atLevel, flush, unit]

theorem blank_atLevel (indent : Indent) (level : Nat) : Blank (indent.atLevel level) := by
  intro c hc
  obtain ⟨unit, hunit, hmem⟩ := List.mem_flatten.mp hc
  rw [List.eq_of_mem_replicate hunit] at hmem
  cases indent with
  | spaces width => exact .inl (List.eq_of_mem_replicate hmem)
  | tabs => exact .inr (List.mem_singleton.mp hmem)

theorem indents_line (indent : Indent) (level : Nat) {cs ds : List Char} (h : Indents cs ds) :
    Indents (flush.line level cs) (indent.line level ds) := by
  rw [line, line, atLevel_flush]
  exact .lineFeed (blank_atLevel indent level) h

end Indent

namespace Wire

open Indent (flush)

namespace Filter

/-- Only a compound filter has lines of its own. -/
theorem layout_of_not_compound {f : Filter} (h : f.isCompound = false) (indent : Indent)
    (level : Nat) : f.layout indent level = f.inline := by
  obtain ⟨type, value, filters⟩ := f
  cases filters with
  | none => rfl
  | some parts =>
    have htype : ¬ (CompoundKind.ofText? type).isSome = true := Bool.eq_false_iff.mp h
    rw [layout, if_neg htype, inline]

mutual

theorem indents_layout (indent : Indent) : ∀ (level : Nat) (f : Filter),
    Indents (f.layout flush level) (f.layout indent level)
  | level, ⟨type, value, none⟩ => .refl _
  | level, ⟨type, value, some parts⟩ => by
    rw [layout, layout]
    split
    · exact .cons '(' (((Indents.refl type.toList).append
        (indents_lines indent (level + 1) parts)).append (.refl [')']))
    · exact .refl _

theorem indents_lines (indent : Indent) : ∀ (level : Nat) (fs : List Filter),
    Indents ((layoutAll flush level fs).flatMap (flush.line level))
      ((layoutAll indent level fs).flatMap (indent.line level))
  | _, [] => .nil
  | level, f :: fs => by
    rw [layoutAll, layoutAll, List.flatMap_cons, List.flatMap_cons]
    exact (Indent.indents_line indent level (indents_layout indent level f)).append
      (indents_lines indent level fs)

end

end Filter

/-- Whether a filter stands behind its rule does not depend on the indentation. -/
theorem Rule.indents_body (indent : Indent) (filters : List Filter) :
    Indents (body flush filters) (body indent filters) := by
  have hlines := Filter.indents_lines indent 1 filters
  unfold body
  split
  next only =>
    cases hcompound : only.isCompound with
    | true => exact hlines
    | false =>
      rw [Filter.layout_of_not_compound hcompound, Filter.layout_of_not_compound hcompound]
      dsimp only
      split
      · exact .refl _
      · exact hlines
  · exact hlines

theorem Rule.indents_layout (indent : Indent) (r : Rule) :
    Indents (r.layout flush) (r.layout indent) :=
  ((Indents.refl _).append (indents_body indent r.filters)).append (.refl _)

namespace Profile

theorem indents_layout (indent : Indent) (p : Profile) :
    Indents (p.layout flush) (p.layout indent) :=
  (Indents.refl _).append (Indents.flatMap fun r _ => (r.indents_layout indent).append (.refl _))

/-- A printed profile says the same with any indentation. -/
theorem ofChars_source_flush (indent : Indent) (p : Profile) :
    Lexed.ofChars (p.source indent).toList = Lexed.ofChars (p.source flush).toList := by
  rw [source, source, String.toList_ofList, String.toList_ofList]
  exact Lexed.ofChars_indents (p.indents_layout indent) []

/-- The indentation of a printed profile is only whitespace, whatever its names, types, symbols and
strings are: the same tokens are found with any other, the same profile is read at any limit, and
an error is found in both or in none. -/
theorem indent_keeps (p : Profile) (i j : Indent) :
    (tokenize (p.source i)).1.map Token.kind = (tokenize (p.source j)).1.map Token.kind ∧
      ∀ limit, ofTree (SandboxProfile.Profile.read limit (p.source i)).profile =
          ofTree (SandboxProfile.Profile.read limit (p.source j)).profile ∧
        (SandboxProfile.Profile.read limit (p.source i)).hasErrors =
          (SandboxProfile.Profile.read limit (p.source j)).hasErrors := by
  have hsame : Lexed.ofChars (p.source i).toList = Lexed.ofChars (p.source j).toList :=
    (p.ofChars_source_flush i).trans (p.ofChars_source_flush j).symm
  constructor
  · rw [kinds_tokenize, kinds_tokenize, hsame]
  · intro limit
    have hfalse : (SandboxProfile.Profile.read limit (p.source i)).hasErrors = false ↔
        (SandboxProfile.Profile.read limit (p.source j)).hasErrors = false := by
      rw [SandboxProfile.Profile.hasErrors_read, SandboxProfile.Profile.hasErrors_read, hsame]
    rw [SandboxProfile.Profile.wire_read, SandboxProfile.Profile.wire_read, hsame]
    exact ⟨rfl, Bool.eq_iff_iff.mpr (by simpa using not_congr hfalse)⟩

end Profile

end Wire

end SandboxProfile
