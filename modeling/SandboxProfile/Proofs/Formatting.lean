import SandboxProfile.Layout.Format
import SandboxProfile.Proofs.DerivedModel

/-!
# What formatting keeps

A text without an error and without quotations means the same after it was formatted exactly if
every filter of type `expression` in it holds a list that does not begin with a symbol. Another
value of a filter that a text itself calls `expression` is printed without the type, and is read as
an operation, as a filter of another type, or not at all.
-/

namespace SandboxProfile.Profile

variable {text : String}

/-- What a text without an error declares is legible and does not nest too deep. -/
theorem legible_of_clean {limit : Nat} (h : (read limit text).hasErrors = false) :
    (Wire.Profile.ofTree (read limit text).profile).Legible ∧
      (Wire.Profile.ofTree (read limit text).profile).Shallow limit := by
  obtain ⟨-, fs, hkinds, -, hdepth⟩ := (hasErrors_iff_derives limit text).mp h
  have hsymbols := symbolsLegible_ofChars text.toList
  rw [hkinds] at hsymbols
  rw [wire_of_derives hkinds hdepth]
  constructor
  · intro d hd
    exact Grammar.legible_declarations fs hsymbols d (Wire.Profile.mem_of_mem_declarations hd)
  · intro d hd
    exact Grammar.depth_declarations_le fs hdepth d (Wire.Profile.mem_of_mem_declarations hd)

/-- A profile that has all the tokens of a text it is read from holds no spelled-out expression. -/
theorem plain_of_kinds {limit : Nat} {p : Wire.Profile} (h : (read limit text).hasErrors = false)
    (hkinds : (Lexed.ofChars text.toList).kinds = p.kinds)
    (hp : Wire.Profile.ofTree (read limit text).profile = p) : p.Plain := by
  obtain ⟨-, fs, hfs, -, hdepth⟩ := (hasErrors_iff_derives limit text).mp h
  have hwire : p = .ofDeclarations (Grammar.declarations fs) := by
    rw [← hp, wire_of_derives hfs hdepth]
    rfl
  obtain ⟨hle, hplain⟩ := Grammar.length_declarations fs
  have hlength : p.kinds.length = (Grammar.kinds fs).length := by rw [← hkinds, hfs]
  have hless := Wire.Profile.length_ofDeclarations_le (Grammar.declarations fs)
  rw [← hwire] at hless
  intro d hd
  rw [hwire] at hd
  exact hplain (by omega) d (Wire.Profile.mem_of_mem_declarations hd)

/-- Formatting keeps the meaning of a text without an error and without quotations, at any
indentation, exactly if no filter of type `expression` holds anything but a list that does not begin
with a symbol. -/
theorem format_keeps_iff (text : String) (indent : Indent)
    (hclean : (ofText text).hasErrors = false)
    (hquote : (Wire.Profile.ofTree (ofText text).profile).QuoteFree) :
    ((ofText (format indent text).1).hasErrors = false ∧
        Wire.Profile.ofTree (ofText (format indent text).1).profile =
          Wire.Profile.ofTree (ofText text).profile) ↔
      (Wire.Profile.ofTree (ofText text).profile).Plain := by
  obtain ⟨hlegible, hshallow⟩ := legible_of_clean hclean
  have hchars := Wire.Profile.ofChars_source indent hlegible hquote
  constructor
  · rintro ⟨herrors, hsame⟩
    exact plain_of_kinds herrors (congrArg Lexed.kinds hchars) hsame
  · intro hplain
    exact Wire.Profile.read_printed hlegible hquote hplain hshallow indent

theorem format_keeps_path :
    (ofText "(allow (path 1))").hasErrors = false ∧
      Wire.Profile.ofTree (ofText (format .tabs "(allow (path 1))").1).profile =
        Wire.Profile.ofTree (ofText "(allow (path 1))").profile := by
  have hclean : (ofText "(allow (path 1))").hasErrors = false := by decide +kernel
  have hwire : Wire.Profile.ofTree (ofText "(allow (path 1))").profile =
      ⟨none, none, [], [], [⟨.allow, [], [.ofValue "path" (.integer 1)]⟩]⟩ := by
    decide +kernel
  have hquote : (Wire.Profile.ofTree (ofText "(allow (path 1))").profile).QuoteFree := by
    rw [hwire]
    refine List.forall_mem_singleton.mpr ⟨?_, trivial⟩
    rintro _ ⟨⟩
    rfl
  have hplain : (Wire.Profile.ofTree (ofText "(allow (path 1))").profile).Plain := by
    rw [hwire]
    exact List.forall_mem_singleton.mpr ⟨nofun, trivial⟩
  exact ⟨hclean, ((format_keeps_iff "(allow (path 1))" .tabs hclean hquote).mpr hplain).2⟩

/-- A filter that a text calls `expression` is printed as its value, here as an operation. -/
theorem format_changes_expression :
    (ofText "(allow (expression file-read))").hasErrors = false ∧
      (Wire.Profile.ofTree (ofText "(allow (expression file-read))").profile).QuoteFree ∧
      Wire.Profile.ofTree
          (ofText (format .usual "(allow (expression file-read))").1).profile ≠
        Wire.Profile.ofTree (ofText "(allow (expression file-read))").profile := by
  have hwire : Wire.Profile.ofTree (ofText "(allow (expression file-read))").profile =
      ⟨none, none, [], [], [⟨.allow, [], [.ofValue "expression" (.symbol "file-read")]⟩]⟩ := by
    decide +kernel
  refine ⟨by decide +kernel, ?_, by decide +kernel⟩
  rw [hwire]
  refine List.forall_mem_singleton.mpr ⟨?_, trivial⟩
  rintro _ ⟨⟩
  rfl

end SandboxProfile.Profile
