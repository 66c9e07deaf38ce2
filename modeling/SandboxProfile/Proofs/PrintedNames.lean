import SandboxProfile.Proofs.PrintedForms
import SandboxProfile.Proofs.WireText

/-!
# Names in printed profiles

Names are printed as they are. As long as all of them are symbols, a printed profile is read with as
many imports, definitions and rules as it has and with the actions they have; the operations of its
rules are the same exactly if no filter of a rule is an expression that is printed with a symbol of
its own. A name that is no symbol can close the form it stands in and open others.
-/

namespace SandboxProfile.Profile

/-- What a profile of symbols is read as from its text, if there is no error in it: the same
imports, as many definitions and rules, the same actions, and the same operations exactly if no
filter of a rule is printed as one. -/
theorem read_source_forms_iff (p : Wire.Profile) (indent : Indent) (h : p.Named)
    (hclean : (ofText (p.source indent)).hasErrors = false) :
    let q := Wire.Profile.ofTree (ofText (p.source indent)).profile
    q.imports = p.imports ∧ q.definitions.length = p.definitions.length ∧
      q.rules.map (·.action) = p.rules.map (·.action) ∧
      (q.rules.map (·.operations) = p.rules.map (·.operations) ↔
        ∀ r ∈ p.rules, ∀ f ∈ r.filters, f.isStray = false) := by
  intro q
  have houtline : q.outline Wire.Rule.operations = p.outline Wire.Rule.printedOperations :=
    outline_of_printed h hclean
  obtain ⟨-, -, himports, hdefinitions, hrules⟩ := Wire.Profile.mk.inj houtline
  have hactions := congrArg (List.map (·.action)) hrules
  have hoperations := congrArg (List.map (·.operations)) hrules
  rw [List.map_map, List.map_map] at hactions hoperations
  refine ⟨himports, ?_, hactions, ?_⟩
  · simpa using congrArg List.length hdefinitions
  · have hkept (r : Wire.Rule) : r.printedOperations = r.operations ↔
        ∀ f ∈ r.filters, f.isStray = false := by
      rw [Wire.Rule.printedOperations, List.append_right_eq_self,
        Wire.Filter.topSymbols_printedAll]
    change q.rules.map (·.operations) = p.rules.map (·.printedOperations) at hoperations
    rw [hoperations, List.map_inj_left]
    exact forall₂_congr fun r _ => hkept r

/-- A rule with an operation and two filters, of which one is printed with an apostrophe. -/
def quoting : Wire.Profile :=
  ⟨none, none, ["a.sb"], [], [⟨.allow, ["file-read*"],
    [.ofValue "path" (.string "/"),
      .ofValue Wire.expressionText (.quoted (.list [.symbol "path", .integer 1]))]⟩]⟩

theorem named_quoting : quoting.Named := by
  have hsymbol : IsSymbol "file-read*" ∧ IsSymbol "path" ∧ IsSymbol Wire.expressionText ∧
      IsSymbol "quote" := by
    unfold IsSymbol
    decide +kernel
  obtain ⟨hoperation, hpath, hexpression, hquote⟩ := hsymbol
  refine List.forall_mem_cons.mpr ⟨trivial, List.forall_mem_singleton.mpr ?_⟩
  refine ⟨List.forall_mem_singleton.mpr hoperation, ⟨hpath, ?_⟩, ⟨hexpression, ?_⟩, trivial⟩
  · rintro _ ⟨⟩
    exact nofun
  · rintro _ ⟨⟩
    refine ⟨nofun, ?_, ⟨nofun, ?_, nofun, trivial⟩, trivial⟩
    · rintro _ ⟨⟩
      exact hquote
    · rintro _ ⟨⟩
      exact hpath

theorem read_source_forms_quoting : quoting.Named ∧
    (ofText (quoting.source .usual)).hasErrors = false ∧
    (Wire.Profile.ofTree (ofText (quoting.source .usual)).profile).imports = quoting.imports ∧
    (Wire.Profile.ofTree (ofText (quoting.source .usual)).profile).rules.map (·.operations) ≠
      quoting.rules.map (·.operations) := by
  have hclean : (ofText (quoting.source .usual)).hasErrors = false := by decide +kernel
  obtain ⟨himports, -, -, hiff⟩ :=
    read_source_forms_iff quoting .usual named_quoting hclean
  refine ⟨named_quoting, hclean, himports, fun hsame => ?_⟩
  have hstray := hiff.mp hsame _ (List.mem_singleton_self _)
    (.ofValue Wire.expressionText (.quoted (.list [.symbol "path", .integer 1])))
  revert hstray
  decide

/-- A rule whose operation closes it and opens another one. -/
def crafted : Wire.Profile :=
  ⟨none, none, [], [], [⟨.deny, ["default) (allow file-write*"], []⟩]⟩

/-- A name in the wire format that holds parentheses adds a rule to the text without an error. -/
theorem crafted_adds_rule :
    let json := "\x7b\"rules\":[\x7b\"action\":\"deny\"," ++
      "\"operations\":[\"default) (allow file-write*\"]\x7d]\x7d"
    Wire.Profile.ofText json = .ok crafted ∧
      (ofText (crafted.source .usual)).hasErrors = false ∧
      (Wire.Profile.ofTree (ofText (crafted.source .usual)).profile).rules.length ≠
        crafted.rules.length := by
  intro json
  have hprint : json = crafted.print .compact := by decide +kernel
  have hreread : crafted.reread = crafted := by decide
  refine ⟨?_, by decide +kernel, by decide +kernel⟩
  rw [hprint, Wire.Profile.ofText_print .compact (by decide), hreread]

end SandboxProfile.Profile
