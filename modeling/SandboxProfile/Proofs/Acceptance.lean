import SandboxProfile.Proofs.Soundness

/-!
# Which texts are accepted

A text is read without an error exactly if its lexemes are spelled correctly and its tokens derive
from the grammar, and its profile is then the one that the derivation stands for.
-/

namespace SandboxProfile.Profile

open Reading

/-- Tokens have one meaning, whatever the derivation. -/
theorem declarations_unique {fs gs : List Grammar.Form} (h : Grammar.kinds fs = Grammar.kinds gs) :
    Grammar.declarations fs = Grammar.declarations gs := by
  have hforest : Grammar.forestAll fs = Grammar.forestAll gs := by
    rw [← Grammar.ofKinds_kinds, ← Grammar.ofKinds_kinds, h]
  have hf := steps_forestAll fs (Nat.le_max_left (Grammar.depth fs) (Grammar.depth gs))
  have hg := steps_forestAll gs (Nat.le_max_right (Grammar.depth fs) (Grammar.depth gs))
  rw [← hf.2, hforest, hg.2]

variable {limit : Nat}

theorem declared_of_derives {ks : List TokenKind} {fs : List Grammar.Form}
    (h : ks = Grammar.kinds fs) (hd : Grammar.depth fs ≤ limit) :
    (∀ s ∈ stepsOfKinds limit ks, Harmless s.notes) ∧
      Step.declared (stepsOfKinds limit ks) = Grammar.declarations fs := by
  subst h
  rw [stepsOfKinds, Grammar.ofKinds_kinds]
  exact steps_forestAll fs hd

theorem derives_of_harmless {ks : List TokenKind}
    (h : ∀ s ∈ stepsOfKinds limit ks, Harmless s.notes) :
    ∃ fs, ks = Grammar.kinds fs ∧ Grammar.depth fs ≤ limit := by
  obtain ⟨fs, hforest, hd⟩ := sound_steps (Forest.grouped_ofKinds ks) h
  refine ⟨fs, ?_, hd⟩
  rw [← Grammar.kinds_forestAll, ← hforest, Forest.kinds_ofKinds]

/-- Acceptance of a text as its lexemes have it. -/
theorem hasErrors_iff_derives (limit : Nat) (text : String) :
    (read limit text).hasErrors = false ↔
      (Lexed.ofChars text.toList).faults = [] ∧ ∃ fs : List Grammar.Form,
        (Lexed.ofChars text.toList).kinds = Grammar.kinds fs ∧
          Wire.versions (Grammar.declarations fs) ≤ 1 ∧ Grammar.depth fs ≤ limit := by
  rw [hasErrors_read]
  constructor
  · rintro ⟨hfaults, hnotes, hversions⟩
    obtain ⟨fs, hkinds, hd⟩ := derives_of_harmless hnotes
    rw [(declared_of_derives hkinds hd).2] at hversions
    exact ⟨hfaults, fs, hkinds, hversions, hd⟩
  · rintro ⟨hfaults, fs, hkinds, hversions, hd⟩
    obtain ⟨hnotes, hdeclared⟩ := declared_of_derives hkinds hd
    rw [hdeclared]
    exact ⟨hfaults, hnotes, hversions⟩

/-- The profile of a text is that of a derivation of its tokens that does not nest too deep. -/
theorem wire_of_derives {text : String} {fs : List Grammar.Form}
    (h : (Lexed.ofChars text.toList).kinds = Grammar.kinds fs) (hd : Grammar.depth fs ≤ limit) :
    Wire.Profile.ofTree (read limit text).profile = Grammar.wire fs := by
  rw [wire_read, (declared_of_derives h hd).2]
  rfl

theorem tokenize_kinds_iff {text : String} {ks : List TokenKind} :
    (tokenize text).1.map Token.kind = ks ++ [.endOfFile] ↔
      (Lexed.ofChars text.toList).kinds = ks := by
  rw [kinds_tokenize]
  exact List.append_left_inj [TokenKind.endOfFile]

theorem tokenize_faults_iff {text : String} :
    (tokenize text).2 = [] ↔ (Lexed.ofChars text.toList).faults = [] := by
  have h := erase_faults_tokenize text
  constructor
  · intro hnil
    rw [hnil] at h
    exact List.map_eq_nil_iff.mp h.symm
  · intro hnil
    rw [hnil] at h
    exact List.map_eq_nil_iff.mp h

/-- A text is read without an error exactly if the lexer has nothing to report, the tokens derive
from the grammar, at most one form is a version, and no filter or list nests too deep. The profile
is then the one read off any derivation. -/
theorem read_accepts_iff (limit : Nat) (text : String) :
    ((read limit text).hasErrors = false ↔
      (tokenize text).2 = [] ∧ ∃ forms : List Grammar.Form,
        (tokenize text).1.map Token.kind = Grammar.kinds forms ++ [.endOfFile] ∧
          Wire.versions (Grammar.declarations forms) ≤ 1 ∧ Grammar.depth forms ≤ limit) ∧
    ∀ forms : List Grammar.Form,
      (tokenize text).1.map Token.kind = Grammar.kinds forms ++ [.endOfFile] →
        (read limit text).hasErrors = false →
          Wire.Profile.ofTree (read limit text).profile = Grammar.wire forms := by
  simp only [tokenize_faults_iff, tokenize_kinds_iff]
  refine ⟨hasErrors_iff_derives limit text, ?_⟩
  intro forms hforms hclean
  obtain ⟨-, fs, hkinds, -, hd⟩ := (hasErrors_iff_derives limit text).mp hclean
  rw [wire_of_derives hkinds hd, Grammar.wire, Grammar.wire,
    declarations_unique (hkinds.symm.trans hforms)]

/-- A definition with parameters, and a rule with operations on both sides of a nested filter. -/
def nestedText : String :=
  "(version 1)\n(define (home user) (path \"/home\" (user)))\n" ++
    "(allow file-read* (require-any (subpath \"/\") (require-not (literal #\"/etc\" x))) process*)"

def nestedForms : List Grammar.Form :=
  [.version 1,
    .procedure "home" [.symbol "user"] (.token (by decide) (by decide) .nil)
      (.list [.symbol "path", .string "/home", .list [.symbol "user"]]),
    .rule .allow
      [.operation "file-read*",
        .filter (.compound .any
          [.simple "subpath" rfl (.string "/") [],
            .negation (.simple "literal" rfl (.rawString "/etc") [.symbol "x"])]),
        .operation "process*"]]

theorem read_accepts_nested :
    (tokenize nestedText).1.map Token.kind = Grammar.kinds nestedForms ++ [.endOfFile] ∧
      (read 3 nestedText).hasErrors = false ∧
        Wire.Profile.ofTree (read 3 nestedText).profile =
          ⟨some 1, none, [],
            [⟨"home", .list [.symbol "path", .string "/home", .list [.symbol "user"]]⟩],
            [⟨.allow, ["file-read*", "process*"],
              [.ofFilters "require-any"
                [.ofValue "subpath" (.string "/"),
                  .ofFilters negationText [.ofValue "literal" (.string "/etc")]]]⟩]⟩ := by
  have hkinds : (tokenize nestedText).1.map Token.kind =
      Grammar.kinds nestedForms ++ [.endOfFile] := by
    decide +kernel
  -- The filters nest as deep as the limit allows.
  have hclean : (read 3 nestedText).hasErrors = false :=
    (read_accepts_iff 3 nestedText).1.mpr
      ⟨by decide +kernel, nestedForms, hkinds, by decide +kernel, by decide +kernel⟩
  refine ⟨hkinds, hclean, ?_⟩
  rw [(read_accepts_iff 3 nestedText).2 nestedForms hkinds hclean]
  rfl

end SandboxProfile.Profile
