import SandboxProfile.Proofs.LineBreaks
import SandboxProfile.Proofs.Recovery

/-!
# Texts on lines of their own

A text in which no comment and no parenthesis is left open, however malformed it is otherwise, has
no influence on the text on the following lines, nor that on it: the profile of both is the profile
of the one, completed by that of the other (`read_lineFeed`).
-/

namespace SandboxProfile

namespace Wire.Profile

/-- The declarations of a profile, then those of another, of whose version and debug mode only what
the first lacks counts. -/
def merge (p q : Profile) : Profile where
  version := p.version.or q.version
  debugMode := p.debugMode.or q.debugMode
  imports := p.imports ++ q.imports
  definitions := p.definitions ++ q.definitions
  rules := p.rules ++ q.rules

theorem ofDeclarations_append (ds es : List Declaration) :
    ofDeclarations (ds ++ es) = (ofDeclarations ds).merge (ofDeclarations es) := by
  simp only [ofDeclarations, merge, List.findSome?_append, List.filterMap_append]

end Wire.Profile

namespace Profile

/-- No comment is left open where the lexer does not report one. -/
theorem unterminated_notMem_faults {text : String}
    (h : ∀ d ∈ (tokenize text).2, d.code ≠ .unterminatedBlockComment) :
    .unterminatedBlockComment ∉ (Lexed.ofChars text.toList).faults := by
  intro hfault
  have hreport : Lexed.report .unterminatedBlockComment ∈ Placed.erase (tokenize text).2 := by
    rw [erase_faults_tokenize]
    exact List.mem_map_of_mem hfault
  obtain ⟨d, hd, herase⟩ := List.mem_map.mp hreport
  have hcode : (Placed.erase d).code = .unterminatedBlockComment := by
    rw [herase]
    rfl
  exact h d hd hcode

theorem unmatched_kinds {text : String}
    (h : unmatched 0 ((tokenize text).1.map Token.kind) = 0) :
    unmatched 0 (Lexed.ofChars text.toList).kinds = 0 := by
  rwa [kinds_tokenize, unmatched_append] at h

theorem stepsOfKinds_append {ks : List TokenKind} (h : unmatched 0 ks = 0) (limit : Nat)
    (ls : List TokenKind) :
    Step.declared (stepsOfKinds limit (ks ++ ls)) =
      Step.declared (stepsOfKinds limit ks) ++ Step.declared (stepsOfKinds limit ls) := by
  have hclosed := Forest.closed_ofKinds h
  have happ := Forest.ofKinds_append hclosed ls
  rw [Forest.kinds_ofKinds] at happ
  rw [stepsOfKinds, happ]
  exact Reading.declares_append hclosed _

/-- A text that leaves no comment and no parenthesis open and a text on the next line declare
together what they declare alone. -/
theorem read_lineFeed (limit : Nat) (a b : String)
    (hcomment : ∀ d ∈ (tokenize a).2, d.code ≠ .unterminatedBlockComment)
    (hparens : unmatched 0 ((tokenize a).1.map Token.kind) = 0) :
    Wire.Profile.ofTree (read limit (a ++ "\n" ++ b)).profile =
      (Wire.Profile.ofTree (read limit a).profile).merge
        (Wire.Profile.ofTree (read limit b).profile) := by
  have hchars : (a ++ "\n" ++ b).toList = a.toList ++ '\n' :: b.toList := by
    rw [String.toList_append, String.toList_append, List.append_assoc]
    rfl
  have hkinds := Lexed.kinds_lineFeed (unterminated_notMem_faults hcomment) b.toList
  rw [wire_read, wire_read, wire_read, hchars, hkinds,
    stepsOfKinds_append (unmatched_kinds hparens), Wire.Profile.ofDeclarations_append]

/-- A form that is given up at its number, a list in it that is then read as a rule, a stray
parenthesis, and a string that is not closed. -/
theorem read_lineFeed_malformed :
    Wire.Profile.ofTree
        (read 256 ("(version x (allow y))) \"open" ++ "\n" ++ "(deny z)")).profile =
      ⟨none, none, [], [], [⟨.allow, ["y"], []⟩, ⟨.deny, ["z"], []⟩]⟩ :=
  (read_lineFeed 256 "(version x (allow y))) \"open" "(deny z)" (by decide +kernel)
    (by decide +kernel)).trans (by decide +kernel)

end Profile

end SandboxProfile
