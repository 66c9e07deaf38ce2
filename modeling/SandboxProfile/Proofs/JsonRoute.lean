import SandboxProfile.Proofs.Regular
import SandboxProfile.Proofs.RoundTrip
import SandboxProfile.Proofs.WireText
import SandboxProfile.Strict

/-!
# Through the wire format and straight

A text without an error can be formatted by itself, or written in the wire format and read back from
there. Both give the same text exactly as long as the wire format of the text opens no more brackets
than a JSON text may open; a text may nest deeper than that.
-/

namespace SandboxProfile

namespace Wire

theorem unmarked_of_isSymbol {name : String} (h : IsSymbol name) :
    name.toList.head? ≠ some '"' := by
  intro hhead
  obtain ⟨cs, hcs⟩ := List.head?_eq_some_iff.mp hhead
  have hspelling := isSpelling_of_isSymbol h
  rw [hcs] at hspelling
  cases hspelling

namespace Node

mutual

theorem unmarked_ofTree : (x : Expr) → x.Regular → (ofTree x).Unmarked
  | .integer .., _ | .string .., _ | .rawString .., _ | .boolean .., _ => by
    intro name heq
    cases heq
  | .symbol name _, h => by
    intro _ heq
    cases heq
    exact unmarked_of_isSymbol h
  | .list items _, h => by
    refine ⟨?_, unmarked_ofTrees items h⟩
    intro _ heq
    cases heq
  | .quoted .., h => h.elim

theorem unmarked_ofTrees : (xs : List Expr) → Expr.RegularAll xs →
    EveryAll (fun y => ∀ name, y = symbol name → name.toList.head? ≠ some '"') (ofTrees xs)
  | [], _ => trivial
  | x :: xs, h => ⟨unmarked_ofTree x h.1, unmarked_ofTrees xs h.2⟩

end

end Node

namespace Filter

theorem unmarked_ofValue {type : String} {value : Node} (h : value.Unmarked) :
    (ofValue type value).Every Unmarked := by
  intro v hv
  cases hv
  exact h

theorem unmarked_ofFilters {type : String} {filters : List Filter}
    (h : EveryAll Unmarked filters) : (ofFilters type filters).Every Unmarked := by
  refine ⟨?_, h⟩
  intro v hv
  cases hv

mutual

theorem unmarked_ofTree : (f : SandboxProfile.Filter) → f.Regular → (ofTree f).Every Unmarked
  | .simple _ _ value _, h => unmarked_ofValue (Node.unmarked_ofTree value h.2.2.2)
  | .expression value, h => unmarked_ofValue (Node.unmarked_ofTree value h.1)
  | .compound _ filters _, h => unmarked_ofFilters (unmarked_ofTrees filters h)
  | .negation filter _, h => unmarked_ofFilters ⟨unmarked_ofTree filter h, trivial⟩

theorem unmarked_ofTrees : (fs : List SandboxProfile.Filter) →
    SandboxProfile.Filter.RegularAll fs → EveryAll Unmarked (ofTrees fs)
  | [], _ => trivial
  | f :: fs, h => ⟨unmarked_ofTree f h.1, unmarked_ofTrees fs h.2⟩

end

end Filter

/-- No symbol of a text begins with the mark of a string, not even in what is left of a text with an
error. -/
theorem Profile.unmarked_ofTree {p : SandboxProfile.Profile} (h : p.Regular) :
    (ofTree p).Unmarked := by
  rw [unmarked_iff, ofTree, List.forall_mem_map, List.forall_mem_map]
  constructor
  · intro d hd
    exact Node.unmarked_ofTree d.value (h.values d hd)
  · intro r hr
    exact Filter.unmarked_ofTrees r.filters (h.filters r hr)

end Wire

namespace Strict

variable {text : String}

theorem toJson_of_clean (h : (Profile.ofText text).hasErrors = false) :
    toJson text = .ok ((Wire.Profile.ofTree (Profile.ofText text).profile).print .pretty) := by
  change Except.map _ (Except.mapError _ (if (Profile.ofText text).hasErrors then _ else _)) = _
  rw [h]
  rfl

theorem format_of_clean (h : (Profile.ofText text).hasErrors = false) :
    format text = .ok ((Wire.Profile.ofTree (Profile.ofText text).profile).source .usual) := by
  change (if (Profile.ofText text).hasErrors then _ else _) = _
  rw [h]
  rfl

/-- What the wire format of a text is read as, also of what is left of a text with an error. -/
theorem ofJson_print (text : String) :
    let p := Wire.Profile.ofTree (Profile.ofText text).profile
    (p.toJson.brackets ≤ Json.textLimit → ofJson (p.print .pretty) = .ok (p.source .usual)) ∧
      (Json.textLimit < p.toJson.brackets → ∃ stop : Json.Stop, stop.fault = .tooDeep ∧
        ofJson (p.print .pretty) =
          .error (.conversion (.malformed (stop.message (p.print .pretty).toList)))) := by
  intro p
  refine ⟨fun hbrackets => ?_, fun hbrackets => ?_⟩
  · have hunmarked : p.Unmarked := Wire.Profile.unmarked_ofTree (Profile.regular_read _ text)
    rw [ofJson, Wire.Profile.ofText_print .pretty hbrackets,
      (Wire.Profile.reread_eq_iff p).mpr hunmarked]
  · obtain ⟨stop, hfault, hread⟩ := Wire.Profile.ofText_print_deep .pretty hbrackets
    exact ⟨stop, hfault, by rw [ofJson, hread]⟩

/-- A text without an error is written in the wire format and formatted, and the two agree exactly
if the wire format opens no more brackets than may be open; otherwise it is refused as too deep. -/
theorem json_route_iff (text : String) (h : (Profile.ofText text).hasErrors = false) :
    ∃ json formatted, toJson text = .ok json ∧ format text = .ok formatted ∧
      (ofJson json = .ok formatted ↔
        (Wire.Profile.ofTree (Profile.ofText text).profile).toJson.brackets ≤ Json.textLimit) ∧
      (ofJson json ≠ .ok formatted → ∃ stop : Json.Stop, stop.fault = .tooDeep ∧
        ofJson json = .error (.conversion (.malformed (stop.message json.toList)))) := by
  obtain ⟨hread, hdeep⟩ := ofJson_print text
  refine ⟨_, _, toJson_of_clean h, format_of_clean h, ⟨fun heq => ?_, hread⟩, fun hne => ?_⟩
  · refine Nat.le_of_not_lt fun hlt => ?_
    obtain ⟨stop, -, herror⟩ := hdeep hlt
    cases herror.symm.trans heq
  · exact hdeep (Nat.lt_of_not_le fun hle => hne (hread hle))

theorem json_route_path : (Profile.ofText "(allow (path 1))").hasErrors = false ∧
    ∃ json formatted, toJson "(allow (path 1))" = .ok json ∧
      format "(allow (path 1))" = .ok formatted ∧ ofJson json = .ok formatted := by
  have hclean : (Profile.ofText "(allow (path 1))").hasErrors = false := by decide +kernel
  have hwire : Wire.Profile.ofTree (Profile.ofText "(allow (path 1))").profile =
      ⟨none, none, [], [], [⟨.allow, [], [.ofValue "path" (.integer 1)]⟩]⟩ := by
    decide +kernel
  obtain ⟨json, formatted, hjson, hformat, hiff, -⟩ := json_route_iff "(allow (path 1))" hclean
  refine ⟨hclean, json, formatted, hjson, hformat, hiff.mpr ?_⟩
  rw [hwire]
  decide

end Strict

/-! ### Lists inside each other -/

namespace Wire

/-- An empty list inside `n` lists. -/
def Node.nested : Nat → Node
  | 0 => list []
  | n + 1 => list [nested n]

theorem Node.legible_nested (n : Nat) : (nested n).Legible := by
  induction n with
  | zero => exact ⟨fun _ heq => (by cases heq), trivial⟩
  | succ n ih => exact ⟨fun _ heq => (by cases heq), ih, trivial⟩

theorem Node.quoteFree_nested (n : Nat) : (nested n).QuoteFree := by
  induction n with
  | zero => exact ⟨rfl, trivial⟩
  | succ n ih => exact ⟨by cases n <;> rfl, ih, trivial⟩

theorem Node.depth_nested (n : Nat) : (nested n).depth = n + 1 := by
  induction n with
  | zero => rfl
  | succ n ih => rw [nested, depth, depthAll, depthAll, ih]; omega

theorem Node.brackets_nested (n : Nat) : (nested n).toJson.brackets = n + 1 := by
  induction n with
  | zero => rfl
  | succ n ih =>
    change 1 + max (nested n).toJson.brackets 0 = _
    rw [ih]
    omega

theorem Node.layout_nested (n : Nat) :
    (nested n).layout = List.replicate (n + 1) '(' ++ List.replicate (n + 1) ')' := by
  induction n with
  | zero => rfl
  | succ n ih =>
    have hlayout : (nested (n + 1)).layout = '(' :: ((nested n).layout ++ [')']) := by
      cases n <;> simp [nested, layout, layoutAll]
    rw [hlayout, ih, List.append_assoc, ← List.replicate_succ']
    rfl

/-- A definition of an empty list inside `n` lists. -/
def Profile.nested (n : Nat) : Profile := ⟨none, none, [], [⟨"a", .nested n⟩], []⟩

theorem Profile.brackets_nested (n : Nat) : (nested n).toJson.brackets = n + 4 := by
  have h := Node.brackets_nested n
  change 1 + max (1 + max (1 + max 0 (max (Node.nested n).toJson.brackets 0)) 0) 0 = _
  omega

/-- The text of the definition. -/
theorem Profile.source_nested (n : Nat) : (nested n).source .usual = String.ofList
    ("(define a ".toList ++ List.replicate (n + 1) '(' ++ List.replicate (n + 1) ')' ++
      [')', '\n']) := by
  have hlayout : (nested n).layout .usual =
      parens "define".toList ["a".toList, (Node.nested n).layout] ++ ['\n'] := by
    simp [layout, declarationLines, nested, hasDeclarations, Definition.layout]
  rw [source, hlayout, Node.layout_nested]
  simp [parens, spaced]

theorem Profile.read_nested {n : Nat} (h : n < SandboxProfile.Profile.defaultLimit) :
    (SandboxProfile.Profile.ofText ((nested n).source .usual)).hasErrors = false ∧
      ofTree (SandboxProfile.Profile.ofText ((nested n).source .usual)).profile = nested n := by
  have hsymbol : IsSymbol "a" := by
    unfold IsSymbol
    decide +kernel
  refine read_printed ?_ ?_ ?_ ?_ .usual
  · exact List.forall_mem_singleton.mpr ⟨hsymbol, Node.legible_nested n⟩
  · exact List.forall_mem_singleton.mpr (Node.quoteFree_nested n)
  · exact List.forall_mem_singleton.mpr trivial
  · refine List.forall_mem_singleton.mpr ?_
    change (Node.nested n).depth ≤ _
    rw [Node.depth_nested]
    exact h

end Wire

namespace Strict

/-- Lists nested half as deep as a text may nest them are written, but not read back. -/
theorem json_route_refuses_nested :
    let text := String.ofList ("(define a ".toList ++ List.replicate 125 '(' ++
      List.replicate 125 ')' ++ [')', '\n'])
    (Profile.ofText text).hasErrors = false ∧
      ∃ json formatted, toJson text = .ok json ∧ format text = .ok formatted ∧
        ofJson json ≠ .ok formatted := by
  intro text
  have htext : text = (Wire.Profile.nested 124).source .usual :=
    (Wire.Profile.source_nested 124).symm
  obtain ⟨hclean, hwire⟩ := Wire.Profile.read_nested (n := 124) (by decide)
  rw [← htext] at hclean hwire
  refine ⟨hclean, _, _, toJson_of_clean hclean, format_of_clean hclean, ?_⟩
  have hbrackets : Json.textLimit <
      (Wire.Profile.ofTree (Profile.ofText text).profile).toJson.brackets := by
    rw [hwire, Wire.Profile.brackets_nested]
    decide
  obtain ⟨stop, -, herror⟩ := (ofJson_print text).2 hbrackets
  intro heq
  cases herror.symm.trans heq

end Strict

end SandboxProfile
