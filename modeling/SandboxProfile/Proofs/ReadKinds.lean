import SandboxProfile.Proofs.Declarations
import SandboxProfile.Proofs.ErasedReading
import SandboxProfile.Proofs.Grouping

/-!
# Reading kinds

Whether a text is read without an error, and the profile it has on the wire, depend on what the text
says without its places: on the faults of its lexemes and on the steps of their kinds
(`hasErrors_read`, `wire_read`).
-/

namespace SandboxProfile

open Placed (erase)

/-! ### Collected diagnostics -/

namespace Collector

theorem mem_extend (c : Collector) (ds : List Diagnostic) (d : Diagnostic) :
    d ∈ (c.extend ds).toList ↔ d ∈ c.toList ∨ d ∈ ds := by
  induction ds generalizing c with
  | nil => simp
  | cons e ds ih =>
    rw [extend_cons, ih, toList_push, List.mem_cons]
    by_cases he : e ∈ c.toList
    · rw [if_pos he]
      constructor
      · rintro (h | h)
        · exact .inl h
        · exact .inr (.inr h)
      · rintro (h | rfl | h)
        · exact .inl h
        · exact .inl he
        · exact .inr h
    · rw [if_neg he, List.mem_append, List.mem_singleton, or_assoc]

theorem mem_ofList (ds : List Diagnostic) (d : Diagnostic) :
    d ∈ (ofList ds).toList ↔ d ∈ ds := by
  simp [ofList, mem_extend]

end Collector

/-- No diagnostic among these is an error. -/
def Harmless (ds : List Diagnostic) : Prop := ∀ d ∈ ds, d.isError = false

@[simp] theorem harmless_nil : Harmless [] := fun _ h => nomatch h

@[simp] theorem harmless_cons (d : Diagnostic) (ds : List Diagnostic) :
    Harmless (d :: ds) ↔ d.isError = false ∧ Harmless ds :=
  List.forall_mem_cons

@[simp] theorem harmless_append (ds es : List Diagnostic) :
    Harmless (ds ++ es) ↔ Harmless ds ∧ Harmless es :=
  List.forall_mem_append

@[simp] theorem harmless_erase (ds : List Diagnostic) : Harmless (erase ds) ↔ Harmless ds := by
  induction ds with
  | nil => exact Iff.rfl
  | cons d ds ih =>
    rw [erase_cons, harmless_cons, harmless_cons, ih]
    exact Iff.rfl

/-! ### Steps -/

namespace Step

/-- What the steps of a document declare. -/
def declared (ss : List Step) : List Wire.Declaration :=
  ss.filterMap fun s => s.declaration?.map .ofTree

theorem declared_cons (s : Step) (ss : List Step) :
    declared (s :: ss) = (s.declaration?.map .ofTree).toList ++ declared ss := by
  rw [declared, List.filterMap_cons]
  cases s.declaration? <;> rfl

theorem declared_erase (ss : List Step) : declared (erase ss) = declared ss := by
  induction ss with
  | nil => rfl
  | cons s ss ih =>
    have hs : (erase s).declaration?.map Wire.Declaration.ofTree =
        s.declaration?.map .ofTree := by
      obtain ⟨notes, declaration?⟩ := s
      cases declaration? with
      | none => rfl
      | some d => exact congrArg some (Wire.Declaration.ofTree_erase d)
    rw [erase_cons, declared_cons, declared_cons, hs, ih]

theorem versions_declared_cons (s : Step) (ss : List Step) :
    Wire.versions (declared (s :: ss)) =
      (s.declaration?.bind (·.version?)).toList.length + Wire.versions (declared ss) := by
  rw [declared_cons, Wire.versions, List.filterMap_append, List.length_append]
  congr 1
  cases s.declaration? with
  | none => rfl
  | some d => cases d <;> rfl

/-- Steps are harmless if none has an error of its own and there is no second version. -/
theorem harmless_diagnostics (version? : Option Version) (debug? : Option DebugMode)
    (ss : List Step) :
    Harmless (diagnostics version? debug? ss) ↔
      (∀ s ∈ ss, Harmless s.notes) ∧
        version?.toList.length + Wire.versions (declared ss) ≤ 1 := by
  induction ss generalizing version? debug? with
  | nil => cases version? <;> simp [diagnostics, declared, Wire.versions]
  | cons s ss ih =>
    have hlate : Harmless (s.declaration?.bind (·.late? version? debug?)).toList ↔
        (version?.isSome → (s.declaration?.bind (·.version?)) = none) := by
      cases s.declaration? with
      | none => simp
      | some d => cases d <;> cases version? <;> cases debug? <;>
          simp [Declaration.late?, Declaration.version?] <;> rfl
    rw [diagnostics, harmless_append, harmless_append, ih, List.forall_mem_cons, hlate,
      versions_declared_cons]
    cases version? with
    | none => simp [and_assoc]
    | some v =>
      cases s.declaration?.bind (·.version?) with
      | none => simp [and_assoc]
      | some w =>
        -- a second version: neither side holds
        constructor
        · rintro ⟨⟨-, hfirst⟩, -⟩
          exact nomatch hfirst rfl
        · rintro ⟨-, hle⟩
          simp only [Option.toList_some, List.length_singleton] at hle
          omega

theorem harmless_notes_erase (ss : List Step) :
    (∀ s ∈ erase ss, Harmless s.notes) ↔ ∀ s ∈ ss, Harmless s.notes := by
  induction ss with
  | nil => exact Iff.rfl
  | cons s ss ih =>
    rw [erase_cons, List.forall_mem_cons, List.forall_mem_cons, ih]
    exact and_congr_left fun _ => harmless_erase s.notes

end Step

/-! ### Texts -/

namespace Profile

open Reading

/-- The steps of a document of which only the kinds of the tokens are known. -/
def stepsOfKinds (limit : Nat) (ks : List TokenKind) : List Step := steps limit (.ofKinds ks)

theorem erase_steps_tokenize (limit : Nat) (text : String) :
    erase (steps limit (.ofTokens (tokenize text).1)) =
      stepsOfKinds limit (Lexed.ofChars text.toList).kinds := by
  rw [erase_steps, Forest.erase_ofTokens (kinds_tokenize text) (Lexed.end_notMem_kinds _)]
  rfl

theorem wire_read (limit : Nat) (text : String) :
    Wire.Profile.ofTree (read limit text).profile =
      .ofDeclarations (Step.declared (stepsOfKinds limit (Lexed.ofChars text.toList).kinds)) := by
  rw [← erase_steps_tokenize, Step.declared_erase, read, Wire.Profile.ofTree_ofDeclarations,
    List.map_filterMap]
  rfl

theorem harmless_faults (text : String) :
    Harmless (tokenize text).2 ↔ (Lexed.ofChars text.toList).faults = [] := by
  rw [← harmless_erase, erase_faults_tokenize]
  cases (Lexed.ofChars text.toList).faults with
  | nil => simp
  | cons fault faults =>
    have herror : (Lexed.report fault).isError = true := by cases fault <;> rfl
    simp [herror]

theorem hasErrors_read (limit : Nat) (text : String) :
    (read limit text).hasErrors = false ↔
      (Lexed.ofChars text.toList).faults = [] ∧
      (∀ s ∈ stepsOfKinds limit (Lexed.ofChars text.toList).kinds, Harmless s.notes) ∧
      Wire.versions (Step.declared (stepsOfKinds limit (Lexed.ofChars text.toList).kinds)) ≤ 1 := by
  have hmem : (read limit text).hasErrors = false ↔ Harmless ((tokenize text).2 ++
      Step.diagnostics none none (steps limit (.ofTokens (tokenize text).1))) := by
    rw [Outcome.hasErrors, List.any_eq_false]
    simp only [read, Collector.mem_ofList, Harmless, Bool.not_eq_true]
  rw [hmem, harmless_append, harmless_faults, Step.harmless_diagnostics, ← erase_steps_tokenize,
    Step.harmless_notes_erase, Step.declared_erase]
  simp

end Profile

end SandboxProfile
