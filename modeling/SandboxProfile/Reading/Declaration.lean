import SandboxProfile.Reading.Filter

/-!
# Reading declarations

The name at the head of a form tells what it declares. A form with another name is passed over. A
reader that gives up leaves the end of the form (`keeps_declaration`), so it has taken nothing
behind it and leaves no more tokens than the form had behind its opening parenthesis
(`leaves_declaration`).
-/

namespace SandboxProfile

/-- What a form of a profile declares. -/
inductive Declaration where
  | version (version : Version)
  | debug (mode : DebugMode)
  | importPath (path : Import)
  | definition (definition : Definition)
  | rule (rule : Rule)
deriving DecidableEq, Repr

namespace Reading

/-- The number of a version declaration and the end of the declaration. -/
def version (start : Position) (items : Forest) (stop : ListEnd) : Reading Version :=
  match items with
  | .leaf t rest =>
    match t.kind with
    | .integer n => do
      let place ← closing .version t.range.stop rest stop
      pure ⟨n, ⟨start, place⟩⟩
    | _ => expected .versionNumber items stop
  | _ => expected .versionNumber items stop

/-- The mode that a token names; one that names none counts as "deny" and is reported. -/
def debugAction (t : Token) : Reading Action :=
  match t.symbol?.bind fun name => (Action.ofText name).toOption with
  | some action => pure action
  | none => do
    note ((SyntaxFault.invalidDebugMode t.kind).diagnostic t.range)
    pure .deny

def debugMode (start : Position) (items : Forest) (stop : ListEnd) : Reading DebugMode :=
  match items with
  | .done => giveUp (SyntaxFault.debugWithoutMode.diagnostic stop.range) items stop
  | .leaf t rest => do
    let action ← debugAction t
    let place ← closing .debug t.range.stop rest stop
    pure ⟨action, ⟨start, place⟩⟩
  | .list .. => expected .debugMode items stop

def importPath (start : Position) (items : Forest) (stop : ListEnd) : Reading Import :=
  match items with
  | .leaf t rest =>
    match t.kind with
    | .string path | .rawString path => do
      let place ← closing .importPath t.range.stop rest stop
      pure ⟨path, t.range, ⟨start, place⟩⟩
    | _ => expected .importPath items stop
  | _ => expected .importPath items stop

/-- The name in the head of a definition with parameters, which are passed over. -/
def definitionHead (items : Forest) (stop : ListEnd) : Reading (String × Range) :=
  match items with
  | .leaf t _ =>
    match t.kind, stop with
    | .symbol name, .closed _ => pure (name, t.range)
    | .symbol _, .endOfFile _ last => unclosed .definitionHead last .done stop
    | _, _ => expected .definitionName items stop
  | _ => expected .definitionName items stop

/-- The name that is defined, and what follows it. -/
def definitionName (items : Forest) (stop : ListEnd) : Reading ((String × Range) × Forest) :=
  match items with
  | .done => giveUp (SyntaxFault.definitionWithoutName.diagnostic stop.range) items stop
  | .leaf t rest =>
    match t.kind with
    | .symbol name => pure ((name, t.range), rest)
    | _ => expected .definitionName items stop
  | .list _ head e rest => do
    let name ← (definitionHead head e).inside rest stop
    pure (name, rest)

def definition (limit : Nat) (start : Position) (items : Forest) (stop : ListEnd) :
    Reading Definition := do
  let ((name, nameRange), rest) ← definitionName items stop
  match rest with
  | .done => giveUp ((SyntaxFault.definitionWithoutValue name).diagnostic stop.range) .done stop
  | _ => do
    let (value, more) ← expr limit 0 stop rest
    let place ← closing .definition value.range.stop more stop
    pure ⟨name, nameRange, value, ⟨start, place⟩⟩

def rule (limit : Nat) (action : Action) (start : Position) (items : Forest) (stop : ListEnd) :
    Reading Rule := do
  let (operations, filters, place) ← ruleItems limit stop items
  let range : Range := ⟨start, place⟩
  if operations.isEmpty && filters.isEmpty then
    note ((SyntaxFault.emptyRule action).diagnostic range)
  pure ⟨action, operations, filters, range⟩

/-- A form with a head of no meaning here. -/
def unrecognized (head : String) (range : Range) (stop : ListEnd) : Reading Unit := do
  note ((SyntaxFault.unrecognizedForm head).diagnostic range)
  match stop with
  | .closed _ => pure ()
  | .endOfFile range _ => note ((SyntaxFault.unclosedForm head).diagnostic range)

/-- What a form with a given name declares, if anything. -/
def namedForm (limit : Nat) (start : Position) (head : String) (range : Range) (items : Forest)
    (stop : ListEnd) : Reading (Option Declaration) :=
  match head with
  | "version" => (some <| .version ·) <$> version start items stop
  | "debug" => (some <| .debug ·) <$> debugMode start items stop
  | "import" => (some <| .importPath ·) <$> importPath start items stop
  | "define" => (some <| .definition ·) <$> definition limit start items stop
  | "allow" => (some <| .rule ·) <$> rule limit .allow start items stop
  | "deny" => (some <| .rule ·) <$> rule limit .deny start items stop
  | other => do
    unrecognized other range stop
    pure none

/-- What a form declares, if anything, behind its opening parenthesis. -/
def declaration (limit : Nat) (opened : Token) (items : Forest) (stop : ListEnd) :
    Reading (Option Declaration) :=
  match items, stop with
  | .done, .closed c => do
    note (SyntaxFault.emptyForm.diagnostic (opened.range.merge c.range))
    pure none
  | .leaf t rest, _ =>
    match t.kind with
    | .symbol head => namedForm limit opened.range.start head t.range rest stop
    | _ => expected .formName items stop
  | _, _ => expected .formName items stop

/-! ### What is left -/

open Forest (tail_done)

variable {items : Forest} {start : Position} {stop : ListEnd} {limit : Nat}

theorem keeps_version (items : Forest) : Keeps items stop (version start items stop) := by
  unfold version
  split
  · split
    · exact keeps_bind (keeps_leaf (keeps_closing (.refl _))) fun _ _ => keeps_pure _
    · exact keeps_expected (.refl _)
  · exact keeps_expected (.refl _)

theorem keeps_debugAction (t : Token) : Keeps items stop (debugAction t) := by
  unfold debugAction
  split
  · exact keeps_pure _
  · exact keeps_bind (keeps_note _) fun _ _ => keeps_pure _

theorem keeps_debugMode (items : Forest) : Keeps items stop (debugMode start items stop) := by
  unfold debugMode
  split
  · exact keeps_giveUp (.refl _)
  · refine keeps_bind (keeps_debugAction _) fun _ _ => ?_
    exact keeps_bind (keeps_leaf (keeps_closing (.refl _))) fun _ _ => keeps_pure _
  · exact keeps_expected (.refl _)

theorem keeps_importPath (items : Forest) : Keeps items stop (importPath start items stop) := by
  unfold importPath
  split
  · split
    · exact keeps_bind (keeps_leaf (keeps_closing (.refl _))) fun _ _ => keeps_pure _
    · exact keeps_bind (keeps_leaf (keeps_closing (.refl _))) fun _ _ => keeps_pure _
    · exact keeps_expected (.refl _)
  · exact keeps_expected (.refl _)

theorem keeps_definitionHead (items : Forest) :
    Keeps items stop (definitionHead items stop) := by
  unfold definitionHead
  split
  · split
    · exact keeps_pure _
    · exact keeps_unclosed (tail_done _)
    · exact keeps_expected (.refl _)
  · exact keeps_expected (.refl _)

theorem keeps_definitionName (items : Forest) :
    Keeps items stop (definitionName items stop) := by
  unfold definitionName
  split
  · exact keeps_giveUp (.refl _)
  · split
    · exact keeps_pure _
    · exact keeps_expected (.refl _)
  · exact keeps_bind (keeps_inside (keeps_definitionHead _)) fun _ _ => keeps_pure _

theorem keeps_behindName {items rest : Forest} {name : String × Range} {r : Reading α}
    (h : (definitionName items stop).outcome = .ok (name, rest)) (hr : Keeps rest stop r) :
    Keeps items stop r := by
  revert h
  unfold definitionName
  split
  · intro h
    cases h
  · split
    · intro h
      cases h
      exact keeps_leaf hr
    · intro h
      cases h
  · intro h
    simp only [bind, pure] at h
    split at h
    · cases h
      exact keeps_list hr
    · cases h

theorem keeps_definition (items : Forest) :
    Keeps items stop (definition limit start items stop) := by
  refine keeps_bind (keeps_definitionName items) fun ⟨(name, range), rest⟩ h => ?_
  refine keeps_behindName h ?_
  simp only
  split
  · exact keeps_giveUp (.refl _)
  · refine keeps_bind (keeps_expr _) fun ⟨value, more⟩ hv => ?_
    exact keeps_bind (keeps_closing (tail_of_expr hv)) fun _ _ => keeps_pure _

theorem keeps_rule {action : Action} (items : Forest) :
    Keeps items stop (rule limit action start items stop) := by
  refine keeps_bind (keeps_ruleItems items) fun _ _ => ?_
  simp only
  split
  · exact keeps_bind (keeps_note _) fun _ _ => keeps_pure _
  · exact keeps_pure _

theorem keeps_unrecognized {head : String} {range : Range} :
    Keeps items stop (unrecognized head range stop) := by
  refine keeps_bind (keeps_note _) fun _ _ => ?_
  cases stop
  · exact keeps_pure _
  · exact keeps_note _

theorem keeps_namedForm {head : String} {range : Range} (items : Forest) :
    Keeps items stop (namedForm limit start head range items stop) := by
  unfold namedForm
  split
  · exact keeps_map (keeps_version items)
  · exact keeps_map (keeps_debugMode items)
  · exact keeps_map (keeps_importPath items)
  · exact keeps_map (keeps_definition items)
  · exact keeps_map (keeps_rule items)
  · exact keeps_map (keeps_rule items)
  · exact keeps_bind keeps_unrecognized fun _ _ => keeps_pure _

/-- A reader of a form that gives up leaves the end of the form. -/
theorem keeps_declaration {opened : Token} (items : Forest) :
    Keeps items stop (declaration limit opened items stop) := by
  unfold declaration
  split
  · exact keeps_bind (keeps_note _) fun _ _ => keeps_pure _
  · split
    · exact keeps_leaf (keeps_namedForm _)
    · exact keeps_expected (.refl _)
  · exact keeps_expected (.refl _)

theorem leaves_declaration {opened : Token} (items : Forest) :
    Leaves (items.size + stop.tokens.length) (declaration limit opened items stop) :=
  leaves_of_keeps (keeps_declaration items)

/-- Resuming after a form that was given up goes on with fewer tokens. -/
theorem size_resume_lt {opened : Token} {items unread : Forest}
    (h : (declaration limit opened items stop).outcome = .error unread) (rest : Forest) :
    (unread ++ rest).resume.size < (Forest.list opened items stop rest).size := by
  have hleft := leaves_declaration items unread h
  have hresume := Forest.size_resume_le (unread ++ rest)
  rw [Forest.size_append] at hresume
  rw [Forest.size_list]
  omega

end Reading

end SandboxProfile
