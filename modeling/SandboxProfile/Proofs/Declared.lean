import SandboxProfile.Proofs.Ensures
import SandboxProfile.Proofs.ErasedReading

/-!
# All that a text declares

A condition holds of all that a text declares as soon as it holds of whatever the readers of
definitions and rules give, on texts in order and on erroneous ones (`Reading.forall_read`). The
readers may rely on what is known of every token: no form is handed tokens that the text has not,
not even behind a form that was given up.
-/

namespace SandboxProfile

/-- What is left of a forest holds no token that was not there. -/
theorem Forest.Tail.mem_tokens {f u : Forest} (h : Tail f u) : ∀ t ∈ u.tokens, t ∈ f.tokens := by
  induction h with
  | refl f => exact fun _ ht => ht
  | leaf _ ih => exact fun t ht => List.mem_cons_of_mem _ (ih t ht)
  | list _ ih =>
    exact fun t ht =>
      List.mem_cons_of_mem _ (List.mem_append_right _ (List.mem_append_right _ (ih t ht)))
  | into _ ih =>
    intro t ht
    rw [tokens_append, tokens_closedBy, List.append_assoc] at ht
    rcases List.mem_append.mp ht with hu | hbehind
    · exact List.mem_cons_of_mem _ (List.mem_append_left _ (ih t hu))
    · exact List.mem_cons_of_mem _ (List.mem_append_right _ hbehind)

namespace Reading

section Gives

variable {α : Type} {P : α → Prop}

/-- A reading whose value, if there is one, satisfies a condition; diagnostics do not matter. -/
abbrev Gives (P : α → Prop) (r : Reading α) : Prop := Ensures (fun _ => True) P r

theorem gives_any (r : Reading α) : Gives (fun _ => True) r :=
  ⟨fun _ _ => trivial, fun _ _ => trivial⟩

theorem gives_expected (what : Expected) (items : Forest) (stop : ListEnd) :
    Gives P (expected what items stop : Reading α) :=
  ensures_giveUp trivial _ _

theorem gives_unclosed (what : Construct) (place : Position) (items : Forest) (stop : ListEnd) :
    Gives P (unclosed what place items stop : Reading α) :=
  ensures_giveUp trivial _ _

end Gives

/-- Whether a condition on declarations holds of whatever is declared by a form, the tokens of which
satisfy another. -/
structure Declares (limit : Nat) (Q : Token → Prop) (P : Declaration → Prop) : Prop where
  version : ∀ v, P (.version v)
  debug : ∀ m, P (.debug m)
  importPath : ∀ i, P (.importPath i)
  definition : ∀ start items stop, (∀ t ∈ items.tokens, Q t) →
    Gives (fun d => P (.definition d)) (definition limit start items stop)
  rule : ∀ action start items stop, (∀ t ∈ items.tokens, Q t) →
    Gives (fun r => P (.rule r)) (rule limit action start items stop)

variable {limit : Nat} {Q : Token → Prop} {P : Declaration → Prop} {items : Forest} {stop : ListEnd}

theorem gives_namedForm (h : Declares limit Q P) {start : Position} {head : String} {range : Range}
    (hitems : ∀ t ∈ items.tokens, Q t) :
    Gives (fun x? => ∀ x ∈ x?, P x) (namedForm limit start head range items stop) := by
  have hsome {α : Type} {f : α → Declaration} (a : α) (ha : P (f a)) : ∀ x ∈ some (f a), P x := by
    intro x hx
    cases hx
    exact ha
  unfold namedForm
  split
  · exact ensures_map (gives_any _) fun v _ => hsome v (h.version v)
  · exact ensures_map (gives_any _) fun m _ => hsome m (h.debug m)
  · exact ensures_map (gives_any _) fun i _ => hsome i (h.importPath i)
  · exact ensures_map (h.definition _ _ _ hitems) hsome
  · exact ensures_map (h.rule _ _ _ _ hitems) hsome
  · exact ensures_map (h.rule _ _ _ _ hitems) hsome
  · exact ensures_bind (gives_any _) fun _ _ => ensures_pure nofun

theorem gives_declaration (h : Declares limit Q P) (o : Token)
    (hitems : ∀ t ∈ items.tokens, Q t) :
    Gives (fun x? => ∀ x ∈ x?, P x) (declaration limit o items stop) := by
  unfold declaration
  split
  · exact ensures_bind (gives_any _) fun _ _ => ensures_pure nofun
  next t rest =>
    split
    · exact gives_namedForm h fun t ht => hitems t (List.mem_cons_of_mem _ ht)
    · exact gives_expected _ _ _
  · exact gives_expected _ _ _

/-- The condition holds of all that is declared by the steps of a forest. -/
theorem forall_declared (h : Declares limit Q P) (f : Forest) (hf : ∀ t ∈ f.tokens, Q t) :
    ∀ x ∈ (steps limit f).filterMap (·.declaration?), P x := by
  induction f using steps_induction limit with
  | done =>
    rw [steps_done]
    exact List.forall_mem_nil _
  | leaf t rest ih =>
    rw [steps_leaf]
    apply ih
    intro u hu
    exact hf u (List.mem_cons_of_mem _ ((Forest.tokens_dropLeaves rest).subset hu))
  | read o items stop rest declared houtcome ih =>
    have hform : Gives (fun x? => ∀ x ∈ x?, P x) (declaration limit o items stop) :=
      gives_declaration h o fun t ht => hf t (List.mem_cons_of_mem _ (List.mem_append_left _ ht))
    have hrest := ih fun t ht =>
      hf t (List.mem_cons_of_mem _ (List.mem_append_right _ (List.mem_append_right _ ht)))
    rw [steps_of_ok houtcome]
    cases declared with
    | none => exact hrest
    | some x => exact List.forall_mem_cons.mpr ⟨hform.value _ houtcome x rfl, hrest⟩
  | givenUp o items stop rest unread houtcome ih =>
    obtain ⟨u, hu, rfl⟩ := keeps_declaration items unread houtcome
    rw [steps_of_error houtcome]
    apply ih
    intro t ht
    have hleft : t ∈ (u.closedBy stop ++ rest).tokens :=
      List.mem_of_mem_tail ((Forest.tokens_resume (u.closedBy stop ++ rest)).subset ht)
    exact hf t ((Forest.Tail.into hu).mem_tokens t hleft)

/-- The condition holds of all that a text declares. -/
theorem forall_read (h : Declares limit Q P) (text : String)
    (htokens : ∀ t ∈ (Forest.ofTokens (tokenize text).1).tokens, Q t) :
    (∀ d ∈ (Profile.read limit text).profile.definitions, P (.definition d)) ∧
      ∀ r ∈ (Profile.read limit text).profile.rules, P (.rule r) := by
  have hdeclared := forall_declared h (Forest.ofTokens (tokenize text).1) htokens
  constructor
  · intro d hd
    obtain ⟨x, hx, hd⟩ := List.mem_filterMap.mp hd
    have hx := hdeclared x hx
    cases x <;> cases hd
    exact hx
  · intro r hr
    obtain ⟨x, hx, hr⟩ := List.mem_filterMap.mp hr
    have hx := hdeclared x hx
    cases x <;> cases hr
    exact hx

end Reading

end SandboxProfile
