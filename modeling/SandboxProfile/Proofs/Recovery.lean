import SandboxProfile.Proofs.ReadKinds

/-!
# Going on after a form that was given up

A form that cannot be read is left in its middle, and lists inside it may then be read as forms.
What follows the form is out of reach all the same: closed lists declare what they declare by
themselves, whatever comes behind them (`declares_append`).
-/

namespace SandboxProfile

namespace Forest

theorem Closed.append {f g : Forest} (hf : Closed f) (hg : Closed g) : Closed (f ++ g) := by
  induction hf with
  | done => exact hg
  | leaf hl _ ih => exact .leaf hl ih
  | group hi _ ih => exact .group hi ih

theorem Closed.closedBy {f : Forest} (h : Closed f) :
    Closed (f.closedBy (.closed (.bare .rightParen))) :=
  h.append (.leaf (by decide) .done)

theorem Closed.dropLeaves {f : Forest} (h : Closed f) : Closed f.dropLeaves := by
  induction h with
  | done => exact .done
  | leaf _ _ ih => exact ih
  | group hi hr _ => exact .group hi hr

theorem Closed.resume {f : Forest} (h : Closed f) : Closed f.resume := by
  cases h with
  | done => exact .done
  | leaf _ hr => exact hr.dropLeaves
  | group hi hr => exact (hi.closed.closedBy.append hr).dropLeaves

/-- Taking tokens from the front opens no list: it leaves closing parentheses without a partner. -/
theorem Tail.closed {items u : Forest} (h : Tail items u) (hw : Whole items) : Closed u := by
  induction h with
  | refl f => exact hw.closed
  | leaf _ ih =>
    cases hw with
    | leaf _ _ hr => exact ih hr
  | list _ ih =>
    cases hw with
    | group _ hr => exact ih hr
  | into _ ih =>
    cases hw with
    | group hi hr => exact (ih hi).closedBy.append hr.closed

theorem closedBy_ne_done (f : Forest) (c : Token) : f.closedBy (.closed c) ≠ done := by
  cases f <;> exact nofun

end Forest

namespace Reading

open Forest (Closed)

variable {limit : Nat}

/-- What the forms of a document declare. -/
def declares (limit : Nat) (f : Forest) : List Wire.Declaration := Step.declared (steps limit f)

/-- Tokens between forms declare nothing. -/
theorem declares_leaf (t : Token) (rest : Forest) :
    declares limit (.leaf t rest) = declares limit rest.dropLeaves := by
  rw [declares, steps_leaf, Step.declared_cons]
  rfl

theorem declares_dropLeaves (f : Forest) : declares limit f.dropLeaves = declares limit f := by
  cases f with
  | done => rfl
  | leaf t rest => exact (declares_leaf t rest).symm
  | list o items stop rest => rfl

theorem declares_dropLeaves_append (f g : Forest) :
    declares limit (f.dropLeaves ++ g) = declares limit (f ++ g) := by
  induction f with
  | done => rfl
  | leaf t rest ih =>
    rw [Forest.leaf_append, declares_leaf, declares_dropLeaves]
    exact ih
  | list o items stop rest => rfl

/-- Where there is a token to pass over, resuming looks at nothing behind. -/
theorem declares_resume_append {f : Forest} (h : f ≠ .done) (g : Forest) :
    declares limit (f ++ g).resume = declares limit (f.resume ++ g) := by
  cases f with
  | done => contradiction
  | leaf t rest =>
    rw [Forest.leaf_append, Forest.resume, Forest.resume, declares_dropLeaves,
      declares_dropLeaves_append]
  | list o items stop rest =>
    rw [Forest.list_append, Forest.resume, Forest.resume, declares_dropLeaves,
      declares_dropLeaves_append, Forest.append_assoc]

/-- What is left of a closed form is not nothing, and all lists in it are closed. -/
theorem closed_unread {items unread : Forest} (hitems : items.Whole)
    (h : (declaration limit (.bare .leftParen) items (.closed (.bare .rightParen))).outcome =
      .error unread) : Closed unread ∧ unread ≠ .done := by
  obtain ⟨u, hu, rfl⟩ := keeps_declaration items unread h
  exact ⟨(hu.closed hitems).closedBy, u.closedBy_ne_done _⟩

/-- Closed lists declare the same whatever follows them, and what follows them declares the same
whatever they are. -/
theorem declares_append {f : Forest} (hf : Closed f) (g : Forest) :
    declares limit (f ++ g) = declares limit f ++ declares limit g := by
  induction hn : f.size using Nat.strongRecOn generalizing f with
  | ind n ih =>
    subst hn
    cases hf with
    | done =>
      rw [declares, declares, declares, steps_done]
      rfl
    | @leaf k rest _ hrest =>
      rw [Forest.leaf_append, declares_leaf, declares_leaf, declares_dropLeaves,
        declares_dropLeaves]
      exact ih _ (by simp) hrest rfl
    | @group items rest hitems hrest =>
      rw [Forest.list_append]
      cases ho : (declaration limit (.bare .leftParen) items
        (.closed (.bare .rightParen))).outcome with
      | ok declared =>
        have hsize : rest.size < (Forest.group items rest).size := by
          rw [Forest.size_list]
          omega
        rw [declares, declares, steps_of_ok ho, steps_of_ok ho, Step.declared_cons,
          Step.declared_cons, List.append_assoc]
        congr 1
        exact ih _ hsize hrest rfl
      | error unread =>
        obtain ⟨hunread, hne⟩ := closed_unread hitems ho
        have happ : unread ++ rest ≠ .done := by
          cases unread <;> first | contradiction | exact nofun
        rw [declares, declares, steps_of_error ho, steps_of_error ho, Step.declared_cons,
          Step.declared_cons, ← Forest.append_assoc]
        change declares limit (unread ++ rest ++ g).resume =
          declares limit (unread ++ rest).resume ++ declares limit g
        rw [declares_resume_append happ]
        exact ih _ (size_resume_lt ho rest) (hunread.append hrest).resume rfl

end Reading

end SandboxProfile
