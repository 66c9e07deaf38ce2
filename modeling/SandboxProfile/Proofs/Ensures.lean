import SandboxProfile.Reading.Profile

/-!
# What a reading ensures

A condition on whatever came of a reading, on texts in order and on erroneous ones: on all that it
found out, and on the value if there is one. It is put together along the reader, and over the steps
of a document by induction (`steps_induction`).
-/

namespace SandboxProfile

namespace Reading

variable {α β : Type} {N : Diagnostic → Prop} {P Q : α → Prop}

/-- Whether all diagnostics of a reading satisfy one condition, and its value, if there is one,
satisfies another. -/
structure Ensures (N : Diagnostic → Prop) (P : α → Prop) (r : Reading α) : Prop where
  notes : ∀ n ∈ r.notes, N n
  value : ∀ x, r.outcome = .ok x → P x

theorem Ensures.imp {r : Reading α} (h : Ensures N P r) (hPQ : ∀ x, P x → Q x) :
    Ensures N Q r :=
  ⟨h.notes, fun x hx => hPQ x (h.value x hx)⟩

theorem ensures_pure {x : α} (h : P x) : Ensures N P (pure x) := by
  refine ⟨List.forall_mem_nil _, fun y hy => ?_⟩
  obtain rfl : x = y := Except.ok.inj hy
  exact h

theorem ensures_note {n : Diagnostic} (h : N n) : Ensures N (fun _ => True) (note n) :=
  ⟨List.forall_mem_singleton.mpr h, fun _ _ => trivial⟩

theorem ensures_giveUp {n : Diagnostic} (h : N n) (items : Forest) (stop : ListEnd) :
    Ensures N P (giveUp n items stop) :=
  ⟨List.forall_mem_singleton.mpr h, fun _ hx => nomatch hx⟩

theorem ensures_bind {R : β → Prop} {r : Reading α} {f : α → Reading β} (hr : Ensures N P r)
    (hf : ∀ x, P x → Ensures N R (f x)) : Ensures N R (r >>= f) := by
  obtain ⟨notes, outcome⟩ := r
  cases outcome with
  | ok x =>
    have hnext := hf x (hr.value x rfl)
    exact ⟨List.forall_mem_append.mpr ⟨hr.notes, hnext.notes⟩, hnext.value⟩
  | error unread => exact ⟨hr.notes, fun _ hx => nomatch hx⟩

theorem ensures_map {R : β → Prop} {r : Reading α} {g : α → β} (hr : Ensures N P r)
    (hg : ∀ x, P x → R (g x)) : Ensures N R (g <$> r) :=
  ensures_bind hr fun x hx => ensures_pure (hg x hx)

theorem ensures_inside {r : Reading α} (rest : Forest) (stop : ListEnd) (h : Ensures N P r) :
    Ensures N P (r.inside rest stop) := by
  obtain ⟨notes, outcome⟩ := r
  cases outcome with
  | ok x => exact ⟨h.notes, h.value⟩
  | error unread => exact ⟨h.notes, fun _ hx => nomatch hx⟩

theorem ensures_recover {r : Reading α} (h : Ensures N P r) :
    Ensures N (fun x? => ∀ x ∈ x?, P x) r.recover := by
  refine ⟨h.notes, fun x? hx? x hx => h.value x ?_⟩
  obtain rfl : r.outcome.toOption = x? := Except.ok.inj hx?
  cases houtcome : r.outcome with
  | ok y =>
    rw [houtcome] at hx
    exact congrArg Except.ok (Option.some.inj hx)
  | error unread =>
    rw [houtcome] at hx
    cases hx

theorem ensures_enter {limit depth : Nat} {opened : Token} {items : Forest} {stop : ListEnd}
    (h : N ((SyntaxFault.nestingTooDeep limit).diagnostic opened.range)) :
    Ensures N (fun _ => True) (enter limit depth opened items stop) := by
  unfold enter
  split
  · exact ensures_pure trivial
  · exact ensures_giveUp h _ _

/-- Induction along the steps of a forest: behind a form that was read the forest goes on with what
follows it, behind one that was given up with the next list in what was left. -/
@[elab_as_elim]
theorem steps_induction (limit : Nat) {motive : Forest → Prop} (done : motive .done)
    (leaf : ∀ t rest, motive rest.dropLeaves → motive (.leaf t rest))
    (read : ∀ o items stop rest declared, (declaration limit o items stop).outcome = .ok declared →
      motive rest → motive (.list o items stop rest))
    (givenUp : ∀ o items stop rest unread,
      (declaration limit o items stop).outcome = .error unread →
      motive (unread ++ rest).resume → motive (.list o items stop rest)) (f : Forest) : motive f :=
  steps.induct limit motive done leaf read givenUp f

end Reading

end SandboxProfile
