import SandboxProfile.Reading.Fault
import SandboxProfile.Token.Forest

/-!
# Readings

A reading is the outcome of looking at a forest: what was found out along the way and either a value
or, when the reader gave up, the tokens it had not yet taken. A reader of a list counts what is left
of that list, its closing parenthesis included; one that reads a list inside another adds what
follows the inner one.
-/

namespace SandboxProfile

structure Reading (α : Type) where
  notes : List Diagnostic
  /-- The value, or what was left when the reader gave up. -/
  outcome : Except Forest α

namespace Reading

instance : Monad Reading where
  pure x := ⟨[], .ok x⟩
  bind r f :=
    match r.outcome with
    | .ok x =>
      let next := f x
      ⟨r.notes ++ next.notes, next.outcome⟩
    | .error unread => ⟨r.notes, .error unread⟩

def note (d : Diagnostic) : Reading Unit := ⟨[d], .ok ()⟩

/-- Gives up at the front of `items`, a part of a list that ends with `stop`. -/
def giveUp {α : Type} (d : Diagnostic) (items : Forest) (stop : ListEnd) : Reading α :=
  ⟨[d], .error (items.closedBy stop)⟩

/-- Gives up for want of something else at the front. -/
def expected {α : Type} (what : Expected) (items : Forest) (stop : ListEnd) : Reading α :=
  let (found, range) := items.next stop
  giveUp ((SyntaxFault.expected what found).diagnostic range) items stop

/-- Gives up for want of a closing parenthesis, which belongs at `place`. -/
def unclosed {α : Type} (what : Construct) (place : Position) (items : Forest) (stop : ListEnd) :
    Reading α :=
  let (found, range) := items.next stop
  giveUp (((SyntaxFault.unclosed what found).diagnostic range).withFix (.insertClose place))
    items stop

/-- The place behind the closing parenthesis, which has to come at once after `place`. -/
def closing (what : Construct) (place : Position) (items : Forest) (stop : ListEnd) :
    Reading Position :=
  match items, stop with
  | .done, .closed c => pure c.range.stop
  | _, _ => unclosed what place items stop

/-- The place behind a list of which nothing is left. -/
def ending (what : Construct) : ListEnd → Reading Position
  | .closed c => pure c.range.stop
  | .endOfFile range last => unclosed what last .done (.endOfFile range last)

/-- Goes on only where a list at `depth` does not nest too deep. -/
def enter (limit depth : Nat) (opened : Token) (items : Forest) (stop : ListEnd) : Reading Unit :=
  if depth < limit then pure ()
  else giveUp ((SyntaxFault.nestingTooDeep limit).diagnostic opened.range) items stop

/-- A reading of a list inside another: if it was given up, what follows is unread too. -/
def inside {α : Type} (rest : Forest) (stop : ListEnd) (r : Reading α) : Reading α :=
  match r.outcome with
  | .ok x => ⟨r.notes, .ok x⟩
  | .error unread => ⟨r.notes, .error (unread ++ rest.closedBy stop)⟩

/-- Nothing in place of a value, where the reader gave up. -/
def recover {α : Type} (r : Reading α) : Reading (Option α) := ⟨r.notes, .ok r.outcome.toOption⟩

/-! ### What is left -/

open Forest (Tail)

variable {α β : Type} {items : Forest} {stop : ListEnd}

/-- If the reader gave up, it left a part of `items` and the end of the list. -/
def Keeps (items : Forest) (stop : ListEnd) (r : Reading α) : Prop :=
  ∀ unread, r.outcome = .error unread → ∃ u, Tail items u ∧ unread = u.closedBy stop

theorem keeps_pure (x : α) : Keeps items stop (pure x) := fun _ h => nomatch h

theorem keeps_note (d : Diagnostic) : Keeps items stop (note d) := fun _ h => nomatch h

theorem keeps_recover (r : Reading α) : Keeps items stop r.recover := fun _ h => nomatch h

theorem keeps_bind {r : Reading α} {f : α → Reading β} (hr : Keeps items stop r)
    (hf : ∀ x, r.outcome = .ok x → Keeps items stop (f x)) : Keeps items stop (r >>= f) := by
  obtain ⟨notes, outcome⟩ := r
  intro unread h
  cases outcome with
  | ok x => exact hf x rfl unread h
  | error u =>
    obtain rfl : u = unread := Except.error.inj h
    exact hr u rfl

theorem keeps_map {f : α → β} {r : Reading α} (h : Keeps items stop r) :
    Keeps items stop (f <$> r) :=
  keeps_bind h fun _ _ => keeps_pure _

theorem keeps_giveUp {d : Diagnostic} {u : Forest} (h : Tail items u) :
    Keeps items stop (giveUp d u stop : Reading α) := by
  rintro unread ⟨⟩
  exact ⟨u, h, rfl⟩

theorem keeps_expected {what : Expected} {u : Forest} (h : Tail items u) :
    Keeps items stop (expected what u stop : Reading α) :=
  keeps_giveUp h

theorem keeps_unclosed {what : Construct} {place : Position} {u : Forest} (h : Tail items u) :
    Keeps items stop (unclosed what place u stop : Reading α) :=
  keeps_giveUp h

theorem keeps_closing {what : Construct} {place : Position} {u : Forest} (h : Tail items u) :
    Keeps items stop (closing what place u stop) := by
  unfold closing
  split
  · exact keeps_pure _
  · exact keeps_unclosed h

theorem keeps_ending {what : Construct} : Keeps items stop (ending what stop) := by
  cases stop with
  | closed c => exact keeps_pure _
  | endOfFile range last =>
    rw [ending]
    exact keeps_unclosed (Forest.tail_done _)

theorem keeps_enter {limit depth : Nat} {o : Token} {u : Forest} (h : Tail items u) :
    Keeps items stop (enter limit depth o u stop) := by
  unfold enter
  split
  · exact keeps_pure _
  · exact keeps_giveUp h

/-- What a reader of the rest of a list keeps of the rest it keeps of the list. -/
theorem keeps_leaf {t : Token} {rest : Forest} {r : Reading α} (h : Keeps rest stop r) :
    Keeps (.leaf t rest) stop r := by
  intro unread hunread
  obtain ⟨u, hu, rfl⟩ := h unread hunread
  exact ⟨u, .leaf hu, rfl⟩

theorem keeps_list {o : Token} {inner rest : Forest} {e : ListEnd} {r : Reading α}
    (h : Keeps rest stop r) : Keeps (.list o inner e rest) stop r := by
  intro unread hunread
  obtain ⟨u, hu, rfl⟩ := h unread hunread
  exact ⟨u, .list hu, rfl⟩

/-- What a reader of a list inside keeps, with what follows that list. -/
theorem keeps_inside {o : Token} {inner rest : Forest} {e : ListEnd} {r : Reading α}
    (h : Keeps inner e r) : Keeps (.list o inner e rest) stop (r.inside rest stop) := by
  obtain ⟨notes, outcome⟩ := r
  intro unread hu
  cases outcome with
  | ok x => cases hu
  | error u =>
    obtain ⟨v, hv, rfl⟩ := h u rfl
    cases hu
    exact ⟨_, .into hv, Forest.closedBy_append v e rest stop⟩

/-- Whether a reader that gave up left at most `n` tokens. -/
def Leaves {α : Type} (n : Nat) (r : Reading α) : Prop :=
  ∀ unread, r.outcome = .error unread → unread.size ≤ n

theorem leaves_of_keeps {r : Reading α} (h : Keeps items stop r) :
    Leaves (items.size + stop.tokens.length) r := by
  intro unread hunread
  obtain ⟨u, hu, rfl⟩ := h unread hunread
  rw [Forest.size_closedBy]
  exact Nat.add_le_add_right hu.size_le _

end Reading

end SandboxProfile
