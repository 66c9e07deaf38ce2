import SandboxProfile.Reading.Basic

/-!
# Reading expressions

Expressions are read one after the other up to the end of the list they stand in. The first token
that is no expression, or the first list that nests too deep, ends the reading.
-/

namespace SandboxProfile

/-- The atom that a token is. -/
def Expr.ofToken? (t : Token) : Option Expr :=
  match t.kind with
  | .integer n => some (.integer n t.range)
  | .string s => some (.string s t.range)
  | .rawString s => some (.rawString s t.range)
  | .boolean b => some (.boolean b t.range)
  | .symbol name => some (.symbol name t.range)
  | _ => none

namespace Reading

/-- The expressions up to the end of a list, and the place behind that end. A list that is not
closed is reported as `what`. -/
def exprs (limit depth : Nat) (what : Construct) (stop : ListEnd) :
    Forest → Reading (List Expr × Position)
  | .done => do
    let place ← ending what stop
    pure ([], place)
  | .leaf t rest =>
    match Expr.ofToken? t with
    | some atom => do
      let (more, place) ← exprs limit depth what stop rest
      pure (atom :: more, place)
    | none => expected .expression (.leaf t rest) stop
  | .list o items e rest => do
    enter limit depth o (.list o items e rest) stop
    let (inner, place) ← (exprs limit (depth + 1) .list e items).inside rest stop
    let (more, last) ← exprs limit depth what stop rest
    pure (.list inner ⟨o.range.start, place⟩ :: more, last)

/-- The list behind its opening parenthesis, whose items nest no deeper than `depth`. -/
def listTail (limit depth : Nat) (opened : Token) (items : Forest) (stop : ListEnd) :
    Reading Expr := do
  let (inner, place) ← exprs limit depth .list stop items
  pure (.list inner ⟨opened.range.start, place⟩)

/-- The expression at the front, and what follows it in its list. -/
def expr (limit depth : Nat) (stop : ListEnd) (items : Forest) : Reading (Expr × Forest) :=
  match items with
  | .leaf t rest =>
    match Expr.ofToken? t with
    | some atom => pure (atom, rest)
    | none => expected .expression items stop
  | .list o inner e rest => do
    enter limit depth o items stop
    let list ← (listTail limit (depth + 1) o inner e).inside rest stop
    pure (list, rest)
  | .done => expected .expression items stop

open Forest (Tail)

variable {limit depth : Nat} {what : Construct} {stop : ListEnd}

theorem keeps_exprs (items : Forest) : Keeps items stop (exprs limit depth what stop items) := by
  induction items generalizing depth what stop with
  | done =>
    rw [exprs]
    exact keeps_bind keeps_ending fun _ _ => keeps_pure _
  | leaf t rest ih =>
    rw [exprs]
    split
    · exact keeps_bind (keeps_leaf ih) fun _ _ => keeps_pure _
    · exact keeps_expected (.refl _)
  | list o inner e rest ihi ihr =>
    rw [exprs]
    refine keeps_bind (keeps_enter (.refl _)) fun _ _ => ?_
    refine keeps_bind (keeps_inside ihi) fun _ _ => ?_
    exact keeps_bind (keeps_list ihr) fun _ _ => keeps_pure _

theorem keeps_listTail {o : Token} (items : Forest) :
    Keeps items stop (listTail limit depth o items stop) :=
  keeps_bind (keeps_exprs items) fun _ _ => keeps_pure _

theorem keeps_expr (items : Forest) : Keeps items stop (expr limit depth stop items) := by
  unfold expr
  split
  · split
    · exact keeps_pure _
    · exact keeps_expected (.refl _)
  · refine keeps_bind (keeps_enter (.refl _)) fun _ _ => ?_
    exact keeps_bind (keeps_inside (keeps_listTail _)) fun _ _ => keeps_pure _
  · exact keeps_expected (.refl _)

/-- Behind an expression the rest of the list is left. -/
theorem tail_of_expr {items rest : Forest} {x : Expr}
    (h : (expr limit depth stop items).outcome = .ok (x, rest)) : Tail items rest := by
  revert h
  unfold expr
  split
  · split
    · intro h
      cases h
      exact .leaf (.refl _)
    · intro h
      cases h
  · intro h
    simp only [bind, pure] at h
    split at h
    · split at h
      · cases h
        exact .list (.refl _)
      · cases h
    · cases h
  · intro h
    cases h

end Reading

end SandboxProfile
