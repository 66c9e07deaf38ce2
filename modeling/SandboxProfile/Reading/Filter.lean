import SandboxProfile.Reading.Expr

/-!
# Reading filters

The first token of a list tells what filter it is. The parts of a compound filter are read one by
one, and one that cannot be read is left out; the part of a negation is needed. Of the values of a
simple filter the first is kept.
-/

namespace SandboxProfile

namespace Reading

/-- A filter with a type, of which the type was taken. -/
def simpleFilter (limit depth : Nat) (opened type : Token) (name : String) (items : Forest)
    (stop : ListEnd) : Reading Filter :=
  match items, stop with
  | .done, .closed c => giveUp ((SyntaxFault.filterWithoutValue name).diagnostic c.range) items stop
  | .done, .endOfFile _ last => unclosed .filter last items stop
  | _, _ => do
    let (value, more) ← expr limit depth stop items
    let (_, place) ← exprs limit depth .filter stop more
    pure (.simple name type.range value ⟨opened.range.start, place⟩)

/-- What follows the part of a negation: nothing but its end. -/
def negationEnd (extras : Forest) (stop : ListEnd) : Reading Position := do
  match extras.start?, extras.stop? with
  | some first, some last => note (SyntaxFault.negationOfSeveral.diagnostic ⟨first, last⟩)
  | _, _ => pure ()
  ending .negation stop

mutual

/-- The filter that a list is, behind its opening parenthesis. -/
def filter (limit depth : Nat) (opened : Token) (stop : ListEnd) : Forest → Reading Filter
  | .done =>
    match stop with
    | .closed c => do
      let range := opened.range.merge c.range
      note (SyntaxFault.emptyFilter.diagnostic range)
      pure (.expression (.list [] range))
    | .endOfFile .. => do
      let list ← listTail limit depth opened .done stop
      pure (.expression list)
  | .leaf t rest =>
    match t.kind with
    | .symbol name =>
      match CompoundKind.ofText? name with
      | some kind => do
        let (parts, place) ← filters limit depth kind stop rest
        pure (.compound kind parts ⟨opened.range.start, place⟩)
      | none =>
        if name = negationText then do
          let (part, place) ← negation limit depth stop rest
          pure (.negation part ⟨opened.range.start, place⟩)
        else simpleFilter limit depth opened t name rest stop
    | _ => do
      let list ← listTail limit depth opened (.leaf t rest) stop
      pure (.expression list)
  | .list o items e rest => do
    let list ← listTail limit depth opened (.list o items e rest) stop
    pure (.expression list)

/-- The part of a negation, and the place behind the negation. -/
def negation (limit depth : Nat) (stop : ListEnd) : Forest → Reading (Filter × Position)
  | .done =>
    match stop with
    | .closed c => giveUp (SyntaxFault.negationWithoutFilter.diagnostic c.range) .done stop
    | .endOfFile _ last => unclosed .negation last .done stop
  | .leaf t rest => expected .negatedFilter (.leaf t rest) stop
  | .list o items e extras => do
    enter limit depth o (.list o items e extras) stop
    let part ← (filter limit (depth + 1) o e items).inside extras stop
    let place ← negationEnd extras stop
    pure (part, place)

/-- The parts of a compound filter, and the place behind it. -/
def filters (limit depth : Nat) (kind : CompoundKind) (stop : ListEnd) :
    Forest → Reading (List Filter × Position)
  | .done => do
    let place ← ending (.compound kind) stop
    pure ([], place)
  | .leaf t rest => do
    note ((SyntaxFault.strayInCompound kind t.kind).diagnostic t.range)
    filters limit depth kind stop rest
  | .list o items e rest => do
    let part ← recover do
      enter limit depth o items e
      filter limit (depth + 1) o e items
    let (more, place) ← filters limit depth kind stop rest
    pure (part.toList ++ more, place)

end

/-- The operations and filters of a rule in any order, and the place behind the rule. -/
def ruleItems (limit : Nat) (stop : ListEnd) :
    Forest → Reading (List Operation × List Filter × Position)
  | .done => do
    let place ← ending .rule stop
    pure ([], [], place)
  | .leaf t rest =>
    match t.kind with
    | .symbol name => do
      let (operations, filters, place) ← ruleItems limit stop rest
      pure (⟨name, t.range⟩ :: operations, filters, place)
    | found => giveUp ((SyntaxFault.strayInRule found).diagnostic t.range) (.leaf t rest) stop
  | .list o items e rest => do
    let part ← recover do
      enter limit 0 o items e
      filter limit 1 o e items
    let (operations, filters, place) ← ruleItems limit stop rest
    pure (operations, part.toList ++ filters, place)

theorem keeps_ruleItems {limit : Nat} {stop : ListEnd} (items : Forest) :
    Keeps items stop (ruleItems limit stop items) := by
  induction items with
  | done =>
    rw [ruleItems]
    exact keeps_bind keeps_ending fun _ _ => keeps_pure _
  | leaf t rest ih =>
    rw [ruleItems]
    split
    · exact keeps_bind (keeps_leaf ih) fun _ _ => keeps_pure _
    · exact keeps_giveUp (.refl _)
  | list o inner e rest _ ih =>
    rw [ruleItems]
    refine keeps_bind (keeps_recover _) fun _ _ => ?_
    exact keeps_bind (keeps_list ih) fun _ _ => keeps_pure _

end Reading

end SandboxProfile
