import Mathlib.Data.List.TakeWhile
import SandboxProfile.Reading.Profile

/-!
# Reading with a cursor

A document can be read without grouping its tokens first. A cursor moves over the tokens, a counter
tells how deep filters and lists nest where it stands, and all that is found goes to one collector.
A walk that gives up leaves the cursor where it stood, in the middle of a list as may be; whoever
went that way may put it back to where the list began and pass over the whole list. As the cursor
goes back, nothing that gets less with every step is at hand: a walk is given the number `n` of
walks that may be under way inside it, and one that needs more has no result (`lost`).
-/

namespace SandboxProfile

/-- The end of the file at a place, where none was given out. -/
def Token.ended (p : Position) : Token := ⟨.endOfFile, "", .point p, .point p, [], []⟩

/-- The tokens of a document, the end of the file last. -/
structure Stream where
  own : List Token
  last : Token
  own_isEnd : ∀ t ∈ own, t.isEnd = false
  last_isEnd : last.isEnd = true

/-- Where a reader stands in a stream, how deep in filters and lists, and what was found so far. -/
structure Cursor where
  index : Nat
  depth : Nat
  found : Collector

namespace Cursor

def moved (c : Cursor) (index : Nat) : Cursor := ⟨index, c.depth, c.found⟩

def deeper (c : Cursor) : Cursor := ⟨c.index, c.depth + 1, c.found⟩

def shallower (c : Cursor) : Cursor := ⟨c.index, c.depth - 1, c.found⟩

def told (c : Cursor) (d : Diagnostic) : Cursor := ⟨c.index, c.depth, (c.found.push d).2⟩

end Cursor

namespace Stream

/-- The token at an index, the end of the file behind all others. -/
def token (s : Stream) (index : Nat) : Token := s.own[index]?.getD s.last

/-- Where the token in front of an index ends. -/
def stopBefore (s : Stream) : Nat → Position
  | 0 => .origin
  | index + 1 => (s.own[index]?.map (·.range.stop)).getD .origin

/-- The stream of a document's tokens, up to the end of the file. -/
def ofTokens (ts : List Token) : Stream where
  own := ts.takeWhile (!·.isEnd)
  last := (ts.find? (·.isEnd)).getD
    (.ended (((ts.takeWhile (!·.isEnd)).getLast?.map (·.range.stop)).getD .origin))
  own_isEnd t ht := by simpa using List.mem_takeWhile_imp ht
  last_isEnd := by
    cases h : ts.find? (·.isEnd) with
    | none => rfl
    | some t => exact List.find?_some h

/-- There is a token of the document at every index where the file does not end. -/
theorem lt_length {s : Stream} {index : Nat} (h : (s.token index).kind ≠ .endOfFile) :
    index < s.own.length := by
  by_contra hge
  have hend : s.token index = s.last := by
    rw [token, List.getElem?_eq_none (Nat.le_of_not_lt hge)]
    rfl
  have hlast := s.last_isEnd
  rw [← hend, Token.isEnd, decide_eq_true_eq] at hlast
  exact h hlast

/-- The end of a list in which `lists` more are open at an index, if it has one, and the index
behind it. -/
def closeFrom (s : Stream) (lists index : Nat) : Option Position × Nat :=
  if _h : (s.token index).kind = .endOfFile then (none, index)
  else
    match (s.token index).kind with
    | .leftParen => s.closeFrom (lists + 1) (index + 1)
    | .rightParen =>
      if lists = 0 then (some (s.token index).range.stop, index + 1)
      else s.closeFrom (lists - 1) (index + 1)
    | _ => s.closeFrom lists (index + 1)
termination_by s.own.length - index
decreasing_by all_goals
  have hlt := lt_length _h
  omega

/-- The next index at which a list begins or the file ends. -/
def listFrom (s : Stream) (index : Nat) : Nat :=
  if h : (s.token index).kind = .endOfFile ∨ (s.token index).kind = .leftParen then index
  else s.listFrom (index + 1)
termination_by s.own.length - index
decreasing_by
  have hlt := lt_length (not_or.mp h).1
  omega

end Stream

/-- A profile with one declaration more. Of several versions or debug modes the first is kept. -/
def Profile.add (p : Profile) : Declaration → Profile
  | .version v => { p with version := p.version <|> some v }
  | .debug m => { p with debug := p.debug <|> some m }
  | .importPath i => { p with imports := p.imports ++ [i] }
  | .definition d => { p with definitions := p.definitions ++ [d] }
  | .rule r => { p with rules := p.rules ++ [r] }

/-- A way over a stream, which moves the cursor: it gives a value, or it gives up. -/
abbrev Walk := ExceptT Unit (StateT Cursor Option)

namespace Walk

variable (s : Stream) {α : Type}

/-- What a walk comes to from a cursor: a value or none, and where it leaves the cursor. -/
def run (w : Walk α) (c : Cursor) : Option (Except Unit α × Cursor) := (ExceptT.run w).run c

/-! ### Single steps -/

/-- A walk that comes to nothing. -/
def lost : Walk α := fun _ => none

/-- The token under the cursor. -/
def peek : Walk Token := do pure (s.token (← get).index)

/-- Takes the token under the cursor, if it is not the end of the file, and tells its range. -/
def bump : Walk Range := do
  let t ← peek s
  if !t.isEnd then modify fun c => c.moved (c.index + 1)
  pure t.range

def report (d : Diagnostic) : Walk Unit := modify (·.told d)

def giveUp (d : Diagnostic) : Walk α := do
  report d
  throw ()

/-- Gives up for a fault at the token under the cursor. -/
def fail (fault : SyntaxFault) : Walk α := do
  let t ← peek s
  giveUp (fault.diagnostic t.range)

def expected (what : Expected) : Walk α := do
  let t ← peek s
  giveUp ((SyntaxFault.expected what t.kind).diagnostic t.range)

/-- Gives up for want of a closing parenthesis behind the last token taken. -/
def unclosed (what : Construct) : Walk α := do
  let t ← peek s
  let place := s.stopBefore (← get).index
  giveUp (((SyntaxFault.unclosed what t.kind).diagnostic t.range).withFix (.insertClose place))

/-- Takes a closing parenthesis. -/
def close (what : Construct) : Walk Position := do
  let t ← peek s
  match t.kind with
  | .rightParen => do pure (← bump s).stop
  | _ => unclosed s what

/-- What comes of a walk, which gives up in no case. -/
def outcome (w : Walk α) : Walk (Except Unit α) := ExceptT.lift (ExceptT.run w)

/-- A walk one level deeper, if it may nest as deep. -/
def nested (limit : Nat) (w : Walk α) : Walk α := do
  if (← get).depth < limit then
    modify Cursor.deeper
    let result ← outcome w
    modify Cursor.shallower
    liftExcept result
  else fail s (.nestingTooDeep limit)

/-! ### Passing over tokens -/

/-- Passes over the rest of the list that the cursor is in, and tells where it ends. -/
def skipToClose : Walk (Option Position) :=
  modifyGet fun c => ((s.closeFrom 0 c.index).1, c.moved (s.closeFrom 0 c.index).2)

/-- Passes over the list under the cursor. -/
def skipList : Walk (Option Position) := do
  let _ ← bump s
  skipToClose s

/-- Goes back to the parenthesis at an index and passes over its list. -/
def recover (index : Nat) : Walk Unit := do
  modify (·.moved index)
  let _ ← skipList s

/-- A walk over the list under the cursor. Where it gives up, the list is passed over. -/
def attempt (w : Walk α) : Walk (Option α) := do
  let index := (← get).index
  match ← outcome w with
  | .ok x => pure (some x)
  | .error _ => do
    recover s index
    pure none

/-- Goes on to the next opening parenthesis behind the token under the cursor. -/
def resume : Walk Unit := do
  let _ ← bump s
  modify fun c => c.moved (s.listFrom c.index)

/-! ### Expressions -/

mutual

def expr (limit : Nat) : Nat → Walk Expr
  | 0 => lost
  | n + 1 => do
    let t ← peek s
    match t.kind with
    | .leftParen => nested s limit do
      let opened ← bump s
      let (items, stop) ← exprs limit .list n
      pure (.list items ⟨opened.start, stop⟩)
    | .endOfFile => unclosed s .list
    | _ =>
      match Expr.ofToken? t with
      | some atom => do
        let _ ← bump s
        pure atom
      | none => expected s .expression

/-- The expressions up to the end of a list, and the place behind that end. -/
def exprs (limit : Nat) (what : Construct) : Nat → Walk (List Expr × Position)
  | 0 => lost
  | n + 1 => do
    let t ← peek s
    match t.kind with
    | .rightParen => do pure ([], (← bump s).stop)
    | .endOfFile => unclosed s what
    | _ => do
      let x ← expr limit n
      let (more, stop) ← exprs limit what n
      pure (x :: more, stop)

end

/-! ### Filters -/

/-- A filter with a type, which is under the cursor. -/
def simpleFilter (limit : Nat) (start : Position) (name : String) (n : Nat) : Walk Filter := do
  let type ← bump s
  let t ← peek s
  match t.kind with
  | .rightParen => fail s (.filterWithoutValue name)
  | .endOfFile => unclosed s .filter
  | _ => do
    let value ← expr s limit n
    let (_, stop) ← exprs s limit .filter n
    pure (.simple name type value ⟨start, stop⟩)

/-- Passes over what is left of a list up to its closing parenthesis, and tells where the last of it
ends; `seen` is the end of what was passed over before. -/
def skipExtras : Nat → Option Position → Walk (Option Position)
  | 0, _ => lost
  | n + 1, seen => do
    let t ← peek s
    match t.kind with
    | .rightParen | .endOfFile => pure seen
    | .leftParen => do
      let stop ← skipList s
      let next ← peek s
      skipExtras n (some (stop.getD next.range.start))
    | _ => do
      let range ← bump s
      skipExtras n (some range.stop)

mutual

def filter (limit : Nat) : Nat → Walk Filter
  | 0 => lost
  | n + 1 => nested s limit do
    let opened ← bump s
    let t ← peek s
    match t.kind with
    | .symbol name =>
      match CompoundKind.ofText? name with
      | some kind => do
        let _ ← bump s
        let (parts, stop) ← parts limit kind n
        pure (.compound kind parts ⟨opened.start, stop⟩)
      | none =>
        if name = negationText then negation limit opened.start n
        else simpleFilter s limit opened.start name n
    | .rightParen => do
      let range := opened.merge (← bump s)
      report (SyntaxFault.emptyFilter.diagnostic range)
      pure (.expression (.list [] range))
    | _ => do
      let (items, stop) ← exprs s limit .list n
      pure (.expression (.list items ⟨opened.start, stop⟩))

/-- The parts of a compound filter, and the place behind it. -/
def parts (limit : Nat) (kind : CompoundKind) : Nat → Walk (List Filter × Position)
  | 0 => lost
  | n + 1 => do
    let t ← peek s
    match t.kind with
    | .leftParen => do
      let part ← attempt s (filter limit n)
      let (more, stop) ← parts limit kind n
      pure (part.toList ++ more, stop)
    | .rightParen => do pure ([], (← bump s).stop)
    | .endOfFile => unclosed s (.compound kind)
    | found => do
      let range ← bump s
      report ((SyntaxFault.strayInCompound kind found).diagnostic range)
      parts limit kind n

/-- A negation, of which the type is under the cursor. -/
def negation (limit : Nat) (start : Position) : Nat → Walk Filter
  | 0 => lost
  | n + 1 => do
    let _ ← bump s
    let t ← peek s
    match t.kind with
    | .leftParen => do
      let part ← filter limit n
      let first ← peek s
      match ← skipExtras s n none with
      | some last => report (SyntaxFault.negationOfSeveral.diagnostic ⟨first.range.start, last⟩)
      | none => pure ()
      let stop ← close s .negation
      pure (.negation part ⟨start, stop⟩)
    | .rightParen => fail s .negationWithoutFilter
    | .endOfFile => unclosed s .negation
    | _ => expected s .negatedFilter

end

/-! ### Forms -/

/-- A version declaration, of which the head is under the cursor. -/
def version (start : Position) : Walk Version := do
  let _ ← bump s
  let t ← peek s
  match t.kind with
  | .integer n => do
    let _ ← bump s
    pure ⟨n, ⟨start, ← close s .version⟩⟩
  | _ => expected s .versionNumber

/-- The mode that the token under the cursor names; one that names none counts as "deny" and is
reported. -/
def debugAction : Walk Action := do
  let t ← peek s
  match t.kind with
  | .rightParen | .endOfFile => fail s .debugWithoutMode
  | .leftParen => expected s .debugMode
  | .symbol "allow" => do
    let _ ← bump s
    pure .allow
  | .symbol "deny" => do
    let _ ← bump s
    pure .deny
  | found => do
    let range ← bump s
    report ((SyntaxFault.invalidDebugMode found).diagnostic range)
    pure .deny

def debugMode (start : Position) : Walk DebugMode := do
  let _ ← bump s
  let action ← debugAction s
  pure ⟨action, ⟨start, ← close s .debug⟩⟩

def importPath (start : Position) : Walk Import := do
  let _ ← bump s
  let t ← peek s
  match t.kind with
  | .string path | .rawString path => do
    let range ← bump s
    pure ⟨path, range, ⟨start, ← close s .importPath⟩⟩
  | _ => expected s .importPath

/-- The head of a definition with parameters. -/
def definitionHead : Walk (String × Range) := do
  let _ ← bump s
  let t ← peek s
  match t.kind with
  | .symbol name => do
    let range ← bump s
    match ← skipToClose s with
    | some _ => pure (name, range)
    | none => unclosed s .definitionHead
  | _ => expected s .definitionName

def definitionName : Walk (String × Range) := do
  let t ← peek s
  match t.kind with
  | .symbol name => do pure (name, ← bump s)
  | .leftParen => definitionHead s
  | .rightParen | .endOfFile => fail s .definitionWithoutName
  | _ => expected s .definitionName

def definition (limit : Nat) (start : Position) (n : Nat) : Walk Definition := do
  let _ ← bump s
  let (name, nameRange) ← definitionName s
  let t ← peek s
  match t.kind with
  | .rightParen | .endOfFile => fail s (.definitionWithoutValue name)
  | _ => do
    let value ← expr s limit n
    pure ⟨name, nameRange, value, ⟨start, ← close s .definition⟩⟩

/-- The operations and filters of a rule, and the place behind it. -/
def ruleItems (limit : Nat) : Nat → Walk (List Operation × List Filter × Position)
  | 0 => lost
  | n + 1 => do
    let t ← peek s
    match t.kind with
    | .symbol name => do
      let range ← bump s
      let (operations, filters, stop) ← ruleItems limit n
      pure (⟨name, range⟩ :: operations, filters, stop)
    | .leftParen => do
      let part ← attempt s (filter s limit n)
      let (operations, filters, stop) ← ruleItems limit n
      pure (operations, part.toList ++ filters, stop)
    | .rightParen => do pure ([], [], (← bump s).stop)
    | .endOfFile => unclosed s .rule
    | found => fail s (.strayInRule found)

def rule (limit : Nat) (action : Action) (start : Position) (n : Nat) : Walk Rule := do
  let _ ← bump s
  let (operations, filters, stop) ← ruleItems s limit n
  if operations.isEmpty && filters.isEmpty then
    report ((SyntaxFault.emptyRule action).diagnostic ⟨start, stop⟩)
  pure ⟨action, operations, filters, ⟨start, stop⟩⟩

/-- A form with a head of no meaning. -/
def unrecognized (head : String) : Walk Unit := do
  let range ← bump s
  report ((SyntaxFault.unrecognizedForm head).diagnostic range)
  match ← skipToClose s with
  | some _ => pure ()
  | none => do
    let t ← peek s
    report ((SyntaxFault.unclosedForm head).diagnostic t.range)

/-- Takes in a declaration, or reports that it comes too late. -/
def declare (p : Profile) (d : Declaration) : Walk Profile :=
  match d.late? p.version p.debug with
  | some late => do
    report late
    pure p
  | none => pure (p.add d)

/-- The form under the cursor, into a profile. -/
def form (limit n : Nat) (p : Profile) : Walk Profile := do
  let opened ← bump s
  let t ← peek s
  match t.kind with
  | .symbol "version" => do declare p (.version (← version s opened.start))
  | .symbol "debug" => do declare p (.debug (← debugMode s opened.start))
  | .symbol "import" => do declare p (.importPath (← importPath s opened.start))
  | .symbol "define" => do declare p (.definition (← definition s limit opened.start n))
  | .symbol "allow" => do declare p (.rule (← rule s limit .allow opened.start n))
  | .symbol "deny" => do declare p (.rule (← rule s limit .deny opened.start n))
  | .symbol head => do
    unrecognized s head
    pure p
  | .rightParen => do
    report (SyntaxFault.emptyForm.diagnostic (opened.merge (← bump s)))
    pure p
  | _ => expected s .formName

/-- All forms up to the end of the file, into a profile. Where one is given up, the next is the
first list behind the token under the cursor. -/
def forms (limit : Nat) : Nat → Profile → Walk Profile
  | 0, _ => lost
  | n + 1, p => do
    let t ← peek s
    match t.kind with
    | .endOfFile => pure p
    | .leftParen =>
      match ← outcome (form s limit n p) with
      | .ok next => forms limit n next
      | .error _ => do
        resume s
        forms limit n p
    | found => do
      report ((SyntaxFault.strayAtTop found).diagnostic t.range)
      resume s
      forms limit n p

/-- What comes of a walk over a text in which filters and lists nest at most `limit` deep, with
twice as many walks under way at a time as there are tokens, and one more. -/
def read (limit : Nat) (text : String) : Option Profile.Outcome :=
  let (tokens, faults) := tokenize text
  let s := Stream.ofTokens tokens
  match (forms s limit (2 * s.own.length + 1) .empty).run ⟨0, 0, .ofList faults⟩ with
  | some (.ok p, c) =>
    some ⟨{ p with range := (Document.ofString text).fullRange }, c.found.toList⟩
  | _ => none

end Walk

end SandboxProfile
