import SandboxProfile.Token.Basic

/-!
# Tokens grouped by parentheses

A forest is the tokens of a document with those between an opening parenthesis and its partner put
into one list. Nothing is lost: a closing parenthesis without a partner is a leaf, and a list
without one holds all tokens up to the end of the file. The tokens of a forest made of tokens are
these tokens again (`tokens_ofOwn`).
-/

namespace SandboxProfile

/-- How a list ends. -/
inductive ListEnd where
  | closed (token : Token)
  /-- Not before the end of the file, which stands at `range`, after a token that ends at `last`. -/
  | endOfFile (range : Range) (last : Position)
deriving DecidableEq, Repr, Inhabited

namespace ListEnd

def kind : ListEnd → TokenKind
  | closed _ => .rightParen
  | endOfFile _ _ => .endOfFile

def range : ListEnd → Range
  | closed t => t.range
  | endOfFile r _ => r

def tokens : ListEnd → List Token
  | closed t => [t]
  | endOfFile _ _ => []

end ListEnd

inductive Forest where
  | done
  | leaf (token : Token) (rest : Forest)
  | list (opened : Token) (items : Forest) (stop : ListEnd) (rest : Forest)
deriving DecidableEq, Repr, Inhabited

namespace Forest

/-- All tokens, in order. -/
def tokens : Forest → List Token
  | done => []
  | leaf t rest => t :: rest.tokens
  | list o items stop rest => o :: (items.tokens ++ (stop.tokens ++ rest.tokens))

/-- The number of tokens. -/
def size (f : Forest) : Nat := f.tokens.length

protected def append : Forest → Forest → Forest
  | done, g => g
  | leaf t rest, g => leaf t (rest.append g)
  | list o items stop rest, g => list o items stop (rest.append g)

instance : Append Forest := ⟨Forest.append⟩

/-- The closing parenthesis of a list, as a leaf of its own. -/
def ofEnd : ListEnd → Forest
  | .closed t => leaf t done
  | .endOfFile _ _ => done

/-- What follows in a list, its end included, as a forest of its own. -/
def closedBy (f : Forest) (stop : ListEnd) : Forest := f ++ ofEnd stop

def dropLeaves : Forest → Forest
  | leaf _ rest => rest.dropLeaves
  | f => f

/-- The next list that begins after the first token. -/
def resume : Forest → Forest
  | done => done
  | leaf _ rest => rest.dropLeaves
  | list _ items stop rest => (items.closedBy stop ++ rest).dropLeaves

/-- What a reader at the front meets, and where; behind the last tree that is the end of the list.
-/
def next (stop : ListEnd) : Forest → TokenKind × Range
  | done => (stop.kind, stop.range)
  | leaf t _ => (t.kind, t.range)
  | list o _ _ _ => (.leftParen, o.range)

/-- Where the last tree ends, if there is one. A list that is not closed ends where the file does.
-/
def stop? : Forest → Option Position
  | done => none
  | leaf t rest => some (rest.stop?.getD t.range.stop)
  | list _ _ (.closed c) rest => some (rest.stop?.getD c.range.stop)
  | list _ _ (.endOfFile r _) rest => some (rest.stop?.getD r.start)

/-- Where the first tree begins, if there is one. -/
def start? : Forest → Option Position
  | done => none
  | leaf t _ => some t.range.start
  | list o _ _ _ => some o.range.start

/-! ### Grouping -/

/-- Trees read from the right: those in front, and closing parentheses that wait for a partner, the
leftmost first, each with the trees that follow it. -/
structure Partial where
  front : Forest
  waiting : List (Token × Forest)
deriving Repr

/-- Puts a token in front. -/
def Partial.add (atEnd : ListEnd) (t : Token) (p : Partial) : Partial :=
  match t.kind with
  | .rightParen => ⟨done, (t, p.front) :: p.waiting⟩
  | .leftParen =>
    match p.waiting with
    | [] => ⟨list t p.front atEnd done, []⟩
    | (c, after) :: more => ⟨list t p.front (.closed c) after, more⟩
  | _ => ⟨leaf t p.front, p.waiting⟩

/-- Closing parentheses without a partner become leaves. -/
def settle (front : Forest) : List (Token × Forest) → Forest
  | [] => front
  | (c, after) :: more => front ++ leaf c (settle after more)

/-- Groups tokens among which there is no end of file. -/
def ofOwn (atEnd : ListEnd) (ts : List Token) : Forest :=
  let p := ts.foldr (Partial.add atEnd) ⟨done, []⟩
  settle p.front p.waiting

/-- Groups the tokens of a document up to the end of the file. -/
def ofTokens (ts : List Token) : Forest :=
  let own := ts.takeWhile (!·.isEnd)
  let last := (own.getLast?.map (·.range.stop)).getD Position.origin
  let range := ((ts.find? (·.isEnd)).map (·.range)).getD (.point last)
  ofOwn (.endOfFile range last) own

/-! ### The tokens of forests -/

@[simp] theorem tokens_done : done.tokens = [] := rfl

@[simp] theorem tokens_leaf (t : Token) (f : Forest) : (leaf t f).tokens = t :: f.tokens := rfl

@[simp] theorem tokens_list (o : Token) (items : Forest) (stop : ListEnd) (rest : Forest) :
    (list o items stop rest).tokens = o :: (items.tokens ++ (stop.tokens ++ rest.tokens)) := rfl

@[simp] theorem done_append (g : Forest) : done ++ g = g := rfl

@[simp] theorem leaf_append (t : Token) (f g : Forest) : leaf t f ++ g = leaf t (f ++ g) := rfl

@[simp] theorem list_append (o : Token) (items : Forest) (stop : ListEnd) (f g : Forest) :
    list o items stop f ++ g = list o items stop (f ++ g) := rfl

@[simp] theorem tokens_append (f g : Forest) : (f ++ g).tokens = f.tokens ++ g.tokens := by
  induction f with
  | done => rfl
  | leaf t rest ih => simp [ih]
  | list o items stop rest _ ih => simp [ih]

@[simp] theorem append_done (f : Forest) : f ++ done = f := by
  induction f with
  | done => rfl
  | leaf t rest ih => simp [ih]
  | list o items stop rest _ ih => simp [ih]

theorem append_assoc (f g h : Forest) : f ++ g ++ h = f ++ (g ++ h) := by
  induction f with
  | done => rfl
  | leaf t rest ih => simp [ih]
  | list o items stop rest _ ih => simp [ih]

@[simp] theorem tokens_ofEnd (stop : ListEnd) : (ofEnd stop).tokens = stop.tokens := by
  cases stop <;> rfl

@[simp] theorem tokens_closedBy (f : Forest) (stop : ListEnd) :
    (f.closedBy stop).tokens = f.tokens ++ stop.tokens := by
  simp [closedBy]

@[simp] theorem size_done : done.size = 0 := rfl

@[simp] theorem size_leaf (t : Token) (f : Forest) : (leaf t f).size = f.size + 1 := rfl

@[simp] theorem size_list (o : Token) (items : Forest) (stop : ListEnd) (rest : Forest) :
    (list o items stop rest).size = items.size + stop.tokens.length + rest.size + 1 := by
  simp [size]
  omega

@[simp] theorem size_append (f g : Forest) : (f ++ g).size = f.size + g.size := by
  simp [size]

@[simp] theorem size_closedBy (f : Forest) (stop : ListEnd) :
    (f.closedBy stop).size = f.size + stop.tokens.length := by
  simp [size]

theorem tokens_dropLeaves (f : Forest) : f.dropLeaves.tokens <:+ f.tokens := by
  induction f with
  | done => exact List.suffix_refl _
  | leaf t rest ih => exact ih.trans (List.suffix_cons _ _)
  | list o items stop rest => exact List.suffix_refl _

/-- Resuming passes over at least one token, where there is one, and goes back over none. -/
theorem tokens_resume (f : Forest) : f.resume.tokens <:+ f.tokens.tail := by
  cases f with
  | done => exact List.suffix_refl _
  | leaf t rest => exact tokens_dropLeaves rest
  | list o items stop rest =>
    simpa [resume] using tokens_dropLeaves (items.closedBy stop ++ rest)

theorem size_resume_le (f : Forest) : f.resume.size ≤ f.size - 1 := by
  simpa [size] using (tokens_resume f).length_le

theorem tokens_settle (front : Forest) (waiting : List (Token × Forest)) :
    (settle front waiting).tokens =
      front.tokens ++ waiting.flatMap fun (c, after) => c :: after.tokens := by
  induction waiting generalizing front with
  | nil => simp [settle]
  | cons w more ih => simp [settle, ih]

theorem tokens_add (atEnd : ListEnd) (h : atEnd.tokens = []) (t : Token) (p : Partial) :
    (settle (p.add atEnd t).front (p.add atEnd t).waiting).tokens =
      t :: (settle p.front p.waiting).tokens := by
  unfold Partial.add
  split
  · simp [settle]
  · split <;> rename_i hw
    · simp [settle, h, hw]
    · simp [tokens_settle, hw, ListEnd.tokens]
  · simp [tokens_settle]

/-- Grouping keeps every token in its place. -/
theorem tokens_ofOwn (atEnd : ListEnd) (h : atEnd.tokens = []) (ts : List Token) :
    (ofOwn atEnd ts).tokens = ts := by
  unfold ofOwn
  induction ts with
  | nil => rfl
  | cons t ts ih => simpa [tokens_add atEnd h] using ih

/-! ### What is left of a forest -/

theorem closedBy_append (f : Forest) (stop : ListEnd) (rest : Forest) (e : ListEnd) :
    f.closedBy stop ++ rest.closedBy e = (f.closedBy stop ++ rest).closedBy e :=
  (append_assoc _ _ _).symm

/-- What is left of a forest when some of its tokens were taken from the front. Behind a list that
was entered, its closing parenthesis is a leaf. -/
inductive Tail : Forest → Forest → Prop
  | refl (f : Forest) : Tail f f
  | leaf {t : Token} {rest u : Forest} : Tail rest u → Tail (leaf t rest) u
  | list {o : Token} {items rest u : Forest} {stop : ListEnd} :
    Tail rest u → Tail (list o items stop rest) u
  | into {o : Token} {items rest u : Forest} {stop : ListEnd} :
    Tail items u → Tail (list o items stop rest) (u.closedBy stop ++ rest)

theorem tail_done (f : Forest) : Tail f done := by
  induction f with
  | done => exact .refl _
  | leaf t rest ih => exact .leaf ih
  | list o items stop rest _ ih => exact .list ih

theorem Tail.size_le {f u : Forest} (h : Tail f u) : u.size ≤ f.size := by
  induction h with
  | refl f => exact Nat.le_refl _
  | leaf _ ih =>
    rw [size_leaf]
    omega
  | list _ ih =>
    rw [size_list]
    omega
  | into _ ih =>
    rw [size_append, size_closedBy, size_list]
    omega

end Forest

end SandboxProfile
