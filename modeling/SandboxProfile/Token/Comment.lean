/-!
# Block comments

A block comment stands between `#|` and `|#` and may hold others. The scan goes over the text after
the opening mark once and keeps count of the comments that are open inside.
-/

namespace SandboxProfile

namespace Comment

/-- A scanned comment: its text, whether it was closed, and what follows. -/
structure Scanned where
  text : List Char
  closed : Bool
  rest : List Char
deriving DecidableEq, Repr

/-- The comment from here on, with `inner` more comments open inside; `before` is its text so far,
last character first. -/
def scanFrom (inner : Nat) (before : List Char) : List Char → Scanned
  | '|' :: '#' :: cs =>
    match inner with
    | 0 => ⟨('#' :: '|' :: before).reverse, true, cs⟩
    | inner + 1 => scanFrom inner ('#' :: '|' :: before) cs
  | '#' :: '|' :: cs => scanFrom (inner + 1) ('|' :: '#' :: before) cs
  | c :: cs => scanFrom inner (c :: before) cs
  | [] => ⟨before.reverse, false, []⟩

/-- A comment whose opening mark was just read. -/
def scan (cs : List Char) : Scanned := scanFrom 0 ['|', '#'] cs

theorem scanFrom_text (inner : Nat) (before cs : List Char) :
    (scanFrom inner before cs).text ++ (scanFrom inner before cs).rest = before.reverse ++ cs := by
  fun_induction scanFrom inner before cs <;> simp_all

theorem scan_text (cs : List Char) : (scan cs).text ++ (scan cs).rest = '#' :: '|' :: cs := by
  rw [scan, scanFrom_text]
  rfl

theorem scanFrom_rest (inner : Nat) (before cs : List Char) :
    (scanFrom inner before cs).rest.length ≤ cs.length := by
  fun_induction scanFrom inner before cs <;> simp_all <;> omega

/-- A comment that was not closed takes the rest of the text. -/
theorem scanFrom_rest_of_open {inner : Nat} {before cs : List Char}
    (h : (scanFrom inner before cs).closed = false) : (scanFrom inner before cs).rest = [] := by
  fun_induction scanFrom inner before cs <;> simp_all

end Comment

end SandboxProfile
