import SandboxProfile.Json.Printer
import SandboxProfile.Json.Reader

/-!
# The spelling of JSON values

The two ways of writing a value differ in the blanks they put between its parts and in nothing else.
A spacing gives these blanks, so that what is said of the texts of all spacings holds of both.
-/

namespace SandboxProfile.Json

/-- Blanks between the parts of a value: in front of an item or a closing bracket, by its level, and
behind a colon. -/
structure Spacing where
  line : Nat → List Char
  colon : List Char
  line_blank : ∀ level, (line level).all isBlank
  colon_blank : colon.all isBlank

namespace Spacing

/-- No blanks at all. -/
def none : Spacing := ⟨fun _ => [], [], fun _ => rfl, rfl⟩

/-- A line for each item, with two spaces a level. -/
def lines : Spacing where
  line := fun level => '\n' :: List.replicate (2 * level) ' '
  colon := [' ']
  line_blank := by
    intro level
    rw [List.all_cons, List.all_replicate]
    simp [isBlank]
  colon_blank := rfl

/-- Texts behind the first between two brackets, each after a comma. -/
def more (s : Spacing) (level : Nat) (texts : List (List Char)) : List Char :=
  texts.flatMap fun text => ',' :: (s.line (level + 1) ++ text)

/-- Texts between two brackets, the closing one at `level`. -/
def enclosed (s : Spacing) (level : Nat) (opened closed : Char) : List (List Char) → List Char
  | [] => [opened, closed]
  | text :: texts =>
    opened :: (s.line (level + 1) ++ text ++ s.more level texts ++ s.line level ++ [closed])

end Spacing

mutual

/-- A value with a spacing, its closing bracket at `level`. -/
def spelled (s : Spacing) (level : Nat) : Json → List Char
  | array items => s.enclosed level '[' ']' (spelledItems s (level + 1) items)
  | object fields => s.enclosed level '\x7b' '\x7d' (spelledFields s (level + 1) fields)
  | scalar => scalar.compact.toList

def spelledItems (s : Spacing) (level : Nat) : List Json → List (List Char)
  | [] => []
  | x :: xs => x.spelled s level :: spelledItems s level xs

def spelledFields (s : Spacing) (level : Nat) : List (String × Json) → List (List Char)
  | [] => []
  | (key, x) :: xs =>
    ((quote key).toList ++ ':' :: (s.colon ++ x.spelled s level)) :: spelledFields s level xs

end

theorem intercalate_eq_flatMap (sep text : List Char) (texts : List (List Char)) :
    sep.intercalate (text :: texts) = text ++ texts.flatMap (sep ++ ·) := by
  induction texts generalizing text with
  | nil => simp
  | cons next texts ih => simp [List.intercalate_cons_cons, ih]

/-! ### On one line -/

theorem toList_enclosed_none (level : Nat) (opened closed : Char) (texts : List String) :
    (String.singleton opened ++ String.intercalate "," texts ++ String.singleton closed).toList =
      Spacing.none.enclosed level opened closed (texts.map String.toList) := by
  cases texts with
  | nil => simp [Spacing.enclosed]
  | cons text texts =>
    simp [Spacing.enclosed, Spacing.more, Spacing.none, String.toList_intercalate,
      intercalate_eq_flatMap]

mutual

theorem toList_compact (level : Nat) : (x : Json) →
    x.compact.toList = x.spelled .none level
  | null | bool _ | integer _ | double _ | string _ => rfl
  | array items => by
    rw [compact, spelled, ← toList_compactItems (level + 1) items]
    exact toList_enclosed_none level '[' ']' _
  | object fields => by
    rw [compact, spelled, ← toList_compactFields (level + 1) fields]
    exact toList_enclosed_none level '\x7b' '\x7d' _

theorem toList_compactItems (level : Nat) : (xs : List Json) →
    (compactItems xs).map String.toList = spelledItems .none level xs
  | [] => rfl
  | x :: xs => by
    rw [compactItems, spelledItems, List.map_cons, toList_compact level x,
      toList_compactItems level xs]

theorem toList_compactFields (level : Nat) : (fields : List (String × Json)) →
    (compactFields fields).map String.toList = spelledFields .none level fields
  | [] => rfl
  | (key, x) :: fields => by
    rw [compactFields, spelledFields, List.map_cons, toList_compactFields level fields,
      ← toList_compact level x]
    simp [Spacing.none]

end

/-! ### Over several lines -/

theorem toList_block (level : Nat) (opened closed : Char) (texts : List String) :
    (block level (String.singleton opened) (String.singleton closed) texts).toList =
      Spacing.lines.enclosed level opened closed (texts.map String.toList) := by
  cases texts with
  | nil => simp [block, Spacing.enclosed]
  | cons text texts =>
    simp [block, lineBreak, Spacing.enclosed, Spacing.more, Spacing.lines,
      String.toList_intercalate, intercalate_eq_flatMap]

mutual

theorem toList_prettyAt (level : Nat) : (x : Json) →
    (x.prettyAt level).toList = x.spelled .lines level
  | null | integer _ | double _ | string _ => rfl
  | bool true | bool false => rfl
  | array items => by
    rw [prettyAt, spelled, ← toList_prettyItems (level + 1) items]
    exact toList_block level '[' ']' _
  | object fields => by
    rw [prettyAt, spelled, ← toList_prettyFields (level + 1) fields]
    exact toList_block level '\x7b' '\x7d' _

theorem toList_prettyItems (level : Nat) : (xs : List Json) →
    (prettyItems level xs).map String.toList = spelledItems .lines level xs
  | [] => rfl
  | x :: xs => by
    rw [prettyItems, spelledItems, List.map_cons, toList_prettyAt level x,
      toList_prettyItems level xs]

theorem toList_prettyFields (level : Nat) : (fields : List (String × Json)) →
    (prettyFields level fields).map String.toList = spelledFields .lines level fields
  | [] => rfl
  | (key, x) :: fields => by
    rw [prettyFields, spelledFields, List.map_cons, toList_prettyFields level fields,
      ← toList_prettyAt level x]
    simp [Spacing.lines]

end

end SandboxProfile.Json
