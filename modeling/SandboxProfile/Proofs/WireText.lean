import SandboxProfile.Proofs.JsonReading
import SandboxProfile.Proofs.WireDecoding

/-!
# Reading back the wire format

A profile on the wire is written as a JSON text in one of two styles and read back from it, as long
as the text opens no more brackets than a text may open. The same profile comes back exactly if no
symbol in its values begins with the mark that tells strings from symbols.
-/

namespace SandboxProfile.Wire

/-! ### What a text holds -/

theorem textual_integer (n : Int64) : (Json.integer n.toInt).Textual := by
  have hlow := n.le_toInt
  have hhigh := n.toInt_lt
  refine ⟨hlow, ?_⟩
  change n.toInt ≤ 0xFFFFFFFFFFFFFFFF
  omega

theorem textual_string (s : String) : (Json.string s).Textual := trivial

mutual

theorem Node.textual_toJson : (x : Node) → x.toJson.Textual
  | integer n => textual_integer n
  | string _ | boolean _ | symbol _ => trivial
  | list items => textual_toJsonAll items

theorem Node.textual_toJsonAll : (xs : List Node) → Json.TextualItems (toJsonAll xs)
  | [] => trivial
  | x :: xs => ⟨textual_toJson x, textual_toJsonAll xs⟩

end

theorem textualFields_append {xs ys : List (String × Json)} (hxs : Json.TextualFields xs)
    (hys : Json.TextualFields ys) : Json.TextualFields (xs ++ ys) := by
  induction xs with
  | nil => exact hys
  | cons x xs ih => exact ⟨hxs.1, ih hxs.2⟩

theorem textualItems_map {α : Type} {encode : α → Json} (h : ∀ x, (encode x).Textual)
    (xs : List α) : Json.TextualItems (xs.map encode) := by
  induction xs with
  | nil => trivial
  | cons x xs ih => exact ⟨h x, ih⟩

theorem textualFields_fieldOf {α : Type} {encode : α → Json} (h : ∀ x, (encode x).Textual)
    (name : String) (x : Option α) : Json.TextualFields (Json.fieldOf name encode x) := by
  cases x with
  | none => trivial
  | some x => exact ⟨h x, trivial⟩

theorem textualFields_fieldOfList {α : Type} {encode : α → Json} (h : ∀ x, (encode x).Textual)
    (name : String) (xs : List α) : Json.TextualFields (Json.fieldOfList name encode xs) := by
  cases xs with
  | nil => trivial
  | cons x xs => exact ⟨textualItems_map h (x :: xs), trivial⟩

mutual

theorem Filter.textual_toJson : (f : Filter) → f.toJson.Textual
  | ⟨_, value, none⟩ => ⟨trivial, textualFields_fieldOf Node.textual_toJson "value" value⟩
  | ⟨_, value, some filters⟩ =>
    ⟨trivial, textualFields_append (textualFields_fieldOf Node.textual_toJson "value" value)
      ⟨textual_toJsonAll filters, trivial⟩⟩

theorem Filter.textual_toJsonAll : (fs : List Filter) → Json.TextualItems (toJsonAll fs)
  | [] => trivial
  | f :: fs => ⟨textual_toJson f, textual_toJsonAll fs⟩

end

theorem Definition.textual_toJson (d : Definition) : d.toJson.Textual :=
  ⟨trivial, Node.textual_toJson d.value, trivial⟩

theorem Rule.textual_toJson (r : Rule) : r.toJson.Textual :=
  ⟨trivial, textualItems_map textual_string r.operations,
    textualFields_fieldOfList Filter.textual_toJson "filters" r.filters⟩

/-- Every integer of an encoded profile has 64 bits, and there are no other numbers. -/
theorem Profile.textual_toJson (p : Profile) : p.toJson.Textual :=
  textualFields_append (textualFields_append (textualFields_append (textualFields_append
    (textualFields_fieldOf textual_integer _ p.version)
    (textualFields_fieldOf (fun a => textual_string a.text) _ p.debugMode))
    (textualFields_fieldOfList textual_string _ p.imports))
    (textualFields_fieldOfList Definition.textual_toJson _ p.definitions))
    (textualFields_fieldOfList Rule.textual_toJson _ p.rules)

/-! ### Texts -/

/-- The blanks of a style. -/
def Style.spacing : Style → Json.Spacing
  | compact => .none
  | pretty => .lines

namespace Profile

theorem toList_print (style : Style) (p : Profile) :
    (p.print style).toList = p.toJson.spelled style.spacing 0 := by
  cases style with
  | compact => exact Json.toList_compact 0 p.toJson
  | pretty => exact Json.toList_prettyAt 0 p.toJson

/-- A profile whose text opens no more brackets than it may is read, with its symbols read anew. -/
theorem ofText_print (style : Style) {p : Profile} (h : p.toJson.brackets ≤ Json.textLimit) :
    ofText (p.print style) = .ok p.reread := by
  have hread := (Json.readText_spelled style.spacing Json.textLimit 0 p.textual_toJson).1 h
  have hnesting : p.toJson.sorted.nesting ≤ depthLimit :=
    Nat.le_trans (Json.nesting_sorted_le _)
      (Nat.le_trans (Nat.succ_le_succ h) (by decide : Json.textLimit + 1 ≤ depthLimit))
  rw [ofText, Json.ofText, toList_print, hread]
  exact ofJson_toJson hnesting

/-- A profile whose text opens more brackets than it may is not read. -/
theorem ofText_print_deep (style : Style) {p : Profile} (h : Json.textLimit < p.toJson.brackets) :
    ∃ stop : Json.Stop, stop.fault = .tooDeep ∧
      ofText (p.print style) = .error (.malformed (stop.message (p.print style).toList)) := by
  obtain ⟨unread, hstop⟩ :=
    (Json.readText_spelled style.spacing Json.textLimit 0 p.textual_toJson).2 h
  refine ⟨⟨.tooDeep, unread, 1⟩, rfl, ?_⟩
  rw [ofText, Json.ofText, toList_print, hstop]
  rfl

/-- Reading undoes writing, in either style and within the limit on brackets, exactly if no symbol
inside a value begins with the mark of a string. -/
theorem ofText_print_iff (style : Style) (p : Profile) (h : p.toJson.brackets ≤ Json.textLimit) :
    ofText (p.print style) = .ok p ↔ p.Unmarked := by
  rw [ofText_print style h, Except.ok.injEq, reread_eq_iff]

/-- A profile with what is easily lost on the way: strings with marks in them, empty lists, and
lists and values that are left out. -/
def delicate : Profile where
  version := some Int64.minValue
  debugMode := none
  imports := [""]
  definitions := [⟨"\"x", .list [.string "\"", .symbol "a\"", .list []]⟩]
  rules := [⟨.allow, [], [⟨"require-all", none, some []⟩, ⟨"path", some (.string "\\"), none⟩]⟩,
    ⟨.deny, ["\"file-read"], []⟩]

theorem ofText_print_delicate : delicate.toJson.brackets ≤ Json.textLimit ∧ delicate.Unmarked ∧
    ofText (delicate.print .pretty) = .ok delicate := by
  have hbrackets : delicate.toJson.brackets ≤ Json.textLimit := by decide
  have hunmarked : delicate.Unmarked := by
    rw [← reread_eq_iff]
    decide
  exact ⟨hbrackets, hunmarked, (ofText_print_iff .pretty delicate hbrackets).mpr hunmarked⟩

end Profile

end SandboxProfile.Wire
