import SandboxProfile.Json.Shape
import SandboxProfile.Wire.Encoding

/-!
# Fields written and taken in

A record is written with its fields in the order of their declaration and read with them in the
order of their names. Each field that may be left out is put between the ones before and behind it
in that order, and taken in by itself.
-/

namespace SandboxProfile.Json

/-! ### Order -/

theorem insertField_between {key : String} {x : Json} {before after : List (String × Json)}
    (hbefore : ∀ f ∈ before, f.1 < key) (hafter : ∀ f ∈ after, key < f.1) :
    insertField key x (before ++ after) = before ++ (key, x) :: after := by
  induction before with
  | nil =>
    cases after with
    | nil => rfl
    | cons field after =>
      have hlt := (List.forall_mem_cons.mp hafter).1
      have hne : key ≠ field.1 := fun h => String.lt_irrefl _ (h ▸ hlt)
      rw [List.nil_append, insertField, if_neg hne, if_pos hlt]
      rfl
  | cons field before ih =>
    obtain ⟨hlt, hbefore⟩ := List.forall_mem_cons.mp hbefore
    have hne : key ≠ field.1 := fun h => String.lt_irrefl _ (h ▸ hlt)
    rw [List.cons_append, insertField, if_neg hne, if_neg (String.lt_asymm hlt), ih hbefore]
    rfl

/-- A field that may be left out. -/
def Optional (key : String) (fields : List (String × Json)) : Prop :=
  fields = [] ∨ ∃ x, fields = [(key, x)]

theorem Optional.key {key : String} {fields : List (String × Json)} (h : Optional key fields) :
    ∀ f ∈ fields, f.1 = key := by
  rcases h with rfl | ⟨x, rfl⟩
  · exact nofun
  · exact List.forall_mem_singleton.mpr rfl

theorem Optional.below {key other : String} {fields : List (String × Json)}
    (h : Optional key fields) (hlt : key < other) : ∀ f ∈ fields, f.1 < other := fun f hf =>
  (h.key f hf).symm ▸ hlt

theorem Optional.above {key other : String} {fields : List (String × Json)}
    (h : Optional key fields) (hlt : other < key) : ∀ f ∈ fields, other < f.1 := fun f hf =>
  (h.key f hf).symm ▸ hlt

/-- Puts fields in their places among fields in ascending order. -/
def insertFields (known fields : List (String × Json)) : List (String × Json) :=
  fields.foldl (fun sorted (key, x) => insertField key x sorted) known

theorem sortFields_eq (fields : List (String × Json)) :
    sortFields fields = insertFields [] fields := rfl

theorem insertFields_append (known xs ys : List (String × Json)) :
    insertFields known (xs ++ ys) = insertFields (insertFields known xs) ys := List.foldl_append

theorem insertFields_between {key : String} (before after : List (String × Json))
    {fields : List (String × Json)} (h : Optional key fields) (hbefore : ∀ f ∈ before, f.1 < key)
    (hafter : ∀ f ∈ after, key < f.1) :
    insertFields (before ++ after) fields = before ++ (fields ++ after) := by
  rcases h with rfl | ⟨x, rfl⟩
  · rfl
  · exact insertField_between hbefore hafter

/-! ### Writing -/

theorem sortedFields_append (xs ys : List (String × Json)) :
    sortedFields (xs ++ ys) = sortedFields xs ++ sortedFields ys := by
  induction xs with
  | nil => rfl
  | cons x xs ih => rw [List.cons_append, sortedFields, sortedFields, ih, List.cons_append]

theorem sortedItems_map {α : Type} (encode : α → Json) (xs : List α) :
    sortedItems (xs.map encode) = xs.map fun x => (encode x).sorted := by
  induction xs with
  | nil => rfl
  | cons x xs ih => rw [List.map_cons, sortedItems, ih, List.map_cons]

section Fields

variable {α : Type} (name : String) (encode : α → Json)

theorem optional_fieldOf (x : Option α) : Optional name (sortedFields (fieldOf name encode x)) := by
  cases x with
  | none => exact .inl rfl
  | some x => exact .inr ⟨_, rfl⟩

theorem optional_fieldOfList (xs : List α) :
    Optional name (sortedFields (fieldOfList name encode xs)) := by
  cases xs with
  | nil => exact .inl rfl
  | cons x xs => exact .inr ⟨_, rfl⟩

end Fields

/-! ### Taking in -/

theorem bind_of_ok {α β : Type} {m : Decodes α} {x : α} (h : m = .ok x) (f : α → Decodes β) :
    (m >>= f) = f x := by
  rw [h]
  rfl

theorem asInteger_toInt (n : Int64) : (integer n.toInt).asInteger = .ok n := by
  rw [asInteger, Integer.ofInt?_toInt]

theorem asCount_ofNat (n : Nat) : (integer n).asCount = .ok n := by
  rw [asCount, if_pos (Int.natCast_nonneg n)]
  rfl

section Taking

variable {σ α β : Type} {take : σ → String → Json → Decodes σ} {s s' : σ}

theorem takeFields_append {xs ys : List (String × Json)} (h : takeFields take s xs = .ok s') :
    takeFields take s (xs ++ ys) = takeFields take s' ys := by
  have happend : takeFields take s (xs ++ ys) =
      takeFields take s xs >>= fun t => takeFields take t ys := List.foldlM_append
  rw [happend, h]
  rfl

theorem takeFields_single {name : String} {x : Json} (h : take s name x = .ok s') :
    takeFields take s [(name, x)] = .ok s' := by
  have hcons : takeFields take s [(name, x)] = take s name x >>= pure := rfl
  rw [hcons, h]
  rfl

/-- A reader that takes in one field and goes on with the others takes in all of them. -/
theorem eq_takeFields {read : σ → List (String × Json) → Decodes σ} (hnil : ∀ s, read s [] = .ok s)
    (hcons : ∀ s key x fields, read s ((key, x) :: fields) = take s key x >>= (read · fields))
    (s : σ) (fields : List (String × Json)) : read s fields = takeFields take s fields := by
  induction fields generalizing s with
  | nil => exact hnil s
  | cons field fields ih =>
    rw [hcons]
    exact congrArg (take s field.1 field.2 >>= ·) (funext ih)

theorem takeFields_fieldOf {name : String} {encode : α → Json} {x : Option α}
    (hnone : x = none → s' = s) (hsome : ∀ y, x = some y → take s name (encode y).sorted = .ok s') :
    takeFields take s (sortedFields (fieldOf name encode x)) = .ok s' := by
  cases x with
  | none => rw [hnone rfl]; rfl
  | some y => exact takeFields_single (hsome y rfl)

theorem takeFields_fieldOfList {name : String} {encode : α → Json} {xs : List α}
    (hnil : xs = [] → s' = s)
    (hcons : take s name (array (xs.map encode)).sorted = .ok s') :
    takeFields take s (sortedFields (fieldOfList name encode xs)) = .ok s' := by
  cases xs with
  | nil => rw [hnil rfl]; rfl
  | cons x xs => exact takeFields_single hcons

/-- Items that are each read are read as a list. -/
theorem mapM_map_ok {decode : Json → Decodes β} {encode : α → Json} {f : α → β} {xs : List α}
    (h : ∀ x ∈ xs, decode (encode x) = .ok (f x)) :
    List.mapM decode (xs.map encode) = .ok (xs.map f) := by
  induction xs with
  | nil => rfl
  | cons x xs ih =>
    obtain ⟨hx, hxs⟩ := List.forall_mem_cons.mp h
    rw [List.map_cons, List.mapM_cons, hx, ih hxs]
    rfl

/-- A list is read item by item. -/
theorem asListOf_map {decode : Json → Decodes β} {encode : α → Json} {f : α → β} {xs : List α}
    (h : ∀ x ∈ xs, decode (encode x).sorted = .ok (f x)) :
    (array (xs.map encode)).sorted.asListOf decode = .ok (xs.map f) := by
  rw [sorted, sortedItems_map]
  exact mapM_map_ok h

end Taking

end SandboxProfile.Json
