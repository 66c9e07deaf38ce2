import Mathlib.Data.List.Nodup
import Mathlib.Data.List.Pairwise
import Mathlib.Data.List.Perm.Basic
import SandboxProfile.Proofs.JsonFields

/-!
# Fields in any order

The fields of an object may be kept as they were declared, by their keys, or in any other order. A
record whose fields each fill a place of their own is read from its fields in every order
(`Json.asRecord_arranged`).
-/

namespace SandboxProfile.Json

/-! ### Orders -/

/-- Whether fields are only moved, provided that no two have one key. -/
def Arranges (arrange : List (String × Json) → List (String × Json)) : Prop :=
  ∀ fields, (fields.map Prod.fst).Nodup → (arrange fields).Perm fields

section Arranged

variable (arrange : List (String × Json) → List (String × Json))

mutual

/-- The same value with the fields of every object arranged. -/
def arranged : Json → Json
  | array items => array (arrangedItems items)
  | object fields => object (arrange (arrangedFields fields))
  | value => value

def arrangedItems : List Json → List Json
  | [] => []
  | x :: xs => x.arranged :: arrangedItems xs

def arrangedFields : List (String × Json) → List (String × Json)
  | [] => []
  | (key, x) :: xs => (key, x.arranged) :: arrangedFields xs

end

end Arranged

/-- Fields may be left as they are. -/
theorem arranges_id : Arranges id := fun fields _ => List.Perm.refl fields

mutual

theorem arranged_id : (x : Json) → x.arranged id = x
  | array items => congrArg array (arrangedItems_id items)
  | object fields => congrArg object (arrangedFields_id fields)
  | null | bool _ | integer _ | double _ | string _ => rfl

theorem arrangedItems_id : (xs : List Json) → arrangedItems id xs = xs
  | [] => rfl
  | x :: xs => by rw [arrangedItems, arranged_id x, arrangedItems_id xs]

theorem arrangedFields_id : (xs : List (String × Json)) → arrangedFields id xs = xs
  | [] => rfl
  | (key, x) :: xs => by rw [arrangedFields, arranged_id x, arrangedFields_id xs]

end

theorem perm_insertField {key : String} {known : List (String × Json)}
    (h : key ∉ known.map Prod.fst) (x : Json) :
    (insertField key x known).Perm ((key, x) :: known) := by
  induction known with
  | nil => exact .refl _
  | cons field known ih =>
    obtain ⟨k, v⟩ := field
    rw [List.map_cons, List.mem_cons, not_or] at h
    rw [insertField, if_neg h.1]
    split
    · exact .refl _
    · exact ((ih h.2).cons (k, v)).trans (.swap (key, x) (k, v) known)

theorem perm_insertFields {known fields : List (String × Json)}
    (h : ((fields ++ known).map Prod.fst).Nodup) :
    (insertFields known fields).Perm (fields ++ known) := by
  induction fields generalizing known with
  | nil => exact .refl _
  | cons field fields ih =>
    obtain ⟨key, x⟩ := field
    rw [List.cons_append, List.map_cons, List.nodup_cons, List.map_append, List.mem_append,
      not_or] at h
    have hfield := perm_insertField h.1.2 x
    have hmove : (fields ++ insertField key x known).Perm ((key, x) :: (fields ++ known)) :=
      (hfield.append_left fields).trans List.perm_middle
    have hkeys : ((fields ++ insertField key x known).map Prod.fst).Nodup := by
      rw [(hmove.map Prod.fst).nodup_iff, List.map_cons, List.nodup_cons, List.map_append,
        List.mem_append, not_or]
      exact h
    exact (ih hkeys).trans hmove

/-- Fields may be put in the order of their keys. -/
theorem arranges_sortFields : Arranges sortFields := by
  intro fields h
  have hkeys : ((fields ++ []).map Prod.fst).Nodup := by rwa [List.append_nil]
  have hperm := perm_insertFields hkeys
  rwa [List.append_nil] at hperm

mutual

theorem sorted_eq_arranged : (x : Json) → x.sorted = x.arranged sortFields
  | array items => congrArg array (sortedItems_eq_arranged items)
  | object fields => congrArg (object ∘ sortFields) (sortedFields_eq_arranged fields)
  | null | bool _ | integer _ | double _ | string _ => rfl

theorem sortedItems_eq_arranged : (xs : List Json) → sortedItems xs = arrangedItems sortFields xs
  | [] => rfl
  | x :: xs => by
    rw [sortedItems, arrangedItems, sorted_eq_arranged x, sortedItems_eq_arranged xs]

theorem sortedFields_eq_arranged : (xs : List (String × Json)) →
    sortedFields xs = arrangedFields sortFields xs
  | [] => rfl
  | (key, x) :: xs => by
    rw [sortedFields, arrangedFields, sorted_eq_arranged x, sortedFields_eq_arranged xs]

end

/-! ### Reading records -/

section Reading

variable {arrange : List (String × Json) → List (String × Json)} {α σ : Type}
  {take : σ → String → Json → Decodes σ}

theorem Arranges.single (h : Arranges arrange) (field : String × Json) :
    arrange [field] = [field] :=
  List.perm_singleton.mp (h [field] (List.nodup_singleton field.1))

theorem arrangedItems_map {β : Type} (encode : β → Json) (xs : List β) :
    arrangedItems arrange (xs.map encode) = xs.map fun x => (encode x).arranged arrange := by
  induction xs with
  | nil => rfl
  | cons x xs ih => rw [List.map_cons, arrangedItems, ih, List.map_cons]

theorem asListOf_arranged {β : Type} {decode : Json → Decodes β} {encode : β → Json} {xs : List β}
    (h : ∀ x ∈ xs, decode ((encode x).arranged arrange) = .ok x) :
    ((array (xs.map encode)).arranged arrange).asListOf decode = .ok xs := by
  rw [arranged, arrangedItems_map]
  exact (mapM_map_ok h).trans (congrArg Except.ok (List.map_id xs))

/-- Whether fields are taken in with these effects, whatever was taken in before, and no effect
undoes another. -/
structure Takes (take : σ → String → Json → Decodes σ) (fields : List (String × Json))
    (effects : List (σ → σ)) : Prop where
  taken : List.Forall₂ (fun field effect => ∀ s, take s field.1 field.2 = .ok (effect s)) fields
    effects
  apart : effects.Pairwise fun f g => ∀ s, f (g s) = g (f s)

theorem takeFields_of_taken {fields : List (String × Json)} {effects : List (σ → σ)}
    (h : List.Forall₂ (fun field effect => ∀ s, take s field.1 field.2 = .ok (effect s)) fields
      effects) (s : σ) :
    takeFields take s fields = .ok (effects.foldl (fun s effect => effect s) s) := by
  induction h generalizing s with
  | nil => rfl
  | @cons field effect fields effects hfield h ih =>
    have hcons : takeFields take s (field :: fields) =
        take s field.1 field.2 >>= fun s => takeFields take s fields := rfl
    rw [hcons, hfield s]
    exact ih (effect s)

/-- Fields with effects of their own may be taken in any order. -/
theorem Takes.of_perm {fields given : List (String × Json)} {effects : List (σ → σ)}
    (h : Takes take fields effects) (hgiven : given.Perm fields) (s : σ) :
    takeFields take s given = .ok (effects.foldl (fun s effect => effect s) s) := by
  obtain ⟨moved, htaken, hperm⟩ := List.perm_comp_forall₂ hgiven h.taken
  have hsymm : Std.Symm fun f g : σ → σ => ∀ s, f (g s) = g (f s) := ⟨fun f g h s => (h s).symm⟩
  have hcommute : ∀ f ∈ effects, ∀ g ∈ effects, ∀ s, g (f s) = f (g s) :=
    fun f hf g hg => h.apart.forall_of_forall (fun f _ s => rfl) hg hf
  rw [takeFields_of_taken htaken, hperm.symm.foldl_eq' hcommute]

theorem Takes.of_arranges {fields : List (String × Json)} {effects : List (σ → σ)}
    (h : Takes take fields effects) (harrange : Arranges arrange)
    (hkeys : (fields.map Prod.fst).Nodup) (s : σ) :
    takeFields take s (arrange fields) = .ok (effects.foldl (fun s effect => effect s) s) :=
  h.of_perm (harrange fields hkeys) s

/-- A record is read from its fields, whatever order they are put in. -/
theorem asRecord_arranged {shape : RecordShape} {start : σ} {complete : σ → Decodes α} {x : α}
    {fields : List (String × Json)} {effects : List (σ → σ)} (h : Takes take fields effects)
    (harrange : Arranges arrange) (hkeys : (fields.map Prod.fst).Nodup)
    (hcomplete : complete (effects.foldl (fun s effect => effect s) start) = .ok x) :
    asRecord shape take start complete (object (arrange fields)) = .ok x := by
  have hrecord : asRecord shape take start complete (object (arrange fields)) =
      takeFields take start (arrange fields) >>= complete := rfl
  rw [hrecord, h.of_arranges harrange hkeys]
  exact hcomplete

end Reading

end SandboxProfile.Json
