import SandboxProfile.Json.Basic

/-!
# How deep a value nests

A text is limited by the brackets that are open at once, a value that was read by the levels of its
values. An array or object that holds a value counts for both, so the levels are at most one more
than the brackets. The search for the deepest value that keeps a list of what is left to look at
finds the depth.
-/

namespace SandboxProfile.Json

mutual

/-- How many arrays and objects are open at once in a value. -/
def brackets : Json → Nat
  | array items => 1 + bracketsItems items
  | object fields => 1 + bracketsFields fields
  | _ => 0

def bracketsItems : List Json → Nat
  | [] => 0
  | x :: xs => max x.brackets (bracketsItems xs)

def bracketsFields : List (String × Json) → Nat
  | [] => 0
  | (_, x) :: xs => max x.brackets (bracketsFields xs)

end

mutual

theorem depth_le_brackets : (x : Json) → x.depth ≤ x.brackets + 1
  | null | bool _ | integer _ | double _ | string _ => Nat.le_refl 1
  | array items => by
    have h := depthItems_le_brackets items
    simp only [depth, brackets]
    omega
  | object fields => by
    have h := depthFields_le_brackets fields
    simp only [depth, brackets]
    omega

theorem depthItems_le_brackets : (xs : List Json) → depthItems xs ≤ bracketsItems xs + 1
  | [] => Nat.zero_le _
  | x :: xs => by
    have hx := depth_le_brackets x
    have hxs := depthItems_le_brackets xs
    simp only [depthItems, bracketsItems]
    omega

theorem depthFields_le_brackets : (xs : List (String × Json)) →
    depthFields xs ≤ bracketsFields xs + 1
  | [] => Nat.zero_le _
  | (_, x) :: xs => by
    have hx := depth_le_brackets x
    have hxs := depthFields_le_brackets xs
    simp only [depthFields, bracketsFields]
    omega

end

/-! ### Values with their fields in order -/

theorem mem_insertField {key : String} {x : Json} {f : String × Json}
    {fields : List (String × Json)} (h : f ∈ insertField key x fields) :
    f = (key, x) ∨ f ∈ fields := by
  induction fields with
  | nil => exact .inl (List.mem_singleton.mp h)
  | cons field fields ih =>
    obtain ⟨k, y⟩ := field
    unfold insertField at h
    split at h
    · rcases List.mem_cons.mp h with rfl | h
      · exact .inl rfl
      · exact .inr (List.mem_cons_of_mem _ h)
    split at h
    · exact List.mem_cons.mp h
    · rcases List.mem_cons.mp h with rfl | h
      · exact .inr List.mem_cons_self
      · exact (ih h).imp_right (List.mem_cons_of_mem _)

theorem mem_foldl_insertField {f : String × Json} {fields known : List (String × Json)}
    (h : f ∈ fields.foldl (fun sorted (key, x) => insertField key x sorted) known) :
    f ∈ known ∨ f ∈ fields := by
  induction fields generalizing known with
  | nil => exact .inl h
  | cons field fields ih =>
    rcases ih h with hknown | hfields
    · rcases mem_insertField hknown with rfl | hknown
      · exact .inr List.mem_cons_self
      · exact .inl hknown
    · exact .inr (List.mem_cons_of_mem _ hfields)

/-- Fields in order are among the fields. -/
theorem mem_sortFields {f : String × Json} {fields : List (String × Json)}
    (h : f ∈ sortFields fields) : f ∈ fields :=
  (mem_foldl_insertField h).resolve_left List.not_mem_nil

theorem depthFields_le_iff {n : Nat} {fields : List (String × Json)} :
    depthFields fields ≤ n ↔ ∀ f ∈ fields, f.2.depth ≤ n := by
  induction fields with
  | nil => exact iff_of_true (Nat.zero_le n) (List.forall_mem_nil _)
  | cons field fields ih => rw [depthFields, Nat.max_le, ih, List.forall_mem_cons]

theorem depthFields_sortFields_le (fields : List (String × Json)) :
    depthFields (sortFields fields) ≤ depthFields fields :=
  depthFields_le_iff.mpr fun f hf => depthFields_le_iff.mp (Nat.le_refl _) f (mem_sortFields hf)

mutual

theorem depth_sorted_le : (x : Json) → x.sorted.depth ≤ x.depth
  | null | bool _ | integer _ | double _ | string _ => Nat.le_refl 1
  | array items => by
    have h := depthItems_sorted_le items
    simp only [sorted, depth]
    omega
  | object fields => by
    have h₁ := depthFields_sortFields_le (sortedFields fields)
    have h₂ := depthFields_sorted_le fields
    simp only [sorted, depth]
    omega

theorem depthItems_sorted_le : (xs : List Json) → depthItems (sortedItems xs) ≤ depthItems xs
  | [] => Nat.le_refl 0
  | x :: xs => by
    have hx := depth_sorted_le x
    have hxs := depthItems_sorted_le xs
    simp only [sortedItems, depthItems]
    omega

theorem depthFields_sorted_le : (xs : List (String × Json)) →
    depthFields (sortedFields xs) ≤ depthFields xs
  | [] => Nat.le_refl 0
  | (_, x) :: xs => by
    have hx := depth_sorted_le x
    have hxs := depthFields_sorted_le xs
    simp only [sortedFields, depthFields]
    omega

end

/-! ### The search for the deepest value -/

theorem depthItems_map_snd (fields : List (String × Json)) :
    depthItems (fields.map (·.2)) = depthFields fields := by
  induction fields with
  | nil => rfl
  | cons field fields ih => simp only [List.map_cons, depthItems, depthFields, ih]

theorem depth_eq (x : Json) : x.depth = 1 + depthItems x.children := by
  cases x <;> simp [depth, children, depthItems, depthItems_map_snd]

/-- The deepest level that values reach which stand at given levels. -/
def reach : List (Json × Nat) → Nat
  | [] => 0
  | (x, level) :: more => max (level + depthItems x.children) (reach more)

theorem reach_append (work more : List (Json × Nat)) :
    reach (work ++ more) = max (reach work) (reach more) := by
  induction work with
  | nil => simp [reach]
  | cons item work ih => simp only [List.cons_append, reach, ih, Nat.max_assoc]

/-- Values that stand one level below `level` reach as deep below it as the deepest of them. -/
theorem max_reach_below (level : Nat) (xs : List Json) :
    max level (reach (xs.map (·, level + 1))) = level + depthItems xs := by
  induction xs with
  | nil => exact Nat.max_zero level
  | cons x xs ih =>
    have hx := depth_eq x
    simp only [List.map_cons, reach, depthItems]
    omega

theorem deepest_eq (best : Nat) (work : List (Json × Nat)) :
    deepest best work = max best (reach work) := by
  fun_induction deepest best work with
  | case1 best => exact (Nat.max_zero best).symm
  | case2 best x level more ih =>
    have h := max_reach_below level x.children
    rw [ih, reach_append, reach]
    omega

theorem nesting_eq_depth (x : Json) : x.nesting = x.depth := by
  rw [nesting, deepest_eq, depth_eq]
  simp [reach]

/-- A value that was read nests at most one level more than its text has brackets open at once. -/
theorem nesting_sorted_le (x : Json) : x.sorted.nesting ≤ x.brackets + 1 := by
  rw [nesting_eq_depth]
  exact Nat.le_trans (depth_sorted_le x) (depth_le_brackets x)

end SandboxProfile.Json
