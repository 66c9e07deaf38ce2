import SandboxProfile.Json.Reader
import SandboxProfile.Proofs.JsonNesting

/-!
# Brackets of a value that was read

A reader that may open so many brackets reads values with no more brackets in each other
(`brackets_readText`). Putting the fields of an object in order, and dropping all but the last of
those with one key, adds none.
-/

namespace SandboxProfile.Json

/-! ### Values in a value -/

theorem bracketsItems_le_iff {n : Nat} {xs : List Json} :
    bracketsItems xs ≤ n ↔ ∀ x ∈ xs, x.brackets ≤ n := by
  induction xs with
  | nil => exact iff_of_true (Nat.zero_le n) (List.forall_mem_nil _)
  | cons x xs ih => rw [bracketsItems, Nat.max_le, ih, List.forall_mem_cons]

theorem bracketsFields_le_iff {n : Nat} {fields : List (String × Json)} :
    bracketsFields fields ≤ n ↔ ∀ f ∈ fields, f.2.brackets ≤ n := by
  induction fields with
  | nil => exact iff_of_true (Nat.zero_le n) (List.forall_mem_nil _)
  | cons field fields ih => rw [bracketsFields, Nat.max_le, ih, List.forall_mem_cons]

theorem bracketsFields_append (xs ys : List (String × Json)) :
    bracketsFields (xs ++ ys) = max (bracketsFields xs) (bracketsFields ys) := by
  induction xs with
  | nil => exact (Nat.zero_max _).symm
  | cons x xs ih => rw [List.cons_append, bracketsFields, bracketsFields, ih, Nat.max_assoc]

theorem bracketsFields_sortFields_le (fields : List (String × Json)) :
    bracketsFields (sortFields fields) ≤ bracketsFields fields :=
  bracketsFields_le_iff.mpr fun f hf =>
    bracketsFields_le_iff.mp (Nat.le_refl _) f (mem_sortFields hf)

/-! ### Numbers -/

section Numbers

variable {negative minus : Bool} {digits dropped : Nat} {exponent : Int} {cs rest : List Char}
  {x : Json}

theorem brackets_double? (h : double? negative digits exponent cs = .ok (x, rest)) :
    x.brackets = 0 := by
  unfold double? at h
  split at h <;> cases h
  rfl

theorem brackets_exponentDigits
    (h : exponentDigits negative digits exponent minus cs = .ok (x, rest)) : x.brackets = 0 := by
  unfold exponentDigits at h
  split at h
  · cases h
  split at h
  · simp only at h
    split at h
    · exact brackets_double? h
    · split at h <;> cases h
      rfl
  · cases h

theorem brackets_exponentPart (h : exponentPart negative digits exponent cs = .ok (x, rest)) :
    x.brackets = 0 := by
  unfold exponentPart at h
  split at h <;> exact brackets_exponentDigits h

theorem brackets_fractionPart (h : fractionPart negative digits dropped cs = .ok (x, rest)) :
    x.brackets = 0 := by
  unfold fractionPart at h
  split at h
  · cases h
  split at h
  · simp only at h
    split at h
    · exact brackets_double? h
    split at h
    · exact brackets_exponentPart h
    · exact brackets_double? h
  · cases h

theorem brackets_wholeNumber (h : wholeNumber negative digits dropped cs = .ok (x, rest)) :
    x.brackets = 0 := by
  unfold wholeNumber at h
  split at h
  · exact brackets_double? h
  split at h
  · cases h
    rfl
  split at h
  · exact brackets_double? h
  · cases h
    rfl

theorem brackets_afterWhole (h : afterWhole negative digits dropped cs = .ok (x, rest)) :
    x.brackets = 0 := by
  unfold afterWhole at h
  split at h
  · exact brackets_wholeNumber h
  split at h
  · exact brackets_fractionPart h
  split at h
  · exact brackets_exponentPart h
  · exact brackets_wholeNumber h

theorem brackets_unsigned (h : unsigned negative cs = .ok (x, rest)) : x.brackets = 0 := by
  unfold unsigned at h
  split at h
  · cases h
  split at h
  · split at h
    · split at h
      · cases h
      · exact brackets_afterWhole h
    · exact brackets_afterWhole h
  split at h
  · exact brackets_afterWhole h
  · cases h

end Numbers

/-! ### Arrays and objects -/

/-- Every value that is read has at most `n` brackets in each other. -/
def ValueReader.Opens (n : Nat) (item : ValueReader) : Prop :=
  ∀ {cs rest x}, item.read cs = .ok (x, rest) → x.brackets ≤ n

section Brackets

variable {n : Nat} {item : ValueReader} {cs rest : List Char}

theorem brackets_moreItems {xs : List Json} (hitem : item.Opens n)
    (h : moreItems item cs = .ok (xs, rest)) : bracketsItems xs ≤ n := by
  fun_induction moreItems item cs generalizing xs rest with
  | case2 cs tail hb =>
    cases h
    exact Nat.zero_le n
  | case7 cs tail hb _ _ hr _ _ hm _ _ ih =>
    cases h
    exact Nat.max_le.mpr ⟨hitem hr, ih hm⟩
  | _ => cases h

theorem brackets_items {xs : List Json} (hitem : item.Opens n)
    (h : items item cs = .ok (xs, rest)) : bracketsItems xs ≤ n := by
  unfold items at h
  split at h
  · cases h
  · cases h
    exact Nat.zero_le n
  split at h
  · cases h
  next hr =>
  split at h
  · cases h
  next hm =>
    cases h
    exact Nat.max_le.mpr ⟨hitem hr, brackets_moreItems hitem hm⟩

theorem brackets_field {x : String × Json} (hitem : item.Opens n)
    (h : field item cs = .ok (x, rest)) : x.2.brackets ≤ n := by
  unfold field at h
  split at h
  · cases h
  split at h
  · cases h
  · split at h
    · cases h
    next hr =>
      cases h
      exact hitem hr
  · cases h

theorem brackets_moreFields {xs : List (String × Json)} (hitem : item.Opens n)
    (h : moreFields item cs = .ok (xs, rest)) : bracketsFields xs ≤ n := by
  fun_induction moreFields item cs generalizing xs rest with
  | case2 cs tail hb =>
    cases h
    exact Nat.zero_le n
  | case7 cs tail hb key hk x after hf xs' last hm ih =>
    cases h
    exact Nat.max_le.mpr ⟨brackets_field hitem hf, ih hm⟩
  | _ => cases h

theorem brackets_fields {xs : List (String × Json)} (hitem : item.Opens n)
    (h : fields item cs = .ok (xs, rest)) : bracketsFields xs ≤ n := by
  unfold fields at h
  split at h
  · cases h
  · cases h
    exact Nat.zero_le n
  · split at h
    · cases h
    next hf =>
    split at h
    · cases h
    next hm =>
      cases h
      exact Nat.max_le.mpr ⟨brackets_field hitem hf, brackets_moreFields hitem hm⟩
  · cases h

end Brackets

/-! ### Values and texts -/

/-- What stands in a bracket has one bracket less. -/
theorem brackets_valueFrom {n : Nat} {inner : Option ValueReader} {c : Char} {cs rest : List Char}
    {x : Json} (hinner : ∀ item, inner = some item → ∃ m, n = m + 1 ∧ item.Opens m)
    (h : valueFrom inner c cs = .ok (x, rest)) : x.brackets ≤ n := by
  unfold valueFrom at h
  split at h
  · obtain ⟨_, -, hx⟩ := map_ok h
    cases hx
    exact Nat.zero_le n
  split at h
  · obtain ⟨_, -, hx⟩ := map_ok h
    cases hx
    exact Nat.zero_le n
  split at h
  · obtain ⟨_, -, hx⟩ := map_ok h
    cases hx
    exact Nat.zero_le n
  split at h
  · exact Nat.le_trans (Nat.le_of_eq (brackets_unsigned h)) (Nat.zero_le n)
  split at h
  · exact Nat.le_trans (Nat.le_of_eq (brackets_unsigned h)) (Nat.zero_le n)
  split at h
  · obtain ⟨_, -, hx⟩ := map_ok h
    cases hx
    exact Nat.zero_le n
  split at h
  · split at h
    · cases h
    next item =>
      obtain ⟨⟨xs, rest⟩, hs, hx⟩ := map_ok h
      cases hx
      obtain ⟨m, rfl, hitem⟩ := hinner item rfl
      have hitems := brackets_items hitem hs
      rw [brackets]
      omega
  split at h
  · split at h
    · cases h
    next item =>
      obtain ⟨⟨xs, rest⟩, hs, hx⟩ := map_ok h
      cases hx
      obtain ⟨m, rfl, hitem⟩ := hinner item rfl
      have hfields := brackets_fields hitem hs
      have hsorted := bracketsFields_sortFields_le xs
      rw [brackets]
      omega
  · cases h

theorem brackets_readWith {n : Nat} {inner : Option ValueReader} {cs rest : List Char} {x : Json}
    (hinner : ∀ item, inner = some item → ∃ m, n = m + 1 ∧ item.Opens m)
    (h : readWith inner cs = .ok (x, rest)) : x.brackets ≤ n := by
  unfold readWith at h
  split at h
  · cases h
  · exact brackets_valueFrom hinner h

theorem opens_valueReader (limit : Nat) : (valueReader limit).Opens limit := by
  induction limit with
  | zero =>
    intro cs rest x h
    refine brackets_readWith (fun item hitem => ?_) h
    cases hitem
  | succ limit ih =>
    intro cs rest x h
    refine brackets_readWith (fun item hitem => ?_) h
    cases hitem
    exact ⟨limit, rfl, ih⟩

/-- The value of a text that may open `limit` brackets has no more of them in each other. -/
theorem brackets_readText {limit : Nat} {cs : List Char} {x : Json}
    (h : readText limit cs = .ok x) : x.brackets ≤ limit := by
  unfold readText at h
  split at h
  · cases h
  next hread =>
  split at h
  · cases h
    exact opens_valueReader limit hread
  · cases h

end SandboxProfile.Json
