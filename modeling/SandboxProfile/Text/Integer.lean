/-!
# Signed 64-bit integers

The integers of profiles have 64 bits. A number outside their range has no value among them; it is
never wrapped.
-/

namespace SandboxProfile

namespace Integer

/-- The 64-bit integer with a given value. -/
def ofInt? (n : Int) : Option Int64 :=
  if -0x8000000000000000 ≤ n ∧ n < 0x8000000000000000 then some (Int64.ofInt n) else none

theorem toInt_of_ofInt? {n : Int} {i : Int64} (h : ofInt? n = some i) : i.toInt = n := by
  unfold ofInt? at h
  split at h
  next hn =>
    cases h
    exact Int64.toInt_ofInt_of_le hn.1 hn.2
  next => cases h

theorem ofInt?_toInt (i : Int64) : ofInt? i.toInt = some i := by
  have h₁ := i.le_toInt
  have h₂ := i.toInt_lt
  rw [ofInt?, if_pos ⟨h₁, h₂⟩, Int64.ofInt_toInt]

/-- The decimal text of an integer. -/
def display (i : Int64) : String := toString i.toInt

end Integer

end SandboxProfile
