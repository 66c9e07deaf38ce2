/-!
# Decoding UTF-8

Bytes are decoded without failing: where no character can be read, the longest run that begins one
is taken for one replacement character, or a single byte if it begins none. A lead byte tells how
many bytes follow and which values the first of these may have, so that no character has two forms
and surrogates have none.
-/

namespace SandboxProfile

namespace Utf8

/-- Stands for what could not be decoded. -/
def replacement : Char := '\uFFFD'

/-- What a lead byte tells: its part of the number, how many bytes follow, and between which bounds
the first of them lies. -/
structure Lead where
  bits : Nat
  more : Nat
  low : Nat
  high : Nat
deriving DecidableEq, Repr

def lead? (b : Nat) : Option Lead :=
  if b < 0x80 then some ⟨b, 0, 0, 0⟩
  else if b < 0xC2 then none
  else if b < 0xE0 then some ⟨b - 0xC0, 1, 0x80, 0xBF⟩
  else if b = 0xE0 then some ⟨0, 2, 0xA0, 0xBF⟩
  else if b = 0xED then some ⟨0xD, 2, 0x80, 0x9F⟩
  else if b < 0xF0 then some ⟨b - 0xE0, 2, 0x80, 0xBF⟩
  else if b = 0xF0 then some ⟨0, 3, 0x90, 0xBF⟩
  else if b < 0xF4 then some ⟨b - 0xF0, 3, 0x80, 0xBF⟩
  else if b = 0xF4 then some ⟨4, 3, 0x80, 0x8F⟩
  else none

/-- The character that `more` further bytes complete, and what follows it. -/
def complete (bits : Nat) : (more low high : Nat) → List UInt8 → Char × List UInt8
  | 0, _, _, bytes => (Char.ofNat bits, bytes)
  | _ + 1, _, _, [] => (replacement, [])
  | more + 1, low, high, b :: bytes =>
    if low ≤ b.toNat ∧ b.toNat ≤ high then
      complete (bits * 64 + b.toNat % 64) more 0x80 0xBF bytes
    else (replacement, b :: bytes)

theorem complete_length_le (bits more low high : Nat) (bytes : List UInt8) :
    (complete bits more low high bytes).2.length ≤ bytes.length := by
  induction more generalizing bits low high bytes with
  | zero => exact Nat.le_refl _
  | succ more ih =>
    cases bytes with
    | nil => exact Nat.le_refl _
    | cons b bytes =>
      unfold complete
      split
      · exact Nat.le_succ_of_le (ih _ _ _ _)
      · exact Nat.le_refl _

/-- The characters of some bytes; `before` are those already decoded, the last one first. -/
def decodeOnto (before : List Char) : List UInt8 → List Char
  | [] => before.reverse
  | b :: bytes =>
    match lead? b.toNat with
    | none => decodeOnto (replacement :: before) bytes
    | some l =>
      let step := complete l.bits l.more l.low l.high bytes
      decodeOnto (step.1 :: before) step.2
termination_by bytes => bytes.length
decreasing_by
  · exact Nat.lt_succ_self _
  · exact Nat.lt_succ_of_le (complete_length_le _ _ _ _ _)

def decode (bytes : List UInt8) : String := String.ofList (decodeOnto [] bytes)

end Utf8

end SandboxProfile
