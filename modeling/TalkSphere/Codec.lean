import Mathlib.Tactic.Common

/-! Canonical formats over byte strings, and decoders written with the indexing
that could leave the input. A decoder of this second kind answers `none` where an
index or a slice is out of range. -/

namespace Codec

variable {α ε : Type}

/-- One index of a slice. -/
def at? (bytes : List UInt8) (i : Nat) : Option UInt8 := bytes[i]?

/-- The slice `bytes[lo..hi]`. -/
def slice? (bytes : List UInt8) (lo hi : Nat) : Option (List UInt8) :=
  if lo ≤ hi ∧ hi ≤ bytes.length then some ((bytes.drop lo).take (hi - lo)) else none

theorem at?_eq {bytes : List UInt8} {i : Nat} (h : i < bytes.length) :
    at? bytes i = some (bytes.getD i 0) := by
  simp [at?, h]

theorem slice?_eq {bytes : List UInt8} {lo hi : Nat} (h : lo ≤ hi) (hb : hi ≤ bytes.length) :
    slice? bytes lo hi = some ((bytes.drop lo).take (hi - lo)) :=
  if_pos ⟨h, hb⟩

theorem slice?_from {bytes : List UInt8} {lo : Nat} (h : lo ≤ bytes.length) :
    slice? bytes lo bytes.length = some (bytes.drop lo) := by
  rw [slice?_eq h (Nat.le_refl _), List.take_of_length_le (by simp)]

/-- Encoding and decoding are inverse to each other between the valid values and
the accepted byte strings, and the indexed decoder never leaves its input. -/
structure Canonical (Valid : α → Prop) (encode : α → List UInt8)
    (decode : List UInt8 → Except ε α) (indexed : List UInt8 → Option (Except ε α)) : Prop where
  decode_encode : ∀ x, Valid x → decode (encode x) = .ok x
  encode_decode : ∀ bytes x, decode bytes = .ok x → encode x = bytes
  accepts : ∀ bytes, (∃ x, decode bytes = .ok x) ↔ ∃ x, Valid x ∧ encode x = bytes
  unique : ∀ bytes bytes' x, decode bytes = .ok x → decode bytes' = .ok x → bytes = bytes'
  inRange : ∀ bytes, indexed bytes = some (decode bytes)

theorem Canonical.of_inverse {Valid : α → Prop} {encode : α → List UInt8}
    {decode : List UInt8 → Except ε α} {indexed : List UInt8 → Option (Except ε α)}
    (hde : ∀ x, Valid x → decode (encode x) = .ok x)
    (hed : ∀ bytes x, decode bytes = .ok x → encode x = bytes ∧ Valid x)
    (hin : ∀ bytes, indexed bytes = some (decode bytes)) :
    Canonical Valid encode decode indexed where
  decode_encode := hde
  encode_decode := fun bytes x h => (hed bytes x h).1
  accepts := by
    intro bytes
    constructor
    · rintro ⟨x, h⟩
      exact ⟨x, (hed bytes x h).2, (hed bytes x h).1⟩
    · rintro ⟨x, hv, rfl⟩
      exact ⟨x, hde x hv⟩
  unique := by
    intro bytes bytes' x h h'
    rw [← (hed bytes x h).1, ← (hed bytes' x h').1]
  inRange := hin

end Codec
