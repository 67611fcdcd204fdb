import Mathlib.Data.UInt

/-!
# Bytes

What holds of every number below 256 holds of every byte, so that a table of
bytes can be gone through line by line.
-/

namespace SidepoolFormal.Library

variable {P : UInt8 → Prop}

theorem forall_byte_lt {bound : UInt8} (h : ∀ n < bound.toNat, P (UInt8.ofNat n)) {b : UInt8}
    (small : b < bound) : P b := by
  have found := h b.toNat (UInt8.lt_iff_toNat_lt.mp small)
  rwa [UInt8.ofNat_toNat] at found

theorem forall_byte (h : ∀ n < 256, P (UInt8.ofNat n)) (b : UInt8) : P b := by
  have found := h b.toNat b.toNat_lt
  rwa [UInt8.ofNat_toNat] at found

end SidepoolFormal.Library
