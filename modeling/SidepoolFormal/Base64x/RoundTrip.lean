import SidepoolFormal.Base64x.Code
import SidepoolFormal.Library.Byte
import Mathlib.Tactic.IntervalCases

/-!
# Base64x round trip

The encoder's output is read off the six-bit groups of its input, and the
decoder reassembles the groups that the characters stand for.  The two tables
disagree on the single group 61, so the decoder gives the input back exactly
when that group does not occur in it.
-/

namespace SidepoolFormal.Base64x

/-! ## Six-bit groups -/

/-- The six-bit groups of a byte vector, most significant first, the last one
filled up with zero bits. -/
def sextets : List UInt8 → List UInt8
  | [] => []
  | [a] => [a >>> 2, (a &&& 0x3) <<< 4]
  | [a, b] => [a >>> 2, (a &&& 0x3) <<< 4 ||| b >>> 4, (b &&& 0xF) <<< 2]
  | a :: b :: c :: rest =>
      a >>> 2 :: ((a &&& 0x3) <<< 4 ||| b >>> 4) ::
        ((b &&& 0xF) <<< 2 ||| c >>> 6) :: (c &&& 0x3F) :: sextets rest

/-- The bytes that a list of six-bit groups spells. -/
def unsextets : List UInt8 → List UInt8
  | k₀ :: k₁ :: k₂ :: k₃ :: rest =>
      (k₀ <<< 2 ||| k₁ >>> 4) :: ((k₁ &&& 0xF) <<< 4 ||| k₂ >>> 2) ::
        ((k₂ &&& 0x3) <<< 6 ||| k₃) :: unsextets rest
  | [k₀, k₁, k₂] => [k₀ <<< 2 ||| k₁ >>> 4, (k₁ &&& 0xF) <<< 4 ||| k₂ >>> 2]
  | [k₀, k₁] => [k₀ <<< 2 ||| k₁ >>> 4]
  | _ => []

/-- The padding that the encoding of a vector of the given length ends in. -/
def padding (length : Nat) : List UInt8 :=
  if length % 3 = 1 then [ch '=', ch '=']
  else if length % 3 = 2 then [ch '=']
  else []

theorem padding_add_three (n : Nat) : padding (n + 1 + 1 + 1) = padding n := by
  simp only [padding, show (n + 1 + 1 + 1) % 3 = n % 3 by omega]

/-- The group that the decoder's table gives for the character that the
encoder's table chose. -/
def confuse (k : UInt8) : UInt8 := if k = 61 then 63 else k

/-- `A-Z a-z 0-9 + %`. -/
def InAlphabet (c : UInt8) : Prop :=
  (ch 'A' ≤ c ∧ c ≤ ch 'Z') ∨ (ch 'a' ≤ c ∧ c ≤ ch 'z') ∨ (ch '0' ≤ c ∧ c ≤ ch '9') ∨
    c = ch '+' ∨ c = ch '%'

instance (c : UInt8) : Decidable (InAlphabet c) :=
  inferInstanceAs (Decidable (_ ∨ _))

/-! ## Bit identities -/

theorem byte_ext {x y : UInt8}
    (h : ∀ i, i < 8 → x.toBitVec.getLsbD i = y.toBitVec.getLsbD i) : x = y :=
  UInt8.toBitVec_inj.mp (BitVec.eq_of_getLsbD_eq h)

theorem high_bits_of_lt {k : UInt8} (h : k < 64) :
    k.toBitVec[6] = false ∧ k.toBitVec[7] = false := by
  have bit (i : Nat) (hi : 6 ≤ i) : k.toBitVec.getLsbD i = false := by
    have small : k.toNat < 2 ^ i :=
      Nat.lt_of_lt_of_le (UInt8.lt_iff_toNat_lt.mp h)
        (Nat.pow_le_pow_right (by decide : 2 > 0) hi)
    simpa [BitVec.getLsbD] using Nat.testBit_lt_two_pow small
  exact ⟨bit 6 (by decide), bit 7 (by decide)⟩

theorem first_byte (a b : UInt8) :
    (a >>> 2) <<< 2 ||| ((a &&& 0x3) <<< 4 ||| b >>> 4) >>> 4 = a := by
  apply byte_ext
  intro i hi
  interval_cases i <;> simp

theorem first_byte_last (a : UInt8) :
    (a >>> 2) <<< 2 ||| ((a &&& 0x3) <<< 4) >>> 4 = a := by
  apply byte_ext
  intro i hi
  interval_cases i <;> simp

theorem second_byte (a b c : UInt8) :
    (((a &&& 0x3) <<< 4 ||| b >>> 4) &&& 0xF) <<< 4 |||
      ((b &&& 0xF) <<< 2 ||| c >>> 6) >>> 2 = b := by
  apply byte_ext
  intro i hi
  interval_cases i <;> simp

theorem second_byte_last (a b : UInt8) :
    (((a &&& 0x3) <<< 4 ||| b >>> 4) &&& 0xF) <<< 4 ||| ((b &&& 0xF) <<< 2) >>> 2 = b := by
  apply byte_ext
  intro i hi
  interval_cases i <;> simp

theorem third_byte (b c : UInt8) :
    (((b &&& 0xF) <<< 2 ||| c >>> 6) &&& 0x3) <<< 6 ||| (c &&& 0x3F) = c := by
  apply byte_ext
  intro i hi
  interval_cases i <;> simp

theorem first_sextet {k₀ k₁ : UInt8} (h₀ : k₀ < 64) (h₁ : k₁ < 64) :
    (k₀ <<< 2 ||| k₁ >>> 4) >>> 2 = k₀ := by
  have top := high_bits_of_lt h₀
  have next := high_bits_of_lt h₁
  apply byte_ext
  intro i hi
  interval_cases i <;> simp [top, next]

theorem second_sextet {k₀ k₁ k₂ : UInt8} (h₁ : k₁ < 64) (h₂ : k₂ < 64) :
    ((k₀ <<< 2 ||| k₁ >>> 4) &&& 0x3) <<< 4 |||
      ((k₁ &&& 0xF) <<< 4 ||| k₂ >>> 2) >>> 4 = k₁ := by
  have top := high_bits_of_lt h₁
  have next := high_bits_of_lt h₂
  apply byte_ext
  intro i hi
  interval_cases i <;> simp [top, next]

theorem third_sextet {k₁ k₂ k₃ : UInt8} (h₂ : k₂ < 64) (h₃ : k₃ < 64) :
    (((k₁ &&& 0xF) <<< 4 ||| k₂ >>> 2) &&& 0xF) <<< 2 |||
      ((k₂ &&& 0x3) <<< 6 ||| k₃) >>> 6 = k₂ := by
  have top := high_bits_of_lt h₂
  have next := high_bits_of_lt h₃
  apply byte_ext
  intro i hi
  interval_cases i <;> simp [top, next]

theorem fourth_sextet {k₂ k₃ : UInt8} (h₃ : k₃ < 64) :
    ((k₂ &&& 0x3) <<< 6 ||| k₃) &&& 0x3F = k₃ := by
  have top := high_bits_of_lt h₃
  apply byte_ext
  intro i hi
  interval_cases i <;> simp [top]

theorem second_sextet_last (k₀ a : UInt8) :
    ((k₀ <<< 2 ||| ((a &&& 0x3) <<< 4) >>> 4) &&& 0x3) <<< 4 = (a &&& 0x3) <<< 4 := by
  apply byte_ext
  intro i hi
  interval_cases i <;> simp

theorem third_sextet_last (k₁ b : UInt8) :
    (((k₁ &&& 0xF) <<< 4 ||| ((b &&& 0xF) <<< 2) >>> 2) &&& 0xF) <<< 2 = (b &&& 0xF) <<< 2 := by
  apply byte_ext
  intro i hi
  interval_cases i <;> simp

/-- A byte shifted right in 64 bits still fits in eight. -/
theorem shift_truncate (a : UInt8) :
    (a.toUInt64 >>> 2).toUInt8 = a >>> 2 ∧ (a.toUInt64 >>> 4).toUInt8 = a >>> 4 ∧
      (a.toUInt64 >>> 6).toUInt8 = a >>> 6 := by
  refine ⟨?_, ?_, ?_⟩
  · apply byte_ext
    intro i hi
    interval_cases i <;> simp
  · apply byte_ext
    intro i hi
    interval_cases i <;> simp
  · apply byte_ext
    intro i hi
    interval_cases i <;> simp

/-! ## Ranges of the groups -/

theorem shift_lt (a : UInt8) : a >>> 2 < 64 := by
  rw [UInt8.lt_iff_toNat_lt]
  have small := a.toNat_lt
  simp [Nat.shiftRight_eq_div_pow]
  omega

theorem mask_lt (c : UInt8) : c &&& 0x3F < 64 := by
  rw [UInt8.lt_iff_toNat_lt]
  simpa using Nat.lt_of_le_of_lt (Nat.and_le_right (n := c.toNat) (m := 63)) (by decide)

/-- A byte whose two top bits are clear is a six-bit group. -/
theorem lt_of_high_bits {k : UInt8} (h : k &&& 0x3F = k) : k < 64 := h ▸ mask_lt k

theorem second_lt (a b : UInt8) : (a &&& 0x3) <<< 4 ||| b >>> 4 < 64 := by
  apply lt_of_high_bits
  apply byte_ext
  intro i hi
  interval_cases i <;> simp

theorem third_lt (b c : UInt8) : (b &&& 0xF) <<< 2 ||| c >>> 6 < 64 := by
  apply lt_of_high_bits
  apply byte_ext
  intro i hi
  interval_cases i <;> simp

theorem second_last_lt (a : UInt8) : (a &&& 0x3) <<< 4 < 64 := by
  apply lt_of_high_bits
  apply byte_ext
  intro i hi
  interval_cases i <;> simp

theorem third_last_lt (b : UInt8) : (b &&& 0xF) <<< 2 < 64 := by
  apply lt_of_high_bits
  apply byte_ext
  intro i hi
  interval_cases i <;> simp

theorem sextets_lt (v : List UInt8) : ∀ k ∈ sextets v, k < 64 := by
  induction v using sextets.induct with
  | case1 => simp [sextets]
  | case2 a => simp [sextets, shift_lt, second_last_lt]
  | case3 a b => simp [sextets, shift_lt, second_lt, third_last_lt]
  | case4 a b c rest ih =>
      simpa [sextets, shift_lt, second_lt, third_lt, mask_lt] using ih

/-! ## Tables -/

/-- One line of the two tables: the character of a group is in the alphabet,
is not the padding, and decodes to the confused group. -/
def TableLine (k : UInt8) : Prop :=
  ∃ c ∈ encodeB64 k, InAlphabet c ∧ c ≠ ch '=' ∧ decodeB64 c = .ok (confuse k)

instance (k : UInt8) : Decidable (TableLine k) :=
  match h : encodeB64 k with
  | none => .isFalse (by simp [TableLine, h])
  | some c => decidable_of_iff (InAlphabet c ∧ c ≠ ch '=' ∧ decodeB64 c = .ok (confuse k))
      (by simp [TableLine, h])

theorem tableLine (k : UInt8) (h : k < 64) : TableLine k :=
  Library.forall_byte_lt (by decide) h

def symbol (k : UInt8) : UInt8 := (encodeB64 k).getD 0

theorem encodeB64_of_lt {k : UInt8} (h : k < 64) : encodeB64 k = some (symbol k) := by
  obtain ⟨c, hc, -⟩ := tableLine k h
  simp [symbol, Option.mem_def.mp hc]

theorem symbol_spec {k : UInt8} (h : k < 64) :
    InAlphabet (symbol k) ∧ symbol k ≠ ch '=' ∧ decodeB64 (symbol k) = .ok (confuse k) := by
  obtain ⟨c, hc, spec⟩ := tableLine k h
  simpa [symbol, Option.mem_def.mp hc] using spec

/-! ## Encoder -/

namespace Encoder

theorem feed_zero (os : List UInt8) (a : UInt8) :
    feed ⟨0, 0, os⟩ a.toUInt64 = some ⟨1, a &&& 0x3, os ++ [symbol (a >>> 2)]⟩ := by
  simp [feed, shift_truncate, encodeB64_of_lt, shift_lt]

theorem feed_one (os : List UInt8) (a b : UInt8) :
    feed ⟨1, a &&& 0x3, os⟩ b.toUInt64 =
      some ⟨2, b &&& 0xF, os ++ [symbol ((a &&& 0x3) <<< 4 ||| b >>> 4)]⟩ := by
  simp [feed, shift_truncate, encodeB64_of_lt (second_lt a b)]

theorem feed_two (os : List UInt8) (b c : UInt8) :
    feed ⟨2, b &&& 0xF, os⟩ c.toUInt64 =
      some ⟨0, 0, os ++ [symbol ((b &&& 0xF) <<< 2 ||| c >>> 6), symbol (c &&& 0x3F)]⟩ := by
  simp [feed, shift_truncate, encodeB64_of_lt (third_lt b c), encodeB64_of_lt (mask_lt c)]

/-- From the start of a group of three the encoder appends the characters of
the remaining groups and the padding, and no assertion fails. -/
theorem run (v os : List UInt8) :
    (v.foldlM (fun e b => feed e b.toUInt64) ⟨0, 0, os⟩).bind finish =
      some (os ++ (sextets v).map symbol ++ padding v.length) := by
  induction v using sextets.induct generalizing os with
  | case1 => simp [finish, sextets, padding]
  | case2 a =>
      have last := encodeB64_of_lt (second_last_lt a)
      simp [feed_zero, finish, last, sextets, padding]
  | case3 a b =>
      have last := encodeB64_of_lt (third_last_lt b)
      simp [feed_zero, feed_one, finish, last, sextets, padding]
  | case4 a b c rest ih =>
      simp only [List.foldlM_cons, feed_zero, feed_one, feed_two, Option.bind_eq_bind,
        Option.bind_some, ih, padding_add_three, sextets, List.map_cons, List.length_cons,
        List.append_assoc, List.cons_append, List.nil_append]

end Encoder

theorem encode_eq (v : List UInt8) :
    encode v = some ((sextets v).map symbol ++ padding v.length) :=
  Encoder.run v []

/-! ## Decoder -/

theorem Decoder.feed_four (ov : List UInt8) {k₀ k₁ k₂ k₃ : UInt8} (h₀ : k₀ < 64) (h₁ : k₁ < 64)
    (h₂ : k₂ < 64) (h₃ : k₃ < 64) (rest : List UInt8) :
    (symbol k₀ :: symbol k₁ :: symbol k₂ :: symbol k₃ :: rest).foldlM Decoder.feed ⟨ov, 0, 0⟩ =
      rest.foldlM Decoder.feed
        ⟨ov ++ unsextets [confuse k₀, confuse k₁, confuse k₂, confuse k₃], 0, 0⟩ := by
  have s₀ := symbol_spec h₀
  have s₁ := symbol_spec h₁
  have s₂ := symbol_spec h₂
  have s₃ := symbol_spec h₃
  simp [Decoder.feed, s₀, s₁, s₂, s₃, bind, Except.bind, unsextets]

theorem Decoder.run (v ov : List UInt8) :
    (((sextets v).map symbol ++ padding v.length).foldlM Decoder.feed ⟨ov, 0, 0⟩ >>=
      Decoder.finish) = .ok (ov ++ unsextets ((sextets v).map confuse)) := by
  induction v using sextets.induct generalizing ov with
  | case1 =>
      simp [sextets, padding, Decoder.finish, unsextets, bind, Except.bind, pure, Except.pure]
  | case2 a =>
      have s₀ := symbol_spec (shift_lt a)
      have s₁ := symbol_spec (second_last_lt a)
      simp [sextets, padding, Decoder.feed, Decoder.finish, s₀, s₁, unsextets, bind,
        Except.bind, pure, Except.pure]
  | case3 a b =>
      have s₀ := symbol_spec (shift_lt a)
      have s₁ := symbol_spec (second_lt a b)
      have s₂ := symbol_spec (third_last_lt b)
      simp [sextets, padding, Decoder.feed, Decoder.finish, s₀, s₁, s₂, unsextets, bind,
        Except.bind, pure, Except.pure]
  | case4 a b c rest ih =>
      simp only [sextets, List.map_cons, List.cons_append, List.length_cons, padding_add_three]
      rw [Decoder.feed_four ov (shift_lt a) (second_lt a b) (third_lt b c) (mask_lt c), ih]
      simp [unsextets]

theorem decode_encoded (v : List UInt8) :
    decode ((sextets v).map symbol ++ padding v.length) =
      .ok (unsextets ((sextets v).map confuse)) :=
  Decoder.run v []

/-! ## Groups and bytes determine each other -/

theorem unsextets_sextets (v : List UInt8) : unsextets (sextets v) = v := by
  induction v using sextets.induct with
  | case1 => rfl
  | case2 a => simp [sextets, unsextets, first_byte_last]
  | case3 a b => simp [sextets, unsextets, first_byte, second_byte_last]
  | case4 a b c rest ih =>
      simp [sextets, unsextets, first_byte, second_byte, third_byte, ih]

theorem confuse_lt {k : UInt8} (h : k < 64) : confuse k < 64 := by
  unfold confuse
  split
  · decide
  · exact h

/-- The low bit of 61 is set, and a group padded with zeros has none. -/
theorem confuse_of_low {k : UInt8} (low : k.toBitVec.getLsbD 0 = false) : confuse k = k := by
  apply if_neg
  rintro rfl
  exact absurd low (by decide)

theorem confuse_second_last (a : UInt8) : confuse ((a &&& 0x3) <<< 4) = (a &&& 0x3) <<< 4 :=
  confuse_of_low (by simp)

theorem confuse_third_last (b : UInt8) : confuse ((b &&& 0xF) <<< 2) = (b &&& 0xF) <<< 2 :=
  confuse_of_low (by simp)

/-- The decoded bytes spell the confused groups, so no group is lost in them. -/
theorem sextets_unsextets_confuse (v : List UInt8) :
    sextets (unsextets ((sextets v).map confuse)) = (sextets v).map confuse := by
  induction v using sextets.induct with
  | case1 => rfl
  | case2 a =>
      have h₀ := confuse_lt (shift_lt a)
      have h₁ := second_last_lt a
      simp [sextets, unsextets, confuse_second_last, first_sextet h₀ h₁, second_sextet_last]
  | case3 a b =>
      have h₀ := confuse_lt (shift_lt a)
      have h₁ := confuse_lt (second_lt a b)
      have h₂ := third_last_lt b
      simp [sextets, unsextets, confuse_third_last, first_sextet h₀ h₁, second_sextet h₁ h₂,
        third_sextet_last]
  | case4 a b c rest ih =>
      have h₀ := confuse_lt (shift_lt a)
      have h₁ := confuse_lt (second_lt a b)
      have h₂ := confuse_lt (third_lt b c)
      have h₃ := confuse_lt (mask_lt c)
      simp [sextets, unsextets, first_sextet h₀ h₁, second_sextet h₁ h₂, third_sextet h₂ h₃,
        fourth_sextet h₃, ih]

theorem map_confuse_eq_iff (K : List UInt8) : K.map confuse = K ↔ 61 ∉ K := by
  induction K with
  | nil => simp
  | cons k rest ih =>
      by_cases h : k = 61
      · simp [h, confuse]
      · simp [ih, confuse, h, Ne.symm h]

/-- The decoder gives back the encoder's input exactly when the two tables
agree on every group of it. -/
theorem unsextets_confuse_eq_iff (v : List UInt8) :
    unsextets ((sextets v).map confuse) = v ↔ 61 ∉ sextets v := by
  rw [← map_confuse_eq_iff]
  constructor
  · intro same
    rw [← sextets_unsextets_confuse, same]
  · intro same
    rw [same, unsextets_sextets]

theorem length_sextets_add_padding (v : List UInt8) :
    (sextets v).length + (padding v.length).length = 4 * ((v.length + 2) / 3) := by
  induction v using sextets.induct with
  | case1 => rfl
  | case2 a => simp [sextets, padding]
  | case3 a b => simp [sextets, padding]
  | case4 a b c rest ih =>
      simp only [sextets, List.length_cons, padding_add_three]
      omega

/-! ## Round trip -/

/-- Encoding `v` trips no assertion, has the promised shape, and decodes to `v`. -/
structure RoundTrips (v s : List UInt8) : Prop where
  encoded : encode v = some s
  length : s.length = 4 * ((v.length + 2) / 3)
  shape : ∃ body pad, s = body ++ pad ∧ (∀ c ∈ body, InAlphabet c) ∧
    pad ∈ [[], [ch '='], [ch '=', ch '=']]
  decoded : decode s = .ok v

theorem encoded_length (v : List UInt8) :
    ((sextets v).map symbol ++ padding v.length).length = 4 * ((v.length + 2) / 3) := by
  rw [List.length_append, List.length_map, length_sextets_add_padding]

theorem encoded_shape (v : List UInt8) :
    ∃ body pad, (sextets v).map symbol ++ padding v.length = body ++ pad ∧
      (∀ c ∈ body, InAlphabet c) ∧ pad ∈ [[], [ch '='], [ch '=', ch '=']] := by
  refine ⟨_, _, rfl, ?_, ?_⟩
  · intro c member
    obtain ⟨k, inside, rfl⟩ := List.mem_map.mp member
    exact (symbol_spec (sextets_lt v k inside)).1
  · unfold padding
    split_ifs <;> simp

theorem exists_roundTrips_iff (v : List UInt8) :
    (∃ s, RoundTrips v s) ↔ 61 ∉ sextets v := by
  rw [← unsextets_confuse_eq_iff]
  constructor
  · rintro ⟨s, trip⟩
    have same : s = (sextets v).map symbol ++ padding v.length :=
      Option.some.inj (trip.encoded.symm.trans (encode_eq v))
    have back := trip.decoded
    rw [same, decode_encoded] at back
    exact Except.ok.inj back
  · intro same
    refine ⟨_, encode_eq v, encoded_length v, encoded_shape v, ?_⟩
    rw [decode_encoded, same]

/-- `0xF4` begins with the group 61: it is written as `%A==`, which reads back
as `0xFC`. -/
theorem f4_not_roundTrips : ¬ ∃ s, RoundTrips [0xF4] s := by
  rintro ⟨s, trip⟩
  have written : encode [0xF4] = some [ch '%', ch 'A', ch '=', ch '='] := by decide
  have read : decode [ch '%', ch 'A', ch '=', ch '='] = .ok [0xFC] := by decide
  have back := trip.decoded
  rw [Option.some.inj (trip.encoded.symm.trans written), read] at back
  exact absurd back (by decide)

end SidepoolFormal.Base64x
