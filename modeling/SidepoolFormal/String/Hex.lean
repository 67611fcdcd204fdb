import SidepoolFormal.Library.Byte
import SidepoolFormal.String.Code

/-!
# Hex

The writer's digits are the upper-case ones of the reader's, and the reader
takes two of them for each byte.  Both tables have few enough lines to be
compared line by line.
-/

namespace SidepoolFormal.String

open Library
open Base64x (ch)

/-! ## Digits -/

/-- `0`-`9`, `a`-`f` and `A`-`F`. -/
def IsHexDigit (c : UInt8) : Prop :=
  (ch '0' ≤ c ∧ c ≤ ch '9') ∨ (ch 'a' ≤ c ∧ c ≤ ch 'f') ∨ (ch 'A' ≤ c ∧ c ≤ ch 'F')

instance (c : UInt8) : Decidable (IsHexDigit c) :=
  inferInstanceAs (Decidable (_ ∨ _))

/-- The upper-case letter of a letter, and any other character as it is. -/
def upper (c : UInt8) : UInt8 :=
  if ch 'a' ≤ c ∧ c ≤ ch 'z' then c - ch 'a' + ch 'A' else c

/-- The character of a digit. -/
def digit (n : UInt8) : UInt8 := if n < 0xA then n + ch '0' else n - 0xA + ch 'A'

theorem printnybble_eq (os : List UInt8) (n : UInt8) : printnybble os n = os ++ [digit n] := by
  unfold printnybble digit
  split
  · rfl
  · rfl

/-- One line of the reader's table. -/
def Reads (c : UInt8) : Prop :=
  if IsHexDigit c then ∃ k, k < 16 ∧ hexdigit c = .ok k ∧ digit k = upper c
  else hexdigit c = .error .hexParsingError

instance (c : UInt8) : Decidable (Reads c) :=
  match h : hexdigit c with
  | .error .hexParsingError => decidable_of_iff (¬IsHexDigit c) (by simp [Reads, h])
  | .ok k => decidable_of_iff (IsHexDigit c ∧ k < 16 ∧ digit k = upper c) (by
      by_cases hex : IsHexDigit c
      · simp [Reads, h, hex]
      · simp [Reads, h, hex])

theorem reads (c : UInt8) : Reads c := forall_byte (by decide +kernel) c

theorem hexdigit_of_hex {c : UInt8} (hex : IsHexDigit c) :
    ∃ k, k < 16 ∧ hexdigit c = .ok k ∧ digit k = upper c := by
  have line := reads c
  rwa [Reads, if_pos hex] at line

theorem hexdigit_of_not_hex {c : UInt8} (other : ¬IsHexDigit c) :
    hexdigit c = .error .hexParsingError := by
  have line := reads c
  rwa [Reads, if_neg other] at line

theorem hexdigit_digit {k : UInt8} (small : k < 16) : hexdigit (digit k) = .ok k :=
  forall_byte_lt (P := fun k => hexdigit (digit k) = .ok k) (by decide) small

/-! ## Halves of a byte -/

theorem toNat_mask (n : UInt8) : (n &&& 0xF).toNat = n.toNat % 16 := by
  rw [UInt8.toNat_and]
  exact Nat.and_two_pow_sub_one_eq_mod n.toNat 4

theorem mask_lt (n : UInt8) : n &&& 0xF < 16 := by
  rw [UInt8.lt_iff_toNat_lt, toNat_mask]
  exact Nat.mod_lt _ (by decide)

theorem toNat_join {hi lo : UInt8} (high : hi < 16) (low : lo < 16) :
    (hi <<< 4 ||| lo).toNat = 16 * hi.toNat + lo.toNat := by
  have small : lo.toNat < 2 ^ 4 := low
  have fits : hi.toNat < 16 := high
  have shifted : (hi <<< 4).toNat = hi.toNat <<< 4 := by
    simp [Nat.shiftLeft_eq]
    omega
  rw [UInt8.toNat_or, shifted, ← Nat.shiftLeft_add_eq_or_of_lt small, Nat.shiftLeft_eq]
  omega

theorem toNat_high (b : UInt8) : ((b >>> 4) &&& 0xF).toNat = b.toNat / 16 := by
  have small := b.toNat_lt
  rw [toNat_mask]
  simp [Nat.shiftRight_eq_div_pow]
  omega

theorem toNat_low (b : UInt8) : ((b >>> 0) &&& 0xF).toNat = b.toNat % 16 := by
  rw [toNat_mask]
  simp

theorem join_halves (b : UInt8) : ((b >>> 4) &&& 0xF) <<< 4 ||| ((b >>> 0) &&& 0xF) = b := by
  apply UInt8.toNat_inj.mp
  rw [toNat_join (mask_lt _) (mask_lt _), toNat_high, toNat_low]
  omega

theorem high_join {hi lo : UInt8} (high : hi < 16) (low : lo < 16) :
    ((hi <<< 4 ||| lo) >>> 4) &&& 0xF = hi := by
  have small : lo.toNat < 16 := low
  apply UInt8.toNat_inj.mp
  rw [toNat_high, toNat_join high low]
  omega

theorem low_join {hi lo : UInt8} (high : hi < 16) (low : lo < 16) :
    ((hi <<< 4 ||| lo) >>> 0) &&& 0xF = lo := by
  have small : lo.toNat < 16 := low
  apply UInt8.toNat_inj.mp
  rw [toNat_low, toNat_join high low]
  omega

/-! ## Writing -/

/-- The two digits of a byte. -/
def digits (b : UInt8) : List UInt8 := [digit ((b >>> 4) &&& 0xF), digit ((b >>> 0) &&& 0xF)]

theorem printbyte_eq (os : List UInt8) (b : UInt8) : printbyte os b = os ++ digits b := by
  simp [printbyte, printnybble_eq, digits]

theorem printhex_eq (os v : List UInt8) : printhex os v = os ++ v.flatMap digits := by
  induction v generalizing os with
  | nil => simp [printhex]
  | cons b rest ih => simp [printhex, printbyte_eq, ih]

/-! ## Reading -/

theorem parsehexFrom_ok {p p2 hi lo : UInt8} (high : hexdigit p = .ok hi)
    (low : hexdigit p2 = .ok lo) (rv rest : List UInt8) :
    parsehexFrom rv (p :: p2 :: rest) = parsehexFrom (rv ++ [hi <<< 4 ||| lo]) rest := by
  rw [parsehexFrom, high, low]
  rfl

/-- The reader gets back what the writer wrote, behind what it has read. -/
theorem parsehexFrom_digits (rv v : List UInt8) :
    parsehexFrom rv (v.flatMap digits) = .ok (rv ++ v) := by
  induction v generalizing rv with
  | nil => simp [parsehexFrom]
  | cons b rest ih =>
      have high := hexdigit_digit (mask_lt (b >>> 4))
      have low := hexdigit_digit (mask_lt (b >>> 0))
      rw [List.flatMap_cons, digits, List.cons_append, List.cons_append, List.nil_append,
        parsehexFrom_ok high low, join_halves, ih, List.append_assoc]
      rfl

/-- An even number of hex digits, and nothing else. -/
def IsHex (s : List UInt8) : Prop := s.length % 2 = 0 ∧ ∀ c ∈ s, IsHexDigit c

theorem isHex_pair (p p2 : UInt8) (rest : List UInt8) :
    IsHex (p :: p2 :: rest) ↔ IsHexDigit p ∧ IsHexDigit p2 ∧ IsHex rest := by
  have even : (p :: p2 :: rest).length % 2 = rest.length % 2 := by
    rw [List.length_cons, List.length_cons]
    omega
  rw [IsHex, IsHex, even, List.forall_mem_cons, List.forall_mem_cons]
  exact and_left_comm.trans (and_congr_right fun _ => and_left_comm)

/-- What the reader makes of a hex string: its digits are those of the bytes, in
upper case. -/
theorem parsehexFrom_of_hex {s : List UInt8} (rv : List UInt8) (hex : IsHex s) :
    ∃ v, parsehexFrom rv s = .ok (rv ++ v) ∧ v.flatMap digits = s.map upper := by
  induction rv, s using parsehexFrom.induct with
  | case1 rv => exact ⟨[], by rw [parsehexFrom, List.append_nil], rfl⟩
  | case2 rv p => exact absurd hex.1 (by simp)
  | case3 rv p p2 rest ih =>
      obtain ⟨first, second, others⟩ := (isHex_pair p p2 rest).mp hex
      obtain ⟨hi, high, same, upper_hi⟩ := hexdigit_of_hex first
      obtain ⟨lo, low, same2, upper_lo⟩ := hexdigit_of_hex second
      obtain ⟨v, read, written⟩ := ih hi lo others
      refine ⟨(hi <<< 4 ||| lo) :: v, ?_, ?_⟩
      · rw [parsehexFrom_ok same same2, read, List.append_assoc]
        rfl
      · rw [List.flatMap_cons, digits, high_join high low, low_join high low, written, upper_hi,
          upper_lo]
        rfl

theorem parsehexFrom_of_not_hex {s : List UInt8} (rv : List UInt8) (other : ¬IsHex s) :
    parsehexFrom rv s = .error .hexParsingError := by
  induction rv, s using parsehexFrom.induct with
  | case1 rv => exact absurd ⟨rfl, fun _ member => nomatch member⟩ other
  | case2 rv p => rfl
  | case3 rv p p2 rest ih =>
      by_cases first : IsHexDigit p
      · obtain ⟨hi, -, same, -⟩ := hexdigit_of_hex first
        by_cases second : IsHexDigit p2
        · obtain ⟨lo, -, same2, -⟩ := hexdigit_of_hex second
          rw [parsehexFrom_ok same same2]
          refine ih hi lo fun rest_hex => ?_
          exact other ((isHex_pair p p2 rest).mpr ⟨first, second, rest_hex⟩)
        · rw [parsehexFrom, same, hexdigit_of_not_hex second]
          rfl
      · rw [parsehexFrom, hexdigit_of_not_hex first]
        rfl

/-- What was written is read back; of all strings just the hex strings are read,
and writing what was read gives the string in upper case. -/
theorem parsehex_printhex (os : List UInt8) :
    (∀ v, ∃ w, printhex os v = os ++ w ∧ parsehex w = .ok v) ∧
    ∀ s, ((∃ v, parsehex s = .ok v) ↔ IsHex s) ∧
      (¬IsHex s → parsehex s = .error .hexParsingError) ∧
      ∀ v, parsehex s = .ok v → printhex os v = os ++ s.map upper := by
  constructor
  · intro v
    exact ⟨v.flatMap digits, printhex_eq os v, parsehexFrom_digits [] v⟩
  · intro s
    have fails (other : ¬IsHex s) := parsehexFrom_of_not_hex [] other
    refine ⟨⟨?_, ?_⟩, fails, ?_⟩
    · rintro ⟨v, read⟩
      by_contra other
      rw [parsehex, fails other] at read
      cases read
    · intro hex
      obtain ⟨v, read, -⟩ := parsehexFrom_of_hex [] hex
      exact ⟨v, read⟩
    · intro v read
      by_cases hex : IsHex s
      · obtain ⟨v', read', written⟩ := parsehexFrom_of_hex [] hex
        obtain rfl : v' = v := Except.ok.inj (read'.symm.trans read)
        rw [printhex_eq, written]
      · rw [parsehex, fails hex] at read
        cases read

end SidepoolFormal.String
