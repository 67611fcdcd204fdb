import SidepoolFormal.Library.Blocks
import Mathlib.Data.List.GetD
import Mathlib.Data.Nat.NthRoot.Defs
import Mathlib.Tactic.Ring

/-!
# SHA-256

The hash as its specification has it: constants that are fractional parts of
roots of primes, the message schedule, the rounds on eight working variables,
the padding, and the chain over the blocks of the padded message.
-/

namespace SidepoolFormal.Library.Sha256

/-! ## Constants -/

/-- The test divides by the numbers below 18, the square of which is 324. -/
def isPrime (p : Nat) : Bool := 2 ≤ p && (List.range' 2 16).all fun d => p ≤ d || p % d != 0

/-- The first 64 primes. -/
def primes : List Nat := (List.range 312).filter isPrime

/-- The first 32 bits of the fractional part of the k-th root. -/
def fraction (k p : Nat) : UInt32 := UInt32.ofNat (Nat.nthRoot k (p * 2 ^ (32 * k)))

/-- From the cube roots of the first 64 primes. -/
def constants : List UInt32 := primes.map (fraction 3)

/-! ## Functions on words -/

def rotr (x n : UInt32) : UInt32 := (x >>> n) ||| (x <<< (32 - n))

def choose (x y z : UInt32) : UInt32 := (x &&& y) ^^^ (~~~x &&& z)

def majority (x y z : UInt32) : UInt32 := (x &&& y) ^^^ (x &&& z) ^^^ (y &&& z)

def bigSigma0 (x : UInt32) : UInt32 := rotr x 2 ^^^ rotr x 13 ^^^ rotr x 22

def bigSigma1 (x : UInt32) : UInt32 := rotr x 6 ^^^ rotr x 11 ^^^ rotr x 25

def smallSigma0 (x : UInt32) : UInt32 := rotr x 7 ^^^ rotr x 18 ^^^ (x >>> 3)

def smallSigma1 (x : UInt32) : UInt32 := rotr x 17 ^^^ rotr x 19 ^^^ (x >>> 10)

/-! ## Bytes of words -/

def beWord (b0 b1 b2 b3 : UInt8) : UInt32 :=
  (b0.toUInt32 <<< 24) ||| (b1.toUInt32 <<< 16) ||| (b2.toUInt32 <<< 8) ||| b3.toUInt32

/-- The i-th word of a block. -/
def wordOf (block : List UInt8) (i : Nat) : UInt32 :=
  beWord (block.getD (4 * i) 0) (block.getD (4 * i + 1) 0) (block.getD (4 * i + 2) 0)
    (block.getD (4 * i + 3) 0)

def beBytes (w : UInt32) : List UInt8 :=
  [(w >>> 24).toUInt8, (w >>> 16).toUInt8, (w >>> 8).toUInt8, w.toUInt8]

/-- A length in bits, as eight bytes. -/
def lengthBytes (bits : UInt64) : List UInt8 :=
  ([56, 48, 40, 32, 24, 16, 8, 0] : List UInt64).map fun shift => (bits >>> shift).toUInt8

/-! ## The schedule -/

/-- The next word, from the sixteen before it. -/
def nextWord (words : List UInt32) : UInt32 :=
  let t := words.length
  smallSigma1 (words.getD (t - 2) 0) + words.getD (t - 7) 0 +
    smallSigma0 (words.getD (t - 15) 0) + words.getD (t - 16) 0

/-- The words of a block and `n` more. -/
def schedule (block : List UInt8) : Nat → List UInt32
  | 0 => (List.range 16).map (wordOf block)
  | n + 1 => schedule block n ++ [nextWord (schedule block n)]

theorem length_schedule (block : List UInt8) (n : Nat) : (schedule block n).length = 16 + n := by
  induction n with
  | zero => simp [schedule]
  | succ n ih => rw [schedule, List.length_append, ih, List.length_singleton, Nat.add_assoc]

/-- Words are only added. -/
theorem getD_schedule (block : List UInt8) {m n t : Nat} (le : m ≤ n) (there : t < 16 + m) :
    (schedule block n).getD t 0 = (schedule block m).getD t 0 := by
  induction n, le using Nat.le_induction with
  | base => rfl
  | succ n le ih =>
      have inside : t < (schedule block n).length := by
        rw [length_schedule]
        omega
      rw [schedule, List.getD_append _ _ _ _ inside, ih]

theorem getD_schedule_zero (block : List UInt8) {n t : Nat} (early : t < 16) :
    (schedule block n).getD t 0 = wordOf block t := by
  rw [getD_schedule block (Nat.zero_le n) early, schedule]
  simp [early]

theorem getD_schedule_add (block : List UInt8) {n t : Nat} (late : t < n) :
    (schedule block n).getD (t + 16) 0 =
      smallSigma1 ((schedule block n).getD (t + 14) 0) + (schedule block n).getD (t + 9) 0 +
        smallSigma0 ((schedule block n).getD (t + 1) 0) + (schedule block n).getD t 0 := by
  have before (i : Nat) (small : i < 16) :=
    getD_schedule block (m := t) (n := n) (t := t + i) (Nat.le_of_lt late) (by omega)
  have here : (schedule block t).length ≤ t + 16 := by
    rw [length_schedule]
    omega
  have back (i : Nat) (small : i ≤ 16) : 16 + t - i = t + (16 - i) := by omega
  have whole : t + 16 - (16 + t) = 0 := by omega
  have first : (schedule block n).getD t 0 = (schedule block t).getD t 0 := before 0 (by decide)
  rw [getD_schedule block (m := t + 1) late (by omega), schedule,
    List.getD_append_right _ _ _ _ here, before 14 (by decide), before 9 (by decide),
    before 1 (by decide), first, nextWord, length_schedule, back 2 (by decide),
    back 7 (by decide), back 15 (by decide), back 16 (by decide), whole]
  rfl

/-! ## Rounds -/

/-- The working variables. -/
structure Work where
  a : UInt32
  b : UInt32
  c : UInt32
  d : UInt32
  e : UInt32
  f : UInt32
  g : UInt32
  h : UInt32

def round (s : Work) (k w : UInt32) : Work :=
  let t1 := s.h + bigSigma1 s.e + choose s.e s.f s.g + k + w
  let t2 := bigSigma0 s.a + majority s.a s.b s.c
  ⟨t1 + t2, s.a, s.b, s.c, s.d + t1, s.e, s.f, s.g⟩

/-- The rounds below `n`. -/
def rounds (words : List UInt32) (n : Nat) (s : Work) : Work :=
  (List.range n).foldl (fun s t => round s (constants.getD t 0) (words.getD t 0)) s

theorem rounds_add (words : List UInt32) (m n : Nat) (s : Work) :
    rounds words (m + n) s =
      (List.range n).foldl
        (fun s t => round s (constants.getD (t + m) 0) (words.getD (t + m) 0))
        (rounds words m s) := by
  rw [rounds, List.range_add, List.foldl_append, List.foldl_map, rounds]
  simp only [Nat.add_comm m]

abbrev Hash := Vector UInt32 8

def Hash.work (hash : Hash) : Work :=
  ⟨hash.get 0, hash.get 1, hash.get 2, hash.get 3, hash.get 4, hash.get 5, hash.get 6, hash.get 7⟩

def Hash.plus (hash : Hash) (s : Work) : Hash :=
  #v[hash.get 0 + s.a, hash.get 1 + s.b, hash.get 2 + s.c, hash.get 3 + s.d,
    hash.get 4 + s.e, hash.get 5 + s.f, hash.get 6 + s.g, hash.get 7 + s.h]

/-- The hash after one more block of 64 bytes. -/
def compress (hash : Hash) (block : List UInt8) : Hash :=
  hash.plus (rounds (schedule block 48) 64 hash.work)

/-! ## Messages -/

/-- From the square roots of the first eight primes. -/
def initial : Hash := Vector.ofFn fun i => fraction 2 (primes.getD i 0)

/-- A one bit, zeros up to the last eight bytes of a block, and the length. -/
def padding (length : Nat) : List UInt8 :=
  0x80 :: List.replicate ((119 - length % 64) % 64) 0 ++ lengthBytes (UInt64.ofNat (8 * length))

def sha256 (message : List UInt8) : List UInt8 :=
  (chain compress 64 initial (message ++ padding message.length)).1.toList.flatMap beBytes

/-- The digest of the three letters `abc`. -/
example :
    sha256 [0x61, 0x62, 0x63] =
      [0xba, 0x78, 0x16, 0xbf, 0x8f, 0x01, 0xcf, 0xea, 0x41, 0x41, 0x40, 0xde, 0x5d, 0xae, 0x22,
       0x23, 0xb0, 0x03, 0x61, 0xa3, 0x96, 0x17, 0x7a, 0x9c, 0xb4, 0x10, 0xff, 0x61, 0xf2, 0x00,
       0x15, 0xad] := by
  decide +kernel

end SidepoolFormal.Library.Sha256
