import Mathlib.Algebra.Ring.Nat
import Mathlib.Data.List.Basic

/-!
# The ChaCha20 keystream

The stream cipher as its specification has it: the quarter round on four
words, the block function on a state of sixteen words, and the keystream as
the concatenation of the blocks for consecutive counters.
-/

namespace SidepoolFormal.Library.ChaCha

abbrev State := Vector UInt32 16

/-- The words of a state are numbered from `0` to `15`. -/
instance sixteen : NeZero 16 := ⟨Nat.succ_ne_zero 15⟩

/-! ## Words of a state -/

def State.get (s : State) (i : Fin 16) : UInt32 := s[i]

def State.put (s : State) (i : Fin 16) (w : UInt32) : State := s.set i w

theorem State.ext {s t : State} (same : ∀ i, s.get i = t.get i) : s = t :=
  Vector.ext fun i bound => same ⟨i, bound⟩

theorem State.get_put (s : State) (i j : Fin 16) (w : UInt32) :
    (s.put i w).get j = if i = j then w else s.get j := by
  simp only [State.get, State.put, Fin.getElem_fin, Vector.getElem_set, Fin.ext_iff]

theorem State.get_put_self (s : State) (i : Fin 16) (w : UInt32) : (s.put i w).get i = w := by
  rw [State.get_put, if_pos rfl]

theorem State.get_put_ne (s : State) {i j : Fin 16} (distinct : i ≠ j) (w : UInt32) :
    (s.put i w).get j = s.get j := by
  rw [State.get_put, if_neg distinct]

theorem State.put_put (s : State) (i : Fin 16) (v w : UInt32) :
    (s.put i v).put i w = s.put i w := by
  apply State.ext
  intro j
  simp only [State.get_put]
  split <;> rfl

/-! ## The block function -/

def rotl (x b : UInt32) : UInt32 := (x <<< b) ||| (x >>> (32 - b))

/-- The quarter round on four words. -/
def quarter (a b c d : UInt32) : UInt32 × UInt32 × UInt32 × UInt32 :=
  let a := a + b
  let d := rotl (d ^^^ a) 16
  let c := c + d
  let b := rotl (b ^^^ c) 12
  let a := a + b
  let d := rotl (d ^^^ a) 8
  let c := c + d
  let b := rotl (b ^^^ c) 7
  (a, b, c, d)

/-- The quarter round on four words of a state. -/
def quarterRound (s : State) (x y z w : Fin 16) : State :=
  let (a, b, c, d) := quarter (s.get x) (s.get y) (s.get z) (s.get w)
  (((s.put x a).put y b).put z c).put w d

/-- A column round and a diagonal round. -/
def innerBlock (s : State) : State :=
  let s := quarterRound s 0 4 8 12
  let s := quarterRound s 1 5 9 13
  let s := quarterRound s 2 6 10 14
  let s := quarterRound s 3 7 11 15
  let s := quarterRound s 0 5 10 15
  let s := quarterRound s 1 6 11 12
  let s := quarterRound s 2 7 8 13
  quarterRound s 3 4 9 14

def rounds : Nat → State → State
  | 0, s => s
  | n + 1, s => rounds n (innerBlock s)

def leWord (b0 b1 b2 b3 : UInt8) : UInt32 :=
  b0.toUInt32 ||| (b1.toUInt32 <<< 8) ||| (b2.toUInt32 <<< 16) ||| (b3.toUInt32 <<< 24)

def leBytes (w : UInt32) : List UInt8 :=
  [w.toUInt8, (w >>> 8).toUInt8, (w >>> 16).toUInt8, (w >>> 24).toUInt8]

/-- The word that starts at byte `at` of a key or a nonce. -/
def wordAt {n : Nat} (bytes : Vector UInt8 n) (i : Nat) (h : i + 3 < n) : UInt32 :=
  leWord bytes[i] bytes[i + 1] bytes[i + 2] bytes[i + 3]

def initial (key : Vector UInt8 32) (counter : UInt32) (nonce : Vector UInt8 12) : State :=
  #v[0x61707865, 0x3320646e, 0x79622d32, 0x6b206574,
    wordAt key 0 (by decide), wordAt key 4 (by decide),
    wordAt key 8 (by decide), wordAt key 12 (by decide),
    wordAt key 16 (by decide), wordAt key 20 (by decide),
    wordAt key 24 (by decide), wordAt key 28 (by decide),
    counter,
    wordAt nonce 0 (by decide), wordAt nonce 4 (by decide), wordAt nonce 8 (by decide)]

def serialize (s : State) : List UInt8 := s.toList.flatMap leBytes

/-- The state after twenty rounds, added to the one before them. -/
def mix (s : State) : State := Vector.zipWith (· + ·) (rounds 10 s) s

def block (key : Vector UInt8 32) (counter : UInt32) (nonce : Vector UInt8 12) : List UInt8 :=
  serialize (mix (initial key counter nonce))

/-- The first `n` bytes of the blocks for the counters from `0` on. -/
def keystream (key : Vector UInt8 32) (nonce : Vector UInt8 12) (n : Nat) : List UInt8 :=
  ((List.range ((n + 63) / 64)).flatMap fun i => block key (UInt32.ofNat i) nonce).take n

theorem length_flatMap_leBytes (l : List UInt32) : (l.flatMap leBytes).length = 4 * l.length := by
  induction l with
  | nil => rfl
  | cons w rest ih =>
      rw [List.flatMap_cons, List.length_append, ih, List.length_cons]
      simp only [leBytes, List.length_cons, List.length_nil]
      omega

theorem length_serialize (s : State) : (serialize s).length = 64 := by
  rw [serialize, length_flatMap_leBytes, Vector.length_toList]

/-- The test vector of the specification's block function. -/
example :
    block (Vector.ofFn fun i => UInt8.ofNat i.val) 1
        #v[0, 0, 0, 0x09, 0, 0, 0, 0x4a, 0, 0, 0, 0] =
      [0x10, 0xf1, 0xe7, 0xe4, 0xd1, 0x3b, 0x59, 0x15, 0x50, 0x0f, 0xdd, 0x1f, 0xa3, 0x20,
       0x71, 0xc4, 0xc7, 0xd1, 0xf4, 0xc7, 0x33, 0xc0, 0x68, 0x03, 0x04, 0x22, 0xaa, 0x9a,
       0xc3, 0xd4, 0x6c, 0x4e, 0xd2, 0x82, 0x64, 0x46, 0x07, 0x9f, 0xaa, 0x09, 0x14, 0xc2,
       0xd7, 0x05, 0xd9, 0x8b, 0x02, 0xa2, 0xb5, 0x12, 0x9c, 0xd1, 0xde, 0x16, 0x4e, 0xb9,
       0xcb, 0xd0, 0x83, 0xe8, 0xa2, 0x50, 0x3c, 0x4e] := by
  decide +kernel

end SidepoolFormal.Library.ChaCha
