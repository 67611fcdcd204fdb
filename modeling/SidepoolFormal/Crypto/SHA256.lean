import SidepoolFormal.Library.Cells
import SidepoolFormal.Library.Run
import SidepoolFormal.String.Code
import Mathlib.Logic.Function.Basic

/-!
# `SHA256`

The adapted hash function and the class around it.  The arrays of the source
are read and written at an index, and its loops are folds over their indices;
scratch memory is handed through, with whatever stands in it.
-/

namespace SidepoolFormal.Crypto.SHA256

open Library

/-! ## Adaptors -/

def store32BE (src : UInt32) : List UInt8 :=
  [(src >>> 24).toUInt8, (src >>> 16).toUInt8, (src >>> 8).toUInt8, (src >>> 0).toUInt8]

def load32BE (b0 b1 b2 b3 : UInt8) : UInt32 :=
  (b0.toUInt32 <<< 24) ||| (b1.toUInt32 <<< 16) ||| (b2.toUInt32 <<< 8) ||| (b3.toUInt32 <<< 0)

def rotr32 (x b : UInt32) : UInt32 := (x >>> b) ||| (x <<< (32 - b))

def store64BE (src : UInt64) : List UInt8 :=
  [(src >>> 56).toUInt8, (src >>> 48).toUInt8, (src >>> 40).toUInt8, (src >>> 32).toUInt8,
    (src >>> 24).toUInt8, (src >>> 16).toUInt8, (src >>> 8).toUInt8, (src >>> 0).toUInt8]

/-! ## The block function -/

abbrev Words8 := Vector UInt32 8

abbrev Words64 := Vector UInt32 64

/-- `be32enc_vect` for `len` bytes. -/
def be32encVect (src : Words8) (len : Nat) : List UInt8 :=
  (List.range (len / 4)).flatMap fun i => store32BE (Cells.read src i)

/-- `LOAD32_BE(src + offset)`. -/
def loadAt (src : List UInt8) (offset : Nat) : UInt32 :=
  load32BE (src.getD offset 0) (src.getD (offset + 1) 0) (src.getD (offset + 2) 0)
    (src.getD (offset + 3) 0)

def be32decVect (dst : Words64) (src : List UInt8) (len : Nat) : Words64 :=
  (List.range (len / 4)).foldl (fun dst i => Cells.write dst i (loadAt src (i * 4))) dst

def krnd : Words64 := #v[
  0x428a2f98, 0x71374491, 0xb5c0fbcf, 0xe9b5dba5, 0x3956c25b, 0x59f111f1,
  0x923f82a4, 0xab1c5ed5, 0xd807aa98, 0x12835b01, 0x243185be, 0x550c7dc3,
  0x72be5d74, 0x80deb1fe, 0x9bdc06a7, 0xc19bf174, 0xe49b69c1, 0xefbe4786,
  0x0fc19dc6, 0x240ca1cc, 0x2de92c6f, 0x4a7484aa, 0x5cb0a9dc, 0x76f988da,
  0x983e5152, 0xa831c66d, 0xb00327c8, 0xbf597fc7, 0xc6e00bf3, 0xd5a79147,
  0x06ca6351, 0x14292967, 0x27b70a85, 0x2e1b2138, 0x4d2c6dfc, 0x53380d13,
  0x650a7354, 0x766a0abb, 0x81c2c92e, 0x92722c85, 0xa2bfe8a1, 0xa81a664b,
  0xc24b8b70, 0xc76c51a3, 0xd192e819, 0xd6990624, 0xf40e3585, 0x106aa070,
  0x19a4c116, 0x1e376c08, 0x2748774c, 0x34b0bcb5, 0x391c0cb3, 0x4ed8aa4a,
  0x5b9cca4f, 0x682e6ff3, 0x748f82ee, 0x78a5636f, 0x84c87814, 0x8cc70208,
  0x90befffa, 0xa4506ceb, 0xbef9a3f7, 0xc67178f2]

def ch (x y z : UInt32) : UInt32 := (x &&& (y ^^^ z)) ^^^ z

def maj (x y z : UInt32) : UInt32 := (x &&& (y ||| z)) ||| (y &&& z)

/-- `S0`. -/
def bigS0 (x : UInt32) : UInt32 := rotr32 x 2 ^^^ rotr32 x 13 ^^^ rotr32 x 22

/-- `S1`. -/
def bigS1 (x : UInt32) : UInt32 := rotr32 x 6 ^^^ rotr32 x 11 ^^^ rotr32 x 25

/-- `s0`. -/
def smallS0 (x : UInt32) : UInt32 := rotr32 x 7 ^^^ rotr32 x 18 ^^^ (x >>> 3)

/-- `s1`. -/
def smallS1 (x : UInt32) : UInt32 := rotr32 x 17 ^^^ rotr32 x 19 ^^^ (x >>> 10)

/-- The macro `RND` on the elements of `S` with the given indices. -/
def rnd (S : Words8) (a b c d e f g h : Nat) (k : UInt32) : Words8 :=
  let S := Cells.write S h (Cells.read S h +
    (bigS1 (Cells.read S e) + ch (Cells.read S e) (Cells.read S f) (Cells.read S g) + k))
  let S := Cells.write S d (Cells.read S d + Cells.read S h)
  Cells.write S h (Cells.read S h +
    (bigS0 (Cells.read S a) + maj (Cells.read S a) (Cells.read S b) (Cells.read S c)))

/-- `RNDr(S, W, i, ii)`. -/
def rndr (W : Words64) (ii : Nat) (S : Words8) (i : Nat) : Words8 :=
  rnd S ((64 - i) % 8) ((65 - i) % 8) ((66 - i) % 8) ((67 - i) % 8) ((68 - i) % 8) ((69 - i) % 8)
    ((70 - i) % 8) ((71 - i) % 8) (Cells.read W (i + ii) + Cells.read krnd (i + ii))

/-- `MSCH(W, ii, i)`. -/
def msch (i : Nat) (W : Words64) (ii : Nat) : Words64 :=
  Cells.write W (i + ii + 16) (smallS1 (Cells.read W (i + ii + 14)) + Cells.read W (i + ii + 9) +
    smallS0 (Cells.read W (i + ii + 1)) + Cells.read W (i + ii))

/-- `tmp32`, from where `W` starts and from where `S` starts. -/
structure Tmp32 where
  W : Words64
  S : Words8

/-- One pass of `for (i = 0; i < 64; i += 16)`; the last one ends with `break`. -/
def sixteen (tmp : Tmp32) (i : Nat) : Tmp32 :=
  let S := (List.range 16).foldl (rndr tmp.W i) tmp.S
  if i = 48 then ⟨tmp.W, S⟩ else ⟨(List.range 16).foldl (msch i) tmp.W, S⟩

def transform (state : Words8) (block : List UInt8) (tmp : Tmp32) : Words8 × Tmp32 :=
  let tmp : Tmp32 := ⟨be32decVect tmp.W block 64, state⟩
  let tmp := [0, 16, 32, 48].foldl sixteen tmp
  let state := (List.range 8).foldl
    (fun state i => Cells.write state i (Cells.read state i + Cells.read tmp.S i)) state
  (state, tmp)

/-! ## `crypto_hash_sha256` -/

structure State where
  state : Words8
  count : UInt64
  buf : Vector UInt8 64

/-- `PAD`. -/
def pad : List UInt8 := 0x80 :: List.replicate 63 0

/-- `r`, the bytes in the buffer. -/
def State.buffered (st : State) : Nat := ((st.count >>> 3) &&& 0x3f).toNat

/-- `SHA256_Pad`. -/
def sha256Pad (st : State) (tmp : Tmp32) : State × Tmp32 :=
  let r := st.buffered
  let (st, tmp) :=
    if r < 56 then
      ({ st with buf := Cells.copyIn st.buf r (pad.take (56 - r)) }, tmp)
    else
      let buf := Cells.copyIn st.buf r (pad.take (64 - r))
      let (state, tmp) := transform st.state buf.toList tmp
      (⟨state, st.count, Cells.copyIn buf 0 (List.replicate 56 0)⟩, tmp)
  let buf := Cells.copyIn st.buf 56 (store64BE st.count)
  let (state, tmp) := transform st.state buf.toList tmp
  (⟨state, st.count, buf⟩, tmp)

/-- `crypto_hash_sha256_init`; the buffer keeps what stands in it. -/
def init (buf : Vector UInt8 64) : State where
  state := #v[0x6a09e667, 0xbb67ae85, 0x3c6ef372, 0xa54ff53a,
    0x510e527f, 0x9b05688c, 0x1f83d9ab, 0x5be0cd19]
  count := 0
  buf := buf

/-- `while (inlen >= 64)`: the state after it, and what is left of the input. -/
def whileBlocks (state : Words8) (tmp : Tmp32) (input : List UInt8) : Words8 × List UInt8 :=
  if 64 ≤ input.length then
    let (state, tmp) := transform state (input.take 64) tmp
    whileBlocks state tmp (input.drop 64)
  else
    (state, input)
termination_by input.length
decreasing_by rw [List.length_drop]; omega

/-- `crypto_hash_sha256_update`. -/
def update (st : State) (input : List UInt8) (tmp : Tmp32) : State :=
  let inlen := input.length
  if inlen = 0 then st else
  let r := st.buffered
  let count := st.count + (UInt64.ofNat inlen <<< 3)
  if inlen < 64 - r then
    ⟨st.state, count, Cells.copyIn st.buf r input⟩
  else
    let buf := Cells.copyIn st.buf r (input.take (64 - r))
    let (state, tmp) := transform st.state buf.toList tmp
    let (state, input) := whileBlocks state tmp (input.drop (64 - r))
    ⟨state, count, Cells.copyIn buf 0 input⟩

/-- `crypto_hash_sha256_final`: what is written to `out`; the state is zeroed. -/
def final (st : State) (tmp : Tmp32) : List UInt8 × State :=
  let (st, _) := sha256Pad st tmp
  (be32encVect st.state 32, ⟨Vector.replicate 8 0, 0, Vector.replicate 64 0⟩)

/-! ## `SHA256` -/

/-- An object of the class, by what `pimpl` points to. -/
abbrev Object := Option State

abbrev Store := Nat → Object

/-- The n-th object is constructed over a buffer, copied or moved from another
one, fed, finalized or destroyed; `tmp32` is what stands on the stack. -/
inductive Op where
  | construct (x : Nat) (buf : Vector UInt8 64)
  | copy (x o : Nat)
  | move (x o : Nat)
  | feed (x : Nat) (dat : List UInt8) (tmp32 : Tmp32)
  | finalize (x : Nat) (tmp32 : Tmp32)
  | destroy (x : Nat)

/-- The store after an operation and the hash that it returned, unless an
assertion fails or a null pointer is followed. -/
def exec (s : Store) : Op → Option (Store × Option (List UInt8))
  | .construct x buf => some (Function.update s x (some (init buf)), none)
  | .copy x o => (s o).map fun st => (Function.update s x (some st), none)
  | .move x o => some (Function.update (Function.update s o none) x (s o), none)
  | .feed x dat tmp32 =>
      (s x).map fun st => (Function.update s x (some (update st dat tmp32)), none)
  | .finalize x tmp32 =>
      (s x).map fun st => (Function.update s x none, some (final st tmp32).1)
  | .destroy x => some (Function.update s x none, none)

/-- The hashes returned by a sequence of operations. -/
def run (s : Store) : List Op → Option (List (List UInt8))
  | [] => some []
  | op :: ops => (exec s op).bind fun after => (run after.1 ops).map (after.2.toList ++ ·)

end SidepoolFormal.Crypto.SHA256
