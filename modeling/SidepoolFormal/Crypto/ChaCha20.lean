import SidepoolFormal.Library.ChaCha

/-!
# `chacha20_ietf`

The adapted stream function and the wrapper around it.  A byte pointer is one
of the wrapper's two arguments; the memory gives what stands at and behind
each of them, and every load records the address it looked at.
-/

namespace SidepoolFormal.Crypto

open Library

/-- What the wrapper's pointer arguments point to. -/
inductive Argument where
  | key
  | nonce
  deriving DecidableEq, Repr

abbrev Memory := Argument → Nat → UInt8

abbrev Address := Argument × Nat

/-- A computation that loads bytes. -/
abbrev Load := StateM (List Address)

abbrev Words := ChaCha.State

variable (mem : Memory)

def byte (src : Argument) (offset : Nat) : Load UInt8 := do
  modify (· ++ [(src, offset)])
  return mem src offset

def load32LE (b0 b1 b2 b3 : UInt8) : UInt32 :=
  (b0.toUInt32 <<< 0) ||| (b1.toUInt32 <<< 8) ||| (b2.toUInt32 <<< 16) ||| (b3.toUInt32 <<< 24)

/-- `LOAD32_LE(src + offset)`. -/
def loadAt (src : Argument) (offset : Nat) : Load UInt32 := do
  let b0 ← byte mem src offset
  let b1 ← byte mem src (offset + 1)
  let b2 ← byte mem src (offset + 2)
  let b3 ← byte mem src (offset + 3)
  return load32LE b0 b1 b2 b3

/-- The bytes that `STORE32_LE` stores. -/
def store32LE (src : UInt32) : List UInt8 :=
  [(src >>> 0).toUInt8, (src >>> 8).toUInt8, (src >>> 16).toUInt8, (src >>> 24).toUInt8]

def rotl32 (x b : UInt32) : UInt32 := (x <<< b) ||| (x >>> (32 - b))

/-- The macro `QUARTERROUND` on four of the locals `x0` … `x15`. -/
def quarterRound (x : Words) (a b c d : Fin 16) : Words :=
  let x := x.put a (x.get a + x.get b)
  let x := x.put d (rotl32 (x.get d ^^^ x.get a) 16)
  let x := x.put c (x.get c + x.get d)
  let x := x.put b (rotl32 (x.get b ^^^ x.get c) 12)
  let x := x.put a (x.get a + x.get b)
  let x := x.put d (rotl32 (x.get d ^^^ x.get a) 8)
  let x := x.put c (x.get c + x.get d)
  x.put b (rotl32 (x.get b ^^^ x.get c) 7)

/-- Keys 0 to 11 of the context; the other four are left as they are. -/
def chachaKeysetup (ctx : Words) (k : Argument) : Load Words := do
  let k0 ← loadAt mem k 0
  let k4 ← loadAt mem k 4
  let k8 ← loadAt mem k 8
  let k12 ← loadAt mem k 12
  let k16 ← loadAt mem k 16
  let k20 ← loadAt mem k 20
  let k24 ← loadAt mem k 24
  let k28 ← loadAt mem k 28
  return #v[0x61707865, 0x3320646e, 0x79622d32, 0x6b206574,
    k0, k4, k8, k12, k16, k20, k24, k28, ctx.get 12, ctx.get 13, ctx.get 14, ctx.get 15]

/-- `counter` is `none` for `NULL`. -/
def chachaIetfIvsetup (ctx : Words) (iv : Argument) (counter : Option Argument) : Load Words := do
  let c ← match counter with
    | none => pure 0
    | some counter => loadAt mem counter 0
  let iv0 ← loadAt mem iv 0
  let iv4 ← loadAt mem iv 4
  let iv8 ← loadAt mem iv 8
  return #v[ctx.get 0, ctx.get 1, ctx.get 2, ctx.get 3, ctx.get 4, ctx.get 5, ctx.get 6, ctx.get 7,
    ctx.get 8, ctx.get 9, ctx.get 10, ctx.get 11, c, iv0, iv4, iv8]

/-- One pass of `for (i = 20; i > 0; i -= 2)`. -/
def doubleRound (x : Words) : Words :=
  let x := quarterRound x 0 4 8 12
  let x := quarterRound x 1 5 9 13
  let x := quarterRound x 2 6 10 14
  let x := quarterRound x 3 7 11 15
  let x := quarterRound x 0 5 10 15
  let x := quarterRound x 1 6 11 12
  let x := quarterRound x 2 7 8 13
  quarterRound x 3 4 9 14

/-- The rounds from `i` down to `0`. -/
def doubleRounds : Nat → Words → Words
  | i + 2, x => doubleRounds i (doubleRound x)
  | _, x => x

/-- The message word at byte `offset` of a block. -/
def messageAt (m : List UInt8) (offset : Nat) : UInt32 :=
  load32LE (m.getD offset 0) (m.getD (offset + 1) 0) (m.getD (offset + 2) 0) (m.getD (offset + 3) 0)

/-- The 64 bytes stored for a block of 64 message bytes. -/
def encryptBlock (j : Words) (m : List UInt8) : List UInt8 :=
  let x := doubleRounds 20 j
  let x : Words := Vector.ofFn fun i => x.get i + j.get i
  let x : Words := Vector.ofFn fun i => x.get i ^^^ messageAt m (4 * i)
  x.toList.flatMap store32LE

/-- `j12 = PLUSONE(j12)`, with the carry into `j13`. -/
def advance (j : Words) : Words :=
  let j := j.put 12 (j.get 12 + 1)
  if j.get 12 = 0 then j.put 13 (j.get 13 + 1) else j

/-- The loop of `chacha20_encrypt_bytes` on the message bytes that are left:
a last block of less than 64 bytes is encrypted in `tmp`. -/
def encryptLoop (j : Words) (m : List UInt8) : List UInt8 :=
  if m.length < 64 then
    let tmp := m ++ List.replicate (64 - m.length) 0
    (encryptBlock j tmp).take m.length
  else if m.length ≤ 64 then
    encryptBlock j m
  else
    encryptBlock j (m.take 64) ++ encryptLoop (advance j) (m.drop 64)
termination_by m.length
decreasing_by simp; omega

def chacha20EncryptBytes (ctx : Words) (m : List UInt8) : List UInt8 :=
  if m.length = 0 then [] else encryptLoop ctx m

/-- What is written to `c[0]` … `c[clen - 1]`.  The context is not initialised
before it is set up, so what stands in it is arbitrary. -/
def streamIetfExtRef (ctx : Words) (clen : Nat) (n k : Argument) : Load (List UInt8) := do
  if clen = 0 then return []
  let ctx ← chachaKeysetup mem ctx k
  let ctx ← chachaIetfIvsetup mem ctx n none
  return chacha20EncryptBytes ctx (List.replicate clen 0)

/-- The wrapper, handing on its arguments in its own order. -/
def chacha20Ietf (ctx : Words) (outLen : Nat) : Load (List UInt8) :=
  streamIetfExtRef mem ctx outLen .key .nonce

end SidepoolFormal.Crypto
