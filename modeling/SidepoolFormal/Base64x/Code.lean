import Mathlib.Data.UInt

/-!
# The saver's variant of base64

The encoder and the decoder of `Base64x.cpp` as the two state machines the
source writes them as.  A C++ `char` is its byte.  The assertion in
`encode_b64` is the only way the encoder can stop, so an `Option` carries it;
the decoder throws `DecodeError`.
-/

namespace SidepoolFormal.Base64x

/-- The byte of an ASCII character literal. -/
def ch (c : Char) : UInt8 := c.toUInt8

/-- `none` is the failed assertion `b <= 63`. -/
def encodeB64 (b : UInt8) : Option UInt8 :=
  if b ≤ 63 then
    if b < 26 then some (ch 'A' + b)
    else if b < 52 then some (ch 'a' + (b - 26))
    else if b < 61 then some (ch '0' + (b - 52))
    else if b = 62 then some (ch '+')
    else some (ch '%')
  else none

inductive DecodeError where
  | decodeError
  deriving DecidableEq, Repr

def decodeB64 (c : UInt8) : Except DecodeError UInt8 :=
  if ch 'A' ≤ c ∧ c ≤ ch 'Z' then .ok (c - ch 'A')
  else if ch 'a' ≤ c ∧ c ≤ ch 'z' then .ok (c - ch 'a' + 26)
  else if ch '0' ≤ c ∧ c ≤ ch '9' then .ok (c - ch '0' + 52)
  else if c = ch '+' then .ok 62
  else if c = ch '%' then .ok 63
  else .error .decodeError

/-! ## Encoder -/

structure Encoder where
  step : Nat
  bits : UInt8
  os : List UInt8
  deriving DecidableEq, Repr

namespace Encoder

def init : Encoder := ⟨0, 0, []⟩

/-- The parameter is 64 bits wide in the source; what reaches `encode_b64`
and `bits` is truncated back to eight. -/
def feed (e : Encoder) (b : UInt64) : Option Encoder :=
  if e.step = 0 then do
    let cur ← encodeB64 (b >>> 2).toUInt8
    some ⟨(e.step + 1) % 3, (b &&& 0x3).toUInt8, e.os ++ [cur]⟩
  else if e.step = 1 then do
    let cur ← encodeB64 ((e.bits.toUInt64 <<< 4) ||| (b >>> 4)).toUInt8
    some ⟨(e.step + 1) % 3, (b &&& 0xF).toUInt8, e.os ++ [cur]⟩
  else do
    let cur ← encodeB64 ((e.bits.toUInt64 <<< 2) ||| (b >>> 6)).toUInt8
    let last ← encodeB64 (b &&& 0x3F).toUInt8
    some ⟨(e.step + 1) % 3, 0, e.os ++ [cur, last]⟩

def finish (e : Encoder) : Option (List UInt8) :=
  if e.step = 1 then do
    let cur ← encodeB64 (e.bits <<< 4)
    some (e.os ++ [cur] ++ [ch '=', ch '='])
  else if e.step = 2 then do
    let cur ← encodeB64 (e.bits <<< 2)
    some (e.os ++ [cur] ++ [ch '='])
  else some e.os

end Encoder

def encode (v : List UInt8) : Option (List UInt8) := do
  let enc ← v.foldlM (fun e b => e.feed b.toUInt64) Encoder.init
  enc.finish

/-! ## Decoder -/

structure Decoder where
  ov : List UInt8
  step : Int
  bits : UInt8
  deriving DecidableEq, Repr

namespace Decoder

def init : Decoder := ⟨[], 0, 0⟩

def feed (d : Decoder) (c : UInt8) : Except DecodeError Decoder :=
  if d.step < 0 then
    if c ≠ ch '=' then .error .decodeError else .ok d
  else if d.step = 0 then do
    let cur ← decodeB64 c
    .ok ⟨d.ov, (d.step + 1) % 4, cur⟩
  else if d.step = 1 then do
    let cur ← decodeB64 c
    .ok ⟨d.ov ++ [d.bits <<< 2 ||| cur >>> 4], (d.step + 1) % 4, cur &&& 0xF⟩
  else if d.step = 2 then
    if c = ch '=' then .ok { d with step := -1 }
    else do
      let cur ← decodeB64 c
      .ok ⟨d.ov ++ [d.bits <<< 4 ||| cur >>> 2], (d.step + 1) % 4, cur &&& 0x3⟩
  else
    if c = ch '=' then .ok { d with step := -1 }
    else do
      let cur ← decodeB64 c
      .ok ⟨d.ov ++ [d.bits <<< 6 ||| cur], (d.step + 1) % 4, 0⟩

def finish (d : Decoder) : Except DecodeError (List UInt8) :=
  if d.step ≠ 0 ∧ d.step ≥ 0 then .error .decodeError else .ok d.ov

end Decoder

def decode (s : List UInt8) : Except DecodeError (List UInt8) := do
  let dec ← s.foldlM Decoder.feed Decoder.init
  dec.finish

end SidepoolFormal.Base64x
