import SidepoolFormal.Base64x.Code
import Mathlib.Computability.StateTransition

/-!
# `String`

The hex reader and writer, and the two loops that format into a buffer.  A
stream is what has been put into it.  What `vsnprintf` and `std::strftime` do to
a buffer is a parameter, together with the number that they return.
-/

namespace SidepoolFormal.String

open Base64x (ch)

/-! ## Hex -/

inductive HexParsingError where
  | hexParsingError
  deriving DecidableEq, Repr

def hexdigit (c : UInt8) : Except HexParsingError UInt8 :=
  if (ch 'a' ≤ c ∧ c ≤ ch 'f') ∨ (ch 'A' ≤ c ∧ c ≤ ch 'F') then .ok ((c &&& 0xF) + 9)
  else if ch '0' ≤ c ∧ c ≤ ch '9' then .ok (c &&& 0xF)
  else .error .hexParsingError

/-- The loop of `parsehex`, with `rv` read so far. -/
def parsehexFrom (rv : List UInt8) : List UInt8 → Except HexParsingError (List UInt8)
  | [] => .ok rv
  | [_] => .error .hexParsingError
  | p :: p2 :: rest => do
      let hi ← hexdigit p
      let lo ← hexdigit p2
      parsehexFrom (rv ++ [hi <<< 4 ||| lo]) rest

def parsehex (s : List UInt8) : Except HexParsingError (List UInt8) := parsehexFrom [] s

def printnybble (os : List UInt8) (n : UInt8) : List UInt8 :=
  if n < 0xA then os ++ [n + ch '0'] else os ++ [n - 0xA + ch 'A']

def printbyte (os : List UInt8) (b : UInt8) : List UInt8 :=
  let os := printnybble os ((b >>> 4) &&& 0xF)
  printnybble os ((b >>> 0) &&& 0xF)

def printhex (os : List UInt8) : List UInt8 → List UInt8
  | [] => os
  | b :: rest => printhex (printbyte os b) rest

/-! ## Formatting -/

/-- What a C function that writes into a buffer leaves in it, and returns. -/
abbrev Format := List UInt8 → List UInt8 × Nat

/-- `std::make_unique<char[]>(size)`. -/
def makeBuffer (size : Nat) : List UInt8 := List.replicate size 0

/-- `std::string(buf)`; nothing where there is no NUL in the buffer, and the
constructor reads on behind it. -/
def ofBuffer (buf : List UInt8) : Option (List UInt8) :=
  if 0 ∈ buf then some (buf.takeWhile (· ≠ 0)) else none

/-- The locals of `vfmt` and of `strftime`.  `written` is the length of a text, so
that `written + 1` is never too large for its type. -/
structure Formatting where
  written : Nat
  size : Nat
  buf : List UInt8
  deriving DecidableEq, Repr

namespace Formatting

def init : Formatting := ⟨0, 64, []⟩

/-- Once through the body of the loop. -/
def body (format : Format) (l : Formatting) : Formatting :=
  let size := if l.size ≤ l.written then l.written + 1 else l.size
  let (buf, written) := format (makeBuffer size)
  ⟨written, size, buf⟩

/-- `while (size <= written)`. -/
def step (format : Format) (l : Formatting) : Option Formatting :=
  if l.size ≤ l.written then some (l.body format) else none

/-- The loop, from its beginning: it ends with some locals, or never. -/
def loop (format : Format) : Part Formatting :=
  StateTransition.eval (step format) (init.body format)

end Formatting

/-- `vfmt`, given what `vsnprintf` does with the template and the arguments. -/
def vfmt (vsnprintf : Format) : Part (Option (List UInt8)) :=
  (Formatting.loop vsnprintf).map fun l => ofBuffer l.buf

/-- `strftime`, given what `std::strftime` does with the template and the time. -/
def strftime (stdStrftime : Format) : Part (Option (List UInt8)) :=
  (Formatting.loop stdStrftime).map fun l => ofBuffer l.buf

end SidepoolFormal.String
