import SidepoolFormal.Library.Tape
import Mathlib.Data.UInt

/-!
# Serialization traits

`Trait<T>::serialize` for every type of the grammar, one routine for both
directions as in the source.  An archive is the tape of its bytes: what a
reading archive has not consumed yet, what a writing archive has built so far.
-/

namespace SidepoolFormal.SerDe

open Library

/-- What a standard container of the platform can hold at most. -/
structure Platform where
  maxSize : Nat
  maxSize_lt : maxSize < 2 ^ 64

/-- `Eof` is the archive's; `std::length_error` is thrown by `resize`. -/
inductive Exn where
  | eof
  | lengthError
  deriving DecidableEq, Repr

abbrev Archive := Tape UInt8

/-- `ReadingArchive::ser_byte` and `WritingArchive::ser_byte`. -/
def serByte : Routine Exn UInt8 UInt8 := Tape.token .eof

abbrev Trait (α : Type) := Routine Exn UInt8 α

/-! ## Scalars -/

def serializeBool : Trait Bool := fun a b => do
  let byt : UInt8 := if b then 1 else 0
  let (a, byt) ← serByte a byt
  .ok (a, byt != 0)

/-- A `char` is its byte, signed or not. -/
def serializeChar : Trait UInt8 := fun a c => do
  let (a, b) ← serByte a c
  .ok (a, b)

def serializeU8 : Trait UInt8 := fun a b => serByte a b

def serializeI8 : Trait Int8 := fun a ib => do
  let (a, ub) ← serByte a ib.toUInt8
  .ok (a, ub.toInt8)

def serializeU16 : Trait UInt16 := fun a w => do
  let b0 := ((w >>> 8) &&& 0xFF).toUInt8
  let b1 := ((w >>> 0) &&& 0xFF).toUInt8
  let (a, b0) ← serializeU8 a b0
  let (a, b1) ← serializeU8 a b1
  .ok (a, b0.toUInt16 <<< 8 ||| b1.toUInt16 <<< 0)

def serializeI16 : Trait Int16 := fun a iw => do
  let (a, uw) ← serializeU16 a iw.toUInt16
  .ok (a, uw.toInt16)

def serializeU32 : Trait UInt32 := fun a w => do
  let b0 := ((w >>> 16) &&& 0xFFFF).toUInt16
  let b1 := ((w >>> 0) &&& 0xFFFF).toUInt16
  let (a, b0) ← serializeU16 a b0
  let (a, b1) ← serializeU16 a b1
  .ok (a, b0.toUInt32 <<< 16 ||| b1.toUInt32 <<< 0)

def serializeI32 : Trait Int32 := fun a iw => do
  let (a, uw) ← serializeU32 a iw.toUInt32
  .ok (a, uw.toInt32)

def serializeU64 : Trait UInt64 := fun a w => do
  let b0 := ((w >>> 32) &&& 0xFFFFFFFF).toUInt32
  let b1 := ((w >>> 0) &&& 0xFFFFFFFF).toUInt32
  let (a, b0) ← serializeU32 a b0
  let (a, b1) ← serializeU32 a b1
  .ok (a, b0.toUInt64 <<< 32 ||| b1.toUInt64 <<< 0)

def serializeI64 : Trait Int64 := fun a iw => do
  let (a, uw) ← serializeU64 a iw.toUInt64
  .ok (a, uw.toInt64)

/-! ## Containers -/

/-- A `std::vector` or `std::string`: its size is one the platform allows. -/
abbrev Vec (P : Platform) (α : Type) := { l : List α // l.length ≤ P.maxSize }

section

variable {P : Platform} {α : Type}

def Vec.empty : Vec P α := ⟨[], Nat.zero_le _⟩

/-- Keep the common front, fill up with value-initialized elements. -/
def Vec.resize (fresh : α) (v : Vec P α) (n : Nat) : Except Exn (Vec P α) :=
  if h : n ≤ P.maxSize then
    .ok ⟨v.1.take n ++ List.replicate (n - v.1.length) fresh, by simp; omega⟩
  else .error .lengthError

/-- `for (auto& i : v) Trait<T>::serialize(a, i)`. -/
def Vec.forEach (trait : Trait α) (a : Archive) (v : Vec P α) : Except Exn (Archive × Vec P α) :=
  match h : trait.each a v.1 with
  | .error e => .error e
  | .ok (a, l) => .ok (a, ⟨l, by rw [Routine.each_length h]; exact v.2⟩)

/-- `Trait<std::string>` and `Trait<std::vector<T>>`. -/
def serializeVec (fresh : α) (trait : Trait α) : Trait (Vec P α) := fun a v => do
  let len := UInt64.ofNat v.1.length
  let (a, len) ← serializeU64 a len
  let v ← if len.toNat ≠ v.1.length then v.resize fresh len.toNat else .ok v
  v.forEach trait a

/-- `Trait<std::unique_ptr<T>>`. -/
def serializePtr (fresh : α) (trait : Trait α) : Trait (Option α) := fun a p => do
  let exist := p.isSome
  let (a, exist) ← serializeBool a exist
  if exist then do
    let (a, x) ← trait a (p.getD fresh)
    .ok (a, some x)
  else .ok (a, none)

end

/-! ## The grammar of types -/

/-- The source has no instance for `std::vector<bool>`, whose elements cannot
be bound to references; the grammar does not single it out. -/
inductive Ty where
  | bool | char
  | u8 | u16 | u32 | u64
  | i8 | i16 | i32 | i64
  | string
  | vector (t : Ty)
  | uniquePtr (t : Ty)
  deriving DecidableEq, Repr

/-- The values of a type, a pointer being what it owns. -/
def Value (P : Platform) : Ty → Type
  | .bool => Bool
  | .char => UInt8
  | .u8 => UInt8
  | .u16 => UInt16
  | .u32 => UInt32
  | .u64 => UInt64
  | .i8 => Int8
  | .i16 => Int16
  | .i32 => Int32
  | .i64 => Int64
  | .string => Vec P UInt8
  | .vector t => Vec P (Value P t)
  | .uniquePtr t => Option (Value P t)

/-- The value-initialized object, `T()`. -/
def fresh (P : Platform) : (t : Ty) → Value P t
  | .bool => false
  | .char => (0 : UInt8)
  | .u8 => (0 : UInt8)
  | .u16 => (0 : UInt16)
  | .u32 => (0 : UInt32)
  | .u64 => (0 : UInt64)
  | .i8 => (0 : Int8)
  | .i16 => (0 : Int16)
  | .i32 => (0 : Int32)
  | .i64 => (0 : Int64)
  | .string => (Vec.empty : Vec P UInt8)
  | .vector t => (Vec.empty : Vec P (Value P t))
  | .uniquePtr t => (none : Option (Value P t))

def serialize (P : Platform) : (t : Ty) → Trait (Value P t)
  | .bool => serializeBool
  | .char => serializeChar
  | .u8 => serializeU8
  | .u16 => serializeU16
  | .u32 => serializeU32
  | .u64 => serializeU64
  | .i8 => serializeI8
  | .i16 => serializeI16
  | .i32 => serializeI32
  | .i64 => serializeI64
  | .string => serializeVec (0 : UInt8) serializeChar
  | .vector t => serializeVec (fresh P t) (serialize P t)
  | .uniquePtr t => serializePtr (fresh P t) (serialize P t)

end SidepoolFormal.SerDe
