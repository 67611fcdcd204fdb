import SidepoolFormal.M.Program
import SidepoolFormal.M.ScalarValid
import SidepoolFormal.String.Hex
import Mathlib.Data.ZMod.Basic

/-!
# The arithmetic of scalars and points

What the two classes are for: numbers modulo the order of a group and finite
points of the group, kept under names, read from bytes and written as bytes.
What does not stand for a number or for a finite point is refused, and then
nothing is changed.
-/

namespace SidepoolFormal.M

namespace Arithmetic

/-- How the finite points of a group are written, and where it starts from. -/
structure Format (E : Type) where
  generator : E
  decode : Vec33 → Option E
  encode : E → Vec33

/-! ## Named values -/

/-- There is nothing under a name that was never used, or was moved from. -/
abbrev Values (α : Type) := Nat → Option α

section

variable {α ε : Type}

def Values.put (s : Values α) (x : Nat) : Except ε (Option α) → Except ε Unit × Values α
  | .ok value => (.ok (), Function.update s x value)
  | .error e => (.error e, s)

def Values.move (s : Values α) (x y : Nat) : Values α :=
  Function.update (Function.update s y none) x (s y)

def live (moved : ε) : Option α → Except ε α
  | none => .error moved
  | some value => .ok value

def unary (moved : ε) (f : α → Except ε α) (a : Option α) : Except ε (Option α) := do
  let value ← live moved a
  (f value).map some

def binary {β : Type} (moved : ε) (f : α → β → Except ε α) (a : Option α) (b : Option β) :
    Except ε (Option α) := do
  let left ← live moved a
  let right ← live moved b
  (f left right).map some

end

/-! ## Numbers -/

section

variable (n : Nat)

/-- The number that 32 bytes stand for. -/
def number (v : Vec32) : Except Exn (ZMod n) :=
  if v.value < n then .ok v.value else .error .invalidScalar

variable {n}

def bytesOf (k : ZMod n) : Vec32 := Vec32.ofValue k.val

def onNumbers (s : Values (ZMod n)) : M.Op → Except Exn Unit × Values (ZMod n)
  | .construct x => s.put x (.ok (some 0))
  | .constructVec32 x v => s.put x ((number n v).map some)
  | .copy x y => s.put x (.ok (s y))
  | .move x y => (.ok (), s.move x y)
  | .destroy x => s.put x (.ok none)
  | .assign x y => s.put x (.ok (s y))
  | .moveAssign x y => (.ok (), s.move x y)
  | .setFromVec32 x v => s.put x (unary .assertion (fun _ => number n v) (s x))
  | .deserialize x bytes =>
      s.put x (match available bytes with
        | none => .error .eof
        | some v => unary .assertion (fun _ => number n v) (s x))
  | .addAssign x y => s.put x (binary .assertion (fun a b => .ok (a + b)) (s x) (s y))
  | .subAssign x y => s.put x (binary .assertion (fun a b => .ok (a - b)) (s x) (s y))
  | .mulAssign x y => s.put x (binary .assertion (fun a b => .ok (a * b)) (s x) (s y))
  | .negate x => s.put x (unary .assertion (fun a => .ok (-a)) (s x))
  | .plus z x y => s.put z (binary .assertion (fun a b => .ok (a + b)) (s x) (s y))
  | .neg z x => s.put z (unary .assertion (fun a => .ok (-a)) (s x))
  | .minus z x y => s.put z (binary .assertion (fun a b => .ok (a - b)) (s x) (s y))
  | .times z x y => s.put z (binary .assertion (fun a b => .ok (a * b)) (s x) (s y))

end

/-! ## Points -/

/-- The 33 bytes at the front of an archive, if there are so many. -/
def availablePt (bytes : List UInt8) : Option Vec33 :=
  if h : 33 ≤ bytes.length then some ⟨bytes.take 33, by simp; omega⟩ else none

section

variable {n : Nat} {E : Type} [AddCommGroup E] [DecidableEq E] (format : Format E)

/-- The point that 33 bytes stand for. -/
def position (v : Vec33) : Except Point.Exn E :=
  match format.decode v with
  | none => .error .invalidPoint
  | some p => .ok p

/-- The point that hex digits stand for. -/
def positionHex (hex : List UInt8) : Except Point.Exn E :=
  match String.parsehex hex with
  | .error _ => .error .hexParsingError
  | .ok dat =>
      if size : dat.length = 33 then position format ⟨dat, size⟩ else .error .hexParsingError

/-- Infinity is no result. -/
def finite (p : E) : Except Point.Exn E := if p = 0 then .error .invalidPoint else .ok p

def scaled (p : Option E) (k : Option (ZMod n)) : Except Point.Exn (Option E) :=
  binary .assertion (fun p k => finite (k.val • p)) p k

/-- The number that is held in a scalar object. -/
def held (s : Scalar) : Option (ZMod n) := s.map fun v => (v.value : ZMod n)

variable {math : PointMath} (n)

def onPoints (s : Values E) : Point.Op math → Except Point.Exn Unit × Values E
  | .construct x => s.put x (.ok (some format.generator))
  | .constructVec33 x v => s.put x ((position format v).map some)
  | .constructHex x hex => s.put x ((positionHex format hex).map some)
  | .copy x y => s.put x (.ok (s y))
  | .move x y => (.ok (), s.move x y)
  | .destroy x => s.put x (.ok none)
  | .assign x y => s.put x (.ok (s y))
  | .moveAssign x y => (.ok (), s.move x y)
  | .setFromVec33 x v => s.put x (unary .assertion (fun _ => position format v) (s x))
  | .deserialize x bytes =>
      s.put x (match availablePt bytes with
        | none => .error .eof
        | some v => unary .assertion (fun _ => position format v) (s x))
  | .addAssign x y => s.put x (binary .assertion (fun p q => finite (p + q)) (s x) (s y))
  | .subAssign x y => s.put x (binary .assertion (fun p q => finite (p - q)) (s x) (s y))
  | .mulAssign x k => s.put x (scaled (s x) (held (n := n) k.1))
  | .negate x => s.put x (unary .assertion (fun p => .ok (-p)) (s x))
  | .plus z x y => s.put z (binary .assertion (fun p q => finite (p + q)) (s x) (s y))
  | .neg z x => s.put z (unary .assertion (fun p => .ok (-p)) (s x))
  | .minus z x y => s.put z (binary .assertion (fun p q => finite (p - q)) (s x) (s y))
  | .times z x k => s.put z (scaled (s x) (held (n := n) k.1))

end

/-! ## Programs -/

open Program (Thrown Outcome)

/-- The named numbers and points, the text that was printed and the bytes that
were serialized. -/
structure Quantities (n : Nat) (E : Type) where
  numbers : Values (ZMod n)
  points : Values E
  text : List UInt8
  bytes : List UInt8

def Quantities.init {n : Nat} {E : Type} : Quantities n E := ⟨fun _ => none, fun _ => none, [], []⟩

section

variable {n : Nat} {E : Type} [AddCommGroup E] [DecidableEq E] (format : Format E)
variable {math : PointMath}

/-- What is so of a value, which must be there. -/
def asked {α : Type} (moved : Thrown) (p : α → Bool) : Option α → Outcome
  | none => .error moved
  | some value => .ok (some (p value))

/-- What is so of two values. -/
def compared {α : Type} (moved : Thrown) (p : α → α → Bool) (a b : Option α) : Outcome :=
  match a, b with
  | some a, some b => .ok (some (p a b))
  | _, _ => .error moved

/-- Put the bytes of a value that must be there behind what is written already. -/
def written {α : Type} (s : Quantities n E) (moved : Thrown) (put : α → Quantities n E) :
    Option α → Outcome × Quantities n E
  | none => (.error moved, s)
  | some value => (.ok none, put value)

def exec (s : Quantities n E) : Program.Op math → Outcome × Quantities n E
  | .scalar op =>
      let out := onNumbers s.numbers op
      (Program.Objects.void .inl out.1, { s with numbers := out.2 })
  | .point op =>
      let out := onPoints n format s.points op
      (Program.Objects.void .inr out.1, { s with points := out.2 })
  | .mulAssign x k =>
      let out := s.points.put x (scaled (s.points x) (s.numbers k))
      (Program.Objects.void .inr out.1, { s with points := out.2 })
  | .times z x k =>
      let out := s.points.put z (scaled (s.points x) (s.numbers k))
      (Program.Objects.void .inr out.1, { s with points := out.2 })
  | .equal x y =>
      (compared (.inl .assertion) (fun a b => decide (a = b)) (s.numbers x) (s.numbers y), s)
  | .notEqual x y =>
      (compared (.inl .assertion) (fun a b => decide (a ≠ b)) (s.numbers x) (s.numbers y), s)
  | .nonzero x => (asked (.inl .assertion) (fun a => decide (a ≠ 0)) (s.numbers x), s)
  | .zero x => (asked (.inl .assertion) (fun a => decide (a = 0)) (s.numbers x), s)
  | .print x => written s (.inl .assertion)
      (fun k => { s with text := s.text ++ (bytesOf k).1.flatMap String.digits }) (s.numbers x)
  | .serialize x => written s (.inl .assertion)
      (fun k => { s with bytes := s.bytes ++ (bytesOf k).1 }) (s.numbers x)
  | .equalPoints x y =>
      (compared (.inr .assertion) (fun p q => decide (p = q)) (s.points x) (s.points y), s)
  | .notEqualPoints x y =>
      (compared (.inr .assertion) (fun p q => decide (p ≠ q)) (s.points x) (s.points y), s)
  | .printPoint x => written s (.inr .assertion)
      (fun p => { s with text := s.text ++ (format.encode p).1.flatMap String.digits })
      (s.points x)
  | .serializePoint x => written s (.inr .assertion)
      (fun p => { s with bytes := s.bytes ++ (format.encode p).1 }) (s.points x)

/-- One operation of a run, as for a program. -/
structure Event (n : Nat) (E : Type) (math : PointMath) where
  before : Quantities n E
  op : Program.Op math
  outcome : Outcome
  after : Quantities n E

def eventOf (s : Quantities n E) (op : Program.Op math) : Event n E math :=
  ⟨s, op, (exec format s op).1, (exec format s op).2⟩

def run (s : Quantities n E) : List (Program.Op math) → List (Event n E math)
  | [] => []
  | op :: rest => eventOf format s op :: run (exec format s op).2 rest

end

end Arithmetic

end SidepoolFormal.M
