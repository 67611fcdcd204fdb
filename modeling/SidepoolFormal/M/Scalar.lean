import SidepoolFormal.SerDe.Code
import Mathlib.Logic.Function.Basic

/-!
# Scalars

`Sidepool::M::Scalar` over a client's scalar arithmetic.  A scalar object is
its `pimpl`: `none` when it was moved from, otherwise the 32 bytes of its
`Impl`.  A member function either gives the new bytes or throws, and what it
throws it throws before it has written anything.
-/

namespace SidepoolFormal.M

open SerDe Library

abbrev Vec32 := { bytes : List UInt8 // bytes.length = 32 }

/-- `std::memset(vec.bytes, 0, 32)`, and `Vec32()`. -/
def Vec32.zero : Vec32 := ⟨List.replicate 32 0, rfl⟩

/-- The scalar part of the client's `Math`. -/
structure Math where
  isValid : Vec32 → Bool
  add : Vec32 → Vec32 → Vec32
  negate : Vec32 → Vec32
  mul : Vec32 → Vec32 → Vec32

/-- `assertion` is a failed `assert(pimpl)`. -/
inductive Exn where
  | invalidScalar
  | eof
  | assertion
  deriving DecidableEq, Repr

variable (math : Math)

/-! ## `Scalar::Impl` -/

namespace Impl

def validate (vec : Vec32) : Except Exn Unit :=
  if !math.isValid vec then .error .invalidScalar else .ok ()

/-- `Impl(Impl const& o)`. -/
def copy (o : Vec32) : Except Exn Vec32 := do
  validate math o
  .ok o

/-- `Impl(std::shared_ptr<Math> math_, Vec32 const& vec_)`. -/
def ofVec32 (vec : Vec32) : Except Exn Vec32 := do
  validate math vec
  .ok vec

/-- The bytes looked at are the object's own `vec`, as in the source. -/
def setFromVec32 (vec v : Vec32) : Except Exn Vec32 :=
  if !math.isValid vec then .error .invalidScalar else .ok v

end Impl

/-! ## `Scalar` -/

/-- The `pimpl` of a scalar. -/
abbrev Scalar := Option Vec32

namespace Scalar

/-- `assert(pimpl)`. -/
def deref : Scalar → Except Exn Vec32
  | none => .error .assertion
  | some vec => .ok vec

def ofMath : Scalar := some Vec32.zero

def ofVec32 (v32 : Vec32) : Except Exn Scalar := (Impl.ofVec32 math v32).map some

/-- `Scalar(Scalar const& o)`. -/
def copy : Scalar → Except Exn Scalar
  | none => .ok none
  | some o => (Impl.copy math o).map some

def setFromVec32 (self : Scalar) (v : Vec32) : Except Exn Scalar := do
  let vec ← self.deref
  (Impl.setFromVec32 math vec v).map some

/-- `operator=(Scalar const& o)`. -/
def assign : Scalar → Scalar → Except Exn Scalar
  | none, none => .ok none
  | none, some o => (Impl.copy math o).map some
  | some _, some o => .ok (some o)
  | some _, none => .ok none

def addAssign (self o : Scalar) : Except Exn Scalar := do
  let vec ← self.deref
  let inp ← o.deref
  .ok (some (math.add vec inp))

def negate (self : Scalar) : Except Exn Scalar := do
  let vec ← self.deref
  .ok (some (math.negate vec))

def mulAssign (self o : Scalar) : Except Exn Scalar := do
  let vec ← self.deref
  let inp ← o.deref
  .ok (some (math.mul vec inp))

/-- `operator+`. -/
def plus (self o : Scalar) : Except Exn Scalar := do
  let tmp ← copy math self
  addAssign math tmp o

/-- Unary `operator-`. -/
def neg (self : Scalar) : Except Exn Scalar := do
  let tmp ← copy math self
  negate math tmp

/-- `operator-=`. -/
def subAssign (self o : Scalar) : Except Exn Scalar := do
  let opposite ← neg math o
  addAssign math self opposite

/-- Binary `operator-`. -/
def minus (self o : Scalar) : Except Exn Scalar := do
  let tmp ← neg math o
  addAssign math tmp self

/-- `operator*`. -/
def times (self o : Scalar) : Except Exn Scalar := do
  let tmp ← copy math self
  mulAssign math tmp o

/-- The 32 bytes that `Trait<Scalar>::serialize` reads into its local `v`. -/
def readVec32 (a : Archive) : Except Exn Vec32 :=
  match h : serializeU8.each a Vec32.zero.1 with
  | .error _ => .error .eof
  | .ok (_, l) => .ok ⟨l, Routine.each_length h⟩

/-- `Trait<Scalar>::serialize` on a reading archive. -/
def deserialize (self : Scalar) (a : Archive) : Except Exn Scalar := do
  let v ← readVec32 a
  setFromVec32 math self v

end Scalar

/-! ## Programs over scalar objects -/

/-- Operations on named scalar objects; the first name is the object that is
constructed or changed.  An object that was never constructed or is destroyed
counts as moved from. -/
inductive Op where
  | construct (x : Nat)
  | constructVec32 (x : Nat) (v : Vec32)
  | copy (x y : Nat)
  | move (x y : Nat)
  | destroy (x : Nat)
  | assign (x y : Nat)
  | moveAssign (x y : Nat)
  | setFromVec32 (x : Nat) (v : Vec32)
  | deserialize (x : Nat) (bytes : List UInt8)
  | addAssign (x y : Nat)
  | subAssign (x y : Nat)
  | mulAssign (x y : Nat)
  | negate (x : Nat)
  | plus (z x y : Nat)
  | neg (z x : Nat)
  | minus (z x y : Nat)
  | times (z x y : Nat)

abbrev Store := Nat → Scalar

/-- Install what the member function gave, or leave everything as it was. -/
def Store.put (s : Store) (x : Nat) : Except Exn Scalar → Except Exn Unit × Store
  | .ok value => (.ok (), Function.update s x value)
  | .error e => (.error e, s)

def exec (s : Store) : Op → Except Exn Unit × Store
  | .construct x => s.put x (.ok Scalar.ofMath)
  | .constructVec32 x v => s.put x (Scalar.ofVec32 math v)
  | .copy x y => s.put x (Scalar.copy math (s y))
  | .move x y => (.ok (), Function.update (Function.update s y none) x (s y))
  | .destroy x => s.put x (.ok none)
  | .assign x y => s.put x (Scalar.assign math (s x) (s y))
  | .moveAssign x y => (.ok (), Function.update (Function.update s y none) x (s y))
  | .setFromVec32 x v => s.put x (Scalar.setFromVec32 math (s x) v)
  | .deserialize x bytes => s.put x (Scalar.deserialize math (s x) (.reading bytes))
  | .addAssign x y => s.put x (Scalar.addAssign math (s x) (s y))
  | .subAssign x y => s.put x (Scalar.subAssign math (s x) (s y))
  | .mulAssign x y => s.put x (Scalar.mulAssign math (s x) (s y))
  | .negate x => s.put x (Scalar.negate math (s x))
  | .plus z x y => s.put z (Scalar.plus math (s x) (s y))
  | .neg z x => s.put z (Scalar.neg math (s x))
  | .minus z x y => s.put z (Scalar.minus math (s x) (s y))
  | .times z x y => s.put z (Scalar.times math (s x) (s y))

/-- One operation of a run: the objects before it, what it was, how it ended,
the objects after it. -/
structure Event where
  before : Store
  op : Op
  outcome : Except Exn Unit
  after : Store

/-- The run of a sequence of operations, exceptions being caught between them. -/
def run (s : Store) : List Op → List Event
  | [] => []
  | op :: rest =>
      let out := exec math s op
      ⟨s, op, out.1, out.2⟩ :: run out.2 rest

end SidepoolFormal.M
