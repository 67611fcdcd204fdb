import SidepoolFormal.M.Scalar
import SidepoolFormal.String.Code

/-!
# Points

`Sidepool::M::Point` over a client's arithmetic on the curve.  As with scalars,
a point object is its `pimpl`: `none` when it was moved from, otherwise the 33
bytes of its `Impl`.  The constructors and the setter validate; the operators
that change a point in place write what the client's functions give.
-/

namespace SidepoolFormal.M

open SerDe Library

abbrev Vec33 := { bytes : List UInt8 // bytes.length = 33 }

/-- `Vec33()`. -/
def Vec33.zero : Vec33 := ⟨List.replicate 33 0, rfl⟩

/-- The standard generator. -/
def g : Vec33 := ⟨[
  0x02,
  0x79, 0xBE, 0x66, 0x7E,
  0xF9, 0xDC, 0xBB, 0xAC,
  0x55, 0xA0, 0x62, 0x95,
  0xCE, 0x87, 0x0B, 0x07,
  0x02, 0x9B, 0xFC, 0xDB,
  0x2D, 0xCE, 0x28, 0xD9,
  0x59, 0xF2, 0x81, 0x5B,
  0x16, 0xF8, 0x17, 0x98], rfl⟩

/-- The client's `Math`, with what it writes over its first argument. -/
structure PointMath extends Math where
  isValidPt : Vec33 → Bool
  addPt : Vec33 → Vec33 → Vec33
  negatePt : Vec33 → Vec33
  mulPt : Vec33 → Vec32 → Vec33

/-- The `pimpl` of a point. -/
abbrev Point := Option Vec33

namespace Point

/-- `assertion` is a failed `assert(pimpl)`. -/
inductive Exn where
  | invalidPoint
  | hexParsingError
  | eof
  | assertion
  deriving DecidableEq, Repr

variable (math : PointMath)

/-! ## `Point::Impl` -/

namespace Impl

def validate (vec : Vec33) : Except Exn Unit :=
  if !math.isValidPt vec then .error .invalidPoint else .ok ()

/-- `Impl(Impl const& o)`. -/
def copy (o : Vec33) : Except Exn Vec33 := do
  validate math o
  .ok o

/-- `Impl(std::shared_ptr<Math> math_, Vec33 const& vec_)`. -/
def ofVec33 (vec : Vec33) : Except Exn Vec33 := do
  validate math vec
  .ok vec

/-- `Impl(std::shared_ptr<Math> math_, std::string const& hex)`. -/
def ofHex (hex : List UInt8) : Except Exn Vec33 :=
  match String.parsehex hex with
  | .error _ => .error .hexParsingError
  | .ok dat =>
      if size : dat.length = 33 then do
        validate math ⟨dat, size⟩
        .ok ⟨dat, size⟩
      else .error .hexParsingError

/-- The bytes looked at are those that are offered. -/
def setFromVec33 (v : Vec33) : Except Exn Vec33 :=
  if !math.isValidPt v then .error .invalidPoint else .ok v

end Impl

/-! ## `Point` -/

/-- `assert(pimpl)`. -/
def deref : Point → Except Exn Vec33
  | none => .error .assertion
  | some vec => .ok vec

/-- The constructor of `G`, which does not validate. -/
def ofMath : Point := some g

def ofVec33 (v33 : Vec33) : Except Exn Point := (Impl.ofVec33 math v33).map some

def ofHex (s : List UInt8) : Except Exn Point := (Impl.ofHex math s).map some

/-- `Point(Point const& o)`. -/
def copy : Point → Except Exn Point
  | none => .ok none
  | some o => (Impl.copy math o).map some

def setFromVec33 (self : Point) (v : Vec33) : Except Exn Point := do
  let _ ← self.deref
  (Impl.setFromVec33 math v).map some

/-- `operator=(Point const& o)`. -/
def assign : Point → Point → Except Exn Point
  | none, none => .ok none
  | none, some o => (Impl.copy math o).map some
  | some _, some o => .ok (some o)
  | some _, none => .ok none

def addAssign (self o : Point) : Except Exn Point := do
  let vec ← self.deref
  let inp ← o.deref
  .ok (some (math.addPt vec inp))

def negate (self : Point) : Except Exn Point := do
  let vec ← self.deref
  .ok (some (math.negatePt vec))

/-- The bytes of a scalar, `s.vec32()`. -/
def vec32 : Scalar → Except Exn Vec32
  | none => .error .assertion
  | some vec => .ok vec

def mulAssign (self : Point) (s : Scalar) : Except Exn Point := do
  let vec ← self.deref
  let sv ← vec32 s
  .ok (some (math.mulPt vec sv))

/-- `operator+`. -/
def plus (self o : Point) : Except Exn Point := do
  let tmp ← copy math self
  addAssign math tmp o

/-- Unary `operator-`. -/
def neg (self : Point) : Except Exn Point := do
  let tmp ← copy math self
  negate math tmp

/-- `operator-=`. -/
def subAssign (self o : Point) : Except Exn Point := do
  let opposite ← neg math o
  addAssign math self opposite

/-- Binary `operator-`. -/
def minus (self o : Point) : Except Exn Point := do
  let tmp ← neg math o
  addAssign math tmp self

/-- `operator*`, with the scalar on either side. -/
def times (self : Point) (s : Scalar) : Except Exn Point := do
  let tmp ← copy math self
  mulAssign math tmp s

/-- The 33 bytes that `Trait<Point>::serialize` reads into its local `v`. -/
def readVec33 (a : Archive) : Except Exn Vec33 :=
  match h : serializeU8.each a Vec33.zero.1 with
  | .error _ => .error .eof
  | .ok (_, l) => .ok ⟨l, Routine.each_length h⟩

/-- `Trait<Point>::serialize` on a reading archive. -/
def deserialize (self : Point) (a : Archive) : Except Exn Point := do
  let v ← readVec33 a
  setFromVec33 math self v

/-! ## Programs over point objects -/

/-- A scalar that is moved from or holds valid bytes. -/
abbrev ValidScalar := { s : Scalar // ∀ v, s = some v → math.isValid v = true }

/-- Operations on named point objects; the first name is the object that is
constructed or changed.  An object that was never constructed or is destroyed
counts as moved from. -/
inductive Op where
  | construct (x : Nat)
  | constructVec33 (x : Nat) (v : Vec33)
  | constructHex (x : Nat) (s : List UInt8)
  | copy (x y : Nat)
  | move (x y : Nat)
  | destroy (x : Nat)
  | assign (x y : Nat)
  | moveAssign (x y : Nat)
  | setFromVec33 (x : Nat) (v : Vec33)
  | deserialize (x : Nat) (bytes : List UInt8)
  | addAssign (x y : Nat)
  | subAssign (x y : Nat)
  | mulAssign (x : Nat) (s : ValidScalar math)
  | negate (x : Nat)
  | plus (z x y : Nat)
  | neg (z x : Nat)
  | minus (z x y : Nat)
  | times (z x : Nat) (s : ValidScalar math)

abbrev Store := Nat → Point

/-- Install what the member function gave, or leave everything as it was. -/
def Store.put (s : Store) (x : Nat) : Except Exn Point → Except Exn Unit × Store
  | .ok value => (.ok (), Function.update s x value)
  | .error e => (.error e, s)

variable {math}

def exec (s : Store) : Op math → Except Exn Unit × Store
  | .construct x => s.put x (.ok ofMath)
  | .constructVec33 x v => s.put x (ofVec33 math v)
  | .constructHex x hex => s.put x (ofHex math hex)
  | .copy x y => s.put x (copy math (s y))
  | .move x y => (.ok (), Function.update (Function.update s y none) x (s y))
  | .destroy x => s.put x (.ok none)
  | .assign x y => s.put x (assign math (s x) (s y))
  | .moveAssign x y => (.ok (), Function.update (Function.update s y none) x (s y))
  | .setFromVec33 x v => s.put x (setFromVec33 math (s x) v)
  | .deserialize x bytes => s.put x (deserialize math (s x) (.reading bytes))
  | .addAssign x y => s.put x (addAssign math (s x) (s y))
  | .subAssign x y => s.put x (subAssign math (s x) (s y))
  | .mulAssign x k => s.put x (mulAssign math (s x) k.1)
  | .negate x => s.put x (negate math (s x))
  | .plus z x y => s.put z (plus math (s x) (s y))
  | .neg z x => s.put z (neg math (s x))
  | .minus z x y => s.put z (minus math (s x) (s y))
  | .times z x k => s.put z (times math (s x) k.1)

/-- One operation of a run: the objects before it, what it was, how it ended,
the objects after it. -/
structure Event (math : PointMath) where
  before : Store
  op : Op math
  outcome : Except Exn Unit
  after : Store

/-- The run of a sequence of operations, exceptions being caught between them. -/
def run (s : Store) : List (Op math) → List (Event math)
  | [] => []
  | op :: rest =>
      let out := exec s op
      ⟨s, op, out.1, out.2⟩ :: run out.2 rest

end Point

end SidepoolFormal.M
