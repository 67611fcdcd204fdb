import SidepoolFormal.M.Point

/-!
# Programs over scalars and points

The member functions that look at an object without changing it, and programs
over named scalars and points together: a point is multiplied by one of the
scalars, what is compared is returned, what is printed goes to one stream, and
what is serialized to one archive.
-/

namespace SidepoolFormal.M

open SerDe Library

/-- The loop of `eq`, over the bytes of both. -/
def syndrome (vec o : List UInt8) : UInt8 :=
  (vec.zip o).foldl (fun syndrome b => syndrome ||| (b.1 ^^^ b.2)) 0

namespace Impl

def eq (vec o : Vec32) : Bool := syndrome vec.1 o.1 == 0

def isnonzero (vec : Vec32) : Bool := vec.1.foldl (fun syndrome b => syndrome ||| b) 0 != 0

end Impl

namespace Scalar

/-- `operator==`. -/
def equal (self o : Scalar) : Except Exn Bool := do
  let vec ← self.deref
  let inp ← o.deref
  .ok (Impl.eq vec inp)

/-- `operator!=`. -/
def notEqual (self o : Scalar) : Except Exn Bool := do
  let same ← equal self o
  .ok !same

/-- `operator bool`. -/
def nonzero (self : Scalar) : Except Exn Bool := do
  let vec ← self.deref
  .ok (Impl.isnonzero vec)

/-- `operator!`. -/
def zero (self : Scalar) : Except Exn Bool := do
  let set ← nonzero self
  .ok !set

/-- `operator<<`. -/
def print (os : List UInt8) (s : Scalar) : Except Exn (List UInt8) := do
  let v32 ← s.deref
  .ok (String.printhex os v32.1)

/-- `Trait<Scalar>::serialize` on a writing archive. -/
def serialize (a : Archive) (s : Scalar) : Except Exn Archive := do
  let v ← s.deref
  match serializeU8.each a v.1 with
  | .error _ => .error .eof
  | .ok (a, _) => .ok a

end Scalar

namespace Point

def Impl.eq (vec o : Vec33) : Bool := syndrome vec.1 o.1 == 0

/-- `operator==`. -/
def equal (self o : Point) : Except Exn Bool := do
  let vec ← self.deref
  let inp ← o.deref
  .ok (Impl.eq vec inp)

/-- `operator!=`. -/
def notEqual (self o : Point) : Except Exn Bool := do
  let same ← equal self o
  .ok !same

/-- `operator<<`. -/
def print (os : List UInt8) (p : Point) : Except Exn (List UInt8) := do
  let v33 ← p.deref
  .ok (String.printhex os v33.1)

/-- `Trait<Point>::serialize` on a writing archive. -/
def serialize (a : Archive) (p : Point) : Except Exn Archive := do
  let v ← p.deref
  match serializeU8.each a v.1 with
  | .error _ => .error .eof
  | .ok (a, _) => .ok a

end Point

/-! ## Programs -/

namespace Program

/-- Operations on named objects; those of one kind are as before. -/
inductive Op (math : PointMath) where
  | scalar (op : M.Op)
  | point (op : Point.Op math)
  | mulAssign (x k : Nat)
  | times (z x k : Nat)
  | equal (x y : Nat)
  | notEqual (x y : Nat)
  | nonzero (x : Nat)
  | zero (x : Nat)
  | print (x : Nat)
  | serialize (x : Nat)
  | equalPoints (x y : Nat)
  | notEqualPoints (x y : Nat)
  | printPoint (x : Nat)
  | serializePoint (x : Nat)

/-- An exception of a scalar or of a point. -/
abbrev Thrown := Exn ⊕ Point.Exn

/-- What is returned, if it is not void. -/
abbrev Outcome := Except Thrown (Option Bool)

/-- The objects, the stream and the archive that is being written. -/
structure Objects where
  scalars : Store
  points : Point.Store
  os : List UInt8
  a : Archive

def Objects.init : Objects := ⟨fun _ => none, fun _ => none, [], .writing []⟩

namespace Objects

def void {ε : Type} (raise : ε → Thrown) (r : Except ε Unit) : Outcome :=
  (r.mapError raise).map fun _ => none

/-- A comparison leaves everything as it was. -/
def compare {ε : Type} (s : Objects) (raise : ε → Thrown) (r : Except ε Bool) :
    Outcome × Objects :=
  ((r.mapError raise).map some, s)

/-- What was printed is in the stream, unless something was thrown. -/
def write {ε : Type} (s : Objects) (raise : ε → Thrown) :
    Except ε (List UInt8) → Outcome × Objects
  | .ok os => (.ok none, { s with os := os })
  | .error e => (.error (raise e), s)

/-- The same for the archive. -/
def archive {ε : Type} (s : Objects) (raise : ε → Thrown) : Except ε Archive → Outcome × Objects
  | .ok a => (.ok none, { s with a := a })
  | .error e => (.error (raise e), s)

/-- The scalars after an operation on them. -/
def onScalars (s : Objects) (out : Except Exn Unit × Store) : Outcome × Objects :=
  (void .inl out.1, { s with scalars := out.2 })

/-- The points after an operation on them. -/
def onPoints (s : Objects) (out : Except Point.Exn Unit × Point.Store) : Outcome × Objects :=
  (void .inr out.1, { s with points := out.2 })

end Objects

variable {math : PointMath}

def exec (s : Objects) : Op math → Outcome × Objects
  | .scalar op => s.onScalars (M.exec math.toMath s.scalars op)
  | .point op => s.onPoints (Point.exec s.points op)
  | .mulAssign x k =>
      s.onPoints (s.points.put x (Point.mulAssign math (s.points x) (s.scalars k)))
  | .times z x k => s.onPoints (s.points.put z (Point.times math (s.points x) (s.scalars k)))
  | .equal x y => s.compare .inl (Scalar.equal (s.scalars x) (s.scalars y))
  | .notEqual x y => s.compare .inl (Scalar.notEqual (s.scalars x) (s.scalars y))
  | .nonzero x => s.compare .inl (Scalar.nonzero (s.scalars x))
  | .zero x => s.compare .inl (Scalar.zero (s.scalars x))
  | .print x => s.write .inl (Scalar.print s.os (s.scalars x))
  | .serialize x => s.archive .inl (Scalar.serialize s.a (s.scalars x))
  | .equalPoints x y => s.compare .inr (Point.equal (s.points x) (s.points y))
  | .notEqualPoints x y => s.compare .inr (Point.notEqual (s.points x) (s.points y))
  | .printPoint x => s.write .inr (Point.print s.os (s.points x))
  | .serializePoint x => s.archive .inr (Point.serialize s.a (s.points x))

/-- One operation of a run: the objects before it, what it was, how it ended,
the objects after it. -/
structure Event (math : PointMath) where
  before : Objects
  op : Op math
  outcome : Outcome
  after : Objects

def eventOf (s : Objects) (op : Op math) : Event math := ⟨s, op, (exec s op).1, (exec s op).2⟩

/-- The run of a sequence of operations, exceptions being caught between them. -/
def run (s : Objects) : List (Op math) → List (Event math)
  | [] => []
  | op :: rest => eventOf s op :: run (exec s op).2 rest

end Program

end SidepoolFormal.M
