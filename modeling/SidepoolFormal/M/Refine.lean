import SidepoolFormal.Library.Run
import SidepoolFormal.M.Compare

/-!
# Programs compute the arithmetic

A program over scalars and points runs as the arithmetic says, operation by
operation: what is returned, what is thrown, what is printed and serialized,
and what each object holds afterwards.  It does so exactly as long as the
arithmetic refuses nothing at the operations that do not look: the setters of a
scalar, and the operators whose result may be infinity.
-/

namespace SidepoolFormal.M

open SerDe Library

namespace Arithmetic

open Program (Thrown Outcome)

section

variable {n : Nat} {E : Type} {format : Format E}

/-! ## Objects -/

/-- The objects that hold the points. -/
def pointsOf (format : Format E) (s : Values E) : Point.Store := fun x => pointOf format (s x)

/-- The objects, the stream and the archive of a program. -/
def objectsOf (format : Format E) (s : Quantities n E) : Program.Objects :=
  ⟨scalarsOf s.numbers, pointsOf format s.points, s.text, .writing s.bytes⟩

/-- Every point that is there has an encoding. -/
def Sound (format : Format E) (s : Values E) : Prop := ∀ x, Live format (s x)

theorem pointsOf_update (s : Values E) (x : Nat) (p : Option E) :
    pointsOf format (Function.update s x p) =
      Function.update (pointsOf format s) x (pointOf format p) :=
  funext fun z => Function.apply_update (fun _ => pointOf format) s x p z

theorem Sound.update {s : Values E} (sound : Sound format s) (x : Nat) {p : Option E}
    (live : Live format p) : Sound format (Function.update s x p) := by
  intro z
  by_cases same : z = x
  · subst same
    simpa using live
  · simpa [Function.update_of_ne same] using sound z

/-- What an operation on the points should leave. -/
structure Kept (format : Format E) (out : Except Point.Exn Unit × Point.Store)
    (out' : Except Point.Exn Unit × Values E) : Prop where
  same : out = (out'.1, pointsOf format out'.2)
  sound : Sound format out'.2

theorem put_kept {s : Values E} (sound : Sound format s) (x : Nat) {r : Except Point.Exn Point}
    {r' : Except Point.Exn (Option E)} (agrees : Agrees format r r') :
    Kept format ((pointsOf format s).put x r) (s.put x r') := by
  obtain ⟨rfl, live⟩ := agrees
  cases r' with
  | error e => exact ⟨rfl, sound⟩
  | ok p => exact ⟨congrArg (Prod.mk _) (pointsOf_update s x p).symm, sound.update x (live p rfl)⟩

theorem move_kept {s : Values E} (sound : Sound format s) (x y : Nat) :
    Kept format
      (.ok (), Function.update (Function.update (pointsOf format s) y none) x (pointsOf format s y))
      (.ok (), s.move x y) := by
  refine ⟨?_, (sound.update y Live.none).update x (sound y)⟩
  simp only [Values.move, pointsOf_update]
  rfl

/-- The operators do as they should where the arithmetic does not refuse. -/
theorem put_followed {s : Values E} (sound : Sound format s) (x : Nat)
    {r : Except Point.Exn Point} {r' : Except Point.Exn (Option E)}
    (follows : Follows format r r') (taken : (s.put x r').1 ≠ .error .invalidPoint) :
    Kept format ((pointsOf format s).put x r) (s.put x r') := by
  refine put_kept sound x (follows.agrees fun refused => ?_)
  rw [refused] at taken
  exact taken rfl

/-- And where it refuses, nothing is thrown. -/
theorem put_silent {s : Values E} (x : Nat) {r : Except Point.Exn Point}
    {r' : Except Point.Exn (Option E)} (follows : Follows format r r')
    (refused : (s.put x r').1 = .error .invalidPoint) :
    ((pointsOf format s).put x r).1 = .ok () := by
  cases r' with
  | error e =>
      obtain ⟨p, rfl⟩ := follows.refused (congrArg Except.error (Except.error.inj refused))
      rfl
  | ok p => cases refused

/-! ## What is printed and serialized -/

/-- What is left of a program by an operation on its points. -/
theorem onPoints_objectsOf {s : Quantities n E} {out : Except Point.Exn Unit × Point.Store}
    {out' : Except Point.Exn Unit × Values E} (kept : Kept format out out') :
    (objectsOf format s).onPoints out =
      (Program.Objects.void .inr out'.1, objectsOf format { s with points := out'.2 }) := by
  rw [kept.same]
  rfl

/-- The same result of an operation on what holds the quantities. -/
structure Stands (format : Format E) (out : Outcome × Program.Objects)
    (out' : Outcome × Quantities n E) : Prop where
  same : out = (out'.1, objectsOf format out'.2)
  sound : Sound format out'.2.points

theorem print_stands {s : Quantities n E} (sound : Sound format s.points) (k : Option (ZMod n)) :
    Stands format ((objectsOf format s).write .inl (Scalar.print s.text (scalarOf k)))
      (written s (.inl .assertion)
        (fun k => { s with text := s.text ++ (bytesOf k).1.flatMap String.digits }) k) := by
  cases k with
  | none => exact ⟨rfl, sound⟩
  | some k =>
      have printed : Scalar.print s.text (scalarOf (some k)) =
          .ok (s.text ++ (bytesOf k).1.flatMap String.digits) :=
        congrArg Except.ok (String.printhex_eq s.text (bytesOf k).1)
      rw [printed]
      exact ⟨rfl, sound⟩

theorem printPoint_stands {s : Quantities n E} (sound : Sound format s.points) (p : Option E) :
    Stands format ((objectsOf format s).write .inr (Point.print s.text (pointOf format p)))
      (written s (.inr .assertion)
        (fun p => { s with text := s.text ++ (format.encode p).1.flatMap String.digits }) p) := by
  cases p with
  | none => exact ⟨rfl, sound⟩
  | some p =>
      have printed : Point.print s.text (pointOf format (some p)) =
          .ok (s.text ++ (format.encode p).1.flatMap String.digits) :=
        congrArg Except.ok (String.printhex_eq s.text (format.encode p).1)
      rw [printed]
      exact ⟨rfl, sound⟩

theorem serialize_stands {s : Quantities n E} (sound : Sound format s.points)
    (k : Option (ZMod n)) :
    Stands format
      ((objectsOf format s).archive .inl (Scalar.serialize (.writing s.bytes) (scalarOf k)))
      (written s (.inl .assertion)
        (fun k => { s with bytes := s.bytes ++ (bytesOf k).1 }) k) := by
  cases k with
  | none => exact ⟨rfl, sound⟩
  | some k =>
      have serialized : Scalar.serialize (.writing s.bytes) (scalarOf (some k)) =
          .ok (.writing (s.bytes ++ (bytesOf k).1)) := by
        simp only [Scalar.serialize, scalarOf, Option.map_some, Scalar.deref, bind, Except.bind,
          each_writing]
      rw [serialized]
      exact ⟨rfl, sound⟩

theorem serializePoint_stands {s : Quantities n E} (sound : Sound format s.points)
    (p : Option E) :
    Stands format
      ((objectsOf format s).archive .inr
        (Point.serialize (.writing s.bytes) (pointOf format p)))
      (written s (.inr .assertion)
        (fun p => { s with bytes := s.bytes ++ (format.encode p).1 }) p) := by
  cases p with
  | none => exact ⟨rfl, sound⟩
  | some p =>
      have serialized : Point.serialize (.writing s.bytes) (pointOf format (some p)) =
          .ok (.writing (s.bytes ++ (format.encode p).1)) := by
        simp only [Point.serialize, pointOf, Option.map_some, Point.deref, bind, Except.bind,
          each_writing]
      rw [serialized]
      exact ⟨rfl, sound⟩

/-! ## Setters of scalars -/

/-- The operations that give bytes to a scalar without looking at them. -/
def Setter : Op → Prop
  | .setFromVec32 .. => True
  | .deserialize .. => True
  | _ => False

/-- The arithmetic refuses what is offered and is no number. -/
theorem onNumbers_refuses {s : Values (ZMod n)} {op : Op} {x : Nat} {v : Vec32}
    (offer : Offers (scalarsOf s) op x v) (above : ¬v.value < n) :
    (onNumbers s op).1 = .error .invalidScalar := by
  obtain ⟨here, how⟩ := offer
  obtain ⟨k, holds⟩ : ∃ k, s x = some k := by
    cases holds : s x with
    | none => simp [scalarsOf, scalarOf, holds] at here
    | some k => exact ⟨k, rfl⟩
  have refused : unary Exn.assertion (fun _ => number n v) (s x) = .error .invalidScalar := by
    rw [holds]
    simp [unary, live, number, above, bind, Except.bind, Except.map]
  rcases how with rfl | ⟨bytes, rfl, front⟩
  · rw [onNumbers, refused]
    rfl
  · rw [onNumbers, front]
    simp only [refused]
    rfl

/-- Where it refuses at a setter, something was offered. -/
theorem offers_of_refused {s : Values (ZMod n)} {op : Op} (setter : Setter op)
    (refused : (onNumbers s op).1 = .error .invalidScalar) :
    ∃ x v, Offers (scalarsOf s) op x v := by
  have there {x : Nat} {r : Except Exn (ZMod n)} (r' : Except Exn (Option (ZMod n)))
      (same : r' = unary .assertion (fun _ => r) (s x))
      (refused : (s.put x r').1 = .error .invalidScalar) : scalarsOf s x ≠ none := by
    cases holds : s x with
    | none =>
        rw [same, holds] at refused
        cases refused
    | some k => simp [scalarsOf, scalarOf, holds]
  cases op with
  | setFromVec32 x v => exact ⟨x, v, there _ rfl refused, .inl rfl⟩
  | deserialize x bytes =>
      rw [onNumbers] at refused
      cases front : available bytes with
      | none =>
          rw [front] at refused
          cases refused
      | some v =>
          rw [front] at refused
          exact ⟨x, v, there _ rfl refused, .inr ⟨bytes, rfl, front⟩⟩
  | _ => exact setter.elim

end

/-! ## Outcomes -/

theorem void_error {ε : Type} {raise : ε → Thrown} {r : Except ε Unit} {e : ε}
    (same : r = .error e) : Program.Objects.void raise r = .error (raise e) := by
  rw [same]
  rfl

theorem thrown_of_void {ε : Type} {raise : ε → Thrown} (injective : raise.Injective)
    {r : Except ε Unit} {e : ε} (thrown : Program.Objects.void raise r = .error (raise e)) :
    r = .error e := by
  cases r with
  | error e' => exact congrArg Except.error (injective (Except.error.inj thrown))
  | ok _ => cases thrown

section

variable {math : PointMath} {n : Nat} {E : Type} [AddCommGroup E] [DecidableEq E]
variable {curve : Curve math E} {format : Format E}

/-! ## Operations on points -/

/-- The operators on points whose result may be infinity. -/
def Operator : Point.Op math → Prop
  | .addAssign .. => True
  | .subAssign .. => True
  | .mulAssign .. => True
  | .plus .. => True
  | .minus .. => True
  | .times .. => True
  | _ => False

/-- A scalar that holds valid bytes holds their number. -/
theorem scalarOf_held (residues : Residues math.toMath n) (k : Point.ValidScalar math) :
    scalarOf (held (n := n) k.1) = k.1 := by
  obtain ⟨k, valid⟩ := k
  cases k with
  | none => rfl
  | some v => exact congrArg some (bytesOf_value residues (valid v rfl))

theorem onPoints_kept (residues : Residues math.toMath n) (coded : Coded curve format)
    {s : Values E} (sound : Sound format s) (op : Point.Op math)
    (fine : Operator op → (onPoints n format s op).1 ≠ .error .invalidPoint) :
    Kept format (Point.exec (pointsOf format s) op) (onPoints n format s op) := by
  cases op with
  | construct x =>
      obtain ⟨same, encodes⟩ := generator_encode coded
      have made : Agrees format (.ok Point.ofMath) (.ok (some format.generator)) := by
        rw [Point.ofMath, ← same]
        exact Agrees.ok (Live.some encodes)
      exact put_kept sound x made
  | constructVec33 x v => exact put_kept sound x (ofVec33_agrees coded v)
  | constructHex x hex => exact put_kept sound x (ofHex_agrees coded hex)
  | copy x y => exact put_kept sound x (copy_agrees coded (sound y))
  | move x y => exact move_kept sound x y
  | destroy x => exact put_kept sound x (Agrees.ok Live.none)
  | assign x y => exact put_kept sound x (assign_agrees coded (s x) (sound y))
  | moveAssign x y => exact move_kept sound x y
  | setFromVec33 x v => exact put_kept sound x (setFromVec33_agrees coded (s x) v)
  | deserialize x bytes => exact put_kept sound x (deserialize_agrees coded (s x) bytes)
  | addAssign x y =>
      exact put_followed sound x (addAssign_follows coded (sound x) (sound y)) (fine trivial)
  | subAssign x y =>
      exact put_followed sound x (subAssign_follows coded (sound x) (sound y)) (fine trivial)
  | mulAssign x k =>
      have product := mulAssign_follows coded residues (sound x) (held k.1)
      rw [scalarOf_held residues] at product
      exact put_followed sound x product (fine trivial)
  | negate x => exact put_kept sound x (negate_agrees coded (sound x))
  | plus z x y =>
      exact put_followed sound z (plus_follows coded (sound x) (sound y)) (fine trivial)
  | neg z x => exact put_kept sound z (neg_agrees coded (sound x))
  | minus z x y =>
      exact put_followed sound z (minus_follows coded (sound x) (sound y)) (fine trivial)
  | times z x k =>
      have product := times_follows coded residues (sound x) (held k.1)
      rw [scalarOf_held residues] at product
      exact put_followed sound z product (fine trivial)

theorem onPoints_silent (residues : Residues math.toMath n) (coded : Coded curve format)
    {s : Values E} (sound : Sound format s) {op : Point.Op math} (operator : Operator op)
    (refused : (onPoints n format s op).1 = .error .invalidPoint) :
    (Point.exec (pointsOf format s) op).1 = .ok () := by
  cases op with
  | addAssign x y => exact put_silent x (addAssign_follows coded (sound x) (sound y)) refused
  | subAssign x y => exact put_silent x (subAssign_follows coded (sound x) (sound y)) refused
  | mulAssign x k =>
      have product := mulAssign_follows coded residues (sound x) (held k.1)
      rw [scalarOf_held residues] at product
      exact put_silent x product refused
  | plus z x y => exact put_silent z (plus_follows coded (sound x) (sound y)) refused
  | minus z x y => exact put_silent z (minus_follows coded (sound x) (sound y)) refused
  | times z x k =>
      have product := times_follows coded residues (sound x) (held k.1)
      rw [scalarOf_held residues] at product
      exact put_silent z product refused
  | _ => exact operator.elim

/-! ## Steps of a program -/

/-- The operations that do not look at what they are to hold. -/
def Unchecked : Program.Op math → Prop
  | .scalar op => Setter op
  | .point op => Operator op
  | .mulAssign .. => True
  | .times .. => True
  | _ => False

/-- The arithmetic refuses nothing that is not looked at. -/
def Event.Fine (e : Event n E math) : Prop :=
  Unchecked e.op →
    e.outcome ≠ .error (.inl .invalidScalar) ∧ e.outcome ≠ .error (.inr .invalidPoint)

/-- The same event of a program. -/
def Event.objects (format : Format E) (e : Event n E math) : Program.Event math :=
  ⟨objectsOf format e.before, e.op, e.outcome, objectsOf format e.after⟩

theorem exec_stands (residues : Residues math.toMath n) (coded : Coded curve format)
    {s : Quantities n E} (sound : Sound format s.points) (op : Program.Op math)
    (fine : (eventOf format s op).Fine) :
    Stands format (Program.exec (objectsOf format s) op) (exec format s op) := by
  have points {out : Except Point.Exn Unit × Point.Store}
      {out' : Except Point.Exn Unit × Values E} (kept : Kept format out out') :
      Stands format ((objectsOf format s).onPoints out)
        (Program.Objects.void .inr out'.1, { s with points := out'.2 }) :=
    ⟨onPoints_objectsOf kept, kept.sound⟩
  have finite {out' : Except Point.Exn Unit × Values E}
      (outcome : Program.Objects.void Sum.inr out'.1 ≠ .error (.inr .invalidPoint)) :
      out'.1 ≠ .error .invalidPoint := fun refused => outcome (void_error refused)
  cases op with
  | scalar op =>
      have offered : Offered s.numbers op := by
        intro x v offer
        by_contra above
        have setter : Setter op := by
          obtain ⟨-, rfl | ⟨bytes, rfl, -⟩⟩ := offer <;> trivial
        exact (fine setter).1 (void_error (onNumbers_refuses offer above))
      refine ⟨?_, sound⟩
      have done := exec_scalarsOf residues offered
      exact congrArg (objectsOf format s).onScalars done
  | point op =>
      refine points (onPoints_kept residues coded sound op fun operator => ?_)
      exact finite (fine operator).2
  | mulAssign x k =>
      refine points (put_followed sound x ?_ (finite (fine trivial).2))
      exact mulAssign_follows coded residues (sound x) (s.numbers k)
  | times z x k =>
      refine points (put_followed sound z ?_ (finite (fine trivial).2))
      exact times_follows coded residues (sound x) (s.numbers k)
  | equal x y =>
      exact ⟨congrArg (·, objectsOf format s) (equal_scalarOf residues _ _), sound⟩
  | notEqual x y =>
      exact ⟨congrArg (·, objectsOf format s) (notEqual_scalarOf residues _ _), sound⟩
  | nonzero x => exact ⟨congrArg (·, objectsOf format s) (nonzero_scalarOf residues _), sound⟩
  | zero x => exact ⟨congrArg (·, objectsOf format s) (zero_scalarOf residues _), sound⟩
  | print x => exact print_stands sound (s.numbers x)
  | serialize x => exact serialize_stands sound (s.numbers x)
  | equalPoints x y =>
      exact ⟨congrArg (·, objectsOf format s) (equal_pointOf coded (sound x) (sound y)), sound⟩
  | notEqualPoints x y =>
      exact ⟨congrArg (·, objectsOf format s) (notEqual_pointOf coded (sound x) (sound y)), sound⟩
  | printPoint x => exact printPoint_stands sound (s.points x)
  | serializePoint x => exact serializePoint_stands sound (s.points x)

/-- An operation that does not look does not throw either. -/
theorem exec_silent (residues : Residues math.toMath n) (coded : Coded curve format)
    {s : Quantities n E} (sound : Sound format s.points) {op : Program.Op math}
    (unchecked : Unchecked op) {e : Thrown}
    (refuses : e = .inl .invalidScalar ∨ e = .inr .invalidPoint)
    (refused : (exec format s op).1 = .error e) :
    (Program.exec (objectsOf format s) op).1 = .ok none := by
  have points {out : Except Point.Exn Unit × Point.Store}
      {out' : Except Point.Exn Unit × Values E}
      (silent : out'.1 = .error .invalidPoint → out.1 = .ok ())
      (refused : Program.Objects.void .inr out'.1 = .error e) :
      ((objectsOf format s).onPoints out).1 = .ok none := by
    have thrown : out'.1 = .error .invalidPoint := by
      rcases refuses with rfl | rfl
      · cases thrown : out'.1 <;> rw [thrown] at refused <;> cases refused
      · exact thrown_of_void Sum.inr_injective refused
    rw [Program.Objects.onPoints, silent thrown]
    rfl
  cases op with
  | scalar op =>
      have thrown : (onNumbers s.numbers op).1 = .error .invalidScalar := by
        rcases refuses with rfl | rfl
        · exact thrown_of_void Sum.inl_injective refused
        · rw [exec] at refused
          cases thrown : (onNumbers s.numbers op).1 <;> simp only [thrown] at refused <;>
            cases refused
      obtain ⟨x, v, offer⟩ := offers_of_refused unchecked thrown
      have taken := exec_offer (scalarsOf_sound residues s.numbers) offer
      rw [Program.exec, Program.Objects.onScalars]
      exact congrArg (fun out => Program.Objects.void Sum.inl out.1) taken
  | point op => exact points (onPoints_silent residues coded sound unchecked) refused
  | mulAssign x k =>
      refine points (put_silent x ?_) refused
      exact mulAssign_follows coded residues (sound x) (s.numbers k)
  | times z x k =>
      refine points (put_silent z ?_) refused
      exact times_follows coded residues (sound x) (s.numbers k)
  | _ => exact unchecked.elim

/-! ## Runs -/

/-- A program runs as the arithmetic does exactly as long as the arithmetic refuses
nothing at an operation that does not look. -/
theorem run_objects_iff (residues : Residues math.toMath n) (coded : Coded curve format)
    (ops : List (Program.Op math)) :
    Program.run .init ops = (run format (.init : Quantities n E) ops).map (Event.objects format) ↔
      ∀ e ∈ run format (.init : Quantities n E) ops, e.Fine := by
  have same_iff (s : Quantities n E) (op : Program.Op math) (sound : Sound format s.points) :
      Program.eventOf (objectsOf format s) op = (eventOf format s op).objects format ↔
        (eventOf format s op).Fine := by
    constructor
    · intro same
      have outcome : (Program.exec (objectsOf format s) op).1 = (exec format s op).1 :=
        congrArg Program.Event.outcome same
      have done {e : Thrown} (refuses : e = .inl .invalidScalar ∨ e = .inr .invalidPoint)
          (unchecked : Unchecked op) : (exec format s op).1 ≠ .error e := by
        intro refused
        rw [exec_silent residues coded sound unchecked refuses refused, refused] at outcome
        cases outcome
      exact fun unchecked => ⟨done (.inl rfl) unchecked, done (.inr rfl) unchecked⟩
    · intro fine
      have stands := (exec_stands residues coded sound op fine).same
      simp only [Program.eventOf, stands]
      rfl
  have keeps (s : Quantities n E) (op : Program.Op math) (sound : Sound format s.points)
      (fine : (eventOf format s op).Fine) :
      (Program.exec (objectsOf format s) op).2 = objectsOf format (exec format s op).2 ∧
        Sound format (exec format s op).2.points := by
    have stands := exec_stands residues coded sound op fine
    exact ⟨congrArg Prod.snd stands.same, stands.sound⟩
  have cons (s : Quantities n E) (op : Program.Op math) (rest : List (Program.Op math)) :
      run format s (op :: rest) = eventOf format s op :: run format (exec format s op).2 rest := rfl
  have cons' (s : Program.Objects) (op : Program.Op math) (rest : List (Program.Op math)) :
      Program.run s (op :: rest) = Program.eventOf s op :: Program.run (Program.exec s op).2 rest :=
    rfl
  have init : Program.Objects.init = objectsOf format (.init : Quantities n E) := rfl
  rw [init]
  refine events_eq_map_iff (fun _ => rfl) cons (fun _ => rfl) cons' same_iff keeps ?_ ops
  exact fun _ => Live.none

end

/-! ## Over the group of three points -/

def threeFormat : Format (ZMod 3) where
  generator := Point.threeCurve.point g
  decode v := if Point.three.isValidPt v then some (Point.threeCurve.point v) else none
  encode p := if p.val = 1 then g else Point.oppositeG

theorem three_coded : Coded Point.threeCurve threeFormat where
  generator := rfl
  decode _ := rfl
  unique v valid := by
    rcases Point.three_valid.mp valid with rfl | rfl <;> decide

theorem number_one : number groupOrder (Vec32.ofValue 1) = .ok ((1 : ℕ) : ZMod groupOrder) := by
  have one : (Vec32.ofValue 1).value = 1 := Vec32.value_ofValue (by decide)
  rw [number, one, if_pos (by decide)]

theorem scaled_one : scaled (some (1 : ZMod 3)) (some ((1 : ℕ) : ZMod groupOrder)) =
    .ok (some 1) := by
  have one : ((1 : ℕ) : ZMod groupOrder).val = 1 := ZMod.val_natCast_of_lt (by decide)
  have nonzero : (1 : ZMod 3) ≠ 0 := by decide
  simp only [scaled, binary, live, bind, Except.bind, one, one_nsmul, finite, if_neg nonzero,
    Except.map]

/-- One times the generator is compared with the generator, and both are printed. -/
theorem run_objects_three :
    Residues Point.three.toMath groupOrder ∧ Coded Point.threeCurve threeFormat ∧
      let ops : List (Program.Op Point.three) :=
        [.scalar (.constructVec32 0 (Vec32.ofValue 1)), .point (.construct 0), .times 1 0 0,
          .equalPoints 0 1, .print 0, .printPoint 1]
      Program.run .init ops =
        (run threeFormat (.init : Quantities groupOrder (ZMod 3)) ops).map
          (Event.objects threeFormat) := by
  refine ⟨secp_residues, three_coded, ?_⟩
  apply (run_objects_iff secp_residues three_coded _).mpr
  intro e member unchecked
  simp only [run, List.mem_cons, List.not_mem_nil, or_false] at member
  rcases member with rfl | rfl | rfl | rfl | rfl | rfl
  case inr.inr.inl =>
    have done : (exec threeFormat
        (exec threeFormat (exec threeFormat (.init : Quantities groupOrder (ZMod 3))
          (.scalar (.constructVec32 0 (Vec32.ofValue 1)) : Program.Op Point.three)).2
          (.point (.construct 0) : Program.Op Point.three)).2
        (.times 1 0 0 : Program.Op Point.three)).1 = .ok none := by
      have generator : threeFormat.generator = 1 := by decide
      simp only [exec, onNumbers, onPoints, number_one, Except.map, Values.put,
        Function.update_self, generator, scaled_one]
      rfl
    simp only [eventOf, done]
    exact ⟨by simp, by simp⟩
  all_goals exact unchecked.elim

end Arithmetic

end SidepoolFormal.M
