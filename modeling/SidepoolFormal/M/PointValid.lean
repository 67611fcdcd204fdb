import SidepoolFormal.Library.Run
import SidepoolFormal.M.Point
import SidepoolFormal.M.ScalarValid
import Mathlib.Algebra.Field.ZMod
import Mathlib.Tactic.IntervalCases

/-!
# Validity of live points

The client's functions compute a group, whose zero has no encoding.  Wherever
the result has one, every operation keeps live points on the curve.  Where it
has none, the constructors and the setter are not asked: the operators write
what the client's function leaves, and do not throw.
-/

namespace SidepoolFormal.M

open SerDe Library

/-- The client computes the group `E` on valid encodings, of which infinity has
none.  What it writes when the result is infinity is open. -/
structure Curve (math : PointMath) (E : Type) [AddCommGroup E] where
  point : Vec33 → E
  finite : ∀ v, math.isValidPt v = true → point v ≠ 0
  generator : math.isValidPt g = true
  add : ∀ a b, math.isValidPt a = true → math.isValidPt b = true → point a + point b ≠ 0 →
    math.isValidPt (math.addPt a b) = true ∧ point (math.addPt a b) = point a + point b
  negate : ∀ a, math.isValidPt a = true →
    math.isValidPt (math.negatePt a) = true ∧ point (math.negatePt a) = -point a
  mul : ∀ a s, math.isValidPt a = true → math.isValid s = true → s.value • point a ≠ 0 →
    math.isValidPt (math.mulPt a s) = true ∧ point (math.mulPt a s) = s.value • point a

namespace Point

/-- A point that is not moved from holds bytes of the curve. -/
def Sound (math : PointMath) (p : Point) : Prop := ∀ v, p = some v → math.isValidPt v = true

def Store.Sound (math : PointMath) (s : Store) : Prop := ∀ x, Point.Sound math (s x)

section

variable {math : PointMath} {E : Type} [AddCommGroup E]

/-! ## Member functions -/

theorem sound_none : Sound math none := fun _ absurd => nomatch absurd

theorem sound_some {v : Vec33} : Sound math (some v) ↔ math.isValidPt v = true :=
  ⟨fun sound => sound v rfl, fun valid _ same => Option.some.inj same ▸ valid⟩

/-- A valid point is copied as it is. -/
theorem copy_eq {p : Point} (sound : Sound math p) : copy math p = .ok p := by
  cases p with
  | none => rfl
  | some v => simp [copy, Impl.copy, Impl.validate, sound v rfl, bind, Except.bind, Except.map]

theorem validated {v w : Vec33}
    (given : (do Impl.validate math v; Except.ok v) = Except.ok w) :
    w = v ∧ math.isValidPt v = true := by
  cases valid : math.isValidPt v with
  | false => simp [Impl.validate, valid, bind, Except.bind] at given
  | true =>
      simp only [Impl.validate, valid, bind, Except.bind, Bool.not_true, Bool.false_eq_true,
        if_false, Except.ok.injEq] at given
      exact ⟨given.symm, rfl⟩

theorem sound_map {r : Except Exn Vec33} {p : Point}
    (valid : ∀ v, r = .ok v → math.isValidPt v = true) (given : r.map some = .ok p) :
    Sound math p := by
  cases r with
  | error e => cases given
  | ok v =>
      cases given
      exact sound_some.mpr (valid v rfl)

theorem ofVec33_sound {v : Vec33} {p : Point} (given : ofVec33 math v = .ok p) :
    Sound math p := by
  refine sound_map (fun w copied => ?_) given
  obtain ⟨rfl, valid⟩ := validated copied
  exact valid

theorem ofHex_sound {s : List UInt8} {p : Point} (given : ofHex math s = .ok p) :
    Sound math p := by
  refine sound_map (fun w read => ?_) given
  rw [Impl.ofHex.eq_def] at read
  split at read
  · cases read
  · split at read
    · obtain ⟨rfl, valid⟩ := validated read
      exact valid
    · cases read

theorem copy_sound {o p : Point} (given : copy math o = .ok p) : Sound math p := by
  cases o with
  | none =>
      cases given
      exact sound_none
  | some o => exact ofVec33_sound given

theorem setFromVec33_sound {self p : Point} {v : Vec33}
    (given : setFromVec33 math self v = .ok p) : Sound math p := by
  cases self with
  | none => cases given
  | some vec =>
      refine sound_map (fun w set => ?_) given
      cases valid : math.isValidPt v with
      | false => simp [Impl.setFromVec33, valid] at set
      | true =>
          simp only [Impl.setFromVec33, valid, Bool.not_true, Bool.false_eq_true, if_false,
            Except.ok.injEq] at set
          exact set ▸ valid

theorem assign_sound {self o p : Point} (sound : Sound math o)
    (given : assign math self o = .ok p) : Sound math p := by
  cases self with
  | none =>
      cases o with
      | none => exact copy_sound (o := none) given
      | some o => exact copy_sound (o := some o) given
  | some v =>
      cases o with
      | none =>
          cases given
          exact sound_none
      | some o =>
          cases given
          exact sound

theorem neg_some {b : Vec33} (valid : math.isValidPt b = true) :
    neg math (some b) = .ok (some (math.negatePt b)) := by
  rw [neg, copy_eq (sound_some.mpr valid)]
  rfl

theorem plus_eq {self : Point} (sound : Sound math self) (o : Point) :
    plus math self o = addAssign math self o := by
  rw [plus, copy_eq sound]
  rfl

theorem times_eq {self : Point} (sound : Sound math self) (s : Scalar) :
    times math self s = mulAssign math self s := by
  rw [times, copy_eq sound]
  rfl

theorem subAssign_some (self : Point) {b : Vec33} (valid : math.isValidPt b = true) :
    subAssign math self (some b) = addAssign math self (some (math.negatePt b)) := by
  rw [subAssign, neg_some valid]
  rfl

theorem minus_some (self : Point) {b : Vec33} (valid : math.isValidPt b = true) :
    minus math self (some b) = addAssign math (some (math.negatePt b)) self := by
  rw [minus, neg_some valid]
  rfl

/-! ## Results at infinity -/

variable (curve : Curve math E)

def SumInfinite (self o : Point) : Prop :=
  ∃ a b, self = some a ∧ o = some b ∧ curve.point a + curve.point b = 0

def DifferenceInfinite (self o : Point) : Prop :=
  ∃ a b, self = some a ∧ o = some b ∧ curve.point a - curve.point b = 0

def ProductInfinite (self : Point) (s : Scalar) : Prop :=
  ∃ a v, self = some a ∧ s = some v ∧ v.value • curve.point a = 0

variable {curve}

theorem addAssign_sound {self o p : Point} (first : Sound math self) (second : Sound math o)
    (finite : ¬SumInfinite curve self o) (given : addAssign math self o = .ok p) :
    Sound math p := by
  cases self with
  | none => cases given
  | some a =>
      cases o with
      | none => cases given
      | some b =>
          cases given
          refine sound_some.mpr (curve.add a b (first a rfl) (second b rfl) ?_).1
          exact fun zero => finite ⟨a, b, rfl, rfl, zero⟩

theorem negate_sound (curve : Curve math E) {self p : Point} (sound : Sound math self)
    (given : negate math self = .ok p) : Sound math p := by
  cases self with
  | none => cases given
  | some a =>
      cases given
      exact sound_some.mpr (curve.negate a (sound a rfl)).1

theorem mulAssign_sound {self p : Point} {s : Scalar} (sound : Sound math self)
    (valid : ∀ v, s = some v → math.isValid v = true) (finite : ¬ProductInfinite curve self s)
    (given : mulAssign math self s = .ok p) : Sound math p := by
  cases self with
  | none => cases given
  | some a =>
      cases s with
      | none => cases given
      | some v =>
          cases given
          refine sound_some.mpr (curve.mul a v (sound a rfl) (valid v rfl) ?_).1
          exact fun zero => finite ⟨a, v, rfl, rfl, zero⟩

theorem sumInfinite_negated {self : Point} {b : Vec33} (valid : math.isValidPt b = true) :
    SumInfinite curve self (some (math.negatePt b)) ↔
      DifferenceInfinite curve self (some b) := by
  have opposite := (curve.negate b valid).2
  simp [SumInfinite, DifferenceInfinite, opposite, sub_eq_add_neg]

theorem sumInfinite_comm {self o : Point} :
    SumInfinite curve self o ↔ SumInfinite curve o self := by
  constructor <;>
  · rintro ⟨a, b, rfl, rfl, zero⟩
    exact ⟨b, a, rfl, rfl, by rwa [add_comm]⟩

theorem subAssign_sound {self o p : Point} (first : Sound math self) (second : Sound math o)
    (finite : ¬DifferenceInfinite curve self o) (given : subAssign math self o = .ok p) :
    Sound math p := by
  cases o with
  | none => cases given
  | some b =>
      have valid := second b rfl
      rw [subAssign_some self valid] at given
      rw [← sumInfinite_negated valid] at finite
      exact addAssign_sound first (sound_some.mpr (curve.negate b valid).1) finite given

theorem minus_sound {self o p : Point} (first : Sound math self) (second : Sound math o)
    (finite : ¬DifferenceInfinite curve self o) (given : minus math self o = .ok p) :
    Sound math p := by
  cases o with
  | none => cases given
  | some b =>
      have valid := second b rfl
      rw [minus_some self valid] at given
      rw [← sumInfinite_negated valid, sumInfinite_comm] at finite
      exact addAssign_sound (sound_some.mpr (curve.negate b valid).1) first finite given

/-! ## Operations -/

variable (curve)

/-- The result of the operation is infinity. -/
def Infinite (s : Store) : Op math → Prop
  | .addAssign x y => SumInfinite curve (s x) (s y)
  | .subAssign x y => DifferenceInfinite curve (s x) (s y)
  | .mulAssign x k => ProductInfinite curve (s x) k.1
  | .plus _ x y => SumInfinite curve (s x) (s y)
  | .minus _ x y => DifferenceInfinite curve (s x) (s y)
  | .times _ x k => ProductInfinite curve (s x) k.1
  | _ => False

variable {curve}

theorem Store.Sound.update {s : Store} (sound : s.Sound math) (x : Nat) {p : Point}
    (valid : Point.Sound math p) : Store.Sound math (Function.update s x p) := by
  intro z
  by_cases same : z = x
  · subst same
    simpa using valid
  · simpa [Function.update_of_ne same] using sound z

theorem Store.put_sound {s : Store} (sound : s.Sound math) (x : Nat) {r : Except Exn Point}
    (valid : ∀ p, r = .ok p → Point.Sound math p) : (s.put x r).2.Sound math := by
  cases r with
  | error e => exact sound
  | ok p => exact sound.update x (valid p rfl)

/-- Step lemma: only a result at infinity can make a live point invalid. -/
theorem exec_sound {s : Store} (sound : s.Sound math) (op : Op math)
    (finite : ¬Infinite curve s op) : (exec s op).2.Sound math := by
  cases op with
  | construct x => exact sound.update x (sound_some.mpr curve.generator)
  | constructVec33 x v => exact Store.put_sound sound x fun _ => ofVec33_sound
  | constructHex x hex => exact Store.put_sound sound x fun _ => ofHex_sound
  | copy x y => exact Store.put_sound sound x fun _ => copy_sound
  | move x y => exact (sound.update y sound_none).update x (sound y)
  | destroy x => exact sound.update x sound_none
  | assign x y => exact Store.put_sound sound x fun _ => assign_sound (sound y)
  | moveAssign x y => exact (sound.update y sound_none).update x (sound y)
  | setFromVec33 x v => exact Store.put_sound sound x fun _ => setFromVec33_sound
  | deserialize x bytes =>
      refine Store.put_sound sound x fun p given => ?_
      rw [deserialize] at given
      cases read : readVec33 (.reading bytes) with
      | error e => simp [read, bind, Except.bind] at given
      | ok v => exact setFromVec33_sound (by simpa [read, bind, Except.bind] using given)
  | addAssign x y =>
      exact Store.put_sound sound x fun _ => addAssign_sound (sound x) (sound y) finite
  | subAssign x y =>
      exact Store.put_sound sound x fun _ => subAssign_sound (sound x) (sound y) finite
  | mulAssign x k =>
      exact Store.put_sound sound x fun _ => mulAssign_sound (sound x) k.2 finite
  | negate x => exact Store.put_sound sound x fun _ => negate_sound curve (sound x)
  | plus z x y =>
      refine Store.put_sound sound z fun p given => ?_
      rw [plus_eq (sound x)] at given
      exact addAssign_sound (sound x) (sound y) finite given
  | neg z x =>
      refine Store.put_sound sound z fun p given => ?_
      rw [neg, copy_eq (sound x)] at given
      exact negate_sound curve (sound x) given
  | minus z x y =>
      exact Store.put_sound sound z fun _ => minus_sound (sound x) (sound y) finite
  | times z x k =>
      refine Store.put_sound sound z fun p given => ?_
      rw [times_eq (sound x)] at given
      exact mulAssign_sound (sound x) k.2 finite given

/-- Nothing is thrown when a result is infinity. -/
theorem exec_infinite {s : Store} (sound : s.Sound math) {op : Op math}
    (infinite : Infinite curve s op) : (exec s op).1 = .ok () := by
  cases op with
  | addAssign x y =>
      obtain ⟨a, b, left, right, -⟩ := infinite
      simp [exec, left, right, addAssign, deref, bind, Except.bind, Store.put]
  | subAssign x y =>
      obtain ⟨a, b, left, right, -⟩ := infinite
      simp [exec, left, right, subAssign_some _ (sound y b right), addAssign, deref, bind,
        Except.bind, Store.put]
  | mulAssign x k =>
      obtain ⟨a, v, left, right, -⟩ := infinite
      simp [exec, left, right, mulAssign, deref, vec32, bind, Except.bind, Store.put]
  | plus z x y =>
      obtain ⟨a, b, left, right, -⟩ := infinite
      rw [exec, plus_eq (sound x)]
      simp [left, right, addAssign, deref, bind, Except.bind, Store.put]
  | minus z x y =>
      obtain ⟨a, b, left, right, -⟩ := infinite
      simp [exec, left, right, minus_some _ (sound y b right), addAssign, deref, bind,
        Except.bind, Store.put]
  | times z x k =>
      obtain ⟨a, v, left, right, -⟩ := infinite
      rw [exec, times_eq (sound x)]
      simp [left, right, mulAssign, deref, vec32, bind, Except.bind, Store.put]
  | _ => exact infinite.elim

/-! ## Runs -/

/-- What one operation of a run promises. -/
structure Event.Meets (curve : Curve math E) (e : Event math) : Prop where
  sound : e.after.Sound math
  infinite : Infinite curve e.before e.op →
    e.outcome = .error .invalidPoint ∧ e.after = e.before

/-- An operation on points on the curve. -/
def eventOf (s : Store) (op : Op math) : Event math := ⟨s, op, (exec s op).1, (exec s op).2⟩

theorem eventOf_meets_iff {s : Store} (sound : s.Sound math) (op : Op math) :
    (eventOf s op).Meets curve ↔ ¬Infinite curve s op := by
  constructor
  · intro meets infinite
    have thrown := (meets.infinite infinite).1
    rw [eventOf, exec_infinite sound infinite] at thrown
    cases thrown
  · intro finite
    exact ⟨exec_sound sound op finite, fun infinite => absurd infinite finite⟩

/-- All live points of a run are on the curve, and a result at infinity is thrown,
exactly when no operation of the run has one. -/
theorem run_on_curve_iff (curve : Curve math E) (ops : List (Op math)) :
    (∀ e ∈ run (fun _ => none) ops, e.Meets curve) ↔
      ∀ e ∈ run (fun _ => none) ops, ¬Infinite curve e.before e.op := by
  have cons (s : Store) (op : Op math) (rest : List (Op math)) :
      run s (op :: rest) = eventOf s op :: run (exec s op).2 rest := rfl
  have meets (s : Store) (op : Op math) (sound : s.Sound math) :
      (eventOf s op).Meets curve ↔ ¬Infinite curve s op := eventOf_meets_iff sound op
  refine forall_events_iff (fun _ => rfl) cons meets ?_ (fun _ => sound_none) ops
  exact fun _ op sound finite => exec_sound sound op finite

end

/-! ## A group of three points -/

/-- The generator with its other square root. -/
def oppositeG : Vec33 := ⟨0x03 :: g.1.tail, rfl⟩

/-- Infinity, the generator and its opposite, over the scalars of the curve; where
the result is infinity, zeros are written. -/
def three : PointMath where
  toMath := secp
  isValidPt v := v == g || v == oppositeG
  addPt a b := if a = b then (if a = g then oppositeG else g) else Vec33.zero
  negatePt a := if a = g then oppositeG else g
  mulPt a s :=
    if s.value % 3 = 0 then Vec33.zero
    else if s.value % 3 = 1 then a
    else if a = g then oppositeG else g

theorem three_valid {v : Vec33} : three.isValidPt v = true ↔ v = g ∨ v = oppositeG := by
  simp [three, Subtype.ext_iff]

theorem nsmul_three (n : Nat) (x : ZMod 3) : n • x = (n % 3) • x := by
  have turn : 3 • x = 0 := by
    revert x
    decide
  conv_lhs => rw [← Nat.mod_add_div n 3]
  rw [add_nsmul, mul_nsmul, turn, nsmul_zero, add_zero]

def threeCurve : Curve three (ZMod 3) where
  point v := if v = g then 1 else if v = oppositeG then 2 else 0
  finite v valid := by
    rcases three_valid.mp valid with rfl | rfl <;> decide
  generator := by decide
  add a b left right finite := by
    rcases three_valid.mp left with rfl | rfl <;> rcases three_valid.mp right with rfl | rfl
    · decide
    · exact absurd (by decide) finite
    · exact absurd (by decide) finite
    · decide
  negate a valid := by
    rcases three_valid.mp valid with rfl | rfl <;> decide
  mul a s left right finite := by
    rw [nsmul_three] at finite ⊢
    have small := Nat.mod_lt s.value (show 3 > 0 by decide)
    generalize residue : s.value % 3 = r at finite small ⊢
    simp only [three, residue]
    clear residue right
    interval_cases r
    · exact absurd (zero_nsmul _) finite
    · rcases three_valid.mp left with rfl | rfl <;> decide
    · rcases three_valid.mp left with rfl | rfl <;> decide

/-- The generator, its opposite, and the generator once more as one times itself. -/
theorem run_meets_three : ∀ e ∈ run (fun _ => none)
    [.construct 0, .neg 1 0, .mulAssign 0 ⟨some (Vec32.ofValue 1), by decide⟩],
    e.Meets threeCurve := by
  apply (run_on_curve_iff threeCurve _).mpr
  intro e member infinite
  simp only [run, List.mem_cons, List.not_mem_nil, or_false] at member
  rcases member with rfl | rfl | rfl
  · exact infinite.elim
  · exact infinite.elim
  · obtain ⟨a, v, left, right, zero⟩ := infinite
    cases left
    cases right
    rw [nsmul_three] at zero
    exact absurd zero (by decide)

/-- The generator and its opposite are added: the zeros stay in the object, and
nobody is told. -/
theorem run_not_meets_three : ¬∀ e ∈ run (fun _ => none)
    [.construct 0, .neg 1 0, .addAssign 0 1], e.Meets threeCurve := by
  intro meets
  have third := meets _ (List.mem_cons_of_mem _ (List.mem_cons_of_mem _ List.mem_cons_self))
  have written := third.sound 0 Vec33.zero rfl
  exact absurd written (by decide)

end Point

end SidepoolFormal.M
