import SidepoolFormal.M.Numbers
import SidepoolFormal.M.PointValid
import Mathlib.Tactic.Abel

/-!
# Point objects hold finite points

The encoding of a finite point is unique, so that a valid object holds exactly
one.  What the member functions do to such objects is what the arithmetic does
to the points, but where an operator of the arithmetic refuses infinity: there
the client's function is called all the same, and nothing is thrown.
-/

namespace SidepoolFormal.M

open SerDe Library

/-! ## Reading 33 bytes -/

theorem each_reading (zeros bytes : List UInt8) :
    serializeU8.each (.reading bytes) zeros =
      if zeros.length ≤ bytes.length then
        .ok (.reading (bytes.drop zeros.length), bytes.take zeros.length)
      else .error .eof := by
  by_cases enough : zeros.length ≤ bytes.length
  · have taken : zeros.length = (bytes.take zeros.length).length := by simp; omega
    have read := (carries_bytes _ zeros taken).reads (bytes.drop zeros.length)
    rw [List.take_append_drop] at read
    rw [if_pos enough, read]
  · have padded : (bytes ++ List.replicate (zeros.length - bytes.length) 0).length =
        zeros.length := by simp; omega
    have short : bytes ≠ bytes ++ List.replicate (zeros.length - bytes.length) 0 := by
      intro same
      rw [← same] at padded
      omega
    have starved := (carries_bytes _ zeros padded.symm).starves bytes
      (List.prefix_append _ _) short
    rw [if_neg enough, starved]

theorem Point.readVec33_eq (bytes : List UInt8) :
    readVec33 (.reading bytes) =
      match Arithmetic.availablePt bytes with
      | some v => .ok v
      | none => .error .eof := by
  have read := each_reading Vec33.zero.1 bytes
  have width : Vec33.zero.1.length = 33 := Vec33.zero.2
  unfold readVec33 Arithmetic.availablePt
  by_cases enough : 33 ≤ bytes.length
  · rw [if_pos (by omega)] at read
    rw [dif_pos enough]
    split
    · rename_i e failed
      cases failed.symm.trans read
    · rename_i a l given
      cases given.symm.trans read
      rfl
  · rw [if_neg (by omega)] at read
    rw [dif_neg enough]
    split
    · rfl
    · rename_i a l given
      cases given.symm.trans read

/-- The client reads points as the format says, and each of them has one encoding. -/
structure Coded {math : PointMath} {E : Type} [AddCommGroup E] (curve : Curve math E)
    (format : Arithmetic.Format E) : Prop where
  generator : curve.point g = format.generator
  decode : ∀ v, format.decode v = if math.isValidPt v then some (curve.point v) else none
  unique : ∀ v, math.isValidPt v = true → format.encode (curve.point v) = v

namespace Arithmetic

/-! ## Objects and results -/

section

variable {E : Type} {format : Format E}

/-- The point has an encoding. -/
def Format.Encodes {E : Type} (format : Format E) (p : E) : Prop :=
  format.decode (format.encode p) = some p

/-- The object that holds a point. -/
def pointOf (format : Format E) (p : Option E) : Point := p.map format.encode

/-- The object, or the exception, that stands for a result. -/
def pointResult (format : Format E) (r : Except Point.Exn (Option E)) : Except Point.Exn Point :=
  r.map (pointOf format)

/-- The value is a point that has an encoding, if it is there. -/
def Live (format : Format E) (p : Option E) : Prop := ∀ e, p = some e → format.Encodes e

/-- A member function does what the arithmetic says, and gives a live object. -/
structure Agrees (format : Format E) (r : Except Point.Exn Point)
    (r' : Except Point.Exn (Option E)) : Prop where
  same : r = pointResult format r'
  live : ∀ p, r' = .ok p → Live format p

/-- So does an operator, but that it gives some object where the arithmetic refuses. -/
structure Follows (format : Format E) (r : Except Point.Exn Point)
    (r' : Except Point.Exn (Option E)) : Prop where
  refused : r' = .error .invalidPoint → ∃ p, r = .ok p
  agrees : r' ≠ .error .invalidPoint → Agrees format r r'

theorem Live.none : Live format (none : Option E) := fun _ absent => by cases absent

theorem Live.some {p : E} (encodes : format.Encodes p) : Live format (some p) :=
  fun _ same => Option.some.inj same ▸ encodes

theorem Agrees.error (e : Point.Exn) : Agrees format (.error e) (.error e) :=
  ⟨rfl, fun _ absurd => by cases absurd⟩

theorem Agrees.ok {p : Option E} (live : Live format p) :
    Agrees format (.ok (pointOf format p)) (.ok p) :=
  ⟨rfl, fun _ same => Except.ok.inj same ▸ live⟩

end

/-! ## The client's functions -/

section

variable {math : PointMath} {n : Nat} {E : Type} [AddCommGroup E]
variable {curve : Curve math E} {format : Format E} (coded : Coded curve format)

include coded

theorem decode_valid {v : Vec33} (valid : math.isValidPt v = true) :
    format.decode v = some (curve.point v) := by
  rw [coded.decode, if_pos valid]

theorem encodes_valid {v : Vec33} (valid : math.isValidPt v = true) :
    format.Encodes (curve.point v) := by
  rw [Format.Encodes, coded.unique v valid, decode_valid coded valid]

theorem valid_encode {p : E} (encodes : format.Encodes p) :
    math.isValidPt (format.encode p) = true ∧ curve.point (format.encode p) = p := by
  rw [Format.Encodes, coded.decode] at encodes
  split at encodes
  · rename_i valid
    exact ⟨valid, Option.some.inj encodes⟩
  · cases encodes

theorem encode_injective {p q : E} (left : format.Encodes p) (right : format.Encodes q) :
    format.encode p = format.encode q ↔ p = q := by
  constructor
  · intro same
    rw [← (valid_encode coded left).2, same, (valid_encode coded right).2]
  · exact fun same => same ▸ rfl

theorem generator_encode :
    format.encode format.generator = g ∧ format.Encodes format.generator := by
  rw [← coded.generator]
  exact ⟨coded.unique g curve.generator, encodes_valid coded curve.generator⟩

/-- Valid bytes that stand for a point are its encoding. -/
theorem encode_of_point {v : Vec33} {p : E} (valid : math.isValidPt v = true)
    (point : curve.point v = p) : v = format.encode p ∧ format.Encodes p := by
  subst point
  exact ⟨(coded.unique v valid).symm, encodes_valid coded valid⟩

theorem addPt_encode {p q : E} (left : format.Encodes p) (right : format.Encodes q)
    (result : p + q ≠ 0) :
    math.addPt (format.encode p) (format.encode q) = format.encode (p + q) ∧
      format.Encodes (p + q) := by
  obtain ⟨valid, point⟩ := valid_encode coded left
  obtain ⟨valid', point'⟩ := valid_encode coded right
  have sum := curve.add _ _ valid valid' (by rwa [point, point'])
  rw [point, point'] at sum
  exact encode_of_point coded sum.1 sum.2

theorem negatePt_encode {p : E} (encodes : format.Encodes p) :
    math.negatePt (format.encode p) = format.encode (-p) ∧ format.Encodes (-p) := by
  obtain ⟨valid, point⟩ := valid_encode coded encodes
  have opposite := curve.negate _ valid
  rw [point] at opposite
  exact encode_of_point coded opposite.1 opposite.2

theorem mulPt_encode (residues : Residues math.toMath n) {p : E} {k : ZMod n}
    (encodes : format.Encodes p) (result : k.val • p ≠ 0) :
    math.mulPt (format.encode p) (bytesOf k) = format.encode (k.val • p) ∧
      format.Encodes (k.val • p) := by
  obtain ⟨valid, point⟩ := valid_encode coded encodes
  have value := value_bytesOf residues k
  have product := curve.mul _ _ valid (valid_bytesOf residues k) (by rwa [point, value])
  rw [point, value] at product
  exact encode_of_point coded product.1 product.2

/-! ## Member functions that validate -/

omit coded [AddCommGroup E] in
theorem validated_eq (v : Vec33) :
    (do Point.Impl.validate math v; Except.ok v) = Point.Impl.setFromVec33 math v := by
  unfold Point.Impl.validate Point.Impl.setFromVec33
  split <;> rfl

/-- Something that was read and validated. -/
theorem Agrees.read {v : Vec33} {p : E} (valid : math.isValidPt v = true)
    (point : curve.point v = p) : Agrees format (.ok (some v)) (.ok (some p)) := by
  obtain ⟨rfl, encodes⟩ := encode_of_point coded valid point
  exact Agrees.ok (Live.some encodes)

theorem sound_pointOf {p : Option E} (live : Live format p) :
    Point.Sound math (pointOf format p) := by
  cases p with
  | none => exact Point.sound_none
  | some p => exact Point.sound_some.mpr (valid_encode coded (live p rfl)).1

theorem position_agrees (v : Vec33) :
    Agrees format ((Point.Impl.setFromVec33 math v).map some) ((position format v).map some) := by
  by_cases valid : math.isValidPt v = true
  · have there := decode_valid coded valid
    simp only [Point.Impl.setFromVec33, valid, position, there, Bool.not_true, Bool.false_eq_true,
      if_false, Except.map]
    exact Agrees.read coded valid rfl
  · have absent : format.decode v = none := by rw [coded.decode, if_neg valid]
    simp only [Point.Impl.setFromVec33, valid, position, absent, Bool.not_false, if_true,
      Except.map]
    exact Agrees.error _

theorem ofVec33_agrees (v : Vec33) :
    Agrees format (Point.ofVec33 math v) ((position format v).map some) := by
  rw [Point.ofVec33, Point.Impl.ofVec33, validated_eq]
  exact position_agrees coded v

theorem ofHex_agrees (hex : List UInt8) :
    Agrees format (Point.ofHex math hex) ((positionHex format hex).map some) := by
  rw [Point.ofHex, Point.Impl.ofHex.eq_def, positionHex.eq_def]
  cases String.parsehex hex with
  | error e => exact Agrees.error _
  | ok dat =>
      by_cases size : dat.length = 33
      · simp only [size, dite_true, validated_eq]
        exact position_agrees coded _
      · simp only [size, dite_false]
        exact Agrees.error _

theorem copy_agrees {p : Option E} (live : Live format p) :
    Agrees format (Point.copy math (pointOf format p)) (.ok p) := by
  rw [Point.copy_eq (sound_pointOf coded live)]
  exact Agrees.ok live

theorem assign_agrees (self : Option E) {p : Option E} (live : Live format p) :
    Agrees format (Point.assign math (pointOf format self) (pointOf format p)) (.ok p) := by
  cases self with
  | none =>
      have copied := copy_agrees coded live
      cases p <;> exact copied
  | some self =>
      cases p with
      | none => exact Agrees.ok live
      | some p => exact Agrees.ok live

theorem setFromVec33_agrees (self : Option E) (v : Vec33) :
    Agrees format (Point.setFromVec33 math (pointOf format self) v)
      (unary .assertion (fun _ => position format v) self) := by
  cases self with
  | none => exact Agrees.error _
  | some self => exact position_agrees coded v

theorem deserialize_agrees (self : Option E) (bytes : List UInt8) :
    Agrees format (Point.deserialize math (pointOf format self) (.reading bytes))
      (match availablePt bytes with
        | none => .error .eof
        | some v => unary .assertion (fun _ => position format v) self) := by
  rw [Point.deserialize, Point.readVec33_eq]
  cases availablePt bytes with
  | none => exact Agrees.error _
  | some v => exact setFromVec33_agrees coded self v

theorem negate_agrees {p : Option E} (live : Live format p) :
    Agrees format (Point.negate math (pointOf format p))
      (unary .assertion (fun p => .ok (-p)) p) := by
  cases p with
  | none => exact Agrees.error _
  | some p =>
      obtain ⟨same, encodes⟩ := negatePt_encode coded (live p rfl)
      refine ⟨congrArg (fun v => Except.ok (some v)) same, fun _ given => ?_⟩
      cases given
      exact Live.some encodes

theorem neg_agrees {p : Option E} (live : Live format p) :
    Agrees format (Point.neg math (pointOf format p))
      (unary .assertion (fun p => .ok (-p)) p) := by
  rw [Point.neg, Point.copy_eq (sound_pointOf coded live)]
  exact negate_agrees coded live

/-! ## Operators -/

section

variable [DecidableEq E]

omit coded in
/-- A result that is written where it is finite. -/
theorem Follows.result {v : Vec33} {p : E}
    (finite : p ≠ 0 → v = format.encode p ∧ format.Encodes p) :
    Follows format (.ok (some v)) ((Arithmetic.finite p).map some) := by
  by_cases zero : p = 0
  · rw [Arithmetic.finite, if_pos zero]
    exact ⟨fun _ => ⟨_, rfl⟩, fun other => absurd rfl other⟩
  · obtain ⟨rfl, encodes⟩ := finite zero
    rw [Arithmetic.finite, if_neg zero]
    exact ⟨fun refused => (by cases refused), fun _ => Agrees.ok (Live.some encodes)⟩

omit coded [AddCommGroup E] [DecidableEq E] in
theorem Follows.error {e : Point.Exn} (other : e ≠ .invalidPoint) :
    Follows format (.error e) (.error e) :=
  ⟨fun same => absurd (Except.error.inj same) other, fun _ => Agrees.error e⟩

theorem addAssign_follows {p q : Option E} (left : Live format p) (right : Live format q) :
    Follows format (Point.addAssign math (pointOf format p) (pointOf format q))
      (binary .assertion (fun p q => finite (p + q)) p q) := by
  cases p with
  | none => exact Follows.error (by simp)
  | some p =>
      cases q with
      | none => exact Follows.error (by simp)
      | some q =>
          exact Follows.result fun result =>
            addPt_encode coded (left p rfl) (right q rfl) result

theorem mulAssign_follows (residues : Residues math.toMath n) {p : Option E}
    (live : Live format p) (k : Option (ZMod n)) :
    Follows format (Point.mulAssign math (pointOf format p) (scalarOf k)) (scaled p k) := by
  cases p with
  | none => exact Follows.error (by simp)
  | some p =>
      cases k with
      | none => exact Follows.error (by simp)
      | some k =>
          exact Follows.result fun result => mulPt_encode coded residues (live p rfl) result

theorem plus_follows {p q : Option E} (left : Live format p) (right : Live format q) :
    Follows format (Point.plus math (pointOf format p) (pointOf format q))
      (binary .assertion (fun p q => finite (p + q)) p q) := by
  rw [Point.plus_eq (sound_pointOf coded left)]
  exact addAssign_follows coded left right

theorem times_follows (residues : Residues math.toMath n) {p : Option E}
    (live : Live format p) (k : Option (ZMod n)) :
    Follows format (Point.times math (pointOf format p) (scalarOf k)) (scaled p k) := by
  rw [Point.times_eq (sound_pointOf coded live)]
  exact mulAssign_follows coded residues live k

omit [DecidableEq E] in
/-- An operator that takes away adds the opposite. -/
theorem neg_pointOf {q : E} (encodes : format.Encodes q) :
    Point.neg math (pointOf format (some q)) = .ok (pointOf format (some (-q))) ∧
      Live format (some (-q)) := by
  have opposite := neg_agrees coded (Live.some encodes)
  exact ⟨opposite.same, opposite.live _ rfl⟩

theorem subAssign_follows {p q : Option E} (left : Live format p) (right : Live format q) :
    Follows format (Point.subAssign math (pointOf format p) (pointOf format q))
      (binary .assertion (fun p q => finite (p - q)) p q) := by
  cases q with
  | none => cases p <;> exact Follows.error (by simp)
  | some q =>
      obtain ⟨opposite, live⟩ := neg_pointOf coded (right q rfl)
      rw [Point.subAssign, opposite]
      simpa only [binary, sub_eq_add_neg] using! addAssign_follows coded left live

theorem minus_follows {p q : Option E} (left : Live format p) (right : Live format q) :
    Follows format (Point.minus math (pointOf format p) (pointOf format q))
      (binary .assertion (fun p q => finite (p - q)) p q) := by
  cases q with
  | none => cases p <;> exact Follows.error (by simp)
  | some q =>
      obtain ⟨opposite, live⟩ := neg_pointOf coded (right q rfl)
      rw [Point.minus, opposite]
      have added := addAssign_follows coded live left
      cases p with
      | none => exact added
      | some p =>
          have same : p - q = -q + p := by abel
          simp only [binary, Arithmetic.live, bind, Except.bind, same] at added ⊢
          exact added

end

end

end Arithmetic

end SidepoolFormal.M
