import SidepoolFormal.M.Positions

/-!
# Comparisons

The loops of the comparisons go over all bytes, whatever these are, and find
out whether any two of them differ, or whether any of them is set.  Numbers and
points have one encoding each, so that this is what their comparison is.
-/

namespace SidepoolFormal.M

open SerDe Library

/-! ## Bytes that are looked at -/

theorem syndrome_eq_zero {vec o : List UInt8} (width : vec.length = o.length) (acc : UInt8) :
    (vec.zip o).foldl (fun syndrome b => syndrome ||| (b.1 ^^^ b.2)) acc = 0 ↔
      acc = 0 ∧ vec = o := by
  induction vec generalizing o acc with
  | nil => simp [List.length_eq_zero_iff.mp width.symm]
  | cons b rest ih =>
      cases o with
      | nil => cases width
      | cons c o =>
          rw [List.zip_cons_cons, List.foldl_cons, ih (Nat.succ.inj width), UInt8.or_eq_zero_iff,
            UInt8.xor_eq_zero_iff, List.cons.injEq, and_assoc]

theorem isnonzero_foldl (vec : List UInt8) (acc : UInt8) :
    vec.foldl (fun syndrome b => syndrome ||| b) acc = 0 ↔ acc = 0 ∧ ∀ b ∈ vec, b = 0 := by
  induction vec generalizing acc with
  | nil => simp
  | cons b rest ih => simp [ih, UInt8.or_eq_zero_iff, and_assoc]

theorem Impl.eq_iff (vec o : Vec32) : Impl.eq vec o = decide (vec = o) := by
  have looked := syndrome_eq_zero (vec.2.trans o.2.symm) 0
  simp only [Impl.eq, syndrome, beq_eq_decide, looked, true_and, Subtype.ext_iff]

theorem Point.Impl.eq_iff (vec o : Vec33) : Point.Impl.eq vec o = decide (vec = o) := by
  have looked := syndrome_eq_zero (vec.2.trans o.2.symm) 0
  simp only [Point.Impl.eq, syndrome, beq_eq_decide, looked, true_and, Subtype.ext_iff]

theorem Impl.isnonzero_iff (vec : Vec32) : Impl.isnonzero vec = decide (vec ≠ Vec32.zero) := by
  have zeros : (∀ b ∈ vec.1, b = 0) ↔ vec = Vec32.zero := by
    rw [Subtype.ext_iff, Vec32.zero, List.eq_replicate_iff]
    exact ⟨fun all => ⟨vec.2, all⟩, fun same => same.2⟩
  have looked := isnonzero_foldl vec.1 0
  simp only [true_and, zeros] at looked
  simp only [Impl.isnonzero, bne, beq_eq_decide, looked, ne_eq, decide_not]

theorem each_writing (done l : List UInt8) :
    serializeU8.each (.writing done) l = .ok (.writing (done ++ l), l) :=
  (carries_bytes l l rfl).writes done

namespace Arithmetic

open Program (Thrown Outcome)

section

variable {math : PointMath} {n : Nat} {E : Type} [AddCommGroup E] [DecidableEq E]
variable {curve : Curve math E} {format : Format E}

/-! ## Comparisons of what is encoded -/

section

variable (residues : Residues math.toMath n)

include residues

theorem equal_scalarOf (k l : Option (ZMod n)) :
    ((Scalar.equal (scalarOf k) (scalarOf l)).mapError Sum.inl).map some =
      (compared (.inl .assertion) (fun a b => decide (a = b)) k l : Outcome) := by
  cases k with
  | none => rfl
  | some k =>
      cases l with
      | none => rfl
      | some l =>
          have same : Impl.eq (bytesOf k) (bytesOf l) = decide (k = l) := by
            rw [Impl.eq_iff]
            exact decide_eq_decide.mpr (bytesOf_injective residues)
          exact congrArg (fun b => Except.ok (some b)) same

theorem notEqual_scalarOf (k l : Option (ZMod n)) :
    ((Scalar.notEqual (scalarOf k) (scalarOf l)).mapError Sum.inl).map some =
      (compared (.inl .assertion) (fun a b => decide (a ≠ b)) k l : Outcome) := by
  cases k with
  | none => rfl
  | some k =>
      cases l with
      | none => rfl
      | some l =>
          have other : (!Impl.eq (bytesOf k) (bytesOf l)) = decide (k ≠ l) := by
            rw [Impl.eq_iff, decide_not]
            exact congrArg not (decide_eq_decide.mpr (bytesOf_injective residues))
          exact congrArg (fun b => Except.ok (some b)) other

theorem nonzero_scalarOf (k : Option (ZMod n)) :
    ((Scalar.nonzero (scalarOf k)).mapError Sum.inl).map some =
      (asked (.inl .assertion) (fun a => decide (a ≠ 0)) k : Outcome) := by
  cases k with
  | none => rfl
  | some k =>
      have set : Impl.isnonzero (bytesOf k) = decide (k ≠ 0) := by
        rw [Impl.isnonzero_iff, ← bytesOf_zero residues]
        exact decide_eq_decide.mpr (not_congr (bytesOf_injective residues))
      exact congrArg (fun b => Except.ok (some b)) set

theorem zero_scalarOf (k : Option (ZMod n)) :
    ((Scalar.zero (scalarOf k)).mapError Sum.inl).map some =
      (asked (.inl .assertion) (fun a => decide (a = 0)) k : Outcome) := by
  cases k with
  | none => rfl
  | some k =>
      have unset : (!Impl.isnonzero (bytesOf k)) = decide (k = 0) := by
        rw [Impl.isnonzero_iff, ← bytesOf_zero residues, decide_not, Bool.not_not]
        exact decide_eq_decide.mpr (bytesOf_injective residues)
      exact congrArg (fun b => Except.ok (some b)) unset

end

section

variable (coded : Coded curve format)

include coded

theorem equal_pointOf {p q : Option E} (left : Live format p) (right : Live format q) :
    ((Point.equal (pointOf format p) (pointOf format q)).mapError Sum.inr).map some =
      (compared (.inr .assertion) (fun p q => decide (p = q)) p q : Outcome) := by
  cases p with
  | none => rfl
  | some p =>
      cases q with
      | none => rfl
      | some q =>
          have same : Point.Impl.eq (format.encode p) (format.encode q) = decide (p = q) := by
            rw [Point.Impl.eq_iff]
            exact decide_eq_decide.mpr (encode_injective coded (left p rfl) (right q rfl))
          exact congrArg (fun b => Except.ok (some b)) same

theorem notEqual_pointOf {p q : Option E} (left : Live format p) (right : Live format q) :
    ((Point.notEqual (pointOf format p) (pointOf format q)).mapError Sum.inr).map some =
      (compared (.inr .assertion) (fun p q => decide (p ≠ q)) p q : Outcome) := by
  cases p with
  | none => rfl
  | some p =>
      cases q with
      | none => rfl
      | some q =>
          have injective := encode_injective coded (left p rfl) (right q rfl)
          have other : (!Point.Impl.eq (format.encode p) (format.encode q)) = decide (p ≠ q) := by
            rw [Point.Impl.eq_iff, decide_not]
            exact congrArg not (decide_eq_decide.mpr injective)
          exact congrArg (fun b => Except.ok (some b)) other

end

end

end Arithmetic

end SidepoolFormal.M
