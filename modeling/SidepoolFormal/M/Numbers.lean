import SidepoolFormal.M.Arithmetic
import Mathlib.Tactic.Ring

/-!
# Scalar objects hold numbers

A valid scalar is the big-endian form of a number below the order, and there is
one for each.  What the member functions do to such objects is what the
arithmetic does to the numbers; only the setter does not look at what it is
offered.
-/

namespace SidepoolFormal.M

open SerDe Library

/-! ## Big-endian numbers -/

theorem bigEndian_concat (l : List UInt8) (b : UInt8) :
    bigEndian (l ++ [b]) = bigEndian l * 256 + b.toNat := by
  simp [bigEndian]

theorem toBytes_bigEndian (l : List UInt8) : toBytes l.length (bigEndian l) = l := by
  induction l using List.reverseRecOn with
  | nil => rfl
  | append_singleton l b ih =>
      have low := b.toNat_lt
      have high : (bigEndian l * 256 + b.toNat) / 256 = bigEndian l := by omega
      have last : UInt8.ofNat (bigEndian l * 256 + b.toNat) = b := by
        apply UInt8.toNat_inj.mp
        simp only [UInt8.toNat_ofNat']
        omega
      rw [bigEndian_concat, List.length_append, List.length_singleton, toBytes, high, last, ih]

theorem Vec32.ofValue_value (v : Vec32) : Vec32.ofValue v.value = v := by
  obtain ⟨l, long⟩ := v
  apply Subtype.ext
  show toBytes 32 (bigEndian l) = l
  rw [← long]
  exact toBytes_bigEndian l

theorem Vec32.value_injective {v w : Vec32} (same : v.value = w.value) : v = w := by
  rw [← v.ofValue_value, same, w.ofValue_value]

/-- The client computes modulo `n` with big-endian numbers of 256 bits. -/
structure Residues (math : Math) (n : Nat) : Prop where
  pos : 0 < n
  fits : n ≤ 256 ^ 32
  valid : ∀ v, math.isValid v = true ↔ v.value < n
  add : ∀ a b, math.isValid a = true → math.isValid b = true →
    (math.add a b).value = (a.value + b.value) % n
  negate : ∀ a, math.isValid a = true → (math.negate a).value = (n - a.value) % n
  mul : ∀ a b, math.isValid a = true → math.isValid b = true →
    (math.mul a b).value = a.value * b.value % n

theorem secp_residues : Residues secp groupOrder where
  pos := Nat.pos_of_ne_zero (by unfold groupOrder; simp)
  fits := Nat.le_of_lt groupOrder_lt
  valid v := by simp [secp]
  add _ _ _ _ := Vec32.value_ofValue (Nat.lt_trans (Nat.mod_lt _ (by decide)) groupOrder_lt)
  negate _ _ := Vec32.value_ofValue (Nat.lt_trans (Nat.mod_lt _ (by decide)) groupOrder_lt)
  mul _ _ _ _ := Vec32.value_ofValue (Nat.lt_trans (Nat.mod_lt _ (by decide)) groupOrder_lt)

namespace Arithmetic

section

variable {math : Math} {n : Nat} (residues : Residues math n)

include residues

theorem value_bytesOf (k : ZMod n) : (bytesOf k).value = k.val := by
  have := NeZero.of_pos residues.pos
  exact Vec32.value_ofValue (Nat.lt_of_lt_of_le k.val_lt residues.fits)

theorem valid_bytesOf (k : ZMod n) : math.isValid (bytesOf k) = true := by
  have := NeZero.of_pos residues.pos
  rw [residues.valid, value_bytesOf residues]
  exact k.val_lt

/-- Valid bytes are those of the number that they stand for. -/
theorem bytesOf_value {v : Vec32} (valid : math.isValid v = true) :
    bytesOf (v.value : ZMod n) = v := by
  rw [bytesOf, ZMod.val_natCast_of_lt ((residues.valid v).mp valid), Vec32.ofValue_value]

theorem bytesOf_injective {k l : ZMod n} : bytesOf k = bytesOf l ↔ k = l := by
  have := NeZero.of_pos residues.pos
  constructor
  · intro same
    apply ZMod.val_injective n
    rw [← value_bytesOf residues k, same, value_bytesOf residues]
  · exact fun same => same ▸ rfl

theorem bytesOf_zero : bytesOf (0 : ZMod n) = Vec32.zero := by
  have := NeZero.of_pos residues.pos
  apply Vec32.value_injective
  rw [value_bytesOf residues, ZMod.val_zero]
  decide

theorem add_bytesOf (k l : ZMod n) : math.add (bytesOf k) (bytesOf l) = bytesOf (k + l) := by
  have := NeZero.of_pos residues.pos
  apply Vec32.value_injective
  rw [residues.add _ _ (valid_bytesOf residues k) (valid_bytesOf residues l)]
  simp only [value_bytesOf residues, ZMod.val_add]

theorem negate_bytesOf (k : ZMod n) : math.negate (bytesOf k) = bytesOf (-k) := by
  have := NeZero.of_pos residues.pos
  apply Vec32.value_injective
  rw [residues.negate _ (valid_bytesOf residues k)]
  simp only [value_bytesOf residues, ZMod.neg_val']

theorem mul_bytesOf (k l : ZMod n) : math.mul (bytesOf k) (bytesOf l) = bytesOf (k * l) := by
  have := NeZero.of_pos residues.pos
  apply Vec32.value_injective
  rw [residues.mul _ _ (valid_bytesOf residues k) (valid_bytesOf residues l)]
  simp only [value_bytesOf residues, ZMod.val_mul]

/-! ## Member functions -/

/-- The object that holds a number. -/
def scalarOf (k : Option (ZMod n)) : Scalar := k.map bytesOf

/-- The object, or the exception, that stands for a result. -/
def scalarResult (r : Except Exn (Option (ZMod n))) : Except Exn Scalar := r.map scalarOf

omit residues in
theorem holding {v w : Vec32} (same : v = w) :
    (.ok (some v) : Except Exn Scalar) = .ok (some w) := same ▸ rfl

theorem validate_bytesOf (k : ZMod n) : Impl.validate math (bytesOf k) = .ok () := by
  simp [Impl.validate, valid_bytesOf residues k]

theorem ofVec32_eq (v : Vec32) : Scalar.ofVec32 math v = scalarResult ((number n v).map some) := by
  by_cases valid : math.isValid v = true
  · have below := (residues.valid v).mp valid
    have kept := bytesOf_value residues valid
    simp [Scalar.ofVec32, Impl.ofVec32, Impl.validate, valid, number, below, scalarResult,
      scalarOf, kept, Except.map, bind, Except.bind]
  · have above : ¬v.value < n := fun below => valid ((residues.valid v).mpr below)
    simp [Scalar.ofVec32, Impl.ofVec32, Impl.validate, valid, number, above, scalarResult,
      Except.map, bind, Except.bind]

theorem copy_scalarOf (k : Option (ZMod n)) : Scalar.copy math (scalarOf k) = .ok (scalarOf k) := by
  cases k with
  | none => rfl
  | some k =>
      simp [scalarOf, Scalar.copy, Impl.copy, validate_bytesOf residues k, bind, Except.bind,
        Except.map]

theorem assign_scalarOf (self k : Option (ZMod n)) :
    Scalar.assign math (scalarOf self) (scalarOf k) = .ok (scalarOf k) := by
  cases self with
  | none =>
      cases k with
      | none => rfl
      | some k => exact copy_scalarOf residues (some k)
  | some self => cases k <;> rfl

/-- What the setter is offered must stand for a number, for nobody looks. -/
theorem setFromVec32_scalarOf (self : Option (ZMod n)) {v : Vec32}
    (offered : self ≠ none → v.value < n) :
    Scalar.setFromVec32 math (scalarOf self) v =
      scalarResult (unary .assertion (fun _ => number n v) self) := by
  cases self with
  | none => rfl
  | some k =>
      have below := offered (by simp)
      have kept := bytesOf_value residues ((residues.valid v).mpr below)
      rw [scalarOf, Option.map_some, Scalar.setFromVec32_eq (valid_bytesOf residues k)]
      simp [unary, live, number, below, scalarResult, scalarOf, kept, bind, Except.bind, Except.map]

theorem addAssign_scalarOf (k l : Option (ZMod n)) :
    Scalar.addAssign math (scalarOf k) (scalarOf l) =
      scalarResult (binary .assertion (fun a b => .ok (a + b)) k l) := by
  cases k with
  | none => rfl
  | some k =>
      cases l with
      | none => rfl
      | some l => exact holding (add_bytesOf residues k l)

theorem mulAssign_scalarOf (k l : Option (ZMod n)) :
    Scalar.mulAssign math (scalarOf k) (scalarOf l) =
      scalarResult (binary .assertion (fun a b => .ok (a * b)) k l) := by
  cases k with
  | none => rfl
  | some k =>
      cases l with
      | none => rfl
      | some l => exact holding (mul_bytesOf residues k l)

theorem negate_scalarOf (k : Option (ZMod n)) :
    Scalar.negate math (scalarOf k) = scalarResult (unary .assertion (fun a => .ok (-a)) k) := by
  cases k with
  | none => rfl
  | some k => exact holding (negate_bytesOf residues k)

theorem neg_scalarOf (k : Option (ZMod n)) :
    Scalar.neg math (scalarOf k) = scalarResult (unary .assertion (fun a => .ok (-a)) k) := by
  rw [Scalar.neg, copy_scalarOf residues]
  exact negate_scalarOf residues k

theorem plus_scalarOf (k l : Option (ZMod n)) :
    Scalar.plus math (scalarOf k) (scalarOf l) =
      scalarResult (binary .assertion (fun a b => .ok (a + b)) k l) := by
  rw [Scalar.plus, copy_scalarOf residues]
  exact addAssign_scalarOf residues k l

theorem times_scalarOf (k l : Option (ZMod n)) :
    Scalar.times math (scalarOf k) (scalarOf l) =
      scalarResult (binary .assertion (fun a b => .ok (a * b)) k l) := by
  rw [Scalar.times, copy_scalarOf residues]
  exact mulAssign_scalarOf residues k l

theorem subAssign_scalarOf (k l : Option (ZMod n)) :
    Scalar.subAssign math (scalarOf k) (scalarOf l) =
      scalarResult (binary .assertion (fun a b => .ok (a - b)) k l) := by
  rw [Scalar.subAssign, neg_scalarOf residues]
  cases l with
  | none => cases k <;> rfl
  | some l =>
      refine (addAssign_scalarOf residues k (some (-l))).trans ?_
      simp only [binary, sub_eq_add_neg, live, bind, Except.bind]

theorem minus_scalarOf (k l : Option (ZMod n)) :
    Scalar.minus math (scalarOf k) (scalarOf l) =
      scalarResult (binary .assertion (fun a b => .ok (a - b)) k l) := by
  rw [Scalar.minus, neg_scalarOf residues]
  cases l with
  | none => cases k <;> rfl
  | some l =>
      refine (addAssign_scalarOf residues (some (-l)) k).trans ?_
      cases k with
      | none => rfl
      | some k =>
          have same : -l + k = k - l := by ring
          exact congrArg (fun k => scalarResult (.ok (some k))) same

/-! ## Operations -/

/-- The objects that hold the numbers. -/
def scalarsOf (s : Values (ZMod n)) : Store := fun x => scalarOf (s x)

omit residues in
theorem scalarsOf_update (s : Values (ZMod n)) (x : Nat) (k : Option (ZMod n)) :
    scalarsOf (Function.update s x k) = Function.update (scalarsOf s) x (scalarOf k) :=
  funext fun z => Function.apply_update (fun _ => scalarOf) s x k z

theorem scalarsOf_sound (s : Values (ZMod n)) : Store.Sound math (scalarsOf s) := by
  intro x v holds
  obtain ⟨k, -, rfl⟩ := Option.map_eq_some_iff.mp holds
  exact valid_bytesOf residues k

omit residues in
theorem put_scalarsOf (s : Values (ZMod n)) (x : Nat) (r : Except Exn (Option (ZMod n))) :
    (scalarsOf s).put x (scalarResult r) = ((s.put x r).1, scalarsOf (s.put x r).2) := by
  cases r with
  | error e => rfl
  | ok k => exact congrArg (Prod.mk _) (scalarsOf_update s x k).symm

omit residues in
theorem move_scalarsOf (s : Values (ZMod n)) (x y : Nat) :
    Function.update (Function.update (scalarsOf s) y none) x (scalarsOf s y) =
      scalarsOf (s.move x y) := by
  simp only [Values.move, scalarsOf_update]
  rfl

/-- A number is never asked for and not there: what is offered to it is one. -/
def Offered (s : Values (ZMod n)) (op : Op) : Prop :=
  ∀ x v, Offers (scalarsOf s) op x v → v.value < n

theorem exec_scalarsOf {s : Values (ZMod n)} {op : Op} (offered : Offered s op) :
    M.exec math (scalarsOf s) op = ((onNumbers s op).1, scalarsOf (onNumbers s op).2) := by
  have there {x : Nat} (here : s x ≠ none) : scalarsOf s x ≠ none := by
    simpa [scalarsOf, scalarOf] using here
  have put {x : Nat} {r : Except Exn Scalar} (r' : Except Exn (Option (ZMod n)))
      (same : r = scalarResult r') :
      (scalarsOf s).put x r = ((s.put x r').1, scalarsOf (s.put x r').2) := by
    rw [same, put_scalarsOf]
  cases op with
  | construct x =>
      exact put (.ok (some 0)) (holding (bytesOf_zero residues).symm)
  | constructVec32 x v => exact put _ (ofVec32_eq residues v)
  | copy x y => exact put _ (copy_scalarOf residues (s y))
  | move x y => exact congrArg (Prod.mk _) (move_scalarsOf s x y)
  | destroy x => exact put (.ok none) rfl
  | assign x y => exact put _ (assign_scalarOf residues (s x) (s y))
  | moveAssign x y => exact congrArg (Prod.mk _) (move_scalarsOf s x y)
  | setFromVec32 x v =>
      refine put _ (setFromVec32_scalarOf residues (s x) fun here => ?_)
      exact offered x v ⟨there here, .inl rfl⟩
  | deserialize x bytes =>
      refine put _ ?_
      rw [Scalar.deserialize_eq]
      cases front : available bytes with
      | none => rfl
      | some v =>
          refine setFromVec32_scalarOf residues (s x) fun here => ?_
          exact offered x v ⟨there here, .inr ⟨bytes, rfl, front⟩⟩
  | addAssign x y => exact put _ (addAssign_scalarOf residues (s x) (s y))
  | subAssign x y => exact put _ (subAssign_scalarOf residues (s x) (s y))
  | mulAssign x y => exact put _ (mulAssign_scalarOf residues (s x) (s y))
  | negate x => exact put _ (negate_scalarOf residues (s x))
  | plus z x y => exact put _ (plus_scalarOf residues (s x) (s y))
  | neg z x => exact put _ (neg_scalarOf residues (s x))
  | minus z x y => exact put _ (minus_scalarOf residues (s x) (s y))
  | times z x y => exact put _ (times_scalarOf residues (s x) (s y))

end

end Arithmetic

end SidepoolFormal.M
