import SidepoolFormal.M.Scalar

/-!
# The scalars of SECP256K1

The arithmetic that a client's `Math` is expected to provide: big-endian
numbers below the group order.
-/

namespace SidepoolFormal.M

/-- The client's arithmetic maps valid scalars to valid scalars. -/
structure Math.Closed (math : Math) : Prop where
  zero : math.isValid Vec32.zero = true
  add : ∀ a b, math.isValid a = true → math.isValid b = true → math.isValid (math.add a b) = true
  negate : ∀ a, math.isValid a = true → math.isValid (math.negate a) = true
  mul : ∀ a b, math.isValid a = true → math.isValid b = true → math.isValid (math.mul a b) = true

def groupOrder : Nat := 0xFFFFFFFFFFFFFFFFFFFFFFFFFFFFFFFEBAAEDCE6AF48A03BBFD25E8CD0364141

def bigEndian (bytes : List UInt8) : Nat := bytes.foldl (fun acc b => acc * 256 + b.toNat) 0

def toBytes : Nat → Nat → List UInt8
  | 0, _ => []
  | width + 1, n => toBytes width (n / 256) ++ [UInt8.ofNat n]

theorem length_toBytes (width n : Nat) : (toBytes width n).length = width := by
  induction width generalizing n with
  | zero => rfl
  | succ width ih => simp [toBytes, ih]

theorem bigEndian_toBytes (width n : Nat) (h : n < 256 ^ width) :
    bigEndian (toBytes width n) = n := by
  induction width generalizing n with
  | zero =>
      have zero : n = 0 := by simpa using h
      simp [zero, toBytes, bigEndian]
  | succ width ih =>
      have high : n / 256 < 256 ^ width := by
        rw [Nat.pow_succ] at h
        omega
      have rest := ih (n / 256) high
      unfold bigEndian at rest
      simp [toBytes, bigEndian, rest]
      omega

def Vec32.value (v : Vec32) : Nat := bigEndian v.1

def Vec32.ofValue (n : Nat) : Vec32 := ⟨toBytes 32 n, length_toBytes 32 n⟩

theorem Vec32.value_ofValue {n : Nat} (h : n < 256 ^ 32) : (Vec32.ofValue n).value = n :=
  bigEndian_toBytes 32 n h

theorem groupOrder_lt : groupOrder < 256 ^ 32 := by decide

def secp : Math where
  isValid v := decide (v.value < groupOrder)
  add a b := Vec32.ofValue ((a.value + b.value) % groupOrder)
  negate a := Vec32.ofValue ((groupOrder - a.value) % groupOrder)
  mul a b := Vec32.ofValue (a.value * b.value % groupOrder)

theorem secp_isValid_mod (n : Nat) : secp.isValid (Vec32.ofValue (n % groupOrder)) = true := by
  have small : n % groupOrder < groupOrder :=
    Nat.mod_lt _ (Nat.pos_of_ne_zero (by unfold groupOrder; simp))
  have fits := Nat.lt_trans small groupOrder_lt
  simp only [secp, decide_eq_true_eq, Vec32.value_ofValue fits]
  exact small

theorem secp_closed : secp.Closed where
  zero := by decide
  add _ _ _ _ := secp_isValid_mod _
  negate _ _ := secp_isValid_mod _
  mul _ _ _ _ := secp_isValid_mod _

end SidepoolFormal.M
