import SidepoolFormal.Crypto.SHA256
import SidepoolFormal.Library.Sha256
import Mathlib.Tactic.IntervalCases

/-!
# The block function

`SHA256_Transform` keeps the working variables where they are and turns the
indices instead, and fills the schedule in the same array sixteen words at a
time.  It computes the compression function, over any scratch memory.
-/

namespace SidepoolFormal.Crypto.SHA256

open Library

/-! ## Words -/

theorem ch_eq (x y z : UInt32) : ch x y z = Sha256.choose x y z := by
  apply UInt32.toBitVec_inj.mp
  ext i inside
  simp only [ch, Sha256.choose, UInt32.toBitVec_xor, UInt32.toBitVec_and, UInt32.toBitVec_not,
    BitVec.getElem_xor, BitVec.getElem_and, BitVec.getElem_not]
  cases x.toBitVec[i] <;> cases y.toBitVec[i] <;> cases z.toBitVec[i] <;> rfl

theorem maj_eq (x y z : UInt32) : maj x y z = Sha256.majority x y z := by
  apply UInt32.toBitVec_inj.mp
  ext i inside
  simp only [maj, Sha256.majority, UInt32.toBitVec_xor, UInt32.toBitVec_and, UInt32.toBitVec_or,
    BitVec.getElem_xor, BitVec.getElem_and, BitVec.getElem_or]
  cases x.toBitVec[i] <;> cases y.toBitVec[i] <;> cases z.toBitVec[i] <;> rfl

theorem loadAt_eq (src : List UInt8) (i : Nat) : loadAt src (i * 4) = Sha256.wordOf src i := by
  simp [loadAt, load32BE, Sha256.wordOf, Sha256.beWord, Nat.mul_comm]

theorem store32BE_eq (w : UInt32) : store32BE w = Sha256.beBytes w := by
  simp [store32BE, Sha256.beBytes]

theorem store64BE_eq (bits : UInt64) : store64BE bits = Sha256.lengthBytes bits := rfl

/-- The table is the one of the specification. -/
theorem read_krnd (t : Nat) : Cells.read krnd t = Sha256.constants.getD t 0 := by
  have table : krnd.toList = Sha256.constants := by decide +kernel
  rw [Cells.read, table]
  rfl

/-! ## Rounds -/

/-- The working variables, of which the first stands at index `p`. -/
def view (S : Words8) (p : Nat) : Sha256.Work where
  a := Cells.read S (p % 8)
  b := Cells.read S ((p + 1) % 8)
  c := Cells.read S ((p + 2) % 8)
  d := Cells.read S ((p + 3) % 8)
  e := Cells.read S ((p + 4) % 8)
  f := Cells.read S ((p + 5) % 8)
  g := Cells.read S ((p + 6) % 8)
  h := Cells.read S ((p + 7) % 8)

theorem bigS0_eq : bigS0 = Sha256.bigSigma0 := rfl

theorem bigS1_eq : bigS1 = Sha256.bigSigma1 := rfl

section Round

variable (S : Words8) {a b c d e f g h : Nat} (k : UInt32)

/-- What a round adds to the elements at `h` and `d`. -/
def added (e f g h : Nat) : UInt32 :=
  Cells.read S h +
    (bigS1 (Cells.read S e) + ch (Cells.read S e) (Cells.read S f) (Cells.read S g) + k)

/-- Only two elements are written. -/
theorem read_rnd (hb : h < 8) (db : d < 8) (apart : ∀ j ∈ [a, b, c], h ≠ j ∧ d ≠ j) (hd : h ≠ d)
    (j : Nat) :
    Cells.read (rnd S a b c d e f g h k) j =
      if h = j then
        added S k e f g h +
          (bigS0 (Cells.read S a) + maj (Cells.read S a) (Cells.read S b) (Cells.read S c))
      else if d = j then Cells.read S d + added S k e f g h else Cells.read S j := by
  simp only [List.mem_cons, List.not_mem_nil, or_false, forall_eq_or_imp, forall_eq] at apart
  obtain ⟨⟨ha, da⟩, ⟨hb', db'⟩, hc, dc⟩ := apart
  simp only [rnd, added, Cells.read_write _ hb, Cells.read_write _ db, ha, da, hb', db', hc, dc, hd,
    hd.symm, if_true, if_false]
  by_cases atH : h = j
  · simp only [atH, if_true]
  · simp only [atH, if_false]

end Round

/-- After a round the first of the working variables stands where the last one
has been. -/
theorem view_rnd (S : Words8) (p : Nat) (k w : UInt32) :
    view (rnd S (p % 8) ((p + 1) % 8) ((p + 2) % 8) ((p + 3) % 8) ((p + 4) % 8) ((p + 5) % 8)
        ((p + 6) % 8) ((p + 7) % 8) (w + k)) (p + 7) =
      Sha256.round (view S p) k w := by
  have eight (n : Nat) : n % 8 < 8 := Nat.mod_lt n (by decide)
  have apart : ∀ j ∈ [p % 8, (p + 1) % 8, (p + 2) % 8], (p + 7) % 8 ≠ j ∧ (p + 3) % 8 ≠ j := by
    intro j member
    simp only [List.mem_cons, List.not_mem_nil, or_false] at member
    omega
  have read := read_rnd S (e := (p + 4) % 8) (f := (p + 5) % 8) (g := (p + 6) % 8) (w + k)
    (eight (p + 7)) (eight (p + 3)) apart (by omega)
  have kept (j : Nat) (neH : (p + 7) % 8 ≠ j) (neD : (p + 3) % 8 ≠ j) :=
    (read j).trans ((if_neg neH).trans (if_neg neD))
  have t1 : added S (w + k) ((p + 4) % 8) ((p + 5) % 8) ((p + 6) % 8) ((p + 7) % 8) =
      (view S p).h + Sha256.bigSigma1 (view S p).e +
        Sha256.choose (view S p).e (view S p).f (view S p).g + k + w := by
    rw [added, bigS1_eq, ch_eq]
    simp only [view]
    ac_rfl
  have atH := (read ((p + 7) % 8)).trans (if_pos rfl)
  have atD := (read ((p + 3) % 8)).trans ((if_neg (by omega)).trans (if_pos rfl))
  rw [t1, bigS0_eq, maj_eq] at atH
  rw [t1] at atD
  have turned (n : Nat) : (p + 7 + (n + 1)) % 8 = (p + n) % 8 := by omega
  rw [view, turned 0, turned 1, turned 2, turned 3, turned 4, turned 5, turned 6, atH, atD,
    kept _ (by omega) (by omega), kept _ (by omega) (by omega), kept _ (by omega) (by omega),
    kept _ (by omega) (by omega), kept _ (by omega) (by omega), kept _ (by omega) (by omega)]
  rfl

theorem view_congr (S : Words8) {p q : Nat} (same : p % 8 = q % 8) : view S p = view S q := by
  have index (n : Nat) : (p + n) % 8 = (q + n) % 8 := by omega
  simp only [view, same, index]

/-- The round with the indices that it has in the i-th line. -/
theorem view_rndr (W : Words64) (ii : Nat) (S : Words8) {i : Nat} (small : i < 16) :
    view (rndr W ii S i) (64 - (i + 1)) =
      Sha256.round (view S (64 - i)) (Sha256.constants.getD (i + ii) 0)
        (Cells.read W (i + ii)) := by
  have index (n : Nat) : 64 + n - i = 64 - i + n := by omega
  rw [← view_rnd, ← read_krnd, view_congr (q := 64 - i + 7) _ (by omega), rndr, index 1,
    index 2, index 3, index 4, index 5, index 6, index 7]

/-- The lines of one pass. -/
theorem view_foldl_rndr (W : Words64) (ii : Nat) (S : Words8) {n : Nat} (le : n ≤ 16) :
    view ((List.range n).foldl (rndr W ii) S) (64 - n) =
      (List.range n).foldl
        (fun s i => Sha256.round s (Sha256.constants.getD (i + ii) 0) (Cells.read W (i + ii)))
        (view S 64) := by
  induction n with
  | zero => rfl
  | succ n ih =>
      rw [List.range_succ, List.foldl_append, List.foldl_append, List.foldl_cons, List.foldl_nil,
        List.foldl_cons, List.foldl_nil, view_rndr W ii _ le, ih (Nat.le_of_succ_le le)]

/-! ## The schedule -/

/-- The first `n` words of the schedule stand in the array. -/
def Filled (block : List UInt8) (n : Nat) (W : Words64) : Prop :=
  ∀ t < n, Cells.read W t = (Sha256.schedule block 48).getD t 0

theorem filled_be32decVect (block : List UInt8) (W : Words64) :
    Filled block 16 (be32decVect W block 64) := by
  intro t early
  have loads := Cells.read_foldl_write W (fun i _ => loadAt block (i * 4)) 16 (by decide) t
  rw [Sha256.getD_schedule_zero block early, ← loadAt_eq]
  exact loads.trans (if_pos early)

theorem smallS0_eq : smallS0 = Sha256.smallSigma0 := rfl

theorem smallS1_eq : smallS1 = Sha256.smallSigma1 := rfl

theorem filled_msch {block : List UInt8} {n : Nat} {W : Words64} (filled : Filled block (n + 16) W)
    (room : n < 48) {i ii : Nat} (index : i + ii = n) : Filled block (n + 17) (msch i W ii) := by
  subst index
  intro t below
  rw [msch, Cells.read_write _ (by omega), filled _ (by omega), filled _ (by omega),
    filled _ (by omega), filled _ (by omega), smallS0_eq, smallS1_eq,
    ← Sha256.getD_schedule_add block room]
  by_cases last : i + ii + 16 = t
  · rw [if_pos last, last]
  · rw [if_neg last]
    exact filled t (by omega)

theorem filled_foldl_msch {block : List UInt8} {i : Nat} {W : Words64}
    (filled : Filled block (i + 16) W) {n : Nat} (room : i + n ≤ 48) :
    Filled block (i + n + 16) ((List.range n).foldl (msch i) W) := by
  induction n with
  | zero => exact filled
  | succ n ih =>
      rw [List.range_succ, List.foldl_append, List.foldl_cons, List.foldl_nil]
      exact filled_msch (ih (by omega)) (by omega) rfl

/-! ## Blocks -/

/-- After `n` rounds. -/
structure Worked (block : List UInt8) (s : Sha256.Work) (n : Nat) (tmp : Tmp32) : Prop where
  view : view tmp.S 64 = Sha256.rounds (Sha256.schedule block 48) n s
  filled : Filled block (min (n + 16) 64) tmp.W

theorem Worked.rounds {block : List UInt8} {s : Sha256.Work} {n : Nat} {tmp : Tmp32}
    (worked : Worked block s n tmp) (more : n ≤ 48) :
    SHA256.view ((List.range 16).foldl (rndr tmp.W n) tmp.S) 64 =
      Sha256.rounds (Sha256.schedule block 48) (n + 16) s := by
  rw [Sha256.rounds_add, ← worked.view, view_congr _ (show 64 % 8 = (64 - 16) % 8 from rfl),
    view_foldl_rndr _ _ _ (le_refl 16)]
  refine List.foldl_ext _ _ _ ?_
  intro s' i member
  have small : i < 16 := List.mem_range.mp member
  rw [worked.filled (i + n) (by omega)]

theorem Worked.sixteen {block : List UInt8} {s : Sha256.Work} {n : Nat} {tmp : Tmp32}
    (worked : Worked block s n tmp) (more : n ≤ 32) :
    Worked block s (n + 16) (sixteen tmp n) := by
  have rounds := worked.rounds (by omega)
  have filled : Filled block (n + 16) tmp.W := by
    intro t below
    exact worked.filled t (by omega)
  have notLast : n ≠ 48 := by omega
  rw [SHA256.sixteen, if_neg notLast]
  refine ⟨rounds, ?_⟩
  intro t below
  exact filled_foldl_msch filled (n := 16) (by omega) t (by omega)

/-- The last pass ends before the schedule is extended. -/
theorem Worked.last {block : List UInt8} {s : Sha256.Work} {tmp : Tmp32}
    (worked : Worked block s 48 tmp) :
    SHA256.view (SHA256.sixteen tmp 48).S 64 = Sha256.rounds (Sha256.schedule block 48) 64 s := by
  rw [SHA256.sixteen, if_pos rfl]
  exact worked.rounds (le_refl 48)

theorem view_eq_work (S : Words8) : view S 64 = Sha256.Hash.work S := by
  simp [view, Sha256.Hash.work, Cells.get_eq_read]

/-- The loop that adds the working variables. -/
theorem addition_eq (state S : Words8) :
    (List.range 8).foldl
        (fun state i => Cells.write state i (Cells.read state i + Cells.read S i)) state =
      Sha256.Hash.plus state (Sha256.Hash.work S) := by
  apply Cells.ext
  intro i inside
  refine (Cells.read_foldl_write state (fun i x => x + Cells.read S i) 8 (le_refl 8) i).trans ?_
  rw [if_pos inside]
  interval_cases i <;>
    simp [Sha256.Hash.work, Sha256.Hash.plus, Cells.get_eq_read, Cells.read_of_lt]

/-- The block function is the compression function, over any scratch memory. -/
theorem transform_eq (state : Words8) (block : List UInt8) (tmp : Tmp32) :
    (transform state block tmp).1 = Sha256.compress state block := by
  have start : Worked block (SHA256.view state 64) 0 ⟨be32decVect tmp.W block 64, state⟩ :=
    ⟨rfl, filled_be32decVect block tmp.W⟩
  have worked := (((start.sixteen (by decide)).sixteen (by decide)).sixteen (by decide)).last
  rw [view_eq_work, view_eq_work] at worked
  rw [Sha256.compress, ← worked]
  exact addition_eq state _

end SidepoolFormal.Crypto.SHA256
