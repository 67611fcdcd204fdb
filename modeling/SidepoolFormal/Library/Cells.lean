import Mathlib.Data.Vector.Basic
import Mathlib.Data.List.Basic

/-!
# Arrays of a fixed length

Reading and writing at an index, and the loops that write to one index after
the other.
-/

namespace SidepoolFormal.Library

variable {α : Type} {n : Nat}

namespace Cells

def write (v : Vector α n) (i : Nat) (x : α) : Vector α n := v.setIfInBounds i x

section

variable [Inhabited α]

def read (v : Vector α n) (i : Nat) : α := v.toList.getD i default

theorem read_of_lt (v : Vector α n) {i : Nat} (inside : i < n) : read v i = v[i] := by
  simp [read, inside]

theorem get_eq_read (v : Vector α n) (i : Fin n) : v.get i = read v i := by
  rw [read_of_lt v i.isLt]
  rfl

theorem ext {v w : Vector α n} (same : ∀ i < n, read v i = read w i) : v = w := by
  refine Vector.ext fun i inside => ?_
  rw [← read_of_lt v inside, ← read_of_lt w inside]
  exact same i inside

theorem read_write (v : Vector α n) {i : Nat} (inside : i < n) (j : Nat) (x : α) :
    read (write v i x) j = if i = j then x else read v j := by
  by_cases bound : j < n
  · rw [read_of_lt _ bound, read_of_lt _ bound]
    simp [write, Vector.getElem_setIfInBounds]
  · have ne : i ≠ j := by omega
    simp [read, write, bound, ne]

/-- Each index below `k` is written once, with what is read there. -/
theorem read_foldl_write (v : Vector α n) (g : Nat → α → α) (k : Nat) (inside : k ≤ n) (j : Nat) :
    read ((List.range k).foldl (fun v i => write v i (g i (read v i))) v) j =
      if j < k then g j (read v j) else read v j := by
  induction k with
  | zero => rfl
  | succ k ih =>
      have before : k ≤ n := Nat.le_of_succ_le inside
      rw [List.range_succ, List.foldl_append, List.foldl_cons, List.foldl_nil,
        read_write _ (Nat.lt_of_succ_le inside), ih before]
      by_cases here : k = j
      · subst here
        simp [ih before]
      · have bound : j < k + 1 ↔ j < k := by omega
        simp [here, bound]

end

/-- `v[i] = x` for the elements from index `i` on. -/
def copyIn (v : Vector α n) (i : Nat) : List α → Vector α n
  | [] => v
  | x :: rest => copyIn (write v i x) (i + 1) rest

theorem toList_copyIn (v : Vector α n) {i : Nat} {l : List α} (inside : i + l.length ≤ n) :
    (copyIn v i l).toList = v.toList.take i ++ l ++ v.toList.drop (i + l.length) := by
  induction l generalizing v i with
  | nil => simp [copyIn]
  | cons x rest ih =>
      rw [List.length_cons] at inside
      have here : i < v.toList.length := by
        rw [Vector.length_toList]
        omega
      rw [copyIn, ih _ (by omega), write, Vector.toList_setIfInBounds,
        List.take_succ_eq_append_getElem (by simpa using here), List.take_set_of_le (le_refl i),
        List.drop_set_of_lt (by omega)]
      simp [Nat.add_assoc, Nat.add_comm 1]

end Cells

end SidepoolFormal.Library
