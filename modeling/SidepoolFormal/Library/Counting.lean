import Mathlib.Data.List.Basic
import Mathlib.Logic.Function.Iterate
import Mathlib.Order.WellFounded

/-!
# Reference counting

An object is freed when nothing refers to it any more: neither a root nor an
object that is still there.  What is freed takes its own references with it, so
objects may be freed in turn.  Whatever can be reached from the roots stays; and
what cannot be reached is freed unless it is behind a cycle of references.
-/

namespace SidepoolFormal.Library.Counting

variable {α : Type}

/-- The references that roots and objects hold. -/
structure Refs (α : Type) where
  root : α → Bool
  edge : α → α → Bool

variable (refs : Refs α) (heap : List α)

/-- The count of the object is not zero. -/
def counted (a : α) : Bool := refs.root a || heap.any (refs.edge · a)

/-- Every object without references is freed. -/
def release : List α := heap.filter (counted refs heap)

/-- Objects are freed until all that are left have references. -/
def collect : List α := (release refs)^[heap.length] heap

theorem release_of_length {refs : Refs α} {heap : List α}
    (same : (release refs heap).length = heap.length) : release refs heap = heap :=
  (List.filter_sublist).eq_of_length same

/-- Freeing comes to an end. -/
theorem release_iterate {n : Nat} (small : heap.length ≤ n) :
    release refs ((release refs)^[n] heap) = (release refs)^[n] heap := by
  induction n generalizing heap with
  | zero =>
      obtain rfl := List.length_eq_zero_iff.mp (Nat.le_zero.mp small)
      rfl
  | succ n ih =>
      rw [Function.iterate_succ_apply]
      by_cases same : release refs heap = heap
      · rw [same, Function.iterate_fixed same n, same]
      · have shorter : (release refs heap).length < heap.length :=
          lt_of_le_of_ne (List.length_filter_le _ _) fun eq => same (release_of_length eq)
        exact ih _ (by omega)

theorem release_collect : release refs (collect refs heap) = collect refs heap :=
  release_iterate refs heap (le_refl _)

variable {refs heap}

/-- What is left has references. -/
theorem counted_of_mem {a : α} (member : a ∈ collect refs heap) :
    counted refs (collect refs heap) a = true := by
  rw [← release_collect] at member
  exact (List.mem_filter.mp member).2

/-- Every object of the set has a reference from a root or from the set. -/
def Supported (refs : Refs α) (kept : Set α) : Prop :=
  ∀ a ∈ kept, refs.root a = true ∨ ∃ b ∈ kept, refs.edge b a = true

variable {kept : Set α}

theorem mem_release (supported : Supported refs kept) (there : ∀ a ∈ kept, a ∈ heap) :
    ∀ a ∈ kept, a ∈ release refs heap := by
  intro a member
  refine List.mem_filter.mpr ⟨there a member, ?_⟩
  rcases supported a member with root | ⟨b, holder, edge⟩
  · simp [counted, root]
  · rw [counted, Bool.or_eq_true, List.any_eq_true]
    exact .inr ⟨b, there b holder, edge⟩

/-- What is supported is not freed. -/
theorem mem_collect (supported : Supported refs kept) (there : ∀ a ∈ kept, a ∈ heap) :
    ∀ a ∈ kept, a ∈ collect refs heap := by
  rw [collect]
  generalize heap.length = n
  induction n generalizing heap with
  | zero => exact there
  | succ n ih =>
      rw [Function.iterate_succ_apply]
      exact ih (mem_release supported there)

/-- What nothing in the set refers to is freed, unless it is behind a cycle. -/
theorem kept_of_mem (rooted : ∀ a, refs.root a = true → a ∈ kept)
    (closed : ∀ a ∈ kept, ∀ b, refs.edge a b = true → b ∈ kept)
    (acyclic : WellFounded fun a b => refs.edge a b = true ∧ b ∉ kept) {a : α}
    (member : a ∈ collect refs heap) : a ∈ kept := by
  induction a using acyclic.induction with
  | _ a ih =>
      by_contra outside
      have references := counted_of_mem member
      rw [counted, Bool.or_eq_true, List.any_eq_true] at references
      rcases references with root | ⟨b, there, edge⟩
      · exact outside (rooted a root)
      · exact outside (closed b (ih b ⟨edge, outside⟩ there) a edge)

/-- Counting keeps exactly what can be reached. -/
theorem mem_collect_iff (supported : Supported refs kept) (there : ∀ a ∈ kept, a ∈ heap)
    (rooted : ∀ a, refs.root a = true → a ∈ kept)
    (closed : ∀ a ∈ kept, ∀ b, refs.edge a b = true → b ∈ kept)
    (acyclic : WellFounded fun a b => refs.edge a b = true ∧ b ∉ kept) (a : α) :
    a ∈ collect refs heap ↔ a ∈ kept :=
  ⟨kept_of_mem rooted closed acyclic, mem_collect supported there a⟩

end SidepoolFormal.Library.Counting
