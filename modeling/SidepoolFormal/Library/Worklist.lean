import Mathlib.Logic.Hydra

/-!
# Worklists

A worklist puts, for each item that is taken from its front, finitely many new
items at its back.  It runs empty when no item starts an endless chain of items
each put for the one before.
-/

namespace SidepoolFormal.Library

open Relation

variable {α : Type} {children : α → List α}

/-- The chains of items from `a` are all finite. -/
def Ends (children : α → List α) (a : α) : Prop := Acc (fun b a => b ∈ children a) a

theorem Ends.not_self {a : α} (ends : Ends children a) : a ∉ children a := by
  induction ends with
  | intro x _ ih => exact fun again => ih x again again

/-- Items below `a` in a worklist that runs empty. -/
def Below (children : α → List α) (b a : α) : Prop := b ∈ children a ∧ Ends children a

instance : Std.Irrefl (Below children) := ⟨fun _ again => again.2.not_self again.1⟩

theorem acc_items {items : List α} (ends : ∀ a ∈ items, Ends children a) :
    Acc (CutExpand (Below children)) (items : Multiset α) := by
  apply acc_of_singleton
  intro a member
  have finite : Acc (Below children) a :=
    Subrelation.accessible (fun below => below.1) (ends a (Multiset.mem_coe.mp member))
  exact finite.cutExpand

/-- The items after a step are below those before it. -/
theorem cutExpand_step {a : α} (ends : Ends children a) (rest : List α) :
    CutExpand (Below children) ((rest ++ children a : List α) : Multiset α)
      (a :: rest : List α) := by
  refine ⟨children a, a, fun b member => ⟨Multiset.mem_coe.mp member, ends⟩, ?_⟩
  rw [← Multiset.coe_add, ← Multiset.cons_coe, ← Multiset.singleton_add]
  ac_rfl

/-- What holds of the empty list, and of a list once it holds of what a worklist
makes of it in a step, holds of every list whose chains are finite. -/
theorem worklist_induction {P : List α → Prop} (nil : P [])
    (cons : ∀ a rest, P (rest ++ children a) → P (a :: rest)) {items : List α}
    (ends : ∀ a ∈ items, Ends children a) : P items := by
  generalize same : (items : Multiset α) = S
  have acc := acc_items ends
  rw [same] at acc
  induction acc generalizing items with
  | intro S _ ih =>
      subst same
      cases items with
      | nil => exact nil
      | cons a rest =>
          have first := ends a List.mem_cons_self
          refine cons a rest (ih _ (cutExpand_step first rest) ?_ rfl)
          intro b member
          rcases List.mem_append.mp member with old | new
          · exact ends b (List.mem_cons_of_mem _ old)
          · exact first.inv new

end SidepoolFormal.Library
