import Mathlib.Logic.Function.Basic
import Mathlib.Data.List.Basic

/-!
# Singly linked lists

A list is linked from a pointer if following `next` from there visits its nodes
in order and ends at null.  Nodes are unlinked and appended by writing to `next`
at one node.
-/

namespace SidepoolFormal.Library

variable {α : Type}

inductive Linked (next : α → Option α) : Option α → List α → Prop
  | nil : Linked next none []
  | cons {a : α} {nodes : List α} (rest : Linked next (next a) nodes) :
      Linked next (some a) (a :: nodes)

namespace Linked

variable {next next' : α → Option α} {ptr : Option α} {nodes pre post : List α} {a : α}

theorem head (linked : Linked next ptr nodes) : nodes.head? = ptr := by
  cases linked with
  | nil => rfl
  | cons rest => rfl

theorem nil_of_none (linked : Linked next none nodes) : nodes = [] := by
  cases linked with
  | nil => rfl

theorem cons_of_some (linked : Linked next (some a) nodes) :
    ∃ rest, nodes = a :: rest ∧ Linked next (next a) rest := by
  cases linked with
  | cons rest => exact ⟨_, rfl, rest⟩

/-- There is one list from a pointer. -/
theorem unique (linked : Linked next ptr nodes) {others : List α} (other : Linked next ptr others) :
    nodes = others := by
  induction linked generalizing others with
  | nil => exact other.nil_of_none.symm
  | cons rest ih =>
      obtain ⟨others', rfl, rest'⟩ := other.cons_of_some
      rw [ih rest']

theorem congr (linked : Linked next ptr nodes) (same : ∀ a ∈ nodes, next' a = next a) :
    Linked next' ptr nodes := by
  induction linked with
  | nil => exact .nil
  | @cons a nodes rest ih =>
      have here : next' a = next a := same a List.mem_cons_self
      refine .cons (here.symm ▸ ih ?_)
      intro b member
      exact same b (List.mem_cons_of_mem a member)

/-- A part of the list, from the pointer to its first node on. -/
theorem drop (linked : Linked next ptr (pre ++ post)) : Linked next post.head? post := by
  induction pre generalizing ptr with
  | nil =>
      have first : post.head? = ptr := linked.head
      rw [first]
      exact linked
  | cons b pre ih =>
      cases linked with
      | cons rest => exact ih rest

theorem next_eq (linked : Linked next ptr (pre ++ a :: post)) : next a = post.head? := by
  cases linked.drop with
  | cons rest => exact rest.head.symm

/-- The nodes before a node point to each other in every list that agrees with
this one there. -/
theorem splice (linked : Linked next ptr (pre ++ a :: post)) {nodes : List α}
    (rest : Linked next' (some a) (a :: nodes)) (same : ∀ b ∈ pre, next' b = next b) :
    Linked next' ptr (pre ++ a :: nodes) := by
  induction pre generalizing ptr with
  | nil =>
      cases linked with
      | cons => exact rest
  | cons b pre ih =>
      cases linked with
      | cons tail =>
          have here : next' b = next b := same b List.mem_cons_self
          refine .cons (here.symm ▸ ih tail ?_)
          intro c member
          exact same c (List.mem_cons_of_mem b member)

variable [DecidableEq α]

/-- The first node is unlinked. -/
theorem unlink_first (linked : Linked next ptr (a :: nodes)) (fresh : a ∉ nodes) :
    Linked (Function.update next a none) (next a) nodes := by
  cases linked with
  | cons rest =>
      refine rest.congr ?_
      intro b member
      exact Function.update_of_ne (ne_of_mem_of_not_mem member fresh) _ _

/-- The node behind `b` is unlinked. -/
theorem unlink {b : α} (linked : Linked next ptr (pre ++ b :: a :: post))
    (distinct : (pre ++ b :: a :: post).Nodup) :
    Linked (Function.update (Function.update next b (next a)) a none) ptr (pre ++ b :: post) := by
  obtain ⟨_, inner, apart⟩ := List.nodup_append.mp distinct
  obtain ⟨outside, inner'⟩ := List.nodup_cons.mp inner
  have ne : b ≠ a := fun same => outside (same ▸ List.mem_cons_self)
  have behind : Linked next post.head? post := by
    have whole : pre ++ b :: a :: post = (pre ++ [b, a]) ++ post := by simp
    exact (whole ▸ linked).drop
  have points : next a = post.head? := by
    have whole : pre ++ b :: a :: post = (pre ++ [b]) ++ a :: post := by simp
    exact (whole ▸ linked).next_eq
  refine linked.splice (.cons ?_) ?_
  · rw [Function.update_of_ne ne, Function.update_self, points]
    refine behind.congr ?_
    intro c member
    have notA : c ≠ a := ne_of_mem_of_not_mem member (List.nodup_cons.mp inner').1
    have notB : c ≠ b := fun same => outside (same ▸ List.mem_cons_of_mem a member)
    rw [Function.update_of_ne notA, Function.update_of_ne notB]
  · intro c member
    have notA : c ≠ a := apart c member a (List.mem_cons_of_mem b List.mem_cons_self)
    have notB : c ≠ b := apart c member b List.mem_cons_self
    rw [Function.update_of_ne notA, Function.update_of_ne notB]

/-- A node is appended behind the last one. -/
theorem append (linked : Linked next ptr (pre ++ [a])) {b : α} (fresh : next b = none)
    (distinct : (pre ++ [a]).Nodup) (new : b ∉ pre ++ [a]) :
    Linked (Function.update next a (some b)) ptr (pre ++ [a, b]) := by
  have ne : b ≠ a := fun same => new (by simp [same])
  refine linked.splice (.cons ?_) ?_
  · rw [Function.update_self]
    refine .cons ?_
    rw [Function.update_of_ne ne, fresh]
    exact .nil
  · intro c member
    have notA : c ≠ a := (List.nodup_append.mp distinct).2.2 c member a List.mem_cons_self
    rw [Function.update_of_ne notA]

end Linked

end SidepoolFormal.Library
