import SidepoolFormal.S.Code
import SidepoolFormal.Library.Linked

/-!
# The list of a registry

At every moment, also while functions are called by `iterate`, the list is
linked in the order of subscription, `last` is its last lease, and every lease
that is not cleared is in it.  A lease that was removed points nowhere.
-/

namespace SidepoolFormal.S

open Library

namespace Registry

/-- The leases in the list of a registry. -/
structure Listed (registry : Registry) (chain : List Nat) : Prop where
  linked : Linked registry.next registry.first chain
  last : registry.last = chain.getLast?
  sorted : chain.Pairwise (· < ·)
  bound : ∀ l ∈ chain, l < registry.leases.length
  apart : ∀ l, l ∉ chain → registry.next l = none
  live : ∀ l, registry.live l = true → l ∈ chain

/-! ## Writing to leases -/

section Fields

variable (registry : Registry) (l : Nat) (ptr : Option Nat)

@[simp]
theorem length_setNext : (registry.setNext l ptr).leases.length = registry.leases.length := by
  simp [setNext]

@[simp]
theorem live_setNext : (registry.setNext l ptr).live = registry.live := by
  funext l'
  rw [live, live, setNext, List.getElem?_modify]
  cases registry.leases[l']? with
  | none => rfl
  | some lease =>
      by_cases same : l = l'
      · simp [same]
      · simp [same]

theorem next_setNext (inside : l < registry.leases.length) :
    (registry.setNext l ptr).next = Function.update registry.next l ptr := by
  funext l'
  rw [next, setNext, List.getElem?_modify]
  by_cases same : l = l'
  · subst same
    simp [List.getElem?_eq_getElem inside]
  · rw [Function.update_of_ne (Ne.symm same), next]
    cases registry.leases[l']? with
    | none => rfl
    | some lease => simp [same]

@[simp]
theorem length_clear : (registry.clear l).leases.length = registry.leases.length := by
  simp [clear]

@[simp]
theorem next_clear : (registry.clear l).next = registry.next := by
  funext l'
  rw [next, next, clear, List.getElem?_modify]
  cases registry.leases[l']? with
  | none => rfl
  | some lease =>
      by_cases same : l = l'
      · simp [same]
      · simp [same]

theorem live_clear (l' : Nat) :
    (registry.clear l).live l' = true ↔ registry.live l' = true ∧ l' ≠ l := by
  rw [live, live, clear, List.getElem?_modify]
  cases registry.leases[l']? with
  | none => simp
  | some lease =>
      by_cases same : l = l'
      · simp [same]
      · simp [same, Ne.symm same]

theorem live_lt {registry : Registry} {l : Nat} (live : registry.live l = true) :
    l < registry.leases.length := by
  by_contra outside
  rw [Registry.live, List.getElem?_eq_none (Nat.le_of_not_lt outside)] at live
  cases live

end Fields

/-! ## `add_lease` -/

section Made

variable (registry : Registry)

theorem next_append : Registry.next { registry with leases := registry.leases ++ [⟨none, true⟩] } =
    registry.next := by
  funext l
  rw [next, next]
  rcases Nat.lt_trichotomy l registry.leases.length with before | rfl | behind
  · rw [List.getElem?_append_left before]
  · simp
  · rw [List.getElem?_eq_none (by simp; omega), List.getElem?_eq_none (Nat.le_of_lt behind)]

theorem live_append (l : Nat) :
    Registry.live { registry with leases := registry.leases ++ [⟨none, true⟩] } l = true ↔
      registry.live l = true ∨ l = registry.leases.length := by
  rw [live, live]
  rcases Nat.lt_trichotomy l registry.leases.length with before | rfl | behind
  · rw [List.getElem?_append_left before]
    simp [Nat.ne_of_lt before]
  · simp
  · rw [List.getElem?_eq_none (by simp; omega), List.getElem?_eq_none (Nat.le_of_lt behind)]
    simp [Nat.ne_of_gt behind]

end Made

variable {registry : Registry} {chain : List Nat}

theorem Listed.next_fresh (listed : Listed registry chain) :
    registry.next registry.leases.length = none := by
  apply listed.apart
  intro member
  exact Nat.lt_irrefl _ (listed.bound _ member)

/-- What is the same for every list with a new last lease. -/
theorem Listed.grow (listed : Listed registry chain) {registry' : Registry}
    (linked : Linked registry'.next registry'.first (chain ++ [registry.leases.length]))
    (last : registry'.last = some registry.leases.length)
    (length : registry'.leases.length = registry.leases.length + 1)
    (apart : ∀ l, l ∉ chain → registry'.next l = registry.next l)
    (live : ∀ l, registry'.live l = true → registry.live l = true ∨ l = registry.leases.length) :
    Listed registry' (chain ++ [registry.leases.length]) := by
  refine ⟨linked, ?_, ?_, ?_, ?_, ?_⟩
  · rw [last, List.getLast?_concat]
  · refine List.pairwise_append.mpr ⟨listed.sorted, List.pairwise_singleton _ _, ?_⟩
    intro a member b same
    rw [List.mem_singleton.mp same]
    exact listed.bound a member
  · intro l member
    rw [length]
    rcases List.mem_append.mp member with old | new
    · exact Nat.lt_succ_of_lt (listed.bound l old)
    · rw [List.mem_singleton.mp new]
      exact Nat.lt_succ_self _
  · intro l outside
    have notOld : l ∉ chain := fun old => outside (List.mem_append_left _ old)
    rw [apart l notOld]
    exact listed.apart l notOld
  · intro l alive
    rcases live l alive with old | new
    · exact List.mem_append_left _ (listed.live l old)
    · exact List.mem_append_right _ (List.mem_singleton.mpr new)

theorem Listed.addLease (listed : Listed registry chain) :
    Listed registry.addLease (chain ++ [registry.leases.length]) := by
  have fresh := listed.next_fresh
  rcases List.eq_nil_or_concat' chain with rfl | ⟨pre, m, rfl⟩
  · have first : registry.first = none := listed.linked.head.symm
    have made : registry.addLease = ⟨registry.leases ++ [⟨none, true⟩],
        some registry.leases.length, some registry.leases.length⟩ := by
      rw [Registry.addLease, first]
    have next : registry.addLease.next = registry.next := by
      rw [made]
      exact next_append registry
    refine listed.grow ?_ (by rw [made]) (by simp [made]) (fun l _ => by rw [next]) ?_
    · rw [next, made]
      refine .cons ?_
      rw [fresh]
      exact .nil
    · intro l alive
      rw [made] at alive
      exact (live_append registry l).mp alive
  · have last : registry.last = some m := by simpa using listed.last
    obtain ⟨f, first⟩ : ∃ f, registry.first = some f := by
      rw [← listed.linked.head]
      cases pre with
      | nil => exact ⟨m, rfl⟩
      | cons a pre => exact ⟨a, rfl⟩
    let made : Registry := { registry with leases := registry.leases ++ [⟨none, true⟩] }
    have same : registry.addLease =
        { made.setNext m (some registry.leases.length) with
          last := some registry.leases.length } := by
      simp only [Registry.addLease, made, first, last]
    have inside : m < made.leases.length := by
      have bound := listed.bound m (by simp)
      simp only [made, List.length_append, List.length_singleton]
      omega
    have next : registry.addLease.next =
        Function.update registry.next m (some registry.leases.length) := by
      rw [same]
      exact (next_setNext made m _ inside).trans (by rw [next_append registry])
    have distinct : (pre ++ [m]).Nodup := listed.sorted.imp Nat.ne_of_lt
    have new : registry.leases.length ∉ pre ++ [m] := fun member =>
      Nat.lt_irrefl _ (listed.bound _ member)
    refine listed.grow ?_ (by rw [same]) (by simp [same, made]) ?_ ?_
    · have linked := listed.linked.append fresh distinct new
      rw [next, same, List.append_assoc]
      exact linked
    · intro l outside
      rw [next]
      exact Function.update_of_ne (fun eq => outside (by simp [eq])) _ _
    · intro l alive
      rw [same] at alive
      have before : (made.setNext m (some registry.leases.length)).live l = true := alive
      rw [live_setNext] at before
      exact (live_append registry l).mp before

/-! ## `clear` and `remove` -/

theorem Listed.clear (listed : Listed registry chain) (l : Nat) :
    Listed (registry.clear l) chain := by
  refine ⟨?_, listed.last, listed.sorted, ?_, ?_, ?_⟩
  · rw [next_clear]
    exact listed.linked
  · rw [length_clear]
    exact listed.bound
  · rw [next_clear]
    exact listed.apart
  · intro l' alive
    exact listed.live l' ((live_clear registry l l').mp alive).1

/-- What is left of a list without one of its leases. -/
theorem last_without {pre post : List Nat} {l : Nat} (fresh : l ∉ post) :
    (if (pre ++ l :: post).getLast? = some l then pre.getLast? else (pre ++ l :: post).getLast?) =
      (pre ++ post).getLast? := by
  rcases List.eq_nil_or_concat' post with rfl | ⟨init, m, rfl⟩
  · simp
  · have ne : m ≠ l := fun same => fresh (by simp [same])
    have whole : (pre ++ l :: (init ++ [m])).getLast? = some m := by
      rw [← List.cons_append, ← List.append_assoc, List.getLast?_concat]
    rw [whole, if_neg (by simpa using ne), ← List.append_assoc, List.getLast?_concat]

/-- `iterate` once it has led the list past the lease. -/
def detach (unlinked : Registry) (prev : Option Nat) (l : Nat) : Registry :=
  (if unlinked.last = some l then { unlinked with last := prev } else unlinked).setNext l none

section Detach

variable (unlinked : Registry) (prev : Option Nat) {l : Nat}

theorem next_detach (inside : l < unlinked.leases.length) :
    (unlinked.detach prev l).next = Function.update unlinked.next l none := by
  rw [detach]
  split
  · exact next_setNext _ l none inside
  · exact next_setNext _ l none inside

theorem first_detach : (unlinked.detach prev l).first = unlinked.first := by
  rw [detach]
  split
  · rfl
  · rfl

theorem last_detach :
    (unlinked.detach prev l).last = if unlinked.last = some l then prev else unlinked.last := by
  rw [detach]
  split
  · rfl
  · rfl

theorem length_detach : (unlinked.detach prev l).leases.length = unlinked.leases.length := by
  rw [detach, length_setNext]
  split
  · rfl
  · rfl

theorem live_detach : (unlinked.detach prev l).live = unlinked.live := by
  rw [detach, live_setNext]
  split
  · rfl
  · rfl

end Detach

/-- A cleared lease is detached from a list that leads past it. -/
theorem Listed.detach {pre post : List Nat} {l : Nat}
    (listed : Listed registry (pre ++ l :: post)) (cleared : registry.live l = false)
    {unlinked : Registry}
    (linked : Linked (Function.update unlinked.next l none) unlinked.first (pre ++ post))
    (last : unlinked.last = registry.last)
    (length : unlinked.leases.length = registry.leases.length)
    (live : unlinked.live = registry.live)
    (apart : ∀ a, a ∉ pre ++ l :: post → unlinked.next a = none) :
    Listed (unlinked.detach pre.getLast? l) (pre ++ post) := by
  have distinct : (pre ++ l :: post).Nodup := listed.sorted.imp Nat.ne_of_lt
  have fresh : l ∉ post := (List.nodup_cons.mp (List.nodup_append.mp distinct).2.1).1
  have inside : l < unlinked.leases.length := length.symm ▸ listed.bound l (by simp)
  have part : List.Sublist (pre ++ post) (pre ++ l :: post) :=
    List.Sublist.append_left (List.sublist_cons_self l post) pre
  refine ⟨?_, ?_, listed.sorted.sublist part, ?_, ?_, ?_⟩
  · rw [next_detach _ _ inside, first_detach]
    exact linked
  · rw [last_detach, last, listed.last]
    exact last_without fresh
  · intro a member
    rw [length_detach, length]
    exact listed.bound a (part.subset member)
  · intro a outside
    rw [next_detach _ _ inside]
    by_cases same : a = l
    · rw [same, Function.update_self]
    · rw [Function.update_of_ne same]
      apply apart
      simpa [same] using outside
  · intro a alive
    rw [live_detach, live] at alive
    have ne : a ≠ l := by
      rintro rfl
      rw [cleared] at alive
      cases alive
    simpa [ne] using listed.live a alive

theorem Listed.remove {pre post : List Nat} {l : Nat}
    (listed : Listed registry (pre ++ l :: post)) (cleared : registry.live l = false) :
    Listed (registry.remove pre.getLast? l) (pre ++ post) := by
  have distinct : (pre ++ l :: post).Nodup := listed.sorted.imp Nat.ne_of_lt
  rcases List.eq_nil_or_concat' pre with rfl | ⟨init, b, rfl⟩
  · have fresh : l ∉ post := (List.nodup_cons.mp distinct).1
    exact listed.detach cleared (listed.linked.unlink_first fresh) rfl rfl rfl listed.apart
  · have inside : b < registry.leases.length := listed.bound b (by simp)
    have next := next_setNext registry b (registry.next l) inside
    have whole (rest : List Nat) : init ++ [b] ++ rest = init ++ b :: rest := by simp
    have linked := listed.linked
    rw [whole] at linked distinct
    have detached : Listed ((registry.setNext b (registry.next l)).detach (init ++ [b]).getLast? l)
        (init ++ [b] ++ post) := by
      refine listed.detach cleared ?_ rfl (length_setNext _ _ _) (live_setNext _ _ _) ?_
      · rw [next, whole]
        exact linked.unlink distinct
      · intro a outside
        rw [next, Function.update_of_ne (fun same => outside (by simp [same]))]
        exact listed.apart a outside
    rw [List.getLast?_concat] at detached ⊢
    exact detached

theorem Listed.next_eq {pre post : List Nat} {l : Nat}
    (listed : Listed registry (pre ++ l :: post)) : registry.next l = post.head? :=
  listed.linked.next_eq

/-- A lease points to the next one in the list. -/
theorem Listed.next_cases (listed : Listed registry chain) {l m : Nat}
    (next : registry.next l = some m) :
    ∃ pre post, chain = pre ++ l :: m :: post := by
  have member : l ∈ chain := by
    by_contra outside
    rw [listed.apart l outside] at next
    cases next
  obtain ⟨pre, post, rfl⟩ := List.append_of_mem member
  rw [listed.next_eq] at next
  cases post with
  | nil => cases next
  | cons a post =>
      cases next
      exact ⟨pre, post, rfl⟩

theorem Listed.next_lt (listed : Listed registry chain) {l m : Nat}
    (next : registry.next l = some m) : l < m := by
  obtain ⟨pre, post, rfl⟩ := listed.next_cases next
  have behind := (List.pairwise_append.mp listed.sorted).2.1
  exact (List.pairwise_cons.mp behind).1 m List.mem_cons_self

/-- What lies before the next lease lies no further than the lease itself. -/
theorem Listed.le_of_next (listed : Listed registry chain) {l l' : Nat} (inside : l ∈ chain)
    (member : l' ∈ chain) (before : ∀ m, registry.next l = some m → l' < m) : l' ≤ l := by
  obtain ⟨pre, post, rfl⟩ := List.append_of_mem inside
  obtain ⟨-, behind, apart⟩ := List.pairwise_append.mp listed.sorted
  rcases List.mem_append.mp member with old | rest
  · exact Nat.le_of_lt (apart l' old l List.mem_cons_self)
  · rcases List.mem_cons.mp rest with rfl | further
    · exact Nat.le_refl _
    · cases post with
      | nil => cases further
      | cons m post =>
          have less := before m listed.next_eq
          have order := List.pairwise_cons.mp (List.pairwise_cons.mp behind).2
          rcases List.mem_cons.mp further with rfl | later
          · exact absurd less (Nat.lt_irrefl _)
          · exact absurd (order.1 l' later) (Nat.lt_asymm less)

/-- Nothing lies before the first lease. -/
theorem Listed.not_before_first (listed : Listed registry chain) {l : Nat} (member : l ∈ chain)
    (before : ∀ m, registry.first = some m → l < m) : False := by
  cases chain with
  | nil => cases member
  | cons m post =>
      have less := before m listed.linked.head.symm
      rcases List.mem_cons.mp member with rfl | later
      · exact Nat.lt_irrefl _ less
      · exact Nat.lt_asymm less ((List.pairwise_cons.mp listed.sorted).1 l later)

/-! ## What is live -/

theorem live_addLease (l : Nat) :
    registry.addLease.live l = true → registry.live l = true ∨ l = registry.leases.length := by
  intro alive
  rw [Registry.addLease] at alive
  split at alive
  · exact (live_append registry l).mp alive
  · rename_i m _ _
    have before : (Registry.setNext { registry with leases := registry.leases ++ [⟨none, true⟩] } m
      (some registry.leases.length)).live l = true := alive
    rw [live_setNext] at before
    exact (live_append registry l).mp before
  · exact (live_append registry l).mp alive

theorem length_addLease : registry.addLease.leases.length = registry.leases.length + 1 := by
  rw [Registry.addLease]
  split
  · simp
  · simp
  · simp

theorem live_remove (prev : Option Nat) (l : Nat) :
    (registry.remove prev l).live = registry.live := by
  cases prev with
  | none => exact live_detach { registry with first := registry.next l } none
  | some b =>
      exact (live_detach (registry.setNext b (registry.next l)) (some b)).trans
        (live_setNext registry b _)

theorem length_remove (prev : Option Nat) (l : Nat) :
    (registry.remove prev l).leases.length = registry.leases.length := by
  cases prev with
  | none => exact length_detach { registry with first := registry.next l } none
  | some b =>
      exact (length_detach (registry.setNext b (registry.next l)) (some b)).trans
        (length_setNext registry b _)

theorem Listed.destroy (listed : Listed registry chain) (leases : List Nat) :
    Listed (leases.foldl Registry.clear registry) chain := by
  induction leases generalizing registry with
  | nil => exact listed
  | cons l leases ih => exact ih (listed.clear l)

theorem live_destroy (leases : List Nat) (l : Nat) :
    (leases.foldl Registry.clear registry).live l = true ↔
      registry.live l = true ∧ l ∉ leases := by
  induction leases generalizing registry with
  | nil => simp
  | cons l' leases ih =>
      rw [List.foldl_cons, ih, live_clear, List.mem_cons, not_or, and_assoc]

theorem length_destroy (leases : List Nat) :
    (leases.foldl Registry.clear registry).leases.length = registry.leases.length := by
  induction leases generalizing registry with
  | nil => rfl
  | cons l leases ih =>
      rw [List.foldl_cons, ih]
      exact length_clear registry l

end Registry

end SidepoolFormal.S
