import SidepoolFormal.S.Calls
import SidepoolFormal.Library.Join
import Mathlib.Data.List.Nodup
import Mathlib.Data.List.Perm.Subperm

/-!
# The waiter of a raise

What the waiter counts, and what it has called, follows from the order in which
the actions have completed: it joins them.
-/

namespace SidepoolFormal.S

open Library

variable {E : Type}

/-! ## `Waiter` -/

/-- The waiter joins n actions, of which these have completed. -/
structure Waits (n : Nat) (completed : List (Option E)) (waiter : Waiter E)
    (results : List (Option E)) : Prop where
  count : waiter.count + completed.length = n
  except : waiter.except = outcome completed
  results : results = reports n completed waiter.joined

namespace Waits

variable {n : Nat} {completed results : List (Option E)} {waiter : Waiter E}

/-- What the waiter calls is what its joiner has to be told. -/
theorem completes_eq (waits : Waits n completed waiter results) :
    waiter.completes = reports n completed waiter.joined := by
  have count := waits.count
  rw [Waiter.completes, reports, waits.except]
  by_cases joined : waiter.joined = true
  · by_cases zero : waiter.count = 0
    · rw [if_pos ⟨zero, joined⟩, if_pos ⟨joined, by omega⟩]
    · rw [if_neg fun both => zero both.1, if_neg fun both => zero (by omega)]
  · rw [if_neg fun both => joined both.2, if_neg fun both => joined both.1]

theorem decr (waits : Waits n completed waiter results) (pending : completed.length < n)
    (result : Option E) :
    Waits n (completed ++ [result]) (waiter.decr result)
      (results ++ (waiter.decr result).completes) := by
  have count := waits.count
  have positive : waiter.count ≠ 0 := by omega
  have lowered : (waiter.decr result).count = waiter.count - 1 := if_neg positive
  have counted : (waiter.decr result).count + (completed ++ [result]).length = n := by
    rw [lowered, List.length_append, List.length_singleton]
    omega
  have except : (waiter.decr result).except = outcome (completed ++ [result]) := by
    rw [outcome_snoc, ← waits.except]
    rfl
  have after : Waits n (completed ++ [result]) (waiter.decr result)
      (reports n (completed ++ [result]) (waiter.decr result).joined) := ⟨counted, except, rfl⟩
  rw [waits.results, reports_pending pending, after.completes_eq]
  exact after

theorem setFunc (waits : Waits n completed waiter results) (alone : waiter.joined = false) :
    Waits n completed waiter.setFunc (results ++ waiter.setFunc.completes) := by
  have after : Waits n completed waiter.setFunc (reports n completed true) :=
    ⟨waits.count, waits.except, rfl⟩
  rw [waits.results, alone, reports_alone, after.completes_eq]
  exact after

end Waits

/-! ## `Raise` -/

/-- The actions that have completed, in order, each with what it called first. -/
def record (outcomes : List (Nat × Option E)) (i : Nat) (result : Option E) :
    List (Nat × Option E) :=
  if i ∈ outcomes.map Prod.fst then outcomes else outcomes ++ [(i, result)]

/-- The i-th action has not been started. -/
def Raise.Unstarted (raise : Raise E) (i : Nat) : Prop :=
  ∀ act, raise.acts[i]? = some act → act.completed = none

/-- A raise that has not returned its `Io`. -/
structure Building (raise : Raise E) : Prop where
  unstarted : ∀ act ∈ raise.acts, act.completed = none
  except : raise.waiter.except = none
  joined : raise.waiter.joined = false
  ran : raise.ran = false
  results : raise.results = []

/-- A raise that has returned its `Io`. -/
structure Joining (outcomes : List (Nat × Option E)) (raise : Raise E) : Prop where
  waits : Waits raise.acts.length (outcomes.map Prod.snd) raise.waiter raise.results
  once : (outcomes.map Prod.fst).Nodup
  done : ∀ i, i ∈ outcomes.map Prod.fst ↔ ∃ l, raise.acts[i]? = some ⟨l, some true⟩

theorem building_initial : Building (Raise.initial : Raise E) :=
  ⟨nofun, rfl, rfl, rfl, rfl⟩

namespace Building

variable {raise : Raise E}

theorem incr (building : Building raise) : Building raise.incr :=
  ⟨building.unstarted, building.except, building.joined, building.ran, building.results⟩

theorem collect (building : Building raise) (l : Nat) : Building (raise.collect l) := by
  refine ⟨?_, building.except, building.joined, building.ran, building.results⟩
  intro act member
  rcases List.mem_append.mp member with old | new
  · exact building.unstarted act old
  · rw [List.mem_singleton.mp new]

theorem unstartedAt (building : Building raise) (i : Nat) : raise.Unstarted i := by
  intro act found
  exact building.unstarted act (List.mem_of_getElem? found)

theorem joining (building : Building raise) (count : raise.waiter.count = raise.acts.length) :
    Joining [] { raise with returned := true } := by
  refine ⟨⟨count, building.except, ?_⟩, .nil, ?_⟩
  · exact building.results.trans (by rw [building.joined, reports_alone])
  · intro i
    constructor
    · nofun
    · rintro ⟨l, found⟩
      cases building.unstartedAt i _ found

end Building

namespace Joining

variable {outcomes : List (Nat × Option E)} {raise : Raise E}

/-- There are no more completed actions than actions. -/
theorem inside (joining : Joining outcomes raise) {i : Nat} (member : i ∈ outcomes.map Prod.fst) :
    i < raise.acts.length := by
  obtain ⟨l, found⟩ := (joining.done i).mp member
  exact (List.getElem?_eq_some_iff.mp found).1

/-- While an action has not completed, the waiter has something to wait for. -/
theorem pending (joining : Joining outcomes raise) {i : Nat} (bound : i < raise.acts.length)
    (waiting : i ∉ outcomes.map Prod.fst) :
    (outcomes.map Prod.snd).length < raise.acts.length := by
  have part : i :: outcomes.map Prod.fst ⊆ List.range raise.acts.length := by
    intro j member
    rcases List.mem_cons.mp member with rfl | done
    · exact List.mem_range.mpr bound
    · exact List.mem_range.mpr (joining.inside done)
  have distinct : (i :: outcomes.map Prod.fst).Nodup := List.nodup_cons.mpr ⟨waiting, joining.once⟩
  have most := (distinct.subperm part).length_le
  rw [List.length_cons, List.length_map, List.length_range] at most
  rw [List.length_map]
  exact most

theorem run (joining : Joining outcomes raise) : Joining outcomes { raise with ran := true } :=
  ⟨joining.waits, joining.once, joining.done⟩

theorem join (joining : Joining outcomes raise) (alone : raise.waiter.joined = false) :
    Joining outcomes raise.join :=
  ⟨joining.waits.setFunc alone, joining.once, joining.done⟩

theorem start (joining : Joining outcomes raise) {i : Nat} (unstarted : raise.Unstarted i) :
    Joining outcomes (raise.start i) := by
  have length : (raise.start i).acts.length = raise.acts.length := List.length_modify _ _ _
  refine ⟨length.symm ▸ joining.waits, joining.once, ?_⟩
  intro j
  rw [joining.done j, Raise.start]
  by_cases same : i = j
  · subst same
    rw [List.getElem?_modify_eq]
    cases found : raise.acts[i]? with
    | none => simp
    | some act =>
        have none := unstarted act found
        constructor
        · rintro ⟨l, same⟩
          cases same
          cases none
        · rintro ⟨l, same⟩
          cases same
  · rw [List.getElem?_modify_ne _ _ same]

theorem complete (joining : Joining outcomes raise) {i l : Nat} {completed : Bool}
    (started : raise.acts[i]? = some ⟨l, some completed⟩) (result : Option E) :
    Joining (record outcomes i result) (raise.complete i result) := by
  cases completed with
  | true =>
      have done : i ∈ outcomes.map Prod.fst := (joining.done i).mpr ⟨l, started⟩
      have same : raise.complete i result = raise := by rw [Raise.complete, started]
      rw [same, record, if_pos done]
      exact joining
  | false =>
      have waiting : i ∉ outcomes.map Prod.fst := by
        intro done
        obtain ⟨l', found⟩ := (joining.done i).mp done
        cases started.symm.trans found
      obtain ⟨bound, -⟩ := List.getElem?_eq_some_iff.mp started
      have waits := joining.waits.decr (joining.pending bound waiting) result
      rw [Raise.complete, started, record, if_neg waiting]
      refine ⟨?_, ?_, ?_⟩
      · rw [List.map_append, List.length_set]
        exact waits
      · rw [List.map_append]
        exact List.concat_eq_append ▸ joining.once.concat waiting
      · intro j
        rw [List.map_append, List.mem_append, joining.done j]
        by_cases same : i = j
        · subst same
          simp [bound]
        · simp [same, Ne.symm same]

end Joining

end SidepoolFormal.S
