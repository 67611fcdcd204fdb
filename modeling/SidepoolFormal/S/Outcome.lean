import SidepoolFormal.S.Answer
import Mathlib.Data.List.Perm.Subperm

/-!
# What a raise has come to

What the continuations of a raise have been told says what has become of the
functions it has called.
-/

namespace SidepoolFormal.S

open Library

variable {E : Type}

/-- Every function that the r-th raise has called has returned an action, and that
has passed. -/
structure Finished (trace : List (Label E)) (r : Nat) : Prop where
  ends : .ends r ∈ trace
  actions : ∀ l, .calls r l ∈ trace →
    ∃ i, (trace.filterMap (returned r))[i]? = some l ∧ (i, none) ∈ outcomes r trace

/-- A function has thrown, or an action has failed, and none before it. -/
def Failed (trace : List (Label E)) (r : Nat) (e : E) : Prop :=
  (∃ l, .throws r l e ∈ trace) ∨ outcome ((outcomes r trace).map Prod.snd) = some e

/-- An action has been collected that has not completed. -/
def Pending (trace : List (Label E)) (r : Nat) : Prop :=
  ∃ i l, (trace.filterMap (returned r))[i]? = some l ∧ i ∉ (outcomes r trace).map Prod.fst

section

variable {trace : List (Label E)} {s : State E} {r : Nat} {raise : Raise E}

/-- A raise that has told anything has returned. -/
theorem returned_of_results (run : Run Step initial trace s) (found : s.raises[r]? = some raise)
    {result : Option E} (told : result ∈ raise.results) : raise.returned = true := by
  have sound := (raised_of_run run).sound r raise found
  rw [← Bool.not_eq_false]
  intro still
  rw [(sound.building still).1.results] at told
  cases told

/-- What it tells is the outcome of all its actions. -/
theorem outcome_of_results (run : Run Step initial trace s) (found : s.raises[r]? = some raise)
    {result : Option E} (told : result ∈ raise.results) :
    (outcomes r trace).length = raise.acts.length ∧
      outcome ((outcomes r trace).map Prod.snd) = result := by
  have returned := returned_of_results run found told
  have joining := ((raised_of_run run).sound r raise found).joining returned
  rw [joining.waits.results, reports] at told
  split at told
  · rename_i all
    rw [List.length_map] at all
    exact ⟨all.2, (List.mem_singleton.mp told).symm⟩
  · cases told

/-- A function whose walk has come to its end has returned. -/
theorem returns_of_calls (run : Run Step initial trace s) (found : s.raises[r]? = some raise)
    (ended : raise.returned = true) {l : Nat} (called : .calls r l ∈ trace) :
    .returns r l ∈ trace := by
  have answers := answers_of_run run
  have raised := raised_of_run run
  have ends := (raised.sound r raise found).marks.ends.mpr ended
  rcases answers.answered r l called with returns | ⟨e, throws⟩ | ⟨prev, frame⟩
  · exact returns
  · exact absurd ends (answers.threw r l e throws).2.1
  · have fits := (raised.fits _ frame raise found).1
    rw [ended] at fits
    cases fits

theorem finished_of_passed (run : Run Step initial trace s) (found : s.raises[r]? = some raise)
    (passed : none ∈ raise.results) : Finished trace r := by
  have ended := returned_of_results run found passed
  have sound := (raised_of_run run).sound r raise found
  have joining := sound.joining ended
  obtain ⟨all, outcome⟩ := outcome_of_results run found passed
  have leases := (called_of_run run).acts r raise found
  refine ⟨sound.marks.ends.mpr ended, ?_⟩
  intro l called
  have returns := returns_of_calls run found ended called
  have collected : l ∈ trace.filterMap (returned r) :=
    List.mem_filterMap.mpr ⟨_, returns, if_pos rfl⟩
  obtain ⟨i, place⟩ := List.getElem?_of_mem collected
  have bound : i < raise.acts.length := by
    have inside := (List.getElem?_eq_some_iff.mp place).1
    rw [← leases, Raise.leases, List.length_map] at inside
    exact inside
  -- as many actions have completed as there are, and none of them twice
  have inside : (outcomes r trace).map Prod.fst ⊆ List.range raise.acts.length := by
    intro j member
    obtain ⟨l', act⟩ := (joining.done j).mp member
    exact List.mem_range.mpr (List.getElem?_eq_some_iff.mp act).1
  have whole : (outcomes r trace).map Prod.fst |>.Perm (List.range raise.acts.length) := by
    have length : (List.range raise.acts.length).length =
        ((outcomes r trace).map Prod.fst).length := by
      rw [List.length_range, List.length_map, all]
    exact (joining.once.subperm inside).perm_of_length_le (Nat.le_of_eq length)
  have completed := whole.mem_iff.mpr (List.mem_range.mpr bound)
  obtain ⟨⟨j, result⟩, member, rfl⟩ := List.mem_map.mp completed
  have told : result ∈ (outcomes r trace).map Prod.snd := List.mem_map_of_mem member
  have none := (outcome_eq_none_iff _).mp outcome result told
  exact ⟨j, place, none ▸ member⟩

theorem failed_of_told (run : Run Step initial trace s) (found : s.raises[r]? = some raise)
    {e : E} (told : some e ∈ raise.results) : Failed trace r e :=
  .inr (outcome_of_results run found told).2

/-- A raise whose `Io` has been run, and has told nothing, waits for an action. -/
theorem pending_of_untold (run : Run Step initial trace s) (found : s.raises[r]? = some raise)
    (ran : raise.ran = true) (left : r ∉ s.stack.map Frame.raise) (untold : raise.results = []) :
    Pending trace r := by
  have sound := (raised_of_run run).sound r raise found
  have joined := (sound.busy ran).resolve_right left
  have joining := sound.joining (sound.returned_of_ran ran)
  have leases := (called_of_run run).acts r raise found
  by_contra settled
  have all : List.range raise.acts.length ⊆ (outcomes r trace).map Prod.fst := by
    intro i member
    by_contra missing
    have bound : i < (trace.filterMap (returned r)).length := by
      rw [← leases, Raise.leases, List.length_map]
      exact List.mem_range.mp member
    exact settled ⟨i, _, List.getElem?_eq_getElem bound, missing⟩
  have count := joining.waits.count
  have enough := (List.nodup_range.subperm all).length_le
  rw [List.length_range] at enough
  rw [List.length_map] at count enough
  have results := joining.waits.results
  rw [untold, reports, if_pos ⟨joined, by rw [List.length_map]; omega⟩] at results
  cases results

end

end SidepoolFormal.S
