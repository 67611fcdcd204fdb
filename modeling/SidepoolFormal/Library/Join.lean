import Mathlib.Data.List.Basic

/-!
# Joining parties

A number of parties complete, each once, passing or failing, in any order.  A
joiner, who may come before or after that, is told the outcome: the failure of
the party that failed first.
-/

namespace SidepoolFormal.Library

variable {E : Type}

/-- The outcome of parties that have completed in this order. -/
def outcome (completed : List (Option E)) : Option E := completed.findSome? id

theorem outcome_snoc (completed : List (Option E)) (result : Option E) :
    outcome (completed ++ [result]) = (outcome completed).or result := by
  rw [outcome, List.findSome?_append, outcome]
  cases result with
  | none => rfl
  | some e => rfl

/-- Everything has passed if and only if each party has. -/
theorem outcome_eq_none_iff (completed : List (Option E)) :
    outcome completed = none ↔ ∀ result ∈ completed, result = none :=
  List.findSome?_eq_none_iff

/-- A failure is that of the party that failed first. -/
theorem outcome_eq_some_iff (completed : List (Option E)) (e : E) :
    outcome completed = some e ↔
      ∃ before after, completed = before ++ some e :: after ∧ ∀ result ∈ before, result = none := by
  rw [outcome, List.findSome?_eq_some_iff]
  constructor
  · rintro ⟨before, result, after, rfl, failed, passed⟩
    exact ⟨before, after, congrArg (before ++ · :: after) failed, passed⟩
  · rintro ⟨before, after, rfl, passed⟩
    exact ⟨before, some e, after, rfl, rfl, passed⟩

/-- What a joiner of n parties has been told. -/
def reports (n : Nat) (completed : List (Option E)) (joined : Bool) : List (Option E) :=
  if joined = true ∧ completed.length = n then [outcome completed] else []

/-- The joiner is told nothing twice. -/
theorem length_reports_le (n : Nat) (completed : List (Option E)) (joined : Bool) :
    (reports n completed joined).length ≤ 1 := by
  rw [reports]
  split
  · exact Nat.le_refl 1
  · exact Nat.zero_le 1

theorem reports_pending {n : Nat} {completed : List (Option E)} (pending : completed.length < n)
    (joined : Bool) : reports n completed joined = [] :=
  if_neg fun done => Nat.ne_of_lt pending done.2

theorem reports_alone (n : Nat) (completed : List (Option E)) :
    reports n completed false = [] :=
  if_neg fun done => Bool.false_ne_true done.1

end SidepoolFormal.Library
