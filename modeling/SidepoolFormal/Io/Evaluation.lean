import SidepoolFormal.Io.Program
import Mathlib.Tactic.Basic

/-!
# Running and evaluating

A clean program, given its two continuations, does what its evaluation says,
inside the try block that it leaves open.  In a program that is not clean an
exception takes a wrong way, and some function is entered that should not be,
or is not entered that should be.
-/

namespace SidepoolFormal.Io

open Library

variable {E a b R : Type}

/-! ## Sites -/

theorem not_left_of_right {s p : Site} (h : (Side.right :: s) <:+ p) :
    ¬ (Side.left :: s) <:+ p := by
  intro h'
  have inner := List.suffix_of_suffix_length_le h' h (Nat.le_refl _)
  have same := inner.eq_of_length rfl
  cases same

theorem under_of_side {side : Side} {s p : Site} (h : (side :: s) <:+ p) : s <:+ p :=
  (List.suffix_cons side s).trans h

theorem ne_of_side {side : Side} {s p : Site} (h : (side :: s) <:+ p) : p ≠ s := by
  rintro rfl
  exact absurd h.length_le (by simp)

/-- A state in which more functions have been entered. -/
def log (l : List Site) (st : Shared (World R)) : Shared (World R) :=
  { st with rest := { st.rest with entered := st.rest.entered ++ l } }

theorem record_eq (s : Site) : (record s : Shared (World R) → Shared (World R)) = log [s] := rfl

@[simp] theorem log_log (l l' : List Site) (st : Shared (World R)) :
    log l' (log l st) = log (l ++ l') st := by
  simp [log]

@[simp] theorem log_nil (st : Shared (World R)) : log [] st = st := by
  simp [log]

@[simp] theorem log_entered (l : List Site) (st : Shared (World R)) :
    (log l st).rest.entered = st.rest.entered ++ l := rfl

@[simp] theorem log_calls (l : List Site) (st : Shared (World R)) :
    (log l st).rest.calls = st.rest.calls := rfl

@[simp] theorem log_completed (l : List Site) (st : Shared (World R)) :
    (log l st).completed = st.completed := rfl

theorem enter_apply {c : Type} (s : Site) (throws : Option E) (returns : c)
    (st : Shared (World R)) :
    enter s throws returns st = match throws with
      | some e => (.error e, log [s] st)
      | none => (.ok returns, log [s] st) := by
  unfold enter
  rw [Effect.bind_apply, Effect.modify_apply, record_eq]
  cases throws <;> rfl

/-! ## The evaluation as a value and a list of sites -/

namespace Prog

/-- The sites entered by the evaluation. -/
def entries : {a : Type} → Prog E a → Site → List Site
  | _, .lift _, _ => []
  | _, .prim _, _ => []
  | _, .thenVal m throws f, s =>
      m.entries (.left :: s) ++ match m.outcome with
        | .error _ => []
        | .ok v => s :: match throws v with
          | some _ => []
          | none => (f v).entries (.right :: s)
  | _, .thenVoid m throws f, s =>
      m.entries (.left :: s) ++ match m.outcome with
        | .error _ => []
        | .ok _ => s :: match throws with
          | some _ => []
          | none => f.entries (.right :: s)
  | _, .catching m isA throws h, s =>
      m.entries (.left :: s) ++ match m.outcome with
        | .ok _ => []
        | .error e => if isA e then s :: match throws e with
            | some _ => []
            | none => (h e).entries (.right :: s)
          else []

theorem eval_apply (m : Prog E a) (s : Site) (st : Shared (World R)) :
    m.eval s st = (m.outcome, log (m.entries s) st) := by
  induction m generalizing s st with
  | lift v => simp [eval, outcome, entries, Effect.pure_apply]
  | prim r =>
      cases r <;> simp [eval, outcome, entries, Effect.pure_apply, Effect.throw_apply]
  | thenVal m throws f ih ihf =>
      simp only [eval, outcome, entries, Effect.bind_apply, ih]
      cases m.outcome with
      | error e => simp
      | ok v =>
          simp only [enter_apply]
          cases thrown : throws v with
          | some e => simp
          | none => simp [ihf]
  | thenVoid m throws f ih ihf =>
      simp only [eval, outcome, entries, Effect.bind_apply, ih]
      cases m.outcome with
      | error e => simp
      | ok v =>
          simp only [enter_apply]
          cases throws with
          | some e => simp
          | none => simp [ihf]
  | catching m isA throws h ih ihh =>
      simp only [eval, outcome, entries, Effect.tryCatch_apply, ih]
      cases m.outcome with
      | ok v => simp
      | error e =>
          cases handled : isA e with
          | false => simp [handled, Effect.throw_apply]
          | true =>
              simp only [handled, if_true, Effect.bind_apply, enter_apply]
              cases thrown : throws e with
              | some e' => simp
              | none => simp [ihh]

end Prog

end SidepoolFormal.Io
