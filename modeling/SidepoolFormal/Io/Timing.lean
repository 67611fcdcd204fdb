import SidepoolFormal.Io.Core
import SidepoolFormal.Io.Program
import SidepoolFormal.Library.Machine

/-!
# Programs whose primitives complete late

A program is run under an assignment that says, for each primitive it starts,
whether it completes inside its core or later from the event loop.  Late
completions leave the try blocks behind that were open.  So what counts is
which continuations throw right on top of a primitive.
-/

namespace SidepoolFormal.Io

open Library StateTransition

variable {E a b R : Type}

/-- A primitive completes, or a continuation given to `run` is called. -/
inductive Request (E R : Type) where
  | prim
  | called (r : Except E R)

abbrev Code (E R : Type) := Proc (Request E R) (fun _ => Unit) E

def returns {c : Type} (throws : Option E) (v : c) : Except E c :=
  match throws with
  | some e => .error e
  | none => .ok v

namespace Prog

def core : {a : Type} → Prog E a → Core (Request E R) (fun _ => Unit) E a
  | _, .lift v => Core.lift v
  | _, .prim (.pass v) => fun pass _ => .ask .prim fun _ => pass v
  | _, .prim (.fail e) => fun _ fail => .ask .prim fun _ => fail e
  | _, .prim (.raise e) => fun _ _ => .throw e
  | _, .thenVal m throws f => Core.thenVal m.core fun v => returns (throws v) (f v).core
  | _, .thenVoid m throws f => Core.thenVoid m.core (returns throws f.core)
  | _, .catching m isA throws h => Core.catching isA m.core fun e => returns (throws e) (h e).core

/-- `Io<a>::run`; the flag `completed` is kept by who is called. -/
def body (m : Prog E a) : Code E a :=
  let subPass := fun v => Proc.ask (.called (.ok v)) fun _ => .ret
  let subFail := fun e => Proc.ask (.called (.error e)) fun _ => .ret
  .attempt (m.core subPass subFail) subFail

end Prog

/-! ## Runs under an assignment -/

/-- The calls of continuations, behind the flag of `run`. -/
abbrev Calls (E R : Type) := Shared (List (Except E R))

/-- A continuation is called unless one has been called. -/
def Calls.add (calls : Calls E R) (r : Except E R) : Calls E R :=
  if calls.completed then calls else ⟨true, calls.rest ++ [r]⟩

structure Config (E R : Type) where
  stop : Proc.Stop (Request E R) (fun _ => Unit) E
  calls : Calls E R
  escaped : List E
  started : Nat

namespace Config

/-- `late n`: the n-th primitive that is started completes from the event loop.
What it throws there goes on into the event loop. -/
def step (late : Nat → Bool) (c : Config E R) : Option (Config E R) :=
  match c.stop with
  | .asks .prim k tries =>
      let stop := if late c.started then .waits .prim k else Proc.settle (k (.ok ())) tries
      some { c with stop := stop, started := c.started + 1 }
  | .asks (.called r) k tries =>
      some { c with stop := Proc.settle (k (.ok ())) tries, calls := c.calls.add r }
  | .waits _ k => some { c with stop := Proc.settle (k (.ok ())) [] }
  | .escaped e => some { c with stop := .done, escaped := c.escaped ++ [e] }
  | .done => none

end Config

namespace Prog

def initial (m : Prog E a) : Config E a := ⟨Proc.settle m.body [], ⟨false, []⟩, [], 0⟩

/-- Under this assignment `run` calls one continuation, once, with this, and
nothing is thrown into the event loop. -/
def Ends (m : Prog E a) (late : Nat → Bool) (r : Except E a) : Prop :=
  ∃ final ∈ StateTransition.eval (Config.step late) m.initial,
    final.calls.rest = [r] ∧ final.escaped = []

/-- What a program throws at once, when its continuation throws `x v` at once
given `v`.  Both forms of `then` catch it. -/
def throwsInto : {a : Type} → Prog E a → (a → Option E) → Option E
  | _, .lift v, x => x v
  | _, .prim (.pass _), _ => none
  | _, .prim (.fail _), _ => none
  | _, .prim (.raise e), _ => some e
  | _, .thenVal _ _ _, _ => none
  | _, .thenVoid _ _ _, _ => none
  | _, .catching m _ _ _, x => m.throwsInto x

/-- No primitive hands its value to a continuation that throws at once.  `x`
tells what the continuation of the program throws at once, and `S` and `F` that
nothing is wrong further on. -/
def Shelters : {a : Type} → Prog E a → (a → Option E) → (a → Prop) → (E → Prop) → Prop
  | _, .lift v, _, S, _ => S v
  | _, .prim (.pass v), x, S, _ => x v = none ∧ S v
  | _, .prim (.fail e), _, _, F => F e
  | _, .prim (.raise _), _, _, _ => True
  | _, .thenVal m throws f, x, S, F =>
      let x' := fun v => (throws v).or ((f v).throwsInto x)
      m.Shelters x' (fun v => throws v = none → (f v).Shelters x S F) F ∧
        ∀ e, m.throwsInto x' = some e → F e
  | _, .thenVoid m throws f, x, S, F =>
      let S' := (throws = none → f.Shelters x S F) ∧
        ∀ e, throws.or (f.throwsInto x) = some e → F e
      m.Shelters (fun _ => none) (fun _ => S') F ∧
        ∀ e, m.throwsInto (fun _ => none) = some e → F e
  | _, .catching m isA throws h, x, S, F =>
      m.Shelters x S fun e =>
        if isA e then
          (throws e = none → (h e).Shelters x S F) ∧
            ∀ e', (throws e).or ((h e).throwsInto x) = some e' → F e'
        else F e

def Sheltered (m : Prog E a) : Prop := m.Shelters (fun _ => none) (fun _ => True) fun _ => True

end Prog

/-! ## Code whose primitives complete late -/

namespace Code

/-- What is thrown before the first primitive has completed. -/
def thrown : Code E R → Option E
  | .ret => none
  | .throw e => some e
  | .attempt body handler => (thrown body).bind fun e => thrown (handler e)
  | .ask .prim _ => none
  | .ask (.called _) k => thrown (k (.ok ()))

/-- Nothing is thrown right on top of a primitive. -/
def Safe : Code E R → Prop
  | .ret => True
  | .throw _ => True
  | .attempt body handler => Safe body ∧ ∀ e, thrown body = some e → Safe (handler e)
  | .ask .prim k => thrown (k (.ok ())) = none ∧ Safe (k (.ok ()))
  | .ask (.called _) k => Safe (k (.ok ()))

/-- The continuations of `run` that are called. -/
def calls : Code E R → List (Except E R)
  | .ret => []
  | .throw _ => []
  | .attempt body handler => calls body ++ match thrown body with
    | none => []
    | some e => calls (handler e)
  | .ask .prim k => calls (k (.ok ()))
  | .ask (.called r) k => r :: calls (k (.ok ()))

end Code

namespace Config

/-- Where code gets to inside try blocks. -/
def after (thrown : Option E) (tries : List (Proc.Try (Request E R) (fun _ => Unit) E)) :
    Proc.Stop (Request E R) (fun _ => Unit) E :=
  match thrown with
  | none => .done
  | some e => Proc.unwind tries e

/-- Safe code gets to the same end under every assignment. -/
theorem safe_reaches {p : Code E R} (safe : Code.Safe p) (late : Nat → Bool)
    (tries : List (Proc.Try (Request E R) (fun _ => Unit) E)) (calls : Calls E R)
    (escaped : List E) (started : Nat) :
    ∃ started', Reaches (step late) ⟨Proc.settle p tries, calls, escaped, started⟩
      ⟨after (Code.thrown p) tries, (Code.calls p).foldl Calls.add calls, escaped, started'⟩ := by
  induction p generalizing tries calls started with
  | ret => exact ⟨started, .refl⟩
  | throw e => exact ⟨started, .refl⟩
  | attempt body handler ih ihh =>
      rw [Proc.settle_attempt]
      obtain ⟨started', first⟩ := ih safe.1 (.code handler :: tries) calls started
      rcases thrown : Code.thrown body with - | e
      · simp only [thrown, after] at first
        simp only [Code.thrown, Code.calls, thrown, after, List.append_nil, Option.bind_none]
        exact ⟨started', first⟩
      · simp only [thrown, after, Proc.unwind_code] at first
        simp only [Code.thrown, Code.calls, thrown, List.foldl_append, Option.bind_some]
        obtain ⟨started'', second⟩ := ihh e (safe.2 e thrown) tries
          ((Code.calls body).foldl Calls.add calls) started'
        exact ⟨started'', first.trans second⟩
  | ask op k ih =>
      cases op with
      | prim =>
          obtain ⟨none, safe⟩ := safe
          simp only [Code.thrown, Code.calls, after]
          cases timing : late started with
          | true =>
              obtain ⟨started', rest⟩ := ih (.ok ()) safe [] calls (started + 1)
              rw [none] at rest
              have waits : step late ⟨.asks .prim k tries, calls, escaped, started⟩ =
                  some ⟨.waits .prim k, calls, escaped, started + 1⟩ := by
                simp only [step, timing, if_true]
              exact ⟨started', .head waits (.head rfl rest)⟩
          | false =>
              obtain ⟨started', rest⟩ := ih (.ok ()) safe tries calls (started + 1)
              rw [none] at rest
              have goes : step late ⟨.asks .prim k tries, calls, escaped, started⟩ =
                  some ⟨Proc.settle (k (.ok ())) tries, calls, escaped, started + 1⟩ := by
                simp only [step, timing, Bool.false_eq_true, if_false]
              exact ⟨started', .head goes rest⟩
      | called r =>
          obtain ⟨started', rest⟩ := ih (.ok ()) safe tries (calls.add r) started
          exact ⟨started', .head rfl rest⟩

/-- Every primitive completes from the event loop. -/
def allLate (_ : Nat) : Bool := true

/-- In code that is not safe something is thrown on top of a primitive that
completes from the event loop. -/
theorem unsafe_escapes {p : Code E R} (unsafe' : ¬Code.Safe p)
    (tries : List (Proc.Try (Request E R) (fun _ => Unit) E)) (calls : Calls E R)
    (escaped : List E) (started : Nat) :
    ∃ e calls' started', Reaches (step allLate) ⟨Proc.settle p tries, calls, escaped, started⟩
      ⟨.escaped e, calls', escaped, started'⟩ := by
  induction p generalizing tries calls started with
  | ret => exact absurd trivial unsafe'
  | throw e => exact absurd trivial unsafe'
  | attempt body handler ih ihh =>
      rw [Proc.settle_attempt]
      by_cases safe : Code.Safe body
      · have inner : ∃ e, Code.thrown body = some e ∧ ¬Code.Safe (handler e) := by
          by_contra none
          refine unsafe' ⟨safe, fun e thrown => ?_⟩
          by_contra fails
          exact none ⟨e, thrown, fails⟩
        obtain ⟨e, thrown, fails⟩ := inner
        obtain ⟨started', first⟩ :=
          safe_reaches safe allLate (.code handler :: tries) calls escaped started
        rw [thrown, after, Proc.unwind_code] at first
        obtain ⟨e', calls', started'', second⟩ := ihh e fails tries _ started'
        exact ⟨e', calls', started'', first.trans second⟩
      · exact ih safe (.code handler :: tries) calls started
  | ask op k ih =>
      cases op with
      | prim =>
          have completes (calls : Calls E R) : Reaches (step allLate)
              ⟨.asks .prim k tries, calls, escaped, started⟩
              ⟨Proc.settle (k (.ok ())) [], calls, escaped, started + 1⟩ := .head rfl (.single rfl)
          by_cases safe : Code.Safe (k (.ok ()))
          · rcases thrown : Code.thrown (k (.ok ())) with - | e
            · exact absurd ⟨thrown, safe⟩ unsafe'
            · obtain ⟨started', rest⟩ := safe_reaches safe allLate [] calls escaped (started + 1)
              rw [thrown] at rest
              exact ⟨e, _, started', (completes calls).trans rest⟩
          · obtain ⟨e, calls', started', rest⟩ := ih (.ok ()) safe [] calls (started + 1)
            exact ⟨e, calls', started', (completes calls).trans rest⟩
      | called r =>
          obtain ⟨e, calls', started', rest⟩ := ih (.ok ()) unsafe' tries (calls.add r) started
          exact ⟨e, calls', started', .head rfl rest⟩

end Config

/-! ## Programs as code -/

namespace Prog

theorem thrown_enter (throws : Option E) (core : Core (Request E R) (fun _ => Unit) E a)
    (pass : a → Code E R) (fail : E → Code E R) :
    Code.thrown (Core.enter (returns throws core) pass fail) =
      throws.or (Code.thrown (core pass fail)) := by
  cases throws <;> rfl

theorem safe_enter (throws : Option E) (core : Core (Request E R) (fun _ => Unit) E a)
    (pass : a → Code E R) (fail : E → Code E R) :
    Code.Safe (Core.enter (returns throws core) pass fail) ↔
      (throws = none → Code.Safe (core pass fail)) := by
  cases throws with
  | none => simp [Core.enter, returns]
  | some e => simp [Core.enter, returns, Code.Safe]

/-- Continuations for exceptions that throw nothing themselves. -/
def Mute (fail : E → Code E R) : Prop := ∀ e, Code.thrown (fail e) = none

theorem thrown_attempt {fail : E → Code E R} (mute : Mute fail) (p : Code E R) :
    Code.thrown (.attempt p fail) = none := by
  rw [Code.thrown]
  cases Code.thrown p with
  | none => rfl
  | some e => exact mute e

/-- The continuation for exceptions that `catching` gives to its program. -/
theorem mute_subFail {isA : E → Bool} {handled : E → Code E R} {fail : E → Code E R}
    (mute : Mute fail) : Mute fun e => if isA e then .attempt (handled e) fail else fail e := by
  intro e
  dsimp only
  split
  · exact thrown_attempt mute (handled e)
  · exact mute e

theorem thrown_core (m : Prog E a) {pass : a → Code E R} {fail : E → Code E R}
    (mute : Mute fail) :
    Code.thrown (m.core pass fail) = m.throwsInto fun v => Code.thrown (pass v) := by
  induction m generalizing fail with
  | lift v => rfl
  | prim r => cases r <;> rfl
  | thenVal m throws f ih ihf => exact thrown_attempt mute _
  | thenVoid m throws f ih ihf => exact thrown_attempt mute _
  | catching m isA throws h ih ihh => exact ih (mute_subFail mute)

theorem safe_core (m : Prog E a) {pass : a → Code E R} {fail : E → Code E R}
    (mute : Mute fail) :
    Code.Safe (m.core pass fail) ↔
      m.Shelters (fun v => Code.thrown (pass v)) (fun v => Code.Safe (pass v))
        fun e => Code.Safe (fail e) := by
  induction m generalizing fail with
  | lift v => rfl
  | prim r =>
      cases r with
      | pass v => rfl
      | fail e => exact and_iff_right (mute e)
      | raise e => rfl
  | thenVal m throws f ih ihf =>
      have thrown (v) : Code.thrown (Core.enter (returns (throws v) (f v).core) pass fail) =
          (throws v).or ((f v).throwsInto fun v => Code.thrown (pass v)) := by
        rw [thrown_enter, thrown_core (f v) mute]
      have safe (v) := (safe_enter (throws v) (f v).core pass fail).trans
        (imp_congr_right fun _ => ihf v mute)
      change Code.Safe (m.core _ fail) ∧ (∀ e, Code.thrown (m.core _ fail) = some e → _) ↔ _
      rw [ih mute, thrown_core m mute]
      simp only [thrown, safe, Shelters]
  | thenVoid m throws f ih ihf =>
      have thrown : Code.thrown (Core.enter (returns throws f.core) pass fail) =
          throws.or (f.throwsInto fun v => Code.thrown (pass v)) := by
        rw [thrown_enter, thrown_core f mute]
      have safe := (safe_enter throws f.core pass fail).trans (imp_congr_right fun _ => ihf mute)
      change Code.Safe (m.core _ fail) ∧ (∀ e, Code.thrown (m.core _ fail) = some e → _) ↔ _
      rw [ih mute, thrown_core m mute]
      simp only [thrown_attempt mute, Code.Safe, thrown, safe, Shelters]
  | catching m isA throws h ih ihh =>
      have thrown (e) : Code.thrown (Core.enter (returns (throws e) (h e).core) pass fail) =
          (throws e).or ((h e).throwsInto fun v => Code.thrown (pass v)) := by
        rw [thrown_enter, thrown_core (h e) mute]
      have safe (e) := (safe_enter (throws e) (h e).core pass fail).trans
        (imp_congr_right fun _ => ihh e mute)
      change Code.Safe (m.core _ _) ↔ _
      rw [ih (mute_subFail mute), Shelters]
      refine iff_of_eq (congrArg _ (funext fun e => propext ?_))
      split
      · rw [Code.Safe, safe, thrown]
      · rfl

/-- Code that calls a continuation of `run` or throws, if it is safe. -/
def Speaks (p : Code E R) : Prop :=
  Code.Safe p → Code.calls p ≠ [] ∨ Code.thrown p ≠ none

theorem speaks_attempt {p : Code E R} {fail : E → Code E R} (mute : Mute fail) (speaks : Speaks p)
    (failed : ∀ e, Speaks (fail e)) : Speaks (.attempt p fail) := by
  rintro ⟨safe, handled⟩
  left
  rw [Code.calls]
  rcases thrown : Code.thrown p with - | e
  · have called := (speaks safe).resolve_right (not_not.mpr thrown)
    rwa [List.append_nil]
  · have called := (failed e (handled e thrown)).resolve_right (not_not.mpr (mute e))
    exact List.append_ne_nil_of_right_ne_nil _ called

theorem speaks_enter {throws : Option E} {core : Core (Request E R) (fun _ => Unit) E a}
    {pass : a → Code E R} {fail : E → Code E R} (speaks : Speaks (core pass fail)) :
    Speaks (Core.enter (returns throws core) pass fail) := by
  cases throws with
  | none => exact speaks
  | some e => exact fun _ => .inr (Option.some_ne_none e)

theorem speaks_core (m : Prog E a) {pass : a → Code E R} {fail : E → Code E R} (mute : Mute fail)
    (passed : ∀ v, Speaks (pass v)) (failed : ∀ e, Speaks (fail e)) :
    Speaks (m.core pass fail) := by
  induction m generalizing fail with
  | lift v => exact passed v
  | prim r =>
      cases r with
      | pass v =>
          rintro ⟨none, safe⟩
          exact .inl ((passed v safe).resolve_right (not_not.mpr none))
      | fail e =>
          rintro ⟨none, safe⟩
          exact .inl ((failed e safe).resolve_right (not_not.mpr none))
      | raise e => exact fun _ => .inr (Option.some_ne_none e)
  | thenVal m throws f ih ihf =>
      apply speaks_attempt mute (ih mute _ failed) failed
      intro v
      exact speaks_enter (ihf v mute passed failed)
  | thenVoid m throws f ih ihf =>
      apply speaks_attempt mute (ih mute _ failed) failed
      intro _
      exact speaks_attempt mute (speaks_enter (ihf mute passed failed)) failed
  | catching m isA throws h ih ihh =>
      apply ih (mute_subFail mute) passed
      intro e
      dsimp only
      split
      · exact speaks_attempt mute (speaks_enter (ihh e mute passed failed)) failed
      · exact failed e

/-! ## Outcomes under all assignments -/

theorem thrown_body (m : Prog E a) : Code.thrown m.body = none := thrown_attempt (fun _ => rfl) _

theorem safe_body (m : Prog E a) : Code.Safe m.body ↔ m.Sheltered := by
  let subPass := fun v : a => (.ask (.called (.ok v)) fun _ => .ret : Code E a)
  let subFail := fun e : E => (.ask (.called (.error e)) fun _ => .ret : Code E a)
  have mute : Mute subFail := fun _ => rfl
  have inner : Code.Safe (m.core subPass subFail) ↔ m.Sheltered := safe_core m mute
  have handled : ∀ e, Code.thrown (m.core subPass subFail) = some e → True := fun _ _ => trivial
  exact (and_iff_left handled).trans inner

theorem speaks_body (m : Prog E a) : Speaks m.body := by
  have called (r : Except E a) : Speaks (.ask (.called r) fun _ => .ret : Code E a) :=
    fun _ => .inl (List.cons_ne_nil r [])
  exact speaks_attempt (fun _ => rfl)
    (speaks_core m (fun _ => rfl) (fun v => called (.ok v)) fun e => called (.error e))
    fun e => called (.error e)

/-- Only the first call of a continuation counts. -/
theorem foldl_add (r : Except E R) (rs : List (Except E R)) :
    (r :: rs).foldl Calls.add ⟨false, []⟩ = ⟨true, [r]⟩ := by
  rw [List.foldl_cons]
  induction rs with
  | nil => rfl
  | cons r' rs ih => exact ih

/-- However the primitives of a program complete, it has the same outcome and
throws nothing into the event loop, exactly when no primitive hands its value
to a continuation that throws. -/
theorem ends_alike_iff (m : Prog E a) :
    (∀ late late', ∃ r, m.Ends late r ∧ m.Ends late' r) ↔ m.Sheltered := by
  rw [← safe_body]
  constructor
  · intro alike
    by_contra unsafe'
    obtain ⟨r, ⟨final, ends, -, quiet⟩, -⟩ := alike Config.allLate Config.allLate
    obtain ⟨e, calls, started, reaches⟩ :=
      Config.unsafe_escapes unsafe' [] ⟨false, []⟩ ([] : List E) 0
    have last : Reaches (Config.step Config.allLate) m.initial ⟨.done, calls, [e], started⟩ :=
      reaches.tail rfl
    have same : final = ⟨.done, calls, [e], started⟩ :=
      Part.mem_unique ends (mem_eval.mpr ⟨last, rfl⟩)
    rw [same] at quiet
    cases quiet
  · intro safe late late'
    obtain ⟨r, rs, called⟩ := List.exists_cons_of_ne_nil
      ((speaks_body m safe).resolve_right (not_not.mpr (thrown_body m)))
    have ends (late : Nat → Bool) : m.Ends late r := by
      obtain ⟨started, reaches⟩ := Config.safe_reaches safe late [] ⟨false, []⟩ ([] : List E) 0
      rw [thrown_body, called, foldl_add] at reaches
      exact ⟨_, mem_eval.mpr ⟨reaches, rfl⟩, rfl, rfl⟩
    exact ⟨r, ends late, ends late'⟩

/-! ## A continuation that throws -/

/-- A primitive of a value, with a continuation that throws. -/
def thrownBack : Prog Unit Nat := .thenVal (.prim (.pass 0)) (fun _ => some ()) .lift

/-- The same for a primitive without a value. -/
def thrownBackVoid : Prog Unit Nat := .thenVoid (.prim (.pass ())) (some ()) (.lift 0)

/-- The exception is given to `fail` when the primitive completes inside its
core, and goes into the event loop when it completes late.  `Io<void>::then`
gives it to `fail` both times. -/
theorem thrownBack_not_alike :
    thrownBack.Ends (fun _ => false) (.error ()) ∧ (∀ r, ¬thrownBack.Ends (fun _ => true) r) ∧
      thrownBackVoid.Ends (fun _ => false) (.error ()) ∧
      thrownBackVoid.Ends (fun _ => true) (.error ()) := by
  refine ⟨?_, ?_, ?_, ?_⟩
  · exact ⟨_, mem_eval.mpr ⟨.head rfl (.head rfl .refl), rfl⟩, rfl, rfl⟩
  · rintro r ⟨final, ends, -, quiet⟩
    have last : (⟨.done, ⟨false, []⟩, [()], 1⟩ : Config Unit Nat) ∈
        StateTransition.eval (Config.step fun _ => true) thrownBack.initial :=
      mem_eval.mpr ⟨.head rfl (.head rfl (.head rfl .refl)), rfl⟩
    rw [Part.mem_unique ends last] at quiet
    cases quiet
  · exact ⟨_, mem_eval.mpr ⟨.head rfl (.head rfl .refl), rfl⟩, rfl, rfl⟩
  · exact ⟨_, mem_eval.mpr ⟨.head rfl (.head rfl (.head rfl .refl)), rfl⟩, rfl, rfl⟩

end Prog

end SidepoolFormal.Io
