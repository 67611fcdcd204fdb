import SidepoolFormal.Saver.Cores
import SidepoolFormal.Library.Run

/-!
# One call of `rmw` or `crud` as it runs

A call asks for one thing after another, and each may complete inside its core
or later from the event loop.  An exception that comes back from a continuation
or from the user's function meets the try blocks that are still open: those of
what has completed inside its core.
-/

namespace SidepoolFormal.Saver

open Library

variable {V A X : Type}

abbrev Stop (V A : Type) := Proc.Stop (Req V A) Req.Ans Exn

abbrev Open (V A : Type) := Proc.Try (Req V A) Req.Ans Exn

abbrev Happening (V A : Type) := Proc.Event (Req V A) Req.Ans Exn

/-- Operations of the saver that change the entry. -/
def Op.writes : Op V A → Bool
  | .create _ => true
  | .update _ _ => true
  | .del _ => true
  | _ => false

/-- Operations of the saver. -/
def Op.stored : Op V A → Bool
  | .read => true
  | o => o.writes

/-! ## Runs of a call -/

def passing (v : A) : Code V A := .ask (.passed v) fun _ => .ret

def failing (e : Exn) : Code V A := .ask (.failed e) fun _ => .ret

/-- A call that is made once more goes on with the continuations it has. -/
def body (program : Call V A A) :
    (r : Req V A) → Option ((Except Exn r.Ans → Code V A) → Code V A)
  | .op .again => some fun k => program (fun v => k (.ok v)) fun e => k (.error e)
  | .op _ => none
  | .calls _ => none
  | .passed _ => none
  | .failed _ => none

/-- The idler always completes later, and never fails.  The saver completes
when it likes, and reports through its callbacks.  What the user's function does,
and what the caller's continuations throw, is arbitrary. -/
inductive Allowed : Happening V A → Prop
  | yields : Allowed (.later (.op .yield))
  | yielded : Allowed (.resumed (.op .yield) (.ok ()) false)
  | stored {o : Op V A} (stored : o.stored = true) (r : Except Exn o.Ans) :
      Allowed (.now (.op o) r false)
  | storedLater {o : Op V A} (stored : o.stored = true) : Allowed (.later (.op o))
  | storedResumed {o : Op V A} (stored : o.stored = true) (r : Except Exn o.Ans) :
      Allowed (.resumed (.op o) r false)
  | called (content : A) : Allowed (.now (.calls content) (.ok ()) false)
  | callThrows (content : A) (e : Exn) : Allowed (.raises (.calls content) e)
  | func (content : A) (r : Except Exn A) (guarded : Bool) :
      Allowed (.now (.op (.func content)) r guarded)
  | funcThrows (content : A) (e : Exn) : Allowed (.raises (.op (.func content)) e)
  | funcLater (content : A) : Allowed (.later (.op (.func content)))
  | funcResumed (content : A) (r : Except Exn A) (guarded : Bool) :
      Allowed (.resumed (.op (.func content)) r guarded)
  | passed (v : A) : Allowed (.now (.passed v) (.ok ()) false)
  | passedThrows (v : A) (e : Exn) : Allowed (.raises (.passed v) e)
  | failed (e : Exn) : Allowed (.now (.failed e) (.ok ()) false)
  | failedThrows (e e' : Exn) : Allowed (.raises (.failed e) e')
  | again : Allowed (.enters (.op .again))

namespace Thread

def initial (program : Call V A A) : Stop V A := Proc.settle (program passing failing) []

structure Step (program : Call V A A) (s : Stop V A) (ev : Happening V A) (s' : Stop V A) :
    Prop where
  step : Proc.Step (body program) s ev s'
  allowed : Allowed ev

theorem started (program : Call V A A) :
    Run (Step program) (initial program) [] (initial program) :=
  .nil

end Thread

/-! ## How the parts of a call behave -/

/-- A `catching` around reading: some exceptions stand for something read. -/
def missed (missing : Exn → Option X) (pass : X → Code V A) (fail : Exn → Code V A) (e : Exn) :
    Code V A :=
  match missing e with
  | none => fail e
  | some x => .attempt (pass x) fail

/-- The entry is read by one operation; an exception that comes back from what
follows is taken for its own. -/
def Reads (reading : Call V A X) (found : Nat × V → X) (missing : Exn → Option X) : Prop :=
  ∀ pass fail, ∃ k rest,
    Proc.settle (reading pass fail) [.code fail] =
      .asks (.op .read) k (.code (missed missing pass fail) :: rest) ∧
    (∀ entry, k (.ok entry) = pass (found entry)) ∧
    (∀ e, k (.error e) = missed missing pass fail e) ∧
    ∀ t ∈ rest, t = .code fail

/-- A handler that fails, or makes the call once more. -/
inductive Retries (pass : Option A → Code V A) (fail : Exn → Code V A) :
    (Exn → Code V A) → Prop
  | fails : Retries pass fail fail
  | catches {handler : Exn → Code V A} (isA : Exn → Bool) (outer : Retries pass fail handler) :
      Retries pass fail fun e => if isA e then .attempt (pass none) handler else handler e

/-- What is done with the answer to a write: for a conflict that it reports the
call is made once more. -/
structure Judged (pass : Option A → Code V A) (fail : Exn → Code V A) {o : Op V A} (result : A)
    (conflicts : Exn → Bool) (k : Except Exn o.Ans → Code V A) (sub : Exn → Code V A) : Prop where
  retries : Retries pass fail sub
  fails : ∀ e, k (.error e) = sub e
  refused : ∀ e, conflicts e = false → sub e = fail e
  conflict : ∀ e, conflicts e = true → ∃ handler, sub e = .attempt (pass none) handler
  passes : ∀ r, k (.ok r) = pass (some result) ∨ k (.ok r) = .attempt (pass (some result)) sub

/-- A value is written by one operation. -/
def Writes (writing : Call V A (Option A)) (o : Op V A) (result : A) (conflicts : Exn → Bool) :
    Prop :=
  ∀ pass fail tries, ∃ k sub,
    Proc.settle (writing pass fail) tries = .asks (.op o) k (.code sub :: tries) ∧
    Judged pass fail result conflicts k sub

/-- The parts of a call: how the entry is read and written, and what the
exceptions of the saver mean. -/
structure Plan (V A X : Type) where
  reading : Call V A X
  content : X → A
  writing : X → A → Call V A (Option A)
  found : Nat × V → X
  missing : Exn → Option X
  written : X → A → Option (Op V A)
  conflicts : Op V A → Exn → Bool
  reads : Reads reading found missing
  writes : ∀ x v o, written x v = some o →
    o.writes = true ∧ Writes (writing x v) o v (conflicts o)
  keeps : ∀ x v, written x v = none → writing x v = Core.lift (some v)

/-! ### `rmw` -/

namespace Rmw

def written (entry : Nat × V) (nvalue : V) : Option (Op V V) := some (.update entry.1 nvalue)

def conflicts : Op V V → Exn → Bool
  | .update _ _, e => isWrongGeneration e
  | _, _ => false

theorem reads : Reads (perform .read : Call V V (Nat × V)) id fun _ => none := by
  intro pass fail
  exact ⟨_, [], rfl, fun _ => rfl, fun _ => rfl, fun t absurd => nomatch absurd⟩

theorem writes (entry : Nat × V) (nvalue : V) :
    Writes (writeCore entry nvalue) (.update entry.1 nvalue) nvalue isWrongGeneration := by
  intro pass fail tries
  refine ⟨_, _, rfl, .catches isWrongGeneration .fails, fun _ => rfl, ?_, ?_, fun _ => .inl rfl⟩
  · intro e other
    exact if_neg (by simp [other])
  · intro e conflict
    exact ⟨fail, if_pos conflict⟩

def plan : Plan V V (Nat × V) where
  reading := perform .read
  content := Prod.snd
  writing := writeCore
  found := id
  missing := fun _ => none
  written := written
  conflicts := conflicts
  reads := reads
  writes := by
    intro entry nvalue o same
    cases same
    exact ⟨rfl, writes entry nvalue⟩
  keeps := by
    intro entry nvalue absurd
    cases absurd

end Rmw

/-! ### `crud` -/

namespace Crud

def written : Option (Nat × V) → Option V → Option (Op V (Option V))
  | none, none => none
  | none, some nvalue => some (.create nvalue)
  | some (generation, _), none => some (.del generation)
  | some (generation, _), some nvalue => some (.update generation nvalue)

def missing (e : Exn) : Option (Option (Nat × V)) := if isKeyNotFound e then some none else none

def conflicts : Op V (Option V) → Exn → Bool
  | .create _, e => isKeyExists e
  | .update _ _, e => isKeyNotFound e || isWrongGeneration e
  | .del _, e => isKeyNotFound e || isWrongGeneration e
  | _, _ => false

theorem reads : Reads (tryReadCore : Call V (Option V) (Option (Nat × V))) some missing := by
  intro pass fail
  have same (e : Exn) : (if isKeyNotFound e then
      Proc.attempt (pass none) fail else fail e) = missed missing pass fail e := by
    rw [missed, missing]
    cases isKeyNotFound e with
    | true => rfl
    | false => rfl
  rw [← funext same]
  exact ⟨_, [.code fail], rfl, fun _ => rfl, fun _ => rfl, by simp⟩

/-- A write inside the two handlers. -/
theorem writes_checked {core : Call V (Option V) (Option (Option V))} {o : Op V (Option V)}
    {result : Option V}
    (asks : ∀ pass fail tries, ∃ k,
      Proc.settle (core pass fail) tries = .asks (.op o) k (.code fail :: tries) ∧
      (∀ e, k (.error e) = fail e) ∧
      ∀ r, k (.ok r) = pass (some result) ∨ k (.ok r) = .attempt (pass (some result)) fail) :
    Writes
      (Core.catching isWrongGeneration (Core.catching isKeyNotFound core conflictCore)
        conflictCore) o result fun e => isKeyNotFound e || isWrongGeneration e := by
  intro pass fail tries
  have outer : Retries pass fail _ := .catches isWrongGeneration .fails
  obtain ⟨k, settles, fails, passes⟩ :=
    asks pass (fun e => if isKeyNotFound e then .attempt (pass none) _ else _) tries
  refine ⟨k, _, settles, .catches isKeyNotFound outer, fails, ?_, ?_, passes⟩
  · intro e other
    obtain ⟨found, generation⟩ := Bool.or_eq_false_iff.mp other
    simp [found, generation]
  · intro e conflict
    cases found : isKeyNotFound e with
    | true => exact ⟨_, if_pos rfl⟩
    | false =>
        rw [found, Bool.false_or] at conflict
        exact ⟨fail, (if_neg Bool.false_ne_true).trans (if_pos conflict)⟩

theorem writes {entr : Option (Nat × V)} {nvalue : Option V} {o : Op V (Option V)}
    (same : written entr nvalue = some o) :
    o.writes = true ∧ Writes (writeCore entr nvalue) o nvalue (conflicts o) := by
  rcases entr with - | ⟨generation, value⟩
  · cases nvalue with
    | none => cases same
    | some nvalue =>
        cases same
        refine ⟨rfl, ?_⟩
        intro pass fail tries
        refine ⟨_, _, rfl, .catches isKeyExists .fails, fun _ => rfl, ?_, ?_, fun _ => .inl rfl⟩
        · intro e other
          exact if_neg (by simp [show isKeyExists e = false from other])
        · intro e conflict
          exact ⟨fail, if_pos conflict⟩
  · cases nvalue with
    | none =>
        cases same
        refine ⟨rfl, @writes_checked V (Core.thenVoid (perform (.del generation))
          (.ok (Core.lift (some none)))) (.del generation) none fun pass fail tries => ?_⟩
        exact ⟨_, rfl, fun _ => rfl, fun _ => .inr rfl⟩
    | some nvalue =>
        cases same
        refine ⟨rfl, @writes_checked V (Core.thenVal (perform (.update generation nvalue)) fun _ =>
          .ok (Core.lift (some (some nvalue)))) (.update generation nvalue) (some nvalue)
          fun pass fail tries => ?_⟩
        exact ⟨_, rfl, fun _ => rfl, fun _ => .inl rfl⟩

def plan : Plan V (Option V) (Option (Nat × V)) where
  reading := tryReadCore
  content := Option.map Prod.snd
  writing := writeCore
  found := some
  missing := missing
  written := written
  conflicts := conflicts
  reads := reads
  writes := fun _ _ _ => writes
  keeps := by
    rintro (- | ⟨generation, value⟩) (- | nvalue) same
    · rfl
    · cases same
    · cases same
    · cases same

end Crud

end SidepoolFormal.Saver
