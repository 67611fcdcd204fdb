import SidepoolFormal.Saver.Once

/-!
# A function that fails

When the user's function ends with an exception, the call fails with it, and
neither writes nor goes on: unless the function throws when it is called, while
no try block is open or while the one around reading is.  What the caller's `fail`
throws in turn must not come back to a try block that is meant for the saver's
exceptions.
-/

namespace SidepoolFormal.Saver

open Library

variable {V A X : Type}

/-! ## What happens in an attempt -/

/-- What happened since the function was last called. -/
def attempt (trace : List (Happening V A)) : List (Happening V A) :=
  trace.foldl (fun since ev => if called ev then [] else since ++ [ev]) []

def requested : Happening V A → Req V A
  | .now r _ _ => r
  | .raises r _ => r
  | .later r => r
  | .resumed r _ _ => r
  | .enters r => r

/-- The saver has a write to do. -/
def wrote (ev : Happening V A) : Bool := (requested ev).writes

/-- The function ends with an exception: it throws when it is called, or its
`Io` fails, or the core of its `Io` throws when it is started. -/
inductive Ended (trace : List (Happening V A)) : Happening V A → Exn → Prop
  | threw (content : A) (e : Exn) : Ended trace (.raises (.calls content) e) e
  | failed (content : A) (e : Exn) (guarded : Bool) :
      Ended trace (.now (.op (.func content)) (.error e) guarded) e
  | failedLate (content : A) (e : Exn) (guarded : Bool) :
      Ended trace (.resumed (.op (.func content)) (.error e) guarded) e
  | core (content : A) (e : Exn)
      (started : trace.getLast? = some (.now (.calls content) (.ok ()) false)) :
      Ended trace (.raises (.op (.func content)) e) e

/-- The result is passed to the caller. -/
def delivered (ev : Happening V A) : Bool :=
  match requested ev with
  | .passed _ => true
  | _ => false

/-- What is thrown is given by the innermost try block to the caller's `fail`; and
the function's `Io`, if an exception is thrown back into it, does not go on with a
value. -/
structure Contained (_ : List (Happening V A)) (s : Stop V A) (ev : Happening V A) : Prop where
  thrown : ∀ r k handler tries e, s = .asks r k (.code handler :: tries) → ev = .raises r e →
    handler e = failing e
  silent : answered ev = false

/-- The function is not called again, the call is not made once more, nothing is
written, and the call does not pass. -/
structure Idle (ev : Happening V A) : Prop where
  uncalled : called ev = false
  unrepeated : retried ev = false
  unwritten : wrote ev = false
  unpassed : delivered ev = false

/-- The call fails with the exception, with nothing left to do when `fail` returns;
it has written nothing in the attempt; and whatever happens afterwards, it only
fails. -/
structure Aborted (program : Call V A A) (trace : List (Happening V A)) (e : Exn) (s : Stop V A) :
    Prop where
  fails : ∃ k tries, s = .asks (.failed e) k tries ∧ k (.ok ()) = .ret
  unwritten : ∀ ev ∈ attempt trace, wrote ev = false
  stays : ∀ rest s', Run (Thread.Step program) s rest s' →
    Run.Meets (Thread.Step program) s Contained rest → ∀ ev ∈ rest, Idle ev

/-- An entry was read inside the core of `read`. -/
def foundNow : Happening V A → Bool
  | .now (.op .read) (.ok _) _ => true
  | _ => false

/-- An entry was read by a `read` that completed later. -/
def foundLate : Happening V A → Bool
  | .resumed (.op .read) (.ok _) _ => true
  | _ => false

def threw : Happening V A → Bool
  | .raises (.calls _) _ => true
  | _ => false

/-- The function threw when it was called, right after an entry was read: later,
or inside the core of `read` and with an exception that `reading` takes. -/
def Mistaken (takes : Exn → Bool) (trace : List (Happening V A)) (ev : Happening V A) (e : Exn) :
    Prop :=
  threw ev = true ∧
    (trace.getLast?.any foundLate = true ∨ trace.getLast?.any foundNow = true ∧ takes e = true)

namespace Plan

variable {p : Plan V A X}

/-- What an exception that comes back leads to. -/
inductive Unwound (p : Plan V A X) (e : Exn) : Stop V A → Prop
  | escaped : Unwound p e (.escaped e)
  | func {content : A} {k : Except Exn A → Code V A} {tries : List (Open V A)} :
      Unwound p e (.asks (.op (.func content)) k tries)
  | calls {x : X} {k : Except Exn Unit → Code V A} {tries : List (Open V A)} :
      Unwound p e (.asks (.calls (p.content x)) k (.code failing :: tries))
  | repeats {s : Stop V A} (repeats : Repeats e s) : Unwound p e s

theorem unwound (e : Exn) {tries : List (Open V A)} (framed : ∀ t ∈ tries, p.Framed t) :
    Unwound p e (Proc.unwind tries e) := by
  cases tries with
  | nil => exact .escaped
  | cons t tries =>
      obtain ⟨first, rest⟩ := List.forall_mem_cons.mp framed
      cases first with
      | missed =>
          rw [Proc.unwind_code, missed]
          cases p.missing e with
          | none => exact .repeats .fails
          | some x => exact .calls
      | retries retries => exact .repeats (at_retries retries e rest).2
      | func handed => exact .func

/-- How the function comes to be called, and which try block is then the
innermost. -/
theorem run_calls {trace : List (Happening V A)} {content : A} {k : Except Exn Unit → Code V A}
    {tries : List (Open V A)}
    (run : Run (Thread.Step p.program) (Thread.initial p.program) trace
      (.asks (.calls content) k tries)) :
    ∃ last, trace.getLast? = some last ∧
      ((foundNow last = true ∧
          ∃ rest, tries = .code (missed p.missing p.modified failing) :: rest) ∨
        (foundLate last = true ∧ tries = []) ∨
        (foundNow last = false ∧ foundLate last = false ∧
          ∃ rest, tries = .code failing :: rest)) := by
  generalize same : (Proc.Stop.asks (.calls content) k tries : Stop V A) = s at run
  cases run with
  | nil => cases same
  | snoc run next =>
      rename_i last
      obtain ⟨-, turn⟩ := (run_at run).turn next
      refine ⟨last, by simp, ?_⟩
      cases turn with
      | found =>
          cases same
          exact .inl ⟨rfl, _, rfl⟩
      | foundLate =>
          cases same
          exact .inr (.inl ⟨rfl, rfl⟩)
      | absent ends missing =>
          cases same
          cases ends with
          | now guarded => exact .inr (.inr ⟨rfl, rfl, _, rfl⟩)
          | resumed guarded => exact .inr (.inr ⟨rfl, rfl, _, rfl⟩)
      | thrown framed =>
          rename_i e _ _
          have back := unwound e framed
          rw [← same] at back
          cases back with
          | calls => exact .inr (.inr ⟨rfl, rfl, _, rfl⟩)
          | repeats repeats => cases repeats
      | conflict writes ends conflicts repeats =>
          cases same
          cases repeats
      | enters => cases same
      | later => cases same
      | yielded => cases same
      | unread ends missing => cases same
      | called => cases same
      | writes ends written writes => cases same
      | kept ends written => cases same
      | funcFails ends returns => cases same
      | accepted writes ends => cases same
      | refused writes ends conflicts => cases same
      | passed => cases same
      | failed => cases same

/-- When the core of the function's `Io` is started, its own `then` is open. -/
theorem run_started {trace : List (Happening V A)} {content : A} {k : Except Exn A → Code V A}
    {tries : List (Open V A)}
    (run : Run (Thread.Step p.program) (Thread.initial p.program) trace
      (.asks (.op (.func content)) k tries))
    (started : trace.getLast? = some (.now (.calls content) (.ok ()) false)) :
    ∃ rest, tries = .code failing :: rest := by
  generalize same : (Proc.Stop.asks (.op (.func content)) k tries : Stop V A) = s at run
  cases run with
  | nil => cases started
  | snoc run next =>
      rename_i last
      cases (Option.some.inj (by simpa using started) : last = _)
      obtain ⟨-, turn⟩ := (run_at run).turn next
      cases turn with
      | called =>
          cases same
          exact ⟨_, rfl⟩
      | absent ends missing => cases ends
      | unread ends missing => cases ends
      | writes ends written writes => cases ends
      | kept ends written => cases ends
      | funcFails ends returns => cases ends
      | accepted writes ends => cases ends
      | conflict writes ends conflicts repeats => cases ends
      | refused writes ends conflicts => cases ends

/-! ## Nothing is written before the function answers -/

theorem attempt_snoc (trace : List (Happening V A)) (ev : Happening V A) :
    attempt (trace ++ [ev]) = if called ev then [] else attempt trace ++ [ev] := by
  simp [attempt, List.foldl_append]

/-- A write is asked for only once the function has answered. -/
theorem Turn.writes_after {s s' : Stop V A} {ev : Happening V A} (turn : p.Turn s ev s')
    (unanswered : answered ev = false)
    (before : ∀ r, request s = some r → r.writes = false) :
    ∀ r, request s' = some r → r.writes = false := by
  cases turn with
  | later => exact before
  | writes ends written writes =>
      cases ends with
      | now guarded => cases unanswered
      | resumed guarded => cases unanswered
  | conflict writes ends conflicts repeats =>
      have absurd := before _ ends.request
      cases writes.symm.trans absurd
  | thrown framed =>
      rename_i e _ _
      have back := unwound e framed
      generalize Proc.unwind _ e = s' at back
      intro r asks
      cases back with
      | escaped => cases asks
      | func => cases asks; rfl
      | calls => cases asks; rfl
      | repeats repeats =>
          cases repeats with
          | again => cases asks; rfl
          | fails => cases asks; rfl
  | enters => intro r asks; cases asks; rfl
  | yielded => intro r asks; cases asks; rfl
  | found => intro r asks; cases asks; rfl
  | foundLate => intro r asks; cases asks; rfl
  | absent ends missing => intro r asks; cases asks; rfl
  | unread ends missing => intro r asks; cases asks; rfl
  | called => intro r asks; cases asks; rfl
  | kept ends written => intro r asks; cases asks; rfl
  | funcFails ends returns => intro r asks; cases asks; rfl
  | accepted writes ends => intro r asks; cases asks; rfl
  | refused writes ends conflicts => intro r asks; cases asks; rfl
  | passed => intro r asks; cases asks
  | failed => intro r asks; cases asks

theorem request_of_step {s s' : Stop V A} {ev : Happening V A}
    (step : Thread.Step p.program s ev s') : request s = some (requested ev) := by
  obtain ⟨step, -⟩ := step
  cases step with
  | now foreign r guarded => rfl
  | raises foreign e => rfl
  | later foreign => rfl
  | resumed r guarded => rfl
  | enters own => rfl

theorem of_called {ev : Happening V A} (call : called ev = true) :
    answered ev = false ∧ wrote ev = false := by
  cases ev with
  | now r result guarded =>
      cases r with
      | calls content => exact ⟨rfl, rfl⟩
      | op o => cases call
      | passed v => cases call
      | failed e => cases call
  | raises r e =>
      cases r with
      | calls content => exact ⟨rfl, rfl⟩
      | op o => cases call
      | passed v => cases call
      | failed e => cases call
  | later r => cases call
  | resumed r result guarded => cases call
  | enters r => cases call

theorem run_unwritten {trace : List (Happening V A)} {s : Stop V A}
    (run : Run (Thread.Step p.program) (Thread.initial p.program) trace s)
    (unanswered : ∀ ev ∈ attempt trace, answered ev = false) :
    (∀ ev ∈ attempt trace, wrote ev = false) ∧ ∀ r, request s = some r → r.writes = false := by
  induction run with
  | nil =>
      obtain ⟨k, tries, settles, point⟩ := at_program (p := p) []
      refine ⟨by simp [attempt], ?_⟩
      intro r asks
      rw [Thread.initial, settles] at asks
      cases asks
      rfl
  | snoc run next ih =>
      rename_i trace s s' ev
      obtain ⟨-, turn⟩ := (run_at run).turn next
      rw [attempt_snoc] at unanswered ⊢
      cases call : called ev with
      | true =>
          obtain ⟨silent, plain⟩ := of_called call
          refine ⟨by simp, turn.writes_after silent ?_⟩
          intro r asks
          cases (request_of_step next).symm.trans asks
          exact plain
      | false =>
          simp only [call, Bool.false_eq_true, if_false, List.mem_append, List.mem_singleton]
            at unanswered ⊢
          obtain ⟨unwritten, before⟩ := ih fun ev' member => unanswered ev' (.inl member)
          constructor
          · rintro ev' (old | rfl)
            · exact unwritten ev' old
            · exact before _ (request_of_step next)
          · exact turn.writes_after (unanswered ev (.inr rfl)) before

/-! ## After the call has failed -/

/-- All that is left is that `fail` returns or throws, and what the function's `Io`
makes of that. -/
def Late (s : Stop V A) : Prop :=
  ∀ r, request s = some r → (∃ e, r = .failed e) ∨ ∃ content, r = .op (.func content)

theorem Turn.late {s s' : Stop V A} {ev : Happening V A} (turn : p.Turn s ev s') (late : Late s)
    {trace : List (Happening V A)} (contained : Contained trace s ev) : Late s' := by
  have noFunc {o : Op V A} {result : Except Exn o.Ans} (writes : o.writes = true)
      (ends : Ends (.op o) result s ev) : False := by
    rcases late _ ends.request with ⟨e, absurd⟩ | ⟨content, same⟩
    · cases absurd
    · cases same
      cases writes
  have noRead {result : Except Exn (Nat × V)} (ends : Ends (.op .read) result s ev) : False := by
    rcases late _ ends.request with ⟨e, absurd⟩ | ⟨content, absurd⟩ <;> cases absurd
  have failed {e : Exn} {k : Except Exn Unit → Code V A} {tries : List (Open V A)} :
      Late (.asks (.failed e) k tries) := fun r asks => .inl ⟨e, (Option.some.inj asks).symm⟩
  cases turn with
  | enters => rcases late _ rfl with ⟨e, absurd⟩ | ⟨content, absurd⟩ <;> cases absurd
  | later => exact late
  | yielded => rcases late _ rfl with ⟨e, absurd⟩ | ⟨content, absurd⟩ <;> cases absurd
  | found => rcases late _ rfl with ⟨e, absurd⟩ | ⟨content, absurd⟩ <;> cases absurd
  | foundLate => rcases late _ rfl with ⟨e, absurd⟩ | ⟨content, absurd⟩ <;> cases absurd
  | absent ends missing => exact (noRead ends).elim
  | unread ends missing => exact (noRead ends).elim
  | called => rcases late _ rfl with ⟨e, absurd⟩ | ⟨content, absurd⟩ <;> cases absurd
  | writes ends written writes =>
      have silent := contained.silent
      cases ends <;> cases silent
  | kept ends written =>
      have silent := contained.silent
      cases ends <;> cases silent
  | funcFails ends returns => exact failed
  | accepted writes ends => exact (noFunc writes ends).elim
  | conflict writes ends conflicts next => exact (noFunc writes ends).elim
  | refused writes ends conflicts => exact (noFunc writes ends).elim
  | passed => exact fun r asks => nomatch asks
  | failed => exact fun r asks => nomatch asks
  | @thrown r e k tries framed =>
      cases tries with
      | nil => exact fun r asks => nomatch asks
      | cons t tries =>
          cases t with
          | code handler =>
              rw [Proc.unwind_code, contained.thrown r k handler tries e rfl rfl]
              exact failed
          | prim op k =>
              cases (List.forall_mem_cons.mp framed).1 with
              | @func x k handed =>
                  exact fun r asks => .inr ⟨p.content x, (Option.some.inj asks).symm⟩

theorem Late.idle {s s' : Stop V A} {ev : Happening V A} (late : Late s)
    (step : Thread.Step p.program s ev s') : Idle ev := by
  have asks := request_of_step step
  obtain ⟨step, allowed⟩ := step
  rcases late _ asks with ⟨e, same⟩ | ⟨content, same⟩
  · cases ev with
    | now r result guarded => cases same; exact ⟨rfl, rfl, rfl, rfl⟩
    | raises r e => cases same; exact ⟨rfl, rfl, rfl, rfl⟩
    | later r => cases same; exact ⟨rfl, rfl, rfl, rfl⟩
    | resumed r result guarded => cases same; exact ⟨rfl, rfl, rfl, rfl⟩
    | enters r => cases same; cases allowed
  · cases ev with
    | now r result guarded => cases same; exact ⟨rfl, rfl, rfl, rfl⟩
    | raises r e => cases same; exact ⟨rfl, rfl, rfl, rfl⟩
    | later r => cases same; exact ⟨rfl, rfl, rfl, rfl⟩
    | resumed r result guarded => cases same; exact ⟨rfl, rfl, rfl, rfl⟩
    | enters r => cases same; cases allowed

/-- A call that has failed only fails, as long as what is thrown is contained. -/
theorem Late.run {s s' : Stop V A} {rest : List (Happening V A)} (point : p.At s) (late : Late s)
    (run : Run (Thread.Step p.program) s rest s')
    (contained : Run.Meets (Thread.Step p.program) s Contained rest) : ∀ ev ∈ rest, Idle ev := by
  refine (contained.invariant
    (I := fun rest s => p.At s ∧ Late s ∧ ∀ ev ∈ rest, Idle ev) ⟨point, late, nofun⟩ ?_ run).2.2
  rintro rest s ev s' - ⟨point, late, idle⟩ step contained
  obtain ⟨point', turn⟩ := point.turn step
  refine ⟨point', turn.late late contained, ?_⟩
  intro ev' member
  rcases List.mem_append.mp member with old | new
  · exact idle ev' old
  · exact List.mem_singleton.mp new ▸ late.idle step

/-! ## What the call comes to -/

theorem not_foundLate {last : Happening V A} (found : foundNow last = true) :
    foundLate last = false := by
  cases last with
  | now r result guarded => rfl
  | raises r e => rfl
  | later r => rfl
  | resumed r result guarded => cases found
  | enters r => rfl

/-- A function that throws when it is called. -/
theorem threw_iff {takes : Exn → Bool} (taken : ∀ e, takes e = true ↔ p.missing e ≠ none)
    {trace : List (Happening V A)} {content : A} {k : Except Exn Unit → Code V A}
    {tries : List (Open V A)} {e : Exn}
    (run : Run (Thread.Step p.program) (Thread.initial p.program) trace
      (.asks (.calls content) k tries)) :
    (∃ k' tries', Proc.unwind tries e = .asks (.failed e) k' tries' ∧ k' (.ok ()) = .ret) ↔
      ¬ Mistaken takes trace (.raises (.calls content) e) e := by
  obtain ⟨last, same, point⟩ := run_calls run
  rw [Mistaken, same]
  rcases point with ⟨found, rest, rfl⟩ | ⟨late, rfl⟩ | ⟨notNow, notLate, rest, rfl⟩
  · have notLate := not_foundLate found
    rw [Proc.unwind_code, missed]
    cases missing : p.missing e with
    | none =>
        have passed : takes e = false := by simpa [missing] using (taken e).not
        simp only [threw, Option.any_some, notLate, passed]
        exact iff_of_true ⟨_, _, rfl, rfl⟩ (by simp)
    | some x =>
        have takesIt : takes e = true := (taken e).mpr (by simp [missing])
        refine iff_of_false ?_ (not_not.mpr ⟨rfl, .inr ⟨found, takesIt⟩⟩)
        rintro ⟨k', tries', absurd, -⟩
        cases absurd
  · refine iff_of_false ?_ (not_not.mpr ⟨rfl, .inl late⟩)
    rintro ⟨k', tries', absurd, -⟩
    cases absurd
  · refine iff_of_true ⟨_, _, rfl, rfl⟩ ?_
    simp [notNow, notLate]

/-- A function whose `Io` fails. -/
theorem Turn.func_fails {s s' : Stop V A} {ev : Happening V A} {content : A} {e : Exn}
    (turn : p.Turn s ev s') (ends : Ends (.op (.func content)) (.error e) s ev) :
    ∃ k tries, s' = .asks (.failed e) k tries ∧ k (.ok ()) = .ret := by
  cases turn with
  | funcFails ends' returns =>
      cases ends <;> cases ends' <;> exact ⟨_, _, rfl, returns⟩
  | absent ends' missing => cases ends <;> cases ends'
  | unread ends' missing => cases ends <;> cases ends'
  | writes ends' written writes => cases ends <;> cases ends'
  | kept ends' written => cases ends <;> cases ends'
  | accepted writes ends' => cases ends <;> cases ends'
  | conflict writes ends' conflicts repeats => cases ends <;> cases ends' <;> cases writes
  | refused writes ends' conflicts => cases ends <;> cases ends' <;> cases writes
  | enters => cases ends
  | later => cases ends
  | yielded => cases ends
  | found => cases ends
  | foundLate => cases ends
  | called => cases ends
  | passed => cases ends
  | failed => cases ends
  | thrown framed => cases ends

/-- A function that ends with an exception aborts the call, unless it is
mistaken. -/
theorem aborted_iff {takes : Exn → Bool} (taken : ∀ e, takes e = true ↔ p.missing e ≠ none)
    {trace : List (Happening V A)} {s s' : Stop V A} {ev : Happening V A} {e : Exn}
    (run : Run (Thread.Step p.program) (Thread.initial p.program) trace s)
    (next : Thread.Step p.program s ev s') (ended : Ended trace ev e)
    (unanswered : ∀ ev ∈ attempt trace, answered ev = false) :
    Aborted p.program trace e s' ↔ ¬ Mistaken takes trace ev e := by
  have unwritten := (run_unwritten run unanswered).1
  obtain ⟨point, turn⟩ := (run_at run).turn next
  have reduced : Aborted p.program trace e s' ↔
      ∃ k tries, s' = .asks (.failed e) k tries ∧ k (.ok ()) = .ret := by
    refine ⟨fun aborted => aborted.fails, fun fails => ⟨fails, unwritten, ?_⟩⟩
    obtain ⟨k, tries, rfl, -⟩ := fails
    have late : Late (.asks (.failed e) k tries : Stop V A) :=
      fun r asks => .inl ⟨e, (Option.some.inj asks).symm⟩
    exact fun rest s'' run contained => late.run point run contained
  rw [reduced]
  cases ended with
  | threw content e =>
      cases next.step with
      | raises foreign e => exact threw_iff taken run
  | failed content e guarded =>
      cases next.step with
      | now foreign r guarded =>
          exact iff_of_true (turn.func_fails (.now guarded)) (fun absurd => nomatch absurd.1)
  | failedLate content e guarded =>
      cases next.step with
      | resumed r guarded =>
          exact iff_of_true (turn.func_fails (.resumed guarded)) (fun absurd => nomatch absurd.1)
  | core content e started =>
      refine iff_of_true ?_ (fun absurd => nomatch absurd.1)
      cases next.step with
      | raises foreign e =>
          obtain ⟨rest, same⟩ := run_started run started
          rw [same]
          exact ⟨_, _, rfl, rfl⟩

end Plan

/-- In every run, a function that ends with an exception aborts `rmw` and
`crud`, unless it throws when it is called: after a `read` that completed later,
or, in `crud`, with a `KeyNotFound` after one that completed inside its core.  They
stay aborted as long as what `fail` throws is contained. -/
theorem aborts_iff :
    (∀ (trace : List (Happening V V)) (s : Stop V V) (ev : Happening V V) (s' : Stop V V) (e : Exn),
      Run (Thread.Step rmwCore) (Thread.initial rmwCore) trace s → Thread.Step rmwCore s ev s' →
      Ended trace ev e → (∀ ev ∈ attempt trace, answered ev = false) →
      (Aborted rmwCore trace e s' ↔ ¬ Mistaken (fun _ => false) trace ev e)) ∧
    (∀ (trace : List (Happening V (Option V))) (s : Stop V (Option V))
      (ev : Happening V (Option V)) (s' : Stop V (Option V)) (e : Exn),
      Run (Thread.Step crudCore) (Thread.initial crudCore) trace s → Thread.Step crudCore s ev s' →
      Ended trace ev e → (∀ ev ∈ attempt trace, answered ev = false) →
      (Aborted crudCore trace e s' ↔ ¬ Mistaken isKeyNotFound trace ev e)) := by
  constructor
  · intro trace s ev s' e run next ended unanswered
    refine Rmw.plan.aborted_iff ?_ run next ended unanswered
    intro e
    exact iff_of_false Bool.false_ne_true (not_not.mpr rfl)
  · intro trace s ev s' e run next ended unanswered
    refine Crud.plan.aborted_iff ?_ run next ended unanswered
    intro e
    change isKeyNotFound e = true ↔ Crud.missing e ≠ none
    rw [Crud.missing]
    cases isKeyNotFound e with
    | true => simp
    | false => simp

/-- An `Io` that fails later, after a `read` that completed later; and a
function that throws something else when it is called. -/
theorem aborts_kept :
    (∃ (trace : List (Happening Nat Nat)) (s s' : Stop Nat Nat) (ev : Happening Nat Nat),
      Run (Thread.Step rmwCore) (Thread.initial rmwCore) trace s ∧ Thread.Step rmwCore s ev s' ∧
      Ended trace ev .keyNotFound ∧ Aborted rmwCore trace .keyNotFound s') ∧
    (∃ (trace : List (Happening Nat (Option Nat))) (s s' : Stop Nat (Option Nat))
      (ev : Happening Nat (Option Nat)),
      Run (Thread.Step crudCore) (Thread.initial crudCore) trace s ∧ Thread.Step crudCore s ev s' ∧
      Ended trace ev .ioError ∧ Aborted crudCore trace .ioError s') := by
  constructor
  · have yielded := ((Thread.started (rmwCore : Call Nat Nat Nat)).snoc ⟨.later rfl, .yields⟩).snoc
      ⟨.resumed _ _, .yielded⟩
    have read := (yielded.snoc ⟨.later rfl, .storedLater rfl⟩).snoc
      ⟨.resumed (.ok (0, 10)) false, .storedResumed rfl _⟩
    have waits := (read.snoc ⟨.now rfl _ _, .called _⟩).snoc ⟨.later rfl, .funcLater _⟩
    refine ⟨_, _, _, _, waits, ⟨.resumed (.error .keyNotFound) false, .funcResumed 10 _ _⟩,
      .failedLate 10 _ false, ?_⟩
    refine (aborts_iff.1 _ _ _ _ _ waits ⟨.resumed _ _, .funcResumed _ _ _⟩
      (.failedLate 10 _ false) ?_).mpr ?_
    · simp [attempt, called, answered]
    · rintro ⟨absurd, -⟩
      cases absurd
  · have yielded := ((Thread.started (crudCore : Call Nat (Option Nat) _)).snoc
      ⟨.later rfl, .yields⟩).snoc ⟨.resumed _ _, .yielded⟩
    have read := yielded.snoc ⟨.now rfl (.ok (0, 10)) false, .stored rfl _⟩
    refine ⟨_, _, _, _, read, ⟨.raises rfl .ioError, .callThrows (some 10) _⟩, .threw _ _, ?_⟩
    refine (aborts_iff.2 _ _ _ _ _ read ⟨.raises rfl _, .callThrows _ _⟩ (.threw _ _) ?_).mpr ?_
    · simp [attempt, called, answered]
    · simp [Mistaken, threw, foundLate, isKeyNotFound]

/-- A function of `crud` that is given an existing value and throws a
`KeyNotFound` is called again, as if there were no entry.  And one that is given
no value is called again where `fail` throws the `KeyNotFound` once more: the try
block around reading, which has completed inside its core, takes it. -/
theorem aborted_not :
    (∃ (trace : List (Happening Nat (Option Nat))) (s s' : Stop Nat (Option Nat))
      (ev : Happening Nat (Option Nat)),
      Run (Thread.Step crudCore) (Thread.initial crudCore) trace s ∧ Thread.Step crudCore s ev s' ∧
      Ended trace ev .keyNotFound ∧ (∀ ev ∈ attempt trace, answered ev = false) ∧
      (∃ k tries, s' = .asks (.calls none) k tries) ∧ ¬ Aborted crudCore trace .keyNotFound s') ∧
    ∃ (trace : List (Happening Nat (Option Nat))) (s s' s'' : Stop Nat (Option Nat))
      (ev : Happening Nat (Option Nat)),
      Run (Thread.Step crudCore) (Thread.initial crudCore) trace s ∧ Thread.Step crudCore s ev s' ∧
      Ended trace ev .keyNotFound ∧ ¬ Mistaken isKeyNotFound trace ev .keyNotFound ∧
      Run (Thread.Step crudCore) s' [.raises (.failed .keyNotFound) .keyNotFound,
        .now (.calls none) (.ok ()) false] s'' := by
  have yielded := ((Thread.started (crudCore : Call Nat (Option Nat) _)).snoc
    ⟨.later rfl, .yields⟩).snoc ⟨.resumed _ _, .yielded⟩
  constructor
  · have read := yielded.snoc ⟨.now rfl (.ok (0, 10)) false, .stored rfl _⟩
    refine ⟨_, _, _, _, read, ⟨.raises rfl .keyNotFound, .callThrows (some 10) _⟩, .threw _ _, ?_,
      ⟨_, _, rfl⟩, ?_⟩
    · simp [attempt, called, answered]
    · intro aborted
      obtain ⟨k, tries, absurd, -⟩ := aborted.fails
      cases absurd
  · have read := yielded.snoc ⟨.now rfl (.error .keyNotFound) false, .stored rfl _⟩
    refine ⟨_, _, _, _, _, read, ⟨.raises rfl .keyNotFound, .callThrows none _⟩, .threw _ _, ?_,
      (Run.nil.snoc ⟨.raises rfl _, .failedThrows _ _⟩).snoc ⟨.now rfl _ _, .called _⟩⟩
    simp [Mistaken, threw, foundLate, foundNow]

end SidepoolFormal.Saver
