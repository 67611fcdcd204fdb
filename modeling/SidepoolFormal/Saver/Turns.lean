import SidepoolFormal.Saver.Thread

/-!
# What a call can do next

Every try block that is open in a call either fails, or reads the entry as
missing, or makes the call once more, or belongs to the user's function.  So a
call is always at one of a few points, and each completion leads from one of
them to another.
-/

namespace SidepoolFormal.Saver

open Library

variable {V A X : Type}

/-- A request is answered, inside its core or from the event loop. -/
inductive Ends (r : Req V A) (result : Except Exn r.Ans) : Stop V A → Happening V A → Prop
  | now {k : Except Exn r.Ans → Code V A} {tries : List (Open V A)} (guarded : Bool) :
      Ends r result (.asks r k tries) (.now r result guarded)
  | resumed {k : Except Exn r.Ans → Code V A} (guarded : Bool) :
      Ends r result (.waits r k) (.resumed r result guarded)

/-- What is done with the result of writing. -/
def finished (r : Option A) : Code V A := finishCore r passing failing

namespace Plan

variable (p : Plan V A X)

def program : Call V A A := call p.reading p.content p.writing

def modified (x : X) : Code V A :=
  calling (p.content x) (p.writing x) finished failing

/-- What is done with the answer of the user's function. -/
structure Handed (x : X) (k : Except Exn A → Code V A) : Prop where
  passes : ∀ v, k (.ok v) = p.writing x v finished failing
  fails : ∀ e, k (.error e) = failing e

/-- The try blocks of a call. -/
inductive Framed : Open V A → Prop
  | missed : Framed (.code (missed p.missing p.modified failing))
  | retries {handler : Exn → Code V A} (retries : Retries finished failing handler) :
      Framed (.code handler)
  | func {x : X} {k : Except Exn A → Code V A} (handed : p.Handed x k) :
      Framed (.prim (.op (.func (p.content x))) k)

theorem Framed.failing : p.Framed (.code failing) := .retries .fails

/-- The points that a call can be at. -/
inductive At : Stop V A → Prop
  | again {k : Except Exn A → Code V A} {tries : List (Open V A)}
      (passes : ∀ v, k (.ok v) = passing v) (fails : ∀ e, k (.error e) = failing e)
      (framed : ∀ t ∈ tries, p.Framed t) : At (.asks (.op .again) k tries)
  | yield {k : Except Exn Unit → Code V A} {tries : List (Open V A)}
      (goes : k (.ok ()) = .attempt (p.reading p.modified failing) failing) :
      At (.asks (.op .yield) k tries)
  | yielding {k : Except Exn Unit → Code V A}
      (goes : k (.ok ()) = .attempt (p.reading p.modified failing) failing) :
      At (.waits (.op .yield) k)
  | read {k : Except Exn (Nat × V) → Code V A} {rest : List (Open V A)}
      (passes : ∀ entry, k (.ok entry) = p.modified (p.found entry))
      (fails : ∀ e, k (.error e) = missed p.missing p.modified failing e)
      (framed : ∀ t ∈ rest, p.Framed t) :
      At (.asks (.op .read) k (.code (missed p.missing p.modified failing) :: rest))
  | reading {k : Except Exn (Nat × V) → Code V A}
      (passes : ∀ entry, k (.ok entry) = p.modified (p.found entry))
      (fails : ∀ e, k (.error e) = missed p.missing p.modified failing e) :
      At (.waits (.op .read) k)
  | calls {x : X} {k : Except Exn Unit → Code V A} {k' : Except Exn A → Code V A}
      {tries : List (Open V A)} (handed : p.Handed x k')
      (goes : k (.ok ()) = .attempt (.ask (.op (.func (p.content x))) k') failing)
      (framed : ∀ t ∈ tries, p.Framed t) : At (.asks (.calls (p.content x)) k tries)
  | func {x : X} {k : Except Exn A → Code V A} {tries : List (Open V A)} (handed : p.Handed x k)
      (framed : ∀ t ∈ tries, p.Framed t) : At (.asks (.op (.func (p.content x))) k tries)
  | funcWaits {x : X} {k : Except Exn A → Code V A} (handed : p.Handed x k) :
      At (.waits (.op (.func (p.content x))) k)
  | write {o : Op V A} {k : Except Exn o.Ans → Code V A} {sub : Exn → Code V A} {result : A}
      {tries : List (Open V A)} (writes : o.writes = true)
      (retries : Retries finished failing sub) (fails : ∀ e, k (.error e) = sub e)
      (refused : ∀ e, p.conflicts o e = false → sub e = failing e)
      (passes : ∀ r, k (.ok r) = passing result ∨ k (.ok r) = .attempt (passing result) sub)
      (framed : ∀ t ∈ tries, p.Framed t) : At (.asks (.op o) k tries)
  | writeWaits {o : Op V A} {k : Except Exn o.Ans → Code V A} {sub : Exn → Code V A} {result : A}
      (writes : o.writes = true) (retries : Retries finished failing sub)
      (fails : ∀ e, k (.error e) = sub e)
      (refused : ∀ e, p.conflicts o e = false → sub e = failing e)
      (passes : ∀ r, k (.ok r) = passing result ∨ k (.ok r) = .attempt (passing result) sub) :
      At (.waits (.op o) k)
  | passed {v : A} {tries : List (Open V A)} (framed : ∀ t ∈ tries, p.Framed t) :
      At (.asks (.passed v) (fun _ => .ret) tries)
  | failed {e : Exn} {tries : List (Open V A)} (framed : ∀ t ∈ tries, p.Framed t) :
      At (.asks (.failed e) (fun _ => .ret) tries)
  | done : At .done
  | escaped (e : Exn) : At (.escaped e)

/-- The call is made once more, or fails. -/
inductive Repeats (e : Exn) : Stop V A → Prop
  | again {k : Except Exn A → Code V A} {tries : List (Open V A)} :
      Repeats e (.asks (.op .again) k tries)
  | fails {k : Except Exn Unit → Code V A} {tries : List (Open V A)} :
      Repeats e (.asks (.failed e) k tries)

/-- What a call can do, from one point to the next. -/
inductive Turn : Stop V A → Happening V A → Stop V A → Prop
  | enters {k : Except Exn A → Code V A} {k' : Except Exn Unit → Code V A}
      {tries tries' : List (Open V A)} :
      Turn (.asks (.op .again) k tries) (.enters (.op .again)) (.asks (.op .yield) k' tries')
  | later {o : Op V A} {k : Except Exn o.Ans → Code V A} {tries : List (Open V A)} :
      Turn (.asks (.op o) k tries) (.later (.op o)) (.waits (.op o) k)
  | yielded {k : Except Exn Unit → Code V A} {k' : Except Exn (Nat × V) → Code V A}
      {rest : List (Open V A)} :
      Turn (.waits (.op .yield) k) (.resumed (.op .yield) (.ok ()) false)
        (.asks (.op .read) k' (.code (missed p.missing p.modified failing) :: rest))
  | found {entry : Nat × V} {k : Except Exn (Nat × V) → Code V A}
      {k' : Except Exn Unit → Code V A} {rest : List (Open V A)} :
      Turn (.asks (.op .read) k (.code (missed p.missing p.modified failing) :: rest))
        (.now (.op .read) (.ok entry) false)
        (.asks (.calls (p.content (p.found entry))) k'
          (.code (missed p.missing p.modified failing) :: rest))
  | foundLate {entry : Nat × V} {k : Except Exn (Nat × V) → Code V A}
      {k' : Except Exn Unit → Code V A} :
      Turn (.waits (.op .read) k) (.resumed (.op .read) (.ok entry) false)
        (.asks (.calls (p.content (p.found entry))) k' [])
  | absent {s : Stop V A} {ev : Happening V A} {e : Exn} {x : X} {k : Except Exn Unit → Code V A}
      {tries : List (Open V A)} (ends : Ends (.op .read) (.error e) s ev)
      (missing : p.missing e = some x) :
      Turn s ev (.asks (.calls (p.content x)) k (.code failing :: tries))
  | unread {s : Stop V A} {ev : Happening V A} {e : Exn} {k : Except Exn Unit → Code V A}
      {tries : List (Open V A)} (ends : Ends (.op .read) (.error e) s ev)
      (missing : p.missing e = none) : Turn s ev (.asks (.failed e) k tries)
  | called {x : X} {k : Except Exn Unit → Code V A} {k' : Except Exn A → Code V A}
      {tries : List (Open V A)} :
      Turn (.asks (.calls (p.content x)) k tries) (.now (.calls (p.content x)) (.ok ()) false)
        (.asks (.op (.func (p.content x))) k' (.code failing :: tries))
  | writes {s : Stop V A} {ev : Happening V A} {x : X} {v : A} {o : Op V A}
      {k : Except Exn o.Ans → Code V A} {tries : List (Open V A)}
      (ends : Ends (.op (.func (p.content x))) (.ok v) s ev) (written : p.written x v = some o)
      (writes : o.writes = true) : Turn s ev (.asks (.op o) k tries)
  | kept {s : Stop V A} {ev : Happening V A} {x : X} {v result : A}
      {k : Except Exn Unit → Code V A} {tries : List (Open V A)}
      (ends : Ends (.op (.func (p.content x))) (.ok v) s ev) (written : p.written x v = none) :
      Turn s ev (.asks (.passed result) k tries)
  | funcFails {s : Stop V A} {ev : Happening V A} {x : X} {e : Exn}
      {k : Except Exn Unit → Code V A} {tries : List (Open V A)}
      (ends : Ends (.op (.func (p.content x))) (.error e) s ev) (returns : k (.ok ()) = .ret) :
      Turn s ev (.asks (.failed e) k tries)
  | accepted {s : Stop V A} {ev : Happening V A} {o : Op V A} {r : o.Ans} {result : A}
      {k : Except Exn Unit → Code V A} {tries : List (Open V A)} (writes : o.writes = true)
      (ends : Ends (.op o) (.ok r) s ev) : Turn s ev (.asks (.passed result) k tries)
  | conflict {s s' : Stop V A} {ev : Happening V A} {o : Op V A} {e : Exn}
      (writes : o.writes = true) (ends : Ends (.op o) (.error e) s ev)
      (conflicts : p.conflicts o e = true) (next : Repeats e s') : Turn s ev s'
  | refused {s : Stop V A} {ev : Happening V A} {o : Op V A} {e : Exn}
      {k : Except Exn Unit → Code V A} {tries : List (Open V A)} (writes : o.writes = true)
      (ends : Ends (.op o) (.error e) s ev) (conflicts : p.conflicts o e = false) :
      Turn s ev (.asks (.failed e) k tries)
  | passed {v : A} {k : Except Exn Unit → Code V A} {tries : List (Open V A)} :
      Turn (.asks (.passed v) k tries) (.now (.passed v) (.ok ()) false) .done
  | failed {e : Exn} {k : Except Exn Unit → Code V A} {tries : List (Open V A)} :
      Turn (.asks (.failed e) k tries) (.now (.failed e) (.ok ()) false) .done
  | thrown {r : Req V A} {e : Exn} {k : Except Exn r.Ans → Code V A} {tries : List (Open V A)}
      (framed : ∀ t ∈ tries, p.Framed t) :
      Turn (.asks r k tries) (.raises r e) (Proc.unwind tries e)

variable {p}

/-! ## Where the code leads -/

theorem framed_cons {t : Open V A} {tries : List (Open V A)} (first : p.Framed t)
    (framed : ∀ t ∈ tries, p.Framed t) : ∀ t' ∈ t :: tries, p.Framed t' :=
  List.forall_mem_cons.mpr ⟨first, framed⟩

theorem at_modified (x : X) {tries : List (Open V A)} (framed : ∀ t ∈ tries, p.Framed t) :
    ∃ k, Proc.settle (p.modified x) tries = .asks (.calls (p.content x)) k tries ∧
      p.At (.asks (.calls (p.content x)) k tries) := by
  refine ⟨_, rfl, ?_⟩
  exact .calls ⟨fun v => rfl, fun e => rfl⟩ rfl framed

theorem at_missed (e : Exn) {tries : List (Open V A)} (framed : ∀ t ∈ tries, p.Framed t) :
    p.At (Proc.settle (missed p.missing p.modified failing e) tries) := by
  rw [missed]
  cases p.missing e with
  | none => exact .failed framed
  | some x =>
      rw [Proc.settle_attempt]
      obtain ⟨k, settles, point⟩ := at_modified x (framed_cons (Framed.failing p) framed)
      exact settles ▸ point

theorem at_retries {handler : Exn → Code V A} (retries : Retries finished failing handler)
    (e : Exn) {tries : List (Open V A)} (framed : ∀ t ∈ tries, p.Framed t) :
    p.At (Proc.settle (handler e) tries) ∧ Repeats e (Proc.settle (handler e) tries) := by
  induction retries with
  | fails => exact ⟨.failed framed, .fails⟩
  | catches isA outer ih =>
      dsimp only
      split
      · rw [Proc.settle_attempt]
        exact ⟨.again (fun v => rfl) (fun e => rfl) (framed_cons (.retries outer) framed), .again⟩
      · exact ih

theorem at_unwind (e : Exn) {tries : List (Open V A)} (framed : ∀ t ∈ tries, p.Framed t) :
    p.At (Proc.unwind tries e) := by
  cases tries with
  | nil => exact .escaped e
  | cons t tries =>
      obtain ⟨first, rest⟩ := List.forall_mem_cons.mp framed
      cases first with
      | missed => exact at_missed e rest
      | retries retries => exact (at_retries retries e rest).1
      | func handed => exact .func handed rest

theorem at_reading {k : Except Exn Unit → Code V A}
    (goes : k (.ok ()) = .attempt (p.reading p.modified failing) failing) :
    ∃ k' rest, Proc.settle (k (.ok ())) [] =
        .asks (.op .read) k' (.code (missed p.missing p.modified failing) :: rest) ∧
      p.At (.asks (.op .read) k' (.code (missed p.missing p.modified failing) :: rest)) := by
  obtain ⟨k', rest, settles, passes, fails, plain⟩ := p.reads p.modified failing
  rw [goes, Proc.settle_attempt]
  refine ⟨k', rest, settles, .read passes fails ?_⟩
  intro t member
  rw [plain t member]
  exact Framed.failing p

theorem at_program (tries : List (Open V A)) :
    ∃ k tries', Proc.settle (p.program passing failing) tries = .asks (.op .yield) k tries' ∧
      p.At (.asks (.op .yield) k tries') := by
  refine ⟨_, _, rfl, ?_⟩
  exact .yield rfl

/-! ## Completions -/

theorem read_error {s : Stop V A} {ev : Happening V A} {e : Exn}
    (ends : Ends (.op .read) (.error e) s ev) {tries : List (Open V A)}
    (framed : ∀ t ∈ tries, p.Framed t) :
    p.At (Proc.settle (missed p.missing p.modified failing e) tries) ∧
      p.Turn s ev (Proc.settle (missed p.missing p.modified failing e) tries) := by
  refine ⟨at_missed e framed, ?_⟩
  rw [missed]
  cases missing : p.missing e with
  | none => exact .unread ends missing
  | some x =>
      rw [Proc.settle_attempt]
      obtain ⟨k, settles, point⟩ := at_modified x (framed_cons (Framed.failing p) framed)
      exact settles ▸ .absent ends missing

theorem func_ends {s : Stop V A} {ev : Happening V A} {x : X} {k : Except Exn A → Code V A}
    (handed : p.Handed x k) {r : Except Exn A} (ends : Ends (.op (.func (p.content x))) r s ev)
    {tries : List (Open V A)} (framed : ∀ t ∈ tries, p.Framed t) :
    p.At (Proc.settle (k r) tries) ∧ p.Turn s ev (Proc.settle (k r) tries) := by
  cases r with
  | error e =>
      rw [handed.fails]
      exact ⟨.failed framed, .funcFails ends rfl⟩
  | ok v =>
      rw [handed.passes]
      cases written : p.written x v with
      | none =>
          rw [p.keeps x v written]
          exact ⟨.passed framed, .kept ends written⟩
      | some o =>
          obtain ⟨isWrite, writes⟩ := p.writes x v o written
          obtain ⟨k, sub, settles, judged⟩ := writes finished failing tries
          have inside := framed_cons (Framed.retries judged.retries) framed
          rw [settles]
          refine ⟨?_, .writes ends written isWrite⟩
          exact .write isWrite judged.retries judged.fails judged.refused judged.passes
            inside

theorem write_ends {s : Stop V A} {ev : Happening V A} {o : Op V A}
    {k : Except Exn o.Ans → Code V A} {sub : Exn → Code V A} {result : A} (writes : o.writes = true)
    (retries : Retries finished failing sub) (fails : ∀ e, k (.error e) = sub e)
    (refused : ∀ e, p.conflicts o e = false → sub e = failing e)
    (passes : ∀ r, k (.ok r) = passing result ∨ k (.ok r) = .attempt (passing result) sub)
    {r : Except Exn o.Ans} (ends : Ends (.op o) r s ev) {tries : List (Open V A)}
    (framed : ∀ t ∈ tries, p.Framed t) :
    p.At (Proc.settle (k r) tries) ∧ p.Turn s ev (Proc.settle (k r) tries) := by
  cases r with
  | ok v =>
      rcases passes v with plain | guarded
      · rw [plain]
        exact ⟨.passed framed, .accepted writes ends⟩
      · rw [guarded, Proc.settle_attempt]
        exact ⟨.passed (framed_cons (.retries retries) framed), .accepted writes ends⟩
  | error e =>
      rw [fails]
      obtain ⟨point, repeats⟩ := at_retries retries e framed
      refine ⟨point, ?_⟩
      cases conflicts : p.conflicts o e with
      | true => exact .conflict writes ends conflicts repeats
      | false =>
          rw [refused e conflicts]
          exact .refused writes ends conflicts

theorem framed_guard {x : X} {k : Except Exn A → Code V A} (handed : p.Handed x k) (guarded : Bool)
    {tries : List (Open V A)} (framed : ∀ t ∈ tries, p.Framed t) :
    ∀ t ∈ Proc.guard (.op (.func (p.content x))) k guarded ++ tries, p.Framed t := by
  cases guarded with
  | false => exact framed
  | true => exact framed_cons (.func handed) framed

/-! ## One step -/

theorem At.turn {s s' : Stop V A} {ev : Happening V A} (point : p.At s)
    (step : Thread.Step p.program s ev s') : p.At s' ∧ p.Turn s ev s' := by
  obtain ⟨step, allowed⟩ := step
  have none : ∀ t ∈ ([] : List (Open V A)), p.Framed t := fun t absurd => nomatch absurd
  cases point with
  | again passes fails framed =>
      rename_i k tries
      cases step with
      | enters own =>
          cases own
          have pass : (fun v => k (.ok v)) = passing := funext passes
          have fail : (fun e => k (.error e)) = failing := funext fails
          obtain ⟨k', tries', settles, point⟩ := at_program (p := p) tries
          dsimp only
          rw [pass, fail, settles]
          exact ⟨point, .enters⟩
      | now foreign r guarded => cases foreign
      | raises foreign e => cases foreign
      | later foreign => cases foreign
  | yield goes =>
      cases step with
      | now foreign r guarded =>
          cases allowed with
          | stored absurd => cases absurd
      | raises foreign e => cases allowed
      | later foreign => exact ⟨.yielding goes, .later⟩
      | enters own => cases own
  | yielding goes =>
      cases step with
      | resumed r guarded =>
          cases allowed with
          | yielded =>
              obtain ⟨k', rest, settles, point⟩ := at_reading goes
              rw [Proc.guard_false, settles]
              exact ⟨point, .yielded⟩
          | storedResumed absurd => cases absurd
  | read passes fails inner =>
      have framed := framed_cons (.missed (p := p)) inner
      cases step with
      | now foreign r guarded =>
          cases allowed with
          | stored stored r =>
              cases r with
              | ok entry =>
                  obtain ⟨k', settles, point⟩ := at_modified (p.found entry) framed
                  rw [passes entry]
                  exact ⟨settles ▸ point, settles ▸ .found⟩
              | error e =>
                  rw [fails e]
                  exact read_error (.now false) framed
      | raises foreign e => cases allowed
      | later foreign => exact ⟨.reading passes fails, .later⟩
      | enters own => cases own
  | reading passes fails =>
      cases step with
      | resumed r guarded =>
          cases allowed with
          | storedResumed stored r =>
              cases r with
              | ok entry =>
                  obtain ⟨k', settles, point⟩ := at_modified (p.found entry) none
                  rw [passes entry]
                  exact ⟨settles ▸ point, settles ▸ .foundLate⟩
              | error e =>
                  rw [fails e]
                  exact read_error (.resumed false) none
  | calls handed goes framed =>
      cases step with
      | now foreign r guarded =>
          cases allowed with
          | called content =>
              rw [goes, Proc.settle_attempt, Proc.settle_ask]
              exact ⟨.func handed (framed_cons (Framed.failing p) framed), .called⟩
      | raises foreign e => exact ⟨at_unwind e framed, .thrown framed⟩
      | later foreign => cases allowed
      | enters own => cases own
  | func handed framed =>
      cases step with
      | now foreign r guarded =>
          exact func_ends handed (.now guarded) (framed_guard handed guarded framed)
      | raises foreign e => exact ⟨at_unwind e framed, .thrown framed⟩
      | later foreign => exact ⟨.funcWaits handed, .later⟩
      | enters own => cases own
  | funcWaits handed =>
      cases step with
      | resumed r guarded =>
          have inside := framed_guard handed guarded none
          rw [List.append_nil] at inside
          exact func_ends handed (.resumed guarded) inside
  | write writes retries fails refused passes framed =>
      cases step with
      | now foreign r guarded =>
          cases allowed with
          | stored stored r =>
              exact write_ends writes retries fails refused passes (.now false) framed
          | func content r guarded => cases writes
      | raises foreign e =>
          cases allowed with
          | funcThrows content e => cases writes
      | later foreign => exact ⟨.writeWaits writes retries fails refused passes, .later⟩
      | enters own =>
          cases allowed with
          | again => cases writes
  | writeWaits writes retries fails refused passes =>
      cases step with
      | resumed r guarded =>
          cases allowed with
          | storedResumed stored r =>
              exact write_ends writes retries fails refused passes (.resumed false) none
          | yielded => cases writes
          | funcResumed content r guarded => cases writes
  | passed framed =>
      cases step with
      | now foreign r guarded =>
          cases allowed with
          | passed v => exact ⟨.done, .passed⟩
      | raises foreign e => exact ⟨at_unwind e framed, .thrown framed⟩
      | later foreign => cases allowed
      | enters own => cases own
  | failed framed =>
      cases step with
      | now foreign r guarded =>
          cases allowed with
          | failed e => exact ⟨.done, .failed⟩
      | raises foreign e => exact ⟨at_unwind e framed, .thrown framed⟩
      | later foreign => cases allowed
      | enters own => cases own
  | done => cases step
  | escaped e => cases step

/-- A call is always at one of its points. -/
theorem run_at {trace : List (Happening V A)} {s : Stop V A}
    (run : Run (Thread.Step p.program) (Thread.initial p.program) trace s) : p.At s := by
  refine run.invariant (I := fun _ s => p.At s) ?_ ?_
  · obtain ⟨k, tries, settles, point⟩ := at_program (p := p) []
    rw [Thread.initial, settles]
    exact point
  · intro trace s ev s' point next
    exact (point.turn next).1

end Plan

end SidepoolFormal.Saver
