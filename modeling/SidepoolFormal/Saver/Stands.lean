import SidepoolFormal.Saver.Threads

/-!
# A call as it runs stands for a task

As long as nothing that comes back into a call is mistaken for an exception of the
saver, the call does what the task of `Saver.Code` does: the task performs an
operation when the saver does, and has ended when the caller is told.
-/

namespace SidepoolFormal.Saver

open Library Threads

variable {ι V A X : Type}

/-- The entry has been read. -/
def Plan.known (p : Plan V A X) (asking : X → Io V A A) : Except Exn (Nat × V) → Io V A A
  | .ok entry => asking (p.found entry)
  | .error e =>
      match p.missing e with
      | none => .done (.error e)
      | some x => asking x

/-- The value has been written, or the call is made once more, or it fails. -/
def Plan.judged (p : Plan V A X) (again : Io V A A) (v : A) (o : Op V A) :
    Except Exn o.Ans → Io V A A
  | .ok _ => .lift v
  | .error e => if p.conflicts o e then again else .done (.error e)

/-- How the task of a kind of call goes on, from one operation to the next. -/
structure Plan.Tasks (p : Plan V A X) (program : Io V A A) where
  reading : Io V A A
  asking : X → Io V A A
  writing : X → A → Io V A A
  begins : program = .ask .yield fun
    | .ok _ => reading
    | .error e => .done (.error e)
  reads : reading = .ask .read (p.known asking)
  asks : ∀ x, asking x = .ask (.func (p.content x)) fun
    | .ok v => writing x v
    | .error e => .done (.error e)
  keeps : ∀ x v, p.written x v = none → writing x v = .lift v
  writes : ∀ x v o, p.written x v = some o → writing x v = .ask o (p.judged again v o)

namespace Plan

variable {p : Plan V A X} {program : Io V A A} {tasks : p.Tasks program}

theorem enter_reading (tasks : p.Tasks program) : enter program tasks.reading = tasks.reading := by
  rw [tasks.reads]
  rfl

theorem enter_known (tasks : p.Tasks program) (r : Except Exn (Nat × V)) :
    enter program (p.known tasks.asking r) = p.known tasks.asking r := by
  have asking (x : X) : enter program (tasks.asking x) = tasks.asking x := by
    rw [tasks.asks]
    rfl
  cases r with
  | ok entry => exact asking _
  | error e =>
      rw [known]
      cases p.missing e with
      | none => rfl
      | some x => exact asking x

theorem enter_writing (tasks : p.Tasks program) (x : X) (v : A) :
    enter program (tasks.writing x v) = tasks.writing x v := by
  cases written : p.written x v with
  | none =>
      rw [tasks.keeps x v written]
      rfl
  | some o =>
      rw [tasks.writes x v o written]
      obtain ⟨isWrite, -⟩ := p.writes x v o written
      cases o with
      | again => cases isWrite
      | _ => rfl

theorem enter_judged (p : Plan V A X) (v : A) (o : Op V A) (r : Except Exn o.Ans) :
    enter program (p.judged again v o r) = p.judged program v o r := by
  cases r with
  | ok r => rfl
  | error e =>
      rw [judged, judged]
      cases p.conflicts o e with
      | true => exact program.continue_done
      | false => rfl

/-! ## Which call stands for which task -/

/-- Only try blocks of the code are open. -/
def Coded (tries : List (Open V A)) : Prop := ∀ t ∈ tries, ∃ handler, t = .code handler

theorem coded_cons {handler : Exn → Code V A} {tries : List (Open V A)} (coded : Coded tries) :
    Coded (.code handler :: tries) :=
  List.forall_mem_cons.mpr ⟨⟨handler, rfl⟩, coded⟩

/-- A call that has not told its caller anything is where its task is; one that has
is done, with what it has told. -/
inductive Stands (tasks : p.Tasks program) : Lane V A → Io V A A → Prop
  | again {k : Except Exn A → Code V A} {tries : List (Open V A)}
      (passes : ∀ v, k (.ok v) = passing v) (fails : ∀ e, k (.error e) = failing e) :
      Stands tasks ⟨.asks (.op .again) k tries, none, none⟩ program
  | yield {k : Except Exn Unit → Code V A} {tries : List (Open V A)}
      (goes : k (.ok ()) = .attempt (p.reading p.modified failing) failing) :
      Stands tasks ⟨.asks (.op .yield) k tries, none, none⟩ program
  | yielding {k : Except Exn Unit → Code V A}
      (goes : k (.ok ()) = .attempt (p.reading p.modified failing) failing) :
      Stands tasks ⟨.waits (.op .yield) k, none, none⟩ program
  | read {k : Except Exn (Nat × V) → Code V A} {rest : List (Open V A)}
      (passes : ∀ entry, k (.ok entry) = p.modified (p.found entry))
      (fails : ∀ e, k (.error e) = missed p.missing p.modified failing e) (coded : Coded rest) :
      Stands tasks
        ⟨.asks (.op .read) k (.code (missed p.missing p.modified failing) :: rest), none, none⟩
        tasks.reading
  | reading {k : Except Exn (Nat × V) → Code V A}
      (passes : ∀ entry, k (.ok entry) = p.modified (p.found entry))
      (fails : ∀ e, k (.error e) = missed p.missing p.modified failing e) :
      Stands tasks ⟨.waits (.op .read) k, none, none⟩ tasks.reading
  | known {k : Except Exn (Nat × V) → Code V A} (r : Except Exn (Nat × V))
      (passes : ∀ entry, k (.ok entry) = p.modified (p.found entry))
      (fails : ∀ e, k (.error e) = missed p.missing p.modified failing e) :
      Stands tasks ⟨.waits (.op .read) k, some ⟨.read, r⟩, none⟩ (p.known tasks.asking r)
  | calls {x : X} {k : Except Exn Unit → Code V A} {k' : Except Exn A → Code V A}
      {tries : List (Open V A)} (handed : p.Handed x k')
      (goes : k (.ok ()) = .attempt (.ask (.op (.func (p.content x))) k') failing)
      (coded : Coded tries) :
      Stands tasks ⟨.asks (.calls (p.content x)) k tries, none, none⟩ (tasks.asking x)
  | func {x : X} {k : Except Exn A → Code V A} {tries : List (Open V A)} (handed : p.Handed x k)
      (coded : Coded tries) :
      Stands tasks ⟨.asks (.op (.func (p.content x))) k tries, none, none⟩ (tasks.asking x)
  | funcWaits {x : X} {k : Except Exn A → Code V A} (handed : p.Handed x k) :
      Stands tasks ⟨.waits (.op (.func (p.content x))) k, none, none⟩ (tasks.asking x)
  | write {x : X} {v : A} {o : Op V A} {k : Except Exn o.Ans → Code V A} {sub : Exn → Code V A}
      {tries : List (Open V A)} (written : p.written x v = some o)
      (judged : Judged finished failing v (p.conflicts o) k sub) :
      Stands tasks ⟨.asks (.op o) k tries, none, none⟩ (tasks.writing x v)
  | writing {x : X} {v : A} {o : Op V A} {k : Except Exn o.Ans → Code V A} {sub : Exn → Code V A}
      (written : p.written x v = some o)
      (judged : Judged finished failing v (p.conflicts o) k sub) :
      Stands tasks ⟨.waits (.op o) k, none, none⟩ (tasks.writing x v)
  | judged {v : A} {o : Op V A} {k : Except Exn o.Ans → Code V A} {sub : Exn → Code V A}
      (r : Except Exn o.Ans) (writes : o.writes = true)
      (judged : Judged finished failing v (p.conflicts o) k sub) :
      Stands tasks ⟨.waits (.op o) k, some ⟨o, r⟩, none⟩ (p.judged program v o r)
  | escaped (e e' : Exn) : Stands tasks ⟨.escaped e, none, none⟩ (.done (.error e'))
  | told {s : Stop V A} (r : Except Exn A) (late : Fits .done s) :
      Stands tasks ⟨s, none, some r⟩ (.done r)

/-- What has been told is what the task has ended with. -/
theorem Stands.ended {c : Lane V A} {t : Io V A A} (stands : Stands tasks c t) {r : Except Exn A}
    (told : c.told = some r) : t.ended = some r := by
  cases stands with
  | told r' late => exact told
  | again passes fails => cases told
  | yield goes => cases told
  | yielding goes => cases told
  | read passes fails coded => cases told
  | reading passes fails => cases told
  | known r' passes fails => cases told
  | calls handed goes coded => cases told
  | func handed coded => cases told
  | funcWaits handed => cases told
  | write written judged => cases told
  | writing written judged => cases told
  | judged r' writes judged => cases told
  | escaped e e' => cases told

/-! ## Where a call comes to -/

/-- A call that has told its caller nothing so far comes to a stop. -/
abbrev Comes (tasks : p.Tasks program) (s : Stop V A) (t : Io V A A) : Prop :=
  Stands tasks ⟨s, none, tells s⟩ t

theorem comes_passed (v : A) (tries : List (Open V A)) :
    Comes tasks (Proc.settle (passing v) tries) (.done (.ok v)) := by
  refine .told (.ok v) (.late fun r asks => ?_)
  cases asks
  exact ⟨rfl, rfl⟩

theorem comes_failed (e : Exn) (tries : List (Open V A)) :
    Comes tasks (Proc.settle (failing e) tries) (.done (.error e)) := by
  refine .told (.error e) (.late fun r asks => ?_)
  cases asks
  exact ⟨rfl, rfl⟩

theorem comes_modified (x : X) {tries : List (Open V A)} (coded : Coded tries) :
    Comes tasks (Proc.settle (p.modified x) tries) (tasks.asking x) :=
  .calls ⟨fun _ => rfl, fun _ => rfl⟩ rfl coded

theorem comes_program (tries : List (Open V A)) :
    Comes tasks (Proc.settle (p.program passing failing) tries) program :=
  .yield rfl

theorem comes_reading {k : Except Exn Unit → Code V A}
    (goes : k (.ok ()) = .attempt (p.reading p.modified failing) failing) :
    Comes tasks (Proc.settle (k (.ok ())) []) tasks.reading := by
  obtain ⟨k', rest, settles, passes, fails, plain⟩ := p.reads p.modified failing
  rw [goes, Proc.settle_attempt, settles]
  refine .read passes fails fun t member => ?_
  exact ⟨failing, plain t member⟩

theorem comes_known {k : Except Exn (Nat × V) → Code V A}
    (passes : ∀ entry, k (.ok entry) = p.modified (p.found entry))
    (fails : ∀ e, k (.error e) = missed p.missing p.modified failing e)
    (r : Except Exn (Nat × V)) {tries : List (Open V A)} (coded : Coded tries) :
    Comes tasks (Proc.settle (k r) tries) (p.known tasks.asking r) := by
  cases r with
  | ok entry =>
      rw [passes]
      exact comes_modified _ coded
  | error e =>
      rw [fails, missed, known]
      cases p.missing e with
      | none => exact comes_failed e tries
      | some x =>
          rw [Proc.settle_attempt]
          exact comes_modified x (coded_cons coded)

theorem comes_answered {x : X} {k : Except Exn A → Code V A} (handed : p.Handed x k) (v : A)
    (tries : List (Open V A)) :
    Comes tasks (Proc.settle (k (.ok v)) tries) (tasks.writing x v) := by
  rw [handed.passes]
  cases written : p.written x v with
  | none =>
      rw [p.keeps x v written, tasks.keeps x v written]
      exact comes_passed v tries
  | some o =>
      obtain ⟨-, writes⟩ := p.writes x v o written
      obtain ⟨k, sub, settles, judged⟩ := writes finished failing tries
      rw [settles]
      exact .write written judged

theorem comes_judged {v : A} {o : Op V A} {k : Except Exn o.Ans → Code V A}
    {sub : Exn → Code V A} (judged : Judged finished failing v (p.conflicts o) k sub)
    (r : Except Exn o.Ans) (tries : List (Open V A)) :
    Comes tasks (Proc.settle (k r) tries) (p.judged program v o r) := by
  cases r with
  | ok r =>
      rcases judged.passes r with plain | guarded
      · rw [plain]
        exact comes_passed v tries
      · rw [guarded, Proc.settle_attempt]
        exact comes_passed v _
  | error e =>
      rw [judged.fails, Plan.judged]
      cases conflict : p.conflicts o e with
      | false =>
          rw [judged.refused e conflict]
          exact comes_failed e tries
      | true =>
          obtain ⟨handler, same⟩ := judged.conflict e conflict
          rw [same, Proc.settle_attempt]
          exact .again (fun _ => rfl) fun _ => rfl

/-- A function that throws, where nothing is mistaken, has failed, or its exception
leaves the call. -/
theorem comes_thrown (e : Exn) {tries : List (Open V A)} (coded : Coded tries)
    (fair : ∀ handler rest, tries = .code handler :: rest → handler e = failing e) :
    Comes tasks (Proc.unwind tries e) (.done (.error e)) := by
  cases tries with
  | nil => exact .escaped e e
  | cons t rest =>
      obtain ⟨handler, rfl⟩ := coded t (List.mem_cons_self ..)
      rw [Proc.unwind_code, fair handler rest rfl]
      exact comes_failed e rest

/-! ## One step of a call -/

/-- What a step of a call is to its task: nothing, or an operation that is
performed. -/
inductive Moves (program : Io V A A) (answers : A → A → Prop) (i : ι)
    (before after : Option (Nat × V)) (t : Io V A A) : Option (Event ι V A) → Io V A A → Prop
  | silent (same : after = before) : Moves program answers i before after t none t
  | performs {o : Op V A} {k : Except Exn o.Ans → Io V A A} {r : Except Exn o.Ans}
      (next : t = .ask o k) (performs : Performs answers o r before after) :
      Moves program answers i before after t (some ⟨some i, o, r, before, after⟩)
        (enter program (k r))

section

variable {answers : A → A → Prop} {i : ι} {before after : Option (Nat × V)}

theorem moves_yield (performs : Performs answers .yield (.ok ()) before after) :
    Moves program answers i before after program (some ⟨some i, .yield, .ok (), before, after⟩)
      tasks.reading :=
  enter_reading tasks ▸ .performs tasks.begins performs

theorem moves_read {r : Except Exn (Nat × V)} (performs : Performs answers .read r before after) :
    Moves program answers i before after tasks.reading (some ⟨some i, .read, r, before, after⟩)
      (p.known tasks.asking r) :=
  enter_known tasks r ▸ .performs tasks.reads performs

theorem moves_func {x : X} {v : A}
    (performs : Performs answers (.func (p.content x)) (.ok v) before after) :
    Moves program answers i before after (tasks.asking x)
      (some ⟨some i, .func (p.content x), .ok v, before, after⟩) (tasks.writing x v) :=
  enter_writing tasks x v ▸ .performs (tasks.asks x) performs

theorem moves_func_fails (x : X) (e : Exn) (same : after = before) :
    Moves program answers i before after (tasks.asking x)
      (some ⟨some i, .func (p.content x), .error e, before, after⟩) (.done (.error e)) := by
  subst same
  exact .performs (tasks.asks x) (.funcFails _ e _)

theorem moves_write {x : X} {v : A} {o : Op V A} (written : p.written x v = some o)
    {r : Except Exn o.Ans} (performs : Performs answers o r before after) :
    Moves program answers i before after (tasks.writing x v) (some ⟨some i, o, r, before, after⟩)
      (p.judged program v o r) :=
  enter_judged p v o r ▸ .performs (tasks.writes x v o written) performs

end

theorem stored_of_writes {o : Op V A} (writes : o.writes = true) : o.stored = true := by
  cases o with
  | read => rfl
  | create v => rfl
  | update g v => rfl
  | del g => rfl
  | yield => cases writes
  | func content => cases writes
  | again => cases writes

/-- Once its caller has been told, a call asks the saver for nothing. -/
theorem not_stored {s : Stop V A} (late : Fits .done s) {o : Op V A}
    (asks : request s = some (.op o)) : o.stored = false := by
  have early := late.early (by simp) _ asks
  have writes := late.writes rfl _ asks
  cases o with
  | read => cases early
  | create v => cases writes
  | update g v => cases writes
  | del g => cases writes
  | yield => rfl
  | func content => rfl
  | again => rfl

section

variable {answers : A → A → Prop} {i : ι} {before after : Option (Nat × V)} {t : Io V A A}

/-- The saver performs what a call waits for. -/
theorem Stands.performs {o : Op V A} {k : Except Exn o.Ans → Code V A} {r : Except Exn o.Ans}
    {told : Option (Except Exn A)} (stands : Stands tasks ⟨.waits (.op o) k, none, told⟩ t)
    (stored : o.stored = true) (performs : Performs answers o r before after) :
    ∃ t', Moves program answers i before after t (some ⟨some i, o, r, before, after⟩) t' ∧
      Stands tasks ⟨.waits (.op o) k, some ⟨o, r⟩, told⟩ t' := by
  cases stands with
  | yielding goes => cases stored
  | funcWaits handed => cases stored
  | reading passes fails => exact ⟨_, moves_read performs, .known r passes fails⟩
  | writing written judged =>
      obtain ⟨writes, -⟩ := p.writes _ _ _ written
      exact ⟨_, moves_write written performs, .judged r writes judged⟩
  | told r late => cases stored.symm.trans (not_stored late rfl)

/-- Once its caller has been told, a step of a call leaves the entry alone, and no
operation is performed with it. -/
theorem silent_told {program : Call V A A} {s s' : Stop V A} {r : Except Exn A}
    {ev : Happening V A} (late : Fits .done s) (step : Thread.Step program s ev s')
    (touches : Lane.Touches ⟨s, none, some r⟩ answers before after ev) :
    after = before ∧ Lane.event ⟨s, none, some r⟩ i before after ev = none := by
  obtain ⟨step, allowed⟩ := step
  cases step with
  | @now r k tries foreign result guarded =>
      cases r with
      | op o =>
          have plain : o.stored = false := not_stored late rfl
          refine ⟨?_, by simp [Lane.event, plain]⟩
          cases touches <;> first | rfl | cases plain
      | calls content => exact ⟨touches, rfl⟩
      | passed v => exact ⟨touches, rfl⟩
      | failed e => exact ⟨touches, rfl⟩
  | @resumed r k result guarded =>
      cases r with
      | op o =>
          have plain : o.stored = false := not_stored late rfl
          refine ⟨?_, by simp [Lane.event]⟩
          rw [Lane.Touches, if_neg (by simp [plain])] at touches
          cases touches <;> first | rfl | cases plain
      | calls content => exact ⟨touches, rfl⟩
      | passed v => exact ⟨touches, rfl⟩
      | failed e => exact ⟨touches, rfl⟩
  | @raises r k tries foreign e =>
      refine ⟨touches, ?_⟩
      cases r with
      | op o => cases o <;> rfl
      | calls content => rfl
      | passed v => rfl
      | failed e => rfl
  | later foreign => exact ⟨touches, rfl⟩
  | enters own => exact ⟨touches, rfl⟩

/-- Once its caller has been told, a call does nothing that counts. -/
theorem Stands.step_told {kept : A → A → Prop}
    (keeps : ∀ x v, kept (p.content x) v → p.written x v = none) {s s' : Stop V A}
    {r : Except Exn A} {ev : Happening V A} (late : Fits .done s) (point : p.At s)
    (step : Thread.Step p.program s ev s')
    (touches : Lane.Touches ⟨s, none, some r⟩ answers before after ev)
    (fair : Threads.Fair kept ⟨s, none, some r⟩ ev) :
    after = before ∧ Lane.event ⟨s, none, some r⟩ i before after ev = none ∧ Fits .done s' := by
  obtain ⟨same, uncounted⟩ := silent_told (i := i) late step touches
  have follows := (point.turn step).2.follows keeps late
    (fun r k handler tries e same raised _ => fair.thrown r k handler tries e same raised)
    fun content v ends _ => fair.repeated content v ends (by simp)
  exact ⟨same, uncounted, follows.fits⟩

/-- What the function of an untold call throws, when it is called or when the core of
its `Io` is started. -/
theorem comes_raised {kept : A → A → Prop} {r : Req V A} {k : Except Exn r.Ans → Code V A}
    {tries : List (Open V A)} {e : Exn} (coded : Coded tries)
    (fair : Threads.Fair kept ⟨.asks r k tries, none, none⟩ (.raises r e)) :
    Comes tasks (Proc.unwind tries e) (.done (.error e)) := by
  refine comes_thrown e coded ?_
  rintro handler rest rfl
  exact fair.thrown r k handler rest e rfl rfl

theorem comes_func {x : X} {k : Except Exn A → Code V A} (handed : p.Handed x k)
    {r : Except Exn A} (tries : List (Open V A))
    (performs : Performs answers (.func (p.content x)) r before after) :
    ∃ t', Moves program answers i before after (tasks.asking x)
        (some ⟨some i, .func (p.content x), r, before, after⟩) t' ∧
      Comes tasks (Proc.settle (k r) tries) t' := by
  cases r with
  | ok v => exact ⟨_, moves_func performs, comes_answered handed v tries⟩
  | error e =>
      rw [handed.fails]
      have same : after = before := by
        cases performs
        rfl
      exact ⟨_, moves_func_fails x e same, comes_failed e tries⟩

/-- Every step of a call is a step of its task, or none. -/
theorem Stands.step {kept : A → A → Prop}
    (keeps : ∀ x v, kept (p.content x) v → p.written x v = none) {c : Lane V A} {s' : Stop V A}
    {ev : Happening V A} (stands : Stands tasks c t) (point : p.At c.stop)
    (step : Thread.Step p.program c.stop ev s') (touches : c.Touches answers before after ev)
    (fair : Threads.Fair kept c ev) :
    ∃ t', Moves program answers i before after t (c.event i before after ev) t' ∧
      Stands tasks (c.next s') t' := by
  cases stands with
  | again passes fails =>
      rename_i k tries
      obtain ⟨step, allowed⟩ := step
      cases step with
      | enters own =>
          cases own
          have pass : (fun v => k (.ok v)) = passing := funext passes
          have fail : (fun e => k (.error e)) = failing := funext fails
          refine ⟨_, .silent touches, ?_⟩
          dsimp only
          rw [pass, fail]
          exact comes_program tries
      | now foreign r guarded => cases foreign
      | raises foreign e => cases foreign
      | later foreign => cases foreign
  | yield goes =>
      obtain ⟨step, allowed⟩ := step
      cases step with
      | later foreign => exact ⟨_, .silent touches, .yielding goes⟩
      | now foreign r guarded =>
          cases allowed with
          | stored absurd => cases absurd
      | raises foreign e => cases allowed
      | enters own => cases own
  | yielding goes =>
      obtain ⟨step, allowed⟩ := step
      cases step with
      | resumed r guarded =>
          cases allowed with
          | yielded => exact ⟨_, moves_yield touches, comes_reading goes⟩
          | storedResumed absurd => cases absurd
  | read passes fails coded =>
      obtain ⟨step, allowed⟩ := step
      cases step with
      | now foreign r guarded =>
          cases allowed with
          | stored stored r =>
              exact ⟨_, moves_read touches, comes_known passes fails r (coded_cons coded)⟩
      | later foreign => exact ⟨_, .silent touches, .reading passes fails⟩
      | raises foreign e => cases allowed
      | enters own => cases own
  | reading passes fails =>
      obtain ⟨step, allowed⟩ := step
      cases step with
      | resumed r guarded =>
          obtain ⟨absurd, -⟩ := touches
          cases absurd
  | known r passes fails =>
      obtain ⟨step, allowed⟩ := step
      cases step with
      | resumed r' guarded =>
          obtain ⟨performed, same⟩ := touches
          cases performed
          cases allowed with
          | storedResumed stored r =>
              exact ⟨_, .silent same, comes_known passes fails r (fun t absurd => nomatch absurd)⟩
  | calls handed goes coded =>
      obtain ⟨step, allowed⟩ := step
      cases step with
      | now foreign r guarded =>
          cases allowed with
          | called content =>
              refine ⟨_, .silent touches, ?_⟩
              rw [goes, Proc.settle_attempt, Proc.settle_ask]
              exact .func handed (coded_cons coded)
      | raises foreign e => exact ⟨_, moves_func_fails _ e touches, comes_raised coded fair⟩
      | later foreign => cases allowed
      | enters own => cases own
  | func handed coded =>
      obtain ⟨step, allowed⟩ := step
      cases step with
      | now foreign r guarded => exact comes_func handed _ touches
      | raises foreign e => exact ⟨_, moves_func_fails _ e touches, comes_raised coded fair⟩
      | later foreign => exact ⟨_, .silent touches, .funcWaits handed⟩
      | enters own => cases own
  | funcWaits handed =>
      obtain ⟨step, allowed⟩ := step
      cases step with
      | resumed r guarded => exact comes_func handed _ touches
  | write written judged =>
      obtain ⟨writes, -⟩ := p.writes _ _ _ written
      obtain ⟨step, allowed⟩ := step
      cases step with
      | now foreign r guarded =>
          cases allowed with
          | stored stored r =>
              rw [Lane.event, if_pos (by simp)]
              exact ⟨_, moves_write written touches, comes_judged judged r _⟩
          | func content r guarded => cases writes
      | later foreign => exact ⟨_, .silent touches, .writing written judged⟩
      | raises foreign e =>
          cases allowed with
          | funcThrows content e => cases writes
      | enters own =>
          cases allowed with
          | again => cases writes
  | writing written judged =>
      obtain ⟨writes, -⟩ := p.writes _ _ _ written
      obtain ⟨step, allowed⟩ := step
      cases step with
      | resumed r guarded =>
          rw [Lane.Touches, if_pos (stored_of_writes writes)] at touches
          cases touches.1
  | judged r writes judged =>
      obtain ⟨step, allowed⟩ := step
      have stored := stored_of_writes writes
      cases step with
      | resumed r' guarded =>
          rw [Lane.Touches, if_pos stored] at touches
          obtain ⟨performed, same⟩ := touches
          cases performed
          cases allowed with
          | storedResumed stored r =>
              rw [Lane.event, if_neg (by simp [stored])]
              exact ⟨_, .silent same, comes_judged judged r _⟩
          | yielded => cases writes
          | funcResumed content r guarded => cases writes
  | escaped e e' =>
      obtain ⟨step, allowed⟩ := step
      cases step
  | told r late =>
      obtain ⟨same, uncounted, late'⟩ := step_told keeps late point step touches fair (i := i)
      rw [uncounted]
      exact ⟨_, .silent same, .told r late'⟩

end

/-! ## Runs -/

theorem history_snoc (trace : List (Label ι V A)) (l : Label ι V A) :
    history (trace ++ [l]) = history trace ++ l.event.toList := by
  rw [history, List.filterMap_append, history]
  cases event : l.event with
  | none => simp [event]
  | some e => simp [event]

section Runs

variable [DecidableEq ι] {answers : ι → A → A → Prop} {entry : Option (Nat × V)}

/-- The calls stand for the tasks, on the same entry. -/
structure Simulates (tasks : p.Tasks program) (s : State ι V A) (sys : System ι V A) : Prop where
  entry : sys.entry = s.entry
  points : ∀ i, p.At (s.lane i).stop
  stands : ∀ i, Stands tasks (s.lane i) (sys.call i)

/-- A run of the tasks goes on as one of the calls does. -/
theorem Moves.run {trace : List (Event ι V A)} {sys : System ι V A} {i : ι}
    {after : Option (Nat × V)} {ev : Option (Event ι V A)} {t : Io V A A}
    (run : Run (Saver.Step answers program) ⟨entry, fun _ => program⟩ trace sys)
    (moves : Moves program (answers i) i sys.entry after (sys.call i) ev t) :
    Run (Saver.Step answers program) ⟨entry, fun _ => program⟩ (trace ++ ev.toList)
      ⟨after, Function.update sys.call i t⟩ := by
  cases moves with
  | silent same =>
      subst same
      rw [Function.update_eq_self]
      simpa using run
  | performs next performs => exact run.snoc (.perform next performs)

theorem Simulates.set {s : State ι V A} {sys : System ι V A} (simulates : Simulates tasks s sys)
    {i : ι} {c : Lane V A} {t : Io V A A} {after : Option (Nat × V)} (point : p.At c.stop)
    (stands : Stands tasks c t) :
    Simulates tasks ⟨after, Function.update s.lane i c⟩ ⟨after, Function.update sys.call i t⟩ where
  entry := rfl
  points j := by
    by_cases same : j = i
    · subst same
      simpa using point
    · simpa [same] using simulates.points j
  stands j := by
    by_cases same : j = i
    · subst same
      simpa using stands
    · simpa [same] using simulates.stands j

omit [DecidableEq ι] in
theorem simulates_start (tasks : p.Tasks program) (entry : Option (Nat × V)) :
    Simulates tasks (start (ι := ι) p.program entry) ⟨entry, fun _ => program⟩ where
  entry := rfl
  points _ := Plan.run_at .nil
  stands _ := comes_program []

/-- The operations that fair calls perform are those of a run of the tasks. -/
theorem simulates {kept : A → A → Prop}
    (keeps : ∀ x v, kept (p.content x) v → p.written x v = none) (tasks : p.Tasks program)
    {trace : List (Label ι V A)} {s : State ι V A}
    (run : Run (Threads.Step answers p.program) (start p.program entry) trace s)
    (fairly : Threads.Fairly answers p.program kept entry trace) :
    ∃ sys, Run (Saver.Step answers program) ⟨entry, fun _ => program⟩ (history trace) sys ∧
      Simulates tasks s sys := by
  refine fairly.invariant (I := fun trace s => ∃ sys,
    Run (Saver.Step answers program) ⟨entry, fun _ => program⟩ (history trace) sys ∧
      Simulates tasks s sys) ?_ ?_ run
  · exact ⟨_, .nil, simulates_start tasks entry⟩
  · rintro trace s l s' - ⟨sys, run, simulates⟩ next fair
    rw [history_snoc]
    cases next with
    | @performs i o k r after waits stored undone performs =>
        have stands := simulates.stands i
        have point := simulates.points i
        generalize s.lane i = c at waits undone stands point
        obtain ⟨stop, performed, told⟩ := c
        cases waits
        cases undone
        rw [← simulates.entry] at performs ⊢
        obtain ⟨t, moves, stands'⟩ := stands.performs (i := i) stored performs
        exact ⟨_, moves.run run, simulates.set point stands'⟩
    | @happens i ev stop after step touches =>
        have point := (simulates.points i).turn step
        rw [← simulates.entry] at touches ⊢
        obtain ⟨t, moves, stands⟩ := (simulates.stands i).step (i := i) keeps (simulates.points i)
          step touches (fair i ev rfl)
        exact ⟨_, moves.run run, simulates.set point.1 stands⟩
    | @direct g v r after performs =>
        rw [← simulates.entry] at performs ⊢
        exact ⟨_, run.snoc (.direct performs), rfl, simulates.points, simulates.stands⟩

end Runs

end Plan

end SidepoolFormal.Saver
