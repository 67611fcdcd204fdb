import SidepoolFormal.Saver.Turns
import Mathlib.Data.List.Induction

/-!
# A call commits once

A call that has written does not write again, and calls the user's function
again only when the saver has reported a conflict: unless an exception that is
not the saver's meets one of the handlers that are meant for the saver's.
-/

namespace SidepoolFormal.Saver

open Library

variable {V A X : Type}

/-! ## What happens in a run -/

/-- The saver accepts a write. -/
def accepted : Happening V A → Bool
  | .now (.op o) (.ok _) _ => o.writes
  | .resumed (.op o) (.ok _) _ => o.writes
  | _ => false

/-- The saver reports a conflict on a write. -/
def reported (conflicts : Op V A → Exn → Bool) : Happening V A → Bool
  | .now (.op o) (.error e) _ => o.writes && conflicts o e
  | .resumed (.op o) (.error e) _ => o.writes && conflicts o e
  | _ => false

/-- The user's function is called; it may throw then. -/
def called : Happening V A → Bool
  | .now (.calls _) _ _ => true
  | .raises (.calls _) _ => true
  | _ => false

/-- The call is made once more. -/
def retried : Happening V A → Bool
  | .enters _ => true
  | _ => false

structure Once (conflicts : Op V A → Exn → Bool) (trace : List (Happening V A)) : Prop where
  commits : trace.Pairwise fun ev ev' => accepted ev = true → accepted ev' = false
  prompted : ∀ pre ev mid ev', pre ++ ev :: mid ++ [ev'] <+: trace → called ev = true →
    called ev' = true → ∃ c ∈ mid, reported conflicts c = true
  final : trace.Pairwise fun ev ev' =>
    accepted ev = true → called ev' = false ∧ retried ev' = false

/-- The function is to be called next, or has been called since the last
conflict, or a write has been accepted. -/
inductive Phase where
  | ready
  | called
  | done
  deriving DecidableEq

def Phase.advance (conflicts : Op V A → Exn → Bool) : Phase → Happening V A → Phase
  | .done, _ => .done
  | phase, ev =>
      if accepted ev then .done
      else if Saver.called ev then .called
      else if reported conflicts ev then .ready
      else phase

def phase (conflicts : Op V A → Exn → Bool) (trace : List (Happening V A)) : Phase :=
  trace.foldl (Phase.advance conflicts) .ready

/-- An exception that comes back after the function has been called is given by
the innermost try block to the caller's `fail`; and after a write has been
accepted the function's `Io`, if such an exception makes it go on, gives no value
that is to be written. -/
structure Fair (conflicts : Op V A → Exn → Bool) (kept : A → A → Prop)
    (trace : List (Happening V A)) (s : Stop V A) (ev : Happening V A) : Prop where
  thrown : ∀ r k handler tries e, s = .asks r k (.code handler :: tries) → ev = .raises r e →
    phase conflicts (trace ++ [ev]) ≠ .ready → handler e = failing e
  repeated : ∀ content v, Ends (.op (.func content)) (.ok v) s ev →
    phase conflicts trace = .done → kept content v

abbrev Fairly (program : Call V A A) (conflicts : Op V A → Exn → Bool) (kept : A → A → Prop) :
    List (Happening V A) → Prop :=
  Run.Meets (Thread.Step program) (Thread.initial program) (Fair conflicts kept)

/-! ## Phases of a trace -/

variable {conflicts : Op V A → Exn → Bool}

theorem phase_snoc (trace : List (Happening V A)) (ev : Happening V A) :
    phase conflicts (trace ++ [ev]) = (phase conflicts trace).advance conflicts ev := by
  simp [phase, List.foldl_append]

theorem Phase.advance_done (ev : Happening V A) : Phase.done.advance conflicts ev = .done := rfl

theorem Phase.advance_of_not_done {phase : Phase} (open_ : phase ≠ .done) (ev : Happening V A) :
    phase.advance conflicts ev =
      if accepted ev then .done
      else if Saver.called ev then .called
      else if reported conflicts ev then .ready
      else phase := by
  cases phase with
  | ready => rfl
  | called => rfl
  | done => exact absurd rfl open_

theorem Phase.advance_quiet {ev : Happening V A} (accept : accepted ev = false)
    (call : Saver.called ev = false) (report : reported conflicts ev = false) (phase : Phase) :
    phase.advance conflicts ev = phase := by
  cases phase with
  | ready => simp [Phase.advance, accept, call, report]
  | called => simp [Phase.advance, accept, call, report]
  | done => rfl

theorem Phase.of_advance_ready {phase : Phase} {ev : Happening V A}
    (after : phase.advance conflicts ev = .ready) :
    Saver.called ev = false ∧ (reported conflicts ev = true ∨ phase = .ready) := by
  have before : phase ≠ .done := by
    intro same
    cases same
    cases after
  rw [Phase.advance_of_not_done before] at after
  split at after
  · cases after
  · rename_i accept
    split at after
    · cases after
    · rename_i call
      refine ⟨Bool.eq_false_iff.mpr call, ?_⟩
      split at after
      · rename_i report
        exact .inl report
      · exact .inr after

theorem not_accepted {trace : List (Happening V A)} (before : phase conflicts trace ≠ .done) :
    ∀ ev ∈ trace, accepted ev = false := by
  induction trace using List.reverseRecOn with
  | nil => intro ev absurd; cases absurd
  | append_singleton trace last ih =>
      rw [phase_snoc] at before
      have earlier : phase conflicts trace ≠ .done := by
        intro same
        rw [same, Phase.advance_done] at before
        exact before rfl
      rw [Phase.advance_of_not_done earlier] at before
      intro ev member
      rcases List.mem_append.mp member with old | new
      · exact ih earlier ev old
      · cases List.mem_singleton.mp new
        cases accept : accepted last with
        | false => rfl
        | true => simp [accept] at before

theorem accepted_of_done {trace : List (Happening V A)} (done : phase conflicts trace = .done) :
    ∃ ev ∈ trace, accepted ev = true := by
  induction trace using List.reverseRecOn with
  | nil => cases done
  | append_singleton trace last ih =>
      rw [phase_snoc] at done
      cases accept : accepted last with
      | true => exact ⟨last, by simp, accept⟩
      | false =>
          have before : phase conflicts trace = .done := by
            by_contra earlier
            rw [Phase.advance_of_not_done earlier] at done
            simp only [accept, Bool.false_eq_true, if_false] at done
            split at done
            · cases done
            · split at done
              · cases done
              · exact earlier done
          obtain ⟨ev, member, first⟩ := ih before
          exact ⟨ev, List.mem_append_left _ member, first⟩

theorem reported_since {trace : List (Happening V A)} (ready : phase conflicts trace = .ready)
    {pre mid : List (Happening V A)} {ev : Happening V A} (split : pre ++ ev :: mid = trace)
    (call : called ev = true) : ∃ c ∈ mid, reported conflicts c = true := by
  induction mid using List.reverseRecOn generalizing trace with
  | nil =>
      have after : (phase conflicts pre).advance conflicts ev = .ready := by
        rw [← phase_snoc, split, ready]
      exact absurd call (Bool.eq_false_iff.mp (Phase.of_advance_ready after).1)
  | append_singleton mid last ih =>
      have before : pre ++ ev :: mid ++ [last] = trace := by simpa using split
      have after : (phase conflicts (pre ++ ev :: mid)).advance conflicts last = .ready := by
        rw [← phase_snoc, before, ready]
      rcases (Phase.of_advance_ready after).2 with report | earlier
      · exact ⟨last, by simp, report⟩
      · obtain ⟨c, member, found⟩ := ih earlier rfl
        exact ⟨c, by simp [member], found⟩

theorem Once.snoc {trace : List (Happening V A)} {ev : Happening V A} (once : Once conflicts trace)
    (commits : accepted ev = true → phase conflicts trace ≠ .done)
    (calls : called ev = true → phase conflicts trace = .ready)
    (retries : retried ev = true → phase conflicts trace = .ready) :
    Once conflicts (trace ++ [ev]) := by
  have apart {ev' : Happening V A} (member : ev' ∈ trace) (accept : accepted ev' = true) :
      phase conflicts trace = .done := by
    by_contra before
    simp [not_accepted before ev' member] at accept
  refine ⟨?_, ?_, ?_⟩
  · refine List.pairwise_append.mpr ⟨once.commits, List.pairwise_singleton _ _, ?_⟩
    intro ev' member last same accept
    rw [List.mem_singleton.mp same]
    cases again : accepted ev with
    | false => rfl
    | true => exact absurd (apart member accept) (commits again)
  · intro pre first mid last split call call'
    rcases List.prefix_concat_iff.mp split with whole | earlier
    · obtain ⟨before, same⟩ := List.append_inj' whole rfl
      cases same
      exact reported_since (calls call') before call
    · exact once.prompted pre first mid last earlier call call'
  · refine List.pairwise_append.mpr ⟨once.final, List.pairwise_singleton _ _, ?_⟩
    intro ev' member last same accept
    rw [List.mem_singleton.mp same]
    have done := apart member accept
    constructor
    · cases call : called ev with
      | false => rfl
      | true => simp [calls call] at done
    · cases retry : retried ev with
      | false => rfl
      | true => simp [retries retry] at done

/-! ## Phases of a run -/

/-- What a call asks for before its function is called. -/
def Req.early : Req V A → Bool
  | .op .again => true
  | .op .yield => true
  | .op .read => true
  | .calls _ => true
  | _ => false

def Req.writes : Req V A → Bool
  | .op o => o.writes
  | _ => false

def request : Stop V A → Option (Req V A)
  | .asks r _ _ => some r
  | .waits r _ => some r
  | .done => none
  | .escaped _ => none

structure Fits (phase : Phase) (s : Stop V A) : Prop where
  early : phase ≠ .ready → ∀ r, request s = some r → r.early = false
  writes : phase = .done → ∀ r, request s = some r → r.writes = false

theorem Fits.ready (s : Stop V A) : Fits .ready s :=
  ⟨fun absurd => (absurd rfl).elim, fun absurd => nomatch absurd⟩

/-- At what a call asks for last, every phase fits. -/
theorem Fits.late {phase : Phase} {s : Stop V A}
    (late : ∀ r, request s = some r → r.early = false ∧ r.writes = false) : Fits phase s :=
  ⟨fun _ r same => (late r same).1, fun _ r same => (late r same).2⟩

theorem early_of_writes {o : Op V A} (writes : o.writes = true) :
    (Req.op o : Req V A).early = false := by
  cases o with
  | create v => rfl
  | update g v => rfl
  | del g => rfl
  | yield => cases writes
  | read => cases writes
  | func c => cases writes
  | again => cases writes

/-- What a step makes of the phase. -/
structure Follows (conflicts : Op V A → Exn → Bool) (before : Phase) (ev : Happening V A)
    (s' : Stop V A) : Prop where
  fits : Fits (before.advance conflicts ev) s'
  accepts : accepted ev = true → before ≠ .done
  calls : called ev = true → before = .ready
  retries : retried ev = true → before = .ready

/-- A step of a kind that is not recorded. -/
theorem Follows.quiet {before : Phase} {ev : Happening V A} {s' : Stop V A}
    (accept : accepted ev = false) (call : called ev = false) (retry : retried ev = false)
    (fits : Fits (before.advance conflicts ev) s') : Follows conflicts before ev s' := by
  refine ⟨fits, ?_, ?_, ?_⟩
  · simp [accept]
  · simp [call]
  · simp [retry]

theorem Ends.not_called {o : Op V A} {r : Except Exn o.Ans} {s : Stop V A} {ev : Happening V A}
    (ends : Ends (.op o) r s ev) : called ev = false ∧ retried ev = false := by
  cases ends with
  | now guarded => exact ⟨rfl, rfl⟩
  | resumed guarded => exact ⟨rfl, rfl⟩

theorem Ends.not_accepted {o : Op V A} {r : Except Exn o.Ans} {s : Stop V A} {ev : Happening V A}
    (ends : Ends (.op o) r s ev) (writes : o.writes = false) : accepted ev = false := by
  cases ends with
  | now guarded =>
      cases r with
      | ok v => exact writes
      | error e => rfl
  | resumed guarded =>
      cases r with
      | ok v => exact writes
      | error e => rfl

theorem Ends.not_reported {o : Op V A} {r : Except Exn o.Ans} {s : Stop V A} {ev : Happening V A}
    (ends : Ends (.op o) r s ev) (writes : o.writes = false) : reported conflicts ev = false := by
  cases ends with
  | now guarded =>
      cases r with
      | ok v => rfl
      | error e => simp [reported, writes]
  | resumed guarded =>
      cases r with
      | ok v => rfl
      | error e => simp [reported, writes]

theorem Ends.conflict {o : Op V A} {e : Exn} {s : Stop V A} {ev : Happening V A}
    (ends : Ends (.op o) (.error e) s ev) (writes : o.writes = true)
    (conflict : conflicts o e = true) : accepted ev = false ∧ reported conflicts ev = true := by
  cases ends with
  | now guarded => exact ⟨rfl, by simp [reported, writes, conflict]⟩
  | resumed guarded => exact ⟨rfl, by simp [reported, writes, conflict]⟩

theorem Ends.request {r : Req V A} {result : Except Exn r.Ans} {s : Stop V A}
    {ev : Happening V A} (ends : Ends r result s ev) : request s = some r := by
  cases ends with
  | now guarded => rfl
  | resumed guarded => rfl

theorem Fits.is_ready {phase : Phase} {s : Stop V A} (fits : Fits phase s) {r : Req V A}
    (asks : request s = some r) (early : r.early = true) : phase = .ready := by
  by_contra later
  simp [fits.early later r asks] at early

theorem Fits.not_done {phase : Phase} {s : Stop V A} (fits : Fits phase s) {r : Req V A}
    (asks : request s = some r) (writes : r.writes = true) : phase ≠ .done := by
  intro done
  simp [fits.writes done r asks] at writes

/-- Before the function is called nothing is recorded. -/
theorem Fits.preparing {phase : Phase} {s s' : Stop V A} {ev : Happening V A}
    (fits : Fits phase s) {r : Req V A} (asks : request s = some r) (early : r.early = true)
    (accept : accepted ev = false) (call : called ev = false)
    (report : reported conflicts ev = false) : Follows conflicts phase ev s' := by
  have ready := fits.is_ready asks early
  refine ⟨?_, ?_, fun _ => ready, fun _ => ready⟩
  · rw [Phase.advance_quiet accept call report, ready]
    exact .ready s'
  · simp [accept]

/-- An exception that is not mistaken for the saver's leads to the caller's
`fail`, or to the function's `Io`, or out of the call. -/
theorem Plan.late_unwind {p : Plan V A X} {tries : List (Open V A)} {e : Exn} {phase : Phase}
    (framed : ∀ t ∈ tries, p.Framed t)
    (innermost : ∀ handler rest, tries = .code handler :: rest → handler e = failing e) :
    Fits phase (Proc.unwind tries e) := by
  apply Fits.late
  intro r asks
  cases tries with
  | nil => cases asks
  | cons t rest =>
      cases t with
      | code handler =>
          rw [Proc.unwind_code, innermost handler rest rfl] at asks
          cases asks
          exact ⟨rfl, rfl⟩
      | prim op k =>
          cases asks
          cases (List.forall_mem_cons.mp framed).1 with
          | func handed => exact ⟨rfl, rfl⟩

/-- What a step makes of a phase that fits, where an exception that comes back is not
mistaken and a function that goes on is not written for. -/
theorem Plan.Turn.follows {p : Plan V A X} {kept : A → A → Prop}
    (keeps : ∀ x v, kept (p.content x) v → p.written x v = none)
    {phase : Phase} {s s' : Stop V A} {ev : Happening V A} (turn : p.Turn s ev s')
    (fits : Fits phase s)
    (thrown : ∀ r k handler tries e, s = .asks r k (.code handler :: tries) → ev = .raises r e →
      phase.advance p.conflicts ev ≠ .ready → handler e = failing e)
    (repeated : ∀ content v, Ends (.op (.func content)) (.ok v) s ev → phase = .done →
      kept content v) :
    Follows p.conflicts phase ev s' := by
  have failed {before : Phase} {e : Exn} {k : Except Exn Unit → Code V A}
      {tries : List (Open V A)} : Fits before (.asks (.failed e) k tries) := by
    apply Fits.late
    intro r asks
    cases asks
    exact ⟨rfl, rfl⟩
  have passed {before : Phase} {v : A} {k : Except Exn Unit → Code V A}
      {tries : List (Open V A)} : Fits before (.asks (.passed v) k tries) := by
    apply Fits.late
    intro r asks
    cases asks
    exact ⟨rfl, rfl⟩
  cases turn with
  | enters => exact fits.preparing rfl rfl rfl rfl rfl
  | later =>
      refine .quiet rfl rfl rfl ?_
      rw [Phase.advance_quiet rfl rfl rfl]
      exact ⟨fits.early, fits.writes⟩
  | yielded => exact fits.preparing rfl rfl rfl rfl rfl
  | found => exact fits.preparing rfl rfl rfl rfl rfl
  | foundLate => exact fits.preparing rfl rfl rfl rfl rfl
  | absent ends missing =>
      exact fits.preparing ends.request rfl (ends.not_accepted rfl) ends.not_called.1
        (ends.not_reported rfl)
  | unread ends missing =>
      exact fits.preparing ends.request rfl (ends.not_accepted rfl) ends.not_called.1
        (ends.not_reported rfl)
  | called =>
      have ready := fits.is_ready rfl rfl
      refine ⟨?_, nofun, fun _ => ready, nofun⟩
      apply Fits.late
      intro r asks
      cases asks
      exact ⟨rfl, rfl⟩
  | writes ends written isWrite =>
      have accept := ends.not_accepted rfl
      refine .quiet accept ends.not_called.1 ends.not_called.2 ?_
      rw [Phase.advance_quiet accept ends.not_called.1 (ends.not_reported rfl)]
      constructor
      · intro later r asks
        cases asks
        exact early_of_writes isWrite
      · intro done r asks
        have none := keeps _ _ (repeated _ _ ends done)
        rw [written] at none
        cases none
  | kept ends written =>
      exact .quiet (ends.not_accepted rfl) ends.not_called.1 ends.not_called.2 passed
  | funcFails ends returns =>
      exact .quiet (ends.not_accepted rfl) ends.not_called.1 ends.not_called.2 failed
  | accepted writes ends =>
      have open_ := fits.not_done ends.request writes
      refine ⟨passed, fun _ => open_, ?_, ?_⟩
      · simp [ends.not_called.1]
      · simp [ends.not_called.2]
  | conflict writes ends conflicts next =>
      have open_ := fits.not_done ends.request writes
      refine ⟨?_, fun _ => open_, ?_, ?_⟩
      · obtain ⟨accept, report⟩ := ends.conflict writes conflicts
        rw [Phase.advance_of_not_done open_]
        simpa [accept, ends.not_called.1, report] using Fits.ready s'
      · simp [ends.not_called.1]
      · simp [ends.not_called.2]
  | refused writes ends conflicts =>
      have open_ := fits.not_done ends.request writes
      refine ⟨failed, fun _ => open_, ?_, ?_⟩
      · simp [ends.not_called.1]
      · simp [ends.not_called.2]
  | passed =>
      refine .quiet rfl rfl rfl ?_
      exact .late fun r asks => nomatch asks
  | failed =>
      refine .quiet rfl rfl rfl ?_
      exact .late fun r asks => nomatch asks
  | thrown framed =>
      rename_i r e k tries
      refine ⟨?_, nofun, ?_, nofun⟩
      · by_cases ready : phase.advance p.conflicts (.raises r e) = .ready
        · rw [ready]
          exact .ready _
        · apply Plan.late_unwind framed
          intro handler rest same
          exact thrown r k handler rest e (by rw [same]) rfl ready
      · intro call
        cases r with
        | calls content => exact fits.is_ready rfl rfl
        | op o => cases call
        | passed v => cases call
        | failed e => cases call

/-- Every phase of a run fits, and so a call commits once. -/
theorem Plan.run_once (p : Plan V A X) {kept : A → A → Prop}
    (keeps : ∀ x v, kept (p.content x) v → p.written x v = none)
    {trace : List (Happening V A)} {s : Stop V A}
    (run : Run (Thread.Step p.program) (Thread.initial p.program) trace s)
    (fairly : Fairly p.program p.conflicts kept trace) :
    Once p.conflicts trace ∧ Fits (phase p.conflicts trace) s := by
  refine fairly.invariant (I := fun trace s => Once p.conflicts trace ∧
    Fits (phase p.conflicts trace) s) ?_ ?_ run
  · exact ⟨⟨.nil, fun _ _ _ _ absurd => by simp at absurd, .nil⟩, .ready _⟩
  · rintro trace s ev s' run ⟨once, fits⟩ next fair
    have follows := ((Plan.run_at run).turn next).2.follows keeps fits
      (fun r k handler tries e same raised ready =>
        fair.thrown r k handler tries e same raised (by rwa [phase_snoc]))
      fair.repeated
    rw [phase_snoc]
    exact ⟨once.snoc follows.accepts follows.calls follows.retries, follows.fits⟩

/-! ## `rmw` and `crud` -/

/-- `rmw` writes every value. -/
def Rmw.kept (_ _ : V) : Prop := False

/-- `crud` does not write that there is still no entry. -/
def Crud.kept (content nvalue : Option V) : Prop := content = none ∧ nvalue = none

/-- In every run whose steps are fair, one call of `rmw` or `crud` commits at
most once, calls its function again only after a conflict, and does not retry
after its write. -/
theorem committed_once :
    (∀ (trace : List (Happening V V)) (s : Stop V V),
      Run (Thread.Step rmwCore) (Thread.initial rmwCore) trace s →
      Fairly rmwCore Rmw.conflicts Rmw.kept trace → Once Rmw.conflicts trace) ∧
    (∀ (trace : List (Happening V (Option V))) (s : Stop V (Option V)),
      Run (Thread.Step crudCore) (Thread.initial crudCore) trace s →
      Fairly crudCore Crud.conflicts Crud.kept trace → Once Crud.conflicts trace) := by
  constructor
  · intro trace s run fairly
    exact (Rmw.plan.run_once (fun _ _ absurd => absurd.elim) run fairly).1
  · intro trace s run fairly
    refine (Crud.plan.run_once ?_ run fairly).1
    rintro (- | entry) v ⟨absent, rfl⟩
    · rfl
    · cases absent

/-- Something throws, and not through a continuation. -/
def thrown : Happening V A → Bool
  | .raises _ _ => true
  | _ => false

/-- The function's `Io` gives a value. -/
def answered : Happening V A → Bool
  | .now (.op (.func _)) (.ok _) _ => true
  | .resumed (.op (.func _)) (.ok _) _ => true
  | _ => false

/-- Where nothing throws, and the function does not answer after a write, every
step is fair. -/
theorem fairly_of_quiet {program : Call V A A} {kept : A → A → Prop}
    {trace : List (Happening V A)} (quiet : ∀ ev ∈ trace, thrown ev = false)
    (ordered : trace.Pairwise fun ev ev' => accepted ev = true → answered ev' = false) :
    Fairly program conflicts kept trace := by
  intro pre ev s inside run
  constructor
  · intro r k handler tries e same raised ready
    have silent := quiet ev (inside.subset (by simp))
    rw [raised] at silent
    cases silent
  · intro content v ends done
    obtain ⟨first, member, accept⟩ := accepted_of_done done
    have pairs := (List.pairwise_append.mp (ordered.sublist inside.sublist)).2.2
    have silent := pairs first member ev (List.mem_singleton.mpr rfl) accept
    cases ends with
    | now guarded => cases silent
    | resumed guarded => cases silent

/-- One conflict, one retry and one commit; and the creation of an entry. -/
theorem committed_once_retried :
    (∃ (trace : List (Happening Nat Nat)) (s : Stop Nat Nat),
      Run (Thread.Step rmwCore) (Thread.initial rmwCore) trace s ∧
      .resumed (.op (.update 0 11)) (.error .wrongGeneration) false ∈ trace ∧
      .resumed (.op (.update 1 12)) (.ok 2) false ∈ trace ∧ Once Rmw.conflicts trace) ∧
    (∃ (trace : List (Happening Nat (Option Nat))) (s : Stop Nat (Option Nat)),
      Run (Thread.Step crudCore) (Thread.initial crudCore) trace s ∧
      .now (.op (.create 5)) (.ok 0) false ∈ trace ∧ Once Crud.conflicts trace) := by
  constructor
  · have yielded := ((Thread.started (rmwCore : Call Nat Nat Nat)).snoc ⟨.later rfl, .yields⟩).snoc
      ⟨.resumed _ _, .yielded⟩
    have read := (yielded.snoc ⟨.later rfl, .storedLater rfl⟩).snoc
      ⟨.resumed (.ok (0, 10)) false, .storedResumed rfl _⟩
    have answered :=
      (read.snoc ⟨.now rfl _ _, .called _⟩).snoc ⟨.now rfl (.ok 11) false, .func _ _ _⟩
    have refused := (answered.snoc ⟨.later rfl, .storedLater rfl⟩).snoc
      ⟨.resumed (.error .wrongGeneration) false, .storedResumed rfl _⟩
    have again := ((refused.snoc ⟨.enters rfl, .again⟩).snoc ⟨.later rfl, .yields⟩).snoc
      ⟨.resumed _ _, .yielded⟩
    have read' := (again.snoc ⟨.later rfl, .storedLater rfl⟩).snoc
      ⟨.resumed (.ok (1, 11)) false, .storedResumed rfl _⟩
    have answered' := (read'.snoc ⟨.now rfl _ _, .called _⟩).snoc
      ⟨.now rfl (.ok 12) false, .func _ _ _⟩
    have written := (answered'.snoc ⟨.later rfl, .storedLater rfl⟩).snoc
      ⟨.resumed (.ok 2) false, .storedResumed rfl _⟩
    refine ⟨_, _, written, by simp, by simp, committed_once.1 _ _ written ?_⟩
    exact fairly_of_quiet (by simp [thrown]) (by simp [accepted, Saver.answered, Op.writes])
  · have started := Thread.started (crudCore : Call Nat (Option Nat) _)
    have yielded := (started.snoc ⟨.later rfl, .yields⟩).snoc ⟨.resumed _ _, .yielded⟩
    have read := yielded.snoc ⟨.now rfl (.error .keyNotFound) false, .stored rfl _⟩
    have answered := (read.snoc ⟨.now rfl _ _, .called _⟩).snoc
      ⟨.now rfl (.ok (some 5)) false, .func _ _ _⟩
    have written := answered.snoc ⟨.now rfl (.ok 0) false, .stored rfl _⟩
    refine ⟨_, _, written, by simp, committed_once.2 _ _ written ?_⟩
    exact fairly_of_quiet (by simp [thrown]) (by simp [accepted, Saver.answered, Op.writes])

/-- A saver that completes inside its core, and a continuation of the caller
that throws a `WrongGeneration`: `rmw` takes it for a conflict and commits a
second time. -/
theorem committed_twice :
    ∃ (trace : List (Happening Nat Nat)) (s : Stop Nat Nat),
      Run (Thread.Step rmwCore) (Thread.initial rmwCore) trace s ∧ ¬ Once Rmw.conflicts trace := by
  have read := ((Thread.started (rmwCore : Call Nat Nat Nat)).snoc ⟨.later rfl, .yields⟩).snoc
      ⟨.resumed _ _, .yielded⟩
  have answered := ((read.snoc ⟨.now rfl (.ok (0, 10)) false, .stored rfl _⟩).snoc
    ⟨.now rfl _ _, .called _⟩).snoc ⟨.now rfl (.ok 11) false, .func _ _ _⟩
  have written := answered.snoc ⟨.now rfl (.ok 1) false, .stored rfl _⟩
  have thrown := written.snoc ⟨.raises rfl .wrongGeneration, .passedThrows _ _⟩
  have again := ((thrown.snoc ⟨.enters rfl, .again⟩).snoc ⟨.later rfl, .yields⟩).snoc
    ⟨.resumed _ _, .yielded⟩
  have answered' := ((again.snoc ⟨.now rfl (.ok (1, 11)) false, .stored rfl _⟩).snoc
    ⟨.now rfl _ _, .called _⟩).snoc ⟨.now rfl (.ok 12) false, .func _ _ _⟩
  have written' := answered'.snoc ⟨.now rfl (.ok 2) false, .stored rfl _⟩
  refine ⟨_, _, written', ?_⟩
  intro once
  have commits := once.commits
  simp [accepted, Op.writes] at commits

end SidepoolFormal.Saver
