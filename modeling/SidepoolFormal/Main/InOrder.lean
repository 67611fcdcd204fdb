import SidepoolFormal.Main.Start
import SidepoolFormal.S.Outcome
import SidepoolFormal.S.Types

/-!
# The messages of `start`, in order

Each message is raised when all functions for the one before it have completed,
so `start` comes after everything was provided, and nothing comes after a failure.
-/

namespace SidepoolFormal.Main.Start

open Library S.Buses
open S (Raise Finished Failed Pending)

variable {E : Type} {b : Nat}

/-! ## What has happened -/

/-- What has happened on buses. -/
def Label.bus : Label E → List (S.Buses.Label E)
  | .does label => [label]
  | .other label => [label]
  | _ => []

/-- What has happened for a type. -/
def seen (key : Key) (trace : List (Label E)) : List (S.Label E) :=
  (trace.flatMap Label.bus).flatMap (S.Buses.Label.view key)

/-- The raise that the greenthread begins. -/
def Label.raised : Label E → Option (Key × Nat)
  | .does (.at_ key (.raises r _)) => some (key, r)
  | .does (.lifts key r) => some (key, r)
  | _ => none

/-- The raises of the greenthread. -/
def raised (trace : List (Label E)) : List (Key × Nat) := trace.filterMap Label.raised

/-- All functions of a raise have completed. -/
def Complete (trace : List (Label E)) (entry : Key × Nat) : Prop :=
  Finished (seen entry.1 trace) entry.2

theorem seen_does (key : Key) (trace : List (Label E)) (label : S.Buses.Label E) :
    seen key (trace ++ [.does label]) = seen key trace ++ label.view key := by
  unfold seen
  rw [List.flatMap_append, List.flatMap_append]
  simp [Label.bus]

theorem seen_other (key : Key) (trace : List (Label E)) (label : S.Buses.Label E) :
    seen key (trace ++ [.other label]) = seen key trace ++ label.view key := by
  unfold seen
  rw [List.flatMap_append, List.flatMap_append]
  simp [Label.bus]

theorem raised_snoc (trace : List (Label E)) {label : Label E} (silent : label.raised = none) :
    raised (trace ++ [label]) = raised trace := by
  unfold raised
  rw [List.filterMap_append, List.filterMap_cons_none silent, List.filterMap_nil, List.append_nil]

theorem raised_more (trace : List (Label E)) {label : Label E} {entry : Key × Nat}
    (begins : label.raised = some entry) : raised (trace ++ [label]) = raised trace ++ [entry] := by
  unfold raised
  rw [List.filterMap_append, List.filterMap_cons_some begins, List.filterMap_nil]

/-! ## Where the greenthread is -/

/-- A raise has passed. -/
def Passed (bus : S.Buses.State E) (entry : Key × Nat) : Prop :=
  ∃ raised, (bus.raises entry.1)[entry.2]? = some raised ∧ none ∈ raised.view.results

/-- The greenthread has raised what has passed and what it is at. -/
structure Upto (b : Nat) (trace : List (Label E)) (bus : S.Buses.State E)
    (passed now : List (Key × Nat)) (left : List Message) : Prop where
  raised : raised trace = passed ++ now
  order : (passed ++ now).map Prod.fst ++ left.map (key b) = messages.map (key b)
  passed : ∀ entry ∈ passed, Passed bus entry

inductive Stands (b : Nat) (trace : List (Label E)) (bus : S.Buses.State E) : Thread E → Prop
  | queued (none : raised trace = []) : Stands b trace bus .queued
  | at_ {passed : List (Key × Nat)} {left : List Message}
      (upto : Upto b trace bus passed [] left) : Stands b trace bus (.at_ left)
  | raising {passed : List (Key × Nat)} {m : Message} {r : Nat} {left : List Message}
      {raised : Raised E} (upto : Upto b trace bus passed [(key b m, r)] left)
      (found : (bus.raises (key b m))[r]? = some raised)
      (began : ∃ leases, .raises r leases ∈ seen (key b m) trace)
      (walks : .ends r ∉ seen (key b m) trace ∧ ∀ l e, .throws r l e ∉ seen (key b m) trace) :
      Stands b trace bus (.raising m r left)
  | lifted {passed : List (Key × Nat)} {m : Message} {r : Nat} {left : List Message}
      (upto : Upto b trace bus passed [(key b m, r)] left)
      (found : (bus.raises (key b m))[r]? = some (.lift false)) :
      Stands b trace bus (.returned m r left)
  | returned {passed : List (Key × Nat)} {m : Message} {r : Nat} {left : List Message}
      {raise : Raise E} (upto : Upto b trace bus passed [(key b m, r)] left)
      (found : (bus.raises (key b m))[r]? = some (.registry raise))
      (fresh : raise.returned = true ∧ raise.ran = false) :
      Stands b trace bus (.returned m r left)
  | waiting {passed : List (Key × Nat)} {m : Message} {r : Nat} {left : List Message}
      {raise : Raise E} (upto : Upto b trace bus passed [(key b m, r)] left)
      (found : (bus.raises (key b m))[r]? = some (.registry raise)) (ran : raise.ran = true) :
      Stands b trace bus (.waiting m r left)
  | caught {passed : List (Key × Nat)} {m : Message} {r l : Nat} {left : List Message} {e : E}
      (upto : Upto b trace bus passed [(key b m, r)] left)
      (threw : .throws r l e ∈ seen (key b m) trace) : Stands b trace bus (.caught e)
  | passed {passed : List (Key × Nat)} (upto : Upto b trace bus passed [] []) :
      Stands b trace bus .passed
  | failed {passed : List (Key × Nat)} {m : Message} {r : Nat} {left : List Message} {e : E}
      (upto : Upto b trace bus passed [(key b m, r)] left) : Stands b trace bus (.failed e)

structure Sound (b : Nat) (trace : List (Label E)) (s : State E) : Prop where
  run : Run S.Buses.Step S.Buses.initial (trace.flatMap Label.bus) s.bus
  alive : s.thread.runs = true → s.bus.buses[b]? = some true
  stands : Stands b trace s.bus s.thread

/-! ## Steps -/

section

variable {trace : List (Label E)} {s s' : State E} {bus : S.Buses.State E}

theorem Passed.later {entry : Key × Nat} (passed : Passed s.bus entry) (kept : Kept s.bus bus) :
    Passed bus entry := by
  obtain ⟨raised, found, none⟩ := passed
  obtain ⟨raised', found', grows⟩ := kept _ _ _ found
  refine ⟨raised', found', ?_⟩
  cases grows with
  | same => exact none
  | lift => cases none
  | registry results ran => exact results none

theorem Upto.later {passed now : List (Key × Nat)} {left : List Message} {label : Label E}
    (upto : Upto b trace s.bus passed now left) (kept : Kept s.bus bus)
    (silent : label.raised = none) : Upto b (trace ++ [label]) bus passed now left where
  raised := (raised_snoc trace silent).trans upto.raised
  order := upto.order
  passed entry member := (upto.passed entry member).later kept

/-- The greenthread begins to raise a message. -/
theorem Upto.begin {passed : List (Key × Nat)} {m : Message} {left : List Message} {r : Nat}
    {label : Label E} (upto : Upto b trace s.bus passed [] (m :: left)) (kept : Kept s.bus bus)
    (begins : label.raised = some (key b m, r)) :
    Upto b (trace ++ [label]) bus passed [(key b m, r)] left where
  raised := by rw [raised_more trace begins, upto.raised, List.append_nil]
  order := by
    have order := upto.order
    rw [List.append_nil] at order
    rw [List.map_append, List.append_assoc, ← order]
    rfl
  passed entry member := (upto.passed entry member).later kept

/-- The raise that the greenthread was at has passed. -/
theorem Upto.pass {passed : List (Key × Nat)} {entry : Key × Nat} {left : List Message}
    (upto : Upto b trace bus passed [entry] left) (now : Passed bus entry) :
    Upto b trace bus (passed ++ [entry]) [] left where
  raised := by rw [upto.raised, List.append_nil]
  order := by rw [List.append_nil, upto.order]
  passed := by
    intro entry' member
    rcases List.mem_append.mp member with before | here
    · exact upto.passed entry' before
    · rw [List.mem_singleton.mp here]
      exact now

theorem alive_step {label : S.Buses.Label E} (step : S.Buses.Step s.bus label bus)
    (keeps : label ≠ .destroysBus b) (alive : s.bus.buses[b]? = some true) :
    bus.buses[b]? = some true := by
  cases step with
  | makesBus control =>
      exact (List.getElem?_append_left (List.getElem?_eq_some_iff.mp alive).1).trans alive
  | destroysBus control bus =>
      rename_i b'
      have other : b' ≠ b := fun same => keeps (congrArg _ same)
      exact (List.getElem?_set_ne other).trans alive
  | destroys control lessee => exact (congrArg (·[b]?) (clear_frame _ s.bus).1).trans alive
  | _ => exact alive

theorem ends_mem_view {key : Key} {label : S.Buses.Label E} {r : Nat}
    (member : .ends r ∈ label.view key) :
    label = .at_ key (.ends r) ∨ label = .lifts key r := by
  unfold S.Buses.Label.view at member
  split at member <;> simp_all

theorem throws_mem_view {key : Key} {label : S.Buses.Label E} {r l : Nat} {e : E}
    (member : .throws r l e ∈ label.view key) : label = .at_ key (.throws r l e) := by
  unfold S.Buses.Label.view at member
  split at member <;> simp_all

theorem getElem?_addRaise (bus : S.Buses.State E) (key : Key) (raised : Raised E) :
    ((bus.addRaise key raised).raises key)[(bus.raises key).length]? = some raised := by
  unfold S.Buses.State.addRaise
  dsimp only
  rw [Function.update_self, List.getElem?_concat_length]

theorem getElem?_setRaise {bus : S.Buses.State E} {key : Key} {r : Nat} {raised raised' : Raised E}
    (found : (bus.raises key)[r]? = some raised) :
    ((bus.setRaise key r raised').raises key)[r]? = some raised' := by
  unfold S.Buses.State.setRaise
  dsimp only
  rw [Function.update_self, List.getElem?_set_self (List.getElem?_eq_some_iff.mp found).1]

/-- The r-th raise is new. -/
theorem Sound.raises (sound : Sound b trace s) {m : Message} {left : List Message}
    {r leases : Nat} (thread : s.thread = .at_ (m :: left))
    (step : S.Buses.Step s.bus (.at_ (key b m) (.raises r leases)) bus) :
    Stands b (trace ++ [.does (.at_ (key b m) (.raises r leases))]) bus (.raising m r left) := by
  have stands := sound.stands
  rw [thread] at stands
  cases stands with
  | at_ upto =>
      obtain ⟨-, view, own, views⟩ := views_run (key b m) sound.run
      have fresh {label : S.Label E} (about : label.about = some r)
          (member : label ∈ seen (key b m) trace) : r < (s.bus.raises (key b m)).length :=
        views.count ▸ (S.raised_of_run own).known label member r about
      have kept := kept_step step
      cases step with
      | raises control alive found =>
          rename_i registry
          refine .raising (upto.begin kept rfl) (getElem?_addRaise _ _ _)
            ⟨registry.leases.length, ?_⟩ ⟨?_, ?_⟩
          · rw [seen_does, List.mem_append]
            exact .inr (by simp [S.Buses.Label.view])
          · rw [seen_does, List.mem_append]
            rintro (before | here)
            · exact absurd (fresh rfl before) (Nat.lt_irrefl _)
            · simp [S.Buses.Label.view] at here
          · intro l e
            rw [seen_does, List.mem_append]
            rintro (before | here)
            · exact absurd (fresh rfl before) (Nat.lt_irrefl _)
            · simp [S.Buses.Label.view] at here

/-- `lift()` has been returned. -/
theorem Sound.lifts (sound : Sound b trace s) {m : Message} {left : List Message} {r : Nat}
    (thread : s.thread = .at_ (m :: left)) (step : S.Buses.Step s.bus (.lifts (key b m) r) bus) :
    Stands b (trace ++ [.does (.lifts (key b m) r)]) bus (.returned m r left) := by
  have stands := sound.stands
  rw [thread] at stands
  cases stands with
  | at_ upto =>
      have kept := kept_step step
      cases step with
      | lifts control alive absent =>
          exact .lifted (upto.begin kept rfl) (getElem?_addRaise _ _ _)

theorem Sound.throws (sound : Sound b trace s) {m : Message} {left : List Message} {r l : Nat}
    {e : E} (thread : s.thread = .raising m r left)
    (step : S.Buses.Step s.bus (.at_ (key b m) (.throws r l e)) bus) :
    Stands b (trace ++ [.does (.at_ (key b m) (.throws r l e))]) bus (.caught e) := by
  have stands := sound.stands
  rw [thread] at stands
  cases stands with
  | raising upto found began walks =>
      refine .caught (upto.later (kept_step step) rfl) (l := l) ?_
      rw [seen_does, List.mem_append]
      exact .inr (by simp [S.Buses.Label.view])

theorem Sound.ends (sound : Sound b trace s) {m : Message} {left : List Message} {r : Nat}
    (thread : s.thread = .raising m r left)
    (step : S.Buses.Step s.bus (.at_ (key b m) (.ends r)) bus) :
    Stands b (trace ++ [.does (.at_ (key b m) (.ends r))]) bus (.returned m r left) := by
  have stands := sound.stands
  rw [thread] at stands
  cases stands with
  | raising upto found began walks =>
      obtain ⟨-, view, own, views⟩ := views_run (key b m) sound.run
      have kept := kept_step step
      cases step with
      | ends control raised =>
          have known := (S.raised_of_run own).sound r _ (views.raised raised)
          rename_i raise prev stack
          have still : raise.returned = false := by
            rw [← Bool.not_eq_true]
            exact fun returned => walks.1 (known.marks.ends.mpr returned)
          refine .returned (upto.later kept rfl) (getElem?_setRaise raised) ⟨rfl, ?_⟩
          exact (known.building still).1.ran

theorem Sound.runs (sound : Sound b trace s) {m : Message} {left : List Message} {r : Nat}
    (thread : s.thread = .returned m r left)
    (step : S.Buses.Step s.bus (.at_ (key b m) (.runs r)) bus) :
    Stands b (trace ++ [.does (.at_ (key b m) (.runs r))]) bus (.waiting m r left) := by
  have stands := sound.stands
  rw [thread] at stands
  have kept := kept_step step
  cases step with
  | runs control raised returned ran =>
      cases stands with
      | lifted upto found => exact .waiting (upto.later kept rfl) (getElem?_setRaise raised) rfl
      | returned upto found fresh =>
          exact .waiting (upto.later kept rfl) (getElem?_setRaise raised) rfl

theorem Sound.passes (sound : Sound b trace s) {m : Message} {left : List Message} {r : Nat}
    (thread : s.thread = .returned m r left) (step : S.Buses.Step s.bus (.passes (key b m) r) bus) :
    Stands b (trace ++ [.does (.passes (key b m) r)]) bus (.at_ left) := by
  have stands := sound.stands
  rw [thread] at stands
  have kept := kept_step step
  cases step with
  | passes control found =>
      have now : Passed (s.bus.setRaise (key b m) r (.lift true)) (key b m, r) :=
        ⟨.lift true, getElem?_setRaise found, List.mem_singleton_self _⟩
      cases stands with
      | lifted upto found => exact .at_ ((upto.later kept rfl).pass now)
      | returned upto found fresh => exact .at_ ((upto.later kept rfl).pass now)

/-- The greenthread stands where it did, whatever others have done. -/
theorem Sound.other (sound : Sound b trace s) {label : S.Buses.Label E} (waits : s.Waits b)
    (foreign : s.Foreign b label) (step : S.Buses.Step s.bus label bus) :
    Stands b (trace ++ [.other label]) bus s.thread := by
  have stands := sound.stands
  have kept := kept_step step
  unfold State.Waits at waits
  have foreign := foreign.2
  generalize s.thread = thread at stands waits foreign
  cases stands with
  | queued none => exact .queued ((raised_snoc trace rfl).trans none)
  | at_ upto => exact waits.elim
  | @raising passed m r left old upto found began walks =>
      obtain ⟨old', found', -⟩ := kept _ _ _ found
      obtain ⟨notEnds, notThrows⟩ := foreign m r left rfl
      refine .raising (upto.later kept rfl) found' ?_ ⟨?_, ?_⟩
      · obtain ⟨leases, began⟩ := began
        rw [seen_other]
        exact ⟨leases, List.mem_append_left _ began⟩
      · rw [seen_other, List.mem_append]
        rintro (before | here)
        · exact walks.1 before
        · rcases ends_mem_view here with rfl | rfl
          · exact notEnds rfl
          · cases step with
            | lifts control alive absent =>
                exact absurd (List.getElem?_eq_some_iff.mp found).1 (Nat.lt_irrefl _)
      · intro l e
        rw [seen_other, List.mem_append]
        rintro (before | here)
        · exact walks.2 l e before
        · exact notThrows l e (throws_mem_view here)
  | lifted upto found => exact waits.elim
  | returned upto found fresh => exact waits.elim
  | waiting upto found ran =>
      obtain ⟨old', found', grows⟩ := kept _ _ _ found
      cases grows with
      | same => exact .waiting (upto.later kept rfl) found' ran
      | registry results still => exact .waiting (upto.later kept rfl) found' (still ran)
  | caught upto threw => exact waits.elim
  | passed upto => exact .passed (upto.later kept rfl)
  | failed upto => exact .failed (upto.later kept rfl)

/-- What others leave alone, and what `start` does by itself. -/
theorem Sound.step (sound : Sound b trace s) {label : Label E} (step : Step b s label s') :
    Sound b (trace ++ [label]) s' := by
  have on {label : Label E} {label' : S.Buses.Label E} {bus : S.Buses.State E}
      (same : label.bus = [label']) (step : S.Buses.Step s.bus label' bus) :
      Run S.Buses.Step S.Buses.initial ((trace ++ [label]).flatMap Label.bus) bus := by
    rw [List.flatMap_append, List.flatMap_singleton, same]
    exact sound.run.snoc step
  have off {label : Label E} (silent : label.bus = []) :
      Run S.Buses.Step S.Buses.initial ((trace ++ [label]).flatMap Label.bus) s.bus := by
    rw [List.flatMap_append, List.flatMap_singleton, silent, List.append_nil]
    exact sound.run
  have moves {label : Label E} {label' : S.Buses.Label E} {bus : S.Buses.State E}
      {thread : Thread E} (same : label.bus = [label']) (step : S.Buses.Step s.bus label' bus)
      (keeps : label' ≠ .destroysBus b) (runs : s.thread.runs = true)
      (stands : Stands b (trace ++ [label]) bus thread) :
      Sound b (trace ++ [label]) ⟨bus, thread⟩ :=
    ⟨on same step, fun _ => alive_step step keeps (sound.alive runs), stands⟩
  have kept : Kept s.bus s.bus := .of_raises rfl
  have stands := sound.stands
  cases step with
  | begins thread control bus =>
      refine ⟨off rfl, fun _ => bus, ?_⟩
      rw [thread] at stands
      cases stands with
      | queued none =>
          have upto : Upto b (trace ++ [.begins]) s.bus [] [] messages :=
            ⟨(raised_snoc trace rfl).trans none, rfl, fun _ absurd => by cases absurd⟩
          exact .at_ upto
  | raises thread step =>
      exact moves rfl step (fun absurd => by cases absurd) (thread ▸ rfl) (sound.raises thread step)
  | lifts thread step =>
      exact moves rfl step (fun absurd => by cases absurd) (thread ▸ rfl) (sound.lifts thread step)
  | throws thread step =>
      exact moves rfl step (fun absurd => by cases absurd) (thread ▸ rfl) (sound.throws thread step)
  | ends thread step =>
      exact moves rfl step (fun absurd => by cases absurd) (thread ▸ rfl) (sound.ends thread step)
  | runs thread step =>
      exact moves rfl step (fun absurd => by cases absurd) (thread ▸ rfl) (sound.runs thread step)
  | passes thread step =>
      exact moves rfl step (fun absurd => by cases absurd) (thread ▸ rfl) (sound.passes thread step)
  | resumes thread found passed =>
      refine ⟨off rfl, fun _ => sound.alive (thread ▸ rfl), ?_⟩
      rw [thread] at stands
      cases stands with
      | waiting upto found' ran =>
          exact .at_ ((upto.later kept rfl).pass ⟨_, found, passed⟩)
  | fails thread found failed =>
      refine ⟨off rfl, (fun absurd => by cases absurd), ?_⟩
      rw [thread] at stands
      cases stands with
      | waiting upto found' ran => exact .failed (upto.later kept rfl)
  | rejects thread =>
      refine ⟨off rfl, (fun absurd => by cases absurd), ?_⟩
      rw [thread] at stands
      cases stands with
      | caught upto threw => exact .failed (upto.later kept rfl)
  | logs thread =>
      refine ⟨off rfl, (fun absurd => by cases absurd), ?_⟩
      rw [thread] at stands
      cases stands with
      | at_ upto => exact .passed (upto.later kept rfl)
  | other waits foreign step =>
      refine ⟨on rfl step, ?_, sound.other waits foreign step⟩
      exact fun runs => alive_step step (foreign.1 runs) (sound.alive runs)

theorem sound_of_run (run : Run (Step b) initial trace s) : Sound b trace s :=
  run.invariant ⟨.nil, (fun absurd => by cases absurd), .queued rfl⟩
    fun _ _ _ _ sound step => sound.step step

/-! ## Runs -/

theorem Sound.complete (sound : Sound b trace s) {entry : Key × Nat}
    (passed : Passed s.bus entry) : Complete trace entry := by
  obtain ⟨-, view, own, views⟩ := views_run entry.1 sound.run
  obtain ⟨raised, found, none⟩ := passed
  exact S.finished_of_passed own (views.raised found) none

/-- After the greenthread has ended, others do everything that happens. -/
def Over (trace : List (Label E)) : Prop := ∀ label ∈ trace, ∃ l, label = .other l

def Thread.ended : Thread E → Prop
  | .passed | .failed _ => True
  | _ => False

theorem ended_of_run {s₀ : State E} (ended : s₀.thread.ended) (run : Run (Step b) s₀ trace s) :
    Over trace ∧ s.thread.ended := by
  refine run.invariant (I := fun trace s => Over trace ∧ s.thread.ended) ⟨nofun, ended⟩ ?_
  rintro trace s label s' ⟨others, ended⟩ step
  have thread {t : Thread E} (same : s.thread = t) (running : ¬t.ended) : False :=
    running (same ▸ ended)
  cases step with
  | begins same control bus => exact (thread same id).elim
  | raises same step => exact (thread same id).elim
  | lifts same step => exact (thread same id).elim
  | throws same step => exact (thread same id).elim
  | ends same step => exact (thread same id).elim
  | runs same step => exact (thread same id).elim
  | passes same step => exact (thread same id).elim
  | resumes same found passed => exact (thread same id).elim
  | fails same found failed => exact (thread same id).elim
  | rejects same => exact (thread same id).elim
  | logs same => exact (thread same id).elim
  | other waits foreign step =>
      refine ⟨?_, ended⟩
      intro label member
      rcases List.mem_append.mp member with before | here
      · exact others label before
      · exact ⟨_, List.mem_singleton.mp here⟩

/-- `start` goes through the messages in order, and each is the next one only when
everything that was called for those before it has completed. -/
structure InOrder (b : Nat) (trace : List (Label E)) (s : State E) : Prop where
  order : (raised trace).map Prod.fst <+: messages.map (key b)
  begun : ∀ pre label post, trace = pre ++ label :: post → (Label.raised label).isSome = true →
    ∀ entry ∈ raised pre, Complete pre entry
  logged : ∀ pre post, trace = pre ++ .logs :: post →
    (raised pre).map Prod.fst = messages.map (key b) ∧ (∀ entry ∈ raised pre, Complete pre entry) ∧
      Over post
  failed : ∀ pre e post, trace = pre ++ .fails e :: post → ∃ earlier entry,
    raised pre = earlier ++ [entry] ∧ (∀ entry ∈ earlier, Complete pre entry) ∧
      Failed (seen entry.1 pre) entry.2 e ∧ Over post
  goes : s.thread.runs = true → s.bus.stack = [] →
    (∃ label s', Step b s label s' ∧ ∀ l, label ≠ .other l) ∨
      ∃ earlier entry, raised trace = earlier ++ [entry] ∧ Pending (seen entry.1 trace) entry.2

theorem Stands.ordered {thread : Thread E} (stands : Stands b trace bus thread) :
    (raised trace).map Prod.fst <+: messages.map (key b) := by
  have of {passed now : List (Key × Nat)} {left : List Message}
      (upto : Upto b trace bus passed now left) :
      (raised trace).map Prod.fst <+: messages.map (key b) := by
    rw [upto.raised, ← upto.order]
    exact List.prefix_append _ _
  cases stands with
  | queued none => exact none ▸ List.nil_prefix
  | at_ upto => exact of upto
  | raising upto found began walks => exact of upto
  | lifted upto found => exact of upto
  | returned upto found fresh => exact of upto
  | waiting upto found ran => exact of upto
  | caught upto threw => exact of upto
  | passed upto => exact of upto
  | failed upto => exact of upto

/-- What it raises next comes after what has passed. -/
theorem Sound.begun (sound : Sound b trace s) {label : Label E} (step : Step b s label s')
    (raises : label.raised.isSome = true) : ∀ entry ∈ raised trace, Complete trace entry := by
  have stands := sound.stands
  have at_ {m : Message} {left : List Message} (thread : s.thread = .at_ (m :: left)) :
      ∀ entry ∈ raised trace, Complete trace entry := by
    rw [thread] at stands
    cases stands with
    | at_ upto =>
        intro entry member
        rw [upto.raised, List.append_nil] at member
        exact sound.complete (upto.passed entry member)
  cases step with
  | raises thread step => exact at_ thread
  | lifts thread step => exact at_ thread
  | _ => cases raises

theorem Sound.logged (sound : Sound b trace s) (step : Step b s .logs s') :
    (raised trace).map Prod.fst = messages.map (key b) ∧
      (∀ entry ∈ raised trace, Complete trace entry) ∧ s'.thread.ended := by
  have stands := sound.stands
  cases step with
  | logs thread =>
      rw [thread] at stands
      cases stands with
      | at_ upto =>
          have order := upto.order
          rw [List.append_nil, List.map_nil, List.append_nil] at order
          rw [upto.raised, List.append_nil]
          exact ⟨order, fun entry member => sound.complete (upto.passed entry member), trivial⟩

theorem Sound.failed (sound : Sound b trace s) {e : E} (step : Step b s (.fails e) s') :
    (∃ earlier entry, raised trace = earlier ++ [entry] ∧
      (∀ entry ∈ earlier, Complete trace entry) ∧ Failed (seen entry.1 trace) entry.2 e) ∧
      s'.thread.ended := by
  have stands := sound.stands
  cases step with
  | fails thread found told =>
      rw [thread] at stands
      cases stands with
      | waiting upto found' ran =>
          obtain ⟨-, view, own, views⟩ := views_run (key b _) sound.run
          refine ⟨⟨_, _, upto.raised, fun entry member => ?_, ?_⟩, trivial⟩
          · exact sound.complete (upto.passed entry member)
          · exact S.failed_of_told own (views.raised found) told
  | rejects thread =>
      rw [thread] at stands
      cases stands with
      | caught upto threw =>
          refine ⟨⟨_, _, upto.raised, fun entry member => ?_, .inl ⟨_, threw⟩⟩, trivial⟩
          exact sound.complete (upto.passed entry member)

/-- With nothing else running, the greenthread goes on by itself unless it waits for
an action. -/
theorem Sound.goes (sound : Sound b trace s) (runs : s.thread.runs = true)
    (empty : s.bus.stack = []) :
    (∃ label s', Step b s label s' ∧ ∀ l, label ≠ .other l) ∨
      ∃ earlier entry, raised trace = earlier ++ [entry] ∧
        Pending (seen entry.1 trace) entry.2 := by
  have control : S.Buses.free s.bus.stack = true := by
    rw [empty]
    rfl
  have alive := sound.alive runs
  have stands := sound.stands
  have out {key : Key} {view : S.State E} (views : Views s.bus key view) (r : Nat) :
      r ∉ view.stack.map S.Frame.raise := by
    rw [views.stack, empty]
    exact List.not_mem_nil
  generalize here : s.thread = thread at stands runs
  cases stands with
  | queued none => cases runs
  | passed upto => cases runs
  | failed upto => cases runs
  | @at_ passed left upto =>
      cases left with
      | nil => exact .inl ⟨_, _, .logs here, nofun⟩
      | cons m left =>
          cases registry : s.bus.registry (key b m) with
          | none => exact .inl ⟨_, _, .lifts here (.lifts control alive registry), nofun⟩
          | some found => exact .inl ⟨_, _, .raises here (.raises control alive registry), nofun⟩
  | raising upto found began walks =>
      -- a walk that is off the stack has ended, and the greenthread has gone on
      obtain ⟨-, view, own, views⟩ := views_run (key b _) sound.run
      obtain ⟨leases, began⟩ := began
      rcases (S.answers_of_run own).left _ _ began (out views _) with ends | ⟨l, e, throws⟩
      · exact absurd ends walks.1
      · exact absurd throws (walks.2 l e)
  | lifted upto found => exact .inl ⟨_, _, .passes here (.passes control found), nofun⟩
  | returned upto found fresh =>
      exact .inl ⟨_, _, .runs here (.runs control found fresh.1 fresh.2), nofun⟩
  | @waiting passed m r left raise upto found ran =>
      obtain ⟨-, view, own, views⟩ := views_run (key b m) sound.run
      cases told : raise.results with
      | nil =>
          have pending := S.pending_of_untold own (views.raised found) ran (out views r) told
          exact .inr ⟨_, _, upto.raised, pending⟩
      | cons result rest =>
          have member : result ∈ raise.results := told ▸ List.mem_cons_self
          cases result with
          | none => exact .inl ⟨_, _, .resumes here found member, nofun⟩
          | some e => exact .inl ⟨_, _, .fails here found member, nofun⟩
  | caught upto threw => exact .inl ⟨_, _, .rejects here, nofun⟩

/-- `start` raises its messages one after the other, whatever happens meanwhile. -/
theorem start_in_order (run : Run (Step b) initial trace s) : InOrder b trace s := by
  have sound := sound_of_run run
  have cut {pre post : List (Label E)} {label : Label E} (split : trace = pre ++ label :: post) :
      ∃ s₁ s₂, Sound b pre s₁ ∧ Step b s₁ label s₂ ∧ Run (Step b) s₂ post s := by
    subst split
    obtain ⟨s₁, before, behind⟩ := run.split
    obtain ⟨s₂, step, rest⟩ := behind.uncons
    exact ⟨s₁, s₂, sound_of_run before, step, rest⟩
  refine ⟨sound.stands.ordered, ?_, ?_, ?_, sound.goes⟩
  · intro pre label post split raises
    obtain ⟨s₁, s₂, sound, step, rest⟩ := cut split
    exact sound.begun step raises
  · intro pre post split
    obtain ⟨s₁, s₂, sound, step, rest⟩ := cut split
    obtain ⟨whole, complete, ended⟩ := sound.logged step
    exact ⟨whole, complete, (ended_of_run ended rest).1⟩
  · intro pre e post split
    obtain ⟨s₁, s₂, sound, step, rest⟩ := cut split
    obtain ⟨⟨earlier, entry, last, complete, failed⟩, ended⟩ := sound.failed step
    exact ⟨earlier, entry, last, complete, failed, (ended_of_run ended rest).1⟩

end

/-- A return to whoever raises, or the end of a bus. -/
def returning : S.Buses.Label E → Bool
  | .destroysBus _ | .at_ _ (.ends _) | .at_ _ (.throws _ _ _) => true
  | _ => false

theorem Step.elsewhere {s : State E} {label : S.Buses.Label E} {bus : S.Buses.State E}
    (step : S.Buses.Step s.bus label bus) (waits : s.Waits b) (stays : returning label = false) :
    Step b s (.other label) { s with bus := bus } := by
  refine .other waits ⟨?_, ?_⟩ step
  · rintro - rfl
    cases stays
  · intro m r left thread
    refine ⟨?_, ?_⟩
    · rintro rfl
      cases stays
    · rintro l e rfl
      cases stays

/-- A module is provided with the saver, in an action that completes late, and throws
when it is told to start. -/
theorem start_in_order_throws : ∃ (trace : List (Label Unit)) (s : State Unit),
    raised trace = [(⟨0, 0⟩, 0), (⟨0, 1⟩, 0), (⟨0, 2⟩, 0)] ∧ s.thread = .failed () ∧
      InOrder 0 trace s := by
  have run : Run (Step 0) (initial : State Unit) _ _ := .nil
  have run := run.snoc (.elsewhere (.makesBus rfl) trivial rfl)
  have run := run.snoc (.elsewhere (.makes rfl) trivial rfl)
  have run := run.snoc (l := .other (.subscribes 0 ⟨0, 0⟩ 0))
    (.elsewhere (.subscribes rfl rfl rfl) (by trivial) rfl)
  have run := run.snoc (l := .other (.subscribes 0 ⟨0, 2⟩ 0))
    (.elsewhere (.subscribes rfl rfl rfl) (by trivial) rfl)
  have run := run.snoc (.begins rfl rfl rfl)
  have run := run.snoc (.raises rfl (.raises rfl rfl rfl))
  have run := run.snoc (.elsewhere (.calls rfl rfl rfl rfl) trivial rfl)
  have run := run.snoc (.elsewhere (.returns rfl rfl rfl) trivial rfl)
  have run := run.snoc (.ends rfl (.ends rfl rfl))
  have run := run.snoc (.runs rfl (.runs rfl rfl rfl rfl))
  have run := run.snoc (.elsewhere (.starts rfl rfl rfl) (by rintro raise ⟨⟩; rfl) rfl)
  have run := run.snoc (.elsewhere (.leaves rfl) (by rintro raise ⟨⟩; rfl) rfl)
  have run := run.snoc (.elsewhere (.joins rfl rfl rfl) (by rintro raise ⟨⟩; rfl) rfl)
  have run := run.snoc (l := .other (.at_ ⟨0, 0⟩ (.completes 0 0 none)))
    (.elsewhere (.completes rfl rfl rfl none) (by rintro raise ⟨⟩; rfl) rfl)
  have run := run.snoc (.resumes rfl rfl (List.mem_singleton_self _))
  have run := run.snoc (.lifts rfl (.lifts rfl rfl rfl))
  have run := run.snoc (.passes rfl (.passes rfl rfl))
  have run := run.snoc (.raises rfl (.raises rfl rfl rfl))
  have run := run.snoc (.elsewhere (.calls rfl rfl rfl rfl) trivial rfl)
  have run := run.snoc (.throws rfl (.throws rfl ()))
  have run := run.snoc (.rejects rfl)
  exact ⟨_, _, rfl, rfl, start_in_order run⟩

end SidepoolFormal.Main.Start
