import SidepoolFormal.S.Join
import SidepoolFormal.S.Replay

/-!
# The life of a raise

A raise collects actions while its call of `iterate` walks along the list, then
its `Io` starts them one after the other, and joins them.  At every moment at
most one frame of the stack belongs to a raise.
-/

namespace SidepoolFormal.S

open Library Registry

variable {E : Type}

/-! ## Which actions have been started -/

def Raise.Started (raise : Raise E) (i : Nat) : Prop :=
  ∃ l completed, raise.acts[i]? = some ⟨l, some completed⟩

namespace Raise

variable {raise : Raise E} {i j : Nat}

theorem Unstarted.not_started (unstarted : raise.Unstarted i) : ¬ raise.Started i := by
  rintro ⟨l, completed, found⟩
  cases unstarted _ found

theorem started_start {act : Act} (found : raise.acts[i]? = some act) :
    (raise.start i).Started i := by
  refine ⟨act.lease, false, ?_⟩
  rw [start, List.getElem?_modify_eq, found]
  rfl

theorem Unstarted.start (unstarted : raise.Unstarted j) (other : i ≠ j) :
    (raise.start i).Unstarted j := by
  intro act found
  rw [Raise.start, List.getElem?_modify_ne _ _ other] at found
  exact unstarted act found

theorem Started.start (started : raise.Started j) (i : Nat) : (raise.start i).Started j := by
  obtain ⟨l, completed, found⟩ := started
  by_cases same : i = j
  · subst same
    exact started_start found
  · refine ⟨l, completed, ?_⟩
    rw [Raise.start, List.getElem?_modify_ne _ _ same]
    exact found

/-- What an action that calls a continuation leaves as it is. -/
theorem complete_frame (raise : Raise E) (i : Nat) (result : Option E) :
    (raise.complete i result).returned = raise.returned ∧
      (raise.complete i result).ran = raise.ran ∧
      (raise.complete i result).waiter.joined = raise.waiter.joined ∧
      (raise.complete i result).acts.length = raise.acts.length := by
  rw [complete]
  split
  · exact ⟨rfl, rfl, rfl, List.length_set⟩
  · exact ⟨rfl, rfl, rfl, rfl⟩

theorem Unstarted.complete (unstarted : raise.Unstarted j) (i : Nat) (result : Option E) :
    (raise.complete i result).Unstarted j := by
  rw [Raise.complete]
  split
  · rename_i l running
    intro act found
    have other : i ≠ j := by
      rintro rfl
      exact unstarted.not_started ⟨l, false, running⟩
    rw [List.getElem?_set_ne other] at found
    exact unstarted act found
  · exact unstarted

theorem Started.complete (started : raise.Started j) (i : Nat) (result : Option E) :
    (raise.complete i result).Started j := by
  rw [Raise.complete]
  split
  · rename_i l running
    by_cases same : i = j
    · subst same
      exact ⟨l, true, List.getElem?_set_self (List.getElem?_eq_some_iff.mp running).1⟩
    · obtain ⟨l', completed, found⟩ := started
      exact ⟨l', completed, (List.getElem?_set_ne same).trans found⟩
  · exact started

end Raise

/-! ## What happens to one raise -/

/-- The raise that a step belongs to. -/
def Label.about : Label E → Option Nat
  | .makes _ | .subscribes _ _ | .destroys _ => none
  | .raises r _ | .removes r _ | .calls r _ | .returns r _ | .throws r _ _ | .ends r => some r
  | .runs r | .starts r _ _ | .leaves r _ | .crashes r _ _ | .joins r | .completes r _ _ => some r

/-- The continuation that an action of the r-th raise calls. -/
def completion (r : Nat) : Label E → Option (Nat × Option E)
  | .crashes r' i e => if r' = r then some (i, some e) else none
  | .completes r' i result => if r' = r then some (i, result) else none
  | _ => none

/-- The actions of the r-th raise that have completed, in order. -/
def outcomes (r : Nat) (trace : List (Label E)) : List (Nat × Option E) :=
  (trace.filterMap (completion r)).foldl (fun before now => record before now.1 now.2) []

theorem outcomes_of_silent {r : Nat} (trace : List (Label E)) {label : Label E}
    (silent : completion r label = none) : outcomes r (trace ++ [label]) = outcomes r trace := by
  rw [outcomes, List.filterMap_append, List.filterMap_cons_none silent, List.filterMap_nil,
    List.append_nil, outcomes]

theorem outcomes_snoc {r i : Nat} {result : Option E} (trace : List (Label E)) {label : Label E}
    (completes : completion r label = some (i, result)) :
    outcomes r (trace ++ [label]) = record (outcomes r trace) i result := by
  rw [outcomes, List.filterMap_append, List.filterMap_cons_some completes, List.filterMap_nil,
    List.foldl_append, outcomes]
  rfl

theorem completion_of_other {r : Nat} {label : Label E} (other : label.about ≠ some r) :
    completion r label = none := by
  cases label with
  | crashes r' i e => exact if_neg fun same => other (congrArg some same)
  | completes r' i result => exact if_neg fun same => other (congrArg some same)
  | _ => rfl

/-- The raise that a frame belongs to. -/
def Frame.raise : Frame → Nat
  | .iterate r _ _ | .function r _ _ | .chain r _ | .act r _ => r

/-- The first i actions have been started, and no other from the j-th on. -/
structure Raise.StartedUpTo (raise : Raise E) (i j : Nat) : Prop where
  started : ∀ k, k < i → raise.Started k
  unstarted : ∀ k, j ≤ k → raise.Unstarted k

theorem Raise.StartedUpTo.complete {raise : Raise E} {i j : Nat} (upTo : raise.StartedUpTo i j)
    (k : Nat) (result : Option E) : (raise.complete k result).StartedUpTo i j :=
  ⟨fun k' before => (upTo.started k' before).complete k result,
    fun k' behind => (upTo.unstarted k' behind).complete k result⟩

/-- How far a raise has come while a frame of it is on the stack. -/
def Frame.Fits (raise : Raise E) : Frame → Prop
  | .iterate _ _ _ => raise.returned = false ∧ raise.waiter.count = raise.acts.length
  | .function _ _ _ => raise.returned = false ∧ raise.waiter.count = raise.acts.length + 1
  | .chain _ i => raise.ran = true ∧ raise.waiter.joined = false ∧ raise.StartedUpTo i i
  | .act _ i => raise.ran = true ∧ raise.waiter.joined = false ∧ raise.StartedUpTo (i + 1) (i + 1)

theorem Frame.Fits.complete {raise : Raise E} {frame : Frame} (fits : frame.Fits raise)
    (returned : raise.returned = true) (i : Nat) (result : Option E) :
    frame.Fits (raise.complete i result) := by
  obtain ⟨-, still, same, -⟩ := raise.complete_frame i result
  cases frame with
  | iterate r prev ptr => cases returned.symm.trans fits.1
  | function r prev ptr => cases returned.symm.trans fits.1
  | chain r j =>
      obtain ⟨ran, alone, upTo⟩ := fits
      exact ⟨still.trans ran, same.trans alone, upTo.complete i result⟩
  | act r j =>
      obtain ⟨ran, alone, upTo⟩ := fits
      exact ⟨still.trans ran, same.trans alone, upTo.complete i result⟩

theorem mem_snoc_iff {trace : List (Label E)} {label l : Label E} (other : label ≠ l) :
    l ∈ trace ++ [label] ↔ l ∈ trace :=
  ⟨fun member => earlier member other, later label⟩

/-- What is known of the r-th raise tells what has happened to it. -/
structure Marks (trace : List (Label E)) (r : Nat) (raise : Raise E) : Prop where
  ends : .ends r ∈ trace ↔ raise.returned = true
  runs : .runs r ∈ trace ↔ raise.ran = true
  joins : .joins r ∈ trace ↔ raise.waiter.joined = true

theorem Marks.quiet {trace : List (Label E)} {r : Nat} {raise raise' : Raise E}
    (marks : Marks trace r raise) {label : Label E} (notEnds : label ≠ .ends r)
    (notRuns : label ≠ .runs r) (notJoins : label ≠ .joins r)
    (returned : raise'.returned = raise.returned) (ran : raise'.ran = raise.ran)
    (joined : raise'.waiter.joined = raise.waiter.joined) :
    Marks (trace ++ [label]) r raise' := by
  refine ⟨?_, ?_, ?_⟩
  · rw [mem_snoc_iff notEnds, returned]
    exact marks.ends
  · rw [mem_snoc_iff notRuns, ran]
    exact marks.runs
  · rw [mem_snoc_iff notJoins, joined]
    exact marks.joins

/-- What holds of the r-th raise, of which a frame is on the stack or not. -/
structure Sound (trace : List (Label E)) (r : Nat) (busy : Prop) (raise : Raise E) : Prop where
  building : raise.returned = false → Building raise ∧ outcomes r trace = []
  joining : raise.returned = true → Joining (outcomes r trace) raise
  unran : raise.ran = false → (∀ i, raise.Unstarted i) ∧ raise.waiter.joined = false
  joined : raise.waiter.joined = true → ∀ i < raise.acts.length, raise.Started i
  busy : raise.ran = true → raise.waiter.joined = true ∨ busy
  marks : Marks trace r raise

namespace Sound

variable {trace : List (Label E)} {r : Nat} {busy busy' : Prop} {raise : Raise E}

theorem quiet (sound : Sound trace r busy raise) {label : Label E}
    (silent : completion r label = none) (notEnds : label ≠ .ends r) (notRuns : label ≠ .runs r)
    (notJoins : label ≠ .joins r) (still : busy → busy') :
    Sound (trace ++ [label]) r busy' raise := by
  have same := outcomes_of_silent trace silent
  refine ⟨?_, ?_, sound.unran, sound.joined, ?_, ?_⟩
  · rw [same]
    exact sound.building
  · rw [same]
    exact sound.joining
  · exact fun ran => (sound.busy ran).imp_right still
  · exact sound.marks.quiet notEnds notRuns notJoins rfl rfl rfl

/-- While the `Io` has not been returned. -/
theorem build (sound : Sound trace r busy raise) {label : Label E} {raise' : Raise E}
    (silent : completion r label = none) (notEnds : label ≠ .ends r) (notRuns : label ≠ .runs r)
    (notJoins : label ≠ .joins r) (before : raise.returned = false)
    (still : raise'.returned = false) (building : Building raise') :
    Sound (trace ++ [label]) r busy' raise' := by
  obtain ⟨building', none⟩ := sound.building before
  refine ⟨fun _ => ⟨building, ?_⟩, ?_, fun _ => ⟨building.unstartedAt, building.joined⟩, ?_, ?_, ?_⟩
  · exact (outcomes_of_silent trace silent).trans none
  · intro returned
    cases still.symm.trans returned
  · intro joined
    cases building.joined.symm.trans joined
  · intro ran
    cases building.ran.symm.trans ran
  · exact sound.marks.quiet notEnds notRuns notJoins (still.trans before.symm)
      (building.ran.trans building'.ran.symm) (building.joined.trans building'.joined.symm)

/-- When the `Io` is returned. -/
theorem returns (sound : Sound trace r busy raise) (before : raise.returned = false)
    (count : raise.waiter.count = raise.acts.length) :
    Sound (trace ++ [.ends r]) r busy' { raise with returned := true } := by
  obtain ⟨building, none⟩ := sound.building before
  refine ⟨nofun, fun _ => ?_, fun _ => ⟨building.unstartedAt, building.joined⟩, ?_, ?_, ?_⟩
  · rw [outcomes_of_silent trace rfl, none]
    exact building.joining count
  · intro joined
    cases building.joined.symm.trans joined
  · intro ran
    cases building.ran.symm.trans ran
  · refine ⟨⟨fun _ => rfl, fun _ => now trace _⟩, ?_, ?_⟩
    · rw [mem_snoc_iff]
      · exact sound.marks.runs
      · nofun
    · rw [mem_snoc_iff]
      · exact sound.marks.joins
      · nofun

theorem returned_of_ran (sound : Sound trace r busy raise) (ran : raise.ran = true) :
    raise.returned = true := by
  by_contra unreturned
  have building := (sound.building (Bool.not_eq_true _ ▸ unreturned)).1
  cases building.ran.symm.trans ran

theorem ran_of_started (sound : Sound trace r busy raise) {i : Nat} (started : raise.Started i) :
    raise.ran = true := by
  by_contra unran
  exact ((sound.unran (Bool.not_eq_true _ ▸ unran)).1 i).not_started started

/-- While the `Io` is run. -/
theorem running (sound : Sound trace r busy raise) {label : Label E} {raise' : Raise E}
    (ran : raise.ran = true) (notEnds : label ≠ .ends r) (notRuns : label ≠ .runs r)
    (notJoins : label ≠ .joins r) (returned : raise'.returned = raise.returned)
    (still : raise'.ran = raise.ran) (joined : raise'.waiter.joined = raise.waiter.joined)
    (length : raise'.acts.length = raise.acts.length)
    (started : ∀ i, raise.Started i → raise'.Started i)
    (joining : Joining (outcomes r (trace ++ [label])) raise') :
    Sound (trace ++ [label]) r busy raise' := by
  have is := sound.returned_of_ran ran
  refine ⟨?_, fun _ => joining, ?_, ?_, ?_, ?_⟩
  · intro unreturned
    cases (returned.trans is).symm.trans unreturned
  · intro unran
    cases (still.trans ran).symm.trans unran
  · rw [joined, length]
    exact fun joined i bound => started i (sound.joined joined i bound)
  · rw [joined]
    exact fun _ => sound.busy ran
  · exact sound.marks.quiet notEnds notRuns notJoins returned still joined

theorem complete (sound : Sound trace r busy raise) {label : Label E} {i : Nat} {result : Option E}
    (completes : completion r label = some (i, result)) (started : raise.Started i) :
    Sound (trace ++ [label]) r busy (raise.complete i result) := by
  have ran := sound.ran_of_started started
  obtain ⟨returned, still, joined, length⟩ := raise.complete_frame i result
  obtain ⟨l, completed, found⟩ := started
  refine sound.running ran ?_ ?_ ?_ returned still joined length
    (fun j started => started.complete i result) ?_
  · rintro rfl
    cases completes
  · rintro rfl
    cases completes
  · rintro rfl
    cases completes
  · rw [outcomes_snoc trace completes]
    exact (sound.joining (sound.returned_of_ran ran)).complete found result

/-- When the `Io` is run. -/
theorem run (sound : Sound trace r busy raise) (returned : raise.returned = true) (now' : busy') :
    Sound (trace ++ [.runs r]) r busy' { raise with ran := true } := by
  refine ⟨?_, fun _ => ?_, nofun, sound.joined, fun _ => .inr now', ?_⟩
  · intro unreturned
    cases returned.symm.trans unreturned
  · rw [outcomes_of_silent trace rfl]
    exact (sound.joining returned).run
  · refine ⟨?_, ⟨fun _ => rfl, fun _ => now trace _⟩, ?_⟩
    · rw [mem_snoc_iff]
      · exact sound.marks.ends
      · nofun
    · rw [mem_snoc_iff]
      · exact sound.marks.joins
      · nofun

/-- When the last action of the `Io` is run. -/
theorem join (sound : Sound trace r busy raise) (ran : raise.ran = true)
    (alone : raise.waiter.joined = false) (all : ∀ i < raise.acts.length, raise.Started i) :
    Sound (trace ++ [.joins r]) r busy' raise.join := by
  have returned := sound.returned_of_ran ran
  refine ⟨?_, fun _ => ?_, ?_, fun _ => all, fun _ => .inl rfl, ?_⟩
  · intro unreturned
    cases returned.symm.trans unreturned
  · rw [outcomes_of_silent trace rfl]
    exact (sound.joining returned).join alone
  · intro unran
    cases ran.symm.trans unran
  · refine ⟨?_, ?_, ⟨fun _ => rfl, fun _ => now trace _⟩⟩
    · rw [mem_snoc_iff]
      · exact sound.marks.ends
      · nofun
    · rw [mem_snoc_iff]
      · exact sound.marks.runs
      · nofun

theorem mono (sound : Sound trace r busy raise) (still : busy → busy') :
    Sound trace r busy' raise :=
  { sound with busy := fun ran => (sound.busy ran).imp_right still }

theorem other (sound : Sound trace r busy raise) {label : Label E} (other : label.about ≠ some r)
    (still : busy → busy') : Sound (trace ++ [label]) r busy' raise := by
  refine sound.quiet (completion_of_other other) ?_ ?_ ?_ still
  · rintro rfl
    exact other rfl
  · rintro rfl
    exact other rfl
  · rintro rfl
    exact other rfl

end Sound

/-- What holds of all raises. -/
structure Raised (trace : List (Label E)) (s : State E) : Prop where
  known : ∀ label ∈ trace, ∀ r, label.about = some r → r < s.raises.length
  bound : ∀ frame ∈ s.stack, frame.raise < s.raises.length
  distinct : (s.stack.map Frame.raise).Nodup
  fits : ∀ frame ∈ s.stack, ∀ raise, s.raises[frame.raise]? = some raise → frame.Fits raise
  sound : ∀ r raise, s.raises[r]? = some raise →
    Sound trace r (r ∈ s.stack.map Frame.raise) raise

theorem found_self {s : State E} {r : Nat} {raise : Raise E} (found : s.raises[r]? = some raise)
    (f : Raise E → Raise E) : (s.modify r f).raises[r]? = some (f raise) := by
  rw [State.modify, List.getElem?_modify_eq, found]
  rfl

theorem found_other (s : State E) {r r' : Nat} (other : r' ≠ r) (f : Raise E → Raise E) :
    (s.modify r f).raises[r']? = s.raises[r']? :=
  List.getElem?_modify_ne f _ (Ne.symm other)

namespace Raised

variable {trace : List (Label E)} {s s' : State E}

/-- A step that belongs to the r-th raise changes this and its frame only. -/
theorem update (raised : Raised trace s) (old new : List Frame) {stack : List Frame}
    {label : Label E} {r : Nat} {raise raise' : Raise E} (about : label.about = some r)
    (found : s.raises[r]? = some raise) (here : s'.raises[r]? = some raise')
    (others : ∀ r', r' ≠ r → s'.raises[r']? = s.raises[r']?)
    (length : s'.raises.length = s.raises.length)
    (control : s.stack = old ++ stack) (next : s'.stack = new ++ stack)
    (own : ∀ frame ∈ old ++ new, frame.raise = r)
    (distinct : (s'.stack.map Frame.raise).Nodup)
    (fits : ∀ frame ∈ new, frame.Fits raise')
    (still : ∀ frame ∈ stack, frame.raise = r → frame.Fits raise → frame.Fits raise')
    (sound : Sound trace r (r ∈ s.stack.map Frame.raise) raise →
      Sound (trace ++ [label]) r (r ∈ s'.stack.map Frame.raise) raise') :
    Raised (trace ++ [label]) s' := by
  have bound : r < s.raises.length := (List.getElem?_eq_some_iff.mp found).1
  refine ⟨?_, ?_, distinct, ?_, ?_⟩
  · intro label' member r' known
    rw [length]
    rcases List.mem_append.mp member with before | now
    · exact raised.known label' before r' known
    · rw [List.mem_singleton.mp now] at known
      exact Option.some.inj (about.symm.trans known) ▸ bound
  · rw [next, length]
    intro frame member
    rcases List.mem_append.mp member with now | below
    · exact (own frame (List.mem_append_right _ now)).symm ▸ bound
    · exact raised.bound frame (control ▸ List.mem_append_right _ below)
  · rw [next]
    intro frame member raise'' found'
    by_cases same : frame.raise = r
    · rw [same, here] at found'
      cases found'
      rcases List.mem_append.mp member with now | below
      · exact fits frame now
      · have inside : frame ∈ s.stack := control ▸ List.mem_append_right _ below
        exact still frame below same (raised.fits frame inside raise (same.symm ▸ found))
    · rcases List.mem_append.mp member with now | below
      · exact absurd (own frame (List.mem_append_right _ now)) same
      · rw [others _ same] at found'
        exact raised.fits frame (control ▸ List.mem_append_right _ below) raise'' found'
  · intro r' raise'' found'
    by_cases same : r' = r
    · rw [same, here] at found'
      cases found'
      exact same ▸ sound (raised.sound r raise found)
    · rw [others r' same] at found'
      refine (raised.sound r' raise'' found').other ?_ ?_
      · exact fun is => same (Option.some.inj (is.symm.trans about))
      · rw [control, next, List.map_append, List.map_append]
        intro busy
        rcases List.mem_append.mp busy with left | below
        · obtain ⟨frame, member, is⟩ := List.mem_map.mp left
          exact absurd (is.symm.trans (own frame (List.mem_append_left _ member))) same
        · exact List.mem_append_right _ below

/-- The raise that a frame belongs to. -/
theorem found (raised : Raised trace s) {frame : Frame} {stack : List Frame}
    (control : s.stack = frame :: stack) :
    ∃ raise, s.raises[frame.raise]? = some raise ∧ frame.Fits raise := by
  have inside : frame ∈ s.stack := control ▸ List.mem_cons_self
  have found := List.getElem?_eq_getElem (raised.bound frame inside)
  exact ⟨_, found, raised.fits frame inside _ found⟩

theorem apart (raised : Raised trace s) {frame : Frame} {stack : List Frame}
    (control : s.stack = frame :: stack) : frame.raise ∉ stack.map Frame.raise := by
  have distinct := raised.distinct
  rw [control, List.map_cons, List.nodup_cons] at distinct
  exact distinct.1

/-- Where the frame on top goes on. -/
theorem turn (raised : Raised trace s) {label : Label E} {raise raise' : Raise E}
    {frame frame' : Frame} {stack : List Frame} (control : s.stack = frame :: stack)
    (next : s'.stack = frame' :: stack) (own : frame'.raise = frame.raise)
    (about : label.about = some frame.raise) (found : s.raises[frame.raise]? = some raise)
    (here : s'.raises[frame.raise]? = some raise')
    (others : ∀ r', r' ≠ frame.raise → s'.raises[r']? = s.raises[r']?)
    (length : s'.raises.length = s.raises.length) (fits : frame'.Fits raise')
    (sound : ∀ busy, Sound trace frame.raise busy raise →
      Sound (trace ++ [label]) frame.raise busy raise') : Raised (trace ++ [label]) s' := by
  have apart := raised.apart control
  have same : s'.stack.map Frame.raise = s.stack.map Frame.raise := by
    rw [control, next, List.map_cons, List.map_cons, own]
  refine raised.update [frame] [frame'] about found here others length control next ?_ ?_ ?_ ?_ ?_
  · simp [own]
  · exact same.symm ▸ raised.distinct
  · exact List.forall_mem_singleton.mpr fits
  · intro frame'' member is
    exact absurd (List.mem_map.mpr ⟨frame'', member, is⟩) apart
  · rw [same]
    exact sound _

/-- Where the frame on top is left. -/
theorem leave (raised : Raised trace s) {label : Label E} {raise raise' : Raise E}
    {frame : Frame} {stack : List Frame} (control : s.stack = frame :: stack)
    (next : s'.stack = stack) (about : label.about = some frame.raise)
    (found : s.raises[frame.raise]? = some raise) (here : s'.raises[frame.raise]? = some raise')
    (others : ∀ r', r' ≠ frame.raise → s'.raises[r']? = s.raises[r']?)
    (length : s'.raises.length = s.raises.length)
    (sound : ∀ busy, Sound trace frame.raise busy raise →
      Sound (trace ++ [label]) frame.raise False raise') : Raised (trace ++ [label]) s' := by
  have apart := raised.apart control
  have distinct := raised.distinct
  rw [control, List.map_cons, List.nodup_cons] at distinct
  refine raised.update [frame] [] about found here others length control next ?_ ?_ nofun ?_ ?_
  · simp
  · exact next.symm ▸ distinct.2
  · intro frame'' member is
    exact absurd (List.mem_map.mpr ⟨frame'', member, is⟩) apart
  · intro before
    refine (sound _ before).mono ?_
    nofun

/-- Where nothing happens to a raise. -/
theorem elsewhere (raised : Raised trace s) {label : Label E} (about : label.about = none)
    (raises : s'.raises = s.raises) (stack : s'.stack = s.stack) :
    Raised (trace ++ [label]) s' := by
  refine ⟨?_, ?_, ?_, ?_, ?_⟩
  · intro label' member r known
    rw [raises]
    rcases List.mem_append.mp member with before | now
    · exact raised.known label' before r known
    · rw [List.mem_singleton.mp now, about] at known
      cases known
  · rw [stack, raises]
    exact raised.bound
  · rw [stack]
    exact raised.distinct
  · rw [stack, raises]
    exact raised.fits
  · rw [stack, raises]
    intro r raise found
    refine (raised.sound r raise found).other ?_ id
    rw [about]
    nofun

theorem begin (raised : Raised trace s) {n : Nat} {ptr : Option Nat}
    (raises : s'.raises = s.raises ++ [Raise.initial])
    (stack : s'.stack = .iterate s.raises.length none ptr :: s.stack) :
    Raised (trace ++ [.raises s.raises.length n]) s' := by
  have silent (label : Label E) (member : label ∈ trace) :
      label.about ≠ some s.raises.length := by
    intro about
    exact Nat.lt_irrefl _ (raised.known label member _ about)
  have fresh : s.raises.length ∉ s.stack.map Frame.raise := by
    intro member
    obtain ⟨frame, inside, same⟩ := List.mem_map.mp member
    exact Nat.lt_irrefl _ (same ▸ raised.bound frame inside)
  refine ⟨?_, ?_, ?_, ?_, ?_⟩
  · intro label member r known
    rw [raises, List.length_append, List.length_singleton]
    rcases List.mem_append.mp member with before | now
    · exact Nat.lt_succ_of_lt (raised.known label before r known)
    · rw [List.mem_singleton.mp now] at known
      cases known
      exact Nat.lt_succ_self _
  · rw [stack, raises, List.length_append, List.length_singleton]
    refine List.forall_mem_cons.mpr ⟨Nat.lt_succ_self _, ?_⟩
    exact fun frame member => Nat.lt_succ_of_lt (raised.bound frame member)
  · rw [stack]
    exact List.nodup_cons.mpr ⟨fresh, raised.distinct⟩
  · rw [stack, raises]
    refine List.forall_mem_cons.mpr ⟨?_, ?_⟩
    · intro raise found
      rw [Frame.raise, List.getElem?_concat_length] at found
      cases found
      exact ⟨rfl, rfl⟩
    · intro frame member raise found
      rw [List.getElem?_append_left (raised.bound frame member)] at found
      exact raised.fits frame member raise found
  · rw [stack, raises]
    intro r raise found
    rcases found_concat found with old | ⟨rfl, rfl⟩
    · refine (raised.sound r raise old).other ?_ (List.mem_cons_of_mem _)
      rintro ⟨⟩
      exact Nat.lt_irrefl _ (List.getElem?_eq_some_iff.mp old).1
    · have none : outcomes s.raises.length trace = [] := by
        have nothing : trace.filterMap (completion s.raises.length) = [] :=
          List.filterMap_eq_nil_iff.mpr fun label member =>
            completion_of_other (silent label member)
        rw [outcomes, nothing]
        rfl
      have building : Building (Raise.initial : Raise E) := building_initial
      have unmarked : Marks trace s.raises.length (Raise.initial : Raise E) :=
        ⟨⟨fun member => absurd rfl (silent _ member), nofun⟩,
          ⟨fun member => absurd rfl (silent _ member), nofun⟩,
          ⟨fun member => absurd rfl (silent _ member), nofun⟩⟩
      refine ⟨fun _ => ⟨building, ?_⟩, nofun, fun _ => ⟨building.unstartedAt, rfl⟩, nofun, nofun,
        ?_⟩
      · exact (outcomes_of_silent trace rfl).trans none
      · exact unmarked.quiet nofun nofun nofun rfl rfl rfl

/-- Before its `Io` is run, no frame belongs to a raise that has returned this. -/
theorem fresh (raised : Raised trace s) {r : Nat} {raise : Raise E}
    (found : s.raises[r]? = some raise) (returned : raise.returned = true)
    (unran : raise.ran = false) : r ∉ s.stack.map Frame.raise := by
  intro member
  obtain ⟨frame, inside, rfl⟩ := List.mem_map.mp member
  have fits := raised.fits frame inside raise found
  cases frame with
  | iterate r prev ptr => cases returned.symm.trans fits.1
  | function r prev ptr => cases returned.symm.trans fits.1
  | chain r i => cases unran.symm.trans fits.1
  | act r i => cases unran.symm.trans fits.1

theorem step (raised : Raised trace s) {label : Label E} (step : Step s label s') :
    Raised (trace ++ [label]) s' := by
  have others (r : Nat) (f : Raise E → Raise E) (r' : Nat) (other : r' ≠ r) :
      (s.modify r f).raises[r']? = s.raises[r']? := found_other s other f
  cases step with
  | makes control => exact raised.elsewhere rfl rfl rfl
  | subscribes control lessee => exact raised.elsewhere rfl rfl rfl
  | destroys control lessee => exact raised.elsewhere rfl rfl rfl
  | raises control => exact raised.begin rfl rfl
  | removes control cleared =>
      obtain ⟨raise, found, fits⟩ := raised.found control
      exact raised.turn control rfl rfl rfl found found (fun _ _ => rfl) rfl fits
        fun busy sound => sound.quiet rfl nofun nofun nofun id
  | @calls r l prev stack control live =>
      obtain ⟨raise, found, unreturned, count⟩ := raised.found control
      exact raised.turn control rfl rfl rfl found (found_self found Raise.incr) (others r _)
        (length_modify ..) ⟨unreturned, congrArg (· + 1) count⟩
        fun busy sound => sound.build rfl nofun nofun nofun unreturned unreturned
          (sound.building unreturned).1.incr
  | @returns r l prev stack control =>
      obtain ⟨raise, found, unreturned, count⟩ := raised.found control
      have counted : (raise.collect l).waiter.count = (raise.collect l).acts.length := by
        rw [Raise.collect, List.length_append]
        exact count
      exact raised.turn control rfl rfl rfl found (found_self found (Raise.collect · l))
        (others r _) (length_modify ..) ⟨unreturned, counted⟩
        fun busy sound => sound.build rfl nofun nofun nofun unreturned unreturned
          ((sound.building unreturned).1.collect l)
  | throws control e =>
      obtain ⟨raise, found, unreturned, count⟩ := raised.found control
      exact raised.leave control rfl rfl found found (fun _ _ => rfl) rfl
        fun busy sound => sound.build rfl nofun nofun nofun unreturned unreturned
          (sound.building unreturned).1
  | @ends r prev stack control =>
      obtain ⟨raise, found, unreturned, count⟩ := raised.found control
      exact raised.leave control rfl rfl found (found_self found _) (others r _)
        (length_modify ..) fun busy sound => sound.returns unreturned count
  | @runs r raise control found returned unran =>
      have sound := raised.sound r raise found
      obtain ⟨unstarted, alone⟩ := sound.unran unran
      have fresh := raised.fresh found returned unran
      refine raised.update [] [.chain r 0] rfl found (found_self found _) (others r _)
        (length_modify ..) rfl rfl ?_ ?_ ?_ ?_ ?_
      · exact List.forall_mem_singleton.mpr rfl
      · exact List.nodup_cons.mpr ⟨fresh, raised.distinct⟩
      · exact List.forall_mem_singleton.mpr ⟨rfl, alone, nofun, fun j _ => unstarted j⟩
      · intro frame member is
        exact absurd (List.mem_map.mpr ⟨frame, member, is⟩) fresh
      · exact fun sound => sound.run returned List.mem_cons_self
  | @starts r i raise act stack control found next =>
      have inside : Frame.chain r i ∈ s.stack := control ▸ List.mem_cons_self
      obtain ⟨ran, joined, upTo⟩ := raised.fits _ inside raise found
      refine raised.turn control rfl rfl rfl found (found_self found (Raise.start · i))
        (others r _) (length_modify ..) ⟨ran, joined, ?_, ?_⟩ ?_
      · intro j before
        rcases Nat.lt_succ_iff_lt_or_eq.mp before with less | rfl
        · exact (upTo.started j less).start i
        · exact Raise.started_start next
      · intro j behind
        exact (upTo.unstarted j (Nat.le_of_lt behind)).start (Nat.ne_of_lt behind)
      · intro busy sound
        refine sound.running ran nofun nofun nofun rfl rfl rfl (List.length_modify _ _ _)
          (fun j started => started.start i) ?_
        rw [outcomes_of_silent trace rfl]
        exact (sound.joining (sound.returned_of_ran ran)).start
          (upTo.unstarted i (Nat.le_refl i))
  | @leaves r i stack control =>
      obtain ⟨raise, found, fits⟩ := raised.found control
      exact raised.turn control rfl rfl rfl found found (fun _ _ => rfl) rfl fits
        fun busy sound => sound.quiet rfl nofun nofun nofun id
  | @crashes r i stack control e =>
      obtain ⟨raise, found, fits⟩ := raised.found control
      have returned := (raised.sound r raise found).returned_of_ran fits.1
      have started := fits.2.2.started i (Nat.lt_succ_self i)
      exact raised.turn control rfl rfl rfl found (found_self found (Raise.complete · i (some e)))
        (others r _) (length_modify ..) (fits.complete returned i (some e))
        fun busy sound => sound.complete (if_pos rfl) started
  | @joins r i raise stack control found none =>
      have inside : Frame.chain r i ∈ s.stack := control ▸ List.mem_cons_self
      obtain ⟨ran, alone, upTo⟩ := raised.fits _ inside raise found
      have all : ∀ j < raise.acts.length, raise.Started j := fun j bound =>
        upTo.started j (Nat.lt_of_lt_of_le bound (List.getElem?_eq_none_iff.mp none))
      exact raised.leave control rfl rfl found (found_self found _) (others r _)
        (length_modify ..) fun busy sound => sound.join ran alone all
  | @completes r i l raise completed control found started result =>
      have sound := raised.sound r raise found
      have ran := sound.ran_of_started ⟨l, completed, started⟩
      refine raised.update [] [] rfl found (found_self found _) (others r _) (length_modify ..)
        rfl rfl nofun raised.distinct nofun ?_ ?_
      · exact fun frame _ _ fits => fits.complete (sound.returned_of_ran ran) i result
      · exact fun sound => sound.complete (if_pos rfl) ⟨l, completed, started⟩

end Raised

/-! ## Joining -/

theorem raised_of_run {trace : List (Label E)} {s : State E} (run : Run Step initial trace s) :
    Raised trace s :=
  run.invariant ⟨nofun, nofun, .nil, nofun, nofun⟩ fun _ _ _ _ raised step => raised.step step

theorem keys_foldl {i : Nat} (completions outcomes : List (Nat × Option E))
    (member : i ∈ completions.map Prod.fst ∨ i ∈ outcomes.map Prod.fst) :
    i ∈ (completions.foldl (fun before now => record before now.1 now.2) outcomes).map
      Prod.fst := by
  induction completions generalizing outcomes with
  | nil => exact member.resolve_left nofun
  | cons completion completions ih =>
      rw [List.foldl_cons]
      apply ih
      rw [List.map_cons, List.mem_cons] at member
      rw [record]
      split
      · rename_i before
        rcases member with (rfl | behind) | old
        · exact .inr before
        · exact .inl behind
        · exact .inr old
      · rcases member with (rfl | behind) | old
        · exact .inr (by simp)
        · exact .inl behind
        · exact .inr (by simp [old])

/-- An action that has called a continuation has completed. -/
theorem recorded {r i : Nat} {result : Option E} {trace : List (Label E)} {label : Label E}
    (member : label ∈ trace) (completes : completion r label = some (i, result)) :
    i ∈ (outcomes r trace).map Prod.fst := by
  have inside := List.mem_filterMap.mpr ⟨label, member, completes⟩
  exact keys_foldl _ [] (.inl (List.mem_map.mpr ⟨(i, result), inside, rfl⟩))

/-- The `Io` that the r-th raise has returned joins the actions of its subscribers. -/
structure Joins (trace : List (Label E)) (s : State E) (r : Nat) (raise : Raise E) : Prop where
  collected : raise.leases = trace.filterMap (returned r)
  count : raise.waiter.count + (outcomes r trace).length = raise.acts.length
  once : ((outcomes r trace).map Prod.fst).Nodup
  inside : ∀ i ∈ (outcomes r trace).map Prod.fst, i < raise.acts.length
  starts : .joins r ∈ trace → ∀ i < raise.acts.length, raise.Started i
  kept : ∀ label ∈ trace, ∀ i result, completion r label = some (i, result) →
    i ∈ (outcomes r trace).map Prod.fst
  single : raise.results.length ≤ 1
  waits : raise.results ≠ [] → (outcomes r trace).length = raise.acts.length
  completes : .joins r ∈ trace → (outcomes r trace).length = raise.acts.length → raise.results ≠ []
  passes : none ∈ raise.results → ∀ completed ∈ outcomes r trace, completed.2 = none
  fails : ∀ e, some e ∈ raise.results → ∃ i before after,
    outcomes r trace = before ++ (i, some e) :: after ∧ ∀ completed ∈ before, completed.2 = none
  reached : .runs r ∈ trace → r ∉ s.stack.map Frame.raise → .joins r ∈ trace
  goes : ∀ i stack, s.stack = .chain r i :: stack → ∃ label s', Step s label s'

/-- Once it is returned, the `Io` of a raise completes exactly once, after all the
actions have: it passes if they all passed, and fails as the one that failed first. -/
theorem raise_joins {trace : List (Label E)} {s : State E} (run : Run Step initial trace s)
    {r : Nat} {raise : Raise E} (found : s.raises[r]? = some raise)
    (returned : raise.returned = true) : Joins trace s r raise := by
  have sound := (raised_of_run run).sound r raise found
  have joining := sound.joining returned
  have count := joining.waits.count
  have results := joining.waits.results
  have reported {result : Option E} (member : result ∈ raise.results) :
      outcome ((outcomes r trace).map Prod.snd) = result := by
    rw [results, reports] at member
    split at member
    · exact (List.mem_singleton.mp member).symm
    · cases member
  rw [List.length_map] at count
  have marks := sound.marks
  refine ⟨(called_of_run run).acts r raise found, count, joining.once, fun _ => joining.inside,
    fun joins => sound.joined (marks.joins.mp joins),
    fun label member i result completes => recorded member completes, ?_, ?_, ?_, ?_, ?_, ?_, ?_⟩
  · rw [results]
    exact length_reports_le _ _ _
  · intro told
    by_contra pending
    refine told (results.trans (reports_pending ?_ _))
    rw [List.length_map]
    omega
  · intro joins all
    rw [results, reports, if_pos ⟨marks.joins.mp joins, by rw [List.length_map, all]⟩]
    exact List.cons_ne_nil _ _
  · intro member completed inside
    have passed := (outcome_eq_none_iff _).mp (reported member)
    exact passed completed.2 (List.mem_map_of_mem inside)
  · intro e member
    obtain ⟨before, after, split, passed⟩ := (outcome_eq_some_iff _ e).mp (reported member)
    obtain ⟨before', rest, whole, rfl, behind⟩ := List.map_eq_append_iff.mp split
    obtain ⟨⟨i, result⟩, after', rfl, rfl, -⟩ := List.map_eq_cons_iff.mp behind
    exact ⟨i, before', after', whole, fun completed inside =>
      passed completed.2 (List.mem_map_of_mem inside)⟩
  · intro runs left
    exact marks.joins.mpr ((sound.busy (marks.runs.mp runs)).resolve_right left)
  · intro i stack control
    cases next : raise.acts[i]? with
    | none => exact ⟨_, _, .joins control found next⟩
    | some act => exact ⟨_, _, .starts control found next⟩

end SidepoolFormal.S
