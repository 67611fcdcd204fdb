import SidepoolFormal.S.Buses
import SidepoolFormal.S.Lessee
import SidepoolFormal.S.Walk

/-!
# One type at a time

Whatever else happens on a bus and on others, what happens for one of its types
is a run of the registry of that type alone.  So what is known of such runs is
known of each type of each bus.
-/

namespace SidepoolFormal.S.Buses

open Library

variable {E : Type}

/-! ## What is seen of one type -/

/-- What belongs to a type. -/
def pick {A : Type} (key : Key) (entry : Key × A) : Option A :=
  if entry.1 = key then some entry.2 else none

@[simp]
theorem pick_own {A : Type} (key : Key) (a : A) : pick key (key, a) = some a := if_pos rfl

theorem pick_other {A : Type} {key key' : Key} (other : key' ≠ key) (a : A) :
    pick key (key', a) = none := if_neg other

def Lessee.view (key : Key) (lessee : Lessee) : S.Lessee :=
  ⟨lessee.leases.filterMap (pick key), lessee.alive⟩

/-- `lift()` is what is returned by a registry without leases. -/
def Raised.view : Raised E → Raise E
  | .registry raise => raise
  | .lift false => { Raise.initial with returned := true }
  | .lift true => Raise.join { Raise.initial with returned := true, ran := true }

/-- What happens is one step, or two, of a registry, or does not concern it. -/
def Label.view (key : Key) : Label E → List (S.Label E)
  | .makesBus _ => []
  | .destroysBus _ => []
  | .freesRegistry _ => []
  | .makes k => [.makes k]
  | .subscribes k key' l => if key' = key then [.subscribes k l] else []
  | .destroys k => [.destroys k]
  | .lifts key' r => if key' = key then [.raises r 0, .ends r] else []
  | .passes key' r => if key' = key then [.runs r, .joins r] else []
  | .at_ key' label => if key' = key then [label] else []

/-- The registry is destroyed; nobody can raise or subscribe any more. -/
def State.Gone (s : State E) (key : Key) : Prop :=
  s.buses[key.bus]? = some false ∧ s.registry key = none

structure Views (s : State E) (key : Key) (seen : S.State E) : Prop where
  registry : s.Gone key ∨ seen.registry = s.makeIfAbsent key
  lessees : seen.lessees = s.lessees.map (Lessee.view key)
  raises : seen.raises = (s.raises key).map Raised.view
  stack : seen.stack = s.stack.filterMap (pick key)

/-- What is below somebody on the stack has called him, and is the code of users. -/
def State.Nested (s : State E) : Prop := ∀ frame ∈ s.stack.tail, frame.2.user = true

namespace State.Nested

variable {s : State E}

theorem below (nested : s.Nested) {frame : Key × Frame} {stack : List (Key × Frame)}
    (control : s.stack = frame :: stack) : ∀ frame ∈ stack, frame.2.user = true := by
  unfold State.Nested at nested
  rw [control] at nested
  exact nested

theorem tail (nested : s.Nested) {frame : Key × Frame} {stack : List (Key × Frame)}
    (control : s.stack = frame :: stack) : ∀ frame ∈ stack.tail, frame.2.user = true :=
  fun frame member => nested.below control frame (List.mem_of_mem_tail member)

theorem top (nested : s.Nested) (control : free s.stack = true) :
    ∀ frame ∈ s.stack, frame.2.user = true := by
  cases stack : s.stack with
  | nil => exact fun frame member => absurd member List.not_mem_nil
  | cons frame rest =>
      rw [stack] at control
      exact List.forall_mem_cons.mpr ⟨control, nested.below stack⟩

end State.Nested

namespace Views

variable {s s' : State E} {key : Key} {seen seen' : S.State E}

theorem found (views : Views s key seen) {registry : Registry}
    (found : s.registry key = some registry) : seen.registry = registry := by
  rcases views.registry with gone | same
  · rw [gone.2] at found
    cases found
  · rw [same, State.makeIfAbsent, found]
    rfl

theorem alive (views : Views s key seen) (bus : s.buses[key.bus]? = some true) :
    seen.registry = s.makeIfAbsent key := by
  rcases views.registry with gone | same
  · rw [gone.1] at bus
    cases bus
  · exact same

theorem control (views : Views s key seen) {frame : Frame} {stack : List (Key × Frame)}
    (control : s.stack = (key, frame) :: stack) :
    seen.stack = frame :: stack.filterMap (pick key) := by
  rw [views.stack, control, List.filterMap_cons_some (pick_own key frame)]

/-- Where the code of users has control, it has so for each type. -/
theorem free (views : Views s key seen) (nested : s.Nested) (control : free s.stack = true) :
    S.free seen.stack = true := by
  apply free_of_nested
  intro frame member
  rw [views.stack, List.mem_filterMap] at member
  obtain ⟨⟨key', frame'⟩, member, same⟩ := member
  unfold pick at same
  split at same
  · cases same
    exact nested.top control _ member
  · cases same

theorem lessee (views : Views s key seen) {k : Nat} {lessee : Lessee}
    (found : s.lessees[k]? = some lessee) : seen.lessees[k]? = some (lessee.view key) := by
  rw [views.lessees, List.getElem?_map, found]
  rfl

theorem raised (views : Views s key seen) {r : Nat} {raised : Raised E}
    (found : (s.raises key)[r]? = some raised) : seen.raises[r]? = some raised.view := by
  rw [views.raises, List.getElem?_map, found]
  rfl

theorem count (views : Views s key seen) : seen.raises.length = (s.raises key).length := by
  rw [views.raises, List.length_map]

/-- A call of `raise` is changed as it is changed for its type. -/
theorem modify (views : Views s key seen) {r : Nat} {raised raised' : Raised E}
    (found : (s.raises key)[r]? = some raised) {f : Raise E → Raise E}
    (same : f raised.view = raised'.view) :
    (seen.modify r f).raises = ((s.setRaise key r raised').raises key).map Raised.view := by
  unfold S.State.modify State.setRaise
  dsimp only
  rw [Function.update_self, views.raises, List.map_set, ← same]
  apply List.ext_getElem?
  intro n
  rw [List.getElem?_modify, List.getElem?_set]
  by_cases here : r = n
  · subst here
    have bound : r < (s.raises key).length := (List.getElem?_eq_some_iff.mp found).1
    rw [List.getElem?_map, found, List.length_map, if_pos rfl, if_pos bound]
    simp
  · simp [here]

/-- The registry is as before, and the bus, if it was gone. -/
theorem kept (views : Views s key seen)
    (gone : s.buses[key.bus]? = some false → s'.buses[key.bus]? = some false)
    (registry : s'.registry key = s.registry key) :
    s'.Gone key ∨ seen.registry = s'.makeIfAbsent key := by
  refine views.registry.imp (fun before => ⟨gone before.1, registry.trans before.2⟩) ?_
  unfold State.makeIfAbsent
  rw [registry]
  exact id

/-- What does not concern a type. -/
theorem still (views : Views s key seen)
    (gone : s.buses[key.bus]? = some false → s'.buses[key.bus]? = some false)
    (registry : s'.registry key = s.registry key) (lessees : s'.lessees = s.lessees)
    (raises : s'.raises key = s.raises key)
    (stack : s'.stack.filterMap (pick key) = s.stack.filterMap (pick key)) :
    Views s' key seen where
  registry := views.kept gone registry
  lessees := by rw [lessees, views.lessees]
  raises := by rw [raises, views.raises]
  stack := by rw [stack, views.stack]

end Views

/-! ## Steps -/

theorem State.makeIfAbsent_found {s : State E} {key : Key} {registry : Registry}
    (found : s.registry key = some registry) : s.makeIfAbsent key = registry := by
  rw [State.makeIfAbsent, found]
  rfl

theorem Views.add {s : State E} {key : Key} {seen : S.State E} (views : Views s key seen)
    (raised : Raised E) :
    seen.raises ++ [raised.view] = ((s.addRaise key raised).raises key).map Raised.view := by
  unfold State.addRaise
  dsimp only
  rw [Function.update_self, views.raises, List.map_append]
  rfl

theorem clear_frame (leases : List (Key × Nat)) (s : State E) :
    (leases.foldl State.clear s).buses = s.buses ∧ (leases.foldl State.clear s).raises = s.raises ∧
      (leases.foldl State.clear s).stack = s.stack := by
  induction leases generalizing s with
  | nil => exact ⟨rfl, rfl, rfl⟩
  | cons lease leases ih => exact ih (s.clear lease)

theorem clear_initial (l : Nat) : Registry.initial.clear l = Registry.initial := by
  unfold Registry.clear Registry.initial
  rw [List.modify_nil]

/-- `~Lessee` clears in each registry the leases that the lessee has there. -/
theorem registry_clear (key : Key) (leases : List (Key × Nat)) (s : State E) :
    (leases.foldl State.clear s).registry key =
      (s.registry key).map fun registry =>
        (leases.filterMap (pick key)).foldl Registry.clear registry := by
  induction leases generalizing s with
  | nil => exact Option.map_id'.symm
  | cons lease leases ih =>
      obtain ⟨key', l⟩ := lease
      rw [List.foldl_cons, ih]
      unfold State.clear
      dsimp only
      by_cases here : key' = key
      · subst here
        rw [Function.update_self, Option.map_map, List.filterMap_cons_some (pick_own key' l)]
        rfl
      · rw [Function.update_of_ne (Ne.symm here), List.filterMap_cons_none (pick_other here l)]

theorem destroy_initial (leases : List Nat) :
    leases.foldl Registry.clear Registry.initial = Registry.initial := by
  induction leases with
  | nil => rfl
  | cons l leases ih => rw [List.foldl_cons, clear_initial, ih]

theorem nested_step {s s' : State E} {label : Label E} (nested : s.Nested)
    (step : Step s label s') : s'.Nested := by
  cases step with
  | makesBus control => exact nested
  | destroysBus control bus => exact nested
  | freesRegistry bus left => exact nested
  | makes control => exact nested
  | subscribes control bus lessee => exact nested
  | destroys control lessee =>
      unfold State.Nested
      rw [(clear_frame _ s).2.2]
      exact nested
  | lifts control bus absent => exact nested
  | passes control found => exact nested
  | raises control bus found => exact nested.top control
  | removes control found cleared => exact nested.below control
  | calls control found live raised => exact nested.below control
  | returns control found raised => exact nested.below control
  | throws control e => exact nested.tail control
  | ends control raised => exact nested.tail control
  | runs control raised returned ran => exact nested.top control
  | starts control raised next => exact nested.below control
  | leaves control => exact nested.below control
  | crashes control raised e => exact nested.below control
  | joins control raised none => exact nested.tail control
  | completes control raised started result => exact nested

/-- A step of a registry, as it is without the others. -/
theorem views_own {s s' : State E} {key : Key} {seen : S.State E} {label : S.Label E}
    (views : Views s key seen) (nested : s.Nested) (step : Step s (.at_ key label) s') :
    ∃ seen', S.Step seen label seen' ∧ Views s' key seen' := by
  have push (frame : Frame) (stack : List (Key × Frame)) :
      frame :: stack.filterMap (pick key) = ((key, frame) :: stack).filterMap (pick key) :=
    (List.filterMap_cons_some (pick_own key frame)).symm
  cases step with
  | raises control bus found =>
      have begun := S.Step.raises (views.free nested control)
      rw [views.count, views.found found] at begun
      have same : s.makeIfAbsent key = _ := State.makeIfAbsent_found found
      refine ⟨_, begun, .inr same.symm, views.lessees, views.add (.registry Raise.initial), ?_⟩
      rw [views.stack]
      exact push _ _
  | removes control found cleared =>
      have same := views.found found
      have done := S.Step.removes (views.control control) (same ▸ cleared)
      rw [same] at done
      refine ⟨_, done, .inr ?_, views.lessees, views.raises, push _ _⟩
      exact (State.makeIfAbsent_found (Function.update_self key _ s.registry)).symm
  | calls control found live raised =>
      have done := S.Step.calls (views.control control) (views.found found ▸ live)
      exact ⟨_, done, views.registry, views.lessees, views.modify raised rfl, push _ _⟩
  | returns control found raised =>
      have done := S.Step.returns (views.control control)
      refine ⟨_, done, views.registry, views.lessees, views.modify raised rfl, ?_⟩
      rw [views.found found]
      exact push _ _
  | throws control e =>
      exact ⟨_, .throws (views.control control) e, views.registry, views.lessees, views.raises, rfl⟩
  | ends control raised =>
      have done := S.Step.ends (views.control control)
      exact ⟨_, done, views.registry, views.lessees, views.modify raised rfl, rfl⟩
  | runs control raised returned ran =>
      have done := S.Step.runs (views.free nested control) (views.raised raised) returned ran
      refine ⟨_, done, views.registry, views.lessees, views.modify raised rfl, ?_⟩
      rw [views.stack]
      exact push _ _
  | starts control raised next =>
      have done := S.Step.starts (views.control control) (views.raised raised) next
      exact ⟨_, done, views.registry, views.lessees, views.modify raised rfl, push _ _⟩
  | leaves control =>
      have done := S.Step.leaves (views.control control)
      exact ⟨_, done, views.registry, views.lessees, views.raises, push _ _⟩
  | crashes control raised e =>
      have done := S.Step.crashes (views.control control) e
      exact ⟨_, done, views.registry, views.lessees, views.modify raised rfl, push _ _⟩
  | joins control raised none =>
      have done := S.Step.joins (views.control control) (views.raised raised) none
      exact ⟨_, done, views.registry, views.lessees, views.modify raised rfl, rfl⟩
  | completes control raised started result =>
      have done := S.Step.completes (views.free nested control) (views.raised raised) started result
      exact ⟨_, done, views.registry, views.lessees, views.modify raised rfl, views.stack⟩

/-- A step of another registry is not seen. -/
theorem views_other {s s' : State E} {key key' : Key} {seen : S.State E} {label : S.Label E}
    (views : Views s key seen) (other : key' ≠ key) (step : Step s (.at_ key' label) s') :
    Views s' key seen := by
  have raises (r : Nat) (raised : Raised E) :
      (s.setRaise key' r raised).raises key = s.raises key :=
    Function.update_of_ne (β := fun _ => List (Raised E)) (Ne.symm other) _ _
  have skip (frame : Frame) (stack : List (Key × Frame)) :
      ((key', frame) :: stack).filterMap (pick key) = stack.filterMap (pick key) :=
    List.filterMap_cons_none (pick_other other frame)
  have turn {frame : Frame} {stack : List (Key × Frame)}
      (control : s.stack = (key', frame) :: stack) :
      stack.filterMap (pick key) = s.stack.filterMap (pick key) := by
    rw [control, skip]
  cases step with
  | raises control bus found =>
      have added : (s.addRaise key' (.registry Raise.initial)).raises key = s.raises key :=
        Function.update_of_ne (β := fun _ => List (Raised E)) (Ne.symm other) _ _
      exact views.still id rfl rfl added (skip _ _)
  | removes control found cleared =>
      refine views.still id ?_ rfl rfl ((skip _ _).trans (turn control))
      exact Function.update_of_ne (β := fun _ => Option Registry) (Ne.symm other) _ s.registry
  | calls control found live raised =>
      exact views.still id rfl rfl (raises _ _) ((skip _ _).trans (turn control))
  | returns control found raised =>
      exact views.still id rfl rfl (raises _ _) ((skip _ _).trans (turn control))
  | throws control e => exact views.still id rfl rfl rfl (turn control)
  | ends control raised => exact views.still id rfl rfl (raises _ _) (turn control)
  | runs control raised returned ran => exact views.still id rfl rfl (raises _ _) (skip _ _)
  | starts control raised next =>
      exact views.still id rfl rfl (raises _ _) ((skip _ _).trans (turn control))
  | leaves control => exact views.still id rfl rfl rfl ((skip _ _).trans (turn control))
  | crashes control raised e =>
      exact views.still id rfl rfl (raises _ _) ((skip _ _).trans (turn control))
  | joins control raised none => exact views.still id rfl rfl (raises _ _) (turn control)
  | completes control raised started result =>
      exact views.still id rfl rfl (raises _ _) rfl

theorem map_set_same {A B : Type} {f : A → B} {list : List A} {k : Nat} {a a' : A}
    (found : list[k]? = some a) (same : f a' = f a) : (list.set k a').map f = list.map f := by
  rw [List.map_set, same]
  apply List.ext_getElem?
  intro n
  rw [List.getElem?_set]
  split
  · subst n
    rw [List.getElem?_map, found, List.length_map, if_pos (List.getElem?_eq_some_iff.mp found).1]
    rfl
  · rfl

/-- A lessee has subscribed for this type. -/
theorem views_subscribes {s s' : State E} {key : Key} {seen : S.State E} {k l : Nat}
    (views : Views s key seen) (nested : s.Nested) (step : Step s (.subscribes k key l) s') :
    ∃ seen', S.Step seen (.subscribes k l) seen' ∧ Views s' key seen' := by
  cases step with
  | subscribes control bus lessee =>
      have done := S.Step.subscribes (views.free nested control) (views.lessee lessee)
      rw [views.alive bus] at done
      refine ⟨_, done, .inr ?_, ?_, views.raises, views.stack⟩
      · exact (State.makeIfAbsent_found (Function.update_self key _ s.registry)).symm
      · rw [views.lessees, List.map_set]
        unfold Lessee.view
        dsimp only
        rw [List.filterMap_cons_some (pick_own key _)]

/-- A lessee has subscribed for another one. -/
theorem views_subscribed {s s' : State E} {key key' : Key} {seen : S.State E} {k l : Nat}
    (views : Views s key seen) (other : key' ≠ key) (step : Step s (.subscribes k key' l) s') :
    Views s' key seen := by
  cases step with
  | subscribes control bus lessee =>
      have kept := Function.update_of_ne (β := fun _ => Option Registry) (Ne.symm other)
        (some (s.makeIfAbsent key').addLease) s.registry
      refine ⟨views.kept id kept, ?_, views.raises, views.stack⟩
      rw [views.lessees]
      refine (map_set_same lessee ?_).symm
      unfold Lessee.view
      rw [List.filterMap_cons_none (pick_other other _)]

theorem views_destroys {s s' : State E} {key : Key} {seen : S.State E} {k : Nat}
    (views : Views s key seen) (nested : s.Nested) (step : Step s (.destroys k) s') :
    ∃ seen', S.Step seen (.destroys k) seen' ∧ Views s' key seen' := by
  cases step with
  | @destroys _ leases control lessee =>
      have done := S.Step.destroys (views.free nested control) (views.lessee lessee)
      obtain ⟨buses, raises, stack⟩ := clear_frame leases s
      have cleared := registry_clear key leases s
      refine ⟨_, done, ?_, ?_, ?_, ?_⟩
      · unfold State.Gone State.makeIfAbsent
        dsimp only
        rw [buses, cleared]
        rcases views.registry with gone | same
        · rw [gone.2]
          exact .inl ⟨gone.1, rfl⟩
        · refine .inr ?_
          rw [same, State.makeIfAbsent]
          cases s.registry key with
          | none => exact destroy_initial _
          | some registry => rfl
      · rw [views.lessees, List.map_set]
        rfl
      · exact views.raises.trans (raises ▸ rfl)
      · exact views.stack.trans (stack ▸ rfl)

theorem modify_concat {A : Type} (list : List A) (a : A) (f : A → A) :
    (list ++ [a]).modify list.length f = list ++ [f a] := by
  rw [List.modify_eq_set_getElem?, List.getElem?_concat_length]
  simp

/-- `lift()` is returned at once, as by a registry that is empty. -/
theorem views_lifts {s s' : State E} {key : Key} {seen : S.State E} {r : Nat}
    (views : Views s key seen) (nested : s.Nested) (step : Step s (.lifts key r) s') :
    ∃ seen', Run S.Step seen [.raises r 0, .ends r] seen' ∧ Views s' key seen' := by
  cases step with
  | lifts control bus absent =>
      have empty : seen.registry = Registry.initial := by
        rw [views.alive bus, State.makeIfAbsent, absent]
        rfl
      have begun := S.Step.raises (views.free nested control)
      rw [views.count, empty] at begun
      have added := views.add (.lift false)
      refine ⟨_, .snoc (.snoc .nil begun) (.ends rfl), ?_, views.lessees, ?_, views.stack⟩
      · exact .inr (empty.symm.trans (views.alive bus))
      · rw [← added, ← views.count]
        exact modify_concat _ _ _

theorem views_passes {s s' : State E} {key : Key} {seen : S.State E} {r : Nat}
    (views : Views s key seen) (nested : s.Nested) (step : Step s (.passes key r) s') :
    ∃ seen', Run S.Step seen [.runs r, .joins r] seen' ∧ Views s' key seen' := by
  cases step with
  | passes control found =>
      have begun := S.Step.runs (views.free nested control) (views.raised found) rfl rfl
      have raised : (seen.modify r ({ · with ran := true })).raises[r]? =
          some { Raised.view (.lift false : Raised E) with ran := true } := by
        unfold S.State.modify
        dsimp only
        rw [List.getElem?_modify_eq, views.raised found]
        rfl
      have joined := S.Step.joins
        (s := { seen.modify r ({ · with ran := true }) with stack := .chain r 0 :: seen.stack })
        rfl raised rfl
      refine ⟨_, .snoc (.snoc .nil begun) joined, views.registry, views.lessees, ?_, views.stack⟩
      have changed : (seen.modify r (Raise.join ∘ ({ · with ran := true }))).raises =
          ((s.setRaise key r (.lift true)).raises key).map Raised.view :=
        views.modify found rfl
      rw [← changed]
      exact List.modify_modify_eq _ _ _ _

/-! ## What a call of `raise` keeps -/

/-- What `raise` has made stays what it is, and what it has told stays told. -/
inductive Grows : Raised E → Raised E → Prop
  | same (raised : Raised E) : Grows raised raised
  | lift : Grows (.lift false) (.lift true)
  | registry {raise raise' : Raise E} (results : raise.results ⊆ raise'.results)
      (ran : raise.ran = true → raise'.ran = true) : Grows (.registry raise) (.registry raise')

/-- All calls of `raise` in a state are there in another one. -/
def Kept (s s' : State E) : Prop :=
  ∀ (key : Key) (r : Nat) (raised : Raised E), (s.raises key)[r]? = some raised →
    ∃ raised' : Raised E, (s'.raises key)[r]? = some raised' ∧ Grows raised raised'

theorem Kept.of_raises {s s' : State E} (same : s'.raises = s.raises) : Kept s s' := by
  intro key r raised found
  rw [same]
  exact ⟨raised, found, .same raised⟩

theorem Kept.add {s s' : State E} {key : Key} {raised : Raised E}
    (same : s'.raises = (s.addRaise key raised).raises) : Kept s s' := by
  intro key' r raised' found
  refine ⟨raised', ?_, .same raised'⟩
  rw [same]
  unfold State.addRaise
  dsimp only
  by_cases here : key' = key
  · subst here
    rw [Function.update_self]
    exact (List.getElem?_append_left (List.getElem?_eq_some_iff.mp found).1).trans found
  · rw [Function.update_of_ne here]
    exact found

theorem Kept.set {s s' : State E} {key : Key} {r : Nat} {raised raised' : Raised E}
    (found : (s.raises key)[r]? = some raised)
    (same : s'.raises = (s.setRaise key r raised').raises)
    (grows : Grows raised raised') : Kept s s' := by
  intro key' r' old found'
  rw [same]
  unfold State.setRaise
  dsimp only
  by_cases here : key' = key
  · subst here
    rw [Function.update_self, List.getElem?_set]
    by_cases self : r = r'
    · subst self
      rw [found] at found'
      cases found'
      exact ⟨raised', by rw [if_pos rfl, if_pos (List.getElem?_eq_some_iff.mp found).1], grows⟩
    · rw [if_neg self]
      exact ⟨old, found', .same old⟩
  · rw [Function.update_of_ne here]
    exact ⟨old, found', .same old⟩

theorem grows_complete (raise : Raise E) (i : Nat) (result : Option E) :
    Grows (.registry raise) (.registry (raise.complete i result)) := by
  unfold Raise.complete
  split
  · exact .registry (List.subset_append_left _ _) id
  · exact .same _

theorem kept_step {s s' : State E} {label : Label E} (step : Step s label s') : Kept s s' := by
  cases step with
  | makesBus control => exact .of_raises rfl
  | destroysBus control bus => exact .of_raises rfl
  | freesRegistry bus left => exact .of_raises rfl
  | makes control => exact .of_raises rfl
  | subscribes control bus lessee => exact .of_raises rfl
  | destroys control lessee => exact .of_raises (clear_frame _ s).2.1
  | lifts control bus absent => exact .add rfl
  | passes control found => exact .set found rfl .lift
  | raises control bus found => exact .add rfl
  | removes control found cleared => exact .of_raises rfl
  | calls control found live raised => exact .set raised rfl (.registry (List.Subset.refl _) id)
  | returns control found raised => exact .set raised rfl (.registry (List.Subset.refl _) id)
  | throws control e => exact .of_raises rfl
  | ends control raised => exact .set raised rfl (.registry (List.Subset.refl _) id)
  | runs control raised returned ran =>
      exact .set raised rfl (.registry (List.Subset.refl _) fun _ => rfl)
  | starts control raised next => exact .set raised rfl (.registry (List.Subset.refl _) id)
  | leaves control => exact .of_raises rfl
  | crashes control raised e => exact .set raised rfl (grows_complete _ _ _)
  | joins control raised none =>
      exact .set raised rfl (.registry (List.subset_append_left _ _) id)
  | completes control raised started result => exact .set raised rfl (grows_complete _ _ _)

/-! ## Runs -/

theorem views_step {s s' : State E} {label : Label E} {key : Key} {seen : S.State E}
    (views : Views s key seen) (nested : s.Nested) (step : Step s label s') :
    ∃ seen', Run S.Step seen (label.view key) seen' ∧ Views s' key seen' := by
  have alone {labels : S.Label E} {seen' : S.State E} (step : S.Step seen labels seen') :
      Run S.Step seen [labels] seen' := .snoc .nil step
  cases label with
  | makesBus b =>
      cases step with
      | makesBus control =>
          refine ⟨seen, .nil, views.still ?_ rfl rfl rfl rfl⟩
          intro gone
          exact (List.getElem?_append_left (List.getElem?_eq_some_iff.mp gone).1).trans gone
  | destroysBus b =>
      cases step with
      | destroysBus control bus =>
          refine ⟨seen, .nil, views.still ?_ rfl rfl rfl rfl⟩
          intro gone
          dsimp only
          rw [List.getElem?_set]
          split
          · rw [if_pos (List.getElem?_eq_some_iff.mp bus).1]
          · exact gone
  | freesRegistry key' =>
      cases step with
      | freesRegistry bus left =>
          refine ⟨seen, .nil, ?_⟩
          by_cases here : key' = key
          · subst here
            have gone := Function.update_self key' none s.registry
            exact ⟨.inl ⟨bus, gone⟩, views.lessees, views.raises, views.stack⟩
          · have kept := Function.update_of_ne (β := fun _ => Option Registry) (Ne.symm here) none
              s.registry
            exact views.still id kept rfl rfl rfl
  | makes k =>
      cases step with
      | makes control =>
          have done := S.Step.makes (views.free nested control)
          have count : seen.lessees.length = s.lessees.length := by
            rw [views.lessees, List.length_map]
          rw [count] at done
          refine ⟨_, alone done, views.registry, ?_, views.raises, views.stack⟩
          rw [views.lessees, List.map_append]
          rfl
  | subscribes k key' l =>
      dsimp only [Label.view]
      by_cases here : key' = key
      · subst here
        obtain ⟨seen', done, views'⟩ := views_subscribes views nested step
        rw [if_pos rfl]
        exact ⟨seen', alone done, views'⟩
      · rw [if_neg here]
        exact ⟨seen, .nil, views_subscribed views here step⟩
  | destroys k =>
      obtain ⟨seen', done, views'⟩ := views_destroys views nested step
      exact ⟨seen', alone done, views'⟩
  | lifts key' r =>
      dsimp only [Label.view]
      by_cases here : key' = key
      · subst here
        rw [if_pos rfl]
        exact views_lifts views nested step
      · rw [if_neg here]
        cases step with
        | lifts control bus absent =>
            have raises := Function.update_of_ne (β := fun _ => List (Raised E)) (Ne.symm here)
              (s.raises key' ++ [.lift false]) s.raises
            exact ⟨seen, .nil, views.still id rfl rfl raises rfl⟩
  | passes key' r =>
      dsimp only [Label.view]
      by_cases here : key' = key
      · subst here
        rw [if_pos rfl]
        exact views_passes views nested step
      · rw [if_neg here]
        cases step with
        | passes control found =>
            have raises := Function.update_of_ne (β := fun _ => List (Raised E)) (Ne.symm here)
              ((s.raises key').set r (.lift true)) s.raises
            exact ⟨seen, .nil, views.still id rfl rfl raises rfl⟩
  | at_ key' label =>
      dsimp only [Label.view]
      by_cases here : key' = key
      · subst here
        obtain ⟨seen', done, views'⟩ := views_own views nested step
        rw [if_pos rfl]
        exact ⟨seen', alone done, views'⟩
      · rw [if_neg here]
        exact ⟨seen, .nil, views_other views here step⟩

theorem views_initial (key : Key) : Views (initial : State E) key S.initial :=
  ⟨.inr rfl, rfl, rfl, rfl⟩

/-- In every run, each type of each bus has a run of its own. -/
theorem views_run (key : Key) {trace : List (Label E)} {s : State E}
    (run : Run Step initial trace s) :
    s.Nested ∧ ∃ seen, Run S.Step S.initial (trace.flatMap (Label.view key)) seen ∧
      Views s key seen := by
  refine Run.invariant (I := fun trace s => s.Nested ∧ ∃ seen,
    Run S.Step S.initial (trace.flatMap (Label.view key)) seen ∧ Views s key seen) ?_ ?_ run
  · exact ⟨fun frame member => absurd member List.not_mem_nil, S.initial, .nil, views_initial key⟩
  · rintro trace s label s' ⟨nested, seen, before, views⟩ step
    obtain ⟨seen', after, views'⟩ := views_step views nested step
    refine ⟨nested_step nested step, seen', ?_, views'⟩
    rw [List.flatMap_append, List.flatMap_singleton]
    exact before.append after

/-- What happens for a type is what happens without the others, but that a lessee
is the same for all of them. -/
structure Apart (key : Key) (trace : List (Label E)) (s : State E) : Prop where
  seen : ∃ seen, Run S.Step S.initial (trace.flatMap (Label.view key)) seen ∧ Views s key seen
  silent : ∀ pre post k l, trace = pre ++ .destroys k :: post → .subscribes k key l ∈ pre →
    ∀ r, .at_ key (.calls r l) ∉ post

theorem each_type {trace : List (Label E)} {s : State E} (run : Run Step initial trace s)
    (key : Key) : Apart key trace s := by
  obtain ⟨-, seen, own, views⟩ := views_run key run
  refine ⟨⟨seen, own, views⟩, ?_⟩
  rintro pre post k l rfl subscribed r member
  rw [List.flatMap_append, List.flatMap_cons] at own
  have before : S.Label.subscribes k l ∈ pre.flatMap (Label.view key) :=
    List.mem_flatMap.mpr ⟨_, subscribed, by simp [Label.view]⟩
  have after : S.Label.calls r l ∈ post.flatMap (Label.view key) :=
    List.mem_flatMap.mpr ⟨_, member, by simp [Label.view]⟩
  obtain ⟨s₁, first, rest⟩ := own.split
  obtain ⟨s₂, destroyed, rest⟩ := rest.uncons
  exact (((held_of_run first).destroyed destroyed before).run rest).2 r after

/-- A lessee has a function for each of two types.  One of them raises the type
of the other, which destroys the lessee. -/
theorem each_type_nested : ∃ (trace : List (Label Unit)) (s : State Unit),
    trace.flatMap (Label.view ⟨0, 1⟩) =
      [.makes 0, .subscribes 0 0, .raises 0 1, .calls 0 0, .destroys 0, .returns 0 0, .ends 0] ∧
    s.stack = [(⟨0, 0⟩, .function 0 none 0)] ∧ Apart ⟨0, 1⟩ trace s := by
  have run : Run Step (initial : State Unit) _ _ := .nil
  have run := run.snoc (.makesBus rfl)
  have run := run.snoc (.makes rfl)
  have run := run.snoc (l := .subscribes 0 ⟨0, 0⟩ 0) (.subscribes rfl rfl rfl)
  have run := run.snoc (l := .subscribes 0 ⟨0, 1⟩ 0) (.subscribes rfl rfl rfl)
  have run := run.snoc (l := .at_ ⟨0, 0⟩ (.raises _ _)) (.raises rfl rfl rfl)
  have run := run.snoc (.calls rfl rfl rfl rfl)
  have run := run.snoc (l := .at_ ⟨0, 1⟩ (.raises _ _)) (.raises rfl rfl rfl)
  have run := run.snoc (.calls rfl rfl rfl rfl)
  have run := run.snoc (l := .destroys 0) (.destroys rfl rfl)
  have run := run.snoc (l := .lifts ⟨0, 2⟩ 0) (.lifts rfl rfl rfl)
  have run := run.snoc (.returns rfl rfl rfl)
  have run := run.snoc (.ends rfl rfl)
  exact ⟨_, _, rfl, rfl, each_type run ⟨0, 1⟩⟩

end SidepoolFormal.S.Buses
