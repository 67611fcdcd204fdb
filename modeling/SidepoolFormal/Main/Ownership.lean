import Mathlib.Data.List.Count
import Mathlib.Data.List.Infix
import SidepoolFormal.Main.Finish

/-!
# When interface objects are freed

Each object that the client gives has its `free` called once.  It happens when the
header says, but for a keykeeper: one that is set when `libsidepool_init_finish`
returns an instance is freed by that call, and the instance does not have it.
-/

namespace SidepoolFormal.Main.Init

open Library Effect

/-! ## What the client may expect -/

def Slot.all : List Slot := [.rand, .logger, .saver, .math, .keykeeper]

/-- The objects in these slots that have a `free`. -/
def contents (slots : Slot → Option Object) : List Object :=
  Slot.all.filterMap fun slot => (slots slot).filter Object.free

namespace Event

/-- The object that the client gives. -/
def given (e : Event) : Option Object :=
  match e.call with
  | .initSet _ pointer => pointer
  | _ => none

def sets (slots : Slot → Option Object) (e : Event) : Slot → Option Object :=
  match e.call with
  | .initSet slot pointer => Function.update slots slot pointer
  | _ => slots

/-- What a call has to free, with these objects set: the one that is replaced, or
all of them. -/
def due (slots : Slot → Option Object) (e : Event) : List Object :=
  match e.call with
  | .initStart _ => []
  | .initSet slot _ => ((slots slot).filter Object.free).toList
  | .initCancel => contents slots
  | .initFinish _ => if e.returned then [] else contents slots
  | .free => contents slots

/-- `libsidepool_init_finish` comes to an instance, with a keykeeper set that has
a `free`. -/
def Early (slots : Slot → Option Object) (e : Event) : Prop :=
  match e.call with
  | .initFinish env =>
      env.Succeeds slots ∧ ∃ object, slots .keykeeper = some object ∧ object.free = true
  | _ => False

end Event

/-- The objects set by these calls. -/
def current (trace : List Event) : Slot → Option Object := trace.foldl Event.sets fun _ => none

def given (trace : List Event) : List Object := trace.filterMap Event.given

def freedBy (trace : List Event) : List Object := trace.flatMap Event.freed

/-- Each object is freed once, and when it has to be. -/
structure Frees (trace : List Event) : Prop where
  once : ∀ object ∈ given trace, object.free = true → (freedBy trace).count object = 1
  timely : ∀ pre e, pre ++ [e] <+: trace → e.freed.Perm (e.due (current pre))

/-! ## What each call does -/

variable {slots : Slot → Option Object}

theorem mem_all (slot : Slot) : slot ∈ Slot.all := by
  cases slot <;> decide

theorem mem_contents {object : Object} :
    object ∈ contents slots ↔ object.free = true ∧ ∃ slot, slots slot = some object := by
  unfold contents
  simp only [List.mem_filterMap, Option.filter_eq_some_iff]
  constructor
  · rintro ⟨slot, -, held, has⟩
    exact ⟨has, slot, held⟩
  · rintro ⟨has, slot, held⟩
    exact ⟨slot, mem_all slot, held, has⟩

theorem contents_nodup (sound : Holdings.Sound Object.free ⟨slots, []⟩) :
    (contents slots).Nodup := by
  refine List.Nodup.filterMap ?_ (by decide)
  intro slot slot' object first second
  obtain ⟨held, has⟩ := Option.filter_eq_some_iff.mp first
  obtain ⟨held', -⟩ := Option.filter_eq_some_iff.mp second
  exact sound.single has held held'

theorem initStart_freed (throws : Option Exn) (w : World) :
    (initStart throws w).2.freed = w.freed ∧ (initStart throws w).2.held = w.held := by
  unfold initStart
  simp only [bind_apply, modify_apply, tryCatch_apply]
  cases throws with
  | none => exact ⟨rfl, rfl⟩
  | some e => cases e <;> exact ⟨rfl, rfl⟩

theorem initSet_freed (slot : Slot) (pointer : Option Object) :
    (initSet slot pointer (World.only .init slots)).freed =
      ((slots slot).filter Object.free).toList := by
  simp [initSet, World.own, World.move, World.only, Holdings.move, Holdings.dispose,
    Holdings.write]

theorem initSet_slots (slot : Slot) (pointer : Option Object) :
    (initSet slot pointer (World.only .init slots)).slots .init =
      Function.update slots slot pointer := by
  funext other
  by_cases same : other = slot
  · simp [World.slots, initSet, World.own, World.move, World.only, Holdings.move,
      Holdings.dispose, Holdings.write, same]
  · simp [World.slots, initSet, World.own, World.move, World.only, Holdings.move,
      Holdings.dispose, Holdings.write, same]

theorem destroy_freed (place : Place) :
    ((World.only place slots).destroy place).freed =
      place.variables.reverse.filterMap fun slot => (slots slot).filter Object.free := by
  rw [freed_destroy, freed_only, List.nil_append]
  refine List.filterMap_congr fun slot _ => ?_
  rw [held_only, if_pos rfl]

theorem only_sound (sound : Holdings.Sound Object.free ⟨slots, []⟩) (place : Place) :
    Holdings.Sound Object.free (World.only place slots).toHoldings where
  single {c d object} has first second := by
    rw [held_only] at first second
    split at first
    next here =>
      split at second
      next here' =>
        exact Prod.ext (here.trans here'.symm) (sound.single has first second)
      next => cases second
    next => cases first
  live := fun _ _ gone => by cases gone
  once := List.nodup_nil

/-- Without an instance, all objects are freed. -/
theorem initFinish_freed {env : Surroundings} (sound : Holdings.Sound Object.free ⟨slots, []⟩)
    (fails : returned (initFinish env (World.only .init slots)).1 = false) :
    (initFinish env (World.only .init slots)).2.freed.Perm (contents slots) := by
  have keeps := initFinish_fails fails
  have empty (c : Cell) : (initFinish env (World.only .init slots)).2.held c = none := by
    by_cases here : c.1 = .init
    · have declared : c.2 ∈ Place.init.variables := mem_all c.2
      rw [initFinish, scope_apply]
      exact (held_destroy .init c).trans (if_pos ⟨here, declared⟩)
    · exact keeps.empty c (fun _ => trivial) (if_neg here)
  refine keeps.freed_perm (only_sound sound .init) rfl empty (contents_nodup sound) ?_
  intro object
  rw [mem_contents]
  refine and_congr_right fun _ => ?_
  constructor
  · rintro ⟨slot, held⟩
    exact ⟨(.init, slot), held⟩
  · rintro ⟨⟨place, slot⟩, held⟩
    rw [held_only] at held
    split at held
    next => exact ⟨slot, held⟩
    next => cases held

/-! ## One step -/

/-- What a step comes to. -/
inductive Deals : State → Event → State → Prop
  | starts {throws : Option Exn} {returned : Bool} {s : State}
      (fresh : s = .initializing (fun _ => none) ∨ s = .done) :
      Deals .absent ⟨.initStart throws, returned, []⟩ s
  | sets {slots : Slot → Option Object} {slot : Slot} {pointer : Option Object} :
      Deals (.initializing slots)
        ⟨.initSet slot pointer, false, ((slots slot).filter Object.free).toList⟩
        (.initializing (Function.update slots slot pointer))
  | cancels {slots : Slot → Option Object} {freed : List Object}
      (all : freed.Perm (contents slots)) :
      Deals (.initializing slots) ⟨.initCancel, false, freed⟩ .done
  | fails {slots : Slot → Option Object} {env : Surroundings} {freed : List Object}
      (unmet : ¬env.Succeeds slots)
      (all : Holdings.Sound Object.free ⟨slots, []⟩ → freed.Perm (contents slots)) :
      Deals (.initializing slots) ⟨.initFinish env, false, freed⟩ .done
  | finishes {slots : Slot → Option Object} {env : Surroundings} (met : env.Succeeds slots) :
      Deals (.initializing slots)
        ⟨.initFinish env, true, ((slots .keykeeper).filter Object.free).toList⟩
        (.running (Function.update slots .keykeeper none))
  | frees {slots : Slot → Option Object} {freed : List Object}
      (all : slots .keykeeper = none → freed.Perm (contents slots)) :
      Deals (.running slots) ⟨.free, false, freed⟩ .done

theorem initFinish_deals (env : Surroundings) {result : Except Exn Bool} {w : World}
    (does : initFinish env (World.only .init slots) = (result, w)) :
    Deals (.initializing slots) ⟨.initFinish env, returned result, w.freed⟩
      (.after result (.running (w.slots .main))) := by
  have success (w' : World) : Returns (initFinish env) (World.only .init slots) true w' ↔
      env.Succeeds slots ∧ w' = (World.only .init slots).finish := returns_initFinish
  have first : (initFinish env (World.only .init slots)).1 = result := by rw [does]
  have second : (initFinish env (World.only .init slots)).2 = w := by rw [does]
  have unmet (fails : result ≠ .ok true) : ¬env.Succeeds slots := by
    intro succeeds
    have returns := (success _).mpr ⟨succeeds, rfl⟩
    exact fails (first.symm.trans returns.1)
  have all (fails : returned result = false) (sound : Holdings.Sound Object.free ⟨slots, []⟩) :
      w.freed.Perm (contents slots) := by
    subst first second
    exact initFinish_freed sound fails
  rcases result with e | rv
  · exact .fails (unmet (by simp)) (all rfl)
  · cases rv with
    | false => exact .fails (unmet (by simp)) (all rfl)
    | true =>
        obtain ⟨succeeds, rfl⟩ := (success w).mp ⟨first, second.symm⟩
        rw [finish_freed, finish_slots]
        exact .finishes succeeds

theorem step_deals {s s' : State} {e : Event} (step : Step s e s') : Deals s e s' := by
  cases step with
  | initStart throws does =>
      obtain ⟨freed, held⟩ := initStart_freed throws (World.only .init fun _ => none)
      rw [does] at freed held
      rw [freed]
      refine .starts ?_
      unfold State.after World.slots
      rw [held]
      split
      · exact .inl (congrArg State.initializing (funext fun _ => rfl))
      · exact .inr rfl
  | initSet slot pointer does =>
      subst does
      rw [initSet_freed, initSet_slots]
      exact .sets
  | initCancel does =>
      subst does
      refine .cancels ?_
      rw [initCancel, destroy_freed]
      exact (List.reverse_perm _).filterMap _
  | initFinish env does => exact initFinish_deals env does
  | @free slots w does =>
      subst does
      refine .frees fun absent => ?_
      have order : Slot.all.Perm (.keykeeper :: Place.main.variables.reverse) := by decide
      rw [free, destroy_freed]
      refine ((order.filterMap fun slot => (slots slot).filter Object.free).trans ?_).symm
      rw [List.filterMap_cons, absent]
      exact List.Perm.refl _

/-! ## Runs -/

theorem current_snoc (trace : List Event) (e : Event) :
    current (trace ++ [e]) = e.sets (current trace) := by
  unfold current
  rw [List.foldl_append]
  rfl

theorem given_snoc (trace : List Event) (e : Event) :
    given (trace ++ [e]) = given trace ++ e.given.toList := by
  unfold given
  rw [List.filterMap_append]
  cases object : e.given <;> simp [object]

theorem freedBy_snoc (trace : List Event) (e : Event) :
    freedBy (trace ++ [e]) = freedBy trace ++ e.freed := by
  unfold freedBy
  rw [List.flatMap_append, List.flatMap_singleton]

/-- The state of a run goes with the objects set in it. -/
inductive Tracks (trace : List Event) : State → Prop
  | absent (nothing : current trace = fun _ => none) : Tracks trace .absent
  | initializing {slots : Slot → Option Object} (set : current trace = slots) :
      Tracks trace (.initializing slots)
  | running {slots : Slot → Option Object} {pre : List Event} {env : Surroundings}
      {freed : List Object} (finished : pre ++ [⟨.initFinish env, true, freed⟩] <+: trace)
      (met : env.Succeeds (current pre)) (since : current pre = current trace)
      (moved : slots = Function.update (current trace) .keykeeper none) :
      Tracks trace (.running slots)
  | done : Tracks trace .done

variable {trace : List Event} {s s' : State} {e : Event}

theorem Tracks.current_eq (tracks : Tracks trace (.initializing slots)) :
    current trace = slots := by
  cases tracks with
  | initializing set => exact set

theorem Deals.tracks (deals : Deals s e s') (tracks : Tracks trace s) :
    Tracks (trace ++ [e]) s' := by
  cases deals with
  | @starts throws returned s' fresh =>
      cases tracks with
      | absent nothing =>
          have same : current (trace ++ [⟨.initStart throws, returned, []⟩]) = fun _ => none :=
            (current_snoc trace _).trans nothing
          rcases fresh with rfl | rfl
          · exact .initializing same
          · exact .done
  | sets =>
      obtain rfl := tracks.current_eq
      exact .initializing (current_snoc trace _)
  | cancels all => exact .done
  | fails unmet all => exact .done
  | @finishes _ env met =>
      obtain rfl := tracks.current_eq
      have same (freed : List Object) :
          current (trace ++ [⟨.initFinish env, true, freed⟩]) = current trace :=
        current_snoc trace _
      exact .running (List.prefix_refl _) met (same _).symm (by rw [same])
  | frees all => exact .done

theorem tracks_of_run (run : Run Step .absent trace s) : Tracks trace s := by
  refine run.invariant (.absent rfl) ?_
  intro trace s e s' tracks step
  exact (step_deals step).tracks tracks

/-- What the library has of the client's objects, and what it has freed. -/
def holdings (trace : List Event) (s : State) : Holdings Slot Object where
  held := match s with
    | .initializing slots => slots
    | .running slots => slots
    | _ => fun _ => none
  freed := freedBy trace

/-- All objects given are accounted for. -/
structure Owned (trace : List Event) (s : State) : Prop where
  sound : (holdings trace s).Sound Object.free
  accounted : ∀ {object}, object.free = true →
    ((holdings trace s).Accounted object ↔ object ∈ given trace)

theorem Owned.of_passes (owned : Owned trace s) (nothing : e.given = none)
    (passes : Holdings.Passes Object.free ∅ (holdings trace s) (holdings (trace ++ [e]) s')) :
    Owned (trace ++ [e]) s' where
  sound := passes.sound owned.sound
  accounted {object} has := by
    rw [passes.accounted has, owned.accounted has, given_snoc, nothing, Option.toList_none,
      List.append_nil]

/-- A step after which the library has nothing left. -/
theorem all_passes (nothing : (holdings (trace ++ [e]) s').held = fun _ => none)
    (all : e.freed.Perm (contents (holdings trace s).held)) :
    Holdings.Passes Object.free ∅ (holdings trace s) (holdings (trace ++ [e]) s') := by
  refine (Holdings.disposeAll_passes Slot.all (holdings trace s)).perm ?_ ?_
  · rw [nothing]
    funext slot
    rw [Holdings.held_disposeAll, if_pos (mem_all slot)]
  · rw [Holdings.freed_disposeAll (by decide)]
    refine (List.Perm.of_eq (freedBy_snoc trace e)).trans ?_
    exact all.append_left (freedBy trace)

theorem fresh_sound (sound : (holdings trace s).Sound Object.free) :
    Holdings.Sound Object.free ⟨(holdings trace s).held, []⟩ where
  single := sound.single
  live := fun _ _ gone => by cases gone
  once := List.nodup_nil

theorem Deals.owned (deals : Deals s e s') (tracks : Tracks trace s) (owned : Owned trace s)
    (distinct : (given (trace ++ [e])).Nodup) : Owned (trace ++ [e]) s' := by
  cases deals with
  | starts fresh =>
      refine owned.of_passes rfl (all_passes ?_ (List.Perm.refl _))
      rcases fresh with rfl | rfl
      · rfl
      · rfl
  | @sets slots slot pointer =>
      have put : holdings (trace ++ [⟨.initSet slot pointer, false,
          ((slots slot).filter Object.free).toList⟩]) (.initializing (Function.update slots slot
            pointer)) = (holdings trace (.initializing slots)).put Object.free slot pointer := by
        unfold holdings Holdings.put Holdings.dispose Holdings.write
        rw [freedBy_snoc, Function.update_idem]
      rw [given_snoc] at distinct
      refine ⟨?_, ?_⟩
      · rw [put]
        refine owned.sound.put fun has same accounted => ?_
        have before := (owned.accounted has).mp accounted
        exact (List.disjoint_of_nodup_append distinct) before (Option.mem_toList.mpr same)
      · intro object has
        rw [put, Holdings.accounted_put has, owned.accounted has, given_snoc, List.mem_append]
        exact or_congr Iff.rfl Option.mem_toList.symm
  | cancels all => exact owned.of_passes rfl (all_passes rfl all)
  | fails unmet all => exact owned.of_passes rfl (all_passes rfl (all (fresh_sound owned.sound)))
  | @finishes slots env met =>
      refine owned.of_passes rfl ?_
      refine (Holdings.dispose_passes .keykeeper (holdings trace (.initializing slots))).perm rfl ?_
      exact List.Perm.of_eq (freedBy_snoc _ _)
  | frees all =>
      cases tracks with
      | running finished met since moved =>
          subst moved
          exact owned.of_passes rfl (all_passes rfl (all (Function.update_self _ _ _)))

theorem owned_of_run (run : Run Step .absent trace s) (distinct : (given trace).Nodup) :
    Owned trace s := by
  induction run with
  | nil =>
      refine ⟨⟨?_, ?_, List.nodup_nil⟩, ?_⟩
      · intro _ _ _ _ held
        cases held
      · intro _ _ _ held
        cases held
      intro object _
      constructor
      · rintro (⟨_, held⟩ | gone)
        · cases held
        · cases gone
      · intro inside
        cases inside
  | snoc run next ih =>
      have before := distinct
      rw [given_snoc] at before
      have owned := ih (List.Nodup.of_append_left before)
      exact (step_deals next).owned (tracks_of_run run) owned distinct

/-- Each object that has been given is freed once before the end. -/
theorem freed_once (run : Run Step .absent trace .done) (distinct : (given trace).Nodup)
    {object : Object} (inside : object ∈ given trace) (has : object.free = true) :
    (freedBy trace).count object = 1 := by
  have owned := owned_of_run run distinct
  refine List.count_eq_one_of_mem owned.sound.once ?_
  rcases (owned.accounted has).mpr inside with ⟨_, held⟩ | gone
  · cases held
  · exact gone

/-- A keykeeper without `free` makes no difference. -/
theorem contents_update (plain : (slots .keykeeper).filter Object.free = none) :
    contents (Function.update slots .keykeeper none) = contents slots := by
  refine List.filterMap_congr fun slot _ => ?_
  by_cases same : slot = .keykeeper
  · subst same
    rw [Function.update_self, plain]
    rfl
  · rw [Function.update_of_ne same]

theorem plain_of_not_early {env : Surroundings} {returned : Bool} {freed : List Object}
    (late : ¬Event.Early slots ⟨.initFinish env, returned, freed⟩) (met : env.Succeeds slots) :
    (slots .keykeeper).filter Object.free = none := by
  refine Option.eq_none_iff_forall_ne_some.mpr fun object same => late ⟨met, object, ?_⟩
  exact Option.filter_eq_some_iff.mp same

theorem Deals.timely (deals : Deals s e s') (tracks : Tracks trace s) (owned : Owned trace s)
    (late : ∀ pre e', pre ++ [e'] <+: trace ++ [e] → ¬e'.Early (current pre)) :
    e.freed.Perm (e.due (current trace)) := by
  cases deals with
  | starts fresh => exact List.Perm.refl _
  | sets =>
      obtain rfl := tracks.current_eq
      exact List.Perm.refl _
  | cancels all =>
      obtain rfl := tracks.current_eq
      exact all
  | fails unmet all =>
      obtain rfl := tracks.current_eq
      exact all (fresh_sound owned.sound)
  | finishes met =>
      obtain rfl := tracks.current_eq
      have plain := plain_of_not_early (late trace _ (List.prefix_refl _)) met
      rw [plain]
      exact List.Perm.refl _
  | @frees _ freed all =>
      cases tracks with
      | running finished met since moved =>
          subst moved
          have before : _ <+: trace ++ [⟨.free, false, freed⟩] :=
            List.IsPrefix.trans finished (List.prefix_append trace _)
          have plain := plain_of_not_early (late _ _ before) met
          rw [since] at plain
          have freed := all (Function.update_self _ _ _)
          rwa [contents_update plain] at freed

/-- An early free is one that the client does not expect. -/
theorem Deals.early (deals : Deals s e s') (tracks : Tracks trace s)
    (early : e.Early (current trace)) : ¬e.freed.Perm (e.due (current trace)) := by
  cases deals with
  | starts fresh => cases early
  | sets => cases early
  | cancels all => cases early
  | fails unmet all =>
      obtain rfl := tracks.current_eq
      exact absurd early.1 unmet
  | finishes met =>
      obtain rfl := tracks.current_eq
      obtain ⟨-, object, held, has⟩ := early
      intro timely
      have gone := timely.eq_nil
      rw [held, Option.filter_some_pos has] at gone
      cases gone
  | frees all => cases early

theorem frees_iff (run : Run Step .absent trace .done) (distinct : (given trace).Nodup) :
    Frees trace ↔ ∀ pre e, pre ++ [e] <+: trace → ¬e.Early (current pre) := by
  have stepped {pre : List Event} {e : Event} (inside : pre ++ [e] <+: trace) :
      ∃ s s', Run Step .absent pre s ∧ Step s e s' := by
    obtain ⟨rest, rfl⟩ := inside
    obtain ⟨s', before, -⟩ := run.split
    obtain ⟨s, first, step⟩ := before.unsnoc
    exact ⟨s, s', first, step⟩
  constructor
  · intro frees pre e inside early
    obtain ⟨s, s', before, step⟩ := stepped inside
    exact (step_deals step).early (tracks_of_run before) early (frees.timely pre e inside)
  · intro late
    refine ⟨fun object inside has => freed_once run distinct inside has, ?_⟩
    intro pre e inside
    obtain ⟨s, s', before, step⟩ := stepped inside
    have part : given pre <+: given trace :=
      (List.IsPrefix.trans (List.prefix_append pre [e]) inside).filterMap Event.given
    have owned := owned_of_run before (distinct.sublist part.sublist)
    refine (step_deals step).timely (tracks_of_run before) owned ?_
    intro earlier e' first
    exact late earlier e' (first.trans inside)

/-- Nothing throws. -/
def calm : Surroundings where
  throws _ := none
  createRandomizer rand := (.ok rand, none)
  takes made := by
    cases made
    exact ⟨rfl, rfl⟩
  leaves thrown := by cases thrown

/-- The client sets the required interfaces and a keykeeper or none, has its
instance and frees it. -/
def session (keykeeper : Option Object) : List Event :=
  [⟨.initStart none, true, []⟩,
    ⟨.initSet .rand (some ⟨0, true⟩), false, []⟩,
    ⟨.initSet .saver (some ⟨1, true⟩), false, []⟩,
    ⟨.initSet .math (some ⟨2, true⟩), false, []⟩,
    ⟨.initSet .keykeeper keykeeper, false, []⟩,
    ⟨.initFinish calm, true, (keykeeper.filter Object.free).toList⟩,
    ⟨.free, false, [⟨2, true⟩, ⟨1, true⟩, ⟨0, true⟩]⟩]

theorem session_run {keykeeper : Option Object} (one : keykeeper ∈ [none, some ⟨3, true⟩]) :
    Run Step .absent (session keykeeper) .done := by
  have started : Run Step .absent _ _ := .snoc .nil (.initStart none rfl)
  have rand := started.snoc (.initSet .rand (some ⟨0, true⟩) rfl)
  have saver := rand.snoc (.initSet .saver (some ⟨1, true⟩) rfl)
  have math := saver.snoc (.initSet .math (some ⟨2, true⟩) rfl)
  have set := math.snoc (.initSet .keykeeper keykeeper rfl)
  rcases List.mem_pair.mp one with rfl | rfl
  · exact (set.snoc (.initFinish calm rfl)).snoc (.free rfl)
  · exact (set.snoc (.initFinish calm rfl)).snoc (.free rfl)

theorem frees_session : Frees (session none) := by
  refine (frees_iff (session_run (by simp)) (by decide)).mpr fun pre e inside early => ?_
  have plain : ∀ pre ∈ (session none).inits, current pre .keykeeper = none := by decide
  have bare := plain pre ((List.mem_inits _ _).mpr ((List.prefix_append pre [e]).trans inside))
  unfold Event.Early at early
  split at early
  next =>
    obtain ⟨-, object, held, -⟩ := early
    rw [bare] at held
    cases held
  next => exact early

/-- The keykeeper is freed when the instance is returned. -/
theorem not_frees_session :
    Run Step .absent (session (some ⟨3, true⟩)) .done ∧
      (given (session (some ⟨3, true⟩))).Nodup ∧ ¬Frees (session (some ⟨3, true⟩)) := by
  refine ⟨session_run (by simp), by decide, fun frees => ?_⟩
  have before : (session (some ⟨3, true⟩)).take 5 ++ [⟨.initFinish calm, true, [⟨3, true⟩]⟩] <+:
      session (some ⟨3, true⟩) := ⟨[⟨.free, false, [⟨2, true⟩, ⟨1, true⟩, ⟨0, true⟩]⟩], rfl⟩
  have gone := (frees.timely _ _ before).eq_nil
  cases gone

end SidepoolFormal.Main.Init
