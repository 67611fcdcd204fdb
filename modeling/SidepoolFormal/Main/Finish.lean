import Mathlib.Data.Prod.Basic
import Mathlib.Data.Set.Insert
import SidepoolFormal.Main.Init

/-!
# What `libsidepool_init_finish` does with the objects

On every way through it, an object is in one variable until its `free` is called,
and the variables of a function that is left are empty.  There is one way on
which it returns an instance; then the keykeeper, which the instance has no member
for, is freed with the initializer.
-/

namespace SidepoolFormal.Main.Init

open Library Effect

variable {env : Surroundings} {slots : Slot → Option Object}

/-! ## Every way through -/

/-- The variables of these places, and whatever is not a variable. -/
def variablesOf (places : Set Place) : Set Cell := {c | c.2 ∈ c.1.variables → c.1 ∈ places}

/-- No object is lost or duplicated, and the variables of these places are not
filled. -/
def Keeps (places : Set Place) (w w' : World) : Prop :=
  Holdings.Passes Object.free (variablesOf places) w.toHoldings w'.toHoldings

variable {places places' : Set Place}

instance : IsPreorder World (Keeps places) where
  refl w := refl w.toHoldings
  trans w w' w'' first second :=
    IsTrans.trans w.toHoldings w'.toHoldings w''.toHoldings first second

theorem Keeps.mono {w w' : World} (keeps : Keeps places' w w') (inside : places ⊆ places') :
    Keeps places w w' :=
  Holdings.Passes.mono keeps fun _ member declared => inside (member declared)

theorem Keeps.destroy {w w' : World} (keeps : Keeps places w w') (place : Place) :
    Keeps (insert place places) w (w'.destroy place) := by
  refine (Holdings.Passes.disposeAll keeps _).mono ?_
  rintro ⟨p, slot⟩ inside
  by_cases declared : slot ∈ p.variables
  · rcases inside declared with rfl | kept
    · exact .inr (List.mem_map.mpr ⟨slot, List.mem_reverse.mpr declared, rfl⟩)
    · exact .inl fun _ => kept
  · exact .inl fun here => absurd here declared

theorem destroy_keeps (place : Place) (w : World) : Keeps places w (w.destroy place) :=
  ((refl w : Keeps places w w).destroy place).mono (Set.subset_insert place places)

theorem move_keeps {slot : Slot} {source target : Place} (declared : slot ∈ target.variables)
    (outside : target ∉ places) (w : World) : Keeps places w (w.move slot source target) :=
  have outside : (target, slot) ∉ variablesOf places := fun member => outside (member declared)
  Holdings.move_passes outside w.toHoldings

theorem scope_moves {α : Type} {x : Code α} (moves : Moves (Keeps places) x) (place : Place) :
    Moves (Keeps (insert place places)) (scope (World.destroy place) x) :=
  moves.scope fun _ _ keeps => keeps.destroy place

theorem fallible_moves (point : Point) : Moves (Keeps places) (fallible env point) := by
  unfold fallible
  split
  · exact Moves.pure ()
  · exact Moves.throw _

theorem setErrno_moves (errno : Errno) :
    Moves (Keeps places) (modify (World.setErrno errno) : Code Unit) :=
  fun w => refl w.toHoldings

theorem setLogger_moves (hasLogger : Bool) :
    Moves (Keeps places) (modify (World.setLogger hasLogger) : Code Unit) :=
  fun w => refl w.toHoldings

theorem log_moves (level : Level) (message : String) :
    Moves (Keeps places) (log env level message) :=
  (fallible_moves _).bind fun _ w => refl w.toHoldings

theorem move_moves {slot : Slot} {source target : Place} (declared : slot ∈ target.variables)
    (outside : target ∉ places) :
    Moves (Keeps places) (modify (World.move slot source target) : Code Unit) :=
  Moves.modify (move_keeps declared outside)

theorem create_moves {slot : Slot} {target : Place} (declared : slot ∈ target.variables)
    (outside : target ∉ places) : Moves (Keeps places) (create env slot target) :=
  (fallible_moves _).bind fun _ => move_moves declared outside

theorem createLogger_moves (outside : .function ∉ places) :
    Moves (Keeps places) (createLogger env) := by
  refine Moves.get.bind ?_
  intro w
  cases w.held (.init, .logger) with
  | none =>
      exact (fallible_moves _).bind fun _ => (setLogger_moves _).bind fun _ => log_moves _ _
  | some _ =>
      exact (create_moves (by decide) outside).bind fun _ =>
        (setLogger_moves _).bind fun _ => log_moves _ _

/-- By its header, `Randomizer::create` moves the object or throws. -/
theorem createRandomizer_apply {rand : Object} {w : World}
    (held : w.held (.init, .rand) = some rand) :
    createRandomizer env rand w = match (env.createRandomizer rand).1 with
      | .ok _ => (.ok (), w.move .rand .init .tryBlock)
      | .error e => (.error e, w) := by
  unfold createRandomizer
  rcases result : env.createRandomizer rand with ⟨e | core, left⟩
  · obtain rfl := env.leaves result
    simp only [bind_apply, modify_apply, throw_apply, World.own, Holdings.write_held held]
  · obtain ⟨rfl, rfl⟩ := env.takes result
    simp only [bind_apply, modify_apply, World.own, World.move, ← held]
    rw [Holdings.put_write (by decide)]

theorem createRandomizer_keeps (outside : .tryBlock ∉ places) {rand : Object} {w : World}
    (held : w.held (.init, .rand) = some rand) :
    Keeps places w (createRandomizer env rand w).2 := by
  rw [createRandomizer_apply held]
  split
  · exact move_keeps (by decide) outside w
  · exact refl w

theorem required_apply (slot : Slot) (message : String) (rest : Object → Code Bool) (w : World) :
    required env slot message rest w = match w.held (.init, slot) with
      | none => (do
        log env .error message
        modify (World.setErrno .EINVAL)
        pure false : Code Bool) w
      | some object => rest object w := by
  unfold required
  rw [bind_apply, get_apply]
  cases held : w.held (.init, slot) with
  | none => simp only [held]
  | some object => simp only [held]

theorem required_moves {slot : Slot} {message : String} {rest : Object → Code Bool}
    (keeps : ∀ object w, w.held (.init, slot) = some object →
      Keeps places w (rest object w).2) :
    Moves (Keeps places) (required env slot message rest) := by
  intro w
  rw [required_apply]
  cases held : w.held (.init, slot) with
  | none =>
      exact ((log_moves _ _).bind fun _ => (setErrno_moves _).bind fun _ => Moves.pure _) w
  | some object => exact keeps object w held

theorem util_moves (outside : .rv ∉ places) : Moves (Keeps places) (util env) :=
  (move_moves (by decide) outside).bind fun _ => (fallible_moves _).bind fun _ =>
    (fallible_moves _).bind fun _ => move_moves (by decide) outside

theorem impl_moves (outside : .rv ∉ places) : Moves (Keeps places) (impl env) :=
  (fallible_moves _).bind fun _ => (util_moves outside).bind fun _ =>
    (move_moves (by decide) outside).bind fun _ => (fallible_moves _).bind fun _ =>
      (move_moves (by decide) outside).bind fun _ => fallible_moves _

theorem libsidepool_moves :
    Moves (Keeps {.params, .init, .main}) (libsidepool env) := by
  have give (slot : Slot) (declared : slot ∈ Place.params.variables) (source : Place) :
      Moves (Keeps {.init, .main})
        (modify (World.move slot source .params) : Code Unit) :=
    move_moves declared (by simp)
  refine (fallible_moves _).bind fun _ => scope_moves ?_ .params
  refine Moves.onThrow ?_ (destroy_keeps .rv)
  exact (give .logger (by decide) _).bind fun _ => (setLogger_moves _).bind fun _ =>
    (give .rand (by decide) _).bind fun _ => (give .saver (by decide) _).bind fun _ =>
      (give .math (by decide) _).bind fun _ => (fallible_moves _).bind fun _ =>
        impl_moves (by simp)

theorem tryBlock_moves :
    Moves (Keeps {.tryBlock, .params, .init, .main}) (tryBlock env) := by
  have made (slot : Slot) (declared : slot ∈ Place.tryBlock.variables) :
      Moves (Keeps {.params, .init, .main}) (create env slot .tryBlock) :=
    create_moves declared (by simp)
  refine scope_moves ?_ .tryBlock
  refine (fallible_moves _).bind fun _ => (createLogger_moves (by simp)).bind fun _ => ?_
  refine required_moves ?_
  intro rand w held
  have first : Keeps {.params, .init, .main} w (createRandomizer env rand w).2 :=
    createRandomizer_keeps (by simp) held
  rw [bind_apply]
  rcases result : createRandomizer env rand w with ⟨e | _, w'⟩
  · rwa [result] at first
  · rw [result] at first
    refine IsTrans.trans _ _ _ first ?_
    refine Moves.bind (log_moves _ _) (fun _ => ?_) w'
    refine required_moves fun _ w _ => Moves.bind (made .saver (by decide)) (fun _ => ?_) w
    refine (log_moves _ _).bind fun _ => ?_
    refine required_moves fun _ w _ => Moves.bind (made .math (by decide)) (fun _ => ?_) w
    exact (log_moves _ _).bind fun _ => libsidepool_moves.bind fun _ => Moves.pure true

theorem report_moves (message : String) (errno : Errno) :
    Moves (Keeps places) (report env message errno) := by
  have rest : Moves (Keeps places) (do modify (World.setErrno errno); pure false : Code Bool) :=
    (setErrno_moves _).bind fun _ => Moves.pure false
  refine Moves.get.bind fun w => ?_
  cases w.hasLogger with
  | true => exact (log_moves _ _).bind fun _ => rest
  | false => exact rest

theorem handlers_moves (e : Exn) : Moves (Keeps places) (handlers env e) := by
  cases e with
  | badAlloc => exact report_moves _ _
  | exception what => exact report_moves _ _
  | unknown => exact report_moves _ _

theorem build_moves :
    Moves (Keeps {.tryBlock, .params, .init, .main}) (build env) := by
  refine (setErrno_moves _).bind fun _ => ?_
  refine (tryBlock_moves.tryCatch handlers_moves).bind fun rv => ?_
  cases rv with
  | true => exact (fallible_moves _).bind fun _ => Moves.pure true
  | false => exact Moves.pure false

/-- Without an instance, nothing owns anything that it did not own before. -/
theorem initFinish_fails {w : World} (fails : returned (initFinish env w).1 = false) :
    Keeps Set.univ w (initFinish env w).2 := by
  have every : Set.univ ⊆ ({.init, .function, .rv, .tryBlock, .params, .init, .main} :
      Set Place) := by
    intro place _
    cases place <;> simp
  have built : Keeps _ w (build env w).2 := build_moves w
  unfold initFinish at fails ⊢
  simp only [scope_apply, bind_apply] at fails ⊢
  rcases result : build env w with ⟨e | rv, w'⟩
  · rw [result] at built
    exact (((built.destroy .rv).destroy .function).destroy .init).mono every
  · rw [result] at built
    cases rv with
    | true =>
        rw [result] at fails
        cases fails
    | false => exact (((built.destroy .rv).destroy .function).destroy .init).mono every

/-! ## The way to an instance -/

/-- What can throw on it, with these interfaces set. -/
def points (slots : Slot → Option Object) : List Point :=
  .idler :: (match slots .logger with
    | none => [.defaultLogger, .log "Logging will write to stderr."]
    | some _ => [.wrapper .logger, .log "Got logger."]) ++
  [.log "Got randomizer.", .wrapper .saver, .log "Got saver.", .wrapper .math,
    .log "Got math library,", .libsidepool, .impl, .util, .bus, .rng, .sharedMath, .mods, .start]

/-- The required interfaces are set, and nothing throws. -/
@[mk_iff]
structure Surroundings.Succeeds (env : Surroundings) (slots : Slot → Option Object) : Prop where
  quiet : ∀ point ∈ points slots, env.throws point = none
  rand : ∃ rand, slots .rand = some rand ∧ ∃ core, (env.createRandomizer rand).1 = .ok core
  saver : ∃ saver, slots .saver = some saver
  math : ∃ math, slots .math = some math

namespace World

/-- The logger that there is, with a message about it. -/
def acquireLogger (w : World) : World :=
  match w.held (.init, .logger) with
  | none => (w.setLogger true).say .debug "Logging will write to stderr."
  | some _ => ((w.move .logger .init .function).setLogger true).say .debug "Got logger."

/-- The wrappers move the objects out of the initializer. -/
def acquire (w : World) : World :=
  let w := (w.acquireLogger.move .rand .init .tryBlock).say .debug "Got randomizer."
  let w := (w.move .saver .init .tryBlock).say .debug "Got saver."
  (w.move .math .init .tryBlock).say .debug "Got math library,"

/-- The constructors move the objects by way of their parameters. -/
def construct (w : World) : World :=
  let w := (w.move .logger .function .params).setLogger false
  let w := [Slot.rand, .saver, .math].foldl (fun w slot => w.move slot .tryBlock .params) w
  let w := [Slot.logger, .rand, .saver, .math].foldl (fun w slot => w.move slot .params .rv) w
  w.destroy .params

def finish (w : World) : World :=
  let w := (w.setErrno .zero).acquire.construct.destroy .tryBlock
  (((release w).destroy .rv).destroy .function).destroy .init

end World

variable {w w' : World}

theorem returns_fallible {point : Point} {a : Unit} :
    Returns (fallible env point) w a w' ↔ env.throws point = none ∧ w' = w := by
  unfold fallible
  cases throws : env.throws point with
  | none => simp [returns_pure]
  | some e => simp [returns_throw]

theorem returns_log {level : Level} {message : String} {a : Unit} :
    Returns (log env level message) w a w' ↔
      env.throws (.log message) = none ∧ w' = w.say level message := by
  unfold log
  simp [returns_bind, returns_fallible, returns_modify]

theorem returns_create {slot : Slot} {target : Place} {a : Unit} :
    Returns (create env slot target) w a w' ↔
      env.throws (.wrapper slot) = none ∧ w' = w.move slot .init target := by
  unfold create
  simp [returns_bind, returns_fallible, returns_modify]

theorem returns_createLogger {a : Unit} :
    Returns (createLogger env) w a w' ↔
      (match w.held (.init, .logger) with
        | none => env.throws .defaultLogger = none ∧
            env.throws (.log "Logging will write to stderr.") = none
        | some _ => env.throws (.wrapper .logger) = none ∧
            env.throws (.log "Got logger.") = none) ∧ w' = w.acquireLogger := by
  unfold createLogger World.acquireLogger
  simp only [returns_bind, returns_get]
  cases held : w.held (.init, .logger) with
  | none => simp [returns_bind, held, returns_fallible, returns_log, returns_modify, and_assoc]
  | some object => simp [returns_bind, held, returns_create, returns_log, returns_modify, and_assoc]

theorem returns_createRandomizer {rand : Object} (held : w.held (.init, .rand) = some rand)
    {a : Unit} :
    Returns (createRandomizer env rand) w a w' ↔
      (∃ core, (env.createRandomizer rand).1 = .ok core) ∧ w' = w.move .rand .init .tryBlock := by
  unfold Returns
  rw [createRandomizer_apply held]
  cases (env.createRandomizer rand).1 with
  | ok core => simp
  | error e => simp

/-- Code that does not return true. -/
def Refuses (x : Code Bool) : Prop := ∀ w w', ¬Returns x w true w'

theorem refuses_false : Refuses (pure false) := by
  intro w w' returns
  cases (returns_pure.mp returns).1

theorem refuses_bind {α : Type} {x : Code α} {f : α → Code Bool} (rest : ∀ a, Refuses (f a)) :
    Refuses (x >>= f) := by
  intro w w' returns
  obtain ⟨a, between, -, after⟩ := returns_bind.mp returns
  exact rest a between w' after

theorem returns_required {slot : Slot} {message : String} {rest : Object → Code Bool} :
    Returns (required env slot message rest) w true w' ↔
      ∃ object, w.held (.init, slot) = some object ∧ Returns (rest object) w true w' := by
  have absent : Refuses (do log env .error message; modify (World.setErrno .EINVAL); pure false) :=
    refuses_bind fun _ => refuses_bind fun _ => refuses_false
  unfold Returns
  rw [required_apply]
  cases w.held (.init, slot) with
  | none => simpa using fun returned same => absent w w' ⟨returned, same⟩
  | some object => simp

theorem returns_required_rand {message : String} {rest : Code Bool} :
    Returns (required env .rand message fun rand => do createRandomizer env rand; rest) w true w' ↔
      (∃ rand, w.held (.init, .rand) = some rand ∧
        ∃ core, (env.createRandomizer rand).1 = .ok core) ∧
          Returns rest (w.move .rand .init .tryBlock) true w' := by
  rw [returns_required]
  constructor
  · rintro ⟨rand, held, returns⟩
    obtain ⟨_, _, made, rest⟩ := returns_bind.mp returns
    obtain ⟨created, rfl⟩ := (returns_createRandomizer held).mp made
    exact ⟨⟨rand, held, created⟩, rest⟩
  · rintro ⟨⟨rand, held, created⟩, rest⟩
    have made : Returns (createRandomizer env rand) w () (w.move .rand .init .tryBlock) :=
      (returns_createRandomizer held).mpr ⟨created, rfl⟩
    exact ⟨rand, held, returns_bind.mpr ⟨(), _, made, rest⟩⟩

theorem returns_libsidepool {a : Unit} :
    Returns (libsidepool env) w a w' ↔
      (∀ point ∈ [Point.libsidepool, .impl, .util, .bus, .rng, .sharedMath, .mods],
        env.throws point = none) ∧ w' = w.construct := by
  unfold libsidepool impl util World.construct
  simp only [returns_bind, returns_fallible, returns_modify, returns_scope, returns_onThrow]
  simp [and_assoc]

theorem held_move {slot : Slot} {source target : Place} (c : Cell) :
    (w.move slot source target).held c =
      if c = (source, slot) then none
      else if c = (target, slot) then w.held (source, slot) else w.held c :=
  Holdings.held_move w.toHoldings _ _ c

@[simp]
theorem held_say {level : Level} {message : String} :
    (w.say level message).held = w.held := rfl

theorem held_acquireLogger {slot : Slot} (other : slot ≠ .logger) :
    w.acquireLogger.held (.init, slot) = w.held (.init, slot) := by
  unfold World.acquireLogger
  split
  · rfl
  · exact (held_move _).trans (by simp [other])

theorem returns_tryBlock :
    env.throws .start = none ∧ Returns (tryBlock env) w true w' ↔
      env.Succeeds (w.slots .init) ∧ w' = w.acquire.construct.destroy .tryBlock := by
  unfold tryBlock
  simp only [returns_scope, returns_bind, returns_fallible, returns_createLogger,
    returns_required_rand]
  simp only [returns_required, returns_bind, returns_log, returns_create, returns_libsidepool,
    returns_pure]
  rw [Surroundings.succeeds_iff]
  unfold points World.slots
  cases held : w.held (.init, .logger) with
  | none =>
      simp [held, held_move, held_acquireLogger, World.acquire]
      tauto
  | some object =>
      simp [held, held_move, held_acquireLogger, World.acquire]
      tauto

theorem report_refuses (message : String) (errno : Errno) : Refuses (report env message errno) := by
  have rest : Refuses (do modify (World.setErrno errno); pure false) :=
    refuses_bind fun _ => refuses_false
  refine refuses_bind fun w => ?_
  cases w.hasLogger with
  | true => exact refuses_bind fun _ => rest
  | false => exact rest

theorem handlers_refuse (e : Exn) : Refuses (handlers env e) := by
  cases e with
  | badAlloc => exact report_refuses _ _
  | exception what => exact report_refuses _ _
  | unknown => exact report_refuses _ _

theorem returns_build : Returns (build env) w true w' ↔
    env.throws .start = none ∧ Returns (tryBlock env) (w.setErrno .zero) true w' := by
  have caught {w w' : World} : Returns (tryCatch (tryBlock env) (handlers env)) w true w' ↔
      Returns (tryBlock env) w true w' := returns_tryCatch handlers_refuse
  unfold build
  rw [returns_bind]
  constructor
  · rintro ⟨_, _, reset, returns⟩
    cases returns_modify.mp reset
    obtain ⟨rv, w₁, tried, started⟩ := returns_bind.mp returns
    cases rv with
    | true =>
        obtain ⟨_, w₂, started, done⟩ := returns_bind.mp started
        obtain ⟨quiet, rfl⟩ := returns_fallible.mp started
        obtain ⟨-, rfl⟩ := returns_pure.mp done
        exact ⟨quiet, caught.mp tried⟩
    | false => cases (returns_pure.mp started).1
  · rintro ⟨quiet, tried⟩
    refine ⟨⟨⟩, _, returns_modify.mpr rfl, returns_bind.mpr ⟨true, w', caught.mpr tried, ?_⟩⟩
    exact returns_bind.mpr ⟨(), w', returns_fallible.mpr ⟨quiet, rfl⟩, returns_pure.mpr ⟨rfl, rfl⟩⟩

/-- An instance is returned if and only if the required interfaces are set and
nothing throws. -/
theorem returns_initFinish : Returns (initFinish env) w true w' ↔
    env.Succeeds (w.slots .init) ∧ w' = w.finish := by
  have built {w₁ : World} : Returns (build env) w true w₁ ↔
      env.Succeeds (w.slots .init) ∧
        w₁ = ((w.setErrno .zero).acquire.construct).destroy .tryBlock :=
    returns_build.trans returns_tryBlock
  unfold initFinish World.finish
  simp only [returns_scope]
  constructor
  · rintro ⟨_, ⟨_, ⟨w₁, returns, rfl⟩, rfl⟩, rfl⟩
    obtain ⟨rv, w₂, began, released⟩ := returns_bind.mp returns
    cases rv with
    | true =>
        obtain ⟨_, w₃, released, done⟩ := returns_bind.mp released
        cases returns_modify.mp released
        obtain ⟨-, rfl⟩ := returns_pure.mp done
        obtain ⟨succeeds, rfl⟩ := built.mp began
        exact ⟨succeeds, rfl⟩
    | false => cases (returns_pure.mp released).1
  · rintro ⟨succeeds, rfl⟩
    refine ⟨_, ⟨_, ⟨_, ?_, rfl⟩, rfl⟩, rfl⟩
    refine returns_bind.mpr ⟨true, _, built.mpr ⟨succeeds, rfl⟩, ?_⟩
    exact returns_bind.mpr ⟨⟨⟩, _, returns_modify.mpr rfl, returns_pure.mpr ⟨rfl, rfl⟩⟩

/-! ## The objects on that way -/

@[simp]
theorem held_only (place : Place) (c : Cell) :
    (World.only place slots).held c = if c.1 = place then slots c.2 else none := rfl

@[simp]
theorem freed_only (place : Place) : (World.only place slots).freed = [] := rfl

@[simp]
theorem held_setErrno {errno : Errno} : (w.setErrno errno).held = w.held := rfl

@[simp]
theorem freed_setErrno {errno : Errno} : (w.setErrno errno).freed = w.freed := rfl

@[simp]
theorem held_setLogger {hasLogger : Bool} : (w.setLogger hasLogger).held = w.held := rfl

@[simp]
theorem freed_setLogger {hasLogger : Bool} : (w.setLogger hasLogger).freed = w.freed := rfl

@[simp]
theorem freed_say {level : Level} {message : String} :
    (w.say level message).freed = w.freed := rfl

theorem freed_move {slot : Slot} {source target : Place} :
    (w.move slot source target).freed =
      w.freed ++ ((w.held (target, slot)).filter Object.free).toList :=
  Holdings.freed_move w.toHoldings _ _

theorem held_destroy (place : Place) (c : Cell) :
    (w.destroy place).held c =
      if c.1 = place ∧ c.2 ∈ place.variables then none else w.held c := by
  have inside : c ∈ place.variables.reverse.map (fun slot => (place, slot)) ↔
      c.1 = place ∧ c.2 ∈ place.variables := by
    simp only [List.mem_map, List.mem_reverse]
    constructor
    · rintro ⟨slot, declared, rfl⟩
      exact ⟨rfl, declared⟩
    · rintro ⟨rfl, declared⟩
      exact ⟨c.2, declared, rfl⟩
  refine (Holdings.held_disposeAll _ w.toHoldings c).trans ?_
  by_cases declared : c.1 = place ∧ c.2 ∈ place.variables
  · rw [if_pos (inside.mpr declared), if_pos declared]
  · rw [if_neg (mt inside.mp declared), if_neg declared]

theorem variables_nodup (place : Place) : place.variables.Nodup := by
  cases place <;> decide

theorem freed_destroy (place : Place) :
    (w.destroy place).freed = w.freed ++
      place.variables.reverse.filterMap fun slot => (w.held (place, slot)).filter Object.free := by
  have distinct : (place.variables.reverse.map fun slot => (place, slot)).Nodup :=
    (List.nodup_reverse.mpr (variables_nodup place)).map (Prod.mk_right_injective place)
  refine (Holdings.freed_disposeAll distinct w.toHoldings).trans ?_
  rw [List.filterMap_map]
  rfl

/-- The default logger is nobody's object. -/
theorem acquireLogger_holdings (fresh : w.held (.function, .logger) = none) :
    w.acquireLogger.toHoldings = (w.move .logger .init .function).toHoldings := by
  unfold World.acquireLogger
  split
  next absent => exact (Holdings.move_none absent fresh).symm
  next => rfl

theorem finish_slots :
    (World.only .init slots).finish.slots .main = Function.update slots .keykeeper none := by
  have acquired := acquireLogger_holdings (w := (World.only .init slots).setErrno .zero) rfl
  funext slot
  unfold World.slots World.finish World.acquire World.construct release
  cases slot <;> simp [acquired, held_destroy, held_move, Place.variables]

theorem finish_freed :
    (World.only .init slots).finish.freed = ((slots .keykeeper).filter Object.free).toList := by
  have acquired := acquireLogger_holdings (w := (World.only .init slots).setErrno .zero) rfl
  have last (f : Slot → Option Object) :
      ([Slot.keykeeper].filterMap f).reverse = (f .keykeeper).toList := by
    cases object : f .keykeeper <;> simp [object]
  unfold World.finish World.acquire World.construct release
  simp [acquired, held_destroy, held_move, freed_destroy, freed_move, Place.variables, last]

end SidepoolFormal.Main.Init
