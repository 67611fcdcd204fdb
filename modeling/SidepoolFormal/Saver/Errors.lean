import SidepoolFormal.Saver.Wrapper

/-!
# Documented errors

What may be answered to a request becomes an exception that the operation is
documented to throw, and the composite operations absorb those that they are not:
a task is confined when this holds of it whatever it is answered.  One answer is
missed, that of a scan which finds no entry.
-/

namespace SidepoolFormal.Saver

open Library

variable {V A : Type} {c : Cerrno}

/-! ## The mapping of error numbers -/

theorem failErrno_ENOENT : failErrno c c.ENOENT = .keyNotFound := if_pos rfl

/-- Each named error number has its own exception. -/
theorem failErrno_named : failErrno c c.EEXIST = .keyExists ∧
    failErrno c c.EPERM = .wrongGeneration ∧ failErrno c c.ENOSPC = .outOfSpace ∧
    failErrno c c.ECANCELED = .freed ∧ failErrno c c.EIO = .ioError := by
  have distinct := c.distinct
  simp only [List.nodup_cons, List.mem_cons, not_or, List.not_mem_nil] at distinct
  simp [failErrno, distinct, Ne.symm]

/-- What may be answered to a request for an entry is one of these exceptions. -/
def errors : Op V A → List Exn
  | .create _ => [.freed, .keyExists, .ioError, .outOfSpace]
  | .read => [.freed, .keyNotFound, .ioError]
  | .update _ _ => [.freed, .keyNotFound, .wrongGeneration, .ioError, .outOfSpace]
  | .del _ => [.freed, .keyNotFound, .wrongGeneration, .ioError, .outOfSpace]
  | .yield => []
  | .func _ => []
  | .again => []

theorem failErrno_mem {op : Op V A} {myErrno : Int} (valid : myErrno ∈ validErrno c op) :
    failErrno c myErrno ∈ errors op := by
  obtain ⟨exists_, perm, nospc, canceled, io⟩ := failErrno_named (c := c)
  have noent := failErrno_ENOENT (c := c)
  cases op with
  | create value =>
      simp only [validErrno, List.mem_cons, List.not_mem_nil, or_false] at valid
      rcases valid with rfl | rfl | rfl | rfl <;> simp [errors, *]
  | read =>
      simp only [validErrno, List.mem_cons, List.not_mem_nil, or_false] at valid
      rcases valid with rfl | rfl | rfl <;> simp [errors, *]
  | update generation value =>
      simp only [validErrno, List.mem_cons, List.not_mem_nil, or_false] at valid
      rcases valid with rfl | rfl | rfl | rfl | rfl <;> simp [errors, *]
  | del generation =>
      simp only [validErrno, List.mem_cons, List.not_mem_nil, or_false] at valid
      rcases valid with rfl | rfl | rfl | rfl | rfl <;> simp [errors, *]
  | yield => cases valid
  | func content => cases valid
  | again => cases valid

/-! ## Confined tasks -/

/-- Whatever the task is answered, it throws one of the given exceptions, or lets
through what the user function raised.  To make the call once more is the last
thing that it does. -/
def Confined (throws : List Exn) : Io V A A → Prop
  | .done r => ∀ e, r = .error e → e ∈ throws
  | .ask (.func _) k => (∀ a, Confined throws (k (.ok a))) ∧ ∀ e, k (.error e) = .done (.error e)
  | .ask .again k => ∀ r, k r = .done r
  | .ask op k => (∀ a, Confined throws (k (.ok a))) ∧
      ∀ e ∈ errors op, Confined throws (k (.error e))

/-- One answer. -/
theorem Confined.answered {throws : List Exn} {op : Op V A} {k : Except Exn op.Ans → Io V A A}
    {a : Except Exn op.Ans} {now : List Reply} (confined : Confined throws (.ask op k))
    (other : op ≠ .again) (answered : Answered c op now a) :
    Confined throws (k a) ∨ ∃ e, .raised e ∈ now ∧ k a = .done (.error e) := by
  cases answered with
  | passes a =>
      left
      cases op with
      | again => exact absurd rfl other
      | _ => exact confined.1 a
  | @fails _ myErrno valid =>
      left
      have mem := failErrno_mem valid
      cases op with
      | func content => cases mem
      | again => cases mem
      | _ => exact confined.2 _ mem
  | raises content e => exact .inr ⟨e, List.mem_cons_self, confined.2 e⟩

/-- A whole call. -/
theorem Confined.delivers {throws : List Exn} {program t : Io V A A} {trace : List Reply}
    {r : Except Exn A} (whole : Confined throws program) (delivers : Delivers c program t trace r)
    (confined : Confined throws t) {e : Exn} (error : r = .error e) :
    e ∈ throws ∨ .raised e ∈ trace := by
  induction delivers with
  | done r => exact .inl (confined e error)
  | @asks op k a now later r other answered rest ih =>
      rcases confined.answered other answered with next | ⟨e', raised, ends⟩
      · exact (ih next error).imp_right (List.mem_append_right now)
      · rw [ends] at rest
        cases rest with
        | done =>
            cases error
            exact .inr (List.mem_append_left _ raised)
  | @again k later r rest ih =>
      refine ih ?_ error
      have tail : k = .done := funext confined
      rwa [tail, Task.continue_done]

/-! ## The operations are confined -/

theorem confined_error {throws : List Exn} {e : Exn} (documented : e ∈ throws) :
    Confined throws (.done (.error e) : Io V A A) := by
  intro e' same
  cases same
  exact documented

theorem confined_lift (throws : List Exn) (a : A) : Confined throws (.lift a : Io V A A) := by
  intro e same
  cases same

theorem confined_again (throws : List Exn) : Confined throws (again : Io V A A) := fun _ => rfl

theorem confined_create (value : V) :
    Confined (Operation.create value).throws (create value : Io V Nat Nat) :=
  ⟨confined_lift _, fun _ => confined_error⟩

theorem confined_read :
    Confined (Operation.read (V := V)).throws (read : Io V (Nat × V) (Nat × V)) :=
  ⟨confined_lift _, fun _ => confined_error⟩

theorem confined_update (generation : Nat) (value : V) :
    Confined (Operation.update generation value).throws (update generation value : Io V Nat Nat) :=
  ⟨confined_lift _, fun _ => confined_error⟩

theorem confined_del (generation : Nat) :
    Confined (Operation.del (V := V) generation).throws (del generation : Io V Unit Unit) :=
  ⟨confined_lift _, fun _ => confined_error⟩

/-- Those exceptions are absorbed that make the call start over. -/
theorem confined_retry {throws : List Exn} (retries : Exn → Bool) {e : Exn}
    (other : retries e = false → e ∈ throws) :
    Confined throws (if retries e then again else .done (.error e) : Io V A A) := by
  cases absorbed : retries e with
  | true => exact confined_again throws
  | false => exact confined_error (other absorbed)

theorem confined_tryRead : Confined (Operation.tryRead (V := V)).throws
    (tryRead : Io V (Option (Nat × V)) (Option (Nat × V))) := by
  refine ⟨fun entry => confined_lift _ (some entry), fun e mem => ?_⟩
  simp only [errors, List.mem_cons, List.not_mem_nil, or_false] at mem
  rcases mem with rfl | rfl | rfl
  · exact confined_error (by simp [Operation.throws])
  · exact confined_lift _ none
  · exact confined_error (by simp [Operation.throws])

theorem confined_rmw : Confined (Operation.rmw (V := V)).throws (rmw : Io V V V) := by
  have writing (g : Nat) (nvalue : V) :
      Confined (Operation.rmw (V := V)).throws (Rmw.writing g nvalue) := by
    rw [Rmw.writing_eq]
    refine ⟨fun _ => confined_lift _ nvalue, fun e mem => confined_retry isWrongGeneration ?_⟩
    revert e
    simp [errors, Operation.throws, isWrongGeneration]
  have asking (entry : Nat × V) : Confined (Operation.rmw (V := V)).throws (Rmw.asking entry) := by
    rw [Rmw.asking_eq]
    exact ⟨writing entry.1, fun _ => rfl⟩
  have reading : Confined (Operation.rmw (V := V)).throws (Rmw.reading : Io V V V) := by
    rw [Rmw.reading_eq]
    refine ⟨asking, fun e mem => confined_error ?_⟩
    revert e
    simp [errors, Operation.throws]
  rw [Rmw.rmw_eq]
  exact ⟨fun _ => reading, fun _ mem => (List.not_mem_nil mem).elim⟩

theorem confined_crud :
    Confined (Operation.crud (V := V)).throws (crud : Io V (Option V) (Option V)) := by
  have checked (e : Exn)
      (mem : e ∈ [.freed, .keyNotFound, .wrongGeneration, .ioError, .outOfSpace]) :
      Confined (Operation.crud (V := V)).throws
        (if isKeyNotFound e || isWrongGeneration e then again
          else .done (.error e) : Io V (Option V) (Option V)) := by
    refine confined_retry (fun e => isKeyNotFound e || isWrongGeneration e) ?_
    revert e
    simp [Operation.throws, isKeyNotFound, isWrongGeneration]
  have writing (seen : Option (Nat × V)) (n : Option V) :
      Confined (Operation.crud (V := V)).throws (Crud.writing seen n) := by
    rcases seen with - | ⟨g, v⟩ <;> rcases n with - | w
    · exact confined_lift _ none
    · rw [Crud.writing_create]
      refine ⟨fun _ => confined_lift _ (some w), fun e mem => confined_retry isKeyExists ?_⟩
      revert e
      simp [errors, Operation.throws, isKeyExists]
    · rw [Crud.writing_del]
      exact ⟨fun _ => confined_lift _ none, checked⟩
    · rw [Crud.writing_update]
      exact ⟨fun _ => confined_lift _ (some w), checked⟩
  have asking (seen : Option (Nat × V)) :
      Confined (Operation.crud (V := V)).throws (Crud.asking seen) := by
    rw [Crud.asking_eq]
    exact ⟨writing seen, fun _ => rfl⟩
  have reading :
      Confined (Operation.crud (V := V)).throws (Crud.reading : Io V (Option V) (Option V)) := by
    rw [Crud.reading_eq]
    refine ⟨fun entry => asking (some entry), fun e mem => ?_⟩
    simp only [errors, List.mem_cons, List.not_mem_nil, or_false] at mem
    rcases mem with rfl | rfl | rfl
    · exact confined_error (by simp [Operation.throws])
    · exact asking none
    · exact confined_error (by simp [Operation.throws])
  rw [Crud.crud_eq]
  exact ⟨fun _ => reading, fun _ mem => (List.not_mem_nil mem).elim⟩

/-- Every operation on an entry throws what it is documented to throw. -/
theorem documented_of_runs {op : Operation V} {trace : List Reply} {r : Except Exn op.Ret}
    (runs : Runs c op trace r) (other : op ≠ .scan) {e : Exn} (error : r = .error e) :
    e ∈ op.throws ∨ .raised e ∈ trace := by
  cases op with
  | scan => exact absurd rfl other
  | create value => exact (confined_create value).delivers runs (confined_create value) error
  | read => exact confined_read.delivers runs confined_read error
  | tryRead => exact confined_tryRead.delivers runs confined_tryRead error
  | update generation value =>
      exact (confined_update generation value).delivers runs (confined_update generation value)
        error
  | del generation => exact (confined_del generation).delivers runs (confined_del generation) error
  | rmw => exact confined_rmw.delivers runs confined_rmw error
  | crud => exact confined_crud.delivers runs confined_crud error

/-! ## Scans -/

theorem ScanWrapper.readLoop_eq (rv : List String) (scan : Scan) :
    readLoop rv scan = rv ++ scan := by
  induction scan generalizing rv with
  | nil => exact (List.append_nil rv).symm
  | cons key2 rest ih => rw [readLoop, ih, List.append_assoc, List.singleton_append]

/-- The two answers that say that a key has no entries. -/
def noEntries (c : Cerrno) (trace : List Reply) : Prop :=
  trace = [.failed c.ENOENT] ∨ trace = [.scanned (some [])]

/-- A scan gives the empty list; of other operations nothing is said. -/
def GivesNothing : (op : Operation V) → Except Exn op.Ret → Prop
  | .scan, r => r = .ok []
  | _, _ => True

/-- What the documentation says of a run: its exceptions, and the scan of a key
without entries. -/
structure Conforms (c : Cerrno) (op : Operation V) (trace : List Reply) (r : Except Exn op.Ret) :
    Prop where
  throws : ∀ e, r = .error e → e ∈ op.throws ∨ .raised e ∈ trace
  empty : noEntries c trace → GivesNothing op r

theorem conforms_of_ne {op : Operation V} {trace : List Reply} {r : Except Exn op.Ret}
    (runs : Runs c op trace r) (other : op ≠ .scan) : Conforms c op trace r where
  throws e error := documented_of_runs runs other error
  empty _ := by
    cases op with
    | scan => exact absurd rfl other
    | _ => trivial

theorem not_conforms_ENOENT :
    ¬Conforms c (.scan : Operation V) [.failed c.ENOENT] (.error (failErrno c c.ENOENT)) := by
  intro conforms
  have documented := conforms.throws _ rfl
  simp [failErrno_ENOENT, Operation.throws] at documented

/-- An error number other than `ENOENT` is passed on as documented. -/
theorem conforms_failed {myErrno : Int} (other : myErrno ≠ c.ENOENT)
    (documented : failErrno c myErrno ∈ (Operation.scan (V := V)).throws) :
    Conforms c (.scan : Operation V) [.failed myErrno] (.error (failErrno c myErrno)) where
  throws e error := by
    cases error
    exact .inl documented
  empty nothing := by
    rcases nothing with same | same
    · exact absurd (by simpa using same) other
    · cases same

theorem scans_conform {trace : List Reply} {r : Except Exn (List String)}
    (scans : Scans c trace r) : Conforms c (.scan : Operation V) trace r ↔
      .failed c.ENOENT ∉ trace := by
  obtain ⟨-, -, -, canceled, io⟩ := failErrno_named (c := c)
  have distinct := c.distinct
  simp only [List.nodup_cons, List.mem_cons, not_or] at distinct
  cases scans with
  | passes scan =>
      refine iff_of_true ⟨fun e absurd => (nomatch absurd), fun nothing => ?_⟩ (by simp)
      rcases nothing with same | same
      · cases same
      · cases same
        rfl
  | fails valid =>
      simp only [validScanErrno, List.mem_cons, List.not_mem_nil, or_false] at valid
      rcases valid with rfl | rfl | rfl
      · have other : c.EIO ≠ c.ENOENT := fun same => by simp [same] at distinct
        exact iff_of_true (conforms_failed other (by simp [io, Operation.throws]))
          (by simp [other.symm])
      · have other : c.ECANCELED ≠ c.ENOENT := fun same => by simp [same] at distinct
        exact iff_of_true (conforms_failed other (by simp [canceled, Operation.throws]))
          (by simp [other.symm])
      · exact iff_of_false not_conforms_ENOENT (by simp)

/-- In every run of every operation: what the documentation says holds unless the
run is that of a scan answered with `ENOENT`. -/
theorem conforms_iff (c : Cerrno) {op : Operation V} {trace : List Reply} {r : Except Exn op.Ret}
    (runs : Runs c op trace r) :
    Conforms c op trace r ↔ ¬(op = .scan ∧ .failed c.ENOENT ∈ trace) := by
  by_cases scan : op = .scan
  · subst scan
    rw [scans_conform runs]
    simp
  · refine iff_of_true (conforms_of_ne runs scan) ?_
    rintro ⟨same, -⟩
    exact scan same

/-! ## Two runs -/

def linux : Cerrno where
  ENOENT := 2
  EEXIST := 17
  EPERM := 1
  ENOSPC := 28
  ECANCELED := 125
  EIO := 5
  distinct := by decide

/-- Somebody deletes the entry between the read and the update: the call starts
over, and its function is content with there being none. -/
theorem crud_deleted_run : Runs linux (.crud : Operation Nat)
    [.passed, .failed 2, .failed 2] (.ok none) := by
  have deleted : (2 : Int) ∈ validErrno linux (.update 1 6 : Op Nat (Option Nat)) := by decide
  have absent : (2 : Int) ∈ validErrno linux (.read : Op Nat (Option Nat)) := by decide
  have second : Delivers linux crud (crud : Io Nat (Option Nat) (Option Nat)) [.failed 2]
      (.ok none) :=
    .asks (by simp) (.passes ()) <| .asks (by simp) (.fails absent) <|
      .asks (by simp) (.passes (none : Option Nat)) <| .done _
  have retried : Delivers linux crud ((crud : Io Nat (Option Nat) (Option Nat)).continue_ .done)
      [.failed 2] (.ok none) := by rwa [Task.continue_done]
  exact .asks (by simp) (.passes ()) <| .asks (by simp) (.passes (1, 5)) <|
    .asks (by simp) (.passes (some 6 : Option Nat)) <| .asks (by simp) (.fails deleted) <|
      .again retried

theorem conforms_deleted : Conforms linux (.crud : Operation Nat)
    [.passed, .failed 2, .failed 2] (.ok none) :=
  (conforms_iff linux crud_deleted_run).mpr (by simp)

/-- A scan answered with `ENOENT` throws `KeyNotFound`. -/
theorem scan_ENOENT : Runs linux (.scan : Operation Nat) [.failed 2] (.error .keyNotFound) ∧
    ¬Conforms linux (.scan : Operation Nat) [.failed 2] (.error .keyNotFound) :=
  ⟨.fails (by decide), not_conforms_ENOENT⟩

end SidepoolFormal.Saver
