import SidepoolFormal.Library.Run
import SidepoolFormal.M.Secp

/-!
# Validity of live scalars

Every member function but the setter keeps valid scalars valid.  The setter
validates the bytes it already holds, which in a valid object are fine, so it
installs whatever it is given.  A run meets its contract exactly when nothing
invalid is ever offered to a setter.
-/

namespace SidepoolFormal.M

open SerDe Library

/-- A scalar that is not moved from holds valid bytes. -/
def Scalar.Sound (math : Math) (x : Scalar) : Prop :=
  ∀ v, x = some v → math.isValid v = true

def Store.Sound (math : Math) (s : Store) : Prop :=
  ∀ x, Scalar.Sound math (s x)

/-! ## Reading 32 bytes -/

/-- The 32 bytes at the front of an archive, if there are so many. -/
def available (bytes : List UInt8) : Option Vec32 :=
  if h : 32 ≤ bytes.length then some ⟨bytes.take 32, by simp; omega⟩ else none

theorem singletons (l : List UInt8) :
    List.Forall₂ (fun x w => ∀ y, Carries SerDe.Exn.eof serializeU8 x w y) l
      (l.map fun b => [b]) := by
  induction l with
  | nil => exact .nil
  | cons b rest ih => exact .cons (fun y => Carries.token SerDe.Exn.eof b y) ih

theorem carries_bytes (l : List UInt8) (ys : List UInt8) (room : ys.length = l.length) :
    Carries SerDe.Exn.eof serializeU8.each l l ys := by
  have carried := Carries.each room (singletons l)
  rwa [← List.flatMap_def, List.flatMap_singleton'] at carried

theorem readVec32_eq (bytes : List UInt8) :
    Scalar.readVec32 (.reading bytes) =
      match available bytes with
      | some v => .ok v
      | none => .error .eof := by
  unfold Scalar.readVec32 available
  by_cases enough : 32 ≤ bytes.length
  · have taken : (bytes.take 32).length = 32 := by simp; omega
    have read := (carries_bytes (bytes.take 32) Vec32.zero.1 taken.symm).reads (bytes.drop 32)
    rw [List.take_append_drop] at read
    rw [dif_pos enough]
    split
    · rename_i e he
      exact absurd (he.symm.trans read) (by simp)
    · rename_i a l hl
      obtain ⟨rfl, rfl⟩ := Prod.mk.inj (Except.ok.inj (hl.symm.trans read))
      rfl
  · have padded : (bytes ++ List.replicate (32 - bytes.length) 0).length = 32 := by simp; omega
    have short : bytes ≠ bytes ++ List.replicate (32 - bytes.length) 0 := by
      intro same
      rw [← same] at padded
      omega
    have read := (carries_bytes _ Vec32.zero.1 padded.symm).starves bytes
      (List.prefix_append _ _) short
    rw [dif_neg enough]
    split
    · rfl
    · rename_i a l hl
      exact absurd (hl.symm.trans read) (by simp)

/-! ## Member functions -/

section

variable {math : Math}

theorem Scalar.sound_none : Scalar.Sound math none := fun _ h => by cases h

theorem Scalar.sound_some {v : Vec32} : Scalar.Sound math (some v) ↔ math.isValid v = true :=
  ⟨fun h => h v rfl, fun h _ same => Option.some.inj same ▸ h⟩

theorem Impl.copy_ok {o v : Vec32} (h : Impl.copy math o = .ok v) :
    v = o ∧ math.isValid o = true := by
  unfold Impl.copy validate at h
  cases valid : math.isValid o with
  | false => simp [valid, bind, Except.bind] at h
  | true =>
      simp only [valid, bind, Except.bind, Bool.not_true, Bool.false_eq_true, if_false,
        Except.ok.injEq] at h
      exact ⟨h.symm, rfl⟩

theorem Scalar.copy_sound {o x : Scalar} (h : Scalar.copy math o = .ok x) :
    Scalar.Sound math x := by
  cases o with
  | none =>
      cases h
      exact Scalar.sound_none
  | some o =>
      cases copied : Impl.copy math o with
      | error e => simp [Scalar.copy, copied, Except.map] at h
      | ok v =>
          simp only [Scalar.copy, copied, Except.map, Except.ok.injEq] at h
          obtain ⟨rfl, valid⟩ := Impl.copy_ok copied
          exact h ▸ Scalar.sound_some.mpr valid

theorem Scalar.ofVec32_sound {v : Vec32} {x : Scalar} (h : Scalar.ofVec32 math v = .ok x) :
    Scalar.Sound math x := Scalar.copy_sound (o := some v) h

theorem Scalar.assign_sound {self o x : Scalar} (sound : Scalar.Sound math o)
    (h : Scalar.assign math self o = .ok x) : Scalar.Sound math x := by
  cases self with
  | none =>
      cases o with
      | none => exact Scalar.copy_sound (o := none) h
      | some o => exact Scalar.copy_sound (o := some o) h
  | some v =>
      cases o with
      | none =>
          cases h
          exact Scalar.sound_none
      | some o =>
          cases h
          exact sound

/-- A binary operator of the client's arithmetic on two dereferenced scalars. -/
theorem Scalar.binary_sound {f : Vec32 → Vec32 → Vec32}
    (closed : ∀ a b, math.isValid a = true → math.isValid b = true → math.isValid (f a b) = true)
    {self o x : Scalar} (hs : Scalar.Sound math self) (ho : Scalar.Sound math o)
    (h : (do let vec ← self.deref; let inp ← o.deref; .ok (some (f vec inp))) = Except.ok x) :
    Scalar.Sound math x := by
  cases self with
  | none => cases h
  | some a =>
      cases o with
      | none => cases h
      | some b =>
          cases h
          exact Scalar.sound_some.mpr (closed a b (hs a rfl) (ho b rfl))

theorem Scalar.addAssign_sound (closed : math.Closed) {self o x : Scalar}
    (hs : Scalar.Sound math self) (ho : Scalar.Sound math o)
    (h : Scalar.addAssign math self o = .ok x) : Scalar.Sound math x :=
  Scalar.binary_sound closed.add hs ho h

theorem Scalar.mulAssign_sound (closed : math.Closed) {self o x : Scalar}
    (hs : Scalar.Sound math self) (ho : Scalar.Sound math o)
    (h : Scalar.mulAssign math self o = .ok x) : Scalar.Sound math x :=
  Scalar.binary_sound closed.mul hs ho h

theorem Scalar.negate_sound (closed : math.Closed) {self x : Scalar}
    (hs : Scalar.Sound math self) (h : Scalar.negate math self = .ok x) :
    Scalar.Sound math x := by
  cases self with
  | none => cases h
  | some a =>
      cases h
      exact Scalar.sound_some.mpr (closed.negate a (hs a rfl))

/-- What a sequenced member function gives, it gives from an intermediate scalar. -/
theorem bind_ok {α β : Type} {a : Except Exn α} {f : α → Except Exn β} {y : β}
    (h : (a >>= f) = .ok y) : ∃ x, a = .ok x ∧ f x = .ok y := by
  cases a with
  | error e => cases h
  | ok x => exact ⟨x, rfl, h⟩

theorem Scalar.neg_sound (closed : math.Closed) {self x : Scalar}
    (h : Scalar.neg math self = .ok x) : Scalar.Sound math x := by
  obtain ⟨tmp, copied, negated⟩ := bind_ok h
  exact Scalar.negate_sound closed (Scalar.copy_sound copied) negated

/-! ## Operations -/

theorem Store.Sound.update {s : Store} (hs : s.Sound math) (x : Nat) {value : Scalar}
    (hv : Scalar.Sound math value) : Store.Sound math (Function.update s x value) := by
  intro z
  by_cases same : z = x
  · subst same
    simpa using hv
  · simpa [Function.update_of_ne same] using hs z

theorem Store.put_sound {s : Store} (hs : s.Sound math) (x : Nat) {r : Except Exn Scalar}
    (hr : ∀ value, r = .ok value → Scalar.Sound math value) : (s.put x r).2.Sound math := by
  cases r with
  | error e => exact hs
  | ok value => exact hs.update x (hr value rfl)

/-- The bytes that an operation offers to a live object through a setter. -/
def Offers (s : Store) (op : Op) (x : Nat) (v : Vec32) : Prop :=
  s x ≠ none ∧ (op = .setFromVec32 x v ∨ ∃ bytes, op = .deserialize x bytes ∧
    available bytes = some v)

/-- In a valid object the setter accepts everything. -/
theorem Scalar.setFromVec32_eq {vec v : Vec32} (valid : math.isValid vec = true) :
    Scalar.setFromVec32 math (some vec) v = .ok (some v) := by
  simp [Scalar.setFromVec32, Scalar.deref, Impl.setFromVec32, valid, bind, Except.bind, Except.map]

theorem Scalar.deserialize_eq (self : Scalar) (bytes : List UInt8) :
    Scalar.deserialize math self (.reading bytes) =
      match available bytes with
      | some v => Scalar.setFromVec32 math self v
      | none => .error .eof := by
  unfold Scalar.deserialize
  rw [readVec32_eq]
  cases available bytes <;> rfl

/-- A setter on a valid object installs what it is offered. -/
theorem exec_offer {s : Store} (hs : s.Sound math) {op : Op} {x : Nat} {v : Vec32}
    (offer : Offers s op x v) : exec math s op = (.ok (), Function.update s x (some v)) := by
  obtain ⟨live, how⟩ := offer
  obtain ⟨vec, holds⟩ := Option.ne_none_iff_exists'.mp live
  have accepted := Scalar.setFromVec32_eq (v := v) (hs x vec holds)
  rcases how with rfl | ⟨bytes, rfl, front⟩
  · simp [exec, holds, accepted, Store.put]
  · simp [exec, holds, Scalar.deserialize_eq, front, accepted, Store.put]

/-- Step lemma: only an invalid offer can make a live scalar invalid. -/
theorem exec_sound (closed : math.Closed) {s : Store} (hs : s.Sound math) (op : Op)
    (offers : ∀ x v, Offers s op x v → math.isValid v = true) : (exec math s op).2.Sound math := by
  have setter (x : Nat) (v : Vec32) (offered : s x ≠ none → math.isValid v = true) :
      (s.put x (Scalar.setFromVec32 math (s x) v)).2.Sound math := by
    cases holds : s x with
    | none => exact hs
    | some vec =>
        rw [Scalar.setFromVec32_eq (hs x vec holds)]
        exact hs.update x (Scalar.sound_some.mpr (offered (by simp [holds])))
  cases op with
  | construct x => exact hs.update x (Scalar.sound_some.mpr closed.zero)
  | constructVec32 x v => exact Store.put_sound hs x fun _ => Scalar.ofVec32_sound
  | copy x y => exact Store.put_sound hs x fun _ => Scalar.copy_sound
  | move x y => exact (hs.update y Scalar.sound_none).update x (hs y)
  | destroy x => exact hs.update x Scalar.sound_none
  | assign x y => exact Store.put_sound hs x fun _ => Scalar.assign_sound (hs y)
  | moveAssign x y => exact (hs.update y Scalar.sound_none).update x (hs y)
  | setFromVec32 x v => exact setter x v fun live => offers x v ⟨live, .inl rfl⟩
  | deserialize x bytes =>
      simp only [exec, Scalar.deserialize_eq]
      cases front : available bytes with
      | none => exact hs
      | some v => exact setter x v fun live => offers x v ⟨live, .inr ⟨bytes, rfl, front⟩⟩
  | addAssign x y =>
      exact Store.put_sound hs x fun _ => Scalar.addAssign_sound closed (hs x) (hs y)
  | subAssign x y =>
      apply Store.put_sound hs x
      intro value h
      obtain ⟨opposite, negated, added⟩ := bind_ok h
      exact Scalar.addAssign_sound closed (hs x) (Scalar.neg_sound closed negated) added
  | mulAssign x y =>
      exact Store.put_sound hs x fun _ => Scalar.mulAssign_sound closed (hs x) (hs y)
  | negate x => exact Store.put_sound hs x fun _ => Scalar.negate_sound closed (hs x)
  | plus z x y =>
      apply Store.put_sound hs z
      intro value h
      obtain ⟨tmp, copied, added⟩ := bind_ok h
      exact Scalar.addAssign_sound closed (Scalar.copy_sound copied) (hs y) added
  | neg z x => exact Store.put_sound hs z fun _ => Scalar.neg_sound closed
  | minus z x y =>
      apply Store.put_sound hs z
      intro value h
      obtain ⟨tmp, negated, added⟩ := bind_ok h
      exact Scalar.addAssign_sound closed (Scalar.neg_sound closed negated) (hs x) added
  | times z x y =>
      apply Store.put_sound hs z
      intro value h
      obtain ⟨tmp, copied, multiplied⟩ := bind_ok h
      exact Scalar.mulAssign_sound closed (Scalar.copy_sound copied) (hs y) multiplied

/-- An operation that throws leaves every object as it was. -/
theorem exec_unchanged {s : Store} {op : Op} {e : Exn} (h : (exec math s op).1 = .error e) :
    (exec math s op).2 = s := by
  have put (x : Nat) {r : Except Exn Scalar} (h : (s.put x r).1 = .error e) :
      (s.put x r).2 = s := by
    cases r with
    | error e' => rfl
    | ok value => cases h
  cases op
  case move => cases h
  case moveAssign => cases h
  all_goals exact put _ h

end

/-! ## Runs -/

/-- What one operation of a run promises. -/
structure Event.Meets (math : Math) (e : Event) : Prop where
  sound_before : e.before.Sound math
  sound_after : e.after.Sound math
  installs : ∀ x v, Offers e.before e.op x v →
    if math.isValid v then e.outcome = .ok () ∧ e.after x = some v
    else e.outcome = .error .invalidScalar
  starves : ∀ x bytes, e.op = .deserialize x bytes → available bytes = none →
    e.outcome = .error .eof
  unchanged : ∀ exn, e.outcome = .error exn → e.after = e.before

/-- An operation on sound scalars. -/
def eventOf (math : Math) (s : Store) (op : Op) : Event :=
  ⟨s, op, (exec math s op).1, (exec math s op).2⟩

theorem eventOf_meets_iff {math : Math} (closed : math.Closed) {s : Store} (hs : s.Sound math)
    (op : Op) :
    (eventOf math s op).Meets math ↔ ∀ x v, Offers s op x v → math.isValid v = true := by
  constructor
  · intro meets x v offer
    by_contra invalid
    have outcome := meets.installs x v offer
    rw [if_neg invalid, eventOf, exec_offer hs offer] at outcome
    cases outcome
  · intro valid
    refine ⟨hs, exec_sound closed hs op valid, ?_, ?_, fun exn => exec_unchanged⟩
    · intro x v offer
      replace offer : Offers s op x v := offer
      simp only [eventOf, exec_offer hs offer, valid x v offer, if_true, Function.update_self,
        and_self]
    · intro x bytes same front
      replace same : op = .deserialize x bytes := same
      subst same
      simp [eventOf, exec, Scalar.deserialize_eq, front, Store.put]

/-- The contract holds throughout a run exactly when every 32 bytes offered to
a live scalar, by the setter or by an archive, are valid. -/
theorem run_meets_iff (math : Math) (closed : math.Closed) (ops : List Op) :
    (∀ e ∈ run math (fun _ => none) ops, e.Meets math) ↔
      ∀ e ∈ run math (fun _ => none) ops, ∀ x v, Offers e.before e.op x v →
        math.isValid v = true := by
  have cons (s : Store) (op : Op) (rest : List Op) :
      run math s (op :: rest) = eventOf math s op :: run math (exec math s op).2 rest := rfl
  have meets (s : Store) (op : Op) (sound : s.Sound math) :
      (eventOf math s op).Meets math ↔ ∀ x v, Offers s op x v → math.isValid v = true :=
    eventOf_meets_iff closed sound op
  refine forall_events_iff (fun _ => rfl) cons meets ?_ (fun _ => Scalar.sound_none) ops
  exact fun _ op sound valid => exec_sound closed sound op valid

/-- Setting a live scalar to 1 over the real group order. -/
theorem run_meets_secp :
    secp.Closed ∧
      ∀ e ∈ run secp (fun _ => none) [.construct 0, .setFromVec32 0 (Vec32.ofValue 1)],
        e.Meets secp := by
  constructor
  · exact secp_closed
  · apply (run_meets_iff secp secp_closed _).mpr
    intro e member x v offer
    simp only [run, List.mem_cons, List.not_mem_nil, or_false] at member
    rcases member with rfl | rfl
    · obtain ⟨-, same | ⟨bytes, same, -⟩⟩ := offer <;> cases same
    · obtain ⟨-, same | ⟨bytes, same, -⟩⟩ := offer
      · cases same
        decide
      · cases same

/-- A live scalar takes 32 bytes of `0xFF`, which are no scalar. -/
theorem run_not_meets_ff :
    ¬ ∀ e ∈ run secp (fun _ => none)
        [.construct 0, .setFromVec32 0 ⟨List.replicate 32 0xFF, rfl⟩], e.Meets secp := by
  intro meets
  have second := (List.forall_mem_cons.mp (List.forall_mem_cons.mp meets).2).1
  have installed := second.sound_after 0 ⟨List.replicate 32 0xFF, rfl⟩
  have live : (exec secp (fun _ => none) (.construct 0)).2 0 ≠ none := by
    simp [exec, Store.put, Scalar.ofMath]
  rw [exec_offer second.sound_before ⟨live, .inl rfl⟩] at installed
  exact absurd (installed (by simp)) (by decide)

end SidepoolFormal.M
