import SidepoolFormal.Saver.Binding

/-!
# Requests that overlap take effect one after the other

Calls wait for callbacks while others make requests of their own, to the same
entries or to other ones.  Seen at one entry, any such run is one of atomic
operations, and a call that has returned has returned the same.  On the way the
callback objects in memory are those that the C saver still has to call, each
is used once, and as what it was made for.
-/

namespace SidepoolFormal.Saver.Binding

open Library

variable {ι A : Type} [DecidableEq ι] {c : Cerrno} {answers : ι → A → A → Prop}
  {program : Io Str A A} {keys : ι → Str × Str} {s s' : State ι A}

/-! ## Values without a NUL -/

/-- What the operation writes is seen as a whole. -/
def Proper : Op Str A → Prop
  | .create value => 0 ∉ value
  | .update _ value => 0 ∉ value
  | _ => True

theorem cStr_eq {value : Str} (proper : 0 ∉ value) : (cStr value).1 = value := by
  rw [cStr, List.takeWhile_eq_self_iff]
  intro b inside
  have other : b ≠ 0 := fun zero => proper (zero ▸ inside)
  simpa using other

theorem eq_ENOENT {myErrno : Int} (missing : failErrno c myErrno = .keyNotFound) :
    myErrno = c.ENOENT := by
  by_contra other
  rw [failErrno, if_neg other] at missing
  split_ifs at missing

/-- A request that is performed as documented is an operation that is performed. -/
theorem performs_of_documented {op : Op Str A} {reply : CReply} {before after : Cell CStr}
    {r : Except Exn op.Ans} (answer : A → A → Prop) (proper : Proper op)
    (stored : op.stored = true) (documented : Documented c (cut op) reply before after)
    (result : result c op reply = some r) :
    Performs answer op r (view before) (view after) := by
  cases op with
  | yield => cases stored
  | func a => cases stored
  | again => cases stored
  | create value =>
      have whole := cStr_eq proper
      generalize same : cStr value = v at whole
      rw [cut, same] at documented
      cases documented with
      | create _ generation =>
          cases result
          rw [view, view, Option.map_some, whole]
          exact .create value generation
      | fails valid =>
          cases result
          exact .createFails value _ _
  | read =>
      cases documented with
      | read generation value =>
          cases result
          exact .read generation value.1
      | fails valid entry found =>
          cases result
          refine .readFails _ _ fun missing => ?_
          rw [found rfl (eq_ENOENT missing)]
          rfl
  | update g value =>
      have whole := cStr_eq proper
      generalize same : cStr value = v at whole
      rw [cut, same] at documented
      cases documented with
      | update _ g' earlier _ higher =>
          cases result
          rw [view, view, Option.map_some, Option.map_some, whole]
          exact .update g g' earlier.1 value higher
      | fails valid =>
          cases result
          exact .updateFails g value _ _
  | del g =>
      cases documented with
      | del _ earlier =>
          cases result
          exact .del g earlier.1
      | fails valid =>
          cases result
          exact .delFails g _ _

/-- And every way in which a C saver calls back is one that the callback takes. -/
theorem result_of_documented {op : Op Str A} {reply : CReply} {before after : Cell CStr}
    (stored : op.stored = true) (documented : Documented c (cut op) reply before after) :
    ∃ r, result c op reply = some r := by
  cases op with
  | yield => cases stored
  | func a => cases stored
  | again => cases stored
  | create value => cases documented <;> exact ⟨_, rfl⟩
  | read => cases documented <;> exact ⟨_, rfl⟩
  | update g value => cases documented <;> exact ⟨_, rfl⟩
  | del g => cases documented <;> exact ⟨_, rfl⟩

/-! ## What a call still has to do -/

/-- A call that waits is before the operation until the C saver has performed it,
and behind it from then on. -/
inductive Stands (c : Cerrno) (program : Io Str A A) (keys : ι → Str × Str) (s : State ι A)
    (i : ι) : Io Str A A → Prop
  | at_ {t : Io Str A A} (thread : s.thread i = .at_ t) : Stands c program keys s i t
  | waits {n : Nat} {op : Op Str A} {k : Except Exn op.Ans → Io Str A A}
      (thread : s.thread i = .waits n) (stored : op.stored = true)
      (callback : s.callbacks n = some ⟨i, op, k⟩)
      (pending : s.pending n = some ⟨i, keyOf keys i, op, none⟩) :
      Stands c program keys s i (.ask op k)
  | decided {n : Nat} {op : Op Str A} {k : Except Exn op.Ans → Io Str A A} {reply : CReply}
      {r : Except Exn op.Ans} (thread : s.thread i = .waits n)
      (callback : s.callbacks n = some ⟨i, op, k⟩)
      (pending : s.pending n = some ⟨i, keyOf keys i, op, some reply⟩)
      (result : result c op reply = some r) : Stands c program keys s i (enter program (k r))

omit [DecidableEq ι] in
/-- Only the callback that a call waits for matters to it. -/
theorem Stands.frame {i : ι} {t : Io Str A A} (stands : Stands c program keys s i t)
    (thread : s'.thread i = s.thread i)
    (same : ∀ n, s.thread i = .waits n →
      s'.callbacks n = s.callbacks n ∧ s'.pending n = s.pending n) :
    Stands c program keys s' i t := by
  cases stands with
  | at_ at_ => exact .at_ (thread.trans at_)
  | waits waits stored callback pending =>
      obtain ⟨callbacks, pendings⟩ := same _ waits
      exact .waits (thread.trans waits) stored (callbacks.trans callback) (pendings.trans pending)
  | decided waits callback pending result =>
      obtain ⟨callbacks, pendings⟩ := same _ waits
      exact .decided (thread.trans waits) (callbacks.trans callback) (pendings.trans pending) result

/-- Every pending request is waited for, and its callback object is there. -/
structure Sound (c : Cerrno) (program : Io Str A A) (keys : ι → Str × Str) (s : State ι A) :
    Prop where
  fresh : ∀ n, s.next ≤ n → s.callbacks n = none ∧ s.pending n = none
  owner : ∀ n p, s.pending n = some p → s.thread p.who = .waits n
  live : ∀ n, (s.callbacks n).isSome = (s.pending n).isSome
  stands : ∀ i, ∃ t, Stands c program keys s i t
  quiet : s.misused = false

/-- What a step is to the calls: nothing, or one atomic operation. -/
inductive Moves (c : Cerrno) (answers : ι → A → A → Prop) (program : Io Str A A)
    (keys : ι → Str × Str) (s s' : State ι A) : Label ι A → Prop
  | silent (disk : s'.disk = s.disk)
      (stands : ∀ i t, Stands c program keys s i t → Stands c program keys s' i t) :
      Moves c answers program keys s s' none
  | performs {i : ι} {op : Op Str A} {k : Except Exn op.Ans → Io Str A A} {r : Except Exn op.Ans}
      (before : Stands c program keys s i (.ask op k))
      (performs : Performs (answers i) op r (view (s.disk (keyOf keys i)))
        (view (s'.disk (keyOf keys i))))
      (disk : ∀ key, key ≠ keyOf keys i → s'.disk key = s.disk key)
      (after : Stands c program keys s' i (enter program (k r)))
      (others : ∀ j t, j ≠ i → Stands c program keys s j t → Stands c program keys s' j t) :
      Moves c answers program keys s s'
        (some (keyOf keys i, ⟨some i, op, r, view (s.disk (keyOf keys i)),
          view (s'.disk (keyOf keys i))⟩))
  | direct {key : Key} {g : Nat} {value : Str} {r : Except Exn Nat}
      (performs : Performs (fun _ _ => False) (.update g value : Op Str A) r (view (s.disk key))
        (view (s'.disk key)))
      (disk : ∀ key', key' ≠ key → s'.disk key' = s.disk key')
      (stands : ∀ i t, Stands c program keys s i t → Stands c program keys s' i t) :
      Moves c answers program keys s s'
        (some (key, ⟨none, .update g value, r, view (s.disk key), view (s'.disk key)⟩))

/-! ## Steps -/

omit [DecidableEq ι] in
/-- A call that waits has made the request it waits for. -/
theorem Sound.waiting (sound : Sound c program keys s) {i : ι} {n : Nat}
    (waits : s.thread i = .waits n) : ∃ p, s.pending n = some p ∧ p.who = i := by
  obtain ⟨t, stands⟩ := sound.stands i
  cases stands with
  | at_ at_ => cases waits.symm.trans at_
  | waits waits' stored callback pending =>
      cases waits.symm.trans waits'
      exact ⟨_, pending, rfl⟩
  | decided waits' callback pending result =>
      cases waits.symm.trans waits'
      exact ⟨_, pending, rfl⟩

omit [DecidableEq ι] in
/-- No two calls wait for one callback. -/
theorem Sound.apart (sound : Sound c program keys s) {i j : ι} {n m : Nat}
    (first : s.thread i = .waits n) (second : s.thread j = .waits m) (other : j ≠ i) : m ≠ n := by
  rintro rfl
  obtain ⟨p, pending, rfl⟩ := sound.waiting first
  obtain ⟨q, pending', rfl⟩ := sound.waiting second
  exact other (congrArg Pending.who (Option.some.inj (pending'.symm.trans pending)))

omit [DecidableEq ι] in
/-- A call that has something to do has no request pending. -/
theorem Sound.idle (sound : Sound c program keys s) {i : ι} {t : Io Str A A}
    (at_ : s.thread i = .at_ t) {n : Nat} {p : Pending ι A} (pending : s.pending n = some p) :
    p.who ≠ i := by
  rintro rfl
  cases (sound.owner n p pending).symm.trans at_

omit [DecidableEq ι] in
theorem Stands.eq_at {i : ι} {t t' : Io Str A A} (stands : Stands c program keys s i t)
    (at_ : s.thread i = .at_ t') : t = t' := by
  cases stands with
  | at_ same => cases same.symm.trans at_; rfl
  | waits waits => cases waits.symm.trans at_
  | decided waits => cases waits.symm.trans at_

omit [DecidableEq ι] in
theorem Stands.unique {i : ι} {t t' : Io Str A A} (first : Stands c program keys s i t)
    (second : Stands c program keys s i t') : t = t' := by
  cases first with
  | at_ at_ => exact (second.eq_at at_).symm
  | waits waits stored callback pending =>
      cases second with
      | at_ at_ => cases waits.symm.trans at_
      | waits waits' _ callback' =>
          cases waits.symm.trans waits'
          cases callback.symm.trans callback'
          rfl
      | decided waits' _ pending' =>
          cases waits.symm.trans waits'
          cases pending.symm.trans pending'
  | decided waits callback pending replied =>
      cases second with
      | at_ at_ => cases waits.symm.trans at_
      | waits waits' _ _ pending' =>
          cases waits.symm.trans waits'
          cases pending.symm.trans pending'
      | decided waits' callback' pending' replied' =>
          cases waits.symm.trans waits'
          cases pending.symm.trans pending'
          cases callback.symm.trans callback'
          cases replied.symm.trans replied'
          rfl

/-- The other calls stand where they stood after one has changed its thread. -/
theorem Stands.others {i j : ι} {t : Io Str A A} (stands : Stands c program keys s j t)
    (other : j ≠ i) {thread : Thread A} (threads : s'.thread = Function.update s.thread i thread)
    (same : ∀ n, s.thread j = .waits n →
      s'.callbacks n = s.callbacks n ∧ s'.pending n = s.pending n) :
    Stands c program keys s' j t := by
  refine stands.frame ?_ same
  rw [threads, Function.update_of_ne other]

/-- What the idler and user functions do is not done to the entry. -/
theorem performs_own {V : Type} {op : Op V A} {r : Except Exn op.Ans} {answer : A → A → Prop}
    {before after : Cell V} (own : op.stored = false)
    (performs : Performs answer op r before after) : after = before := by
  cases performs with
  | yield => rfl
  | func => rfl
  | funcFails => rfl
  | _ => cases own

theorem moves_acts (sound : Sound c program keys s) {i : ι} {op : Op Str A}
    {k : Except Exn op.Ans → Io Str A A} {r : Except Exn op.Ans} {entry : Cell Str}
    (at_ : s.thread i = .at_ (.ask op k)) (own : op.stored = false)
    (performs : Performs (answers i) op r (view (s.disk (keyOf keys i))) entry) :
    let s' := { s with thread := Function.update s.thread i (.at_ (enter program (k r))) }
    Sound c program keys s' ∧ Moves c answers program keys s s'
      (some (keyOf keys i, ⟨some i, op, r, view (s.disk (keyOf keys i)), entry⟩)) := by
  intro s'
  have here : Stands c program keys s' i (enter program (k r)) :=
    .at_ (Function.update_self i _ s.thread)
  have others (j : ι) (t : Io Str A A) (other : j ≠ i) (stands : Stands c program keys s j t) :
      Stands c program keys s' j t := stands.others other rfl fun _ _ => ⟨rfl, rfl⟩
  constructor
  · refine ⟨sound.fresh, fun n p pending => ?_, sound.live, fun j => ?_, sound.quiet⟩
    · have busy := sound.idle at_ pending
      exact (Function.update_of_ne busy _ s.thread).trans (sound.owner n p pending)
    · by_cases same : j = i
      · subst same
        exact ⟨_, here⟩
      · obtain ⟨t, stands⟩ := sound.stands j
        exact ⟨t, others j t same stands⟩
  · obtain rfl := performs_own own performs
    exact .performs (.at_ at_) performs (fun _ _ => rfl) here others

theorem moves_requests (sound : Sound c program keys s) {i : ι} {op : Op Str A}
    {k : Except Exn op.Ans → Io Str A A} (at_ : s.thread i = .at_ (.ask op k))
    (stored : op.stored = true) :
    let s' := s.request (keyOf keys i) i op k
    Sound c program keys s' ∧ Moves c answers program keys s s' none := by
  intro s'
  have here : Stands c program keys s' i (.ask op k) :=
    .waits (Function.update_self i _ s.thread) stored (Function.update_self s.next _ s.callbacks)
      (Function.update_self s.next _ s.pending)
  have older {n : Nat} {p : Pending ι A} (pending : s.pending n = some p) : n ≠ s.next := by
    rintro rfl
    rw [(sound.fresh s.next (Nat.le_refl _)).2] at pending
    cases pending
  have others (j : ι) (t : Io Str A A) (other : j ≠ i) (stands : Stands c program keys s j t) :
      Stands c program keys s' j t := by
    refine stands.others other rfl fun n waits => ?_
    obtain ⟨p, pending, -⟩ := sound.waiting waits
    have before := older pending
    exact ⟨Function.update_of_ne before _ s.callbacks, Function.update_of_ne before _ s.pending⟩
  constructor
  · refine ⟨fun n above => ?_, fun n p pending => ?_, fun n => ?_, fun j => ?_, sound.quiet⟩
    · have after : n ≠ s.next := by
        have above : s.next + 1 ≤ n := above
        omega
      obtain ⟨nothing, none⟩ := sound.fresh n (by
        have above : s.next + 1 ≤ n := above
        omega)
      exact ⟨(Function.update_of_ne after _ s.callbacks).trans nothing,
        (Function.update_of_ne after _ s.pending).trans none⟩
    · by_cases new : n = s.next
      · subst new
        cases (Function.update_self s.next _ s.pending).symm.trans pending
        exact Function.update_self i _ s.thread
      · have pending := (Function.update_of_ne new _ s.pending).symm.trans pending
        have busy := sound.idle at_ pending
        exact (Function.update_of_ne busy _ s.thread).trans (sound.owner n p pending)
    · by_cases new : n = s.next
      · subst new
        simp [s', State.request]
      · simpa [s', State.request, new] using sound.live n
    · by_cases same : j = i
      · subst same
        exact ⟨_, here⟩
      · obtain ⟨t, stands⟩ := sound.stands j
        exact ⟨t, others j t same stands⟩
  · refine .silent rfl fun j t stands => ?_
    by_cases same : j = i
    · subst same
      exact stands.eq_at at_ ▸ here
    · exact others j t same stands

omit [DecidableEq ι] in
/-- The callback object of a pending request is there, and is of its kind. -/
theorem Sound.callback (sound : Sound c program keys s) {n : Nat} {p : Pending ι A}
    (held : s.pending n = some p) : ∃ k, s.callbacks n = some ⟨p.who, p.op, k⟩ ∧
      p.key = keyOf keys p.who ∧
        (p.reply = none → p.op.stored = true) ∧
          ∀ reply, p.reply = some reply → ∃ r, result c p.op reply = some r := by
  obtain ⟨who, key, op, reply⟩ := p
  have owner : s.thread who = .waits n := sound.owner n _ held
  obtain ⟨t, stands⟩ := sound.stands who
  cases stands with
  | at_ at_ => cases owner.symm.trans at_
  | waits waits stored callback pending =>
      cases owner.symm.trans waits
      cases Option.some.inj (held.symm.trans pending)
      exact ⟨_, callback, rfl, fun _ => stored, fun _ undecided => by cases undecided⟩
  | decided waits callback pending replied =>
      cases owner.symm.trans waits
      cases Option.some.inj (held.symm.trans pending)
      refine ⟨_, callback, rfl, fun undecided => (by cases undecided), fun reply same => ?_⟩
      cases same
      exact ⟨_, replied⟩

theorem moves_decides (sound : Sound c program keys s) {n : Nat} {p : Pending ι A}
    {reply : CReply} {entry : Cell CStr} {r : Except Exn p.op.Ans} (held : s.pending n = some p)
    (undecided : p.reply = none)
    (documented : Documented c (cut p.op) reply (s.disk p.key) entry)
    (replied : result c p.op reply = some r)
    (proper : ∀ k, Stands c program keys s p.who (.ask p.op k) → Proper p.op) :
    let s' := s.decide n p reply entry
    Sound c program keys s' ∧ Moves c answers program keys s s'
      (some (p.key, ⟨some p.who, p.op, r, view (s.disk p.key), view entry⟩)) := by
  intro s'
  obtain ⟨k, callback, key, stored, -⟩ := sound.callback held
  have owner := sound.owner n p held
  obtain ⟨i, entryKey, op, reply'⟩ := p
  obtain rfl : entryKey = keyOf keys i := key
  obtain rfl : reply' = none := undecided
  have before : Stands c program keys s i (.ask op k) :=
    .waits owner (stored rfl) callback held
  have here : Stands c program keys s' i (enter program (k r)) :=
    .decided owner callback (Function.update_self n _ s.pending) replied
  have others (j : ι) (t : Io Str A A) (other : j ≠ i) (stands : Stands c program keys s j t) :
      Stands c program keys s' j t := by
    refine stands.frame rfl fun m waits => ⟨rfl, ?_⟩
    exact Function.update_of_ne (sound.apart owner waits other) _ s.pending
  constructor
  · refine ⟨fun m above => ?_, fun m p pending => ?_, fun m => ?_, fun j => ?_, sound.quiet⟩
    · obtain ⟨nothing, none⟩ := sound.fresh m above
      have other : m ≠ n := by
        rintro rfl
        cases none.symm.trans held
      exact ⟨nothing, (Function.update_of_ne other _ s.pending).trans none⟩
    · by_cases same : m = n
      · subst same
        cases (Function.update_self m _ s.pending).symm.trans pending
        exact owner
      · exact sound.owner m p ((Function.update_of_ne same _ s.pending).symm.trans pending)
    · by_cases same : m = n
      · subst same
        simp [s', State.decide, callback]
      · simpa [s', State.decide, same] using sound.live m
    · by_cases same : j = i
      · subst same
        exact ⟨_, here⟩
      · obtain ⟨t, stands⟩ := sound.stands j
        exact ⟨t, others j t same stands⟩
  · have now : s'.disk (keyOf keys i) = entry :=
      Function.update_self (β := fun _ => Cell CStr) (keyOf keys i) entry s.disk
    have performs := performs_of_documented (answers i) (proper k before) (stored rfl)
      documented replied
    have elsewhere (key : Key) (other : key ≠ keyOf keys i) : s'.disk key = s.disk key :=
      Function.update_of_ne (β := fun _ => Cell CStr) other entry s.disk
    rw [← now] at performs ⊢
    exact .performs before performs elsewhere here others

theorem moves_answers (sound : Sound c program keys s) {n : Nat} {p : Pending ι A}
    {reply : CReply} (held : s.pending n = some p) (decided : p.reply = some reply) :
    let s' := s.answer c program n reply
    Sound c program keys s' ∧ Moves c answers program keys s s' none := by
  intro s'
  obtain ⟨k, callback, key, -, replied⟩ := sound.callback held
  obtain ⟨r, replied⟩ := replied reply decided
  have owner := sound.owner n p held
  obtain ⟨i, entryKey, op, reply'⟩ := p
  obtain rfl : entryKey = keyOf keys i := key
  obtain rfl : reply' = some reply := decided
  have freed : s' = { s with
      thread := Function.update s.thread i (.at_ (enter program (k r)))
      callbacks := Function.update s.callbacks n none
      pending := Function.update s.pending n none } := by
    simp only [s', State.answer, callback, replied]
  have here : Stands c program keys s' i (enter program (k r)) := by
    rw [freed]
    exact .at_ (Function.update_self i _ s.thread)
  have others (j : ι) (t : Io Str A A) (other : j ≠ i) (stands : Stands c program keys s j t) :
      Stands c program keys s' j t := by
    rw [freed]
    refine stands.others other rfl fun m waits => ?_
    have apart := sound.apart owner waits other
    exact ⟨Function.update_of_ne apart none s.callbacks,
      Function.update_of_ne apart none s.pending⟩
  constructor
  · refine ⟨fun m above => ?_, fun m p pending => ?_, fun m => ?_, fun j => ?_, ?_⟩
    · rw [freed] at above ⊢
      obtain ⟨nothing, none⟩ := sound.fresh m above
      simp only [Function.update_apply, nothing, none, ite_self, and_self]
    · rw [freed] at pending ⊢
      have other : m ≠ n := by
        rintro rfl
        cases (Function.update_self m _ s.pending).symm.trans pending
      have pending := (Function.update_of_ne other _ s.pending).symm.trans pending
      have waits := sound.owner m p pending
      have apart : p.who ≠ i := by
        intro same
        rw [same, owner] at waits
        cases waits
        exact other rfl
      exact (Function.update_of_ne apart _ s.thread).trans waits
    · rw [freed]
      by_cases same : m = n
      · subst same
        simp
      · simpa [same] using sound.live m
    · by_cases same : j = i
      · subst same
        exact ⟨_, here⟩
      · obtain ⟨t, stands⟩ := sound.stands j
        exact ⟨t, others j t same stands⟩
    · rw [freed]
      exact sound.quiet
  · refine .silent (by rw [freed]) fun j t stands => ?_
    by_cases same : j = i
    · subst same
      cases stands with
      | at_ at_ => cases owner.symm.trans at_
      | waits waits _ _ pending =>
          cases owner.symm.trans waits
          cases held.symm.trans pending
      | decided waits callback' pending replied' =>
          cases owner.symm.trans waits
          cases held.symm.trans pending
          cases callback.symm.trans callback'
          cases replied.symm.trans replied'
          exact here
    · exact others j t same stands

omit [DecidableEq ι] in
theorem moves_direct (sound : Sound c program keys s) {key : Key} {g : Nat} {value : CStr}
    {reply : CReply} {entry : Cell CStr} {r : Except Exn Nat}
    (documented : Documented c (.update g value : Op CStr A) reply (s.disk key) entry)
    (replied : result c (.update g value.1 : Op Str A) reply = some r) :
    let s' := { s with disk := Function.update s.disk key entry }
    Sound c program keys s' ∧ Moves c answers program keys s s'
      (some (key, ⟨none, .update g value.1, r, view (s.disk key), view entry⟩)) := by
  intro s'
  have stands (j : ι) (t : Io Str A A) (stands : Stands c program keys s j t) :
      Stands c program keys s' j t := stands.frame rfl fun _ _ => ⟨rfl, rfl⟩
  have whole : cStr value.1 = value := Subtype.ext (cStr_eq value.2)
  constructor
  · refine ⟨sound.fresh, sound.owner, sound.live, fun j => ?_, sound.quiet⟩
    obtain ⟨t, stood⟩ := sound.stands j
    exact ⟨t, stands j t stood⟩
  · have now : s'.disk key = entry :=
      Function.update_self (β := fun _ => Cell CStr) key entry s.disk
    have asked : Documented c (cut (.update g value.1 : Op Str A)) reply (s.disk key) entry := by
      rw [cut, whole]
      exact documented
    have performs := performs_of_documented (fun _ _ => False)
      (show Proper (.update g value.1 : Op Str A) from value.2) rfl asked replied
    have elsewhere (key' : Key) (other : key' ≠ key) : s'.disk key' = s.disk key' :=
      Function.update_of_ne (β := fun _ => Cell CStr) other entry s.disk
    rw [← now] at performs ⊢
    exact .direct performs elsewhere stands

/-- Step lemma: every step is an atomic operation of one entry, or none. -/
theorem moves_step (sound : Sound c program keys s) {label : Label ι A}
    (step : Step c answers program keys s label s')
    (proper : ∀ i op k, Stands c program keys s i (.ask op k) → Proper op) :
    Sound c program keys s' ∧ Moves c answers program keys s s' label := by
  cases step with
  | acts at_ own performs => exact moves_acts sound at_ own performs
  | requests at_ stored => exact moves_requests sound at_ stored
  | decides held undecided documented replied =>
      exact moves_decides sound held undecided documented replied fun k => proper _ _ k
  | answers held decided => exact moves_answers sound held decided
  | direct documented replied => exact moves_direct sound documented replied

/-! ## Runs -/

/-- The calls only write what is seen as a whole. -/
structure Tame (answers : ι → A → A → Prop) (program : Io Str A A) (At : Io Str A A → Prop) :
    Prop where
  start : At program
  proper : ∀ {op : Op Str A} {k : Except Exn op.Ans → Io Str A A}, At (.ask op k) → Proper op
  next : ∀ {op : Op Str A} {k : Except Exn op.Ans → Io Str A A} {r : Except Exn op.Ans}
    {before after : Cell Str} (i : ι), At (.ask op k) →
    Performs (answers i) op r before after → At (enter program (k r))

/-- What happens at an entry. -/
def atKey (key : Key) (label : Label ι A) : Option (Event ι Str A) :=
  label.bind fun l => if l.1 = key then some l.2 else none

/-- The run as it is seen at one entry. -/
def Shows (c : Cerrno) (answers : ι → A → A → Prop) (program : Io Str A A)
    (keys : ι → Str × Str) (At : Io Str A A → Prop) (disk : Key → Cell CStr) (key : Key)
    (trace : List (Label ι A)) (s : State ι A) : Prop :=
  ∃ a : System ι Str A,
    Run (Saver.Step answers program) ⟨view (disk key), fun _ => program⟩
      (trace.filterMap (atKey key)) a ∧
    a.entry = view (s.disk key) ∧
    ∀ i, keyOf keys i = key → Stands c program keys s i (a.call i) ∧ At (a.call i)

section

variable {At : Io Str A A → Prop} {disk : Key → Cell CStr} {key : Key}
  {trace : List (Label ι A)}

omit [DecidableEq ι] in
theorem atKey_self (e : Event ι Str A) :
    (trace ++ [some (key, e)]).filterMap (atKey key) = trace.filterMap (atKey key) ++ [e] := by
  simp [List.filterMap_append, atKey]

/-- Nothing happens at the entry, nor to the calls on it. -/
theorem Shows.still (shows : Shows c answers program keys At disk key trace s) {label : Label ι A}
    (elsewhere : atKey key label = none) (same : s'.disk key = s.disk key)
    (stands : ∀ i t, keyOf keys i = key → Stands c program keys s i t →
      Stands c program keys s' i t) :
    Shows c answers program keys At disk key (trace ++ [label]) s' := by
  obtain ⟨a, run, entry, calls⟩ := shows
  refine ⟨a, ?_, entry.trans (congrArg view same.symm), fun i mine => ?_⟩
  · simpa [List.filterMap_append, elsewhere] using run
  · exact ⟨stands i _ mine (calls i mine).1, (calls i mine).2⟩

/-- Step lemma: at each entry, an atomic operation is made, or none. -/
theorem Shows.step (tame : Tame answers program At)
    (shows : Shows c answers program keys At disk key trace s) {label : Label ι A}
    (moves : Moves c answers program keys s s' label) :
    Shows c answers program keys At disk key (trace ++ [label]) s' := by
  cases moves with
  | silent same stands =>
      exact shows.still rfl (congrFun same key) fun i t _ => stands i t
  | @performs i op k r before performs elsewhere after others =>
      by_cases mine : keyOf keys i = key
      · subst mine
        obtain ⟨⟨entry, call⟩, run, here, calls⟩ := shows
        obtain rfl : entry = view (s.disk (keyOf keys i)) := here
        have asks : call i = .ask op k := (calls i rfl).1.unique before
        refine ⟨⟨view (s'.disk (keyOf keys i)), Function.update call i (enter program (k r))⟩,
          ?_, rfl, fun j same => ?_⟩
        · rw [atKey_self]
          exact run.snoc (.perform asks performs)
        · by_cases self : j = i
          · subst self
            have at_ : At (call j) := (calls j rfl).2
            rw [asks] at at_
            simpa using ⟨after, tame.next j at_ performs⟩
          · have stood := calls j same
            simpa [self] using ⟨others j _ self stood.1, stood.2⟩
      · have nothing : atKey key (some (keyOf keys i, (⟨some i, op, r,
            view (s.disk (keyOf keys i)), view (s'.disk (keyOf keys i))⟩ : Event ι Str A))) =
              none := by
          simp [atKey, mine]
        refine shows.still nothing (elsewhere key (Ne.symm mine)) fun j t same stands => ?_
        exact others j t (fun self => mine (self ▸ same)) stands
  | @direct key' g value r performs elsewhere stands =>
      by_cases mine : key' = key
      · subst mine
        obtain ⟨⟨entry, call⟩, run, here, calls⟩ := shows
        obtain rfl : entry = view (s.disk key') := here
        refine ⟨⟨view (s'.disk key'), call⟩, ?_, rfl, fun j same => ?_⟩
        · rw [atKey_self]
          exact run.snoc (.direct performs)
        · exact ⟨stands j _ (calls j same).1, (calls j same).2⟩
      · have nothing : atKey key (some (key', (⟨none, .update g value, r, view (s.disk key'),
            view (s'.disk key')⟩ : Event ι Str A))) = none := by
          simp [atKey, mine]
        exact shows.still nothing (elsewhere key (Ne.symm mine)) fun j t _ => stands j t

omit [DecidableEq ι] in
theorem sound_start : Sound c program keys (State.start disk program : State ι A) where
  fresh _ _ := ⟨rfl, rfl⟩
  owner _ _ pending := by cases pending
  live _ := rfl
  stands _ := ⟨program, .at_ rfl⟩
  quiet := rfl

/-- Run lemma. -/
theorem shows_run (tame : Tame answers program At)
    (run : Run (Step c answers program keys) (State.start disk program) trace s) :
    Sound c program keys s ∧ ∀ key, Shows c answers program keys At disk key trace s := by
  refine run.invariant (I := fun trace s =>
    Sound c program keys s ∧ ∀ key, Shows c answers program keys At disk key trace s) ?_ ?_
  · exact ⟨sound_start, fun key => ⟨_, .nil, rfl, fun i _ => ⟨.at_ rfl, tame.start⟩⟩⟩
  · intro trace s label s' ⟨sound, shows⟩ step
    have proper (i : ι) (op : Op Str A) (k : Except Exn op.Ans → Io Str A A)
        (stands : Stands c program keys s i (.ask op k)) : Proper op := by
      obtain ⟨a, -, -, calls⟩ := shows (keyOf keys i)
      obtain ⟨stood, at_⟩ := calls i rfl
      rw [stood.unique stands] at at_
      exact tame.proper at_
    obtain ⟨sound', moves⟩ := moves_step sound step proper
    exact ⟨sound', fun key => (shows key).step tame moves⟩

end

/-- What a run comes to. -/
structure Atomic (c : Cerrno) (answers : ι → A → A → Prop) (program : Io Str A A)
    (keys : ι → Str × Str) (disk : Key → Cell CStr) (trace : List (Label ι A)) (s : State ι A) :
    Prop where
  used : s.misused = false
  freed : ∀ n, (s.callbacks n).isSome = (s.pending n).isSome
  entries : ∀ key, ∃ a : System ι Str A,
    Run (Saver.Step answers program) ⟨view (disk key), fun _ => program⟩
      (trace.filterMap (atKey key)) a ∧
    a.entry = view (s.disk key) ∧
    ∀ i t, keyOf keys i = key → s.thread i = .at_ t → a.call i = t

/-- Seen at one entry, a run with overlapping requests is a run of atomic operations. -/
theorem requests_atomic {At : Io Str A A → Prop} (tame : Tame answers program At)
    (disk : Key → Cell CStr) (trace : List (Label ι A)) (s : State ι A)
    (run : Run (Step c answers program keys) (State.start disk program) trace s) :
    Atomic c answers program keys disk trace s := by
  obtain ⟨sound, shows⟩ := shows_run tame run
  refine ⟨sound.quiet, sound.live, fun key => ?_⟩
  obtain ⟨a, run, entry, calls⟩ := shows key
  exact ⟨a, run, entry, fun i t mine at_ => (calls i mine).1.eq_at at_⟩

end SidepoolFormal.Saver.Binding
