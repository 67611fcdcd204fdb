import SidepoolFormal.S.Registry

/-!
# Which functions have been called

A frame of a function stands on the stack, and an action is collected, only
after the lease has been called by that raise.
-/

namespace SidepoolFormal.S

open Library Registry

variable {E : Type}

/-- What is not the last label of a trace has come before. -/
theorem earlier {trace : List (Label E)} {label earlier : Label E}
    (member : earlier ∈ trace ++ [label]) (old : label ≠ earlier) : earlier ∈ trace := by
  rcases List.mem_append.mp member with before | now
  · exact before
  · exact absurd (List.mem_singleton.mp now).symm old

theorem later {trace : List (Label E)} {earlier : Label E} (label : Label E)
    (member : earlier ∈ trace) : earlier ∈ trace ++ [label] := List.mem_append_left _ member

theorem now (trace : List (Label E)) (label : Label E) : label ∈ trace ++ [label] :=
  List.mem_append_right _ List.mem_cons_self

/-- The leases whose functions have returned their actions. -/
def Raise.leases (raise : Raise E) : List Nat := raise.acts.map Act.lease

namespace Raise

@[simp]
theorem leases_incr (raise : Raise E) : raise.incr.leases = raise.leases := rfl

@[simp]
theorem leases_collect (raise : Raise E) (l : Nat) :
    (raise.collect l).leases = raise.leases ++ [l] := List.map_append

@[simp]
theorem leases_start (raise : Raise E) (i : Nat) : (raise.start i).leases = raise.leases := by
  rw [leases, start, leases]
  apply List.ext_getElem?
  intro j
  rw [List.getElem?_map, List.getElem?_modify, List.getElem?_map]
  cases raise.acts[j]? with
  | none => rfl
  | some act =>
      by_cases same : i = j
      · simp [same]
      · simp [same]

@[simp]
theorem leases_join (raise : Raise E) : raise.join.leases = raise.leases := rfl

@[simp]
theorem leases_complete (raise : Raise E) (i : Nat) (result : Option E) :
    (raise.complete i result).leases = raise.leases := by
  rw [complete]
  split
  · rename_i l running
    rw [leases, List.map_set, leases]
    have here : raise.leases[i]? = some l := by rw [leases, List.getElem?_map, running]; rfl
    obtain ⟨inside, same⟩ := List.getElem?_eq_some_iff.mp here
    rw [← leases, ← same]
    exact List.set_getElem_self inside
  · rfl

end Raise

/-- What the raises are after one of them has been changed. -/
theorem found_modify {s : State E} {r r' : Nat} {f : Raise E → Raise E} {raise' : Raise E}
    (found : (s.modify r f).raises[r']? = some raise') :
    ∃ raise, s.raises[r']? = some raise ∧ raise' = if r = r' then f raise else raise := by
  rw [State.modify, List.getElem?_modify] at found
  cases before : s.raises[r']? with
  | none =>
      rw [before] at found
      cases found
  | some raise =>
      rw [before] at found
      cases found
      exact ⟨raise, rfl, rfl⟩

/-- What the raises are once there is a new one. -/
theorem found_concat {raises : List (Raise E)} {r : Nat} {raise raise' : Raise E}
    (found : (raises ++ [raise])[r]? = some raise') :
    raises[r]? = some raise' ∨ r = raises.length ∧ raise' = raise := by
  rcases Nat.lt_trichotomy r raises.length with before | rfl | behind
  · rw [List.getElem?_append_left before] at found
    exact .inl found
  · rw [List.getElem?_concat_length] at found
    exact .inr ⟨rfl, (Option.some.inj found).symm⟩
  · have outside : (raises ++ [raise]).length ≤ r := by
      rw [List.length_append]
      exact behind
    rw [List.getElem?_eq_none outside] at found
    cases found

/-- The raise for which a frame walks along the list. -/
def Frame.walk : Frame → Option Nat
  | .iterate r _ _ => some r
  | .function r _ _ => some r
  | _ => none

/-- The lease whose function has returned its action to the r-th raise. -/
def returned (r : Nat) : Label E → Option Nat
  | .returns r' l => if r' = r then some l else none
  | _ => none

theorem returned_eq_some {r l : Nat} {label : Label E} (returns : returned r label = some l) :
    label = .returns r l := by
  cases label with
  | returns r' l' =>
      rw [returned] at returns
      split at returns
      · rename_i same
        cases same
        cases returns
        rfl
      · cases returns
  | _ => cases returns

/-- A function is called, or returns. -/
def Label.turns : Label E → Bool
  | .calls _ _ | .returns _ _ => true
  | _ => false

structure Called (trace : List (Label E)) (s : State E) : Prop where
  known : ∀ frame ∈ s.stack, ∀ r, frame.walk = some r → r < s.raises.length
  frames : ∀ r prev l, .function r prev l ∈ s.stack → .calls r l ∈ trace
  bound : ∀ r l, .calls r l ∈ trace → l < s.registry.leases.length
  before : ∀ r l, .returns r l ∈ trace → .calls r l ∈ trace ∧ r < s.raises.length
  acts : ∀ r raise, s.raises[r]? = some raise → raise.leases = trace.filterMap (returned r)

namespace Called

variable {trace : List (Label E)} {s s' : State E}

/-- Where no function is called and none returns. -/
theorem quiet (called : Called trace s) {label : Label E} (silent : label.turns = false)
    (raises : s.raises.length ≤ s'.raises.length)
    (leases : s.registry.leases.length ≤ s'.registry.leases.length)
    (frames : ∀ frame ∈ s'.stack, frame ∈ s.stack ∨
      (∀ r prev l, frame ≠ .function r prev l) ∧ ∀ r, frame.walk = some r → r < s'.raises.length)
    (acts : ∀ r raise, s'.raises[r]? = some raise →
      raise.leases = trace.filterMap (returned r)) : Called (trace ++ [label]) s' := by
  have past {l : Label E} (turns : l.turns = true) (member : l ∈ trace ++ [label]) :
      l ∈ trace := by
    refine earlier member ?_
    rintro rfl
    cases silent.symm.trans turns
  have same (r : Nat) : returned r label = none := by
    cases label with
    | returns r' l => cases silent
    | _ => rfl
  refine ⟨?_, ?_, ?_, ?_, ?_⟩
  · intro frame member r walk
    rcases frames frame member with before | new
    · exact Nat.lt_of_lt_of_le (called.known frame before r walk) raises
    · exact new.2 r walk
  · intro r prev l member
    rcases frames _ member with before | new
    · exact later label (called.frames r prev l before)
    · exact absurd rfl (new.1 r prev l)
  · intro r l member
    exact Nat.lt_of_lt_of_le (called.bound r l (past rfl member)) leases
  · intro r l member
    obtain ⟨before, known⟩ := called.before r l (past rfl member)
    exact ⟨later label before, Nat.lt_of_lt_of_le known raises⟩
  · intro r raise found
    rw [List.filterMap_append, List.filterMap_cons_none (same r), List.filterMap_nil,
      List.append_nil]
    exact acts r raise found

/-- Where a raise changes, but not by the return of a function. -/
theorem acts_modify (called : Called trace s) {r : Nat} {f : Raise E → Raise E}
    (same : ∀ raise, (f raise).leases = raise.leases) (r' : Nat) (raise' : Raise E)
    (found : (s.modify r f).raises[r']? = some raise') :
    raise'.leases = trace.filterMap (returned r') := by
  obtain ⟨raise, before, rfl⟩ := found_modify found
  rw [← called.acts r' raise before]
  split
  · exact same raise
  · rfl

/-- What a raise has collected comes from functions that it has called. -/
theorem of_leases (called : Called trace s) {r l : Nat} {raise : Raise E}
    (found : s.raises[r]? = some raise) (member : l ∈ raise.leases) : .calls r l ∈ trace := by
  rw [called.acts r raise found] at member
  obtain ⟨label, inside, returns⟩ := List.mem_filterMap.mp member
  cases returned_eq_some returns
  exact (called.before r l inside).1

theorem step (called : Called trace s) {label : Label E} (step : Step s label s') :
    Called (trace ++ [label]) s' := by
  have below {frame : Frame} {stack : List Frame} (control : s.stack = frame :: stack)
      (frame' : Frame) (member : frame' ∈ stack) : frame' ∈ s.stack :=
    control ▸ List.mem_cons_of_mem _ member
  cases step with
  | makes control =>
      exact called.quiet rfl (Nat.le_refl _) (Nat.le_refl _) (fun _ => .inl) called.acts
  | subscribes control lessee =>
      refine called.quiet rfl (Nat.le_refl _) ?_ (fun _ => .inl) called.acts
      rw [length_addLease]
      exact Nat.le_succ _
  | @destroys k leases control lessee =>
      exact called.quiet rfl (Nat.le_refl _) (Nat.le_of_eq (length_destroy leases).symm)
        (fun _ => .inl) called.acts
  | raises control =>
      have more : s.raises.length < (s.raises ++ [Raise.initial]).length := by
        rw [List.length_append]
        exact Nat.lt_succ_self _
      refine called.quiet rfl (Nat.le_of_lt more) (Nat.le_refl _) ?_ ?_
      · refine List.forall_mem_cons.mpr ⟨.inr ⟨nofun, ?_⟩, fun _ => .inl⟩
        rintro r ⟨⟩
        exact more
      · intro r raise found
        rcases found_concat found with old | ⟨rfl, rfl⟩
        · exact called.acts r raise old
        · symm
          rw [Raise.leases, Raise.initial, List.map_nil, List.filterMap_eq_nil_iff]
          intro label member
          cases label with
          | returns r l =>
              rw [returned, if_neg]
              rintro rfl
              exact Nat.lt_irrefl _ (called.before _ l member).2
          | _ => rfl
  | @removes r l prev stack control cleared =>
      refine called.quiet rfl (Nat.le_refl _) (Nat.le_of_eq (length_remove prev l).symm) ?_
        called.acts
      refine List.forall_mem_cons.mpr ⟨.inr ⟨nofun, ?_⟩, fun frame' => .inl ∘ below control frame'⟩
      exact called.known (.iterate r prev (some l)) (control ▸ List.mem_cons_self)
  | @calls r l prev stack control live =>
      have known := called.known (.iterate r prev (some l)) (control ▸ List.mem_cons_self) r rfl
      refine ⟨?_, ?_, ?_, ?_, ?_⟩
      · refine List.forall_mem_cons.mpr ⟨?_, ?_⟩
        · rintro r' ⟨⟩
          exact (length_modify ..).symm ▸ known
        · intro frame member r' walk
          rw [length_modify]
          exact called.known frame (below control frame member) r' walk
      · intro r' prev' l' member
        rcases List.mem_cons.mp member with same | before
        · cases same
          exact now trace _
        · exact later _ (called.frames r' prev' l' (below control _ before))
      · intro r' l' member
        rcases List.mem_append.mp member with before | now
        · exact called.bound r' l' before
        · cases List.mem_singleton.mp now
          exact live_lt live
      · intro r' l' member
        obtain ⟨before, known⟩ := called.before r' l' (earlier member nofun)
        exact ⟨later _ before, (length_modify ..).symm ▸ known⟩
      · intro r' raise found
        rw [List.filterMap_append]
        exact (called.acts_modify Raise.leases_incr r' raise found).trans (List.append_nil _).symm
  | @returns r l prev stack control =>
      have known := called.known (.function r prev l) (control ▸ List.mem_cons_self) r rfl
      have before := called.frames r prev l (control ▸ List.mem_cons_self)
      refine ⟨?_, ?_, ?_, ?_, ?_⟩
      · refine List.forall_mem_cons.mpr ⟨?_, ?_⟩
        · rintro r' ⟨⟩
          exact (length_modify ..).symm ▸ known
        · intro frame member r' walk
          rw [length_modify]
          exact called.known frame (below control frame member) r' walk
      · intro r' prev' l' member
        have inside := (List.mem_cons.mp member).resolve_left nofun
        exact later _ (called.frames r' prev' l' (below control _ inside))
      · exact fun r' l' member => called.bound r' l' (earlier member nofun)
      · intro r' l' member
        rw [length_modify]
        rcases List.mem_append.mp member with past | now
        · obtain ⟨call, known⟩ := called.before r' l' past
          exact ⟨later _ call, known⟩
        · cases List.mem_singleton.mp now
          exact ⟨later _ before, known⟩
      · intro r' raise' found
        obtain ⟨raise, past, rfl⟩ := found_modify found
        rw [List.filterMap_append, ← called.acts r' raise past]
        by_cases same : r = r'
        · simp [same, returned]
        · simp [same, returned]
  | throws control e =>
      exact called.quiet rfl (Nat.le_refl _) (Nat.le_refl _)
        (fun frame' => .inl ∘ below control frame') called.acts
  | ends control =>
      exact called.quiet rfl (Nat.le_of_eq (length_modify ..).symm) (Nat.le_refl _)
        (fun frame' => .inl ∘ below control frame') (called.acts_modify fun _ => rfl)
  | runs control found returned ran =>
      exact called.quiet rfl (Nat.le_of_eq (length_modify ..).symm) (Nat.le_refl _)
        (List.forall_mem_cons.mpr ⟨.inr ⟨nofun, nofun⟩, fun _ => .inl⟩)
        (called.acts_modify fun _ => rfl)
  | starts control found next =>
      exact called.quiet rfl (Nat.le_of_eq (length_modify ..).symm) (Nat.le_refl _)
        (List.forall_mem_cons.mpr ⟨.inr ⟨nofun, nofun⟩, fun frame' => .inl ∘ below control frame'⟩)
        (called.acts_modify fun raise => raise.leases_start _)
  | leaves control =>
      exact called.quiet rfl (Nat.le_refl _) (Nat.le_refl _)
        (List.forall_mem_cons.mpr ⟨.inr ⟨nofun, nofun⟩, fun frame' => .inl ∘ below control frame'⟩)
        called.acts
  | crashes control e =>
      exact called.quiet rfl (Nat.le_of_eq (length_modify ..).symm) (Nat.le_refl _)
        (List.forall_mem_cons.mpr ⟨.inr ⟨nofun, nofun⟩, fun frame' => .inl ∘ below control frame'⟩)
        (called.acts_modify fun raise => raise.leases_complete _ _)
  | joins control found none =>
      exact called.quiet rfl (Nat.le_of_eq (length_modify ..).symm) (Nat.le_refl _)
        (fun frame' => .inl ∘ below control frame')
        (called.acts_modify fun raise => raise.leases_join)
  | completes control found started result =>
      exact called.quiet rfl (Nat.le_of_eq (length_modify ..).symm) (Nat.le_refl _)
        (fun _ => .inl) (called.acts_modify fun raise => raise.leases_complete _ _)

end Called

theorem called_of_run {trace : List (Label E)} {s : State E} (run : Run Step initial trace s) :
    Called trace s :=
  run.invariant ⟨nofun, nofun, nofun, nofun, nofun⟩ fun _ _ _ _ called step => called.step step

end SidepoolFormal.S
