import Mathlib.Data.List.Basic

/-!
# Runs of a labelled transition system

A run is a list of labels, oldest first, together with the state it leads to.
Where the system is a function, its runs are lists of events.
-/

namespace SidepoolFormal.Library

variable {S L : Type}

/-- The runs from `s₀`. -/
inductive Run (step : S → L → S → Prop) (s₀ : S) : List L → S → Prop
  | nil : Run step s₀ [] s₀
  | snoc {trace : List L} {s s' : S} {l : L} (run : Run step s₀ trace s) (next : step s l s') :
      Run step s₀ (trace ++ [l]) s'

namespace Run

variable {step : S → L → S → Prop} {s₀ : S}

/-- What holds at first and is preserved by every step holds after every run. -/
theorem invariant {I : List L → S → Prop} (init : I [] s₀)
    (preserved : ∀ trace s l s', I trace s → step s l s' → I (trace ++ [l]) s')
    {trace : List L} {s : S} (run : Run step s₀ trace s) : I trace s := by
  induction run with
  | nil => exact init
  | snoc _ next ih => exact preserved _ _ _ _ ih next

theorem eq_of_nil {s : S} (run : Run step s₀ [] s) : s = s₀ := by
  generalize same : ([] : List L) = trace at run
  cases run with
  | nil => rfl
  | snoc run next => exact absurd same.symm (List.concat_ne_nil _ _)

/-- The last step of a run. -/
theorem unsnoc {trace : List L} {l : L} {s : S} (run : Run step s₀ (trace ++ [l]) s) :
    ∃ s₁, Run step s₀ trace s₁ ∧ step s₁ l s := by
  generalize same : trace ++ [l] = whole at run
  cases run with
  | nil => exact absurd same (List.concat_ne_nil _ _)
  | snoc run next =>
      obtain ⟨rfl, rfl⟩ := List.append_singleton_inj.mp same
      exact ⟨_, run, next⟩

/-- Where the label of a step determines it, the trace determines the state. -/
theorem deterministic (det : ∀ s l s₁ s₂, step s l s₁ → step s l s₂ → s₁ = s₂) {trace : List L}
    {s₁ s₂ : S} (first : Run step s₀ trace s₁) (second : Run step s₀ trace s₂) : s₁ = s₂ := by
  induction first generalizing s₂ with
  | nil => exact second.eq_of_nil.symm
  | snoc run next ih =>
      obtain ⟨s, before, last⟩ := second.unsnoc
      cases ih before
      exact det _ _ _ _ next last

/-- A run can be followed by another one. -/
theorem append {trace trace' : List L} {s s' : S} (run : Run step s₀ trace s)
    (run' : Run step s trace' s') : Run step s₀ (trace ++ trace') s' := by
  induction run' with
  | nil => exact (List.append_nil trace).symm ▸ run
  | snoc _ next ih =>
      rw [← List.append_assoc]
      exact .snoc ih next

/-- A run can be cut anywhere. -/
theorem split {trace trace' : List L} {s : S} (run : Run step s₀ (trace ++ trace') s) :
    ∃ s₁, Run step s₀ trace s₁ ∧ Run step s₁ trace' s := by
  generalize same : trace ++ trace' = whole at run
  induction run generalizing trace' with
  | nil =>
      obtain ⟨rfl, rfl⟩ := List.append_eq_nil_iff.mp same
      exact ⟨s₀, .nil, .nil⟩
  | @snoc before s s' l run next ih =>
      rcases List.eq_nil_or_concat trace' with rfl | ⟨rest, last, rfl⟩
      · rw [List.append_nil] at same
        exact ⟨s', same ▸ .snoc run next, .nil⟩
      · rw [List.concat_eq_append, ← List.append_assoc] at same
        obtain ⟨rfl, rfl⟩ := List.append_singleton_inj.mp same
        obtain ⟨s₁, first, behind⟩ := ih rfl
        exact ⟨s₁, first, List.concat_eq_append ▸ .snoc behind next⟩

/-- The first step of a run. -/
theorem uncons {trace : List L} {l : L} {s : S} (run : Run step s₀ (l :: trace) s) :
    ∃ s₁, step s₀ l s₁ ∧ Run step s₁ trace s := by
  obtain ⟨s₁, first, rest⟩ : ∃ s₁, Run step s₀ ([] ++ [l]) s₁ ∧ Run step s₁ trace s := run.split
  obtain ⟨s, begin, next⟩ := first.unsnoc
  exact ⟨s₁, begin.eq_of_nil ▸ next, rest⟩

/-- Every step that the trace goes through meets a condition, on what has
happened before, the state it starts from and its label. -/
def Meets (step : S → L → S → Prop) (s₀ : S) (condition : List L → S → L → Prop)
    (trace : List L) : Prop :=
  ∀ pre l s, pre ++ [l] <+: trace → Run step s₀ pre s → condition pre s l

theorem Meets.of_prefix {condition : List L → S → L → Prop} {trace trace' : List L}
    (meets : Meets step s₀ condition trace') (inside : trace <+: trace') :
    Meets step s₀ condition trace := by
  intro pre l s part
  exact meets pre l s (part.trans inside)

/-- What holds at first and is preserved by every step that meets the condition
holds after every run whose steps meet it. -/
theorem Meets.invariant {condition : List L → S → L → Prop} {I : List L → S → Prop}
    (init : I [] s₀)
    (preserved : ∀ trace s l s', Run step s₀ trace s → I trace s → step s l s' →
      condition trace s l → I (trace ++ [l]) s')
    {trace : List L} {s : S} (meets : Meets step s₀ condition trace)
    (run : Run step s₀ trace s) : I trace s := by
  induction run with
  | nil => exact init
  | @snoc trace s s' l run next ih =>
      have earlier := meets.of_prefix (List.prefix_append trace [l])
      exact preserved trace s l s' run (ih earlier) next
        (meets trace l s (List.prefix_refl _) run)

end Run

/-! ## Lists of events -/

/-- A function lists what each operation of a program does, from a state.  Where
a sound state stays sound as long as operations are fine, and then an operation
meets its contract exactly when it is fine, all of a program's do. -/
theorem forall_events_iff {S O E : Type} {events : S → List O → List E} {event : S → O → E}
    {next : S → O → S} (nil : ∀ s, events s [] = [])
    (cons : ∀ s op rest, events s (op :: rest) = event s op :: events (next s op) rest)
    {Sound : S → Prop} {Meets Fine : E → Prop}
    (meets_iff : ∀ s op, Sound s → (Meets (event s op) ↔ Fine (event s op)))
    (keeps : ∀ s op, Sound s → Fine (event s op) → Sound (next s op)) {s : S} (sound : Sound s)
    (ops : List O) : (∀ e ∈ events s ops, Meets e) ↔ ∀ e ∈ events s ops, Fine e := by
  induction ops generalizing s with
  | nil => simp [nil]
  | cons op rest ih =>
      rw [cons, List.forall_mem_cons, List.forall_mem_cons, meets_iff s op sound]
      refine and_congr_right fun fine => ?_
      exact ih (keeps s op sound fine)

/-- Two functions list what each operation of a program does, one from a state and
the other from what represents it.  Where an operation does the same to both
exactly when it is fine, all of a program's do. -/
theorem events_eq_map_iff {S S' O E E' : Type} {events : S → List O → List E}
    {event : S → O → E} {next : S → O → S} {events' : S' → List O → List E'}
    {event' : S' → O → E'} {next' : S' → O → S'} (nil : ∀ s, events s [] = [])
    (cons : ∀ s op rest, events s (op :: rest) = event s op :: events (next s op) rest)
    (nil' : ∀ s, events' s [] = [])
    (cons' : ∀ s op rest, events' s (op :: rest) = event' s op :: events' (next' s op) rest)
    {represent : S → S'} {translate : E → E'} {Sound : S → Prop} {Fine : E → Prop}
    (same_iff : ∀ s op, Sound s →
      (event' (represent s) op = translate (event s op) ↔ Fine (event s op)))
    (keeps : ∀ s op, Sound s → Fine (event s op) →
      next' (represent s) op = represent (next s op) ∧ Sound (next s op)) {s : S}
    (sound : Sound s) (ops : List O) :
    events' (represent s) ops = (events s ops).map translate ↔ ∀ e ∈ events s ops, Fine e := by
  induction ops generalizing s with
  | nil => simp [nil, nil']
  | cons op rest ih =>
      rw [cons, cons', List.map_cons, List.cons.injEq, List.forall_mem_cons, same_iff s op sound]
      refine and_congr_right fun fine => ?_
      obtain ⟨after, sound'⟩ := keeps s op sound fine
      rw [after]
      exact ih sound'

end SidepoolFormal.Library
