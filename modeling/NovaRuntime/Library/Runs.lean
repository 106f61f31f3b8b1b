/-
# NovaRuntime.Library.Runs — runs of a state machine and what they preserve

A machine is a step function on states. `Run.states` lists the states of a run, and
`Run.Each` asks that every step of it meet a condition in the state it is taken in.
An invariant that such steps keep holds in every state (`Run.Each.invariant`).
-/
import Mathlib.Data.List.Perm.Basic
import NovaRuntime.Library.Outcome

namespace NovaRuntime.Library

set_option autoImplicit false

namespace Run

variable {S A : Type} (step : S → A → S)

/-- The states of a run, the first included. -/
def states (s : S) : List A → List S
  | [] => [s]
  | a :: as => s :: states (step s a) as

/-- Every step of the run meets the condition in the state it is taken in. -/
def Each (meets : S → A → Prop) (s : S) : List A → Prop
  | [] => True
  | a :: as => meets s a ∧ Each meets (step s a) as

instance Each.decidable (meets : S → A → Prop) [∀ s a, Decidable (meets s a)] (s : S) :
    (as : List A) → Decidable (Each step meets s as)
  | [] => .isTrue trivial
  | a :: as =>
    have := Each.decidable meets (step s a) as
    inferInstanceAs (Decidable (_ ∧ _))

/-- Every state of the run has the property. -/
def Always (good : S → Prop) (s : S) (as : List A) : Prop := ∀ s' ∈ states step s as, good s'

variable {step}
variable {s : S} {meets : S → A → Prop} {I : S → Prop}

theorem foldl_mem_states (s : S) (as : List A) : as.foldl step s ∈ states step s as := by
  induction as generalizing s with
  | nil => exact List.mem_singleton.mpr rfl
  | cons a as ih => exact .tail _ (ih (step s a))

/-- **An invariant of the steps is an invariant of the run.** -/
theorem Each.invariant (keeps : ∀ s a, I s → meets s a → I (step s a)) {as : List A} (held : I s)
    (each : Each step meets s as) : ∀ s' ∈ states step s as, I s' := by
  induction as generalizing s with
  | nil => simpa [states] using held
  | cons a as ih =>
    intro s' member
    rcases List.mem_cons.mp member with rfl | later
    · exact held
    · exact ih (keeps s a held each.1) each.2 s' later

/-- The condition of a step in the middle. -/
theorem Each.at_turn {before later : List A} {a : A}
    (each : Each step meets s (before ++ a :: later)) : meets (before.foldl step s) a := by
  induction before generalizing s with
  | nil => exact each.1
  | cons first before ih => exact ih each.2

/-- What every step keeps holds in every state of every run. -/
theorem always_of_step (keeps : ∀ s a, I s → I (step s a)) (held : I s)
    (as : List A) : Always step I s as := by
  induction as generalizing s with
  | nil => simpa [Always, states] using held
  | cons a as ih =>
    intro s' member
    rcases List.mem_cons.mp member with rfl | later
    · exact held
    · exact ih (keeps s a held) s' later

/-- Where steps that meet the condition keep the invariant, every step has what the two
give together. -/
theorem Each.imp {good : S → A → Prop}
    (keeps : ∀ s a, I s → meets s a → I (step s a)) (gives : ∀ s a, I s → meets s a → good s a)
    {as : List A} (held : I s) (each : Each step meets s as) : Each step good s as := by
  induction as generalizing s with
  | nil => trivial
  | cons a as ih => exact ⟨gives s a held each.1, ih (keeps s a held each.1) each.2⟩

/-- Two conditions that come to the same wherever the invariant of all steps holds. -/
theorem Each.iff {good : S → A → Prop} (keeps : ∀ s a, I s → I (step s a))
    (same : ∀ s a, I s → (good s a ↔ meets s a)) (held : I s) (as : List A) :
    Each step good s as ↔ Each step meets s as := by
  induction as generalizing s with
  | nil => exact Iff.rfl
  | cons a as ih => exact and_congr (same s a held) (ih (keeps s a held))

/-- Two conditions that come to the same as long as they are met. -/
theorem Each.iff_of_tied {good : S → A → Prop} {tied : S → Prop}
    (exactly : ∀ s a, tied s → (good s a ↔ meets s a)) (keeps : ∀ s a, tied s → meets s a → tied (step s a))
    (start : tied s) (as : List A) : Each step good s as ↔ Each step meets s as := by
  induction as generalizing s with
  | nil => exact Iff.rfl
  | cons a as ih =>
    rw [Each, Each, exactly s a start]
    exact and_congr_right fun meet => ih (keeps s a start meet)

/-- **A property that a step keeps exactly when it meets the condition** holds in
every state of a run exactly when every step meets it. -/
theorem forall_states_iff {good : S → Prop} (keeps : ∀ s a, I s → I (step s a))
    (exactly : ∀ s a, I s → good s → (good (step s a) ↔ meets s a)) {as : List A}
    (held : I s) (start : good s) : (∀ s' ∈ states step s as, good s') ↔ Each step meets s as := by
  induction as generalizing s with
  | nil => simpa [states, Each] using start
  | cons a as ih =>
    have first : step s a ∈ states step (step s a) as := by cases as <;> simp [states]
    simp only [states, List.forall_mem_cons, Each]
    constructor
    · rintro ⟨-, later⟩
      have next := later _ first
      exact ⟨(exactly s a held start).mp next, (ih (keeps s a held) next).mp later⟩
    · rintro ⟨meet, each⟩
      have next := (exactly s a held start).mpr meet
      exact ⟨start, (ih (keeps s a held) next).mpr each⟩

/-- The same where the property comes with ties that only steps of the condition keep. -/
theorem forall_states_iff_of_tied {tied good : S → Prop} (gives : ∀ s, tied s → good s)
    (exactly : ∀ s a, tied s → (good (step s a) ↔ meets s a))
    (keeps : ∀ s a, tied s → meets s a → tied (step s a)) (start : tied s) (as : List A) :
    (∀ s' ∈ states step s as, good s') ↔ Each step meets s as := by
  induction as generalizing s with
  | nil => simpa [states, Each] using gives s start
  | cons a as ih =>
    have first : step s a ∈ states step (step s a) as := by cases as <;> simp [states]
    simp only [states, List.forall_mem_cons, Each]
    constructor
    · rintro ⟨-, later⟩
      have meet := (exactly s a start).mp (later _ first)
      exact ⟨meet, (ih (keeps s a start meet)).mp later⟩
    · rintro ⟨meet, each⟩
      exact ⟨gives s start, (ih (keeps s a start meet)).mpr each⟩

/-- A task that takes its turn stands in front of the others. -/
theorem perm_of_turn {T : Type} {tasks : List T} {i : Nat} {task : T} (here : tasks[i]? = some task) :
    tasks.Perm (task :: tasks.eraseIdx i) := by
  obtain ⟨inside, rfl⟩ := List.getElem?_eq_some_iff.mp here
  exact (List.getElem_cons_eraseIdx_perm inside).symm

end Run

end NovaRuntime.Library
