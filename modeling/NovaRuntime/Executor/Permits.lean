/-
# NovaRuntime.Executor.Permits — how many calls run at once

A call takes a permit before it is counted, and gives it back last. No interleaving of calls
and drains loses a permit or makes one, so no more calls run than there are permits.
-/
import NovaRuntime.Executor.Drain

namespace NovaRuntime.Executor

open NovaRuntime.Library

set_option autoImplicit false

/-- Between the permit and its return. -/
def Task.permitted : Task → Bool
  | .call _ .counting | .call _ .returning => true
  | .call _ place => place.counted
  | .drain _ => false

namespace PipelineExecutor

/-- Every permit is free or with one call. -/
def Conserved (permits : Nat) (m : PipelineExecutor) : Prop :=
  m.shared.permits + m.tasks.countP Task.permitted = permits

variable (config : PipelineConfig)

/-- **A step of a call** moves the permit with the call. -/
theorem callStep_permits (limited : Bool) (env : Surroundings) (s : Shared) (call : Call) (place : Place) :
    (s.callStep config limited env call place).1.permits +
        ((s.callStep config limited env call place).2.map (Task.call call)).toList.countP Task.permitted =
      s.permits + [Task.call call place].countP Task.permitted := by
  cases place with
  | entering | undraining | checking | queueing | limiting =>
    simp only [Shared.callStep]
    split <;> rfl
  | acquiring =>
    simp only [Shared.callStep]
    split
    · next free => exact Nat.sub_add_cancel free
    · rfl
  | storing ctx env response =>
    have same : (s.store config call ctx env response).permits = s.permits := by
      rw [Shared.store]
      split <;> rfl
    exact congrArg (· + 1) same
  | _ => rfl

theorem conserved_step {m : PipelineExecutor} {permits : Nat} (held : m.Conserved permits) (event : Event) :
    (m.step config event).Conserved permits := by
  cases event with
  | execute call => exact held
  | drain timeout => exact held
  | advance i elapsed limited env =>
    rw [step]
    cases here : m.tasks[i]? with
    | none => exact held
    | some task =>
      rw [Conserved, (Run.perm_of_turn here).countP_eq] at held
      cases task with
      | call call place =>
        have moved := callStep_permits config limited env (m.shared.elapse elapsed) call place
        rw [← List.singleton_append, List.countP_append, ← Nat.add_assoc] at held
        rw [Conserved, List.countP_append, ← Nat.add_assoc]
        exact (congrArg (· + _) moved).trans held
      | drain place =>
        cases place with
        | polling deadline =>
          simp only [Shared.taskStep, Shared.drainStep]
          split <;> exact held
        | _ => exact held

/-- **In every interleaving of calls and drains** the permits are conserved, and no more calls are in `run_pipeline`
than there are permits. -/
theorem permits_conserved (events : List Event) :
    Run.Always (step config) (fun m => m.Conserved (max config.maxConcurrentOps 1) ∧
      m.tasks.countP Task.runs ≤ max config.maxConcurrentOps 1) (new config) events := by
  intro m reached
  have held : m.Conserved (max config.maxConcurrentOps 1) := Run.always_of_step (I := Conserved _)
    (fun _ event held => conserved_step config held event) rfl events m reached
  refine ⟨held, le_trans (List.countP_mono_left fun task _ runs => ?_) (held ▸ Nat.le_add_left ..)⟩
  cases task with
  | call call place => cases place <;> first | rfl | cases runs
  | drain place => cases runs

end PipelineExecutor

end NovaRuntime.Executor
