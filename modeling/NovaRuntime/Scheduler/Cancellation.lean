/-
# NovaRuntime.Scheduler.Cancellation — when a cancelled job stays cancelled

`Watched` keeps, beside the manager, the jobs written as cancelled with no call of
`trigger_job` or `resume_job` since (`closed`), and of these the ones whose `cancel_job` has
returned (`final`). A job can come back when a task that has read it goes on to write it as
pending or running (`Task.Revives`), or when its execution ends in a `reschedule`
(`Task.Reschedules`): the completion handler writes back the clone it was started with and
never looks at the stored state. Without these, what is final stays so (`final_of_clear`).
-/
import NovaRuntime.Library.Runs
import NovaRuntime.Scheduler.ManagerSpec

namespace NovaRuntime.Scheduler

open NovaRuntime.Library

set_option autoImplicit false

variable {U : UuidText} {nextFire : Text → Int → Option Int} {config : SchedulerConfig}

/-- The job is stored as pending or running. -/
def Live (U : UuidText) (kv : KeyValue Stored) (id : Uuid) : Prop :=
  ∃ job, storedJob U kv id = some job ∧ (job.state = .pending ∨ job.state = .running)

/-! ## Tasks that bring a job back -/

def Caller.Revives (id : Uuid) : Caller → Prop
  | .recovery _ rest => ∃ job ∈ rest, job.id = id
  | _ => False

/-- The task has passed its last look at the job, and will write it as pending or running. -/
def Task.Revives (id : Uuid) : Task → Prop
  | .schedule job .storing => job.id = id
  | .resume target _ => target = id
  | .trigger target _ => target = id
  | .recover _ jobs => ∃ job ∈ jobs, job.id = id
  | .dispatch job caller _ => job.id = id ∨ caller.Revives id
  | .execution job (.rescheduling _) => job.id = id
  | .release caller => caller.Revives id
  | _ => False

/-- With this step an execution of the job decides to reschedule it. -/
def Task.Reschedules (nextFire : Text → Int → Option Int) (now : Int) (succeeds : Bool) (id : Uuid) :
    Task → Prop
  | .execution job .running => job.id = id ∧ succeeds = false ∧ job.retryCount < job.maxRetries
  | .execution job .recurring =>
    job.id = id ∧ job.isRecurring = true ∧ computeNextRun nextFire now job ≠ none
  | _ => False

/-- The job the step writes as cancelled. -/
def Task.cancelled : Task → Option Uuid
  | .cancel id (.writing _) => some id
  | _ => none

/-- The job whose `cancel_job` returns with the step. -/
def Task.returned : Task → Option Uuid
  | .cancel id .fromRunning => some id
  | _ => none

/-! ## The manager and what was cancelled -/

structure Watched where
  manager : Manager
  closed : Finset Uuid
  final : Finset Uuid

namespace Watched

/-- The cancellations after an event. -/
def step (U : UuidText) (nextFire : Text → Int → Option Int) (config : SchedulerConfig)
    (w : Watched) (event : Event) : Watched :=
  let manager := w.manager.step U nextFire config event
  match event with
  | .triggerJob id => ⟨manager, w.closed.erase id, w.final.erase id⟩
  | .resumeJob id => ⟨manager, w.closed.erase id, w.final.erase id⟩
  | .advance i _ _ =>
    ⟨manager, (w.manager.tasks[i]?.bind Task.cancelled).elim w.closed fun id => insert id w.closed,
      (w.manager.tasks[i]?.bind Task.returned).elim w.final fun id =>
        if id ∈ w.closed then insert id w.final else w.final⟩
  | _ => ⟨manager, w.closed, w.final⟩

def new (config : SchedulerConfig) : Watched := ⟨.new config ∅, ∅, ∅⟩

/-- **Cancellation is final**: no cancelled job is pending or running. -/
def Final (U : UuidText) (w : Watched) : Prop := ∀ id ∈ w.final, ¬ Live U w.manager.shared.kv id

/-- When a job is written as cancelled, no other task is about to bring it back, and no
execution of a cancelled job reschedules it. -/
def ClearStep (nextFire : Text → Int → Option Int) (w : Watched) (i : Nat) (now : Int)
    (succeeds : Bool) (task : Task) : Prop :=
  (∀ id ∈ task.cancelled, ∀ other ∈ w.manager.others i, ¬ other.Revives id) ∧
    ∀ id ∈ w.closed, ¬ task.Reschedules nextFire now succeeds id

def Clear (nextFire : Text → Int → Option Int) (w : Watched) : Event → Prop
  | .advance i now succeeds =>
    ∀ task ∈ w.manager.tasks[i]?, w.ClearStep nextFire i now succeeds task
  | _ => True

/-- A cancelled job is known and not live, and no task is about to bring it back. -/
structure Quiet (U : UuidText) (w : Watched) : Prop where
  closed_of_final : ∀ id ∈ w.final, id ∈ w.closed
  known : ∀ id ∈ w.closed, Known U w.manager.shared.kv id
  idle : ∀ id ∈ w.closed, ¬ Live U w.manager.shared.kv id
  unrevived : ∀ id ∈ w.closed, ∀ task ∈ w.manager.tasks, ¬ task.Revives id

end Watched

/-! ## One step -/

section Step

variable {s : Shared} {task : Task} {now : Int} {succeeds : Bool} {id : Uuid}

/-- Who writes a job as pending or running revives it. -/
theorem revives_of_written {known : Uuid → Prop} (sound : task.Sound known) {job : Job}
    (written : task.written now = some job) (live : job.state = .pending ∨ job.state = .running) :
    task.Revives job.id := by
  cases task with
  | schedule target place =>
    cases place with
    | storing =>
      cases written
      rfl
    | _ => cases written
  | register target => cases written
  | cancel target place | pause target place =>
    cases place with
    | writing read =>
      cases written
      rcases live with live | live <;> cases live
    | _ => cases written
  | resume target read =>
    cases read with
    | none => cases written
    | some read =>
      cases written
      exact sound.1.symm
  | trigger target place =>
    cases place with
    | writing read =>
      cases written
      exact sound.1.symm
    | _ => cases written
  | look due | fetch target rest => cases written
  | recover started jobs =>
    cases jobs with
    | nil => cases written
    | cons first rest =>
      rw [Task.written] at written
      split at written
      · cases written
        exact ⟨first, .head _, rfl⟩
      · cases written
  | dispatch target caller place =>
    cases place with
    | markWriting read =>
      cases written
      exact .inl sound.2.symm
    | _ => cases written
  | execution target place =>
    cases place with
    | completedWriting read =>
      cases written
      rcases live with live | live <;> cases live
    | rescheduling nextRunAt =>
      cases written
      rfl
    | failedWriting read =>
      cases written
      rcases live with live | live <;> cases live
    | _ => cases written
  | release caller => cases written

theorem Caller.revives_of_next {caller : Caller} {next : Task} (member : next ∈ caller.next)
    (revives : next.Revives id) : caller.Revives id := by
  cases caller with
  | trigger => cases member
  | tick rest | recovery started rest =>
    cases List.mem_singleton.mp member
    exact revives

/-- **Nothing starts to bring a job back** but a reader that finds it live, a check that does
not find it at all, and an execution that reschedules it. -/
theorem unrevived_next (laws : U.Laws) (keyed : WellKeyed U s.kv)
    (sound : task.Sound (Known U s.kv)) (known : Known U s.kv id)
    (idle : ¬ Live U s.kv id) (unrevived : ¬ task.Revives id)
    (settled : ¬ task.Reschedules nextFire now succeeds id) :
    ∀ next ∈ (task.step U nextFire config s now succeeds).2, ¬ next.Revives id := by
  have single (t : Task) (quiet : ¬ t.Revives id) : ∀ next ∈ [t], ¬ next.Revives id := by
    simpa using quiet
  have nothing : ∀ next ∈ ([] : List Task), ¬ next.Revives id := by simp
  cases task with
  | schedule job place =>
    cases place with
    | validating visited stack =>
      cases stack with
      | nil => exact single _ not_false
      | cons depId stack =>
        simp only [Task.step, scheduleStep]
        split
        · exact nothing
        · split
          · exact single _ not_false
          · exact Shared.forall_reading (fun _ _ => single _ not_false) fun _ => single _ not_false
    | checking =>
      by_cases here : job.id = id
      · obtain ⟨e, refused⟩ := checkNew_of_known job (here ▸ known)
        simp only [Task.step, scheduleStep, refused]
        exact nothing
      · simp only [Task.step, scheduleStep]
        cases (checkNew U job s.kv).1 with
        | ok _ => exact single _ here
        | _ => exact nothing
    | _ => exact single _ not_false
  | register job => exact nothing
  | cancel target place =>
    cases place with
    | reading => exact Shared.forall_reading (fun _ _ => single _ not_false) fun _ => nothing
    | writing job => exact Shared.forall_writing (single _ not_false) nothing
    | fromRunning => exact nothing
    | _ => exact single _ not_false
  | pause target place =>
    cases place with
    | reading => exact Shared.forall_reading (fun _ _ => single _ not_false) fun _ => nothing
    | writing job => exact Shared.forall_writing (single _ not_false) nothing
    | fromWheel => exact single _ not_false
    | fromQueue => exact nothing
  | resume target read =>
    cases read with
    | none => exact Shared.forall_reading (fun _ _ => single _ unrevived) fun _ => nothing
    | some job => exact Shared.forall_writing (single _ not_false) nothing
  | trigger target place =>
    cases place with
    | reading => exact Shared.forall_reading (fun _ _ => single _ unrevived) fun _ => nothing
    | writing job =>
      obtain ⟨rfl, -⟩ := sound
      exact Shared.forall_writing (single _ fun revives => revives.elim unrevived fun never => never) nothing
    | _ => exact single _ unrevived
  | look due =>
    cases due with
    | nil => exact nothing
    | cons first rest =>
      simp only [Task.step, lookStep]
      split <;> exact single _ not_false
  | fetch target rest =>
    refine Shared.forall_reading (fun job stored => ?_) fun _ => single _ not_false
    split
    · next pending =>
        refine single _ fun revives => ?_
        rcases revives with here | impossible
        · have same := keyed.id_eq laws stored
          rw [← same, here] at stored
          exact idle ⟨job, stored, .inl pending⟩
        · exact impossible
    · exact single _ not_false
  | recover started jobs =>
    cases jobs with
    | nil => exact nothing
    | cons first rest =>
      have later : ¬ Task.Revives id (.recover started rest) := by
        rintro ⟨job, member, same⟩
        exact unrevived ⟨job, .tail _ member, same⟩
      simp only [Task.step, recoverStep]
      split
      · split
        · refine single _ fun revives => ?_
          rcases revives with here | inRest
          · exact unrevived ⟨first, .head _, here⟩
          · exact later inRest
        · exact single _ later
      · split
        · exact Shared.forall_writing (single _ later) (single _ later)
        · exact single _ later
  | dispatch job caller place =>
    have handsBack : ∀ next ∈ caller.next, ¬ next.Revives id :=
      fun next member revives => unrevived (.inr (Caller.revives_of_next member revives))
    cases place with
    | overlap =>
      simp only [Task.step, dispatchStep]
      split
      · exact handsBack
      · exact single _ unrevived
    | depending deps =>
      cases deps with
      | nil => exact single _ unrevived
      | cons depId deps =>
        refine Shared.forall_reading (fun depJob _ => ?_) fun _ => single _ unrevived
        split <;> exact single _ unrevived
    | requeueing => exact handsBack
    | acquiring =>
      simp only [Task.step, dispatchStep]
      split <;> exact single _ unrevived
    | inserting => exact single _ unrevived
    | markReading => exact Shared.forall_reading (fun _ _ => single _ unrevived) fun _ => single _ unrevived
    | markWriting read => exact Shared.forall_writing (List.forall_mem_cons.mpr ⟨not_false, handsBack⟩) (single _ unrevived)
    | removing => exact single _ fun revives => unrevived (.inr revives)
  | execution job place =>
    cases place with
    | running =>
      simp only [Task.step, executionStep]
      split
      · exact single _ not_false
      · next failed =>
          split
          · next retries =>
              exact single _ fun here => settled ⟨here, by simpa using failed, retries⟩
          · exact single _ not_false
    | completedReading => exact Shared.forall_reading (fun _ _ => single _ not_false) fun _ => single _ not_false
    | completedWriting read => exact Shared.forall_writing (single _ not_false) (single _ not_false)
    | recurring =>
      simp only [Task.step, executionStep]
      split
      · next recurs =>
          rcases found : computeNextRun nextFire now job with _ | nextRunAt
          · exact single _ not_false
          · exact single _ fun here => settled ⟨here, recurs, by simp [found]⟩
      · exact single _ not_false
    | rescheduling nextRunAt => exact Shared.forall_writing (single _ not_false) (single _ not_false)
    | failedReading => exact Shared.forall_reading (fun _ _ => single _ not_false) fun _ => single _ not_false
    | failedWriting read => exact Shared.forall_writing (single _ not_false) (single _ not_false)
    | removing => exact single _ not_false
  | release caller =>
    exact fun next member revives => unrevived (Caller.revives_of_next member revives)

/-- A job that is not live stays so, unless the task revives it. -/
theorem idle_step (laws : U.Laws) (sound : task.Sound (Known U s.kv)) (idle : ¬ Live U s.kv id)
    (unrevived : ¬ task.Revives id) :
    ¬ Live U (task.step U nextFire config s now succeeds).1.kv id := by
  rintro ⟨job, stored, live⟩
  rw [storedJob_step laws sound] at stored
  rcases written : task.written now with _ | new
  · rw [written, Option.elim_none] at stored
    exact idle ⟨job, stored, live⟩
  · rw [written, Option.elim_some] at stored
    by_cases here : id = new.id
    · rw [if_pos here] at stored
      cases stored
      rw [here] at unrevived
      exact unrevived (revives_of_written sound written live)
    · rw [if_neg here] at stored
      exact idle ⟨job, stored, live⟩

theorem eq_of_cancelled (cancelled : task.cancelled = some id) :
    ∃ job, task = .cancel id (.writing job) := by
  unfold Task.cancelled at cancelled
  split at cancelled
  · cases cancelled
    exact ⟨_, rfl⟩
  · cases cancelled

/-- The write of `cancel_job` leaves the job known and not live, and nothing of it goes on
to bring the job back. -/
theorem cancelled_step (laws : U.Laws) (sound : task.Sound (Known U s.kv))
    (cancelled : task.cancelled = some id) :
    Known U (task.step U nextFire config s now succeeds).1.kv id ∧
      ¬ Live U (task.step U nextFire config s now succeeds).1.kv id ∧
        ∀ next ∈ (task.step U nextFire config s now succeeds).2, ¬ next.Revives id := by
  obtain ⟨job, rfl⟩ := eq_of_cancelled cancelled
  have stored : storedJob U (Task.step U nextFire config s now succeeds
      (.cancel id (.writing job))).1.kv id = some (markedAs .cancelled now job) := by
    rw [storedJob_step laws sound, Task.written, Option.elim_some]
    exact if_pos sound.1.symm
  obtain ⟨rfl, known⟩ := sound
  refine ⟨known_of_stored stored, ?_, ?_⟩
  · rintro ⟨other, found, live⟩
    obtain rfl : markedAs .cancelled now job = other := Option.some.inj (stored.symm.trans found)
    rcases live with live | live <;> cases live
  · exact Shared.forall_writing (List.forall_mem_singleton.mpr not_false) (List.forall_mem_nil _)

end Step

/-! ## Runs -/

namespace Watched

variable {w : Watched}

theorem Quiet.mono {w' : Watched} (quiet : w.Quiet U) (kv : w'.manager.shared.kv = w.manager.shared.kv)
    (final : ∀ id ∈ w'.final, id ∈ w'.closed) (closed : ∀ id ∈ w'.closed, id ∈ w.closed)
    (unrevived : ∀ id ∈ w'.closed, ∀ task ∈ w'.manager.tasks, task ∈ w.manager.tasks ∨ ¬ task.Revives id) :
    w'.Quiet U where
  closed_of_final := final
  known id member := by
    rw [kv]
    exact quiet.known id (closed id member)
  idle id member := by
    rw [kv]
    exact quiet.idle id (closed id member)
  unrevived id member task inTasks :=
    (unrevived id member task inTasks).elim (quiet.unrevived id (closed id member) task) fun never => never

/-- A call that revives no closed job. -/
theorem Quiet.spawn {w' : Watched} (quiet : w.Quiet U) {task : Task}
    (spawned : w'.manager = w.manager.spawn task) (final : ∀ id ∈ w'.final, id ∈ w'.closed)
    (closed : ∀ id ∈ w'.closed, id ∈ w.closed ∧ ¬ task.Revives id) : w'.Quiet U := by
  refine quiet.mono (by rw [spawned]; rfl) final (fun id member => (closed id member).1) ?_
  intro id member other inTasks
  rw [spawned] at inTasks
  rcases List.mem_append.mp inTasks with before | new
  · exact .inl before
  · cases List.mem_singleton.mp new
    exact .inr (closed id member).2

theorem Quiet.advance (laws : U.Laws) (sound : w.manager.Sound U) (quiet : w.Quiet U) {i : Nat}
    {now : Int} {succeeds : Bool} (clear : w.Clear nextFire (.advance i now succeeds)) :
    (w.step U nextFire config (.advance i now succeeds)).Quiet U := by
  rcases here : w.manager.tasks[i]? with _ | task
  · have still : w.step U nextFire config (.advance i now succeeds) = w := by
      simp [Watched.step, Manager.step, here]
    rwa [still]
  have present := Manager.mem_tasks here
  have taskSound := sound.tasks task present
  obtain ⟨cancels, settled⟩ := clear task here
  let closed := task.cancelled.elim w.closed fun id => insert id w.closed
  have stepped : w.step U nextFire config (.advance i now succeeds) =
      ⟨⟨(task.step U nextFire config w.manager.shared now succeeds).1,
          w.manager.others i ++ (task.step U nextFire config w.manager.shared now succeeds).2⟩, closed,
        task.returned.elim w.final fun id => if id ∈ w.closed then insert id w.final else w.final⟩ := by
    simp [Watched.step, Manager.step_advance here, here, closed]
  rw [stepped]
  -- a job is closed before the step, or by it
  have closed_iff (id : Uuid) : id ∈ closed ↔ id ∈ w.closed ∨ task.cancelled = some id := by
    dsimp only [closed]
    rcases task.cancelled with _ | target
    · simp
    · simp [or_comm, eq_comm]
  have final (id : Uuid) (member : id ∈ w.final) : id ∈ closed := (closed_iff id).mpr (.inl (quiet.closed_of_final id member))
  refine ⟨fun id member => ?_, fun id member => ?_, fun id member => ?_, fun id member other inTasks => ?_⟩
  · rcases returned : task.returned with _ | target <;> rw [returned] at member
    · exact final id member
    · rw [Option.elim_some] at member
      split at member
      · next before =>
          rcases Finset.mem_insert.mp member with rfl | member
          · exact (closed_iff id).mpr (.inl before)
          · exact final id member
      · exact final id member
  · rcases (closed_iff id).mp member with before | cancelled
    · exact Known.step laws taskSound now succeeds (quiet.known id before)
    · exact (cancelled_step laws taskSound cancelled).1
  · rcases (closed_iff id).mp member with before | cancelled
    · exact idle_step laws taskSound (quiet.idle id before) (quiet.unrevived id before task present)
    · exact (cancelled_step laws taskSound cancelled).2.1
  · rcases (closed_iff id).mp member with before | cancelled <;> rcases List.mem_append.mp inTasks with beside | next
    · exact quiet.unrevived id before other (Manager.mem_others beside)
    · exact unrevived_next laws sound.keyed taskSound (quiet.known id before) (quiet.idle id before)
        (quiet.unrevived id before task present) (settled id before) other next
    · exact cancels id cancelled other beside
    · exact (cancelled_step laws taskSound cancelled).2.2 other next

theorem Quiet.tick {w' : Watched} (quiet : w.Quiet U) {event : Event}
    (tick : event = .wheelTick ∨ ∃ now, event = .queueTick now)
    (stepped : w' = ⟨w.manager.step U nextFire config event, w.closed, w.final⟩) : w'.Quiet U := by
  subst stepped
  rcases w.manager.step_tick tick with same | ⟨wheel, queue, due, after⟩
  · rwa [same]
  · rw [after]
    refine quiet.mono rfl quiet.closed_of_final (fun _ => id) fun id _ task inTasks => ?_
    rcases List.mem_append.mp inTasks with before | new
    · exact .inl before
    · cases List.mem_singleton.mp new
      exact .inr not_false

theorem Quiet.crash (laws : U.Laws) (sound : w.manager.Sound U) (quiet : w.Quiet U) (now : Int) :
    (w.step U nextFire config (.crash now)).Quiet U := by
  show Quiet U ⟨w.manager.step U nextFire config (.crash now), w.closed, w.final⟩
  rcases w.manager.step_crash now with after | after
  · rw [after]
    refine quiet.mono rfl quiet.closed_of_final (fun _ => id) fun id _ task inTasks => ?_
    cases inTasks
  · rw [after]
    refine quiet.mono rfl quiet.closed_of_final (fun _ => id) fun id closed task inTasks => ?_
    obtain rfl := List.mem_singleton.mp inTasks
    refine .inr fun ⟨job, read, same⟩ => quiet.idle id closed ?_
    obtain ⟨stored, live⟩ := mem_recoverPendingJobs laws sound.keyed read
    exact ⟨job, same ▸ stored, live⟩

/-- **A step in which nothing brings a cancelled job back** leaves them all quiet. -/
theorem Quiet.step (laws : U.Laws) (sound : w.manager.Sound U) (quiet : w.Quiet U) {event : Event}
    (clear : w.Clear nextFire event) : (w.step U nextFire config event).Quiet U := by
  cases event with
  | scheduleJob job fresh | cancelJob target | pauseJob target =>
    exact quiet.spawn rfl quiet.closed_of_final fun id member => ⟨member, not_false⟩
  | resumeJob target | triggerJob target =>
    refine quiet.spawn rfl (fun id member => ?_) fun id member => ?_
    · obtain ⟨other, before⟩ := Finset.mem_erase.mp member
      exact Finset.mem_erase.mpr ⟨other, quiet.closed_of_final id before⟩
    · obtain ⟨other, before⟩ := Finset.mem_erase.mp member
      exact ⟨before, other.symm⟩
  | wheelTick => exact quiet.tick (.inl rfl) rfl
  | queueTick now => exact quiet.tick (.inr ⟨now, rfl⟩) rfl
  | advance i now succeeds => exact quiet.advance laws sound clear
  | crash now => exact quiet.crash laws sound now

theorem step_manager (w : Watched) (event : Event) :
    (w.step U nextFire config event).manager = w.manager.step U nextFire config event := by
  cases event <;> rfl

/-! ### Decidability -/

instance (kv : KeyValue Stored) (id : Uuid) : Decidable (Live U kv id) :=
  decidable_of_iff (∃ job ∈ storedJob U kv id, job.state = .pending ∨ job.state = .running) Iff.rfl

instance (id : Uuid) (caller : Caller) : Decidable (caller.Revives id) := by
  unfold Caller.Revives
  split <;> infer_instance

instance (id : Uuid) (task : Task) : Decidable (task.Revives id) := by
  unfold Task.Revives
  split <;> infer_instance

instance (now : Int) (succeeds : Bool) (id : Uuid) (task : Task) :
    Decidable (task.Reschedules nextFire now succeeds id) := by
  unfold Task.Reschedules
  split <;> infer_instance

-- the instances are named: the search would run through all identifiers
instance (w : Watched) (i : Nat) (now : Int) (succeeds : Bool) (task : Task) :
    Decidable (w.ClearStep nextFire i now succeeds task) :=
  @instDecidableAnd _ _ (Option.decidableForallMem task.cancelled) Finset.decidableDforallFinset

instance (w : Watched) (event : Event) : Decidable (w.Clear nextFire event) := by
  unfold Clear
  split <;> infer_instance

/-- **Where cancellation is final**: in every state of such a run, no job whose `cancel_job`
has returned is stored as pending or running, unless it was triggered or resumed since. -/
theorem final_of_clear (laws : U.Laws) (nextFire : Text → Int → Option Int) (config : SchedulerConfig)
    {events : List Event}
    (clear : Run.Each (step U nextFire config) (Clear nextFire) (new config) events) :
    Run.Always (step U nextFire config) (Final U) (new config) events := by
  let Inv (w : Watched) : Prop := w.manager.Sound U ∧ w.Quiet U
  have start : Inv (new config) :=
    ⟨Manager.sound_start config, by constructor <;> simp [new]⟩
  have keeps (w : Watched) (event : Event) (held : Inv w) (meets : w.Clear nextFire event) :
      Inv (w.step U nextFire config event) := by
    refine ⟨?_, held.2.step laws held.1 meets⟩
    rw [step_manager]
    exact held.1.step laws event
  intro w reached id member
  have held := (Run.Each.invariant keeps start clear w reached).2
  exact held.idle id (held.closed_of_final id member)

/-! ### Two runs -/

/-- The job is scheduled, triggered, and cancelled while it is executed; the execution ends. -/
def sampleRun (scheduleType : ScheduleType) : List Event :=
  .scheduleJob (Manager.sampleJob scheduleType) 2 :: List.replicate 5 (.advance 0 0 true) ++
    .triggerJob 1 :: List.replicate 10 (.advance 0 0 true) ++
    .cancelJob 1 :: List.replicate 5 (.advance 1 0 true) ++ List.replicate 5 (.advance 0 0 true)

theorem final_of_clear_sample :
    Run.Always (step .hyphenated (fun _ _ => none) Manager.sampleConfig) (Final .hyphenated)
      (new Manager.sampleConfig) (sampleRun .oneTime) :=
  final_of_clear Queue.UuidText.laws_hyphenated _ _ (by decide +kernel)

/-- A recurring job that is cancelled while it is executed is pending again when the
execution ends. -/
theorem not_final : ¬ ∀ (U : UuidText), U.Laws → ∀ (nextFire : Text → Int → Option Int)
    (config : SchedulerConfig) (events : List Event),
    Run.Always (step U nextFire config) (Final U) (new config) events := by
  intro all
  have last := all .hyphenated Queue.UuidText.laws_hyphenated (fun _ _ => none) Manager.sampleConfig
    (sampleRun .interval) _ (Run.foldl_mem_states _ _)
  exact absurd (last 1 (by decide +kernel)) (by decide +kernel)

end Watched

end NovaRuntime.Scheduler
