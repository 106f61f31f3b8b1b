/-
# NovaRuntime.Scheduler.Overlap — when executions of a job do not overlap

An execution is in flight from the insertion of its job into `running_jobs` to the removal
(`Task.flight`). The check of `prevent_overlap` and the insertion are apart: a dispatch
reads its dependencies and waits for a permit in between, and takes no second look. A set
counts an identifier once: the first of two executions removes it for both, and so does
`cancel_job`. `Alone` excludes the three, and then `running_jobs` is exact and no job is
executed twice at once (`noOverlap_of_alone`).
-/
import Mathlib.Data.List.Nodup
import NovaRuntime.Library.Runs
import NovaRuntime.Scheduler.ManagerSpec

namespace NovaRuntime.Scheduler

open NovaRuntime.Library

set_option autoImplicit false

variable {U : UuidText} {nextFire : Text → Int → Option Int} {config : SchedulerConfig}

/-! ## Executions in flight -/

/-- The job the task has in flight. -/
def Task.flight : Task → Option Job
  | .dispatch job _ .markReading => some job
  | .dispatch job _ (.markWriting _) => some job
  | .dispatch job _ .removing => some job
  | .execution job _ => some job
  | _ => none

/-- The job for which the task is between the check for an overlap and the insertion. -/
def Task.checked : Task → Option Job
  | .dispatch job _ (.depending _) => some job
  | .dispatch job _ .acquiring => some job
  | .dispatch job _ .inserting => some job
  | _ => none

def Task.flying (task : Task) : List Uuid := (task.flight.map Job.id).toList

def Task.engaged (task : Task) : List Uuid := ((task.checked.or task.flight).map Job.id).toList

namespace Manager

/-- **No overlapping runs**: of two executions of a job in flight neither prevents overlaps,
and `running_jobs` has a job exactly while an execution of it is in flight. -/
structure NoOverlap (m : Manager) : Prop where
  apart : m.tasks.Pairwise fun a b => ∀ job ∈ a.flight, ∀ other ∈ b.flight, job.id = other.id →
    job.preventOverlap = false ∧ other.preventOverlap = false
  running : ∀ id, id ∈ m.shared.running ↔ ∃ task ∈ m.tasks, ∃ job ∈ task.flight, job.id = id

/-- No dispatch passes the check while another one of the job has passed it and not
inserted the job, or, where the job lets runs overlap, while the job runs; and no running
job is removed by `cancel_job`. -/
def AloneStep (m : Manager) (i : Nat) : Task → Prop
  | .dispatch job _ .overlap =>
    (job.preventOverlap = true → job.id ∉ m.shared.running) →
      job.id ∉ m.shared.running ∧ ∀ other ∈ m.others i, ∀ passed ∈ other.checked, passed.id ≠ job.id
  | .cancel id .fromRunning => id ∉ m.shared.running
  | _ => True

def Alone (m : Manager) : Event → Prop
  | .advance i _ _ => ∀ task ∈ m.tasks[i]?, m.AloneStep i task
  | _ => True

/-- Each job has one dispatch or execution at most, and is in `running_jobs` while that is in
flight. -/
structure Sole (m : Manager) : Prop where
  nodup : (m.tasks.flatMap Task.engaged).Nodup
  running : ∀ id, id ∈ m.shared.running ↔ id ∈ m.tasks.flatMap Task.flying

end Manager

/-! ## One step -/

theorem Caller.engaged_next (caller : Caller) : caller.next.flatMap Task.engaged = [] := by
  cases caller <;> rfl

theorem Caller.flying_next (caller : Caller) : caller.next.flatMap Task.flying = [] := by
  cases caller <;> rfl

/-- What a step does to the executions in flight and to `running_jobs`. -/
inductive Flight (s : Shared) (task : Task) (after : Shared × List Task) : Prop where
  | passes (job : Job) (caller : Caller) (here : task = .dispatch job caller .overlap)
      (passed : ¬ (job.preventOverlap = true ∧ job.id ∈ s.running)) (running : after.1.running = s.running)
      (engaged : after.2.flatMap Task.engaged = [job.id]) (flying : after.2.flatMap Task.flying = [])
  | keeps (running : after.1.running = s.running)
      (engaged : (after.2.flatMap Task.engaged).Sublist task.engaged)
      (flying : after.2.flatMap Task.flying = task.flying)
  | starts (id : Uuid) (running : after.1.running = insert id s.running)
      (engaged : after.2.flatMap Task.engaged = task.engaged) (none : task.flying = [])
      (flying : after.2.flatMap Task.flying = [id])
  | ends (id : Uuid) (running : after.1.running = s.running.erase id) (was : task.flying = [id])
      (same : task.engaged = [id])
      (engaged : after.2.flatMap Task.engaged = []) (flying : after.2.flatMap Task.flying = [])
  | cancels (id : Uuid) (here : task = .cancel id .fromRunning)
      (running : after.1.running = s.running.erase id) (ended : after.2 = [])

theorem flying_of_engaged {task : Task} (none : task.engaged = []) : task.flying = [] := by
  rw [Task.engaged, Option.toList_eq_nil_iff, Option.map_eq_none_iff, Option.or_eq_none_iff] at none
  rw [Task.flying, none.2]
  rfl

section Step

variable {s : Shared} {now : Int} {succeeds : Bool}

/-- A step between places that have no dispatch and no execution. -/
theorem Flight.quiet {task : Task} {after : Shared × List Task} (was : task.flying = [])
    (running : after.1.running = s.running) (none : ∀ next ∈ after.2, next.engaged = []) :
    Flight s task after := by
  have engaged : after.2.flatMap Task.engaged = [] := List.flatMap_eq_nil_iff.mpr none
  have flying : after.2.flatMap Task.flying = [] :=
    List.flatMap_eq_nil_iff.mpr fun next member => flying_of_engaged (none next member)
  exact .keeps running (by rw [engaged]; exact List.nil_sublist _) (by rw [flying, was])

/-- A step to one place like the one before. -/
theorem Flight.same {task next : Task} {after : Shared × List Task} (goes : after = (s, [next]))
    (engaged : next.engaged = task.engaged) (flying : next.flying = task.flying) :
    Flight s task after := by
  subst goes
  refine .keeps rfl ?_ ?_
  · rw [List.flatMap_singleton, engaged]
  · rw [List.flatMap_singleton, flying]

theorem flight_dispatch (job : Job) (caller : Caller) (place : Dispatching) :
    Flight s (.dispatch job caller place) (dispatchStep U s now job caller place) := by
  cases place with
  | overlap =>
    by_cases overlapping : job.preventOverlap = true ∧ job.id ∈ s.running
    · refine .keeps ?_ ?_ ?_ <;> simp only [dispatchStep, if_pos overlapping]
      · rw [Caller.engaged_next]
        exact List.nil_sublist _
      · exact Caller.flying_next caller
    · refine .passes job caller rfl overlapping ?_ ?_ ?_ <;>
        simp only [dispatchStep, if_neg overlapping] <;> rfl
  | depending deps =>
    cases deps with
    | nil => exact .same rfl rfl rfl
    | cons depId deps =>
      rcases s.reading_cases (U := U) depId (fun depJob =>
          if depJob.state ≠ .completed then [.dispatch job caller .requeueing]
          else [.dispatch job caller (.depending deps)])
          [.dispatch job caller (.depending deps)] with ⟨depJob, -, result⟩ | ⟨-, result⟩
      · by_cases unmet : depJob.state ≠ .completed
        · rw [if_pos unmet] at result
          have goes : dispatchStep U s now job caller (.depending (depId :: deps)) =
              (s, [.dispatch job caller .requeueing]) := result
          rw [goes]
          exact .quiet rfl rfl (List.forall_mem_singleton.mpr rfl)
        · rw [if_neg unmet] at result
          exact .same result rfl rfl
      · exact .same result rfl rfl
  | requeueing =>
    refine .keeps rfl ?_ ?_ <;> simp only [dispatchStep]
    · rw [Caller.engaged_next]
      exact List.nil_sublist _
    · exact Caller.flying_next caller
  | acquiring =>
    simp only [dispatchStep]
    split
    · exact .same rfl rfl rfl
    · exact .keeps rfl (.refl _) rfl
  | inserting => exact .starts job.id rfl rfl rfl rfl
  | markReading =>
    rcases s.reading_cases (U := U) job.id (fun read => [.dispatch job caller (.markWriting read)])
      [.dispatch job caller .removing] with ⟨read, -, result⟩ | ⟨-, result⟩
    · exact .same result rfl rfl
    · exact .same result rfl rfl
  | markWriting read =>
    simp only [dispatchStep, Shared.writing]
    cases (updateJob U (markedAs .running now read) s.kv).1 with
    | ok _ =>
      refine .keeps rfl ?_ ?_
      · rw [Outcome.elim, List.flatMap_cons, Caller.engaged_next]
        exact .refl _
      · rw [Outcome.elim, List.flatMap_cons, Caller.flying_next]
        rfl
    | _ => exact .keeps rfl (.refl _) rfl
  | removing => exact .ends job.id rfl rfl rfl rfl rfl

theorem flight_execution (job : Job) (place : Executing) :
    Flight s (.execution job place) (executionStep U nextFire s now succeeds job place) := by
  have goesOn (kv : KeyValue Stored) (next : Executing) :
      Flight s (.execution job place) ({ s with kv := kv }, [.execution job next]) :=
    .keeps rfl (.refl _) rfl
  cases place with
  | running =>
    simp only [executionStep]
    split
    · exact goesOn s.kv _
    · split <;> exact goesOn s.kv _
  | completedReading =>
    simp only [executionStep, Shared.reading]
    cases (getJob U job.id s.kv).1 <;> exact goesOn s.kv _
  | completedWriting read =>
    simp only [executionStep, Shared.writing]
    cases (updateJob U (markedAs .completed now read) s.kv).1 <;> exact goesOn _ _
  | recurring =>
    simp only [executionStep]
    split <;> exact goesOn s.kv _
  | rescheduling nextRunAt =>
    simp only [executionStep, Shared.writing]
    cases (updateJob U (rescheduled now nextRunAt job) s.kv).1 <;> exact goesOn _ _
  | failedReading =>
    simp only [executionStep, Shared.reading]
    cases (getJob U job.id s.kv).1 <;> exact goesOn s.kv _
  | failedWriting read =>
    simp only [executionStep, Shared.writing]
    cases (updateJob U (markedAs .failed now read) s.kv).1 <;> exact goesOn _ _
  | removing => exact .ends job.id rfl rfl rfl rfl rfl

/-- **Every step** is of one of the five kinds. -/
theorem flight_step (task : Task) :
    Flight s task (task.step U nextFire config s now succeeds) := by
  have single (t : Task) (idle : t.engaged = []) : ∀ next ∈ [t], next.engaged = [] :=
    List.forall_mem_singleton.mpr idle
  have nothing : ∀ next ∈ ([] : List Task), next.engaged = [] := by simp
  cases task with
  | schedule job place =>
    cases place with
    | validating visited stack =>
      cases stack with
      | nil => exact .quiet rfl rfl (single _ rfl)
      | cons depId stack =>
        simp only [Task.step, scheduleStep]
        split
        · exact .quiet rfl rfl nothing
        · split
          · exact .quiet rfl rfl (single _ rfl)
          · exact .quiet rfl rfl
              (Shared.forall_reading (fun _ _ => single _ rfl) fun _ => single _ rfl)
    | checking =>
      simp only [Task.step, scheduleStep]
      cases (checkNew U job s.kv).1 with
      | ok _ => exact .quiet rfl rfl (single _ rfl)
      | _ => exact .quiet rfl rfl nothing
    | _ => exact .quiet rfl rfl (single _ rfl)
  | register job =>
    simp only [Task.step, Shared.register]
    split <;> exact .quiet rfl rfl nothing
  | cancel target place =>
    cases place with
    | reading => exact .quiet rfl rfl (Shared.forall_reading (fun _ _ => single _ rfl) fun _ => nothing)
    | writing job => exact .quiet rfl rfl (Shared.forall_writing (single _ rfl) nothing)
    | fromRunning => exact .cancels target rfl rfl rfl
    | _ => exact .quiet rfl rfl (single _ rfl)
  | pause target place =>
    cases place with
    | reading => exact .quiet rfl rfl (Shared.forall_reading (fun _ _ => single _ rfl) fun _ => nothing)
    | writing job => exact .quiet rfl rfl (Shared.forall_writing (single _ rfl) nothing)
    | fromWheel => exact .quiet rfl rfl (single _ rfl)
    | fromQueue => exact .quiet rfl rfl nothing
  | resume target read =>
    cases read with
    | none => exact .quiet rfl rfl (Shared.forall_reading (fun _ _ => single _ rfl) fun _ => nothing)
    | some job => exact .quiet rfl rfl (Shared.forall_writing (single _ rfl) nothing)
  | trigger target place =>
    cases place with
    | reading => exact .quiet rfl rfl (Shared.forall_reading (fun _ _ => single _ rfl) fun _ => nothing)
    | writing job => exact .quiet rfl rfl (Shared.forall_writing (single _ rfl) nothing)
    | _ => exact .quiet rfl rfl (single _ rfl)
  | look due =>
    cases due with
    | nil => exact .quiet rfl rfl nothing
    | cons first rest =>
      simp only [Task.step, lookStep]
      split <;> exact .quiet rfl rfl (single _ rfl)
  | fetch target rest =>
    refine .quiet rfl rfl (Shared.forall_reading (fun job _ => ?_) fun _ => single _ rfl)
    split <;> exact single _ rfl
  | recover started jobs =>
    cases jobs with
    | nil => exact .quiet rfl rfl nothing
    | cons first rest =>
      simp only [Task.step, recoverStep]
      split
      · split <;> exact .quiet rfl rfl (single _ rfl)
      · split
        · exact .quiet rfl rfl (Shared.forall_writing (single _ rfl) (single _ rfl))
        · exact .quiet rfl rfl (single _ rfl)
  | dispatch job caller place => exact flight_dispatch job caller place
  | execution job place => exact flight_execution job place
  | release caller =>
    exact .quiet rfl rfl (List.flatMap_eq_nil_iff.mp (Caller.engaged_next caller))

end Step

/-! ## Runs -/

namespace Manager

variable {m : Manager}

/-- The identifiers of the tasks but for order: those of the one at hand and of the others. -/
theorem perm_flatMap {i : Nat} {task : Task} (here : m.tasks[i]? = some task) (f : Task → List Uuid) :
    (m.tasks.flatMap f).Perm (f task ++ (m.others i).flatMap f) := by
  obtain ⟨inside, rfl⟩ := List.getElem?_eq_some_iff.mp here
  have split := (List.getElem_cons_eraseIdx_perm inside).symm.flatMap_right f
  rwa [List.flatMap_cons] at split

theorem engaged_iff {task : Task} {id : Uuid} :
    id ∈ task.engaged ↔ (∃ job ∈ task.checked, job.id = id) ∨ id ∈ task.flying := by
  cases task with
  | dispatch job caller place => cases place <;> simp [Task.engaged, Task.flying, Task.checked, Task.flight, eq_comm]
  | _ => simp [Task.engaged, Task.flying, Task.checked, Task.flight]

theorem engaged_of_flying {tasks : List Task} {id : Uuid} (member : id ∈ tasks.flatMap Task.flying) :
    id ∈ tasks.flatMap Task.engaged := by
  obtain ⟨task, inTasks, flies⟩ := List.mem_flatMap.mp member
  exact List.mem_flatMap.mpr ⟨task, inTasks, engaged_iff.mpr (.inr flies)⟩

section

variable (sole : m.Sole)

include sole

theorem Sole.spawn {task : Task} (idle : task.engaged = []) : (m.spawn task).Sole where
  nodup := by simpa [Manager.spawn, idle] using sole.nodup
  running id := by simpa [Manager.spawn, flying_of_engaged idle] using sole.running id

theorem Sole.timers (wheel : TimeWheel) (queue : PriorityQueue) :
    Sole { m with shared := { m.shared with wheel := wheel, queue := queue } } :=
  ⟨sole.nodup, sole.running⟩

theorem Sole.advance {i : Nat} {now : Int} {succeeds : Bool} (alone : m.Alone (.advance i now succeeds)) :
    (m.step U nextFire config (.advance i now succeeds)).Sole := by
  rcases here : m.tasks[i]? with _ | task
  · simpa only [Manager.step, here] using sole
  have meets := alone task here
  have split := perm_flatMap here Task.engaged
  have distinct : (task.engaged ++ (m.others i).flatMap Task.engaged).Nodup := split.nodup_iff.mp sole.nodup
  have runs (id : Uuid) : id ∈ m.shared.running ↔ id ∈ task.flying ∨ id ∈ (m.others i).flatMap Task.flying := by
    rw [sole.running, (perm_flatMap here Task.flying).mem_iff, List.mem_append]
  rw [step_advance here]
  -- what is engaged and what flies after the step, by the kind of it
  have after (running : Finset Uuid) (engaged flying : List Uuid)
      (hr : (task.step U nextFire config m.shared now succeeds).1.running = running)
      (he : (task.step U nextFire config m.shared now succeeds).2.flatMap Task.engaged = engaged)
      (hf : (task.step U nextFire config m.shared now succeeds).2.flatMap Task.flying = flying)
      (nodup : (engaged ++ (m.others i).flatMap Task.engaged).Nodup)
      (exact : ∀ id, id ∈ running ↔ id ∈ flying ∨ id ∈ (m.others i).flatMap Task.flying) :
      Sole { shared := (task.step U nextFire config m.shared now succeeds).1
             tasks := m.others i ++ (task.step U nextFire config m.shared now succeeds).2 } := by
    constructor
    · rw [List.flatMap_append, he]
      exact List.perm_append_comm.nodup_iff.mp nodup
    · intro id
      rw [List.flatMap_append, hf, hr, exact, List.mem_append]
      exact or_comm
  rcases flight_step (U := U) (s := m.shared) task with
    ⟨job, caller, rfl, passed, running, engaged, flying⟩ | ⟨running, engaged, flying⟩ |
    ⟨id, running, engaged, none, flying⟩ | ⟨id, running, was, same, engaged, flying⟩ |
    ⟨id, rfl, running, ended⟩
  · obtain ⟨idle, unchecked⟩ := meets fun prevents inside => passed ⟨prevents, inside⟩
    refine after _ _ _ running engaged flying (List.nodup_cons.mpr ⟨fun member => ?_, distinct⟩) runs
    obtain ⟨other, inOthers, isEngaged⟩ := List.mem_flatMap.mp member
    rcases engaged_iff.mp isEngaged with ⟨passing, isChecked, same⟩ | flies
    · exact unchecked other inOthers passing isChecked same
    · exact idle ((runs _).mpr (.inr (List.mem_flatMap.mpr ⟨other, inOthers, flies⟩)))
  · exact after _ _ _ running rfl flying (distinct.sublist (engaged.append_right _)) runs
  · refine after _ _ _ running engaged flying distinct fun other => ?_
    rw [Finset.mem_insert, runs, none, List.mem_singleton]
    simp
  · rw [same] at distinct
    have gone := (List.nodup_cons.mp distinct).1
    refine after _ _ _ running engaged flying (List.nodup_cons.mp distinct).2 fun other => ?_
    rw [Finset.mem_erase, runs, was, List.mem_singleton]
    constructor
    · rintro ⟨different, rfl | member⟩
      · exact absurd rfl different
      · exact .inr member
    · rintro (never | member)
      · cases never
      · refine ⟨?_, .inr member⟩
        rintro rfl
        exact gone (engaged_of_flying member)
  · refine after _ [] [] running (by rw [ended]; rfl) (by rw [ended]; rfl) distinct fun other => ?_
    rw [Finset.erase_eq_of_notMem meets]
    exact runs other

/-- **A step in which nothing overlaps** leaves each job with one dispatch or execution. -/
theorem Sole.step {event : Event} (alone : m.Alone event) : (m.step U nextFire config event).Sole := by
  cases event with
  | scheduleJob job fresh | cancelJob id | pauseJob id | resumeJob id | triggerJob id =>
    exact sole.spawn rfl
  | wheelTick =>
    rcases m.step_tick (.inl rfl) with same | ⟨wheel, queue, due, after⟩
    · rwa [same]
    · rw [after]
      exact (sole.timers wheel queue).spawn rfl
  | queueTick now =>
    rcases m.step_tick (.inr ⟨now, rfl⟩) with same | ⟨wheel, queue, due, after⟩
    · rwa [same]
    · rw [after]
      exact (sole.timers wheel queue).spawn rfl
  | advance i now succeeds => exact sole.advance alone
  | crash now =>
    have fresh : (new config m.shared.kv).Sole := ⟨List.nodup_nil, by simp [new]⟩
    rcases m.step_crash now with after | after
    · rwa [after]
    · rw [after]
      exact fresh.spawn rfl

theorem Sole.noOverlap : m.NoOverlap where
  apart := by
    refine (List.nodup_flatMap.mp sole.nodup).2.imp fun {a b} apart job inA other inB same => ?_
    have left : job.id ∈ a.engaged := engaged_iff.mpr (.inr (by simp [Task.flying, Option.mem_def.mp inA]))
    have right : job.id ∈ b.engaged :=
      engaged_iff.mpr (.inr (by simp [Task.flying, Option.mem_def.mp inB, same]))
    exact absurd right (apart left)
  running id := by
    rw [sole.running, List.mem_flatMap]
    simp [Task.flying]

end

/-- **Where runs do not overlap**: in every state of such a run, a job that prevents overlaps
has one execution in flight at most, and `running_jobs` has exactly the jobs in flight. -/
theorem noOverlap_of_alone (U : UuidText) (nextFire : Text → Int → Option Int)
    (config : SchedulerConfig) {events : List Event}
    (alone : Run.Each (step U nextFire config) Alone (new config ∅) events) :
    Run.Always (step U nextFire config) NoOverlap (new config ∅) events := by
  have start : (new config ∅).Sole := ⟨List.nodup_nil, by simp [new]⟩
  have invariant := Run.Each.invariant (I := Sole)
    (fun m event held meets => held.step meets) start alone
  exact fun m reached => (invariant m reached).noOverlap

/-! ### Two runs -/

instance (m : Manager) (i : Nat) (task : Task) : Decidable (m.AloneStep i task) := by
  unfold AloneStep
  split <;> infer_instance

instance (m : Manager) : (event : Event) → Decidable (m.Alone event)
  | .advance i _ _ => Option.decidableForallMem m.tasks[i]?
  | .crash _ | .scheduleJob .. | .cancelJob _ | .pauseJob _ | .resumeJob _ | .triggerJob _ | .wheelTick
  | .queueTick _ => .isTrue trivial

/-- A job is scheduled and triggered twice, the second time after some steps of the first. -/
def triggeredTwice (steps : Nat) : List Event :=
  .scheduleJob (sampleJob .oneTime) 2 :: List.replicate 5 (.advance 0 0 true) ++
    .triggerJob 1 :: List.replicate steps (.advance 0 0 true) ++
    .triggerJob 1 :: List.replicate 20 (.advance 0 0 true)

theorem noOverlap_of_alone_sample : Run.Always (step .hyphenated (fun _ _ => none) sampleConfig)
    NoOverlap (new sampleConfig ∅) (triggeredTwice 10) :=
  noOverlap_of_alone _ _ _ (by decide +kernel)

/-- Two dispatches that both pass the check before either inserts the job execute it twice. -/
theorem not_noOverlap : ¬ ∀ (U : UuidText) (nextFire : Text → Int → Option Int)
    (config : SchedulerConfig) (events : List Event),
    Run.Always (step U nextFire config) NoOverlap (new config ∅) events := by
  intro all
  have last := all .hyphenated (fun _ _ => none) sampleConfig (triggeredTwice 0) _
    (Run.foldl_mem_states _ _)
  exact absurd last.apart (by decide +kernel)

end Manager

end NovaRuntime.Scheduler
