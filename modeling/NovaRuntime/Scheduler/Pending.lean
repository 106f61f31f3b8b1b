/-
# NovaRuntime.Scheduler.Pending — whether a pending job is still in somebody's hands

`Held` is a job in the wheel, in the queue, or with a task that will register or dispatch
it. The code writes `Pending` in two places without registering the job (`reschedule` after
an execution, the reset of a running job at a start), and drops a pending job where a tick
or a dispatch finds it running, where a cancel or a pause removes it after another call
wrote it, and where a start does not read it. `Minded` names these places; in a run without
them every pending job is held (`held_of_minded`).
-/
import NovaRuntime.Library.Runs
import NovaRuntime.Scheduler.ManagerSpec

namespace NovaRuntime.Scheduler

open NovaRuntime.Library

set_option autoImplicit false

variable {U : UuidText} {nextFire : Text → Int → Option Int} {config : SchedulerConfig}

/-! ## Hands -/

def Caller.Carries (id : Uuid) : Caller → Prop
  | .trigger => False
  | .tick rest => id ∈ rest
  | .recovery _ rest => ∃ job ∈ rest, job.state = .pending ∧ job.id = id

/-- The task has yet to register or to dispatch the job. -/
def Task.Carries (id : Uuid) : Task → Prop
  | .schedule job .indexing => job.id = id
  | .register job => job.id = id
  | .trigger target (.fromQueue _) => target = id
  | .trigger target (.writing _) => target = id
  | .look due => id ∈ due
  | .fetch target rest => target = id ∨ id ∈ rest
  | .recover _ jobs => ∃ job ∈ jobs, job.state = .pending ∧ job.id = id
  | .dispatch job caller _ => job.id = id ∨ caller.Carries id
  | .release caller => caller.Carries id
  | _ => False

/-- The job is in one of the two timers. -/
def Shared.Timed (s : Shared) (id : Uuid) : Prop := s.wheel.Has id ∨ s.queue.Has id

/-- The job is stored as pending. -/
def IsPending (U : UuidText) (kv : KeyValue Stored) (id : Uuid) : Prop :=
  ∃ job, storedJob U kv id = some job ∧ job.state = .pending

namespace Manager

def Held (m : Manager) (id : Uuid) : Prop :=
  m.shared.Timed id ∨ ∃ task ∈ m.tasks, task.Carries id

/-- **No pending job is forgotten.** -/
def NoneForgotten (U : UuidText) (m : Manager) : Prop :=
  ∀ id, IsPending U m.shared.kv id → m.Held id

/-- A task other than the one at hand carries the job. -/
def CarriedBeside (m : Manager) (i : Nat) (id : Uuid) : Prop := ∃ task ∈ m.others i, task.Carries id

def HeldBeside (m : Manager) (i : Nat) (id : Uuid) : Prop :=
  m.shared.Timed id ∨ m.CarriedBeside i id

/-! ## Places that let go of a job -/

/-- The step does not let go of a pending job that nothing else holds. -/
def MindedStep (U : UuidText) (config : SchedulerConfig) (m : Manager) (i : Nat) : Task → Prop
  -- `cancel_job` and `pause_job` remove what another call made pending since their write
  | .cancel id .fromWheel => IsPending U m.shared.kv id → m.shared.queue.Has id ∨ m.CarriedBeside i id
  | .cancel id .fromQueue => IsPending U m.shared.kv id → m.shared.wheel.Has id ∨ m.CarriedBeside i id
  | .pause id .fromWheel => IsPending U m.shared.kv id → m.shared.queue.Has id ∨ m.CarriedBeside i id
  | .pause id .fromQueue => IsPending U m.shared.kv id → m.shared.wheel.Has id ∨ m.CarriedBeside i id
  -- a tick and a dispatch skip a job that runs
  | .look (id :: _) => id ∈ m.shared.running → IsPending U m.shared.kv id → m.HeldBeside i id
  | .dispatch job _ .overlap =>
    job.preventOverlap = true → job.id ∈ m.shared.running → IsPending U m.shared.kv job.id →
      m.HeldBeside i job.id
  -- `reschedule` writes the store only
  | .execution job (.rescheduling _) => m.HeldBeside i job.id
  -- a start skips a missed one-time job, and resets a running job in the store only
  | .recover started (job :: _) =>
    (job.state = .running → m.HeldBeside i job.id) ∧
      (job.state = .pending → IsPending U m.shared.kv job.id →
        (job.nextRunAt ≤ started ∧ (config.enableCatchUp ∨ job.isRecurring)) ∨ m.HeldBeside i job.id)
  | _ => True

/-- Every pending job is due at the start, and one of the entries it looks at is of it. -/
def MindedStart (U : UuidText) (config : SchedulerConfig) (m : Manager) (now : Int) : Prop :=
  ∀ job ∈ storedJobs m.shared.kv, job.state = .pending →
    config.enableStartupRecovery = true ∧ job.nextRunAt ≤ now ∧
      ∃ e ∈ readyEntries now 10000 m.shared.kv, indexedId U e.1 = some job.id

/-- **Where the code keeps hold of every pending job.** -/
def Minded (U : UuidText) (config : SchedulerConfig) (m : Manager) : Event → Prop
  | .advance i _ _ => ∀ task ∈ m.tasks[i]?, m.MindedStep U config i task
  | .crash now => m.MindedStart U config now
  | _ => True

end Manager

/-! ### Decidability -/

instance (wheel : TimeWheel) (id : Uuid) : Decidable (wheel.Has id) :=
  inferInstanceAs (Decidable (∃ slot ∈ wheel.slots, id ∈ slot))

instance (queue : PriorityQueue) (id : Uuid) : Decidable (queue.Has id) :=
  inferInstanceAs (Decidable (∃ e ∈ queue, e.2 = id))

instance (s : Shared) (id : Uuid) : Decidable (s.Timed id) := inferInstanceAs (Decidable (_ ∨ _))

instance (kv : KeyValue Stored) (id : Uuid) : Decidable (IsPending U kv id) :=
  decidable_of_iff (∃ job ∈ storedJob U kv id, job.state = .pending) Iff.rfl

instance (id : Uuid) : (caller : Caller) → Decidable (caller.Carries id)
  | .trigger => .isFalse not_false
  | .tick rest => inferInstanceAs (Decidable (id ∈ rest))
  | .recovery _ rest => inferInstanceAs (Decidable (∃ job ∈ rest, job.state = .pending ∧ job.id = id))

instance (id : Uuid) : (task : Task) → Decidable (task.Carries id)
  | .schedule _ .indexing | .register _ | .trigger _ (.fromQueue _) | .trigger _ (.writing _) =>
    inferInstanceAs (Decidable (_ = _))
  | .look due => inferInstanceAs (Decidable (id ∈ due))
  | .fetch .. => inferInstanceAs (Decidable (_ ∨ _))
  | .recover _ jobs => inferInstanceAs (Decidable (∃ job ∈ jobs, job.state = .pending ∧ job.id = id))
  | .dispatch _ caller _ => inferInstanceAs (Decidable (_ ∨ caller.Carries id))
  | .release caller => inferInstanceAs (Decidable (caller.Carries id))
  | .schedule _ (.validating ..) | .schedule _ .checking | .schedule _ .storing | .trigger _ .reading
  | .trigger _ (.fromWheel _) | .cancel .. | .pause .. | .resume .. | .execution .. => .isFalse not_false

namespace Manager

instance (m : Manager) (id : Uuid) : Decidable (m.Held id) := inferInstanceAs (Decidable (_ ∨ _))

instance (m : Manager) (i : Nat) (id : Uuid) : Decidable (m.CarriedBeside i id) :=
  inferInstanceAs (Decidable (∃ task ∈ m.others i, task.Carries id))

instance (m : Manager) (i : Nat) (id : Uuid) : Decidable (m.HeldBeside i id) :=
  inferInstanceAs (Decidable (_ ∨ _))

instance (m : Manager) (i : Nat) : (task : Task) → Decidable (m.MindedStep U config i task)
  | .cancel _ .fromWheel | .cancel _ .fromQueue | .pause _ .fromWheel | .pause _ .fromQueue
  | .look (_ :: _) => inferInstanceAs (Decidable (_ → _))
  | .dispatch _ _ .overlap => inferInstanceAs (Decidable (_ → _ → _))
  | .execution job (.rescheduling _) => inferInstanceAs (Decidable (m.HeldBeside i job.id))
  | .recover _ (_ :: _) => inferInstanceAs (Decidable ((_ → _) ∧ (_ → _ → _ ∨ _)))
  | .cancel _ .reading | .cancel _ (.writing _) | .cancel _ .fromRunning | .pause _ .reading
  | .pause _ (.writing _) | .look [] | .dispatch _ _ (.depending _) | .dispatch _ _ .requeueing
  | .dispatch _ _ .acquiring | .dispatch _ _ .inserting | .dispatch _ _ .markReading
  | .dispatch _ _ (.markWriting _) | .dispatch _ _ .removing | .execution _ .running
  | .execution _ .completedReading | .execution _ (.completedWriting _) | .execution _ .recurring
  | .execution _ .failedReading | .execution _ (.failedWriting _) | .execution _ .removing | .recover _ []
  | .schedule .. | .register _ | .resume .. | .trigger .. | .fetch .. | .release _ => .isTrue trivial

instance (m : Manager) (now : Int) : Decidable (m.MindedStart U config now) :=
  inferInstanceAs (Decidable (∀ job ∈ storedJobs m.shared.kv, job.state = .pending →
    config.enableStartupRecovery = true ∧ job.nextRunAt ≤ now ∧
      ∃ e ∈ readyEntries now 10000 m.shared.kv, indexedId U e.1 = some job.id))

instance (m : Manager) : (event : Event) → Decidable (m.Minded U config event)
  | .advance i _ _ => Option.decidableForallMem m.tasks[i]?
  | .crash now => inferInstanceAs (Decidable (m.MindedStart U config now))
  | .scheduleJob .. | .cancelJob _ | .pauseJob _ | .resumeJob _ | .triggerJob _ | .wheelTick
  | .queueTick _ => .isTrue trivial

end Manager

/-! ## One step -/

/-- A job is pending after a step because the step wrote it so, or was pending before and
the step did not write it. -/
theorem IsPending.of_step (laws : U.Laws) {s : Shared} {task : Task}
    (sound : task.Sound (Known U s.kv)) {now : Int} {succeeds : Bool} {id : Uuid}
    (pending : IsPending U (task.step U nextFire config s now succeeds).1.kv id) :
    (∃ job, task.written now = some job ∧ job.id = id ∧ job.state = .pending) ∨
      (IsPending U s.kv id ∧ ∀ job, task.written now = some job → job.id ≠ id) := by
  obtain ⟨job, stored, state⟩ := pending
  rw [storedJob_step laws sound] at stored
  rcases written : task.written now with _ | new
  · exact .inr ⟨⟨job, by simpa [written] using stored, state⟩, by simp⟩
  · rw [written, Option.elim_some] at stored
    by_cases here : id = new.id
    · rw [if_pos here] at stored
      cases stored
      exact .inl ⟨job, rfl, here.symm, state⟩
    · rw [if_neg here] at stored
      exact .inr ⟨⟨job, stored, state⟩, by simpa using fun same => here same.symm⟩

/-- The step is a call on a timer. -/
def Task.retimes : Task → Bool
  | .register _ => true
  | .cancel _ .fromWheel => true
  | .cancel _ .fromQueue => true
  | .pause _ .fromWheel => true
  | .pause _ .fromQueue => true
  | .trigger _ (.fromWheel _) => true
  | .trigger _ (.fromQueue _) => true
  | .dispatch _ _ .requeueing => true
  | _ => false

theorem timers_step (s : Shared) {task : Task} (still : task.retimes = false) (now : Int)
    (succeeds : Bool) : (task.step U nextFire config s now succeeds).1.wheel = s.wheel ∧
      (task.step U nextFire config s now succeeds).1.queue = s.queue := by
  cases task with
  | schedule job place =>
    cases place with
    | validating visited stack =>
      unfold Task.step scheduleStep
      grind [Shared.reading]
    | _ => exact ⟨rfl, rfl⟩
  | register job => cases still
  | cancel target place | pause target place => cases place <;> first | exact ⟨rfl, rfl⟩ | cases still
  | resume target read => cases read <;> exact ⟨rfl, rfl⟩
  | trigger target place => cases place <;> first | exact ⟨rfl, rfl⟩ | cases still
  | look due =>
    cases due with
    | nil => exact ⟨rfl, rfl⟩
    | cons target rest =>
      simp only [Task.step, lookStep]
      split <;> exact ⟨rfl, rfl⟩
  | fetch target rest => exact ⟨rfl, rfl⟩
  | recover started jobs =>
    cases jobs with
    | nil => exact ⟨rfl, rfl⟩
    | cons job rest =>
      simp only [Task.step, recoverStep]
      grind [Shared.writing]
  | dispatch job caller place =>
    cases place with
    | depending deps => cases deps <;> exact ⟨rfl, rfl⟩
    | requeueing => cases still
    | _ =>
      simp only [Task.step, dispatchStep]
      grind [Shared.reading, Shared.writing]
  | execution job place =>
    cases place <;> simp only [Task.step, executionStep] <;> grind [Shared.reading, Shared.writing]
  | release caller => exact ⟨rfl, rfl⟩

theorem Shared.Timed.step {s : Shared} {id : Uuid} (timed : s.Timed id) {task : Task}
    (still : task.retimes = false) (now : Int) (succeeds : Bool) :
    (task.step U nextFire config s now succeeds).1.Timed id := by
  obtain ⟨wheel, queue⟩ := timers_step s still now succeeds
  rwa [Shared.Timed, wheel, queue]

theorem Shared.timed_register {s : Shared} {now : Int} {job : Job} {id : Uuid} :
    (s.register config now job).Timed id ↔ id = job.id ∨ s.Timed id := by
  simp only [register, Timed]
  split
  · simp only [TimeWheel.has_schedule, or_assoc]
  · simp only [PriorityQueue.has_schedule]
    grind

section Step

variable {m : Manager} {i : Nat} {task : Task} {now : Int} {succeeds : Bool} {id : Uuid}

/-- After the step the job is in a timer, with another task, or with what goes on of this one. -/
def Manager.HeldAfter (U : UuidText) (nextFire : Text → Int → Option Int) (config : SchedulerConfig)
    (m : Manager) (i : Nat) (task : Task) (now : Int) (succeeds : Bool) (id : Uuid) : Prop :=
  (task.step U nextFire config m.shared now succeeds).1.Timed id ∨ m.CarriedBeside i id ∨
    ∃ next ∈ (task.step U nextFire config m.shared now succeeds).2, next.Carries id

theorem Manager.HeldBeside.after (held : m.HeldBeside i id) (still : task.retimes = false) :
    m.HeldAfter U nextFire config i task now succeeds id := by
  rcases held with timed | beside
  · exact .inl (timed.step still now succeeds)
  · exact .inr (.inl beside)

theorem Caller.Carries.next {caller : Caller} (carries : caller.Carries id) :
    ∃ next ∈ caller.next, next.Carries id := by
  cases caller with
  | trigger => exact carries.elim
  | tick rest | recovery started rest => exact ⟨_, List.mem_singleton.mpr rfl, carries⟩

/-- Who writes a job as pending goes on to register or dispatch it, but for `reschedule` and
the reset of a start. -/
theorem held_of_written (sound : task.Sound (Known U m.shared.kv))
    (minded : m.MindedStep U config i task) {job : Job} (written : task.written now = some job)
    (pending : job.state = .pending) :
    m.HeldAfter U nextFire config i task now succeeds job.id := by
  have goesOn (next : Task) (rest : List Task)
      (after : (task.step U nextFire config m.shared now succeeds).2 = next :: rest)
      (carries : next.Carries job.id) : m.HeldAfter U nextFire config i task now succeeds job.id :=
    .inr (.inr ⟨next, by rw [after]; exact .head _, carries⟩)
  cases task with
  | schedule target place =>
    cases place with
    | storing =>
      cases written
      exact goesOn _ _ rfl rfl
    | _ => cases written
  | register target => cases written
  | cancel target place | pause target place =>
    cases place with
    | writing read =>
      cases written
      cases pending
    | _ => cases written
  | resume target read =>
    cases read with
    | none => cases written
    | some read =>
      cases written
      obtain ⟨rfl, known⟩ := sound
      refine goesOn (.register (resumed now read)) [] ?_ rfl
      exact congrArg Prod.snd (Shared.writing_of_known (resumed now read) known _ _)
  | trigger target place =>
    cases place with
    | writing read =>
      cases written
      obtain ⟨rfl, known⟩ := sound
      refine goesOn (.dispatch (triggered now read) .trigger .overlap) [] ?_ (.inl rfl)
      exact congrArg Prod.snd (Shared.writing_of_known (triggered now read) known _ _)
    | _ => cases written
  | look due | fetch target rest => cases written
  | recover started jobs =>
    cases jobs with
    | nil => cases written
    | cons first rest =>
      rw [Task.written] at written
      split at written
      · next running =>
          cases written
          exact (minded.1 running).after rfl
      · cases written
  | dispatch target caller place =>
    cases place with
    | markWriting read =>
      cases written
      cases pending
    | _ => cases written
  | execution target place =>
    cases place with
    | completedWriting read =>
      cases written
      cases pending
    | rescheduling nextRunAt =>
      cases written
      exact minded.after rfl
    | failedWriting read =>
      cases written
      cases pending
    | _ => cases written
  | release caller => cases written

/-- What is in a timer stays in one, but for the cancellations. -/
theorem held_of_timed (minded : m.MindedStep U config i task) (pending : IsPending U m.shared.kv id)
    (timed : m.shared.Timed id) : m.HeldAfter U nextFire config i task now succeeds id := by
  by_cases still : task.retimes = false
  · exact .inl (timed.step still now succeeds)
  have unwheeled (target : Uuid) (other : id ≠ target) :
      (m.shared.wheel.cancel target).Has id ∨ m.shared.queue.Has id :=
    timed.imp_left fun wheel => TimeWheel.has_cancel.mpr ⟨other, wheel⟩
  have unqueued (target : Uuid) (other : id ≠ target) :
      m.shared.wheel.Has id ∨ (m.shared.queue.cancel target).Has id :=
    timed.imp_right fun queue => PriorityQueue.has_cancel.mpr ⟨other, queue⟩
  cases task with
  | register job => exact .inl (Shared.timed_register.mpr (.inr timed))
  | cancel target place | pause target place =>
    cases place with
    | fromWheel =>
      by_cases here : id = target
      · subst here
        exact (minded pending).elim (fun queue => .inl (.inr queue)) fun beside => .inr (.inl beside)
      · exact .inl (unwheeled target here)
    | fromQueue =>
      by_cases here : id = target
      · subst here
        exact (minded pending).elim (fun wheel => .inl (.inl wheel)) fun beside => .inr (.inl beside)
      · exact .inl (unqueued target here)
    | _ => exact absurd rfl still
  | trigger target place =>
    cases place with
    | fromWheel job =>
      by_cases here : id = target
      · subst here
        exact .inr (.inr ⟨_, List.mem_singleton.mpr rfl, rfl⟩)
      · exact .inl (unwheeled target here)
    | fromQueue job =>
      by_cases here : id = target
      · subst here
        exact .inr (.inr ⟨_, List.mem_singleton.mpr rfl, rfl⟩)
      · exact .inl (unqueued target here)
    | _ => exact absurd rfl still
  | dispatch job caller place =>
    cases place with
    | requeueing =>
      exact .inl (timed.imp_right fun queue => PriorityQueue.has_schedule.mpr (.inr queue))
    | _ => exact absurd rfl still
  | _ => exact absurd rfl still

/-- What a task carries it registers, dispatches or hands on, but where it skips it. -/
theorem held_of_carried (laws : U.Laws) (keyed : WellKeyed U m.shared.kv) (sound : task.Sound (Known U m.shared.kv))
    (minded : m.MindedStep U config i task) (pending : IsPending U m.shared.kv id)
    (unwritten : ∀ job, task.written now = some job → job.id ≠ id) (carries : task.Carries id) :
    m.HeldAfter U nextFire config i task now succeeds id := by
  have goesOn (next : Task) (after : (task.step U nextFire config m.shared now succeeds).2 = [next])
      (nextCarries : next.Carries id) : m.HeldAfter U nextFire config i task now succeeds id :=
    .inr (.inr ⟨next, by rw [after]; exact List.mem_singleton.mpr rfl, nextCarries⟩)
  have single {P : Task → Prop} (t : Task) (held : P t) : ∃ next ∈ [t], P next :=
    ⟨t, List.mem_singleton.mpr rfl, held⟩
  obtain ⟨stored, found, state⟩ := pending
  cases task with
  | schedule job place =>
    cases place with
    | indexing => exact goesOn _ rfl carries
    | _ => exact carries.elim
  | register job => exact .inl (Shared.timed_register.mpr (.inl carries.symm))
  | cancel target place | pause target place | resume target read => exact carries.elim
  | trigger target place =>
    cases place with
    | fromQueue job => exact goesOn _ rfl carries
    | writing job =>
      exact absurd (sound.1.trans carries) (unwritten (triggered now job) rfl)
    | _ => exact carries.elim
  | look due =>
    cases due with
    | nil => cases carries
    | cons first rest =>
      by_cases running : first ∈ m.shared.running
      · have after : (Task.step U nextFire config m.shared now succeeds (.look (first :: rest))).2 =
            [.look rest] := by simp [Task.step, lookStep, running]
        rcases List.mem_cons.mp carries with rfl | later
        · exact (minded running ⟨stored, found, state⟩).after rfl
        · exact goesOn _ after later
      · have after : (Task.step U nextFire config m.shared now succeeds (.look (first :: rest))).2 =
            [.fetch first rest] := by simp [Task.step, lookStep, running]
        exact goesOn _ after ((List.mem_cons.mp carries).imp_left Eq.symm)
  | fetch target rest =>
    refine .inr (.inr (Shared.exists_reading (fun job read => ?_) fun absent => ?_))
    · rcases carries with rfl | later
      · rw [found] at read
        cases read
        rw [if_pos state]
        exact single _ (.inl (keyed.id_eq laws found))
      · split
        · exact single _ (.inr later)
        · exact single _ later
    · rcases carries with rfl | later
      · rw [found] at absent
        cases absent
      · exact single _ later
  | recover started jobs =>
    cases jobs with
    | nil =>
      obtain ⟨job, member, -⟩ := carries
      cases member
    | cons first rest =>
      obtain ⟨job, member, jobPending, rfl⟩ := carries
      have tail (later : job ∈ rest) : Task.Carries job.id (.recover started rest) :=
        ⟨job, later, jobPending, rfl⟩
      by_cases taken : (first.state = .pending ∧ first.nextRunAt ≤ started) ∧
          (config.enableCatchUp ∨ first.isRecurring)
      · have after : (Task.step U nextFire config m.shared now succeeds
            (.recover started (first :: rest))).2 = [.dispatch first (.recovery started rest) .overlap] := by
          simp only [Task.step, recoverStep, if_pos taken.1, if_pos taken.2]
        rcases List.mem_cons.mp member with rfl | later
        · exact goesOn _ after (.inl rfl)
        · exact goesOn _ after (.inr ⟨job, later, jobPending, rfl⟩)
      · rcases List.mem_cons.mp member with rfl | later
        · rcases minded.2 jobPending ⟨stored, found, state⟩ with ⟨due, catchUp⟩ | beside
          · exact absurd ⟨⟨jobPending, due⟩, catchUp⟩ taken
          · exact beside.after rfl
        · refine .inr (.inr ?_)
          simp only [Task.step, recoverStep]
          split
          · split
            · exact absurd ⟨‹_›, ‹_›⟩ taken
            · exact single _ (tail later)
          · split
            · have known := sound first (.head _)
              rw [Shared.writing_of_known (recovered first) known]
              exact single _ (tail later)
            · exact single _ (tail later)
  | dispatch job caller place =>
    have handsBack (notThis : job.id ≠ id) : ∃ next ∈ caller.next, next.Carries id :=
      (carries.resolve_left notThis).next
    cases place with
    | overlap =>
      by_cases overlapping : job.preventOverlap = true ∧ job.id ∈ m.shared.running
      · by_cases here : job.id = id
        · subst here
          exact (minded overlapping.1 overlapping.2 ⟨stored, found, state⟩).after rfl
        · refine .inr (.inr ?_)
          simp only [Task.step, dispatchStep, if_pos overlapping]
          exact handsBack here
      · refine goesOn (.dispatch job caller (.depending job.dependsOn)) ?_ carries
        simp only [Task.step, dispatchStep, if_neg overlapping]
    | depending deps =>
      cases deps with
      | nil => exact goesOn _ rfl carries
      | cons depId deps =>
        refine .inr (.inr (Shared.exists_reading (fun depJob _ => ?_) fun _ => single _ carries))
        split <;> exact single _ carries
    | requeueing =>
      by_cases here : job.id = id
      · exact .inl (.inr (PriorityQueue.has_schedule.mpr (.inl here.symm)))
      · exact .inr (.inr (handsBack here))
    | acquiring =>
      refine .inr (.inr ?_)
      simp only [Task.step, dispatchStep]
      split <;> exact single _ carries
    | inserting => exact goesOn _ rfl carries
    | markReading =>
      exact .inr (.inr (Shared.exists_reading (fun _ _ => single _ carries) fun _ => single _ carries))
    | markWriting read =>
      obtain ⟨⟨known, -⟩, same⟩ := sound
      have other : job.id ≠ id := by
        rw [← same]
        exact unwritten (markedAs .running now read) rfl
      obtain ⟨next, member, nextCarries⟩ := handsBack other
      refine .inr (.inr ⟨next, ?_, nextCarries⟩)
      simp only [Task.step, dispatchStep]
      rw [Shared.writing_of_known (markedAs .running now read) (by rwa [← same] at known)]
      exact .tail _ member
    | removing => exact sound.elim
  | execution job place => exact carries.elim
  | release caller => exact .inr (.inr (Caller.Carries.next carries))

end Step

/-! ## Runs -/

namespace Manager

theorem NoneForgotten.spawn {m : Manager} (none : m.NoneForgotten U) (task : Task) :
    (m.spawn task).NoneForgotten U := by
  intro id pending
  exact (none id pending).imp_right fun ⟨carrier, member, carries⟩ =>
    ⟨carrier, List.mem_append_left _ member, carries⟩

/-- **A step that minds the pending jobs forgets none.** -/
theorem NoneForgotten.step (laws : U.Laws) {m : Manager} (sound : m.Sound U)
    (none : m.NoneForgotten U) {event : Event} (minded : m.Minded U config event) :
    (m.step U nextFire config event).NoneForgotten U := by
  cases event with
  | scheduleJob job fresh | cancelJob id | pauseJob id | resumeJob id | triggerJob id =>
    exact none.spawn _
  | wheelTick =>
    simp only [Manager.step]
    split
    · intro id pending
      rcases none id pending with (wheel | queue) | ⟨carrier, member, carries⟩
      · rcases TimeWheel.has_tick wheel with due | later
        · exact .inr ⟨_, List.mem_append_right _ (List.mem_singleton.mpr rfl), due⟩
        · exact .inl (.inl later)
      · exact .inl (.inr queue)
      · exact .inr ⟨carrier, List.mem_append_left _ member, carries⟩
    · exact none
  | queueTick now =>
    simp only [Manager.step]
    split
    · intro id pending
      rcases none id pending with (wheel | queue) | ⟨carrier, member, carries⟩
      · exact .inl (.inl wheel)
      · rcases PriorityQueue.has_popDue now queue with due | later
        · exact .inr ⟨_, List.mem_append_right _ (List.mem_singleton.mpr rfl), due⟩
        · exact .inl (.inr later)
      · exact .inr ⟨carrier, List.mem_append_left _ member, carries⟩
    · exact none
  | advance i now succeeds =>
    rcases here : m.tasks[i]? with _ | task
    · simpa only [Manager.step, here] using none
    · have taskSound := sound.tasks task (mem_tasks here)
      have taskMinded := minded task here
      rw [step_advance here]
      intro id pending
      have after : m.HeldAfter U nextFire config i task now succeeds id := by
        rcases pending.of_step laws taskSound with ⟨job, written, rfl, state⟩ | ⟨before, unwritten⟩
        · exact held_of_written taskSound taskMinded written state
        · rcases none id before with timed | ⟨carrier, member, carries⟩
          · exact held_of_timed taskMinded before timed
          · rcases eq_or_mem_others here member with rfl | other
            · exact held_of_carried laws sound.keyed taskSound taskMinded before unwritten carries
            · exact .inr (.inl ⟨carrier, other, carries⟩)
      rcases after with timed | ⟨carrier, other, carries⟩ | ⟨next, member, carries⟩
      · exact .inl timed
      · exact .inr ⟨carrier, List.mem_append_left _ other, carries⟩
      · exact .inr ⟨next, List.mem_append_right _ member, carries⟩
  | crash now =>
    intro id pending
    have kept : ((m.step U nextFire config (.crash now)).shared.kv) = m.shared.kv := by
      simp only [Manager.step]
      split <;> rfl
    rw [kept] at pending
    obtain ⟨job, stored, state⟩ := pending
    obtain ⟨recovers, due, e, entry, named⟩ := minded job (mem_storedJobs stored) state
    rw [sound.keyed.id_eq laws stored] at named
    simp only [Manager.step, recovers, if_true]
    refine .inr ⟨_, List.mem_append_right _ (List.mem_singleton.mpr rfl), job, ?_, state,
      sound.keyed.id_eq laws stored⟩
    rw [recoverPendingJobs_apply]
    refine List.mem_append_left _ (mem_jobsOf.mpr ⟨id, List.mem_filterMap.mpr ⟨e, entry, named⟩, stored, ?_⟩)
    simp [state, due]

/-- **Where no pending job is forgotten**: in every state of a run that minds them, a job
stored as pending is in the wheel, in the queue, or with a task that will register or
dispatch it. -/
theorem noneForgotten_of_minded (laws : U.Laws) (nextFire : Text → Int → Option Int)
    (config : SchedulerConfig) {events : List Event}
    (minded : Run.Each (step U nextFire config) (Minded U config) (new config ∅) events) :
    Run.Always (step U nextFire config) (NoneForgotten U) (new config ∅) events := by
  let Inv (m : Manager) : Prop := m.Sound U ∧ m.NoneForgotten U
  have start : Inv (new config ∅) := by
    refine ⟨sound_start config, fun id ⟨job, stored, _⟩ => ?_⟩
    rw [show (new config ∅).shared.kv = ∅ from rfl, storedJob_empty] at stored
    cases stored
  have keeps (m : Manager) (event : Event) (held : Inv m) (meets : m.Minded U config event) :
      Inv (m.step U nextFire config event) :=
    ⟨held.1.step laws event, held.2.step laws held.1 meets⟩
  exact fun m reached => (Run.Each.invariant keeps start minded m reached).2

/-! ### Two runs -/

/-- The job is scheduled; a tick of the wheel dispatches it, and it is executed. -/
def sampleRun (scheduleType : ScheduleType) : List Event :=
  .scheduleJob (sampleJob scheduleType) 2 :: List.replicate 5 (.advance 0 0 true) ++
    .wheelTick :: List.replicate 16 (.advance 0 100 true)

theorem noneForgotten_of_minded_sample :
    Run.Always (step .hyphenated (fun _ _ => none) sampleConfig) (NoneForgotten .hyphenated)
      (new sampleConfig ∅) (sampleRun .oneTime ++ [.crash 200]) :=
  noneForgotten_of_minded Queue.UuidText.laws_hyphenated _ _ (by decide +kernel)

/-- A recurring job is forgotten after its first run: `reschedule` leaves it pending, and no
timer has it. -/
theorem not_noneForgotten : ¬ ∀ (U : UuidText), U.Laws → ∀ (nextFire : Text → Int → Option Int)
    (config : SchedulerConfig) (events : List Event),
    Run.Always (step U nextFire config) (NoneForgotten U) (new config ∅) events := by
  intro all
  have last := all .hyphenated Queue.UuidText.laws_hyphenated (fun _ _ => none) sampleConfig
    (sampleRun .interval) _ (Run.foldl_mem_states _ _)
  have held := last 1 (by decide +kernel)
  exact absurd held (by decide +kernel)

end Manager

end NovaRuntime.Scheduler
