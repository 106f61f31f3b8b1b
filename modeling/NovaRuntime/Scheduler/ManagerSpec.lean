/-
# NovaRuntime.Scheduler.ManagerSpec — what a step of a task does to the store

`Task.written` is the job a step of a task writes, and `storedJob_step` says that a step
changes nothing else of what is stored. It needs `Manager.Sound`: a task goes on only with
jobs that are stored, under the identifiers it read them by. No job leaves the store, so
the steps keep that (`Manager.Sound.step`). `mem_recoverPendingJobs` is what a start reads.
-/
import NovaRuntime.Scheduler.Manager

namespace NovaRuntime.Scheduler

open NovaRuntime.Library

set_option autoImplicit false

variable {U : UuidText} {nextFire : Text → Int → Option Int} {config : SchedulerConfig}

/-! ## Reads and writes -/

/-- A job is stored under its own identifier. -/
def WellKeyed (U : UuidText) (kv : KeyValue Stored) : Prop :=
  ∀ key job, kv[key]? = some (.job job) → key = jobKey U job.id

variable {job : Job} {kv : KeyValue Stored} {s : Shared} {task : Task}

theorem WellKeyed.id_eq (laws : U.Laws) (keyed : WellKeyed U kv) {id : Uuid}
    (stored : storedJob U kv id = some job) : job.id = id :=
  (jobKey_injective laws (keyed _ _ (stored_of_storedJob stored))).symm

def Known (U : UuidText) (kv : KeyValue Stored) (id : Uuid) : Prop := storedJob U kv id ≠ none

theorem Shared.reading_cases (s : Shared) (id : Uuid) (found : Job → List Task) (missing : List Task) :
    (∃ job, storedJob U s.kv id = some job ∧ s.reading U id found missing = (s, found job)) ∨
      (storedJob U s.kv id = none ∧ s.reading U id found missing = (s, missing)) := by
  rcases stored : storedJob U s.kv id with _ | job
  · obtain ⟨e, failed⟩ := getJob_of_absent stored
    exact .inr ⟨rfl, by rw [reading, failed]; rfl⟩
  · exact .inl ⟨job, rfl, by rw [reading, getJob_of_stored stored]; rfl⟩

theorem Shared.writing_of_known (job : Job) (known : Known U s.kv job.id)
    (done failed : List Task) : s.writing U job done failed =
      ({ s with kv := s.kv.insert (jobKey U job.id) (.job job) }, done) := by
  rw [writing, updateJob_of_stored known]
  rfl

/-- What goes on after a read: with the stored job, or without one. -/
theorem Shared.forall_reading {P : Task → Prop} {id : Uuid} {found : Job → List Task} {missing : List Task}
    (read : ∀ job, storedJob U s.kv id = some job → ∀ task ∈ found job, P task)
    (absent : storedJob U s.kv id = none → ∀ task ∈ missing, P task) :
    ∀ task ∈ (s.reading U id found missing).2, P task := by
  rcases s.reading_cases id found missing with ⟨job, stored, result⟩ | ⟨stored, result⟩
  · rw [result]
    exact read job stored
  · rw [result]
    exact absent stored

theorem Shared.exists_reading {P : Task → Prop} {id : Uuid} {found : Job → List Task} {missing : List Task}
    (read : ∀ job, storedJob U s.kv id = some job → ∃ task ∈ found job, P task)
    (absent : storedJob U s.kv id = none → ∃ task ∈ missing, P task) :
    ∃ task ∈ (s.reading U id found missing).2, P task := by
  rcases s.reading_cases id found missing with ⟨job, stored, result⟩ | ⟨stored, result⟩
  · rw [result]
    exact read job stored
  · rw [result]
    exact absent stored

/-- What goes on after a write: what is done, or what an error leaves. -/
theorem Shared.forall_writing {P : Task → Prop} {job : Job} {done failed : List Task}
    (written : ∀ task ∈ done, P task) (refused : ∀ task ∈ failed, P task) :
    ∀ task ∈ (s.writing U job done failed).2, P task := by
  rw [writing]
  cases (updateJob U job s.kv).1 with
  | ok _ => exact written
  | _ => exact refused

theorem checkNew_of_known (job : Job) (known : Known U kv job.id) :
    ∃ e, checkNew U job kv = (.err e, kv) := by
  rw [checkNew, Exec.bind_of_ok (KeyValue.get_apply (jobKey U job.id) kv)]
  rcases found : kv[jobKey U job.id]? with _ | value
  · exact absurd (by rw [storedJob, found]; rfl) known
  · exact ⟨_, rfl⟩

/-! ## What a start reads -/

theorem collectJobs_apply (keep : Job → Bool) (ids : List Uuid) (kv : KeyValue Stored) :
    collectJobs U keep ids kv =
      (.ok (ids.flatMap fun id => ((storedJob U kv id).filter keep).toList), kv) := by
  induction ids with
  | nil => rfl
  | cons id rest ih =>
    have read : (getJob U id).attempt kv = (.ok (storedJob U kv id), kv) := by
      rcases stored : storedJob U kv id with _ | job
      · obtain ⟨e, failed⟩ := getJob_of_absent stored
        exact Exec.attempt_of_err failed
      · exact Exec.attempt_of_ok (getJob_of_stored stored)
    rw [collectJobs, Exec.bind_of_ok read, Exec.bind_of_ok ih, List.flatMap_cons]
    rfl

/-- The index entries `find_ready_jobs` looks at. -/
def readyEntries (now : Int) (limit : Nat) (kv : KeyValue Stored) : List (Bytes × Stored) :=
  (kv.range (utf8 pendingLabel) (utf8 (pendingLabel ++ (pad020 (now + 1) ++ [':'])))).take limit

/-- The jobs of some identifiers. -/
def jobsOf (U : UuidText) (kv : KeyValue Stored) (keep : Job → Bool) (ids : List Uuid) : List Job :=
  ids.flatMap fun id => ((storedJob U kv id).filter keep).toList

theorem mem_jobsOf {keep : Job → Bool} {ids : List Uuid} :
    job ∈ jobsOf U kv keep ids ↔ ∃ id ∈ ids, storedJob U kv id = some job ∧ keep job = true := by
  simp only [jobsOf, List.mem_flatMap, Option.mem_toList, Option.filter_eq_some_iff]

theorem recoverPendingJobs_apply (now : Int) (kv : KeyValue Stored) :
    (recoverPendingJobs U now kv).1 = .ok (
      jobsOf U kv (fun job => job.state = .pending && decide (job.nextRunAt ≤ now))
        ((readyEntries now 10000 kv).filterMap fun e => indexedId U e.1) ++
      jobsOf U kv (fun _ => true) (((((kv.range (utf8 jobLabel) (utf8 jobLabel ++ [0xFF])).filterMap
        fun e => e.2.toJob.map Job.summary)).filter fun summary => summary.state = .running).map
          JobSummary.id)) := by
  have ready : findReadyJobs U now 10000 kv =
      (.ok (jobsOf U kv (fun job => job.state = .pending && decide (job.nextRunAt ≤ now))
        ((readyEntries now 10000 kv).filterMap fun e => indexedId U e.1)), kv) := by
    rw [findReadyJobs, Exec.bind_of_ok (KeyValue.scan_apply _ _ kv), collectJobs_apply]
    rfl
  have listed : listJobs kv = (.ok ((kv.range (utf8 jobLabel) (utf8 jobLabel ++ [0xFF])).filterMap
      fun e => e.2.toJob.map Job.summary), kv) := rfl
  rw [recoverPendingJobs, Exec.bind_of_ok ready, Exec.bind_of_ok listed,
    Exec.bind_of_ok (collectJobs_apply _ _ kv)]
  rfl

/-- What a start reads are stored jobs, pending or running. -/
theorem mem_recoverPendingJobs (laws : U.Laws) (keyed : WellKeyed U kv)
    {now : Int} (member : job ∈ (recoverPendingJobs U now kv).1.elim id []) :
    storedJob U kv job.id = some job ∧ (job.state = .pending ∨ job.state = .running) := by
  rw [recoverPendingJobs_apply] at member
  rcases List.mem_append.mp member with ready | running
  · obtain ⟨id, -, stored, keep⟩ := mem_jobsOf.mp ready
    rw [Bool.and_eq_true, decide_eq_true_eq] at keep
    rw [keyed.id_eq laws stored]
    exact ⟨stored, .inl keep.1⟩
  · obtain ⟨id, listed, stored, -⟩ := mem_jobsOf.mp running
    obtain ⟨summary, chosen, rfl⟩ := List.mem_map.mp listed
    obtain ⟨summarized, isRunning⟩ := List.mem_filter.mp chosen
    obtain ⟨⟨key, value⟩, scanned, isSummary⟩ := List.mem_filterMap.mp summarized
    obtain ⟨found, isJob, rfl⟩ := Option.map_eq_some_iff.mp isSummary
    have entry := (KeyValue.mem_range.mp scanned).1
    cases value with
    | job read =>
      obtain rfl : read = found := Option.some.inj isJob
      have same : storedJob U kv read.id = some read := by
        rw [storedJob, ← keyed key read entry, entry]
        rfl
      obtain rfl : job = read := Option.some.inj (stored.symm.trans same)
      exact ⟨same, .inr (decide_eq_true_eq.mp isRunning)⟩
    | empty => cases isJob

/-! ## What a step writes -/

/-- The job a step of the task writes. -/
def Task.written (now : Int) : Task → Option Job
  | .schedule job .storing => some job
  | .cancel _ (.writing job) => some (markedAs .cancelled now job)
  | .pause _ (.writing job) => some { job with state := .paused, updatedAt := now }
  | .resume _ (some job) => some (resumed now job)
  | .trigger _ (.writing job) => some (triggered now job)
  | .recover _ (job :: _) => if job.state = .running then some (recovered job) else none
  | .dispatch _ _ (.markWriting read) => some (markedAs .running now read)
  | .execution _ (.completedWriting read) => some (markedAs .completed now read)
  | .execution job (.rescheduling nextRunAt) => some (rescheduled now nextRunAt job)
  | .execution _ (.failedWriting read) => some (markedAs .failed now read)
  | _ => none

/-! ## Jobs a task goes on with -/

section Sound

variable (known : Uuid → Prop)

def Caller.Sound : Caller → Prop
  | .recovery _ rest => ∀ job ∈ rest, known job.id
  | _ => True

/-- The jobs of the task are known, and a job that was read has the identifier it was read
by. Nothing is `removing` in a dispatch: the job to mark is always there. -/
def Task.Sound : Task → Prop
  | .schedule job .indexing => known job.id
  | .register job => known job.id
  | .cancel id (.writing job) => job.id = id ∧ known id
  | .pause id (.writing job) => job.id = id ∧ known id
  | .resume id (some job) => job.id = id ∧ known id
  | .trigger id (.fromWheel job) => job.id = id ∧ known id
  | .trigger id (.fromQueue job) => job.id = id ∧ known id
  | .trigger id (.writing job) => job.id = id ∧ known id
  | .recover _ jobs => ∀ job ∈ jobs, known job.id
  | .dispatch job caller (.markWriting read) => (known job.id ∧ caller.Sound known) ∧ read.id = job.id
  | .dispatch _ _ .removing => False
  | .dispatch job caller _ => known job.id ∧ caller.Sound known
  | .execution job (.completedWriting read) => known job.id ∧ read.id = job.id
  | .execution job (.failedWriting read) => known job.id ∧ read.id = job.id
  | .execution job _ => known job.id
  | .release caller => caller.Sound known
  | _ => True

end Sound

theorem Caller.Sound.mono {known known' : Uuid → Prop} (grows : ∀ id, known id → known' id)
    {caller : Caller} (sound : caller.Sound known) : caller.Sound known' := by
  cases caller with
  | trigger => trivial
  | tick rest => trivial
  | recovery now rest => exact fun job member => grows _ (sound job member)

theorem Caller.Sound.next {known : Uuid → Prop} {caller : Caller} (sound : caller.Sound known) :
    ∀ task ∈ caller.next, task.Sound known := by
  cases caller with
  | trigger => simp [Caller.next]
  | tick rest => simp [Caller.next, Task.Sound]
  | recovery now rest =>
    intro task member
    cases List.mem_singleton.mp member
    exact sound

theorem Task.Sound.mono {known known' : Uuid → Prop} (grows : ∀ id, known id → known' id)
    (sound : task.Sound known) : task.Sound known' := by
  have caller_mono (caller : Caller) : caller.Sound known → caller.Sound known' :=
    Caller.Sound.mono grows
  unfold Task.Sound at sound ⊢
  split at sound <;> grind

/-- **A step writes `Task.written`**, or an index entry, or nothing. -/
theorem kv_step (sound : task.Sound (Known U s.kv)) (now : Int)
    (succeeds : Bool) :
    (∃ job, task.written now = some job ∧
      (task.step U nextFire config s now succeeds).1.kv = s.kv.insert (jobKey U job.id) (.job job)) ∨
    (task.written now = none ∧ ((task.step U nextFire config s now succeeds).1.kv = s.kv ∨
      ∃ id nextRunAt, (task.step U nextFire config s now succeeds).1.kv =
        s.kv.insert (jobPendingKey U id nextRunAt) .empty)) := by
  have writes (job : Job) (known : Known U s.kv job.id) (done failed : List Task) :
      (s.writing U job done failed).1.kv = s.kv.insert (jobKey U job.id) (.job job) :=
    congrArg (fun after => after.1.kv) (Shared.writing_of_known _ known done failed)
  cases task with
  | schedule job place =>
    cases place with
    | validating visited stack =>
      cases stack with
      | nil => exact .inr ⟨rfl, .inl rfl⟩
      | cons depId stack =>
        refine .inr ⟨rfl, .inl ?_⟩
        simp only [Task.step, scheduleStep]
        split
        · rfl
        · split <;> rfl
    | checking => exact .inr ⟨rfl, .inl rfl⟩
    | storing => exact .inl ⟨job, rfl, rfl⟩
    | indexing =>
      refine .inr ⟨rfl, ?_⟩
      simp only [Task.step, scheduleStep, indexJob]
      split
      · exact .inr ⟨job.id, job.nextRunAt, rfl⟩
      · exact .inl rfl
  | register job =>
    refine .inr ⟨rfl, .inl ?_⟩
    simp only [Task.step, Shared.register]
    split <;> rfl
  | cancel target place =>
    cases place with
    | writing job =>
      obtain ⟨rfl, known⟩ := sound
      exact .inl ⟨_, rfl, writes (markedAs .cancelled now job) known _ _⟩
    | _ => exact .inr ⟨rfl, .inl rfl⟩
  | pause target place =>
    cases place with
    | writing job =>
      obtain ⟨rfl, known⟩ := sound
      exact .inl ⟨_, rfl, writes { job with state := .paused, updatedAt := now } known _ _⟩
    | _ => exact .inr ⟨rfl, .inl rfl⟩
  | resume target read =>
    cases read with
    | none => exact .inr ⟨rfl, .inl rfl⟩
    | some job =>
      obtain ⟨rfl, known⟩ := sound
      exact .inl ⟨_, rfl, writes (resumed now job) known _ _⟩
  | trigger target place =>
    cases place with
    | writing job =>
      obtain ⟨rfl, known⟩ := sound
      exact .inl ⟨_, rfl, writes (triggered now job) known _ _⟩
    | _ => exact .inr ⟨rfl, .inl rfl⟩
  | look due =>
    cases due with
    | nil => exact .inr ⟨rfl, .inl rfl⟩
    | cons target rest =>
      refine .inr ⟨rfl, .inl ?_⟩
      simp only [Task.step, lookStep]
      split <;> rfl
  | fetch target rest => exact .inr ⟨rfl, .inl rfl⟩
  | recover started jobs =>
    cases jobs with
    | nil => exact .inr ⟨rfl, .inl rfl⟩
    | cons job rest =>
      simp only [Task.step, recoverStep, Task.written]
      by_cases running : job.state = .running
      · have missed : ¬ (job.state = .pending ∧ job.nextRunAt ≤ started) := by simp [running]
        rw [if_neg missed, if_pos running, if_pos running]
        exact .inl ⟨_, rfl, writes (recovered job) (sound job (.head _)) _ _⟩
      · rw [if_neg running, if_neg running]
        refine .inr ⟨rfl, .inl ?_⟩
        split
        · split <;> rfl
        · rfl
  | dispatch job caller place =>
    cases place with
    | overlap =>
      refine .inr ⟨rfl, .inl ?_⟩
      simp only [Task.step, dispatchStep]
      split <;> rfl
    | depending deps => cases deps <;> exact .inr ⟨rfl, .inl rfl⟩
    | acquiring =>
      refine .inr ⟨rfl, .inl ?_⟩
      simp only [Task.step, dispatchStep]
      split <;> rfl
    | markWriting read =>
      obtain ⟨⟨known, -⟩, same⟩ := sound
      exact .inl ⟨_, rfl, writes (markedAs .running now read) (by rwa [← same] at known) _ _⟩
    | _ => exact .inr ⟨rfl, .inl rfl⟩
  | execution job place =>
    cases place with
    | running =>
      refine .inr ⟨rfl, .inl ?_⟩
      simp only [Task.step, executionStep]
      split
      · rfl
      · split <;> rfl
    | completedWriting read =>
      obtain ⟨known, same⟩ := sound
      exact .inl ⟨_, rfl, writes (markedAs .completed now read) (by rwa [← same] at known) _ _⟩
    | recurring =>
      refine .inr ⟨rfl, .inl ?_⟩
      simp only [Task.step, executionStep]
      split <;> rfl
    | rescheduling nextRunAt =>
      exact .inl ⟨_, rfl, writes (rescheduled now nextRunAt job) sound _ _⟩
    | failedWriting read =>
      obtain ⟨known, same⟩ := sound
      exact .inl ⟨_, rfl, writes (markedAs .failed now read) (by rwa [← same] at known) _ _⟩
    | _ => exact .inr ⟨rfl, .inl rfl⟩
  | release caller => exact .inr ⟨rfl, .inl rfl⟩

/-- **What is stored after a step**: `Task.written`, and the rest as before. -/
theorem storedJob_step (laws : U.Laws) (sound : task.Sound (Known U s.kv))
    (now : Int) (succeeds : Bool) (id : Uuid) :
    storedJob U (task.step U nextFire config s now succeeds).1.kv id =
      (task.written now).elim (storedJob U s.kv id)
        fun job => if id = job.id then some job else storedJob U s.kv id := by
  rcases kv_step sound now succeeds with ⟨job, written, wrote⟩ | ⟨written, same | ⟨other, at_, indexed⟩⟩
  · rw [wrote, written]
    exact storedJob_insert_job laws s.kv job id
  · rw [same, written]
    rfl
  · rw [indexed, written]
    exact storedJob_insert_index other at_ s.kv id

/-- No job leaves the store. -/
theorem Known.step (laws : U.Laws) (sound : task.Sound (Known U s.kv))
    (now : Int) (succeeds : Bool) {id : Uuid} (known : Known U s.kv id) :
    Known U (task.step U nextFire config s now succeeds).1.kv id := by
  rw [Known, storedJob_step laws sound]
  cases task.written now with
  | none => exact known
  | some job =>
    simp only [Option.elim_some]
    split
    · simp
    · exact known

theorem WellKeyed.step (keyed : WellKeyed U s.kv)
    (sound : task.Sound (Known U s.kv)) (now : Int) (succeeds : Bool) :
    WellKeyed U (task.step U nextFire config s now succeeds).1.kv := by
  intro key job found
  rcases kv_step sound now succeeds with ⟨new, -, wrote⟩ | ⟨-, same | ⟨id, at_, indexed⟩⟩
  · rw [wrote, Std.TreeMap.getElem?_insert] at found
    split at found
    · next here =>
        cases found
        exact (byteCmp_eq.mp here).symm
    · exact keyed key job found
  · rw [same] at found
    exact keyed key job found
  · rw [indexed, Std.TreeMap.getElem?_insert] at found
    split at found
    · cases found
    · exact keyed key job found

theorem known_of_stored {id : Uuid}
    (stored : storedJob U kv id = some job) : Known U kv id := by simp [Known, stored]

section

variable (laws : U.Laws) (keyed : WellKeyed U s.kv) (sound : task.Sound (Known U s.kv)) (now : Int) (succeeds : Bool)

include laws keyed sound now succeeds

/-- Where the task goes on, it is sound with what was known before the step; the step
itself only adds to that. -/
theorem Task.Sound.next_of_known (indexes : ∀ job, task ≠ .schedule job .storing) :
    ∀ task' ∈ (task.step U nextFire config s now succeeds).2, task'.Sound (Known U s.kv) := by
  have single (P : Task → Prop) (t : Task) (held : P t) : ∀ task' ∈ [t], P task' := by
    simpa using held
  have read {id : Uuid} {job : Job} (stored : storedJob U s.kv id = some job) : job.id = id ∧ Known U s.kv id :=
    ⟨keyed.id_eq laws stored, known_of_stored stored⟩
  have nothing (P : Task → Prop) : ∀ task' ∈ ([] : List Task), P task' := by simp
  cases task with
  | schedule job place =>
    cases place with
    | validating visited stack =>
      cases stack with
      | nil => exact single _ _ trivial
      | cons depId stack =>
        simp only [Task.step, scheduleStep]
        split
        · exact nothing _
        · split
          · exact single _ _ trivial
          · exact Shared.forall_reading (fun _ _ => single _ _ trivial) fun _ => single _ _ trivial
    | checking =>
      simp only [Task.step, scheduleStep]
      cases (checkNew U job s.kv).1 with
      | ok _ => exact single _ _ trivial
      | _ => exact nothing _
    | storing => exact absurd rfl (indexes job)
    | indexing => exact single _ _ sound
  | register job => exact nothing _
  | cancel target place =>
    cases place with
    | reading =>
      exact Shared.forall_reading (fun _ stored => single _ _ (read stored)) fun _ => nothing _
    | writing job => exact Shared.forall_writing (single _ _ trivial) (nothing _)
    | fromRunning => exact nothing _
    | _ => exact single _ _ trivial
  | pause target place =>
    cases place with
    | reading =>
      exact Shared.forall_reading (fun _ stored => single _ _ (read stored)) fun _ => nothing _
    | writing job => exact Shared.forall_writing (single _ _ trivial) (nothing _)
    | fromWheel => exact single _ _ trivial
    | fromQueue => exact nothing _
  | resume target read =>
    cases read with
    | none =>
      exact Shared.forall_reading (fun _ stored => single _ _ (read stored)) fun _ => nothing _
    | some job =>
      obtain ⟨rfl, known⟩ := sound
      exact Shared.forall_writing (single _ _ known) (nothing _)
  | trigger target place =>
    cases place with
    | reading =>
      exact Shared.forall_reading (fun _ stored => single _ _ (read stored)) fun _ => nothing _
    | writing job =>
      obtain ⟨rfl, known⟩ := sound
      exact Shared.forall_writing (single _ _ ⟨known, trivial⟩) (nothing _)
    | _ => exact single _ _ sound
  | look due =>
    cases due with
    | nil => exact nothing _
    | cons target rest =>
      simp only [Task.step, lookStep]
      split <;> exact single _ _ trivial
  | fetch target rest =>
    refine Shared.forall_reading (fun job stored => ?_) fun _ => single _ _ trivial
    split
    · refine single _ _ ⟨?_, trivial⟩
      rw [keyed.id_eq laws stored]
      exact known_of_stored stored
    · exact single _ _ trivial
  | recover started jobs =>
    cases jobs with
    | nil => exact nothing _
    | cons job rest =>
      have first := sound job (.head _)
      have later : ∀ job ∈ rest, Known U s.kv job.id :=
        fun job member => sound job (.tail _ member)
      simp only [Task.step, recoverStep]
      split
      · split
        · exact single _ _ ⟨first, later⟩
        · exact single _ _ later
      · split
        · exact Shared.forall_writing (single _ _ later) (single _ _ later)
        · exact single _ _ later
  | dispatch job caller place =>
    cases place with
    | overlap =>
      simp only [Task.step, dispatchStep]
      split
      · exact sound.2.next
      · exact single _ _ sound
    | depending deps =>
      cases deps with
      | nil => exact single _ _ sound
      | cons depId deps =>
        refine Shared.forall_reading (fun depJob _ => ?_) fun _ => single _ _ sound
        split <;> exact single _ _ sound
    | requeueing => exact sound.2.next
    | acquiring =>
      simp only [Task.step, dispatchStep]
      split <;> exact single _ _ sound
    | inserting => exact single _ _ sound
    | markReading =>
      exact Shared.forall_reading (fun read stored => single _ _ ⟨sound, keyed.id_eq laws stored⟩)
        fun absent => absurd absent sound.1
    | markWriting read =>
      obtain ⟨⟨known, callerSound⟩, same⟩ := sound
      have isKnown : Known U s.kv (markedAs .running now read).id := by rwa [← same] at known
      simp only [Task.step, dispatchStep, Shared.writing_of_known _ isKnown]
      exact List.forall_mem_cons.mpr ⟨known, callerSound.next⟩
    | removing => exact sound.elim
  | execution job place =>
    cases place with
    | running =>
      simp only [Task.step, executionStep]
      split
      · exact single _ _ sound
      · split <;> exact single _ _ sound
    | completedReading =>
      exact Shared.forall_reading (fun read stored => single _ _ ⟨sound, keyed.id_eq laws stored⟩)
        fun _ => single _ _ sound
    | completedWriting read => exact Shared.forall_writing (single _ _ sound.1) (single _ _ sound.1)
    | recurring =>
      simp only [Task.step, executionStep]
      split
      · cases computeNextRun nextFire now job <;> exact single _ _ sound
      · exact single _ _ sound
    | rescheduling nextRunAt => exact Shared.forall_writing (single _ _ sound) (single _ _ sound)
    | failedReading =>
      exact Shared.forall_reading (fun read stored => single _ _ ⟨sound, keyed.id_eq laws stored⟩)
        fun _ => single _ _ sound
    | failedWriting read => exact Shared.forall_writing (single _ _ sound.1) (single _ _ sound.1)
    | removing => exact single _ _ trivial
  | release caller => exact Caller.Sound.next sound

theorem Task.Sound.next : ∀ task' ∈ (task.step U nextFire config s now succeeds).2,
      task'.Sound (Known U (task.step U nextFire config s now succeeds).1.kv) := by
  by_cases storing : ∃ job, task = .schedule job .storing
  · obtain ⟨job, rfl⟩ := storing
    intro task' member
    cases List.mem_singleton.mp member
    show storedJob U (s.kv.insert (jobKey U job.id) (.job job)) job.id ≠ none
    simp [storedJob_insert_job laws]
  · intro task' member
    exact (sound.next_of_known laws keyed now succeeds (fun job same => storing ⟨job, same⟩) task' member).mono
      fun _ => Known.step laws sound now succeeds

end

/-! ## Runs -/

namespace Manager

structure Sound (U : UuidText) (m : Manager) : Prop where
  keyed : WellKeyed U m.shared.kv
  tasks : ∀ task ∈ m.tasks, task.Sound (Known U m.shared.kv)

variable {m : Manager} {i : Nat} {task : Task}

theorem mem_others (member : task ∈ m.others i) :
    task ∈ m.tasks := List.mem_of_mem_eraseIdx member

section

variable (here : m.tasks[i]? = some task)

include here

theorem mem_tasks : task ∈ m.tasks := List.mem_of_getElem? here

/-- A task is the one that takes its step or another one. -/
theorem eq_or_mem_others {other : Task} (member : other ∈ m.tasks) : other = task ∨ other ∈ m.others i := by
  obtain ⟨inside, rfl⟩ := List.getElem?_eq_some_iff.mp here
  have split := (List.getElem_cons_eraseIdx_perm inside).mem_iff (a := other)
  exact List.mem_cons.mp (split.mpr member)

theorem step_advance (now : Int) (succeeds : Bool) : m.step U nextFire config (.advance i now succeeds) =
      { shared := (task.step U nextFire config m.shared now succeeds).1
        tasks := m.others i ++ (task.step U nextFire config m.shared now succeeds).2 } := by
  simp only [step, here]

end

/-- A tick does nothing while the loop is busy; else it takes from a timer and looks. -/
theorem step_tick (m : Manager) {event : Event}
    (tick : event = .wheelTick ∨ ∃ now, event = .queueTick now) :
    m.step U nextFire config event = m ∨ ∃ wheel queue due, m.step U nextFire config event =
      spawn { m with shared := { m.shared with wheel := wheel, queue := queue } } (.look due) := by
  rcases tick with rfl | ⟨now, rfl⟩
  · simp only [step]
    split
    · exact .inr ⟨_, m.shared.queue, _, rfl⟩
    · exact .inl rfl
  · simp only [step]
    split
    · exact .inr ⟨m.shared.wheel, _, _, rfl⟩
    · exact .inl rfl

/-- After a crash there is the store, and at most the recovery of what it reads there. -/
theorem step_crash (m : Manager) (now : Int) :
    m.step U nextFire config (.crash now) = new config m.shared.kv ∨
      m.step U nextFire config (.crash now) = (new config m.shared.kv).spawn
        (.recover now ((recoverPendingJobs U now m.shared.kv).1.elim id [])) := by
  simp only [step]
  split
  · exact .inr rfl
  · exact .inl rfl

theorem Sound.spawn (sound : m.Sound U)
    (fresh : task.Sound (Known U m.shared.kv)) : (m.spawn task).Sound U where
  keyed := sound.keyed
  tasks := by
    intro task' member
    rcases List.mem_append.mp member with before | new
    · exact sound.tasks task' before
    · cases List.mem_singleton.mp new
      exact fresh

theorem Sound.timers (sound : m.Sound U) (wheel : TimeWheel) (queue : PriorityQueue) :
    Sound U { m with shared := { m.shared with wheel := wheel, queue := queue } } where
  keyed := sound.keyed
  tasks := sound.tasks

@[simp] theorem storedJob_empty (id : Uuid) : storedJob U ∅ id = none := by
  rw [storedJob, Std.TreeMap.getElem?_emptyc]
  rfl

theorem sound_new (config : SchedulerConfig) {kv : KeyValue Stored} (keyed : WellKeyed U kv) :
    (new config kv).Sound U where
  keyed := keyed
  tasks := by simp [new]

theorem sound_start (config : SchedulerConfig) : (new config ∅).Sound U :=
  sound_new config fun key job stored => by
    rw [Std.TreeMap.getElem?_emptyc] at stored
    cases stored

theorem Sound.step (laws : U.Laws) (sound : m.Sound U) (event : Event) :
    (m.step U nextFire config event).Sound U := by
  cases event with
  | scheduleJob job fresh | cancelJob id | pauseJob id | resumeJob id | triggerJob id =>
    exact sound.spawn trivial
  | wheelTick =>
    rcases m.step_tick (.inl rfl) with same | ⟨wheel, queue, due, after⟩
    · rwa [same]
    · rw [after]
      exact (sound.timers wheel queue).spawn trivial
  | queueTick now =>
    rcases m.step_tick (.inr ⟨now, rfl⟩) with same | ⟨wheel, queue, due, after⟩
    · rwa [same]
    · rw [after]
      exact (sound.timers wheel queue).spawn trivial
  | advance i now succeeds =>
    rcases here : m.tasks[i]? with _ | task
    · simpa only [Manager.step, here] using sound
    · have taskSound := sound.tasks task (mem_tasks here)
      rw [step_advance here]
      refine { keyed := sound.keyed.step taskSound now succeeds, tasks := fun task' member => ?_ }
      rcases List.mem_append.mp member with other | next
      · exact (sound.tasks task' (mem_others other)).mono fun _ => Known.step laws taskSound now succeeds
      · exact taskSound.next laws sound.keyed now succeeds task' next
  | crash now =>
    rcases m.step_crash now with after | after
    · rw [after]
      exact sound_new config sound.keyed
    · rw [after]
      exact (sound_new config sound.keyed).spawn fun job member =>
        known_of_stored (mem_recoverPendingJobs laws sound.keyed member).1

end Manager

end NovaRuntime.Scheduler
