/-
# NovaRuntime.Scheduler.Backend — `StorageSchedulerBackend` of `backend.rs`

A job is stored under `sched:job:id`; an empty value under `sched:pending:time:id` says
that it was pending for a time when it was created. Only `create_job` writes the index and
only `delete_job` removes from it. The JSON of a job is read back as it was written.

A `mark_…` method reads the job and writes it back changed. `markedAs` is the change, so
that the manager's calls can be taken apart into the read and the write.
-/
import NovaRuntime.Scheduler.Types

namespace NovaRuntime.Scheduler

open NovaRuntime.Library

set_option autoImplicit false

/-- A value of the store. -/
inductive Stored where
  | job (job : Job)
  | empty
  deriving DecidableEq

def Stored.toJob : Stored → Option Job
  | .job read => some read
  | .empty => none

abbrev Method (α : Type) := Exec SchedulerError (KeyValue Stored) α

/-! ## Keys -/

def jobLabel : Text := "sched:job:".toList
def pendingLabel : Text := "sched:pending:".toList

/-- `format!("{:020}", n)`. -/
def pad020 (n : Int) : Text :=
  let digits := Nat.toDigits 10 n.natAbs
  if n < 0 then '-' :: (List.replicate (19 - digits.length) '0' ++ digits)
  else List.replicate (20 - digits.length) '0' ++ digits

def jobKey (U : UuidText) (id : Uuid) : Bytes := utf8 (jobLabel ++ U.display id)

def jobPendingKey (U : UuidText) (id : Uuid) (nextRunAt : Int) : Bytes :=
  utf8 (pendingLabel ++ (pad020 nextRunAt ++ ':' :: U.display id))

/-! ## Methods -/

def getJob (U : UuidText) (id : Uuid) : Method Job := do
  match ← KeyValue.get (jobKey U id) with
  | none => Exec.lift (.err (.jobNotFound (U.display id)))
  | some (.job job) => pure job
  | some .empty => Exec.lift (.err .internal)

/-- The first half of `create_job`: no job has the identifier. -/
def checkNew (U : UuidText) (job : Job) : Method Unit := do
  match ← KeyValue.get (jobKey U job.id) with
  | some _ => Exec.lift (.err (.jobAlreadyExists (U.display job.id)))
  | none => pure ()

def setJob (U : UuidText) (job : Job) : Method Unit := KeyValue.set (jobKey U job.id) (.job job)

def indexJob (U : UuidText) (job : Job) : Method Unit :=
  if job.state = .pending then KeyValue.set (jobPendingKey U job.id job.nextRunAt) .empty
  else pure ()

def createJob (U : UuidText) (job : Job) : Method Unit := do
  checkNew U job
  setJob U job
  indexJob U job

def updateJob (U : UuidText) (job : Job) : Method Unit := do
  match ← KeyValue.get (jobKey U job.id) with
  | none => Exec.lift (.err (.jobNotFound (U.display job.id)))
  | some _ => setJob U job

/-- `list_jobs(None)`: the jobs of the keys with the label. -/
def listJobs : Method (List JobSummary) := do
  let start := utf8 jobLabel
  let entries ← KeyValue.scan start (start ++ [0xFF])
  pure (entries.filterMap fun e => e.2.toJob.map Job.summary)

/-- The identifier in an index key: what is behind the last colon. -/
def indexedId (U : UuidText) (key : Bytes) : Option Uuid :=
  let parts := key.splitOn 0x3A
  if parts.length < 3 then none else parts.getLast?.bind U.parseStr

/-- The jobs that some identifiers name, those that exist and pass the test. -/
def collectJobs (U : UuidText) (keep : Job → Bool) : List Uuid → Method (List Job)
  | [] => pure []
  | id :: rest => do
      let job ← (getJob U id).attempt
      let jobs ← collectJobs U keep rest
      pure ((job.filter keep).toList ++ jobs)

def findReadyJobs (U : UuidText) (now : Int) (limit : Nat) : Method (List Job) := do
  let entries ← KeyValue.scan (utf8 pendingLabel)
    (utf8 (pendingLabel ++ (pad020 (now + 1) ++ [':'])))
  collectJobs U (fun job => job.state = .pending && decide (job.nextRunAt ≤ now))
    ((entries.take limit).filterMap fun e => indexedId U e.1)

/-- What `mark_running`, `mark_completed`, `mark_failed` and `mark_cancelled` write. -/
def markedAs (state : JobState) (now : Int) (job : Job) : Job :=
  let lastRunAt := if state = .completed ∨ state = .failed then some now else job.lastRunAt
  { job with state := state, lastRunAt := lastRunAt, updatedAt := now }

def mark (U : UuidText) (state : JobState) (now : Int) (id : Uuid) : Method Unit := do
  let job ← getJob U id
  updateJob U (markedAs state now job)

def markRunning (U : UuidText) : Int → Uuid → Method Unit := mark U .running
def markCompleted (U : UuidText) : Int → Uuid → Method Unit := mark U .completed
def markFailed (U : UuidText) : Int → Uuid → Method Unit := mark U .failed
def markCancelled (U : UuidText) : Int → Uuid → Method Unit := mark U .cancelled

/-- What `reschedule` writes of the job it is given; what is stored is not read. -/
def rescheduled (now nextRunAt : Int) (job : Job) : Job :=
  { job with
    state := .pending, nextRunAt := nextRunAt, lastRunAt := some now, retryCount := 0, updatedAt := now }

def reschedule (U : UuidText) (now : Int) (job : Job) (nextRunAt : Int) : Method Unit :=
  updateJob U (rescheduled now nextRunAt job)

def recoverPendingJobs (U : UuidText) (now : Int) : Method (List Job) := do
  let ready ← findReadyJobs U now 10000
  let allJobs ← listJobs
  let running ← collectJobs U (fun _ => true)
    ((allJobs.filter fun summary => summary.state = .running).map JobSummary.id)
  pure (ready ++ running)

/-! ## What is stored -/

def storedJob (U : UuidText) (kv : KeyValue Stored) (id : Uuid) : Option Job :=
  kv[jobKey U id]?.bind Stored.toJob

/-- The stored jobs, in the order of their keys. -/
def storedJobs (kv : KeyValue Stored) : List Job := kv.toList.filterMap fun e => e.2.toJob

section Stored

variable {U : UuidText} {kv : KeyValue Stored} {id : Uuid} {job : Job}

theorem getJob_of_stored (stored : storedJob U kv id = some job) :
    getJob U id kv = (.ok job, kv) := by
  rw [getJob, Exec.bind_of_ok (KeyValue.get_apply (jobKey U id) kv)]
  unfold storedJob at stored
  rcases found : kv[jobKey U id]? with _ | (read | _)
  all_goals rw [found] at stored; cases stored
  rfl

theorem getJob_of_absent (absent : storedJob U kv id = none) :
    ∃ e, getJob U id kv = (.err e, kv) := by
  rw [getJob, Exec.bind_of_ok (KeyValue.get_apply (jobKey U id) kv)]
  unfold storedJob at absent
  rcases found : kv[jobKey U id]? with _ | (read | _)
  · exact ⟨_, rfl⟩
  · rw [found] at absent
    cases absent
  · exact ⟨_, rfl⟩

theorem stored_of_storedJob (stored : storedJob U kv id = some job) :
    kv[jobKey U id]? = some (.job job) := by
  obtain ⟨value | _, found, isJob⟩ := Option.bind_eq_some_iff.mp stored
  · cases isJob
    exact found
  · cases isJob

theorem mem_storedJobs (stored : storedJob U kv id = some job) : job ∈ storedJobs kv :=
  List.mem_filterMap.mpr ⟨(jobKey U id, .job job),
    Std.TreeMap.mem_toList_iff_getElem?_eq_some.mpr (stored_of_storedJob stored), rfl⟩

theorem jobKey_injective (laws : U.Laws) : Function.Injective (jobKey U) := by
  intro id id' same
  exact laws.display_injective (List.append_cancel_left (utf8_injective same))

theorem storedJob_insert_job (laws : U.Laws) (kv : KeyValue Stored) (job : Job) (id : Uuid) :
    storedJob U (kv.insert (jobKey U job.id) (.job job)) id =
      if id = job.id then some job else storedJob U kv id := by
  unfold storedJob
  rw [Std.TreeMap.getElem?_insert]
  by_cases here : id = job.id
  · subst here
    simp [Stored.toJob]
  · have other : jobKey U job.id ≠ jobKey U id := fun same => here (jobKey_injective laws same).symm
    rw [if_neg here, if_neg (by rwa [byteCmp_eq])]

theorem jobPendingKey_ne_jobKey (id id' : Uuid) (nextRunAt : Int) :
    jobPendingKey U id nextRunAt ≠ jobKey U id' := by
  intro same
  have texts := utf8_injective same
  have cut := congrArg (fun t : Text => t.drop 6 |>.head?) texts
  cases cut

theorem storedJob_insert_index (other : Uuid) (nextRunAt : Int) (kv : KeyValue Stored) (id : Uuid) :
    storedJob U (kv.insert (jobPendingKey U other nextRunAt) .empty) id = storedJob U kv id := by
  rw [storedJob, storedJob, Std.TreeMap.getElem?_insert,
    if_neg (by rw [byteCmp_eq]; exact jobPendingKey_ne_jobKey _ _ _)]

theorem updateJob_of_stored (stored : storedJob U kv job.id ≠ none) :
    updateJob U job kv = (.ok (), kv.insert (jobKey U job.id) (.job job)) := by
  rw [updateJob, Exec.bind_of_ok (KeyValue.get_apply (jobKey U job.id) kv)]
  unfold storedJob at stored
  rcases found : kv[jobKey U job.id]? with _ | value
  · rw [found] at stored
    exact absurd rfl stored
  · rfl

end Stored

end NovaRuntime.Scheduler
