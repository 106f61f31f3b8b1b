/-
# NovaRuntime.Scheduler.Manager — the calls of `SchedulerManager` and their interleavings

A call of the manager, its run loop and an execution are tasks that take turns. A task is
where it stands in the code; one step of it is one access to what the tasks share: a read
or a write of a job in the store, a call on the wheel or on the queue, an insertion into
`running_jobs` or a removal, a permit taken or given back. `Manager.step` lets a caller call
a method, the loop tick, any task take its next step, or the process crash and start again;
a run is any sequence of these.

A step takes the time it reads from the clock as an argument. Of a task that ends an
execution it also takes whether `execute_job` succeeded: the function of the source is a
placeholder that always does. Nobody closes the semaphore. The first thing of a start is
the read of `recover_pending_jobs`, and no step comes between.
-/
import NovaRuntime.Scheduler.Backend
import Mathlib.Data.Finset.Erase

namespace NovaRuntime.Scheduler

open NovaRuntime.Library

set_option autoImplicit false

/-! ## Tasks -/

/-- Who called `dispatch_job`, and what is left to do there. -/
inductive Caller where
  | trigger
  | tick (rest : List Uuid)
  | recovery (now : Int) (rest : List Job)
  deriving DecidableEq

/-- The places of `schedule_job`. -/
inductive Scheduling where
  | validating (visited stack : List Uuid)
  | checking
  | storing
  | indexing
  deriving DecidableEq

/-- The places of `cancel_job`. -/
inductive Cancelling where
  | reading
  | writing (job : Job)
  | fromWheel
  | fromQueue
  | fromRunning
  deriving DecidableEq

/-- The places of `pause_job`. -/
inductive Pausing where
  | reading
  | writing (job : Job)
  | fromWheel
  | fromQueue
  deriving DecidableEq

/-- The places of `trigger_job` before the dispatch. -/
inductive Triggering where
  | reading
  | fromWheel (job : Job)
  | fromQueue (job : Job)
  | writing (job : Job)
  deriving DecidableEq

/-- The places of `dispatch_job`, `mark_running` taken apart into its read and its write. -/
inductive Dispatching where
  | overlap
  | depending (deps : List Uuid)
  | requeueing
  | acquiring
  | inserting
  | markReading
  | markWriting (read : Job)
  | removing
  deriving DecidableEq

/-- The places of the spawned half of `dispatch_job`. -/
inductive Executing where
  | running
  | completedReading
  | completedWriting (read : Job)
  | recurring
  | rescheduling (nextRunAt : Int)
  | failedReading
  | failedWriting (read : Job)
  | removing
  deriving DecidableEq

/-- `register` is the last step of `schedule_job` and `resume_job`, `look` and `fetch` are
the loop of a tick, `release` drops a permit. -/
inductive Task where
  | schedule (job : Job) (place : Scheduling)
  | register (job : Job)
  | cancel (id : Uuid) (place : Cancelling)
  | pause (id : Uuid) (place : Pausing)
  | resume (id : Uuid) (read : Option Job)
  | trigger (id : Uuid) (place : Triggering)
  | look (due : List Uuid)
  | fetch (id : Uuid) (rest : List Uuid)
  | recover (now : Int) (jobs : List Job)
  | dispatch (job : Job) (caller : Caller) (place : Dispatching)
  | execution (job : Job) (place : Executing)
  | release (caller : Caller)
  deriving DecidableEq

/-- What the caller of `dispatch_job` goes on with. -/
def Caller.next : Caller → List Task
  | .trigger => []
  | .tick rest => [.look rest]
  | .recovery now rest => [.recover now rest]

/-! ## What the tasks share -/

structure Shared where
  kv : KeyValue Stored
  wheel : TimeWheel
  queue : PriorityQueue
  running : Finset Uuid
  permits : Nat

section Steps

variable (U : UuidText) (nextFire : Text → Int → Option Int) (config : SchedulerConfig)

/-- A `get_job`: what is done with the job, and what with an error. -/
def Shared.reading (s : Shared) (id : Uuid) (found : Job → List Task) (missing : List Task) :
    Shared × List Task :=
  (s, (getJob U id s.kv).1.elim found missing)

/-- An `update_job`. -/
def Shared.writing (s : Shared) (job : Job) (done failed : List Task) : Shared × List Task :=
  ({ s with kv := (updateJob U job s.kv).2 }, (updateJob U job s.kv).1.elim (fun _ => done) failed)

/-- The wheel where the job is to fire within a turn of it, else the queue. -/
def Shared.register (s : Shared) (now : Int) (job : Job) : Shared :=
  let delta := job.nextRunAt - now
  let twMax := config.timeWheelSlots * config.timeWheelTickMs
  if 0 ≤ delta ∧ delta ≤ twMax then { s with wheel := s.wheel.schedule job.id job.nextRunAt now }
  else { s with queue := s.queue.schedule job.id job.nextRunAt }

/-! ## Steps of a task

What a task does to what is shared, and what goes on after it. -/

def scheduleStep (s : Shared) (job : Job) : Scheduling → Shared × List Task
  | .validating _ [] => (s, [.schedule job .checking])
  | .validating visited (depId :: stack) =>
    if depId = job.id then (s, [])
    else if depId ∈ visited then (s, [.schedule job (.validating visited stack)])
    else s.reading U depId
      (fun depJob => [.schedule job (.validating (depId :: visited) (depJob.dependsOn.reverse ++ stack))])
      [.schedule job (.validating (depId :: visited) stack)]
  | .checking => (s, (checkNew U job s.kv).1.elim (fun _ => [.schedule job .storing]) [])
  | .storing => ({ s with kv := (setJob U job s.kv).2 }, [.schedule job .indexing])
  | .indexing => ({ s with kv := (indexJob U job s.kv).2 }, [.register job])

def cancelStep (s : Shared) (now : Int) (id : Uuid) : Cancelling → Shared × List Task
  | .reading => s.reading U id (fun job => [.cancel id (.writing job)]) []
  | .writing job => s.writing U (markedAs .cancelled now job) [.cancel id .fromWheel] []
  | .fromWheel => ({ s with wheel := s.wheel.cancel id }, [.cancel id .fromQueue])
  | .fromQueue => ({ s with queue := s.queue.cancel id }, [.cancel id .fromRunning])
  | .fromRunning => ({ s with running := s.running.erase id }, [])

def pauseStep (s : Shared) (now : Int) (id : Uuid) : Pausing → Shared × List Task
  | .reading => s.reading U id (fun job => [.pause id (.writing job)]) []
  | .writing job => s.writing U { job with state := .paused, updatedAt := now } [.pause id .fromWheel] []
  | .fromWheel => ({ s with wheel := s.wheel.cancel id }, [.pause id .fromQueue])
  | .fromQueue => ({ s with queue := s.queue.cancel id }, [])

/-- The job as `resume_job` writes it. -/
def resumed (now : Int) (job : Job) : Job :=
  { job with state := .pending, nextRunAt := now, updatedAt := now }

def resumeStep (s : Shared) (now : Int) (id : Uuid) : Option Job → Shared × List Task
  | none => s.reading U id (fun job => [.resume id (some job)]) []
  | some job => s.writing U (resumed now job) [.register (resumed now job)] []

/-- The job as `trigger_job` writes and dispatches it. -/
def triggered (now : Int) (job : Job) : Job := { job with state := .pending, nextRunAt := now }

def triggerStep (s : Shared) (now : Int) (id : Uuid) : Triggering → Shared × List Task
  | .reading => s.reading U id (fun job => [.trigger id (.fromWheel job)]) []
  | .fromWheel job => ({ s with wheel := s.wheel.cancel id }, [.trigger id (.fromQueue job)])
  | .fromQueue job => ({ s with queue := s.queue.cancel id }, [.trigger id (.writing job)])
  | .writing job =>
    s.writing U (triggered now job) [.dispatch (triggered now job) .trigger .overlap] []

def lookStep (s : Shared) : List Uuid → Shared × List Task
  | [] => (s, [])
  | id :: rest => if id ∈ s.running then (s, [.look rest]) else (s, [.fetch id rest])

def fetchStep (s : Shared) (id : Uuid) (rest : List Uuid) : Shared × List Task :=
  s.reading U id (fun job =>
    if job.state = .pending then [.dispatch job (.tick rest) .overlap] else [.look rest]) [.look rest]

/-- The job as a start resets it. -/
def recovered (job : Job) : Job := { job with state := .pending, retryCount := 0 }

def recoverStep (s : Shared) (now : Int) : List Job → Shared × List Task
  | [] => (s, [])
  | job :: rest =>
    if job.state = .pending ∧ job.nextRunAt ≤ now then
      if config.enableCatchUp ∨ job.isRecurring then
        (s, [.dispatch job (.recovery now rest) .overlap])
      else (s, [.recover now rest])
    else if job.state = .running then
      s.writing U (recovered job) [.recover now rest] [.recover now rest]
    else (s, [.recover now rest])

def dispatchStep (s : Shared) (now : Int) (job : Job) (caller : Caller) :
    Dispatching → Shared × List Task
  | .overlap =>
    if job.preventOverlap ∧ job.id ∈ s.running then (s, caller.next)
    else (s, [.dispatch job caller (.depending job.dependsOn)])
  | .depending [] => (s, [.dispatch job caller .acquiring])
  | .depending (depId :: deps) =>
    s.reading U depId
      (fun depJob =>
        if depJob.state ≠ .completed then [.dispatch job caller .requeueing]
        else [.dispatch job caller (.depending deps)])
      [.dispatch job caller (.depending deps)]
  | .requeueing => ({ s with queue := s.queue.schedule job.id (now + 5000) }, caller.next)
  | .acquiring =>
    -- the task waits where no permit is left
    if s.permits = 0 then (s, [.dispatch job caller .acquiring])
    else ({ s with permits := s.permits - 1 }, [.dispatch job caller .inserting])
  | .inserting =>
    ({ s with running := insert job.id s.running }, [.dispatch job caller .markReading])
  | .markReading =>
    s.reading U job.id (fun read => [.dispatch job caller (.markWriting read)])
      [.dispatch job caller .removing]
  | .markWriting read =>
    s.writing U (markedAs .running now read) (.execution job .running :: caller.next)
      [.dispatch job caller .removing]
  | .removing => ({ s with running := s.running.erase job.id }, [.release caller])

def executionStep (s : Shared) (now : Int) (succeeds : Bool) (job : Job) :
    Executing → Shared × List Task
  | .running =>
    if succeeds then (s, [.execution job .completedReading])
    else if job.retryCount < job.maxRetries then
      (s, [.execution job (.rescheduling (now + job.retryDelaySecs * 1000))])
    else (s, [.execution job .failedReading])
  | .completedReading =>
    s.reading U job.id (fun read => [.execution job (.completedWriting read)])
      [.execution job .recurring]
  | .completedWriting read =>
    s.writing U (markedAs .completed now read) [.execution job .recurring] [.execution job .recurring]
  | .recurring =>
    if job.isRecurring then
      (s, [.execution job ((computeNextRun nextFire now job).elim .removing .rescheduling)])
    else (s, [.execution job .removing])
  | .rescheduling nextRunAt =>
    s.writing U (rescheduled now nextRunAt job) [.execution job .removing] [.execution job .removing]
  | .failedReading =>
    s.reading U job.id (fun read => [.execution job (.failedWriting read)])
      [.execution job .removing]
  | .failedWriting read =>
    s.writing U (markedAs .failed now read) [.execution job .removing] [.execution job .removing]
  | .removing => ({ s with running := s.running.erase job.id }, [.release .trigger])

def Task.step (s : Shared) (now : Int) (succeeds : Bool) : Task → Shared × List Task
  | .schedule job place => scheduleStep U s job place
  | .register job => (s.register config now job, [])
  | .cancel id place => cancelStep U s now id place
  | .pause id place => pauseStep U s now id place
  | .resume id read => resumeStep U s now id read
  | .trigger id place => triggerStep U s now id place
  | .look due => lookStep s due
  | .fetch id rest => fetchStep U s id rest
  | .recover started jobs => recoverStep U config s started jobs
  | .dispatch job caller place => dispatchStep U s now job caller place
  | .execution job place => executionStep U nextFire s now succeeds job place
  | .release caller => ({ s with permits := s.permits + 1 }, caller.next)

end Steps

/-! ## The machine -/

structure Manager where
  shared : Shared
  tasks : List Task

/-- A call of a method, a tick of the loop, a step of a task, a crash with the start after
it. `fresh` is the new identifier of a job without one. -/
inductive Event where
  | scheduleJob (job : Job) (fresh : Uuid)
  | cancelJob (id : Uuid)
  | pauseJob (id : Uuid)
  | resumeJob (id : Uuid)
  | triggerJob (id : Uuid)
  | wheelTick
  | queueTick (now : Int)
  | advance (i : Nat) (now : Int) (succeeds : Bool)
  | crash (now : Int)
  deriving DecidableEq

def Caller.isLoop : Caller → Bool
  | .trigger => false
  | .tick _ => true
  | .recovery _ _ => true

/-- The task is the run loop: it ticks again only after it. -/
def Task.isLoop : Task → Bool
  | .look _ => true
  | .fetch _ _ => true
  | .recover _ _ => true
  | .dispatch _ caller _ => caller.isLoop
  | .release caller => caller.isLoop
  | _ => false

namespace Manager

variable (U : UuidText) (nextFire : Text → Int → Option Int) (config : SchedulerConfig)

/-- `SchedulerManager::new` on a store. -/
def new (kv : KeyValue Stored) : Manager where
  shared :=
    { kv
      wheel := TimeWheel.new config.timeWheelTickMs config.timeWheelSlots config.turns
      queue := []
      running := ∅
      permits := max config.maxConcurrentJobs 1 }
  tasks := []

/-- The tasks but one. -/
def others (m : Manager) (i : Nat) : List Task := m.tasks.eraseIdx i

def idle (m : Manager) : Bool := !m.tasks.any Task.isLoop

def spawn (m : Manager) (task : Task) : Manager := { m with tasks := m.tasks ++ [task] }

def step (m : Manager) : Event → Manager
  | .scheduleJob job fresh =>
    let job := if job.id = 0 then { job with id := fresh } else job
    m.spawn (.schedule job (.validating [] job.dependsOn.reverse))
  | .cancelJob id => m.spawn (.cancel id .reading)
  | .pauseJob id => m.spawn (.pause id .reading)
  | .resumeJob id => m.spawn (.resume id none)
  | .triggerJob id => m.spawn (.trigger id .reading)
  | .wheelTick =>
    if m.idle then
      ({ m with shared := { m.shared with wheel := m.shared.wheel.tick.2 } }).spawn
        (.look m.shared.wheel.tick.1)
    else m
  | .queueTick now =>
    if m.idle then
      ({ m with shared := { m.shared with queue := (m.shared.queue.popDue now).2 } }).spawn
        (.look (m.shared.queue.popDue now).1)
    else m
  | .advance i now succeeds =>
    match m.tasks[i]? with
    | none => m
    | some task =>
      let after := task.step U nextFire config m.shared now succeeds
      { shared := after.1, tasks := m.others i ++ after.2 }
  | .crash now =>
    let started := new config m.shared.kv
    if config.enableStartupRecovery then
      started.spawn (.recover now ((recoverPendingJobs U now m.shared.kv).1.elim id []))
    else started

/-! ### A configuration and a job -/

def sampleConfig : SchedulerConfig where
  timeWheelTickMs := 100
  timeWheelSlots := 4
  maxConcurrentJobs := 2
  enableStartupRecovery := true
  enableCatchUp := true
  ticks := by decide
  turns := by decide

/-- A job to run at 100. -/
def sampleJob (scheduleType : ScheduleType) : Job where
  id := 1
  name := ['j']
  scheduleType := scheduleType
  intervalSecs := some 60
  cronExpression := none
  nextRunAt := 100
  lastRunAt := none
  state := .pending
  maxRetries := 0
  retryCount := 0
  retryDelaySecs := 10
  dependsOn := []
  preventOverlap := true
  updatedAt := 0

end Manager

end NovaRuntime.Scheduler
