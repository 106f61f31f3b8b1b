/-
# NovaRuntime.Scheduler.Types — jobs, the time wheel and the priority queue

`nova_scheduler::types`, `error` and `time_wheel`, as far as the manager uses them. A time
is a number of milliseconds, far from the ends of `i64`. The payload, the tags, the timeout
and the dates of creation of a job are left out: they are stored and nothing reads them.

The next fire of a cron expression is a parameter, `nextFire`: what
`CronSchedule::parse` and `next_after` give for an expression and a time.
-/
import NovaRuntime.Queue.Types
import Mathlib.Data.Finset.Insert

namespace NovaRuntime.Scheduler

open NovaRuntime.Library

set_option autoImplicit false

abbrev Uuid := Queue.Uuid

abbrev UuidText := Queue.UuidText

/-! ## Jobs -/

inductive ScheduleType where
  | oneTime
  | interval
  | cron
  deriving DecidableEq

inductive JobState where
  | pending
  | running
  | completed
  | failed
  | cancelled
  | skipped
  | paused
  deriving DecidableEq

structure Job where
  id : Uuid
  name : Text
  scheduleType : ScheduleType
  intervalSecs : Option UInt64
  cronExpression : Option Text
  nextRunAt : Int
  lastRunAt : Option Int
  state : JobState
  maxRetries : Nat
  retryCount : Nat
  retryDelaySecs : Nat
  dependsOn : List Uuid
  preventOverlap : Bool
  updatedAt : Int
  deriving DecidableEq

def Job.isRecurring (job : Job) : Bool :=
  job.scheduleType = .interval || job.scheduleType = .cron

structure JobSummary where
  id : Uuid
  name : Text
  scheduleType : ScheduleType
  state : JobState
  nextRunAt : Int
  lastRunAt : Option Int
  retryCount : Nat
  deriving DecidableEq

def Job.summary (job : Job) : JobSummary where
  id := job.id
  name := job.name
  scheduleType := job.scheduleType
  state := job.state
  nextRunAt := job.nextRunAt
  lastRunAt := job.lastRunAt
  retryCount := job.retryCount

/-- `uN as i64`. -/
def asI64 (n : UInt64) : Int := n.toInt64.toInt

/-- The next run of a recurring job. -/
def computeNextRun (nextFire : Text → Int → Option Int) (now : Int) (job : Job) : Option Int :=
  match job.scheduleType with
  | .interval => some (now + asI64 (job.intervalSecs.getD 3600) * 1000)
  | .cron => job.cronExpression.bind fun expr => nextFire expr now
  | .oneTime => none

/-- The errors the manager and the backend build. -/
inductive SchedulerError where
  | jobNotFound (id : Text)
  | jobAlreadyExists (id : Text)
  | dependencyCycle (message : Text)
  | internal
  deriving DecidableEq

/-- A tick takes time and a wheel has a slot: `run` panics on an interval of zero, and
`TimeWheel::schedule` and `tick` divide by zero without slots. -/
structure SchedulerConfig where
  timeWheelTickMs : Nat
  timeWheelSlots : Nat
  maxConcurrentJobs : Nat
  enableStartupRecovery : Bool
  enableCatchUp : Bool
  ticks : 0 < timeWheelTickMs
  turns : 0 < timeWheelSlots
  deriving DecidableEq

/-! ## The time wheel -/

structure TimeWheel where
  tickMs : Nat
  slots : List (List Uuid)
  currentSlot : Nat
  turns : 0 < slots.length
  deriving DecidableEq

namespace TimeWheel

def new (tickMs numSlots : Nat) (turns : 0 < numSlots) : TimeWheel where
  tickMs
  slots := List.replicate numSlots []
  currentSlot := 0
  turns := by rwa [List.length_replicate]

/-- The slot a job is put into when it is to fire in `diff` milliseconds. -/
def slotFor (wheel : TimeWheel) (diff : Int) : Nat :=
  let offset := if diff ≤ 0 then 1 else max (diff.toNat / wheel.tickMs) 1
  (wheel.currentSlot + offset) % wheel.slots.length

def schedule (wheel : TimeWheel) (jobId : Uuid) (fireAt now : Int) : TimeWheel :=
  { wheel with
    slots := wheel.slots.modify (wheel.slotFor (fireAt - now)) (· ++ [jobId])
    turns := by rw [List.length_modify]; exact wheel.turns }

def nextSlot (wheel : TimeWheel) : Nat := (wheel.currentSlot + 1) % wheel.slots.length

/-- Advance by a slot; the jobs of it are due. -/
def tick (wheel : TimeWheel) : List Uuid × TimeWheel :=
  ((wheel.slots[wheel.nextSlot]?).getD [],
    { wheel with
      currentSlot := wheel.nextSlot
      slots := wheel.slots.set wheel.nextSlot []
      turns := by rw [List.length_set]; exact wheel.turns })

def cancel (wheel : TimeWheel) (jobId : Uuid) : TimeWheel :=
  { wheel with
    slots := wheel.slots.map fun slot => slot.filter (· ≠ jobId)
    turns := by rw [List.length_map]; exact wheel.turns }

/-- Some slot holds the job. -/
def Has (wheel : TimeWheel) (jobId : Uuid) : Prop := ∃ slot ∈ wheel.slots, jobId ∈ slot

theorem slotFor_lt (wheel : TimeWheel) (diff : Int) : wheel.slotFor diff < wheel.slots.length :=
  Nat.mod_lt _ wheel.turns

theorem has_schedule {wheel : TimeWheel} {jobId id : Uuid} {fireAt now : Int} :
    (wheel.schedule jobId fireAt now).Has id ↔ id = jobId ∨ wheel.Has id := by
  have bound := wheel.slotFor_lt (fireAt - now)
  simp only [Has, schedule]
  constructor
  · rintro ⟨slot, inSlots, inSlot⟩
    obtain ⟨i, inside, rfl⟩ := List.mem_iff_getElem.mp inSlots
    rw [List.getElem_modify] at inSlot
    rw [List.length_modify] at inside
    split at inSlot
    · rcases List.mem_append.mp inSlot with before | new
      · exact .inr ⟨_, List.getElem_mem inside, before⟩
      · exact .inl (List.mem_singleton.mp new)
    · exact .inr ⟨_, List.getElem_mem inside, inSlot⟩
  · rintro (rfl | ⟨slot, inSlots, inSlot⟩)
    · refine ⟨wheel.slots[wheel.slotFor (fireAt - now)] ++ [id], ?_, by simp⟩
      refine List.mem_iff_getElem.mpr ⟨wheel.slotFor (fireAt - now), by simpa using bound, ?_⟩
      rw [List.getElem_modify, if_pos rfl]
    · obtain ⟨i, inside, rfl⟩ := List.mem_iff_getElem.mp inSlots
      have still : i < (wheel.slots.modify (wheel.slotFor (fireAt - now)) (· ++ [jobId])).length := by
        rwa [List.length_modify]
      refine ⟨_, List.getElem_mem still, ?_⟩
      rw [List.getElem_modify]
      split
      · exact List.mem_append_left _ inSlot
      · exact inSlot

/-- A tick loses no job: each is due or stays. -/
theorem has_tick {wheel : TimeWheel} {id : Uuid} (has : wheel.Has id) :
    id ∈ wheel.tick.1 ∨ wheel.tick.2.Has id := by
  obtain ⟨slot, inSlots, inSlot⟩ := has
  obtain ⟨i, inside, rfl⟩ := List.mem_iff_getElem.mp inSlots
  by_cases here : wheel.nextSlot = i
  · subst here
    refine .inl ?_
    rw [tick, List.getElem?_eq_getElem inside]
    exact inSlot
  · refine .inr ⟨wheel.slots[i], ?_, inSlot⟩
    refine List.mem_iff_getElem.mpr ⟨i, by simpa [tick] using inside, ?_⟩
    simp only [tick]
    rw [List.getElem_set_ne here]

theorem has_cancel {wheel : TimeWheel} {jobId id : Uuid} :
    (wheel.cancel jobId).Has id ↔ id ≠ jobId ∧ wheel.Has id := by
  simp only [Has, cancel, List.mem_map]
  constructor
  · rintro ⟨_, ⟨slot, inSlots, rfl⟩, inSlot⟩
    rw [List.mem_filter, decide_eq_true_eq] at inSlot
    exact ⟨inSlot.2, slot, inSlots, inSlot.1⟩
  · rintro ⟨other, slot, inSlots, inSlot⟩
    exact ⟨_, ⟨slot, inSlots, rfl⟩, List.mem_filter.mpr ⟨inSlot, decide_eq_true other⟩⟩

end TimeWheel

/-! ## The priority queue -/

/-- The times to fire and the jobs, sorted by time. -/
abbrev PriorityQueue := List (Int × Uuid)

namespace PriorityQueue

/-- `push` and a stable `sort_by_key`. -/
def schedule (queue : PriorityQueue) (jobId : Uuid) (fireAt : Int) : PriorityQueue :=
  (queue ++ [(fireAt, jobId)]).mergeSort fun a b => a.1 ≤ b.1

/-- The jobs at the front that are due, and the rest. -/
def popDue (queue : PriorityQueue) (now : Int) : List Uuid × PriorityQueue :=
  ((queue.takeWhile fun e => e.1 ≤ now).map Prod.snd, queue.dropWhile fun e => e.1 ≤ now)

def cancel (queue : PriorityQueue) (jobId : Uuid) : PriorityQueue :=
  queue.filter fun e => e.2 ≠ jobId

def Has (queue : PriorityQueue) (jobId : Uuid) : Prop := ∃ e ∈ queue, e.2 = jobId

theorem has_schedule {queue : PriorityQueue} {jobId id : Uuid} {fireAt : Int} :
    (schedule queue jobId fireAt).Has id ↔ id = jobId ∨ queue.Has id := by
  simp only [Has, schedule, List.mem_mergeSort, List.mem_append, List.mem_singleton]
  constructor
  · rintro ⟨e, before | rfl, rfl⟩
    · exact .inr ⟨e, before, rfl⟩
    · exact .inl rfl
  · rintro (rfl | ⟨e, before, same⟩)
    · exact ⟨(fireAt, id), .inr rfl, rfl⟩
    · exact ⟨e, .inl before, same⟩

theorem has_popDue {queue : PriorityQueue} {id : Uuid} (now : Int) (has : queue.Has id) :
    id ∈ (popDue queue now).1 ∨ (popDue queue now).2.Has id := by
  obtain ⟨e, member, rfl⟩ := has
  rw [← List.takeWhile_append_dropWhile (p := fun e => decide (e.1 ≤ now)) (l := queue)] at member
  rcases List.mem_append.mp member with due | later
  · exact .inl (List.mem_map_of_mem due)
  · exact .inr ⟨e, later, rfl⟩

theorem has_cancel {queue : PriorityQueue} {jobId id : Uuid} :
    (cancel queue jobId).Has id ↔ id ≠ jobId ∧ queue.Has id := by
  simp only [Has, cancel, List.mem_filter, decide_eq_true_eq]
  constructor
  · rintro ⟨e, ⟨member, other⟩, rfl⟩
    exact ⟨other, e, member, rfl⟩
  · rintro ⟨other, e, member, rfl⟩
    exact ⟨e, ⟨member, other⟩, rfl⟩

end PriorityQueue

end NovaRuntime.Scheduler
