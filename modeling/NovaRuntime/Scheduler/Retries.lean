/-
# NovaRuntime.Scheduler.Retries — the outcomes of an execution, and the retries of a job

`dispatch_job` reads a job, marks it as running, executes it and settles the outcome; `dispatched` is
this one cycle, alone. What `execute_job` gives is an argument: the function of the source is a
placeholder.

`Standing.after` says how a job stands after an execution when every failure counts as a retry and
every success starts anew. `reschedule` writes a count of zero, also for a retry. So the stored
job stands that way exactly as long as no retry is made (`retries_counted_iff`).
-/
import NovaRuntime.Library.Runs
import NovaRuntime.Scheduler.ManagerSpec

namespace NovaRuntime.Scheduler

open NovaRuntime.Library

set_option autoImplicit false

/-! ## One cycle -/

section Cycle

variable (U : UuidText) (nextFire : Text → Int → Option Int)

/-- The next run of a job that recurs. -/
def nextRun (now : Int) (job : Job) : Option Int :=
  if job.isRecurring then computeNextRun nextFire now job else none

/-- What the spawned half of `dispatch_job` does with an outcome; it goes on after an error. -/
def settle (now : Int) (succeeds : Bool) (job : Job) : Method Unit :=
  if succeeds then do
    let _ ← (markCompleted U now job.id).attempt
    match nextRun nextFire now job with
    | some nextRunAt => do
        let _ ← (reschedule U now job nextRunAt).attempt
        pure ()
    | none => pure ()
  else if job.retryCount < job.maxRetries then do
    let _ ← (reschedule U now job (now + job.retryDelaySecs * 1000)).attempt
    pure ()
  else do
    let _ ← (markFailed U now job.id).attempt
    pure ()

/-- A job that is due: executed where it is pending. -/
def dispatched (id : Uuid) (now : Int) (succeeds : Bool) : Method Unit := do
  let job ← getJob U id
  if job.state = .pending then do
    markRunning U now id
    settle U nextFire now succeeds job
  else pure ()

end Cycle

variable {U : UuidText} {nextFire : Text → Int → Option Int}

section Settled

variable {kv : KeyValue Stored} {job stored : Job}

/-- A mark writes the job as it is stored. -/
theorem mark_of_stored (state : JobState) (now : Int)
    (found : storedJob U kv job.id = some stored) (same : stored.id = job.id) :
    mark U state now job.id kv = (.ok (), kv.insert (jobKey U job.id) (.job (markedAs state now stored))) := by
  have known : storedJob U kv (markedAs state now stored).id ≠ none := by
    rw [show (markedAs state now stored).id = job.id from same, found]
    exact Option.some_ne_none _
  rw [mark, Exec.bind_of_ok (getJob_of_stored found), updateJob_of_stored known]
  rw [show (markedAs state now stored).id = job.id from same]

theorem reschedule_of_stored (now nextRunAt : Int) (found : storedJob U kv job.id = some stored) :
    reschedule U now job nextRunAt kv =
      (.ok (), kv.insert (jobKey U job.id) (.job (rescheduled now nextRunAt job))) := by
  have known : storedJob U kv (rescheduled now nextRunAt job).id ≠ none := by
    rw [show (rescheduled now nextRunAt job).id = job.id from rfl, found]
    exact Option.some_ne_none _
  exact updateJob_of_stored known

/-- The job as a cycle leaves it. -/
def settled (nextFire : Text → Int → Option Int) (now : Int) (succeeds : Bool) (job : Job) : Job :=
  if succeeds then
    (nextRun nextFire now job).elim (markedAs .completed now (markedAs .running now job))
      fun nextRunAt => rescheduled now nextRunAt job
  else if job.retryCount < job.maxRetries then rescheduled now (now + job.retryDelaySecs * 1000) job
  else markedAs .failed now (markedAs .running now job)

theorem settle_spec (laws : U.Laws) (now : Int) (succeeds : Bool)
    (found : storedJob U kv job.id = some (markedAs .running now job)) (id : Uuid) :
    storedJob U (settle U nextFire now succeeds job kv).2 id =
      if id = job.id then some (settled nextFire now succeeds job) else storedJob U kv id := by
  have written (new : Job) (same : new.id = job.id) (kv : KeyValue Stored) :
      storedJob U (kv.insert (jobKey U job.id) (.job new)) id =
        if id = job.id then some new else storedJob U kv id := by
    rw [← same]
    exact storedJob_insert_job laws kv new id
  cases succeeds with
  | true =>
    have completes : markCompleted U now job.id kv = (.ok (), kv.insert (jobKey U job.id)
        (.job (markedAs .completed now (markedAs .running now job)))) := mark_of_stored .completed now found rfl
    have there : storedJob U (kv.insert (jobKey U job.id)
        (.job (markedAs .completed now (markedAs .running now job)))) job.id = some _ :=
      (storedJob_insert_job laws kv (markedAs .completed now (markedAs .running now job)) job.id).trans (if_pos rfl)
    rw [settle, if_pos rfl, Exec.bind_of_ok (Exec.attempt_of_ok completes), settled, if_pos rfl]
    cases nextRun nextFire now job with
    | none => exact written (markedAs .completed now (markedAs .running now job)) rfl kv
    | some nextRunAt =>
      have again := reschedule_of_stored now nextRunAt there
      simp only
      rw [Exec.bind_of_ok (Exec.attempt_of_ok again)]
      refine (written (rescheduled now nextRunAt job) rfl _).trans ?_
      by_cases here : id = job.id
      · rw [if_pos here, if_pos here]
        rfl
      · rw [if_neg here, if_neg here]
        exact (written (markedAs .completed now (markedAs .running now job)) rfl kv).trans (if_neg here)
  | false =>
    rw [settle, if_neg Bool.false_ne_true, settled, if_neg Bool.false_ne_true]
    by_cases left : job.retryCount < job.maxRetries
    · rw [if_pos left, if_pos left, Exec.bind_of_ok (Exec.attempt_of_ok (reschedule_of_stored now _ found))]
      exact written (rescheduled now (now + job.retryDelaySecs * 1000) job) rfl kv
    · have fails : markFailed U now job.id kv = (.ok (), kv.insert (jobKey U job.id)
          (.job (markedAs .failed now (markedAs .running now job)))) := mark_of_stored .failed now found rfl
      rw [if_neg left, if_neg left, Exec.bind_of_ok (Exec.attempt_of_ok fails)]
      exact written (markedAs .failed now (markedAs .running now job)) rfl kv

/-- **A cycle** changes a pending job into what it settles as, and nothing else. -/
theorem dispatched_spec (laws : U.Laws) (nextFire : Text → Int → Option Int) (now : Int) (succeeds : Bool)
    (found : storedJob U kv job.id = some job) (id : Uuid) :
    storedJob U (dispatched U nextFire job.id now succeeds kv).2 id =
      if id = job.id ∧ job.state = .pending then some (settled nextFire now succeeds job)
      else storedJob U kv id := by
  rw [dispatched, Exec.bind_of_ok (getJob_of_stored found)]
  by_cases pending : job.state = .pending
  · have marks : markRunning U now job.id kv =
        (.ok (), kv.insert (jobKey U job.id) (.job (markedAs .running now job))) := mark_of_stored .running now found rfl
    rw [if_pos pending, Exec.bind_of_ok marks]
    have there : storedJob U (kv.insert (jobKey U job.id) (.job (markedAs .running now job))) job.id = some _ :=
      (storedJob_insert_job laws kv (markedAs .running now job) job.id).trans (if_pos rfl)
    rw [settle_spec laws now succeeds there]
    by_cases here : id = job.id
    · rw [if_pos here, if_pos ⟨here, pending⟩]
    · rw [if_neg here, if_neg fun both => here both.1]
      exact (storedJob_insert_job laws kv (markedAs .running now job) id).trans (if_neg here)
  · rw [if_neg pending, if_neg fun both => pending both.2]
    rfl

end Settled

/-! ## How a job stands -/

/-- The state of a job, and the executions in a row that have failed and were tried again. -/
structure Standing where
  state : JobState
  retries : Nat
  deriving DecidableEq

/-- What is stored of it. -/
def Job.standing (job : Job) : Standing := ⟨job.state, job.retryCount⟩

/-- After an execution: a failure is one more retry, and the end where none is left; a success starts
anew where the job recurs. -/
def Standing.after (maxRetries : Nat) (recurs succeeds : Bool) (standing : Standing) : Standing :=
  if standing.state ≠ .pending then standing
  else if succeeds then ⟨if recurs then .pending else .completed, 0⟩
  else if standing.retries < maxRetries then ⟨.pending, standing.retries + 1⟩
  else ⟨.failed, standing.retries⟩

/-! ## Runs of cycles -/

section Runs

variable (U : UuidText) (nextFire : Text → Int → Option Int) (job : Job)

/-- A cycle of the job, and how the job is to stand after it. -/
def tracked (w : KeyValue Stored × Standing) (cycle : Int × Bool) : KeyValue Stored × Standing :=
  ((dispatched U nextFire job.id cycle.1 cycle.2 w.1).2,
    w.2.after job.maxRetries (nextRun nextFire cycle.1 job).isSome cycle.2)

/-- The stored job stands as it is to. -/
def Stands (w : KeyValue Stored × Standing) : Prop :=
  (storedJob U w.1 job.id).map Job.standing = some w.2

/-- In every state of some cycles the stored job stands as it is to: every failure in a row counts,
and the first with no retry left is the last. -/
def RetriesCounted (kv : KeyValue Stored) (cycles : List (Int × Bool)) : Prop :=
  Run.Always (tracked U nextFire job) (Stands U job) (kv, job.standing) cycles

/-- No execution is one to retry, and no success has a count to take back without a next run. -/
def Final (w : KeyValue Stored × Standing) (cycle : Int × Bool) : Prop :=
  w.2.state = .pending →
    if cycle.2 then (nextRun nextFire cycle.1 job).isSome = true ∨ w.2.retries = 0
    else job.maxRetries ≤ w.2.retries

variable {U nextFire job}

/-- What the cycles leave of a job as it was. -/
def Alike (job stored : Job) : Prop :=
  stored = { job with
    nextRunAt := stored.nextRunAt, lastRunAt := stored.lastRunAt, state := stored.state,
    retryCount := stored.retryCount, updatedAt := stored.updatedAt }

theorem Alike.settled {stored : Job} (alike : Alike job stored) (now : Int) (succeeds : Bool) :
    Alike job (settled nextFire now succeeds stored) := by
  rw [Alike] at alike
  rw [Alike, Scheduler.settled]
  cases succeeds with
  | true =>
    rw [if_pos rfl]
    cases nextRun nextFire now stored <;> simp only [Option.elim, markedAs, rescheduled] <;> rw [alike]
  | false =>
    rw [if_neg Bool.false_ne_true]
    split <;> simp only [markedAs, rescheduled] <;> rw [alike]

theorem Alike.nextRun_eq {stored : Job} (alike : Alike job stored) (now : Int) :
    nextRun nextFire now stored = nextRun nextFire now job := by
  rw [Alike] at alike
  rw [alike]
  rfl

/-- A cycle stands as it is to exactly where it is final. -/
theorem standing_settled_iff {stored : Job} (alike : Alike job stored) (pending : stored.state = .pending) (now : Int)
    (succeeds : Bool) :
    (settled nextFire now succeeds stored).standing =
        stored.standing.after job.maxRetries (nextRun nextFire now job).isSome succeeds ↔
      if succeeds then (nextRun nextFire now job).isSome = true ∨ stored.retryCount = 0
      else job.maxRetries ≤ stored.retryCount := by
  have most : stored.maxRetries = job.maxRetries := by rw [alike]
  have isPending : ¬ stored.standing.state ≠ .pending := not_not.mpr pending
  rw [Standing.after, if_neg isPending, settled, alike.nextRun_eq, most]
  cases succeeds with
  | true =>
    rw [if_pos rfl, if_pos rfl, if_pos rfl]
    cases nextRun nextFire now job <;> simp [Job.standing, markedAs, rescheduled]
  | false =>
    rw [if_neg Bool.false_ne_true, if_neg Bool.false_ne_true, if_neg Bool.false_ne_true]
    by_cases left : stored.retryCount < job.maxRetries
    · simp [Job.standing, rescheduled, left]
    · simp [Job.standing, markedAs, left, Nat.le_of_not_lt left]

/-- **Where retries are counted**: the job stands as it is to after every cycle exactly when no cycle
has a failure to retry. -/
theorem retries_counted_iff (U : UuidText) (laws : U.Laws) (nextFire : Text → Int → Option Int) (job : Job)
    (kv : KeyValue Stored) (stored : storedJob U kv job.id = some job) (cycles : List (Int × Bool)) :
    RetriesCounted U nextFire job kv cycles ↔
      Run.Each (tracked U nextFire job) (Final nextFire job) (kv, job.standing) cycles := by
  let known (w : KeyValue Stored × Standing) : Prop :=
    ∃ found, storedJob U w.1 job.id = some found ∧ Alike job found
  have cycle_spec : ∀ (w : KeyValue Stored × Standing) (cycle : Int × Bool) (found : Job),
      storedJob U w.1 job.id = some found → Alike job found →
      storedJob U (tracked U nextFire job w cycle).1 job.id =
        some (if found.state = .pending then settled nextFire cycle.1 cycle.2 found else found) := by
    intro w cycle found isStored alike
    have same : found.id = job.id := by rw [alike]
    have spec := dispatched_spec laws nextFire cycle.1 cycle.2 (by rw [same]; exact isStored) found.id
    rw [same] at spec
    rw [tracked, spec, isStored]
    by_cases pending : found.state = .pending
    · rw [if_pos ⟨rfl, pending⟩, if_pos pending]
    · rw [if_neg fun both => pending both.2, if_neg pending]
  refine Run.forall_states_iff (I := known) ?_ ?_ ⟨job, stored, rfl⟩ (by rw [Stands, stored]; rfl)
  · rintro w cycle ⟨found, isStored, alike⟩
    refine ⟨_, cycle_spec w cycle found isStored alike, ?_⟩
    split
    · exact alike.settled cycle.1 cycle.2
    · exact alike
  · rintro w cycle ⟨found, isStored, alike⟩ stands
    have standing : found.standing = w.2 := by
      rw [Stands, isStored] at stands
      exact Option.some.inj stands
    rw [Stands, cycle_spec w cycle found isStored alike, Option.map_some, Option.some.injEq, Final, ← standing]
    by_cases pending : found.state = .pending
    · rw [if_pos pending]
      refine Iff.trans ?_ (forall_prop_of_true pending).symm
      rw [tracked, ← standing]
      exact standing_settled_iff alike pending cycle.1 cycle.2
    · refine iff_of_true ?_ fun isPending => absurd isPending pending
      rw [if_neg pending, tracked, ← standing]
      exact (if_pos pending).symm

end Runs

/-! ### A job with one retry -/

/-- The sample job, with a retry. -/
def retried : Job := { Manager.sampleJob .oneTime with maxRetries := 1 }

/-- It fails twice and is still pending, with no retry counted. -/
theorem retries_uncounted : ¬ ∀ (U : UuidText), U.Laws → ∀ (nextFire : Text → Int → Option Int) (job : Job)
    (kv : KeyValue Stored), storedJob U kv job.id = some job → ∀ cycles, RetriesCounted U nextFire job kv cycles := by
  intro all
  have counted := all .hyphenated Queue.UuidText.laws_hyphenated (fun _ _ => none) retried
    ((∅ : KeyValue Stored).insert (jobKey .hyphenated 1) (.job retried)) (by decide +kernel)
    [(100, false), (200, false)]
  have last := counted _ (Run.foldl_mem_states _ _)
  exact absurd last (by unfold Stands; decide +kernel)

theorem retries_counted_sample :
    RetriesCounted .hyphenated (fun _ _ => none) (Manager.sampleJob .interval)
        ((∅ : KeyValue Stored).insert (jobKey .hyphenated 1) (.job (Manager.sampleJob .interval)))
        [(100, true), (200, false), (300, false)] ↔
      Run.Each (tracked .hyphenated (fun _ _ => none) (Manager.sampleJob .interval))
        (Final (fun _ _ => none) (Manager.sampleJob .interval))
        ((∅ : KeyValue Stored).insert (jobKey .hyphenated 1) (.job (Manager.sampleJob .interval)),
          (Manager.sampleJob .interval).standing) [(100, true), (200, false), (300, false)] :=
  retries_counted_iff .hyphenated Queue.UuidText.laws_hyphenated _ _ _ (by decide +kernel) _

end NovaRuntime.Scheduler
