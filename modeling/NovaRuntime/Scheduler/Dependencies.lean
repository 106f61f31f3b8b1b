/-
# NovaRuntime.Scheduler.Dependencies — `schedule_job` and the graph of dependencies

`schedule_job` validates the dependencies of a job and creates it; its timers touch no job. The loop
of `validate_dependencies` is a search through the stored jobs (`validateFrom_eq`), and a dependency
that is not stored yet has no dependencies.

`stays_acyclic`: over any sequence of calls every search ends, it rejects exactly the jobs that would
close a cycle, and no cycle is ever stored.
-/
import NovaRuntime.Library.Worklist
import NovaRuntime.Library.Runs
import NovaRuntime.Scheduler.ManagerSpec

namespace NovaRuntime.Scheduler

open NovaRuntime.Library

set_option autoImplicit false

variable (U : UuidText)

/-! ## The calls -/

def cycleError (job : Job) : SchedulerError :=
  .dependencyCycle ("Job ".toList ++ (job.name ++ " depends on itself".toList))

/-- The loop of `validate_dependencies` with so many turns; the top of its stack comes first. -/
def validateFrom (job : Job) : Nat → List Uuid → List Uuid → Method Unit
  | 0, _, _ => Exec.lift .hang
  | _ + 1, _, [] => pure ()
  | turns + 1, visited, depId :: stack =>
    if depId = job.id then Exec.lift (.err (cycleError job))
    else if depId ∈ visited then validateFrom job turns visited stack
    else do
      match ← (getJob U depId).attempt with
      | some depJob => validateFrom job turns (depId :: visited) (depJob.dependsOn.reverse ++ stack)
      | none => validateFrom job turns (depId :: visited) stack

def validateDependencies (turns : Nat) (job : Job) : Method Unit :=
  validateFrom U job turns [] job.dependsOn.reverse

/-- A job without an identifier gets a fresh one. -/
def named (job : Job) (fresh : Uuid) : Job := if job.id = 0 then { job with id := fresh } else job

/-- `schedule_job`, as far as it touches the store. -/
def scheduleJob (turns : Nat) (job : Job) (fresh : Uuid) : Method Unit := do
  let job := named job fresh
  if job.dependsOn.isEmpty then pure () else validateDependencies U turns job
  createJob U job

/-- The store after a call, however it ended. -/
def scheduled (turns : Nat) (kv : KeyValue Stored) (call : Job × Uuid) : KeyValue Stored :=
  (scheduleJob U turns call.1 call.2 kv).2

/-! ## The graph -/

/-- A stored job depends on another, stored or not. -/
def DependsOn (kv : KeyValue Stored) (id depId : Uuid) : Prop :=
  ∃ job, storedJob U kv id = some job ∧ depId ∈ job.dependsOn

/-- Stored, the job would be on a cycle. -/
def Closes (kv : KeyValue Stored) (job : Job) : Prop :=
  Relation.TransGen (DependsOn U (kv.insert (jobKey U job.id) (.job job))) job.id job.id

/-- What the search puts on its stack for an identifier. -/
def stacked (kv : KeyValue Stored) (id : Uuid) : List Uuid :=
  (storedJob U kv id).elim [] fun job => job.dependsOn.reverse

variable {U}
variable {job : Job} {kv : KeyValue Stored}

theorem edge_stacked (kv : KeyValue Stored) : Worklist.Edge (stacked U kv) = DependsOn U kv := by
  funext id depId
  rw [Worklist.Edge, stacked, DependsOn]
  cases storedJob U kv id <;> simp

theorem dependsOn_insert (laws : U.Laws) {id depId : Uuid} :
    DependsOn U (kv.insert (jobKey U job.id) (.job job)) id depId ↔
      if id = job.id then depId ∈ job.dependsOn else DependsOn U kv id depId := by
  rw [DependsOn, storedJob_insert_job laws]
  split
  · simp
  · rfl

/-! ## What the validation finds -/

/-- **The loop is a search for the job**, and changes nothing. -/
theorem validateFrom_eq (job : Job) (turns : Nat) (visited stack : List Uuid) (kv : KeyValue Stored) :
    validateFrom U job turns visited stack kv =
      ((Worklist.search (stacked U kv) job.id turns visited stack).elim .hang
        fun found => if found then .err (cycleError job) else .ok (), kv) := by
  induction turns generalizing visited stack with
  | zero => rfl
  | succ turns ih =>
    cases stack with
    | nil => rfl
    | cons depId stack =>
      rw [validateFrom, Worklist.search]
      split
      · rfl
      · split
        · exact ih visited stack
        · rcases stored : storedJob U kv depId with _ | depJob
          · obtain ⟨e, failed⟩ := getJob_of_absent stored
            rw [Exec.bind_of_ok (Exec.attempt_of_err failed), stacked, stored]
            exact ih (depId :: visited) stack
          · rw [Exec.bind_of_ok (Exec.attempt_of_ok (getJob_of_stored stored)), stacked, stored]
            exact ih (depId :: visited) (depJob.dependsOn.reverse ++ stack)

/-- The job closes a cycle where a dependency leads back to it. -/
theorem closes_iff (laws : U.Laws) :
    Closes U kv job ↔ Worklist.Leads (stacked U kv) job.id job.dependsOn.reverse := by
  have others : ∀ id depId, id ≠ job.id →
      (DependsOn U (kv.insert (jobKey U job.id) (.job job)) id depId ↔ DependsOn U kv id depId) := by
    intro id depId other
    rw [dependsOn_insert laws, if_neg other]
  rw [Closes, Worklist.cycle_iff_of_others others, Worklist.Leads, edge_stacked]
  refine exists_congr fun depId => ?_
  rw [dependsOn_insert laws, if_pos rfl, List.mem_reverse]

/-- The turns that are enough, and what the validation then says. -/
theorem validateDependencies_spec (laws : U.Laws) (keyed : WellKeyed U kv) (job : Job) :
    ∃ enough o, (∀ turns, enough ≤ turns → validateDependencies U turns job kv = (o, kv)) ∧
      o ≠ .hang ∧ (o = .err (cycleError job) ↔ Closes U kv job) ∧ (o = .ok () ↔ ¬ Closes U kv job) := by
  let nodes := ((storedJobs kv).map Job.id).dedup
  have known : ∀ id, stacked U kv id ≠ [] → id ∈ nodes := by
    intro id some
    rw [List.mem_dedup, List.mem_map]
    rcases stored : storedJob U kv id with _ | depJob
    · rw [stacked, stored] at some
      exact absurd rfl some
    · exact ⟨depJob, mem_storedJobs stored, keyed.id_eq laws stored⟩
  let enough := job.dependsOn.reverse.length + Worklist.ahead (stacked U kv) nodes [] + 1
  have settles : Worklist.search (stacked U kv) job.id enough [] job.dependsOn.reverse ≠ none :=
    Worklist.search_settles (List.nodup_dedup _) known enough [] _ (Nat.lt_succ_self _)
  obtain ⟨found, settled⟩ := Option.ne_none_iff_exists'.mp settles
  have exact_ := Worklist.search_exact settled
  rw [← closes_iff laws] at exact_
  refine ⟨enough, if found then .err (cycleError job) else .ok (), fun turns le => ?_, ?_⟩
  · rw [validateDependencies, validateFrom_eq, Worklist.search_le le settled]
    rfl
  · cases found <;> simp_all

/-! ## What a call stores -/

/-- A creation stores the job under a new identifier, or changes nothing. -/
theorem createJob_cases (job : Job) (kv : KeyValue Stored) :
    (createJob U job kv).2 = kv ∨
      (createJob U job kv).2 = kv.insert (jobKey U job.id) (.job job) ∨
        (createJob U job kv).2 = (kv.insert (jobKey U job.id) (.job job)).insert
          (jobPendingKey U job.id job.nextRunAt) .empty := by
  rcases found : kv[jobKey U job.id]? with _ | value
  · refine .inr ?_
    have isNew : checkNew U job kv = (.ok (), kv) := by
      rw [checkNew, Exec.bind_of_ok (KeyValue.get_apply (jobKey U job.id) kv), found]
      rfl
    have stores : setJob U job kv = (.ok (), kv.insert (jobKey U job.id) (.job job)) := rfl
    rw [createJob, Exec.bind_of_ok isNew, Exec.bind_of_ok stores, indexJob]
    split
    · exact .inr rfl
    · exact .inl rfl
  · refine .inl ?_
    have refused : checkNew U job kv = (.err (.jobAlreadyExists (U.display job.id)), kv) := by
      rw [checkNew, Exec.bind_of_ok (KeyValue.get_apply (jobKey U job.id) kv), found]
      rfl
    rw [createJob, Exec.bind_apply, refused]

/-- The jobs are where they belong, and none is on a cycle. -/
structure Ordered (U : UuidText) (kv : KeyValue Stored) : Prop where
  keyed : WellKeyed U kv
  acyclic : Worklist.Acyclic (DependsOn U kv)

theorem wellKeyed_insert_job (keyed : WellKeyed U kv) (job : Job) :
    WellKeyed U (kv.insert (jobKey U job.id) (.job job)) := by
  intro key stored found
  rw [Std.TreeMap.getElem?_insert] at found
  split at found
  · next here =>
      cases found
      exact (byteCmp_eq.mp here).symm
  · exact keyed key stored found

theorem wellKeyed_insert_index (keyed : WellKeyed U kv) (id : Uuid) (nextRunAt : Int) :
    WellKeyed U (kv.insert (jobPendingKey U id nextRunAt) .empty) := by
  intro key stored found
  rw [Std.TreeMap.getElem?_insert] at found
  split at found
  · cases found
  · exact keyed key stored found

theorem dependsOn_insert_index (kv : KeyValue Stored) (id : Uuid) (nextRunAt : Int) :
    DependsOn U (kv.insert (jobPendingKey U id nextRunAt) .empty) = DependsOn U kv := by
  funext a b
  rw [DependsOn, storedJob_insert_index]
  rfl

/-- **A job that closes no cycle** may be stored. -/
theorem Ordered.create (laws : U.Laws) (ordered : Ordered U kv)
    (free : ¬ Closes U kv job) : Ordered U (createJob U job kv).2 := by
  have others : ∀ id depId, id ≠ job.id →
      (DependsOn U (kv.insert (jobKey U job.id) (.job job)) id depId ↔ DependsOn U kv id depId) := by
    intro id depId other
    rw [dependsOn_insert laws, if_neg other]
  have acyclic := (Worklist.acyclic_iff_of_others ordered.acyclic others).mpr free
  rcases createJob_cases job kv with same | stored | indexed
  · rwa [same]
  · rw [stored]
    exact ⟨wellKeyed_insert_job ordered.keyed job, acyclic⟩
  · rw [indexed]
    refine ⟨wellKeyed_insert_index (wellKeyed_insert_job ordered.keyed job) _ _, ?_⟩
    rwa [dependsOn_insert_index]

/-- Without dependencies a job closes no cycle. -/
theorem not_closes_of_isEmpty (laws : U.Laws)
    (none : job.dependsOn.isEmpty = true) : ¬ Closes U kv job := by
  rw [closes_iff laws, List.isEmpty_iff.mp none]
  rintro ⟨depId, member, -⟩
  cases member

/-! ## Sequences of calls -/

/-- The validation ends, and rejects the job exactly where it would close a cycle. -/
def Validated (U : UuidText) (turns : Nat) (kv : KeyValue Stored) (call : Job × Uuid) : Prop :=
  (validateDependencies U turns (named call.1 call.2) kv).1 ≠ .hang ∧
    ((∃ e, (validateDependencies U turns (named call.1 call.2) kv).1 = .err e) ↔
      Closes U kv (named call.1 call.2))

/-- One call: with enough turns it validates, and its store is one and the same. -/
theorem scheduled_spec (laws : U.Laws) (ordered : Ordered U kv) (call : Job × Uuid) :
    ∃ enough kv', Ordered U kv' ∧ ∀ turns, enough ≤ turns →
      Validated U turns kv call ∧ scheduled U turns kv call = kv' := by
  obtain ⟨enough, o, ran, ends, rejects, passes⟩ :=
    validateDependencies_spec laws ordered.keyed (named call.1 call.2)
  have validated : ∀ turns, enough ≤ turns → Validated U turns kv call := by
    intro turns le
    rw [Validated, ran turns le]
    refine ⟨ends, ⟨?_, fun closes => ⟨_, rejects.mpr closes⟩⟩⟩
    rintro ⟨e, failed⟩
    by_contra free
    rw [passes.mpr free] at failed
    cases failed
  by_cases empty : (named call.1 call.2).dependsOn.isEmpty = true
  · refine ⟨enough, _, ordered.create laws (not_closes_of_isEmpty laws empty), fun turns le =>
      ⟨validated turns le, ?_⟩⟩
    rw [scheduled, scheduleJob]
    simp only [if_pos empty]
  · have goes (turns : Nat) : scheduled U turns kv call =
        ((validateDependencies U turns (named call.1 call.2) >>= fun _ => createJob U (named call.1 call.2)) kv).2 := by
      rw [scheduled, scheduleJob]
      simp only [if_neg empty]
    by_cases closes : Closes U kv (named call.1 call.2)
    · refine ⟨enough, kv, ordered, fun turns le => ⟨validated turns le, ?_⟩⟩
      rw [goes, Exec.bind_apply, ran turns le, rejects.mpr closes]
    · refine ⟨enough, _, ordered.create laws closes, fun turns le => ⟨validated turns le, ?_⟩⟩
      have passed : validateDependencies U turns (named call.1 call.2) kv = (.ok (), kv) := by
        rw [ran turns le, passes.mpr closes]
      rw [goes, Exec.bind_of_ok passed]

theorem stays_acyclic_from (laws : U.Laws) (calls : List (Job × Uuid))
    (ordered : Ordered U kv) :
    ∃ enough, ∀ turns, enough ≤ turns →
      Run.Each (scheduled U turns) (Validated U turns) kv calls ∧
        Run.Always (scheduled U turns) (fun kv => Worklist.Acyclic (DependsOn U kv)) kv calls := by
  induction calls generalizing kv with
  | nil =>
    refine ⟨0, fun turns _ => ⟨trivial, ?_⟩⟩
    intro kv' member
    rw [List.mem_singleton.mp member]
    exact ordered.acyclic
  | cons call rest ih =>
    obtain ⟨first, kv', ordered', called⟩ := scheduled_spec laws ordered call
    obtain ⟨later, goesOn⟩ := ih ordered'
    refine ⟨max first later, fun turns le => ?_⟩
    obtain ⟨validated, after⟩ := called turns (by omega)
    obtain ⟨each, always⟩ := goesOn turns (by omega)
    rw [← after] at each always
    refine ⟨⟨validated, each⟩, fun s member => ?_⟩
    rcases List.mem_cons.mp member with rfl | inRest
    · exact ordered.acyclic
    · exact always s inRest

/-- **The dependencies stay acyclic**: over any sequence of calls, every validation ends and rejects
exactly the jobs that would close a cycle, and no stored job ever depends on itself. -/
theorem stays_acyclic (U : UuidText) (laws : U.Laws) (calls : List (Job × Uuid)) :
    ∃ enough, ∀ turns, enough ≤ turns →
      Run.Each (scheduled U turns) (Validated U turns) ∅ calls ∧
        Run.Always (scheduled U turns) (fun kv => Worklist.Acyclic (DependsOn U kv)) ∅ calls := by
  refine stays_acyclic_from laws calls ⟨fun key job found => ?_, fun id cycle => ?_⟩
  · rw [Std.TreeMap.getElem?_emptyc] at found
    cases found
  · obtain ⟨depId, ⟨job, stored, -⟩, -⟩ := Relation.TransGen.head'_iff.mp cycle
    rw [Manager.storedJob_empty] at stored
    cases stored

/-! ### Two jobs -/

/-- A job that depends on some others. -/
def dependent (id : Uuid) (dependsOn : List Uuid) : Job :=
  { Manager.sampleJob .oneTime with id := id, dependsOn := dependsOn }

example : (validateDependencies .hyphenated 4 (dependent 2 [3, 1, 1])
    (scheduled .hyphenated 4 ∅ (dependent 1 [2, 2], 7))).1 = .err (cycleError (dependent 2 [3, 1, 1])) := by
  decide +kernel

theorem stays_acyclic_sample :
    ∃ enough, ∀ turns, enough ≤ turns →
      Run.Each (scheduled .hyphenated turns) (Validated .hyphenated turns) ∅
          [(dependent 1 [2, 2], 7), (dependent 2 [3, 1, 1], 7)] ∧
        Run.Always (scheduled .hyphenated turns) (fun kv => Worklist.Acyclic (DependsOn .hyphenated kv)) ∅
          [(dependent 1 [2, 2], 7), (dependent 2 [3, 1, 1], 7)] :=
  stays_acyclic .hyphenated Queue.UuidText.laws_hyphenated _

end NovaRuntime.Scheduler
