/-
# NovaRuntime.Scheduler.ReadyIndex — what `find_ready_jobs` finds through the index

The store of the backend over whole runs of its methods, `delete_job` among them. The index keys of the store are
always of stored jobs, one for a job at most (`Indexed`): `create_job` writes it for the time the job then has,
`delete_job` takes it away, and no other method follows the job to another time or state. So the search looks at
distinct jobs, and its limit counts all of them, ready or not.
-/
import NovaRuntime.Library.Decimals
import NovaRuntime.Library.Distinct
import NovaRuntime.Library.Runs
import NovaRuntime.Scheduler.ManagerSpec

namespace NovaRuntime.Scheduler

open NovaRuntime.Library

set_option autoImplicit false

/-! ## Deletion -/

/-- The loop of `delete_job`: a key whose text contains the identifier is deleted. -/
def dropIndexed (U : UuidText) (id : Uuid) : List (Bytes × Stored) → Method Unit
  | [] => pure ()
  | (key, _) :: rest => do
      if utf8 (U.display id) <:+: key then KeyValue.delete key
      dropIndexed U id rest

def deleteJob (U : UuidText) (id : Uuid) : Method Unit := do
  match ← KeyValue.get (jobKey U id) with
  | none => Exec.lift (.err (.jobNotFound (U.display id)))
  | some _ => do
      KeyValue.delete (jobKey U id)
      let start := utf8 pendingLabel
      let entries ← KeyValue.scan start (start ++ [0xFF])
      dropIndexed U id entries

/-! ## Runs -/

/-- A method of the backend, with the times it reads from the clock. -/
inductive BackendCall where
  | createJob (job : Job)
  | updateJob (job : Job)
  | deleteJob (id : Uuid)
  | markRunning (now : Int) (id : Uuid)
  | markCompleted (now : Int) (id : Uuid)
  | markFailed (now : Int) (id : Uuid)
  | markCancelled (now : Int) (id : Uuid)
  | reschedule (now : Int) (job : Job) (nextRunAt : Int)
  deriving DecidableEq

def BackendCall.run (U : UuidText) : BackendCall → Method Unit
  | .createJob job => Scheduler.createJob U job
  | .updateJob job => Scheduler.updateJob U job
  | .deleteJob id => Scheduler.deleteJob U id
  | .markRunning now id => Scheduler.markRunning U now id
  | .markCompleted now id => Scheduler.markCompleted U now id
  | .markFailed now id => Scheduler.markFailed U now id
  | .markCancelled now id => Scheduler.markCancelled U now id
  | .reschedule now job nextRunAt => Scheduler.reschedule U now job nextRunAt

/-- The store after a call, whatever the call returns. -/
def backendStep (U : UuidText) (kv : KeyValue Stored) (call : BackendCall) : KeyValue Stored := (call.run U kv).2

/-! ## Ready jobs -/

def Job.IsReady (now : Int) (job : Job) : Bool := job.state = .pending && decide (job.nextRunAt ≤ now)

def readyJobs (now : Int) (kv : KeyValue Stored) : List Job := (storedJobs kv).filter (Job.IsReady now)

/-- The identifiers in the index keys that `find_ready_jobs` looks at. -/
def seenIds (U : UuidText) (now : Int) (limit : Nat) (kv : KeyValue Stored) : List Uuid :=
  (readyEntries now limit kv).filterMap fun e => indexedId U e.1

/-- As many distinct jobs are found as there are ready ones, up to the limit. -/
def FindsReady (U : UuidText) (now : Int) (limit : Nat) (kv : KeyValue Stored) : Prop :=
  ∃ jobs, findReadyJobs U now limit kv = (.ok jobs, kv) ∧ jobs.Nodup ∧
    jobs.length = min limit (readyJobs now kv).length

/-- The first keys of the index up to the time are enough and all of ready jobs, or every ready job has its key
among them. -/
def IndexServes (U : UuidText) (now : Int) (limit : Nat) (kv : KeyValue Stored) : Prop :=
  ((seenIds U now limit kv).length = limit ∧ ∀ id ∈ seenIds U now limit kv, ∃ job ∈ readyJobs now kv, job.id = id) ∨
    ∀ job ∈ readyJobs now kv, job.id ∈ seenIds U now limit kv

/-! ## Index keys -/

/-- A text of an identifier has 36 bytes, of which four are hyphens. -/
structure UuidLength (U : UuidText) : Prop extends U.Laws where
  length : ∀ id, (utf8 (U.display id)).length = 36
  hyphens : ∀ id, (utf8 (U.display id)).count 0x2D = 4

section Keys

variable {U : UuidText} {kv : KeyValue Stored} {id id' : Uuid} {t t' : Int}

/-- The four parts of an index key. -/
theorem jobPendingKey_parts (id : Uuid) (t : Int) : jobPendingKey U id t =
    utf8 "sched".toList ++ 0x3A :: (utf8 "pending".toList ++ 0x3A ::
      (utf8 (pad020 t) ++ 0x3A :: utf8 (U.display id))) := by
  have label : utf8 pendingLabel = utf8 "sched".toList ++ 0x3A :: (utf8 "pending".toList ++ [0x3A]) := by decide
  rw [jobPendingKey, utf8_append, utf8_append, utf8_cons, label]
  simp [show String.utf8EncodeChar ':' = [0x3A] by decide]

theorem jobPendingKey_id (laws : U.Laws) (same : jobPendingKey U id t = jobPendingKey U id' t') : id = id' := by
  have texts := utf8_injective same
  rw [← List.append_assoc, ← List.append_assoc,
    append_sep_inj_right (laws.no_colon id) (laws.no_colon id')] at texts
  exact laws.display_injective texts.2

/-- The identifier in an index key is the one it was made with. -/
theorem indexedId_jobPendingKey (laws : U.Laws) (id : Uuid) (t : Int) :
    indexedId U (jobPendingKey U id t) = some id := by
  have last : (utf8 (U.display id)).splitOn 0x3A = [utf8 (U.display id)] :=
    List.splitOn_eq_singleton (colon_mem_utf8 (laws.no_colon id))
  have front : (utf8 "sched".toList).splitOn 0x3A ++ (utf8 "pending".toList).splitOn 0x3A =
      [utf8 "sched".toList, utf8 "pending".toList] := by decide
  have some : 0 < ((utf8 (pad020 t)).splitOn 0x3A).length := List.length_pos_iff.mpr (List.splitOn_ne_nil _ _)
  have split : (jobPendingKey U id t).splitOn 0x3A =
      [utf8 "sched".toList, utf8 "pending".toList] ++ ((utf8 (pad020 t)).splitOn 0x3A ++ [utf8 (U.display id)]) := by
    rw [jobPendingKey_parts, List.splitOn_append_cons_self, List.splitOn_append_cons_self,
      List.splitOn_append_cons_self, last, ← List.append_assoc, front]
  rw [indexedId, split, if_neg]
  · rw [← List.append_assoc, List.getLast?_concat]
    exact laws.parse_display id
  · simp only [List.length_append, List.length_cons, List.length_nil]
    omega

/-- A padded number has one hyphen at most. -/
theorem count_pad020 (t : Int) : (utf8 (pad020 t)).count 0x2D ≤ 1 := by
  have none {text : Text} (digits : ∀ c ∈ text, c.isDigit) : (utf8 text).count 0x2D = 0 := by
    refine List.count_eq_zero.mpr fun inText => ?_
    obtain ⟨c, member, inChar⟩ := List.mem_flatMap.mp inText
    have code := (mem_utf8EncodeChar inChar).2 (by decide)
    obtain rfl : c = '-' := Char.ext (UInt32.toNat_inj.mp code)
    exact absurd (digits '-' member) (by decide)
  have padded (width : Nat) : ∀ c ∈ List.replicate width '0' ++ Nat.toDigits 10 t.natAbs, c.isDigit := by
    intro c member
    rcases List.mem_append.mp member with zero | digit
    · rw [List.eq_of_mem_replicate zero]
      decide
    · exact Nat.isDigit_of_mem_toDigits (by decide) (by decide) digit
  unfold pad020
  split
  · have hyphen : String.utf8EncodeChar '-' = [0x2D] := by decide
    rw [utf8_cons, hyphen, List.singleton_append, List.count_cons_self, none (padded _)]
  · rw [none (padded _)]
    exact Nat.zero_le 1

/-- Only the identifier of an index key is a part of its text. -/
theorem display_infix_iff (laws : UuidLength U) :
    utf8 (U.display id) <:+: jobPendingKey U id' t ↔ id = id' := by
  have free := colon_mem_utf8 (laws.no_colon id)
  rw [jobPendingKey_parts, infix_append_sep free, infix_append_sep free, infix_append_sep free]
  constructor
  · rintro (inSched | inPending | inTime | inId)
    · have := inSched.length_le
      rw [laws.length] at this
      exact absurd this (by decide)
    · have := inPending.length_le
      rw [laws.length] at this
      exact absurd this (by decide)
    · have fewer := inTime.sublist.count_le 0x2D
      have one := count_pad020 t
      rw [laws.hyphens] at fewer
      omega
    · have same := inId.eq_of_length (by rw [laws.length, laws.length])
      exact laws.display_injective (utf8_injective same)
  · rintro rfl
    exact .inr (.inr (.inr (List.infix_refl _)))

/-- Index keys are read by a scan of the label, keys of jobs are not. -/
theorem jobPendingKey_inRange (id : Uuid) (t : Int) : ¬ jobPendingKey U id t < utf8 pendingLabel ∧
    jobPendingKey U id t < utf8 pendingLabel ++ [0xFF] := by
  refine (mem_prefixRange (ff_not_mem_utf8 _)).mpr ?_
  show utf8 pendingLabel <+: utf8 (pendingLabel ++ _)
  rw [utf8_append]
  exact List.prefix_append ..

theorem jobKey_notInRange (id : Uuid) : ¬ (¬ jobKey U id < utf8 pendingLabel ∧
    jobKey U id < utf8 pendingLabel ++ [0xFF]) := by
  intro inside
  obtain ⟨rest, same⟩ := utf8_prefix_iff.mp ((mem_prefixRange (ff_not_mem_utf8 _)).mp inside)
  have sixth := congrArg (fun t : Text => (t.drop 6).head?) same
  cases sixth

end Keys

/-! ## The store of a run -/

/-- Jobs are stored under their identifiers, the other keys are index keys of stored jobs, and no job has two. -/
structure Indexed (U : UuidText) (kv : KeyValue Stored) : Prop where
  keyed : WellKeyed U kv
  entries : ∀ key, kv[key]? = some .empty → ∃ id t, key = jobPendingKey U id t ∧ Known U kv id
  once : ∀ id t t', kv[jobPendingKey U id t]? = some .empty → kv[jobPendingKey U id t']? = some .empty →
    jobPendingKey U id t = jobPendingKey U id t'

section Runs

variable {U : UuidText} {kv : KeyValue Stored} {id : Uuid} {job : Job}

theorem indexed_empty : Indexed U ∅ where
  keyed key job found := by
    rw [Std.TreeMap.getElem?_emptyc] at found
    cases found
  entries key found := by
    rw [Std.TreeMap.getElem?_emptyc] at found
    cases found
  once id t t' found := by
    rw [Std.TreeMap.getElem?_emptyc] at found
    cases found

theorem known_insert_job (laws : U.Laws) (known : Known U kv id) :
    Known U (kv.insert (jobKey U job.id) (.job job)) id := by
  rw [Known, storedJob_insert_job laws]
  split
  · simp
  · exact known

/-- What is found behind an insertion. -/
theorem getElem?_insert_ite (kv : KeyValue Stored) (key key' : Bytes) (value : Stored) :
    (kv.insert key value)[key']? = if key' = key then some value else kv[key']? := by
  rw [Std.TreeMap.getElem?_insert]
  by_cases here : key = key'
  · rw [if_pos (byteCmp_eq.mpr here), if_pos here.symm]
  · rw [if_neg (byteCmp_eq.not.mpr here), if_neg (Ne.symm here)]

theorem Indexed.insert_job (laws : U.Laws) (indexed : Indexed U kv) (job : Job) :
    Indexed U (kv.insert (jobKey U job.id) (.job job)) where
  keyed key read found := by
    rw [getElem?_insert_ite] at found
    split at found
    next here =>
      cases found
      exact here
    next => exact indexed.keyed key read found
  entries key found := by
    rw [getElem?_insert_ite] at found
    split at found
    next => cases found
    next =>
      obtain ⟨id, t, isKey, known⟩ := indexed.entries key found
      exact ⟨id, t, isKey, known_insert_job laws known⟩
  once id t t' found found' := by
    rw [getElem?_insert_ite, if_neg (jobPendingKey_ne_jobKey _ _ _)] at found found'
    exact indexed.once id t t' found found'

/-- The index key of a stored job without one is written. -/
theorem Indexed.insert_key (laws : U.Laws) (indexed : Indexed U kv) (known : Known U kv id)
    (unindexed : ∀ t, kv[jobPendingKey U id t]? ≠ some .empty) (t : Int) :
    Indexed U (kv.insert (jobPendingKey U id t) .empty) where
  keyed key read found := by
    rw [getElem?_insert_ite] at found
    split at found
    next => cases found
    next => exact indexed.keyed key read found
  entries key found := by
    rw [getElem?_insert_ite] at found
    have still {other : Uuid} (known : Known U kv other) : Known U (kv.insert (jobPendingKey U id t) .empty) other := by
      rwa [Known, storedJob_insert_index]
    split at found
    next here => exact ⟨id, t, here, still known⟩
    next =>
      obtain ⟨other, t', isKey, known⟩ := indexed.entries key found
      exact ⟨other, t', isKey, still known⟩
  once other t₁ t₂ found found' := by
    rw [getElem?_insert_ite] at found found'
    split at found
    next here =>
      split at found'
      next here' => rw [here, here']
      next => exact absurd (jobPendingKey_id laws here ▸ found') (unindexed t₂)
    next =>
      split at found'
      next here' => exact absurd (jobPendingKey_id laws here' ▸ found) (unindexed t₁)
      next => exact indexed.once other t₁ t₂ found found'

/-! ### Calls -/

theorem updateJob_snd (job : Job) (kv : KeyValue Stored) :
    (updateJob U job kv).2 = kv ∨ (updateJob U job kv).2 = kv.insert (jobKey U job.id) (.job job) := by
  rw [updateJob, Exec.bind_of_ok (KeyValue.get_apply (jobKey U job.id) kv)]
  cases kv[jobKey U job.id]? with
  | none => exact .inl rfl
  | some value => exact .inr rfl

theorem Indexed.updateJob (laws : U.Laws) (indexed : Indexed U kv) (job : Job) :
    Indexed U (updateJob U job kv).2 := by
  rcases updateJob_snd (U := U) job kv with still | wrote
  · rwa [still]
  · rw [wrote]
    exact indexed.insert_job laws job

theorem Indexed.mark (laws : U.Laws) (indexed : Indexed U kv) (state : JobState) (now : Int) (id : Uuid) :
    Indexed U (mark U state now id kv).2 := by
  cases stored : storedJob U kv id with
  | none =>
    obtain ⟨e, failed⟩ := getJob_of_absent stored
    rw [Scheduler.mark, Exec.bind_apply, failed]
    exact indexed
  | some job =>
    rw [Scheduler.mark, Exec.bind_of_ok (getJob_of_stored stored)]
    exact indexed.updateJob laws _

/-- A creation writes nothing where there is a job, else the job and its index key. -/
theorem createJob_snd (job : Job) (kv : KeyValue Stored) : (createJob U job kv).2 = kv ∨
    storedJob U kv job.id = none ∧ (createJob U job kv).2 =
      if job.state = .pending then
        (kv.insert (jobKey U job.id) (.job job)).insert (jobPendingKey U job.id job.nextRunAt) .empty
      else kv.insert (jobKey U job.id) (.job job) := by
  have read := KeyValue.get_apply (ε := SchedulerError) (jobKey U job.id) kv
  cases found : kv[jobKey U job.id]? with
  | some value =>
    left
    have check : checkNew U job kv = (.err (.jobAlreadyExists (U.display job.id)), kv) := by
      rw [checkNew, Exec.bind_of_ok read, found]
      rfl
    rw [Scheduler.createJob, Exec.bind_apply, check]
  | none =>
    right
    refine ⟨by rw [storedJob, found]; rfl, ?_⟩
    have check : checkNew U job kv = (.ok (), kv) := by
      rw [checkNew, Exec.bind_of_ok read, found]
      rfl
    rw [Scheduler.createJob, Exec.bind_of_ok check]
    show (indexJob U job (kv.insert (jobKey U job.id) (.job job))).2 = _
    unfold indexJob
    split
    · rfl
    · rfl

theorem Indexed.unindexed (laws : U.Laws) (indexed : Indexed U kv) (absent : storedJob U kv id = none) (t : Int) :
    kv[jobPendingKey U id t]? ≠ some .empty := by
  intro there
  obtain ⟨other, t', isKey, known⟩ := indexed.entries _ there
  obtain rfl := jobPendingKey_id laws isKey
  exact known absent

theorem Indexed.createJob (laws : U.Laws) (indexed : Indexed U kv) (job : Job) :
    Indexed U (createJob U job kv).2 := by
  rcases createJob_snd (U := U) job kv with still | ⟨absent, wrote⟩
  · rwa [still]
  · have stored := indexed.insert_job laws job
    rw [wrote]
    split
    · refine stored.insert_key laws ?_ (fun t => ?_) job.nextRunAt
      · rw [Known, storedJob_insert_job laws, if_pos rfl]
        exact Option.some_ne_none job
      · rw [getElem?_insert_ite, if_neg (jobPendingKey_ne_jobKey _ _ _)]
        exact indexed.unindexed laws absent t
    · exact stored

theorem dropIndexed_spec (id : Uuid) (entries : List (Bytes × Stored)) (kv : KeyValue Stored) (key : Bytes) :
    (dropIndexed U id entries kv).2[key]? =
      if key ∈ entries.map Prod.fst ∧ utf8 (U.display id) <:+: key then none else kv[key]? := by
  induction entries generalizing kv with
  | nil => simp [dropIndexed]
  | cons e rest ih =>
    obtain ⟨first, value⟩ := e
    simp only [List.map_cons, List.mem_cons]
    by_cases contains : utf8 (U.display id) <:+: first
    · have turn : dropIndexed U id ((first, value) :: rest) kv = dropIndexed U id rest (kv.erase first) := by
        rw [dropIndexed, if_pos contains]
        rfl
      rw [turn, ih, Std.TreeMap.getElem?_erase]
      by_cases here : first = key
      · subst here
        simp [contains]
      · rw [if_neg (byteCmp_eq.not.mpr here)]
        simp only [Ne.symm here, false_or]
    · have turn : dropIndexed U id ((first, value) :: rest) kv = dropIndexed U id rest kv := by
        rw [dropIndexed, if_neg contains]
      rw [turn, ih]
      by_cases here : key = first
      · subst here
        simp only [contains, and_false]
      · simp only [here, false_or]

section

variable (laws : UuidLength U) (indexed : Indexed U kv)

include laws indexed

/-- A deletion takes the job and its index keys, and nothing else. -/
theorem deleteJob_snd (id : Uuid) : (deleteJob U id kv).2 = kv ∨ ∀ key,
      ((key = jobKey U id ∨ ∃ t, key = jobPendingKey U id t) ∧ (deleteJob U id kv).2[key]? = none) ∨
        (key ≠ jobKey U id ∧ (∀ t, key ≠ jobPendingKey U id t) ∧ (deleteJob U id kv).2[key]? = kv[key]?) := by
  rw [deleteJob, Exec.bind_of_ok (KeyValue.get_apply (jobKey U id) kv)]
  cases kv[jobKey U id]? with
  | none => exact .inl rfl
  | some value =>
    refine .inr fun key => ?_
    show (_ ∧ (dropIndexed U id (KeyValue.range (kv.erase (jobKey U id)) (utf8 pendingLabel)
      (utf8 pendingLabel ++ [0xFF])) (kv.erase (jobKey U id))).2[key]? = none) ∨ _ ∧ _ ∧
        (dropIndexed U id (KeyValue.range (kv.erase (jobKey U id)) (utf8 pendingLabel)
          (utf8 pendingLabel ++ [0xFF])) (kv.erase (jobKey U id))).2[key]? = _
    rw [dropIndexed_spec]
    by_cases isJob : key = jobKey U id
    · refine .inl ⟨.inl isJob, ?_⟩
      rw [isJob, Std.TreeMap.getElem?_erase_self, ite_self]
    have erased : (kv.erase (jobKey U id))[key]? = kv[key]? := by
      rw [Std.TreeMap.getElem?_erase, if_neg (byteCmp_eq.not.mpr (Ne.symm isJob))]
    by_cases isIndex : ∃ t, key = jobPendingKey U id t
    · refine .inl ⟨.inr isIndex, ?_⟩
      obtain ⟨t, rfl⟩ := isIndex
      cases there : kv[jobPendingKey U id t]? with
      | none => rw [erased, there, ite_self]
      | some value =>
        have scanned : jobPendingKey U id t ∈ (KeyValue.range (kv.erase (jobKey U id)) (utf8 pendingLabel)
            (utf8 pendingLabel ++ [0xFF])).map Prod.fst :=
          List.mem_map.mpr ⟨(jobPendingKey U id t, value),
            KeyValue.mem_range.mpr ⟨erased.trans there, jobPendingKey_inRange id t⟩, rfl⟩
        rw [if_pos ⟨scanned, (display_infix_iff laws).mpr rfl⟩]
    · refine .inr ⟨isJob, not_exists.mp isIndex, ?_⟩
      rw [erased, if_neg]
      rintro ⟨scanned, contains⟩
      obtain ⟨⟨_, value⟩, inside, rfl⟩ := List.mem_map.mp scanned
      obtain ⟨found, inRange⟩ := KeyValue.mem_range.mp inside
      cases value with
      | job read =>
        rw [indexed.keyed _ read (erased.symm.trans found)] at inRange
        exact jobKey_notInRange read.id inRange
      | empty =>
        obtain ⟨other, t, isKey, -⟩ := indexed.entries _ (erased.symm.trans found)
        rw [isKey, display_infix_iff laws] at contains
        exact isIndex ⟨t, contains ▸ isKey⟩

theorem Indexed.deleteJob (id : Uuid) : Indexed U (deleteJob U id kv).2 := by
  rcases deleteJob_snd laws indexed id with still | after
  · rwa [still]
  · have before {key : Bytes} {value : Stored} (found : (Scheduler.deleteJob U id kv).2[key]? = some value) :
        key ≠ jobKey U id ∧ (∀ t, key ≠ jobPendingKey U id t) ∧ kv[key]? = some value := by
      rcases after key with ⟨-, gone⟩ | ⟨notJob, notIndex, same⟩
      · rw [gone] at found
        cases found
      · exact ⟨notJob, notIndex, same.symm.trans found⟩
    refine ⟨fun key job found => indexed.keyed key job (before found).2.2, fun key found => ?_,
      fun other t t' found found' => indexed.once other t t' (before found).2.2 (before found').2.2⟩
    obtain ⟨-, notIndex, there⟩ := before found
    obtain ⟨other, t, isKey, known⟩ := indexed.entries key there
    have differs : other ≠ id := by
      rintro rfl
      exact notIndex t isKey
    refine ⟨other, t, isKey, ?_⟩
    rw [Known, storedJob]
    rcases after (jobKey U other) with ⟨same | ⟨t', same⟩, -⟩ | ⟨-, -, same⟩
    · exact absurd (jobKey_injective laws.toLaws same) differs
    · exact absurd same.symm (jobPendingKey_ne_jobKey _ _ _)
    · rw [same]
      exact known

/-- **Every method keeps the index.** -/
theorem Indexed.step (call : BackendCall) : Indexed U (backendStep U kv call) := by
  cases call with
  | createJob job => exact indexed.createJob laws.toLaws job
  | updateJob job => exact indexed.updateJob laws.toLaws job
  | deleteJob id => exact indexed.deleteJob laws id
  | markRunning now id => exact indexed.mark laws.toLaws .running now id
  | markCompleted now id => exact indexed.mark laws.toLaws .completed now id
  | markFailed now id => exact indexed.mark laws.toLaws .failed now id
  | markCancelled now id => exact indexed.mark laws.toLaws .cancelled now id
  | reschedule now job nextRunAt => exact indexed.updateJob laws.toLaws _

end

/-! ### The search -/

theorem jobKey_lt_pendingLabel (id : Uuid) : jobKey U id < utf8 pendingLabel := by
  have job : utf8 jobLabel = [115, 99, 104, 101, 100, 58, 106, 111, 98, 58] := by decide
  have pending : utf8 pendingLabel = [115, 99, 104, 101, 100, 58, 112, 101, 110, 100, 105, 110, 103, 58] := by decide
  rw [jobKey, utf8_append, job, pending]
  simp [List.cons_lt_cons_iff]

/-- An entry that is looked at is an index key, and its identifier is found in it. -/
theorem Indexed.readyEntries_spec (laws : U.Laws) (indexed : Indexed U kv) {now : Int} {limit : Nat}
    {e : Bytes × Stored} (member : e ∈ readyEntries now limit kv) :
    e.2 = .empty ∧ kv[e.1]? = some .empty ∧ ∃ id t, e.1 = jobPendingKey U id t ∧ indexedId U e.1 = some id := by
  obtain ⟨found, notBelow, -⟩ := KeyValue.mem_range.mp (List.mem_of_mem_take member)
  obtain ⟨key, value⟩ := e
  cases value with
  | job read =>
    rw [indexed.keyed key read found] at notBelow
    exact absurd (jobKey_lt_pendingLabel read.id) notBelow
  | empty =>
    obtain ⟨id, t, isKey, -⟩ := indexed.entries key found
    refine ⟨rfl, found, id, t, isKey, ?_⟩
    rw [isKey]
    exact indexedId_jobPendingKey laws id t

theorem Indexed.nodup_seenIds (laws : U.Laws) (indexed : Indexed U kv) (now : Int) (limit : Nat) :
    (seenIds U now limit kv).Nodup := by
  have keys : (readyEntries now limit kv).Pairwise fun e e' => e.1 ≠ e'.1 := by
    have sorted := (KeyValue.sortedKeys_range kv (utf8 pendingLabel) (utf8 (pendingLabel ++ (pad020 (now + 1) ++ [':'])))).sublist
      (List.take_sublist limit _)
    exact sorted.imp ne_of_lt
  refine List.pairwise_filterMap.mpr (keys.imp_of_mem fun {e e'} member member' differ id first id' second => ?_)
  rintro rfl
  obtain ⟨-, found, own, t, isKey, isId⟩ := indexed.readyEntries_spec laws member
  obtain ⟨-, found', own', t', isKey', isId'⟩ := indexed.readyEntries_spec laws member'
  obtain rfl : own = id := Option.some.inj (isId.symm.trans first)
  obtain rfl : own' = own := Option.some.inj (isId'.symm.trans second)
  rw [isKey] at found differ
  rw [isKey'] at found' differ
  exact differ (indexed.once _ t t' found found')

theorem length_seenIds (now : Int) (limit : Nat) (kv : KeyValue Stored) : (seenIds U now limit kv).length ≤ limit := by
  refine (List.length_filterMap_le ..).trans ?_
  rw [readyEntries, List.length_take]
  exact Nat.min_le_left ..

theorem Indexed.mem_storedJobs_iff (indexed : Indexed U kv) :
    job ∈ storedJobs kv ↔ storedJob U kv job.id = some job := by
  refine ⟨fun member => ?_, mem_storedJobs⟩
  obtain ⟨⟨key, value⟩, inside, isJob⟩ := List.mem_filterMap.mp member
  have found := Std.TreeMap.mem_toList_iff_getElem?_eq_some.mp inside
  cases value with
  | job read =>
    obtain rfl : read = job := Option.some.inj isJob
    rw [storedJob, ← indexed.keyed key read found, found]
    rfl
  | empty => cases isJob

theorem Indexed.nodup_storedJobs (indexed : Indexed U kv) : ((storedJobs kv).map Job.id).Nodup := by
  have keys : kv.toList.Pairwise fun e e' => e.1 ≠ e'.1 := (sortedKeys_toList kv).imp ne_of_lt
  have key_of {e : Bytes × Stored} {job : Job} (member : e ∈ kv.toList) (isJob : e.2.toJob = some job) :
      e.1 = jobKey U job.id := by
    obtain ⟨key, value⟩ := e
    have found := Std.TreeMap.mem_toList_iff_getElem?_eq_some.mp member
    cases value with
    | job read =>
      obtain rfl : read = job := Option.some.inj isJob
      exact indexed.keyed key read found
    | empty => cases isJob
  refine List.pairwise_map.mpr (List.pairwise_filterMap.mpr ?_)
  refine keys.imp_of_mem fun {e e'} member member' differ job isJob job' isJob' same => differ ?_
  rw [key_of member isJob, key_of member' isJob', same]

theorem findReadyJobs_apply (now : Int) (limit : Nat) (kv : KeyValue Stored) :
    findReadyJobs U now limit kv = (.ok (jobsOf U kv (Job.IsReady now) (seenIds U now limit kv)), kv) := by
  rw [findReadyJobs, Exec.bind_of_ok (KeyValue.scan_apply _ _ kv), collectJobs_apply]
  rfl

section

variable (laws : U.Laws) (indexed : Indexed U kv)

include laws indexed

theorem Indexed.mem_readyIds {now : Int} :
    id ∈ (readyJobs now kv).map Job.id ↔ ∃ job, storedJob U kv id = some job ∧ job.IsReady now = true := by
  simp only [List.mem_map, readyJobs, List.mem_filter, indexed.mem_storedJobs_iff]
  constructor
  · rintro ⟨job, ⟨stored, ready⟩, rfl⟩
    exact ⟨job, stored, ready⟩
  · rintro ⟨job, stored, ready⟩
    obtain rfl := indexed.keyed.id_eq laws stored
    exact ⟨job, ⟨stored, ready⟩, rfl⟩

/-- The identifiers of what is found: of those looked at, the ones of ready jobs. -/
theorem Indexed.ids_jobsOf (now : Int) (ids : List Uuid) :
    (jobsOf U kv (Job.IsReady now) ids).map Job.id = ids.filter (· ∈ (readyJobs now kv).map Job.id) := by
  induction ids with
  | nil => rfl
  | cons id ids ih =>
    rw [jobsOf, List.flatMap_cons, List.map_append]
    show _ ++ (jobsOf U kv (Job.IsReady now) ids).map Job.id = _
    rw [ih]
    by_cases ready : id ∈ (readyJobs now kv).map Job.id
    · obtain ⟨job, stored, isReady⟩ := (indexed.mem_readyIds laws).mp ready
      rw [List.filter_cons_of_pos (by simpa using ready), stored, Option.filter_some, if_pos isReady]
      rw [← indexed.keyed.id_eq laws stored]
      rfl
    · have nothing : (storedJob U kv id).filter (Job.IsReady now) = none := by
        refine Option.filter_eq_none_iff.mpr fun job stored isReady => ?_
        exact ready ((indexed.mem_readyIds laws).mpr ⟨job, stored, isReady⟩)
      rw [List.filter_cons_of_neg (by simpa using ready), nothing]
      rfl

/-- **The search finds what it should exactly if the index serves it.** -/
theorem Indexed.findsReady_iff (now : Int) (limit : Nat) :
    FindsReady U now limit kv ↔ IndexServes U now limit kv := by
  have distinct : ((readyJobs now kv).map Job.id).Nodup :=
    indexed.nodup_storedJobs.sublist (List.filter_sublist.map _)
  have count := length_filter_eq_min_iff (indexed.nodup_seenIds laws now limit) distinct
    (length_seenIds now limit kv)
  rw [← indexed.ids_jobsOf laws, List.length_map, List.length_map] at count
  have once : (jobsOf U kv (Job.IsReady now) (seenIds U now limit kv)).Nodup := by
    refine List.Nodup.of_map Job.id ?_
    rw [indexed.ids_jobsOf laws]
    exact (indexed.nodup_seenIds laws now limit).filter _
  have serves : IndexServes U now limit kv ↔
      ((seenIds U now limit kv).length = limit ∧ ∀ id ∈ seenIds U now limit kv, id ∈ (readyJobs now kv).map Job.id) ∨
        ∀ id ∈ (readyJobs now kv).map Job.id, id ∈ seenIds U now limit kv := by
    simp only [IndexServes, List.mem_map, forall_exists_index, and_imp, forall_apply_eq_imp_iff₂]
  rw [serves, ← count, FindsReady, findReadyJobs_apply]
  constructor
  · rintro ⟨jobs, found, -, length⟩
    cases found
    exact length
  · intro length
    exact ⟨_, rfl, once, length⟩

end

end Runs

/-! ## When the index is exact -/

/-- A time of an `i64` that is not negative. -/
def Timely (t : Int) : Prop := 0 ≤ t ∧ t < 9223372036854775808

instance (t : Int) : Decidable (Timely t) := inferInstanceAs (Decidable (_ ∧ _))

/-- Both jobs are pending for one time, or neither is pending. -/
def SameIndex (old new : Job) : Prop :=
  (old.state = .pending ↔ new.state = .pending) ∧ (new.state = .pending → new.nextRunAt = old.nextRunAt)

/-- What a call writes over a stored job. -/
def BackendCall.writes (U : UuidText) (kv : KeyValue Stored) : BackendCall → Option Job
  | .createJob _ | .deleteJob _ => none
  | .updateJob job => some job
  | .markRunning now id => (storedJob U kv id).map (markedAs .running now)
  | .markCompleted now id => (storedJob U kv id).map (markedAs .completed now)
  | .markFailed now id => (storedJob U kv id).map (markedAs .failed now)
  | .markCancelled now id => (storedJob U kv id).map (markedAs .cancelled now)
  | .reschedule now job nextRunAt => some (rescheduled now nextRunAt job)

/-- A pending job is created for a time that is not negative, and nothing that is written over a stored job makes
it pending, ends that, or changes the time it is pending for. -/
def KeepsIndex (U : UuidText) (kv : KeyValue Stored) (call : BackendCall) : Prop :=
  (∀ job, call = .createJob job → job.state = .pending → Timely job.nextRunAt) ∧
    ∀ new, call.writes U kv = some new → ∀ old, storedJob U kv new.id = some old → SameIndex old new

/-- The index keys are those of the pending jobs and their times. -/
structure IndexExact (U : UuidText) (kv : KeyValue Stored) : Prop extends Indexed U kv where
  pending : ∀ id t, kv[jobPendingKey U id t]? = some .empty → ∃ job, storedJob U kv id = some job ∧
    job.state = .pending ∧ jobPendingKey U id t = jobPendingKey U id job.nextRunAt
  timely : ∀ id job, storedJob U kv id = some job → job.state = .pending → Timely job.nextRunAt
  listed : ∀ id job, storedJob U kv id = some job → job.state = .pending →
    kv[jobPendingKey U id job.nextRunAt]? = some .empty

section Exact

variable {U : UuidText} {kv : KeyValue Stored} {id : Uuid} {job : Job}

/-- The scan of the index stops behind the keys up to the time. -/
theorem jobPendingKey_lt_iff {t now : Int} (timely : Timely t) (positive : 0 ≤ now)
    (small : now < 9223372036854775807) (id : Uuid) :
    jobPendingKey U id t < utf8 (pendingLabel ++ (pad020 (now + 1) ++ [':'])) ↔ t ≤ now := by
  have padded {n : Int} (timely : Timely n) : utf8 (pad020 n) = decimals 20 n.toNat := by
    have magnitude : n.natAbs = n.toNat := by have := timely.1; omega
    rw [pad020, if_neg (by have := timely.1; omega), magnitude]
    exact utf8_padded (by decide) (by have := timely.2; omega)
  have next : Timely (now + 1) := ⟨by omega, by omega⟩
  have below : t.toNat < 10 ^ 20 ∧ (now + 1).toNat < 10 ^ 20 := by
    have := timely.2
    omega
  rw [jobPendingKey, utf8_append, utf8_append, utf8_append, utf8_append, append_lt_append_iff rfl, padded timely,
    padded next, append_lt_append_iff (by simp), decimals_lt_iff below.1 below.2]
  have behind : ¬ utf8 (':' :: U.display id) < utf8 [':'] := by
    rw [utf8_cons, utf8_cons, show String.utf8EncodeChar ':' = [0x3A] by decide]
    simp
  simp only [behind, and_false, or_false, lt_irrefl, false_or, true_and]
  have := timely.1
  omega

theorem indexExact_empty : IndexExact U ∅ where
  toIndexed := indexed_empty
  pending id t found := by
    rw [Std.TreeMap.getElem?_emptyc] at found
    cases found
  timely id job stored := by
    rw [storedJob, Std.TreeMap.getElem?_emptyc] at stored
    cases stored
  listed id job stored := by
    rw [storedJob, Std.TreeMap.getElem?_emptyc] at stored
    cases stored

section

variable (laws : U.Laws) (exact : IndexExact U kv)

include laws exact

/-- A job is written over one that has the same index key or none as well. -/
theorem IndexExact.write {old new : Job} (stored : storedJob U kv new.id = some old) (same : SameIndex old new) :
    IndexExact U (kv.insert (jobKey U new.id) (.job new)) where
  toIndexed := exact.toIndexed.insert_job laws new
  pending id t found := by
    rw [getElem?_insert_ite, if_neg (jobPendingKey_ne_jobKey _ _ _)] at found
    obtain ⟨job, there, state, isKey⟩ := exact.pending id t found
    rw [storedJob_insert_job laws]
    split
    next here =>
      subst here
      obtain rfl : old = job := Option.some.inj (stored.symm.trans there)
      exact ⟨new, rfl, same.1.mp state, by rw [isKey, same.2 (same.1.mp state)]⟩
    next => exact ⟨job, there, state, isKey⟩
  timely id job there state := by
    rw [storedJob_insert_job laws] at there
    split at there
    next here =>
      obtain rfl := Option.some.inj there
      rw [same.2 state]
      exact exact.timely _ old stored (same.1.mpr state)
    next => exact exact.timely id job there state
  listed id job there state := by
    rw [getElem?_insert_ite, if_neg (jobPendingKey_ne_jobKey _ _ _)]
    rw [storedJob_insert_job laws] at there
    split at there
    next here =>
      obtain rfl := Option.some.inj there
      rw [here, same.2 state]
      exact exact.listed _ old stored (same.1.mpr state)
    next => exact exact.listed id job there state

theorem IndexExact.updateJob {new : Job}
    (same : ∀ old, storedJob U kv new.id = some old → SameIndex old new) : IndexExact U (updateJob U new kv).2 := by
  cases stored : storedJob U kv new.id with
  | some old =>
    rw [updateJob_of_stored (by rw [stored]; exact Option.some_ne_none old)]
    exact exact.write laws stored (same old stored)
  | none =>
    have absent : kv[jobKey U new.id]? = none := by
      rw [storedJob] at stored
      cases found : kv[jobKey U new.id]? with
      | none => rfl
      | some value =>
        cases value with
        | job read =>
          rw [found] at stored
          cases stored
        | empty =>
          obtain ⟨id, t, isKey, -⟩ := exact.entries _ found
          exact absurd isKey.symm (jobPendingKey_ne_jobKey _ _ _)
    rw [Scheduler.updateJob, Exec.bind_of_ok (KeyValue.get_apply (jobKey U new.id) kv), absent]
    exact exact

theorem IndexExact.mark {state : JobState} {now : Int}
    (same : ∀ new, (storedJob U kv id).map (markedAs state now) = some new →
      ∀ old, storedJob U kv new.id = some old → SameIndex old new) : IndexExact U (mark U state now id kv).2 := by
  cases stored : storedJob U kv id with
  | none =>
    obtain ⟨e, failed⟩ := getJob_of_absent stored
    rw [Scheduler.mark, Exec.bind_apply, failed]
    exact exact
  | some job =>
    rw [Scheduler.mark, Exec.bind_of_ok (getJob_of_stored stored)]
    exact exact.updateJob laws (same _ (by rw [stored]; rfl))

theorem IndexExact.createJob {job : Job}
    (timely : job.state = .pending → Timely job.nextRunAt) : IndexExact U (createJob U job kv).2 := by
  have indexed := exact.toIndexed.createJob laws job
  rcases createJob_snd (U := U) job kv with still | ⟨absent, wrote⟩
  · rwa [still]
  have there (other : Uuid) : storedJob U (Scheduler.createJob U job kv).2 other =
      if other = job.id then some job else storedJob U kv other := by
    rw [wrote]
    split
    · rw [storedJob_insert_index, storedJob_insert_job laws]
    · rw [storedJob_insert_job laws]
  have key (other : Uuid) (t : Int) : (Scheduler.createJob U job kv).2[jobPendingKey U other t]? =
      if job.state = .pending ∧ jobPendingKey U other t = jobPendingKey U job.id job.nextRunAt then some .empty
      else kv[jobPendingKey U other t]? := by
    rw [wrote]
    by_cases pending : job.state = .pending
    · simp only [pending, if_true, true_and, getElem?_insert_ite, jobPendingKey_ne_jobKey, if_false]
    · simp only [pending, if_false, false_and, getElem?_insert_ite, jobPendingKey_ne_jobKey]
  refine ⟨indexed, fun other t found => ?_, fun other read stored state => ?_, fun other read stored state => ?_⟩
  · rw [key] at found
    split at found
    next here =>
      obtain rfl := jobPendingKey_id laws here.2
      exact ⟨job, by rw [there, if_pos rfl], here⟩
    next =>
      obtain ⟨read, stored, state, isKey⟩ := exact.pending other t found
      refine ⟨read, ?_, state, isKey⟩
      rw [there, if_neg]
      · exact stored
      · rintro rfl
        rw [absent] at stored
        cases stored
  · rw [there] at stored
    split at stored
    next =>
      obtain rfl := Option.some.inj stored
      exact timely state
    next => exact exact.timely other read stored state
  · rw [there] at stored
    rw [key]
    split at stored
    next here =>
      obtain rfl := Option.some.inj stored
      rw [if_pos ⟨state, by rw [here]⟩]
    next differs =>
      rw [if_neg fun same => differs (jobPendingKey_id laws same.2)]
      exact exact.listed other read stored state

end

theorem IndexExact.deleteJob (laws : UuidLength U) (exact : IndexExact U kv) (id : Uuid) :
    IndexExact U (deleteJob U id kv).2 := by
  have indexed := exact.toIndexed.deleteJob laws id
  rcases deleteJob_snd laws exact.toIndexed id with still | after
  · rwa [still]
  have job (other : Uuid) : storedJob U (Scheduler.deleteJob U id kv).2 other =
      if other = id then none else storedJob U kv other := by
    rw [storedJob]
    rcases after (jobKey U other) with ⟨same | ⟨t, same⟩, gone⟩ | ⟨differs, -, kept⟩
    · rw [gone, if_pos (jobKey_injective laws.toLaws same)]
      rfl
    · exact absurd same.symm (jobPendingKey_ne_jobKey _ _ _)
    · rw [kept, if_neg (fun same => differs (by rw [same]))]
      rfl
  have key (other : Uuid) (t : Int) : (Scheduler.deleteJob U id kv).2[jobPendingKey U other t]? =
      if other = id then none else kv[jobPendingKey U other t]? := by
    rcases after (jobPendingKey U other t) with ⟨same | ⟨t', same⟩, gone⟩ | ⟨-, differs, kept⟩
    · exact absurd same (jobPendingKey_ne_jobKey _ _ _)
    · rw [gone, if_pos (jobPendingKey_id laws.toLaws same)]
    · rw [kept, if_neg]
      rintro rfl
      exact differs t rfl
  refine ⟨indexed, fun other t found => ?_, fun other read stored state => ?_, fun other read stored state => ?_⟩
  · rw [key] at found
    split at found
    next => cases found
    next differs =>
      obtain ⟨read, stored, rest⟩ := exact.pending other t found
      exact ⟨read, by rwa [job, if_neg differs], rest⟩
  · rw [job] at stored
    split at stored
    next => cases stored
    next => exact exact.timely other read stored state
  · rw [job] at stored
    rw [key]
    split at stored
    next => cases stored
    next differs =>
      rw [if_neg differs]
      exact exact.listed other read stored state

/-- **The index stays exact** as long as the calls keep it. -/
theorem IndexExact.step (laws : UuidLength U) (exact : IndexExact U kv) {call : BackendCall}
    (keeps : KeepsIndex U kv call) : IndexExact U (backendStep U kv call) := by
  obtain ⟨created, written⟩ := keeps
  cases call with
  | createJob job => exact exact.createJob laws.toLaws (created job rfl)
  | updateJob job => exact exact.updateJob laws.toLaws (written job rfl)
  | deleteJob id => exact exact.deleteJob laws id
  | markRunning now id | markCompleted now id | markFailed now id | markCancelled now id =>
    exact exact.mark laws.toLaws written
  | reschedule now job nextRunAt => exact exact.updateJob laws.toLaws (written _ rfl)

theorem mem_readyJobs (indexed : Indexed U kv) {now : Int} :
    job ∈ readyJobs now kv ↔ storedJob U kv job.id = some job ∧ job.state = .pending ∧ job.nextRunAt ≤ now := by
  rw [readyJobs, List.mem_filter, indexed.mem_storedJobs_iff, Job.IsReady, Bool.and_eq_true, decide_eq_true_eq,
    decide_eq_true_eq]

/-- **An exact index serves every search.** -/
theorem IndexExact.serves (laws : U.Laws) (exact : IndexExact U kv) {now : Int} (positive : 0 ≤ now)
    (small : now < 9223372036854775807) (limit : Nat) : IndexServes U now limit kv := by
  have seen : (seenIds U now limit kv).length = (readyEntries now limit kv).length := by
    refine List.filterMap_length_eq_length.mpr fun e member => ?_
    obtain ⟨-, -, id, t, -, isId⟩ := exact.toIndexed.readyEntries_spec laws member
    rw [isId]
    rfl
  have ready : ∀ id ∈ seenIds U now limit kv, ∃ job ∈ readyJobs now kv, job.id = id := by
    intro id member
    obtain ⟨e, looked, isId⟩ := List.mem_filterMap.mp member
    obtain ⟨-, found, own, t, isKey, isOwn⟩ := exact.toIndexed.readyEntries_spec laws looked
    obtain rfl : own = id := Option.some.inj (isOwn.symm.trans isId)
    have below := (KeyValue.mem_range.mp (List.mem_of_mem_take looked)).2.2
    rw [isKey] at found below
    obtain ⟨job, stored, state, same⟩ := exact.pending own t found
    rw [same, jobPendingKey_lt_iff (exact.timely own job stored state) positive small] at below
    obtain rfl := exact.keyed.id_eq laws stored
    exact ⟨job, (mem_readyJobs exact.toIndexed).mpr ⟨stored, state, below⟩, rfl⟩
  by_cases enough : limit ≤ (KeyValue.range kv (utf8 pendingLabel)
      (utf8 (pendingLabel ++ (pad020 (now + 1) ++ [':'])))).length
  · refine .inl ⟨?_, ready⟩
    rw [seen, readyEntries, List.length_take, Nat.min_eq_left enough]
  · refine .inr fun job member => ?_
    obtain ⟨stored, state, due⟩ := (mem_readyJobs exact.toIndexed).mp member
    have inRange : (jobPendingKey U job.id job.nextRunAt, Stored.empty) ∈ KeyValue.range kv (utf8 pendingLabel)
        (utf8 (pendingLabel ++ (pad020 (now + 1) ++ [':']))) :=
      KeyValue.mem_range.mpr ⟨exact.listed _ job stored state, (jobPendingKey_inRange _ _).1,
        (jobPendingKey_lt_iff (exact.timely _ job stored state) positive small _).mpr due⟩
    refine List.mem_filterMap.mpr ⟨(jobPendingKey U job.id job.nextRunAt, .empty), ?_,
      indexedId_jobPendingKey laws job.id job.nextRunAt⟩
    rw [readyEntries, List.take_of_length_le (by omega)]
    exact inRange

end Exact

/-- **The search through the index in every run of the backend's methods.** In every state it finds as many
distinct jobs as there are ready ones, up to the limit, exactly if the index serves it; and it always does so, at
every time that is not negative, in a run whose calls keep the index. -/
theorem findReadyJobs_complete_iff {U : UuidText} (laws : UuidLength U) (calls : List BackendCall) :
    (∀ kv ∈ Run.states (backendStep U) ∅ calls, ∀ now limit,
      FindsReady U now limit kv ↔ IndexServes U now limit kv) ∧
    (Run.Each (backendStep U) (KeepsIndex U) ∅ calls →
      ∀ kv ∈ Run.states (backendStep U) ∅ calls, ∀ now limit, 0 ≤ now → now < 9223372036854775807 →
        FindsReady U now limit kv) := by
  have indexed := Run.always_of_step (I := Indexed U) (fun _ call held => held.step laws call) indexed_empty calls
  constructor
  · intro kv member now limit
    exact (indexed kv member).findsReady_iff laws.toLaws now limit
  · intro keeps kv member now limit positive small
    have held : IndexExact U kv :=
      keeps.invariant (I := IndexExact U) (fun _ _ held meets => held.step laws meets) indexExact_empty kv member
    exact ((indexed kv member).findsReady_iff laws.toLaws now limit).mpr (held.serves laws.toLaws positive small limit)

/-! ## The backend on hyphenated identifiers -/

theorem length_hexDigits (k n : Nat) : (Queue.hexDigits k n).length = k := by
  induction k generalizing n with
  | zero => rfl
  | succ k ih => rw [Queue.hexDigits, List.length_append, ih, List.length_singleton]

/-- Hexadecimal digits are one byte each, and no hyphens. -/
theorem utf8_hexChars {ds : List Nat} (small : ∀ d ∈ ds, d < 16) :
    (utf8 (ds.map Queue.hexChar)).length = ds.length ∧ (utf8 (ds.map Queue.hexChar)).count 0x2D = 0 := by
  induction ds with
  | nil => exact ⟨rfl, rfl⟩
  | cons d ds ih =>
    obtain ⟨first, rest⟩ := List.forall_mem_cons.mp small
    obtain ⟨length, count⟩ := ih rest
    obtain ⟨byte, -, differs, -⟩ := Queue.hexChar_spec first
    have split : utf8 ((d :: ds).map Queue.hexChar) = utf8 [Queue.hexChar d] ++ utf8 (ds.map Queue.hexChar) := by
      rw [← utf8_append]
      rfl
    rw [split, byte, List.length_append, length, List.count_append, count, List.count_singleton]
    refine ⟨by rw [List.length_singleton, List.length_cons, Nat.add_comm], ?_⟩
    rw [if_neg (by simpa using differs)]

/-- The bytes of a hyphenated text: those of its five groups of digits, and four hyphens between. -/
theorem utf8_displayUuid (id : Uuid) :
    (utf8 (Queue.displayUuid id)).length = 36 ∧ (utf8 (Queue.displayUuid id)).count 0x2D = 4 := by
  have small (ds : List Nat) (inside : ds ⊆ Queue.hexDigits 32 id.toNat) : ∀ d ∈ ds, d < 16 :=
    fun d member => Queue.hexDigits_lt (inside member)
  have group (start width : Nat) := utf8_hexChars (small (((Queue.hexDigits 32 id.toNat).drop start).take width)
    (List.Subset.trans (List.take_subset ..) (List.drop_subset ..)))
  have first := utf8_hexChars (small ((Queue.hexDigits 32 id.toNat).take 8) (List.take_subset ..))
  have last := utf8_hexChars (small ((Queue.hexDigits 32 id.toNat).drop 20) (List.drop_subset ..))
  have hyphen : String.utf8EncodeChar '-' = [0x2D] := by decide
  simp only [Queue.displayUuid, Queue.hyphenate, ← List.map_take, ← List.map_drop, utf8_append, utf8_cons, hyphen,
    List.length_append, List.count_append, List.length_singleton, List.count_singleton_self, (group _ _).1,
    (group _ _).2, first.1, first.2, last.1, last.2, List.length_take, List.length_drop, length_hexDigits]
  decide

theorem uuidLength_hyphenated : UuidLength .hyphenated where
  toLaws := Queue.UuidText.laws_hyphenated
  length id := (utf8_displayUuid id).1
  hyphens id := (utf8_displayUuid id).2

/-- Two jobs are created, one later than the other, and the earlier one is deleted. -/
def keptCalls : List BackendCall :=
  [.createJob (Manager.sampleJob .oneTime), .createJob { Manager.sampleJob .oneTime with id := 2, nextRunAt := 300 },
    .deleteJob 1]

theorem findReadyJobs_complete_sample :
    FindsReady .hyphenated 400 10 (keptCalls.foldl (backendStep .hyphenated) ∅) := by
  refine (findReadyJobs_complete_iff uuidLength_hyphenated keptCalls).2 ?_ _ (Run.foldl_mem_states _ _) _ _
    (by decide) (by decide)
  refine ⟨⟨?_, ?_⟩, ⟨?_, ?_⟩, ⟨?_, ?_⟩, trivial⟩
  · rintro job ⟨⟩ -
    decide
  · rintro new ⟨⟩
  · rintro job ⟨⟩ -
    decide
  · rintro new ⟨⟩
  · rintro job ⟨⟩
  · rintro new ⟨⟩

theorem not_findsReady {U : UuidText} {now : Int} {limit : Nat} {kv : KeyValue Stored}
    (nothing : (findReadyJobs U now limit kv).1 = .ok []) (some : 0 < min limit (readyJobs now kv).length) :
    ¬ FindsReady U now limit kv := by
  rintro ⟨jobs, found, -, length⟩
  rw [found] at nothing
  cases nothing
  rw [← length] at some
  exact absurd some (Nat.lt_irrefl 0)

/-- A job that is created for the time 100 and rescheduled to 50 is not found at 60; and the index key of a job that
has run takes the place of the only other job. -/
theorem findReadyJobs_incomplete :
    ¬ FindsReady .hyphenated 60 10
        ([.createJob (Manager.sampleJob .oneTime), .reschedule 0 (Manager.sampleJob .oneTime) 50].foldl
          (backendStep .hyphenated) ∅) ∧
      ¬ FindsReady .hyphenated 400 1
        ([.createJob (Manager.sampleJob .oneTime),
          .createJob { Manager.sampleJob .oneTime with id := 2, nextRunAt := 300 }, .markCompleted 150 1].foldl
            (backendStep .hyphenated) ∅) :=
  ⟨not_findsReady (by decide +kernel) (by decide +kernel), not_findsReady (by decide +kernel) (by decide +kernel)⟩

end NovaRuntime.Scheduler
