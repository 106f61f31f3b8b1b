/-
# NovaRuntime.Blob.Readable — what was created can be read back

One operation after the other (`InTurn`), or in any interleaving (`Interleaved`). A blob
whose creation returned, and that was not deleted and did not expire, is read back in full,
and the table counts the references of the stored metadata, as long as no creation records
a chunk that

* the table knows with no reference: `delete_blob` takes the chunk out of the store and
  leaves it in the table, where a later creation takes it for a duplicate, and does not
  put it in (`recreated_unreadable`);
* another operation is about to take out: the deletion and the collector look at the count
  once, before they call the store (`raced_unreadable`);

and no two deletions of one blob are in flight, which would each let its references go.
-/
import NovaRuntime.Blob.Pool

namespace NovaRuntime.Blob

open NovaRuntime.Library

set_option autoImplicit false

/-! ## A steady manager -/

section

variable (X : Extern) (c : BlobConfig)

structure Steady (s : Blobs) (tasks : List Task) : Prop where
  ordered : Ordered X c s tasks
  story : Story X c s tasks
  pooled : Pooled X c (fun _ => False) s tasks
  exact : RefCount.Exact s.table.getRefCount (refs X c s tasks)

/-- Every blob whose creation returned, and that was neither deleted nor expired, is read
back with its bytes. -/
def Readable (s : Blobs) : Prop :=
  ∀ e ∈ s.created, e.1 ∉ s.deleted → e.1 ∉ s.expired → download X s.store e.1 = .ok e.2

/-- The table counts the references of the stored metadata, and what it counts is there. -/
def Counted (s : Blobs) : Prop :=
  RefCount.Exact s.table.getRefCount (s.store.metadata.flatMap BlobMetadata.chunkHashes) ∧
    ∀ hash, 0 < s.table.getRefCount hash → hash ∈ s.store.chunks

end

/-- The next chunk of a creation is not about to be taken out by another task, and if the
table knows it, it has a reference. -/
def Task.Careful (s : Blobs) (rest : List Task) (task : Task) : Prop :=
  ∀ hash ∈ task.records, hash ∉ rest.flatMap Task.dying ∧ (hash ∈ s.table → 0 < s.table.getRefCount hash)

section

variable {X : Extern} {c : BlobConfig} {s : Blobs} {task : Task} {tasks tasks' rest : List Task}

theorem Steady.perm (steady : Steady X c s tasks) (same : tasks.Perm tasks') : Steady X c s tasks' where
  ordered := steady.ordered.perm same
  story := steady.story.perm same
  pooled := steady.pooled.perm same
  exact := steady.exact.perm (refs_perm same.symm)

/-- A chunk with a reference is there or on its way. -/
theorem Steady.safe (steady : Steady X c s (task :: rest)) (careful : task.Careful s rest) :
    task.Safe (fun _ => False) s rest := by
  intro hash records
  obtain ⟨alive, referred⟩ := careful hash records
  refine ⟨alive, fun known => ?_⟩
  have idle : task.puts = [] := by
    cases task <;> first | rfl | cases records
  have held := steady.pooled.pool.held hash (steady.exact.mem (referred known))
  rwa [List.flatMap_cons, idle, List.nil_append] at held

theorem Steady.step (steady : Steady X c s (task :: rest)) (alone : task.Alone s rest)
    (careful : task.Careful s rest) (now : Int) :
    Steady X c (s.taskStep X c now true task).1 ((s.taskStep X c now true task).2.toList ++ rest) where
  ordered := ordered_step steady.ordered alone now true
  story := story_step steady.ordered steady.story
  pooled := pooled_step steady.ordered steady.pooled alone (steady.safe careful) now
  exact := exact_step steady.ordered steady.pooled steady.exact alone now

theorem Steady.call (steady : Steady X c s tasks) {call : Call} (fresh : call.Fresh s) :
    Steady X c (s.call X c call).1 ((s.call X c call).2.toList ++ tasks) where
  ordered := ordered_call steady.ordered fresh
  story := (called s call).story steady.story
  pooled := (called s call).pooled steady.pooled
  exact := (called s call).exact steady.exact

theorem steady_fresh : Steady X c BlobManager.fresh.shared [] := by
  refine ⟨⟨List.nodup_nil, by simp [ids, BlobManager.fresh], List.nodup_nil, by simp, by simp⟩,
    ⟨by simp [BlobManager.fresh], by simp, by simp, by simp⟩, ⟨⟨?_, ?_, by simp⟩, ?_⟩, ?_⟩
  · exact fun hash => Nat.zero_le _
  · intro hash absent
    exact (List.not_mem_nil absent).elim
  · intro hash chunk found
    rw [BlobManager.fresh, Std.TreeMap.getElem?_emptyc] at found
    cases found
  · intro hash
    rw [Table.getRefCount_of_none (by rw [BlobManager.fresh, Std.TreeMap.getElem?_emptyc])]
    rfl

theorem refs_idle : refs X c s [] = s.store.metadata.flatMap BlobMetadata.chunkHashes := by
  rw [refs, live, List.filter_eq_self.mpr (by simp), List.flatMap_nil, List.append_nil]

/-- When nothing is in flight, every reference has its chunk. -/
theorem Steady.stored (steady : Steady X c s []) {blob : BlobMetadata} (member : blob ∈ s.store.metadata) :
    ∀ hash ∈ blob.chunkHashes, hash ∈ s.store.chunks := by
  intro hash inside
  have referred : hash ∈ refs X c s [] := by
    rw [refs_idle]
    exact List.mem_flatMap.mpr ⟨blob, member, inside⟩
  rcases steady.pooled.pool.held hash referred with (there | lost) | later
  · exact there
  · exact lost.elim
  · exact nomatch later

theorem Steady.readable (steady : Steady X c s []) (injective : Function.Injective X.hash) : Readable X s := by
  intro e created notDeleted notExpired
  rcases steady.story.created e created with deleted | expired | kept
  · exact absurd deleted notDeleted
  · exact absurd expired notExpired
  · exact download_of_kept injective steady.ordered steady.pooled kept fun blob member _ => steady.stored member

theorem Steady.counted (steady : Steady X c s []) : Counted s := by
  have exact := steady.exact
  rw [refs_idle] at exact
  refine ⟨exact, fun hash positive => ?_⟩
  obtain ⟨blob, member, inside⟩ := List.mem_flatMap.mp (exact.mem positive)
  exact steady.stored member hash inside

end

/-! ## Runs -/

namespace BlobManager

/-- An event of a sequence of operations: an operation starts when no other one is in flight,
and the calls of the store succeed. -/
def InTurn (m : BlobManager) : Event → Prop
  | .call call => call.Fresh m.shared ∧ m.tasks = []
  | .advance _ _ ok => ok = true
  | .restart => False

/-- No creation takes a chunk for a duplicate that has no reference. -/
def Referred (m : BlobManager) : Event → Prop
  | .advance i _ _ => ∀ task ∈ m.tasks[i]?, ∀ hash ∈ task.records,
      hash ∈ m.shared.table → 0 < m.shared.table.getRefCount hash
  | _ => True

/-- An event of any interleaving of creations, deletions and collections. -/
def Interleaved (m : BlobManager) : Event → Prop
  | .call call => call.Fresh m.shared ∧ ¬ call.Rewrites
  | .advance _ _ ok => ok = true
  | .restart => False

/-- No creation records a chunk without a reference that the table knows, or one that is
about to be taken out, and no two deletions of one blob are in flight. -/
def Apart (m : BlobManager) : Event → Prop
  | .advance i _ _ => ∀ task ∈ m.tasks[i]?,
      task.Alone m.shared (m.others i) ∧ task.Careful m.shared (m.others i)
  | _ => True

instance (m : BlobManager) (event : Event) : Decidable (m.InTurn event) := by
  unfold InTurn
  split <;> infer_instance

instance (m : BlobManager) (event : Event) : Decidable (m.Referred event) := by
  unfold Referred
  split <;> infer_instance

instance (m : BlobManager) (event : Event) : Decidable (m.Interleaved event) := by
  unfold Interleaved
  split <;> infer_instance

instance (s : Blobs) (rest : List Task) (task : Task) : Decidable (task.Alone s rest) :=
  Option.decidableForallMem (task.begins s)

instance (s : Blobs) (rest : List Task) (task : Task) : Decidable (task.Careful s rest) :=
  Option.decidableForallMem task.records

instance (m : BlobManager) (event : Event) : Decidable (m.Apart event) := by
  unfold Apart
  split <;> infer_instance

section

variable {X : Extern} {c : BlobConfig} {m : BlobManager}

/-- **An event** keeps the manager steady. -/
theorem steady_step (steady : Steady X c m.shared m.tasks) {event : Event}
    (fresh : ∀ call, event = .call call → call.Fresh m.shared) (works : ∀ i now, event ≠ .advance i now false)
    (runs : event ≠ .restart) (apart : m.Apart event) :
    Steady X c (m.step X c event).shared (m.step X c event).tasks := by
  cases event with
  | call call => exact steady.call (fresh call rfl)
  | advance i now ok =>
    cases ok with
    | false => exact absurd rfl (works i now)
    | true =>
      rw [step]
      cases here : m.tasks[i]? with
      | none => exact steady
      | some task =>
        obtain ⟨alone, careful⟩ := apart task here
        exact (steady.perm (Run.perm_of_turn here)).step alone careful now
  | restart => exact absurd rfl runs

theorem others_of_single (single : m.tasks.length ≤ 1) {i : Nat} {task : Task} (here : m.tasks[i]? = some task) :
    m.others i = [] := by
  have size := (Run.perm_of_turn here).length_eq
  rw [List.length_cons] at size
  exact List.eq_nil_of_length_eq_zero (Nat.le_zero.mp (by rw [others]; omega))

/-- There is one operation at a time. -/
theorem single_step (single : m.tasks.length ≤ 1) {event : Event} (inTurn : m.InTurn event) :
    (m.step X c event).tasks.length ≤ 1 := by
  have one (next : Option Task) : next.toList.length ≤ 1 := by cases next <;> simp
  cases event with
  | call call =>
    rw [step, inTurn.2, List.append_nil]
    exact one _
  | advance i now ok =>
    rw [step]
    cases here : m.tasks[i]? with
    | none => exact single
    | some task =>
      simp only [others_of_single single here, List.append_nil]
      exact one _
  | restart => exact inTurn.elim

/-- **Operations one after the other:** in every run that never takes a chunk without a
reference for a duplicate, whenever nothing is in flight every blob that was created, and
neither deleted nor expired, is read back with its bytes, and the table counts the
references of the stored metadata. -/
theorem readable_inTurn (injective : Function.Injective X.hash) {events : List Event}
    (each : Run.Each (step X c) (fun m event => m.InTurn event ∧ m.Referred event) fresh events) :
    Run.Always (step X c) (fun m => m.tasks = [] → Readable X m.shared ∧ Counted m.shared) fresh events := by
  have invariant := each.invariant (I := fun m => Steady X c m.shared m.tasks ∧ m.tasks.length ≤ 1) ?_
    ⟨steady_fresh, Nat.zero_le _⟩
  · intro m member idle
    have steady := (invariant m member).1
    rw [idle] at steady
    exact ⟨steady.readable injective, steady.counted⟩
  · rintro m event ⟨steady, single⟩ ⟨inTurn, referred⟩
    refine ⟨steady_step steady ?_ ?_ ?_ ?_, single_step single inTurn⟩
    · rintro call rfl
      exact inTurn.1
    · rintro i now rfl
      cases inTurn
    · rintro rfl
      exact inTurn
    · cases event with
      | advance i now ok =>
        intro task here
        rw [others_of_single single here]
        exact ⟨fun _ _ => List.not_mem_nil, fun hash records => ⟨List.not_mem_nil, referred task here hash records⟩⟩
      | _ => trivial

end

/-! ### One operation after the other, on one chunk -/

/-- SHA-256 of the letter a, and a text of its own for everything else. -/
def sampleExtern : Extern where
  hash data :=
    if data = [97] then utf8 "ca978112ca1bbdcafac231b39a23dc4da786eff8147c4e72b9807785afee48bb".toList
    else 0 :: data
  isAlphanumeric := Char.isAlphanum

theorem sample_injective : Function.Injective sampleExtern.hash := by
  obtain ⟨rest, digest⟩ : ∃ rest,
      utf8 "ca978112ca1bbdcafac231b39a23dc4da786eff8147c4e72b9807785afee48bb".toList = 99 :: rest := ⟨_, utf8_ofList _⟩
  intro data other same
  simp only [sampleExtern, digest] at same
  split at same
  next here =>
    split at same
    next there => rw [here, there]
    next => cases same
  next =>
    split at same
    next => cases same
    next => exact (List.cons.inj same).2

def sampleConfig : BlobConfig := ⟨1048576, 10737418240, 86400⟩

/-- So many steps of the task that was started last. -/
def advances (steps : Nat) : List Event := List.replicate steps (.advance 0 0 true)

/-- Two blobs with one chunk are created, and the first is deleted. -/
def sharedRun : List Event :=
  .call (.createBlob ['1'] ['n'] [97]) :: advances 7 ++ .call (.createBlob ['2'] ['n'] [97]) :: advances 5 ++
    .call (.deleteBlob ['1']) :: advances 4

/-- A blob is created and deleted, and its content is created again. -/
def recreatedRun : List Event :=
  .call (.createBlob ['1'] ['n'] [97]) :: advances 7 ++ .call (.deleteBlob ['1']) :: advances 5 ++
    .call (.createBlob ['2'] ['n'] [97]) :: advances 5

theorem readable_inTurn_sample :
    let m := sharedRun.foldl (step sampleExtern sampleConfig) fresh
    m.tasks = [] ∧ (['2'], [97]) ∈ m.shared.created ∧ Readable sampleExtern m.shared ∧ Counted m.shared :=
  ⟨by decide +kernel, by decide +kernel,
    readable_inTurn sample_injective (by decide +kernel) _ (Run.foldl_mem_states _ _) (by decide +kernel)⟩

/-- The second blob was created, and its chunk is gone. -/
theorem recreated_unreadable :
    Run.Each (step sampleExtern sampleConfig) InTurn fresh recreatedRun ∧
      let m := recreatedRun.foldl (step sampleExtern sampleConfig) fresh
      m.tasks = [] ∧ ¬ Readable sampleExtern m.shared ∧ ¬ Counted m.shared := by
  refine ⟨by decide +kernel, by decide +kernel, fun readable => ?_, fun counted => ?_⟩
  · have read := readable (['2'], [97]) (by decide +kernel) (by decide +kernel) (by decide +kernel)
    exact absurd read (by decide +kernel)
  · have there := counted.2 (sampleExtern.hash [97]) (by decide +kernel)
    exact absurd there (by decide +kernel)

/-! ### Interleavings -/

section

variable {X : Extern} {c : BlobConfig} {m : BlobManager}

/-- Nothing expires. -/
def Timeless (s : Blobs) : Prop := s.expired = [] ∧ ∀ blob ∈ s.store.metadata, blob.expiresAt = none

theorem timeless_task {s : Blobs} (timeless : Timeless s) (task : Task) (now : Int) :
    Timeless (s.taskStep X c now true task).1 := by
  have effect := step_effect X c s now task
  revert effect
  generalize (s.taskStep X c now true task).1 = s'
  generalize (s.taskStep X c now true task).2.toList = next
  obtain ⟨none, never⟩ := timeless
  rintro (quiet | _ | _ | _ | ⟨draft⟩ | _ | ⟨blob, by_, _, begins, same⟩ | _ | _ | _ | _ | _ | _ | _)
  · exact ⟨quiet.expired.trans none, quiet.metadata ▸ never⟩
  · exact ⟨none, never⟩
  · exact ⟨none, never⟩
  · exact ⟨none, never⟩
  · refine ⟨none, fun blob member => ?_⟩
    rcases List.mem_append.mp member with before | now
    · exact never blob (List.mem_filter.mp before).1
    · rw [List.mem_singleton.mp now]
      rfl
  · exact ⟨none, never⟩
  · rcases same with ⟨rfl, -⟩ | ⟨rfl, expires⟩
    · exact ⟨none, never⟩
    · exact absurd (never blob (begins_stored begins)) expires
  · exact ⟨none, never⟩
  · exact ⟨none, never⟩
  · exact ⟨none, never⟩
  · exact ⟨none, fun blob member => never blob (List.mem_filter.mp member).1⟩
  · exact ⟨none, fun blob member => never blob (List.mem_filter.mp member).1⟩
  · exact ⟨none, never⟩
  · exact ⟨none, never⟩

theorem timeless_call {s : Blobs} (timeless : Timeless s) {call : Call} (keeps : ¬ call.Rewrites) :
    Timeless (s.call X c call).1 := by
  refine ⟨(called s call).expired.trans timeless.1, ?_⟩
  have same : (s.call X c call).1.store = s.store := by
    cases call with
    | rewrite id expiresAt => exact absurd rfl keeps
    | uploadPart uploadId data =>
      simp only [Blobs.call, Blobs.uploadPart]
      cases s.session uploadId with
      | none => rfl
      | some session =>
        simp only []
        split
        · rfl
        · split <;> rfl
    | completeUpload uploadId =>
      simp only [Blobs.call, Blobs.complete]
      cases s.session uploadId with
      | none => rfl
      | some session =>
        simp only []
        split
        · rfl
        · split
          · rfl
          · cases split c.chunkSize session.uploadedParts.flatten <;> rfl
    | _ => rfl
  rw [same]
  exact timeless.2

/-- **Any interleaving:** in every run that keeps operations on one chunk apart, once all
operations have finished every blob whose creation returned, and whose deletion was not
asked for, is read back with its bytes. -/
theorem readable_interleaved (injective : Function.Injective X.hash) {events : List Event}
    (each : Run.Each (step X c) (fun m event => m.Interleaved event ∧ m.Apart event) fresh events) :
    Run.Always (step X c) (fun m => m.tasks = [] → ∀ e ∈ m.shared.created, e.1 ∉ m.shared.deleted →
      download X m.shared.store e.1 = .ok e.2) fresh events := by
  have invariant := each.invariant (I := fun m => Steady X c m.shared m.tasks ∧ Timeless m.shared) ?_
    ⟨steady_fresh, rfl, by simp [fresh]⟩
  · intro m member idle e created notDeleted
    obtain ⟨steady, timeless⟩ := invariant m member
    rw [idle] at steady
    refine steady.readable injective e created notDeleted ?_
    rw [timeless.1]
    exact List.not_mem_nil
  · rintro m event ⟨steady, timeless⟩ ⟨interleaved, apart⟩
    refine ⟨steady_step steady ?_ ?_ ?_ apart, ?_⟩
    · rintro call rfl
      exact interleaved.1
    · rintro i now rfl
      cases interleaved
    · rintro rfl
      exact interleaved
    · cases event with
      | call call => exact timeless_call timeless interleaved.2
      | advance i now ok =>
        cases interleaved
        rw [step]
        cases m.tasks[i]? with
        | none => exact timeless
        | some task => exact timeless_task timeless task now
      | restart => exact interleaved.elim

end

/-- The second blob is created while the first is deleted, and records the chunk first. -/
def overlappingRun : List Event :=
  .call (.createBlob ['1'] ['n'] [97]) :: advances 7 ++ .call (.createBlob ['2'] ['n'] [97]) :: advances 3 ++
    .call (.deleteBlob ['1']) :: advances 6

/-- The second blob is created between the deletion's look at the count and its call of the
store. -/
def racedRun : List Event :=
  .call (.createBlob ['1'] ['n'] [97]) :: advances 7 ++ .call (.deleteBlob ['1']) :: advances 2 ++
    .call (.createBlob ['2'] ['n'] [97]) :: advances 8

theorem readable_interleaved_sample :
    let m := overlappingRun.foldl (step sampleExtern sampleConfig) fresh
    m.tasks = [] ∧ (['2'], [97]) ∈ m.shared.created ∧ ['2'] ∉ m.shared.deleted ∧
      download sampleExtern m.shared.store ['2'] = .ok [97] :=
  ⟨by decide +kernel, by decide +kernel, by decide +kernel,
    readable_interleaved sample_injective (by decide +kernel) _ (Run.foldl_mem_states _ _)
      (by decide +kernel) (['2'], [97]) (by decide +kernel) (by decide +kernel)⟩

/-- The second blob was created, its deletion was not asked for, and its chunk is gone. -/
theorem raced_unreadable :
    Run.Each (step sampleExtern sampleConfig) Interleaved fresh racedRun ∧
      let m := racedRun.foldl (step sampleExtern sampleConfig) fresh
      m.tasks = [] ∧ (['2'], [97]) ∈ m.shared.created ∧ ['2'] ∉ m.shared.deleted ∧
        download sampleExtern m.shared.store ['2'] = .error (.chunkNotFound (sampleExtern.hash [97])) := by
  decide +kernel

/-! ### With operations half done -/

/-- **The counts are exact in every state of such a run.** A chunk is counted once for each reference of a blob that
is not being deleted and of an operation under way; if it is referred to it is there or on its way, and what is about
to be taken out is counted nowhere. -/
theorem counted_interleaved {X : Extern} {c : BlobConfig} {events : List Event}
    (each : Run.Each (step X c) (fun m event => m.Interleaved event ∧ m.Apart event) fresh events) :
    Run.Always (step X c) (fun m => RefCount.Exact m.shared.table.getRefCount (refs X c m.shared m.tasks) ∧
      Pooled X c (fun _ => False) m.shared m.tasks) fresh events := by
  have invariant := each.invariant (I := fun m => Steady X c m.shared m.tasks) ?_ steady_fresh
  · exact fun m member => ⟨(invariant m member).exact, (invariant m member).pooled⟩
  · rintro m event steady ⟨interleaved, apart⟩
    refine steady_step steady ?_ ?_ ?_ apart
    · rintro call rfl
      exact interleaved.1
    · rintro i now rfl
      cases interleaved
    · rintro rfl
      exact interleaved

theorem counted_interleaved_sample :
    let m := overlappingRun.foldl (step sampleExtern sampleConfig) fresh
    RefCount.Exact m.shared.table.getRefCount (refs sampleExtern sampleConfig m.shared m.tasks) :=
  (counted_interleaved (by decide +kernel) _ (Run.foldl_mem_states _ _)).1

end BlobManager

end NovaRuntime.Blob
