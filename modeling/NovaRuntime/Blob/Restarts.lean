/-
# NovaRuntime.Blob.Restarts — deletions after a restart or a failed creation

The chunks and the metadata are durable, the table of references is what `save_dedup_state`
wrote last. A deletion or a collection takes out no chunk of another stored blob, and a
creation that returns has all its chunks in the store, as long as

* at a restart the saved table counts every reference of the stored metadata. After a crash
  it may be older than the blobs, or not there at all (`stale_removes`);
* a chunk that a creation records and the table knows is in the store. A creation whose
  `put_chunk` failed leaves the reference and no chunk, and so does a deletion (`Blob.Readable`).
-/
import NovaRuntime.Blob.Readable

namespace NovaRuntime.Blob

open NovaRuntime.Library

set_option autoImplicit false

/-- The chunk that the next step takes out of the store. -/
def Task.takes : Task → Option Hash
  | .removing _ hash _ _ => some hash
  | .sweeping (hash :: _) => some hash
  | _ => none

/-- A creation that stores. -/
def Task.creates : Task → Bool
  | .recording _ _ => true
  | .putting _ _ _ _ => true
  | _ => false

section

variable (X : Extern) (c : BlobConfig)

/-- What a creation has stored so far. -/
def Task.Written (s : Blobs) : Task → Prop
  | .recording draft rest => ∀ hash ∈ draft.recorded X c rest.length, hash ∈ s.store.chunks
  | .putting draft _ hash rest => ∀ key ∈ draft.recorded X c rest.length, key = hash ∨ key ∈ s.store.chunks
  | .counting draft => ∀ hash ∈ draft.hashes X c, hash ∈ s.store.chunks
  | _ => True

/-- A creation that returns has all its chunks in the store. -/
def Task.Stocked (s : Blobs) : Task → Prop
  | .counting draft => ∀ hash ∈ draft.hashes X c, hash ∈ s.store.chunks
  | _ => True

/-- What is taken out of the store is no chunk of another stored blob. -/
def Task.Harmless (s : Blobs) (task : Task) : Prop :=
  ∀ hash ∈ task.takes, ∀ blob ∈ s.store.metadata, blob.id ∉ task.victim → hash ∉ blob.chunkHashes

/-- What is counted covers the stored metadata, and a creation has stored what it recorded. -/
structure Guarded (s : Blobs) (tasks : List Task) : Prop where
  ordered : Ordered X c s tasks
  pooled : Pooled X c (fun _ => True) s tasks
  written : ∀ task ∈ tasks, task.Written X c s
  single : tasks.length ≤ 1

end

section

variable {X : Extern} {c : BlobConfig} {s : Blobs} {task : Task} {tasks : List Task} {now : Int} {ok : Bool}

/-- A creation that fails is over, and changes nothing. -/
theorem failed_step (X : Extern) (c : BlobConfig) (s : Blobs) (now : Int) (creates : task.creates) : (s.taskStep X c now false task) = (s, none) ∨
    s.taskStep X c now false task = s.taskStep X c now true task := by
  cases task with
  | recording draft left =>
    cases left with
    | nil => exact .inl rfl
    | cons p left => exact .inr rfl
  | putting draft chunk hash left => exact .inl rfl
  | _ => cases creates

theorem victim_of_creates (creates : task.creates) : task.victim = [] := by
  cases task <;> first | rfl | cases creates

theorem refs_drop (victim : task.victim = []) : (refs X c s []).Sublist (refs X c s [task]) := by
  have lives : live s [task] = live s [] := by rw [live, live, List.flatMap_singleton, victim, List.flatMap_nil]
  rw [refs, refs, lives]
  exact (List.Sublist.refl _).append (List.nil_sublist _)

/-- **A step** of a creation stores what it records. -/
theorem written_step (now : Int) (ok : Bool) (placed : task.Placed X c) (written : task.Written X c s)
    (known : ∀ hash ∈ task.records, hash ∈ s.table → hash ∈ s.store.chunks) :
    ∀ t ∈ (s.taskStep X c now ok task).2, t.Written X c (s.taskStep X c now ok task).1 := by
  cases task with
  | ensuring ns after =>
    simp only [Blobs.taskStep]
    split
    · rintro _ ⟨⟩
      cases after <;> trivial
    · rintro _ ⟨⟩
      trivial
  | founding ns after =>
    rintro _ ⟨⟩
    cases after <;> trivial
  | checking draft =>
    simp only [Blobs.taskStep]
    cases s.quotas.checkQuota draft.nameSpace draft.data.length with
    | error _ =>
      rintro _ ⟨⟩
    | ok _ =>
      cases parts : split c.chunkSize draft.data with
      | none =>
        rintro _ ⟨⟩
        trivial
      | some chunks =>
        rintro _ ⟨⟩
        have size : (chunks.map fun chunk => (chunk, X.hash chunk)).length = (draft.hashes X c).length := by
          simp [Draft.hashes, parts]
        intro hash inside
        rw [size, Draft.recorded_all] at inside
        exact (List.not_mem_nil inside).elim
  | recording draft left =>
    cases left with
    | nil =>
      cases ok with
      | false => rintro _ ⟨⟩
      | true =>
        rintro _ ⟨⟩
        intro hash inside
        rw [← Draft.recorded_none] at inside
        exact written hash inside
    | cons p left =>
      obtain ⟨chunk, hash⟩ := p
      obtain ⟨-, suffix, -⟩ := placed
      have more := Draft.recorded_cons suffix
      rw [List.length_map] at more
      simp only [Blobs.taskStep, Blobs.storeStep]
      cases there : s.table[hash]? with
      | some record =>
        rw [Table.recordChunk_of_some there]
        rintro _ ⟨⟩
        intro key inside
        rw [more] at inside
        rcases List.mem_append.mp inside with before | now
        · exact written key before
        · rw [List.mem_singleton.mp now]
          exact known hash rfl (Std.TreeMap.mem_iff_isSome_getElem?.mpr (by rw [there]; rfl))
      | none =>
        rw [Table.recordChunk_of_none there]
        rintro _ ⟨⟩
        intro key inside
        rw [more] at inside
        rcases List.mem_append.mp inside with before | now
        · exact .inr (written key before)
        · exact .inl (List.mem_singleton.mp now)
  | putting draft chunk hash left =>
    cases ok with
    | false => rintro _ ⟨⟩
    | true =>
      rintro _ ⟨⟩
      exact fun key inside => mem_insert_chunks.mpr (written key inside)
  | deleting id =>
    simp only [Blobs.taskStep]
    cases s.store.getMetadata id with
    | none => rintro _ ⟨⟩
    | some blob =>
      rintro _ ⟨⟩
      trivial
  | releasing blob left by_ =>
    cases left with
    | nil =>
      cases by_ with
      | caller =>
        cases ok with
        | true =>
          rintro _ ⟨⟩
          trivial
        | false => rintro _ ⟨⟩
      | sweep more =>
        rintro _ ⟨⟩
        trivial
    | cons hash left =>
      simp only [Blobs.taskStep, Blobs.releaseStep]
      split
      · rintro _ ⟨⟩
        trivial
      · rintro _ ⟨⟩
        trivial
  | removing blob hash left by_ =>
    cases by_ <;> cases ok <;> rintro _ ⟨⟩ <;> trivial
  | sweeping hashes =>
    cases hashes with
    | nil =>
      rintro _ ⟨⟩
      trivial
    | cons hash hashes => cases ok <;> rintro _ ⟨⟩ <;> trivial
  | visiting sweep =>
    simp only [Blobs.taskStep]
    rcases visitStep_cases s sweep with ⟨blob, -, more, goes⟩ | ⟨more, goes⟩ | goes
    · rw [goes]
      rintro _ ⟨⟩
      trivial
    · rw [goes]
      rintro _ ⟨⟩
      trivial
    · rw [goes]
      rintro _ ⟨⟩
  | _ => rintro _ ⟨⟩ <;> trivial

/-- **A step** that succeeds, or is one of a creation, keeps the references guarded. -/
theorem Guarded.step (guarded : Guarded X c s [task]) (works : ok = true ∨ task.creates)
    (known : ∀ hash ∈ task.records, hash ∈ s.table → hash ∈ s.store.chunks) :
    Guarded X c (s.taskStep X c now ok task).1 (s.taskStep X c now ok task).2.toList := by
  obtain ⟨ordered, pooled, written, single⟩ := guarded
  have alone : task.Alone s [] := fun _ _ => List.not_mem_nil
  have safe : task.Safe (fun _ => True) s [] := fun hash _ => ⟨List.not_mem_nil, fun _ => .inl (.inr trivial)⟩
  have one : (s.taskStep X c now ok task).2.toList.length ≤ 1 := by
    cases (s.taskStep X c now ok task).2 <;> simp
  have placed := ordered.placed task (.head _)
  have writes := written_step now ok placed (written task (.head _)) known
  have still := ordered_step ordered alone now ok
  rw [List.append_nil] at still
  refine ⟨still, ?_, fun t member => writes t (Option.mem_toList.mp member), one⟩
  have pools := pooled_step ordered pooled alone safe now
  rw [List.append_nil] at pools
  rcases works with rfl | creates
  · exact pools
  · cases ok with
    | true => exact pools
    | false =>
      rcases failed_step X c s now creates with ends | goes
      · rw [ends]
        refine ⟨pooled.pool.weaken ?_ (fun _ _ _ => .inl (.inr trivial)) (by simp), pooled.intact⟩
        exact (refs_drop (victim_of_creates creates)).subperm
      · rw [goes]
        exact pools

theorem Guarded.call (guarded : Guarded X c s []) {call : Call} (fresh : call.Fresh s) :
    Guarded X c (s.call X c call).1 (s.call X c call).2.toList := by
  have one : (s.call X c call).2.toList.length ≤ 1 := by cases (s.call X c call).2 <;> simp
  have starts := (called (X := X) (c := c) s call).starts
  have ordered := ordered_call guarded.ordered fresh
  have pooled := (called (X := X) (c := c) s call).pooled guarded.pooled
  rw [List.append_nil] at ordered pooled
  refine ⟨ordered, pooled, fun t member => ?_, one⟩
  have start := starts t member
  cases t with
  | recording draft rest =>
    have none : draft.recorded X c rest.length = [] := start.holds
    intro hash inside
    rw [none] at inside
    exact nomatch inside
  | putting draft chunk hash rest => exact absurd start.puts (List.cons_ne_nil _ _)
  | counting draft => exact absurd rfl (start.plain.1 draft)
  | _ => trivial

/-- **A restart** keeps the references guarded that the saved table counts. -/
theorem Guarded.restart (guarded : Guarded X c s tasks) {table : Table} {quotas : Quotas}
    (covers : RefCount.Covers table.getRefCount (s.store.metadata.flatMap BlobMetadata.chunkHashes)) :
    Guarded X c { s with table, quotas, sessions := [] } [] := by
  obtain ⟨ordered, pooled, -, -⟩ := guarded
  refine ⟨?_, ⟨?_, pooled.intact⟩, by simp, Nat.zero_le _⟩
  · refine ordered.fewer ?_ (fun _ => id) (List.nil_subperm) (fun _ _ stored => stored) (by simp)
    exact ((List.nil_sublist _).append ((List.nil_sublist _).append (.refl _))).subperm
  · rw [refs_idle]
    exact covers.sound fun _ _ => .inr trivial

/-- What the next step takes out is no chunk of another stored blob. -/
theorem Guarded.harmless (guarded : Guarded X c s [task]) : task.Harmless s := by
  intro hash takes blob stored other inside
  have dies : hash ∈ [task].flatMap Task.dying := by
    cases task with
    | sweeping hashes =>
      cases hashes with
      | nil => cases takes
      | cons first hashes =>
        cases takes
        exact List.mem_append_left _ (.head _)
    | removing blob key rest by_ =>
      cases takes
      exact List.mem_append_left _ (.head _)
    | _ => cases takes
  refine guarded.pooled.pool.not_mem_of_dying dies (List.mem_append_left _ ?_)
  refine List.mem_flatMap.mpr ⟨blob, List.mem_filter.mpr ⟨stored, decide_eq_true ?_⟩, inside⟩
  rwa [List.flatMap_singleton]

theorem Guarded.stocked (guarded : Guarded X c s [task]) : task.Stocked X c s := by
  have written := guarded.written task (.head _)
  cases task with
  | counting draft => exact written
  | _ => trivial

end

/-! ## Runs -/

namespace BlobManager

/-- An event of a sequence of operations and restarts, at any point of an operation: the
store's calls succeed but for those of a creation. -/
def Lifecycle (m : BlobManager) : Event → Prop
  | .call call => call.Fresh m.shared ∧ m.tasks = []
  | .advance i _ ok => ok = true ∨ ∀ task ∈ m.tasks[i]?, task.creates
  | .restart => True

/-- A chunk that a creation takes for a duplicate is in the store, and the table that a
restart loads counts the references of the stored metadata. -/
def Backed (m : BlobManager) : Event → Prop
  | .call _ => True
  | .advance i _ _ => ∀ task ∈ m.tasks[i]?, ∀ hash ∈ task.records,
      hash ∈ m.shared.table → hash ∈ m.shared.store.chunks
  | .restart => RefCount.Covers (m.shared.saved.getD ∅).getRefCount
      (m.shared.store.metadata.flatMap BlobMetadata.chunkHashes)

/-- What a step takes out of the store is no chunk of another stored blob, and a creation
that returns has all its chunks in the store. -/
def Respects (X : Extern) (c : BlobConfig) (m : BlobManager) : Event → Prop
  | .advance i _ _ => ∀ task ∈ m.tasks[i]?, task.Harmless m.shared ∧ task.Stocked X c m.shared
  | _ => True

instance (m : BlobManager) : (event : Event) → Decidable (m.Lifecycle event)
  | .call _ => inferInstanceAs (Decidable (_ ∧ _))
  | .advance i _ ok => inferInstanceAs (Decidable (ok = true ∨ ∀ task ∈ m.tasks[i]?, task.creates))
  | .restart => .isTrue trivial

instance (m : BlobManager) : (event : Event) → Decidable (m.Backed event)
  | .call _ => .isTrue trivial
  | .advance i _ _ => inferInstanceAs (Decidable (∀ task ∈ m.tasks[i]?, ∀ hash ∈ task.records,
      hash ∈ m.shared.table → hash ∈ m.shared.store.chunks))
  | .restart => inferInstanceAs (Decidable (RefCount.Covers _ _))

instance (s : Blobs) (task : Task) : Decidable (task.Harmless s) :=
  Option.decidableForallMem task.takes

instance (X : Extern) (c : BlobConfig) (s : Blobs) (task : Task) : Decidable (task.Stocked X c s) := by
  unfold Task.Stocked
  split <;> infer_instance

instance (X : Extern) (c : BlobConfig) (m : BlobManager) : (event : Event) → Decidable (m.Respects X c event)
  | .advance i _ _ => Option.decidableForallMem m.tasks[i]?
  | .call _ | .restart => .isTrue trivial

section

variable {X : Extern} {c : BlobConfig} {m : BlobManager} {event : Event}

theorem guarded_fresh : Guarded X c fresh.shared fresh.tasks := by
  have steady := steady_fresh (X := X) (c := c)
  refine ⟨steady.ordered, ⟨?_, steady.pooled.intact⟩, fun t absent => absurd absent List.not_mem_nil, Nat.zero_le _⟩
  exact RefCount.Covers.sound (fun _ absent => absurd absent List.not_mem_nil) fun _ _ => .inr trivial

/-- The one task, when a task takes a step. -/
theorem tasks_of_single (single : m.tasks.length ≤ 1) {i : Nat} {task : Task} (here : m.tasks[i]? = some task) :
    m.tasks = [task] := by
  have same := Run.perm_of_turn here
  rw [show m.tasks.eraseIdx i = [] from others_of_single single here] at same
  exact List.perm_singleton.mp same

theorem guarded_step (guarded : Guarded X c m.shared m.tasks) (lifecycle : m.Lifecycle event)
    (backed : m.Backed event) : Guarded X c (m.step X c event).shared (m.step X c event).tasks := by
  cases event with
  | call call =>
    obtain ⟨new, idle⟩ := lifecycle
    rw [idle] at guarded
    rw [step, idle, List.append_nil]
    exact guarded.call new
  | advance i now ok =>
    rw [step]
    cases here : m.tasks[i]? with
    | none => exact guarded
    | some task =>
      have all := tasks_of_single guarded.single here
      rw [all] at guarded
      simp only [others_of_single (by rw [all]; exact guarded.single) here, List.append_nil]
      exact guarded.step (lifecycle.imp_right fun creates => creates task here) (backed task here)
  | restart => exact guarded.restart backed

/-- **Deletions after restarts and failures:** in every run that loads no table that misses
references of the stored metadata, and takes no chunk for a duplicate that is not there,
no step takes out a chunk of another stored blob, and every creation that returns has all
its chunks in the store. -/
theorem respects_lifecycle {events : List Event}
    (each : Run.Each (step X c) (fun m event => m.Lifecycle event ∧ m.Backed event) fresh events) :
    Run.Each (step X c) (Respects X c) fresh events := by
  refine each.imp (I := fun m => Guarded X c m.shared m.tasks) ?_ ?_ guarded_fresh
  · rintro m event guarded ⟨lifecycle, backed⟩
    exact guarded_step guarded lifecycle backed
  · intro m event guarded _
    cases event with
    | advance i now ok =>
      intro task here
      rw [tasks_of_single guarded.single here] at guarded
      exact ⟨guarded.harmless, guarded.stocked⟩
    | _ => trivial

end

/-- Two blobs with one chunk are created, the table is saved, and after a restart the first
blob is deleted. -/
def savedRun : List Event :=
  .call (.createBlob ['1'] ['n'] [97]) :: advances 7 ++ .call (.createBlob ['2'] ['n'] [97]) :: advances 5 ++
    [.call .saveDedupState, .restart] ++ .call (.deleteBlob ['1']) :: advances 4

/-- The process crashes between two creations, and then the first blob is deleted. -/
def staleRun : List Event :=
  .call (.createBlob ['1'] ['n'] [97]) :: advances 7 ++ [.restart] ++
    .call (.createBlob ['2'] ['n'] [97]) :: advances 6 ++ .call (.deleteBlob ['1']) :: advances 5

theorem respects_lifecycle_sample : Run.Each (step sampleExtern sampleConfig)
    (Respects sampleExtern sampleConfig) fresh savedRun :=
  respects_lifecycle (by decide +kernel)

/-- The deletion takes out the chunk of the second blob. -/
theorem stale_removes : Run.Each (step sampleExtern sampleConfig) Lifecycle fresh staleRun ∧
    ¬ Run.Each (step sampleExtern sampleConfig) (Respects sampleExtern sampleConfig) fresh staleRun := by
  decide +kernel

end BlobManager

end NovaRuntime.Blob
