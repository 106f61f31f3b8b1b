/-
# NovaRuntime.Blob.Pool — a step keeps the pool of chunks sound

The references of a state are passed on: from a creation to the blob that it stores, from
a blob to its deletion, and the deletion lets them go one by one. `pooled_step` and
`exact_step` say so for a step, `Called.pooled` and `Called.exact` for a call of the
manager. A sound pool gives back what was put in (`download_of_kept`).
-/
import Mathlib.Data.List.Nodup
import NovaRuntime.Blob.ManagerSpec

namespace NovaRuntime.Blob

open NovaRuntime.Library

set_option autoImplicit false

/-! ## References -/

section

variable {X : Extern} {c : BlobConfig} {s s' : Blobs} {task : Task} {tasks rest next : List Task} {now : Int}
variable {blob : BlobMetadata} {t : Task}

/-- References of the stored blobs depend on identifiers and chunks only. -/
theorem refs_of_metadata (tasks tasks' : List Task)
    (metadata : s'.store.metadata.map (fun b => (b.id, b.chunkHashes)) =
      s.store.metadata.map fun b => (b.id, b.chunkHashes))
    (victims : ∀ id, id ∈ tasks'.flatMap Task.victim ↔ id ∈ tasks.flatMap Task.victim) :
    (live s' tasks').flatMap BlobMetadata.chunkHashes = (live s tasks).flatMap BlobMetadata.chunkHashes := by
  have pairs (s : Blobs) (tasks : List Task) : (live s tasks).flatMap BlobMetadata.chunkHashes =
      ((s.store.metadata.map fun b => (b.id, b.chunkHashes)).filter
        fun p => p.1 ∉ tasks.flatMap Task.victim).flatMap Prod.snd := by
    rw [List.filter_map, List.flatMap_map]
    rfl
  rw [pairs, pairs, metadata]
  congr 2
  funext p
  rw [decide_eq_decide, victims]

/-- A step that leaves the stored blobs and the deletions in flight. -/
theorem refs_turn (task : Task) (metadata : s'.store.metadata = s.store.metadata)
    (victim : next.flatMap Task.victim = task.victim) :
    refs X c s' (next ++ rest) = (live s (task :: rest)).flatMap BlobMetadata.chunkHashes ++
      (next.flatMap (Task.holds X c) ++ rest.flatMap (Task.holds X c)) := by
  rw [refs, List.flatMap_append, refs_of_metadata (s := s) (task :: rest) _ (by rw [metadata])]
  intro id
  rw [List.flatMap_append, victim, List.flatMap_cons]

theorem refs_cons : refs X c s (task :: rest) = (live s (task :: rest)).flatMap BlobMetadata.chunkHashes ++
    (task.holds X c ++ rest.flatMap (Task.holds X c)) := by
  rw [refs, List.flatMap_cons]

theorem refs_quiet (quiet : Quiet X c s task s' next) :
    refs X c s' (next ++ rest) = refs X c s (task :: rest) := by
  rw [refs_turn task quiet.metadata quiet.victim, refs_cons, quiet.holds]

/-- A step to one task with the same references. -/
theorem refs_still (metadata : s'.store.metadata = s.store.metadata)
    (victim : t.victim = task.victim) (holds : t.holds X c = task.holds X c) :
    refs X c s' ([t] ++ rest) = refs X c s (task :: rest) := by
  rw [refs_turn task metadata (by rw [List.flatMap_singleton, victim]), refs_cons,
    List.flatMap_singleton, holds]

theorem refs_record {draft : Draft} {hash : Hash} {left : List (Bytes × Hash)} {first : Bytes × Hash}
    (metadata : s'.store.metadata = s.store.metadata)
    (suffix : hash :: left.map Prod.snd <:+ draft.hashes X c) (victim : t.victim = [])
    (holds : t.holds X c = draft.recorded X c left.length) :
    (refs X c s' ([t] ++ rest)).Perm (hash :: refs X c s (.recording draft (first :: left) :: rest)) := by
  have more := Draft.recorded_cons suffix
  rw [List.length_map] at more
  rw [refs_turn (.recording draft (first :: left)) metadata (by rw [List.flatMap_singleton, victim]; rfl),
    refs_cons, List.flatMap_singleton, holds, more]
  show (_ ++ (draft.recorded X c (left.length + 1) ++ [hash] ++ _)).Perm _
  rw [List.append_assoc (draft.recorded X c (left.length + 1)), List.singleton_append]
  refine (List.Perm.append_left _ List.perm_middle).trans ?_
  exact List.perm_middle

/-- The creation hands its references to the blob. -/
theorem refs_store {draft : Draft} (ordered : Ordered X c s (.recording draft [] :: rest)) :
    (refs X c { s with store := s.store.putMetadata (draft.metadata X c) } (.counting draft :: rest)).Perm
      (refs X c s (.recording draft [] :: rest)) := by
  have metadata := ordered.putMetadata_eq (draft.metadata X c) rfl
  have fresh : draft.id ∉ rest.flatMap Task.victim := by
    intro victim
    have distinct := ordered.distinct
    have stored := ordered.stored draft.id (by rw [List.flatMap_cons]; exact List.mem_append_right _ victim)
    rw [ids, List.flatMap_cons] at distinct
    exact (List.nodup_cons.mp distinct).1 (List.mem_append_right _ (List.mem_append_right _ stored))
  have lives : live { s with store := s.store.putMetadata (draft.metadata X c) } (.counting draft :: rest) =
      live s (.recording draft [] :: rest) ++ [draft.metadata X c] := by
    rw [live, metadata, List.filter_append]
    congr 1
    exact List.filter_cons_of_pos (decide_eq_true fresh)
  rw [refs_cons, refs_cons, lives, List.flatMap_append, List.flatMap_singleton]
  show (_ ++ draft.hashes X c ++ _).Perm (_ ++ (draft.recorded X c 0 ++ _))
  rw [Draft.recorded_none, List.append_assoc]
  exact .refl _

/-- One of the elements that are kept stands in front of the others. -/
theorem perm_filter_of_mem {blobs : List BlobMetadata} {p : BlobMetadata → Bool}
    (distinct : (blobs.map BlobMetadata.id).Nodup) (member : blob ∈ blobs) (keeps : p blob) :
    (blobs.filter p).Perm (blob :: blobs.filter fun b => decide (b.id ≠ blob.id) && p b) := by
  obtain ⟨front, behind, rfl⟩ := List.append_of_mem member
  rw [List.map_append, List.map_cons, List.perm_middle.nodup_iff, List.nodup_cons, List.mem_append, not_or] at distinct
  have without {bs : List BlobMetadata} (absent : blob.id ∉ bs.map BlobMetadata.id) :
      bs.filter (fun b => decide (b.id ≠ blob.id) && p b) = bs.filter p := by
    refine List.filter_congr fun b inside => ?_
    have other : b.id ≠ blob.id := fun same => absent (same ▸ List.mem_map_of_mem inside)
    rw [decide_eq_true other, Bool.true_and]
  rw [List.filter_append, List.filter_append, List.filter_cons_of_pos keeps,
    List.filter_cons_of_neg (by simp), without distinct.1.1, without distinct.1.2]
  exact List.perm_middle

/-- The blob hands its references to the deletion. -/
theorem refs_begin (ordered : Ordered X c s (task :: rest)) {by_ : Deleter}
    (begins : blob ∈ task.begins s) (alone : blob.id ∉ rest.flatMap Task.victim)
    (metadata : s'.store.metadata = s.store.metadata) :
    (refs X c s' ([.releasing blob blob.chunkHashes by_] ++ rest)).Perm (refs X c s (task :: rest)) := by
  have stored := begins_stored begins
  have idle : task.victim = [] ∧ task.holds X c = [] := by
    cases task <;> first | exact ⟨rfl, rfl⟩ | cases begins
  have distinct : (s.store.metadata.map BlobMetadata.id).Nodup :=
    (List.nodup_append.mp (List.nodup_append.mp ordered.distinct).2.1).2.1
  have lives : (live s (task :: rest)).Perm
      (blob :: live s' (.releasing blob blob.chunkHashes by_ :: rest)) := by
    have before : live s (task :: rest) = s.store.metadata.filter fun b => b.id ∉ rest.flatMap Task.victim := by
      rw [live, List.flatMap_cons, idle.1, List.nil_append]
    have behind : live s' (.releasing blob blob.chunkHashes by_ :: rest) = s.store.metadata.filter
        fun b => decide (b.id ≠ blob.id) && decide (b.id ∉ rest.flatMap Task.victim) := by
      rw [live, metadata]
      refine List.filter_congr fun b _ => ?_
      rw [Bool.eq_iff_iff]
      simp [Task.victim]
    rw [before, behind]
    exact perm_filter_of_mem distinct stored (decide_eq_true alone)
  rw [List.singleton_append, refs_cons, refs_cons, idle.2, List.nil_append, Task.holds, ← List.append_assoc]
  refine List.Perm.append_right _ ?_
  refine List.Perm.trans ?_ (lives.flatMap_right _).symm
  rw [List.flatMap_cons]
  exact List.perm_append_comm

/-- The blob goes, and its deletion with it. -/
theorem refs_delete {by_ : Deleter} (victim : t.victim = [])
    (holds : t.holds X c = []) :
    refs X c { s with store := s.store.deleteMetadata blob.id } ([t] ++ rest) =
      refs X c s (.releasing blob [] by_ :: rest) := by
  have lives : live { s with store := s.store.deleteMetadata blob.id } (t :: rest) =
      live s (.releasing blob [] by_ :: rest) := by
    rw [live, live, Store.deleteMetadata, List.filter_filter]
    refine List.filter_congr fun other _ => ?_
    have own : Task.victim (.releasing blob [] by_) = [blob.id] := rfl
    rw [Bool.eq_iff_iff]
    simp only [own, List.flatMap_cons, victim, List.nil_append, List.singleton_append, List.mem_cons,
      not_or, Bool.and_eq_true, decide_eq_true_eq, bne_iff_ne, and_comm]
  rw [List.singleton_append, refs_cons, refs_cons, lives, holds]
  rfl

/-- One of the references of the deletion ends. -/
theorem refs_release {hash : Hash} {left : List Hash} {by_ : Deleter}
    (metadata : s'.store.metadata = s.store.metadata) (victim : t.victim = [blob.id])
    (holds : t.holds X c = left) :
    (refs X c s (.releasing blob (hash :: left) by_ :: rest)).Perm (hash :: refs X c s' ([t] ++ rest)) := by
  rw [refs_turn (.releasing blob (hash :: left) by_) metadata
    (by rw [List.flatMap_singleton, victim]; rfl), refs_cons, List.flatMap_singleton, holds]
  exact List.perm_middle

end

/-! ## The pool -/

/-- The chunk that a creation records with its next step. -/
def Task.records : Task → Option Hash
  | .recording _ (p :: _) => some p.2
  | _ => none

/-- The next chunk of a creation is not about to be taken out by another task, and if the
table knows it, it is there or on its way. -/
def Task.Safe (lost : Hash → Prop) (s : Blobs) (rest : List Task) (task : Task) : Prop :=
  ∀ hash ∈ task.records, hash ∉ rest.flatMap Task.dying ∧
    (hash ∈ s.table → (hash ∈ s.store.chunks ∨ lost hash) ∨ hash ∈ rest.flatMap Task.puts)

section

variable {X : Extern} {c : BlobConfig} {lost : Hash → Prop} {s : Blobs} {task : Task} {rest : List Task}
  {now : Int}
variable {hash : Hash}

theorem mem_insert_chunks {key : Hash} {chunk : Bytes} :
    key ∈ s.store.chunks.insert hash chunk ↔ key = hash ∨ key ∈ s.store.chunks := by
  rw [Std.TreeMap.mem_insert, byteCmp_eq, eq_comm]

theorem mem_erase_chunks {key : Hash} :
    key ∈ s.store.chunks.erase hash ↔ key ≠ hash ∧ key ∈ s.store.chunks := by
  rw [Std.TreeMap.mem_erase, ne_eq, byteCmp_eq, ne_comm]

theorem puts_still {t : Task} (puts : t.puts = []) (was : task.puts = []) :
    ([t] ++ rest).flatMap Task.puts = (task :: rest).flatMap Task.puts := by
  rw [List.flatMap_append, List.flatMap_singleton, List.flatMap_cons, puts, was]

theorem dying_fewer {t : Task} (less : ∀ hash ∈ t.dying, hash ∈ task.dying) :
    ∀ hash ∈ ([t] ++ rest).flatMap Task.dying, hash ∈ (task :: rest).flatMap Task.dying := by
  intro hash member
  rw [List.flatMap_append, List.flatMap_singleton, List.mem_append] at member
  rw [List.flatMap_cons, List.mem_append]
  exact member.imp_left (less hash)

theorem getRefCount_retain {record : ChunkRecord} (known : s.table[hash]? = some record) (key : Hash) :
    Table.getRefCount (s.table.insert hash { record with refCount := record.refCount + 1 }) key =
      if key = hash then s.table.getRefCount key + 1 else s.table.getRefCount key := by
  rw [Table.getRefCount_insert]
  split
  next here => rw [here, Table.getRefCount_of_some known]
  next => rfl

theorem getRefCount_acquire (unknown : s.table[hash]? = none) (key : Hash) :
    Table.getRefCount (s.table.insert hash ⟨1, now⟩) key =
      if key = hash then s.table.getRefCount key + 1 else s.table.getRefCount key := by
  rw [Table.getRefCount_insert]
  split
  next here => rw [here, Table.getRefCount_of_none unknown]
  next => rfl

section

variable (ordered : Ordered X c s (task :: rest)) (pooled : Pooled X c lost s (task :: rest))

include ordered pooled

/-- **A step** keeps the pool sound. -/
theorem pooled_step (alone : task.Alone s rest) (safe : task.Safe lost s rest) (now : Int) :
    Pooled X c lost (s.taskStep X c now true task).1 ((s.taskStep X c now true task).2.toList ++ rest) := by
  have placed : task.Placed X c := ordered.placed task (.head _)
  have effect := step_effect X c s now task
  revert effect
  generalize (s.taskStep X c now true task).1 = s'
  generalize (s.taskStep X c now true task).2.toList = next
  obtain ⟨pool, intact⟩ := pooled
  rintro (quiet | ⟨draft, chunk, hash, left, record, known⟩ | ⟨draft, chunk, hash, left, unknown⟩ |
    ⟨draft, chunk, hash, left⟩ | ⟨draft⟩ | ⟨draft⟩ | ⟨blob, by_, _, begins, same⟩ | ⟨blob, hash, left, by_⟩ |
    ⟨hash, dies, victim, -, -, holds, puts, was, -, less⟩ | ⟨hash, dies, victim, -, -, holds, puts, was, -, less⟩ | ⟨blob⟩ |
    ⟨blob, sweep⟩ | ⟨blob⟩ | _)
  · refine ⟨?_, ?_⟩
    · rw [refs_quiet quiet, quiet.table, quiet.chunks, List.flatMap_append, quiet.puts]
      refine pool.weaken (.refl _) (fun _ later _ => .inr later) fun hash member => ?_
      rw [List.flatMap_append, List.mem_append] at member
      exact List.mem_append.mpr (member.imp_left (quiet.dying hash))
    · rw [quiet.chunks]
      exact intact
  · -- the chunk is a duplicate
    obtain ⟨-, suffix, -⟩ := placed
    refine ⟨pool.retain (getRefCount_retain known) (refs_record rfl suffix rfl rfl) (safe hash rfl).1 ?_, intact⟩
    exact (safe hash rfl).2 (Std.TreeMap.mem_iff_isSome_getElem?.mpr (by rw [known]; rfl))
  · -- the chunk is new
    obtain ⟨-, suffix, -⟩ := placed
    exact ⟨pool.acquire (getRefCount_acquire unknown) (refs_record rfl suffix rfl rfl) (fun key => List.mem_cons) (safe hash rfl).1, intact⟩
  · -- the chunk is put in
    obtain ⟨-, -, hashed⟩ := placed
    have same : (refs X c { s with store := s.store.putChunk hash chunk } ([.recording draft left] ++ rest)) =
        refs X c s (.putting draft chunk hash left :: rest) := rfl
    refine ⟨?_, fun key bytes found => ?_⟩
    · rw [same]
      exact pool.written (.inl (mem_insert_chunks.mpr (.inl rfl)))
        (fun key there => there.imp_left fun inside => mem_insert_chunks.mpr (.inr inside))
        fun key later => List.mem_cons.mp later
    · simp only [Store.putChunk, Std.TreeMap.getElem?_insert] at found
      split at found
      next here =>
        cases found
        rw [hashed _ (.head _), byteCmp_eq.mp here]
      next => exact intact key bytes found
  · -- the blob is stored
    refine ⟨pool.weaken (refs_store ordered).subperm (fun _ later _ => .inr later) fun _ => id, intact⟩
  · exact ⟨pool, intact⟩
  · -- a deletion begins
    have shared : s'.store = s.store ∧ s'.table = s.table := by
      rcases same with ⟨rfl, -⟩ | ⟨rfl, -⟩ <;> exact ⟨rfl, rfl⟩
    have idle : task.puts = [] ∧ task.dying = [] := by
      cases task <;> first | exact ⟨rfl, rfl⟩ | cases begins
    have same : (refs X c s' ([.releasing blob blob.chunkHashes by_] ++ rest)).Perm (refs X c s (task :: rest)) :=
      refs_begin ordered begins (alone blob begins) (congrArg Store.metadata shared.1)
    refine ⟨?_, shared.1 ▸ intact⟩
    rw [shared.1, shared.2]
    refine pool.weaken same.subperm (fun hash later _ => .inr ?_) fun hash member => ?_
    · rwa [List.flatMap_cons, idle.1] at later
    · rwa [List.flatMap_cons, idle.2]
  · -- a reference ends
    have spec := s.table.releaseChunk_spec hash
    refine ⟨?_, intact⟩
    by_cases last : (s.table.releaseChunk hash).1 = 0
    · rw [if_pos last]
      refine pool.release spec.2 (refs_release rfl rfl rfl) fun key member => ?_
      rcases List.mem_cons.mp member with rfl | there
      · refine .inr ⟨rfl, ?_⟩
        rw [spec.2, if_pos rfl, ← spec.1, last]
      · exact .inl there
    · rw [if_neg last]
      exact pool.release spec.2 (refs_release rfl rfl rfl) fun _ member => .inl member
  · -- the chunk is taken out of the store
    refine ⟨?_, fun key bytes found => ?_⟩
    · rw [refs_still rfl victim holds, puts_still puts was]
      exact pool.remove (fun key other there => there.imp_left fun inside => mem_erase_chunks.mpr ⟨other, inside⟩)
        (List.mem_append_left _ dies) (dying_fewer less)
    · rw [Store.deleteChunk, Std.TreeMap.getElem?_erase] at found
      split at found
      · cases found
      · exact intact key bytes found
  · -- the chunk is taken out of the table
    refine ⟨?_, intact⟩
    rw [refs_still rfl victim holds, puts_still puts was]
    exact pool.forget (Table.getRefCount_erase s.table hash) (List.mem_append_left _ dies) (dying_fewer less)
  · refine ⟨?_, intact⟩
    rw [refs_delete rfl rfl]
    exact pool
  · refine ⟨?_, intact⟩
    rw [refs_delete rfl rfl]
    exact pool
  · exact ⟨pool, intact⟩
  · refine ⟨pool.collect fun hash member => ?_, intact⟩
    rcases List.mem_append.mp member with here | there
    · exact .inr (Table.getRefCount_of_mem_collect (by simpa [Task.dying] using here))
    · exact .inl there

/-- **A step** keeps the counts exact. -/
theorem exact_step
    (exact : RefCount.Exact s.table.getRefCount (refs X c s (task :: rest))) (alone : task.Alone s rest)
    (now : Int) :
    RefCount.Exact (s.taskStep X c now true task).1.table.getRefCount
      (refs X c (s.taskStep X c now true task).1 ((s.taskStep X c now true task).2.toList ++ rest)) := by
  have placed : task.Placed X c := ordered.placed task (.head _)
  have effect := step_effect X c s now task
  revert effect
  generalize (s.taskStep X c now true task).1 = s'
  generalize (s.taskStep X c now true task).2.toList = next
  rintro (quiet | ⟨draft, chunk, hash, left, record, known⟩ | ⟨draft, chunk, hash, left, unknown⟩ | _ | ⟨draft⟩ |
    _ | ⟨blob, by_, _, begins, same⟩ | ⟨blob, hash, left, by_⟩ | ⟨hash, -, victim, -, -, holds, -, -, -, -⟩ |
    ⟨hash, dies, victim, -, -, holds, -, -, -, -⟩ | ⟨blob⟩ | ⟨blob, sweep⟩ | _ | _)
  · rw [refs_quiet quiet, quiet.table]
    exact exact
  · obtain ⟨-, suffix, -⟩ := placed
    exact exact.retain (getRefCount_retain known) (refs_record rfl suffix rfl rfl)
  · obtain ⟨-, suffix, -⟩ := placed
    exact exact.retain (getRefCount_acquire unknown) (refs_record rfl suffix rfl rfl)
  · exact exact
  · exact exact.perm (refs_store ordered)
  · exact exact
  · have shared : s'.store = s.store ∧ s'.table = s.table := by
      rcases same with ⟨rfl, -⟩ | ⟨rfl, -⟩ <;> exact ⟨rfl, rfl⟩
    rw [shared.2]
    exact exact.perm (refs_begin ordered begins (alone blob begins) (congrArg Store.metadata shared.1))
  · refine exact.release (s.table.releaseChunk_spec hash).2 ?_
    split <;> exact refs_release rfl rfl rfl
  · rw [refs_still rfl victim holds]
    exact exact
  · rw [refs_still rfl victim holds]
    exact exact.forget (Table.getRefCount_erase s.table hash)
      (pooled.pool.dead hash (List.mem_append_left _ dies))
  · rw [refs_delete rfl rfl]
    exact exact
  · rw [refs_delete rfl rfl]
    exact exact
  · exact exact
  · exact exact

end

end

/-! ### Calls -/

section

variable {X : Extern} {c : BlobConfig} {s s' : Blobs} {tasks next : List Task}

section

variable (called : Called X c s s' next)

include called

theorem Called.none_of {α : Type} {f : Task → List α}
    (none : ∀ t, Starts X c s' t → f t = []) : (next ++ tasks).flatMap f = tasks.flatMap f := by
  rw [List.flatMap_append, List.flatMap_eq_nil_iff.mpr fun t member => none t (called.starts t member),
    List.nil_append]

theorem Called.refs : refs X c s' (next ++ tasks) = refs X c s tasks := by
  rw [Blob.refs, Blob.refs, called.none_of fun t starts => starts.holds, refs_of_metadata (s := s) tasks]
  · have pairs := congrArg (List.map fun p : Text × Text × Nat × Hash × List Hash => (p.1, p.2.2.2.2))
      called.metadata
    rw [List.map_map, List.map_map] at pairs
    exact pairs
  · intro id
    rw [called.none_of fun t starts => starts.victim]

theorem Called.pooled {lost : Hash → Prop} (pooled : Pooled X c lost s tasks) :
    Pooled X c lost s' (next ++ tasks) where
  pool := by
    rw [called.refs, called.table, called.chunks, called.none_of fun t starts => starts.puts,
      called.none_of fun t starts => starts.dying]
    exact pooled.pool
  intact := by
    rw [called.chunks]
    exact pooled.intact

theorem Called.exact (exact : RefCount.Exact s.table.getRefCount (Blob.refs X c s tasks)) :
    RefCount.Exact s'.table.getRefCount (Blob.refs X c s' (next ++ tasks)) := by
  rw [called.refs, called.table]
  exact exact

end

end

/-! ## Downloads -/

section

variable {X : Extern} {c : BlobConfig} {s : Blobs} {tasks : List Task}

theorem downloadChunks_eq (injective : Function.Injective X.hash)
    (intact : ∀ hash chunk, s.store.chunks[hash]? = some chunk → X.hash chunk = hash) {chunks : List Bytes}
    (stored : ∀ chunk ∈ chunks, X.hash chunk ∈ s.store.chunks) :
    downloadChunks X s.store (chunks.map X.hash) = .ok chunks.flatten := by
  refine downloadChunks_of_stored fun chunk inside => ?_
  have there := Std.TreeMap.mem_iff_isSome_getElem?.mp (stored chunk inside)
  obtain ⟨bytes, found⟩ := Option.isSome_iff_exists.mp there
  obtain rfl := injective (intact _ _ found)
  exact found

theorem Ordered.getMetadata_eq (ordered : Ordered X c s tasks) {blob : BlobMetadata}
    (stored : blob ∈ s.store.metadata) : s.store.getMetadata blob.id = some blob := by
  have distinct : (s.store.metadata.map BlobMetadata.id).Nodup :=
    (List.nodup_append.mp (List.nodup_append.mp ordered.distinct).2.1).2.1
  obtain ⟨other, found⟩ : ∃ other, s.store.getMetadata blob.id = some other :=
    Option.isSome_iff_exists.mp (List.find?_isSome.mpr ⟨blob, stored, beq_self_eq_true _⟩)
  obtain ⟨inside, same⟩ := getMetadata_eq_some found
  rw [found, List.inj_on_of_nodup_map distinct inside stored same]

/-- **A blob that is kept can be read back**, when its chunks are there. -/
theorem download_of_kept (injective : Function.Injective X.hash) (ordered : Ordered X c s tasks)
    {lost : Hash → Prop} (pooled : Pooled X c lost s tasks) {id : Text} {data : Bytes} (kept : Kept X c s id data)
    (stored : ∀ blob ∈ s.store.metadata, blob.id = id → ∀ hash ∈ blob.chunkHashes, hash ∈ s.store.chunks) :
    download X s.store id = .ok data := by
  obtain ⟨blob, member, rfl, sha, chunks, parts, hashes⟩ := kept
  have all := stored blob member rfl
  rw [hashes] at all
  have read := downloadChunks_eq injective pooled.intact fun chunk inside =>
    all (X.hash chunk) (List.mem_map_of_mem inside)
  rw [flatten_split parts] at read
  simp only [download, ordered.getMetadata_eq member, hashes, read, sha, ne_eq, not_true_eq_false, if_false]

end

end NovaRuntime.Blob
