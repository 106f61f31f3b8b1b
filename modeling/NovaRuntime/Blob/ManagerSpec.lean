/-
# NovaRuntime.Blob.ManagerSpec — whose references are counted

A stored blob refers to its chunks until its deletion begins; then the deletion refers to
those that it has still to release. A creation refers to the chunks that it has recorded.
`Ordered` says that every identifier has one place, `Story` that a blob whose creation
returned is stored until it is deleted or expires, and `Pooled` that the table of references
and the chunk files are a sound pool for the references there are (`Library.RefCount`).

`ordered_step` and `story_step` say what a step needs to keep them: a deletion of a blob
begins when no other one is in flight. `Blob.Pool` has the steps of the pool.
-/
import NovaRuntime.Blob.Manager
import NovaRuntime.Library.RefCount
import NovaRuntime.Library.Runs

namespace NovaRuntime.Blob

open NovaRuntime.Library

set_option autoImplicit false

/-! ## What a task has -/

def After.id : After → Text
  | .blob draft => draft.id
  | .upload _ session => session.blobId

/-- The identifier of a blob that is not stored yet. -/
def Task.draws : Task → List Text
  | .ensuring _ after => [after.id]
  | .founding _ after => [after.id]
  | .opening _ session => [session.blobId]
  | .checking draft => [draft.id]
  | .recording draft _ => [draft.id]
  | .putting draft _ _ _ => [draft.id]
  | _ => []

/-- The blob that is being deleted. -/
def Task.victim : Task → List Text
  | .releasing blob _ _ => [blob.id]
  | .removing blob _ _ _ => [blob.id]
  | .dropping blob _ _ _ => [blob.id]
  | _ => []

/-- The metadata of the blob that is being deleted, as the deletion has read it. -/
def Task.doomed : Task → List BlobMetadata
  | .releasing blob _ _ => [blob]
  | .removing blob _ _ _ => [blob]
  | .dropping blob _ _ _ => [blob]
  | _ => []

/-- The creation that has passed the check of the quota, and has not counted its blob. -/
def Task.charges : Task → Option Draft
  | .recording draft _ => some draft
  | .putting draft _ _ _ => some draft
  | .counting draft => some draft
  | _ => none

/-- The chunk that is about to be put in. -/
def Task.puts : Task → List Hash
  | .putting _ _ hash _ => [hash]
  | _ => []

/-- The chunks that are about to be taken out, of the store or of the table. -/
def Task.dying : Task → List Hash
  | .removing _ hash _ _ => [hash]
  | .dropping _ hash _ _ => [hash]
  | .sweeping hashes => hashes
  | .untracking hash hashes => hash :: hashes
  | _ => []

section

variable (X : Extern) (c : BlobConfig)

/-- The chunks of a creation that are recorded when some are left. -/
def Draft.recorded (draft : Draft) (left : Nat) : List Hash :=
  (draft.hashes X c).take ((draft.hashes X c).length - left)

/-- The references of a task. -/
def Task.holds : Task → List Hash
  | .recording draft rest => draft.recorded X c rest.length
  | .putting draft _ _ rest => draft.recorded X c rest.length
  | .releasing _ rest _ => rest
  | .removing _ _ rest _ => rest
  | .dropping _ _ rest _ => rest
  | _ => []

/-- A creation goes through its chunks. -/
def Task.Placed : Task → Prop
  | .recording draft rest =>
    (∃ chunks, split c.chunkSize draft.data = some chunks) ∧ rest.map Prod.snd <:+ draft.hashes X c ∧
      ∀ p ∈ rest, X.hash p.1 = p.2
  | .putting draft chunk hash rest =>
    (∃ chunks, split c.chunkSize draft.data = some chunks) ∧
      hash :: rest.map Prod.snd <:+ draft.hashes X c ∧ ∀ p ∈ (chunk, hash) :: rest, X.hash p.1 = p.2
  | _ => True

/-- The identifiers of blobs, each at its place. -/
def ids (s : Blobs) (tasks : List Task) : List Text :=
  tasks.flatMap Task.draws ++ (s.sessions.map (fun e => e.2.blobId) ++ s.store.metadata.map BlobMetadata.id)

/-- The blobs that are not being deleted. -/
def live (s : Blobs) (tasks : List Task) : List BlobMetadata :=
  s.store.metadata.filter fun blob => blob.id ∉ tasks.flatMap Task.victim

def refs (s : Blobs) (tasks : List Task) : List Hash :=
  (live s tasks).flatMap BlobMetadata.chunkHashes ++ tasks.flatMap (Task.holds X c)

structure Ordered (s : Blobs) (tasks : List Task) : Prop where
  distinct : (ids s tasks).Nodup
  issued : ∀ id ∈ ids s tasks, id ∈ s.issued
  apart : (tasks.flatMap Task.victim).Nodup
  stored : ∀ id ∈ tasks.flatMap Task.victim, id ∈ s.store.metadata.map BlobMetadata.id
  placed : ∀ task ∈ tasks, task.Placed X c

/-- The blob is stored with this content. -/
def Kept (s : Blobs) (id : Text) (data : Bytes) : Prop :=
  ∃ blob ∈ s.store.metadata, blob.id = id ∧ blob.sha256 = X.hash data ∧
    ∃ chunks, split c.chunkSize data = some chunks ∧ blob.chunkHashes = chunks.map X.hash

/-- The blob is deleted, or expired, or stored with this content. -/
def Told (s : Blobs) (id : Text) (data : Bytes) : Prop :=
  id ∈ s.deleted ∨ id ∈ s.expired ∨ Kept X c s id data

structure Story (s : Blobs) (tasks : List Task) : Prop where
  created : ∀ e ∈ s.created, Told X c s e.1 e.2
  counting : ∀ draft, .counting draft ∈ tasks → Told X c s draft.id draft.data
  deleting : ∀ id, .deleting id ∈ tasks → id ∈ s.deleted
  victims : ∀ id ∈ tasks.flatMap Task.victim, id ∈ s.deleted ∨ id ∈ s.expired

/-- The chunks that are `lost` need not be there. -/
structure Pooled (lost : Hash → Prop) (s : Blobs) (tasks : List Task) : Prop where
  pool : RefCount.Sound s.table.getRefCount (refs X c s tasks) (fun hash => hash ∈ s.store.chunks ∨ lost hash)
    (tasks.flatMap Task.puts) (tasks.flatMap Task.dying)
  intact : ∀ hash chunk, s.store.chunks[hash]? = some chunk → X.hash chunk = hash

end

/-! ## The order of the tasks -/

section

variable {X : Extern} {c : BlobConfig} {s : Blobs} {tasks tasks' : List Task}

theorem live_perm (same : tasks.Perm tasks') : live s tasks = live s tasks' := by
  unfold live
  congr 1
  funext blob
  rw [decide_eq_decide, not_iff_not]
  exact (same.flatMap_right _).mem_iff

theorem refs_perm (same : tasks.Perm tasks') : (refs X c s tasks).Perm (refs X c s tasks') := by
  rw [refs, refs, live_perm same]
  exact (same.flatMap_right _).append_left _

theorem Ordered.perm (ordered : Ordered X c s tasks) (same : tasks.Perm tasks') : Ordered X c s tasks' where
  distinct := ((same.flatMap_right _).append_right _).nodup_iff.mp ordered.distinct
  issued id member := ordered.issued id (((same.flatMap_right _).append_right _).mem_iff.mpr member)
  apart := (same.flatMap_right _).nodup_iff.mp ordered.apart
  stored id member := ordered.stored id ((same.flatMap_right _).mem_iff.mpr member)
  placed task member := ordered.placed task (same.mem_iff.mpr member)

theorem Story.perm (story : Story X c s tasks) (same : tasks.Perm tasks') : Story X c s tasks' where
  created := story.created
  counting draft member := story.counting draft (same.mem_iff.mpr member)
  deleting id member := story.deleting id (same.mem_iff.mpr member)
  victims id member := story.victims id ((same.flatMap_right _).mem_iff.mpr member)

theorem Pooled.perm {lost : Hash → Prop} (pooled : Pooled X c lost s tasks) (same : tasks.Perm tasks') :
    Pooled X c lost s tasks' where
  pool := by
    refine pooled.pool.weaken (refs_perm same).symm.subperm ?_ ?_
    · exact fun hash member _ => .inr ((same.flatMap_right _).mem_iff.mp member)
    · exact fun hash member => (same.flatMap_right _).mem_iff.mpr member
  intact := pooled.intact

end

/-! ## Identifiers -/

section

variable {X : Extern} {c : BlobConfig} {s s' : Blobs} {task : Task} {tasks tasks' rest : List Task}

theorem nodup_of_subperm {l l' : List Text} (fewer : l'.Subperm l) (nodup : l.Nodup) : l'.Nodup := by
  obtain ⟨m, same, sub⟩ := fewer
  exact same.nodup_iff.mp (sub.nodup nodup)

section

variable (ordered : Ordered X c s tasks)

include ordered

/-- No identifier is added, and no deletion begins. -/
theorem Ordered.fewer (fewer : (ids s' tasks').Subperm (ids s tasks)) (issued : ∀ id ∈ s.issued, id ∈ s'.issued)
    (victims : (tasks'.flatMap Task.victim).Subperm (tasks.flatMap Task.victim))
    (still : ∀ id ∈ tasks'.flatMap Task.victim, id ∈ s.store.metadata.map BlobMetadata.id →
      id ∈ s'.store.metadata.map BlobMetadata.id)
    (placed : ∀ task ∈ tasks', task.Placed X c) : Ordered X c s' tasks' where
  distinct := nodup_of_subperm fewer ordered.distinct
  issued id member := issued id (ordered.issued id (fewer.subset member))
  apart := nodup_of_subperm victims ordered.apart
  stored id member := still id member (ordered.stored id (victims.subset member))
  placed := placed

/-- The same identifiers at the same places. -/
theorem Ordered.same (issued : ∀ id ∈ s.issued, id ∈ s'.issued)
    (sessions : s'.sessions.map (fun e => e.2.blobId) = s.sessions.map fun e => e.2.blobId)
    (metadata : s'.store.metadata.map BlobMetadata.id = s.store.metadata.map BlobMetadata.id) :
    Ordered X c s' tasks := by
  have ids_eq : ids s' tasks = ids s tasks := by rw [ids, ids, sessions, metadata]
  refine ordered.fewer ?_ issued (.refl _) ?_ ordered.placed
  · rw [ids_eq]
  · rw [metadata]
    exact fun _ _ stored => stored

theorem Ordered.start (draws : task.draws = [])
    (victim : task.victim = []) (placed : task.Placed X c) : Ordered X c s (task :: tasks) := by
  refine ordered.fewer ?_ (fun _ => id) ?_ (fun _ _ => id) (List.forall_mem_cons.mpr ⟨placed, ordered.placed⟩)
  · rw [ids, ids, List.flatMap_cons, draws, List.nil_append]
  · rw [List.flatMap_cons, victim, List.nil_append]

theorem Ordered.draw {id : Text} (fresh : id ∉ s.issued)
    (draws : task.draws = [id]) (victim : task.victim = []) (placed : task.Placed X c)
    (issued : ∀ x, x ∈ s'.issued ↔ x = id ∨ x ∈ s.issued) (sessions : s'.sessions = s.sessions)
    (metadata : s'.store.metadata = s.store.metadata) : Ordered X c s' (task :: tasks) := by
  have ids_eq : ids s' (task :: tasks) = id :: ids s tasks := by
    rw [ids, List.flatMap_cons, draws, sessions, metadata]
    rfl
  have victims_eq : (task :: tasks).flatMap Task.victim = tasks.flatMap Task.victim := by
    rw [List.flatMap_cons, victim, List.nil_append]
  constructor
  · rw [ids_eq]
    exact List.nodup_cons.mpr ⟨fun member => fresh (ordered.issued id member), ordered.distinct⟩
  · intro x member
    rw [ids_eq] at member
    exact (issued x).mpr ((List.mem_cons.mp member).imp_right (ordered.issued x))
  · rw [victims_eq]
    exact ordered.apart
  · rw [victims_eq, metadata]
    exact ordered.stored
  · exact List.forall_mem_cons.mpr ⟨placed, ordered.placed⟩

end

end

/-- The identifiers that a call draws are fresh. -/
def Call.Fresh (s : Blobs) : Call → Prop
  | .createBlob id _ _ => id ∉ s.issued
  | .initiateUpload uploadId blobId _ _ => uploadId ∉ s.issued ∧ blobId ∉ s.issued ∧ blobId ≠ uploadId
  | _ => True

instance (s : Blobs) (call : Call) : Decidable (call.Fresh s) := by
  cases call <;> unfold Call.Fresh <;> infer_instance

section

variable {X : Extern} {c : BlobConfig} {s : Blobs} {tasks rest : List Task}

theorem ensureNamespace_cases (ns : Text) (after : After) :
    ensureNamespace X ns after = none ∨ ensureNamespace X ns after = some (.ensuring ns after) := by
  unfold ensureNamespace
  split
  · exact .inr rfl
  · exact .inl rfl

theorem map_blobId_setSession (uploadId : Text) {f : UploadSession → UploadSession}
    (same : ∀ session, (f session).blobId = session.blobId) :
    (s.setSession uploadId f).sessions.map (fun e => e.2.blobId) = s.sessions.map fun e => e.2.blobId := by
  rw [Blobs.setSession, List.map_map]
  refine List.map_congr_left fun e _ => ?_
  simp only [Function.comp]
  split
  · exact same e.2
  · rfl

/-- A session that is taken out leaves the others their blobs. -/
theorem subperm_of_session {uploadId : Text} {session : UploadSession}
    (found : s.session uploadId = some session) :
    (session.blobId :: (s.sessions.filter fun e => e.1 != uploadId).map fun e => e.2.blobId).Subperm
      (s.sessions.map fun e => e.2.blobId) := by
  obtain ⟨before, behind, parts, -⟩ := List.lookup_eq_some_iff.mp found
  rw [parts, List.filter_append, List.filter_cons_of_neg (by simp), List.map_append, List.map_append,
    List.map_cons]
  refine List.Subperm.trans ?_ List.perm_middle.symm.subperm
  refine (List.Sublist.cons_cons _ (List.Sublist.append ?_ ?_)).subperm
  · exact List.filter_sublist.map _
  · exact List.filter_sublist.map _

/-- **A call of the manager** keeps the identifiers apart. -/
theorem ordered_call (ordered : Ordered X c s tasks) {call : Call} (fresh : call.Fresh s) :
    Ordered X c (s.call X c call).1 ((s.call X c call).2.toList ++ tasks) := by
  cases call with
  | createBlob id ns data =>
    rcases ensureNamespace_cases (X := X) ns (.blob ⟨id, ns, data⟩) with none | some
    · simp only [Blobs.call, none]
      exact ordered.same (fun _ => .tail _) rfl rfl
    · simp only [Blobs.call, some]
      exact ordered.draw fresh rfl rfl trivial (fun _ => List.mem_cons) rfl rfl
  | initiateUpload uploadId blobId ns totalSize =>
    have issued : Ordered X c { s with issued := uploadId :: s.issued } tasks :=
      ordered.same (fun _ => .tail _) rfl rfl
    have new : blobId ∉ uploadId :: s.issued := by
      rw [List.mem_cons, not_or]
      exact ⟨fresh.2.2, fresh.2.1⟩
    rcases ensureNamespace_cases (X := X) ns (.upload uploadId ⟨blobId, ns, totalSize, [], false⟩)
      with none | some
    · simp only [Blobs.call, none]
      exact ordered.same (fun _ member => .tail _ (.tail _ member)) rfl rfl
    · simp only [Blobs.call, some]
      refine issued.draw new rfl rfl trivial (fun x => ?_) rfl rfl
      simp only [List.mem_cons]
      tauto
  | deleteBlob id =>
    have asked : Ordered X c { s with deleted := id :: s.deleted } tasks :=
      ordered.same (fun _ member => member) rfl rfl
    exact asked.start rfl rfl trivial
  | runGc => exact ordered.start rfl rfl trivial
  | uploadPart uploadId data =>
    simp only [Blobs.call, Blobs.uploadPart]
    cases s.session uploadId with
    | none => exact ordered
    | some session =>
      simp only []
      split
      · exact ordered
      · split
        · exact ordered
        · exact ordered.same (fun _ => id) (map_blobId_setSession uploadId fun _ => rfl) rfl
  | completeUpload uploadId =>
    simp only [Blobs.call, Blobs.complete]
    cases found : s.session uploadId with
    | none => exact ordered
    | some session =>
      have taken := subperm_of_session found
      have without : Ordered X c { s with sessions := s.sessions.filter fun e => e.1 != uploadId } tasks := by
        refine ordered.fewer ?_ (fun _ => id) (.refl _) (fun _ _ => id) ordered.placed
        exact (List.Sublist.append_left (List.Sublist.append_right
          (List.filter_sublist.map _) _) _).subperm
      simp only []
      split
      · exact without
      · split
        · exact without
        · cases split c.chunkSize session.uploadedParts.flatten with
          | none => exact without.start rfl rfl trivial
          | some chunks =>
            rcases ensureNamespace_cases (X := X) session.nameSpace
              (.blob ⟨session.blobId, session.nameSpace, session.uploadedParts.flatten⟩)
              with none | some
            · simp only [none]
              exact without
            · simp only [some]
              refine ordered.fewer ?_ (fun _ => id) ?_ (fun _ _ => id) ?_
              · have front := (List.subperm_append_left
                  (tasks.flatMap Task.draws)).mpr ((List.subperm_append_right
                    (s.store.metadata.map BlobMetadata.id)).mpr taken)
                exact List.Subperm.trans List.perm_middle.symm.subperm front
              · exact .refl _
              · exact List.forall_mem_cons.mpr ⟨trivial, ordered.placed⟩
  | abortUpload uploadId =>
    exact ordered.same (fun _ => id) (map_blobId_setSession uploadId fun _ => rfl) rfl
  | setNamespaceQuota ns maxBlobs maxTotalBytes => exact ordered.same (fun _ => id) rfl rfl
  | rewrite id expiresAt =>
    refine ordered.same (fun _ member => member) rfl ?_
    simp only [Blobs.call, List.map_map]
    refine List.map_congr_left fun blob _ => ?_
    simp only [Function.comp]
    split <;> rfl
  | saveDedupState => exact ordered.same (fun _ => id) rfl rfl

end

/-! ### One step -/

/-- The blob whose deletion begins with the next step. -/
def Task.begins (s : Blobs) : Task → Option BlobMetadata
  | .deleting id => s.store.getMetadata id
  | .visiting sweep =>
    (sweep.ids.head?.bind s.store.getMetadata).filter fun blob =>
      blob.expiresAt.any fun expiry => expiry ≤ sweep.now
  | _ => none

/-- A deletion begins when no other one of the blob is in flight. -/
def Task.Alone (s : Blobs) (rest : List Task) (task : Task) : Prop :=
  ∀ blob ∈ task.begins s, blob.id ∉ rest.flatMap Task.victim

section

variable {X : Extern} {c : BlobConfig} {s s' : Blobs} {task : Task} {rest next : List Task} {now : Int}
  {ok : Bool}

/-- A step that stores and deletes nothing. -/
theorem Ordered.turn (ordered : Ordered X c s (task :: rest))
    (draws : (next.flatMap Task.draws).Sublist task.draws)
    (victim : (next.flatMap Task.victim).Sublist task.victim) (issued : s'.issued = s.issued)
    (sessions : s'.sessions = s.sessions)
    (metadata : s'.store.metadata = s.store.metadata) (placed : ∀ t ∈ next, t.Placed X c) :
    Ordered X c s' (next ++ rest) := by
  refine ordered.fewer ?_ ?_ ?_ ?_ ?_
  · rw [ids, ids, sessions, metadata, List.flatMap_append, List.flatMap_cons]
    exact ((draws.append_right _).append_right _).subperm
  · rw [issued]
    exact fun _ => id
  · rw [List.flatMap_append, List.flatMap_cons]
    exact (victim.append_right _).subperm
  · rw [metadata]
    exact fun _ _ stored => stored
  · exact List.forall_mem_append.mpr ⟨placed, fun t member => ordered.placed t (.tail _ member)⟩

/-- A step that leaves nothing to draw or to delete. -/
theorem Ordered.calm (ordered : Ordered X c s (task :: rest))
    (calm : (next.flatMap Task.draws, next.flatMap Task.victim, s'.issued, s'.sessions, s'.store.metadata) =
      ([], [], s.issued, s.sessions, s.store.metadata)) (placed : ∀ t ∈ next, t.Placed X c) :
    Ordered X c s' (next ++ rest) := by
  simp only [Prod.mk.injEq] at calm
  obtain ⟨draws, victim, issued, sessions, metadata⟩ := calm
  exact ordered.turn (draws ▸ List.nil_sublist _) (victim ▸ List.nil_sublist _) issued sessions metadata placed

theorem getMetadata_eq_some {id : Text} {blob : BlobMetadata} (found : s.store.getMetadata id = some blob) :
    blob ∈ s.store.metadata ∧ blob.id = id :=
  ⟨List.mem_of_find?_eq_some found, by simpa using List.find?_some found⟩

section

variable (ordered : Ordered X c s (task :: rest))

include ordered

theorem Ordered.begin {blob : BlobMetadata} {hashes : List Hash}
    {by_ : Deleter} (stored : blob ∈ s.store.metadata) (alone : blob.id ∉ rest.flatMap Task.victim)
    (issued : s'.issued = s.issued) (sessions : s'.sessions = s.sessions)
    (metadata : s'.store.metadata = s.store.metadata) :
    Ordered X c s' (.releasing blob hashes by_ :: rest) := by
  have dropped : Ordered X c s ([] ++ rest) := ordered.calm rfl (List.forall_mem_nil _)
  have ids_eq : ids s' (.releasing blob hashes by_ :: rest) = ids s rest := by
    rw [ids, ids, sessions, metadata]
    rfl
  constructor
  · rw [ids_eq]
    exact dropped.distinct
  · rw [ids_eq, issued]
    exact dropped.issued
  · exact List.nodup_cons.mpr ⟨alone, dropped.apart⟩
  · rw [metadata]
    exact List.forall_mem_cons.mpr ⟨List.mem_map_of_mem stored, dropped.stored⟩
  · exact List.forall_mem_cons.mpr ⟨trivial, dropped.placed⟩

/-- A blob is stored under an identifier that nothing else has. -/
theorem Ordered.putMetadata_eq (blob : BlobMetadata) (draws : task.draws = [blob.id]) :
    (s.store.putMetadata blob).metadata = s.store.metadata ++ [blob] := by
  have distinct := ordered.distinct
  rw [ids, List.flatMap_cons, draws, List.append_assoc, List.singleton_append, List.nodup_cons] at distinct
  rw [Store.putMetadata, List.filter_eq_self.mpr]
  intro other stored
  rw [bne_iff_ne]
  intro same
  refine distinct.1 (List.mem_append_right _ (List.mem_append_right _ ?_))
  rw [← same]
  exact List.mem_map_of_mem stored

theorem Ordered.put (blob : BlobMetadata) {draft : Draft} (draws : task.draws = [blob.id]) :
    Ordered X c { s with store := s.store.putMetadata blob } (.counting draft :: rest) := by
  have metadata := ordered.putMetadata_eq blob draws
  refine ordered.fewer ?_ (fun _ => id) ?_ ?_ ?_
  · simp only [ids, metadata, List.flatMap_cons, draws, List.map_append, List.map_cons, List.map_nil]
    refine List.Perm.subperm ?_
    show (rest.flatMap Task.draws ++ (_ ++ (_ ++ [blob.id]))).Perm
      (blob.id :: rest.flatMap Task.draws ++ (_ ++ _))
    rw [← List.append_assoc, ← List.append_assoc, ← List.append_assoc, List.cons_append]
    exact List.perm_append_singleton _ _
  · rw [List.flatMap_cons, List.flatMap_cons]
    exact (List.sublist_append_right _ _).subperm
  · simp only [metadata, List.map_append, List.mem_append]
    exact fun _ _ stored => .inl stored
  · exact List.forall_mem_cons.mpr
      ⟨trivial, fun t member => ordered.placed t (.tail _ member)⟩

theorem Ordered.delete {id : Text} (draws : task.draws = [])
    (victim : task.victim = [id]) (nextDraws : next.flatMap Task.draws = [])
    (nextVictim : next.flatMap Task.victim = []) (placed : ∀ t ∈ next, t.Placed X c) :
    Ordered X c { s with store := s.store.deleteMetadata id } (next ++ rest) := by
  have apart := ordered.apart
  rw [List.flatMap_cons, victim, List.singleton_append, List.nodup_cons] at apart
  refine ordered.fewer ?_ (fun _ member => member) ?_ ?_ ?_
  · rw [ids, ids, List.flatMap_append, nextDraws, List.flatMap_cons, draws]
    exact (((List.filter_sublist.map _).append_left _).append_left _).subperm
  · rw [List.flatMap_append, nextVictim, List.flatMap_cons]
    exact (List.sublist_append_right _ _).subperm
  · rw [List.flatMap_append, nextVictim, List.nil_append]
    intro other member stored
    obtain ⟨blob, kept, rfl⟩ := List.mem_map.mp stored
    refine List.mem_map_of_mem (List.mem_filter.mpr ⟨kept, ?_⟩)
    rw [bne_iff_ne]
    exact fun same => apart.1 (same ▸ member)
  · exact List.forall_mem_append.mpr
      ⟨placed, fun t member => ordered.placed t (.tail _ member)⟩

end

end

section

variable {X : Extern} {c : BlobConfig} {s : Blobs} {rest : List Task} {now : Int} {ok : Bool}

theorem After.placed_next (after : After) : after.next.Placed X c := by cases after <;> trivial

/-- What the collector does next: it begins a deletion, goes on, or ends. -/
theorem visitStep_cases (s : Blobs) (sweep : Sweep) :
    (∃ blob ∈ Task.begins s (.visiting sweep), ∃ more,
      s.visitStep sweep = ({ s with expired := blob.id :: s.expired },
        some (.releasing blob blob.chunkHashes (.sweep more)))) ∨
    (∃ more, s.visitStep sweep = (s, some (.visiting more))) ∨ s.visitStep sweep = (s, none) := by
  obtain ⟨now, ids, nameSpaces⟩ := sweep
  cases ids with
  | nil =>
    cases nameSpaces with
    | nil => exact .inr (.inr rfl)
    | cons ns nameSpaces => exact .inr (.inl ⟨_, rfl⟩)
  | cons id ids =>
    cases found : s.store.getMetadata id with
    | none => exact .inr (.inl ⟨⟨now, ids, nameSpaces⟩, by simp only [Blobs.visitStep, found]⟩)
    | some blob =>
      cases expiry : blob.expiresAt with
      | none => exact .inr (.inl ⟨⟨now, ids, nameSpaces⟩, by simp only [Blobs.visitStep, found, expiry]⟩)
      | some at_ =>
        by_cases past : at_ ≤ now
        · refine .inl ⟨blob, ?_, ⟨now, ids, nameSpaces⟩, ?_⟩
          · simp [Task.begins, found, expiry, past]
          · simp only [Blobs.visitStep, found, expiry, if_pos past]
        · refine .inr (.inl ⟨⟨now, ids, nameSpaces⟩, ?_⟩)
          simp only [Blobs.visitStep, found, expiry, if_neg past]

theorem begins_stored {task : Task} {blob : BlobMetadata} (begins : blob ∈ task.begins s) :
    blob ∈ s.store.metadata := by
  cases task with
  | deleting id => exact (getMetadata_eq_some begins).1
  | visiting sweep =>
    obtain ⟨found, -⟩ := Option.filter_eq_some_iff.mp begins
    obtain ⟨id, -, found⟩ := Option.bind_eq_some_iff.mp found
    exact (getMetadata_eq_some found).1
  | _ => exact absurd begins (Option.not_mem_none blob)

theorem begins_visiting {sweep : Sweep} {blob : BlobMetadata} (begins : blob ∈ Task.begins s (.visiting sweep)) :
    blob.expiresAt ≠ none := by
  obtain ⟨-, past⟩ := Option.filter_eq_some_iff.mp begins
  intro never
  rw [never] at past
  cases past

/-- **A step** keeps the identifiers apart. -/
theorem ordered_step {task : Task} (ordered : Ordered X c s (task :: rest)) (alone : task.Alone s rest)
    (now : Int) (ok : Bool) :
    Ordered X c (s.taskStep X c now ok task).1 ((s.taskStep X c now ok task).2.toList ++ rest) := by
  have placed : task.Placed X c := ordered.placed task (.head _)
  have stays (t : Task) (fits : t.Placed X c) : ∀ x ∈ [t], x.Placed X c := by
    simpa using fits
  have gone : ∀ x ∈ ([] : List Task), x.Placed X c := by simp
  cases task with
  | ensuring ns after =>
    by_cases known : ns ∈ s.store.namespaces
    · simp only [Blobs.taskStep, if_pos known]
      refine ordered.turn ?_ ?_ rfl rfl rfl (stays _ after.placed_next)
      · cases after <;> exact .refl _
      · cases after <;> exact .refl _
    · simp only [Blobs.taskStep, if_neg known]
      exact ordered.turn (.refl _) (List.nil_sublist _) rfl rfl rfl (stays _ trivial)
  | founding ns after =>
    refine ordered.turn ?_ ?_ rfl rfl rfl (stays _ after.placed_next)
    · cases after <;> exact .refl _
    · cases after <;> exact .refl _
  | opening id session =>
    refine ordered.fewer ?_ (fun _ member => member) (.refl _) (fun _ _ stored => stored) ?_
    · exact List.perm_middle.subperm
    · exact fun t member => ordered.placed t (.tail _ member)
  | checking draft =>
    simp only [Blobs.taskStep]
    cases s.quotas.checkQuota draft.nameSpace draft.data.length with
    | error _ => exact ordered.calm rfl gone
    | ok _ =>
      cases parts : split c.chunkSize draft.data with
      | none => exact ordered.calm rfl (stays _ trivial)
      | some chunks =>
        refine ordered.turn (.refl _) (List.nil_sublist _) rfl rfl rfl (stays _ ?_)
        refine ⟨⟨chunks, parts⟩, ?_, ?_⟩
        · rw [Draft.hashes, parts, List.map_map]
          exact List.suffix_refl _
        · simp
  | spinning => exact ordered.calm rfl (stays _ trivial)
  | recording draft left =>
    cases left with
    | nil =>
      cases ok with
      | true => exact ordered.put (draft.metadata X c) rfl
      | false => exact ordered.calm rfl gone
    | cons p left =>
      obtain ⟨chunk, hash⟩ := p
      obtain ⟨parts, suffix, hashed⟩ := placed
      simp only [Blobs.taskStep, Blobs.storeStep]
      cases (s.table.recordChunk hash now).1 with
      | true =>
        refine ordered.turn (.refl _) (List.nil_sublist _) rfl rfl rfl (stays _ ?_)
        exact ⟨parts, (List.suffix_cons _ _).trans suffix, (List.forall_mem_cons.mp hashed).2⟩
      | false =>
        exact ordered.turn (.refl _) (List.nil_sublist _) rfl rfl rfl
          (stays _ ⟨parts, suffix, hashed⟩)
  | putting draft chunk hash left =>
    obtain ⟨parts, suffix, hashed⟩ := placed
    cases ok with
    | true =>
      refine ordered.turn (.refl _) (List.nil_sublist _) rfl rfl rfl (stays _ ?_)
      exact ⟨parts, (List.suffix_cons _ _).trans suffix, (List.forall_mem_cons.mp hashed).2⟩
    | false => exact ordered.calm rfl gone
  | counting draft => exact ordered.calm rfl gone
  | deleting id =>
    simp only [Blobs.taskStep]
    cases found : s.store.getMetadata id with
    | none => exact ordered.calm rfl gone
    | some blob => exact ordered.begin (getMetadata_eq_some found).1 (alone blob found) rfl rfl rfl
  | releasing blob left by_ =>
    cases left with
    | nil =>
      cases by_ with
      | caller =>
        cases ok with
        | true => exact ordered.delete rfl rfl rfl rfl (stays _ trivial)
        | false => exact ordered.calm rfl gone
      | sweep more =>
        cases ok with
        | true => exact ordered.delete rfl rfl rfl rfl (stays _ trivial)
        | false => exact ordered.calm rfl (stays _ trivial)
    | cons hash left =>
      simp only [Blobs.taskStep, Blobs.releaseStep]
      split <;> exact ordered.turn (List.nil_sublist _) (List.Sublist.refl _) rfl rfl rfl (stays _ trivial)
  | removing blob hash left by_ =>
    cases by_ with
    | caller =>
      cases ok with
      | true => exact ordered.turn (List.nil_sublist _) (.refl _) rfl rfl rfl (stays _ trivial)
      | false => exact ordered.calm rfl gone
    | sweep more =>
      cases ok with
      | true | false =>
        exact ordered.turn (List.nil_sublist _) (.refl _) rfl rfl rfl (stays _ trivial)
  | dropping blob hash left sweep =>
    exact ordered.turn (List.nil_sublist _) (.refl _) rfl rfl rfl (stays _ trivial)
  | uncounting blob => exact ordered.calm rfl gone
  | collecting => exact ordered.calm rfl (stays _ trivial)
  | sweeping hashes =>
    cases hashes with
    | nil => exact ordered.calm rfl (stays _ trivial)
    | cons hash hashes =>
      cases ok with
      | true | false => exact ordered.calm rfl (stays _ trivial)
  | untracking hash hashes => exact ordered.calm rfl (stays _ trivial)
  | listing => exact ordered.calm rfl (stays _ trivial)
  | visiting sweep =>
    simp only [Blobs.taskStep]
    rcases visitStep_cases s sweep with ⟨blob, begins, more, goes⟩ | ⟨more, goes⟩ | goes
    · rw [goes]
      exact ordered.begin (begins_stored begins) (alone blob begins) rfl rfl rfl
    · rw [goes]
      exact ordered.calm rfl (stays _ trivial)
    · rw [goes]
      exact ordered.calm rfl gone

end

/-! ## The story -/

section

variable {X : Extern} {c : BlobConfig} {s s' : Blobs} {task : Task} {tasks rest next : List Task} {now : Int}
  {ok : Bool}

/-- What becomes of the stored blobs: each is stored with the same content, or deleted, or
expired. -/
def Follows (s s' : Blobs) : Prop :=
  (∀ id ∈ s.deleted, id ∈ s'.deleted) ∧ (∀ id ∈ s.expired, id ∈ s'.expired) ∧
    ∀ blob ∈ s.store.metadata, blob.id ∈ s'.deleted ∨ blob.id ∈ s'.expired ∨
      ∃ other ∈ s'.store.metadata, other.id = blob.id ∧ other.sha256 = blob.sha256 ∧
        other.chunkHashes = blob.chunkHashes

theorem Told.follow {id : Text} {data : Bytes} (told : Told X c s id data) (follows : Follows s s') :
    Told X c s' id data := by
  obtain ⟨deleted, expired, stored⟩ := follows
  rcases told with was | was | ⟨blob, member, rfl, sha, chunks, parts, hashes⟩
  · exact .inl (deleted id was)
  · exact .inr (.inl (expired id was))
  · rcases stored blob member with now | now | ⟨other, there, sameId, sameSha, sameHashes⟩
    · exact .inl now
    · exact .inr (.inl now)
    · exact .inr (.inr ⟨other, there, sameId, sameSha.trans sha, chunks, parts, sameHashes.trans hashes⟩)

theorem follows_of_metadata (deleted : ∀ id ∈ s.deleted, id ∈ s'.deleted)
    (expired : ∀ id ∈ s.expired, id ∈ s'.expired)
    (metadata : ∀ blob ∈ s.store.metadata, blob ∈ s'.store.metadata) : Follows s s' :=
  ⟨deleted, expired, fun blob member => .inr (.inr ⟨blob, metadata blob member, rfl, rfl, rfl⟩)⟩

/-- A step that begins nothing. -/
theorem Story.turn (story : Story X c s (task :: rest)) (follows : Follows s s')
    (created : ∀ e ∈ s'.created, e ∈ s.created ∨ Told X c s' e.1 e.2)
    (counting : ∀ draft, .counting draft ∈ next → Told X c s' draft.id draft.data)
    (deleting : ∀ id, .deleting id ∉ next)
    (victims : ∀ id ∈ next.flatMap Task.victim, id ∈ task.victim ∨ id ∈ s'.deleted ∨ id ∈ s'.expired) :
    Story X c s' (next ++ rest) where
  created e member := (created e member).elim (fun was => (story.created e was).follow follows) id
  counting draft member := by
    rcases List.mem_append.mp member with here | there
    · exact counting draft here
    · exact (story.counting draft (.tail _ there)).follow follows
  deleting id member := by
    rcases List.mem_append.mp member with here | there
    · exact absurd here (deleting id)
    · exact follows.1 id (story.deleting id (.tail _ there))
  victims id member := by
    have kept (was : id ∈ (task :: rest).flatMap Task.victim) : id ∈ s'.deleted ∨ id ∈ s'.expired :=
      (story.victims id was).imp (follows.1 id) (follows.2.1 id)
    rw [List.flatMap_append, List.mem_append] at member
    rcases member with here | there
    · rcases victims id here with was | now
      · exact kept (by rw [List.flatMap_cons]; exact List.mem_append_left _ was)
      · exact now
    · exact kept (by rw [List.flatMap_cons]; exact List.mem_append_right _ there)

/-- A step that touches no metadata, and returns nothing. -/
theorem Story.quiet (story : Story X c s (task :: rest)) (deleted : s'.deleted = s.deleted)
    (expired : s'.expired = s.expired) (created : s'.created = s.created)
    (metadata : s'.store.metadata = s.store.metadata) (counting : ∀ draft, .counting draft ∉ next)
    (deleting : ∀ id, .deleting id ∉ next) (victims : ∀ id ∈ next.flatMap Task.victim, id ∈ task.victim) :
    Story X c s' (next ++ rest) := by
  refine story.turn ?_ ?_ ?_ deleting fun id member => .inl (victims id member)
  · refine follows_of_metadata ?_ ?_ ?_
    · rw [deleted]
      exact fun _ => id
    · rw [expired]
      exact fun _ => id
    · rw [metadata]
      exact fun _ => id
  · rw [created]
    exact fun _ member => .inl member
  · exact fun draft member => absurd member (counting draft)

end

/-! ## What a step can do -/

section

variable (X : Extern) (c : BlobConfig)

/-- Nothing is stored, counted or taken out, and no deletion begins. -/
structure Quiet (s : Blobs) (task : Task) (s' : Blobs) (next : List Task) : Prop where
  metadata : s'.store.metadata = s.store.metadata
  chunks : s'.store.chunks = s.store.chunks
  table : s'.table = s.table
  quotas : s'.quotas = s.quotas
  created : s'.created = s.created
  deleted : s'.deleted = s.deleted
  expired : s'.expired = s.expired
  plain : ∀ t ∈ next, (∀ draft, t ≠ .counting draft) ∧ (∀ id, t ≠ .deleting id) ∧ ∀ blob, t ≠ .uncounting blob
  idle : task.charges = none ∧ task.doomed = [] ∧ ∀ blob, task ≠ .uncounting blob
  charges : ∀ t ∈ next, t.doomed = [] ∧ ∀ draft ∈ t.charges,
    task = .checking draft ∧ s.quotas.checkQuota draft.nameSpace draft.data.length = .ok ()
  victim : next.flatMap Task.victim = task.victim
  holds : next.flatMap (Task.holds X c) = task.holds X c
  puts : next.flatMap Task.puts = task.puts
  dying : ∀ hash ∈ next.flatMap Task.dying, hash ∈ task.dying

/-- What a step of a task does when the calls of the store succeed. -/
inductive Effect (s : Blobs) (now : Int) : Task → Blobs → List Task → Prop where
  | quiet {task : Task} {s' : Blobs} {next : List Task} (quiet : Quiet X c s task s' next) :
      Effect s now task s' next
  | retain (draft : Draft) (chunk : Bytes) (hash : Hash) (rest : List (Bytes × Hash)) (record : ChunkRecord)
      (known : s.table[hash]? = some record) :
      Effect s now (.recording draft ((chunk, hash) :: rest))
        { s with table := s.table.insert hash { record with refCount := record.refCount + 1 } }
        [.recording draft rest]
  | acquire (draft : Draft) (chunk : Bytes) (hash : Hash) (rest : List (Bytes × Hash))
      (unknown : s.table[hash]? = none) :
      Effect s now (.recording draft ((chunk, hash) :: rest))
        { s with table := s.table.insert hash ⟨1, now⟩ } [.putting draft chunk hash rest]
  | put (draft : Draft) (chunk : Bytes) (hash : Hash) (rest : List (Bytes × Hash)) :
      Effect s now (.putting draft chunk hash rest) { s with store := s.store.putChunk hash chunk }
        [.recording draft rest]
  | store (draft : Draft) :
      Effect s now (.recording draft []) { s with store := s.store.putMetadata (draft.metadata X c) }
        [.counting draft]
  | count (draft : Draft) :
      Effect s now (.counting draft)
        { s with
          quotas := s.quotas.incrementUsage draft.nameSpace draft.data.length
          created := (draft.id, draft.data) :: s.created } []
  | begin {task : Task} (blob : BlobMetadata) (by_ : Deleter) (s' : Blobs) (begins : blob ∈ task.begins s)
      (same : s' = s ∧ task = .deleting blob.id ∨
        s' = { s with expired := blob.id :: s.expired } ∧ blob.expiresAt ≠ none) :
      Effect s now task s' [.releasing blob blob.chunkHashes by_]
  | release (blob : BlobMetadata) (hash : Hash) (rest : List Hash) (by_ : Deleter) :
      Effect s now (.releasing blob (hash :: rest) by_) { s with table := (s.table.releaseChunk hash).2 }
        [if (s.table.releaseChunk hash).1 = 0 then .removing blob hash rest by_ else .releasing blob rest by_]
  | remove {task next : Task} (hash : Hash) (dies : hash ∈ task.dying) (victim : next.victim = task.victim)
      (doomed : next.doomed = task.doomed) (charges : next.charges = none)
      (holds : next.holds X c = task.holds X c) (puts : next.puts = []) (was : task.puts = [])
      (plain : (∀ draft, next ≠ .counting draft) ∧ (∀ id, next ≠ .deleting id) ∧ ∀ blob, next ≠ .uncounting blob)
      (less : ∀ h ∈ next.dying, h ∈ task.dying) :
      Effect s now task { s with store := s.store.deleteChunk hash } [next]
  | forget {task next : Task} (hash : Hash) (dies : hash ∈ task.dying) (victim : next.victim = task.victim)
      (doomed : next.doomed = task.doomed) (charges : next.charges = none)
      (holds : next.holds X c = task.holds X c) (puts : next.puts = []) (was : task.puts = [])
      (plain : (∀ draft, next ≠ .counting draft) ∧ (∀ id, next ≠ .deleting id) ∧ ∀ blob, next ≠ .uncounting blob)
      (less : ∀ h ∈ next.dying, h ∈ task.dying) :
      Effect s now task { s with table := s.table.erase hash } [next]
  | delete (blob : BlobMetadata) :
      Effect s now (.releasing blob [] .caller) { s with store := s.store.deleteMetadata blob.id }
        [.uncounting blob]
  | purge (blob : BlobMetadata) (sweep : Sweep) :
      Effect s now (.releasing blob [] (.sweep sweep)) { s with store := s.store.deleteMetadata blob.id }
        [.visiting sweep]
  | uncount (blob : BlobMetadata) :
      Effect s now (.uncounting blob)
        { s with quotas := s.quotas.decrementUsage blob.nameSpace blob.size } []
  | collect : Effect s now .collecting s [.sweeping (s.table.collectUnreferenced c.gcGracePeriodSecs now)]

end

section

variable {X : Extern} {c : BlobConfig} {s : Blobs} {task : Task} {now : Int}

theorem Draft.recorded_all (draft : Draft) : draft.recorded X c (draft.hashes X c).length = [] := by
  rw [Draft.recorded, Nat.sub_self, List.take_zero]

theorem Draft.recorded_none (draft : Draft) : draft.recorded X c 0 = draft.hashes X c := by
  rw [Draft.recorded, Nat.sub_zero, List.take_length]

theorem Draft.recorded_cons {draft : Draft} {hash : Hash} {left : List Hash}
    (suffix : hash :: left <:+ draft.hashes X c) :
    draft.recorded X c left.length = draft.recorded X c (left.length + 1) ++ [hash] := by
  obtain ⟨front, all⟩ := suffix
  have size : (draft.hashes X c).length = front.length + (left.length + 1) := by
    rw [← all, List.length_append, List.length_cons]
  rw [Draft.recorded, Draft.recorded, size, Nat.add_sub_cancel, ← Nat.add_assoc, Nat.add_right_comm,
    Nat.add_sub_cancel, ← all, List.take_left, List.take_append]
  simp [List.take_of_length_le]

/-- A step that changes nothing the quiet ones leave. -/
theorem quiet_of_next {next : List Task} (victim : next.flatMap Task.victim = task.victim)
    (holds : next.flatMap (Task.holds X c) = task.holds X c) (puts : next.flatMap Task.puts = task.puts)
    (dying : ∀ hash ∈ next.flatMap Task.dying, hash ∈ task.dying)
    (plain : ∀ t ∈ next, (∀ draft, t ≠ .counting draft) ∧ (∀ id, t ≠ .deleting id) ∧
      ∀ blob, t ≠ .uncounting blob) (idle : task.charges = none ∧ task.doomed = [] ∧ ∀ blob, task ≠ .uncounting blob)
    (charges : ∀ t ∈ next, t.doomed = [] ∧ ∀ draft ∈ t.charges,
      task = .checking draft ∧ s.quotas.checkQuota draft.nameSpace draft.data.length = .ok ()) :
    Quiet X c s task s next :=
  ⟨rfl, rfl, rfl, rfl, rfl, rfl, rfl, plain, idle, charges, victim, holds, puts, dying⟩

theorem step_effect (X : Extern) (c : BlobConfig) (s : Blobs) (now : Int) (task : Task) :
    Effect X c s now task (s.taskStep X c now true task).1 (s.taskStep X c now true task).2.toList := by
  have none {hash : Hash} : hash ∈ ([] : List Hash) → hash ∈ task.dying := fun absent =>
    nomatch absent
  cases task with
  | ensuring ns after =>
    by_cases known : ns ∈ s.store.namespaces
    · simp only [Blobs.taskStep, if_pos known]
      refine .quiet (quiet_of_next ?_ ?_ ?_ ?_ ?_ ⟨rfl, rfl, by simp⟩ ?_) <;> cases after <;>
        simp [After.next, Task.victim, Task.holds, Task.puts, Task.dying, Task.charges, Task.doomed]
    · simp only [Blobs.taskStep, if_neg known]
      exact .quiet (quiet_of_next rfl rfl rfl (fun _ => none) (by simp) ⟨rfl, rfl, by simp⟩
          (by simp [Task.charges, Task.doomed]))
  | founding ns after =>
    refine .quiet ⟨rfl, rfl, rfl, rfl, rfl, rfl, rfl, ?_, ⟨rfl, rfl, by simp⟩, ?_, ?_, ?_, ?_, ?_⟩ <;>
      cases after <;>
      simp [Blobs.taskStep, After.next, Task.victim, Task.holds, Task.puts, Task.dying, Task.charges, Task.doomed]
  | opening id session =>
    exact .quiet ⟨rfl, rfl, rfl, rfl, rfl, rfl, rfl, by simp [Blobs.taskStep], ⟨rfl, rfl, by simp⟩,
      by simp [Blobs.taskStep], rfl, rfl, rfl, fun _ => none⟩
  | checking draft =>
    simp only [Blobs.taskStep]
    cases checked : s.quotas.checkQuota draft.nameSpace draft.data.length with
    | error _ => exact .quiet (quiet_of_next rfl rfl rfl (fun _ => none) (by simp) ⟨rfl, rfl, by simp⟩
          (by simp [Task.charges, Task.doomed]))
    | ok _ =>
      cases parts : split c.chunkSize draft.data with
      | none => exact .quiet (quiet_of_next rfl rfl rfl (fun _ => none) (by simp) ⟨rfl, rfl, by simp⟩
        (by simp [Task.charges, Task.doomed]))
      | some chunks =>
        refine .quiet (quiet_of_next rfl ?_ rfl (fun _ => none) (by simp) ⟨rfl, rfl, by simp⟩ ?_)
        have size : (chunks.map fun chunk => (chunk, X.hash chunk)).length = (draft.hashes X c).length := by
          simp [Draft.hashes, parts]
        have begins : draft.recorded X c (chunks.map fun chunk => (chunk, X.hash chunk)).length = [] := by
          rw [size, Draft.recorded_all]
        · simpa [Task.holds] using begins
        · simp [Task.charges, Task.doomed, checked]
  | spinning => exact .quiet (quiet_of_next rfl rfl rfl (fun _ => none) (by simp [Blobs.taskStep]) ⟨rfl, rfl, by simp⟩
            (by simp [Blobs.taskStep, Task.charges, Task.doomed]))
  | recording draft left =>
    cases left with
    | nil => exact .store draft
    | cons p left =>
      obtain ⟨chunk, hash⟩ := p
      simp only [Blobs.taskStep, Blobs.storeStep]
      cases known : s.table[hash]? with
      | none =>
        rw [Table.recordChunk_of_none known]
        exact .acquire draft chunk hash left known
      | some record =>
        rw [Table.recordChunk_of_some known]
        exact .retain draft chunk hash left record known
  | putting draft chunk hash left => exact .put draft chunk hash left
  | counting draft => exact .count draft
  | deleting id =>
    simp only [Blobs.taskStep]
    cases found : s.store.getMetadata id with
    | none => exact .quiet (quiet_of_next rfl rfl rfl (fun _ => none) (by simp) ⟨rfl, rfl, by simp⟩
          (by simp [Task.charges, Task.doomed]))
    | some blob =>
      exact .begin blob .caller s found (.inl ⟨rfl, by rw [(getMetadata_eq_some found).2]⟩)
  | releasing blob left by_ =>
    cases left with
    | nil =>
      cases by_ with
      | caller => exact .delete blob
      | sweep more => exact .purge blob more
    | cons hash left => exact .release blob hash left by_
  | removing blob hash left by_ =>
    cases by_ with
    | caller =>
      exact .remove hash (.head _) rfl rfl rfl rfl rfl rfl (by simp) fun _ => none
    | sweep more =>
      exact .remove hash (.head _) rfl rfl rfl rfl rfl rfl (by simp) fun _ => id
  | dropping blob hash left sweep =>
    exact .forget hash (.head _) rfl rfl rfl rfl rfl rfl (by simp) fun _ => none
  | uncounting blob => exact .uncount blob
  | collecting => exact .collect
  | sweeping hashes =>
    cases hashes with
    | nil => exact .quiet (quiet_of_next rfl rfl rfl (fun _ => none) (by simp [Blobs.taskStep]) ⟨rfl, rfl, by simp⟩
          (by simp [Blobs.taskStep, Task.charges, Task.doomed]))
    | cons hash hashes =>
      exact .remove hash (.head _) rfl rfl rfl rfl rfl rfl (by simp) fun _ => id
  | untracking hash hashes =>
    exact .forget hash (.head _) rfl rfl rfl rfl rfl rfl (by simp) fun _ => .tail _
  | listing => exact .quiet (quiet_of_next rfl rfl rfl (fun _ => none) (by simp [Blobs.taskStep]) ⟨rfl, rfl, by simp⟩
            (by simp [Blobs.taskStep, Task.charges, Task.doomed]))
  | visiting sweep =>
    simp only [Blobs.taskStep]
    rcases visitStep_cases s sweep with ⟨blob, begins, more, goes⟩ | ⟨more, goes⟩ | goes
    · rw [goes]
      exact .begin blob (.sweep more) _ begins (.inr ⟨rfl, begins_visiting begins⟩)
    · rw [goes]
      exact .quiet (quiet_of_next rfl rfl rfl (fun _ => none) (by simp) ⟨rfl, rfl, by simp⟩
          (by simp [Task.charges, Task.doomed]))
    · rw [goes]
      exact .quiet (quiet_of_next rfl rfl rfl (fun _ => none) (by simp) ⟨rfl, rfl, by simp⟩
          (by simp [Task.charges, Task.doomed]))

theorem follows_delete {id : Text} (asked : id ∈ s.deleted ∨ id ∈ s.expired) :
    Follows s { s with store := s.store.deleteMetadata id } := by
  refine ⟨fun _ member => member, fun _ member => member, fun blob member => ?_⟩
  by_cases here : blob.id = id
  · rw [here]
    exact asked.imp_right .inl
  · refine .inr (.inr ⟨blob, List.mem_filter.mpr ⟨member, ?_⟩, rfl, rfl, rfl⟩)
    rwa [bne_iff_ne]

/-- **A step** goes on with the story. -/
theorem story_step {rest : List Task} (ordered : Ordered X c s (task :: rest))
    (story : Story X c s (task :: rest)) :
    Story X c (s.taskStep X c now true task).1 ((s.taskStep X c now true task).2.toList ++ rest) := by
  have placed : task.Placed X c := ordered.placed task (.head _)
  have effect := step_effect X c s now task
  revert effect
  generalize (s.taskStep X c now true task).1 = s'
  generalize (s.taskStep X c now true task).2.toList = next
  rintro (quiet | ⟨draft, chunk, hash, left, record, -⟩ | ⟨draft, chunk, hash, left, -⟩ |
    ⟨draft, chunk, hash, left⟩ | ⟨draft⟩ | ⟨draft⟩ | ⟨blob, by_, _, begins, same⟩ | ⟨blob, hash, left, by_⟩ |
    ⟨hash, -, victim, -, -, -, -, -, plain, -⟩ | ⟨hash, -, victim, -, -, -, -, -, plain, -⟩ | ⟨blob⟩ | ⟨blob, sweep⟩ |
    ⟨blob⟩ | _)
  · exact story.quiet quiet.deleted quiet.expired quiet.created quiet.metadata
      (fun draft member => (quiet.plain _ member).1 draft rfl)
      (fun id member => (quiet.plain _ member).2.1 id rfl)
      (fun id member => quiet.victim ▸ member)
  · exact story.quiet rfl rfl rfl rfl (by simp) (by simp) (by simp [Task.victim])
  · exact story.quiet rfl rfl rfl rfl (by simp) (by simp) (by simp [Task.victim])
  · exact story.quiet rfl rfl rfl rfl (by simp) (by simp) (by simp [Task.victim])
  · -- the blob is stored with its content
    have metadata := ordered.putMetadata_eq (draft.metadata X c) rfl
    have follows : Follows s { s with store := s.store.putMetadata (draft.metadata X c) } :=
      follows_of_metadata (fun _ => id) (fun _ => id) (by
        rw [metadata]
        exact fun _ member => List.mem_append_left _ member)
    refine story.turn follows (fun _ member => .inl member) ?_ (by simp) (by simp [Task.victim])
    intro other member
    obtain rfl : other = draft := by simpa using member
    obtain ⟨⟨chunks, parts⟩, -⟩ := placed
    refine .inr (.inr ⟨other.metadata X c, ?_, rfl, rfl, chunks, parts, ?_⟩)
    · rw [metadata]
      exact List.mem_append_right _ (.head _)
    · show other.hashes X c = _
      rw [Draft.hashes, parts]
      rfl
  · -- the creation returns
    have told := story.counting draft (.head _)
    refine story.turn (follows_of_metadata (fun _ => id) (fun _ => id)
      fun _ => id) ?_ (by simp) (by simp) (by simp)
    intro e member
    rcases List.mem_cons.mp member with rfl | before
    · exact .inr told
    · exact .inl before
  · -- the blob is to be deleted, or is expired
    rcases same with ⟨rfl, rfl⟩ | ⟨rfl, -⟩
    · refine story.turn (follows_of_metadata (fun _ => id) (fun _ => id)
        fun _ => id) (fun _ member => .inl member) (by simp) (by simp) fun id member => ?_
      obtain rfl : id = blob.id := by simpa [Task.victim] using member
      exact .inr (.inl (story.deleting blob.id (.head _)))
    · refine story.turn (follows_of_metadata (fun _ => id)
        (fun _ member => .tail _ member) fun _ => id)
        (fun _ member => .inl member) (by simp) (by simp) fun id member => ?_
      obtain rfl : id = blob.id := by simpa [Task.victim] using member
      exact .inr (.inr (.head _))
  · split <;> exact story.quiet rfl rfl rfl rfl (by simp) (by simp) (by simp [Task.victim])
  · refine story.quiet rfl rfl rfl rfl (fun draft member => ?_) (fun id member => ?_) (by simp [victim])
    · exact plain.1 draft (List.mem_singleton.mp member).symm
    · exact plain.2.1 id (List.mem_singleton.mp member).symm
  · refine story.quiet rfl rfl rfl rfl (fun draft member => ?_) (fun id member => ?_) (by simp [victim])
    · exact plain.1 draft (List.mem_singleton.mp member).symm
    · exact plain.2.1 id (List.mem_singleton.mp member).symm
  · exact story.turn (follows_delete (story.victims blob.id (by simp [Task.victim])))
      (fun _ member => .inl member) (by simp) (by simp) (by simp [Task.victim])
  · exact story.turn (follows_delete (story.victims blob.id (by simp [Task.victim])))
      (fun _ member => .inl member) (by simp) (by simp) (by simp [Task.victim])
  · exact story.quiet rfl rfl rfl rfl (by simp) (by simp) (by simp)
  · exact story.quiet rfl rfl rfl rfl (by simp) (by simp) (by simp [Task.victim])

end

/-! ## What a call can do -/

section

variable {X : Extern} {c : BlobConfig} {s s' : Blobs} {tasks next : List Task}

/-- A task that a call starts. -/
structure Starts (X : Extern) (c : BlobConfig) (s' : Blobs) (t : Task) : Prop where
  victim : t.victim = []
  holds : t.holds X c = []
  puts : t.puts = []
  dying : t.dying = []
  charges : t.charges = none
  plain : (∀ draft, t ≠ .counting draft) ∧ ∀ blob, t ≠ .uncounting blob
  deleting : ∀ id, t = .deleting id → id ∈ s'.deleted

/-- What a call leaves as it is. -/
structure Called (X : Extern) (c : BlobConfig) (s s' : Blobs) (next : List Task) : Prop where
  chunks : s'.store.chunks = s.store.chunks
  table : s'.table = s.table
  created : s'.created = s.created
  expired : s'.expired = s.expired
  deleted : ∀ id ∈ s.deleted, id ∈ s'.deleted
  metadata : s'.store.metadata.map (fun b => (b.id, b.nameSpace, b.size, b.sha256, b.chunkHashes)) =
    s.store.metadata.map fun b => (b.id, b.nameSpace, b.size, b.sha256, b.chunkHashes)
  starts : ∀ t ∈ next, Starts X c s' t

theorem starts_ensuring {ns : Text} {after : After} : Starts X c s' (.ensuring ns after) :=
  ⟨rfl, rfl, rfl, rfl, rfl, by simp, by simp⟩

theorem starts_ensureNamespace {ns : Text} {after : After} :
    ∀ t ∈ (ensureNamespace X ns after).toList, Starts X c s' t := by
  rcases ensureNamespace_cases (X := X) ns after with none | some
  · simp [none]
  · rw [some]
    intro t member
    rw [List.mem_singleton.mp member]
    exact starts_ensuring

theorem called (s : Blobs) (call : Call) :
    Called X c s (s.call X c call).1 (s.call X c call).2.toList := by
  have spins : ∀ t ∈ [Task.spinning], ∀ s', Starts X c s' t := by
    intro t member s'
    rw [List.mem_singleton.mp member]
    exact ⟨rfl, rfl, rfl, rfl, rfl, by simp, by simp⟩
  cases call with
  | createBlob id ns data => exact ⟨rfl, rfl, rfl, rfl, fun _ member => member, rfl, starts_ensureNamespace⟩
  | deleteBlob id =>
    refine ⟨rfl, rfl, rfl, rfl, fun _ => .tail _, rfl, fun t member => ?_⟩
    rw [List.mem_singleton.mp member]
    refine ⟨rfl, rfl, rfl, rfl, rfl, by simp, ?_⟩
    rintro _ ⟨⟩
    exact .head _
  | runGc =>
    refine ⟨rfl, rfl, rfl, rfl, fun _ => id, rfl, fun t member => ?_⟩
    rw [List.mem_singleton.mp member]
    exact ⟨rfl, rfl, rfl, rfl, rfl, by simp, by simp⟩
  | initiateUpload uploadId blobId ns totalSize =>
    exact ⟨rfl, rfl, rfl, rfl, fun _ => id, rfl, starts_ensureNamespace⟩
  | uploadPart uploadId data =>
    simp only [Blobs.call, Blobs.uploadPart]
    cases s.session uploadId with
    | none => exact ⟨rfl, rfl, rfl, rfl, fun _ => id, rfl, List.forall_mem_nil _⟩
    | some session =>
      simp only []
      split
      · exact ⟨rfl, rfl, rfl, rfl, fun _ => id, rfl, List.forall_mem_nil _⟩
      · split <;> exact ⟨rfl, rfl, rfl, rfl, fun _ => id, rfl, List.forall_mem_nil _⟩
  | completeUpload uploadId =>
    simp only [Blobs.call, Blobs.complete]
    cases s.session uploadId with
    | none => exact ⟨rfl, rfl, rfl, rfl, fun _ => id, rfl, List.forall_mem_nil _⟩
    | some session =>
      simp only []
      split
      · exact ⟨rfl, rfl, rfl, rfl, fun _ => id, rfl, List.forall_mem_nil _⟩
      · split
        · exact ⟨rfl, rfl, rfl, rfl, fun _ => id, rfl, List.forall_mem_nil _⟩
        · cases split c.chunkSize session.uploadedParts.flatten with
          | none => exact ⟨rfl, rfl, rfl, rfl, fun _ => id, rfl, fun t member => spins t member _⟩
          | some chunks =>
            exact ⟨rfl, rfl, rfl, rfl, fun _ => id, rfl, starts_ensureNamespace⟩
  | abortUpload uploadId | setNamespaceQuota ns maxBlobs maxTotalBytes =>
    exact ⟨rfl, rfl, rfl, rfl, fun _ => id, rfl, List.forall_mem_nil _⟩
  | rewrite id expiresAt =>
    refine ⟨rfl, rfl, rfl, rfl, fun _ member => member, ?_, List.forall_mem_nil _⟩
    simp only [Blobs.call, List.map_map]
    refine List.map_congr_left fun blob _ => ?_
    simp only [Function.comp]
    split <;> rfl
  | saveDedupState =>
    exact ⟨rfl, rfl, rfl, rfl, fun _ => id, rfl, List.forall_mem_nil _⟩

theorem Called.follows (called : Called X c s s' next) : Follows s s' := by
  refine ⟨called.deleted, fun id member => called.expired ▸ member, fun blob member => .inr (.inr ?_)⟩
  have there := List.mem_map_of_mem (f := fun b : BlobMetadata => (b.id, b.nameSpace, b.size, b.sha256,
    b.chunkHashes)) member
  rw [← called.metadata] at there
  obtain ⟨other, inside, same⟩ := List.mem_map.mp there
  simp only [Prod.mk.injEq] at same
  exact ⟨other, inside, same.1, same.2.2.2.1, same.2.2.2.2⟩

theorem Called.story (called : Called X c s s' next) (story : Story X c s tasks) :
    Story X c s' (next ++ tasks) where
  created e member := (story.created e (called.created ▸ member)).follow called.follows
  counting draft member := by
    rcases List.mem_append.mp member with here | there
    · exact absurd rfl ((called.starts _ here).plain.1 draft)
    · exact (story.counting draft there).follow called.follows
  deleting id member := by
    rcases List.mem_append.mp member with here | there
    · exact (called.starts _ here).deleting id rfl
    · exact called.deleted id (story.deleting id there)
  victims id member := by
    rw [List.flatMap_append, List.mem_append] at member
    rcases member with here | there
    · obtain ⟨t, inside, isVictim⟩ := List.mem_flatMap.mp here
      rw [(called.starts t inside).victim] at isVictim
      exact nomatch isVictim
    · exact (story.victims id there).imp (called.deleted id) fun member => called.expired ▸ member

end

end NovaRuntime.Blob
