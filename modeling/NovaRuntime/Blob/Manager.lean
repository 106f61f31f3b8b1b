/-
# NovaRuntime.Blob.Manager — the blob manager as a step system

`BlobManager`, `UploadManager`, `NamespaceManager` and `GarbageCollector` of `nova_blob`.
Every operation in flight is a `Task`: the place it is at. A step is one call of the store,
of the table of references or of the quotas, and the tasks take their steps in any order;
operations one after the other are the runs in which a task starts when there is no other.
`ok` says whether the call of the store succeeds.

`saved` is `dedup_state.json`. Three lists tell the story of a run for its theorems: the
blobs whose creation returned `Ok` with their bytes, the blobs whose deletion was asked
for, and those that the collector found expired. `issued` has the identifiers drawn by
`Uuid::new_v4`, which are fresh.
-/
import NovaRuntime.Blob.Types

namespace NovaRuntime.Blob

open NovaRuntime.Library

set_option autoImplicit false

/-! ## Operations in flight -/

/-- What a creation stores. -/
structure Draft where
  id : Text
  nameSpace : Text
  data : Bytes
  deriving DecidableEq

/-- What comes after `ensure_namespace`. -/
inductive After where
  | blob (draft : Draft)
  | upload (id : Text) (session : UploadSession)
  deriving DecidableEq

/-- What `cleanup_expired_blobs` has still to visit. -/
structure Sweep where
  now : Int
  ids : List Text
  nameSpaces : List Text
  deriving DecidableEq

/-- Who deletes a blob: `delete_blob`, or the collector as it goes through all blobs. -/
inductive Deleter where
  | caller
  | sweep (rest : Sweep)
  deriving DecidableEq

inductive Task where
  | ensuring (ns : Text) (after : After)
  | founding (ns : Text) (after : After)
  | opening (id : Text) (session : UploadSession)
  | checking (draft : Draft)
  | spinning
  | recording (draft : Draft) (rest : List (Bytes × Hash))
  | putting (draft : Draft) (chunk : Bytes) (hash : Hash) (rest : List (Bytes × Hash))
  | counting (draft : Draft)
  | deleting (id : Text)
  | releasing (blob : BlobMetadata) (rest : List Hash) (by_ : Deleter)
  | removing (blob : BlobMetadata) (hash : Hash) (rest : List Hash) (by_ : Deleter)
  | dropping (blob : BlobMetadata) (hash : Hash) (rest : List Hash) (sweep : Sweep)
  | uncounting (blob : BlobMetadata)
  | collecting
  | sweeping (hashes : List Hash)
  | untracking (hash : Hash) (hashes : List Hash)
  | listing
  | visiting (sweep : Sweep)
  deriving DecidableEq

structure Blobs where
  store : Store
  table : Table
  saved : Option Table
  quotas : Quotas
  sessions : List (Text × UploadSession)
  issued : List Text
  created : List (Text × Bytes)
  deleted : List Text
  expired : List Text

def After.next : After → Task
  | .blob draft => .checking draft
  | .upload id session => .opening id session

section

variable (X : Extern) (c : BlobConfig)

def Draft.hashes (draft : Draft) : List Hash :=
  ((split c.chunkSize draft.data).getD []).map X.hash

/-- The metadata of a creation. -/
def Draft.metadata (draft : Draft) : BlobMetadata where
  id := draft.id
  nameSpace := draft.nameSpace
  size := draft.data.length
  sha256 := X.hash draft.data
  chunkHashes := draft.hashes X c
  expiresAt := none

namespace Blobs

variable (s : Blobs) (now : Int) (ok : Bool)

/-! ## One call -/

/-- A step of `create_blob` or `complete_upload` behind the quota check. -/
def storeStep (draft : Draft) : List (Bytes × Hash) → Blobs × Option Task
  | [] =>
    if ok then
      ({ s with store := s.store.putMetadata (draft.metadata X c) }, some (.counting draft))
    else (s, none)
  | (chunk, hash) :: rest =>
    let recorded := s.table.recordChunk hash now
    ({ s with table := recorded.2 },
      some (if recorded.1 then .recording draft rest else .putting draft chunk hash rest))

/-- The release of the chunks of a blob, and at last of its metadata. -/
def releaseStep (blob : BlobMetadata) (by_ : Deleter) : List Hash → Blobs × Option Task
  | [] =>
    let after : Blobs := if ok then { s with store := s.store.deleteMetadata blob.id } else s
    match by_ with
    | .caller => (after, if ok then some (.uncounting blob) else none)
    | .sweep rest => (after, some (.visiting rest))
  | hash :: rest =>
    let released := s.table.releaseChunk hash
    ({ s with table := released.2 },
      some (if released.1 = 0 then .removing blob hash rest by_ else .releasing blob rest by_))

/-- The next blob or namespace of `cleanup_expired_blobs`. -/
def visitStep (sweep : Sweep) : Blobs × Option Task :=
  match sweep.ids with
  | id :: ids =>
    match s.store.getMetadata id with
    | some blob =>
      match blob.expiresAt with
      | some at_ =>
        if at_ ≤ sweep.now then
          ({ s with expired := blob.id :: s.expired },
            some (.releasing blob blob.chunkHashes (.sweep { sweep with ids })))
        else (s, some (.visiting { sweep with ids }))
      | none => (s, some (.visiting { sweep with ids }))
    | none => (s, some (.visiting { sweep with ids }))
  | [] =>
    match sweep.nameSpaces with
    | ns :: nameSpaces => (s, some (.visiting ⟨sweep.now, s.store.listBlobs ns, nameSpaces⟩))
    | [] => (s, none)

def taskStep : Task → Blobs × Option Task
  | .ensuring ns after =>
    if ns ∈ s.store.namespaces then (s, some after.next) else (s, some (.founding ns after))
  | .founding ns after => ({ s with store := s.store.createNamespace ns }, some after.next)
  | .opening id session => ({ s with sessions := (id, session) :: s.sessions }, none)
  | .checking draft =>
    match s.quotas.checkQuota draft.nameSpace draft.data.length with
    | .error _ => (s, none)
    | .ok () =>
      match split c.chunkSize draft.data with
      | some chunks => (s, some (.recording draft (chunks.map fun chunk => (chunk, X.hash chunk))))
      | none => (s, some .spinning)
  | .spinning => (s, some .spinning)
  | .recording draft rest => s.storeStep X c now ok draft rest
  | .putting draft chunk hash rest =>
    if ok then ({ s with store := s.store.putChunk hash chunk }, some (.recording draft rest))
    else (s, none)
  | .counting draft =>
    ({ s with
        quotas := s.quotas.incrementUsage draft.nameSpace draft.data.length
        created := (draft.id, draft.data) :: s.created }, none)
  | .deleting id =>
    match s.store.getMetadata id with
    | some blob => (s, some (.releasing blob blob.chunkHashes .caller))
    | none => (s, none)
  | .releasing blob rest by_ => s.releaseStep ok blob by_ rest
  | .removing blob hash rest by_ =>
    match by_ with
    | .caller =>
      if ok then
        ({ s with store := s.store.deleteChunk hash }, some (.releasing blob rest .caller))
      else (s, none)
    | .sweep sweep =>
      if ok then
        ({ s with store := s.store.deleteChunk hash }, some (.dropping blob hash rest sweep))
      else (s, some (.releasing blob rest (.sweep sweep)))
  | .dropping blob hash rest sweep =>
    ({ s with table := s.table.erase hash }, some (.releasing blob rest (.sweep sweep)))
  | .uncounting blob =>
    ({ s with quotas := s.quotas.decrementUsage blob.nameSpace blob.size }, none)
  | .collecting => (s, some (.sweeping (s.table.collectUnreferenced c.gcGracePeriodSecs now)))
  | .sweeping [] => (s, some .listing)
  | .sweeping (hash :: hashes) =>
    if ok then ({ s with store := s.store.deleteChunk hash }, some (.untracking hash hashes))
    else (s, some (.sweeping hashes))
  | .untracking hash hashes => ({ s with table := s.table.erase hash }, some (.sweeping hashes))
  | .listing => (s, some (.visiting ⟨now, [], s.store.namespaces⟩))
  | .visiting sweep => s.visitStep sweep

end Blobs

/-! ## Calls of the manager -/

/-- What starts an operation, or is done in one step. `rewrite` is a caller of `store()` who
stores the metadata of a blob with another time of expiry. -/
inductive Call where
  | createBlob (id ns : Text) (data : Bytes)
  | deleteBlob (id : Text)
  | runGc
  | initiateUpload (uploadId blobId ns : Text) (totalSize : Nat)
  | uploadPart (uploadId : Text) (data : Bytes)
  | completeUpload (uploadId : Text)
  | abortUpload (uploadId : Text)
  | setNamespaceQuota (ns : Text) (maxBlobs maxTotalBytes : Nat)
  | rewrite (id : Text) (expiresAt : Option Int)
  | saveDedupState
  deriving DecidableEq

/-- Whether a call changes the time of expiry of a blob. -/
def Call.Rewrites : Call → Bool
  | .rewrite _ _ => true
  | _ => false

/-- `validate_namespace` and the rest of `ensure_namespace`. -/
def ensureNamespace (ns : Text) (after : After) : Option Task :=
  if validateNamespace X ns then some (.ensuring ns after) else none

def UploadSession.size (session : UploadSession) : Nat := (session.uploadedParts.map List.length).sum

namespace Blobs

def session (s : Blobs) (uploadId : Text) : Option UploadSession := s.sessions.lookup uploadId

def setSession (s : Blobs) (uploadId : Text) (f : UploadSession → UploadSession) : Blobs :=
  { s with sessions := s.sessions.map fun e => if e.1 = uploadId then (e.1, f e.2) else e }

/-- `UploadManager::upload_part`. -/
def uploadPart (s : Blobs) (uploadId : Text) (data : Bytes) : Blobs :=
  match s.session uploadId with
  | none => s
  | some session =>
    if session.aborted then s
    else if session.size + data.length > c.maxBlobSize then s
    else s.setSession uploadId fun session =>
      { session with uploadedParts := session.uploadedParts ++ [data] }

/-- `UploadManager::complete` takes the session out, and then looks at it. -/
def complete (s : Blobs) (uploadId : Text) : Blobs × Option Task :=
  match s.session uploadId with
  | none => (s, none)
  | some session =>
    let after := { s with sessions := s.sessions.filter fun e => e.1 != uploadId }
    if session.aborted then (after, none)
    else if session.size ≠ session.totalSize then (after, none)
    else
      let data := session.uploadedParts.flatten
      match split c.chunkSize data with
      | none => (after, some .spinning)
      | some _ => (after, ensureNamespace X session.nameSpace
          (.blob ⟨session.blobId, session.nameSpace, data⟩))

def call (s : Blobs) : Call → Blobs × Option Task
  | .createBlob id ns data =>
    ({ s with issued := id :: s.issued }, ensureNamespace X ns (.blob ⟨id, ns, data⟩))
  | .deleteBlob id => ({ s with deleted := id :: s.deleted }, some (.deleting id))
  | .runGc => (s, some .collecting)
  | .initiateUpload uploadId blobId ns totalSize =>
    ({ s with issued := uploadId :: blobId :: s.issued },
      ensureNamespace X ns (.upload uploadId ⟨blobId, ns, totalSize, [], false⟩))
  | .uploadPart uploadId data => (s.uploadPart c uploadId data, none)
  | .completeUpload uploadId => s.complete X c uploadId
  | .abortUpload uploadId =>
    (s.setSession uploadId fun session => { session with aborted := true }, none)
  | .setNamespaceQuota ns maxBlobs maxTotalBytes =>
    ({ s with quotas := s.quotas.setQuota ns maxBlobs maxTotalBytes }, none)
  | .rewrite id expiresAt =>
    ({ s with store := { s.store with
        metadata := s.store.metadata.map fun m => if m.id = id then { m with expiresAt } else m } }, none)
  | .saveDedupState => ({ s with saved := some s.table }, none)

end Blobs

/-! ## The machine -/

structure BlobManager where
  shared : Blobs
  tasks : List Task

namespace BlobManager

inductive Event where
  | call (call : Call)
  /-- The task of a number takes its next step. -/
  | advance (i : Nat) (now : Int) (ok : Bool)
  /-- The process ends, and `BlobManager::new` loads the saved table; what it does not find
  saved is an empty table. -/
  | restart
  deriving DecidableEq

/-- The tasks but the one of a number. -/
def others (m : BlobManager) (i : Nat) : List Task := m.tasks.eraseIdx i

def step (m : BlobManager) : Event → BlobManager
  | .call call =>
    let after := m.shared.call X c call
    ⟨after.1, after.2.toList ++ m.tasks⟩
  | .advance i now ok =>
    match m.tasks[i]? with
    | none => m
    | some task =>
      let after := m.shared.taskStep X c now ok task
      ⟨after.1, after.2.toList ++ m.others i⟩
  | .restart =>
    ⟨{ m.shared with table := m.shared.saved.getD ∅, quotas := fun _ => none, sessions := [] }, []⟩

/-- A manager on an empty directory. -/
def fresh : BlobManager where
  shared := ⟨⟨∅, [], []⟩, ∅, none, fun _ => none, [], [], [], [], []⟩
  tasks := []

end BlobManager

end

end NovaRuntime.Blob
