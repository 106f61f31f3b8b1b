/-
# NovaRuntime.Blob.Uploads — what a completion leaves behind

`BlobManager::complete_upload` from its start to its return, with an answer for every call of the store it makes.

`UploadManager::complete` takes the session out of the table before it looks at it, and nothing puts it back: no
completion of a session that fails leaves the session to be retried. One that returns has all parts of the blob
in the store if what it took for duplicates was there.
-/
import NovaRuntime.Blob.Readable
import NovaRuntime.Library.Entries

namespace NovaRuntime.Blob

open NovaRuntime.Library

set_option autoImplicit false

/-! ## The completion -/

inductive StoreCall where
  | namespaceExists (ns : Text)
  | createNamespace (ns : Text)
  | putChunk (hash : Hash)
  | putMetadata (id : Text)
  deriving DecidableEq

/-- The error of a call that fails. A completion makes no call twice: a chunk that it has put is recorded. -/
abbrev Answers := StoreCall → Option BlobError

section

variable (X : Extern) (c : BlobConfig) (answers : Answers)

def UploadSession.metadata (session : UploadSession) (chunks : List Bytes) : BlobMetadata where
  id := session.blobId
  nameSpace := session.nameSpace
  size := session.totalSize
  sha256 := X.hash session.uploadedParts.flatten
  chunkHashes := chunks.map X.hash
  expiresAt := none

/-- `UploadManager::complete`, which never returns if `split` does not. -/
def UploadManager.complete (s : Blobs) (uploadId : Text) :
    Option (Except BlobError (BlobMetadata × List Bytes) × Blobs) :=
  match s.session uploadId with
  | none => some (.error (.uploadNotFound uploadId), s)
  | some session =>
    let after := { s with sessions := s.sessions.filter fun e => e.1 != uploadId }
    if session.aborted then some (.error .internal, after)
    else if session.size ≠ session.totalSize then some (.error .internal, after)
    else
      (split c.chunkSize session.uploadedParts.flatten).map fun chunks =>
        (.ok (session.metadata X chunks, chunks), after)

def NamespaceManager.ensureNamespace (s : Blobs) (ns : Text) : Except BlobError Unit × Blobs :=
  if validateNamespace X ns then
    match answers (.namespaceExists ns) with
    | some e => (.error e, s)
    | none =>
      if ns ∈ s.store.namespaces then (.ok (), s)
      else
        match answers (.createNamespace ns) with
        | some e => (.error e, s)
        | none => (.ok (), { s with store := s.store.createNamespace ns })
  else (.error .invalidInput, s)

/-- The loop over the chunks. `now` is the time when so many are left behind one. -/
def storeChunks (now : Nat → Int) (s : Blobs) : List (Bytes × Hash) → Except BlobError Unit × Blobs
  | [] => (.ok (), s)
  | (chunk, hash) :: rest =>
    let recorded := s.table.recordChunk hash (now rest.length)
    let s := { s with table := recorded.2 }
    if recorded.1 then storeChunks now s rest
    else
      match answers (.putChunk hash) with
      | some e => (.error e, s)
      | none => storeChunks now { s with store := s.store.putChunk hash chunk } rest

/-- `BlobManager::complete_upload` behind the session; `created` is written as the machine writes it. -/
def storeUpload (now : Nat → Int) (s : Blobs) (blob : BlobMetadata) (chunks : List Bytes) :
    Except BlobError BlobMetadata × Blobs :=
  match NamespaceManager.ensureNamespace X answers s blob.nameSpace with
  | (.error e, s) => (.error e, s)
  | (.ok (), s) =>
    match s.quotas.checkQuota blob.nameSpace blob.size with
    | .error e => (.error e, s)
    | .ok () =>
      match storeChunks answers now s (chunks.zip blob.chunkHashes) with
      | (.error e, s) => (.error e, s)
      | (.ok (), s) =>
        match answers (.putMetadata blob.id) with
        | some e => (.error e, s)
        | none =>
          (.ok blob, { s with
            store := s.store.putMetadata blob
            quotas := s.quotas.incrementUsage blob.nameSpace blob.size
            created := (blob.id, chunks.flatten) :: s.created })

def completeUpload (now : Nat → Int) (s : Blobs) (uploadId : Text) :
    Option (Except BlobError BlobMetadata × Blobs) :=
  match UploadManager.complete X c s uploadId with
  | none => none
  | some (.error e, s) => some (.error e, s)
  | some (.ok (blob, chunks), s) => some (storeUpload X answers now s blob chunks)

/-! ## All or nothing -/

/-- A completion returns a blob only for a session that is there, not aborted and of the declared size, and the
blob reads back as the parts in their order. After an error the session, the blobs that are listed and the counts
are those of before. -/
def AllOrNothing (s : Blobs) (uploadId : Text) (after : Blobs) : Except BlobError BlobMetadata → Prop
  | .ok blob => ∃ session, s.session uploadId = some session ∧ session.aborted = false ∧
      session.size = session.totalSize ∧ download X after.store blob.id = .ok session.uploadedParts.flatten
  | .error _ => after.session uploadId = s.session uploadId ∧
      (∀ ns, after.store.listBlobs ns = s.store.listBlobs ns) ∧
      ∀ hash, after.table.getRefCount hash = s.table.getRefCount hash

/-- Nothing stands in the way of storing the blob of the session: no check refuses it and no call fails. -/
structure Unhindered (s : Blobs) (session : UploadSession) (chunks : List Bytes) : Prop where
  valid : validateNamespace X session.nameSpace = true
  looked : answers (.namespaceExists session.nameSpace) = none
  founded : session.nameSpace ∉ s.store.namespaces → answers (.createNamespace session.nameSpace) = none
  admitted : s.quotas.checkQuota session.nameSpace session.totalSize = .ok ()
  put : ∀ chunk ∈ chunks, s.table[X.hash chunk]? = none → answers (.putChunk (X.hash chunk)) = none
  described : answers (.putMetadata session.blobId) = none

/-- The chunks that the table knows are in the store. -/
def Backs (s : Blobs) (chunks : List Bytes) : Prop :=
  ∀ chunk ∈ chunks, s.table[X.hash chunk]? ≠ none → s.store.chunks[X.hash chunk]? = some chunk

/-- If there is the session, it can be completed. -/
def Completable (s : Blobs) (uploadId : Text) : Prop :=
  ∀ session, s.session uploadId = some session → session.aborted = false ∧ session.size = session.totalSize ∧
    ∀ chunks, split c.chunkSize session.uploadedParts.flatten = some chunks →
      Unhindered X answers s session chunks ∧ Backs X s chunks

end

section

variable {X : Extern} {c : BlobConfig} {answers : Answers} {now : Nat → Int} {s after : Blobs} {uploadId : Text}
variable {chunks : List Bytes} {session : UploadSession}

/-! ## The loop over the chunks -/

theorem getElem?_insert_eq_none {table : Table} {hash key : Hash} {record : ChunkRecord} :
    (table.insert hash record)[key]? = none ↔ key ≠ hash ∧ table[key]? = none := by
  rw [Std.TreeMap.getElem?_insert]
  by_cases here : hash = key
  · rw [if_pos (byteCmp_eq.mpr here)]
    simp [here]
  · rw [if_neg (byteCmp_eq.not.mpr here)]
    simp [Ne.symm here]

theorem getElem?_putChunk (store : Store) (hash key : Hash) (chunk : Bytes) :
    (store.putChunk hash chunk).chunks[key]? = if key = hash then some chunk else store.chunks[key]? := by
  rw [Store.putChunk, Std.TreeMap.getElem?_insert]
  by_cases here : hash = key
  · rw [if_pos (byteCmp_eq.mpr here), if_pos here.symm]
  · rw [if_neg (byteCmp_eq.not.mpr here), if_neg (Ne.symm here)]

/-- The loop puts the chunks that the table does not know, and stops at the first it cannot put. -/
structure Storing (X : Extern) (answers : Answers) (s : Blobs) (chunks : List Bytes)
    (result : Except BlobError Unit × Blobs) : Prop where
  sessions : result.2.sessions = s.sessions
  metadata : result.2.store.metadata = s.store.metadata
  ok_iff : result.1 = .ok () ↔
    ∀ chunk ∈ chunks, s.table[X.hash chunk]? = none → answers (.putChunk (X.hash chunk)) = none
  known : ∀ hash : Hash, s.table[hash]? ≠ none → result.2.store.chunks[hash]? = s.store.chunks[hash]?
  unknown : result.1 = .ok () → ∀ chunk ∈ chunks, s.table[X.hash chunk]? = none →
    result.2.store.chunks[X.hash chunk]? = some chunk

theorem storing (injective : Function.Injective X.hash) (answers : Answers) (now : Nat → Int) (chunks : List Bytes)
    (s : Blobs) :
    Storing X answers s chunks (storeChunks answers now s (chunks.map fun chunk => (chunk, X.hash chunk))) := by
  induction chunks generalizing s with
  | nil => exact ⟨rfl, rfl, by simp [storeChunks], fun _ _ => rfl, by simp⟩
  | cons chunk chunks ih =>
    rw [List.map_cons, storeChunks]
    cases tracked : s.table[X.hash chunk]? with
    | some record =>
      rw [Table.recordChunk_of_some tracked]
      let again : ChunkRecord := { record with refCount := record.refCount + 1 }
      have later := ih { s with table := s.table.insert (X.hash chunk) again }
      have same (key : Hash) : (s.table.insert (X.hash chunk) again)[key]? = none ↔ s.table[key]? = none := by
        rw [getElem?_insert_eq_none, and_iff_right_iff_imp]
        rintro absent rfl
        rw [tracked] at absent
        cases absent
      refine ⟨later.sessions, later.metadata, ?_, fun hash there => ?_, fun ok other among absent => ?_⟩
      · refine later.ok_iff.trans ?_
        simp only [same, List.forall_mem_cons, tracked, reduceCtorEq, false_implies, true_and]
      · exact later.known hash ((same hash).not.mpr there)
      · rcases List.mem_cons.mp among with rfl | among
        · rw [tracked] at absent
          cases absent
        · exact later.unknown ok other among ((same _).mpr absent)
    | none =>
      rw [Table.recordChunk_of_none tracked]
      cases answer : answers (.putChunk (X.hash chunk)) with
      | some e =>
        refine ⟨rfl, rfl, ?_, fun _ _ => rfl, fun ok => by cases ok⟩
        constructor
        · intro ok
          cases ok
        · intro puts
          rw [puts chunk (.head _) tracked] at answer
          cases answer
      | none =>
        let first : ChunkRecord := ⟨1, now (chunks.map fun chunk => (chunk, X.hash chunk)).length⟩
        have later := ih { s with
          table := s.table.insert (X.hash chunk) first
          store := s.store.putChunk (X.hash chunk) chunk }
        refine ⟨later.sessions, later.metadata, ?_, fun hash there => ?_, fun ok other among absent => ?_⟩
        · refine later.ok_iff.trans ?_
          simp only [getElem?_insert_eq_none, List.forall_mem_cons]
          constructor
          · intro puts
            refine ⟨fun _ => answer, fun other among absent => ?_⟩
            by_cases here : X.hash other = X.hash chunk
            · rw [here, answer]
            · exact puts other among ⟨here, absent⟩
          · intro puts other among absent
            exact puts.2 other among absent.2
        · have other : hash ≠ X.hash chunk := by
            rintro rfl
            exact there tracked
          refine (later.known hash fun absent => there (getElem?_insert_eq_none.mp absent).2).trans ?_
          rw [getElem?_putChunk, if_neg other]
        · by_cases here : X.hash other = X.hash chunk
          · obtain rfl := injective here
            refine (later.known _ fun absent => (getElem?_insert_eq_none.mp absent).1 rfl).trans ?_
            rw [getElem?_putChunk, if_pos rfl]
          · rcases List.mem_cons.mp among with rfl | among
            · exact absurd rfl here
            · exact later.unknown ok other among (getElem?_insert_eq_none.mpr ⟨here, absent⟩)

/-- Chunks read back only if they are stored. -/
theorem stored_of_downloadChunks (injective : Function.Injective X.hash) {store : Store}
    {data : Bytes} (read : downloadChunks X store (chunks.map X.hash) = .ok data) :
    ∀ chunk ∈ chunks, store.chunks[X.hash chunk]? = some chunk := by
  induction chunks generalizing data with
  | nil => simp
  | cons chunk chunks ih =>
    rw [List.map_cons, downloadChunks] at read
    split at read
    next => cases read
    next bytes found =>
      split at read
      next => cases read
      next same =>
        obtain rfl := injective (Decidable.not_not.mp same)
        cases rest : downloadChunks X store (chunks.map X.hash) with
        | error e =>
          rw [rest] at read
          cases read
        | ok data => exact List.forall_mem_cons.mpr ⟨found, ih rest⟩

/-! ## The completion and its session -/

/-- Making sure of a namespace touches nothing of uploads and blobs. -/
structure Ensuring (X : Extern) (answers : Answers) (s : Blobs) (ns : Text)
    (result : Except BlobError Unit × Blobs) : Prop where
  sessions : result.2.sessions = s.sessions
  table : result.2.table = s.table
  quotas : result.2.quotas = s.quotas
  chunks : result.2.store.chunks = s.store.chunks
  ok_iff : result.1 = .ok () ↔ validateNamespace X ns = true ∧ answers (.namespaceExists ns) = none ∧
    (ns ∉ s.store.namespaces → answers (.createNamespace ns) = none)

theorem ensuring (X : Extern) (answers : Answers) (s : Blobs) (ns : Text) :
    Ensuring X answers s ns (NamespaceManager.ensureNamespace X answers s ns) := by
  unfold NamespaceManager.ensureNamespace
  split
  next valid =>
    split
    next e looked => exact ⟨rfl, rfl, rfl, rfl, by simp [looked]⟩
    next looked =>
      split
      next there => exact ⟨rfl, rfl, rfl, rfl, by simp [valid, looked, there]⟩
      next absent =>
        split
        next e refused => exact ⟨rfl, rfl, rfl, rfl, by simp [refused, absent]⟩
        next founded => exact ⟨rfl, rfl, rfl, rfl, by simp [valid, looked, founded]⟩
  next invalid => exact ⟨rfl, rfl, rfl, rfl, by simp [invalid]⟩

theorem getMetadata_putMetadata (store : Store) (blob : BlobMetadata) :
    (store.putMetadata blob).getMetadata blob.id = some blob := by
  have gone : (store.metadata.filter fun m => m.id != blob.id).find? (fun m => m.id == blob.id) = none := by
    rw [List.find?_eq_none]
    intro m among
    have other := (List.mem_filter.mp among).2
    simpa using other
  rw [Store.getMetadata, Store.putMetadata, List.find?_append, gone]
  simp

/-- What `storeUpload` makes of the blob of a session. -/
structure Completing (X : Extern) (answers : Answers) (s : Blobs) (session : UploadSession) (chunks : List Bytes)
    (result : Except BlobError BlobMetadata × Blobs) : Prop where
  sessions : result.2.sessions = s.sessions
  ok_iff : (∃ blob, result.1 = .ok blob) ↔ Unhindered X answers s session chunks
  described : ∀ blob, result.1 = .ok blob → result.2.store.getMetadata blob.id = some blob ∧
    blob.sha256 = X.hash session.uploadedParts.flatten ∧ blob.chunkHashes = chunks.map X.hash
  known : ∀ blob, result.1 = .ok blob → ∀ hash : Hash, s.table[hash]? ≠ none →
    result.2.store.chunks[hash]? = s.store.chunks[hash]?
  unknown : ∀ blob, result.1 = .ok blob → ∀ chunk ∈ chunks, s.table[X.hash chunk]? = none →
    result.2.store.chunks[X.hash chunk]? = some chunk

theorem Completing.of_error {e : BlobError} {after : Blobs}
    (sessions : after.sessions = s.sessions) (hindered : ¬ Unhindered X answers s session chunks) :
    Completing X answers s session chunks (.error e, after) where
  sessions := sessions
  ok_iff := by
    constructor
    · rintro ⟨blob, ok⟩
      cases ok
    · exact fun smooth => absurd smooth hindered
  described _ ok := by cases ok
  known _ ok := by cases ok
  unknown _ ok := by cases ok

theorem zip_map_hash (chunks : List Bytes) :
    chunks.zip (chunks.map X.hash) = chunks.map fun chunk => (chunk, X.hash chunk) := by
  have zipped := List.zip_map' (l := chunks) (f := id) (g := X.hash)
  rwa [List.map_id] at zipped

theorem completing (injective : Function.Injective X.hash) (answers : Answers) (now : Nat → Int) (s : Blobs)
    (session : UploadSession) (chunks : List Bytes) : Completing X answers s session chunks
      (storeUpload X answers now s (session.metadata X chunks) chunks) := by
  have ensured := ensuring X answers s session.nameSpace
  unfold storeUpload
  simp only [UploadSession.metadata, zip_map_hash]
  generalize NamespaceManager.ensureNamespace X answers s session.nameSpace = ensure at ensured ⊢
  obtain ⟨first, s₁⟩ := ensure
  cases first with
  | error e =>
    refine .of_error ensured.sessions fun smooth => ?_
    have ok := ensured.ok_iff.mpr ⟨smooth.valid, smooth.looked, smooth.founded⟩
    cases ok
  | ok =>
    obtain ⟨valid, looked, founded⟩ := ensured.ok_iff.mp rfl
    have quotas : s₁.quotas = s.quotas := ensured.quotas
    have table : s₁.table = s.table := ensured.table
    simp only [quotas]
    cases quota : s.quotas.checkQuota session.nameSpace session.totalSize with
    | error e =>
      refine .of_error ensured.sessions fun smooth => ?_
      rw [smooth.admitted] at quota
      cases quota
    | ok =>
      have stored := storing injective answers now chunks s₁
      generalize storeChunks answers now s₁ (chunks.map fun chunk => (chunk, X.hash chunk)) = loop at stored ⊢
      obtain ⟨second, s₂⟩ := loop
      cases second with
      | error e =>
        refine .of_error (stored.sessions.trans ensured.sessions) fun smooth => ?_
        have ok := stored.ok_iff.mpr (table ▸ smooth.put)
        cases ok
      | ok =>
        have put := stored.ok_iff.mp rfl
        cases last : answers (.putMetadata session.blobId) with
        | some e =>
          refine .of_error (stored.sessions.trans ensured.sessions) fun smooth => ?_
          rw [smooth.described] at last
          cases last
        | none =>
          refine ⟨stored.sessions.trans ensured.sessions, ?_, ?_, ?_, ?_⟩
          · exact ⟨fun _ => ⟨valid, looked, founded, quota, table ▸ put, last⟩, fun _ => ⟨_, rfl⟩⟩
          · rintro blob ⟨⟩
            exact ⟨getMetadata_putMetadata _ _, rfl, rfl⟩
          · intro blob _ hash there
            refine (stored.known hash (table ▸ there)).trans ?_
            rw [show s₁.store.chunks = s.store.chunks from ensured.chunks]
          · intro blob _ chunk among absent
            exact stored.unknown rfl chunk among (table ▸ absent)

theorem unhindered_sessions {sessions : List (Text × UploadSession)}
    :
    Unhindered X answers { s with sessions } session chunks ↔ Unhindered X answers s session chunks :=
  ⟨fun h => ⟨h.valid, h.looked, h.founded, h.admitted, h.put, h.described⟩,
    fun h => ⟨h.valid, h.looked, h.founded, h.admitted, h.put, h.described⟩⟩

theorem not_allOrNothing_of_lost (found : s.session uploadId = some session)
    {after : Blobs} (gone : after.session uploadId = none) (e : BlobError) :
    ¬ AllOrNothing X s uploadId after (.error e) := by
  intro all
  have same := all.1
  rw [gone, found] at same
  cases same

/-- A blob that was stored reads back exactly if what was taken for duplicates is stored. -/
theorem download_iff_backs (injective : Function.Injective X.hash)
    {blob : BlobMetadata} {after : Blobs} (parts : split c.chunkSize session.uploadedParts.flatten = some chunks)
    (completing : Completing X answers s session chunks (.ok blob, after)) :
    download X after.store blob.id = .ok session.uploadedParts.flatten ↔ Backs X s chunks := by
  obtain ⟨there, sha, hashes⟩ := completing.described blob rfl
  have read : download X after.store blob.id = .ok session.uploadedParts.flatten ↔
      downloadChunks X after.store (chunks.map X.hash) = .ok chunks.flatten := by
    rw [download, there, flatten_split parts]
    simp only [hashes, sha]
    cases downloadChunks X after.store (chunks.map X.hash) with
    | error e => simp
    | ok data =>
      simp only [ne_eq, ite_not, Except.ok.injEq]
      split
      next => simp
      next differs =>
        simp only [reduceCtorEq, false_iff]
        rintro rfl
        exact differs rfl
  rw [read]
  constructor
  · intro ok chunk among there
    rw [← completing.known blob rfl _ there]
    exact stored_of_downloadChunks injective ok chunk among
  · intro backs
    refine downloadChunks_of_stored fun chunk among => ?_
    by_cases absent : s.table[X.hash chunk]? = none
    · exact completing.unknown blob rfl chunk among absent
    · rw [completing.known blob rfl _ absent]
      exact backs chunk among absent

theorem completeUpload_of_session (found : s.session uploadId = some session)
    {taken : Blobs} (take : taken = { s with sessions := s.sessions.filter fun e => e.1 != uploadId }) :
    completeUpload X c answers now s uploadId =
      if session.aborted = true ∨ session.size ≠ session.totalSize then some (.error .internal, taken)
      else (split c.chunkSize session.uploadedParts.flatten).map fun chunks =>
        storeUpload X answers now taken (session.metadata X chunks) chunks := by
  subst take
  rw [completeUpload, UploadManager.complete, found]
  by_cases aborted : session.aborted = true
  · simp only [aborted, if_true, true_or]
  · by_cases sized : session.size = session.totalSize
    · simp only [aborted, sized, Bool.false_eq_true, if_false, ne_eq, not_true_eq_false, or_self]
      cases split c.chunkSize session.uploadedParts.flatten <;> rfl
    · simp only [aborted, sized, Bool.false_eq_true, if_false, ne_eq, not_false_eq_true, if_true, or_true]

/-- **A completion is all or nothing exactly if there is no session, or nothing stands in its way** and the chunks
it takes for duplicates are in the store. -/
theorem completeUpload_allOrNothing_iff (injective : Function.Injective X.hash) (c : BlobConfig) (answers : Answers)
    (now : Nat → Int) (s : Blobs) (uploadId : Text) :
    (∀ result after, completeUpload X c answers now s uploadId = some (result, after) →
      AllOrNothing X s uploadId after result) ↔ Completable X c answers s uploadId := by
  unfold Completable
  cases found : s.session uploadId with
  | none =>
    simp only [reduceCtorEq, false_implies, implies_true, iff_true]
    intro result after returns
    rw [completeUpload, UploadManager.complete, found] at returns
    cases returns
    exact ⟨rfl, fun _ => rfl, fun _ => rfl⟩
  | some session =>
    obtain ⟨taken, take⟩ : ∃ taken : Blobs, taken =
      { s with sessions := s.sessions.filter fun e => e.1 != uploadId } := ⟨_, rfl⟩
    have lost {after : Blobs} (same : after.sessions = taken.sessions) (e : BlobError) :
        ¬ AllOrNothing X s uploadId after (.error e) := by
      refine not_allOrNothing_of_lost found ?_ e
      rw [Blobs.session, same, take]
      exact (lookup_filter_key (fun key => key != uploadId) s.sessions uploadId).trans (by simp)
    rw [completeUpload_of_session found take]
    simp only [Option.some.injEq, forall_eq']
    by_cases refused : session.aborted = true ∨ session.size ≠ session.totalSize
    · rw [if_pos refused]
      constructor
      · exact fun all => absurd (all _ _ rfl) (lost rfl _)
      · rintro ⟨active, sized, -⟩
        rcases refused with aborted | differs
        · rw [active] at aborted
          cases aborted
        · exact absurd sized differs
    · rw [not_or, Bool.not_eq_true, ne_eq, not_not] at refused
      rw [if_neg (by simp [refused])]
      cases parts : split c.chunkSize session.uploadedParts.flatten with
      | none => simp [refused]
      | some chunks =>
        have completing := completing injective answers now taken session chunks
        have free : Unhindered X answers taken session chunks ↔ Unhindered X answers s session chunks := by
          rw [take, unhindered_sessions]
        have backs : Backs X taken chunks ↔ Backs X s chunks := by
          rw [take]
          rfl
        simp only [refused, Option.map_some, Option.some.injEq, forall_eq', true_and]
        rw [← free, ← backs]
        generalize storeUpload X answers now taken (session.metadata X chunks) chunks = stored at completing
        obtain ⟨result, after⟩ := stored
        have single : (∀ r a, (result, after) = (r, a) → AllOrNothing X s uploadId a r) ↔
            AllOrNothing X s uploadId after result :=
          ⟨fun all => all _ _ rfl, by rintro all _ _ ⟨⟩; exact all⟩
        rw [single]
        cases result with
        | error e =>
          constructor
          · exact fun all => absurd all (lost completing.sessions e)
          · rintro ⟨smooth, -⟩
            obtain ⟨blob, ok⟩ := completing.ok_iff.mpr smooth
            cases ok
        | ok blob =>
          have reads := download_iff_backs injective parts completing
          constructor
          · rintro ⟨own, there, -, -, read⟩
            obtain rfl := Option.some.inj (found.symm.trans there)
            exact ⟨completing.ok_iff.mp ⟨blob, rfl⟩, reads.mp read⟩
          · rintro ⟨-, back⟩
            exact ⟨session, found, refused.1, refused.2, reads.mpr back⟩

/-- A manager with an upload of so many bytes whose only part is the letter a. -/
def lettered (totalSize : Nat) : Blobs :=
  let events : List BlobManager.Event :=
    .call (.initiateUpload ['u'] ['b'] ['n'] totalSize) :: BlobManager.advances 3 ++ [.call (.uploadPart ['u'] [97])]
  (events.foldl (BlobManager.step BlobManager.sampleExtern BlobManager.sampleConfig) BlobManager.fresh).shared

theorem completeUpload_allOrNothing_sample : ∃ result after,
    completeUpload BlobManager.sampleExtern BlobManager.sampleConfig (fun _ => none) (fun _ => 0) (lettered 1) ['u'] =
      some (result, after) ∧ AllOrNothing BlobManager.sampleExtern (lettered 1) ['u'] after result := by
  obtain ⟨⟨result, after⟩, done⟩ := Option.isSome_iff_exists.mp (show (completeUpload BlobManager.sampleExtern
    BlobManager.sampleConfig (fun _ => none) (fun _ => 0) (lettered 1) ['u']).isSome by decide +kernel)
  refine ⟨result, after, done, (completeUpload_allOrNothing_iff BlobManager.sample_injective _ _ _ _ _).mpr ?_ _ _ done⟩
  have there : (lettered 1).session ['u'] = some ⟨['b'], ['n'], 1, [[97]], false⟩ := by decide +kernel
  intro session found
  obtain rfl := Option.some.inj (there.symm.trans found)
  refine ⟨rfl, rfl, ?_⟩
  rintro chunks ⟨⟩
  exact ⟨⟨by decide +kernel, rfl, fun _ => rfl, rfl, fun _ _ _ => rfl, rfl⟩, by unfold Backs; decide +kernel⟩

/-- One byte of two is there when the upload is completed: the error takes the session along. -/
theorem completeUpload_loses_session : ∃ after,
    completeUpload BlobManager.sampleExtern BlobManager.sampleConfig (fun _ => none) (fun _ => 0) (lettered 2) ['u'] =
        some (.error .internal, after) ∧
      (lettered 2).session ['u'] = some ⟨['b'], ['n'], 2, [[97]], false⟩ ∧ after.session ['u'] = none ∧
      ¬ AllOrNothing BlobManager.sampleExtern (lettered 2) ['u'] after (.error .internal) := by
  have there : (lettered 2).session ['u'] = some ⟨['b'], ['n'], 2, [[97]], false⟩ := by decide +kernel
  refine ⟨_, completeUpload_of_session there rfl, there, ?_, not_allOrNothing_of_lost there ?_ _⟩
  · decide +kernel
  · decide +kernel

end

end NovaRuntime.Blob
