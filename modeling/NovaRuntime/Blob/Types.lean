/-
# NovaRuntime.Blob.Types — blobs, chunks and the table of references

`nova_blob::metadata`, `chunk`, `dedup` and `namespace`, and `DownloadHandler::download`.
A digest is the hexadecimal text of it, as bytes; `Extern.hash` makes it. The store is a
correct `BlobStore`: one file for each chunk, metadata in a list with one entry for each
blob, a set of namespaces. Maps are iterated over in the order of their keys, and nothing
here depends on it. Numbers of references stay below 2^64, times are seconds; sums of
quota bytes wrap, as they do in a release build.
-/
import NovaRuntime.Library.KeyValue

namespace NovaRuntime.Blob

open NovaRuntime.Library

set_option autoImplicit false

abbrev Hash := Bytes

/-- The texts of the errors are left out. -/
inductive BlobError where
  | notFound (id : Text)
  | chunkNotFound (hash : Hash)
  | uploadNotFound (id : Text)
  | checksumMismatch (expected actual : Hash)
  | quotaExceeded
  | invalidInput
  | internal
  deriving DecidableEq

structure BlobConfig where
  chunkSize : Nat
  maxBlobSize : Nat
  gcGracePeriodSecs : Nat
  deriving DecidableEq

structure Extern where
  /-- `ChunkManager::hash`. -/
  hash : Bytes → Hash
  /-- `char::is_alphanumeric`. -/
  isAlphanumeric : Char → Bool

structure BlobMetadata where
  id : Text
  nameSpace : Text
  size : Nat
  sha256 : Hash
  chunkHashes : List Hash
  expiresAt : Option Int
  deriving DecidableEq

structure UploadSession where
  blobId : Text
  nameSpace : Text
  totalSize : Nat
  uploadedParts : List Bytes
  aborted : Bool
  deriving DecidableEq

/-! ## Chunks -/

/-- The loop of `split`: as many turns as there are bytes suffice for chunks that are not
empty. -/
def pieces (chunkSize : Nat) : Nat → Bytes → List Bytes
  | 0, _ => []
  | _, [] => []
  | turns + 1, data => data.take chunkSize :: pieces chunkSize turns (data.drop chunkSize)

/-- `ChunkManager::split`, which never ends for chunks of no bytes. -/
def split (chunkSize : Nat) (data : Bytes) : Option (List Bytes) :=
  if data = [] then some [[]]
  else if chunkSize = 0 then none
  else some (pieces chunkSize data.length data)

theorem flatten_pieces {chunkSize turns : Nat} {data : Bytes} (positive : 0 < chunkSize)
    (enough : data.length ≤ turns) : (pieces chunkSize turns data).flatten = data := by
  induction turns generalizing data with
  | zero =>
    rw [List.length_eq_zero_iff.mp (Nat.le_zero.mp enough)]
    rfl
  | succ turns ih =>
    cases data with
    | nil => rfl
    | cons b data =>
      rw [pieces, List.flatten_cons, ih, List.take_append_drop]
      · rw [List.length_drop, List.length_cons]
        rw [List.length_cons] at enough
        omega
      · simp

theorem flatten_split {chunkSize : Nat} {data : Bytes} {chunks : List Bytes}
    (done : split chunkSize data = some chunks) : chunks.flatten = data := by
  unfold split at done
  split at done
  next empty =>
    cases done
    rw [empty]
    rfl
  next =>
    split at done
    next => cases done
    next positive =>
      cases done
      exact flatten_pieces (Nat.pos_of_ne_zero positive) (le_rfl)

/-! ## The table of references -/

structure ChunkRecord where
  refCount : Nat
  createdAt : Int
  deriving DecidableEq

abbrev Table := ByteMap ChunkRecord

namespace Table

variable {hash : Hash} {table : Table}

/-- `record_chunk`: whether the chunk was there already. -/
def recordChunk (table : Table) (hash : Hash) (now : Int) : Bool × Table :=
  match table[hash]? with
  | some record => (true, table.insert hash { record with refCount := record.refCount + 1 })
  | none => (false, table.insert hash ⟨1, now⟩)

/-- `release_chunk`: the references that are left. -/
def releaseChunk (table : Table) (hash : Hash) : Nat × Table :=
  match table[hash]? with
  | some record => (record.refCount - 1, table.insert hash { record with refCount := record.refCount - 1 })
  | none => (0, table)

def getRefCount (table : Table) (hash : Hash) : Nat := table[hash]?.elim 0 ChunkRecord.refCount

/-- `(now - created_at) as u64 >= grace_period_secs`. -/
def graceOver (now : Int) (grace : Nat) (record : ChunkRecord) : Bool :=
  grace ≤ ((now - record.createdAt) % 18446744073709551616).toNat

theorem recordChunk_of_some {now : Int} {record : ChunkRecord}
    (known : table[hash]? = some record) : table.recordChunk hash now =
      (true, table.insert hash { record with refCount := record.refCount + 1 }) := by
  rw [recordChunk, known]

theorem recordChunk_of_none {now : Int} (unknown : table[hash]? = none) :
    table.recordChunk hash now = (false, table.insert hash ⟨1, now⟩) := by
  rw [recordChunk, unknown]

theorem getRefCount_insert (table : Table) (hash key : Hash) (record : ChunkRecord) :
    Table.getRefCount (table.insert hash record) key =
      if key = hash then record.refCount else table.getRefCount key := by
  rw [getRefCount, Std.TreeMap.getElem?_insert]
  by_cases here : hash = key
  · rw [if_pos (byteCmp_eq.mpr here), if_pos here.symm]
    rfl
  · rw [if_neg (byteCmp_eq.not.mpr here), if_neg (Ne.symm here)]
    rfl

theorem getRefCount_erase (table : Table) (hash key : Hash) :
    Table.getRefCount (table.erase hash) key = if key = hash then 0 else table.getRefCount key := by
  rw [getRefCount, Std.TreeMap.getElem?_erase]
  by_cases here : hash = key
  · rw [if_pos (byteCmp_eq.mpr here), if_pos here.symm]
    rfl
  · rw [if_neg (byteCmp_eq.not.mpr here), if_neg (Ne.symm here)]
    rfl

theorem getRefCount_of_none (unknown : table[hash]? = none) :
    table.getRefCount hash = 0 := by
  rw [getRefCount, unknown]
  rfl

theorem getRefCount_of_some {record : ChunkRecord}
    (known : table[hash]? = some record) : table.getRefCount hash = record.refCount := by
  rw [getRefCount, known]
  rfl

theorem releaseChunk_spec (table : Table) (hash : Hash) :
    (table.releaseChunk hash).1 = table.getRefCount hash - 1 ∧
      ∀ key, (table.releaseChunk hash).2.getRefCount key =
        if key = hash then table.getRefCount key - 1 else table.getRefCount key := by
  cases known : table[hash]? with
  | none =>
    have released : table.releaseChunk hash = (0, table) := by rw [releaseChunk, known]
    rw [released, getRefCount_of_none known]
    refine ⟨rfl, fun key => ?_⟩
    by_cases here : key = hash
    · rw [if_pos here, here, getRefCount_of_none known]
    · rw [if_neg here]
  | some record =>
    have released : table.releaseChunk hash = (record.refCount - 1,
        table.insert hash { record with refCount := record.refCount - 1 }) := by
      rw [releaseChunk, known]
    rw [released, getRefCount_of_some known]
    refine ⟨rfl, fun key => ?_⟩
    rw [getRefCount_insert]
    by_cases here : key = hash
    · rw [if_pos here, if_pos here, here, getRefCount_of_some known]
    · rw [if_neg here, if_neg here]

def collectUnreferenced (table : Table) (grace : Nat) (now : Int) : List Hash :=
  (table.toList.filter fun e => e.2.refCount == 0 && graceOver now grace e.2).map Prod.fst

theorem getRefCount_of_mem_collect {grace : Nat} {now : Int}
    (member : hash ∈ table.collectUnreferenced grace now) : table.getRefCount hash = 0 := by
  obtain ⟨e, collected, rfl⟩ := List.mem_map.mp member
  obtain ⟨inside, zero⟩ := List.mem_filter.mp collected
  rw [getRefCount_of_some (Std.TreeMap.mem_toList_iff_getElem?_eq_some.mp inside)]
  rw [Bool.and_eq_true, beq_iff_eq] at zero
  exact zero.1

end Table

/-! ## Quotas -/

structure NamespaceQuota where
  maxBlobs : Nat
  maxTotalBytes : Nat
  currentBlobs : Nat
  currentBytes : Nat
  deriving DecidableEq

abbrev Quotas := Text → Option NamespaceQuota

/-- `as u64`. -/
def wrap (n : Nat) : Nat := n % 18446744073709551616

namespace Quotas

def setQuota (quotas : Quotas) (ns : Text) (maxBlobs maxTotalBytes : Nat) : Quotas := fun name =>
  if name = ns then
    match quotas ns with
    | some quota => some { quota with maxBlobs, maxTotalBytes }
    | none => some ⟨maxBlobs, maxTotalBytes, 0, 0⟩
  else quotas name

def checkQuota (quotas : Quotas) (ns : Text) (additionalBytes : Nat) : Except BlobError Unit :=
  match quotas ns with
  | some quota =>
    if quota.currentBlobs ≥ quota.maxBlobs then .error .quotaExceeded
    else if wrap (quota.currentBytes + additionalBytes) > quota.maxTotalBytes then .error .quotaExceeded
    else .ok ()
  | none => .ok ()

def incrementUsage (quotas : Quotas) (ns : Text) (size : Nat) : Quotas := fun name =>
  if name = ns then
    (quotas ns).map fun quota => { quota with
      currentBlobs := wrap (quota.currentBlobs + 1)
      currentBytes := wrap (quota.currentBytes + size) }
  else quotas name

def decrementUsage (quotas : Quotas) (ns : Text) (size : Nat) : Quotas := fun name =>
  if name = ns then
    (quotas ns).map fun quota => { quota with
      currentBlobs := quota.currentBlobs - 1
      currentBytes := quota.currentBytes - size }
  else quotas name

end Quotas

/-- `validate_namespace`; two dots in a row are one of its refusals. -/
def validateNamespace (X : Extern) (name : Text) : Bool :=
  !name.isEmpty && (utf8 name).length ≤ 255 && !name.contains '/' && !name.contains '\\' &&
    !(name.zip name.tail).contains ('.', '.') && !name.contains (Char.ofNat 0) &&
    name.all fun c => X.isAlphanumeric c || c == '-' || c == '_' || c == '.'

/-! ## The store -/

structure Store where
  chunks : ByteMap Bytes
  metadata : List BlobMetadata
  namespaces : List Text

namespace Store

def getMetadata (s : Store) (id : Text) : Option BlobMetadata := s.metadata.find? fun m => m.id == id

def deleteMetadata (s : Store) (id : Text) : Store :=
  { s with metadata := s.metadata.filter fun m => m.id != id }

def putMetadata (s : Store) (blob : BlobMetadata) : Store :=
  { s with metadata := s.metadata.filter (fun m => m.id != blob.id) ++ [blob] }

def putChunk (s : Store) (hash : Hash) (data : Bytes) : Store :=
  { s with chunks := s.chunks.insert hash data }

def deleteChunk (s : Store) (hash : Hash) : Store := { s with chunks := s.chunks.erase hash }

def createNamespace (s : Store) (ns : Text) : Store :=
  { s with namespaces := if ns ∈ s.namespaces then s.namespaces else s.namespaces ++ [ns] }

def listBlobs (s : Store) (ns : Text) : List Text :=
  (s.metadata.filter fun m => m.nameSpace == ns).map BlobMetadata.id

end Store

/-- The chunks of a blob, each checked against its digest. -/
def downloadChunks (X : Extern) (s : Store) : List Hash → Except BlobError Bytes
  | [] => .ok []
  | hash :: hashes =>
    match s.chunks[hash]? with
    | none => .error (.chunkNotFound hash)
    | some data =>
      if X.hash data ≠ hash then .error (.checksumMismatch hash (X.hash data))
      else (downloadChunks X s hashes).map (data ++ ·)

/-- Chunks that are stored under their digests are read back. -/
theorem downloadChunks_of_stored {X : Extern} {s : Store} {chunks : List Bytes}
    (stored : ∀ chunk ∈ chunks, s.chunks[X.hash chunk]? = some chunk) :
    downloadChunks X s (chunks.map X.hash) = .ok chunks.flatten := by
  induction chunks with
  | nil => rfl
  | cons chunk chunks ih =>
    obtain ⟨here, rest⟩ := List.forall_mem_cons.mp stored
    rw [List.map_cons, downloadChunks, here]
    simp only [ne_eq, not_true_eq_false, if_false, ih rest]
    rfl

def download (X : Extern) (s : Store) (id : Text) : Except BlobError Bytes :=
  match s.getMetadata id with
  | none => .error (.notFound id)
  | some blob =>
    match downloadChunks X s blob.chunkHashes with
    | .error e => .error e
    | .ok data =>
      if X.hash data ≠ blob.sha256 then .error (.checksumMismatch blob.sha256 (X.hash data))
      else .ok data

end NovaRuntime.Blob
