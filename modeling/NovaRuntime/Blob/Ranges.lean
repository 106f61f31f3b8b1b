/-
# NovaRuntime.Blob.Ranges — reads of a part of a blob

`DownloadHandler::download_range`, which takes the chunks of the range by their numbers and cuts
the first and the last of them. Its arithmetic is that of `u64` and wraps, as it does in a release
build. The full read is `download`; a ranged read is a slice of it (`downloadRange_eq_slice`)
unless the end of the range wraps, or the range is the empty one at the start of the blob: there
`end - 1` wraps, and the loop runs past the last chunk (`ranges_are_slices_iff`). A debug build
panics on the same ranges, at the arithmetic.
-/
import NovaRuntime.Blob.Manager
import NovaRuntime.Library.Outcome

namespace NovaRuntime.Blob

open NovaRuntime.Library

set_option autoImplicit false

inductive RangeError where
  | invalidRange
  | blob (e : BlobError)
  deriving DecidableEq

/-- `isize::MAX`: no vector is larger. -/
def maxCapacity : Nat := 2 ^ 63 - 1

/-- The bytes from one place to another. -/
def slice (data : Bytes) (start stop : Nat) : Bytes := (data.drop start).take (stop - start)

section

variable (s : Store) (chunkSize offset stop : UInt64) (hashes : List Hash) (startChunk endChunk : Nat)

/-- What the turn of a chunk appends. -/
def cutChunk (idx : Nat) (chunk : Bytes) : Bytes :=
  let chunkStart := if idx = startChunk then (offset % chunkSize).toNat else 0
  let chunkEnd :=
    if idx = endChunk then min (((stop - 1) % chunkSize).toNat + 1) chunk.length else chunk.length
  if chunkStart < chunkEnd then slice chunk chunkStart chunkEnd else []

/-- The loop from chunk `idx` on, for as many turns. -/
def readChunks : Nat → Nat → Bytes → Outcome RangeError Bytes
  | 0, _, result => .ok result
  | turns + 1, idx, result =>
    match hashes[idx]? with
    | none => .panic
    | some hash =>
      match s.chunks[hash]? with
      | none => .err (.blob (.chunkNotFound hash))
      | some chunk =>
        readChunks turns (idx + 1) (result ++ cutChunk chunkSize offset stop startChunk endChunk idx chunk)

end

/-- `download_range`; `chunkSize` is that of the blob's metadata. -/
def downloadRange (s : Store) (chunkSize : UInt64) (id : Text) (offset length : UInt64) : Outcome RangeError Bytes :=
  match s.getMetadata id with
  | none => .err (.blob (.notFound id))
  | some blob =>
    let size := UInt64.ofNat blob.size
    if size ≤ offset then .err .invalidRange
    else
      let stop := min (offset + length) size
      let actualLength := stop - offset
      if chunkSize = 0 then .panic
      else
        let startChunk := (offset / chunkSize).toNat
        let endChunk := ((stop - 1) / chunkSize).toNat
        if maxCapacity < actualLength.toNat then .panic
        else readChunks s chunkSize offset stop blob.chunkHashes startChunk endChunk
          (endChunk + 1 - startChunk) startChunk []

/-! ## Slices -/

theorem slice_self (data : Bytes) (a : Nat) : slice data a a = [] := by
  rw [slice, Nat.sub_self, List.take_zero]

theorem slice_append {data : Bytes} {a b c : Nat} (first : a ≤ b) (second : b ≤ c) :
    slice data a b ++ slice data b c = slice data a c := by
  have behind : data.drop b = (data.drop a).drop (b - a) := by
    rw [List.drop_drop, Nat.add_sub_cancel' first]
  rw [slice, slice, slice, behind, ← List.take_add]
  congr 1
  omega

theorem slice_chunk {data : Bytes} {m size a b : Nat} (inside : b ≤ size) :
    slice ((data.drop m).take size) a b = slice data (m + a) (m + b) := by
  rw [slice, slice, List.drop_take, List.take_take, List.drop_drop, Nat.min_eq_left (by omega)]
  congr 1
  omega

/-! ## Chunks by number -/

theorem getElem?_pieces {chunkSize turns : Nat} {data : Bytes} (positive : 0 < chunkSize)
    (enough : data.length ≤ turns) (i : Nat) : (pieces chunkSize turns data)[i]? =
      if i * chunkSize < data.length then some ((data.drop (i * chunkSize)).take chunkSize) else none := by
  induction turns generalizing data i with
  | zero =>
    rw [List.length_eq_zero_iff.mp (Nat.le_zero.mp enough)]
    rfl
  | succ turns ih =>
    cases data with
    | nil => rfl
    | cons b data =>
      show (List.take chunkSize (b :: data) :: pieces chunkSize turns (List.drop chunkSize (b :: data)))[i]? = _
      cases i with
      | zero => simp
      | succ i =>
        have shorter : ((b :: data).drop chunkSize).length ≤ turns := by
          rw [List.length_drop]
          rw [List.length_cons] at *
          omega
        rw [List.getElem?_cons_succ, ih shorter, List.length_drop, List.drop_drop, Nat.succ_mul]
        rw [Nat.add_comm chunkSize]
        congr 1
        rw [eq_iff_iff]
        omega

/-! ## A blob that is stored -/

/-- The blob is stored with this content, in chunks of this size. -/
structure StoredBlob (X : Extern) (s : Store) (chunkSize : UInt64) (id : Text) (data : Bytes) : Prop where
  positive : 0 < chunkSize.toNat
  /-- The content was a vector. -/
  vector : data.length ≤ maxCapacity
  metadata : ∃ blob, s.getMetadata id = some blob ∧ blob.size = data.length ∧ blob.sha256 = X.hash data ∧
    ∃ chunks, split chunkSize.toNat data = some chunks ∧ blob.chunkHashes = chunks.map X.hash ∧
      ∀ chunk ∈ chunks, s.chunks[X.hash chunk]? = some chunk

variable {X : Extern} {s : Store} {chunkSize : UInt64} {id : Text} {data : Bytes}

theorem StoredBlob.download_eq (stored : StoredBlob X s chunkSize id data) : download X s id = .ok data := by
  obtain ⟨-, -, blob, found, -, sha, chunks, parts, hashes, there⟩ := stored
  rw [download, found]
  simp only [hashes, downloadChunks_of_stored there, flatten_split parts, sha, ne_eq, not_true_eq_false, if_false]

/-- The chunk of a number is there and is its part of the data; behind the last there is none. -/
def Chunked (s : Store) (hashes : List Hash) (size : Nat) (data : Bytes) : Prop := ∀ i,
  (i * size < data.length → ∃ hash, hashes[i]? = some hash ∧
    s.chunks[hash]? = some ((data.drop (i * size)).take size)) ∧
  (data.length ≤ i * size → hashes[i]? = none)

theorem StoredBlob.chunked (stored : StoredBlob X s chunkSize id data) (some : 0 < data.length) :
    ∃ blob, s.getMetadata id = .some blob ∧ blob.size = data.length ∧
      Chunked s blob.chunkHashes chunkSize.toNat data := by
  obtain ⟨positive, -, blob, found, size, -, chunks, parts, hashes, there⟩ := stored
  refine ⟨blob, found, size, fun i => ?_⟩
  have pieces_eq : chunks = pieces chunkSize.toNat data.length data := by
    rw [split, if_neg (List.ne_nil_of_length_pos some), if_neg (Nat.ne_of_gt positive)] at parts
    exact (Option.some.inj parts).symm
  have here := getElem?_pieces positive (Nat.le_refl data.length) i
  rw [hashes, List.getElem?_map, pieces_eq, here]
  constructor
  · intro inside
    rw [if_pos inside]
    refine ⟨_, rfl, there _ ?_⟩
    rw [if_pos inside, ← pieces_eq] at here
    exact List.mem_of_getElem? here
  · intro behind
    rw [if_neg (Nat.not_lt.mpr behind)]
    rfl

/-! ## The loop -/

section

variable {offset stop : UInt64} {hashes : List Hash} {startChunk endChunk : Nat}

theorem readChunks_turn (chunked : Chunked s hashes chunkSize.toNat data) {idx turns : Nat}
    (inside : idx * chunkSize.toNat < data.length) (result : Bytes) :
    readChunks s chunkSize offset stop hashes startChunk endChunk (turns + 1) idx result =
      readChunks s chunkSize offset stop hashes startChunk endChunk turns (idx + 1)
        (result ++ cutChunk chunkSize offset stop startChunk endChunk idx
          ((data.drop (idx * chunkSize.toNat)).take chunkSize.toNat)) := by
  obtain ⟨hash, found, chunk⟩ := (chunked idx).1 inside
  simp only [readChunks, found, chunk]

/-- More turns than there are chunks: an index is out of bounds. -/
theorem readChunks_panics (chunked : Chunked s hashes chunkSize.toNat data) {turns idx : Nat}
    (beyond : data.length ≤ (idx + turns) * chunkSize.toNat) (result : Bytes) :
    readChunks s chunkSize offset stop hashes startChunk endChunk (turns + 1) idx result = .panic := by
  induction turns generalizing idx result with
  | zero => simp only [readChunks, (chunked idx).2 beyond]
  | succ turns ih =>
    by_cases inside : idx * chunkSize.toNat < data.length
    · rw [readChunks_turn chunked inside]
      exact ih (by rwa [Nat.add_right_comm, Nat.add_assoc]) _
    · simp only [readChunks, (chunked idx).2 (Nat.not_lt.mp inside)]

end

/-- The number of a chunk is one of those of a range that is not empty. -/
structure InRange (size o e idx : Nat) : Prop where
  first : o / size ≤ idx
  last : idx ≤ (e - 1) / size

/-- Where the turn starts in its chunk. -/
theorem chunkStart_eq {size o e idx : Nat} (positive : 0 < size) (turn : InRange size o e idx) :
    idx * size + (if idx = o / size then o % size else 0) = max o (idx * size) := by
  have parts := Nat.div_add_mod' o size
  split
  next here =>
    rw [here]
    omega
  next later =>
    have : (o / size + 1) * size ≤ idx * size := Nat.mul_le_mul_right size (by have := turn.first; omega)
    have below : o % size < size := Nat.mod_lt o positive
    rw [Nat.succ_mul] at this
    omega

theorem chunkEnd_eq {size o e len idx : Nat} (positive : 0 < size) (nonempty : o < e) (inside : e ≤ len)
    (turn : InRange size o e idx) : idx * size +
      (if idx = (e - 1) / size then min ((e - 1) % size + 1) (min size (len - idx * size))
        else min size (len - idx * size)) = min e ((idx + 1) * size) := by
  have parts := Nat.div_add_mod' (e - 1) size
  have below : (e - 1) % size < size := Nat.mod_lt (e - 1) positive
  rw [Nat.succ_mul]
  split
  next here =>
    rw [here]
    omega
  next earlier =>
    have : (idx + 1) * size ≤ (e - 1) / size * size := Nat.mul_le_mul_right size (by have := turn.last; omega)
    rw [Nat.succ_mul] at this
    omega

theorem range_meets_chunk {size o e idx : Nat} (positive : 0 < size) (nonempty : o < e) (turn : InRange size o e idx) :
    max o (idx * size) < min e ((idx + 1) * size) := by
  have low := Nat.div_add_mod' o size
  have high := Nat.div_add_mod' (e - 1) size
  have below : o % size < size := Nat.mod_lt o positive
  have after : o / size * size ≤ idx * size := Nat.mul_le_mul_right size turn.first
  have before : idx * size ≤ (e - 1) / size * size := Nat.mul_le_mul_right size turn.last
  rw [Nat.succ_mul]
  omega

theorem before_toNat {stop : UInt64} (some : 0 < stop.toNat) : (stop - 1).toNat = stop.toNat - 1 := by
  rw [UInt64.toNat_sub_of_le _ _ (UInt64.le_iff_toNat_le.mpr (by show 1 ≤ stop.toNat; omega))]
  rfl

/-- **A turn appends its part of the range.** -/
theorem cutChunk_eq {offset stop : UInt64} {idx : Nat} (positive : 0 < chunkSize.toNat)
    (nonempty : offset.toNat < stop.toNat) (inside : stop.toNat ≤ data.length)
    (turn : InRange chunkSize.toNat offset.toNat stop.toNat idx) :
    cutChunk chunkSize offset stop (offset.toNat / chunkSize.toNat) ((stop.toNat - 1) / chunkSize.toNat) idx
        ((data.drop (idx * chunkSize.toNat)).take chunkSize.toNat) =
      slice data (max offset.toNat (idx * chunkSize.toNat)) (min stop.toNat ((idx + 1) * chunkSize.toNat)) := by
  have before : (stop - 1).toNat = stop.toNat - 1 := before_toNat (by omega)
  have meets := range_meets_chunk positive nonempty turn
  have start := chunkStart_eq positive turn
  have done := chunkEnd_eq positive nonempty inside turn
  rw [Nat.succ_mul] at done meets ⊢
  simp only [cutChunk, UInt64.toNat_mod, before, List.length_take, List.length_drop]
  rw [if_pos (by omega), slice_chunk (by omega), start, done]

/-- **The loop reads the rest of the range.** -/
theorem readChunks_eq {offset stop : UInt64} {hashes : List Hash} {turns idx : Nat} (positive : 0 < chunkSize.toNat)
    (chunked : Chunked s hashes chunkSize.toNat data) (nonempty : offset.toNat < stop.toNat)
    (inside : stop.toNat ≤ data.length) (first : offset.toNat / chunkSize.toNat ≤ idx) (last : idx + turns = (stop.toNat - 1) / chunkSize.toNat) :
    readChunks s chunkSize offset stop hashes (offset.toNat / chunkSize.toNat)
        ((stop.toNat - 1) / chunkSize.toNat) (turns + 1) idx
        (slice data offset.toNat (max offset.toNat (idx * chunkSize.toNat))) =
      .ok (slice data offset.toNat stop.toNat) := by
  induction turns generalizing idx with
  | zero =>
    have turn : InRange chunkSize.toNat offset.toNat stop.toNat idx := ⟨first, by omega⟩
    have meets := range_meets_chunk positive nonempty turn
    have final : stop.toNat ≤ (idx + 1) * chunkSize.toNat := by
      have parts := Nat.div_add_mod' (stop.toNat - 1) chunkSize.toNat
      have below : (stop.toNat - 1) % chunkSize.toNat < chunkSize.toNat := Nat.mod_lt _ positive
      rw [show idx = (stop.toNat - 1) / chunkSize.toNat from last, Nat.succ_mul]
      omega
    rw [readChunks_turn chunked (by omega), cutChunk_eq positive nonempty inside turn, readChunks,
      slice_append (Nat.le_max_left ..) (Nat.le_of_lt meets), Nat.min_eq_left final]
  | succ turns ih =>
    have turn : InRange chunkSize.toNat offset.toNat stop.toNat idx := ⟨first, by omega⟩
    have meets := range_meets_chunk positive nonempty turn
    have next : InRange chunkSize.toNat offset.toNat stop.toNat (idx + 1) := ⟨by omega, by omega⟩
    have meets' := range_meets_chunk positive nonempty next
    rw [readChunks_turn chunked (by omega), cutChunk_eq positive nonempty inside turn,
      slice_append (Nat.le_max_left ..) (Nat.le_of_lt meets),
      show min stop.toNat ((idx + 1) * chunkSize.toNat) = max offset.toNat ((idx + 1) * chunkSize.toNat) by omega]
    exact ih (by omega) (by omega)

/-! ## Ranges -/

section

variable {offset length : UInt64}

section

variable (stored : StoredBlob X s chunkSize id data)

include stored

theorem downloadRange_beyond (beyond : data.length ≤ offset.toNat) :
    downloadRange s chunkSize id offset length = .err .invalidRange := by
  obtain ⟨-, vector, blob, found, size, -⟩ := stored
  have refused : UInt64.ofNat blob.size ≤ offset := by
    rw [UInt64.le_iff_toNat_le, UInt64.toNat_ofNat', size]
    unfold maxCapacity at vector
    omega
  simp only [downloadRange, found, refused, if_true]

/-- What is left of `download_range` when the offset is below the size. -/
theorem downloadRange_inside (length : UInt64) (below : offset.toNat < data.length) :
    ∃ stop : UInt64, ∃ hashes, stop.toNat = min ((offset.toNat + length.toNat) % 2 ^ 64) data.length ∧
      Chunked s hashes chunkSize.toNat data ∧ downloadRange s chunkSize id offset length =
        if maxCapacity < (stop - offset).toNat then .panic
        else readChunks s chunkSize offset stop hashes (offset.toNat / chunkSize.toNat)
          ((stop - 1).toNat / chunkSize.toNat)
          ((stop - 1).toNat / chunkSize.toNat + 1 - offset.toNat / chunkSize.toNat)
          (offset.toNat / chunkSize.toNat) [] := by
  have positive := stored.positive
  have vector := stored.vector
  unfold maxCapacity at vector
  obtain ⟨blob, found, size, chunked⟩ := stored.chunked (by omega)
  have bytes : (UInt64.ofNat blob.size).toNat = data.length := by
    rw [UInt64.toNat_ofNat', size]
    omega
  refine ⟨min (offset + length) (UInt64.ofNat blob.size), blob.chunkHashes, ?_, chunked, ?_⟩
  · show (if offset + length ≤ UInt64.ofNat blob.size then _ else _ : UInt64).toNat = _
    rw [← UInt64.toNat_add, ← bytes]
    split
    next less => rw [Nat.min_eq_left (UInt64.le_iff_toNat_le.mp less)]
    next more => rw [Nat.min_eq_right (by have := UInt64.le_iff_toNat_le.not.mp more; omega)]
  · have accepted : ¬ UInt64.ofNat blob.size ≤ offset := by
      rw [UInt64.le_iff_toNat_le, bytes]
      omega
    have nonzero : chunkSize ≠ 0 := by
      rintro rfl
      exact absurd positive (Nat.lt_irrefl 0)
    simp only [downloadRange, found, accepted, nonzero, if_false, UInt64.toNat_div]

/-- The end of the range wraps: no vector has that capacity. -/
theorem downloadRange_wraps (below : offset.toNat < data.length)
    (wraps : 2 ^ 64 ≤ offset.toNat + length.toNat) : downloadRange s chunkSize id offset length = .panic := by
  obtain ⟨stop, hashes, stop_is, -, read⟩ := downloadRange_inside stored length below
  have vector := stored.vector
  have := offset.toNat_lt
  have := length.toNat_lt
  rw [read, if_pos]
  rw [UInt64.toNat_sub, stop_is]
  unfold maxCapacity at *
  omega

/-- The empty range at the start: the loop runs to the chunk of the last byte that a `u64` can number. -/
theorem downloadRange_nothing_at_start (some : 0 < data.length) : downloadRange s chunkSize id 0 0 = .panic := by
  obtain ⟨stop, hashes, stop_is, chunked, read⟩ := 
    downloadRange_inside stored 0 (show (0 : UInt64).toNat < data.length from some)
  have vector := stored.vector
  have positive := stored.positive
  have bounded := chunkSize.toNat_lt
  obtain rfl : stop = 0 := UInt64.toNat_inj.mp (stop_is.trans (Nat.min_eq_left (Nat.zero_le _)))
  rw [read, if_neg (by decide), show (0 - 1 : UInt64).toNat = 2 ^ 64 - 1 from rfl, UInt64.toNat_zero, Nat.zero_div,
    Nat.sub_zero]
  refine readChunks_panics chunked ?_ []
  have parts := Nat.div_add_mod' (2 ^ 64 - 1) chunkSize.toNat
  have below : (2 ^ 64 - 1) % chunkSize.toNat < chunkSize.toNat := Nat.mod_lt _ positive
  have one : 1 ≤ (2 ^ 64 - 1) / chunkSize.toNat := (Nat.one_le_div_iff positive).mpr (by omega)
  have : 1 * chunkSize.toNat ≤ (2 ^ 64 - 1) / chunkSize.toNat * chunkSize.toNat := Nat.mul_le_mul_right _ one
  unfold maxCapacity at vector
  rw [Nat.zero_add]
  omega

/-- An empty range further on. -/
theorem downloadRange_nothing (below : offset.toNat < data.length)
    (later : 0 < offset.toNat) : downloadRange s chunkSize id offset 0 = .ok [] := by
  obtain ⟨stop, hashes, stop_is, chunked, read⟩ := downloadRange_inside stored 0 below
  have positive := stored.positive
  have bounded := offset.toNat_lt
  obtain rfl : stop = offset := by
    refine UInt64.toNat_inj.mp (stop_is.trans ?_)
    rw [UInt64.toNat_zero, Nat.add_zero, Nat.mod_eq_of_lt bounded]
    omega
  have low := Nat.div_add_mod' stop.toNat chunkSize.toNat
  have high := Nat.div_add_mod' (stop.toNat - 1) chunkSize.toNat
  have inChunk : stop.toNat % chunkSize.toNat < chunkSize.toNat := Nat.mod_lt _ positive
  rw [read, if_neg (by rw [UInt64.sub_self]; decide), before_toNat later]
  by_cases aligned : stop.toNat % chunkSize.toNat = 0
  · have turns : (stop.toNat - 1) / chunkSize.toNat + 1 - stop.toNat / chunkSize.toNat = 0 := by
      have : (stop.toNat - 1) / chunkSize.toNat < stop.toNat / chunkSize.toNat := by
        rw [Nat.div_lt_iff_lt_mul positive]
        omega
      omega
    rw [turns, readChunks]
  · have same : (stop.toNat - 1) / chunkSize.toNat = stop.toNat / chunkSize.toNat := by
      refine Nat.div_eq_of_lt_le (by omega) ?_
      rw [Nat.succ_mul]
      omega
    have nothing (chunk : Bytes) : cutChunk chunkSize stop stop (stop.toNat / chunkSize.toNat)
        (stop.toNat / chunkSize.toNat) (stop.toNat / chunkSize.toNat) chunk = [] := by
      rw [same] at high
      simp only [cutChunk, UInt64.toNat_mod, before_toNat later, if_true]
      exact if_neg (by omega)
    rw [same, show stop.toNat / chunkSize.toNat + 1 - stop.toNat / chunkSize.toNat = 0 + 1 by omega,
      readChunks_turn chunked (by omega), nothing]
    rfl

/-- **A range that is not empty and whose end does not wrap** is a slice of the content. -/
theorem downloadRange_eq_slice (below : offset.toNat < data.length)
    (some : 0 < length.toNat) (fits : offset.toNat + length.toNat < 2 ^ 64) :
    downloadRange s chunkSize id offset length =
      .ok (slice data offset.toNat (min (offset.toNat + length.toNat) data.length)) := by
  obtain ⟨stop, hashes, stop_is, chunked, read⟩ := downloadRange_inside stored length below
  have positive := stored.positive
  have vector := stored.vector
  rw [Nat.mod_eq_of_lt fits] at stop_is
  have ordered : offset.toNat < stop.toNat := by omega
  have capacity : ¬ maxCapacity < (stop - offset).toNat := by
    rw [UInt64.toNat_sub_of_le _ _ (UInt64.le_iff_toNat_le.mpr (Nat.le_of_lt ordered))]
    omega
  have turns : offset.toNat / chunkSize.toNat ≤ (stop.toNat - 1) / chunkSize.toNat :=
    Nat.div_le_div_right (by omega)
  have start : max offset.toNat (offset.toNat / chunkSize.toNat * chunkSize.toNat) = offset.toNat :=
    Nat.max_eq_left (Nat.div_mul_le_self ..)
  have last : offset.toNat / chunkSize.toNat + ((stop.toNat - 1) / chunkSize.toNat - offset.toNat / chunkSize.toNat) =
      (stop.toNat - 1) / chunkSize.toNat := by omega
  have run := readChunks_eq (s := s) positive chunked ordered (by omega) (le_rfl) last
  rw [start, slice_self] at run
  rw [read, if_neg capacity, before_toNat (by omega), Nat.sub_add_comm turns, run, stop_is]

end

end

/-- **A ranged read is right**: below the size it gives the bytes of the full read, from the offset to the end
of the range or of the content; from the size on it is refused. -/
structure ReadsRange (X : Extern) (s : Store) (chunkSize : UInt64) (id : Text) (size : Nat) (offset length : UInt64) :
    Prop where
  inside : offset.toNat < size → ∃ full, download X s id = .ok full ∧
    downloadRange s chunkSize id offset length =
      .ok (slice full offset.toNat (min (offset.toNat + length.toNat) size))
  beyond : size ≤ offset.toNat → downloadRange s chunkSize id offset length = .err .invalidRange

/-- **Ranged reads are slices of full reads if and only if** the end of the range is a `u64` and the range is
not the empty one at the start, or it begins behind the content. -/
theorem ranges_are_slices_iff (stored : StoredBlob X s chunkSize id data) (offset length : UInt64) :
    ReadsRange X s chunkSize id data.length offset length ↔ data.length ≤ offset.toNat ∨
      offset.toNat + length.toNat < 2 ^ 64 ∧ ¬ (offset = 0 ∧ length = 0) := by
  by_cases beyond : data.length ≤ offset.toNat
  · refine iff_of_true ⟨fun inside => absurd beyond (Nat.not_le.mpr inside), fun _ => ?_⟩ (.inl beyond)
    exact downloadRange_beyond stored beyond
  have below := Nat.not_le.mp beyond
  have only (read : downloadRange s chunkSize id offset length = .panic) :
      ¬ ReadsRange X s chunkSize id data.length offset length := by
    intro right
    obtain ⟨full, -, given⟩ := right.inside below
    rw [read] at given
    cases given
  by_cases wraps : 2 ^ 64 ≤ offset.toNat + length.toNat
  · refine iff_of_false (only (downloadRange_wraps stored below wraps)) ?_
    rintro (behind | ⟨fits, -⟩)
    · exact beyond behind
    · exact absurd fits (Nat.not_lt.mpr wraps)
  have fits := Nat.not_le.mp wraps
  by_cases nothing : offset = 0 ∧ length = 0
  · obtain ⟨rfl, rfl⟩ := nothing
    refine iff_of_false (only (downloadRange_nothing_at_start stored (Nat.lt_of_le_of_lt (Nat.zero_le _) below))) ?_
    rintro (behind | ⟨-, something⟩)
    · exact beyond behind
    · exact something ⟨rfl, rfl⟩
  refine iff_of_true ⟨fun _ => ⟨data, stored.download_eq, ?_⟩, fun behind => absurd behind beyond⟩
    (.inr ⟨fits, nothing⟩)
  by_cases some : 0 < length.toNat
  · exact downloadRange_eq_slice stored below some fits
  · obtain rfl : length = 0 := UInt64.toNat_inj.mp (Nat.le_zero.mp (Nat.not_lt.mp some))
    have later : 0 < offset.toNat := by
      refine Nat.pos_of_ne_zero fun start => nothing ⟨UInt64.toNat_inj.mp start, rfl⟩
    rw [downloadRange_nothing stored below later, UInt64.toNat_zero, Nat.add_zero,
      Nat.min_eq_left (Nat.le_of_lt below), slice_self]

/-- Digests that are the bytes themselves. -/
def Extern.identity : Extern where
  hash data := data
  isAlphanumeric c := c.isAlphanum

/-- The bytes one to seven in chunks of three. -/
def sevenBytes : Store where
  chunks := ((∅ : ByteMap Bytes).insert [1, 2, 3] [1, 2, 3]).insert [4, 5, 6] [4, 5, 6] |>.insert [7] [7]
  metadata := [{ id := "b".toList, nameSpace := "n".toList, size := 7, sha256 := [1, 2, 3, 4, 5, 6, 7],
                 chunkHashes := [[1, 2, 3], [4, 5, 6], [7]], expiresAt := none }]
  namespaces := ["n".toList]

theorem sevenBytes_stored : StoredBlob Extern.identity sevenBytes 3 "b".toList [1, 2, 3, 4, 5, 6, 7] where
  positive := by decide
  vector := by decide
  metadata := ⟨_, rfl, rfl, rfl, [[1, 2, 3], [4, 5, 6], [7]], rfl, rfl, by decide⟩

/-- Bytes three to six. -/
theorem sevenBytes_slice : ReadsRange Extern.identity sevenBytes 3 "b".toList 7 2 4 ↔
    7 ≤ (2 : UInt64).toNat ∨ (2 : UInt64).toNat + (4 : UInt64).toNat < 2 ^ 64 ∧
      ¬ ((2 : UInt64) = 0 ∧ (4 : UInt64) = 0) :=
  ranges_are_slices_iff sevenBytes_stored 2 4

/-- Nothing from the start on, and everything from the second byte on. -/
theorem sevenBytes_panics : ¬ ReadsRange Extern.identity sevenBytes 3 "b".toList 7 0 0 ∧
    ¬ ReadsRange Extern.identity sevenBytes 3 "b".toList 7 1 0xFFFFFFFFFFFFFFFF := by
  have only {offset length : UInt64} (below : offset.toNat < 7)
      (read : downloadRange sevenBytes 3 "b".toList offset length = .panic) :
      ¬ ReadsRange Extern.identity sevenBytes 3 "b".toList 7 offset length := by
    intro right
    obtain ⟨full, -, given⟩ := right.inside below
    rw [read] at given
    cases given
  exact ⟨only (by decide) (downloadRange_nothing_at_start sevenBytes_stored (by decide)),
    only (by decide) (downloadRange_wraps sevenBytes_stored (by decide) (by decide))⟩

end NovaRuntime.Blob
