/-
# NovaRuntime.Storage.SSTableOpen — `SSTable::open`, and what it makes of a written file

`open` checks the size and the magic number of a file, walks through its index for the first
and the last key, and reads the bloom filter. It computes the checksum of the index, reads the
one of the footer, and compares nothing. `openTable_eq` says what it makes of a file with a
written footer, whatever its index region holds. A written table is read back whole
(`reads_back_iff`) unless its filter is too large for `BloomFilter::decode`, or it has more
blocks than the footer counts.
-/
import NovaRuntime.Storage.BloomFile
import NovaRuntime.Storage.SSTableSpec

namespace NovaRuntime.Storage

open NovaRuntime.Library

set_option autoImplicit false

namespace SSTable

/-- The loop over the index: the first first key and the last last key so far. A key that
does not fit ends the loop; the length of a last key is read unchecked. -/
def keyRangeLoop : Nat → Bytes → Option Key → Option Key → Result (Option Key × Option Key)
  | 0, _, keyMin, keyMax => .ok (keyMin, keyMax)
  | n + 1, index, keyMin, keyMax =>
    if index.length < 32 then .ok (keyMin, keyMax) else
    let firstLen := ofLe (slice index 24 4)
    let rest := index.drop 28
    if rest.length < firstLen then .ok (keyMin, keyMax) else
    let keyMin := keyMin.or (some (rest.take firstLen))
    let rest := rest.drop firstLen
    if rest.length < 4 then .panic else
    let lastLen := ofLe (rest.take 4)
    let rest := rest.drop 4
    if rest.length < lastLen then .ok (keyMin, keyMax) else
    keyRangeLoop n (rest.drop lastLen) keyMin (some (rest.take lastLen))

/-- The bloom filter at the place the footer gives, or a new one. -/
def readBloom (X : Extern) (file : Bytes) (bloomOffset bloomLength : Nat) : Result BloomFilter :=
  if bloomLength > 0 then do
    let lenBuf ← readExact file bloomOffset 4
    let data ← readExact file (bloomOffset + 4) (ofLe lenBuf)
    BloomFilter.decode data
  else .ok (BloomFilter.new X 1000 10)

/-- `SSTable::open`. The number and the level are those of the file's name. -/
def openTable (X : Extern) (files : SstFiles) (path : SstPath) : Result SSTable := do
  let file ← openFile files path
  if file.length < footerSize then .err (.corruptData "SSTable too small") else
  let footer := file.drop (file.length - footerSize)
  if ofLe (slice footer 0 4) ≠ magic then .err (.corruptData "SSTable invalid magic") else do
  let index ← readExact file (ofLe (slice footer 8 8)) (ofLe (slice footer 16 8))
  -- the checksums of the index and of the footer are both read here, and not compared
  if index.length < 4 then .panic else do
  let range ← keyRangeLoop (ofLe (slice index 0 4)) (index.drop 4) none none
  let bloomFilter ← readBloom X file (ofLe (slice footer 24 8)) (ofLe (slice footer 32 8))
  .ok {
    id := path.id, path
    keyMin := range.1.getD []
    keyMax := range.2.getD []
    level := path.level
    size := file.length
    bloomFilter }

/-! ## A file with a written footer -/

namespace Builder

/-- The footer that a builder writes. -/
abbrev footer (X : Extern) (b : Builder) : Bytes :=
  encodeFooter X (b.file.length + (4 + b.bloom.encode.length)) b.file.length b.bloom.encode.length
    (encodeIndex b.dataBlocks) b.dataBlocks

/-- The file of a builder, with other bytes in the place of the index. -/
def fileWith (X : Extern) (b : Builder) (index : Bytes) : Bytes :=
  (b.file ++ (le 4 b.bloom.encode.length ++ b.bloom.encode)) ++ (index ++
    encodeFooter X (b.file.length + (4 + b.bloom.encode.length)) b.file.length b.bloom.encode.length
      (encodeIndex b.dataBlocks) b.dataBlocks)

theorem fileWith_index (X : Extern) (b : Builder) :
    b.fileWith X (encodeIndex b.dataBlocks) = b.file ++ tail X b := by
  simp only [fileWith, tail, List.append_assoc]

variable {X : Extern} {b : Builder} {index : Bytes}

/-- What the footer says. -/
structure Footer (footer : Bytes) (b : Builder) : Prop where
  magic : ofLe (slice footer 0 4) = SSTable.magic
  indexOffset : ofLe (slice footer 8 8) = b.file.length + (4 + b.bloom.encode.length)
  indexLength : ofLe (slice footer 16 8) = (encodeIndex b.dataBlocks).length
  bloomOffset : ofLe (slice footer 24 8) = b.file.length
  bloomLength : ofLe (slice footer 32 8) = b.bloom.encode.length

theorem length_encodeFooter (X : Extern) (indexOffset bloomOffset bloomLen : Nat) (index : Bytes)
    (blocks : List DataBlockHeader) : (encodeFooter X indexOffset bloomOffset bloomLen index blocks).length = footerSize := by
  simp [encodeFooter, footerSize]

theorem footer_encodeFooter (X : Extern) (b : Builder)
    (bounded : (b.fileWith X (encodeIndex b.dataBlocks)).length < maxFileSize) : Footer (b.footer X) b := by
  simp only [fileWith, List.length_append, length_le, maxFileSize] at bounded
  refine ⟨?_, ?_, ?_, ?_, ?_⟩
  · simp only [encodeFooter, slice]
    simp [List.drop_append]
    exact ofLe_le_of_lt (by decide)
  all_goals
    simp only [encodeFooter, slice]
    simp [List.drop_append, List.drop_of_length_le]
    exact ofLe_le_of_lt (by omega)

theorem length_fileWith (X : Extern) (b : Builder) (index : Bytes) :
    (b.fileWith X index).length = b.file.length + (4 + b.bloom.encode.length) + (index.length + footerSize) := by
  rw [fileWith, List.length_append, List.length_append, List.length_append, List.length_append, length_le,
    length_encodeFooter]

/-- The footer of the file, and the index in front of it. -/
theorem fileWith_parts (X : Extern) (b : Builder) (index : Bytes) :
    (b.fileWith X index).drop ((b.fileWith X index).length - footerSize) = b.footer X ∧
      slice (b.fileWith X index) (b.file.length + (4 + b.bloom.encode.length)) index.length = index := by
  constructor
  · have cut : (b.fileWith X index).length - footerSize =
        ((b.file ++ (le 4 b.bloom.encode.length ++ b.bloom.encode)) ++ index).length := by
      rw [length_fileWith, List.length_append, List.length_append, List.length_append, length_le]
      omega
    have parts : b.fileWith X index = ((b.file ++ (le 4 b.bloom.encode.length ++ b.bloom.encode)) ++ index) ++
        b.footer X := by
      simp only [fileWith, List.append_assoc]
    rw [cut, parts]
    exact List.drop_left
  · refine slice_of_eq _ _ _ rfl ?_ rfl
    rw [List.length_append, List.length_append, length_le]

/-- The filter of a builder as it is read from its file: `data` is as much of it as the
written length says. -/
theorem readBloom_fileWith (X : Extern) (b : Builder) (index : Bytes) (written : 0 < b.bloom.encode.length) :
    readBloom X (b.fileWith X index) b.file.length b.bloom.encode.length =
      BloomFilter.decode (b.bloom.encode.take (b.bloom.encode.length % 2 ^ 32)) := by
  have length := length_fileWith X b index
  have short : b.bloom.encode.length % 2 ^ 32 ≤ b.bloom.encode.length := Nat.mod_le _ _
  have lenBuf : slice (b.fileWith X index) b.file.length 4 = le 4 b.bloom.encode.length := by
    refine slice_of_eq b.file _ (b.bloom.encode ++ (index ++ b.footer X)) ?_ rfl (length_le _ _).symm
    simp only [fileWith, List.append_assoc]
  have data : slice (b.fileWith X index) (b.file.length + 4) (b.bloom.encode.length % 2 ^ 32) =
      b.bloom.encode.take (b.bloom.encode.length % 2 ^ 32) := by
    have front : b.file.length + 4 = (b.file ++ le 4 b.bloom.encode.length).length := by
      rw [List.length_append, length_le]
    have parts : b.fileWith X index = (b.file ++ le 4 b.bloom.encode.length) ++ (b.bloom.encode ++
        (index ++ b.footer X)) := by
      simp only [fileWith, List.append_assoc]
    rw [front, parts]
    have here := slice_append_right (b.file ++ le 4 b.bloom.encode.length) (b.bloom.encode ++ (index ++ b.footer X))
      0 (b.bloom.encode.length % 2 ^ 32)
    rw [Nat.add_zero] at here
    rw [here, slice_append_left _ (by omega), slice, List.drop_zero]
  rw [readBloom, if_pos written, readExact, if_pos (by omega), lenBuf, Outcome.ok_bind, ofLe_le,
    show (256 ^ 4 : Nat) = 2 ^ 32 from rfl, readExact, if_pos (by omega), data, Outcome.ok_bind]

/-- **What `open` makes of a file** with a written footer: the checksum of the index plays no part. -/
theorem openTable_eq {files : SstFiles} {path : SstPath} (stored : files path = some (b.fileWith X index))
    (same : index.length = (encodeIndex b.dataBlocks).length)
    (bounded : (b.fileWith X index).length < maxFileSize) (written : 0 < b.bloom.encode.length) :
    openTable X files path = (do
      let range ← keyRangeLoop (ofLe (slice index 0 4)) (index.drop 4) none none
      let bloomFilter ← BloomFilter.decode (b.bloom.encode.take (b.bloom.encode.length % 2 ^ 32))
      .ok {
        id := path.id, path
        keyMin := range.1.getD []
        keyMax := range.2.getD []
        level := path.level
        size := (b.fileWith X index).length
        bloomFilter }) := by
  have total : (b.fileWith X index).length = (b.fileWith X (encodeIndex b.dataBlocks)).length := by
    rw [length_fileWith, length_fileWith, same]
  have footer := footer_encodeFooter X b (by rw [← total]; exact bounded)
  obtain ⟨last, here⟩ := fileWith_parts X b index
  have length := length_fileWith X b index
  have some : 4 ≤ index.length := by
    rw [same, encodeIndex, List.length_append, length_le]
    exact Nat.le_add_right _ _
  rw [openTable, openFile, stored]
  simp only [Outcome.ok_bind]
  rw [if_neg (by omega), last, footer.magic, if_neg (fun differ => differ rfl), footer.indexOffset,
    footer.indexLength, footer.bloomOffset, footer.bloomLength, ← same, readExact, if_pos (by omega), here,
    Outcome.ok_bind, if_neg (by omega), readBloom_fileWith X b index written]

/-! ## The file of a table that was written -/

theorem keeps_bloom_writeAll (filter : BloomFilter) (bytes : Bytes) :
    Exec.Keeps (fun b => b.bloom = filter) (writeAll bytes) := by
  refine Exec.keeps_get_bind fun b => ?_
  split
  · exact fun _ held => held
  · exact Exec.keeps_lift _ _

theorem keeps_bloom_finishBlock (X : Extern) (filter : BloomFilter) :
    Exec.Keeps (fun b => b.bloom = filter) (finishBlock X) := by
  refine Exec.keeps_get_bind fun b => (Exec.keeps_lift _ _).bind fun compressed => ?_
  exact (keeps_bloom_writeAll filter compressed).bind fun _ _ held => held

theorem add_bloom {b' : Builder} {key : Key} {value : Option Value} (added : add X key value b = (.ok (), b')) :
    b'.bloom = b.bloom.insert X key := by
  simp only [add, Exec.modify_bind, Exec.get_bind] at added
  split at added
  · obtain ⟨_, mid, finished, pushed⟩ := Exec.bind_eq_ok.mp added
    have kept := keeps_bloom_finishBlock X (b.bloom.insert X key) { b with bloom := b.bloom.insert X key } rfl
    rw [finished] at kept
    cases pushed
    exact kept
  · cases added
    rfl

/-- The filter knows the keys in their order. -/
theorem addAll_bloom {entries : List Entry} {b' : Builder} (added : addAll X entries b = (.ok (), b')) :
    b'.bloom = (entries.map Prod.fst).foldl (BloomFilter.insert X) b.bloom := by
  induction entries generalizing b with
  | nil =>
    cases added
    rfl
  | cons e entries ih =>
    rw [addAll, Exec.bind_eq_ok] at added
    obtain ⟨_, mid, first, rest⟩ := added
    rw [ih rest, add_bloom first, List.map_cons, List.foldl_cons]

theorem finish_tail {b' : Builder} (finished : finish X b = (.ok (), b')) :
    ∃ mid : Builder, mid.bloom = b.bloom ∧ b' = mid.append (tail X mid) ∧ b'.file.length < maxFileSize := by
  simp only [finish, Exec.get_bind] at finished
  split at finished
  · obtain ⟨_, mid, last, rest⟩ := Exec.bind_eq_ok.mp finished
    have kept := keeps_bloom_finishBlock X b.bloom b rfl
    rw [last] at kept
    exact ⟨mid, kept, writeTail_ok rest⟩
  · exact ⟨b, rfl, writeTail_ok finished⟩

end Builder

/-- The filter of a table of these entries. -/
def filterOf (X : Extern) (entries : List Entry) : BloomFilter :=
  (entries.map Prod.fst).foldl (BloomFilter.insert X)
    (BloomFilter.new X (entries.length % 2 ^ 32) BloomFilter.defaultBitsPerKey)

section

variable {X : Extern} {id level : Nat} {entries : List Entry} {files files' : SstFiles} {t : SSTable}

/-- **A file that was written**: blocks, filter, index and footer. -/
theorem createWithTombstones_layout (created : createWithTombstones X id level entries files = (.ok t, files')) :
    ∃ b : Builder, files' ⟨id, level⟩ = some (b.fileWith X (encodeIndex b.dataBlocks)) ∧
      (b.fileWith X (encodeIndex b.dataBlocks)).length < maxFileSize ∧ b.bloom = filterOf X entries ∧
      t.bloomFilter = filterOf X entries := by
  rw [createWithTombstones, Prod.mk.injEq, Outcome.bind_eq_ok] at created
  obtain ⟨⟨_, ran, table⟩, rfl⟩ := created
  obtain ⟨_, mid, added, finished⟩ := Exec.bind_eq_ok.mp
    (Prod.ext ran rfl : (do Builder.addAll X entries; Builder.finish X : Method Builder Unit) _ = (.ok (), _))
  obtain ⟨b, bloom, written, bounded⟩ := Builder.finish_tail finished
  have known : b.bloom = filterOf X entries := bloom.trans (Builder.addAll_bloom added)
  have file := (congrArg Builder.file written).trans (Builder.fileWith_index X b).symm
  rw [file] at bounded
  refine ⟨b, ?_, bounded, known, ?_⟩
  · rw [Function.update_self]
    exact congrArg some file
  · rw [← Outcome.ok.inj table]
    exact (congrArg Builder.bloom written).trans known

theorem rawBits_default (numKeys : Nat) :
    BloomFilter.rawBits numKeys BloomFilter.defaultBitsPerKey = max numKeys 1 * 10 := rfl

/-- The filter of a table is one that `new` builds. -/
theorem fits_filterOf (X : Extern) (entries : List Entry) :
    (filterOf X entries).Fits ∧ (filterOf X entries).bits.length =
      (BloomFilter.new X (entries.length % 2 ^ 32) BloomFilter.defaultBitsPerKey).bits.length := by
  refine BloomFilter.Fits.insertAll (BloomFilter.fits_new X (Nat.mod_lt _ (by decide)) ?_) X _
  have small : entries.length % 2 ^ 32 < 2 ^ 32 := Nat.mod_lt _ (by decide)
  rw [rawBits_default]
  omega

/-- The filter has at most 2^20 words. -/
def SmallFilter (entries : List Entry) : Prop := entries.length % 2 ^ 32 ≤ 6710886

instance (entries : List Entry) : Decidable (SmallFilter entries) := inferInstanceAs (Decidable (_ ≤ _))

theorem decode_filterOf (few : SmallFilter entries) :
    BloomFilter.decode ((filterOf X entries).encode.take ((filterOf X entries).encode.length % 2 ^ 32)) =
      .ok (filterOf X entries) := by
  obtain ⟨fits, words⟩ := fits_filterOf X entries
  have bits : (BloomFilter.new X (entries.length % 2 ^ 32) BloomFilter.defaultBitsPerKey).numBits ≤ 2 ^ 26 := by
    refine (BloomFilter.numBits_new_le (by decide)).mpr ?_
    rw [SmallFilter] at few
    rw [rawBits_default]
    omega
  have count := (BloomFilter.wellSized_new X (entries.length % 2 ^ 32) BloomFilter.defaultBitsPerKey).2.2
  have small : (filterOf X entries).bits.length ≤ 2 ^ 20 := by omega
  have length : (filterOf X entries).encode.length = 20 + (filterOf X entries).bits.length * 8 := by
    rw [BloomFilter.encode_eq, List.length_append, BloomFilter.length_header, BloomFilter.length_encodeWords]
  rw [Nat.mod_eq_of_lt (by omega), List.take_length, fits.decode_encode small]

/-- A larger filter is refused, also where its length does not fit the four bytes it is written in. -/
theorem decode_filterOf_large (many : ¬ SmallFilter entries) :
    ∃ e, BloomFilter.decode ((filterOf X entries).encode.take ((filterOf X entries).encode.length % 2 ^ 32)) = .err e := by
  obtain ⟨fits, words⟩ := fits_filterOf X entries
  have large : 2 ^ 26 < BloomFilter.rawBits (entries.length % 2 ^ 32) BloomFilter.defaultBitsPerKey := by
    rw [SmallFilter] at many
    rw [rawBits_default]
    omega
  have past := BloomFilter.words_new (X := X) large
  rw [← words] at past
  generalize (filterOf X entries).encode.length % 2 ^ 32 = len
  by_cases short : ((filterOf X entries).encode.take len).length < 20
  · exact ⟨_, by rw [BloomFilter.decode, if_pos short]⟩
  · refine ⟨.corruptData "Bloom filter corrupt: invalid bit_len", ?_⟩
    have parts : (filterOf X entries).encode.take len = (filterOf X entries).header ++
        (BloomFilter.encodeWords (filterOf X entries).bits).take (len - 20) := by
      rw [BloomFilter.encode_eq, List.take_append, BloomFilter.length_header, List.take_of_length_le]
      rw [BloomFilter.length_header]
      rw [List.length_take] at short
      omega
    rw [parts]
    exact fits.decode_refuses past _

/-! ## Reading a table back -/

theorem keyRangeLoop_step {index rest : Bytes} {e : IndexEntry} (long : ¬ index.length < 32)
    (read : readIndexEntry index = .ok (e, rest)) (n : Nat) (keyMin keyMax : Option Key) :
    keyRangeLoop (n + 1) index keyMin keyMax = keyRangeLoop n rest (keyMin.or (some e.firstKey)) (some e.lastKey) := by
  rw [readIndexEntry] at read
  rw [keyRangeLoop, if_neg long]
  dsimp only at read ⊢
  split at read
  · cases read
  next firstFits =>
    rw [if_neg firstFits]
    split at read
    · cases read
    next lenFits =>
      rw [if_neg lenFits]
      split at read
      · cases read
      next lastFits =>
        rw [if_neg lastFits]
        cases read
        rfl

/-- The walk through an index that was written comes to its end. -/
theorem keyRangeLoop_headers {file : Bytes} (bounded : file.length < maxFileSize) {headers : List DataBlockHeader}
    {chunks : List (List Entry)} (blocks : List.Forall₂ (BlockAt X file) headers chunks) (n : Nat)
    (keyMin keyMax : Option Key) :
    ∃ range, keyRangeLoop n (headers.flatMap encodeHeader) keyMin keyMax = .ok range := by
  induction blocks generalizing n keyMin keyMax with
  | nil => cases n <;> exact ⟨_, rfl⟩
  | @cons h chunk headers chunks block blocks ih =>
    cases n with
    | zero => exact ⟨_, rfl⟩
    | succ n =>
      rw [List.flatMap_cons, keyRangeLoop_step (long_encodeHeader h _) (readIndexEntry_encodeHeader block bounded _)]
      exact ih n _ _

/-- The table on disk is opened, and its reads say what the entries say. -/
def ReadsBack (X : Extern) (files : SstFiles) (path : SstPath) (entries : List Entry) : Prop :=
  ∃ t, openTable X files path = .ok t ∧
    (∀ key, getWithTombstone X files t key = .ok (entries.lookup key)) ∧
    ∀ start stop, scanWithTombstones X files t start stop = .ok (entries.filter (inRange start stop))

/-- The filter cannot be read back. -/
theorem not_readsBack_of_large (created : createWithTombstones X id level entries files = (.ok t, files'))
    (many : ¬ SmallFilter entries) : ¬ ReadsBack X files' ⟨id, level⟩ entries := by
  rintro ⟨opened, isOk, -⟩
  obtain ⟨b, stored, bounded, bloom, -⟩ := createWithTombstones_layout created
  obtain ⟨e, refused⟩ := decode_filterOf_large (X := X) many
  rw [Builder.openTable_eq stored rfl bounded b.bloom.encode_pos, bloom, refused] at isOk
  obtain ⟨range, -, rest⟩ := Outcome.bind_eq_ok.mp isOk
  cases rest

/-- What is opened is the table that was written, as far as its reads see it. -/
theorem openTable_written (laws : X.SnappyLaws) (sorted : SortedKeys entries)
    (created : createWithTombstones X id level entries files = (.ok t, files')) (few : SmallFilter entries) :
    ∃ t', openTable X files' ⟨id, level⟩ = .ok t' ∧ t'.path = t.path ∧ t'.bloomFilter = t.bloomFilter := by
  obtain ⟨es, holds, -, -⟩ := createWithTombstones_spec laws sorted created
  obtain ⟨file, headers, chunks, known, small, -, read, blocks, -, -⟩ := holds.layout
  obtain ⟨b, stored, bounded, bloom, filter⟩ := createWithTombstones_layout created
  have path := createWithTombstones_path created
  rw [path, stored] at known
  cases known
  -- the index of the file is that of its blocks
  have index : encodeIndex b.dataBlocks = encodeIndex headers := by
    rw [Builder.fileWith_index, (Builder.readIndex_tail (Builder.fileWith_index X b ▸ bounded)).2] at read
    exact (Prod.mk.inj (Outcome.ok.inj read)).1
  obtain ⟨range, walked⟩ := keyRangeLoop_headers small blocks (ofLe (slice (encodeIndex headers) 0 4)) none none
  rw [Builder.openTable_eq stored rfl bounded b.bloom.encode_pos, bloom, decode_filterOf few, index, drop_encodeIndex, walked]
  exact ⟨_, rfl, path.symm, filter.symm⟩

/-- **A table that was written is read back** exactly if its filter is small enough to be
decoded and its blocks can be counted. -/
theorem reads_back_iff (laws : X.SnappyLaws) (sorted : SortedKeys entries)
    (created : createWithTombstones X id level entries files = (.ok t, files')) :
    ReadsBack X files' ⟨id, level⟩ entries ↔ SmallFilter entries ∧ blockCount entries < 2 ^ 32 := by
  obtain ⟨es, holds, sub, whole⟩ := createWithTombstones_spec laws sorted created
  constructor
  · intro back
    have few : SmallFilter entries := by
      by_contra many
      exact not_readsBack_of_large created many back
    obtain ⟨t', isOk, gets, -⟩ := back
    obtain ⟨t'', isOk', path, filter⟩ := openTable_written laws sorted created few
    cases isOk.symm.trans isOk'
    have same : Holds X files' t' es := ⟨holds.sorted, by rw [filter]; exact holds.filter, by rw [path]; exact holds.layout⟩
    refine ⟨few, whole.mp (SortedKeys.ext holds.sorted sorted fun key => ?_)⟩
    exact Outcome.ok.inj ((getWithTombstone_eq same key).symm.trans (gets key))
  · rintro ⟨few, countable⟩
    obtain ⟨t', isOk, path, filter⟩ := openTable_written laws sorted created few
    have all := whole.mpr countable
    have same : Holds X files' t' entries :=
      ⟨sorted, by rw [filter, ← all]; exact holds.filter, by rw [path, ← all]; exact holds.layout⟩
    exact ⟨t', isOk, getWithTombstone_eq same, scanWithTombstones_eq same⟩

end

end SSTable

end NovaRuntime.Storage
