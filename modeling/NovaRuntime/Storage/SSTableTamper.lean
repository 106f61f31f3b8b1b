/-
# NovaRuntime.Storage.SSTableTamper — an index that was changed on disk

The writer computes the checksum of the index and puts it into the footer. `open` compares
nothing, and the walk through the index only stops: a file whose index was changed is opened,
unless a length makes the walk read past its end, which is a panic (`Overruns`). What is an
error stays one: a filter that is too large to decode (`detected_iff`).
-/
import NovaRuntime.Storage.SSTableWrite

namespace NovaRuntime.Storage

open NovaRuntime.Library

set_option autoImplicit false

namespace SSTable

/-- The walk meets a first key that ends less than four bytes before the end of the index. -/
def Overruns : Nat → Bytes → Prop
  | 0, _ => False
  | n + 1, index =>
    let firstLen := ofLe (slice index 24 4)
    let rest := (index.drop 28).drop firstLen
    let lastLen := ofLe (rest.take 4)
    32 ≤ index.length ∧ firstLen ≤ (index.drop 28).length ∧
      (rest.length < 4 ∨ lastLen ≤ (rest.drop 4).length ∧ Overruns n ((rest.drop 4).drop lastLen))

/-- **The walk through an index** ends, or panics where it overruns. -/
theorem keyRangeLoop_cases (n : Nat) (index : Bytes) (keyMin keyMax : Option Key) :
    keyRangeLoop n index keyMin keyMax = .panic ∧ Overruns n index ∨
      (∃ range, keyRangeLoop n index keyMin keyMax = .ok range) ∧ ¬ Overruns n index := by
  induction n generalizing index keyMin keyMax with
  | zero => exact .inr ⟨⟨_, rfl⟩, fun held => held⟩
  | succ n ih =>
    rw [keyRangeLoop, Overruns]
    dsimp only
    by_cases short : index.length < 32
    · rw [if_pos short]
      exact .inr ⟨⟨_, rfl⟩, fun held => absurd short (not_lt.mpr held.1)⟩
    rw [if_neg short]
    by_cases firstFits : (index.drop 28).length < ofLe (slice index 24 4)
    · rw [if_pos firstFits]
      exact .inr ⟨⟨_, rfl⟩, fun held => absurd firstFits (not_lt.mpr held.2.1)⟩
    rw [if_neg firstFits]
    by_cases lenFits : ((index.drop 28).drop (ofLe (slice index 24 4))).length < 4
    · rw [if_pos lenFits]
      exact .inl ⟨rfl, not_lt.mp short, not_lt.mp firstFits, .inl lenFits⟩
    rw [if_neg lenFits]
    split
    next lastFits =>
      refine .inr ⟨⟨_, rfl⟩, fun held => ?_⟩
      rcases held.2.2 with cut | fits
      · exact lenFits cut
      · exact absurd lastFits (not_lt.mpr fits.1)
    next lastFits =>
      rcases ih _ _ _ with ⟨panics, overruns⟩ | ⟨ends, never⟩
      · exact .inl ⟨panics, not_lt.mp short, not_lt.mp firstFits, .inr ⟨not_lt.mp lastFits, overruns⟩⟩
      · refine .inr ⟨ends, fun held => ?_⟩
        rcases held.2.2 with cut | fits
        · exact lenFits cut
        · exact never fits.2

/-! ## The index region of a file -/

def indexOffset (file : Bytes) : Nat := ofLe (slice (file.drop (file.length - footerSize)) 8 8)

def indexLength (file : Bytes) : Nat := ofLe (slice (file.drop (file.length - footerSize)) 16 8)

/-- `file'` is `file` with bytes of its index changed, and with them the checksum. -/
structure Tampered (X : Extern) (file file' : Bytes) : Prop where
  length : file'.length = file.length
  outside : ∀ i, i < indexOffset file ∨ indexOffset file + indexLength file ≤ i → file'[i]? = file[i]?
  checksum : X.crc32c (slice file' (indexOffset file) (indexLength file)) ≠
    X.crc32c (slice file (indexOffset file) (indexLength file))

section

variable {X : Extern}

/-- What is left of a list where a stretch of it was changed. -/
theorem stretch_of_outside {front mid back : Bytes} {file' : Bytes}
    (outside : ∀ i, i < front.length ∨ front.length + mid.length ≤ i → file'[i]? = (front ++ (mid ++ back))[i]?) :
    file' = front ++ (slice file' front.length mid.length ++ back) := by
  have first : file'.take front.length = front := by
    refine List.ext_getElem? fun i => ?_
    rcases Nat.lt_or_ge i front.length with inside | past
    · rw [List.getElem?_take_of_lt inside, outside i (.inl inside), List.getElem?_append_left inside]
    · rw [List.getElem?_take_eq_none past, List.getElem?_eq_none past]
  have last : file'.drop (front.length + mid.length) = back := by
    refine List.ext_getElem? fun i => ?_
    rw [List.getElem?_drop, outside _ (.inr (Nat.le_add_right _ _)), ← List.append_assoc, ← List.length_append,
      List.getElem?_append_right (Nat.le_add_right _ _), Nat.add_sub_cancel_left]
  have middle : slice file' front.length mid.length ++ back = file'.drop front.length := by
    rw [slice, ← last, ← List.drop_drop, List.take_append_drop]
  rw [middle]
  conv_lhs => rw [← List.take_append_drop front.length file', first]

/-- Where the index of a file with a written footer is. -/
theorem region_fileWith (b : Builder) (bounded : (b.fileWith X (encodeIndex b.dataBlocks)).length < maxFileSize) :
    indexOffset (b.fileWith X (encodeIndex b.dataBlocks)) = b.file.length + (4 + b.bloom.encode.length) ∧
      indexLength (b.fileWith X (encodeIndex b.dataBlocks)) = (encodeIndex b.dataBlocks).length := by
  have footer := Builder.footer_encodeFooter X b bounded
  rw [indexOffset, indexLength, (Builder.fileWith_parts X b _).1]
  exact ⟨footer.indexOffset, footer.indexLength⟩

variable {id level : Nat} {entries : List Entry} {files files' : SstFiles} {t : SSTable} {file file' : Bytes}

/-- **What `open` makes of a changed index**: the bytes are walked through as if they had been written. -/
theorem openTable_tampered (created : createWithTombstones X id level entries files = (.ok t, files'))
    (stored : files' ⟨id, level⟩ = some file) (tampered : Tampered X file file') :
    ∃ size, openTable X (Function.update files' ⟨id, level⟩ (some file')) ⟨id, level⟩ = (do
      let range ← keyRangeLoop (ofLe (slice (slice file' (indexOffset file) (indexLength file)) 0 4))
        ((slice file' (indexOffset file) (indexLength file)).drop 4) none none
      let bloomFilter ← BloomFilter.decode
        ((filterOf X entries).encode.take ((filterOf X entries).encode.length % 2 ^ 32))
      .ok {
        id, path := ⟨id, level⟩
        keyMin := range.1.getD []
        keyMax := range.2.getD []
        level, size, bloomFilter }) := by
  obtain ⟨b, known, bounded, bloom, -⟩ := createWithTombstones_layout created
  cases stored.symm.trans known
  obtain ⟨offset, length⟩ := region_fileWith b bounded
  have front : (b.file ++ (le 4 b.bloom.encode.length ++ b.bloom.encode)).length =
      b.file.length + (4 + b.bloom.encode.length) := by
    rw [List.length_append, List.length_append, length_le]
  have parts : file' = b.fileWith X (slice file' (b.file.length + (4 + b.bloom.encode.length))
      (encodeIndex b.dataBlocks).length) := by
    have changed : file' = (b.file ++ (le 4 b.bloom.encode.length ++ b.bloom.encode)) ++
        (slice file' (b.file ++ (le 4 b.bloom.encode.length ++ b.bloom.encode)).length (encodeIndex b.dataBlocks).length ++
          b.footer X) :=
      stretch_of_outside fun i outside => tampered.outside i (by rw [offset, length, ← front]; exact outside)
    rw [front] at changed
    exact changed
  have total := congrArg List.length parts
  rw [Builder.length_fileWith, tampered.length, Builder.length_fileWith] at total
  rw [offset, length]
  have replaced : Function.update files' ⟨id, level⟩ (some file') ⟨id, level⟩ = some (b.fileWith X (slice file'
      (b.file.length + (4 + b.bloom.encode.length)) (encodeIndex b.dataBlocks).length)) := by
    rw [Function.update_self]
    exact congrArg some parts
  have opened := Builder.openTable_eq replaced (by omega) (by rw [← parts, tampered.length]; exact bounded) b.bloom.encode_pos
  rw [← bloom]
  exact ⟨_, opened⟩

/-- **A changed index is an error** only where the filter is one already, and the walk ends. -/
theorem detected_iff (created : createWithTombstones X id level entries files = (.ok t, files'))
    (stored : files' ⟨id, level⟩ = some file) (tampered : Tampered X file file') :
    (∃ e, openTable X (Function.update files' ⟨id, level⟩ (some file')) ⟨id, level⟩ = .err e) ↔
      ¬ SmallFilter entries ∧
        ¬ Overruns (ofLe (slice (slice file' (indexOffset file) (indexLength file)) 0 4))
          ((slice file' (indexOffset file) (indexLength file)).drop 4) := by
  obtain ⟨size, opened⟩ := openTable_tampered created stored tampered
  rw [opened]
  rcases keyRangeLoop_cases (ofLe (slice (slice file' (indexOffset file) (indexLength file)) 0 4))
      ((slice file' (indexOffset file) (indexLength file)).drop 4) none none with
    ⟨panics, overruns⟩ | ⟨⟨range, ends⟩, never⟩
  · rw [panics]
    refine iff_of_false ?_ fun held => held.2 overruns
    rintro ⟨e, isErr⟩
    cases isErr
  · rw [ends, Outcome.ok_bind]
    by_cases few : SmallFilter entries
    · rw [decode_filterOf few]
      refine iff_of_false ?_ fun held => held.1 few
      rintro ⟨e, isErr⟩
      cases isErr
    · obtain ⟨e, refused⟩ := decode_filterOf_large (X := X) few
      rw [refused]
      exact iff_of_true ⟨e, rfl⟩ ⟨few, never⟩

end

/-! ## The empty table -/

/-- The file of a table without entries. -/
def emptyFile : Bytes :=
  ((createWithTombstones Extern.literal 1 0 [] fun _ => none).2 ⟨1, 0⟩).getD []

/-- Its index, which starts at byte 32, counts one block instead of none. -/
def changedFile : Bytes := emptyFile.set 32 1

theorem exists_emptyFile : ∃ t files', createWithTombstones Extern.literal 1 0 [] (fun _ => none) = (.ok t, files') ∧
    files' ⟨1, 0⟩ = some emptyFile := by
  obtain ⟨t, files', created⟩ := exists_created Extern.snappyLaws_literal 1 0
    (show ([] : List Entry).length < 2 ^ 32 by decide) (by decide) fun _ => none
  refine ⟨t, files', created, ?_⟩
  have stored : (((createWithTombstones Extern.literal 1 0 [] fun _ => none).2 ⟨1, 0⟩).isSome) = true := by
    decide +kernel
  rw [emptyFile, created]
  rw [created] at stored
  obtain ⟨file, known⟩ := Option.isSome_iff_exists.mp stored
  rw [known, Option.getD_some]
  exact known

theorem tampered_changedFile : Tampered Extern.literal emptyFile changedFile where
  length := List.length_set ..
  outside i elsewhere := by
    have region : indexOffset emptyFile = 32 ∧ indexLength emptyFile = 4 := by decide +kernel
    rw [region.1, region.2] at elsewhere
    exact List.getElem?_set_ne (by omega)
  checksum := by decide +kernel

/-- The changed file is judged by its own bytes. -/
theorem detected_changedFile : ∃ files' : SstFiles,
    (∃ e, openTable Extern.literal (Function.update files' ⟨1, 0⟩ (some changedFile)) ⟨1, 0⟩ = .err e) ↔
      ¬ SmallFilter [] ∧
        ¬ Overruns (ofLe (slice (slice changedFile (indexOffset emptyFile) (indexLength emptyFile)) 0 4))
          ((slice changedFile (indexOffset emptyFile) (indexLength emptyFile)).drop 4) := by
  obtain ⟨t, files', created, stored⟩ := exists_emptyFile
  exact ⟨files', detected_iff created stored tampered_changedFile⟩

/-- **The checksum no longer fits, and the table is opened.** -/
theorem changed_opened : ¬ ∀ (X : Extern) (id level : Nat) (entries : List Entry) (files files' : SstFiles) (t : SSTable)
    (file file' : Bytes), createWithTombstones X id level entries files = (.ok t, files') →
      files' ⟨id, level⟩ = some file → Tampered X file file' →
        ∃ e, openTable X (Function.update files' ⟨id, level⟩ (some file')) ⟨id, level⟩ = .err e := by
  intro always
  obtain ⟨t, files', created, stored⟩ := exists_emptyFile
  obtain ⟨e, isErr⟩ := always _ _ _ _ _ _ _ _ _ created stored tampered_changedFile
  obtain ⟨size, opened⟩ := openTable_tampered created stored tampered_changedFile
  rw [opened, decode_filterOf (by decide)] at isErr
  rcases keyRangeLoop_cases (ofLe (slice (slice changedFile (indexOffset emptyFile) (indexLength emptyFile)) 0 4))
      ((slice changedFile (indexOffset emptyFile) (indexLength emptyFile)).drop 4) none none with
    ⟨panics, -⟩ | ⟨⟨range, ends⟩, -⟩
  · rw [panics] at isErr
    cases isErr
  · rw [ends] at isErr
    cases isErr

end SSTable

end NovaRuntime.Storage
