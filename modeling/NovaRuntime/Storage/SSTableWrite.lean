/-
# NovaRuntime.Storage.SSTableWrite — tables that are certainly written

Writing a table fails where Snappy refuses a block or the file grows past its limit. Neither
happens to fewer than 2^32 entries of at most 64 KiB each (`exists_created`). Such a table
can have too many keys for its own filter: a table of 6710887 tombstones is written and
cannot be opened again (`written_not_opened`).
-/
import Mathlib.Data.List.Nodup
import NovaRuntime.Storage.SSTableOpen

namespace NovaRuntime.Storage

open NovaRuntime.Library

set_option autoImplicit false

namespace SSTable

/-- An entry of at most 64 KiB. -/
def Small (e : Entry) : Prop := Builder.entryLen e.1 e.2 ≤ 2 ^ 16

instance (e : Entry) : Decidable (Small e) := inferInstanceAs (Decidable (_ ≤ _))

theorem length_encodeEntry_eq (e : Entry) : (encodeEntry e).length = Builder.entryLen e.1 e.2 := by
  obtain ⟨key, value | value⟩ := e <;> simp [encodeEntry, Builder.entryLen] <;> omega

theorem Small.key {e : Entry} (small : Small e) : e.1.length ≤ 2 ^ 16 := by
  exact le_trans (by simp only [Builder.entryLen]; omega) small

namespace Builder

/-- After `n` small entries the file and the index are still short. -/
structure Moderate (n : Nat) (b : Builder) : Prop where
  file : b.file.length ≤ n * 2 ^ 17
  index : (b.dataBlocks.flatMap encodeHeader).length ≤ n * 2 ^ 18
  raw : (b.currentBlockData.flatMap encodeEntry).length = b.currentBlockSize
  size : b.currentBlockSize ≤ 2 ^ 16
  keys : ∀ e ∈ b.currentBlockData, e.1.length ≤ 2 ^ 16

variable {X : Extern} {b : Builder} {n : Nat}

theorem writeAll_fits {bytes : Bytes} (fits : b.file.length + bytes.length < maxFileSize) :
    writeAll bytes b = (.ok (), b.append bytes) := by
  simp only [writeAll, Exec.get_bind, if_pos fits, Exec.modify_apply]

theorem length_key_getD {es : List Entry} (keys : ∀ e ∈ es, e.1.length ≤ 2 ^ 16) {o : Option Entry}
    (known : ∀ e, o = some e → e ∈ es) : ((o.map Prod.fst).getD []).length ≤ 2 ^ 16 := by
  cases o with
  | none => exact Nat.zero_le _
  | some e => exact keys e (known e rfl)

section

variable (laws : X.SnappyLaws) (moderate : b.Moderate n)

include laws moderate

/-- A block of small entries is written. -/
theorem Moderate.finishBlock (few : n < 2 ^ 40) :
    ∃ b', finishBlock X b = (.ok (), b') ∧ b'.Moderate (n + 1) ∧ b'.currentBlockSize = 0 ∧
      b'.currentBlockData = [] ∧ b'.bloom = b.bloom := by
  have file := moderate.file
  have index := moderate.index
  have size := moderate.size
  obtain ⟨data, compressed⟩ := (laws.accepts (b.currentBlockData.flatMap encodeEntry)).mpr (by rw [moderate.raw]; omega)
  have short := laws.bound _ _ compressed
  rw [moderate.raw] at short
  have block : compressBlockWithTombstones X b.currentBlockData = .ok data := by
    rw [compressBlockWithTombstones, compressed]
  have fits : b.file.length + data.length < maxFileSize := by rw [maxFileSize]; omega
  have wrote := writeAll_fits fits
  have finished : Builder.finishBlock X b = (.ok (), { b.append data with
      dataBlocks := b.dataBlocks ++ [{
        offset := b.file.length
        length := data.length
        uncompressedLength := b.currentBlockSize
        firstKey := (b.currentBlockData.head?.map Prod.fst).getD []
        lastKey := (b.currentBlockData.getLast?.map Prod.fst).getD [] }]
      currentBlockData := []
      currentBlockSize := 0 }) := by
    simp only [Builder.finishBlock, Exec.get_bind, block]
    exact Exec.bind_of_ok wrote _
  refine ⟨_, finished, ⟨?_, ?_, rfl, Nat.zero_le _, List.forall_mem_nil _⟩, rfl, rfl, rfl⟩
  · rw [append, List.length_append]
    omega
  · have first := length_key_getD moderate.keys (o := b.currentBlockData.head?) fun e => List.mem_of_head?
    have last := length_key_getD moderate.keys (o := b.currentBlockData.getLast?) fun e => List.mem_of_getLast?
    rw [append, List.flatMap_append, List.length_append, List.flatMap_cons, List.flatMap_nil, List.append_nil,
      encodeHeader]
    simp only [List.length_append, length_le]
    omega

theorem Moderate.add (few : n < 2 ^ 40) {key : Key} {value : Option Value}
    (small : Small (key, value)) : ∃ b', add X key value b = (.ok (), b') ∧ b'.Moderate (n + 1) := by
  have learned : Moderate n { b with bloom := b.bloom.insert X key } :=
    ⟨moderate.file, moderate.index, moderate.raw, moderate.size, moderate.keys⟩
  have entry : (encodeEntry (key, value)).length = entryLen key value := length_encodeEntry_eq _
  have size : entryLen key value ≤ 2 ^ 16 := small
  simp only [Builder.add, Exec.modify_bind, Exec.get_bind]
  split
  · obtain ⟨mid, finished, after, empty, drained, -⟩ := learned.finishBlock laws few
    refine ⟨_, Exec.bind_of_ok finished _, after.file, after.index, ?_, ?_, fun e member => ?_⟩
    · dsimp only
      rw [drained, empty]
      simp [entry]
    · dsimp only
      rw [empty, Nat.zero_add]
      exact size
    · dsimp only at member
      rw [drained] at member
      rw [List.mem_singleton.mp member]
      exact small.key
  next room =>
    refine ⟨_, rfl, ?_, ?_, ?_, ?_, fun e member => ?_⟩
    · exact le_trans moderate.file (Nat.mul_le_mul_right _ (Nat.le_succ n))
    · exact le_trans moderate.index (Nat.mul_le_mul_right _ (Nat.le_succ n))
    · rw [List.flatMap_append, List.length_append, List.flatMap_cons, List.flatMap_nil, List.append_nil, entry,
        moderate.raw]
    · -- a block without entries has no size
      by_cases empty : b.currentBlockData = []
      · have none := moderate.raw
        rw [empty, List.flatMap_nil, List.length_nil] at none
        dsimp only
        rw [← none, Nat.zero_add]
        exact size
      · exact not_lt.mp fun large => room ⟨large, empty⟩
    · rcases List.mem_append.mp member with old | new
      · exact moderate.keys e old
      · rw [List.mem_singleton.mp new]
        exact small.key

theorem Moderate.addAll {entries : List Entry} (few : n + entries.length < 2 ^ 40) (small : ∀ e ∈ entries, Small e) :
    ∃ b', addAll X entries b = (.ok (), b') ∧ b'.Moderate (n + entries.length) := by
  induction entries generalizing b n with
  | nil => exact ⟨b, rfl, moderate⟩
  | cons e entries ih =>
    rw [List.length_cons] at few
    obtain ⟨mid, added, after⟩ := moderate.add laws (by omega) (small e (.head _))
    obtain ⟨b', rest, done⟩ := ih after (by omega) fun e' member => small e' (.tail _ member)
    refine ⟨b', (Exec.bind_of_ok added _).trans rest, ?_⟩
    rw [List.length_cons, Nat.add_comm entries.length 1, ← Nat.add_assoc]
    exact done

end

/-- Filter, index and footer still fit into the file. -/
theorem Moderate.writeTail (moderate : b.Moderate n) (few : n ≤ 2 ^ 40) (filter : b.bloom.bits.length ≤ 2 ^ 30) :
    ∃ b', writeTail X b = (.ok (), b') := by
  have file := moderate.file
  have index := moderate.index
  have bloom : b.bloom.encode.length = 20 + b.bloom.bits.length * 8 := by
    rw [BloomFilter.encode_eq, List.length_append, BloomFilter.length_header, BloomFilter.length_encodeWords]
  have indexLength : (encodeIndex b.dataBlocks).length = 4 + (b.dataBlocks.flatMap encodeHeader).length := by
    rw [encodeIndex, List.length_append, length_le]
  have most : b.file.length + 4 + b.bloom.encode.length + (encodeIndex b.dataBlocks).length + footerSize < maxFileSize := by
    rw [bloom, indexLength, footerSize, maxFileSize]
    omega
  simp only [Builder.writeTail, Exec.get_bind]
  rw [Exec.bind_of_ok (writeAll_fits (by rw [length_le]; omega))]
  rw [Exec.bind_of_ok (writeAll_fits (by simp only [append, List.length_append, length_le]; omega))]
  rw [Exec.bind_of_ok (writeAll_fits (by simp only [append, List.length_append, length_le]; omega))]
  exact ⟨_, writeAll_fits (by simp only [append, List.length_append, length_le, length_encodeFooter]; omega)⟩

theorem Moderate.finish (laws : X.SnappyLaws) (moderate : b.Moderate n) (few : n < 2 ^ 40)
    (filter : b.bloom.bits.length ≤ 2 ^ 30) : ∃ b', finish X b = (.ok (), b') := by
  simp only [Builder.finish, Exec.get_bind]
  split
  · obtain ⟨mid, finished, after, -, -, bloom⟩ := moderate.finishBlock laws few
    rw [Exec.bind_of_ok finished]
    exact after.writeTail few (bloom ▸ filter)
  · exact moderate.writeTail few.le filter

end Builder

/-- **A table of small entries is written.** -/
theorem exists_created {X : Extern} (laws : X.SnappyLaws) (id level : Nat) {entries : List Entry}
    (few : entries.length < 2 ^ 32) (small : ∀ e ∈ entries, Small e) (files : SstFiles) :
    ∃ t files', createWithTombstones X id level entries files = (.ok t, files') := by
  have fresh : Builder.Moderate 0
      { bloom := BloomFilter.new X (entries.length % 2 ^ 32) BloomFilter.defaultBitsPerKey } :=
    ⟨Nat.zero_le _, Nat.zero_le _, rfl, Nat.zero_le _, nofun⟩
  obtain ⟨mid, added, moderate⟩ := fresh.addAll laws (by omega) small
  have filter : mid.bloom.bits.length ≤ 2 ^ 30 := by
    have words := (fits_filterOf X entries).2
    have known : mid.bloom = filterOf X entries := Builder.addAll_bloom added
    have most : (BloomFilter.new X (entries.length % 2 ^ 32) BloomFilter.defaultBitsPerKey).numBits ≤ 2 ^ 36 := by
      refine (BloomFilter.numBits_new_le (by decide)).mpr ?_
      rw [rawBits_default]
      omega
    have sized := (BloomFilter.wellSized_new X (entries.length % 2 ^ 32) BloomFilter.defaultBitsPerKey).2.2
    rw [known, words]
    omega
  obtain ⟨b', finished⟩ := moderate.finish laws (by omega) filter
  have ran : (do Builder.addAll X entries; Builder.finish X : Method Builder Unit)
      { bloom := BloomFilter.new X (entries.length % 2 ^ 32) BloomFilter.defaultBitsPerKey } = (.ok (), b') :=
    (Exec.bind_of_ok added _).trans finished
  rw [createWithTombstones, ran]
  exact ⟨_, _, rfl⟩

theorem reads_back_small : ∃ t files',
    createWithTombstones Extern.literal 1 0 [([1], some [2])] (fun _ => none) = (.ok t, files') ∧
      (ReadsBack Extern.literal files' ⟨1, 0⟩ [([1], some [2])] ↔
        SmallFilter [([1], some [2])] ∧ blockCount [([1], some [2])] < 2 ^ 32) := by
  obtain ⟨t, files', created⟩ := exists_created Extern.snappyLaws_literal 1 0
    (show [(([1], some [2]) : Entry)].length < 2 ^ 32 by decide) (by decide) fun _ => none
  exact ⟨t, files', created, reads_back_iff Extern.snappyLaws_literal (List.pairwise_singleton _ _) created⟩

/-! ## A table of too many keys -/

/-- Tombstones under the numbers below `n`, in the order of their keys. -/
def tombstones (n : Nat) : List Entry :=
  ((List.range n).map fun i => (le 4 i, none)).mergeSort fun a b => decide (a.1 ≤ b.1)

theorem length_tombstones (n : Nat) : (tombstones n).length = n := by
  rw [tombstones, List.length_mergeSort, List.length_map, List.length_range]

theorem sortedKeys_tombstones {n : Nat} (fits : n ≤ 2 ^ 32) : SortedKeys (tombstones n) := by
  refine sortedKeys_mergeSort ?_
  rw [List.map_map]
  refine List.Nodup.map_on (fun i hi j hj same => ?_) List.nodup_range
  rw [List.mem_range] at hi hj
  have read := congrArg ofLe same
  dsimp only [Function.comp_apply] at read
  rwa [ofLe_le_of_lt (by omega), ofLe_le_of_lt (by omega)] at read

theorem small_tombstones {n : Nat} : ∀ e ∈ tombstones n, Small e := by
  intro e member
  obtain ⟨i, -, rfl⟩ := List.mem_map.mp (List.mem_mergeSort.mp member)
  rw [Small]
  simp [Builder.entryLen]

/-- **A table of 6710887 keys** is written, and cannot be opened again. -/
theorem written_not_opened : ¬ ∀ (X : Extern) (id level : Nat) (entries : List Entry) (files files' : SstFiles)
    (t : SSTable), X.SnappyLaws → SortedKeys entries →
      createWithTombstones X id level entries files = (.ok t, files') → ReadsBack X files' ⟨id, level⟩ entries := by
  intro always
  obtain ⟨t, files', created⟩ := exists_created Extern.snappyLaws_literal 1 0
    (show (tombstones 6710887).length < 2 ^ 32 by rw [length_tombstones]; decide) small_tombstones fun _ => none
  refine not_readsBack_of_large created ?_ (always _ _ _ _ _ _ _ Extern.snappyLaws_literal
    (sortedKeys_tombstones (by decide)) created)
  rw [SmallFilter, length_tombstones]
  decide

end SSTable

end NovaRuntime.Storage
