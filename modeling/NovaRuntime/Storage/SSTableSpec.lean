/-
# NovaRuntime.Storage.SSTableSpec — a table answers what it was written from

`Holds X files t es` says that the file of `t` makes the two readers see exactly
the sorted entries `es`. Under it a point read is the lookup in `es`
(`getWithTombstone_eq`) and a range read is `es` restricted to the range
(`scanWithTombstones_eq`): the bloom filter has no false negatives, and the key
range of a block may only be used to skip a block because the blocks are sorted.

`createWithTombstones_spec` establishes `Holds` for a table that was written
without an error. The one way a table can see less than it was written from is
its block count, which the footer keeps modulo `2 ^ 32`.
-/
import NovaRuntime.Storage.SSTable
import Mathlib.Algebra.Order.BigOperators.Group.List
import Mathlib.Data.List.Flatten

namespace NovaRuntime.Storage

open NovaRuntime.Library

set_option autoImplicit false

namespace SSTable

abbrev Entry := Key × Option Value

/-! ## One block -/

theorem length_encodeEntry (e : Entry) : 8 ≤ (encodeEntry e).length := by
  rcases e with ⟨key, _ | value⟩ <;> simp [encodeEntry] <;> omega

variable {file : Bytes} {e : Entry} {X : Extern} {chunk es : List Entry} {t : SSTable} {files : SstFiles}

theorem decodeEntry_encodeEntry (rest : Bytes) (small : (encodeEntry e).length < 2 ^ 32) :
    decodeEntry (encodeEntry e ++ rest) = some (e, rest) := by
  obtain ⟨key, value⟩ := e
  have keyFits : ofLe (le 4 key.length) = key.length :=
    ofLe_le_of_lt (by simp [encodeEntry] at small; omega)
  cases value with
  | none =>
    have sentinel : ofLe (le 4 tombstoneLen) = tombstoneLen := by decide
    simp [decodeEntry, encodeEntry, keyFits, sentinel]
  | some value =>
    have bound : 8 + key.length + value.length < 2 ^ 32 := by
      simp [encodeEntry] at small; omega
    have valueFits : ofLe (le 4 value.length) = value.length := ofLe_le_of_lt (by omega)
    have live : value.length ≠ tombstoneLen := by unfold tombstoneLen; omega
    simp [decodeEntry, encodeEntry, keyFits, valueFits, live]

theorem decodeLoop_flatMap (es : List Entry) (small : (es.flatMap encodeEntry).length < 2 ^ 32)
    {fuel : Nat} (enough : es.length ≤ fuel) : decodeLoop fuel (es.flatMap encodeEntry) = es := by
  induction es generalizing fuel with
  | nil => cases fuel <;> simp [decodeLoop, decodeEntry]
  | cons e es ih =>
    obtain ⟨fuel, rfl⟩ := Nat.exists_eq_add_of_lt enough
    rw [List.flatMap_cons, List.length_append] at small
    rw [List.flatMap_cons, show es.length + fuel + 1 = (es.length + fuel) + 1 from rfl, decodeLoop,
      decodeEntry_encodeEntry _ (by omega)]
    simp only [List.cons.injEq, true_and]
    exact ih (by omega) (by omega)

/-- A block that was compressed decodes to the entries it was made of: Snappy
rejects a block in which a length or the tombstone mark could be misread. -/
theorem decompress_compress (laws : X.SnappyLaws) {data : Bytes}
    (compressed : compressBlockWithTombstones X es = .ok data) :
    decompressBlockWithTombstones X data = .ok es := by
  unfold compressBlockWithTombstones at compressed
  cases packed : X.snappyCompress (es.flatMap encodeEntry) with
  | error message => simp [packed] at compressed
  | ok out =>
    simp only [packed, Outcome.ok.injEq] at compressed
    subst compressed
    have small := (laws.accepts _).mp ⟨out, packed⟩
    have long : es.length ≤ (es.flatMap encodeEntry).length := by
      rw [List.length_flatMap]
      calc es.length = (es.map fun _ => 1).sum := by simp
        _ ≤ _ := List.sum_le_sum fun e _ => le_trans (by decide) (length_encodeEntry e)
    rw [decompressBlockWithTombstones, laws.roundTrip _ _ packed]
    simp only [decodeEntries, decodeLoop_flatMap es small long]

theorem length_key_lt_of_compress (laws : X.SnappyLaws) {data : Bytes}
    (compressed : compressBlockWithTombstones X es = .ok data) (member : e ∈ es) :
    e.1.length < 2 ^ 32 := by
  unfold compressBlockWithTombstones at compressed
  cases packed : X.snappyCompress (es.flatMap encodeEntry) with
  | error message => simp [packed] at compressed
  | ok out =>
    have small := (laws.accepts _).mp ⟨out, packed⟩
    have part : (encodeEntry e).length ≤ (es.flatMap encodeEntry).length := by
      rw [List.length_flatMap]
      exact List.single_le_sum (by simp) _ (List.mem_map_of_mem member)
    have : e.1.length ≤ (encodeEntry e).length := by simp [encodeEntry]; omega
    omega

/-! ## The index -/

/-- What a reader sees of an index entry. -/
def indexEntry (h : DataBlockHeader) : IndexEntry :=
  ⟨h.offset, h.length, h.firstKey, h.lastKey⟩

/-- `h` is the index entry of the block `chunk` of `file`. -/
structure BlockAt (X : Extern) (file : Bytes) (h : DataBlockHeader) (chunk : List Entry) : Prop where
  inside : h.offset + h.length ≤ file.length
  data : decompressBlockWithTombstones X (slice file h.offset h.length) = .ok chunk
  first : chunk.head?.map Prod.fst = some h.firstKey
  last : chunk.getLast?.map Prod.fst = some h.lastKey
  firstSmall : h.firstKey.length < 2 ^ 32
  lastSmall : h.lastKey.length < 2 ^ 32

theorem BlockAt.append {h : DataBlockHeader}
    (block : BlockAt X file h chunk) (more : Bytes) : BlockAt X (file ++ more) h chunk where
  inside := by rw [List.length_append]; have := block.inside; omega
  data := by rw [slice_append_left more block.inside]; exact block.data
  first := block.first
  last := block.last
  firstSmall := block.firstSmall
  lastSmall := block.lastSmall

theorem readBlock_eq {h : DataBlockHeader}
    (block : BlockAt X file h chunk) : readBlock X file (indexEntry h) = .ok chunk := by
  have inside : (indexEntry h).offset + (indexEntry h).length ≤ file.length := block.inside
  rw [readBlock, readExact, if_pos inside, Outcome.ok_bind]
  exact block.data

theorem long_encodeHeader (h : DataBlockHeader) (rest : Bytes) : ¬ (encodeHeader h ++ rest).length < 32 := by
  simp [encodeHeader]; omega

theorem readIndexEntry_encodeHeader {h : DataBlockHeader}
    (block : BlockAt X file h chunk) (bounded : file.length < maxFileSize) (rest : Bytes) :
    readIndexEntry (encodeHeader h ++ rest) = .ok (indexEntry h, rest) := by
  have inside := block.inside
  unfold maxFileSize at bounded
  have offset : ofLe (le 8 h.offset) = h.offset := ofLe_le_of_lt (by omega)
  have length : ofLe (le 8 h.length) = h.length := ofLe_le_of_lt (by omega)
  have first : ofLe (le 4 h.firstKey.length) = h.firstKey.length := ofLe_le_of_lt block.firstSmall
  have last : ofLe (le 4 h.lastKey.length) = h.lastKey.length := ofLe_le_of_lt block.lastSmall
  simp [readIndexEntry, encodeHeader, slice, List.drop_append, List.drop_of_length_le, offset,
    length, first, last, indexEntry]

/-! ## The readers on a sorted sequence of blocks -/

theorem le_of_mem_of_head (sorted : SortedKeys chunk) {first : Key}
    (head : chunk.head?.map Prod.fst = some first) (member : e ∈ chunk) :
    first ≤ e.1 := by
  cases chunk with
  | nil => cases member
  | cons x xs =>
    simp only [List.head?_cons, Option.map_some, Option.some.injEq] at head
    subst head
    rcases List.mem_cons.mp member with rfl | later
    · exact le_rfl
    · exact ((sortedKeys_cons.mp sorted).1 e later).le

theorem le_of_mem_of_getLast (sorted : SortedKeys chunk) {last : Key}
    (final : chunk.getLast?.map Prod.fst = some last) (member : e ∈ chunk) :
    e.1 ≤ last := by
  obtain ⟨x, isLast, rfl⟩ := Option.map_eq_some_iff.mp final
  obtain ⟨front, rfl⟩ := List.getLast?_eq_some_iff.mp isLast
  rcases List.mem_append.mp member with before | same
  · exact ((sortedKeys_append.mp sorted).2.2 e before x (by simp)).le
  · rw [List.mem_singleton.mp same]

theorem lookup_eq_none_of_not_mem {key : Key} (absent : ∀ e ∈ es, e.1 ≠ key) :
    es.lookup key = none := by
  rw [List.lookup_eq_none_iff]
  intro e member
  simpa using (absent e member).symm

/-- The point read goes through the blocks the index still holds and returns the
lookup in their entries. -/
theorem getLoop_eq (bounded : file.length < maxFileSize) (key : Key)
    {headers : List DataBlockHeader} {chunks : List (List Entry)}
    (blocks : List.Forall₂ (BlockAt X file) headers chunks) (sorted : SortedKeys chunks.flatten)
    (n : Nat) :
    getLoop X file key n (headers.flatMap encodeHeader) = .ok ((chunks.take n).flatten.lookup key) := by
  induction blocks generalizing n with
  | nil => cases n <;> simp [getLoop]
  | @cons h chunk headers chunks block blocks ih =>
    cases n with
    | zero => simp [getLoop]
    | succ n =>
      obtain ⟨here, later, -⟩ := sortedKeys_append.mp (List.flatten_cons ▸ sorted)
      rw [List.flatMap_cons, getLoop, if_neg (long_encodeHeader h _), readIndexEntry_encodeHeader block bounded,
        Outcome.ok_bind]
      simp only [List.take_succ_cons, List.flatten_cons, List.lookup_append]
      by_cases inRange : (indexEntry h).firstKey ≤ key ∧ key ≤ (indexEntry h).lastKey
      · rw [if_pos inRange, readBlock_eq block, Outcome.ok_bind]
        cases found : chunk.lookup key with
        | some value => simp
        | none => simpa using ih later n
      · -- the key cannot be in a sorted block whose key range excludes it
        have absent : chunk.lookup key = none := by
          refine lookup_eq_none_of_not_mem fun e member same => inRange ?_
          subst same
          exact ⟨le_of_mem_of_head here block.first member,
            le_of_mem_of_getLast here block.last member⟩
        rw [if_neg inRange, absent]
        simpa using ih later n

/-- Is the key of the entry in `start..stop`? -/
def inRange (start stop : Key) (e : Entry) : Bool := decide (start ≤ e.1 ∧ e.1 < stop)

/-- The range read goes through the blocks the index still holds and returns
their entries in the range. -/
theorem scanLoop_eq (bounded : file.length < maxFileSize)
    (start stop : Key) {headers : List DataBlockHeader} {chunks : List (List Entry)}
    (blocks : List.Forall₂ (BlockAt X file) headers chunks) (sorted : SortedKeys chunks.flatten)
    (n : Nat) (results : List Entry) :
    scanLoop X file start stop n (headers.flatMap encodeHeader) results =
      .ok (results ++ (chunks.take n).flatten.filter (inRange start stop)) := by
  induction blocks generalizing n results with
  | nil => cases n <;> simp [scanLoop]
  | @cons h chunk headers chunks block blocks ih =>
    cases n with
    | zero => simp [scanLoop]
    | succ n =>
      obtain ⟨here, later, apart⟩ := sortedKeys_append.mp (List.flatten_cons ▸ sorted)
      rw [List.flatMap_cons, scanLoop, if_neg (long_encodeHeader h _), readIndexEntry_encodeHeader block bounded,
        Outcome.ok_bind]
      simp only [List.take_succ_cons, List.flatten_cons, List.filter_append]
      by_cases below : (indexEntry h).lastKey < start
      · have none : chunk.filter (inRange start stop) = [] := by
          rw [List.filter_eq_nil_iff]
          intro e member
          have := le_of_mem_of_getLast here block.last member
          simp [inRange, not_le.mpr (lt_of_le_of_lt this below)]
        rw [if_pos below, ih later, none, List.nil_append]
      · rw [if_neg below]
        by_cases above : stop ≤ (indexEntry h).firstKey
        · -- every key from this block on is past the range
          have past : ∀ e ∈ chunk ++ (chunks.take n).flatten, inRange start stop e = false := by
            obtain ⟨first, isHead, isFirst⟩ := Option.map_eq_some_iff.mp block.first
            intro e member
            have reach : h.firstKey ≤ e.1 := by
              rcases List.mem_append.mp member with inChunk | inLater
              · exact le_of_mem_of_head here block.first inChunk
              · have inAll : e ∈ chunks.flatten := by
                  obtain ⟨c, inTake, inC⟩ := List.mem_flatten.mp inLater
                  exact List.mem_flatten.mpr ⟨c, List.mem_of_mem_take inTake, inC⟩
                rw [← isFirst]
                exact (apart first (List.mem_of_mem_head? isHead) e inAll).le
            simp [inRange, not_lt.mpr (above.trans reach)]
          rw [if_pos above, ← List.filter_append, List.filter_eq_nil_iff.mpr, List.append_nil]
          exact fun e member => by simp [past e member]
        · rw [if_neg above]
          rw [readBlock_eq block, Outcome.ok_bind, ih later, List.append_assoc]
          rfl

/-! ## The builder -/

/-- How many blocks the entries still to come finish, from the size of the
current block and whether it holds anything. -/
def splits (size : Nat) (pending : Bool) : List Entry → Nat
  | [] => 0
  | e :: es =>
    if size + Builder.entryLen e.1 e.2 > dataBlockTargetSize ∧ pending then
      splits (Builder.entryLen e.1 e.2) true es + 1
    else splits (size + Builder.entryLen e.1 e.2) true es

/-- How many data blocks a table of these entries has. -/
def blockCount (es : List Entry) : Nat := if es = [] then 0 else splits 0 false es + 1

namespace Builder

/-- The state of the builder after the entries `es`: the finished blocks are
`chunks`, the rest of `es` waits in the current block, and the filter knows every
key. -/
structure Inv (X : Extern) (b : Builder) (chunks : List (List Entry)) (es : List Entry) : Prop where
  whole : chunks.flatten ++ b.currentBlockData = es
  blocks : List.Forall₂ (BlockAt X b.file) b.dataBlocks chunks
  bounded : b.file.length < maxFileSize
  sized : b.bloom.WellSized
  found : ∀ e ∈ es, b.bloom.mayContain X e.1 = true

variable {b b' : Builder} {X : Extern} {chunks : List (List Entry)} {es : List Entry}

theorem writeAll_ok {bytes : Bytes} (wrote : writeAll bytes b = (.ok (), b')) :
    b' = b.append bytes ∧ b'.file.length < maxFileSize := by
  simp only [writeAll, Exec.get_bind] at wrote
  split at wrote
  · rename_i fits
    simp only [Exec.modify_apply, Prod.mk.injEq, true_and] at wrote
    subst wrote
    exact ⟨rfl, by simpa [append] using fits⟩
  · simp at wrote

section

variable (laws : X.SnappyLaws) (inv : Inv X b chunks es)

include laws inv

/-- What finishing a block does: the current block becomes the last finished one. -/
theorem finishBlock_ok (nonempty : b.currentBlockData ≠ []) (finished : finishBlock X b = (.ok (), b')) :
    Inv X b' (chunks ++ [b.currentBlockData]) es ∧ b'.currentBlockData = [] ∧
      b'.currentBlockSize = 0 ∧ b'.bloom = b.bloom ∧
      b'.dataBlocks.length = b.dataBlocks.length + 1 := by
  simp only [finishBlock, Exec.get_bind, Exec.bind_eq_ok, Exec.lift_apply, Prod.mk.injEq,
    Exec.modify_apply, true_and] at finished
  obtain ⟨data, _, ⟨compressed, rfl⟩, _, written, wrote, rfl⟩ := finished
  obtain ⟨rfl, bounded⟩ := writeAll_ok wrote
  obtain ⟨first, isFirst⟩ := Option.isSome_iff_exists.mp (List.isSome_head?.mpr nonempty)
  obtain ⟨last, isLast⟩ := Option.isSome_iff_exists.mp (List.getLast?_isSome.mpr nonempty)
  have block : BlockAt X (b.file ++ data) {
      offset := b.file.length
      length := data.length
      uncompressedLength := b.currentBlockSize
      firstKey := (b.currentBlockData.head?.map Prod.fst).getD []
      lastKey := (b.currentBlockData.getLast?.map Prod.fst).getD [] } b.currentBlockData := {
    inside := by simp
    data := by
      have here := slice_append_exact b.file data []
      rw [List.append_nil] at here
      rw [here]
      exact decompress_compress laws compressed
    first := by simp [isFirst]
    last := by simp [isLast]
    firstSmall := by
      simpa [isFirst] using length_key_lt_of_compress laws compressed (List.mem_of_mem_head? isFirst)
    lastSmall := by
      simpa [isLast] using
        length_key_lt_of_compress laws compressed (List.mem_of_getLast? isLast) }
  refine ⟨⟨?_, ?_, bounded, inv.sized, inv.found⟩, rfl, rfl, rfl, by simp [append]⟩
  · simpa using inv.whole
  · exact List.rel_append (inv.blocks.imp fun _ _ old => old.append data)
      (.cons block .nil)

/-- Adding an entry finishes the current block first when it would grow past its
target. -/
theorem add_ok {key : Key} {value : Option Value} (added : add X key value b = (.ok (), b')) :
    (∃ chunks', Inv X b' chunks' (es ++ [(key, value)])) ∧ b'.currentBlockData ≠ [] ∧
      ∀ more, b'.dataBlocks.length + splits b'.currentBlockSize true more =
        b.dataBlocks.length +
          splits b.currentBlockSize (decide (b.currentBlockData ≠ [])) ((key, value) :: more) := by
  -- the filter learns the key before anything else happens
  have learned : Inv X { b with bloom := b.bloom.insert X key } chunks es := {
    whole := inv.whole, blocks := inv.blocks, bounded := inv.bounded
    sized := inv.sized.insert key
    found := fun e member => BloomFilter.mayContain_insert inv.sized key (inv.found e member) }
  have known : ∀ e ∈ es ++ [(key, value)],
      (b.bloom.insert X key).mayContain X e.1 = true := by
    intro e member
    rcases List.mem_append.mp member with old | new
    · exact learned.found e old
    · rw [List.mem_singleton.mp new]
      exact BloomFilter.mayContain_insert_self inv.sized key
  simp only [add, Exec.modify_bind, Exec.get_bind] at added
  split at added
  · rename_i full
    obtain ⟨_, mid, finished, pushed⟩ := Exec.bind_eq_ok.mp added
    obtain ⟨inv', empty, size, bloom, count⟩ := finishBlock_ok laws learned full.2 finished
    simp only [Exec.modify_apply, Prod.mk.injEq, true_and] at pushed
    subst pushed
    refine ⟨⟨chunks ++ [b.currentBlockData], ?_, inv'.blocks, inv'.bounded, inv'.sized, ?_⟩,
      by simp, fun more => ?_⟩
    · have := inv'.whole
      rw [empty, List.append_nil] at this
      simp [empty, ← this]
    · simpa only [bloom] using known
    · rw [splits, if_pos ⟨full.1, by simpa using full.2⟩]
      simp only [size, count, Nat.zero_add]
      omega
  · simp only [Exec.modify_apply, Prod.mk.injEq, true_and] at added
    subst added
    rename_i room
    refine ⟨⟨chunks, by simp [← learned.whole], learned.blocks, learned.bounded, learned.sized, known⟩,
      by simp, fun more => ?_⟩
    rw [splits, if_neg (by simpa using room)]

theorem addAll_ok {more : List Entry} (added : addAll X more b = (.ok (), b')) :
    (∃ chunks', Inv X b' chunks' (es ++ more)) ∧
      (b'.currentBlockData ≠ [] ↔ b.currentBlockData ≠ [] ∨ more ≠ []) ∧
      b'.dataBlocks.length = b.dataBlocks.length +
        splits b.currentBlockSize (decide (b.currentBlockData ≠ [])) more := by
  induction more generalizing b chunks es with
  | nil =>
    simp only [addAll, Exec.pure_apply, Prod.mk.injEq, true_and] at added
    subst added
    exact ⟨⟨chunks, by simpa using inv⟩, by simp, by simp [splits]⟩
  | cons e more ih =>
    obtain ⟨key, value⟩ := e
    rw [addAll, Exec.bind_eq_ok] at added
    obtain ⟨_, mid, first, rest⟩ := added
    obtain ⟨⟨chunks', inv'⟩, pending, counts⟩ := add_ok laws inv first
    obtain ⟨⟨chunks'', inv''⟩, nonempty, count⟩ := ih inv' rest
    refine ⟨⟨chunks'', by simpa using inv''⟩, ?_, ?_⟩
    · rw [nonempty]
      simp [pending]
    · rw [count, ← counts more, decide_eq_true pending]

end

/-- What the tail adds to the file. -/
def tail (X : Extern) (b : Builder) : Bytes :=
  le 4 b.bloom.encode.length ++ (b.bloom.encode ++ (encodeIndex b.dataBlocks ++
    encodeFooter X (b.file.length + (4 + b.bloom.encode.length)) b.file.length
      b.bloom.encode.length (encodeIndex b.dataBlocks) b.dataBlocks))

theorem writeTail_ok (wrote : writeTail X b = (.ok (), b')) :
    b' = b.append (tail X b) ∧ b'.file.length < maxFileSize := by
  simp only [writeTail, Exec.get_bind, Exec.bind_eq_ok] at wrote
  obtain ⟨_, b₁, wrote₁, _, b₂, wrote₂, _, b₃, wrote₃, wrote₄⟩ := wrote
  have step₁ := (writeAll_ok wrote₁).1
  have step₂ := (writeAll_ok wrote₂).1
  have step₃ := (writeAll_ok wrote₃).1
  obtain ⟨step₄, bounded⟩ := writeAll_ok wrote₄
  refine ⟨?_, bounded⟩
  rw [step₄, step₃, step₂, step₁]
  simp [append, tail]

/-- The footer of a written file leads to its index. -/
theorem readIndex_tail (bounded : (b.file ++ tail X b).length < maxFileSize) :
    footerSize ≤ (b.file ++ tail X b).length ∧
      readIndex (b.file ++ tail X b) =
        .ok (encodeIndex b.dataBlocks, b.dataBlocks.length % 2 ^ 32) := by
  let front := b.file ++ (le 4 b.bloom.encode.length ++ b.bloom.encode)
  let index := encodeIndex b.dataBlocks
  let footer := encodeFooter X (b.file.length + (4 + b.bloom.encode.length)) b.file.length
    b.bloom.encode.length index b.dataBlocks
  have footerLength : footer.length = footerSize := by simp [footer, encodeFooter, footerSize]
  have frontLength : front.length = b.file.length + (4 + b.bloom.encode.length) := by simp [front]
  have file : b.file ++ tail X b = front ++ (index ++ footer) := by simp [tail, front, index, footer]
  rw [file] at bounded ⊢
  have total : (front ++ (index ++ footer)).length = front.length + (index.length + footerSize) := by
    simp [footerLength]
  have lastBytes : (front ++ (index ++ footer)).drop
      ((front ++ (index ++ footer)).length - footerSize) = footer := by
    have cut : front.length + (index.length + footerSize) - footerSize = (front ++ index).length := by
      have : (front ++ index).length = front.length + index.length := List.length_append
      omega
    rw [total, cut, ← List.append_assoc]
    exact List.drop_left
  unfold maxFileSize at bounded
  have offset : ofLe (slice footer 8 8) = front.length := by
    simp only [footer, encodeFooter, slice]
    simp [List.drop_append, List.drop_of_length_le, ← frontLength]
    exact ofLe_le_of_lt (by omega)
  have length : ofLe (slice footer 16 8) = index.length := by
    simp only [footer, encodeFooter, slice]
    simp [List.drop_append, List.drop_of_length_le]
    exact ofLe_le_of_lt (by omega)
  have blocks : ofLe (slice footer 40 4) = b.dataBlocks.length % 2 ^ 32 := by
    simp only [footer, encodeFooter, slice]
    simp [List.drop_append, List.drop_of_length_le, ofLe_le]
  refine ⟨by omega, ?_⟩
  have inside : front.length + index.length ≤ (front ++ (index ++ footer)).length := by omega
  simp only [readIndex, lastBytes, offset, length, blocks, readExact, if_pos inside,
    Outcome.ok_bind, slice_append_exact]
  rfl

/-- The finished file: every block is where its index entry says, and the footer
leads to the index. -/
theorem finish_ok (laws : X.SnappyLaws) (inv : Inv X b chunks es) (finished : finish X b = (.ok (), b')) :
    ∃ headers chunks', chunks'.flatten = es ∧
      List.Forall₂ (BlockAt X b'.file) headers chunks' ∧ b'.file.length < maxFileSize ∧
      footerSize ≤ b'.file.length ∧
      readIndex b'.file = .ok (encodeIndex headers, headers.length % 2 ^ 32) ∧
      b'.bloom = b.bloom ∧
      headers.length = b.dataBlocks.length + (if b.currentBlockData = [] then 0 else 1) := by
  -- after the last block nothing waits any more
  obtain ⟨mid, chunks', tailed, whole, blocks, bloom, count⟩ :
      ∃ (mid : Builder) (chunks' : List (List Entry)), writeTail X mid = (.ok (), b') ∧
        chunks'.flatten = es ∧ List.Forall₂ (BlockAt X mid.file) mid.dataBlocks chunks' ∧
        mid.bloom = b.bloom ∧
        mid.dataBlocks.length = b.dataBlocks.length + (if b.currentBlockData = [] then 0 else 1) := by
    simp only [finish, Exec.get_bind] at finished
    by_cases empty : b.currentBlockData = []
    · rw [if_neg (by simpa using empty)] at finished
      refine ⟨b, chunks, finished, ?_, inv.blocks, rfl, by simp [empty]⟩
      simpa [empty] using inv.whole
    · rw [if_pos empty, Exec.bind_eq_ok] at finished
      obtain ⟨_, mid, last, rest⟩ := finished
      obtain ⟨inv', drained, -, bloom, count⟩ := finishBlock_ok laws inv empty last
      exact ⟨mid, _, rest, by simpa [drained] using inv'.whole, inv'.blocks, bloom, by simp [empty, count]⟩
  obtain ⟨rfl, bounded⟩ := writeTail_ok tailed
  obtain ⟨long, index⟩ := readIndex_tail bounded
  exact ⟨mid.dataBlocks, chunks', whole, blocks.imp fun _ _ block => block.append _, bounded, long,
    index, bloom, count⟩

end Builder

/-! ## Tables on disk -/

/-- The file of `t` makes the readers see exactly the sorted entries `es`. -/
structure Holds (X : Extern) (files : SstFiles) (t : SSTable) (es : List Entry) : Prop where
  sorted : SortedKeys es
  filter : ∀ e ∈ es, t.bloomFilter.mayContain X e.1 = true
  layout : ∃ file headers chunks, files t.path = some file ∧ file.length < maxFileSize ∧
    footerSize ≤ file.length ∧
    readIndex file = .ok (encodeIndex headers, headers.length % 2 ^ 32) ∧
    List.Forall₂ (BlockAt X file) headers chunks ∧ SortedKeys chunks.flatten ∧
    (chunks.take (headers.length % 2 ^ 32)).flatten = es

/-- Only the file of the table matters. -/
theorem Holds.frame {files' : SstFiles}
    (holds : Holds X files t es) (same : files' t.path = files t.path) : Holds X files' t es :=
  ⟨holds.sorted, holds.filter, by rw [same]; exact holds.layout⟩

@[simp] theorem drop_encodeIndex (headers : List DataBlockHeader) :
    (encodeIndex headers).drop 4 = headers.flatMap encodeHeader := drop_le_append _ _ _

/-- **A point read is the lookup in the table's entries.** -/
theorem getWithTombstone_eq (holds : Holds X files t es) (key : Key) :
    getWithTombstone X files t key = .ok (es.lookup key) := by
  obtain ⟨file, headers, chunks, stored, bounded, long, index, blocks, sorted, rfl⟩ := holds.layout
  by_cases maybe : t.bloomFilter.mayContain X key = true
  · rw [getWithTombstone, if_neg (by simpa using maybe), openFile, stored]
    simp only [Outcome.ok_bind, if_neg (not_lt.mpr long), index, drop_encodeIndex]
    exact getLoop_eq bounded key blocks sorted _
  · have absent : ((chunks.take (headers.length % 2 ^ 32)).flatten).lookup key = none :=
      lookup_eq_none_of_not_mem fun e member same => maybe (same ▸ holds.filter e member)
    rw [getWithTombstone, if_pos (by simpa using maybe), absent]

/-- **A range read is the table's entries in the range.** -/
theorem scanWithTombstones_eq (holds : Holds X files t es) (start stop : Key) :
    scanWithTombstones X files t start stop = .ok (es.filter (inRange start stop)) := by
  obtain ⟨file, headers, chunks, stored, bounded, long, index, blocks, sorted, rfl⟩ := holds.layout
  rw [scanWithTombstones, openFile, stored]
  simp only [Outcome.ok_bind, if_neg (not_lt.mpr long), index, drop_encodeIndex]
  exact scanLoop_eq bounded start stop blocks sorted _ []

theorem createWithTombstones_path {id level : Nat} {entries : List Entry} {files' : SstFiles}
    (created : createWithTombstones X id level entries files = (.ok t, files')) :
    t.path = ⟨id, level⟩ := by
  simp only [createWithTombstones, Prod.mk.injEq, Outcome.bind_eq_ok, Outcome.ok.injEq] at created
  obtain ⟨⟨_, _, rfl⟩, _⟩ := created
  rfl

namespace Builder

theorem returns_writeAll (bytes : Bytes) : (writeAll bytes).Returns := by
  refine Exec.returns_get.bind fun b => ?_
  split
  · exact Exec.returns_modify _
  · exact Exec.returns_lift trivial

theorem returns_finishBlock (X : Extern) : (finishBlock X).Returns := by
  refine Exec.returns_get.bind fun b => Exec.Returns.bind (Exec.returns_lift ?_) fun compressed =>
    (returns_writeAll compressed).bind fun _ => Exec.returns_modify _
  rw [compressBlockWithTombstones]
  split <;> trivial

theorem returns_add (X : Extern) (key : Key) (value : Option Value) : (add X key value).Returns := by
  refine (Exec.returns_modify _).bind fun _ => Exec.returns_get.bind fun b => ?_
  split
  · exact (returns_finishBlock X).bind fun _ => Exec.returns_modify _
  · exact (Exec.returns_pure _).bind fun _ => Exec.returns_modify _

theorem returns_addAll (X : Extern) (entries : List Entry) : (addAll X entries).Returns := by
  induction entries with
  | nil => exact Exec.returns_pure _
  | cons e entries ih => exact (returns_add X e.1 e.2).bind fun _ => ih

theorem returns_writeTail (X : Extern) : (writeTail X).Returns := by
  rw [writeTail]
  refine Exec.returns_get.bind fun b => ?_
  refine (returns_writeAll (le 4 b.bloom.encode.length)).bind fun _ => ?_
  refine (returns_writeAll b.bloom.encode).bind fun _ => ?_
  exact (returns_writeAll (encodeIndex b.dataBlocks)).bind fun _ => returns_writeAll _

theorem returns_finish (X : Extern) : (finish X).Returns := by
  refine Exec.returns_get.bind fun b => ?_
  split
  · exact (returns_finishBlock X).bind fun _ => returns_writeTail X
  · exact returns_writeTail X

end Builder

/-- Writing a table always comes to an end. -/
theorem returns_createWithTombstones (X : Extern) (id level : Nat) (entries : List Entry) :
    (createWithTombstones X id level entries).Returns := by
  intro files
  have returns := ((Builder.returns_addAll X entries).bind fun _ => Builder.returns_finish X)
    { bloom := BloomFilter.new X (entries.length % 2 ^ 32) BloomFilter.defaultBitsPerKey }
  rw [createWithTombstones]
  exact returns.bind fun _ => trivial

/-- Writing a table, successful or not, changes no other file. -/
theorem createWithTombstones_frame (X : Extern) (id level : Nat) (entries : List Entry)
    (files : SstFiles) {path : SstPath} (other : path ≠ ⟨id, level⟩) :
    (createWithTombstones X id level entries files).2 path = files path := by
  simp [createWithTombstones, other]

/-- Every block holds an entry, so that fewer blocks hold fewer. -/
theorem ne_of_flatten_take {headers : List DataBlockHeader} {chunks : List (List Entry)}
    (blocks : List.Forall₂ (BlockAt X file) headers chunks) {n : Nat} (fewer : n < headers.length)
    (whole : chunks.flatten = es) : (chunks.take n).flatten ≠ es := by
  intro same
  have split : (chunks.take n).flatten ++ (chunks.drop n).flatten = es := by
    rw [← List.flatten_append, List.take_append_drop, whole]
  rw [same] at split
  have rest := List.append_right_eq_self.mp split
  have more : n < chunks.length := blocks.length_eq ▸ fewer
  obtain ⟨h, -, block⟩ := exists_of_mem_right blocks (List.getElem_mem more)
  have nonempty : chunks[n] ≠ [] := by
    intro empty
    have first := block.first
    rw [empty] at first
    cases first
  rw [List.drop_eq_getElem_cons more, List.flatten_cons] at rest
  exact nonempty (List.append_eq_nil_iff.mp rest).1

/-- **A table that was written holds its entries**, all of them unless there are
more blocks than the footer can count. -/
theorem createWithTombstones_spec (laws : X.SnappyLaws) {id level : Nat}
    {entries : List Entry} (sorted : SortedKeys entries) {files' : SstFiles}
    (created : createWithTombstones X id level entries files = (.ok t, files')) :
    ∃ es, Holds X files' t es ∧ es.Sublist entries ∧
      (es = entries ↔ blockCount entries < 2 ^ 32) := by
  have path := createWithTombstones_path created
  let start : Builder :=
    { bloom := BloomFilter.new X (entries.length % 2 ^ 32) BloomFilter.defaultBitsPerKey }
  have fresh : Builder.Inv X start [] [] :=
    ⟨rfl, .nil, Nat.two_pow_pos 63, BloomFilter.wellSized_new _ _ _, by simp⟩
  rw [createWithTombstones, Prod.mk.injEq, Outcome.bind_eq_ok] at created
  obtain ⟨⟨_, ran, table⟩, rfl⟩ := created
  obtain ⟨_, mid, added, finished⟩ := Exec.bind_eq_ok.mp
    (Prod.ext ran rfl : (do Builder.addAll X entries; Builder.finish X : Method Builder Unit) start =
      (.ok (), _))
  obtain ⟨⟨chunks, inv⟩, pending, count⟩ := Builder.addAll_ok laws fresh added
  rw [List.nil_append] at inv
  obtain ⟨headers, chunks', whole, blocks, bounded, long, index, bloom, blockCount_eq⟩ :=
    Builder.finish_ok laws inv finished
  have total : headers.length = blockCount entries := by
    have empty : mid.currentBlockData = [] ↔ entries = [] := by
      have := not_congr pending
      simpa [start] using this
    rw [blockCount_eq, count, blockCount]
    by_cases nil : entries = []
    · simp [nil, empty.mpr nil, splits, start]
    · simp [nil, mt empty.mp nil, start]
  have sub : ((chunks'.take (headers.length % 2 ^ 32)).flatten).Sublist entries := by
    rw [← whole]
    exact (List.take_sublist _ _).flatten
  refine ⟨_, ⟨sorted.sublist sub, ?_, ?_⟩, sub, fun all => ?_, fun few => ?_⟩
  · intro e member
    rw [← Outcome.ok.inj table]
    have learned := inv.found e (sub.subset member)
    rwa [← bloom] at learned
  · refine ⟨_, headers, chunks', ?_, bounded, long, index, blocks, whole ▸ sorted, rfl⟩
    rw [path, Function.update_self]
  · by_contra many
    refine absurd all (ne_of_flatten_take blocks (lt_of_lt_of_le (Nat.mod_lt _ (by decide)) ?_) whole)
    exact total ▸ not_lt.mp many
  · rw [Nat.mod_eq_of_lt (total ▸ few), List.take_of_length_le (blocks.length_eq ▸ le_rfl), whole]

end SSTable

end NovaRuntime.Storage
