/-
# NovaRuntime.Storage.WalSpec — what is appended is what is read

A segment is the concatenation of the frames of its records (`frames`), and a log
directory is `segs`, one list of records for each segment (`Lays`). Both hold
whatever is appended. Reading gives the records back (`readFrom_eq`) when every
payload is shorter than `2 ^ 32` bytes (`Short`): the length in a header is a
`u32`, and the check against the maximum is made after the cast.

An empty value is written like no value, so `readBack` turns `some []` into
`none`; a caller that wants the empty value back has to put it there.
-/
import NovaRuntime.Storage.Wal

namespace NovaRuntime.Storage

open NovaRuntime.Library

set_option autoImplicit false

namespace Wal

variable {rest : Bytes} {files : List Bytes} {dir : WalDir} {reader : WalReader}

/-! ## One record -/

/-- The bytes of a record in its segment. -/
def frame (X : Extern) (record : WalRecord) : Bytes :=
  encodeHeader X record.recordType record.lsn (encodePayload record) ++ encodePayload record

/-- The header can say how long the payload is. -/
def Short (record : WalRecord) : Prop := (encodePayload record).length < 2 ^ 32

/-- What the payload keeps of a value. -/
def storedValue : Option Value → Option Value
  | some [] => none
  | value => value

/-- The record as it is read. -/
def readBack (X : Extern) (record : WalRecord) : WalRecord :=
  { record with
    value := storedValue record.value
    checksum := X.crc32c (encodePayload record) }

@[simp] theorem length_encodeHeader (X : Extern) (recordType : WalRecordType) (lsn : Nat)
    (payload : Bytes) : (encodeHeader X recordType lsn payload).length = 24 := by
  simp [encodeHeader]

theorem length_frame (X : Extern) (record : WalRecord) :
    (frame X record).length = 24 + (encodePayload record).length := by
  simp [frame]

theorem length_encodePayload (record : WalRecord) :
    (encodePayload record).length = 24 + record.key.length + (record.value.getD []).length := by
  cases record with
  | mk lsn txId recordType key value checksum timestamp =>
    cases value <;> simp [encodePayload] <;> omega

@[simp] theorem ofNat_ofLe_le_64 (x : UInt64) : UInt64.ofNat (ofLe (le 8 x.toNat)) = x := by
  rw [ofLe_le_of_lt (by simpa using x.toNat_lt)]
  simp

/-- The fields of a payload, one after the other. -/
def layout (txId : UInt64) (key value : Bytes) (timestamp : Int64) : Bytes :=
  le 8 txId.toNat ++ (le 4 key.length ++ (key ++ (le 4 value.length ++ (value ++
    le 8 timestamp.toUInt64.toNat))))

theorem encodePayload_eq (record : WalRecord) :
    encodePayload record =
      layout record.txId record.key (record.value.getD []) record.timestamp := by
  cases record with
  | mk lsn txId recordType key value checksum timestamp =>
    cases value <;> simp [encodePayload, layout]

theorem decodePayload_layout {txId : UInt64} {key value : Bytes} {timestamp : Int64}
    (short : (layout txId key value timestamp).length < 2 ^ 32) :
    decodePayload (layout txId key value timestamp) =
      .ok (txId, key, if value = [] then none else some value, timestamp) := by
  have total : (layout txId key value timestamp).length = 24 + key.length + value.length := by
    simp [layout]; omega
  have keyFits : ofLe (le 4 key.length) = key.length := ofLe_le_of_lt (by omega)
  have valueFits : ofLe (le 4 value.length) = value.length := ofLe_le_of_lt (by omega)
  have atTx : slice (layout txId key value timestamp) 0 8 = le 8 txId.toNat := by
    simp [slice, layout]
  have atKeyLen : slice (layout txId key value timestamp) 8 4 = le 4 key.length := by
    simp [slice, layout]
  have atKey : slice (layout txId key value timestamp) 12 key.length = key :=
    slice_of_eq (le 8 txId.toNat ++ le 4 key.length) key _ (by simp [layout]; rfl) (by simp) rfl
  have atValueLen : slice (layout txId key value timestamp) (12 + key.length) 4 =
      le 4 value.length :=
    slice_of_eq (le 8 txId.toNat ++ le 4 key.length ++ key) _ _ (by simp [layout]; rfl)
      (by simp; omega) (by simp)
  have atValue : slice (layout txId key value timestamp) (12 + key.length + 4) value.length =
      value :=
    slice_of_eq (le 8 txId.toNat ++ le 4 key.length ++ key ++ le 4 value.length) _ _
      (by simp [layout]; rfl) (by simp; omega) rfl
  have atTime : slice (layout txId key value timestamp) (12 + key.length + 4 + value.length) 8 =
      le 8 timestamp.toUInt64.toNat :=
    slice_of_eq (le 8 txId.toNat ++ le 4 key.length ++ key ++ le 4 value.length ++ value) _ []
      (by simp [layout]) (by simp; omega) (by simp)
  rw [decodePayload, if_neg (by omega)]
  simp only [atTx, atKeyLen, keyFits, atKey, atValueLen, valueFits, atValue, atTime,
    ofNat_ofLe_le_64, Int64.toInt64_toUInt64]
  rw [total, if_neg (by omega), if_neg (by omega), if_neg (by omega)]
  cases value with
  | nil | cons byte bytes => simp; omega

theorem decodePayload_encodePayload {record : WalRecord} (short : Short record) :
    decodePayload (encodePayload record) =
      .ok (record.txId, record.key, storedValue record.value, record.timestamp) := by
  rw [Short, encodePayload_eq] at short
  rw [encodePayload_eq, decodePayload_layout short]
  rcases record.value with _ | _ | ⟨byte, bytes⟩ <;> rfl

/-! ## Reading one record -/

section

variable (X : Extern)

include X

/-- The five fields the two parsers take from a header. -/
theorem header_fields (recordType : WalRecordType) {lsn : Nat} (payload rest : Bytes) (fits : lsn < 2 ^ 64) :
    let header := encodeHeader X recordType lsn payload ++ rest
    ofLe (slice header 0 4) = magic ∧ ofLe (slice header 4 4) = (X.crc32c payload).toNat ∧
      ofLe (slice header 8 4) = payload.length % 2 ^ 32 ∧ ofLe (slice header 12 8) = lsn ∧
      ofLe (slice header 20 2) = recordType.toU16 := by
  have typeFits := recordType.toU16_lt
  have parts : encodeHeader X recordType lsn payload ++ rest =
      le 4 magic ++ (le 4 (X.crc32c payload).toNat ++ (le 4 payload.length ++ (le 8 lsn ++
        (le 2 recordType.toU16 ++ (le 2 0 ++ rest))))) := by simp [encodeHeader]
  simp only [parts, slice, List.drop_append, length_le]
  refine ⟨?_, ?_, ?_, ?_, ?_⟩
  · simp [magic, ofLe_le]
  · simp [List.drop_of_length_le, ofLe_le]
  · simp [List.drop_of_length_le, ofLe_le]
  · simp [List.drop_of_length_le, ofLe_le]
    omega
  · simp [List.drop_of_length_le, ofLe_le]
    omega

/-- Reading at a header goes on to the payload with what the header says. -/
theorem readRecord_encodeHeader (recordType : WalRecordType) {lsn : Nat}
    (payload body : Bytes) (fits : lsn < 2 ^ 64) :
    WalReader.readRecord X (encodeHeader X recordType lsn payload ++ body) =
      WalReader.readPayload X (payload.length % 2 ^ 32) lsn (X.crc32c payload).toNat recordType
        body := by
  have headerLength := length_encodeHeader X recordType lsn payload
  obtain ⟨atMagic, atCrc, atLength, atLsn, atType⟩ :=
    header_fields X recordType payload [] fits
  rw [List.append_nil] at atMagic atCrc atLength atLsn atType
  simp only [WalReader.readRecord, Exec.get_bind, Exec.modify_bind, List.take_left' headerLength,
    List.drop_left' headerLength, atMagic, atCrc, atLength, atLsn, atType, ne_eq,
    not_true_eq_false, if_false, WalRecordType.fromU16_toU16]

/-- **A frame is read back**, whatever follows it. -/
theorem readRecord_frame {record : WalRecord} (short : Short record) (fits : record.lsn < 2 ^ 64) (rest : Bytes) :
    WalReader.readRecord X (frame X record ++ rest) = (.ok (readBack X record), rest) := by
  have size := length_encodePayload record
  rw [frame, List.append_assoc, readRecord_encodeHeader X _ _ _ fits]
  have whole : (encodePayload record).length % 2 ^ 32 = (encodePayload record).length :=
    Nat.mod_eq_of_lt short
  have room : ¬ (encodePayload record ++ rest).length < (encodePayload record).length := by
    rw [List.length_append]; omega
  rw [whole]
  simp only [WalReader.readPayload, Exec.get_bind, if_neg room, Exec.modify_bind, List.take_left,
    List.drop_left, UInt32.ofNat_toNat, ne_eq, not_true_eq_false, if_false]
  rw [if_pos (by omega), decodePayload_encodePayload short]
  rfl

/-! ## Segments -/

def frames (X : Extern) (records : List WalRecord) : Bytes := records.flatMap (frame X)

@[simp] theorem frames_nil : frames X [] = [] := rfl

@[simp] theorem frames_cons (record : WalRecord) (records : List WalRecord) :
    frames X (record :: records) = frame X record ++ frames X records := rfl

@[simp] theorem frames_append (front back : List WalRecord) :
    frames X (front ++ back) = frames X front ++ frames X back := List.flatMap_append

/-- A record both parsers understand. -/
def Readable (record : WalRecord) : Prop := Short record ∧ record.lsn < 2 ^ 64

/-- The highest LSN of a list of records, zero if there is none. -/
def maxLsn (records : List WalRecord) : Nat := records.foldl (fun top record => max top record.lsn) 0

theorem recoverLsnLoop_frames {records : List WalRecord}
    (readable : ∀ r ∈ records, Readable r) (torn : rest.length < 24) (fuel top : Nat)
    (enough : (frames X records ++ rest).length ≤ fuel) :
    WalWriter.recoverLsnLoop fuel (frames X records ++ rest) top =
      records.foldl (fun top record => max top record.lsn) top := by
  induction records generalizing fuel top with
  | nil =>
    cases fuel with
    | zero => rfl
    | succ fuel =>
      rw [WalWriter.recoverLsnLoop, if_pos (by simpa using torn)]
      rfl
  | cons record records ih =>
    obtain ⟨⟨short, fits⟩, later⟩ := List.forall_mem_cons.mp readable
    have size := length_frame X record
    rw [frames_cons, List.append_assoc] at enough ⊢
    rw [List.length_append] at enough
    obtain ⟨fuel, rfl⟩ := Nat.exists_eq_add_of_le' (show 1 ≤ fuel by omega)
    have long : ¬ (frame X record ++ (frames X records ++ rest)).length < 24 := by
      rw [List.length_append]; omega
    obtain ⟨-, -, atLength, atLsn, -⟩ := header_fields X record.recordType (encodePayload record)
      (encodePayload record ++ (frames X records ++ rest)) fits
    have body : (frame X record ++ (frames X records ++ rest)).drop 24 =
        encodePayload record ++ (frames X records ++ rest) := by
      rw [frame, List.append_assoc]
      exact List.drop_left' (length_encodeHeader _ _ _ _)
    rw [WalWriter.recoverLsnLoop, if_neg long]
    simp only [body]
    rw [frame, List.append_assoc, atLength, atLsn, Nat.mod_eq_of_lt short, if_neg (by simp),
      List.drop_left, ih later fuel _ (by omega)]
    rfl

theorem recoverLsnFromSegment_frames {records : List WalRecord}
    (readable : ∀ r ∈ records, Readable r) (torn : rest.length < 24) :
    WalWriter.recoverLsnFromSegment (frames X records ++ rest) = maxLsn records :=
  recoverLsnLoop_frames X readable torn _ 0 (le_rfl)

end

/-! ## The log directory -/

/-- The segments of a directory, numbered from `n` on. -/
def numbered : Nat → List Bytes → List (Nat × Bytes)
  | _, [] => []
  | n, file :: files => (n, file) :: numbered (n + 1) files

/-- The directory holds exactly the segments 1, 2, … with these contents. -/
def Files (dir : WalDir) (files : List Bytes) : Prop := dir.toList = numbered 1 files

theorem lookup_numbered (n : Nat) (files : List Bytes) (k : Nat) :
    (numbered n files).lookup k = if k < n then none else files[k - n]? := by
  induction files generalizing n with
  | nil => simp [numbered]
  | cons file files ih =>
    rw [numbered, lookup_cons_ite, ih]
    rcases lt_trichotomy k n with below | same | above
    · simp [below, Nat.ne_of_lt below, Nat.lt_succ_of_lt below]
    · simp [same]
    · obtain ⟨d, rfl⟩ := Nat.exists_eq_add_of_lt above
      have past : n + d + 1 - n = d + 1 := by omega
      have next : n + d + 1 - (n + 1) = d := by omega
      have differ : n + d + 1 ≠ n := by omega
      have notBelow : ¬ n + d + 1 < n := by omega
      simp [past, next, differ, notBelow]

theorem sortedKeys_numbered (n : Nat) (files : List Bytes) : SortedKeys (numbered n files) := by
  have above : ∀ (files : List Bytes) (n : Nat), ∀ e ∈ numbered n files, n ≤ e.1 := by
    intro files
    induction files with
    | nil => simp [numbered]
    | cons file files ih =>
      intro n e member
      rcases List.mem_cons.mp member with rfl | later
      · exact le_rfl
      · exact (Nat.le_succ n).trans (ih (n + 1) e later)
  induction files generalizing n with
  | nil => exact List.Pairwise.nil
  | cons file files ih => exact sortedKeys_cons.mpr ⟨fun e member => above files (n + 1) e member, ih _⟩

theorem map_snd_numbered (n : Nat) (files : List Bytes) : (numbered n files).map Prod.snd = files := by
  induction files generalizing n with
  | nil => rfl
  | cons file files ih => simp [numbered, ih]

theorem lookup_toList (dir : WalDir) (k : Nat) : dir.toList.lookup k = dir[k]? := by
  have sorted : SortedKeys dir.toList :=
    Std.TreeMap.ordered_keys_toList.imp fun h => Nat.compare_eq_lt.mp h
  ext v
  rw [lookup_eq_some_iff_mem sorted, Std.TreeMap.mem_toList_iff_getElem?_eq_some]

/-- A directory is determined by what is stored under each number. -/
theorem files_iff :
    Files dir files ↔ ∀ k, dir[k]? = if k < 1 then none else files[k - 1]? := by
  constructor
  · intro same k
    rw [← lookup_toList, same, lookup_numbered]
  · intro same
    have sorted : SortedKeys dir.toList :=
      Std.TreeMap.ordered_keys_toList.imp fun h => Nat.compare_eq_lt.mp h
    refine sorted.ext (sortedKeys_numbered 1 files) fun k => ?_
    rw [lookup_toList, same, lookup_numbered]

theorem Files.insert_last {front : List Bytes} {old : Bytes}
    (files : Files dir (front ++ [old])) (new : Bytes) :
    Files (dir.insert (front.length + 1) new) (front ++ [new]) := by
  rw [files_iff] at files ⊢
  intro k
  rw [Std.TreeMap.getElem?_insert, files]
  by_cases here : k = front.length + 1
  · subst here; simp
  · have differ : ¬ compare (front.length + 1) k = .eq := by
      rw [Nat.compare_eq_eq]; exact fun h => here h.symm
    rw [if_neg differ]
    rcases Nat.lt_or_ge k 1 with zero | positive
    · simp [zero]
    · simp only [Nat.not_lt.mpr positive, if_false, List.getElem?_append]
      split
      · rfl
      · rw [List.getElem?_eq_none (by simp; omega), List.getElem?_eq_none (by simp; omega)]

theorem Files.insert_next (held : Files dir files) (new : Bytes) :
    Files (dir.insert (files.length + 1) new) (files ++ [new]) := by
  rw [files_iff] at held ⊢
  intro k
  rw [Std.TreeMap.getElem?_insert, held]
  by_cases here : k = files.length + 1
  · subst here; simp
  · have differ : ¬ compare (files.length + 1) k = .eq := by
      rw [Nat.compare_eq_eq]; exact fun h => here h.symm
    rw [if_neg differ]
    rcases Nat.lt_or_ge k 1 with zero | positive
    · simp [zero]
    · simp only [Nat.not_lt.mpr positive, if_false, List.getElem?_append]
      split
      · rfl
      · rw [List.getElem?_eq_none (by omega), List.getElem?_eq_none (by simp; omega)]

theorem Files.getElem? (held : Files dir files) (k : Nat) :
    dir[k + 1]? = files[k]? := by
  rw [files_iff.mp held]; simp

theorem foldl_max_numbered (n m : Nat) (files : List Bytes) (below : m ≤ n) :
    (numbered (n + 1) files).foldl (fun top entry => max top entry.1) m =
      if files = [] then m else n + files.length := by
  induction files generalizing n m with
  | nil => rfl
  | cons file files ih =>
    rw [numbered, List.foldl_cons, ih (n + 1) _ (by simp; omega)]
    cases files with
    | nil | cons _ _ => simp; omega

theorem Files.maxSeg (held : Files dir files) :
    dir.toList.foldl (fun maxSeg entry => max maxSeg entry.1) 0 = files.length := by
  rw [held, foldl_max_numbered 0 0 files (le_rfl)]
  cases files <;> simp

theorem Files.logSize (held : Files dir files) :
    WalReader.logSize dir = (files.map List.length).sum := by
  rw [WalReader.logSize, held, ← map_snd_numbered 1 files, List.map_map, map_snd_numbered]
  rfl

/-! ## Reading a directory -/

section

variable (X : Extern)

include X

theorem readNext_frame (dir : WalDir) {record : WalRecord} (readable : Readable record)
    (file : reader.file = some (frame X record ++ rest)) :
    WalReader.readNext X dir reader =
      (.ok (some (readBack X record)), { reader with file := some rest }) := by
  have long : ¬ (frame X record ++ rest).length < 24 := by
    rw [List.length_append, length_frame]; omega
  have here : ∀ next, WalReader.readNextWith X next reader =
      (.ok (some (readBack X record)), { reader with file := some rest }) := by
    intro next
    simp only [WalReader.readNextWith, Exec.get_bind, file, if_neg long,
      readRecord_frame X readable.1 readable.2]
    rfl
  simp only [WalReader.readNext, Exec.get_bind]
  cases reader.maxSeg - reader.currentSeg <;> exact here _

/-- At the end of a segment the reader goes on with the next one. -/
theorem readNext_next {next : Bytes}
    (file : reader.file = some rest) (done : rest.length < 24) (more : reader.currentSeg < reader.maxSeg)
    (found : dir[reader.currentSeg + 1]? = some next) :
    WalReader.readNext X dir reader =
      WalReader.readNext X dir { reader with currentSeg := reader.currentSeg + 1, file := some next } := by
  obtain ⟨left, isLeft⟩ := Nat.exists_eq_add_of_lt more
  have here : reader.maxSeg - reader.currentSeg = left + 1 := by omega
  have there : reader.maxSeg - (reader.currentSeg + 1) = left := by omega
  simp only [WalReader.readNext, Exec.get_bind, here, there, WalReader.readNextLoop]
  simp only [WalReader.readNextWith, Exec.get_bind, file, if_pos done, Exec.modify_bind]
  simp only [WalReader.openSegment, found]
  rfl

/-- At the end of the last segment the reader is done. -/
theorem readNext_end (dir : WalDir)
    (file : reader.file = some rest) (done : rest.length < 24) (last : reader.maxSeg ≤ reader.currentSeg) :
    WalReader.readNext X dir reader = (.ok none, { reader with file := none }) := by
  simp only [WalReader.readNext, Exec.get_bind, Nat.sub_eq_zero_of_le last, WalReader.readNextLoop]
  simp only [WalReader.readNextWith, Exec.get_bind, file, if_pos done]
  rfl

theorem readLoop_frames (dir : WalDir) {records : List WalRecord} (readable : ∀ r ∈ records, Readable r)
    (file : reader.file = some (frames X records ++ rest)) (fuel : Nat) (acc : List WalRecord) :
    WalReader.readLoop X dir (fuel + records.length) acc reader =
      WalReader.readLoop X dir fuel (acc ++ records.map (readBack X))
        { reader with file := some rest } := by
  induction records generalizing reader acc with
  | nil =>
    have same : reader = { reader with file := some rest } := by
      rw [frames_nil, List.nil_append] at file
      rw [← file]
    simpa using congrArg _ same
  | cons record records ih =>
    obtain ⟨first, later⟩ := List.forall_mem_cons.mp readable
    rw [frames_cons, List.append_assoc] at file
    rw [List.length_cons, ← Nat.add_assoc, WalReader.readLoop,
      Exec.bind_of_ok (readNext_frame X dir first file)]
    simp only
    rw [ih later rfl]
    simp

theorem readLoop_congr {reader' : WalReader}
    (same : WalReader.readNext X dir reader = WalReader.readNext X dir reader') (fuel : Nat)
    (acc : List WalRecord) :
    WalReader.readLoop X dir (fuel + 1) acc reader = WalReader.readLoop X dir (fuel + 1) acc reader' := by
  rw [WalReader.readLoop, Exec.bind_apply, Exec.bind_apply, same]

/-- The bytes of a segment: its records and what is left of a torn write. -/
def segment (X : Extern) (s : List WalRecord × Bytes) : Bytes := frames X s.1 ++ s.2

/-- The reader goes through the segments before `last`, skipping what is torn. -/
theorem readLoop_segments {segs : List (List WalRecord × Bytes)}
    (readable : ∀ s ∈ segs, (∀ r ∈ s.1, Readable r) ∧ s.2.length < 24) {front : List Bytes}
    {last : Bytes} {later : List Bytes}
    (held : Files dir (front ++ (segs.map (segment X) ++ last :: later))) {maxSeg : Nat}
    (enough : front.length + segs.length < maxSeg) (fuel : Nat) (acc : List WalRecord) :
    WalReader.readLoop X dir (fuel + 1 + (segs.flatMap Prod.fst).length) acc
        { currentSeg := front.length + 1, maxSeg, file := dir[front.length + 1]? } =
      WalReader.readLoop X dir (fuel + 1) (acc ++ (segs.flatMap Prod.fst).map (readBack X))
        { currentSeg := front.length + segs.length + 1, maxSeg, file := some last } := by
  induction segs generalizing front acc with
  | nil =>
    have found : dir[front.length + 1]? = some last := by rw [held.getElem?]; simp
    simp [found]
  | cons s segs ih =>
    obtain ⟨⟨readableHere, torn⟩, rest⟩ := List.forall_mem_cons.mp readable
    have found : dir[front.length + 1]? = some (frames X s.1 ++ s.2) := by
      rw [held.getElem?]; simp [segment]
    have heldRest : Files dir ((front ++ [segment X s]) ++ (segs.map (segment X) ++ last :: later)) := by
      simpa using held
    have step := ih rest heldRest
      (by simp only [List.length_append, List.length_cons, List.length_nil] at enough ⊢; omega)
      (acc ++ s.1.map (readBack X))
    have split : fuel + 1 + ((s :: segs).flatMap Prod.fst).length =
        fuel + 1 + (segs.flatMap Prod.fst).length + s.1.length := by
      simp only [List.flatMap_cons, List.length_append]; omega
    obtain ⟨next, isNext⟩ : ∃ next, dir[front.length + 1 + 1]? = some next := by
      rw [held.getElem?]
      cases segs <;> simp
    have more : front.length + 1 < maxSeg := by
      rw [List.length_cons] at enough; omega
    rw [split, readLoop_frames X dir readableHere (by exact found), Nat.add_right_comm,
      readLoop_congr X (readNext_next X rfl torn more isNext),
      Nat.add_right_comm, ← isNext]
    simpa [Nat.add_assoc, Nat.add_comm 1] using step

theorem length_le_length_frames (records : List WalRecord) : records.length ≤ (frames X records).length := by
  induction records with
  | nil => simp
  | cons record records ih =>
    have := length_frame X record
    rw [frames_cons, List.length_append, List.length_cons]
    omega

theorem length_records_le (segs : List (List WalRecord × Bytes)) :
    (segs.flatMap Prod.fst).length ≤ ((segs.map (segment X)).map List.length).sum := by
  induction segs with
  | nil => simp
  | cons s segs ih =>
    have := length_le_length_frames X s.1
    simp only [List.flatMap_cons, List.length_append, List.map_cons, List.sum_cons, segment] at *
    omega

end

/-- The reader that `WalReader::open` returns. -/
theorem openDir_eq (held : Files dir files) (some : files ≠ []) :
    WalReader.openDir dir =
      ({ currentSeg := 1, maxSeg := files.length, file := dir[1]? }, dir) := by
  have first : dir.contains 1 = true := by
    rw [Std.TreeMap.contains_eq_isSome_getElem?, held.getElem? 0]
    cases files with
    | nil => exact absurd rfl some
    | cons file files => rfl
  have positive : files.length ≠ 0 := by simpa using some
  simp only [WalReader.openDir, held.maxSeg, if_neg positive, WalWriter.createFile, first, if_true]

theorem seek_eq (held : Files dir files) (some : files ≠ [])
    (reader : WalReader) :
    WalReader.seek dir reader =
      (.ok (), { reader with currentSeg := 1, file := dir[1]? }) := by
  obtain ⟨file, files, rfl⟩ := List.exists_cons_of_ne_nil some
  have found : dir[1]? = .some file := held.getElem? 0
  simp [WalReader.seek, WalReader.openSegment, found]

/-- Reading from the start reads every record before `rest`, the part of a segment
that is not known to be records. -/
theorem readLoop_start (X : Extern) (segs : List (List WalRecord × Bytes))
    (records : List WalRecord) (rest : Bytes) (later : List Bytes)
    (readable : ∀ s ∈ segs, (∀ r ∈ s.1, Readable r) ∧ s.2.length < 24)
    (readableLast : ∀ r ∈ records, Readable r)
    (held : Files dir (segs.map (segment X) ++ (frames X records ++ rest) :: later)) :
    ∃ fuel, WalReader.readLoop X dir (WalReader.logSize dir + 1) []
        { currentSeg := 1, maxSeg := segs.length + 1 + later.length, file := dir[1]? } =
      WalReader.readLoop X dir (fuel + 1) ((segs.flatMap Prod.fst ++ records).map (readBack X))
        { currentSeg := segs.length + 1, maxSeg := segs.length + 1 + later.length,
          file := some rest } := by
  have size : (segs.flatMap Prod.fst).length + records.length ≤ WalReader.logSize dir := by
    have front := length_records_le X segs
    have back := length_le_length_frames X records
    rw [held.logSize]
    simp only [List.map_append, List.sum_append, List.map_cons, List.sum_cons, List.length_append]
    omega
  obtain ⟨fuel, enough⟩ := Nat.exists_eq_add_of_le size
  refine ⟨fuel, ?_⟩
  have below : ([] : List Bytes).length + segs.length < segs.length + 1 + later.length := by
    simp only [List.length_nil]; omega
  have through := readLoop_segments X readable held below (fuel + records.length) []
  let reader : WalReader :=
    { currentSeg := segs.length + 1, maxSeg := segs.length + 1 + later.length,
      file := some (frames X records ++ rest) }
  have atLast : reader.file = some (frames X records ++ rest) := rfl
  have last := readLoop_frames X dir readableLast atLast (fuel + 1)
    ((segs.flatMap Prod.fst).map (readBack X))
  simp only [List.length_nil, Nat.zero_add, List.nil_append] at through
  rw [List.map_append, ← last, show fuel + 1 + records.length = fuel + records.length + 1 by omega,
    ← through]
  congr 1
  omega

/-- **What is laid down is read back**: the segments in order, every record in its
place, and nothing from a torn end shorter than a header. -/
theorem readLoop_eq (X : Extern) {segs : List (List WalRecord × Bytes)}
    (nonempty : segs ≠ [])
    (readable : ∀ s ∈ segs, (∀ r ∈ s.1, Readable r) ∧ s.2.length < 24)
    (held : Files dir (segs.map (segment X))) :
    (WalReader.readLoop X dir (WalReader.logSize dir + 1) []
        { currentSeg := 1, maxSeg := segs.length, file := dir[1]? }).1 =
      .ok ((segs.flatMap Prod.fst).map (readBack X)) := by
  obtain ⟨front, ⟨records, rest⟩, rfl⟩ := List.eq_nil_or_concat segs |>.resolve_left nonempty
  simp only [List.concat_eq_append, List.mem_append, List.mem_singleton] at *
  obtain ⟨fuel, start⟩ := readLoop_start X front records rest []
    (fun s member => readable s (.inl member)) (readable _ (.inr rfl)).1
    (by simpa [segment] using held)
  have torn := (readable _ (.inr rfl)).2
  simp only [List.length_append, List.length_singleton, List.flatMap_append, List.flatMap_cons,
    List.flatMap_nil, List.append_nil, List.length_nil, Nat.add_zero] at start ⊢
  rw [start, WalReader.readLoop, Exec.bind_of_ok (readNext_end X dir rfl torn (le_rfl))]
  rfl

/-- A fresh reader reads from the start of segment 1. -/
theorem readFrom_openDir (X : Extern) (held : Files dir files) (nonempty : files ≠ []) :
    (WalReader.readFrom X dir (WalReader.openDir dir).1).1 =
      (WalReader.readLoop X dir (WalReader.logSize dir + 1) []
        { currentSeg := 1, maxSeg := files.length, file := dir[1]? }).1 := by
  rw [openDir_eq held nonempty, WalReader.readFrom, Exec.bind_of_ok (seek_eq held nonempty _)]

theorem readFrom_eq (X : Extern) {segs : List (List WalRecord × Bytes)}
    (nonempty : segs ≠ [])
    (readable : ∀ s ∈ segs, (∀ r ∈ s.1, Readable r) ∧ s.2.length < 24)
    (held : Files dir (segs.map (segment X))) :
    (WalReader.readFrom X dir (WalReader.openDir dir).1).1 =
      .ok ((segs.flatMap Prod.fst).map (readBack X)) := by
  rw [readFrom_openDir X held (by simpa using nonempty), List.length_map]
  exact readLoop_eq X nonempty readable held

end Wal

end NovaRuntime.Storage
