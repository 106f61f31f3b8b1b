/-
# NovaRuntime.Storage.WalTorn — a crash that cuts the last segment short

`crash` keeps the first `cut` bytes of the last segment. What survives are the
records whose frames lie in them (`within`) and the bytes after the last of these
(`torn`). Reopening and recovering works, and what is appended afterwards can be
read back, when nothing is torn; a cut inside a payload makes the reader fail, and
after a cut inside a header the next append is written behind the torn bytes and
read as part of them.
-/
import NovaRuntime.Storage.Recovery

namespace NovaRuntime.Storage

open NovaRuntime.Library

set_option autoImplicit false

namespace Wal

/-! ## The surviving part of a segment -/

/-- The records whose frames lie entirely in the first `cut` bytes. -/
def within (X : Extern) : Nat → List WalRecord → List WalRecord
  | _, [] => []
  | cut, record :: records =>
    if (frame X record).length ≤ cut then
      record :: within X (cut - (frame X record).length) records
    else []

/-- The surviving bytes after the last whole record. -/
def torn (X : Extern) (cut : Nat) (records : List WalRecord) : Bytes :=
  ((frames X records).take cut).drop (frames X (within X cut records)).length

theorem take_frames (X : Extern) (cut : Nat) (records : List WalRecord) :
    (frames X records).take cut = frames X (within X cut records) ++ torn X cut records := by
  have whole : frames X (within X cut records) <+: (frames X records).take cut := by
    induction records generalizing cut with
    | nil => simp [within]
    | cons record records ih =>
      rw [within]
      split
      · rename_i fits
        obtain ⟨extra, rfl⟩ := Nat.exists_eq_add_of_le fits
        rw [frames_cons, frames_cons, List.take_append, List.take_of_length_le (by omega)]
        exact List.prefix_append_right_inj _ |>.mpr (by simpa using ih extra)
      · simp
  obtain ⟨rest, parts⟩ := whole
  rw [torn, ← parts, List.drop_left]

theorem within_subset (X : Extern) (cut : Nat) (records : List WalRecord) :
    ∀ r ∈ within X cut records, r ∈ records := by
  induction records generalizing cut with
  | nil => simp [within]
  | cons record records ih =>
    rw [within]
    split
    · intro r member
      rcases List.mem_cons.mp member with rfl | later
      · exact List.mem_cons_self
      · exact .tail _ (ih _ r later)
    · simp

namespace Logged

variable {X : Extern} {s : Logged}

/-- The log directory after a crash that keeps `cut` bytes of the last segment. -/
def crash (s : Logged) (cut : Nat) : WalDir :=
  s.wal.dir.insert s.wal.writer.segNum ((s.wal.dir[s.wal.writer.segNum]?.getD []).take cut)

/-- The log reopened after the crash, with the records that survive. -/
def reopened (X : Extern) (s : Logged) (cut : Nat) (policy : FsyncPolicy) : Logged :=
  { wal := WalWriter.openDir (s.crash cut) policy
    earlier := s.earlier
    current := within X cut s.current }

/-- Recovery after the crash replays exactly the surviving records, and what is
appended afterwards is read back, behind them, by the next recovery. The appended
records are those whose length the header can hold. -/
structure TornTailRecovers (X : Extern) (s : Logged) (cut : Nat) (policy : FsyncPolicy) : Prop where
  recovered :
    let t := s.reopened X cut policy
    (Store.recover X t.wal.writer.currentLsn 0 t.wal.dir).1 = .ok (applyAll t.log MemTable.new)
  replayed :
    let t := s.reopened X cut policy
    t.readAll X = .ok (t.log.map (readBack X))
  appended : ∀ records : List WalRecord, (∀ r ∈ records, ¬ Wraps r) →
    let t := (s.reopened X cut policy).run X (records.map .append)
    t.readAll X = .ok (t.log.map (readBack X))

/-- Nothing is left of the record the cut falls into, or less than a header is left
and there is no LSN for another record; and no surviving length has wrapped. -/
structure CleanCut (X : Extern) (s : Logged) (cut : Nat) (policy : FsyncPolicy) : Prop where
  short : AllShort (s.reopened X cut policy)
  clean : torn X cut s.current = [] ∨
    (torn X cut s.current).length < 24 ∧ maxLsn (s.reopened X cut policy).log + 1 = 2 ^ 64

/-! ## The directory after the crash -/

section Crash

variable {X : Extern} {s : Logged} (cut : Nat) (policy : FsyncPolicy)

/-- The surviving segments, with what is torn at the end of the last. -/
def survivingSegments (X : Extern) (s : Logged) (cut : Nat) : List (List WalRecord × Bytes) :=
  (s.earlier.map fun records => (records, [])) ++ [(within X cut s.current, torn X cut s.current)]

theorem files_crash (sound : Sound X s) :
    Files (s.crash cut) (s.earlier.map (frames X) ++
      [frames X (within X cut s.current) ++ torn X cut s.current]) := by
  have held := sound.files
  rw [List.map_append, List.map_singleton] at held
  have number : s.wal.writer.segNum = (s.earlier.map (frames X)).length + 1 := by
    simp [sound.segNum]
  have content : s.wal.dir[(s.earlier.map (frames X)).length + 1]?.getD [] = frames X s.current := by
    rw [held.getElem?]; simp
  rw [crash, number, content, take_frames]
  exact held.insert_last _

theorem files_survivingSegments (sound : Sound X s) :
    Files (s.crash cut) ((survivingSegments X s cut).map (segment X)) := by
  simpa [survivingSegments, segment, Function.comp_def] using files_crash cut sound

theorem flatMap_survivingSegments :
    (survivingSegments X s cut).flatMap Prod.fst = (s.reopened X cut policy).log := by
  simp [survivingSegments, reopened, log, List.flatMap_def, Function.comp_def]

theorem reopened_dir (sound : Sound X s) :
    (s.reopened X cut policy).wal.dir = s.crash cut ∧
      (s.reopened X cut policy).wal.writer.segNum = s.earlier.length + 1 := by
  obtain ⟨sameDir, number⟩ := openDir_segNum (files_crash cut sound) (by simp) policy
  refine ⟨sameDir, ?_⟩
  rw [reopened, number]
  simp

theorem reopened_lsns (sound : Sound X s) :
    ∀ r ∈ (s.reopened X cut policy).log, 0 < r.lsn ∧ r.lsn < 2 ^ 64 := by
  intro r member
  refine sound.lsns r ?_
  rw [flatten_segs]
  simp only [reopened, log, List.mem_append] at member ⊢
  exact member.imp_right (within_subset X cut s.current r)

/-- The surviving segments are readable if less than a header is torn. -/
theorem readable_survivingSegments (sound : Sound X s)
    (short : AllShort (s.reopened X cut policy)) (tail : (torn X cut s.current).length < 24) :
    ∀ t ∈ survivingSegments X s cut, (∀ r ∈ t.1, Readable r) ∧ t.2.length < 24 := by
  intro t member
  have ok : ∀ r ∈ (s.reopened X cut policy).log, Readable r :=
    fun r inLog => ⟨short r inLog, (reopened_lsns cut policy sound r inLog).2⟩
  simp only [survivingSegments, List.mem_append, List.mem_map, List.mem_singleton] at member
  rcases member with ⟨records, inEarlier, rfl⟩ | rfl
  · refine ⟨fun r inRecords => ok r ?_, by simp⟩
    exact List.mem_append_left _ (List.mem_flatten.mpr ⟨records, inEarlier, inRecords⟩)
  · exact ⟨fun r inRecords => ok r (List.mem_append_right _ inRecords), tail⟩

end Crash

/-! ## A clean cut recovers -/

/-- With nothing torn, the reopened log is a log like any other. -/
theorem sound_reopened (sound : Sound X s) {cut : Nat}
    (policy : FsyncPolicy) (clean : torn X cut s.current = []) : Sound X (s.reopened X cut policy) where
  nonempty := by simp
  files := by
    rw [(reopened_dir cut policy sound).1]
    simpa [reopened, clean] using files_crash cut sound
  segNum := by
    rw [(reopened_dir cut policy sound).2]
    simp [reopened]
  lsns := by
    rw [flatten_segs]
    exact reopened_lsns cut policy sound

/-! ## What a successful read says about the bytes -/

theorem decodePayload_ok {data : Bytes} {txId : UInt64} {key : Key} {value : Option Value}
    {timestamp : Int64} (decoded : decodePayload data = .ok (txId, key, value, timestamp)) :
    key = slice data 12 key.length ∧ 16 + key.length + (value.getD []).length ≤ data.length := by
  simp only [decodePayload] at decoded
  split at decoded
  · cases decoded
  · split at decoded
    · cases decoded
    · split at decoded
      · cases decoded
      · rename_i keyFits lenFits
        split at decoded
        · cases decoded
        · rename_i valueFits
          simp only [Outcome.ok.injEq, Prod.mk.injEq] at decoded
          obtain ⟨-, rfl, rfl, -⟩ := decoded
          have size : (slice data 12 (ofLe (slice data 8 4))).length = ofLe (slice data 8 4) :=
            length_slice (by omega)
          rw [size]
          refine ⟨rfl, ?_⟩
          split
          · rw [Option.getD_some, length_slice (by omega)]
            omega
          · simp only [Option.getD_none, List.length_nil]
            omega

/-- A record that was read decodes from as many bytes as its header announces. -/
theorem readRecord_ok {file rest : Bytes} {record : WalRecord}
    (read : WalReader.readRecord X file = (.ok record, rest)) :
    let length := ofLe (slice (file.take 24) 8 4)
    (record.key = [] ∧ record.value = none) ∨
      ∃ txId timestamp, decodePayload ((file.drop 24).take length) =
        .ok (txId, record.key, record.value, timestamp) := by
  intro length
  simp only [WalReader.readRecord, Exec.get_bind, Exec.modify_bind] at read
  split at read
  · simp at read
  · cases isType : WalRecordType.fromU16 (ofLe (slice (file.take 24) 20 2)) with
    | none => simp [isType] at read
    | some recordType =>
      simp only [isType, WalReader.readPayload, Exec.get_bind] at read
      split at read
      · simp at read
      · simp only [Exec.modify_bind] at read
        split at read
        · simp at read
        · rw [Exec.bind_eq_ok] at read
          obtain ⟨⟨txId, key, value, timestamp⟩, _, decoded, made⟩ := read
          simp only [Exec.lift_apply, Prod.mk.injEq] at decoded
          simp only [Exec.pure_apply, Prod.mk.injEq, Outcome.ok.injEq] at made
          obtain ⟨rfl, -⟩ := made
          split at decoded
          · exact .inr ⟨txId, timestamp, decoded.1⟩
          · have nothing := decoded.1
            simp only [Outcome.ok.injEq, Prod.mk.injEq] at nothing
            exact .inl ⟨nothing.2.1.symm, nothing.2.2.1.symm⟩

/-- If the reader gets through with a whole header in front of it, it has read a
record there. -/
theorem readLoop_ok_cons {dir : WalDir} {reader : WalReader} {file : Bytes}
    (here : reader.file = some file) (long : 24 ≤ file.length) {fuel : Nat} {acc records : List WalRecord}
    (read : (WalReader.readLoop X dir (fuel + 1) acc reader).1 = .ok records) :
    ∃ record rest more, WalReader.readRecord X file = (.ok record, rest) ∧
      records = acc ++ record :: more := by
  have next : WalReader.readNext X dir reader =
      ((WalReader.readRecord X file).1 >>= fun record => .ok (some record),
        { reader with file := some (WalReader.readRecord X file).2 }) := by
    have step : ∀ further, WalReader.readNextWith X further reader =
        ((WalReader.readRecord X file).1 >>= fun record => .ok (some record),
          { reader with file := some (WalReader.readRecord X file).2 }) := by
      intro further
      rw [WalReader.readNextWith, Exec.get_bind]
      simp only [here, if_neg (not_lt.mpr long), Exec.modify_bind]
      rw [Exec.bind_apply, Exec.lift_apply]
      cases (WalReader.readRecord X file).1 <;> rfl
    simp only [WalReader.readNext, Exec.get_bind]
    cases reader.maxSeg - reader.currentSeg <;> exact step _
  rw [WalReader.readLoop, Exec.bind_apply, next] at read
  rcases readHere : WalReader.readRecord X file with ⟨record | error | _ | _, rest⟩
  · rw [readHere] at read
    simp only [Outcome.ok_bind, Store.readLoop_acc X dir fuel (acc ++ [record]),
      Outcome.bind_eq_ok] at read
    obtain ⟨more, -, whole⟩ := read
    refine ⟨record, rest, more, rfl, ?_⟩
    rw [← Outcome.ok.inj whole]
    simp
  all_goals
    rw [readHere] at read
    simp at read

/-! ## A wrapped length is misread -/

/-- The payload of a record is longer than what its wrapped length announces. -/
theorem readRecord_long {record read : WalRecord} (long : ¬ Short record) {more rest : Bytes}
    (parsed : WalReader.readRecord X (frame X record ++ more) = (.ok read, rest)) :
    read ≠ readBack X record := by
  rintro rfl
  have size := length_encodePayload record
  have stored : (readBack X record).value.getD [] = record.value.getD [] :=
    Store.getD_storedValue record.value
  have header : (frame X record ++ more).take 24 =
      encodeHeader X record.recordType record.lsn (encodePayload record) := by
    rw [frame, List.append_assoc]
    exact List.take_left' (length_encodeHeader _ _ _ _)
  have announced : ofLe (slice ((frame X record ++ more).take 24) 8 4) =
      (encodePayload record).length % 2 ^ 32 := by
    have parts : encodeHeader X record.recordType record.lsn (encodePayload record) =
        le 4 magic ++ (le 4 (X.crc32c (encodePayload record)).toNat ++
          (le 4 (encodePayload record).length ++ (le 8 record.lsn ++
            (le 2 record.recordType.toU16 ++ le 2 0)))) := by simp [encodeHeader]
    rw [header, parts, slice_of_eq (le 4 magic ++ le 4 (X.crc32c (encodePayload record)).toNat)
      (le 4 (encodePayload record).length) _ (by simp; rfl) (by simp) (by simp), ofLe_le]
    rfl
  unfold Short at long
  rcases readRecord_ok parsed with ⟨noKey, noValue⟩ | ⟨txId, timestamp, decoded⟩
  · have key : record.key = [] := noKey
    rw [noValue] at stored
    rw [key, ← stored] at size
    simp only [List.length_nil, Option.getD_none] at size
    omega
  · have fits := (decodePayload_ok decoded).2
    rw [announced, stored] at fits
    have key : (readBack X record).key = record.key := rfl
    rw [key, List.length_take] at fits
    omega

/-- The first record of a log that fails a test, with its segment and the logs
before and after it. -/
theorem exists_first_bad {p : WalRecord → Prop} (segs : List (List WalRecord))
    (bad : ¬ ∀ r ∈ segs.flatten, p r) :
    ∃ before good record rest after, segs = before ++ (good ++ record :: rest) :: after ∧
      (∀ r ∈ before.flatten, p r) ∧ (∀ r ∈ good, p r) ∧ ¬ p record := by
  classical
  induction segs with
  | nil => simp at bad
  | cons seg segs ih =>
    by_cases here : ∀ r ∈ seg, p r
    · obtain ⟨before, good, record, rest, after, rfl, okBefore, okGood, fails⟩ := ih fun later =>
        bad fun r member => by
          rw [List.flatten_cons, List.mem_append] at member
          exact member.elim (here r) (later r)
      refine ⟨seg :: before, good, record, rest, after, rfl, fun r member => ?_, okGood, fails⟩
      rw [List.flatten_cons, List.mem_append] at member
      exact member.elim (here r) (okBefore r)
    · obtain ⟨record, isFirst⟩ : ∃ record, seg.find? (fun r => decide (¬ p r)) = some record := by
        rw [← Option.isSome_iff_exists, List.find?_isSome]
        simpa using here
      obtain ⟨fails, good, rest, rfl, okGood⟩ := List.find?_eq_some_iff_append.mp isFirst
      exact ⟨[], good, record, rest, segs, rfl, by simp, fun r member => by simpa using okGood r member,
        by simpa using fails⟩

/-- The files after the crash, around one surviving segment. -/
theorem files_crash_around (sound : Sound X s) (cut : Nat)
    {before after : List (List WalRecord)} {seg : List WalRecord}
    (split : s.earlier ++ [within X cut s.current] = before ++ seg :: after) :
    ∃ more later, Files (s.crash cut) (before.map (frames X) ++ (frames X seg ++ more) :: later) := by
  have held := files_crash cut sound
  rcases List.eq_nil_or_concat after with rfl | ⟨front, last, rfl⟩
  · obtain ⟨rfl, same⟩ := List.append_inj' split rfl
    cases same
    exact ⟨torn X cut s.current, [], held⟩
  · rw [List.concat_eq_append, ← List.cons_append, ← List.append_assoc] at split
    obtain ⟨isEarlier, -⟩ := List.append_inj' split rfl
    rw [isEarlier] at held
    exact ⟨[], front.map (frames X) ++ [frames X (within X cut s.current) ++ torn X cut s.current],
      by simpa using held⟩

/-- If the surviving records are read back, none of their lengths has wrapped. -/
theorem allShort_of_replayed (sound : Sound X s) {cut : Nat} {policy : FsyncPolicy}
    (replayed : (s.reopened X cut policy).readAll X =
      .ok ((s.reopened X cut policy).log.map (readBack X))) :
    AllShort (s.reopened X cut policy) := by
  by_contra notShort
  have whole : (s.earlier ++ [within X cut s.current]).flatten = (s.reopened X cut policy).log :=
    flatten_segs (s.reopened X cut policy)
  obtain ⟨before, good, record, rest, after, split, okBefore, okGood, long⟩ :=
    exists_first_bad (p := Short) (s.earlier ++ [within X cut s.current]) (whole ▸ notShort)
  obtain ⟨more, later, held⟩ := files_crash_around sound cut split
  have lsns : ∀ r ∈ (s.reopened X cut policy).log, r.lsn < 2 ^ 64 :=
    fun r member => (reopened_lsns cut policy sound r member).2
  rw [← whole, split] at lsns replayed
  -- reading reaches the first record whose length has wrapped
  obtain ⟨fuel, start⟩ := readLoop_start X (before.map fun records => (records, [])) good
    (frame X record ++ (frames X rest ++ more)) later
    (readable_whole fun r member => ⟨okBefore r member, lsns r (by simp [member])⟩)
    (fun r member => ⟨okGood r member, lsns r (by simp [member])⟩)
    (by simpa [segment, Function.comp_def] using held)
  rw [readAll, (reopened_dir cut policy sound).1, readFrom_openDir X held (by simp)] at replayed
  have segments : (before.map (frames X) ++
      (frames X (good ++ record :: rest) ++ more) :: later).length =
      (before.map fun records => (records, ([] : Bytes))).length + 1 + later.length := by
    simp only [List.length_append, List.length_map, List.length_cons]; omega
  rw [segments, start] at replayed
  obtain ⟨read, _, others, parsed, listed⟩ := readLoop_ok_cons rfl
    (by rw [List.length_append, length_frame]; omega) replayed
  refine readRecord_long long parsed ?_
  rw [flatMap_whole] at listed
  simp only [List.flatten_append, List.flatten_cons, List.map_append, List.map_cons,
    List.append_assoc, List.cons_append, List.append_cancel_left_eq, List.cons.injEq] at listed
  exact listed.1.symm

/-! ## A torn record is not skipped -/

/-- If the surviving records are read back, no whole header is torn. -/
theorem torn_lt_of_replayed (sound : Sound X s) {cut : Nat}
    {policy : FsyncPolicy} (short : AllShort (s.reopened X cut policy))
    (replayed : (s.reopened X cut policy).readAll X =
      .ok ((s.reopened X cut policy).log.map (readBack X))) :
    (torn X cut s.current).length < 24 := by
  by_contra long
  have readable : ∀ r ∈ (s.reopened X cut policy).log, Readable r :=
    fun r member => ⟨short r member, (reopened_lsns cut policy sound r member).2⟩
  have held := files_crash cut sound
  obtain ⟨fuel, start⟩ := readLoop_start X (s.earlier.map fun records => (records, []))
    (within X cut s.current) (torn X cut s.current) []
    (readable_whole fun r member => readable r (List.mem_append_left _ member))
    (fun r member => readable r (List.mem_append_right _ member))
    (by simpa [segment, Function.comp_def] using held)
  rw [readAll, (reopened_dir cut policy sound).1, readFrom_openDir X held (by simp)] at replayed
  have segments : (s.earlier.map (frames X) ++
      [frames X (within X cut s.current) ++ torn X cut s.current]).length =
      (s.earlier.map fun records => (records, ([] : Bytes))).length + 1 + 0 := by simp
  rw [segments, ← List.length_nil, start] at replayed
  obtain ⟨read, _, others, -, listed⟩ := readLoop_ok_cons rfl (not_lt.mp long) replayed
  rw [flatMap_whole] at listed
  simp [reopened, log] at listed

/-! ## An append behind a torn header is lost -/

/-- A record whose key no misaligned read can give back. -/
def probe : WalRecord := makeRecord 0 .insert 0 (List.replicate 24 1) none

/-- Reading starts `torn.length` bytes too early, so the key that is read contains
a byte of the key's own length. -/
theorem readRecord_misaligned {tail : Bytes} (some : tail ≠ []) (few : tail.length < 24)
    (lsn : Nat) {read : WalRecord} {rest : Bytes}
    (parsed : WalReader.readRecord X (tail ++ frame X (withLsn probe lsn)) = (.ok read, rest)) :
    read ≠ readBack X (withLsn probe lsn) := by
  rintro rfl
  have positive : 0 < tail.length := List.length_pos_iff.mpr some
  have isKey : (readBack X (withLsn probe lsn)).key = List.replicate 24 1 := rfl
  rcases readRecord_ok parsed with ⟨noKey, -⟩ | ⟨txId, timestamp, decoded⟩
  · rw [isKey] at noKey
    cases noKey
  · have window := (decodePayload_ok decoded).1
    rw [isKey, List.length_replicate] at window
    -- byte 35 of the frame is the highest byte of the key length
    have lengthByte : (frame X (withLsn probe lsn))[35]? = .some 0 := by
      have payload : (encodePayload probe)[11]? = .some 0 := by decide
      rw [frame_withLsn, List.getElem?_append_right (by simp), length_encodeHeader]
      exact payload
    have inKey : (List.replicate 24 (1 : UInt8))[tail.length - 1]? = .some 1 := by
      rw [List.getElem?_replicate, if_pos (by omega)]
    rw [window, slice, List.getElem?_take_of_lt (by omega), List.getElem?_drop, List.getElem?_take]
      at inKey
    split at inKey
    · rw [List.getElem?_drop, List.getElem?_append_right (by omega),
        show 24 + (12 + (tail.length - 1)) - tail.length = 35 by omega, lengthByte] at inKey
      cases inKey
    · cases inKey

/-- Without an LSN left, nothing is appended. -/
theorem run_exhausted (exhausted : 2 ^ 64 ≤ s.wal.writer.currentLsn + 1)
    (records : List WalRecord) : s.run X (records.map .append) = s := by
  induction records with
  | nil => rfl
  | cons record records ih =>
    have same : s.step X (.append record) = s := by
      rcases append_cases X record s.wal with ⟨-, panicked⟩ | ⟨room, -⟩ | ⟨room, -⟩
      · simp only [Logged.step, panicked]
      · omega
      · omega
    rw [List.map_cons, run, List.foldl_cons, same]
    exact ih

section Reopened

variable {X : Extern} {s : Logged} {cut : Nat} {policy : FsyncPolicy}

section

variable (sound : Sound X s) (short : AllShort (s.reopened X cut policy)) (few : (torn X cut s.current).length < 24)

include sound short few

theorem reopened_currentLsn :
    (s.reopened X cut policy).wal.writer.currentLsn = maxLsn (s.reopened X cut policy).log := by
  have found := openDir_currentLsn X (by simp [survivingSegments])
    (readable_survivingSegments cut policy sound short few) (files_survivingSegments cut sound) policy
  rw [flatMap_survivingSegments cut policy] at found
  exact found

theorem readAll_reopened :
    (s.reopened X cut policy).readAll X = .ok ((s.reopened X cut policy).log.map (readBack X)) := by
  rw [readAll, (reopened_dir cut policy sound).1, ← flatMap_survivingSegments cut policy]
  exact readFrom_eq X (by simp [survivingSegments])
    (readable_survivingSegments cut policy sound short few) (files_survivingSegments cut sound)

theorem recover_reopened : (Store.recover X (s.reopened X cut policy).wal.writer.currentLsn 0
      (s.reopened X cut policy).wal.dir).1 =
        .ok (applyAll (s.reopened X cut policy).log MemTable.new) := by
  have done := Store.recover_segments X (by simp [survivingSegments])
    (readable_survivingSegments cut policy sound short few) (files_survivingSegments cut sound) (by
      rw [flatMap_survivingSegments cut policy]
      exact fun r member => (reopened_lsns cut policy sound r member).1) policy
  rw [flatMap_survivingSegments cut policy] at done
  exact congrArg Prod.fst done

end

/-- The probe cannot be read back behind a torn header. -/
theorem probe_lost (sound : Sound X s) (short : AllShort (s.reopened X cut policy))
    (some : torn X cut s.current ≠ []) (few : (torn X cut s.current).length < 24)
    (room : maxLsn (s.reopened X cut policy).log + 1 < 2 ^ 64) :
    ((s.reopened X cut policy).run X [.append probe]).readAll X ≠
      .ok (((s.reopened X cut policy).run X [.append probe]).log.map (readBack X)) := by
  intro replayed
  have counter := reopened_currentLsn sound short few
  obtain ⟨sameDir, number⟩ := reopened_dir cut policy sound
  have readable : ∀ r ∈ (s.reopened X cut policy).log, Readable r :=
    fun r member => ⟨short r member, (reopened_lsns cut policy sound r member).2⟩
  rcases append_cases X probe (s.reopened X cut policy).wal with
    ⟨full, -⟩ | ⟨-, large, -⟩ | ⟨-, -, written⟩
  · omega
  · exact large (by decide)
  · have grown : (s.reopened X cut policy).run X [.append probe] = {
        wal := {
          dir := appended X (s.reopened X cut policy).wal probe
            ((s.reopened X cut policy).wal.writer.currentLsn + 1)
          writer := { (s.reopened X cut policy).wal.writer with
            currentLsn := (s.reopened X cut policy).wal.writer.currentLsn + 1 } }
        earlier := s.earlier
        current := within X cut s.current ++
          [withLsn probe ((s.reopened X cut policy).wal.writer.currentLsn + 1)] } := by
      rw [run, List.foldl_cons, List.foldl_nil, Logged.step, written]
      rfl
    rw [grown] at replayed
    have cutFiles := files_crash cut sound
    rw [← sameDir] at cutFiles
    have held := cutFiles.appended (X := X) (by rw [number]; simp) probe
      ((s.reopened X cut policy).wal.writer.currentLsn + 1)
    rw [List.append_assoc] at held
    obtain ⟨fuel, start⟩ := readLoop_start X (s.earlier.map fun records => (records, []))
      (within X cut s.current) _ []
      (readable_whole fun r member => readable r (List.mem_append_left _ member))
      (fun r member => readable r (List.mem_append_right _ member))
      (by simpa [segment, Function.comp_def] using held)
    simp only [readAll] at replayed
    rw [readFrom_openDir X held (by simp)] at replayed
    have segments : ∀ last : Bytes, (s.earlier.map (frames X) ++ [last]).length =
        (s.earlier.map fun records => (records, ([] : Bytes))).length + 1 + ([] : List Bytes).length := by
      simp
    rw [segments, start] at replayed
    obtain ⟨read, rest, others, parsed, listed⟩ := readLoop_ok_cons rfl
      (by rw [List.length_append, length_frame]; omega) replayed
    refine readRecord_misaligned some few _ parsed ?_
    rw [flatMap_whole] at listed
    simp only [log, List.map_append, List.map_cons, List.map_nil, List.append_assoc,
      List.append_cancel_left_eq, List.cons.injEq] at listed
    exact listed.1.symm

/-- **Recovery after a crash works exactly for clean cuts.** -/
theorem recovers_iff_clean (sound : Sound X s) :
    TornTailRecovers X s cut policy ↔ CleanCut X s cut policy := by
  constructor
  · intro recovers
    have short := allShort_of_replayed sound recovers.replayed
    have few := torn_lt_of_replayed sound short recovers.replayed
    refine ⟨short, ?_⟩
    by_contra notClean
    rw [not_or, not_and] at notClean
    have bound : maxLsn (s.reopened X cut policy).log < 2 ^ 64 :=
      maxLsn_lt (by decide) fun r member => (reopened_lsns cut policy sound r member).2
    exact probe_lost sound short notClean.1 few (by have := notClean.2 few; omega)
      (recovers.appended [probe] (by simp; decide))
  · rintro ⟨short, clean | ⟨few, exhausted⟩⟩
    · have again := sound_reopened sound policy clean
      have few : (torn X cut s.current).length < 24 := by rw [clean]; decide
      refine ⟨recover_reopened sound short few, readAll_eq again short, fun records fits => ?_⟩
      have fitsOps : ∀ record, WalOp.append record ∈ records.map .append → ¬ Wraps record := by
        intro record member
        obtain ⟨r, inRecords, same⟩ := List.mem_map.mp member
        cases same
        exact fits record inRecords
      exact readAll_eq (again.run _) (run_invariant again short fitsOps).1
    · refine ⟨recover_reopened sound short few, readAll_reopened sound short few,
        fun records _ => ?_⟩
      rw [run_exhausted (by rw [reopened_currentLsn sound short few]; omega)]
      exact readAll_reopened sound short few

end Reopened

/-- **Torn-tail recovery.** After any run of the log writer and a crash that keeps
`cut` bytes of the last segment, the log recovers exactly when nothing is left of
the record the cut falls into, and no surviving payload length has wrapped. -/
theorem recovers_run_iff (X : Extern) (opened : FsyncPolicy) (ops : List WalOp) (cut : Nat)
    (policy : FsyncPolicy) :
    TornTailRecovers X ((start opened).run X ops) cut policy ↔
      CleanCut X ((start opened).run X ops) cut policy :=
  recovers_iff_clean ((sound_start X opened).run ops)

/-- A cut inside the payload of the only record: the log does not open again. -/
theorem cut_payload_fails :
    ¬ ∃ X, TornTailRecovers X
      ((start .async).run X [.append (makeRecord 0 .insert 0 [107] (some [118]))]) 40 .async := by
  rintro ⟨X, recovers⟩
  have sound := (sound_start X .async).run [.append (makeRecord 0 .insert 0 [107] (some [118]))]
  have few := torn_lt_of_replayed sound (allShort_of_replayed sound recovers.replayed)
    recovers.replayed
  have logged : ((start .async).run X [.append (makeRecord 0 .insert 0 [107] (some [118]))]).current =
      [withLsn (makeRecord 0 .insert 0 [107] (some [118])) 1] := rfl
  have size : (frame X (withLsn (makeRecord 0 .insert 0 [107] (some [118])) 1)).length = 50 := by
    rw [length_frame]
    decide
  rw [logged, torn, within, size] at few
  simp [size] at few

end Logged

end Wal

end NovaRuntime.Storage
