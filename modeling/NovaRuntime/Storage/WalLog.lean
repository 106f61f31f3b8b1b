/-
# NovaRuntime.Storage.WalLog — runs of the log writer

A run appends, switches segments, flushes and reopens, in any order, on one
directory. `Logged` keeps beside the writer the records whose append succeeded,
in order. In every state of a run the segments are the frames of these records
(`Lays`), and as long as no payload length wraps (`Wraps`) their LSNs strictly
increase, because the writer's counter never falls below a logged LSN: not when an
oversized record is rejected, which uses an LSN up, and not on reopening, which
finds the highest one again (`Ordered`).
-/
import NovaRuntime.Storage.WalSpec

namespace NovaRuntime.Storage

open NovaRuntime.Library

set_option autoImplicit false

namespace Wal

variable {X : Extern} {segs : List (List WalRecord)} {wal : Wal}

/-! ## The writer's operations -/

/-- The segments of the log are `segs`, and the writer is at the last one. -/
structure Lays (X : Extern) (wal : Wal) (segs : List (List WalRecord)) : Prop where
  nonempty : segs ≠ []
  files : Files wal.dir (segs.map (frames X))
  segNum : wal.writer.segNum = segs.length
  lsns : ∀ r ∈ segs.flatten, 0 < r.lsn ∧ r.lsn < 2 ^ 64

/-- The payload length wraps around to one that is accepted. -/
def Wraps (record : WalRecord) : Prop :=
  2 ^ 32 ≤ (encodePayload record).length ∧ (encodePayload record).length % 2 ^ 32 ≤ maxPayloadSize

instance (record : WalRecord) : Decidable (Wraps record) := by unfold Wraps; infer_instance

/-- The payload passes the check against the maximum. -/
def Accepted (record : WalRecord) : Prop := (encodePayload record).length % 2 ^ 32 ≤ maxPayloadSize

instance (record : WalRecord) : Decidable (Accepted record) := by unfold Accepted; infer_instance

theorem short_of_accepted {record : WalRecord} (accepted : Accepted record) (fits : ¬ Wraps record) :
    Short record := by
  by_contra long
  exact fits ⟨not_lt.mp long, accepted⟩

/-- The record as it is logged. -/
def withLsn (record : WalRecord) (lsn : Nat) : WalRecord := { record with lsn }

theorem frame_withLsn (X : Extern) (record : WalRecord) (lsn : Nat) :
    frame X (withLsn record lsn) =
      encodeHeader X record.recordType lsn (encodePayload record) ++ encodePayload record := rfl

/-- The directory after both writes of an append. -/
def appended (X : Extern) (wal : Wal) (record : WalRecord) (lsn : Nat) : WalDir :=
  let old := wal.dir[wal.writer.segNum]?.getD []
  let header := encodeHeader X record.recordType lsn (encodePayload record)
  (wal.dir.insert wal.writer.segNum (old ++ header)).insert wal.writer.segNum
    (old ++ header ++ encodePayload record)

/-- **Everything an append can do.** -/
theorem append_cases (X : Extern) (record : WalRecord) (wal : Wal) :
    (2 ^ 64 ≤ wal.writer.currentLsn + 1 ∧ WalWriter.append X record wal = (.panic, wal)) ∨
    (wal.writer.currentLsn + 1 < 2 ^ 64 ∧ ¬ Accepted record ∧
      WalWriter.append X record wal =
        (.err (.invalidArgument "WAL record payload too large"),
          { wal with writer := { wal.writer with currentLsn := wal.writer.currentLsn + 1 } })) ∨
    (wal.writer.currentLsn + 1 < 2 ^ 64 ∧ Accepted record ∧
      WalWriter.append X record wal = (.ok (wal.writer.currentLsn + 1),
        { dir := appended X wal record (wal.writer.currentLsn + 1)
          writer := { wal.writer with currentLsn := wal.writer.currentLsn + 1 } })) := by
  by_cases room : wal.writer.currentLsn + 1 < 2 ^ 64
  · by_cases accepted : Accepted record
    · refine .inr (.inr ⟨room, accepted, ?_⟩)
      have notLarge : ¬ (encodePayload record).length % 2 ^ 32 > maxPayloadSize := not_lt.mpr accepted
      simp only [WalWriter.append, Exec.get_bind, if_pos room, Exec.modify_bind, if_neg notLarge,
        WalWriter.writeAll, appended]
      simp
    · refine .inr (.inl ⟨room, accepted, ?_⟩)
      have large : (encodePayload record).length % 2 ^ 32 > maxPayloadSize := not_le.mp accepted
      simp only [WalWriter.append, Exec.get_bind, if_pos room, Exec.modify_bind, if_pos large,
        Exec.lift_apply]
  · refine .inl ⟨not_lt.mp room, ?_⟩
    simp only [WalWriter.append, Exec.get_bind, if_neg room, Exec.lift_apply]

/-- An append adds the frame to the last segment, whatever that holds. -/
theorem Files.appended {front : List Bytes} {old : Bytes}
    (held : Files wal.dir (front ++ [old])) (number : wal.writer.segNum = front.length + 1)
    (record : WalRecord) (lsn : Nat) :
    Files (appended X wal record lsn) (front ++ [old ++ frame X (withLsn record lsn)]) := by
  have content : wal.dir[front.length + 1]?.getD [] = old := by
    rw [held.getElem?]; simp
  simp only [Wal.appended, number, content]
  have done := (held.insert_last
    (old ++ encodeHeader X record.recordType lsn (encodePayload record))).insert_last
    (old ++ encodeHeader X record.recordType lsn (encodePayload record) ++ encodePayload record)
  simpa [frame_withLsn] using done

theorem Lays.appended {front : List (List WalRecord)}
    {current : List WalRecord} (lays : Lays X wal (front ++ [current])) (record : WalRecord)
    {lsn : Nat} (positive : 0 < lsn) (fits : lsn < 2 ^ 64) (writer : WalWriter)
    (same : writer.segNum = wal.writer.segNum) :
    Lays X { dir := appended X wal record lsn, writer } (front ++ [current ++ [withLsn record lsn]]) where
  nonempty := by simp
  segNum := by simpa [lays.segNum] using same
  lsns r member := by
    simp only [List.flatten_append, List.flatten_cons, List.flatten_nil, List.append_nil,
      List.mem_append, List.mem_singleton] at member
    rcases member with old | old | rfl
    · exact lays.lsns r (by simp [old])
    · exact lays.lsns r (by simp [old])
    · exact ⟨positive, fits⟩
  files := by
    have held := lays.files
    rw [List.map_append, List.map_singleton] at held
    simpa using held.appended (by simp [lays.segNum]) record lsn

theorem createFile_of_absent {dir : WalDir} {num : Nat} (absent : dir[num]? = none) :
    WalWriter.createFile dir num = dir.insert num [] := by
  rw [WalWriter.createFile, Std.TreeMap.contains_eq_isSome_getElem?, absent]
  rfl

/-- **Everything a segment switch can do.** -/
theorem Lays.switchSegment (lays : Lays X wal segs) :
    WalWriter.switchSegment wal = (.panic, wal) ∨
      ∃ wal', WalWriter.switchSegment wal = (.ok (), wal') ∧ Lays X wal' (segs ++ [[]]) ∧
        wal'.writer.currentLsn = wal.writer.currentLsn := by
  simp only [WalWriter.switchSegment, Exec.get_bind]
  split
  · have fresh : wal.dir[segs.length + 1]? = none := by
      rw [lays.files.getElem?]
      simp
    have next := lays.files.insert_next []
    rw [List.length_map] at next
    refine .inr ⟨_, rfl, ⟨by simp, ?_, by simp [lays.segNum], by simpa using lays.lsns⟩, rfl⟩
    simpa [lays.segNum, createFile_of_absent fresh] using next
  · exact .inl rfl

/-- Folding the maximum over a list from a start value. -/
theorem foldl_maxLsn (records : List WalRecord) (top : Nat) :
    records.foldl (fun top record => max top record.lsn) top = max top (maxLsn records) := by
  unfold maxLsn
  induction records generalizing top with
  | nil => simp
  | cons record records ih =>
    rw [List.foldl_cons, List.foldl_cons, ih, ih (max 0 record.lsn)]
    omega

theorem maxLsn_append (front back : List WalRecord) :
    maxLsn (front ++ back) = max (maxLsn front) (maxLsn back) := by
  rw [maxLsn, List.foldl_append, foldl_maxLsn]
  rfl

theorem le_maxLsn {records : List WalRecord} {record : WalRecord} (member : record ∈ records) :
    record.lsn ≤ maxLsn records := by
  obtain ⟨front, back, rfl⟩ := List.append_of_mem member
  rw [maxLsn_append, show record :: back = [record] ++ back from rfl, maxLsn_append]
  simp [maxLsn]

theorem maxLsn_lt {records : List WalRecord} {bound : Nat} (positive : 0 < bound)
    (below : ∀ r ∈ records, r.lsn < bound) : maxLsn records < bound := by
  induction records with
  | nil => exact positive
  | cons record records ih =>
    obtain ⟨first, later⟩ := List.forall_mem_cons.mp below
    have := ih later
    rw [show record :: records = [record] ++ records from rfl, maxLsn_append]
    simp only [maxLsn, List.foldl_cons, List.foldl_nil] at this ⊢
    omega

theorem foldl_recoverLsn (X : Extern) {segs : List (List WalRecord × Bytes)}
    (readable : ∀ s ∈ segs, (∀ r ∈ s.1, Readable r) ∧ s.2.length < 24) (n top : Nat) :
    (numbered n (segs.map (segment X))).foldl
        (fun top entry => max top (WalWriter.recoverLsnFromSegment entry.2)) top =
      max top (maxLsn (segs.flatMap Prod.fst)) := by
  induction segs generalizing n top with
  | nil => simp [numbered, maxLsn]
  | cons s segs ih =>
    obtain ⟨⟨here, torn⟩, later⟩ := List.forall_mem_cons.mp readable
    rw [List.map_cons, numbered, List.foldl_cons, ih later, List.flatMap_cons, maxLsn_append,
      segment, recoverLsnFromSegment_frames X here torn]
    omega

/-- Opening a directory finds its last segment. -/
theorem openDir_segNum {dir : WalDir} {files : List Bytes} (held : Files dir files)
    (nonempty : files ≠ []) (policy : FsyncPolicy) :
    (WalWriter.openDir dir policy).dir = dir ∧
      (WalWriter.openDir dir policy).writer.segNum = files.length := by
  have positive : files.length ≠ 0 := by simpa using nonempty
  have last : dir.contains files.length = true := by
    obtain ⟨n, isLast⟩ := Nat.exists_eq_add_of_le' (Nat.one_le_iff_ne_zero.mpr positive)
    rw [Std.TreeMap.contains_eq_isSome_getElem?, isLast, held.getElem?]
    simp [isLast]
  simp only [WalWriter.openDir, WalWriter.findHighestSegment, held.maxSeg, if_neg positive,
    WalWriter.createFile, last, if_true, and_self]

/-- Opening a readable directory finds its highest LSN. -/
theorem openDir_currentLsn (X : Extern) {dir : WalDir} {segs : List (List WalRecord × Bytes)}
    (nonempty : segs ≠ []) (readable : ∀ s ∈ segs, (∀ r ∈ s.1, Readable r) ∧ s.2.length < 24)
    (held : Files dir (segs.map (segment X))) (policy : FsyncPolicy) :
    (WalWriter.openDir dir policy).writer.currentLsn = maxLsn (segs.flatMap Prod.fst) := by
  have positive : (segs.map (segment X)).length ≠ 0 := by simpa using nonempty
  simp only [WalWriter.openDir, WalWriter.findHighestSegment, held.maxSeg, if_neg positive]
  rw [held, foldl_recoverLsn X readable]
  simp

theorem Lays.reopen (lays : Lays X wal segs)
    (policy : FsyncPolicy) : Lays X (WalWriter.openDir wal.dir policy) segs := by
  have files : segs.map (frames X) ≠ [] := by simpa using lays.nonempty
  obtain ⟨sameDir, number⟩ := openDir_segNum lays.files files policy
  exact ⟨lays.nonempty, by rw [sameDir]; exact lays.files, by simpa using number, lays.lsns⟩

/-- The segments as segments with nothing torn. -/
theorem map_segment_whole (X : Extern) (segs : List (List WalRecord)) :
    (segs.map fun records => (records, ([] : Bytes))).map (segment X) = segs.map (frames X) := by
  simp [segment]

theorem flatMap_whole (segs : List (List WalRecord)) :
    (segs.map fun records => (records, ([] : Bytes))).flatMap Prod.fst = segs.flatten := by
  simp [List.flatMap_def, Function.comp_def]

theorem readable_whole (readable : ∀ r ∈ segs.flatten, Readable r) :
    ∀ s ∈ segs.map fun records => (records, ([] : Bytes)), (∀ r ∈ s.1, Readable r) ∧ s.2.length < 24 := by
  intro s member
  obtain ⟨records, inSegs, rfl⟩ := List.mem_map.mp member
  exact ⟨fun r inRecords => readable r (List.mem_flatten.mpr ⟨records, inSegs, inRecords⟩), by simp⟩

section

variable (lays : Lays X wal segs) (readable : ∀ r ∈ segs.flatten, Readable r)

include lays readable

/-- Reading the log gives its records back. -/
theorem Lays.readFrom : (WalReader.readFrom X wal.dir (WalReader.openDir wal.dir).1).1 =
      .ok (segs.flatten.map (readBack X)) := by
  rw [← flatMap_whole segs]
  exact readFrom_eq X (by simpa using lays.nonempty) (readable_whole readable)
    (map_segment_whole X segs ▸ lays.files)

theorem Lays.reopen_currentLsn (policy : FsyncPolicy) :
    (WalWriter.openDir wal.dir policy).writer.currentLsn = maxLsn segs.flatten := by
  rw [← flatMap_whole segs]
  exact openDir_currentLsn X (by simpa using lays.nonempty) (readable_whole readable)
    (map_segment_whole X segs ▸ lays.files) policy

end

theorem lays_fresh (X : Extern) (policy : FsyncPolicy) : Lays X (WalWriter.openDir ∅ policy) [[]] := by
  refine ⟨by simp, ?_, rfl, by simp⟩
  rfl

/-! ## Runs -/

inductive WalOp where
  | append (record : WalRecord)
  | switchSegment
  | flush
  | reopen (policy : FsyncPolicy)

/-- A log and the records whose append succeeded, in order and with their LSNs:
those of the segments before the last, and those of the last. -/
structure Logged where
  wal : Wal
  earlier : List (List WalRecord) := []
  current : List WalRecord := []

namespace Logged

variable {X : Extern} {s : Logged}

def log (s : Logged) : List WalRecord := s.earlier.flatten ++ s.current

def step (X : Extern) (s : Logged) : WalOp → Logged
  | .append record =>
    match WalWriter.append X record s.wal with
    | (.ok lsn, wal) => { s with wal, current := s.current ++ [withLsn record lsn] }
    | (_, wal) => { s with wal }
  | .switchSegment =>
    match WalWriter.switchSegment s.wal with
    | (.ok (), wal) => { wal, earlier := s.earlier ++ [s.current], current := [] }
    | (_, wal) => { s with wal }
  | .flush => { s with wal := (WalWriter.flush s.wal).2 }
  | .reopen policy => { s with wal := WalWriter.openDir (WalWriter.close s.wal).2.dir policy }

def run (X : Extern) (s : Logged) (ops : List WalOp) : Logged := ops.foldl (step X) s

/-- A log opened on an empty directory. -/
def start (policy : FsyncPolicy) : Logged := { wal := WalWriter.openDir ∅ policy }

/-- The segments hold the log. -/
def Sound (X : Extern) (s : Logged) : Prop := Lays X s.wal (s.earlier ++ [s.current])

/-- No payload length in the log has wrapped. -/
def AllShort (s : Logged) : Prop := ∀ r ∈ s.log, Short r

/-- The LSNs increase and the writer's counter is not below any of them. -/
structure Ordered (s : Logged) : Prop where
  increasing : s.log.Pairwise fun a b => a.lsn < b.lsn
  below : ∀ r ∈ s.log, r.lsn ≤ s.wal.writer.currentLsn

theorem flatten_segs (s : Logged) : (s.earlier ++ [s.current]).flatten = s.log := by simp [log]

@[simp] theorem log_snoc (s : Logged) (wal : Wal) (record : WalRecord) :
    ({ s with wal, current := s.current ++ [record] } : Logged).log = s.log ++ [record] := by
  simp [log]

@[simp] theorem log_switch (s : Logged) (wal : Wal) :
    ({ wal, earlier := s.earlier ++ [s.current], current := [] } : Logged).log = s.log := by
  simp [log]

theorem sound_start (X : Extern) (policy : FsyncPolicy) : Sound X (start policy) :=
  lays_fresh X policy

theorem ordered_start (policy : FsyncPolicy) : Ordered (start policy) :=
  ⟨List.Pairwise.nil, by simp [start, log]⟩

/-- **Everything a step can do to the log.** -/
theorem step_cases (sound : Sound X s) (op : WalOp) :
    ((s.step X op).log = s.log ∧
      (s.wal.writer.currentLsn ≤ (s.step X op).wal.writer.currentLsn ∨
        ∃ policy, (s.step X op).wal = WalWriter.openDir s.wal.dir policy)) ∨
    ∃ record, op = .append record ∧ Accepted record ∧ s.wal.writer.currentLsn + 1 < 2 ^ 64 ∧
      (s.step X op).log = s.log ++ [withLsn record (s.wal.writer.currentLsn + 1)] ∧
      (s.step X op).wal.writer.currentLsn = s.wal.writer.currentLsn + 1 := by
  cases op with
  | append record =>
    rcases append_cases X record s.wal with
      ⟨-, panicked⟩ | ⟨-, -, rejected⟩ | ⟨room, accepted, written⟩
    · have same : s.step X (.append record) = s := by simp only [Logged.step, panicked]
      exact .inl (by rw [same]; exact ⟨rfl, .inl (le_rfl)⟩)
    · refine .inl ?_
      rw [Logged.step, rejected]
      exact ⟨rfl, .inl (Nat.le_succ _)⟩
    · refine .inr ⟨record, rfl, accepted, room, ?_⟩
      rw [Logged.step, written]
      exact ⟨log_snoc _ _ _, rfl⟩
  | switchSegment =>
    rcases Lays.switchSegment sound with panicked | ⟨wal, switched, -, same⟩
    · have unchanged : s.step X .switchSegment = s := by simp only [Logged.step, panicked]
      exact .inl (by rw [unchanged]; exact ⟨rfl, .inl (le_rfl)⟩)
    · refine .inl ?_
      rw [Logged.step, switched]
      exact ⟨log_switch _ _, .inl same.ge⟩
  | flush => exact .inl ⟨rfl, .inl (le_rfl)⟩
  | reopen policy => exact .inl ⟨rfl, .inr ⟨policy, rfl⟩⟩

/-- **Step.** The segments keep holding the log. -/
theorem Sound.step (sound : Sound X s) (op : WalOp) :
    Sound X (s.step X op) := by
  cases op with
  | append record =>
    rcases append_cases X record s.wal with ⟨-, panicked⟩ | ⟨-, -, rejected⟩ | ⟨room, -, written⟩
    · simpa only [Logged.step, panicked] using sound
    · simp only [Logged.step, rejected]
      exact ⟨sound.nonempty, sound.files, sound.segNum, sound.lsns⟩
    · simp only [Logged.step, written]
      exact Lays.appended sound record (Nat.succ_pos _) room _ rfl
  | switchSegment =>
    rcases Lays.switchSegment sound with panicked | ⟨wal, switched, lays, -⟩
    · simpa only [Logged.step, panicked] using sound
    · simp only [Logged.step, switched]
      exact lays
  | flush => exact sound
  | reopen policy => exact Lays.reopen sound policy

theorem Sound.readable (sound : Sound X s) (short : AllShort s) :
    ∀ r ∈ s.log, Readable r :=
  fun r member => ⟨short r member, (sound.lsns r (flatten_segs s ▸ member)).2⟩

/-- **Step.** Appends that do not wrap keep the log readable. -/
theorem AllShort.step (short : AllShort s) (sound : Sound X s) {op : WalOp}
    (fits : ∀ record, op = .append record → ¬ Wraps record) : AllShort (s.step X op) := by
  rcases step_cases sound op with ⟨same, -⟩ | ⟨record, isAppend, accepted, -, grown, -⟩
  · simpa only [AllShort, same] using short
  · intro r member
    rw [grown, List.mem_append, List.mem_singleton] at member
    rcases member with old | rfl
    · exact short r old
    · have here : Short record := short_of_accepted accepted (fits record isAppend)
      exact here

/-- **Step.** The LSNs keep increasing. -/
theorem Ordered.step (ordered : Ordered s) (sound : Sound X s)
    (short : AllShort s) (op : WalOp) : Ordered (s.step X op) := by
  rcases step_cases sound op with ⟨same, kept | ⟨policy, reopened⟩⟩ | ⟨record, -, -, -, grown, counter⟩
  · exact ⟨same ▸ ordered.increasing, fun r member => (ordered.below r (same ▸ member)).trans kept⟩
  · -- the counter is found again as the highest LSN in the segments
    have found := Lays.reopen_currentLsn sound (by
      rw [flatten_segs]; exact sound.readable short) policy
    refine ⟨same ▸ ordered.increasing, fun r member => ?_⟩
    rw [reopened, found, flatten_segs]
    exact le_maxLsn (same ▸ member)
  · refine ⟨?_, fun r member => ?_⟩
    · rw [grown]
      refine List.pairwise_append.mpr ⟨ordered.increasing, by simp, fun r member new isNew => ?_⟩
      rw [List.mem_singleton.mp isNew]
      exact Nat.lt_succ_of_le (ordered.below r member)
    · rw [grown, List.mem_append, List.mem_singleton] at member
      rw [counter]
      rcases member with old | rfl
      · exact (ordered.below r old).trans (Nat.le_succ _)
      · exact le_rfl

/-- **Run.** The segments hold the log in every state of a run. -/
theorem Sound.run (sound : Sound X s) (ops : List WalOp) :
    Sound X (s.run X ops) := by
  induction ops generalizing s with
  | nil => exact sound
  | cons op ops ih => exact ih (sound.step op)

/-- **Run.** As long as no length wraps, the log is readable and its LSNs increase. -/
theorem run_invariant (sound : Sound X s) (short : AllShort s)
    {ops : List WalOp} (fits : ∀ record, .append record ∈ ops → ¬ Wraps record) :
    AllShort (s.run X ops) ∧ (Ordered s → Ordered (s.run X ops)) := by
  induction ops generalizing s with
  | nil => exact ⟨short, fun ordered => ordered⟩
  | cons op ops ih =>
    have fitsHere : ∀ record, op = .append record → ¬ Wraps record :=
      fun record isAppend => fits record (isAppend ▸ (.head _))
    obtain ⟨short', ordered'⟩ := ih (sound.step op) (short.step sound fitsHere)
      fun record member => fits record (.tail _ member)
    exact ⟨short', fun ordered => ordered' (ordered.step sound short op)⟩

/-- Reading the whole log with a fresh reader. -/
def readAll (X : Extern) (s : Logged) : Result (List WalRecord) :=
  (WalReader.readFrom X s.wal.dir (WalReader.openDir s.wal.dir).1).1

theorem readAll_eq (sound : Sound X s) (short : AllShort s) :
    s.readAll X = .ok (s.log.map (readBack X)) := by
  rw [← flatten_segs]
  exact Lays.readFrom sound (by rw [flatten_segs]; exact sound.readable short)

/-- **Writing and reading agree.** After any run of appends, segment switches,
flushes and reopenings in which no payload length wraps, reading from segment 1 to
the end gives exactly the appended records, in order, with strictly increasing
LSNs and all their fields, except that an empty value comes back as none. -/
theorem readAll_run (X : Extern) (policy : FsyncPolicy) (ops : List WalOp)
    (fits : ∀ record, .append record ∈ ops → ¬ Wraps record) :
    let s := (start policy).run X ops
    s.readAll X = .ok (s.log.map (readBack X)) ∧ s.log.Pairwise fun a b => a.lsn < b.lsn := by
  have fresh : AllShort (start policy) := by simp [AllShort, start, log]
  obtain ⟨short, ordered⟩ := run_invariant (sound_start X policy) fresh fits
  exact ⟨readAll_eq ((sound_start X policy).run ops) short,
    (ordered (ordered_start policy)).increasing⟩

/-- Appends before and after a segment switch and a reopening. -/
theorem readAll_run_reopened :
    let s := (start .everyWrite).run Extern.literal
      [.append (makeRecord 5 .insert 0 [107] (some [118])), .switchSegment,
        .append (makeRecord 6 .update 0 [107] (some [])), .reopen .async,
        .append (makeRecord 7 .delete 0 [107] none)]
    s.readAll Extern.literal = .ok (s.log.map (readBack Extern.literal)) ∧
      s.log.Pairwise fun a b => a.lsn < b.lsn :=
  readAll_run Extern.literal .everyWrite _ fun record member => by
    simp only [List.mem_cons, WalOp.append.injEq, reduceCtorEq, false_or, List.not_mem_nil,
      or_false] at member
    rcases member with rfl | rfl | rfl <;> decide

/-- The fields the log is for. -/
def fields (record : WalRecord) : Nat × WalRecordType × UInt64 × Key × Option Value × Int64 :=
  (record.lsn, record.recordType, record.txId, record.key, record.value, record.timestamp)

/-- An empty value is read back as no value. -/
theorem readAll_emptyValue :
    ¬ ∃ X : Extern, ∃ records,
      ((start .async).run X [.append (makeRecord 0 .insert 0 [107] (some []))]).readAll X = .ok records ∧
        records.map fields =
          ((start .async).run X [.append (makeRecord 0 .insert 0 [107] (some []))]).log.map fields := by
  rintro ⟨X, records, read, same⟩
  have sound := (sound_start X .async).step (.append (makeRecord 0 .insert 0 [107] (some [])))
  have short : AllShort ((start .async).step X (.append (makeRecord 0 .insert 0 [107] (some [])))) :=
    AllShort.step (by simp [AllShort, start, log]) (sound_start X .async) fun record isAppend => by
      cases isAppend
      decide
  rw [run, List.foldl_cons, List.foldl_nil] at read same
  rw [readAll_eq sound short] at read
  cases read
  have logged : ((start .async).step X (.append (makeRecord 0 .insert 0 [107] (some [])))).log =
      [withLsn (makeRecord 0 .insert 0 [107] (some [])) 1] := rfl
  rw [logged] at same
  simp [fields, readBack, storedValue, withLsn, makeRecord] at same

end Logged

end Wal

end NovaRuntime.Storage
