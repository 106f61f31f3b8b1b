/-
# NovaRuntime.Storage.GroupCommit — records that are logged in batches

`submit` puts a record on a list, and `run_once` takes the list away, sorts it by LSN and
appends record after record, until one append fails. What is left of the batch then is
nowhere: neither pending nor in the log. `GroupCommit.kept_iff` says exactly in which runs
this never happens and the log stays in the order of the submitted LSNs.

The lock on the list is not held while the batch is appended, but nothing that `submit` does
in the meantime is seen by the batch, so a call is one step.
-/
import Mathlib.Data.List.Nodup
import NovaRuntime.Library.Runs
import NovaRuntime.Storage.WalLog

namespace NovaRuntime.Storage

open NovaRuntime.Library

set_option autoImplicit false

/-! ## A stable sort -/

/-- **Sorting leaves ties in order.** What holds of any two items of a list, the first before
the second, holds of them after sorting if neither is less than the other. -/
theorem pairwise_ties_mergeSort {α : Type} {le : α → α → Bool} (trans : ∀ a b c, le a b → le b c → le a c)
    (total : ∀ a b, le a b || le b a) {R : α → α → Prop} {items : List α} (given : items.Pairwise R) :
    (items.mergeSort le).Pairwise fun a b => le a b ∧ (le b a → R a b) := by
  have sorted := List.pairwise_mergeSort (List.zipIdxLE_trans trans) (List.zipIdxLE_total total) items.zipIdx
  have numbered : items.zipIdx.Nodup := List.Nodup.of_map Prod.snd (by
    rw [List.zipIdx_map_snd]
    exact List.nodup_range')
  have distinct := (List.mergeSort_perm items.zipIdx (List.zipIdxLE le)).nodup_iff.mpr numbered
  rw [← List.mergeSort_zipIdx, List.pairwise_map]
  refine (sorted.and distinct).imp_of_mem ?_
  rintro ⟨a, i⟩ ⟨b, j⟩ inA inB ⟨before, ne⟩
  have atI : items[i]? = some a := List.mem_zipIdx_iff_getElem?.mp (List.mem_mergeSort.mp inA)
  have atJ : items[j]? = some b := List.mem_zipIdx_iff_getElem?.mp (List.mem_mergeSort.mp inB)
  simp only [List.zipIdxLE] at before
  by_cases less : le a b = true
  · refine ⟨less, fun tie => ?_⟩
    rw [if_pos less, if_pos tie, decide_eq_true_eq] at before
    have apart : i ≠ j := by
      rintro rfl
      cases atI.symm.trans atJ
      exact ne rfl
    obtain ⟨inI, rfl⟩ := List.getElem?_eq_some_iff.mp atI
    obtain ⟨inJ, rfl⟩ := List.getElem?_eq_some_iff.mp atJ
    exact List.pairwise_iff_getElem.mp given i j inI inJ (lt_of_le_of_ne before apart)
  · rw [if_neg less] at before
    cases before

/-! ## The calls -/

/-- A record as it was submitted. No call reads the number, which tells equal records apart. -/
structure Submission where
  number : Nat
  record : WalRecord
  deriving DecidableEq

/-- The records that wait. -/
structure GroupCommit where
  batchInterval : Nat
  pending : List Submission

/-- A group commit, the log it writes to, and what a run remembers: the submissions, and
those whose append succeeded, in order. -/
structure Committing where
  gc : GroupCommit
  wal : Wal
  submitted : List Submission
  written : List Submission

namespace GroupCommit

def new (intervalMs : Nat) : GroupCommit := { batchInterval := intervalMs, pending := [] }

def submit (record : WalRecord) : Method Committing Unit :=
  Exec.modify fun s =>
    let submission : Submission := { number := s.submitted.length, record }
    { s with
      gc := { s.gc with pending := s.gc.pending ++ [submission] }
      submitted := s.submitted ++ [submission] }

/-- An append, remembered if it succeeds. -/
def append (X : Extern) (submission : Submission) : Method Committing Unit := do
  let _ ← Exec.zoom (fun s : Committing => s.wal) (fun wal s => { s with wal })
    (WalWriter.append X submission.record)
  Exec.modify fun s => { s with written := s.written ++ [submission] }

/-- The loop of `run_once`. -/
def appendAll (X : Extern) : List Submission → Method Committing Unit
  | [] => pure ()
  | submission :: batch => do
      append X submission
      appendAll X batch

/-- The batch, sorted by LSN only. -/
def sorted (batch : List Submission) : List Submission :=
  batch.mergeSort fun a b => decide (a.record.lsn ≤ b.record.lsn)

def runOnce (X : Extern) : Method Committing Unit := do
  let s ← Exec.get
  if s.gc.pending.isEmpty then pure () else
  Exec.modify fun s => { s with gc := { s.gc with pending := [] } }
  appendAll X (sorted s.gc.pending)
  Exec.zoom (fun s : Committing => s.wal) (fun wal s => { s with wal }) WalWriter.flush

/-! ## What a call does -/

/-- The log takes all records of the batch, with its counter at `lsn`. -/
def Fits (batch : List Submission) (lsn : Nat) : Prop :=
  (∀ e ∈ batch, Wal.Accepted e.record) ∧ (batch ≠ [] → lsn + batch.length < 2 ^ 64)

/-- The log holds what it held before, and then what was written, each under an LSN of its own. -/
def InLog (X : Extern) (before : List WalRecord) (s : Committing) : Prop :=
  ∃ segs logged, Wal.Lays X s.wal segs ∧ segs.flatten = before ++ logged ∧
    List.Forall₂ (fun record (e : Submission) => ∃ lsn, record = Wal.withLsn e.record lsn) logged s.written

theorem fits_cons (e : Submission) (batch : List Submission) (lsn : Nat) :
    Fits (e :: batch) lsn ↔ (Wal.Accepted e.record ∧ lsn + 1 < 2 ^ 64) ∧ Fits batch (lsn + 1) := by
  have room : lsn + (batch.length + 1) < 2 ^ 64 ↔
      lsn + 1 < 2 ^ 64 ∧ (batch ≠ [] → lsn + 1 + batch.length < 2 ^ 64) := by
    cases batch with
    | nil => simp
    | cons b batch =>
      simp only [List.length_cons, ne_eq, reduceCtorEq, not_false_eq_true, true_implies]
      omega
  simp only [Fits, List.forall_mem_cons, ne_eq, reduceCtorEq, not_false_eq_true, true_implies, List.length_cons]
  rw [room]
  tauto

section

variable {X : Extern} {before : List WalRecord} {s : Committing}

theorem append_taken {e : Submission} (accepted : Wal.Accepted e.record)
    (room : s.wal.writer.currentLsn + 1 < 2 ^ 64) (inLog : InLog X before s) :
    ∃ wal, append X e s = (.ok (), { s with wal, written := s.written ++ [e] }) ∧
      wal.writer.currentLsn = s.wal.writer.currentLsn + 1 ∧
      InLog X before { s with wal, written := s.written ++ [e] } := by
  rcases Wal.append_cases X e.record s.wal with ⟨full, -⟩ | ⟨-, refused, -⟩ | ⟨-, -, done⟩
  · exact absurd room (not_lt.mpr full)
  · exact absurd accepted refused
  · refine ⟨⟨Wal.appended X s.wal e.record (s.wal.writer.currentLsn + 1),
      { s.wal.writer with currentLsn := s.wal.writer.currentLsn + 1 }⟩, ?_, rfl, ?_⟩
    · rw [append, Exec.bind_apply, Exec.zoom_apply, done]
      rfl
    · obtain ⟨segs, logged, lays, held, same⟩ := inLog
      obtain ⟨front, current, rfl⟩ : ∃ front current, segs = front ++ [current] :=
        ⟨_, _, (List.dropLast_append_getLast lays.nonempty).symm⟩
      refine ⟨_, logged ++ [Wal.withLsn e.record (s.wal.writer.currentLsn + 1)],
        lays.appended e.record (Nat.succ_pos _) room _ rfl, ?_, ?_⟩
      · rw [← List.append_assoc, ← held]
        simp
      · exact List.rel_append same (.cons ⟨_, rfl⟩ .nil)

theorem append_refused {e : Submission}
    (refused : ¬ (Wal.Accepted e.record ∧ s.wal.writer.currentLsn + 1 < 2 ^ 64)) (inLog : InLog X before s) :
    ∃ wal, (append X e s).2 = { s with wal } ∧ (append X e s).1 ≠ .ok () ∧ InLog X before { s with wal } := by
  rcases Wal.append_cases X e.record s.wal with ⟨-, panics⟩ | ⟨-, -, fails⟩ | ⟨room, accepted, -⟩
  · refine ⟨s.wal, ?_, ?_, inLog⟩ <;> rw [append, Exec.bind_apply, Exec.zoom_apply, panics]
    nofun
  · refine ⟨{ s.wal with writer := { s.wal.writer with currentLsn := s.wal.writer.currentLsn + 1 } }, ?_, ?_, ?_⟩
    · rw [append, Exec.bind_apply, Exec.zoom_apply, fails]
    · rw [append, Exec.bind_apply, Exec.zoom_apply, fails]
      nofun
    · obtain ⟨segs, logged, lays, held, same⟩ := inLog
      exact ⟨segs, logged, ⟨lays.nonempty, lays.files, lays.segNum, lays.lsns⟩, held, same⟩
  · exact absurd ⟨accepted, room⟩ refused

/-- **What the loop does.** It writes a first part of the batch, and all of it exactly if
the log takes all of it. -/
theorem appendAll_spec (batch : List Submission) (inLog : InLog X before s) :
    ∃ done wal, done <+: batch ∧
      (appendAll X batch s).2 = { s with wal, written := s.written ++ done } ∧
      InLog X before { s with wal, written := s.written ++ done } ∧
      (done = batch ↔ Fits batch s.wal.writer.currentLsn) := by
  induction batch generalizing s with
  | nil =>
    refine ⟨[], s.wal, List.prefix_refl _, ?_, ?_, ?_⟩
    · rw [appendAll, Exec.pure_apply, List.append_nil]
    · rwa [List.append_nil]
    · simp [Fits]
  | cons e batch ih =>
    rw [fits_cons]
    by_cases takes : Wal.Accepted e.record ∧ s.wal.writer.currentLsn + 1 < 2 ^ 64
    · obtain ⟨wal, taken, counter, inLog'⟩ := append_taken takes.1 takes.2 inLog
      obtain ⟨done, wal', isPrefix, ran, inLog'', whole⟩ := ih inLog'
      refine ⟨e :: done, wal', List.prefix_cons_inj e |>.mpr isPrefix, ?_, ?_, ?_⟩
      · rw [appendAll, Exec.bind_of_ok taken, ran, List.append_assoc, List.singleton_append]
      · rwa [List.append_assoc, List.singleton_append] at inLog''
      · rw [counter] at whole
        rw [List.cons_inj_right, whole, and_iff_right takes]
    · obtain ⟨wal, ran, stopped, inLog'⟩ := append_refused takes inLog
      refine ⟨[], wal, List.nil_prefix, ?_, ?_, ?_⟩
      · rw [appendAll, Exec.bind_apply, List.append_nil, ← ran]
        split
        · next ended => exact absurd (congrArg Prod.fst ended) stopped
        all_goals
          next ended => rw [ended]
      · rwa [List.append_nil]
      · exact iff_of_false (by simp) fun fits => takes fits.1

/-- **What a call of `run_once` does.** -/
theorem runOnce_spec (inLog : InLog X before s) :
    ∃ done wal, done <+: sorted s.gc.pending ∧
      (runOnce X s).2 = { s with
        gc := { s.gc with pending := [] }, wal, written := s.written ++ done } ∧
      InLog X before (runOnce X s).2 ∧
      (done = sorted s.gc.pending ↔ Fits (sorted s.gc.pending) s.wal.writer.currentLsn) := by
  by_cases empty : s.gc.pending.isEmpty = true
  · have same : runOnce X s = (.ok (), s) := by
      rw [runOnce, Exec.get_bind, if_pos empty, Exec.pure_apply]
    have none : s.gc.pending = [] := List.isEmpty_iff.mp empty
    refine ⟨[], s.wal, List.nil_prefix, ?_, ?_, ?_⟩
    · rw [same, List.append_nil, ← none]
    · rwa [same]
    · simp [none, sorted, Fits]
  · obtain ⟨done, wal, isPrefix, ran, inLog', whole⟩ :=
      appendAll_spec (s := { s with gc := { s.gc with pending := [] } }) (sorted s.gc.pending) inLog
    have left : (runOnce X s).2 =
        { s with gc := { s.gc with pending := [] }, wal, written := s.written ++ done } := by
      rw [runOnce, Exec.get_bind, if_neg empty, Exec.modify_bind, ← ran, Exec.bind_apply]
      split
      · next ended => rw [ended]; rfl
      all_goals
        next ended => rw [ended]
    exact ⟨done, wal, isPrefix, left, left ▸ inLog', whole⟩

end

/-! ## Runs -/

/-- The order the log is to have: by LSN, and by submission where LSNs are equal. -/
def Before (a b : Submission) : Prop :=
  a.record.lsn < b.record.lsn ∨ (a.record.lsn = b.record.lsn ∧ a.number < b.number)

/-- Every submitted record is pending or in the log, and only once, and the log is in order. -/
structure Kept (X : Extern) (before : List WalRecord) (s : Committing) : Prop where
  once : (s.gc.pending ++ s.written).Perm s.submitted
  inLog : InLog X before s
  ordered : s.written.Pairwise Before

/-- What every call keeps: submissions are numbered as they come. -/
structure Numbered (X : Extern) (before : List WalRecord) (s : Committing) : Prop where
  inLog : InLog X before s
  waiting : s.gc.pending.Pairwise fun a b => a.number < b.number
  later : ∀ a ∈ s.written, ∀ b ∈ s.gc.pending, a.number < b.number
  below : ∀ e ∈ s.gc.pending ++ s.written, e.number < s.submitted.length

inductive Call where
  | submit (record : WalRecord)
  | runOnce

def step (X : Extern) (s : Committing) : Call → Committing
  | .submit record => (submit record s).2
  | .runOnce => (runOnce X s).2

/-- A new group commit on a log. -/
def start (intervalMs : Nat) (wal : Wal) : Committing :=
  { gc := new intervalMs, wal, submitted := [], written := [] }

/-- The log takes everything that is pending, and nothing pending has a lower LSN than a
record of an earlier batch. -/
def Commits (s : Committing) : Call → Prop
  | .submit _ => True
  | .runOnce => Fits s.gc.pending s.wal.writer.currentLsn ∧
      ∀ a ∈ s.written, ∀ b ∈ s.gc.pending, a.record.lsn ≤ b.record.lsn

section

variable {X : Extern} {before : List WalRecord} {s : Committing}

theorem sorted_perm (batch : List Submission) : (sorted batch).Perm batch := List.mergeSort_perm _ _

theorem fits_sorted (batch : List Submission) (lsn : Nat) : Fits (sorted batch) lsn ↔ Fits batch lsn := by
  have perm := sorted_perm batch
  have nil : sorted batch = [] ↔ batch = [] := by
    rw [← List.length_eq_zero_iff, perm.length_eq, List.length_eq_zero_iff]
  simp only [Fits, perm.mem_iff, perm.length_eq, ne_eq, nil]

/-- A batch is appended in the order of the log. -/
theorem pairwise_sorted {batch : List Submission}
    (waiting : batch.Pairwise fun a b => a.number < b.number) : (sorted batch).Pairwise Before := by
  refine (pairwise_ties_mergeSort ?_ ?_ waiting).imp ?_
  · intro a b c
    simpa only [decide_eq_true_eq] using le_trans
  · intro a b
    simpa only [Bool.or_eq_true, decide_eq_true_eq] using le_total _ _
  · rintro a b ⟨le, ties⟩
    rw [decide_eq_true_eq] at le
    rcases lt_or_eq_of_le le with less | same
    · exact .inl less
    · exact .inr ⟨same, ties (decide_eq_true same.ge)⟩

theorem numbered_start {intervalMs : Nat} {wal : Wal} {segs : List (List WalRecord)} (lays : Wal.Lays X wal segs) :
    Numbered X segs.flatten (start intervalMs wal) where
  inLog := ⟨segs, [], lays, (List.append_nil _).symm, .nil⟩
  waiting := .nil
  later := List.forall_mem_nil _
  below := List.forall_mem_nil _

/-- **Step.** Submissions stay numbered as they come. -/
theorem Numbered.step (numbered : Numbered X before s) (call : Call) :
    Numbered X before (GroupCommit.step X s call) := by
  cases call with
  | submit record =>
    refine ⟨numbered.inLog, ?_, ?_, ?_⟩
    · refine List.pairwise_append.mpr ⟨numbered.waiting, List.pairwise_singleton _ _, ?_⟩
      intro a inPending b new
      rw [List.mem_singleton.mp new]
      exact numbered.below a (List.mem_append_left _ inPending)
    · intro a inWritten b inPending
      rcases List.mem_append.mp inPending with old | new
      · exact numbered.later a inWritten b old
      · rw [List.mem_singleton.mp new]
        exact numbered.below a (List.mem_append_right _ inWritten)
    · intro e member
      have grown : (GroupCommit.step X s (.submit record)).submitted.length = s.submitted.length + 1 := by
        simp [GroupCommit.step, submit]
      rw [grown]
      rcases List.mem_append.mp member with pending | inWritten
      · rcases List.mem_append.mp pending with old | new
        · exact (numbered.below e (List.mem_append_left _ old)).trans (Nat.lt_succ_self _)
        · rw [List.mem_singleton.mp new]
          exact Nat.lt_succ_self _
      · exact (numbered.below e (List.mem_append_right _ inWritten)).trans (Nat.lt_succ_self _)
  | runOnce =>
    obtain ⟨done, wal, isPrefix, ran, inLog, -⟩ := runOnce_spec numbered.inLog
    rw [GroupCommit.step]
    refine ⟨inLog, ?_, ?_, ?_⟩
    · rw [ran]
      exact .nil
    · rw [ran]
      exact fun _ _ => List.forall_mem_nil _
    · rw [ran]
      intro e member
      have grown : e ∈ s.written ++ done := member
      rcases List.mem_append.mp grown with old | new
      · exact numbered.below e (List.mem_append_right _ old)
      · have inPending := (sorted_perm _).mem_iff.mp (isPrefix.subset new)
        exact numbered.below e (List.mem_append_left _ inPending)

/-- **Step.** A call keeps the property exactly if it commits what is pending. -/
theorem kept_step (numbered : Numbered X before s) (kept : Kept X before s) (call : Call) :
    Kept X before (GroupCommit.step X s call) ↔ Commits s call := by
  cases call with
  | submit record =>
    refine iff_of_true ⟨?_, kept.inLog, kept.ordered⟩ trivial
    have moved : ((s.gc.pending ++ [Submission.mk s.submitted.length record]) ++ s.written).Perm
        (s.gc.pending ++ s.written ++ [Submission.mk s.submitted.length record]) := by
      rw [List.append_assoc, List.append_assoc]
      exact List.Perm.append_left _ List.perm_append_comm
    exact moved.trans (kept.once.append_right _)
  | runOnce =>
    obtain ⟨done, wal, isPrefix, ran, inLog, whole⟩ := runOnce_spec kept.inLog
    rw [fits_sorted] at whole
    have written : (GroupCommit.step X s .runOnce).written = s.written ++ done := by
      rw [GroupCommit.step, ran]
    have nothing : (GroupCommit.step X s .runOnce).gc.pending = [] := by rw [GroupCommit.step, ran]
    have same : (GroupCommit.step X s .runOnce).submitted = s.submitted := by rw [GroupCommit.step, ran]
    have cross : (∀ a ∈ s.written, ∀ b ∈ sorted s.gc.pending, Before a b) ↔
        ∀ a ∈ s.written, ∀ b ∈ s.gc.pending, a.record.lsn ≤ b.record.lsn := by
      refine forall₂_congr fun a inWritten => forall_congr' fun b => ?_
      rw [(sorted_perm _).mem_iff]
      refine imp_congr_right fun inPending => ⟨?_, fun le => ?_⟩
      · rintro (less | ⟨tie, -⟩)
        · exact less.le
        · exact tie.le
      · rcases lt_or_eq_of_le le with less | tie
        · exact .inl less
        · exact .inr ⟨tie, numbered.later a inWritten b inPending⟩
    constructor
    · intro next
      -- as many records are written as were submitted, so none of the batch is missing
      have count := next.once.length_eq
      rw [nothing, written, same, ← kept.once.length_eq, List.nil_append, List.length_append,
        List.length_append] at count
      have complete : done = sorted s.gc.pending :=
        isPrefix.eq_of_length (by rw [(sorted_perm _).length_eq]; omega)
      have ordered := next.ordered
      rw [written, complete, List.pairwise_append] at ordered
      exact ⟨whole.mp complete, cross.mp ordered.2.2⟩
    · rintro ⟨fits, order⟩
      have complete := whole.mpr fits
      refine ⟨?_, inLog, ?_⟩
      · rw [nothing, written, same, complete, List.nil_append]
        exact (List.perm_append_comm.trans ((sorted_perm _).append_right _)).trans kept.once
      · rw [written, complete]
        exact List.pairwise_append.mpr ⟨kept.ordered, pairwise_sorted numbered.waiting, cross.mpr order⟩

end

/-- **Nothing is lost and nothing is out of order** in any state of a run, on any log that the
writer can have left, exactly if every `run_once` finds a log that takes the whole batch and no
record with a lower LSN than those before. -/
theorem kept_iff (X : Extern) (policy : FsyncPolicy) (ops : List Wal.WalOp) (intervalMs : Nat) (calls : List Call) :
    let logged := (Wal.Logged.start policy).run X ops
    (∀ s ∈ Run.states (step X) (start intervalMs logged.wal) calls, Kept X logged.log s) ↔
      Run.Each (step X) Commits (start intervalMs logged.wal) calls := by
  intro logged
  have lays : Wal.Lays X logged.wal (logged.earlier ++ [logged.current]) := (Wal.Logged.sound_start X policy).run ops
  have numbered : Numbered X logged.log (start intervalMs logged.wal) := by
    rw [← Wal.Logged.flatten_segs]
    exact numbered_start lays
  exact Run.forall_states_iff (fun s call held => Numbered.step held call)
    (fun s call held kept => kept_step held kept call) numbered ⟨.nil, numbered.inLog, .nil⟩

/-- A record that the log refuses. -/
def refused : WalRecord := Wal.makeRecord 0 .insert 0 (List.replicate 65536 0) none

/-- With it a record is lost that the log would take. -/
theorem batch_lost : ¬ ∀ (X : Extern) (policy : FsyncPolicy) (ops : List Wal.WalOp) (intervalMs : Nat)
    (calls : List Call), let logged := (Wal.Logged.start policy).run X ops
      ∀ s ∈ Run.states (step X) (start intervalMs logged.wal) calls, Kept X logged.log s := by
  intro always
  let s := start 100 (WalWriter.openDir ∅ .async)
  let s' := step .literal (step .literal s (.submit refused))
    (.submit (Wal.makeRecord 0 .insert 0 [107] (some [118])))
  have kept := always .literal .async [] 100
    [.submit refused, .submit (Wal.makeRecord 0 .insert 0 [107] (some [118])), .runOnce]
  have waiting : Kept .literal [] s' := kept s' (by simp [Run.states, s', s, Wal.Logged.run, Wal.Logged.start])
  have done : Kept .literal [] (step .literal s' .runOnce) :=
    kept _ (by simp [Run.states, s', s, Wal.Logged.run, Wal.Logged.start])
  have numbered : Numbered .literal [] s' :=
    ((numbered_start (Wal.lays_fresh .literal .async)).step _).step _
  have commits := (kept_step numbered waiting .runOnce).mp done
  have accepted : Wal.Accepted refused := commits.1.1 ⟨0, refused⟩ (.head _)
  have length : refused.key.length = 65536 := List.length_replicate
  have noValue : refused.value = none := rfl
  rw [Wal.Accepted, Wal.length_encodePayload, length, noValue] at accepted
  exact absurd accepted (by decide)

end GroupCommit

end NovaRuntime.Storage
