/-
# NovaRuntime.Queue.Partition — one index entry for every message

A message of a queue is meant to be in one state at a time: its data is stored and one
of the four indexes names it (`Cell.Holds`), or nothing of it is (`Cell.Empty`).
`Partitioned` says so of the store, with the sum `stats` should show.

`ack` deletes the in-flight entry and no other, `nack` and `enqueue` add an entry and
look for no other, and `move_to_dlq` with the queue itself as target deletes the data
it has just written. `partition_run` names the calls after which the indexes still
partition the messages (`Orderly`), for all runs; `not_partition_run` is a run of three
calls after which they do not.
-/
import NovaRuntime.Queue.BackendSpec
import NovaRuntime.Library.Runs

namespace NovaRuntime.Queue

open NovaRuntime.Library

set_option autoImplicit false

/-! ## One cell -/

namespace Cell

variable {c : Cell} {s : Slot}

/-- Nothing of the message is stored. -/
def Empty (c : Cell) : Prop := ∀ s, c s = none

/-- The message is stored and the index `s` alone names it. -/
def Holds (c : Cell) (s : Slot) : Prop :=
  s ≠ .message ∧ ∀ s', (c s').isSome ↔ s' = .message ∨ s' = s

def Balanced (c : Cell) : Prop := c.Empty ∨ ∃ s, c.Holds s

theorem Holds.balanced (holds : c.Holds s) : c.Balanced := .inr ⟨s, holds⟩

theorem balanced_none : Balanced fun _ => none := .inl fun _ => rfl

theorem Balanced.empty (balanced : c.Balanced) (absent : c .message = none) : c.Empty := by
  rcases balanced with empty | ⟨s, holds⟩
  · exact empty
  · have stored := (holds.2 .message).mpr (.inl rfl)
    rw [absent] at stored
    cases stored

theorem Balanced.holds (balanced : c.Balanced) (index : s ≠ .message)
    (named : (c s).isSome) : c.Holds s := by
  rcases balanced with empty | ⟨s', holds⟩
  · rw [empty s] at named
    cases named
  · rcases (holds.2 s).mp named with data | same
    · exact absurd data index
    · exact same ▸ holds

theorem Balanced.stored (balanced : c.Balanced) (named : (c s).isSome) :
    (c .message).isSome := by
  rcases balanced with empty | ⟨s', holds⟩
  · rw [empty s] at named
    cases named
  · exact (holds.2 .message).mpr (.inl rfl)

theorem Holds.write (holds : c.Holds s) (v : Stored) :
    Holds (Function.update c .message (some v)) s := by
  refine ⟨holds.1, fun s' => ?_⟩
  by_cases data : s' = .message
  · simp [data]
  · rw [Function.update_of_ne data, holds.2 s']

/-- Deleting one index entry and adding another, where at least one of the two is the
entry there is. -/
theorem Holds.move {t s' : Slot} (holds : c.Holds s) (deleted : t ≠ .message)
    (index : s' ≠ .message) (here : t = s ∨ s' = s) (v : Stored) :
    Holds (Function.update (Function.update c t none) s' (some v)) s' := by
  refine ⟨index, fun r => ?_⟩
  by_cases target : r = s'
  · simp [target]
  rw [Function.update_of_ne target]
  by_cases source : r = t
  · simp only [source, Function.update_self, Option.isSome_none, Bool.false_eq_true, false_iff]
    rintro (data | same)
    · exact deleted data
    · exact target (source.trans same)
  · rw [Function.update_of_ne source, holds.2 r]
    refine or_congr_right ⟨fun same => ?_, fun same => absurd same target⟩
    rcases here with rfl | rfl
    · exact absurd same source
    · exact same

/-- Storing the data and one index entry, where no other entry is. -/
theorem holds_store (index : s ≠ .message)
    (alone : ∀ s', s' ≠ .message → s' ≠ s → c s' = none) (v w : Stored) :
    Holds (Function.update (Function.update c .message (some v)) s (some w)) s := by
  refine ⟨index, fun r => ?_⟩
  by_cases target : r = s
  · simp [target]
  rw [Function.update_of_ne target]
  by_cases data : r = .message
  · simp [data]
  · rw [Function.update_of_ne data, alone r data target]
    simp [target, data]

theorem Holds.remove (holds : c.Holds s) :
    Empty (Function.update (Function.update c .message none) s none) := by
  intro r
  by_cases target : r = s
  · simp [target]
  rw [Function.update_of_ne target]
  by_cases data : r = .message
  · simp [data]
  · rw [Function.update_of_ne data]
    have absent : ¬ (c r).isSome := fun named => ((holds.2 r).mp named).elim data target
    simpa using absent

end Cell

/-! ## The partition -/

/-- Every stored message has exactly one index entry, every index entry refers to a
stored message, and the total of the statistics is the sum of the four counts. -/
structure Partitioned (U : UuidText) (kv : KeyValue Stored) : Prop where
  exactlyOne : ∀ n i, (kv[queueMsgKey U n i]?).isSome →
    ∃! s : Slot, s ≠ .message ∧ (kv[slotKey U s n i]?).isSome
  refers : ∀ s n i, (kv[slotKey U s n i]?).isSome → (kv[queueMsgKey U n i]?).isSome
  total : ∀ n, ∃ figures, stats n kv = (.ok figures, kv) ∧
    figures.totalMessages = figures.availableMessages + figures.inFlightMessages +
      figures.delayedMessages + figures.dlqMessages

variable {U : UuidText}

/-- The occupied slots of the queues a scan covers. -/
def occupied (U : UuidText) (kv : KeyValue Stored) (s : Slot) (name : Text) : Set (Text × Uuid) :=
  {p | Covers name p.1 ∧ (cell U kv p.1 p.2 s).isSome}

theorem finite_occupied (laws : U.Laws) (kv : KeyValue Stored) (s : Slot) (name : Text) :
    (occupied U kv s name).Finite := by
  refine Set.Finite.of_finite_image (f := fun p => slotKey U s p.1 p.2) ?_ ?_
  · refine ((entriesOf s name kv).map Prod.fst).toFinset.finite_toSet.subset ?_
    rintro _ ⟨⟨n, i⟩, ⟨covers, stored⟩, rfl⟩
    obtain ⟨v, found⟩ := Option.isSome_iff_exists.mp stored
    rw [List.coe_toFinset, Set.mem_ofPred_eq, List.mem_map]
    exact ⟨(slotKey U s n i, v), (slotKey_mem_entriesOf laws).mpr ⟨found, rfl, covers⟩, rfl⟩
  · intro p _ q _ same
    obtain ⟨-, names, ids⟩ := (slotKey_inj laws).mp same
    exact Prod.ext names ids

/-- **Balanced cells make a partition.** -/
theorem partitioned_of_balanced (laws : U.Laws) {kv : KeyValue Stored} (keyed : WellKeyed U kv)
    (balanced : ∀ n i, (cell U kv n i).Balanced) : Partitioned U kv where
  exactlyOne n i stored := by
    rcases balanced n i with empty | ⟨s, holds⟩
    · replace stored : (cell U kv n i .message).isSome := stored
      rw [empty .message] at stored
      cases stored
    · refine ⟨s, ⟨holds.1, (holds.2 s).mpr (.inr rfl)⟩, fun s' named => ?_⟩
      exact ((holds.2 s').mp named.2).resolve_left named.1
  refers s n i named := (balanced n i).stored named
  total n := by
    refine ⟨_, stats_apply n kv, ?_⟩
    simp only [length_entriesOf laws keyed]
    change (occupied U kv .message n).ncard = (occupied U kv .available n).ncard +
      (occupied U kv .inflight n).ncard + (occupied U kv .delayed n).ncard +
        (occupied U kv .dlq n).ncard
    have apart : ∀ {s s' : Slot}, s ≠ .message → s' ≠ .message → s ≠ s' →
        Disjoint (occupied U kv s n) (occupied U kv s' n) := by
      intro s s' index index' differ
      refine Set.disjoint_left.mpr fun p first second => differ ?_
      exact (((balanced p.1 p.2).holds index' second.2).2 s).mp first.2 |>.resolve_left index
    have finite : ∀ s, Finite (occupied U kv s n) := fun s => (finite_occupied laws kv s n).to_subtype
    have cover : occupied U kv .message n = occupied U kv .available n ∪ occupied U kv .inflight n ∪
        occupied U kv .delayed n ∪ occupied U kv .dlq n := by
      ext p
      simp only [occupied, Set.mem_union, Set.mem_ofPred_eq]
      constructor
      · rintro ⟨covers, stored⟩
        rcases balanced p.1 p.2 with empty | ⟨s, holds⟩
        · rw [empty .message] at stored
          cases stored
        · have named := (holds.2 s).mpr (.inr rfl)
          cases s with
          | message => exact absurd rfl holds.1
          | available => exact .inl (.inl (.inl ⟨covers, named⟩))
          | inflight => exact .inl (.inl (.inr ⟨covers, named⟩))
          | delayed => exact .inl (.inr ⟨covers, named⟩)
          | dlq => exact .inr ⟨covers, named⟩
      · rintro (((⟨covers, named⟩ | ⟨covers, named⟩) | ⟨covers, named⟩) | ⟨covers, named⟩)
        all_goals exact ⟨covers, (balanced p.1 p.2).stored named⟩
    rw [cover, Set.ncard_union_eq, Set.ncard_union_eq, Set.ncard_union_eq]
    all_goals simp [apart]

/-! ## Orderly calls -/

/-- The scan leads only to messages of the queue itself: no key of another queue reads
as the identifier of a message stored in this one. -/
def Aligned (U : UuidText) (s : Slot) (name : Text) (kv : KeyValue Stored) : Prop :=
  ∀ e ∈ entriesOf s name kv, ∀ i, messageId U e.1 = some i →
    (kv[queueMsgKey U name i]?).isSome → e.1 = slotKey U s name i

/-- The calls that keep the partition. -/
def Orderly (U : UuidText) (kv : KeyValue Stored) : QueueCall → Prop
  | .enqueue now m => Open kv m.queueName →
      ∀ s, s ≠ .message → s ≠ enqueueSlot now m → kv[slotKey U s m.queueName m.id]? = none
  | .dequeue _ _ name _ => Open kv name → Aligned U .available name kv
  | .ack name receipt => ∀ i, U.parseStr (utf8 receipt) = some i →
      (kv[queueMsgKey U name i]?).isSome → (kv[queueInflightKey U name i]?).isSome
  | .nack _ name receipt => ∀ i, U.parseStr (utf8 receipt) = some i →
      (kv[queueMsgKey U name i]?).isSome →
        (kv[queueInflightKey U name i]?).isSome ∨ (kv[queueAvailableKey U name i]?).isSome
  | .releaseExpiredMessages _ name => Aligned U .inflight name kv
  | .moveToDlq now name => ∀ config dlqName,
      kv[queueMetaKey name]? = some (.config config) → config.dlqName = some dlqName →
        Aligned U .inflight name kv ∧
          ∀ i m, (kv[queueInflightKey U name i]?).isSome →
            messageId U (queueInflightKey U name i) = some i →
            kv[queueMsgKey U name i]? = some (.message m) → Spent now m →
              dlqName ≠ name ∧
                ((kv[queueMsgKey U dlqName i]?).isSome → (kv[queueDlqKey U dlqName i]?).isSome)
  | .purgeExpiredMessages now name => ∀ n i m, Covers name n →
      kv[queueMsgKey U n i]? = some (.message m) → m.hasExpired now = true → n = name
  | .createQueue _ | .updateQueue _ | .pause _ _ | .resume _ _ | .deleteQueue _ | .purge _ => True

/-! ## Loops that move index entries -/

/-- What holds before the keys to come of a loop over the index `s` of a queue. -/
structure Moving (U : UuidText) (s : Slot) (name : Text) (keys : List Bytes)
    (kv : KeyValue Stored) : Prop where
  nodup : keys.Nodup
  named : ∀ key ∈ keys, ∃ n j, key = slotKey U s n j ∧ (cell U kv n j s).isSome
  aligned : ∀ key ∈ keys, ∀ i, messageId U key = some i → (cell U kv name i .message).isSome →
    key = slotKey U s name i
  balanced : ∀ n i, (cell U kv n i).Balanced

namespace Moving

variable {s : Slot} {name : Text} {key : Bytes} {keys : List Bytes} {kv kv' : KeyValue Stored}

theorem start (laws : U.Laws) (keyed : WellKeyed U kv) (aligned : Aligned U s name kv)
    (balanced : ∀ n i, (cell U kv n i).Balanced) {entries : List (Bytes × Stored)}
    (scanned : entries.Sublist (entriesOf s name kv)) :
    Moving U s name (entries.map Prod.fst) kv where
  nodup := (KeyValue.nodup_range ..).sublist (scanned.map Prod.fst)
  named key member := by
    obtain ⟨e, inEntries, rfl⟩ := List.mem_map.mp member
    obtain ⟨n, j, same, -, found⟩ := keyed.entry laws (scanned.subset inEntries)
    exact ⟨n, j, same, by rw [cell, found]; rfl⟩
  aligned key member i read stored := by
    obtain ⟨e, inEntries, rfl⟩ := List.mem_map.mp member
    exact aligned e (scanned.subset inEntries) i read stored
  balanced := balanced

theorem skip (moving : Moving U s name (key :: keys) kv) : Moving U s name keys kv where
  nodup := (List.nodup_cons.mp moving.nodup).2
  named key' member := moving.named key' (.tail _ member)
  aligned key' member := moving.aligned key' (.tail _ member)
  balanced := moving.balanced

/-- The key of a visited message is its own, and no other index names it. -/
theorem holds (moving : Moving U s name (key :: keys) kv) (laws : U.Laws) (index : s ≠ .message)
    {i : Uuid} (read : messageId U key = some i) (stored : (cell U kv name i .message).isSome) :
    key = slotKey U s name i ∧ (cell U kv name i).Holds s := by
  have own := moving.aligned key (.head _) i read stored
  obtain ⟨n, j, same, named⟩ := moving.named key (.head _)
  obtain ⟨-, rfl, rfl⟩ := (slotKey_inj laws).mp (same.symm.trans own)
  exact ⟨own, (moving.balanced n j).holds index named⟩

/-- A visit that leaves the index entries of other messages alone. -/
theorem next {i : Uuid} (moving : Moving U s name (slotKey U s name i :: keys) kv)
    (balanced : ∀ n i, (cell U kv' n i).Balanced)
    (kept : ∀ n j, ¬ (n = name ∧ j = i) → (cell U kv n j s).isSome → (cell U kv' n j s).isSome)
    (stored : ∀ j, (cell U kv' name j .message).isSome → (cell U kv name j .message).isSome) :
    Moving U s name keys kv' where
  nodup := (List.nodup_cons.mp moving.nodup).2
  named key member := by
    obtain ⟨n, j, rfl, named⟩ := moving.skip.named key member
    refine ⟨n, j, rfl, kept n j ?_ named⟩
    rintro ⟨rfl, rfl⟩
    exact (List.nodup_cons.mp moving.nodup).1 member
  aligned key member j read there := moving.skip.aligned key member j read (stored j there)
  balanced := balanced

/-- A visit that changes the index entry of one message only. -/
theorem moved {i : Uuid} (s' : Slot) (moving : Moving U s name (slotKey U s name i :: keys) kv)
    (holds : (cell U kv name i).Holds s)
    (elsewhere : ∀ n j, ¬ (n = name ∧ j = i) → cell U kv' n j = cell U kv n j)
    (here : (cell U kv' name i).Holds s') : Moving U s name keys kv' := by
  refine moving.next (fun n j => ?_) (fun n j other named => ?_) fun j there => ?_
  · by_cases same : n = name ∧ j = i
    · obtain ⟨rfl, rfl⟩ := same
      exact here.balanced
    · rw [elsewhere n j same]
      exact moving.balanced n j
  · rwa [elsewhere n j other]
  · by_cases same : j = i
    · exact same ▸ (holds.2 .message).mpr (.inl rfl)
    · rwa [elsewhere name j fun both => same both.2] at there

end Moving

/-! ## Steps -/

/-- Every cell is balanced. -/
def AllBalanced (U : UuidText) (kv : KeyValue Stored) : Prop := ∀ n i, (cell U kv n i).Balanced

namespace AllBalanced

variable {kv kv' : KeyValue Stored}

/-- Calls that leave all cells as they are. -/
theorem congr (balanced : AllBalanced U kv) (same : cell U kv' = cell U kv) : AllBalanced U kv' := by
  intro n i
  rw [same]
  exact balanced n i

section

variable (balanced : AllBalanced U kv) (laws : U.Laws)

include balanced laws

theorem sweptAll (name : Text) : AllBalanced U (Queue.sweptAll name kv) := by
  intro n i
  rw [cell_sweptAll laws]
  split
  · exact Cell.balanced_none
  · exact balanced n i

theorem deleteQueue (name : Text) : AllBalanced U (Queue.deleteQueue name kv).2 := by
  rw [deleteQueue_apply]
  cases kv[queueMetaKey name]? with
  | none => exact balanced
  | some _ =>
    have erased := balanced.congr (cell_erase_meta U kv name)
    exact (erased.sweptAll laws name).congr (cell_erase_stats U _ name)

theorem enqueue (now : Int) (m : QueueMessage)
    (orderly : Orderly U kv (.enqueue now m)) : AllBalanced U (Queue.enqueue U now m kv).2 := by
  by_cases opened : Open kv m.queueName
  · rw [enqueue_of_open _ opened]
    intro n i
    simp only [cell_insert laws]
    by_cases here : n = m.queueName ∧ i = m.id
    · obtain ⟨rfl, rfl⟩ := here
      simp only [and_self, if_true]
      refine (Cell.holds_store ?_ (orderly opened) _ _).balanced
      rw [enqueueSlot]
      split <;> decide
    · simp only [if_neg here]
      exact balanced n i
  · rwa [enqueue_of_not_open opened]

theorem dequeue (keyed : WellKeyed U kv) (now : Int) (receipts : Bytes → Uuid) (name : Text) (maxMessages : Nat)
    (orderly : Orderly U kv (.dequeue now receipts name maxMessages)) :
    AllBalanced U (Queue.dequeue U now receipts name maxMessages kv).2 := by
  by_cases opened : Open kv name
  · rw [dequeue_of_open opened]
    obtain ⟨results, kv', ran, moved⟩ := forEachMessage_spec
      (receive U now receipts name) (P := fun keys _ => Moving U .available name keys)
      (fun _ _ _ _ moving _ => moving.skip) (fun key keys done kv i m moving read found => by
        have stored : (cell U kv name i .message).isSome := by rw [cell, found]; rfl
        obtain ⟨rfl, holds⟩ := moving.holds laws (by decide) read stored
        rw [receive_apply]
        split
        · refine ⟨_, _, rfl, moving.moved .inflight holds (fun n j other => ?_) ?_⟩
          · simp only [cell_insert laws, cell_erase laws, if_neg other]
          · simp only [cell_insert laws, cell_erase laws, and_self, if_true]
            exact (holds.write _).move (by decide) (by decide) (.inl rfl) _
        · exact ⟨_, _, rfl, moving.skip⟩)
      _ [] kv (Moving.start laws keyed (orderly opened) balanced (List.take_sublist ..))
    rw [ran]
    exact moved.balanced
  · obtain ⟨e, failed⟩ := dequeue_of_not_open (U := U) now receipts maxMessages opened
    rwa [failed]

theorem ack (name receipt : Text)
    (orderly : Orderly U kv (.ack name receipt)) : AllBalanced U (Queue.ack U name receipt kv).2 := by
  rw [ack_snd]
  cases read : U.parseStr (utf8 receipt) with
  | none => exact balanced
  | some i =>
    simp only
    split
    · rename_i stored
      have holds := (balanced name i).holds (s := .inflight) (by decide) (orderly i read stored)
      intro n j
      simp only [cell_erase laws]
      by_cases here : n = name ∧ j = i
      · obtain ⟨rfl, rfl⟩ := here
        simp only [and_self, if_true]
        exact .inl holds.remove
      · simp only [if_neg here]
        exact balanced n j
    · exact balanced

theorem nack (now : Int) (name receipt : Text) (orderly : Orderly U kv (.nack now name receipt)) :
    AllBalanced U (Queue.nack U now name receipt kv).2 := by
  rw [nack_snd]
  cases read : U.parseStr (utf8 receipt) with
  | none => exact balanced
  | some i =>
    simp only
    split
    · rename_i m found
      intro n j
      simp only [cell_insert laws, cell_erase laws]
      by_cases here : n = name ∧ j = i
      · obtain ⟨rfl, rfl⟩ := here
        simp only [and_self, if_true]
        have stored : (kv[queueMsgKey U n j]?).isSome := Option.isSome_iff_exists.mpr ⟨_, found⟩
        rcases orderly j read stored with inflight | available
        · have holds := (balanced n j).holds (s := .inflight) (by decide) inflight
          exact ((holds.write _).move (by decide) (by decide) (.inl rfl) _).balanced
        · have holds := (balanced n j).holds (s := .available) (by decide) available
          exact ((holds.write _).move (by decide) (by decide) (.inr rfl) _).balanced
      · simp only [if_neg here]
        exact balanced n j
    · exact balanced

theorem releaseExpiredMessages (keyed : WellKeyed U kv) (now : Int) (name : Text)
    (orderly : Orderly U kv (.releaseExpiredMessages now name)) :
    AllBalanced U (Queue.releaseExpiredMessages U now name kv).2 := by
  rw [releaseExpiredMessages_apply]
  obtain ⟨results, kv', ran, moved⟩ := forEachMessage_spec
    (release U now name) (P := fun keys _ => Moving U .inflight name keys)
    (fun _ _ _ _ moving _ => moving.skip) (fun key keys done kv i m moving read found => by
      have stored : (cell U kv name i .message).isSome := by rw [cell, found]; rfl
      obtain ⟨rfl, holds⟩ := moving.holds laws (by decide) read stored
      rw [release_apply]
      split
      · refine ⟨_, _, rfl, moving.moved .available holds (fun n j other => ?_) ?_⟩
        · simp only [cell_insert laws, cell_erase laws, if_neg other]
        · simp only [cell_insert laws, cell_erase laws, and_self, if_true]
          exact holds.move (by decide) (by decide) (.inl rfl) _
      · exact ⟨_, _, rfl, moving.skip⟩)
    _ [] kv (Moving.start laws keyed orderly balanced (.refl _))
  rw [Exec.bind_of_ok ran]
  exact moved.balanced

end

/-- Where the spent messages to come may be moved to. -/
def Movable (U : UuidText) (now : Int) (name dlqName : Text) (keys : List Bytes)
    (kv : KeyValue Stored) : Prop :=
  ∀ key ∈ keys, ∀ i m, messageId U key = some i →
    kv[slotKey U .message name i]? = some (.message m) → Spent now m →
      dlqName ≠ name ∧ ((cell U kv dlqName i .message).isSome → (cell U kv dlqName i .dlq).isSome)

/-- A visit that moves a message to another queue where no other index names it. -/
theorem buried {now : Int} {name dlqName : Text} {i : Uuid} {keys : List Bytes} {v : Stored}
    (laws : U.Laws) (moving : Moving U .inflight name (slotKey U .inflight name i :: keys) kv)
    (movable : Movable U now name dlqName (slotKey U .inflight name i :: keys) kv)
    (holds : (cell U kv name i).Holds .inflight) (differ : dlqName ≠ name)
    (only : (cell U kv dlqName i .message).isSome → (cell U kv dlqName i .dlq).isSome)
    (same : kv' = (((kv.insert (slotKey U .message dlqName i) v).insert
      (slotKey U .dlq dlqName i) .empty).erase (slotKey U .message name i)).erase
        (slotKey U .inflight name i)) :
    Moving U .inflight name keys kv' ∧ Movable U now name dlqName keys kv' := by
  have there : cell U kv' dlqName i =
      Function.update (Function.update (cell U kv dlqName i) .message (some v)) .dlq (some .empty) := by
    simp only [same, cell_insert laws, cell_erase laws, differ, false_and, and_self, if_true, if_false]
  have here : cell U kv' name i =
      Function.update (Function.update (cell U kv name i) .message none) .inflight none := by
    simp only [same, cell_insert laws, cell_erase laws, differ.symm, false_and, and_self, if_true,
      if_false]
  have elsewhere : ∀ n j, ¬ (n = name ∧ j = i) → ¬ (n = dlqName ∧ j = i) →
      cell U kv' n j = cell U kv n j := by
    intro n j notSource notTarget
    simp only [same, cell_insert laws, cell_erase laws, if_neg notSource, if_neg notTarget]
  have gone : cell U kv' name i .message = none := by
    rw [here]
    rfl
  refine ⟨moving.next (fun n j => ?_) (fun n j notSource named => ?_) (fun j stored => ?_), ?_⟩
  · by_cases source : n = name ∧ j = i
    · obtain ⟨rfl, rfl⟩ := source
      rw [here]
      exact .inl holds.remove
    by_cases target : n = dlqName ∧ j = i
    · obtain ⟨rfl, rfl⟩ := target
      rw [there]
      refine (Cell.holds_store (by decide) (fun s' index other => ?_) _ _).balanced
      cases stored : cell U kv n j .message with
      | none => exact (moving.balanced n j).empty stored s'
      | some w =>
        have onlyDlq := (moving.balanced n j).holds (s := .dlq) (by decide)
          (only (by rw [stored]; rfl))
        have absent : ¬ (cell U kv n j s').isSome := fun named =>
          ((onlyDlq.2 s').mp named).elim index other
        simpa using absent
    · rw [elsewhere n j source target]
      exact moving.balanced n j
  · by_cases target : n = dlqName ∧ j = i
    · obtain ⟨rfl, rfl⟩ := target
      rw [there]
      exact named
    · rwa [elsewhere n j notSource target]
  · by_cases source : j = i
    · rw [source, gone] at stored
      cases stored
    · rwa [elsewhere name j (fun both => source both.2) fun both => source both.2] at stored
  · intro key member j m read found spent
    have other : j ≠ i := by
      rintro rfl
      replace found : cell U kv' name j .message = some (.message m) := found
      rw [gone] at found
      cases found
    have kept := fun n => elsewhere n j (fun both => other both.2) fun both => other both.2
    rw [kept dlqName]
    refine movable key (.tail _ member) j m read ?_ spent
    exact (congrFun (kept name) .message).symm.trans found

section

variable (balanced : AllBalanced U kv) (laws : U.Laws) (keyed : WellKeyed U kv) (now : Int) (name : Text)

include balanced laws keyed now name

theorem moveToDlq (orderly : Orderly U kv (.moveToDlq now name)) :
    AllBalanced U (Queue.moveToDlq U now name kv).2 := by
  rcases moveToDlq_cases U now name kv with still | ⟨config, dlqName, found, target⟩
  · rw [still]
    exact balanced
  · rw [moveToDlq_of_some found target]
    obtain ⟨aligned, movable⟩ := orderly config dlqName found target
    obtain ⟨results, kv', ran, moved⟩ := forEachMessage_spec (bury U now name dlqName)
      (P := fun keys _ kv => Moving U .inflight name keys kv ∧ Movable U now name dlqName keys kv)
      (fun _ _ _ _ held _ => ⟨held.1.skip, fun key member => held.2 key (.tail _ member)⟩)
      (fun key keys done kv i m held read found => by
        obtain ⟨moving, movable⟩ := held
        have stored : (cell U kv name i .message).isSome := by rw [cell, found]; rfl
        obtain ⟨rfl, holds⟩ := moving.holds laws (by decide) read stored
        rw [bury_apply]
        split
        · rename_i spent
          obtain ⟨differ, only⟩ := movable _ (.head _) i m read found spent
          exact ⟨_, _, rfl, buried laws moving movable holds differ only rfl⟩
        · exact ⟨_, _, rfl, moving.skip, fun key member => movable key (.tail _ member)⟩)
      _ [] kv ⟨Moving.start laws keyed aligned balanced (.refl _), fun key member i m read found spent => by
        obtain ⟨e, scanned, rfl⟩ := List.mem_map.mp member
        have own := aligned e scanned i read (by rw [queueMsgKey_eq, found]; rfl)
        rw [own] at read
        obtain ⟨n, j, same, -, there⟩ := keyed.entry laws scanned
        obtain ⟨-, rfl, rfl⟩ := (slotKey_inj laws).mp (same.symm.trans own)
        exact movable j m (by rw [queueInflightKey_eq, there]; rfl) read found spent⟩
    rw [Exec.bind_of_ok ran]
    exact moved.1.balanced

theorem purgeExpiredMessages (orderly : Orderly U kv (.purgeExpiredMessages now name)) :
    AllBalanced U (Queue.purgeExpiredMessages U now name kv).2 := by
  rw [purgeExpiredMessages_snd]
  intro n i
  have deleted : ∀ s, cell U (KeyValue.runBatch ((allExpiredKeys U now name kv).map
      fun key => (key, none)) kv) n i s = if slotKey U s n i ∈ allExpiredKeys U now name kv then none
        else cell U kv n i s := cell_runDeletes U kv _ n i
  by_cases expires : n = name ∧ ∃ m, kv[slotKey U .message n i]? = some (.message m) ∧
      m.hasExpired now = true
  · obtain ⟨rfl, m, found, expired⟩ := expires
    refine .inl fun s => ?_
    rw [deleted, if_pos]
    refine (mem_allExpiredKeys laws keyed).mpr ⟨n, m, .refl n, found, expired, ?_⟩
    by_cases data : s = .message
    · exact .inl ⟨data, rfl⟩
    · exact .inr ⟨data, rfl⟩
  · have kept : cell U (KeyValue.runBatch ((allExpiredKeys U now name kv).map
        fun key => (key, none)) kv) n i = cell U kv n i := by
      funext s
      rw [deleted, if_neg]
      intro member
      obtain ⟨n', m, covers, found, expired, place⟩ := (mem_allExpiredKeys laws keyed).mp member
      have own := orderly n' i m covers found expired
      subst own
      rcases place with ⟨-, rfl⟩ | ⟨-, rfl⟩ <;> exact expires ⟨rfl, m, found, expired⟩
    rw [kept]
    exact balanced n i

end

end AllBalanced

theorem allBalanced_step (laws : U.Laws) {kv : KeyValue Stored} (keyed : WellKeyed U kv)
    (balanced : AllBalanced U kv) {call : QueueCall} (orderly : Orderly U kv call) :
    AllBalanced U (call.step U kv) := by
  rw [QueueCall.step_eq]
  cases call with
  | createQueue config => exact balanced.congr (cell_createQueue config)
  | updateQueue config => exact balanced.congr (cell_updateQueue config)
  | pause now name => exact balanced.congr (cell_pause now name)
  | resume now name => exact balanced.congr (cell_resume now name)
  | deleteQueue name => exact balanced.deleteQueue laws name
  | enqueue now m => exact balanced.enqueue laws now m orderly
  | dequeue now receipts name maxMessages =>
    exact balanced.dequeue laws keyed now receipts name maxMessages orderly
  | ack name receipt => exact balanced.ack laws name receipt orderly
  | nack now name receipt => exact balanced.nack laws now name receipt orderly
  | purge name =>
    simp only [purge_apply]
    exact balanced.sweptAll laws name
  | releaseExpiredMessages now name => exact balanced.releaseExpiredMessages laws keyed now name orderly
  | moveToDlq now name => exact balanced.moveToDlq laws keyed now name orderly
  | purgeExpiredMessages now name => exact balanced.purgeExpiredMessages laws keyed now name orderly

/-! ## Runs -/

/-- **After orderly calls the indexes partition the messages**, in every state of every
run from the empty store. -/
theorem partition_run (laws : U.Laws) (calls : List QueueCall)
    (orderly : Run.Each (QueueCall.step U) (Orderly U) ∅ calls) :
    ∀ kv ∈ Run.states (QueueCall.step U) ∅ calls, Partitioned U kv := by
  have start : AllBalanced U (∅ : KeyValue Stored) := fun n i => .inl fun s => by simp [cell]
  have kept := Run.Each.invariant (I := fun kv => WellKeyed U kv ∧ AllBalanced U kv)
    (fun kv call held meets => ⟨wellKeyed_step laws call held.1,
      allBalanced_step laws held.1 held.2 meets⟩) ⟨WellKeyed.empty U, start⟩ orderly
  exact fun kv member => partitioned_of_balanced laws (kept kv member).1 (kept kv member).2

/-- A scan that finds the queue's own entries only is aligned. -/
theorem aligned_of_own (laws : U.Laws) {s : Slot} {name : Text} (kv : KeyValue Stored)
    (own : ∀ e ∈ entriesOf s name kv, ∃ i, e.1 = slotKey U s name i) : Aligned U s name kv := by
  intro e member i read _
  obtain ⟨j, same⟩ := own e member
  rw [same] at read ⊢
  rw [messageId_slotKey laws read]

/-- A queue named `q` and one message. -/
def sampleConfig : IndividualQueueConfig := .new 0 ['q']

def sampleMessage : QueueMessage := .new 1 0 ['q'] [0x68]

def sampleStored : KeyValue Stored :=
  QueueCall.step .hyphenated (QueueCall.step .hyphenated ∅ (.createQueue sampleConfig))
    (.enqueue 0 sampleMessage)

theorem partition_run_sample : Run.Always (QueueCall.step .hyphenated) (Partitioned .hyphenated) ∅
    [.createQueue sampleConfig, .enqueue 0 sampleMessage, .dequeue 5 (fun _ => 2) ['q'] 10,
      .ack ['q'] (displayUuid 1)] := by
  refine partition_run UuidText.laws_hyphenated _ ⟨trivial, fun _ => ?_, fun _ => ?_, ?_, trivial⟩
  · intro s
    cases s <;> decide +kernel
  · have found : entriesOf .available ['q'] sampleStored =
        [(slotKey .hyphenated .available ['q'] 1, .empty)] := by decide +kernel
    refine aligned_of_own UuidText.laws_hyphenated sampleStored fun e member => ?_
    rw [found, List.mem_singleton] at member
    exact ⟨1, congrArg Prod.fst member⟩
  · intro i read _
    have one : i = 1 := Option.some.inj (read.symm.trans (UuidText.laws_hyphenated.parse_display 1))
    rw [one]
    decide +kernel

/-- **The partition is not kept by every call**: the acknowledgement of a message that
is still available leaves its index entry behind. -/
theorem not_partition_run : ¬ ∀ (U : UuidText), U.Laws → ∀ calls : List QueueCall,
    ∀ kv ∈ Run.states (QueueCall.step U) ∅ calls, Partitioned U kv := by
  intro all
  have last : QueueCall.step .hyphenated sampleStored (.ack ['q'] (displayUuid 1)) ∈
      Run.states (QueueCall.step .hyphenated) ∅ [.createQueue sampleConfig, .enqueue 0 sampleMessage,
        .ack ['q'] (displayUuid 1)] := Run.foldl_mem_states _ _
  have held := (all _ UuidText.laws_hyphenated _ _ last).refers .available ['q'] 1 (by decide +kernel)
  revert held
  decide +kernel

end NovaRuntime.Queue
