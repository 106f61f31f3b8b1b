/-
# NovaRuntime.Queue.Isolation — queues kept apart by their names

A call on one queue should touch no entry of another, and what it shows should not
depend on the other (`Isolated`). The keys of different queues never coincide, but a
scan for a queue named `A` takes the range of all keys with the prefix `A:`, and a name
may itself contain a colon. Two queues are isolated exactly when the other name does
not go on with a colon behind the first (`isolated_iff`).
-/
import NovaRuntime.Queue.Partition

namespace NovaRuntime.Queue

open NovaRuntime.Library

set_option autoImplicit false

/-! ## What isolation says -/

def QueueCall.On (name : Text) : QueueCall → Prop
  | .createQueue config | .updateQueue config => config.name = name
  | .enqueue _ message => message.queueName = name
  | .pause _ queueName | .resume _ queueName | .deleteQueue queueName | .purge queueName
  | .dequeue _ _ queueName _ | .ack queueName _ | .nack _ queueName _
  | .releaseExpiredMessages _ queueName | .purgeExpiredMessages _ queueName => queueName = name
  | .moveToDlq _ _ => False

/-- The states of all runs. -/
def Reachable (U : UuidText) (kv : KeyValue Stored) : Prop :=
  ∃ calls : List QueueCall, kv = calls.foldl (QueueCall.step U) ∅

/-- The two stores differ at most in entries of one queue. -/
def SameOutside (U : UuidText) (name : Text) (kv kv' : KeyValue Stored) : Prop :=
  ∀ key, (∀ s i, key ≠ slotKey U s name i) → kv'[key]? = kv[key]?

/-- Calls on `a` leave every entry of `b` as it is, and the statistics and the messages
shown for `a` are the same whatever is stored for `b`. -/
structure Isolated (U : UuidText) (a b : Text) : Prop where
  entries : ∀ kv, Reachable U kv → ∀ call : QueueCall, call.On a → ∀ s i,
    (call.step U kv)[slotKey U s b i]? = kv[slotKey U s b i]?
  stats : ∀ kv kv', Reachable U kv → SameOutside U b kv kv' →
    (Queue.stats a kv').1 = (Queue.stats a kv).1
  peek : ∀ kv kv' maxMessages, Reachable U kv → SameOutside U b kv kv' →
    (Queue.peek a maxMessages kv').1 = (Queue.peek a maxMessages kv).1
  peeked : ∀ kv maxMessages messages, Reachable U kv →
    (Queue.peek a maxMessages kv).1 = .ok messages → ∀ m ∈ messages, m.queueName ≠ b

variable {U : UuidText}

theorem wellKeyed_of_reachable (laws : U.Laws) {kv : KeyValue Stored} (reachable : Reachable U kv) :
    WellKeyed U kv := by
  obtain ⟨calls, rfl⟩ := reachable
  suffices kept : ∀ kv, WellKeyed U kv → WellKeyed U (calls.foldl (QueueCall.step U) kv) from
    kept ∅ (WellKeyed.empty U)
  induction calls with
  | nil => exact fun _ => id
  | cons call calls ih => exact fun kv keyed => ih _ (wellKeyed_step laws call keyed)

/-! ## Calls on a queue that does not cover the other -/

section Apart

variable {a b : Text} {kv : KeyValue Stored}

/-- A loop over scanned keys whose visits write to the scanned queue and delete the key
leaves the cells of a queue that is not covered. -/
theorem cell_forEachMessage {α : Type} (body : Bytes → Uuid → QueueMessage → Method (Option α))
    (laws : U.Laws) (keyed : WellKeyed U kv) {s : Slot} (apart : ¬ Covers a b)
    (visit : ∀ n j i m kv, n ≠ b →
      ∃ result kv', body (slotKey U s n j) i m kv = (.ok result, kv') ∧
        ∀ i', cell U kv' b i' = cell U kv b i')
    {entries : List (Bytes × Stored)} (scanned : entries ⊆ entriesOf s a kv) :
    ∃ results kv', forEachMessage U a body (entries.map Prod.fst) kv = (.ok results, kv') ∧
      ∀ i, cell U kv' b i = cell U kv b i :=
  forEachMessage_slots (P := fun kv' => ∀ i, cell U kv' b i = cell U kv b i) body laws keyed
    (fun n j kv i m scanned held _ _ => by
      obtain ⟨result, kv', ran, same⟩ := visit n j i m kv fun here => apart (here ▸ scanned.1)
      exact ⟨result, kv', ran, fun i' => (same i').trans (held i')⟩)
    scanned fun _ => rfl

/-- **A call on a queue that does not cover the other leaves the other's entries.** -/
theorem cell_step_of_on (laws : U.Laws) (keyed : WellKeyed U kv) (differ : a ≠ b)
    (apart : ¬ Covers a b) {call : QueueCall} (on : call.On a) (i : Uuid) :
    cell U (call.step U kv) b i = cell U kv b i := by
  have other : ∀ j, ¬ (b = a ∧ i = j) := fun j both => differ both.1.symm
  rw [QueueCall.step_eq]
  cases call with
  | createQueue config => exact congrFun (congrFun (cell_createQueue config) b) i
  | updateQueue config => exact congrFun (congrFun (cell_updateQueue config) b) i
  | pause now name => exact congrFun (congrFun (cell_pause now name) b) i
  | resume now name => exact congrFun (congrFun (cell_resume now name) b) i
  | deleteQueue name =>
    cases on
    simp only [deleteQueue_apply]
    cases kv[queueMetaKey a]? with
    | none => rfl
    | some _ =>
      simp only [cell_erase_stats, cell_sweptAll laws, if_neg apart, cell_erase_meta]
  | enqueue now m =>
    cases on
    by_cases opened : Open kv m.queueName
    · simp only [enqueue_of_open _ opened, cell_insert laws, if_neg (other _)]
    · simp only [enqueue_of_not_open opened]
  | dequeue now receipts name maxMessages =>
    cases on
    by_cases opened : Open kv a
    · simp only [dequeue_of_open opened]
      obtain ⟨results, kv', ran, kept⟩ := cell_forEachMessage (s := .available)
        (receive U now receipts a) laws keyed apart
        (fun n j i m kv notB => by
          rw [receive_apply]
          split
          · refine ⟨_, _, rfl, fun i' => ?_⟩
            simp only [cell_insert laws, cell_erase laws, differ.symm, notB.symm, false_and, if_false]
          · exact ⟨_, _, rfl, fun _ => rfl⟩) (List.take_subset maxMessages _)
      rw [ran]
      exact kept i
    · obtain ⟨e, failed⟩ := dequeue_of_not_open (U := U) now receipts maxMessages opened
      simp only [failed]
  | ack name receipt =>
    cases on
    simp only [ack_snd]
    cases U.parseStr (utf8 receipt) with
    | none => rfl
    | some j =>
      simp only
      split
      · simp only [cell_erase laws, if_neg (other j)]
      · rfl
  | nack now name receipt =>
    cases on
    simp only [nack_snd]
    cases U.parseStr (utf8 receipt) with
    | none => rfl
    | some j =>
      simp only
      split
      · simp only [cell_insert laws, cell_erase laws, if_neg (other j)]
      · rfl
  | purge name =>
    cases on
    simp only [purge_apply, cell_sweptAll laws, if_neg apart]
  | releaseExpiredMessages now name =>
    cases on
    simp only [releaseExpiredMessages_apply]
    obtain ⟨results, kv', ran, kept⟩ := cell_forEachMessage (s := .inflight)
      (release U now a) laws keyed apart
      (fun n j i m kv notB => by
        rw [release_apply]
        split
        · refine ⟨_, _, rfl, fun i' => ?_⟩
          simp only [cell_insert laws, cell_erase laws, differ.symm, notB.symm, false_and, if_false]
        · exact ⟨_, _, rfl, fun _ => rfl⟩) (List.Subset.refl _)
    rw [Exec.bind_of_ok ran]
    exact kept i
  | moveToDlq now name => cases on
  | purgeExpiredMessages now name =>
    cases on
    simp only [purgeExpiredMessages_snd]
    funext s
    rw [cell_runDeletes, if_neg]
    intro member
    obtain ⟨n', m, covers, -, -, place⟩ := (mem_allExpiredKeys laws keyed).mp member
    rcases place with ⟨-, rfl⟩ | ⟨-, same⟩
    · exact apart covers
    · exact differ same.symm

/-- What a scan finds does not depend on the entries of a queue that is not covered. -/
theorem entriesOf_congr (laws : U.Laws) (apart : ¬ Covers a b) {kv' : KeyValue Stored}
    (same : SameOutside U b kv kv') (s : Slot) : entriesOf s a kv' = entriesOf s a kv := by
  refine KeyValue.range_congr fun key above below => same key ?_
  rintro s' i rfl
  exact apart ((slotKey_mem_range laws).mp ⟨above, below⟩).2

theorem isolated_of_apart (laws : U.Laws) (differ : a ≠ b) (apart : ¬ Covers a b) :
    Isolated U a b where
  entries kv reachable call on s i :=
    congrFun (cell_step_of_on laws (wellKeyed_of_reachable laws reachable) differ apart on i) s
  stats kv kv' _ same := by simp only [stats_apply, entriesOf_congr laws apart same]
  peek kv kv' maxMessages _ same := by simp only [peek_apply, entriesOf_congr laws apart same]
  peeked kv maxMessages messages reachable shown m member := by
    rw [peek_apply] at shown
    cases shown
    obtain ⟨⟨key, v⟩, inEntries, isMessage⟩ := List.mem_filterMap.mp member
    have keyed := wellKeyed_of_reachable laws reachable
    obtain ⟨n, i, -, covers, found⟩ := keyed.entry laws (List.mem_of_mem_take inEntries)
    obtain ⟨m', rfl, rfl, -⟩ := keyed.message laws found
    cases isMessage
    exact fun here => apart (here ▸ covers)

end Apart

/-! ## Calls on a queue that covers the other -/

theorem queueMetaKey_inj {name name' : Text} : queueMetaKey name = queueMetaKey name' ↔ name = name' :=
  ⟨fun same => List.append_cancel_left (utf8_injective same), fun same => same ▸ rfl⟩

/-- A queue is created where none of its name is. -/
theorem getElem?_createQueue (now : Int) {name : Text} {kv : KeyValue Stored}
    (fresh : kv[queueMetaKey name]? = none) (other : Text) :
    (QueueCall.step U kv (.createQueue (.new now name)))[queueMetaKey other]? =
      if name = other then some (.config (.new now name)) else kv[queueMetaKey other]? := by
  have created : QueueCall.step U kv (.createQueue (.new now name)) =
      kv.insert (queueMetaKey name) (.config (.new now name)) := by
    rw [QueueCall.step_eq]
    change (createQueue (.new now name) kv).2 = _
    simp only [createQueue, IndividualQueueConfig.new, Exec.bind_apply, KeyValue.get_apply, fresh]
    rfl
  simp only [created, Std.TreeMap.getElem?_insert, byteCmp_eq, queueMetaKey_inj]

theorem getElem?_enqueue (laws : U.Laws) (now : Int) {kv : KeyValue Stored} {m : QueueMessage}
    (opened : Open kv m.queueName) :
    (QueueCall.step U kv (.enqueue now m))[slotKey U .message m.queueName m.id]? =
      some (.message m) := by
  have index : Slot.message ≠ enqueueSlot now m := by
    rw [enqueueSlot]
    split <;> decide
  change cell U (QueueCall.step U kv (.enqueue now m)) m.queueName m.id .message = _
  rw [QueueCall.step_eq]
  simp only [enqueue_of_open _ opened, cell_insert laws, and_self, if_true]
  rw [Function.update_of_ne index, Function.update_self]

/-- Two queues, and a message in the second. -/
theorem exists_reachable_message (laws : U.Laws) {a b : Text} (differ : a ≠ b) :
    ∃ kv i, Reachable U kv ∧ (kv[slotKey U .message b i]?).isSome := by
  let message := QueueMessage.new 0 0 b []
  refine ⟨_, message.id, ⟨[.createQueue (.new 0 a), .createQueue (.new 0 b), .enqueue 0 message], rfl⟩, ?_⟩
  have first := getElem?_createQueue (U := U) 0 (show (∅ : KeyValue Stored)[queueMetaKey a]? = none by simp) b
  rw [if_neg differ] at first
  have second := getElem?_createQueue (U := U) 0 (first.trans (by simp)) b
  rw [if_pos rfl] at second
  have stored := getElem?_enqueue laws 0 (m := message) ⟨_, second, rfl⟩
  exact Option.isSome_iff_exists.mpr ⟨_, stored⟩

/-- A purge reaches the messages of every queue the purged one covers. -/
theorem not_isolated_of_covers (laws : U.Laws) {a b : Text} (differ : a ≠ b) (covers : Covers a b) :
    ¬ Isolated U a b := by
  intro isolated
  obtain ⟨kv, i, reachable, stored⟩ := exists_reachable_message (U := U) laws differ
  have kept := isolated.entries kv reachable (.purge a) rfl .message i
  have swept := congrFun (cell_sweptAll laws a kv b i) .message
  rw [if_pos covers] at swept
  rw [← kept, QueueCall.step_eq] at stored
  simp only [purge_apply] at stored
  replace stored : (cell U (sweptAll a kv) b i .message).isSome := stored
  rw [swept] at stored
  cases stored

/-- **Two queues are isolated exactly when the other name does not go on with a colon
behind the first.** -/
theorem isolated_iff (laws : U.Laws) {a b : Text} (differ : a ≠ b) :
    Isolated U a b ↔ ¬ Covers a b :=
  ⟨fun isolated covers => not_isolated_of_covers laws differ covers isolated,
    isolated_of_apart laws differ⟩

theorem isolated_iff_sample : Isolated .hyphenated ['a'] ['a', 'b'] ↔ ¬ Covers ['a'] ['a', 'b'] :=
  isolated_iff UuidText.laws_hyphenated (by decide)

/-- **Names with a colon are not kept apart**: `purge("a")` empties the queue `a:b`. -/
theorem not_isolated : ¬ ∀ (U : UuidText), U.Laws → ∀ a b : Text, a ≠ b → Isolated U a b := fun all =>
  not_isolated_of_covers UuidText.laws_hyphenated (by decide) (.inr ⟨['b'], rfl⟩)
    (all .hyphenated UuidText.laws_hyphenated ['a'] ['a', ':', 'b'] (by decide))

end NovaRuntime.Queue
