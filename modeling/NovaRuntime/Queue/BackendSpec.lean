/-
# NovaRuntime.Queue.BackendSpec — what each method of the backend does

One equation for each method that is a fixed sequence of store calls, and one rule for
the loops over scanned keys (`forEachMessage_spec`). Every method leaves the store well
keyed (`wellKeyed_step`). A scan finds as many entries as there are occupied slots in
the queues it covers (`length_entriesOf`).
-/
import NovaRuntime.Queue.Slots
import Mathlib.Data.Set.Card

namespace NovaRuntime.Queue

open NovaRuntime.Library

set_option autoImplicit false

/-! ## Methods -/

variable {U : UuidText}
variable {now : Int} {kv : KeyValue Stored} {m : QueueMessage} {name : Text}

theorem getQueue_apply (name : Text) (kv : KeyValue Stored) :
    getQueue name kv = (match kv[queueMetaKey name]? with
      | none => .err (.notFound name)
      | some (.config config) => .ok config
      | some _ => .err .internal, kv) := by
  rw [getQueue, Exec.bind_apply, KeyValue.get_apply]
  rcases kv[queueMetaKey name]? with _ | _ | _ | _ <;> rfl

theorem getQueue_eq_ok {config : IndividualQueueConfig}
    (found : kv[queueMetaKey name]? = some (.config config)) :
    getQueue name kv = (.ok config, kv) := by
  rw [getQueue_apply, found]

/-- The store after deleting what a scan finds. -/
def swept (s : Slot) (name : Text) (kv : KeyValue Stored) : KeyValue Stored :=
  KeyValue.runBatch ((entriesOf s name kv).map fun e => (e.1, none)) kv

theorem purgeEntries_apply (s : Slot) (label : Text) (labels : s.label = label) (name : Text)
    (kv : KeyValue Stored) : purgeEntries label name kv = (.ok (), swept s name kv) := by
  subst labels
  rw [purgeEntries, Exec.bind_of_ok (scanEntries_apply s name kv), swept]
  cases entriesOf s name kv <;> rfl

/-- The store after `purge`. -/
def sweptAll (name : Text) (kv : KeyValue Stored) : KeyValue Stored :=
  swept .dlq name (swept .delayed name (swept .inflight name (swept .available name
    (swept .message name kv))))

theorem purge_apply (name : Text) (kv : KeyValue Stored) :
    purge name kv = (.ok (), sweptAll name kv) := by
  rw [purge, Exec.bind_of_ok (purgeEntries_apply .message msgLabel rfl name kv), Exec.bind_of_ok (purgeEntries_apply .available availableLabel rfl name _),
    Exec.bind_of_ok (purgeEntries_apply .inflight inflightLabel rfl name _), Exec.bind_of_ok (purgeEntries_apply .delayed delayedLabel rfl name _),
    purgeEntries_apply .dlq dlqLabel rfl, sweptAll]

theorem cell_swept (laws : U.Laws) (s : Slot) (name : Text) (kv : KeyValue Stored) (n : Text)
    (i : Uuid) (s' : Slot) : cell U (swept s name kv) n i s' =
      if s' = s ∧ Covers name n then none else cell U kv n i s' := by
  have deleted := cell_runDeletes U kv ((entriesOf s name kv).map Prod.fst) n i s'
  rw [List.map_map] at deleted
  refine deleted.trans ?_
  by_cases inside : s' = s ∧ Covers name n
  · rw [if_pos inside]
    split
    · rfl
    · rename_i absent
      by_contra present
      obtain ⟨v, found⟩ := Option.ne_none_iff_exists'.mp present
      exact absent (List.mem_map.mpr ⟨_, (slotKey_mem_entriesOf laws).mpr ⟨found, inside⟩, rfl⟩)
  · rw [if_neg inside, if_neg]
    intro member
    obtain ⟨⟨key, v⟩, scanned, rfl⟩ := List.mem_map.mp member
    exact inside ((slotKey_mem_entriesOf laws).mp scanned).2

/-- **`purge` empties the cells of every queue it covers.** -/
theorem cell_sweptAll (laws : U.Laws) (name : Text) (kv : KeyValue Stored) (n : Text) (i : Uuid) :
    cell U (sweptAll name kv) n i = if Covers name n then fun _ => none else cell U kv n i := by
  funext s
  simp only [sweptAll, cell_swept laws]
  by_cases covers : Covers name n
  · cases s <;> simp [covers]
  · simp [covers]

theorem deleteQueue_apply (name : Text) (kv : KeyValue Stored) :
    deleteQueue name kv = (match kv[queueMetaKey name]? with
      | none => (.err (.notFound name), kv)
      | some _ => (.ok (), (sweptAll name (kv.erase (queueMetaKey name))).erase (queueStatsKey name))) := by
  rw [deleteQueue, Exec.bind_apply, KeyValue.get_apply]
  cases kv[queueMetaKey name]? with
  | none => rfl
  | some v =>
    simp only
    rw [Exec.bind_of_ok (KeyValue.delete_apply (queueMetaKey name) kv),
      Exec.bind_of_ok (purgeEntries_apply .message msgLabel rfl name _), Exec.bind_of_ok (purgeEntries_apply .available availableLabel rfl name _),
      Exec.bind_of_ok (purgeEntries_apply .inflight inflightLabel rfl name _), Exec.bind_of_ok (purgeEntries_apply .delayed delayedLabel rfl name _),
      Exec.bind_of_ok (purgeEntries_apply .dlq dlqLabel rfl name _), KeyValue.delete_apply, sweptAll]

theorem stats_apply (name : Text) (kv : KeyValue Stored) :
    stats name kv = (.ok {
      availableMessages := (entriesOf .available name kv).length
      inFlightMessages := (entriesOf .inflight name kv).length
      delayedMessages := (entriesOf .delayed name kv).length
      totalMessages := (entriesOf .message name kv).length
      dlqMessages := (entriesOf .dlq name kv).length }, kv) := rfl

theorem peek_apply (name : Text) (maxMessages : Nat) (kv : KeyValue Stored) :
    peek name maxMessages kv =
      (.ok (((entriesOf .message name kv).take maxMessages).filterMap fun e => e.2.toMessage), kv) := rfl

/-- The index `enqueue` puts a message in. -/
def enqueueSlot (now : Int) (m : QueueMessage) : Slot :=
  if m.delayUntil.any fun delayUntil => delayUntil > now then .delayed else .available

/-- The queue exists and is not paused. -/
def Open (kv : KeyValue Stored) (name : Text) : Prop :=
  ∃ config, kv[queueMetaKey name]? = some (.config config) ∧ config.paused = false

theorem enqueue_of_open (now : Int) (opened : Open kv m.queueName) :
    enqueue U now m kv = (.ok (), (kv.insert (slotKey U .message m.queueName m.id)
      (.message m)).insert (slotKey U (enqueueSlot now m) m.queueName m.id) .empty) := by
  obtain ⟨config, found, running⟩ := opened
  rw [enqueue, Exec.bind_of_ok (getQueue_eq_ok found), enqueueSlot, if_neg (by simp [running])]
  split <;> rfl

theorem refused_of_not_open {α : Type} (closed : ¬ Open kv name) (rest : Method α) :
    ∃ e, (getQueue name >>= fun config =>
      if config.paused then Exec.lift (.err .queuePaused) else rest) kv = (.err e, kv) := by
  rw [Exec.bind_apply, getQueue_apply]
  cases found : kv[queueMetaKey name]? with
  | none => exact ⟨_, rfl⟩
  | some v =>
    cases v with
    | config config =>
      have paused : config.paused = true := by
        by_contra running
        exact closed ⟨config, found, by simpa using running⟩
      exact ⟨.queuePaused, by simp [paused]⟩
    | message _ | empty => exact ⟨_, rfl⟩

theorem enqueue_fails (now : Int)
    (closed : ¬ Open kv m.queueName) : ∃ e, enqueue U now m kv = (.err e, kv) :=
  refused_of_not_open closed _

theorem enqueue_of_not_open (closed : ¬ Open kv m.queueName) : (enqueue U now m kv).2 = kv := by
  obtain ⟨e, failed⟩ := enqueue_fails (U := U) now closed
  rw [failed]

theorem dequeue_of_open {receipts : Bytes → Uuid} {maxMessages : Nat} (opened : Open kv name) :
    dequeue U now receipts name maxMessages kv =
      forEachMessage U name (receive U now receipts name)
        (((entriesOf .available name kv).take maxMessages).map Prod.fst) kv := by
  obtain ⟨config, found, running⟩ := opened
  rw [dequeue, Exec.bind_of_ok (getQueue_eq_ok found), if_neg (by simp [running])]
  exact Exec.bind_of_ok (scanEntries_apply .available name kv) _

theorem dequeue_of_not_open (now : Int) (receipts : Bytes → Uuid) (maxMessages : Nat)
    (closed : ¬ Open kv name) :
    ∃ e, dequeue U now receipts name maxMessages kv = (.err e, kv) :=
  refused_of_not_open closed _

theorem ack_snd (n receipt : Text) (kv : KeyValue Stored) :
    (ack U n receipt kv).2 = match U.parseStr (utf8 receipt) with
      | none => kv
      | some i =>
        if (kv[slotKey U .message n i]?).isSome then
          (kv.erase (slotKey U .message n i)).erase (slotKey U .inflight n i)
        else kv := by
  rw [ack]
  cases U.parseStr (utf8 receipt) with
  | none => rfl
  | some i =>
    have data : queueMsgKey U n i = slotKey U .message n i := rfl
    simp only [Exec.bind_apply, KeyValue.get_apply, data]
    cases kv[slotKey U .message n i]? <;> rfl

/-- What `nack` writes over a message. -/
def nacked (now : Int) (m : QueueMessage) : QueueMessage :=
  { m with visibleAt := now, receiptHandle := none }

theorem nack_snd (now : Int) (n receipt : Text) (kv : KeyValue Stored) :
    (nack U now n receipt kv).2 = match U.parseStr (utf8 receipt) with
      | none => kv
      | some i => match kv[slotKey U .message n i]? with
        | some (.message m) =>
          ((kv.insert (slotKey U .message n i) (.message (nacked now m))).erase
            (slotKey U .inflight n i)).insert (slotKey U .available n i) .empty
        | _ => kv := by
  rw [nack]
  cases U.parseStr (utf8 receipt) with
  | none => rfl
  | some i =>
    have data : queueMsgKey U n i = slotKey U .message n i := rfl
    simp only [Exec.bind_apply, KeyValue.get_apply, data]
    rcases kv[slotKey U .message n i]? with _ | _ | _ | _ <;> rfl

/-! ## Calls that touch configurations only -/

section Configurations

variable {kv : KeyValue Stored}

theorem cell_createQueue (config : IndividualQueueConfig) :
    cell U (createQueue config kv).2 = cell U kv := by
  rw [createQueue, Exec.bind_apply, KeyValue.get_apply]
  cases kv[queueMetaKey config.name]? with
  | none => exact cell_insert_meta U kv config.name _
  | some _ => rfl

theorem cell_updateQueue (config : IndividualQueueConfig) :
    cell U (updateQueue config kv).2 = cell U kv := by
  rw [updateQueue, Exec.bind_apply, KeyValue.get_apply]
  cases kv[queueMetaKey config.name]? with
  | none => rfl
  | some _ => exact cell_insert_meta U kv config.name _

theorem cell_pause (now : Int) (name : Text) : cell U (pause now name kv).2 = cell U kv := by
  rw [pause, Exec.bind_apply, getQueue_apply]
  rcases kv[queueMetaKey name]? with _ | _ | _ | _
  · rfl
  · exact cell_updateQueue _
  · rfl
  · rfl

theorem cell_resume (now : Int) (name : Text) : cell U (resume now name kv).2 = cell U kv := by
  rw [resume, Exec.bind_apply, getQueue_apply]
  rcases kv[queueMetaKey name]? with _ | _ | _ | _
  · rfl
  · exact cell_updateQueue _
  · rfl
  · rfl

end Configurations

/-! ## Loops -/

/-- The rule for a loop over scanned keys. A key that does not lead to a message is
skipped; what holds may speak of the keys to come and of the results so far. -/
theorem forEachMessage_spec {α : Type} (body : Bytes → Uuid → QueueMessage → Method (Option α))
    {P : List Bytes → List α → KeyValue Stored → Prop} (skip : ∀ key keys done kv, P (key :: keys) done kv →
      (∀ i m, messageId U key = some i → kv[slotKey U .message name i]? ≠ some (.message m)) →
      P keys done kv) (visit : ∀ key keys done kv i m, P (key :: keys) done kv → messageId U key = some i →
      kv[slotKey U .message name i]? = some (.message m) →
      ∃ result kv', body key i m kv = (.ok result, kv') ∧ P keys (done ++ result.toList) kv')
    (keys : List Bytes) (done : List α) (kv : KeyValue Stored) (start : P keys done kv) :
    ∃ results kv', forEachMessage U name body keys kv = (.ok results, kv') ∧
      P [] (done ++ results) kv' := by
  induction keys generalizing done kv with
  | nil => exact ⟨[], kv, rfl, by rwa [List.append_nil]⟩
  | cons key keys ih =>
    have skipped : (∀ i m, messageId U key = some i →
        kv[slotKey U .message name i]? ≠ some (.message m)) →
        forEachMessage U name body (key :: keys) kv = forEachMessage U name body keys kv →
        ∃ results kv', forEachMessage U name body (key :: keys) kv = (.ok results, kv') ∧
          P [] (done ++ results) kv' := by
      intro nothing same
      rw [same]
      exact ih done kv (skip key keys done kv start nothing)
    cases read : messageId U key with
    | none =>
      refine skipped (fun i m parsed => ?_) ?_
      · rw [read] at parsed
        cases parsed
      · rw [forEachMessage, read]
    | some i =>
      have unfolded : forEachMessage U name body (key :: keys) kv =
          (match kv[slotKey U .message name i]? with
            | some (.message msg) => (do
                let result ← body key i msg
                let results ← forEachMessage U name body keys
                pure (result.toList ++ results) : Method (List α))
            | _ => forEachMessage U name body keys) kv := by
        rw [forEachMessage, read]
        rfl
      cases found : kv[slotKey U .message name i]? with
      | none =>
        refine skipped (fun i' m parsed there => ?_) (by rw [unfolded, found])
        rw [read, Option.some.injEq] at parsed
        rw [← parsed, found] at there
        cases there
      | some v =>
        cases v with
        | message msg =>
          obtain ⟨result, kv', ran, next⟩ := visit key keys done kv i msg start read found
          obtain ⟨results, kv'', rest, last⟩ := ih _ kv' next
          refine ⟨result.toList ++ results, kv'', ?_, by rwa [← List.append_assoc]⟩
          rw [unfolded, found]
          exact (Exec.bind_of_ok ran _).trans (Exec.bind_of_ok rest _)
        | config _ | empty =>
          refine skipped (fun i' m parsed there => ?_) (by rw [unfolded, found])
          rw [read, Option.some.injEq] at parsed
          rw [← parsed, found] at there
          cases there

/-- The same for what the loop's visits keep, with the keys known to be index entries. -/
theorem forEachMessage_slots {α : Type} (body : Bytes → Uuid → QueueMessage → Method (Option α))
    (laws : U.Laws) (keyed : WellKeyed U kv) {s : Slot} {P : KeyValue Stored → Prop}
    (visit : ∀ n j kv' i m, Covers name n ∧ (kv[slotKey U s n j]?).isSome → P kv' →
      messageId U (slotKey U s n j) = some i → kv'[slotKey U .message name i]? = some (.message m) →
      ∃ result kv'', body (slotKey U s n j) i m kv' = (.ok result, kv'') ∧ P kv'')
    {entries : List (Bytes × Stored)} (scanned : entries ⊆ entriesOf s name kv) (start : P kv) :
    ∃ results kv', forEachMessage U name body (entries.map Prod.fst) kv = (.ok results, kv') ∧
      P kv' := by
  obtain ⟨results, kv', ran, -, kept⟩ := forEachMessage_spec body
    (P := fun keys _ kv' => (∀ key ∈ keys, ∃ n j, (Covers name n ∧ (kv[slotKey U s n j]?).isSome) ∧
      key = slotKey U s n j) ∧ P kv')
    (fun _ _ _ _ held _ => ⟨fun key member => held.1 key (.tail _ member), held.2⟩)
    (fun key keys done kv i m held read found => by
      obtain ⟨n, j, scanned, rfl⟩ := held.1 key (.head _)
      obtain ⟨result, kv', ran, kept⟩ := visit n j kv i m scanned held.2 read found
      exact ⟨result, kv', ran, fun key member => held.1 key (.tail _ member), kept⟩)
    (entries.map Prod.fst) [] kv ⟨fun key member => by
      obtain ⟨e, inEntries, rfl⟩ := List.mem_map.mp member
      obtain ⟨n, j, same, covers, found⟩ := keyed.entry laws (scanned inEntries)
      exact ⟨n, j, ⟨covers, by rw [found]; rfl⟩, same⟩, start⟩
  exact ⟨results, kv', ran, kept⟩

theorem receive_apply (now : Int) (receipts : Bytes → Uuid) (name : Text) (key : Bytes) (i : Uuid)
    (m : QueueMessage) (kv : KeyValue Stored) :
    receive U now receipts name key i m kv =
      if m.isVisible now then
        (.ok (some (m.markReceived now (U.display (receipts key)))),
          ((kv.insert (slotKey U .message name i)
            (.message (m.markReceived now (U.display (receipts key))))).erase key).insert
              (slotKey U .inflight name i) .empty)
      else (.ok none, kv) := by
  rw [receive]
  by_cases visible : m.isVisible now = true
  · rw [if_pos visible, if_pos (by rw [visible, QueueMessage.hasExpired_of_isVisible visible]; rfl)]
    rfl
  · rw [if_neg visible, if_neg (by simp [visible])]
    rfl

/-- The timeout of a message in flight is over, and the message has not expired. -/
def Due (now : Int) (m : QueueMessage) : Prop := m.visibleAt ≤ now ∧ m.hasExpired now = false

instance (now : Int) (m : QueueMessage) : Decidable (Due now m) :=
  inferInstanceAs (Decidable (_ ∧ _))

theorem release_apply (now : Int) (name : Text) (key : Bytes) (i : Uuid) (m : QueueMessage)
    (kv : KeyValue Stored) :
    release U now name key i m kv =
      if Due now m then (.ok (some ()), (kv.erase key).insert (slotKey U .available name i) .empty)
      else (.ok none, kv) := by
  rw [release]
  by_cases due : Due now m
  · rw [if_pos due, if_pos (by simp [due.1, due.2])]
    rfl
  · rw [if_neg due, if_neg (by simpa [Due] using due)]
    rfl

/-- The message has been handed out as often as it may, and its timeout is over. -/
def Spent (now : Int) (m : QueueMessage) : Prop :=
  m.maxReceives ≤ m.attemptCount ∧ m.visibleAt ≤ now

instance (now : Int) (m : QueueMessage) : Decidable (Spent now m) :=
  inferInstanceAs (Decidable (_ ∧ _))

/-- The message as `move_to_dlq` stores it. -/
def buried (now : Int) (dlqName : Text) (m : QueueMessage) : QueueMessage :=
  { m with
    queueName := dlqName, receiptHandle := none, attemptCount := 0, enqueuedAt := now,
    visibleAt := now }

theorem bury_apply (now : Int) (name dlqName : Text) (key : Bytes) (i : Uuid) (m : QueueMessage)
    (kv : KeyValue Stored) :
    bury U now name dlqName key i m kv =
      if Spent now m then
        (.ok (some ()), ((((kv.insert (slotKey U .message dlqName i)
          (.message (buried now dlqName m))).insert (slotKey U .dlq dlqName i) .empty).erase
            (slotKey U .message name i)).erase key))
      else (.ok none, kv) := by
  rw [bury]
  by_cases spent : Spent now m
  · rw [if_pos spent, if_pos (by simpa [Spent] using spent)]
    rfl
  · rw [if_neg spent, if_neg (by simpa [Spent] using spent)]
    rfl

theorem releaseExpiredMessages_apply (now : Int) (name : Text) (kv : KeyValue Stored) :
    releaseExpiredMessages U now name kv =
      (do
        let released ← forEachMessage U name (release U now name)
          ((entriesOf .inflight name kv).map Prod.fst)
        pure released.length : Method Nat) kv :=
  Exec.bind_of_ok (scanEntries_apply .inflight name kv) _

/-- Without a dead letter queue `move_to_dlq` leaves the store. -/
theorem moveToDlq_cases (U : UuidText) (now : Int) (name : Text) (kv : KeyValue Stored) :
    (moveToDlq U now name kv).2 = kv ∨
      ∃ config dlqName, kv[queueMetaKey name]? = some (.config config) ∧ config.dlqName = some dlqName := by
  rw [moveToDlq, Exec.bind_apply, getQueue_apply]
  cases found : kv[queueMetaKey name]? with
  | none => exact .inl rfl
  | some v =>
    cases v with
    | config config =>
      cases target : config.dlqName with
      | none => exact .inl (by simp [target])
      | some dlqName => exact .inr ⟨config, dlqName, rfl, target⟩
    | message _ => exact .inl rfl
    | empty => exact .inl rfl

theorem moveToDlq_of_some {dlqName : Text}
    {config : IndividualQueueConfig} (found : kv[queueMetaKey name]? = some (.config config))
    (target : config.dlqName = some dlqName) :
    moveToDlq U now name kv =
      (do
        let moved ← forEachMessage U name (bury U now name dlqName)
          ((entriesOf .inflight name kv).map Prod.fst)
        pure moved.length : Method Nat) kv := by
  rw [moveToDlq, Exec.bind_of_ok (getQueue_eq_ok found)]
  simp only [target]
  exact Exec.bind_of_ok (scanEntries_apply .inflight name kv) _

/-- The keys one pass of `purge_expired_messages` deletes. -/
def allExpiredKeys (U : UuidText) (now : Int) (name : Text) (kv : KeyValue Stored) : List Bytes :=
  (entriesOf .message name kv).flatMap (expiredKeys U now name)

theorem purgeExpiredMessages_apply (now : Int) (name : Text) (kv : KeyValue Stored) :
    purgeExpiredMessages U now name kv =
      (.ok ((entriesOf .message name kv).countP fun e => !(expiredKeys U now name e).isEmpty),
        KeyValue.runBatch ((allExpiredKeys U now name kv).map fun key => (key, none)) kv) := by
  rw [purgeExpiredMessages, allExpiredKeys]
  refine (Exec.bind_of_ok (scanEntries_apply .message name kv) _).trans ?_
  cases (entriesOf .message name kv).flatMap (expiredKeys U now name) <;> rfl

theorem purgeExpiredMessages_snd (now : Int) (name : Text) (kv : KeyValue Stored) :
    (purgeExpiredMessages U now name kv).2 =
      KeyValue.runBatch ((allExpiredKeys U now name kv).map fun key => (key, none)) kv := by
  rw [purgeExpiredMessages_apply]

theorem expiredKeys_message (now : Int) (name : Text) (key : Bytes) (m : QueueMessage) :
    expiredKeys U now name (key, .message m) =
      if m.hasExpired now then
        key :: [Slot.available, .inflight, .delayed, .dlq].map fun s => slotKey U s name m.id
      else [] := rfl

theorem mem_allExpiredKeys (laws : U.Laws) (keyed : WellKeyed U kv) {s : Slot} {n : Text} {i : Uuid} :
    slotKey U s n i ∈ allExpiredKeys U now name kv ↔
      ∃ n' m, Covers name n' ∧ kv[slotKey U .message n' i]? = some (.message m) ∧
        m.hasExpired now = true ∧ (s = .message ∧ n = n' ∨ s ≠ .message ∧ n = name) := by
  rw [allExpiredKeys, List.mem_flatMap]
  constructor
  · rintro ⟨⟨key, v⟩, scanned, member⟩
    obtain ⟨n', i', rfl, covers, found⟩ := keyed.entry laws scanned
    obtain ⟨m, rfl, rfl, rfl⟩ := keyed.message laws found
    rw [expiredKeys_message] at member
    split at member
    · rename_i expired
      rcases List.mem_cons.mp member with same | other
      · obtain ⟨rfl, rfl, rfl⟩ := (slotKey_inj laws).mp same
        exact ⟨m.queueName, m, covers, found, expired, .inl ⟨rfl, rfl⟩⟩
      · obtain ⟨s', index, same⟩ := List.mem_map.mp other
        obtain ⟨rfl, rfl, rfl⟩ := (slotKey_inj laws).mp same
        refine ⟨m.queueName, m, covers, found, expired, .inr ⟨?_, rfl⟩⟩
        rintro rfl
        revert index
        decide
    · cases member
  · rintro ⟨n', m, covers, found, expired, place⟩
    obtain ⟨m', same, -, rfl⟩ := keyed.message laws found
    cases same
    refine ⟨(slotKey U .message n' m.id, .message m),
      (slotKey_mem_entriesOf laws).mpr ⟨found, rfl, covers⟩, ?_⟩
    rw [expiredKeys_message, if_pos expired]
    rcases place with ⟨rfl, rfl⟩ | ⟨isIndex, rfl⟩
    · exact .head _
    · refine .tail _ (List.mem_map.mpr ⟨s, ?_, rfl⟩)
      revert isIndex
      cases s <;> decide

/-! ## Every entry stays one the backend writes -/

theorem Placed.message_at {n : Text} {i : Uuid} (name : m.queueName = n)
    (id : m.id = i) : Placed U (slotKey U .message n i) (.message m) := name ▸ id ▸ .message m

theorem forEachMessage_keeps {α : Type}
    (body : Bytes → Uuid → QueueMessage → Method (Option α)) {P : KeyValue Stored → Prop}
    (visit : ∀ key kv i m, P kv → kv[slotKey U .message name i]? = some (.message m) →
      ∃ result kv', body key i m kv = (.ok result, kv') ∧ P kv')
    (keys : List Bytes) (kv : KeyValue Stored) (start : P kv) :
    ∃ results kv', forEachMessage U name body keys kv = (.ok results, kv') ∧ P kv' :=
  forEachMessage_spec body (P := fun _ _ kv => P kv) (fun _ _ _ _ held _ => held)
    (fun key _ _ kv i m held _ found => visit key kv i m held found) keys [] kv start

namespace WellKeyed

variable {kv : KeyValue Stored}

section

variable (keyed : WellKeyed U kv)

include keyed

theorem createQueue (config : IndividualQueueConfig) : WellKeyed U (Queue.createQueue config kv).2 := by
  rw [Queue.createQueue, Exec.bind_apply, KeyValue.get_apply]
  cases kv[queueMetaKey config.name]? with
  | none => exact keyed.insert (.config config)
  | some _ => exact keyed

theorem updateQueue (config : IndividualQueueConfig) : WellKeyed U (Queue.updateQueue config kv).2 := by
  rw [Queue.updateQueue, Exec.bind_apply, KeyValue.get_apply]
  cases kv[queueMetaKey config.name]? with
  | none => exact keyed
  | some _ => exact keyed.insert (.config config)

theorem pause (now : Int) (name : Text) : WellKeyed U (Queue.pause now name kv).2 := by
  rw [Queue.pause, Exec.bind_apply, getQueue_apply]
  rcases kv[queueMetaKey name]? with _ | _ | _ | _
  · exact keyed
  · exact keyed.updateQueue _
  · exact keyed
  · exact keyed

theorem resume (now : Int) (name : Text) : WellKeyed U (Queue.resume now name kv).2 := by
  rw [Queue.resume, Exec.bind_apply, getQueue_apply]
  rcases kv[queueMetaKey name]? with _ | _ | _ | _
  · exact keyed
  · exact keyed.updateQueue _
  · exact keyed
  · exact keyed

theorem sweptAll (name : Text) : WellKeyed U (Queue.sweptAll name kv) := by
  have sweep : ∀ (s : Slot) {kv : KeyValue Stored}, WellKeyed U kv → WellKeyed U (swept s name kv) := by
    intro s kv keyed
    have kept := keyed.runDeletes ((entriesOf s name kv).map Prod.fst)
    rwa [List.map_map] at kept
  exact sweep _ (sweep _ (sweep _ (sweep _ (sweep _ keyed))))

theorem deleteQueue (name : Text) : WellKeyed U (Queue.deleteQueue name kv).2 := by
  rw [deleteQueue_apply]
  cases kv[queueMetaKey name]? with
  | none => exact keyed
  | some _ => exact ((keyed.erase _).sweptAll name).erase _

theorem enqueue (now : Int) (m : QueueMessage) : WellKeyed U (Queue.enqueue U now m kv).2 := by
  by_cases opened : Open kv m.queueName
  · rw [enqueue_of_open _ opened]
    refine (keyed.insert (.message m)).insert (.index ?_ ..)
    rw [enqueueSlot]
    split <;> decide
  · rwa [enqueue_of_not_open opened]

theorem dequeue (laws : U.Laws) (now : Int) (receipts : Bytes → Uuid) (name : Text) (maxMessages : Nat) :
    WellKeyed U (Queue.dequeue U now receipts name maxMessages kv).2 := by
  by_cases opened : Open kv name
  · rw [dequeue_of_open opened]
    obtain ⟨results, kv', ran, kept⟩ := forEachMessage_keeps (receive U now receipts name)
      (P := WellKeyed U) (fun key kv i m keyed found => by
        obtain ⟨m', same, own, id⟩ := keyed.message laws found
        cases same
        have placed : Placed U _ (.message (m.markReceived now (U.display (receipts key)))) :=
          .message_at own id
        have kept := ((keyed.insert placed).erase key).insert
          (Placed.index (s := .inflight) (by decide) name i)
        rw [receive_apply]
        split
        · exact ⟨_, _, rfl, kept⟩
        · exact ⟨_, _, rfl, keyed⟩) _ kv keyed
    rw [ran]
    exact kept
  · obtain ⟨e, failed⟩ := dequeue_of_not_open (U := U) now receipts maxMessages opened
    rwa [failed]

theorem ack (n receipt : Text) : WellKeyed U (Queue.ack U n receipt kv).2 := by
  rw [ack_snd]
  cases U.parseStr (utf8 receipt) with
  | none => exact keyed
  | some i =>
    simp only
    split
    · exact (keyed.erase _).erase _
    · exact keyed

theorem nack (laws : U.Laws) (now : Int) (n receipt : Text) : WellKeyed U (Queue.nack U now n receipt kv).2 := by
  rw [nack_snd]
  cases U.parseStr (utf8 receipt) with
  | none => exact keyed
  | some i =>
    simp only
    split
    · rename_i m found
      obtain ⟨m', same, own, id⟩ := keyed.message laws found
      cases same
      have placed : Placed U _ (.message (nacked now m)) := .message_at own id
      exact ((keyed.insert placed).erase _).insert (.index (by decide) ..)
    · exact keyed

theorem releaseExpiredMessages (now : Int) (name : Text) :
    WellKeyed U (Queue.releaseExpiredMessages U now name kv).2 := by
  rw [releaseExpiredMessages_apply]
  obtain ⟨results, kv', ran, kept⟩ := forEachMessage_keeps (release U now name)
    (P := WellKeyed U) (fun key kv i m keyed _ => by
      have kept := (keyed.erase key).insert (Placed.index (s := .available) (by decide) name i)
      rw [release_apply]
      split
      · exact ⟨_, _, rfl, kept⟩
      · exact ⟨_, _, rfl, keyed⟩) _ kv keyed
  rw [Exec.bind_of_ok ran]
  exact kept

theorem moveToDlq (laws : U.Laws) (now : Int) (name : Text) : WellKeyed U (Queue.moveToDlq U now name kv).2 := by
  rcases moveToDlq_cases U now name kv with still | ⟨config, dlqName, found, target⟩
  · rw [still]
    exact keyed
  · rw [moveToDlq_of_some found target]
    obtain ⟨results, kv', ran, kept⟩ := forEachMessage_keeps (bury U now name dlqName)
      (P := WellKeyed U) (fun key kv i m keyed found => by
        obtain ⟨m', same, own, id⟩ := keyed.message laws found
        cases same
        have placed : Placed U _ (.message (buried now dlqName m)) := .message_at rfl id
        have kept := (((keyed.insert placed).insert
          (Placed.index (s := .dlq) (by decide) dlqName i)).erase
            (slotKey U .message name i)).erase key
        rw [bury_apply]
        split
        · exact ⟨_, _, rfl, kept⟩
        · exact ⟨_, _, rfl, keyed⟩) _ kv keyed
    rw [Exec.bind_of_ok ran]
    exact kept

theorem purgeExpiredMessages (now : Int) (name : Text) :
    WellKeyed U (Queue.purgeExpiredMessages U now name kv).2 := by
  rw [purgeExpiredMessages_snd]
  exact keyed.runDeletes _

end

end WellKeyed

/-! ## Configurations stay as they are -/

/-- Every queue has the configuration it had. -/
def SameConfigs (kv kv' : KeyValue Stored) : Prop :=
  ∀ name, kv'[queueMetaKey name]? = kv[queueMetaKey name]?

namespace SameConfigs

variable {kv kv' : KeyValue Stored}

theorem refl (kv : KeyValue Stored) : SameConfigs kv kv := fun _ => rfl

theorem trans {kv'' : KeyValue Stored} (first : SameConfigs kv kv') (next : SameConfigs kv' kv'') :
    SameConfigs kv kv'' := fun name => (next name).trans (first name)

theorem insert (same : SameConfigs kv kv') (s : Slot) (n : Text) (i : Uuid) (v : Stored) :
    SameConfigs kv (kv'.insert (slotKey U s n i) v) := fun name =>
  (getElem?_insert_slot_meta U kv' s n i v name).trans (same name)

theorem erase (same : SameConfigs kv kv') (s : Slot) (n : Text) (i : Uuid) :
    SameConfigs kv (kv'.erase (slotKey U s n i)) := fun name =>
  (getElem?_erase_slot_meta U kv' s n i name).trans (same name)

theorem openAt (same : SameConfigs kv kv') {name : Text} : Open kv' name ↔ Open kv name := by
  rw [Open, Open, same name]

theorem enqueue (kv : KeyValue Stored) (now : Int) (m : QueueMessage) :
    SameConfigs kv (Queue.enqueue U now m kv).2 := by
  by_cases opened : Open kv m.queueName
  · rw [enqueue_of_open _ opened]
    exact ((refl kv).insert _ _ _ _).insert _ _ _ _
  · rw [enqueue_of_not_open opened]
    exact refl kv

theorem nack (kv : KeyValue Stored) (now : Int) (n receipt : Text) :
    SameConfigs kv (Queue.nack U now n receipt kv).2 := by
  rw [nack_snd]
  cases U.parseStr (utf8 receipt) with
  | none => exact refl kv
  | some i =>
    simp only
    split
    · exact (((refl kv).insert _ _ _ _).erase _ _ _).insert _ _ _ _
    · exact refl kv

section

variable (laws : U.Laws) (keyed : WellKeyed U kv)

include laws keyed

theorem dequeue (now : Int) (receipts : Bytes → Uuid) (name : Text) (maxMessages : Nat) :
    SameConfigs kv (Queue.dequeue U now receipts name maxMessages kv).2 := by
  by_cases opened : Open kv name
  · rw [dequeue_of_open opened]
    obtain ⟨results, kv', ran, kept⟩ := forEachMessage_slots (P := SameConfigs kv)
      (receive U now receipts name) laws keyed (fun n j kv' i m _ same _ _ => by
        rw [receive_apply]
        split
        · exact ⟨_, _, rfl, ((same.insert _ _ _ _).erase _ _ _).insert _ _ _ _⟩
        · exact ⟨_, _, rfl, same⟩) (List.take_subset maxMessages (entriesOf .available name kv)) (refl kv)
    rw [ran]
    exact kept
  · obtain ⟨e, failed⟩ := dequeue_of_not_open (U := U) now receipts maxMessages opened
    rw [failed]
    exact refl kv

theorem releaseExpiredMessages (now : Int) (name : Text) :
    SameConfigs kv (Queue.releaseExpiredMessages U now name kv).2 := by
  rw [releaseExpiredMessages_apply]
  obtain ⟨results, kv', ran, kept⟩ := forEachMessage_slots (P := SameConfigs kv)
    (release U now name) laws keyed (fun n j kv' i m _ same _ _ => by
      rw [release_apply]
      split
      · exact ⟨_, _, rfl, (same.erase _ _ _).insert _ _ _ _⟩
      · exact ⟨_, _, rfl, same⟩) (List.Subset.refl (entriesOf .inflight name kv)) (refl kv)
  rw [Exec.bind_of_ok ran]
  exact kept

theorem moveToDlq (now : Int) (name : Text) : SameConfigs kv (Queue.moveToDlq U now name kv).2 := by
  rcases moveToDlq_cases U now name kv with still | ⟨config, dlqName, found, target⟩
  · rw [still]
    exact refl kv
  · rw [moveToDlq_of_some found target]
    obtain ⟨results, kv', ran, kept⟩ := forEachMessage_slots (P := SameConfigs kv)
      (bury U now name dlqName) laws keyed (fun n j kv' i m _ same _ _ => by
        rw [bury_apply]
        split
        · exact ⟨_, _, rfl, (((same.insert _ _ _ _).insert _ _ _ _).erase _ _ _).erase _ _ _⟩
        · exact ⟨_, _, rfl, same⟩) (List.Subset.refl (entriesOf .inflight name kv)) (refl kv)
    rw [Exec.bind_of_ok ran]
    exact kept

theorem purgeExpiredMessages (now : Int) (name : Text) :
    SameConfigs kv (Queue.purgeExpiredMessages U now name kv).2 := by
  intro other
  rw [purgeExpiredMessages_snd, KeyValue.getElem?_runDeletes, if_neg]
  intro member
  obtain ⟨⟨key, v⟩, scanned, deleted⟩ := List.mem_flatMap.mp member
  obtain ⟨n, i, rfl, -, found⟩ := keyed.entry laws scanned
  obtain ⟨m, rfl, -, -⟩ := keyed.message laws found
  rw [expiredKeys_message] at deleted
  split at deleted
  · rcases List.mem_cons.mp deleted with same | index
    · exact slotKey_ne_meta U _ n i other same.symm
    · obtain ⟨s, -, same⟩ := List.mem_map.mp index
      exact slotKey_ne_meta U s name m.id other same
  · cases deleted

end

end SameConfigs

/-- A method whose results are dropped leaves the store it leaves. -/
theorem snd_bind_pure {α β : Type} (x : Method α) (b : β) (kv : KeyValue Stored) :
    ((x >>= fun _ => pure b : Method β) kv).2 = (x kv).2 := by
  rw [Exec.bind_apply]
  rcases x kv with ⟨_ | _ | _ | _, _⟩ <;> rfl

/-- What a call leaves is what its method leaves. -/
theorem QueueCall.step_eq (kv : KeyValue Stored) (call : QueueCall) :
    call.step U kv = match call with
      | .createQueue config => (Queue.createQueue config kv).2
      | .updateQueue config => (Queue.updateQueue config kv).2
      | .pause now name => (Queue.pause now name kv).2
      | .resume now name => (Queue.resume now name kv).2
      | .deleteQueue name => (Queue.deleteQueue name kv).2
      | .enqueue now m => (Queue.enqueue U now m kv).2
      | .dequeue now receipts name maxMessages =>
        (Queue.dequeue U now receipts name maxMessages kv).2
      | .ack name receipt => (Queue.ack U name receipt kv).2
      | .nack now name receipt => (Queue.nack U now name receipt kv).2
      | .purge name => (Queue.purge name kv).2
      | .releaseExpiredMessages now name => (Queue.releaseExpiredMessages U now name kv).2
      | .moveToDlq now name => (Queue.moveToDlq U now name kv).2
      | .purgeExpiredMessages now name => (Queue.purgeExpiredMessages U now name kv).2 := by
  cases call
  case dequeue => rfl
  all_goals exact snd_bind_pure _ _ kv

/-- **Every call leaves only entries the backend writes.** -/
theorem wellKeyed_step (laws : U.Laws) (call : QueueCall)
    (keyed : WellKeyed U kv) : WellKeyed U (call.step U kv) := by
  rw [QueueCall.step_eq]
  cases call with
  | createQueue config => exact keyed.createQueue config
  | updateQueue config => exact keyed.updateQueue config
  | pause now name => exact keyed.pause now name
  | resume now name => exact keyed.resume now name
  | deleteQueue name => exact keyed.deleteQueue name
  | enqueue now m => exact keyed.enqueue now m
  | dequeue now receipts name maxMessages => exact keyed.dequeue laws now receipts name maxMessages
  | ack name receipt => exact keyed.ack name receipt
  | nack now name receipt => exact keyed.nack laws now name receipt
  | purge name =>
    simp only [purge_apply]
    exact keyed.sweptAll name
  | releaseExpiredMessages now name => exact keyed.releaseExpiredMessages now name
  | moveToDlq now name => exact keyed.moveToDlq laws now name
  | purgeExpiredMessages now name => exact keyed.purgeExpiredMessages now name

/-! ## Counting -/

/-- A scan finds one entry for each occupied slot of the queues it covers. -/
theorem length_entriesOf (laws : U.Laws) (keyed : WellKeyed U kv) (s : Slot)
    (name : Text) : (entriesOf s name kv).length =
      {p : Text × Uuid | Covers name p.1 ∧ (cell U kv p.1 p.2 s).isSome}.ncard := by
  have injective : Function.Injective fun p : Text × Uuid => slotKey U s p.1 p.2 := by
    intro p q same
    obtain ⟨-, names, ids⟩ := (slotKey_inj laws).mp same
    exact Prod.ext names ids
  rw [← Set.ncard_image_of_injective _ injective]
  have keys : (fun p : Text × Uuid => slotKey U s p.1 p.2) ''
      {p | Covers name p.1 ∧ (cell U kv p.1 p.2 s).isSome} =
        ↑((entriesOf s name kv).map Prod.fst).toFinset := by
    ext key
    simp only [Set.mem_image, Set.mem_ofPred_eq, List.coe_toFinset, List.mem_map]
    constructor
    · rintro ⟨⟨n, i⟩, ⟨covers, stored⟩, rfl⟩
      obtain ⟨v, found⟩ := Option.isSome_iff_exists.mp stored
      exact ⟨(slotKey U s n i, v), (slotKey_mem_entriesOf laws).mpr ⟨found, rfl, covers⟩, rfl⟩
    · rintro ⟨e, member, rfl⟩
      obtain ⟨n, i, key, covers, found⟩ := keyed.entry laws member
      exact ⟨(n, i), ⟨covers, by rw [cell, found]; rfl⟩, key.symm⟩
  have distinct : ((entriesOf s name kv).map Prod.fst).Nodup := KeyValue.nodup_range ..
  rw [keys, Set.ncard_coe_finset, List.toFinset_card_of_nodup distinct, List.length_map]

end NovaRuntime.Queue
