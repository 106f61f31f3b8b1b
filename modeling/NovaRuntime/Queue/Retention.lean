/-
# NovaRuntime.Queue.Retention — messages that stay and can be had

A message that was enqueued and neither acknowledged nor purged should be stored in one
queue, and passes of the scanner and polls should be able to hand it out at any time at
which it is visible and has not expired (`Retained`).

A message is at home in one queue, available or in flight (`Home`): from there a pass
and a poll deliver it (`deliverable_of_home`). Nobody promotes a delayed message or
polls the dead letters, and `move_to_dlq` deletes the message of a queue that is its own
dead-letter queue. `retained_run` names the calls between which all messages stay at
home (`Gentle`).
-/
import NovaRuntime.Queue.Deliveries

namespace NovaRuntime.Queue

open NovaRuntime.Library

set_option autoImplicit false

/-! ## Runs that remember what was enqueued -/

/-- The store, and the identifiers of the messages accepted so far. -/
structure Retention where
  store : KeyValue Stored
  accepted : List Uuid

inductive RetentionCall where
  | enqueue (now : Int) (message : QueueMessage)
  | dequeue (now : Int) (receipts : Bytes → Uuid) (queueName : Text) (maxMessages : Nat)
  | nack (now : Int) (queueName receiptHandle : Text)
  | releaseExpiredMessages (now : Int) (queueName : Text)
  | moveToDlq (now : Int) (queueName : Text)

def Retention.step (U : UuidText) (s : Retention) : RetentionCall → Retention
  | .enqueue now message =>
    let (outcome, store) := enqueue U now message s.store
    { store, accepted := outcome.elim (fun _ => message.id :: s.accepted) s.accepted }
  | .dequeue now receipts queueName maxMessages =>
    { s with store := (dequeue U now receipts queueName maxMessages s.store).2 }
  | .nack now queueName receiptHandle =>
    { s with store := (nack U now queueName receiptHandle s.store).2 }
  | .releaseExpiredMessages now queueName =>
    { s with store := (releaseExpiredMessages U now queueName s.store).2 }
  | .moveToDlq now queueName => { s with store := (moveToDlq U now queueName s.store).2 }

/-! ## Polling -/

/-- What may be done to get at a message. -/
inductive PollCall where
  | pass
  | poll (queueName : Text) (maxMessages : Nat)

/-- The messages handed out by passes and polls at one time. -/
def polled (U : UuidText) (enableDlq : Bool) (now : Int) (receipts : Bytes → Uuid) :
    KeyValue Stored → List PollCall → List QueueMessage
  | _, [] => []
  | kv, .pass :: calls => polled U enableDlq now receipts (scanAll U enableDlq now kv).2 calls
  | kv, .poll queueName maxMessages :: calls =>
    let (outcome, kv') := dequeue U now receipts queueName maxMessages kv
    returned outcome ++ polled U enableDlq now receipts kv' calls

/-- At any time at which the message is visible and has not expired, some passes and
polls hand it out. -/
def Deliverable (U : UuidText) (kv : KeyValue Stored) (m : QueueMessage) : Prop :=
  ∀ enableDlq now receipts, m.visibleAt ≤ now → m.hasExpired now = false →
    ∃ calls, ∃ r ∈ polled U enableDlq now receipts kv calls, r.id = m.id

/-- Every accepted message is stored in exactly one queue and can be had there. -/
def Retained (U : UuidText) (s : Retention) : Prop :=
  ∀ i ∈ s.accepted, (∃! n, (s.store[queueMsgKey U n i]?).isSome) ∧
    ∀ n m, s.store[queueMsgKey U n i]? = some (.message m) → Deliverable U s.store m

/-- The calls between which messages are retained. -/
def Gentle (U : UuidText) (s : Retention) : RetentionCall → Prop
  | .enqueue now m => Open s.store m.queueName →
      m.id ∉ s.accepted ∧ enqueueSlot now m = .available ∧
        messageId U (queueAvailableKey U m.queueName m.id) = some m.id
  | .moveToDlq now queueName => ∀ i m, (dlqOf s.store queueName).isSome →
      (s.store[queueInflightKey U queueName i]?).isSome →
        s.store[queueMsgKey U queueName i]? = some (.message m) → ¬ Spent now m
  | _ => True

/-! ## A message at home -/

/-- The message is stored in one queue, available or in flight there and nothing else. -/
structure Home (U : UuidText) (kv : KeyValue Stored) (n : Text) (i : Uuid) (m : QueueMessage)
    (s : Slot) : Prop where
  stored : cell U kv n i .message = some (.message m)
  holds : (cell U kv n i).Holds s
  usual : s = .available ∨ s = .inflight
  elsewhere : ∀ n', n' ≠ n → ∀ s', cell U kv n' i s' = none

variable {U : UuidText}

namespace Home

variable {kv kv' : KeyValue Stored} {n : Text} {i : Uuid} {m : QueueMessage} {s : Slot}

section

variable (home : Home U kv n i m s)

include home

theorem congr (same : ∀ n', cell U kv' n' i = cell U kv n' i) : Home U kv' n i m s where
  stored := by rw [same, home.stored]
  holds := by rw [same]; exact home.holds
  usual := home.usual
  elsewhere n' other s' := by rw [same, home.elsewhere n' other s']

theorem queue_eq {n' : Text} (s' : Slot) (there : (cell U kv n' i s').isSome) : n' = n := by
  by_contra other
  rw [home.elsewhere n' other s'] at there
  cases there

theorem message_eq {n' : Text} {m' : QueueMessage}
    (found : kv[slotKey U .message n' i]? = some (.message m')) : n' = n ∧ m' = m := by
  have same := home.queue_eq .message (by rw [cell, found]; rfl)
  subst same
  have stored := home.stored
  rw [cell, found, Option.some.injEq, Stored.message.injEq] at stored
  exact ⟨rfl, stored⟩

theorem index_eq {n' : Text} (s' : Slot) (index : s' ≠ .message)
    (there : (kv[slotKey U s' n' i]?).isSome) : n' = n ∧ s' = s := by
  have same := home.queue_eq s' there
  subst same
  exact ⟨rfl, ((home.holds.2 s').mp there).resolve_left index⟩

/-- Moving the index entry, and perhaps rewriting the message. -/
theorem move {m' : QueueMessage} {s' : Slot} (usual : s' = .available ∨ s' = .inflight)
    (here : cell U kv' n i .message = some (.message m') ∧ (cell U kv' n i).Holds s')
    (elsewhere : ∀ n', n' ≠ n → cell U kv' n' i = cell U kv n' i) : Home U kv' n i m' s' where
  stored := here.1
  holds := here.2
  usual := usual
  elsewhere n' other s'' := by rw [elsewhere n' other, home.elsewhere n' other s'']

end

end Home

/-! ## Loops that leave other messages alone -/

/-- A visit writes entries of the identifier it is for only. -/
def Local (U : UuidText) (s : Slot) {α : Type}
    (body : Bytes → Uuid → QueueMessage → Method (Option α)) : Prop :=
  ∀ n j m kv, ∃ result kv', body (slotKey U s n j) j m kv = (.ok result, kv') ∧
    ∀ n' i, i ≠ j → cell U kv' n' i = cell U kv n' i

theorem local_receive (laws : U.Laws) (now : Int) (receipts : Bytes → Uuid) (name : Text) :
    Local U .available (receive U now receipts name) := by
  intro n j m kv
  rw [receive_apply]
  split
  · refine ⟨_, _, rfl, fun n' i other => ?_⟩
    simp only [cell_insert laws, cell_erase laws, other, and_false, if_false]
  · exact ⟨_, _, rfl, fun _ _ _ => rfl⟩

theorem local_release (laws : U.Laws) (now : Int) (name : Text) :
    Local U .inflight (release U now name) := by
  intro n j m kv
  rw [release_apply]
  split
  · refine ⟨_, _, rfl, fun n' i other => ?_⟩
    simp only [cell_insert laws, cell_erase laws, other, and_false, if_false]
  · exact ⟨_, _, rfl, fun _ _ _ => rfl⟩

theorem local_bury (laws : U.Laws) (now : Int) (name d : Text) :
    Local U .inflight (bury U now name d) := by
  intro n j m kv
  rw [bury_apply]
  split
  · refine ⟨_, _, rfl, fun n' i other => ?_⟩
    simp only [cell_insert laws, cell_erase laws, other, and_false, if_false]
  · exact ⟨_, _, rfl, fun _ _ _ => rfl⟩

/-- A loop that no key leads to the message leaves its cells as they are. -/
theorem cell_forEachMessage_of_absent (laws : U.Laws) {kv : KeyValue Stored}
    (keyed : WellKeyed U kv) {s : Slot} {name : Text} {α : Type}
    {body : Bytes → Uuid → QueueMessage → Method (Option α)} (isLocal : Local U s body) {i : Uuid}
    (absent : ∀ n, kv[slotKey U s n i]? = none) {entries : List (Bytes × Stored)}
    (scanned : entries ⊆ entriesOf s name kv) :
    ∃ results kv', forEachMessage U name body (entries.map Prod.fst) kv = (.ok results, kv') ∧
      ∀ n, cell U kv' n i = cell U kv n i :=
  forEachMessage_slots (P := fun kv' => ∀ n, cell U kv' n i = cell U kv n i) body laws keyed
    (fun n j kv' j' m there held read _ => by
      have same := messageId_slotKey laws read
      subst same
      have other : i ≠ j' := by
        rintro rfl
        rw [absent n] at there
        cases there.2
      obtain ⟨result, kv'', ran, kept⟩ := isLocal n j' m kv'
      exact ⟨result, kv'', ran, fun n' => (kept n' i other).trans (held n')⟩)
    scanned fun _ => rfl

/-! ## Methods and one identifier -/

section Methods

variable {kv : KeyValue Stored} {n : Text} {i : Uuid} {m : QueueMessage} {s : Slot}

section

variable (laws : U.Laws) (keyed : WellKeyed U kv) (now : Int)

include laws keyed now

/-- What `dequeue` does to the cells of an identifier without available entry: nothing. -/
theorem cell_dequeue (receipts : Bytes → Uuid)
    (name : Text) (maxMessages : Nat) (absent : ∀ n, kv[slotKey U .available n i]? = none) (n : Text) :
    cell U (dequeue U now receipts name maxMessages kv).2 n i = cell U kv n i := by
  by_cases opened : Open kv name
  · rw [dequeue_of_open opened]
    obtain ⟨results, kv', ran, kept⟩ := cell_forEachMessage_of_absent laws keyed
      (local_receive laws now receipts name) absent
      (List.take_subset maxMessages (entriesOf .available name kv))
    rw [ran]
    exact kept n
  · obtain ⟨e, failed⟩ := dequeue_of_not_open (U := U) now receipts maxMessages opened
    rw [failed]

theorem cell_releaseExpiredMessages (name : Text) (absent : ∀ n, kv[slotKey U .inflight n i]? = none) (n : Text) :
    cell U (releaseExpiredMessages U now name kv).2 n i = cell U kv n i := by
  rw [releaseExpiredMessages_apply]
  obtain ⟨results, kv', ran, kept⟩ := cell_forEachMessage_of_absent laws keyed
    (local_release laws now name) absent (List.Subset.refl (entriesOf .inflight name kv))
  rw [Exec.bind_of_ok ran]
  exact kept n

theorem cell_moveToDlq (name : Text) (absent : ∀ n, kv[slotKey U .inflight n i]? = none) (n : Text) :
    cell U (moveToDlq U now name kv).2 n i = cell U kv n i := by
  rcases moveToDlq_cases U now name kv with still | ⟨config, d, found, target⟩
  · rw [still]
  · rw [moveToDlq_of_some found target]
    obtain ⟨results, kv', ran, kept⟩ := cell_forEachMessage_of_absent laws keyed
      (local_bury laws now name d) absent (List.Subset.refl (entriesOf .inflight name kv))
    rw [Exec.bind_of_ok ran]
    exact kept n

end

theorem Home.absent (home : Home U kv n i m s) {s' : Slot} (index : s' ≠ .message) (other : s' ≠ s)
    (n' : Text) : kv[slotKey U s' n' i]? = none := by
  by_contra there
  exact other (home.index_eq _ index (Option.isSome_iff_ne_none.mpr there)).2

/-- Nothing of the identifier is stored. -/
def Unknown (U : UuidText) (kv : KeyValue Stored) (i : Uuid) : Prop := ∀ n s, cell U kv n i s = none

theorem Unknown.congr {kv' : KeyValue Stored} (unknown : Unknown U kv i)
    (same : ∀ n, cell U kv' n i = cell U kv n i) : Unknown U kv' i := by
  intro n s
  rw [same, unknown n s]

section

variable (home : Home U kv n i m s) (laws : U.Laws) (keyed : WellKeyed U kv)

include home laws keyed

theorem Home.dequeue (now : Int) (receipts : Bytes → Uuid) (name : Text) (maxMessages : Nat) :
    ∃ m' s', Home U (dequeue U now receipts name maxMessages kv).2 n i m' s' := by
  by_cases opened : Open kv name
  · rw [dequeue_of_open opened]
    obtain ⟨results, kv', ran, kept⟩ := forEachMessage_slots (s := .available)
      (P := fun kv' => ∃ m' s', Home U kv' n i m' s') (receive U now receipts name) laws keyed
      (fun n' j kv' j' m₁ there held read found => by
        have same := messageId_slotKey laws read
        subst same
        obtain ⟨m', s', here⟩ := held
        by_cases own : i = j'
        · subst own
          obtain ⟨rfl, rfl⟩ := here.message_eq found
          obtain ⟨rfl, -⟩ := home.index_eq .available (by decide) there.2
          rw [receive_apply]
          split
          · refine ⟨_, _, rfl, m₁.markReceived now (U.display (receipts (slotKey U .available n' i))),
              .inflight, here.move (.inr rfl) ⟨?_, ?_⟩ ?_⟩
            · simp [cell_insert laws, cell_erase laws, Function.update]
            · simp only [cell_insert laws, cell_erase laws, and_self, if_true]
              refine (here.holds.write _).move (by decide) (by decide) ?_ _
              exact here.usual.imp Eq.symm Eq.symm
            · intro n'' other
              simp only [cell_insert laws, cell_erase laws, other, false_and, if_false]
          · exact ⟨_, _, rfl, m₁, s', here⟩
        · obtain ⟨result, kv'', ran, kept⟩ := local_receive laws now receipts name n' j' m₁ kv'
          exact ⟨result, kv'', ran, m', s', here.congr fun n'' => kept n'' i own⟩)
      (List.take_subset maxMessages (entriesOf .available name kv)) ⟨m, s, home⟩
    rw [ran]
    exact kept
  · obtain ⟨e, failed⟩ := dequeue_of_not_open (U := U) now receipts maxMessages opened
    rw [failed]
    exact ⟨m, s, home⟩

/-- `release_expired_messages` leaves a message at home, and makes it available if it
is due in that queue. -/
theorem Home.release (now : Int) (name : Text) : ∃ s', Home U (releaseExpiredMessages U now name kv).2 n i m s' ∧
      (s = .available → s' = .available) ∧
      (name = n → Due now m → messageId U (slotKey U .inflight n i) = some i → s' = .available) := by
  rcases home.usual with rfl | rfl
  · refine ⟨.available, home.congr fun n' => ?_, fun _ => rfl, fun _ _ _ => rfl⟩
    exact cell_releaseExpiredMessages laws keyed now name (home.absent (by decide) (by decide)) n'
  · rw [releaseExpiredMessages_apply]
    obtain ⟨results, kv', ran, -, kept⟩ := forEachMessage_spec (Queue.release U now name)
      (P := fun keys _ kv' => (∀ key ∈ keys, ∃ n' j, key = slotKey U .inflight n' j ∧
          (kv[slotKey U .inflight n' j]?).isSome) ∧
        (Home U kv' n i m .available ∨ Home U kv' n i m .inflight ∧ (name = n → Due now m →
          messageId U (slotKey U .inflight n i) = some i → slotKey U .inflight n i ∈ keys)))
      (fun key keys done kv' held nothing => by
        refine ⟨fun key member => held.1 key (.tail _ member), held.2.imp id fun inflight => ?_⟩
        refine ⟨inflight.1, fun here due read => ?_⟩
        rcases List.mem_cons.mp (inflight.2 here due read) with same | later
        · subst here
          exact absurd inflight.1.stored (nothing i m (same ▸ read))
        · exact later)
      (fun key keys done kv' j' m₁ held read found => by
        obtain ⟨n', j, rfl, there⟩ := held.1 key (.head _)
        have same := messageId_slotKey laws read
        subst same
        have later := fun key (member : key ∈ keys) => held.1 key (.tail _ member)
        by_cases own : i = j'
        · subst own
          obtain ⟨rfl, -⟩ := home.index_eq .inflight (by decide) there
          rw [release_apply]
          split
          · have ready : ∀ s', Home U kv' n' i m s' → (s' = .available ∨ s' = .inflight) →
                Home U ((kv'.erase (slotKey U .inflight n' i)).insert (slotKey U .available name i)
                  .empty) n' i m .available := by
              intro s' here usual
              obtain ⟨rfl, rfl⟩ := here.message_eq found
              refine here.move (.inl rfl) ⟨?_, ?_⟩ ?_
              · simpa [cell_insert laws, cell_erase laws, Function.update] using here.stored
              · simp only [cell_insert laws, cell_erase laws, and_self, if_true]
                exact here.holds.move (by decide) (by decide) (usual.symm.imp Eq.symm Eq.symm) _
              · intro n'' other
                simp only [cell_insert laws, cell_erase laws, other, false_and, if_false]
            refine ⟨_, _, rfl, later, .inl ?_⟩
            rcases held.2 with here | here
            · exact ready _ here (.inl rfl)
            · exact ready _ here.1 (.inr rfl)
          · rename_i notDue
            refine ⟨_, _, rfl, later, held.2.imp id fun inflight => ⟨inflight.1, fun here due read => ?_⟩⟩
            obtain ⟨-, rfl⟩ := inflight.1.message_eq found
            exact absurd due notDue
        · obtain ⟨result, kv'', ran, kept⟩ := local_release laws now name n' j' m₁ kv'
          refine ⟨result, kv'', ran, later, held.2.imp (fun here => here.congr fun n'' => kept n'' i own)
            fun inflight => ⟨inflight.1.congr fun n'' => kept n'' i own, fun here due read => ?_⟩⟩
          rcases List.mem_cons.mp (inflight.2 here due read) with same | later
          · exact absurd ((slotKey_inj laws).mp same).2.2 own
          · exact later)
      ((entriesOf .inflight name kv).map Prod.fst) [] kv ⟨fun key member => by
        obtain ⟨e, inEntries, rfl⟩ := List.mem_map.mp member
        obtain ⟨n', j, same, -, found⟩ := keyed.entry laws inEntries
        exact ⟨n', j, same, by rw [found]; rfl⟩, .inr ⟨home, fun here _ _ => by
          subst here
          obtain ⟨v, found⟩ := Option.isSome_iff_exists.mp ((home.holds.2 .inflight).mpr (.inr rfl))
          exact List.mem_map.mpr ⟨(slotKey U .inflight name i, v),
            (slotKey_mem_entriesOf laws).mpr ⟨found, rfl, .refl name⟩, rfl⟩⟩⟩
    rw [Exec.bind_of_ok ran]
    rcases kept with here | here
    · exact ⟨.available, here, fun _ => rfl, fun _ _ _ => rfl⟩
    · exact ⟨.inflight, here.1, (fun never => by cases never),
        fun same due read => by cases here.2 same due read⟩

/-- `move_to_dlq` leaves a message at home that is not spent in flight in that queue. -/
theorem Home.moveToDlq (now : Int)
    (name : Text) (alive : s = .inflight → name = n → (dlqOf kv name).isSome → ¬ Spent now m) :
    Home U (moveToDlq U now name kv).2 n i m s := by
  rcases home.usual with rfl | rfl
  · exact home.congr (cell_moveToDlq laws keyed now name (home.absent (by decide) (by decide)))
  rcases moveToDlq_cases U now name kv with still | ⟨config, d, configured, target⟩
  · rw [still]
    exact home
  · have hasDlq : (dlqOf kv name).isSome := by
      rw [dlqOf, configured]
      exact Option.isSome_iff_exists.mpr ⟨d, target⟩
    rw [moveToDlq_of_some configured target]
    obtain ⟨results, kv', ran, kept⟩ := forEachMessage_slots (s := .inflight)
      (P := fun kv' => Home U kv' n i m .inflight) (bury U now name d) laws keyed
      (fun n' j kv' j' m₁ there held read found => by
        have same := messageId_slotKey laws read
        subst same
        by_cases own : i = j'
        · subst own
          obtain ⟨rfl, rfl⟩ := held.message_eq found
          rw [bury_apply, if_neg (alive rfl rfl hasDlq)]
          exact ⟨_, _, rfl, held⟩
        · obtain ⟨result, kv'', ran, kept⟩ := local_bury laws now name d n' j' m₁ kv'
          exact ⟨result, kv'', ran, held.congr fun n'' => kept n'' i own⟩)
      (List.Subset.refl (entriesOf .inflight name kv)) home
    rw [Exec.bind_of_ok ran]
    exact kept

/-- `purge_expired_messages` leaves a message at home that has not expired. -/
theorem Home.purgeExpiredMessages {now : Int} (alive : m.hasExpired now = false) (name : Text) :
    Home U (purgeExpiredMessages U now name kv).2 n i m s := by
  refine home.congr fun n' => ?_
  rw [purgeExpiredMessages_snd]
  funext s'
  rw [cell_runDeletes, if_neg]
  intro member
  obtain ⟨n'', m', -, found, expired, -⟩ := (mem_allExpiredKeys laws keyed).mp member
  obtain ⟨-, rfl⟩ := home.message_eq found
  rw [alive] at expired
  cases expired

end

theorem Home.nack (home : Home U kv n i m s) (laws : U.Laws) (now : Int) (name receipt : Text) :
    ∃ m' s', Home U (nack U now name receipt kv).2 n i m' s' := by
  rw [nack_snd]
  cases U.parseStr (utf8 receipt) with
  | none => exact ⟨m, s, home⟩
  | some j =>
    simp only
    split
    · rename_i m₁ found
      by_cases own : i = j
      · subst own
        obtain ⟨rfl, rfl⟩ := home.message_eq found
        refine ⟨nacked now m₁, .available, home.move (.inl rfl) ⟨?_, ?_⟩ ?_⟩
        · simp [cell_insert laws, cell_erase laws, Function.update]
        · simp only [cell_insert laws, cell_erase laws, and_self, if_true]
          refine (home.holds.write _).move (by decide) (by decide) ?_ _
          exact home.usual.symm.imp Eq.symm Eq.symm
        · intro n' other
          simp only [cell_insert laws, cell_erase laws, other, false_and, if_false]
      · refine ⟨m, s, home.congr fun n' => ?_⟩
        simp only [cell_insert laws, cell_erase laws, own, and_false, if_false]
    · exact ⟨m, s, home⟩

theorem Unknown.nack (unknown : Unknown U kv i) (laws : U.Laws) (now : Int) (name receipt : Text) :
    Unknown U (nack U now name receipt kv).2 i := by
  rw [nack_snd]
  cases U.parseStr (utf8 receipt) with
  | none => exact unknown
  | some j =>
    simp only
    split
    · rename_i m₁ found
      have own : i ≠ j := by
        rintro rfl
        have absent := unknown name .message
        rw [cell, found] at absent
        cases absent
      refine unknown.congr fun n' => ?_
      simp only [cell_insert laws, cell_erase laws, own, and_false, if_false]
    · exact unknown

theorem Unknown.enqueue (unknown : Unknown U kv m.id) (laws : U.Laws) {now : Int}
    (opened : Open kv m.queueName) (index : enqueueSlot now m = .available) :
    Home U (enqueue U now m kv).2 m.queueName m.id m .available := by
  rw [enqueue_of_open _ opened, index]
  refine ⟨?_, ?_, .inl rfl, fun n' other s' => ?_⟩
  · simp [cell_insert laws, Function.update]
  · simp only [cell_insert laws, and_self, if_true]
    exact Cell.holds_store (by decide) (fun s' _ _ => unknown m.queueName s') _ _
  · simp only [cell_insert laws, other, false_and, if_false]
    exact unknown n' s'

/-- An enqueued message leaves the cells of other identifiers alone. -/
theorem cell_enqueue (laws : U.Laws) (now : Int) (other : i ≠ m.id) (kv : KeyValue Stored) (n : Text) :
    cell U (Queue.enqueue U now m kv).2 n i = cell U kv n i := by
  by_cases opened : Open kv m.queueName
  · rw [enqueue_of_open _ opened]
    simp only [cell_insert laws, other, and_false, if_false]
  · rw [enqueue_of_not_open opened]

end Methods

/-! ## Delivery -/

section Delivery

variable {kv : KeyValue Stored} {n : Text} {i : Uuid} {m : QueueMessage}

section

variable (laws : U.Laws)

include laws

/-- A poll of the whole queue hands out a visible message at home there. -/
theorem poll_delivers (keyed : WellKeyed U kv) (opened : Open kv n)
    (home : Home U kv n i m .available) (readable : messageId U (slotKey U .available n i) = some i)
    {now : Int} (visible : m.isVisible now = true) (receipts : Bytes → Uuid) :
    ∃ r ∈ returned (dequeue U now receipts n (entriesOf .available n kv).length kv).1, r.id = i := by
  have named : m.id = i := by
    obtain ⟨m', same, -, id⟩ := keyed.message laws home.stored
    cases same
    exact id
  rw [dequeue_of_open opened, List.take_length]
  obtain ⟨results, kv', ran, -, handed | later⟩ := forEachMessage_spec
    (receive U now receipts n)
    (P := fun keys done kv' => (∀ key ∈ keys, ∃ n' j, key = slotKey U .available n' j) ∧
      ((∃ r ∈ done, r.id = i) ∨
        slotKey U .available n i ∈ keys ∧ kv'[slotKey U .message n i]? = some (.message m)))
    (fun key keys done kv' held nothing => by
      refine ⟨fun key member => held.1 key (.tail _ member), held.2.imp id fun later => ?_⟩
      rcases List.mem_cons.mp later.1 with same | member
      · exact absurd later.2 (nothing i m (same ▸ readable))
      · exact ⟨member, later.2⟩)
    (fun key keys done kv' j' m₁ held read found => by
      obtain ⟨n', j, rfl⟩ := held.1 key (.head _)
      have same := messageId_slotKey laws read
      subst same
      have forms := fun key (member : key ∈ keys) => held.1 key (.tail _ member)
      rcases held.2 with ⟨r, member, id⟩ | ⟨member, stored⟩
      · obtain ⟨result, kv'', ran, -⟩ := local_receive laws now receipts n n' j' m₁ kv'
        exact ⟨result, kv'', ran, forms, .inl ⟨r, List.mem_append_left _ member, id⟩⟩
      by_cases own : i = j'
      · subst own
        rw [stored] at found
        cases found
        rw [receive_apply, if_pos visible]
        exact ⟨_, _, rfl, forms, .inl ⟨_, List.mem_append_right _ (List.mem_singleton.mpr rfl), named⟩⟩
      · have later : slotKey U .available n i ∈ keys := by
          rcases List.mem_cons.mp member with same | later
          · exact absurd ((slotKey_inj laws).mp same).2.2 own
          · exact later
        obtain ⟨result, kv'', ran, kept⟩ := local_receive laws now receipts n n' j' m₁ kv'
        exact ⟨result, kv'', ran, forms, .inr ⟨later, (congrFun (kept n i own) .message).trans stored⟩⟩)
    ((entriesOf .available n kv).map Prod.fst) [] kv ⟨fun key member => by
      obtain ⟨e, inEntries, rfl⟩ := List.mem_map.mp member
      obtain ⟨n', j, same, -, -⟩ := keyed.entry laws inEntries
      exact ⟨n', j, same⟩, .inr ⟨by
        obtain ⟨v, found⟩ := Option.isSome_iff_exists.mp ((home.holds.2 .available).mpr (.inr rfl))
        exact List.mem_map.mpr ⟨(slotKey U .available n i, v),
          (slotKey_mem_entriesOf laws).mpr ⟨found, rfl, .refl n⟩, rfl⟩, home.stored⟩⟩
  · rw [ran]
    exact handed
  · cases later.1

/-- What a pass keeps of a message at home, and whether it is available by now. -/
structure Kept (U : UuidText) (start : KeyValue Stored) (n : Text) (i : Uuid) (m : QueueMessage)
    (available : Prop) (kv : KeyValue Stored) : Prop where
  keyed : WellKeyed U kv
  configs : SameConfigs start kv
  home : ∃ s, Home U kv n i m s ∧ (available → s = .available)

/-- One queue of a pass: its own messages that are due become available. -/
theorem Kept.scanQueue {start : KeyValue Stored} {available : Prop}
    (kept : Kept U start n i m available kv) {now : Int} (due : Due now m)
    (readable : ∀ s, messageId U (slotKey U s n i) = some i) (enableDlq : Bool) (name : Text) :
    Kept U start n i m (available ∨ name = n) (scanQueue U enableDlq now name kv).2 := by
  obtain ⟨keyed, configs, s, home, ready⟩ := kept
  rw [scanQueue_apply]
  obtain ⟨s₁, home₁, stays, becomes⟩ := home.release laws keyed now name
  have keyed₁ := keyed.releaseExpiredMessages now name
  have configs₁ := configs.trans (.releaseExpiredMessages laws keyed now name)
  have ready₁ : available ∨ name = n → s₁ = .available := by
    rintro (already | same)
    · exact stays (ready already)
    · exact becomes same due (readable _)
  -- what the queue's own step has released is not in flight any more
  have home₂ := home₁.moveToDlq laws keyed₁ now name fun inflight same _ => by
    rw [ready₁ (.inr same)] at inflight
    cases inflight
  have keyed₂ := keyed₁.moveToDlq laws now name
  have configs₂ := configs₁.trans (.moveToDlq laws keyed₁ now name)
  cases enableDlq with
  | true => exact ⟨keyed₂.purgeExpiredMessages now name,
      configs₂.trans (.purgeExpiredMessages laws keyed₂ now name), s₁,
      home₂.purgeExpiredMessages laws keyed₂ due.2 name, ready₁⟩
  | false => exact ⟨keyed₁.purgeExpiredMessages now name,
      configs₁.trans (.purgeExpiredMessages laws keyed₁ now name), s₁,
      home₁.purgeExpiredMessages laws keyed₁ due.2 name, ready₁⟩

theorem Kept.scanQueues {start : KeyValue Stored} {available : Prop}
    (kept : Kept U start n i m available kv) {now : Int} (due : Due now m)
    (readable : ∀ s, messageId U (slotKey U s n i) = some i) (enableDlq : Bool)
    (queues : List QueueSummary) :
    Kept U start n i m (available ∨ n ∈ queues.map QueueSummary.name)
      (scanQueues U enableDlq now queues kv).2 := by
  induction queues generalizing kv available with
  | nil => exact ⟨kept.keyed, kept.configs, kept.home.imp fun s here =>
    ⟨here.1, fun either => here.2 (either.resolve_right fun absent => by cases absent)⟩⟩
  | cons summary queues ih =>
    have first := kept.scanQueue laws due readable enableDlq summary.name
    have ran : Queue.scanQueue U enableDlq now summary.name kv =
        (.ok (), (Queue.scanQueue U enableDlq now summary.name kv).2) := by rw [scanQueue_apply]
    rw [Queue.scanQueues, Exec.bind_of_ok ran]
    have rest := ih first
    refine ⟨rest.keyed, rest.configs, rest.home.imp fun s here => ⟨here.1, fun either => here.2 ?_⟩⟩
    rcases either with already | listed
    · exact .inl (.inl already)
    · rcases List.mem_cons.mp listed with same | later
      · exact .inl (.inr same.symm)
      · exact .inr later

/-- **After a pass a message at home that is due is available.** -/
theorem home_scanAll {s : Slot} (keyed : WellKeyed U kv) (opened : Open kv n)
    (home : Home U kv n i m s) (readable : ∀ s, messageId U (slotKey U s n i) = some i) {now : Int}
    (due : Due now m) (enableDlq : Bool) :
    Kept U kv n i m True (scanAll U enableDlq now kv).2 := by
  obtain ⟨queues, listed, names⟩ := listQueues_apply kv
  rw [scanAll, Exec.bind_of_ok listed]
  have start : Kept U kv n i m False kv := ⟨keyed, .refl kv, s, home, fun never => never.elim⟩
  have passed := start.scanQueues laws due readable enableDlq queues
  refine ⟨passed.keyed, passed.configs, passed.home.imp fun s here => ⟨here.1, fun _ => here.2 (.inr ?_)⟩⟩
  obtain ⟨config, found, -⟩ := opened
  obtain ⟨config', same, named⟩ := keyed.config found
  cases same
  subst named
  rw [names]
  exact List.mem_map.mpr ⟨config, mem_configsOf found, rfl⟩

/-- **A message at home in an open queue can be had.** -/
theorem deliverable_of_home {s : Slot} (keyed : WellKeyed U kv) (opened : Open kv n)
    (home : Home U kv n i m s) (readable : ∀ s, messageId U (slotKey U s n i) = some i) :
    Deliverable U kv m := by
  intro enableDlq now receipts ready alive
  have named : m.id = i := by
    obtain ⟨m', same, -, id⟩ := keyed.message laws home.stored
    cases same
    exact id
  have visible : m.isVisible now = true := by
    rw [QueueMessage.isVisible, Bool.and_eq_true]
    refine ⟨by simpa using ready, ?_⟩
    rw [QueueMessage.hasExpired] at alive
    cases expires : m.expiresAt with
    | none => rfl
    | some e =>
      rw [expires] at alive
      simpa using alive
  obtain ⟨keyed', configs, s', home', available⟩ :=
    home_scanAll laws keyed opened home readable ⟨ready, alive⟩ enableDlq
  cases available trivial
  obtain ⟨r, member, id⟩ := poll_delivers laws keyed' (configs.openAt.mpr opened) home' (readable _)
    visible receipts
  exact ⟨[.pass, .poll n _], r, List.mem_append_left _ member, id.trans named.symm⟩

end

end Delivery

/-! ## Runs -/

/-- The invariant: every accepted message is at home in an open queue that reads its
identifier, and nothing is stored of any other. -/
structure Housed (U : UuidText) (s : Retention) : Prop where
  keyed : WellKeyed U s.store
  unknown : ∀ i, i ∉ s.accepted → Unknown U s.store i
  homes : ∀ i ∈ s.accepted, ∃ n m t, Home U s.store n i m t ∧ Open s.store n ∧
    messageId U (slotKey U .available n i) = some i

namespace Housed

variable {s : Retention}

section

variable (housed : Housed U s)

include housed

theorem retained (laws : U.Laws) : Retained U s := by
  intro i member
  obtain ⟨n, m, t, home, opened, read⟩ := housed.homes i member
  refine ⟨⟨n, (home.holds.2 .message).mpr (.inl rfl), fun n' stored => ?_⟩, fun n' m' found => ?_⟩
  · exact home.queue_eq .message stored
  · obtain ⟨rfl, rfl⟩ := home.message_eq found
    obtain ⟨back, -, same⟩ := messageId_slotKey_eq U n' i
    exact deliverable_of_home laws housed.keyed opened home fun t => by rw [same, ← same .available, read]

/-- A call that accepts nothing and leaves messages at home. -/
theorem carry {store : KeyValue Stored} (keyed : WellKeyed U store) (configs : SameConfigs s.store store)
    (unknown : ∀ i, i ∉ s.accepted → Unknown U s.store i → Unknown U store i)
    (homes : ∀ i n m t, Home U s.store n i m t → ∃ m' t', Home U store n i m' t') :
    Housed U ⟨store, s.accepted⟩ where
  keyed := keyed
  unknown i other := unknown i other (housed.unknown i other)
  homes i member := by
    obtain ⟨n, m, t, home, opened, read⟩ := housed.homes i member
    obtain ⟨m', t', home'⟩ := homes i n m t home
    exact ⟨n, m', t', home', configs.openAt.mpr opened, read⟩

theorem enqueue (laws : U.Laws) (now : Int) (m : QueueMessage)
    (gentle : Gentle U s (.enqueue now m)) : Housed U (s.step U (.enqueue now m)) := by
  by_cases opened : Open s.store m.queueName
  · obtain ⟨fresh, index, read⟩ := gentle opened
    have keyed := housed.keyed.enqueue now m
    have configs := SameConfigs.enqueue (U := U) s.store now m
    have home := (housed.unknown m.id fresh).enqueue laws opened index
    have same := fun i (other : i ≠ m.id) => cell_enqueue laws now other s.store
    have ran := enqueue_of_open (U := U) now opened
    rw [Retention.step, ran]
    rw [ran] at keyed configs home same
    refine ⟨keyed, fun i other => ?_, fun i member => ?_⟩
    · have notNew : i ≠ m.id := fun here => other (here ▸ .head _)
      have notOld : i ∉ s.accepted := fun here => other (.tail _ here)
      exact (housed.unknown i notOld).congr (same i notNew)
    · by_cases new : i = m.id
      · subst new
        exact ⟨m.queueName, m, .available, home, configs.openAt.mpr opened, read⟩
      · obtain ⟨n, m', t, home', opened', read'⟩ :=
          housed.homes i ((List.mem_cons.mp member).resolve_left new)
        exact ⟨n, m', t, home'.congr (same i new), configs.openAt.mpr opened', read'⟩
  · obtain ⟨e, failed⟩ := enqueue_fails (U := U) now opened
    rw [Retention.step, failed]
    exact housed

theorem step (laws : U.Laws) {call : RetentionCall} (gentle : Gentle U s call) : Housed U (s.step U call) := by
  have absent : ∀ {i}, Unknown U s.store i → ∀ t n, s.store[slotKey U t n i]? = none :=
    fun unknown t n => unknown n t
  have keyed := housed.keyed
  cases call with
  | enqueue now m => exact housed.enqueue laws now m gentle
  | dequeue now receipts name maxMessages =>
    refine housed.carry (keyed.dequeue laws now receipts name maxMessages)
      (.dequeue laws keyed now receipts name maxMessages) (fun i _ unknown => ?_)
      fun i n m t home => home.dequeue laws keyed now receipts name maxMessages
    exact unknown.congr (cell_dequeue laws keyed now receipts name maxMessages (absent unknown _))
  | nack now name receipt =>
    exact housed.carry (keyed.nack laws now name receipt) (.nack s.store now name receipt)
      (fun i _ unknown => unknown.nack laws now name receipt)
      fun i n m t home => home.nack laws now name receipt
  | releaseExpiredMessages now name =>
    refine housed.carry (keyed.releaseExpiredMessages now name)
      (.releaseExpiredMessages laws keyed now name) (fun i _ unknown => ?_) fun i n m t home => ?_
    · exact unknown.congr (cell_releaseExpiredMessages laws keyed now name (absent unknown _))
    · obtain ⟨t', home', -⟩ := home.release laws keyed now name
      exact ⟨m, t', home'⟩
  | moveToDlq now name =>
    refine housed.carry (keyed.moveToDlq laws now name) (.moveToDlq laws keyed now name)
      (fun i _ unknown => ?_) fun i n m t home => ⟨m, t, home.moveToDlq laws keyed now name ?_⟩
    · exact unknown.congr (cell_moveToDlq laws keyed now name (absent unknown _))
    · rintro rfl rfl hasDlq
      exact gentle i m hasDlq ((home.holds.2 .inflight).mpr (.inr rfl)) home.stored

end

end Housed

/-- **Between gentle calls every accepted message is retained**, whatever queues a run
begins with. -/
theorem retained_run (laws : U.Laws) (configs : List IndividualQueueConfig)
    (calls : List RetentionCall)
    (gentle : Run.Each (Retention.step U) (Gentle U) ⟨created U configs, []⟩ calls) :
    ∀ s ∈ Run.states (Retention.step U) ⟨created U configs, []⟩ calls, Retained U s := by
  have housed := Run.Each.invariant (I := Housed U) (fun s call held meets => held.step laws meets)
    ⟨wellKeyed_created laws configs, fun i _ n t => cell_created configs n i t,
      fun i absent => by cases absent⟩ gentle
  exact fun s member => (housed s member).retained laws

theorem retained_run_sample : Run.Always (Retention.step .hyphenated) (Retained .hyphenated)
    ⟨created .hyphenated [dlqConfig], []⟩
    [.enqueue 0 sampleMessage, .dequeue 5 (fun _ => 2) ['q'] 10, .nack 6 ['q'] (displayUuid 1)] := by
  refine retained_run UuidText.laws_hyphenated _ _ ⟨fun _ => ?_, trivial, trivial, trivial⟩
  exact ⟨by decide, by decide, messageId_slotKey_of_simple UuidText.laws_hyphenated .available
    (by decide) 1⟩

/-- A queue that is its own dead-letter queue. -/
def selfConfig : IndividualQueueConfig := { IndividualQueueConfig.new 0 ['q'] with dlqName := some ['q'] }

/-- **Not every run retains all messages**: a queue that is its own dead-letter queue
loses the message it buries. -/
theorem not_retained_run : ¬ ∀ (U : UuidText), U.Laws → ∀ (configs : List IndividualQueueConfig)
    (calls : List RetentionCall),
    ∀ s ∈ Run.states (Retention.step U) ⟨created U configs, []⟩ calls, Retained U s := by
  intro all
  let calls : List RetentionCall := [.enqueue 0 onceMessage, .dequeue 5 (fun _ => 2) ['q'] 10,
    .moveToDlq 30005 ['q']]
  let last := calls.foldl (Retention.step .hyphenated) ⟨created .hyphenated [selfConfig], []⟩
  have held := all .hyphenated UuidText.laws_hyphenated [selfConfig] calls last
    (Run.foldl_mem_states _ _)
  obtain ⟨n, stored, -⟩ := (held 1 (by decide +kernel)).1
  obtain ⟨v, found⟩ := Option.isSome_iff_exists.mp stored
  rw [queueMsgKey_eq] at found
  have keys : last.store.toList.map Prod.fst =
      [slotKey .hyphenated .dlq ['q'] 1, queueMetaKey ['q']] := by decide +kernel
  have member := List.mem_map_of_mem (f := Prod.fst) (Std.TreeMap.mem_toList_iff_getElem?_eq_some.mpr found)
  rw [keys] at member
  rcases List.mem_cons.mp member with same | other
  · exact absurd ((slotKey_inj UuidText.laws_hyphenated).mp same).1 (by decide)
  · exact slotKey_ne_meta _ .message n 1 ['q'] (List.mem_singleton.mp other)

end NovaRuntime.Queue
