/-
# NovaRuntime.Queue.Receipts — what a receipt handle is good for

Every delivery draws an identifier for its receipt handle. `ack` and `nack` read the handle as
the identifier of a message, which the drawn one never was meant to be. `works_iff` says when
handles work all the same: as long as what is drawn for a message in flight is the identifier
of that message, and what was drawn for an earlier delivery names no message of the queue.
-/
import NovaRuntime.Queue.Deliveries

namespace NovaRuntime.Queue

open NovaRuntime.Library

set_option autoImplicit false

/-! ## Handles -/

/-- A message that `dequeue` returned, and when and from which queue. -/
structure Delivery where
  time : Int
  queueName : Text
  message : QueueMessage
  deriving DecidableEq

/-- The store, and what has been handed out, in order. -/
structure Handed where
  store : KeyValue Stored
  deliveries : List Delivery

/-- The deliveries among the messages a call returned. -/
def QueueCall.deliveries : QueueCall → List QueueMessage → List Delivery
  | .dequeue now _ queueName _, messages => messages.map fun m => ⟨now, queueName, m⟩
  | _, _ => []

def Handed.step (U : UuidText) (s : Handed) (call : QueueCall) : Handed :=
  { store := call.step U s.store
    deliveries := s.deliveries ++ call.deliveries (returned (call.perform U s.store).1) }

/-- An empty store. -/
def Handed.start : Handed := { store := ∅, deliveries := [] }

/-- The message is stored as it was handed out. -/
def Current (U : UuidText) (kv : KeyValue Stored) (d : Delivery) : Prop :=
  kv[queueMsgKey U d.queueName d.message.id]? = some (.message d.message)

/-- The store without the message. -/
def acked (U : UuidText) (queueName : Text) (id : Uuid) (kv : KeyValue Stored) : KeyValue Stored :=
  (kv.erase (queueMsgKey U queueName id)).erase (queueInflightKey U queueName id)

/-- The store with the message available again. -/
def requeued (U : UuidText) (now : Int) (queueName : Text) (m : QueueMessage) (kv : KeyValue Stored) :
    KeyValue Stored :=
  ((kv.insert (queueMsgKey U queueName m.id) (.message (nacked now m))).erase
    (queueInflightKey U queueName m.id)).insert (queueAvailableKey U queueName m.id) .empty

/-- Before the timeout, the handle acknowledges this message or gives it back. -/
def Honoured (U : UuidText) (kv : KeyValue Stored) (d : Delivery) : Prop :=
  ∃ handle, d.message.receiptHandle = some handle ∧
    ack U d.queueName handle kv = (.ok (), acked U d.queueName d.message.id kv) ∧
    ∀ now, d.time ≤ now → now < d.message.visibleAt →
      nack U now d.queueName handle kv = (.ok (), requeued U now d.queueName d.message kv)

/-- The handle is refused, and nothing changes. -/
def Rejected (U : UuidText) (kv : KeyValue Stored) (d : Delivery) : Prop :=
  ∀ handle, d.message.receiptHandle = some handle →
    (∃ e, ack U d.queueName handle kv = (.err e, kv)) ∧
      ∀ now, ∃ e, nack U now d.queueName handle kv = (.err e, kv)

def SameMessage (d d' : Delivery) : Prop := d.queueName = d'.queueName ∧ d.message.id = d'.message.id

/-- The handle of a message in flight works, and that of an earlier delivery no longer does. -/
structure Works (U : UuidText) (s : Handed) : Prop where
  inFlight : ∀ d ∈ s.deliveries, Current U s.store d → d.time < d.message.visibleAt → Honoured U s.store d
  redelivered : s.deliveries.Pairwise fun d d' => SameMessage d d' → Rejected U s.store d

/-- The identifier that was drawn for the handle. -/
def drawn (U : UuidText) (m : QueueMessage) : Option Uuid := m.receiptHandle.bind fun handle => U.parseStr (utf8 handle)

/-- What is drawn for a message in flight is its own identifier, and what was drawn for an
earlier delivery is no message's. -/
structure OwnIds (U : UuidText) (s : Handed) : Prop where
  inFlight : ∀ d ∈ s.deliveries, Current U s.store d → d.time < d.message.visibleAt →
    drawn U d.message = some d.message.id
  redelivered : s.deliveries.Pairwise fun d d' => SameMessage d d' →
    ∀ i, drawn U d.message = some i → s.store[queueMsgKey U d.queueName i]? = none

variable {U : UuidText}
variable {kv : KeyValue Stored}

/-! ## What `ack` and `nack` answer -/

section Answers

variable {queueName handle : Text} {i : Uuid} {kv : KeyValue Stored}

theorem ack_of_stored (parsed : U.parseStr (utf8 handle) = some i) {v : Stored}
    (stored : kv[queueMsgKey U queueName i]? = some v) :
    ack U queueName handle kv = (.ok (), acked U queueName i kv) := by
  rw [ack, parsed]
  simp only [Exec.bind_apply, KeyValue.get_apply, stored]
  rfl

theorem ack_refused (unknown : ∀ i, U.parseStr (utf8 handle) = some i → kv[queueMsgKey U queueName i]? = none) :
    ∃ e, ack U queueName handle kv = (.err e, kv) := by
  rw [ack]
  cases parsed : U.parseStr (utf8 handle) with
  | none => exact ⟨_, rfl⟩
  | some i =>
    simp only [Exec.bind_apply, KeyValue.get_apply, unknown i parsed]
    exact ⟨_, rfl⟩

theorem nack_of_stored (parsed : U.parseStr (utf8 handle) = some i) {m : QueueMessage} (own : m.id = i)
    (stored : kv[queueMsgKey U queueName i]? = some (.message m)) (now : Int) :
    nack U now queueName handle kv = (.ok (), requeued U now queueName m kv) := by
  subst own
  rw [nack, parsed]
  simp only [Exec.bind_apply, KeyValue.get_apply, stored]
  rfl

theorem nack_refused (unknown : ∀ i, U.parseStr (utf8 handle) = some i → kv[queueMsgKey U queueName i]? = none)
    (now : Int) : ∃ e, nack U now queueName handle kv = (.err e, kv) := by
  rw [nack]
  cases parsed : U.parseStr (utf8 handle) with
  | none => exact ⟨_, rfl⟩
  | some i =>
    simp only [Exec.bind_apply, KeyValue.get_apply, unknown i parsed]
    exact ⟨_, rfl⟩

/-- An acknowledgement that succeeds is one of a stored message. -/
theorem stored_of_ack {kv' : KeyValue Stored} (done : ack U queueName handle kv = (.ok (), kv')) :
    ∃ i v, U.parseStr (utf8 handle) = some i ∧ kv[queueMsgKey U queueName i]? = some v ∧
      kv' = acked U queueName i kv := by
  by_cases known : ∃ i v, U.parseStr (utf8 handle) = some i ∧ kv[queueMsgKey U queueName i]? = some v
  · obtain ⟨i, v, parsed, stored⟩ := known
    rw [ack_of_stored parsed stored] at done
    exact ⟨i, v, parsed, stored, (Prod.mk.inj done).2.symm⟩
  · have unknown : ∀ i, U.parseStr (utf8 handle) = some i → kv[queueMsgKey U queueName i]? = none := fun i parsed =>
      Option.eq_none_iff_forall_ne_some.mpr fun v stored => known ⟨i, v, parsed, stored⟩
    obtain ⟨e, refused⟩ := ack_refused unknown
    rw [refused] at done
    cases (Prod.mk.inj done).1

end Answers

/-- **The handle of a message in flight works** exactly if it is the message's identifier. -/
theorem honoured_iff (laws : U.Laws) {d : Delivery} (current : Current U kv d) :
    Honoured U kv d ↔ drawn U d.message = some d.message.id := by
  constructor
  · rintro ⟨handle, has, done, -⟩
    obtain ⟨i, v, parsed, -, removed⟩ := stored_of_ack done
    -- the message that was in flight is gone, so it is the one that was acknowledged
    have gone : (acked U d.queueName i kv)[queueMsgKey U d.queueName d.message.id]? = none := by
      rw [← removed, acked, queueMsgKey_eq, queueInflightKey_eq, getElem?_erase_slot laws, getElem?_erase_slot laws]
      simp
    have same : i = d.message.id := by
      by_contra differ
      rw [acked, queueMsgKey_eq, queueInflightKey_eq, getElem?_erase_slot laws, getElem?_erase_slot laws] at gone
      simp only [reduceCtorEq, false_and, if_false, true_and, differ] at gone
      exact absurd (current.symm.trans gone) nofun
    rw [drawn, has, Option.bind_some, parsed, same]
  · intro own
    obtain ⟨handle, has, parsed⟩ := Option.bind_eq_some_iff.mp own
    exact ⟨handle, has, ack_of_stored parsed current, fun now _ _ => nack_of_stored parsed rfl current now⟩

/-- **The handle of an earlier delivery is refused** exactly if it names no message. -/
theorem rejected_iff {d : Delivery} :
    Rejected U kv d ↔ ∀ i, drawn U d.message = some i → kv[queueMsgKey U d.queueName i]? = none := by
  constructor
  · intro rejected i isDrawn
    obtain ⟨handle, has, parsed⟩ := Option.bind_eq_some_iff.mp isDrawn
    obtain ⟨e, refused⟩ := (rejected handle has).1
    refine Option.eq_none_iff_forall_ne_some.mpr fun v stored => ?_
    rw [ack_of_stored parsed stored] at refused
    cases (Prod.mk.inj refused).1
  · intro unknown handle has
    have unknown' : ∀ i, U.parseStr (utf8 handle) = some i → kv[queueMsgKey U d.queueName i]? = none :=
      fun i parsed => unknown i (by rw [drawn, has, Option.bind_some, parsed])
    exact ⟨ack_refused unknown', nack_refused unknown'⟩

/-! ## Runs -/

/-- **Receipt handles work** in every state of a run exactly if, in every state, what was drawn
for a message in flight is its identifier and what was drawn for an earlier delivery names no
message. -/
theorem works_iff (laws : U.Laws) (calls : List QueueCall) :
    (∀ s ∈ Run.states (Handed.step U) .start calls, Works U s) ↔
      ∀ s ∈ Run.states (Handed.step U) .start calls, OwnIds U s := by
  refine forall₂_congr fun s _ => ⟨fun works => ⟨?_, ?_⟩, fun own => ⟨?_, ?_⟩⟩
  · exact fun d member current before => (honoured_iff laws current).mp (works.inFlight d member current before)
  · exact works.redelivered.imp fun rejected same => rejected_iff.mp (rejected same)
  · exact fun d member current before => (honoured_iff laws current).mpr (own.inFlight d member current before)
  · exact own.redelivered.imp fun unknown same => rejected_iff.mpr (unknown same)

/-- A message is enqueued, and handed out twice. -/
def sampleCalls : List QueueCall :=
  [.createQueue sampleConfig, .enqueue 0 sampleMessage, .dequeue 5 (fun _ => 2) ['q'] 1,
    .releaseExpiredMessages 31000 ['q'], .dequeue 31000 (fun _ => 3) ['q'] 1]

theorem works_iff_sample : (∀ s ∈ Run.states (Handed.step .hyphenated) .start sampleCalls, Works .hyphenated s) ↔
    ∀ s ∈ Run.states (Handed.step .hyphenated) .start sampleCalls, OwnIds .hyphenated s :=
  works_iff UuidText.laws_hyphenated sampleCalls

/-- A handle that is drawn afresh acknowledges nothing. -/
theorem handle_refused : ¬ ∀ (U : UuidText), U.Laws → ∀ calls : List QueueCall,
    ∀ s ∈ Run.states (Handed.step U) .start calls, Works U s := by
  intro all
  let calls : List QueueCall :=
    [.createQueue sampleConfig, .enqueue 0 sampleMessage, .dequeue 5 (fun _ => 2) ['q'] 1]
  let last := calls.foldl (Handed.step .hyphenated) .start
  have works : Works .hyphenated last := all .hyphenated UuidText.laws_hyphenated calls last (Run.foldl_mem_states _ _)
  have delivered : last.deliveries = [⟨5, ['q'], sampleMessage.markReceived 5 (displayUuid 2)⟩] := by decide +kernel
  obtain ⟨handle, has, done, -⟩ := works.inFlight ⟨5, ['q'], sampleMessage.markReceived 5 (displayUuid 2)⟩
    (by rw [delivered]; exact List.mem_singleton.mpr rfl) (by unfold Current; decide +kernel) (by decide +kernel)
  cases has
  have refused : (ack .hyphenated ['q'] (displayUuid 2) last.store).1 =
      .err (.messageNotFound (displayUuid 2)) := by decide +kernel
  rw [done] at refused
  cases refused

end NovaRuntime.Queue
