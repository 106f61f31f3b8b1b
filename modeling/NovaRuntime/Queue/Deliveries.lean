/-
# NovaRuntime.Queue.Deliveries — how often a message is handed out

A queue with a dead-letter queue should hand out a message at most `max_receives`
times, and a pass of the scanner should bury what has been handed out that often
(`Bounded`). The counters of `Deliveries` are the history the property speaks of; the
backend does not see them.

`dequeue` never looks at the count. It is `nack` and the pass that put a message back
in the available index whatever its count, and the pass releases what is due before it
looks for what is spent, so it never buries a message that is still alive.
`bounded_run` names the calls between which deliveries stay bounded (`Careful`).
-/
import NovaRuntime.Queue.Partition
import NovaRuntime.Queue.Scanner
import NovaRuntime.Library.Runs

namespace NovaRuntime.Queue

open NovaRuntime.Library

set_option autoImplicit false

/-! ## Runs with counters -/

/-- The store, and how often each message of a queue has been handed out since it was
enqueued there. -/
structure Deliveries where
  store : KeyValue Stored
  handed : Text → Uuid → Nat

inductive DeliveryCall where
  | enqueue (now : Int) (message : QueueMessage)
  | dequeue (now : Int) (receipts : Bytes → Uuid) (queueName : Text) (maxMessages : Nat)
  | nack (now : Int) (queueName receiptHandle : Text)
  | scanAll (now : Int)

/-- The messages a call returned. -/
def returned (outcome : Outcome QueueError (List QueueMessage)) : List QueueMessage :=
  outcome.elim id []

/-- Start counting a message anew. -/
def restart (handed : Text → Uuid → Nat) (name : Text) (id : Uuid) : Text → Uuid → Nat :=
  fun n i => if n = name ∧ i = id then 0 else handed n i

/-- Count the messages of one `dequeue`. -/
def count (handed : Text → Uuid → Nat) (name : Text) (messages : List QueueMessage) :
    Text → Uuid → Nat :=
  fun n i => handed n i + if n = name then messages.countP (·.id = i) else 0

def Deliveries.step (U : UuidText) (s : Deliveries) : DeliveryCall → Deliveries
  | .enqueue now message =>
    let (outcome, store) := enqueue U now message s.store
    { store, handed := outcome.elim (fun _ => restart s.handed message.queueName message.id) s.handed }
  | .dequeue now receipts queueName maxMessages =>
    let (outcome, store) := dequeue U now receipts queueName maxMessages s.store
    { store, handed := count s.handed queueName (returned outcome) }
  | .nack now queueName receiptHandle =>
    { s with store := (nack U now queueName receiptHandle s.store).2 }
  | .scanAll now => { s with store := (scanAll U true now s.store).2 }

/-- The dead-letter queue a queue is configured with. -/
def dlqOf (kv : KeyValue Stored) (name : Text) : Option Text :=
  match kv[queueMetaKey name]? with
  | some (.config config) => config.dlqName
  | _ => none

/-- The message has left its queue for the dead letters of another. -/
def DeadLettered (U : UuidText) (kv : KeyValue Stored) (name dlqName : Text) (i : Uuid) : Prop :=
  (kv[queueMsgKey U dlqName i]?).isSome ∧ (kv[queueDlqKey U dlqName i]?).isSome ∧
    kv[queueMsgKey U name i]? = none

/-- What is promised of one call: no message of a queue with a dead-letter queue is
handed out more than `max_receives` times, and after a pass every such message whose
last timeout is over is a dead letter. -/
def Bounded (U : UuidText) (s : Deliveries) (call : DeliveryCall) : Prop :=
  match call with
  | .dequeue now receipts queueName maxMessages => (dlqOf s.store queueName).isSome →
      ∀ m ∈ returned (dequeue U now receipts queueName maxMessages s.store).1,
        (s.step U call).handed queueName m.id ≤ m.maxReceives.toNat
  | .scanAll now => ∀ n d i m, dlqOf s.store n = some d →
      s.store[queueMsgKey U n i]? = some (.message m) → m.maxReceives.toNat ≤ s.handed n i →
        Due now m → DeadLettered U (s.step U call).store n d i
  | _ => True

/-- The calls that keep deliveries bounded. -/
def Careful (U : UuidText) (s : Deliveries) : DeliveryCall → Prop
  | .enqueue _ message => (dlqOf s.store message.queueName).isSome → 0 < message.maxReceives
  | .dequeue _ _ queueName _ => (dlqOf s.store queueName).isSome → Aligned U .available queueName s.store
  | .nack _ queueName receiptHandle => (dlqOf s.store queueName).isSome →
      ∀ i m, U.parseStr (utf8 receiptHandle) = some i →
        s.store[queueMsgKey U queueName i]? = some (.message m) →
          s.handed queueName i < m.maxReceives.toNat
  | .scanAll now => ∀ n d i m, dlqOf s.store n = some d →
      s.store[queueMsgKey U n i]? = some (.message m) →
        (Due now m → s.handed n i < m.maxReceives.toNat) ∧
          (Spent now m → d ≠ n → s.handed d i = 0)

/-! ## The invariant -/

/-- Messages of queues with a dead-letter queue are within their bound, and strictly
where they may be handed out again. -/
def Within (U : UuidText) (dlq : Text → Option Text) (handed : Text → Uuid → Nat)
    (kv : KeyValue Stored) : Prop :=
  ∀ n i m, (dlq n).isSome → kv[slotKey U .message n i]? = some (.message m) →
    0 < m.maxReceives.toNat ∧ handed n i ≤ m.maxReceives.toNat ∧
      ((kv[slotKey U .available n i]?).isSome → handed n i < m.maxReceives.toNat)

/-- No message handed out for the last time is due; nothing that may be buried has been
handed out under its new name. -/
def Timely (U : UuidText) (dlq : Text → Option Text) (handed : Text → Uuid → Nat) (now : Int)
    (kv : KeyValue Stored) : Prop :=
  ∀ n d i m, dlq n = some d → kv[slotKey U .message n i]? = some (.message m) →
    (Due now m → handed n i < m.maxReceives.toNat) ∧ (Spent now m → d ≠ n → handed d i = 0)

variable {U : UuidText}

theorem dlqOf_congr {kv kv' : KeyValue Stored} (same : SameConfigs kv kv') : dlqOf kv' = dlqOf kv := by
  funext name
  rw [dlqOf, dlqOf, same name]

section Pass

variable {dlq : Text → Option Text} {handed : Text → Uuid → Nat} {now : Int} {kv : KeyValue Stored}

theorem Within.release (within : Within U dlq handed kv) (laws : U.Laws)
    (timely : Timely U dlq handed now kv) {n : Text} {j : Uuid} {name : Text} {i : Uuid}
    {m : QueueMessage} (found : kv[slotKey U .message name i]? = some (.message m)) (due : Due now m) :
    Within U dlq handed ((kv.erase (slotKey U .inflight n j)).insert (slotKey U .available name i) .empty) := by
  intro n' i' m' configured stored
  simp only [getElem?_insert_slot laws, getElem?_erase_slot laws, reduceCtorEq, false_and, if_false]
    at stored ⊢
  obtain ⟨positive, below, strict⟩ := within n' i' m' configured stored
  refine ⟨positive, below, fun available => ?_⟩
  by_cases here : name = n' ∧ i = i'
  · obtain ⟨rfl, rfl⟩ := here
    obtain ⟨d, target⟩ := Option.isSome_iff_exists.mp configured
    rw [found] at stored
    cases stored
    exact (timely name d i m target found).1 due
  · rw [if_neg (by simpa using here)] at available
    exact strict available

theorem Timely.release (timely : Timely U dlq handed now kv) (laws : U.Laws) {n : Text} {j : Uuid}
    {name : Text} {i : Uuid} : Timely U dlq handed now
      ((kv.erase (slotKey U .inflight n j)).insert (slotKey U .available name i) .empty) := by
  intro n' d i' m' target stored
  simp only [getElem?_insert_slot laws, getElem?_erase_slot laws, reduceCtorEq, false_and, if_false]
    at stored
  exact timely n' d i' m' target stored

/-- What a buried message leaves: it is new in its dead-letter queue. -/
theorem bury_cases (laws : U.Laws) {n : Text} {j : Uuid} {name d : Text} {i : Uuid} {v : QueueMessage}
    {n' : Text} {i' : Uuid} {m' : QueueMessage}
    (stored : ((((kv.insert (slotKey U .message d i) (.message v)).insert (slotKey U .dlq d i)
      .empty).erase (slotKey U .message name i)).erase (slotKey U .inflight n j))[slotKey U .message n' i']? =
        some (.message m')) :
    (d ≠ name ∧ n' = d ∧ i' = i ∧ m' = v) ∨ kv[slotKey U .message n' i']? = some (.message m') := by
  simp only [getElem?_insert_slot laws, getElem?_erase_slot laws, reduceCtorEq, false_and, if_false,
    true_and] at stored
  split at stored
  · cases stored
  · rename_i other
    split at stored
    · rename_i here
      obtain ⟨rfl, rfl⟩ := here
      cases stored
      exact .inl ⟨fun same => other ⟨same.symm, rfl⟩, rfl, rfl, rfl⟩
    · exact .inr stored

theorem Within.bury (within : Within U dlq handed kv) (laws : U.Laws)
    (timely : Timely U dlq handed now kv) {n : Text} {j : Uuid} {name d : Text} {i : Uuid}
    {m : QueueMessage} (found : kv[slotKey U .message name i]? = some (.message m))
    (target : dlq name = some d) (spent : Spent now m) :
    Within U dlq handed ((((kv.insert (slotKey U .message d i) (.message (buried now d m))).insert
      (slotKey U .dlq d i) .empty).erase (slotKey U .message name i)).erase (slotKey U .inflight n j)) := by
  intro n' i' m' configured stored
  rcases bury_cases laws stored with ⟨differ, rfl, rfl, rfl⟩ | stored
  · have positive := (within name i' m (by rw [target]; rfl) found).1
    have fresh := (timely name n' i' m target found).2 spent differ
    rw [fresh]
    exact ⟨positive, Nat.zero_le _, fun _ => positive⟩
  · obtain ⟨positive, below, strict⟩ := within n' i' m' configured stored
    refine ⟨positive, below, fun available => strict ?_⟩
    simpa only [getElem?_insert_slot laws, getElem?_erase_slot laws, reduceCtorEq, false_and, if_false]
      using available

theorem Timely.bury (timely : Timely U dlq handed now kv) (laws : U.Laws)
    (within : Within U dlq handed kv) {n : Text} {j : Uuid} {name d : Text} {i : Uuid}
    {m : QueueMessage} (found : kv[slotKey U .message name i]? = some (.message m))
    (target : dlq name = some d) (spent : Spent now m) :
    Timely U dlq handed now ((((kv.insert (slotKey U .message d i) (.message (buried now d m))).insert
      (slotKey U .dlq d i) .empty).erase (slotKey U .message name i)).erase (slotKey U .inflight n j)) := by
  intro n' d' i' m' target' stored
  rcases bury_cases laws stored with ⟨differ, rfl, rfl, rfl⟩ | stored
  · have positive := (within name i' m (by rw [target]; rfl) found).1
    have fresh := (timely name n' i' m target found).2 spent differ
    refine ⟨fun _ => by rw [fresh]; exact positive, fun again => ?_⟩
    have zero : m.maxReceives.toNat ≤ 0 := again.1
    omega
  · exact timely n' d' i' m' target' stored

/-- What holds throughout a pass. -/
structure Passing (U : UuidText) (start : KeyValue Stored) (handed : Text → Uuid → Nat) (now : Int)
    (kv : KeyValue Stored) : Prop where
  keyed : WellKeyed U kv
  configs : SameConfigs start kv
  within : Within U (dlqOf start) handed kv
  timely : Timely U (dlqOf start) handed now kv

variable {start : KeyValue Stored}

section

variable (laws : U.Laws) (passing : Passing U start handed now kv) (name : Text)

include laws passing name

theorem Passing.releaseExpiredMessages : Passing U start handed now (Queue.releaseExpiredMessages U now name kv).2 := by
  have keyed := passing.keyed.releaseExpiredMessages now name
  have configs := passing.configs.trans (.releaseExpiredMessages laws passing.keyed now name)
  suffices kept : Within U (dlqOf start) handed (Queue.releaseExpiredMessages U now name kv).2 ∧
      Timely U (dlqOf start) handed now (Queue.releaseExpiredMessages U now name kv).2 from
    ⟨keyed, configs, kept.1, kept.2⟩
  rw [releaseExpiredMessages_apply]
  obtain ⟨results, kv', ran, kept⟩ := forEachMessage_slots
    (P := fun kv => Within U (dlqOf start) handed kv ∧ Timely U (dlqOf start) handed now kv)
    (Queue.release U now name) laws passing.keyed (fun n j kv i m _ held _ found => by
      rw [release_apply]
      split
      · rename_i due
        exact ⟨_, _, rfl, held.1.release laws held.2 found due, held.2.release laws⟩
      · exact ⟨_, _, rfl, held⟩)
    (List.Subset.refl (entriesOf .inflight name kv)) ⟨passing.within, passing.timely⟩
  rw [Exec.bind_of_ok ran]
  exact kept

theorem Passing.moveToDlq : Passing U start handed now (Queue.moveToDlq U now name kv).2 := by
  have keyed := passing.keyed.moveToDlq laws now name
  have configs := passing.configs.trans (.moveToDlq laws passing.keyed now name)
  suffices kept : Within U (dlqOf start) handed (Queue.moveToDlq U now name kv).2 ∧
      Timely U (dlqOf start) handed now (Queue.moveToDlq U now name kv).2 from
    ⟨keyed, configs, kept.1, kept.2⟩
  rcases moveToDlq_cases U now name kv with still | ⟨config, d, found, target⟩
  · rw [still]
    exact ⟨passing.within, passing.timely⟩
  · rw [moveToDlq_of_some found target]
    have configured : dlqOf start name = some d := by
      rw [← dlqOf_congr passing.configs, dlqOf, found]
      exact target
    obtain ⟨results, kv', ran, kept⟩ := forEachMessage_slots
      (P := fun kv => Within U (dlqOf start) handed kv ∧ Timely U (dlqOf start) handed now kv)
      (Queue.bury U now name d) laws passing.keyed (fun n j kv i m _ held _ found => by
        rw [bury_apply]
        split
        · rename_i spent
          exact ⟨_, _, rfl, held.1.bury laws held.2 found configured spent,
            held.2.bury laws held.1 found configured spent⟩
        · exact ⟨_, _, rfl, held⟩)
      (List.Subset.refl (entriesOf .inflight name kv)) ⟨passing.within, passing.timely⟩
    rw [Exec.bind_of_ok ran]
    exact kept

theorem Passing.purgeExpiredMessages : Passing U start handed now (Queue.purgeExpiredMessages U now name kv).2 where
  keyed := passing.keyed.purgeExpiredMessages now name
  configs := passing.configs.trans (.purgeExpiredMessages laws passing.keyed now name)
  within n i m configured stored := by
    have kept : ∀ {key : Bytes} {v : Stored},
        (Queue.purgeExpiredMessages U now name kv).2[key]? = some v → kv[key]? = some v := by
      intro key v found
      rw [purgeExpiredMessages_snd, KeyValue.getElem?_runDeletes] at found
      split at found
      · cases found
      · exact found
    obtain ⟨positive, below, strict⟩ := passing.within n i m configured (kept stored)
    refine ⟨positive, below, fun available => strict ?_⟩
    obtain ⟨v, found⟩ := Option.isSome_iff_exists.mp available
    exact Option.isSome_iff_exists.mpr ⟨v, kept found⟩
  timely n d i m target stored := by
    rw [purgeExpiredMessages_snd, KeyValue.getElem?_runDeletes] at stored
    split at stored
    · cases stored
    · exact passing.timely n d i m target stored

end

end Pass

/-! ## Handing out -/

/-- What holds throughout a `dequeue`: `done` are the messages handed out so far. -/
structure Handing (U : UuidText) (dlq : Text → Option Text) (handed : Text → Uuid → Nat)
    (name : Text) (keys : List Bytes) (done : List QueueMessage) (kv : KeyValue Stored) : Prop where
  keyed : WellKeyed U kv
  nodup : keys.Nodup
  named : ∀ key ∈ keys, ∃ n j, key = slotKey U .available n j ∧ (kv[slotKey U .available n j]?).isSome
  aligned : (dlq name).isSome → ∀ key ∈ keys, ∀ i, messageId U key = some i →
    (kv[slotKey U .message name i]?).isSome → key = slotKey U .available name i
  within : Within U dlq (count handed name done) kv
  stored : ∀ r ∈ done, ∃ m, kv[slotKey U .message name r.id]? = some (.message m) ∧
    m.maxReceives = r.maxReceives

namespace Handing

variable {dlq : Text → Option Text} {handed : Text → Uuid → Nat} {name : Text} {key : Bytes}
  {keys : List Bytes} {done : List QueueMessage} {kv : KeyValue Stored}

theorem skip (handing : Handing U dlq handed name (key :: keys) done kv) :
    Handing U dlq handed name keys done kv where
  keyed := handing.keyed
  nodup := (List.nodup_cons.mp handing.nodup).2
  named key member := handing.named key (.tail _ member)
  aligned configured key member := handing.aligned configured key (.tail _ member)
  within := handing.within
  stored := handing.stored

theorem count_append (n : Text) (i : Uuid) (r : QueueMessage) :
    count handed name (done ++ [r]) n i =
      count handed name done n i + if n = name ∧ r.id = i then 1 else 0 := by
  rw [count, count, List.countP_append, List.countP_singleton]
  by_cases here : n = name
  · simp [here, Nat.add_assoc]
  · simp [here]

theorem receive (laws : U.Laws) {n : Text} {j : Uuid}
    (handing : Handing U dlq handed name (slotKey U .available n j :: keys) done kv) {i : Uuid}
    {m r : QueueMessage} (read : messageId U (slotKey U .available n j) = some i)
    (found : kv[slotKey U .message name i]? = some (.message m)) (sameName : r.queueName = m.queueName)
    (sameId : r.id = m.id) (sameMax : r.maxReceives = m.maxReceives) :
    Handing U dlq handed name keys (done ++ [r])
      (((kv.insert (slotKey U .message name i) (.message r)).erase (slotKey U .available n j)).insert
        (slotKey U .inflight name i) .empty) := by
  obtain ⟨m', same, own, id⟩ := handing.keyed.message laws found
  cases same
  have placed : Placed U (slotKey U .message name i) (.message r) :=
    .message_at (sameName.trans own) (sameId.trans id)
  have keyId : i = j := messageId_slotKey laws read
  subst keyId
  refine ⟨((handing.keyed.insert placed).erase _).insert (.index (by decide) ..),
    (List.nodup_cons.mp handing.nodup).2, ?_, ?_, ?_, ?_⟩
  · intro key member
    obtain ⟨n', j', rfl, there⟩ := handing.skip.named key member
    refine ⟨n', j', rfl, ?_⟩
    have other : ¬ (n = n' ∧ i = j') := by
      rintro ⟨rfl, rfl⟩
      exact (List.nodup_cons.mp handing.nodup).1 member
    simpa only [getElem?_insert_slot laws, getElem?_erase_slot laws, reduceCtorEq, false_and,
      true_and, if_false, if_neg other] using there
  · intro configured key member i' read' there
    refine handing.skip.aligned configured key member i' read' ?_
    simp only [getElem?_insert_slot laws, getElem?_erase_slot laws, reduceCtorEq, false_and,
      true_and, if_false] at there
    split at there
    · rename_i here
      rw [← here, found]
      rfl
    · exact there
  · intro n' i' m' configured stored
    simp only [getElem?_insert_slot laws, getElem?_erase_slot laws, reduceCtorEq, false_and,
      true_and, if_false] at stored ⊢
    rw [count_append]
    by_cases here : name = n' ∧ i = i'
    · -- the message handed out: its own available entry goes with it
      obtain ⟨rfl, rfl⟩ := here
      simp only [and_self, if_true, Option.some.injEq, Stored.message.injEq] at stored
      subst stored
      have ownKey := handing.aligned configured _ (.head _) i read (by rw [found]; rfl)
      obtain ⟨-, rfl, -⟩ := (slotKey_inj laws).mp ownKey
      obtain ⟨n₀, j₀, same, there⟩ := handing.named _ (.head _)
      obtain ⟨-, rfl, rfl⟩ := (slotKey_inj laws).mp same
      obtain ⟨positive, below, strict⟩ := handing.within n i m configured found
      rw [sameMax]
      refine ⟨positive, ?_, ?_⟩
      · rw [if_pos ⟨rfl, sameId.trans id⟩]
        exact strict there
      · simp
    · rw [if_neg here] at stored
      obtain ⟨positive, below, strict⟩ := handing.within n' i' m' configured stored
      have notCounted : ¬ (n' = name ∧ r.id = i') := by
        rintro ⟨rfl, rfl⟩
        exact here ⟨rfl, (sameId.trans id).symm⟩
      rw [if_neg notCounted, Nat.add_zero]
      refine ⟨positive, below, fun available => strict ?_⟩
      split at available
      · cases available
      · exact available
  · intro r' member
    simp only [getElem?_insert_slot laws, getElem?_erase_slot laws, reduceCtorEq, false_and,
      true_and, if_false]
    by_cases here : i = r'.id
    · rw [if_pos here]
      refine ⟨r, rfl, ?_⟩
      rcases List.mem_append.mp member with earlier | last
      · obtain ⟨m', stored, same⟩ := handing.stored r' earlier
        rw [← here, found] at stored
        cases stored
        exact sameMax.trans same
      · rw [List.mem_singleton.mp last]
    · rw [if_neg here]
      rcases List.mem_append.mp member with earlier | last
      · exact handing.stored r' earlier
      · rw [List.mem_singleton.mp last] at here
        exact absurd (sameId.trans id).symm here

end Handing

theorem count_nil (handed : Text → Uuid → Nat) (name : Text) : count handed name [] = handed := by
  funext n i
  simp [count]

/-- A `dequeue` keeps the bound, and what it returns is within it. -/
theorem dequeue_within (laws : U.Laws) {dlq : Text → Option Text} {handed : Text → Uuid → Nat}
    {kv : KeyValue Stored} (keyed : WellKeyed U kv) (within : Within U dlq handed kv) (now : Int)
    (receipts : Bytes → Uuid) (name : Text) (maxMessages : Nat)
    (aligned : (dlq name).isSome → Aligned U .available name kv) :
    Within U dlq (count handed name (returned (dequeue U now receipts name maxMessages kv).1))
        (dequeue U now receipts name maxMessages kv).2 ∧
      ((dlq name).isSome → ∀ m ∈ returned (dequeue U now receipts name maxMessages kv).1,
        count handed name (returned (dequeue U now receipts name maxMessages kv).1) name m.id ≤
          m.maxReceives.toNat) := by
  by_cases opened : Open kv name
  · rw [dequeue_of_open opened]
    have scanned : ((entriesOf .available name kv).take maxMessages).Sublist
        (entriesOf .available name kv) := List.take_sublist ..
    obtain ⟨results, kv', ran, handing⟩ := forEachMessage_spec
      (Queue.receive U now receipts name) (P := Handing U dlq handed name)
      (fun _ _ _ _ handing _ => handing.skip) (fun key keys done kv i m handing read found => by
        obtain ⟨n, j, rfl, -⟩ := handing.named key (.head _)
        rw [receive_apply]
        split
        · exact ⟨_, _, rfl, handing.receive laws read found rfl rfl rfl⟩
        · exact ⟨_, _, rfl, by simpa using handing.skip⟩)
      (((entriesOf .available name kv).take maxMessages).map Prod.fst) [] kv {
        keyed := keyed
        nodup := (KeyValue.nodup_range ..).sublist (scanned.map Prod.fst)
        named := fun key member => by
          obtain ⟨e, inEntries, rfl⟩ := List.mem_map.mp member
          obtain ⟨n, j, same, -, found⟩ := keyed.entry laws (scanned.subset inEntries)
          exact ⟨n, j, same, by rw [found]; rfl⟩
        aligned := fun configured key member i read stored => by
          obtain ⟨e, inEntries, rfl⟩ := List.mem_map.mp member
          exact aligned configured e (scanned.subset inEntries) i read stored
        within := by rwa [count_nil]
        stored := fun _ absent => by cases absent }
    rw [ran]
    refine ⟨handing.within, fun configured m member => ?_⟩
    obtain ⟨m', found, same⟩ := handing.stored m member
    rw [← same]
    exact (handing.within name m.id m' configured found).2.1
  · obtain ⟨e, failed⟩ := dequeue_of_not_open (U := U) now receipts maxMessages opened
    rw [failed]
    have nothing : returned (.err e) = [] := rfl
    rw [nothing, count_nil]
    exact ⟨within, fun _ m absent => by cases absent⟩

/-! ## Runs -/

/-- The queues a run begins with, empty. -/
def created (U : UuidText) (configs : List IndividualQueueConfig) : KeyValue Stored :=
  (configs.map QueueCall.createQueue).foldl (QueueCall.step U) ∅

theorem cell_created (configs : List IndividualQueueConfig) (n : Text) (i : Uuid) (s : Slot) :
    cell U (created U configs) n i s = none := by
  suffices same : ∀ kv, cell U ((configs.map QueueCall.createQueue).foldl (QueueCall.step U) kv) =
      cell U kv by
    rw [created, same]
    simp [cell]
  induction configs with
  | nil => exact fun kv => rfl
  | cons config configs ih =>
    intro kv
    rw [List.map_cons, List.foldl_cons, ih, QueueCall.step_eq]
    exact cell_createQueue config

theorem wellKeyed_created (laws : U.Laws) (configs : List IndividualQueueConfig) :
    WellKeyed U (created U configs) := by
  suffices kept : ∀ kv, WellKeyed U kv →
      WellKeyed U ((configs.map QueueCall.createQueue).foldl (QueueCall.step U) kv) from
    kept ∅ (WellKeyed.empty U)
  induction configs with
  | nil => exact fun _ => id
  | cons config configs ih => exact fun kv keyed => ih _ (wellKeyed_step laws _ keyed)

/-- The invariant of a run. -/
structure InBounds (U : UuidText) (s : Deliveries) : Prop where
  keyed : WellKeyed U s.store
  within : Within U (dlqOf s.store) s.handed s.store

namespace InBounds

variable {s : Deliveries}

section

variable (inBounds : InBounds U s) (laws : U.Laws)

include inBounds laws

theorem enqueue (now : Int) (m : QueueMessage)
    (careful : Careful U s (.enqueue now m)) : InBounds U (s.step U (.enqueue now m)) := by
  have keyed := inBounds.keyed.enqueue now m
  have configs := dlqOf_congr (SameConfigs.enqueue (U := U) s.store now m)
  by_cases opened : Open s.store m.queueName
  · have ran := enqueue_of_open (U := U) now opened
    rw [ran] at keyed configs
    rw [Deliveries.step, ran]
    refine ⟨keyed, ?_⟩
    change Within U (dlqOf _) (restart s.handed m.queueName m.id) _
    rw [configs]
    intro n i m' configured stored
    have index : enqueueSlot now m ≠ .message := by
      rw [enqueueSlot]
      split <;> decide
    simp only [getElem?_insert_slot laws, index, false_and, if_false, true_and] at stored
    rw [restart]
    by_cases here : m.queueName = n ∧ m.id = i
    · obtain ⟨rfl, rfl⟩ := here
      simp only [and_self, if_true, Option.some.injEq, Stored.message.injEq] at stored ⊢
      subst stored
      have positive : 0 < m.maxReceives.toNat := careful configured
      exact ⟨positive, Nat.zero_le _, fun _ => positive⟩
    · rw [if_neg here] at stored
      rw [if_neg fun same => here ⟨same.1.symm, same.2.symm⟩]
      obtain ⟨positive, below, strict⟩ := inBounds.within n i m' configured stored
      refine ⟨positive, below, fun available => strict ?_⟩
      simpa only [getElem?_insert_slot laws, here, and_false, if_false, reduceCtorEq, false_and]
        using available
  · obtain ⟨e, failed⟩ := enqueue_fails (U := U) now opened
    rw [Deliveries.step, failed]
    exact inBounds

theorem dequeue (now : Int) (receipts : Bytes → Uuid)
    (name : Text) (maxMessages : Nat) (careful : Careful U s (.dequeue now receipts name maxMessages)) :
    InBounds U (s.step U (.dequeue now receipts name maxMessages)) where
  keyed := inBounds.keyed.dequeue laws now receipts name maxMessages
  within := by
    have configs := dlqOf_congr (SameConfigs.dequeue laws inBounds.keyed now receipts name maxMessages)
    change Within U (dlqOf (Queue.dequeue U now receipts name maxMessages s.store).2) _ _
    rw [configs]
    exact (dequeue_within laws inBounds.keyed inBounds.within now receipts name maxMessages careful).1

theorem nack (now : Int) (name receipt : Text) (careful : Careful U s (.nack now name receipt)) :
    InBounds U (s.step U (.nack now name receipt)) where
  keyed := inBounds.keyed.nack laws now name receipt
  within := by
    have configs := dlqOf_congr (SameConfigs.nack (U := U) s.store now name receipt)
    change Within U (dlqOf (Queue.nack U now name receipt s.store).2) s.handed
      (Queue.nack U now name receipt s.store).2
    rw [configs, nack_snd]
    cases read : U.parseStr (utf8 receipt) with
    | none => exact inBounds.within
    | some i =>
      simp only
      split
      · rename_i m found
        intro n i' m' configured stored
        simp only [getElem?_insert_slot laws, getElem?_erase_slot laws, reduceCtorEq, false_and,
          true_and, if_false] at stored ⊢
        by_cases here : name = n ∧ i = i'
        · obtain ⟨rfl, rfl⟩ := here
          simp only [and_self, if_true, Option.some.injEq, Stored.message.injEq] at stored
          subst stored
          obtain ⟨positive, below, -⟩ := inBounds.within name i m configured found
          exact ⟨positive, below, fun _ => careful configured i m read found⟩
        · rw [if_neg here] at stored ⊢
          exact inBounds.within n i' m' configured stored
      · exact inBounds.within

theorem scanAll (now : Int) (careful : Careful U s (.scanAll now)) : InBounds U (s.step U (.scanAll now)) := by
  have passed := scanAll_keeps (U := U) true now
    (P := Passing U s.store s.handed now) (fun kv name passing => passing.releaseExpiredMessages laws name)
    (fun kv name passing => passing.moveToDlq laws name)
    (fun kv name passing => passing.purgeExpiredMessages laws name)
    ⟨inBounds.keyed, SameConfigs.refl _, inBounds.within, careful⟩
  refine ⟨passed.keyed, ?_⟩
  change Within U (dlqOf (Queue.scanAll U true now s.store).2) s.handed _
  rw [dlqOf_congr passed.configs]
  exact passed.within

theorem step {call : DeliveryCall} (careful : Careful U s call) : InBounds U (s.step U call) := by
  cases call with
  | enqueue now m => exact inBounds.enqueue laws now m careful
  | dequeue now receipts name maxMessages =>
    exact inBounds.dequeue laws now receipts name maxMessages careful
  | nack now name receipt => exact inBounds.nack laws now name receipt careful
  | scanAll now => exact inBounds.scanAll laws now careful

theorem bounded {call : DeliveryCall} (careful : Careful U s call) : Bounded U s call := by
  cases call with
  | enqueue now m => trivial
  | dequeue now receipts name maxMessages =>
    intro configured m member
    exact (dequeue_within laws inBounds.keyed inBounds.within now receipts name maxMessages
      careful).2 configured m member
  | nack now name receipt => trivial
  | scanAll now =>
    intro n d i m target stored exhausted due
    have early := (careful n d i m target stored).1 due
    omega

end

end InBounds

/-- **Between careful calls deliveries stay bounded**, whatever queues a run begins with. -/
theorem bounded_run (laws : U.Laws) (configs : List IndividualQueueConfig)
    (calls : List DeliveryCall)
    (careful : Run.Each (Deliveries.step U) (Careful U) ⟨created U configs, fun _ _ => 0⟩ calls) :
    Run.Each (Deliveries.step U) (Bounded U) ⟨created U configs, fun _ _ => 0⟩ calls := by
  refine careful.imp (I := InBounds U) (fun s call held meets => held.step laws meets)
    (fun s call held meets => held.bounded laws meets) ⟨wellKeyed_created laws configs, ?_⟩
  intro n i m _ stored
  have empty := cell_created (U := U) configs n i .message
  rw [cell, stored] at empty
  cases empty

/-- A queue with a dead-letter queue, and a message that may be received once. -/
def dlqConfig : IndividualQueueConfig := { IndividualQueueConfig.new 0 ['q'] with dlqName := some ['d'] }

def onceMessage : QueueMessage := { QueueMessage.new 1 0 ['q'] [0x68] with maxReceives := 1 }

/-- A message handed out once, and a pass before its timeout is over. -/
theorem bounded_run_sample : Run.Each (Deliveries.step .hyphenated) (Bounded .hyphenated)
    ⟨created .hyphenated [dlqConfig], fun _ _ => 0⟩
    [.enqueue 0 onceMessage, .dequeue 5 (fun _ => 2) ['q'] 10] := by
  refine bounded_run UuidText.laws_hyphenated _ _ ⟨?_, fun _ => ?_, trivial⟩
  · intro _
    decide
  · have found : entriesOf .available ['q'] (Deliveries.step .hyphenated
        ⟨created .hyphenated [dlqConfig], fun _ _ => 0⟩ (.enqueue 0 onceMessage)).store =
          [(slotKey .hyphenated .available ['q'] 1, .empty)] := by decide +kernel
    refine aligned_of_own UuidText.laws_hyphenated _ fun e member => ?_
    rw [found, List.mem_singleton] at member
    exact ⟨1, congrArg Prod.fst member⟩

/-- **Deliveries are not bounded by every run**: a pass puts back the message that may
be received once, and it is received again. -/
theorem not_bounded_run : ¬ ∀ (U : UuidText), U.Laws → ∀ (configs : List IndividualQueueConfig)
    (calls : List DeliveryCall),
    Run.Each (Deliveries.step U) (Bounded U) ⟨created U configs, fun _ _ => 0⟩ calls := by
  intro all
  have each := all .hyphenated UuidText.laws_hyphenated [dlqConfig] [.enqueue 0 onceMessage,
    .dequeue 5 (fun _ => 2) ['q'] 10, .scanAll 30005, .dequeue 30006 (fun _ => 3) ['q'] 10]
  have last := each.2.2.2.1
  simp only [Bounded] at last
  revert last
  decide +kernel

end NovaRuntime.Queue
