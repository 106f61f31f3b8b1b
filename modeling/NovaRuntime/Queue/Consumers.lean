/-
# NovaRuntime.Queue.Consumers — `dequeue` calls that run at the same time

`dequeue` holds no lock. A consumer is one call cut at its calls of the store, so that
others may act between any two of them. The history logs each message at the moment it is
put among the results, and each message that `nack` or a release puts back.

No message should be taken twice without being put back in between (`Exclusive`).
Between its look at a message and its last write a consumer holds the message, and
nothing tells the others. `exclusive_run` names the steps between which deliveries are
exclusive (`Sole`): nobody looks at, or puts back, a message that another holds, and
nobody takes a message whose available entry has gone since the scan.
-/
import NovaRuntime.Queue.Isolation

namespace NovaRuntime.Queue

open NovaRuntime.Library

set_option autoImplicit false

/-! ## One call, step by step -/

/-- Where a call stands; each constructor but the last is about to call the store. -/
inductive Phase where
  | config
  | scan
  | look (keys : List Bytes) (messages : List QueueMessage)
  | write (key : Bytes) (id : Uuid) (msg : QueueMessage) (keys : List Bytes)
      (messages : List QueueMessage)
  | remove (key : Bytes) (id : Uuid) (msg : QueueMessage) (keys : List Bytes)
      (messages : List QueueMessage)
  | index (id : Uuid) (msg : QueueMessage) (keys : List Bytes) (messages : List QueueMessage)
  | done (outcome : Outcome QueueError (List QueueMessage))
  deriving DecidableEq

structure Consumer where
  now : Int
  receipts : Bytes → Uuid
  maxMessages : Nat
  phase : Phase

/-- What the call does next on its own and to the store, and whom it has received. -/
def Consumer.next (U : UuidText) (queueName : Text) (c : Consumer) (kv : KeyValue Stored) :
    Phase × KeyValue Stored × Option Uuid :=
  match c.phase with
  | .config =>
    match (getQueue queueName kv).1 with
    | .ok config => (if config.paused then .done (.err .queuePaused) else .scan, kv, none)
    | .err e => (.done (.err e), kv, none)
    | .panic => (.done .panic, kv, none)
    | .hang => (.done .hang, kv, none)
  | .scan =>
    (.look (((entriesOf .available queueName kv).take c.maxMessages).map Prod.fst) [], kv, none)
  | .look [] messages => (.done (.ok messages), kv, none)
  | .look (key :: keys) messages =>
    match messageId U key with
    | none => (.look keys messages, kv, none)
    | some msgId =>
      match kv[queueMsgKey U queueName msgId]? with
      | some (.message msg) =>
        if msg.isVisible c.now && !msg.hasExpired c.now then
          (.write key msgId (msg.markReceived c.now (U.display (c.receipts key))) keys messages,
            kv, none)
        else (.look keys messages, kv, none)
      | _ => (.look keys messages, kv, none)
  | .write key msgId msg keys messages =>
    (.remove key msgId msg keys messages, kv.insert (queueMsgKey U queueName msgId) (.message msg),
      none)
  | .remove key msgId msg keys messages => (.index msgId msg keys messages, kv.erase key, none)
  | .index msgId msg keys messages =>
    (.look keys (messages ++ [msg]), kv.insert (queueInflightKey U queueName msgId) .empty,
      some msgId)
  | .done outcome => (.done outcome, kv, none)

/-! ## Many calls -/

inductive Event where
  | took (consumer : Nat) (id : Uuid)
  | putBack (id : Uuid)
  deriving DecidableEq

structure Consumers where
  store : KeyValue Stored
  consumer : Nat → Option Consumer
  log : List Event

inductive ConsumerAct where
  | start (consumer : Nat) (now : Int) (receipts : Bytes → Uuid) (maxMessages : Nat)
  | step (consumer : Nat)
  | nack (now : Int) (receiptHandle : Text)
  | releaseExpiredMessages (now : Int)

/-- The message a `nack` puts back. -/
def nackedId (U : UuidText) (queueName receiptHandle : Text) (kv : KeyValue Stored) : List Uuid :=
  match U.parseStr (utf8 receiptHandle) with
  | none => []
  | some msgId =>
    match kv[queueMsgKey U queueName msgId]? with
    | some (.message _) => [msgId]
    | _ => []

/-- The message under an in-flight key, if it is due. -/
def dueId (U : UuidText) (now : Int) (queueName : Text) (kv : KeyValue Stored) (key : Bytes) :
    Option Uuid :=
  (messageId U key).bind fun msgId =>
    match kv[queueMsgKey U queueName msgId]? with
    | some (.message msg) => if Due now msg then some msgId else none
    | _ => none

/-- The messages a release puts back. -/
def releasedIds (U : UuidText) (now : Int) (queueName : Text) (kv : KeyValue Stored) : List Uuid :=
  ((entriesOf .inflight queueName kv).map Prod.fst).filterMap (dueId U now queueName kv)

/-- One step of the system; the calls other than `dequeue` are taken whole. A consumer
that has been started before is not started again. -/
def Consumers.step (U : UuidText) (queueName : Text) (s : Consumers) : ConsumerAct → Consumers
  | .start t now receipts maxMessages =>
    match s.consumer t with
    | some _ => s
    | none => { s with
        consumer := Function.update s.consumer t (some ⟨now, receipts, maxMessages, .config⟩) }
  | .step t =>
    match s.consumer t with
    | none => s
    | some c =>
      let (phase, store, received) := c.next U queueName s.store
      { store
        consumer := Function.update s.consumer t (some { c with phase })
        log := s.log ++ (received.map (Event.took t)).toList }
  | .nack now receiptHandle =>
    { s with
      store := (nack U now queueName receiptHandle s.store).2
      log := s.log ++ (nackedId U queueName receiptHandle s.store).map Event.putBack }
  | .releaseExpiredMessages now =>
    { s with
      store := (releaseExpiredMessages U now queueName s.store).2
      log := s.log ++ (releasedIds U now queueName s.store).map Event.putBack }

/-- Between two takings of a message it has been put back. -/
def Exclusive (log : List Event) : Prop :=
  ∀ before between after t t' i,
    log = before ++ .took t i :: (between ++ .took t' i :: after) → .putBack i ∈ between

/-- The message a consumer holds: looked at, and not yet written for the last time. -/
def Phase.holding : Phase → Option Uuid
  | .write _ id _ _ _ => some id
  | .remove _ id _ _ _ => some id
  | .index id _ _ _ => some id
  | _ => none

def Consumers.Held (s : Consumers) (t : Nat) (i : Uuid) : Prop :=
  ∃ c, s.consumer t = some c ∧ c.phase.holding = some i

/-- The steps between which deliveries are exclusive. -/
def Sole (U : UuidText) (queueName : Text) (s : Consumers) : ConsumerAct → Prop
  | .start _ _ _ _ => True
  | .step t => ∀ c key keys messages i m, s.consumer t = some c → c.phase = .look (key :: keys) messages →
      messageId U key = some i → s.store[queueMsgKey U queueName i]? = some (.message m) →
        m.isVisible c.now = true →
          key = queueAvailableKey U queueName i ∧ (s.store[key]?).isSome ∧ ∀ t', ¬ s.Held t' i
  | .nack _ receiptHandle => ∀ i ∈ nackedId U queueName receiptHandle s.store, ∀ t, ¬ s.Held t i
  | .releaseExpiredMessages now => ∀ i ∈ releasedIds U now queueName s.store, ∀ t, ¬ s.Held t i

variable {U : UuidText} {queueName : Text}
variable {log : List Event}

/-! ## The log -/

/-- The message has been taken and not put back since. -/
def Out (log : List Event) (i : Uuid) : Prop :=
  ∃ before t after, log = before ++ .took t i :: after ∧ .putBack i ∉ after

theorem out_append {e : Event} {i : Uuid} :
    Out (log ++ [e]) i ↔ (∃ t, e = .took t i) ∨ (Out log i ∧ e ≠ .putBack i) := by
  constructor
  · rintro ⟨before, t, after, same, kept⟩
    rcases List.eq_nil_or_concat after with rfl | ⟨after, last, rfl⟩
    · obtain ⟨-, last⟩ := List.append_inj' same rfl
      exact .inl ⟨t, (List.cons.inj last).1⟩
    · rw [List.concat_eq_append, ← List.cons_append, ← List.append_assoc] at same
      obtain ⟨earlier, last⟩ := List.append_inj' same rfl
      rw [List.concat_eq_append, List.mem_append, not_or] at kept
      refine .inr ⟨⟨before, t, after, earlier, kept.1⟩, ?_⟩
      rw [(List.cons.inj last).1]
      exact fun here => kept.2 (here ▸ List.mem_singleton.mpr rfl)
  · rintro (⟨t, rfl⟩ | ⟨⟨before, t, after, rfl, kept⟩, other⟩)
    · exact ⟨log, t, [], rfl, List.not_mem_nil⟩
    · refine ⟨before, t, after ++ [e], by simp, fun member => ?_⟩
      rcases List.mem_append.mp member with earlier | last
      · exact kept earlier
      · exact other (List.mem_singleton.mp last).symm

theorem exclusive_append {e : Event} (exclusive : Exclusive log)
    (free : ∀ t i, e = .took t i → ¬ Out log i) : Exclusive (log ++ [e]) := by
  intro before between after t t' i same
  rcases List.eq_nil_or_concat after with rfl | ⟨after, last, rfl⟩
  · rw [← List.cons_append, ← List.append_assoc] at same
    obtain ⟨earlier, last⟩ := List.append_inj' same rfl
    by_contra kept
    exact free t' i (List.cons.inj last).1 ⟨before, t, between, earlier, kept⟩
  · rw [List.concat_eq_append, ← List.cons_append, ← List.append_assoc, ← List.cons_append,
      ← List.append_assoc] at same
    refine exclusive before between after t t' i ((List.append_inj' same rfl).1.trans ?_)
    rw [List.append_assoc, List.cons_append]

theorem exclusive_append_putBacks (exclusive : Exclusive log) (ids : List Uuid) :
    Exclusive (log ++ ids.map .putBack) := by
  induction ids generalizing log with
  | nil => simpa using exclusive
  | cons i ids ih =>
    rw [List.map_cons, ← List.singleton_append, ← List.append_assoc]
    exact ih (exclusive_append exclusive fun t i same => by cases same)

theorem out_append_putBacks {ids : List Uuid} {i : Uuid} :
    Out (log ++ ids.map .putBack) i ↔ Out log i ∧ i ∉ ids := by
  induction ids generalizing log with
  | nil => simp
  | cons j ids ih =>
    rw [List.map_cons, ← List.singleton_append, ← List.append_assoc, ih, out_append, List.mem_cons,
      not_or]
    constructor
    · rintro ⟨⟨t, same⟩ | ⟨out, other⟩, rest⟩
      · cases same
      · exact ⟨out, fun same => other (same ▸ rfl), rest⟩
    · rintro ⟨out, other, rest⟩
      exact ⟨.inr ⟨out, fun same => other (by cases same; rfl)⟩, rest⟩

/-! ## The invariant -/

/-- What a consumer may rely on while it holds a message. -/
def Phase.Fits (U : UuidText) (queueName : Text) (store : KeyValue Stored) (log : List Event) :
    Phase → Prop
  | .write key id msg _ _ => key = slotKey U .available queueName id ∧
      msg.queueName = queueName ∧ msg.id = id ∧ ¬ Out log id
  | .remove key id _ _ _ => key = slotKey U .available queueName id ∧ ¬ Out log id
  | .index id _ _ _ => store[slotKey U .available queueName id]? = none ∧ ¬ Out log id
  | _ => True

theorem Phase.Fits.mono {phase : Phase} {store store' : KeyValue Stored} {log' : List Event}
    (fits : phase.Fits U queueName store log) (free : ∀ i, phase.holding = some i → Out log' i → Out log i)
    (absent : ∀ i, phase.holding = some i → store[slotKey U .available queueName i]? = none →
      store'[slotKey U .available queueName i]? = none) : phase.Fits U queueName store' log' := by
  cases phase with
  | write key id msg keys messages =>
    exact ⟨fits.1, fits.2.1, fits.2.2.1, fun out => fits.2.2.2 (free id rfl out)⟩
  | remove key id msg keys messages => exact ⟨fits.1, fun out => fits.2 (free id rfl out)⟩
  | index id msg keys messages => exact ⟨absent id rfl fits.1, fun out => fits.2 (free id rfl out)⟩
  | _ => trivial

structure Sound (U : UuidText) (queueName : Text) (s : Consumers) : Prop where
  keyed : WellKeyed U s.store
  fits : ∀ t c, s.consumer t = some c → c.phase.Fits U queueName s.store s.log
  single : ∀ t t' i, s.Held t i → s.Held t' i → t = t'
  gone : ∀ i, Out s.log i → s.store[slotKey U .available queueName i]? = none
  exclusive : Exclusive s.log

namespace Sound

variable {s : Consumers}
variable {c : Consumer} {keys : List Bytes} {messages : List QueueMessage} {t : Nat}

section

variable (sound : Sound U queueName s)

include sound

theorem move (consumer : s.consumer t = some c)
    {phase : Phase} {store : KeyValue Stored} {log : List Event} (keyed : WellKeyed U store)
    (fits : phase.Fits U queueName store log)
    (holding : ∀ i, phase.holding = some i → c.phase.holding = some i ∨ ∀ t', ¬ s.Held t' i)
    (free : ∀ i, ¬ c.phase.holding = some i → Out log i → Out s.log i)
    (absent : ∀ i, s.store[slotKey U .available queueName i]? = none →
      store[slotKey U .available queueName i]? = none)
    (gone : ∀ i, Out log i → store[slotKey U .available queueName i]? = none)
    (exclusive : Exclusive log) :
    Sound U queueName ⟨store, Function.update s.consumer t (some { c with phase }), log⟩ where
  keyed := keyed
  fits t' c' here := by
    by_cases same : t' = t
    · subst same
      simp only [Function.update_self, Option.some.injEq] at here
      subst here
      exact fits
    · simp only [Function.update_of_ne same] at here
      refine (sound.fits t' c' here).mono (fun i held => free i fun mine => same ?_)
        fun i _ => absent i
      exact sound.single t' t i ⟨c', here, held⟩ ⟨c, consumer, mine⟩
  single := by
    -- who holds a message now held it before, or took it up in this step
    have before : ∀ t₁ i, Consumers.Held ⟨store, Function.update s.consumer t (some { c with phase }), log⟩
        t₁ i → s.Held t₁ i ∨ t₁ = t ∧ ∀ t', ¬ s.Held t' i := by
      rintro t₁ i ⟨c₁, here, held⟩
      by_cases same : t₁ = t
      · subst same
        simp only [Function.update_self, Option.some.injEq] at here
        subst here
        exact (holding i held).imp (fun mine => ⟨c, consumer, mine⟩) fun nobody => ⟨rfl, nobody⟩
      · simp only [Function.update_of_ne same] at here
        exact .inl ⟨c₁, here, held⟩
    intro t₁ t₂ i first second
    rcases before t₁ i first with old | ⟨rfl, nobody⟩
    · rcases before t₂ i second with old' | ⟨rfl, nobody⟩
      · exact sound.single t₁ t₂ i old old'
      · exact absurd old (nobody t₁)
    · rcases before t₂ i second with old' | ⟨rfl, -⟩
      · exact absurd old' (nobody t₂)
      · rfl
  gone := gone
  exclusive := exclusive

/-- A call puts messages back that nobody holds. -/
theorem putBack {store : KeyValue Stored} {ids : List Uuid}
    (keyed : WellKeyed U store) (unheld : ∀ i ∈ ids, ∀ t, ¬ s.Held t i)
    (absent : ∀ i, i ∉ ids → s.store[slotKey U .available queueName i]? = none →
      store[slotKey U .available queueName i]? = none) :
    Sound U queueName ⟨store, s.consumer, s.log ++ ids.map .putBack⟩ where
  keyed := keyed
  fits t c here := by
    refine (sound.fits t c here).mono (fun i _ out => (out_append_putBacks.mp out).1) fun i held => ?_
    exact absent i fun member => unheld i member t ⟨c, here, held⟩
  single := sound.single
  gone i out := by
    obtain ⟨out, other⟩ := out_append_putBacks.mp out
    exact absent i other (sound.gone i out)
  exclusive := exclusive_append_putBacks sound.exclusive ids

/-- A step that leaves the store and the log alone, and after which nothing is held. -/
theorem idle (consumer : s.consumer t = some c)
    {phase : Phase} (fits : phase.Fits U queueName s.store s.log) (free : phase.holding = none) :
    Sound U queueName
      ⟨s.store, Function.update s.consumer t (some { c with phase }), s.log ++ []⟩ := by
  rw [List.append_nil]
  refine sound.move consumer sound.keyed fits (fun i held => ?_) (fun _ _ => id) (fun _ => id)
    sound.gone sound.exclusive
  rw [free] at held
  cases held

theorem look (laws : U.Laws) (consumer : s.consumer t = some c) {key : Bytes}
    (phase : c.phase = .look (key :: keys) messages) (sole : Sole U queueName s (.step t)) :
    Sound U queueName (s.step U queueName (.step t)) := by
  simp only [Consumers.step, consumer, Consumer.next, phase]
  cases read : messageId U key with
  | none => exact sound.idle consumer trivial rfl
  | some i =>
    simp only
    cases found : s.store[queueMsgKey U queueName i]? with
    | none => exact sound.idle consumer trivial rfl
    | some v =>
      cases v with
      | config _ | empty => exact sound.idle consumer trivial rfl
      | message m =>
        simp only
        split
        · rename_i visible
          have seen : m.isVisible c.now = true := (Bool.and_eq_true _ _ ▸ visible).1
          obtain ⟨own, present, nobody⟩ := sole c key keys messages i m consumer phase read found seen
          obtain ⟨m', same, name, id⟩ := sound.keyed.message laws found
          cases same
          have inside : ¬ Out s.log i := by
            intro out
            rw [own, queueAvailableKey_eq, sound.gone i out] at present
            cases present
          simp only [Option.map_none, Option.toList_none, List.append_nil]
          refine sound.move consumer sound.keyed ⟨own, name, id, inside⟩ (fun j held => ?_)
            (fun _ _ h => h) (fun _ h => h) sound.gone sound.exclusive
          cases held
          exact .inr nobody
        · exact sound.idle consumer trivial rfl

theorem start (fresh : s.consumer t = none) (now : Int) (receipts : Bytes → Uuid) (maxMessages : Nat) :
    Sound U queueName { s with
      consumer := Function.update s.consumer t (some ⟨now, receipts, maxMessages, .config⟩) } where
  keyed := sound.keyed
  fits t' c here := by
    by_cases same : t' = t
    · subst same
      simp only [Function.update_self, Option.some.injEq] at here
      subst here
      trivial
    · simp only [Function.update_of_ne same] at here
      exact sound.fits t' c here
  single := by
    have before : ∀ t₁ i, Consumers.Held { s with
        consumer := Function.update s.consumer t (some ⟨now, receipts, maxMessages, .config⟩) } t₁ i →
          s.Held t₁ i := by
      rintro t₁ i ⟨c, here, held⟩
      by_cases same : t₁ = t
      · subst same
        simp only [Function.update_self, Option.some.injEq] at here
        subst here
        cases held
      · simp only [Function.update_of_ne same] at here
        exact ⟨c, here, held⟩
    exact fun t₁ t₂ i first second => sound.single t₁ t₂ i (before t₁ i first) (before t₂ i second)
  gone := sound.gone
  exclusive := sound.exclusive

section

variable (laws : U.Laws) (consumer : s.consumer t = some c)

include laws consumer

/-- The data is written; the message is still held. -/
theorem write {key : Bytes} {i : Uuid} {m : QueueMessage} (phase : c.phase = .write key i m keys messages) :
    Sound U queueName (s.step U queueName (.step t)) := by
  simp only [Consumers.step, consumer, Consumer.next, phase, Option.map_none, Option.toList_none,
    List.append_nil]
  have fits := sound.fits t c consumer
  rw [phase] at fits
  obtain ⟨own, name, id, inside⟩ := fits
  have kept : ∀ j, s.store[slotKey U .available queueName j]? = none →
      (s.store.insert (slotKey U .message queueName i) (.message m))[slotKey U .available queueName j]? =
        none := by
    intro j absent
    simpa only [getElem?_insert_slot laws, reduceCtorEq, false_and, if_false] using absent
  exact sound.move consumer (sound.keyed.insert (.message_at name id)) ⟨own, inside⟩
    (fun j held => .inl (by rw [phase]; exact held)) (fun _ _ h => h) kept
    (fun j out => kept j (sound.gone j out)) sound.exclusive

theorem remove {key : Bytes} {i : Uuid} {m : QueueMessage} (phase : c.phase = .remove key i m keys messages) :
    Sound U queueName (s.step U queueName (.step t)) := by
  simp only [Consumers.step, consumer, Consumer.next, phase, Option.map_none, Option.toList_none,
    List.append_nil]
  have fits := sound.fits t c consumer
  rw [phase] at fits
  obtain ⟨rfl, inside⟩ := fits
  have kept : ∀ j, s.store[slotKey U .available queueName j]? = none →
      (s.store.erase (slotKey U .available queueName i))[slotKey U .available queueName j]? = none := by
    intro j absent
    rw [getElem?_erase_slot laws, absent, ite_self]
  have absent : (s.store.erase (slotKey U .available queueName i))[slotKey U .available queueName i]? =
      none := by simp
  exact sound.move consumer (sound.keyed.erase _) ⟨absent, inside⟩
    (fun j held => .inl (by rw [phase]; exact held)) (fun _ _ h => h) kept
    (fun j out => kept j (sound.gone j out)) sound.exclusive

/-- The in-flight entry is set, and the message is among the results. -/
theorem index {i : Uuid} {m : QueueMessage} (phase : c.phase = .index i m keys messages) :
    Sound U queueName (s.step U queueName (.step t)) := by
  simp only [Consumers.step, consumer, Consumer.next, phase, Option.map_some, Option.toList_some]
  have fits := sound.fits t c consumer
  rw [phase] at fits
  obtain ⟨absent, inside⟩ := fits
  have kept : ∀ j, s.store[slotKey U .available queueName j]? = none →
      (s.store.insert (slotKey U .inflight queueName i) .empty)[slotKey U .available queueName j]? =
        none := by
    intro j absent
    simpa only [getElem?_insert_slot laws, reduceCtorEq, false_and, if_false] using absent
  have only : ∀ j, Out (s.log ++ [.took t i]) j → j = i ∨ Out s.log j := by
    intro j out
    rcases out_append.mp out with ⟨t', same⟩ | ⟨earlier, -⟩
    · cases same
      exact .inl rfl
    · exact .inr earlier
  refine sound.move consumer (sound.keyed.insert (Placed.index (s := .inflight) (by decide) ..)) trivial
    (fun j held => by cases held) (fun j other out => ?_) kept (fun j out => ?_)
    (exclusive_append sound.exclusive fun t' j same => by cases same; exact inside)
  · exact (only j out).resolve_left fun same => other (by rw [phase, same]; rfl)
  · rcases only j out with rfl | earlier
    · exact kept j absent
    · exact kept j (sound.gone j earlier)

end

theorem nack (laws : U.Laws) (now : Int) (receipt : Text) (sole : Sole U queueName s (.nack now receipt)) :
    Sound U queueName (s.step U queueName (.nack now receipt)) := by
  refine sound.putBack (sound.keyed.nack laws now queueName receipt) sole fun i other absent => ?_
  rw [nackedId] at other
  rw [nack_snd]
  cases read : U.parseStr (utf8 receipt) with
  | none => exact absent
  | some j =>
    simp only [read, queueMsgKey_eq] at other ⊢
    split
    · rename_i m found
      simp only [found, List.mem_singleton] at other
      simpa only [getElem?_insert_slot laws, getElem?_erase_slot laws, reduceCtorEq, false_and,
        true_and, if_false, Ne.symm other] using absent
    · exact absent

theorem releaseExpiredMessages (laws : U.Laws) (now : Int) (sole : Sole U queueName s (.releaseExpiredMessages now)) :
    Sound U queueName (s.step U queueName (.releaseExpiredMessages now)) := by
  refine sound.putBack (sound.keyed.releaseExpiredMessages now queueName) sole fun i other absent => ?_
  rw [releaseExpiredMessages_apply]
  -- the loop changes no message, so what is due is what was due at the scan
  obtain ⟨results, kv', ran, -, kept⟩ := forEachMessage_slots (s := .inflight)
    (release U now queueName)
    (P := fun kv' => (∀ j, kv'[slotKey U .message queueName j]? =
        s.store[slotKey U .message queueName j]?) ∧ kv'[slotKey U .available queueName i]? = none)
    laws sound.keyed (fun n j kv' j' m there held read found => by
      rw [release_apply]
      split
      · rename_i due
        refine ⟨_, _, rfl, fun j'' => ?_, ?_⟩
        · simpa only [getElem?_insert_slot laws, getElem?_erase_slot laws, reduceCtorEq, false_and,
            if_false] using held.1 j''
        · have differ : j' ≠ i := by
            rintro rfl
            refine other (List.mem_filterMap.mpr ⟨slotKey U .inflight n j, ?_, ?_⟩)
            · obtain ⟨v, stored⟩ := Option.isSome_iff_exists.mp there.2
              exact List.mem_map.mpr ⟨(slotKey U .inflight n j, v),
                (slotKey_mem_entriesOf laws).mpr ⟨stored, rfl, there.1⟩, rfl⟩
            · rw [held.1] at found
              simp only [dueId, read, Option.bind_some, queueMsgKey_eq, found, if_pos due]
          simpa only [getElem?_insert_slot laws, getElem?_erase_slot laws, reduceCtorEq, false_and,
            true_and, if_false, differ] using held.2
      · exact ⟨_, _, rfl, held⟩)
    (List.Subset.refl (entriesOf .inflight queueName s.store)) ⟨fun _ => rfl, absent⟩
  rw [Exec.bind_of_ok ran]
  exact kept

theorem step (laws : U.Laws) {act : ConsumerAct}
    (sole : Sole U queueName s act) : Sound U queueName (s.step U queueName act) := by
  cases act with
  | start t now receipts maxMessages =>
    cases fresh : s.consumer t with
    | some _ => simpa only [Consumers.step, fresh] using sound
    | none => simpa only [Consumers.step, fresh] using sound.start fresh now receipts maxMessages
  | step t =>
    cases consumer : s.consumer t with
    | none => simpa only [Consumers.step, consumer] using sound
    | some c =>
      cases phase : c.phase with
      | config =>
        simp only [Consumers.step, consumer, Consumer.next, phase]
        split
        · split <;> exact sound.idle consumer trivial rfl
        all_goals exact sound.idle consumer trivial rfl
      | scan =>
        simp only [Consumers.step, consumer, Consumer.next, phase]
        exact sound.idle consumer trivial rfl
      | look keys messages =>
        cases keys with
        | nil =>
          simp only [Consumers.step, consumer, Consumer.next, phase]
          exact sound.idle consumer trivial rfl
        | cons key keys => exact sound.look laws consumer phase sole
      | write key id msg keys messages => exact sound.write laws consumer phase
      | remove key id msg keys messages => exact sound.remove laws consumer phase
      | index id msg keys messages => exact sound.index laws consumer phase
      | done outcome =>
        simp only [Consumers.step, consumer, Consumer.next, phase]
        exact sound.idle consumer trivial rfl
  | nack now receipt => exact sound.nack laws now receipt sole
  | releaseExpiredMessages now => exact sound.releaseExpiredMessages laws now sole

end

end Sound

/-! ## Runs -/

/-- Any store the backend's calls lead to, before any consumer has started. -/
def idleConsumers (kv : KeyValue Stored) : Consumers where
  store := kv
  consumer := fun _ => none
  log := []

/-- A step that looks at no message needs nothing. -/
theorem sole_of_phase {s : Consumers} {t : Nat} (phase : Phase)
    (here : (s.consumer t).map Consumer.phase = some phase)
    (other : ∀ key keys messages, phase ≠ .look (key :: keys) messages) :
    Sole U queueName s (.step t) := by
  intro c key keys messages i m consumer looking
  rw [consumer, Option.map_some, looking] at here
  exact absurd (Option.some.inj here).symm (other key keys messages)

/-- A consumer stands still while another steps. -/
theorem consumer_step_of_ne {s : Consumers} {t t' : Nat} (other : t' ≠ t) :
    (s.step U queueName (.step t)).consumer t' = s.consumer t' := by
  rw [Consumers.step]
  cases s.consumer t with
  | none => rfl
  | some c => exact Function.update_of_ne other ..

/-- One consumer, which has scanned the queue of the sample. -/
def sampleScanned : Consumers :=
  [.start 0 5 (fun _ => 2) 10, .step 0, .step 0].foldl (Consumers.step .hyphenated ['q'])
    (idleConsumers sampleStored)

end NovaRuntime.Queue
