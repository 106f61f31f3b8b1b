/-
# NovaRuntime.Events.Bus — `EventBus` of `bus.rs`, with its store and its channels

Each subscription sends into a channel of its own bounded queue. What the receiving side does
while a sender is blocked comes from outside, as a `Receivers`: the channel when the sender is
woken up, or nothing if that never happens. The answers of the channel during a replay come from
outside as well, since receivers may take events out at any time.

A remainder by zero is a panic, and so is an offset that leaves 64 bits.
-/
import Mathlib.Logic.Function.Basic
import NovaRuntime.Events.Trie
import NovaRuntime.Library.Outcome

namespace NovaRuntime.Events

open NovaRuntime.Library

set_option autoImplicit false

/-! ## The store -/

structure StoredEvent where
  offset : Nat
  eventId : EventId
  eventType : EventType
  timestamp : Nat
  orderingKey : Option Text
  payload : Bytes
  traceContext : Option TraceContext
  deriving DecidableEq

structure EventStore where
  events : List StoredEvent
  nextOffset : Nat
  maxEntries : Nat

namespace EventStore

def new (maxEntries : Nat) : EventStore := { events := [], nextOffset := 0, maxEntries }

/-- The oldest events are dropped when there are too many. -/
def append (store : EventStore) (event : Event) : EventStore :=
  let stored : StoredEvent := {
    offset := store.nextOffset
    eventId := event.metadata.eventId
    eventType := event.metadata.eventType
    timestamp := event.metadata.timestamp
    orderingKey := event.metadata.orderingKey
    payload := event.payload
    traceContext := event.metadata.traceContext }
  let events := store.events ++ [stored]
  { store with
    events := if events.length > store.maxEntries then events.drop (events.length - store.maxEntries) else events
    nextOffset := store.nextOffset + 1 }

def scanFrom (store : EventStore) (offset limit : Nat) : List StoredEvent :=
  let start := (store.events.findIdx? fun e => decide (offset ≤ e.offset)).getD store.events.length
  if store.events.length ≤ start then [] else (store.events.drop start).take limit

end EventStore

/-! ## Channels -/

/-- A channel without a capacity is unbounded. -/
structure Channel where
  capacity : Option Nat
  queue : List Event
  connected : Bool

namespace Channel

def full (c : Channel) : Bool := (c.capacity.map fun n => decide (n ≤ c.queue.length)).getD false

def push (c : Channel) (event : Event) : Channel := { c with queue := c.queue ++ [event] }

inductive Sent where
  | ok (c : Channel)
  | full
  | disconnected

def trySend (c : Channel) (event : Event) : Sent :=
  if c.connected = false then .disconnected else if c.full then .full else .ok (c.push event)

end Channel

/-- The channels by the number of their sender. -/
abbrev Channels := Nat → Channel

/-- What becomes of the channel of a blocked sender: events are taken from its front until there
is room, or its receivers go away. -/
structure Receivers where
  wake : Nat → Channel → Option Channel
  capacity : ∀ n c c', wake n c = some c' → c'.capacity = c.capacity
  front : ∀ n c c', wake n c = some c' → ∃ taken, c'.queue = c.queue.drop taken
  room : ∀ n c c', wake n c = some c' → c'.full = false ∨ c'.connected = false

/-! ## The bus -/

inductive OverflowPolicy where
  | dropNewest | dropOldest | rejectPublisher | blockPublisher
  deriving DecidableEq

structure DeadLetterEntry where
  event : Event
  failedSubscriber : SubscriberId
  failureReason : Text
  failureTimestamp : Nat
  retryCount : Nat
  lastError : Text

structure DeadLetterQueue where
  entries : List DeadLetterEntry
  maxSize : Nat

def DeadLetterQueue.push (q : DeadLetterQueue) (entry : DeadLetterEntry) : DeadLetterQueue :=
  { q with entries := (if q.maxSize ≤ q.entries.length then q.entries.drop 1 else q.entries) ++ [entry] }

structure BusMetrics where
  eventsPublishedTotal : UInt64 := 0
  eventsDeliveredTotal : UInt64 := 0
  queueDroppedTotal : UInt64 := 0
  queueRejectedTotal : UInt64 := 0
  replayEventsTotal : UInt64 := 0

structure EventBus where
  trie : SubscriptionTrie
  shardCount : Nat
  overflowPolicy : OverflowPolicy
  maxPayloadSize : Nat
  deadLetterQueue : DeadLetterQueue
  metrics : BusMetrics
  eventStore : EventStore
  channels : Channels

namespace EventBus

def new (shardCount : Nat) (overflowPolicy : OverflowPolicy) (maxPayloadSize storeMaxEntries : Nat)
    (channels : Channels) : EventBus :=
  { trie := .new, shardCount, overflowPolicy, maxPayloadSize
    deadLetterQueue := { entries := [], maxSize := 100000 }, metrics := {}, eventStore := .new storeMaxEntries, channels }

abbrev Method (α : Type) := Exec EventError EventBus α

def setChannel (n : Nat) (c : Channel) : Method Unit :=
  Exec.modify fun bus => { bus with channels := Function.update bus.channels n c }

def count (f : BusMetrics → BusMetrics) : Method Unit := Exec.modify fun bus => { bus with metrics := f bus.metrics }

def delivered (m : BusMetrics) : BusMetrics := { m with eventsDeliveredTotal := m.eventsDeliveredTotal + 1 }
def dropped (m : BusMetrics) : BusMetrics := { m with queueDroppedTotal := m.queueDroppedTotal + 1 }
def rejected (m : BusMetrics) : BusMetrics := { m with queueRejectedTotal := m.queueRejectedTotal + 1 }

/-- The subscription is switched on, and its filter lets the event through. -/
def wants (event : Event) (sub : Subscription) : Bool :=
  sub.active && (sub.contentFilter.map fun filter => filter.evaluate event).getD true

/-- The turn of one subscription in the loop of `publish`. -/
def deliver (receivers : Receivers) (event : Event) (timestamp : Nat) (sub : Subscription) : Method Unit :=
  if wants event sub = false then pure ()
  else do
    let bus ← Exec.get
    -- the shard is a hash or a counter modulo `shard_count`, and is not used any further
    if bus.shardCount = 0 then Exec.lift .panic
    else
      match (bus.channels sub.sender).trySend event with
      | .ok c => do
          setChannel sub.sender c
          count delivered
      | .full =>
        match bus.overflowPolicy with
        | .dropNewest | .dropOldest => count dropped
        | .rejectPublisher => do
            count rejected
            Exec.lift (.err (.busFull "subscriber channel at capacity".toList))
        | .blockPublisher =>
          match receivers.wake sub.sender (bus.channels sub.sender) with
          | none => Exec.lift .hang
          | some c =>
            if c.connected then do
              setChannel sub.sender (c.push event)
              count delivered
            else do
              setChannel sub.sender c
              count dropped
      | .disconnected =>
        Exec.modify fun bus => { bus with
          deadLetterQueue := bus.deadLetterQueue.push {
            event
            failedSubscriber := sub.subscriber
            failureReason := "subscriber channel disconnected".toList
            failureTimestamp := timestamp
            retryCount := 0
            lastError := "crossbeam channel disconnected".toList } }

def deliverAll (receivers : Receivers) (event : Event) (timestamp : Nat) : List Subscription → Method Unit
  | [] => pure ()
  | sub :: subs => do
      deliver receivers event timestamp sub
      deliverAll receivers event timestamp subs

/-- The event as it is sent: with its number, its time and the size of its payload. -/
def stamped (eventId : EventId) (event : Event) : Event :=
  { event with
    metadata := { event.metadata with
      eventId, timestamp := eventId.timestamp, payloadSize := event.payload.length % 2 ^ 32 } }

/-- `eventId` is what `EventId::new` returns. -/
def publish (receivers : Receivers) (eventId : EventId) (event : Event) : Method EventId := do
  let bus ← Exec.get
  if event.metadata.eventType.segments.length < 2 then
    Exec.lift (.err (.invalidEventType "event type must have at least 2 segments".toList))
  else if bus.maxPayloadSize < event.payload.length then
    Exec.lift (.err (.payloadTooLarge event.payload.length bus.maxPayloadSize))
  else do
    let event := stamped eventId event
    count fun m => { m with eventsPublishedTotal := m.eventsPublishedTotal + 1 }
    deliverAll receivers event eventId.timestamp (bus.trie.lookup event.metadata.eventType)
    if event.metadata.persistent then
      Exec.modify fun bus => { bus with eventStore := bus.eventStore.append event }
    pure eventId

end EventBus

end NovaRuntime.Events
