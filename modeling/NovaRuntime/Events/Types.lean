/-
# NovaRuntime.Events.Types — events, topics and subscriptions of `nova-event`

An event type is a dotted name; a topic pattern is one with wildcards: `+` for one segment, `*`
for all that follow, at the end only (`multi_last_of_new`).

What a content filter says of a payload is a function here, and a channel is known by the number
of its sender.
-/
import NovaRuntime.Library.Text

namespace NovaRuntime.Events

open NovaRuntime.Library

set_option autoImplicit false

inductive EventError where
  | payloadTooLarge (size max : Nat)
  | invalidEventType (message : Text)
  | invalidPattern (message : Text)
  | busFull (message : Text)
  | subscriberNotFound
  deriving DecidableEq

/-! ## Names -/

structure EventType where
  segments : List Text
  canonical : Text
  deriving DecidableEq

inductive PatternSegment where
  | literal (lit : Text)
  | singleWildcard
  | multiWildcard
  deriving DecidableEq

structure TopicPattern where
  segments : List PatternSegment
  canonical : Text
  deriving DecidableEq

namespace TopicPattern

def segment (s : Text) : PatternSegment :=
  if s = "+".toList then .singleWildcard else if s = "*".toList then .multiWildcard else .literal s

/-- The loop of `new`, which knows whether a `*` has been seen. -/
def readSegments (pattern : Text) : Bool → List Text → Except EventError (List PatternSegment)
  | _, [] => .ok []
  | hasMulti, s :: rest =>
    if hasMulti then .error (.invalidPattern ("'*' must be last segment: ".toList ++ pattern))
    else do
      let segments ← readSegments pattern (segment s = .multiWildcard) rest
      .ok (segment s :: segments)

def new (pattern : Text) : Except EventError TopicPattern :=
  if pattern = [] then .error (.invalidPattern "empty pattern".toList)
  else
    let rawSegments := pattern.splitOn '.'
    if [] ∈ rawSegments then .error (.invalidPattern ("empty segment in pattern: ".toList ++ pattern))
    else do
      let segments ← readSegments pattern false rawSegments
      .ok { canonical := pattern, segments }

def segmentsMatch : List PatternSegment → List Text → Bool
  | .multiWildcard :: _, _ => true
  | .singleWildcard :: pattern, _ :: event => segmentsMatch pattern event
  | .literal p :: pattern, e :: event => if p = e then segmentsMatch pattern event else false
  | [], [] => true
  | _, _ => false

/-- `TopicPattern::matches`. -/
def «matches» (topic : TopicPattern) (eventType : EventType) : Bool :=
  segmentsMatch topic.segments eventType.segments

/-- Nothing follows a `*`. -/
def MultiLast : List PatternSegment → Prop
  | [] => True
  | segment :: rest => (segment = .multiWildcard → rest = []) ∧ MultiLast rest

theorem multiLast_of_read {pattern : Text} {hasMulti : Bool} {raw : List Text} {segments : List PatternSegment}
    (read : readSegments pattern hasMulti raw = .ok segments) : MultiLast segments ∧ (hasMulti = true → segments = []) := by
  induction raw generalizing hasMulti segments with
  | nil =>
    cases read
    exact ⟨trivial, fun _ => rfl⟩
  | cons s raw ih =>
    rw [readSegments] at read
    cases hasMulti with
    | true => cases read
    | false =>
      rw [if_neg Bool.false_ne_true] at read
      cases rest : readSegments pattern (segment s = .multiWildcard) raw with
      | error e =>
        rw [rest] at read
        cases read
      | ok segments' =>
        rw [rest] at read
        cases read
        obtain ⟨last, none⟩ := ih rest
        exact ⟨⟨fun isMulti => none (by simpa using isMulti), last⟩, nofun⟩

/-- **A pattern that is accepted** has a `*` at its end or none. -/
theorem multi_last_of_new {pattern : Text} {topic : TopicPattern} (accepted : new pattern = .ok topic) :
    MultiLast topic.segments := by
  rw [new] at accepted
  dsimp only at accepted
  split at accepted
  · cases accepted
  · split at accepted
    · cases accepted
    · cases read : readSegments pattern false (pattern.splitOn '.') with
      | error e =>
        rw [read] at accepted
        cases accepted
      | ok segments =>
        rw [read] at accepted
        cases accepted
        exact (multiLast_of_read read).1

end TopicPattern

/-! ## Events -/

inductive Subsystem where
  | storage | execution | auth | queue | scheduler | search | blob | api | system
  deriving DecidableEq

structure EventId where
  bytes : Bytes
  deriving DecidableEq

/-- The first six bytes. -/
def EventId.timestamp (id : EventId) : Nat := (id.bytes.take 6).foldl (fun n b => n * 256 + b.toNat) 0

structure EventSource where
  subsystem : Subsystem
  component : Text
  nodeId : Text
  instanceId : Text
  deriving DecidableEq

inductive EventPriority where
  | low | normal | high | critical
  deriving DecidableEq

structure TraceContext where
  traceId : Bytes
  spanId : Bytes
  parentSpanId : Option Bytes
  sampled : Bool
  baggage : List (Text × Text)
  deriving DecidableEq

structure EventMetadata where
  eventId : EventId
  eventType : EventType
  source : EventSource
  timestamp : Nat
  orderingKey : Option Text
  contentType : Text
  payloadSize : Nat
  ttlMs : Nat
  priority : EventPriority
  persistent : Bool
  schemaVersion : Nat
  traceContext : Option TraceContext
  deriving DecidableEq

structure Event where
  metadata : EventMetadata
  payload : Bytes
  deriving DecidableEq

/-! ## Subscriptions -/

abbrev Uuid := BitVec 128

structure SubscriberId where
  id : Text
  subsystem : Subsystem
  name : Text
  deriving DecidableEq

/-- What a filter says of a payload. -/
structure ContentFilter where
  accepts : Bytes → Bool

def ContentFilter.evaluate (filter : ContentFilter) (event : Event) : Bool := filter.accepts event.payload

structure Subscription where
  id : Uuid
  subscriber : SubscriberId
  topic : TopicPattern
  contentFilter : Option ContentFilter
  active : Bool
  sender : Nat

end NovaRuntime.Events
