/-
# NovaRuntime.Events.Replay — `EventBus::replay` of `bus.rs`

The loop goes through the store in pages of a thousand events. A page begins after the event
that was accepted last, so a cursor that stands still reads the same page again. `answers pass n`
is what the channel says to the `n`-th event that is offered in a pass, since receivers may take
events out at any time.

`Exact` is what a replay is for. `exact_iff` says when a replay ends and is exact.
-/
import Mathlib.Data.List.TakeWhile
import NovaRuntime.Events.Bus

namespace NovaRuntime.Events

open NovaRuntime.Library

set_option autoImplicit false

structure ReplayCursor where
  subscriberId : Text
  lastProcessedOffset : Nat
  lastProcessedTimestamp : Nat
  targetTimestamp : Option Nat
  deriving DecidableEq

/-- An event as it is sent again. -/
def StoredEvent.replayed (stored : StoredEvent) : Event :=
  { metadata := {
      eventId := stored.eventId
      eventType := stored.eventType
      source := {
        subsystem := .system, component := "replay".toList, nodeId := "local".toList
        instanceId := "default".toList }
      timestamp := stored.timestamp
      orderingKey := stored.orderingKey
      contentType := "application/x-msgpack".toList
      payloadSize := stored.payload.length % 2 ^ 32
      ttlMs := 0
      priority := .normal
      persistent := false
      schemaVersion := 1
      traceContext := stored.traceContext }
    payload := stored.payload }

/-- The event is later than the target. -/
def StoredEvent.late (target : Option Nat) (stored : StoredEvent) : Bool :=
  (target.map fun t => decide (t < stored.timestamp)).getD false

/-- A `try_send` of a replay, and its answer. -/
structure Sending where
  sender : Nat
  stored : StoredEvent
  event : Event
  accepted : Bool

/-- A replay on its way: its cursor, what it has sent, and how much of it in this pass. -/
structure Replay where
  current : ReplayCursor
  sendings : List Sending
  asked : Nat
  metrics : BusMetrics

namespace EventBus

/-! ## The code -/

def pageLimit : Nat := 1000

/-- `checkpoint_count` is not read and is left out. -/
def replaySend (answers : Nat → Bool) (sub : Subscription) (r : Replay) (stored : StoredEvent) : Replay :=
  let accepted := answers r.asked
  let r := { r with
    sendings := r.sendings ++ [{ sender := sub.sender, stored, event := stored.replayed, accepted }]
    asked := r.asked + 1 }
  if accepted then
    { r with
      metrics := { r.metrics with
        eventsDeliveredTotal := r.metrics.eventsDeliveredTotal + 1
        replayEventsTotal := r.metrics.replayEventsTotal + 1 }
      current := { r.current with lastProcessedOffset := stored.offset, lastProcessedTimestamp := stored.timestamp } }
  else r

/-- One event for one subscription. -/
def replayOffer (answers : Nat → Bool) (stored : StoredEvent) (r : Replay) (sub : Subscription) : Replay :=
  if sub.active = false then r
  else if sub.topic.matches stored.eventType = false then r
  else if (sub.contentFilter.map fun filter => filter.evaluate stored.replayed).getD true = false then r
  else replaySend answers sub r stored

/-- The events of a page, and whether one is later than the target. -/
def replayPage (answers : Nat → Bool) (subs : List Subscription) (target : Option Nat) :
    List StoredEvent → Replay → Bool × Replay
  | [], r => (false, r)
  | stored :: page, r =>
    if stored.late target then (true, r)
    else replayPage answers subs target page (subs.foldl (replayOffer answers stored) r)

/-- A loop that has not ended when the fuel is used up hangs. -/
def replayLoop (answers : Nat → Nat → Bool) (store : EventStore) (subs : List Subscription) (target : Option Nat) :
    Nat → Nat → Replay → Outcome EventError ReplayCursor × Replay
  | 0, _, r => (.hang, r)
  | fuel + 1, pass, r =>
    if 2 ^ 64 ≤ r.current.lastProcessedOffset + 1 then (.panic, r)
    else
      let page := store.scanFrom (r.current.lastProcessedOffset + 1) pageLimit
      if page = [] then (.ok r.current, r)
      else
        let done := replayPage (answers pass) subs target page { r with asked := 0 }
        if done.1 then (.ok done.2.current, done.2)
        else if page.length < pageLimit then (.ok done.2.current, done.2)
        else replayLoop answers store subs target fuel (pass + 1) done.2

def subscriptionsOf (bus : EventBus) (subscriberId : SubscriberId) : List Subscription :=
  bus.trie.allSubscriptions.filter fun s =>
    s.subscriber.id = subscriberId.id && s.subscriber.subsystem = subscriberId.subsystem &&
      s.subscriber.name = subscriberId.name

def replay (answers : Nat → Nat → Bool) (fuel : Nat) (subscriberId : SubscriberId) (cursor : ReplayCursor)
    (bus : EventBus) : Outcome EventError ReplayCursor × Replay :=
  let subs := bus.subscriptionsOf subscriberId
  let start : Replay := { current := cursor, sendings := [], asked := 0, metrics := bus.metrics }
  if subs.isEmpty then (.err .subscriberNotFound, start)
  else replayLoop answers bus.eventStore subs cursor.targetTimestamp fuel 0 start

end EventBus

/-! ## The store -/

namespace EventStore

/-- The offsets ascend, and the next one fits in 64 bits. -/
structure Sound (store : EventStore) : Prop where
  ascending : store.events.Pairwise fun e e' => e.offset < e'.offset
  below : ∀ e ∈ store.events, e.offset < store.nextOffset
  fits : store.nextOffset < 2 ^ 64

theorem sound_new (maxEntries : Nat) : (new maxEntries).Sound := ⟨.nil, nofun, Nat.two_pow_pos 64⟩

theorem Sound.append {store : EventStore} (sound : store.Sound) (event : Event) (fits : store.nextOffset + 1 < 2 ^ 64) :
    (store.append event).Sound := by
  obtain ⟨stored, kept, isNext⟩ : ∃ stored : StoredEvent,
      (store.append event).events.Sublist (store.events ++ [stored]) ∧ stored.offset = store.nextOffset := by
    refine ⟨{
      offset := store.nextOffset, eventId := event.metadata.eventId, eventType := event.metadata.eventType
      timestamp := event.metadata.timestamp, orderingKey := event.metadata.orderingKey, payload := event.payload
      traceContext := event.metadata.traceContext }, ?_, rfl⟩
    rw [EventStore.append]
    dsimp only
    split
    · exact List.drop_sublist ..
    · exact .refl _
  refine ⟨List.Pairwise.sublist kept ?_, fun e member => ?_, fits⟩
  · refine List.pairwise_append.mpr ⟨sound.ascending, List.pairwise_singleton .., fun e old e' new' => ?_⟩
    rw [List.mem_singleton.mp new', isNext]
    exact sound.below e old
  · rcases List.mem_append.mp (kept.subset member) with old | new'
    · exact Nat.lt_succ_of_lt (sound.below e old)
    · rw [List.mem_singleton.mp new', isNext]
      exact Nat.lt_succ_self _

/-- **Every store** that events are appended to, as long as their number fits in 64 bits. -/
theorem sound_of_appends (maxEntries : Nat) (published : List Event) (fits : published.length < 2 ^ 64) :
    (published.foldl append (new maxEntries)).Sound := by
  have next : ∀ store : EventStore, store.Sound → store.nextOffset + published.length < 2 ^ 64 →
      (published.foldl append store).Sound := by
    clear fits
    induction published with
    | nil => exact fun _ sound _ => sound
    | cons event published ih =>
      intro store sound fits
      rw [List.length_cons] at fits
      exact ih _ (sound.append event (by omega)) (by rw [show (store.append event).nextOffset = store.nextOffset + 1 from rfl]; omega)
  exact next _ (sound_new maxEntries) (by rw [show (new maxEntries).nextOffset = 0 from rfl]; omega)

/-- What comes after an offset. -/
def after (store : EventStore) (offset : Nat) : List StoredEvent := store.events.filter fun e => decide (offset < e.offset)

theorem drop_findIdx {events : List StoredEvent} (ascending : events.Pairwise fun e e' => e.offset < e'.offset)
    (offset : Nat) :
    events.drop ((events.findIdx? fun e => decide (offset + 1 ≤ e.offset)).getD events.length) =
      events.filter fun e => decide (offset < e.offset) := by
  induction events with
  | nil => rfl
  | cons e events ih =>
    obtain ⟨first, rest⟩ := List.pairwise_cons.mp ascending
    rw [List.findIdx?_cons]
    by_cases found : offset < e.offset
    · have later : ∀ e' ∈ e :: events, decide (offset < e'.offset) = true := by
        intro e' member
        rcases List.mem_cons.mp member with rfl | member
        · exact decide_eq_true found
        · exact decide_eq_true (lt_trans found (first e' member))
      rw [if_pos (decide_eq_true (Nat.succ_le_of_lt found)), List.filter_eq_self.mpr later]
      rfl
    · rw [if_neg (by simpa [Nat.succ_le_iff] using found), List.filter_cons_of_neg (by simpa using found), ← ih rest]
      cases events.findIdx? fun e => decide (offset + 1 ≤ e.offset) with
      | none => rfl
      | some n => rfl

/-- **A scan** is the beginning of what comes after. -/
theorem Sound.scanFrom {store : EventStore} (sound : store.Sound) (offset limit : Nat) :
    store.scanFrom (offset + 1) limit = (store.after offset).take limit := by
  rw [EventStore.scanFrom, after, ← drop_findIdx sound.ascending offset]
  split
  next past => rw [List.drop_of_length_le past, List.take_nil]
  next => rfl

end EventStore

/-! ## What a replay is for -/

namespace ReplayCursor

/-- Nothing has been processed. -/
def Fresh (c : ReplayCursor) : Prop := c.lastProcessedOffset = 0 ∧ c.lastProcessedTimestamp = 0

instance (c : ReplayCursor) : Decidable c.Fresh := inferInstanceAs (Decidable (_ ∧ _))

/-- The event comes after the position of the cursor. A fresh one stands before the first. -/
def Before (c : ReplayCursor) (e : StoredEvent) : Prop := c.lastProcessedOffset < e.offset ∨ c.Fresh

instance (c : ReplayCursor) (e : StoredEvent) : Decidable (c.Before e) := inferInstanceAs (Decidable (_ ∨ _))

def moved (c : ReplayCursor) (e : StoredEvent) : ReplayCursor :=
  { c with lastProcessedOffset := e.offset, lastProcessedTimestamp := e.timestamp }

end ReplayCursor

namespace Replay

/-- The subscription asks for the event, and it is not later than the target. -/
def asksFor (sub : Subscription) (target : Option Nat) (e : StoredEvent) : Bool :=
  sub.topic.matches e.eventType && (sub.contentFilter.map fun filter => filter.evaluate e.replayed).getD true && !e.late target

/-- **What is still to be sent** to a subscription. -/
def owed (store : EventStore) (sub : Subscription) (c : ReplayCursor) : List StoredEvent :=
  store.events.filter fun e => decide (c.Before e) && asksFor sub c.targetTimestamp e

def acceptedOf (sendings : List Sending) : List StoredEvent := (sendings.filter Sending.accepted).map Sending.stored

def refusedOf (sendings : List Sending) : List StoredEvent :=
  (sendings.filter fun s => !s.accepted).map Sending.stored

/-- **What has been accepted is the beginning of what was owed**, and what is left is what the new
cursor still owes. It has been tried. -/
structure Exact (store : EventStore) (sub : Subscription) (cursor returned : ReplayCursor) (sendings : List Sending) :
    Prop where
  owed : owed store sub cursor = acceptedOf sendings ++ owed store sub returned
  refused : ∀ e ∈ Replay.owed store sub returned, e ∈ refusedOf sendings
  sent : ∀ s ∈ sendings, s.sender = sub.sender ∧ s.event = s.stored.replayed

/-- A replay ends, and is exact. -/
def Ends (bus : EventBus) (answers : Nat → Nat → Bool) (subscriberId : SubscriberId) (sub : Subscription)
    (cursor : ReplayCursor) : Prop :=
  ∃ fuel returned r, EventBus.replay answers fuel subscriberId cursor bus = (.ok returned, r) ∧
    Exact bus.eventStore sub cursor returned r.sendings

/-! ## The passes -/

/-- What the channel gives an answer to, from its `n`-th on. -/
def answered (answers : Nat → Bool) (answer : Bool) : Nat → List StoredEvent → List StoredEvent
  | _, [] => []
  | n, e :: es =>
    if answers n = answer then e :: answered answers answer (n + 1) es else answered answers answer (n + 1) es

/-- A subscription that asks a store for what comes after a cursor. -/
structure Request where
  store : EventStore
  sub : Subscription
  cursor : ReplayCursor

/-- A channel that has refused an event refuses the later ones of the pass. -/
def Orderly (answers : Nat → Bool) (count : Nat) : Prop :=
  ∀ i j, i < j → j < count → answers j = true → answers i = true

namespace Request

variable (request : Request) (answers : Nat → Nat → Bool)

def target : Option Nat := request.cursor.targetTimestamp

def asks (e : StoredEvent) : Bool := asksFor request.sub request.target e

/-- The page that is read after an offset. -/
def page (offset : Nat) : List StoredEvent := (request.store.after offset).take EventBus.pageLimit

/-- What is offered of it to the channel. -/
def offered (offset : Nat) : List StoredEvent :=
  ((request.page offset).takeWhile fun e => !e.late request.target).filter request.asks

/-- The page is whole, and nothing on it is too late: another pass follows. -/
def Goes (offset : Nat) : Prop :=
  (request.page offset).length = EventBus.pageLimit ∧ ∀ e ∈ request.page offset, e.late request.target = false

/-- The offset after which a pass reads. -/
def position : Nat → Nat
  | 0 => request.cursor.lastProcessedOffset
  | pass + 1 =>
    ((answered (answers pass) true 0 (request.offered (position pass))).getLast?.map StoredEvent.offset).getD
      (position pass)

/-- The events that get an answer in a pass. -/
def told (answer : Bool) (pass : Nat) : List StoredEvent :=
  answered (answers pass) answer 0 (request.offered (request.position answers pass))

/-- No event is skipped at the beginning or at the end, no pass accepts an event after it has
refused one, and a whole page holds an event that some pass accepts. -/
structure Meets : Prop where
  room : request.cursor.lastProcessedOffset + 1 < 2 ^ 64
  first : request.cursor.Fresh → ∀ e ∈ request.store.events, e.offset = 0 → request.asks e = false
  last : ∀ e ∈ request.store.events, e.late request.target = true → request.cursor.lastProcessedOffset < e.offset →
    ∀ w ∈ request.store.events, e.offset < w.offset → request.asks w = false
  passes : ∀ pass, (∀ q < pass, request.Goes (request.position answers q)) →
    Orderly (answers pass) (request.offered (request.position answers pass)).length ∧
    (request.Goes (request.position answers pass) →
      request.offered (request.position answers pass) ≠ [] ∧ ∃ later ≥ pass, answers later 0 = true)

end Request

/-! ### Answers -/

section Answers

variable {answers : Nat → Bool} {n : Nat} {es : List StoredEvent}

theorem answered_sublist (answer : Bool) : (answered answers answer n es).Sublist es := by
  induction es generalizing n with
  | nil => exact .slnil
  | cons e es ih =>
    rw [answered]
    split
    · exact .cons_cons e ih
    · exact .cons e ih

theorem mem_answered {answer : Bool} {e : StoredEvent} :
    e ∈ answered answers answer n es ↔ ∃ i, es[i]? = some e ∧ answers (n + i) = answer := by
  induction es generalizing n with
  | nil => simp [answered]
  | cons first es ih =>
    have later : (∃ i, (first :: es)[i]? = some e ∧ answers (n + i) = answer) ↔
        (first = e ∧ answers n = answer) ∨ ∃ i, es[i]? = some e ∧ answers (n + 1 + i) = answer := by
      constructor
      · rintro ⟨i, here, yes⟩
        cases i with
        | zero => exact .inl ⟨Option.some.inj here, yes⟩
        | succ i => exact .inr ⟨i, here, by rw [← yes]; congr 1; omega⟩
      · rintro (⟨rfl, yes⟩ | ⟨i, here, yes⟩)
        · exact ⟨0, rfl, yes⟩
        · exact ⟨i + 1, here, by rw [← yes]; congr 1; omega⟩
    rw [answered, later]
    split
    next yes => rw [List.mem_cons, ih, eq_comm, and_iff_left yes]
    next no => rw [ih, or_iff_right fun first => no first.2]

/-- Orderly answers cut a list in two. -/
theorem answered_append (orderly : ∀ i j, i < j → j < es.length → answers (n + j) = true → answers (n + i) = true) :
    answered answers true n es ++ answered answers false n es = es := by
  induction es generalizing n with
  | nil => rfl
  | cons e es ih =>
    have rest := ih (n := n + 1) fun i j before inside yes => by
      have shift : ∀ k, n + 1 + k = n + (k + 1) := fun k => by omega
      rw [shift] at yes ⊢
      exact orderly (i + 1) (j + 1) (by omega) (by rw [List.length_cons]; omega) yes
    rw [answered, answered]
    cases here : answers n with
    | true => rw [if_pos rfl, if_neg (by simp), List.cons_append, rest]
    | false =>
      -- nothing is taken any more
      have none : answered answers true (n + 1) es = [] := by
        refine List.eq_nil_iff_forall_not_mem.mpr fun e' member => ?_
        obtain ⟨i, inside, yes⟩ := mem_answered.mp member
        have count := (List.getElem?_eq_some_iff.mp inside).1
        have first := orderly 0 (i + 1) (by omega) (by rw [List.length_cons]; omega)
          (by rw [← yes]; congr 1; omega)
        rw [Nat.add_zero, here] at first
        cases first
      rw [none, List.nil_append] at rest
      rw [if_neg (by simp), if_pos rfl, none, List.nil_append, rest]

end Answers

/-! ### The code goes through the passes -/

section Code

variable {answers : Nat → Bool} {subs : List Subscription} {sub : Subscription} {target : Option Nat}

/-- Only the active subscription counts. -/
theorem foldl_offer (only : subs.filter Subscription.active = [sub]) (stored : StoredEvent) (r : Replay) :
    subs.foldl (EventBus.replayOffer answers stored) r = EventBus.replayOffer answers stored r sub := by
  have passed : subs.foldl (EventBus.replayOffer answers stored) r =
      (subs.filter Subscription.active).foldl (EventBus.replayOffer answers stored) r := by
    clear only
    induction subs generalizing r with
    | nil => rfl
    | cons s subs ih =>
      cases active : s.active with
      | true => rw [List.filter_cons_of_pos active, List.foldl_cons, List.foldl_cons, ih]
      | false => rw [List.filter_cons_of_neg (by simp [active]), List.foldl_cons, EventBus.replayOffer, if_pos active, ih]
  rw [passed, only]
  rfl

theorem replayOffer_eq (active : sub.active = true) {stored : StoredEvent} (early : stored.late target = false) (r : Replay) :
    EventBus.replayOffer answers stored r sub =
      if asksFor sub target stored then EventBus.replaySend answers sub r stored else r := by
  rw [EventBus.replayOffer, if_neg (by simp [active]), asksFor, early]
  cases sub.topic.matches stored.eventType with
  | false => rfl
  | true =>
    rw [if_neg (by simp)]
    cases (sub.contentFilter.map fun filter => filter.evaluate stored.replayed).getD true with
    | false => rfl
    | true => rfl

/-- **A pass** offers what the subscription asks for, up to the first event that is too late. -/
theorem replayPage_eq (only : subs.filter Subscription.active = [sub]) (page : List StoredEvent) (r : Replay) :
    EventBus.replayPage answers subs target page r = (page.any (StoredEvent.late target),
      ((page.takeWhile fun e => !e.late target).filter (asksFor sub target)).foldl (EventBus.replaySend answers sub) r) := by
  have active : sub.active = true := List.of_mem_filter (only ▸ List.mem_singleton_self sub)
  induction page generalizing r with
  | nil => rfl
  | cons stored page ih =>
    rw [EventBus.replayPage, List.any_cons, List.takeWhile_cons]
    cases late : stored.late target with
    | true => rfl
    | false =>
      rw [if_neg Bool.false_ne_true, ih, foldl_offer only, replayOffer_eq active late, Bool.false_or,
        Bool.not_false, if_pos rfl]
      cases asks : asksFor sub target stored with
      | true => rw [if_pos rfl, List.filter_cons_of_pos asks, List.foldl_cons]
      | false => rw [if_neg Bool.false_ne_true, List.filter_cons_of_neg (by simp [asks])]

/-- What the events that are offered do to a replay. -/
structure Offered (answers : Nat → Bool) (sub : Subscription) (es : List StoredEvent) (r r' : Replay) : Prop where
  accepted : acceptedOf r'.sendings = acceptedOf r.sendings ++ answered answers true r.asked es
  refused : refusedOf r'.sendings = refusedOf r.sendings ++ answered answers false r.asked es
  current : r'.current = ((answered answers true r.asked es).getLast?.map r.current.moved).getD r.current
  sent : (∀ s ∈ r.sendings, s.sender = sub.sender ∧ s.event = s.stored.replayed) →
    ∀ s ∈ r'.sendings, s.sender = sub.sender ∧ s.event = s.stored.replayed

theorem replaySend_sendings (r : Replay) (e : StoredEvent) : (EventBus.replaySend answers sub r e).sendings =
    r.sendings ++ [{ sender := sub.sender, stored := e, event := e.replayed, accepted := answers r.asked }] := by
  rw [EventBus.replaySend]
  dsimp only
  split <;> rfl

theorem replaySend_asked (r : Replay) (e : StoredEvent) :
    (EventBus.replaySend answers sub r e).asked = r.asked + 1 := by
  rw [EventBus.replaySend]
  dsimp only
  split <;> rfl

theorem replaySend_current (r : Replay) (e : StoredEvent) :
    (EventBus.replaySend answers sub r e).current = if answers r.asked then r.current.moved e else r.current := by
  rw [EventBus.replaySend]
  dsimp only
  split <;> rfl

theorem offered_of_foldl (answers : Nat → Bool) (sub : Subscription) (es : List StoredEvent) (r : Replay) :
    Offered answers sub es r (es.foldl (EventBus.replaySend answers sub) r) := by
  induction es generalizing r with
  | nil => exact ⟨(List.append_nil _).symm, (List.append_nil _).symm, rfl, fun sent => sent⟩
  | cons e es ih =>
    have rest := ih (EventBus.replaySend answers sub r e)
    rw [List.foldl_cons]
    refine ⟨?_, ?_, ?_, fun sent => rest.sent fun s member => ?_⟩
    · rw [rest.accepted, replaySend_asked, answered, acceptedOf, replaySend_sendings, List.filter_append, List.map_append]
      cases here : answers r.asked <;> simp [acceptedOf]
    · rw [rest.refused, replaySend_asked, answered, refusedOf, replaySend_sendings, List.filter_append, List.map_append]
      cases here : answers r.asked <;> simp [refusedOf]
    · rw [rest.current, replaySend_asked, answered, replaySend_current]
      cases here : answers r.asked with
      | false => rfl
      | true =>
        -- the last event that was accepted decides
        rw [if_pos rfl, if_pos rfl, List.getLast?_cons]
        cases (answered answers true (r.asked + 1) es).getLast? with
        | none | some last => rfl
    · rw [replaySend_sendings] at member
      rcases List.mem_append.mp member with old | new'
      · exact sent s old
      · rw [List.mem_singleton.mp new']
        exact ⟨rfl, rfl⟩

end Code

namespace Request

variable {request : Request} {answers : Nat → Nat → Bool}
variable {offset : Nat} {r : Replay} {e : StoredEvent}

theorem mem_offered (offered : e ∈ request.offered offset) :
    e ∈ request.store.events ∧ offset < e.offset ∧ request.asks e = true := by
  obtain ⟨inside, asks⟩ := List.mem_filter.mp offered
  have after := List.mem_of_mem_take ((List.takeWhile_prefix _).subset inside)
  obtain ⟨stored, later⟩ := List.mem_filter.mp after
  exact ⟨stored, of_decide_eq_true later, asks⟩

theorem ascending_offered (sound : request.store.Sound) (offset : Nat) :
    (request.offered offset).Pairwise fun e e' => e.offset < e'.offset :=
  sound.ascending.sublist <| List.filter_sublist.trans <| (List.takeWhile_sublist _).trans <|
    (List.take_sublist ..).trans List.filter_sublist

theorem mem_told {answer : Bool} {pass : Nat} (told : e ∈ request.told answers answer pass) :
    e ∈ request.store.events ∧ request.position answers pass < e.offset ∧ request.asks e = true :=
  mem_offered ((answered_sublist answer).subset told)

/-- **Where the next pass begins**: here, or after the last event that was accepted. -/
theorem position_succ (request : Request) (answers : Nat → Nat → Bool) (pass : Nat) :
    (request.told answers true pass = [] ∧ request.position answers (pass + 1) = request.position answers pass) ∨
    ∃ before e, request.told answers true pass = before ++ [e] ∧ request.position answers (pass + 1) = e.offset := by
  rcases List.eq_nil_or_concat (request.told answers true pass) with none | ⟨before, e, split⟩
  · refine .inl ⟨none, ?_⟩
    rw [told] at none
    rw [position, none]
    rfl
  · refine .inr ⟨before, e, by rw [split, List.concat_eq_append], ?_⟩
    rw [told] at split
    rw [position, split, List.concat_eq_append, List.getLast?_concat]
    rfl

theorem le_position_succ (sound : request.store.Sound) {pass : Nat}
    (accepted : e ∈ request.told answers true pass) : e.offset ≤ request.position answers (pass + 1) := by
  rcases position_succ request answers pass with ⟨none, -⟩ | ⟨before, last, split, next⟩
  · rw [none] at accepted
    cases accepted
  · have ascending := (ascending_offered sound (request.position answers pass)).sublist
      (answered_sublist true : (answered (answers pass) true 0 _).Sublist _)
    rw [told] at split accepted
    rw [split] at ascending accepted
    rw [next]
    rcases List.mem_append.mp accepted with earlier | isLast
    · exact le_of_lt ((List.pairwise_append.mp ascending).2.2 e earlier last (List.mem_singleton_self last))
    · rw [List.mem_singleton.mp isLast]

theorem position_step (request : Request) (answers : Nat → Nat → Bool) (pass : Nat) : request.position answers pass ≤ request.position answers (pass + 1) := by
  rcases position_succ request answers pass with ⟨-, same⟩ | ⟨before, last, split, next⟩
  · exact le_of_eq same.symm
  · rw [next]
    exact le_of_lt (mem_told (split ▸ List.mem_append_right before (List.mem_singleton_self last))).2.1

theorem position_mono (request : Request) (answers : Nat → Nat → Bool) {pass pass' : Nat} (le : pass ≤ pass') :
    request.position answers pass ≤ request.position answers pass' :=
  monotone_nat_of_le_succ (position_step request answers) le

/-- No position leaves 64 bits. -/
theorem position_fits (answers : Nat → Nat → Bool) (sound : request.store.Sound) (room : request.cursor.lastProcessedOffset + 1 < 2 ^ 64) (pass : Nat) :
    request.position answers pass + 1 < 2 ^ 64 := by
  induction pass with
  | zero => exact room
  | succ pass ih =>
    rcases position_succ request answers pass with ⟨-, same⟩ | ⟨before, last, split, next⟩
    · rwa [same]
    · have stored := (mem_told (split ▸ List.mem_append_right before (List.mem_singleton_self last))).1
      rw [next]
      exact lt_of_le_of_lt (Nat.succ_le_of_lt (sound.below last stored)) sound.fits

/-! ### The loop -/

/-- A replay before a pass. -/
structure Stands (request : Request) (answers : Nat → Nat → Bool) (pass : Nat) (r : Replay) : Prop where
  offset : r.current.lastProcessedOffset = request.position answers pass
  target : r.current.targetTimestamp = request.target
  moved : r.current = request.cursor ∨ 0 < r.current.lastProcessedOffset
  accepted : acceptedOf r.sendings = (List.range pass).flatMap (request.told answers true)
  refused : refusedOf r.sendings = (List.range pass).flatMap (request.told answers false)
  sent : ∀ s ∈ r.sendings, s.sender = request.sub.sender ∧ s.event = s.stored.replayed

theorem stands_start (metrics : BusMetrics) :
    request.Stands answers 0 { current := request.cursor, sendings := [], asked := 0, metrics } :=
  ⟨rfl, rfl, .inl rfl, rfl, rfl, fun _ member => absurd member List.not_mem_nil⟩

/-- What a pass makes of a replay. -/
def passed (request : Request) (answers : Nat → Nat → Bool) (pass : Nat) (r : Replay) : Replay :=
  (request.offered (request.position answers pass)).foldl (EventBus.replaySend (answers pass) request.sub)
    { r with asked := 0 }

theorem replayPage_passed {subs : List Subscription} (only : subs.filter Subscription.active = [request.sub]) (pass : Nat)
    (r : Replay) : EventBus.replayPage (answers pass) subs request.target
      (request.page (request.position answers pass)) { r with asked := 0 } =
      ((request.page (request.position answers pass)).any (StoredEvent.late request.target), passed request answers pass r) := by
  rw [replayPage_eq only]
  rfl

theorem flatMap_succ (answer : Bool) (pass : Nat) : (List.range (pass + 1)).flatMap (request.told answers answer) =
    (List.range pass).flatMap (request.told answers answer) ++ request.told answers answer pass := by
  rw [List.range_succ, List.flatMap_append, List.flatMap_singleton]

theorem Stands.pass {pass : Nat} (stands : request.Stands answers pass r) :
    request.Stands answers (pass + 1) (passed request answers pass r) := by
  have does := offered_of_foldl (answers pass) request.sub
    (request.offered (request.position answers pass)) { r with asked := 0 }
  have current : (passed request answers pass r).current =
      ((request.told answers true pass).getLast?.map r.current.moved).getD r.current := does.current
  have accepted : acceptedOf (passed request answers pass r).sendings =
      acceptedOf r.sendings ++ request.told answers true pass := does.accepted
  have refused : refusedOf (passed request answers pass r).sendings =
      refusedOf r.sendings ++ request.told answers false pass := does.refused
  refine ⟨?_, ?_, ?_, ?_, ?_, does.sent stands.sent⟩
  · rcases position_succ request answers pass with ⟨none, same⟩ | ⟨before, e, split, next⟩
    · rw [current, none, same]
      exact stands.offset
    · rw [current, split, next, List.getLast?_concat]
      rfl
  · rw [current]
    cases (request.told answers true pass).getLast? with
    | none | some e => exact stands.target
  · rcases position_succ request answers pass with ⟨none, same⟩ | ⟨before, e, split, next⟩
    · rw [current, none]
      exact stands.moved
    · rw [current, split, List.getLast?_concat]
      have stored := (mem_told (split ▸ List.mem_append_right before (List.mem_singleton_self e))).2.1
      exact .inr (Nat.zero_lt_of_lt stored)
  · rw [flatMap_succ, ← stands.accepted, accepted]
  · rw [flatMap_succ, ← stands.refused, refused]

theorem Stands.empty {pass : Nat} (stands : request.Stands answers pass r)
    (empty : request.page (request.position answers pass) = []) : request.Stands answers (pass + 1) r := by
  have next := stands.pass
  have none : request.offered (request.position answers pass) = [] := by
    rw [offered, empty]
    rfl
  rw [passed, none] at next
  exact ⟨next.offset, next.target, next.moved, next.accepted, next.refused, next.sent⟩

/-- **The loop** ends with the first pass that no other follows. -/
theorem loop_spec (sound : request.store.Sound) (room : request.cursor.lastProcessedOffset + 1 < 2 ^ 64)
    {subs : List Subscription} (only : subs.filter Subscription.active = [request.sub]) (fuel pass : Nat)
    (stands : request.Stands answers pass r) :
    (∃ last r', pass ≤ last ∧ last < pass + fuel ∧
      (∀ q, pass ≤ q → q < last → request.Goes (request.position answers q)) ∧
      ¬ request.Goes (request.position answers last) ∧ request.Stands answers (last + 1) r' ∧
      EventBus.replayLoop answers request.store subs request.target fuel pass r = (.ok r'.current, r')) ∨
    ((∀ q, pass ≤ q → q < pass + fuel → request.Goes (request.position answers q)) ∧
      ∃ r', EventBus.replayLoop answers request.store subs request.target fuel pass r = (.hang, r')) := by
  induction fuel generalizing pass r with
  | zero => exact .inr ⟨fun q le lt => by omega, r, rfl⟩
  | succ fuel ih =>
    have fits := position_fits answers sound room pass
    have page : request.store.scanFrom (request.position answers pass + 1) EventBus.pageLimit =
        request.page (request.position answers pass) := sound.scanFrom _ _
    have ends : ∀ r', ¬ request.Goes (request.position answers pass) → request.Stands answers (pass + 1) r' →
        EventBus.replayLoop answers request.store subs request.target (fuel + 1) pass r = (.ok r'.current, r') →
        ∃ last r', pass ≤ last ∧ last < pass + (fuel + 1) ∧
          (∀ q, pass ≤ q → q < last → request.Goes (request.position answers q)) ∧
          ¬ request.Goes (request.position answers last) ∧ request.Stands answers (last + 1) r' ∧
          EventBus.replayLoop answers request.store subs request.target (fuel + 1) pass r = (.ok r'.current, r') :=
      fun r' stops next ran => ⟨pass, r', le_rfl, by omega, fun q le lt => by omega, stops, next, ran⟩
    have run : EventBus.replayLoop answers request.store subs request.target (fuel + 1) pass r =
        if request.page (request.position answers pass) = [] then (.ok r.current, r)
        else if (request.page (request.position answers pass)).any (StoredEvent.late request.target) then
          (.ok (passed request answers pass r).current, passed request answers pass r)
        else if (request.page (request.position answers pass)).length < EventBus.pageLimit then
          (.ok (passed request answers pass r).current, passed request answers pass r)
        else EventBus.replayLoop answers request.store subs request.target fuel (pass + 1) (passed request answers pass r) := by
      rw [EventBus.replayLoop, stands.offset, if_neg (Nat.not_le.mpr fits), page]
      dsimp only
      rw [replayPage_passed only]
    by_cases empty : request.page (request.position answers pass) = []
    · refine .inl (ends r (fun goes => ?_) (stands.empty empty) (by rw [run, if_pos empty]))
      have whole := goes.1
      rw [empty, List.length_nil, EventBus.pageLimit] at whole
      cases whole
    · rw [if_neg empty] at run
      cases late : (request.page (request.position answers pass)).any (StoredEvent.late request.target) with
      | true =>
        refine .inl (ends _ (fun goes => ?_) stands.pass (by rw [run, late, if_pos rfl]))
        obtain ⟨e, onPage, isLate⟩ := List.any_eq_true.mp late
        exact absurd isLate (by simp [goes.2 e onPage])
      | false =>
        rw [late, if_neg Bool.false_ne_true] at run
        by_cases short : (request.page (request.position answers pass)).length < EventBus.pageLimit
        · exact .inl (ends _ (fun goes => absurd goes.1 (Nat.ne_of_lt short)) stands.pass (by rw [run, if_pos short]))
        · have goes : request.Goes (request.position answers pass) := by
            refine ⟨le_antisymm (List.length_take_le ..) (Nat.not_lt.mp short), fun e onPage => ?_⟩
            have early := List.any_eq_false.mp late e onPage
            exact Bool.eq_false_iff.mpr early
          rw [if_neg short] at run
          rw [run]
          rcases ih (pass + 1) stands.pass with ⟨last, r', le, lt, before, stops, next, ran⟩ | ⟨all, hangs⟩
          · refine .inl ⟨last, r', by omega, by omega, fun q le' lt' => ?_, stops, next, ran⟩
            by_cases isPass : q = pass
            · exact isPass ▸ goes
            · exact before q (by omega) lt'
          · refine .inr ⟨fun q le' lt' => ?_, hangs⟩
            by_cases isPass : q = pass
            · exact isPass ▸ goes
            · exact all q (by omega) (by omega)

/-! ### What is due -/

/-- What is asked for after an offset. -/
def due (request : Request) (offset : Nat) : List StoredEvent := (request.store.after offset).filter request.asks

theorem ascending_due (sound : request.store.Sound) (offset : Nat) :
    (request.due offset).Pairwise fun e e' => e.offset < e'.offset :=
  sound.ascending.sublist (List.filter_sublist.trans List.filter_sublist)

theorem mem_due :
    e ∈ request.due offset ↔ e ∈ request.store.events ∧ offset < e.offset ∧ request.asks e = true := by
  rw [due, EventStore.after, List.mem_filter, List.mem_filter, decide_eq_true_iff, and_assoc]

/-- What is due further on is the rest of what is due. -/
theorem due_of_le {offset' : Nat} (le : offset ≤ offset') :
    request.due offset' = (request.due offset).filter fun e => decide (offset' < e.offset) := by
  rw [due, due, EventStore.after, EventStore.after, List.filter_filter, List.filter_filter, List.filter_filter]
  refine List.filter_congr fun e _ => ?_
  by_cases later : offset' < e.offset
  · rw [decide_eq_true later, decide_eq_true (lt_of_le_of_lt le later), Bool.true_and, Bool.and_true]
  · rw [decide_eq_false later, Bool.and_false, Bool.false_and, Bool.false_and]

theorem due_after {before after : List StoredEvent} (sound : request.store.Sound)
    (split : request.due offset = (before ++ [e]) ++ after) : request.due e.offset = after := by
  have ascending := ascending_due sound offset
  have inside : offset < e.offset :=
    (mem_due.mp (split ▸ List.mem_append_left after (List.mem_append_right before (List.mem_singleton_self e)))).2.1
  rw [split] at ascending
  obtain ⟨front, -, cross⟩ := List.pairwise_append.mp ascending
  have gone : (before ++ [e]).filter (fun e' => decide (e.offset < e'.offset)) = [] := by
    refine List.filter_eq_nil_iff.mpr fun e' member => ?_
    rw [decide_eq_true_iff, Nat.not_lt]
    rcases List.mem_append.mp member with earlier | isE
    · exact le_of_lt ((List.pairwise_append.mp front).2.2 e' earlier e (List.mem_singleton_self e))
    · rw [List.mem_singleton.mp isE]
  have kept : after.filter (fun e' => decide (e.offset < e'.offset)) = after :=
    List.filter_eq_self.mpr fun e' member =>
      decide_eq_true (cross e (List.mem_append_right before (List.mem_singleton_self e)) e' member)
  rw [due_of_le (le_of_lt inside), split, List.filter_append, gone, kept, List.nil_append]

/-- Nothing that is asked for comes after an event that is too late. -/
def Clear (request : Request) (offset : Nat) : Prop :=
  ∀ e ∈ request.store.events, e.late request.target = true → offset < e.offset →
    ∀ w ∈ request.store.events, e.offset < w.offset → request.asks w = false

theorem asks_of_late (late : e.late request.target = true) : request.asks e = false := by
  rw [asks, asksFor, late, Bool.not_true, Bool.and_false]

theorem page_append (request : Request) (offset : Nat) :
    request.page offset ++ (request.store.after offset).drop EventBus.pageLimit = request.store.after offset :=
  List.take_append_drop ..

section

variable (sound : request.store.Sound)

include sound

theorem offered_eq (clear : request.Clear offset) :
    (request.page offset).filter request.asks = request.offered offset := by
  have page := List.takeWhile_append_dropWhile (p := fun e : StoredEvent => !e.late request.target) (l := request.page offset)
  have rest : ((request.page offset).dropWhile fun e => !e.late request.target).filter request.asks = [] := by
    cases tail : (request.page offset).dropWhile fun e => !e.late request.target with
    | nil => rfl
    | cons e after =>
      have late : e.late request.target = true := by
        have some' : (request.page offset).dropWhile (fun e => !e.late request.target) ≠ [] := by
          rw [tail]
          exact List.cons_ne_nil _ _
        simpa [tail] using List.head_dropWhile_not (fun e : StoredEvent => !e.late request.target) some'
      have onPage : ∀ e' ∈ e :: after, e' ∈ request.store.after offset := fun e' member =>
        List.mem_of_mem_take ((List.dropWhile_suffix _).subset (tail ▸ member))
      have ascending : (e :: after).Pairwise fun e e' => e.offset < e'.offset :=
        sound.ascending.sublist <| tail ▸ (List.dropWhile_sublist _).trans
          ((List.take_sublist ..).trans List.filter_sublist)
      refine List.filter_eq_nil_iff.mpr fun w member => ?_
      rw [Bool.not_eq_true]
      rcases List.mem_cons.mp member with rfl | later
      · exact asks_of_late late
      · obtain ⟨stored, beyond⟩ := List.mem_filter.mp (onPage e (.head _))
        exact clear e stored late (of_decide_eq_true beyond) w (List.mem_filter.mp (onPage w member)).1
          ((List.pairwise_cons.mp ascending).1 w later)
  conv_lhs => rw [← page, List.filter_append, rest, List.append_nil]
  rfl

/-- Where no other pass follows, the page holds all that is due. -/
theorem due_of_stops (clear : request.Clear offset)
    (stops : ¬ request.Goes offset) : request.due offset = request.offered offset := by
  have more : ((request.store.after offset).drop EventBus.pageLimit).filter request.asks = [] := by
    by_cases whole : (request.page offset).length = EventBus.pageLimit
    · obtain ⟨e, onPage, late⟩ : ∃ e ∈ request.page offset, e.late request.target = true := by
        by_contra none
        exact stops ⟨whole, fun e onPage => Bool.eq_false_iff.mpr fun late => none ⟨e, onPage, late⟩⟩
      have ascending : (request.store.after offset).Pairwise fun e e' => e.offset < e'.offset :=
        sound.ascending.sublist List.filter_sublist
      rw [← page_append] at ascending
      refine List.filter_eq_nil_iff.mpr fun w member => ?_
      rw [Bool.not_eq_true]
      obtain ⟨stored, beyond⟩ := List.mem_filter.mp (List.mem_of_mem_take onPage)
      exact clear e stored late (of_decide_eq_true beyond) w (List.mem_filter.mp (List.mem_of_mem_drop member)).1
        ((List.pairwise_append.mp ascending).2.2 e onPage w member)
    · rw [page, List.length_take] at whole
      rw [List.drop_of_length_le (by omega)]
      rfl
  rw [due, ← page_append, List.filter_append, more, List.append_nil, offered_eq sound clear]

theorem due_step {pass : Nat} (clear : request.Clear (request.position answers pass))
    (orderly : Orderly (answers pass) (request.offered (request.position answers pass)).length) :
    request.due (request.position answers pass) =
      request.told answers true pass ++ request.due (request.position answers (pass + 1)) := by
  rcases position_succ request answers pass with ⟨none, same⟩ | ⟨before, e, split, next⟩
  · rw [none, same, List.nil_append]
  · have both : request.told answers true pass ++ request.told answers false pass =
        request.offered (request.position answers pass) :=
      answered_append fun i j => by simpa using orderly i j
    have all : request.due (request.position answers pass) = (before ++ [e]) ++ (request.told answers false pass ++
        ((request.store.after (request.position answers pass)).drop EventBus.pageLimit).filter request.asks) := by
      rw [← split, ← List.append_assoc, both, ← offered_eq sound clear, ← List.filter_append, page_append, due]
    rw [next, due_after sound all, split, all]

/-- **After the last pass**, what is due has been refused. -/
theorem due_last {pass : Nat} (clear : request.Clear (request.position answers pass))
    (orderly : Orderly (answers pass) (request.offered (request.position answers pass)).length)
    (stops : ¬ request.Goes (request.position answers pass)) :
    request.due (request.position answers (pass + 1)) = request.told answers false pass := by
  have both : request.told answers true pass ++ request.told answers false pass =
      request.offered (request.position answers pass) :=
    answered_append fun i j => by simpa using orderly i j
  have step := due_step sound clear orderly
  rw [due_of_stops sound clear stops, ← both] at step
  exact (List.append_cancel_left step).symm

end

/-! ### When it is exact -/

/-- A cursor owes what is due after its offset, unless a fresh one owes the event at offset zero. -/
theorem owed_eq_due {c : ReplayCursor} (target : c.targetTimestamp = request.target)
    (first : c.Fresh → ∀ e ∈ request.store.events, e.offset = 0 → request.asks e = false) :
    owed request.store request.sub c = request.due c.lastProcessedOffset := by
  rw [owed, due, EventStore.after, List.filter_filter, target]
  refine List.filter_congr fun e stored => ?_
  have asks : asksFor request.sub request.target e = request.asks e := rfl
  rw [asks, Bool.and_comm]
  by_cases later : c.lastProcessedOffset < e.offset
  · rw [decide_eq_true later, decide_eq_true (show c.Before e from .inl later)]
  · by_cases fresh : c.Fresh
    · have zero : e.offset = 0 := by
        have start := fresh.1
        omega
      rw [first fresh e stored zero, Bool.false_and, Bool.false_and]
    · rw [decide_eq_false later, decide_eq_false (show ¬ c.Before e from fun before => before.elim later fresh)]

/-- What is asked of the end of a request holds wherever a pass begins. -/
theorem Meets.clear (meets : request.Meets answers) (pass : Nat) : request.Clear (request.position answers pass) :=
  fun e stored late beyond => meets.last e stored late
    (lt_of_le_of_lt (position_mono request answers (Nat.zero_le pass)) beyond)

theorem due_run (sound : request.store.Sound) (meets : request.Meets answers) {pass : Nat}
    (goes : ∀ q < pass, request.Goes (request.position answers q)) : request.due request.cursor.lastProcessedOffset =
      (List.range pass).flatMap (request.told answers true) ++ request.due (request.position answers pass) := by
  induction pass with
  | zero => rfl
  | succ pass ih =>
    have before : ∀ q < pass, request.Goes (request.position answers q) := fun q lt => goes q (Nat.lt_succ_of_lt lt)
    have step := due_step sound (meets.clear pass) (meets.passes pass before).1
    rw [ih before, flatMap_succ, List.append_assoc, ← step]

theorem position_lt_succ {pass : Nat} (some' : request.told answers true pass ≠ []) :
    request.position answers pass < request.position answers (pass + 1) := by
  rcases position_succ request answers pass with ⟨none, -⟩ | ⟨before, e, split, next⟩
  · exact absurd none some'
  · rw [next]
    exact (mem_told (split ▸ List.mem_append_right before (List.mem_singleton_self e))).2.1

/-- Passes that accept nothing stay where they are. -/
theorem position_of_none {pass later : Nat} (le : pass ≤ later)
    (none : ∀ q, pass ≤ q → q < later → request.told answers true q = []) :
    request.position answers later = request.position answers pass := by
  induction later, le using Nat.le_induction with
  | base => rfl
  | succ later le ih =>
    rcases position_succ request answers later with ⟨-, same⟩ | ⟨before, e, split, -⟩
    · rw [same, ih fun q le' lt => none q le' (Nat.lt_succ_of_lt lt)]
    · rw [none later le (Nat.lt_succ_self later)] at split
      exact absurd split.symm (List.append_ne_nil_of_right_ne_nil _ (List.cons_ne_nil _ _))

/-- **The passes come to an end**: wherever another one follows, a later one accepts something. -/
theorem Meets.ends (sound : request.store.Sound) (meets : request.Meets answers) :
    ∃ last, (∀ q < last, request.Goes (request.position answers q)) ∧ ¬ request.Goes (request.position answers last) := by
  by_contra never
  have all : ∀ pass, request.Goes (request.position answers pass) := by
    intro pass
    induction pass using Nat.strong_induction_on with
    | _ pass ih =>
      by_contra stops
      exact never ⟨pass, ih, stops⟩
  have grows : ∀ pass, ∃ pass', request.position answers pass < request.position answers pass' := by
    intro pass
    obtain ⟨some', later, le, yes⟩ := (meets.passes pass fun q _ => all q).2 (all pass)
    by_cases before : ∃ q, pass ≤ q ∧ q < later ∧ request.told answers true q ≠ []
    · obtain ⟨q, le', -, accepts⟩ := before
      exact ⟨q + 1, lt_of_le_of_lt (position_mono request answers le') (position_lt_succ accepts)⟩
    · -- the first event of the same page is offered again, and accepted
      have still : request.position answers later = request.position answers pass :=
        position_of_none le fun q le' lt => by
          by_contra accepts
          exact before ⟨q, le', lt, accepts⟩
      refine ⟨later + 1, still ▸ position_lt_succ ?_⟩
      rw [told, still]
      cases here : request.offered (request.position answers pass) with
      | nil => exact absurd here some'
      | cons e es =>
        rw [answered, if_pos yes]
        exact List.cons_ne_nil _ _
  have beyond : ∀ n, ∃ pass, n ≤ request.position answers pass := by
    intro n
    induction n with
    | zero => exact ⟨0, Nat.zero_le _⟩
    | succ n ih =>
      obtain ⟨pass, le⟩ := ih
      obtain ⟨pass', lt⟩ := grows pass
      exact ⟨pass', by omega⟩
  obtain ⟨pass, far⟩ := beyond (2 ^ 64)
  exact absurd (position_fits answers sound meets.room pass) (by omega)

/-- What a replay has come to when the last pass is over. -/
theorem Meets.exact (sound : request.store.Sound) (meets : request.Meets answers) {last : Nat}
    (goes : ∀ q < last, request.Goes (request.position answers q)) (stops : ¬ request.Goes (request.position answers last))
    (stands : request.Stands answers (last + 1) r) :
    Exact request.store request.sub request.cursor r.current r.sendings := by
  have orderly := (meets.passes last goes).1
  have first : r.current.Fresh → ∀ e ∈ request.store.events, e.offset = 0 → request.asks e = false := by
    rcases stands.moved with same | moved
    · rw [same]
      exact meets.first
    · exact fun fresh => absurd fresh.1 (Nat.ne_of_gt moved)
  have owedBefore : owed request.store request.sub request.cursor = request.due request.cursor.lastProcessedOffset :=
    owed_eq_due rfl meets.first
  have owedAfter : owed request.store request.sub r.current = request.due r.current.lastProcessedOffset :=
    owed_eq_due stands.target first
  rw [stands.offset] at owedAfter
  refine ⟨?_, fun e owes => ?_, stands.sent⟩
  · rw [owedBefore, owedAfter, due_run sound meets goes, due_step sound (meets.clear last) orderly, stands.accepted,
      flatMap_succ, List.append_assoc]
  · rw [owedAfter, due_last sound (meets.clear last) orderly stops] at owes
    rw [stands.refused, flatMap_succ]
    exact List.mem_append_right _ owes

/-! ### When it is not -/

section

variable (sound : request.store.Sound) (stored : e ∈ request.store.events) (late : e.late request.target = true)

include sound stored late

/-- What is offered comes before what is too late. -/
theorem offered_before_late {w : StoredEvent} (beyond : offset < e.offset)
    (isOffered : w ∈ request.offered offset) : w.offset < e.offset := by
  have inside := (List.mem_filter.mp isOffered).1
  have ascending : (request.store.after offset).Pairwise fun e e' => e.offset < e'.offset :=
    sound.ascending.sublist List.filter_sublist
  have after : e ∈ request.store.after offset := List.mem_filter.mpr ⟨stored, decide_eq_true beyond⟩
  have onPage := (List.takeWhile_prefix _).subset inside
  rw [← page_append] at ascending after
  obtain ⟨page, -, cross⟩ := List.pairwise_append.mp ascending
  rcases List.mem_append.mp after with here | further
  · have cut := List.takeWhile_append_dropWhile (p := fun e : StoredEvent => !e.late request.target)
      (l := request.page offset)
    rw [← cut] at here page
    rcases List.mem_append.mp here with early | rest
    · have isEarly := List.mem_takeWhile_imp early
      rw [late] at isEarly
      cases isEarly
    · exact (List.pairwise_append.mp page).2.2 w inside e rest
  · exact cross w onPage e further

theorem position_before_late (beyond : request.cursor.lastProcessedOffset < e.offset) (pass : Nat) :
    request.position answers pass < e.offset := by
  induction pass with
  | zero => exact beyond
  | succ pass ih =>
    rcases position_succ request answers pass with ⟨-, same⟩ | ⟨before, last, split, next⟩
    · rwa [same]
    · rw [next]
      exact offered_before_late sound stored late ih <|
        (answered_sublist true).subset (split ▸ List.mem_append_right before (List.mem_singleton_self last))

end

theorem mem_flatMap_told {answer : Bool} {count : Nat} :
    e ∈ (List.range count).flatMap (request.told answers answer) ↔ ∃ q < count, e ∈ request.told answers answer q := by
  rw [List.mem_flatMap]
  exact exists_congr fun q => by rw [List.mem_range]

/-- An event is accepted in one pass at most, and at one place. -/
theorem accepted_once (sound : request.store.Sound) {pass q i : Nat} {w : StoredEvent}
    (here : (request.offered (request.position answers pass))[i]? = some w) (no : answers pass i = false)
    (passed : w.offset ≤ request.position answers (pass + 1)) : w ∉ request.told answers true q := by
  intro accepted
  rcases lt_trichotomy q pass with earlier | rfl | later
  · have behind := le_position_succ sound accepted
    have ahead := (mem_offered (List.mem_of_getElem? here)).2.1
    have mono := position_mono request answers (Nat.succ_le_of_lt earlier)
    rw [Nat.succ_eq_add_one] at mono
    omega
  · obtain ⟨k, there, yes⟩ := mem_answered.mp accepted
    have same : k = i := by
      have nodup : (request.offered (request.position answers q)).Nodup :=
        (ascending_offered sound _).imp fun lt same => absurd (congrArg StoredEvent.offset same) (Nat.ne_of_lt lt)
      obtain ⟨inside, -⟩ := List.getElem?_eq_some_iff.mp there
      exact (List.getElem?_inj inside nodup).mp (there.trans here.symm)
    rw [same, Nat.zero_add, no] at yes
    cases yes
  · have ahead := (mem_told accepted).2.1
    have mono := position_mono request answers (Nat.succ_le_of_lt later)
    rw [Nat.succ_eq_add_one] at mono
    omega

section Exact

variable {last : Nat} {r : Replay} (sound : request.store.Sound)
  (stops : ¬ request.Goes (request.position answers last)) (stands : request.Stands answers (last + 1) r)
  (exact' : Exact request.store request.sub request.cursor r.current r.sendings)

include stands exact' in
/-- What is owed has been offered in some pass. -/
theorem told_of_owed {w : StoredEvent} (owes : w ∈ owed request.store request.sub request.cursor) :
    ∃ q answer, w ∈ request.told answers answer q := by
  rw [exact'.owed, stands.accepted] at owes
  rcases List.mem_append.mp owes with accepted | left
  · obtain ⟨q, -, told⟩ := mem_flatMap_told.mp accepted
    exact ⟨q, true, told⟩
  · have refused := exact'.refused w left
    rw [stands.refused] at refused
    obtain ⟨q, -, told⟩ := mem_flatMap_told.mp refused
    exact ⟨q, false, told⟩

include sound stands exact' in
theorem orderly_of_exact {pass : Nat} (le : pass ≤ last) :
    Orderly (answers pass) (request.offered (request.position answers pass)).length := by
  intro i j before inside yes
  by_contra no
  have isNo : answers pass i = false := Bool.eq_false_iff.mpr no
  obtain ⟨w, here⟩ : ∃ w, (request.offered (request.position answers pass))[i]? = some w :=
    ⟨_, List.getElem?_eq_getElem (before.trans inside)⟩
  obtain ⟨w', there⟩ : ∃ w', (request.offered (request.position answers pass))[j]? = some w' :=
    ⟨_, List.getElem?_eq_getElem inside⟩
  have ascends : w.offset < w'.offset := by
    obtain ⟨insideI, isW⟩ := List.getElem?_eq_some_iff.mp here
    obtain ⟨insideJ, isW'⟩ := List.getElem?_eq_some_iff.mp there
    rw [← isW, ← isW']
    exact List.pairwise_iff_getElem.mp (ascending_offered sound _) i j insideI insideJ before
  have accepted : w' ∈ request.told answers true pass := mem_answered.mpr ⟨j, there, by rwa [Nat.zero_add]⟩
  have passed := le_position_succ sound accepted
  have mono := position_mono request answers (Nat.succ_le_succ le)
  rw [Nat.succ_eq_add_one, Nat.succ_eq_add_one] at mono
  obtain ⟨stored, ahead, asks⟩ := mem_offered (List.mem_of_getElem? here)
  have start := position_mono request answers (Nat.zero_le pass)
  have owes : w ∈ owed request.store request.sub request.cursor := by
    refine List.mem_filter.mpr ⟨stored, ?_⟩
    rw [decide_eq_true (show request.cursor.Before w from .inl (lt_of_le_of_lt start ahead)), Bool.true_and]
    exact asks
  rw [exact'.owed, stands.accepted] at owes
  rcases List.mem_append.mp owes with told | left
  · obtain ⟨q, -, told⟩ := mem_flatMap_told.mp told
    exact accepted_once sound here isNo (by omega) told
  · have before' : r.current.Before w := of_decide_eq_true (Bool.and_eq_true_iff.mp (List.mem_filter.mp left).2).1
    have offset := stands.offset
    rcases before' with further | fresh
    · omega
    · have zero := fresh.1
      omega

include sound stops stands exact' in
/-- **An exact replay** meets the condition. -/
theorem meets_of_exact (room : request.cursor.lastProcessedOffset + 1 < 2 ^ 64) : request.Meets answers := by
  refine ⟨room, fun fresh e stored zero => ?_, fun e stored late beyond w stored' further => ?_, fun pass before => ?_⟩
  · by_contra asks
    have owes : e ∈ owed request.store request.sub request.cursor := by
      refine List.mem_filter.mpr ⟨stored, ?_⟩
      rw [decide_eq_true (show request.cursor.Before e from .inr fresh), Bool.true_and]
      exact Bool.not_eq_false _ ▸ asks
    obtain ⟨q, answer, told⟩ := told_of_owed stands exact' owes
    have ahead := (mem_told told).2.1
    omega
  · by_contra asks
    have owes : w ∈ owed request.store request.sub request.cursor := by
      refine List.mem_filter.mpr ⟨stored', ?_⟩
      rw [decide_eq_true (show request.cursor.Before w from .inl (beyond.trans further)), Bool.true_and]
      exact Bool.not_eq_false _ ▸ asks
    obtain ⟨q, answer, told⟩ := told_of_owed stands exact' owes
    have behind := offered_before_late sound stored late (position_before_late sound stored late beyond q)
      ((answered_sublist answer).subset told)
    omega
  · have le : pass ≤ last := by
      by_contra beyond
      exact stops (before last (by omega))
    refine ⟨orderly_of_exact sound stands exact' le, fun another => ?_⟩
    have accepts : ∃ q, pass ≤ q ∧ q < last ∧ request.told answers true q ≠ [] := by
      by_contra none
      refine stops ?_
      rw [position_of_none le fun q le' lt => by_contra fun some' => none ⟨q, le', lt, some'⟩]
      exact another
    obtain ⟨q, ⟨le', lt, some'⟩, least⟩ := Nat.findX accepts
    have still : request.position answers q = request.position answers pass :=
      position_of_none le' fun q' le'' lt' => by_contra fun accepts' => least q' lt' ⟨le'', lt'.trans lt, accepts'⟩
    obtain ⟨e, told⟩ := List.exists_mem_of_ne_nil _ some'
    obtain ⟨i, here, yes⟩ := mem_answered.mp told
    obtain ⟨inside, -⟩ := List.getElem?_eq_some_iff.mp here
    rw [Nat.zero_add] at yes
    refine ⟨fun none => ?_, q, le', ?_⟩
    · rw [still, none] at inside
      exact absurd inside (Nat.not_lt_zero i)
    · rcases Nat.eq_zero_or_pos i with zero | positive
      · exact zero ▸ yes
      · exact orderly_of_exact sound stands exact' (le_of_lt lt) 0 i positive inside yes

end Exact

end Request

/-- **A replay ends and is exact** exactly if no event is skipped at the beginning or at the end, no
pass accepts an event after it has refused one, and no whole page is read for ever. -/
theorem ends_iff (bus : EventBus) (answers : Nat → Nat → Bool) (subscriberId : SubscriberId) (sub : Subscription)
    (cursor : ReplayCursor) (sound : bus.eventStore.Sound)
    (only : (bus.subscriptionsOf subscriberId).filter Subscription.active = [sub]) :
    Ends bus answers subscriberId sub cursor ↔
      Request.Meets { store := bus.eventStore, sub, cursor } answers := by
  let request : Request := { store := bus.eventStore, sub, cursor }
  have some' : (bus.subscriptionsOf subscriberId).isEmpty = false := by
    cases here : bus.subscriptionsOf subscriberId with
    | nil =>
      rw [here] at only
      cases only
    | cons _ _ => rfl
  have loop : ∀ fuel, EventBus.replay answers fuel subscriberId cursor bus =
      EventBus.replayLoop answers request.store (bus.subscriptionsOf subscriberId) request.target fuel 0
        { current := request.cursor, sendings := [], asked := 0, metrics := bus.metrics } := fun fuel => by
    rw [EventBus.replay, some', if_neg Bool.false_ne_true]
    rfl
  have run := fun room fuel => Request.loop_spec sound room only fuel 0
    (Request.stands_start bus.metrics : request.Stands answers 0 _)
  constructor
  · rintro ⟨fuel, returned, r, ran, exact'⟩
    rw [loop] at ran
    by_cases room : request.cursor.lastProcessedOffset + 1 < 2 ^ 64
    · rcases run room fuel with ⟨last, r', -, -, -, stops, stands, ran'⟩ | ⟨-, r', hangs⟩
      · rw [ran'] at ran
        cases ran
        exact Request.meets_of_exact sound stops stands exact' room
      · rw [hangs] at ran
        cases ran
    · cases fuel with
      | zero => cases ran
      | succ fuel =>
        rw [EventBus.replayLoop, if_pos (Nat.not_lt.mp room)] at ran
        cases ran
  · intro meets
    obtain ⟨last, goes, stops⟩ := meets.ends sound
    rcases run meets.room (last + 1) with ⟨last', r, -, -, goes', stops', stands, ran⟩ | ⟨all, -⟩
    · exact ⟨last + 1, r.current, r, (loop _).trans ran,
        meets.exact sound (fun q lt => goes' q (Nat.zero_le q) lt) stops' stands⟩
    · exact absurd (all last (Nat.zero_le _) (by omega)) stops

/-! ### The first event of a store -/

/-- An event `orders.placed`. -/
def orderPlaced : Event :=
  { metadata := {
      eventId := { bytes := [] }
      eventType := { segments := ["orders".toList, "placed".toList], canonical := "orders.placed".toList }
      source := { subsystem := .system, component := [], nodeId := [], instanceId := [] }
      timestamp := 5, orderingKey := none, contentType := [], payloadSize := 1, ttlMs := 0, priority := .normal
      persistent := true, schemaVersion := 1, traceContext := none }
    payload := [1] }

def orders : Subscription :=
  { id := 1, subscriber := { id := "s".toList, subsystem := .system, name := "n".toList }
    topic := { segments := [.literal "orders".toList, .multiWildcard], canonical := "orders.*".toList }
    contentFilter := none, active := true, sender := 0 }

/-- A bus with one subscription, and so many events in its store. -/
def busOf (count : Nat) : EventBus :=
  let bus := EventBus.new 4 .dropNewest 1024 16 fun _ => { capacity := none, queue := [], connected := true }
  { bus with
    trie := bus.trie.insert orders.topic orders
    eventStore := (List.replicate count orderPlaced).foldl EventStore.append bus.eventStore }

/-- A cursor after an offset. -/
def cursorAt (offset timestamp : Nat) : ReplayCursor :=
  { subscriberId := "s".toList, lastProcessedOffset := offset, lastProcessedTimestamp := timestamp, targetTimestamp := none }

/-- After the event at offset zero, the one at offset one is sent. -/
theorem ends_iff_sample : Ends (busOf 2) (fun _ _ => true) orders.subscriber orders (cursorAt 0 5) := by
  have sound : (busOf 2).eventStore.Sound := EventStore.sound_of_appends 16 (List.replicate 2 orderPlaced) (by decide)
  refine (ends_iff (busOf 2) _ orders.subscriber orders (cursorAt 0 5) sound rfl).mpr ⟨by decide, ?_, ?_, fun pass goes => ?_⟩
  · decide
  · decide
  · have short : ¬ Request.Goes { store := (busOf 2).eventStore, sub := orders, cursor := cursorAt 0 5 } 0 :=
      fun whole => absurd whole.1 (by decide +kernel)
    cases pass with
    | zero => exact ⟨fun i j before inside _ => rfl, fun another => absurd another short⟩
    | succ pass => exact absurd (goes 0 (Nat.succ_pos pass)) short

/-- A fresh cursor misses the event at offset zero. -/
theorem first_event_skipped : ¬ Ends (busOf 1) (fun _ _ => true) orders.subscriber orders (cursorAt 0 0) := by
  rintro ⟨fuel, returned, r, ran, exact'⟩
  cases fuel with
  | zero => cases ran
  | succ fuel =>
    have nothing : EventBus.replay (fun _ _ => true) (fuel + 1) orders.subscriber (cursorAt 0 0) (busOf 1) =
        (.ok (cursorAt 0 0), { current := cursorAt 0 0, sendings := [], asked := 0, metrics := {} }) := rfl
    rw [nothing] at ran
    cases ran
    have some' : owed (busOf 1).eventStore orders (cursorAt 0 0) ≠ [] := by decide
    obtain ⟨e, owes⟩ := List.exists_mem_of_ne_nil _ some'
    exact nomatch (exact'.refused e owes)

end Replay

end NovaRuntime.Events
