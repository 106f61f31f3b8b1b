/-
# NovaRuntime.Events.Overflow — what a full channel makes of an event

`wanted` is what each policy asks of the channel of one subscription, and `Honoured` what it asks
of a whole call: an event that is published has gone through the subscriptions one after the
other, and a call that fails has sent and stored nothing.

`DropOldest` drops the newest, and `RejectPublisher` finds out in the middle of the loop that it
must refuse. `publish_honoured_iff` says when neither is seen.
-/
import Mathlib.Logic.Function.Iterate
import NovaRuntime.Events.Bus
import NovaRuntime.Library.Runs

namespace NovaRuntime.Events

open NovaRuntime.Library

set_option autoImplicit false

namespace EventBus

/-! ## What is asked -/

/-- The channel of a subscription is connected and has no room. -/
def IsFull (chs : Channels) (sub : Subscription) : Prop :=
  (chs sub.sender).connected = true ∧ (chs sub.sender).full = true

instance (chs : Channels) (sub : Subscription) : Decidable (IsFull chs sub) := inferInstanceAs (Decidable (_ ∧ _))

/-- A send that does not wait. -/
def attempt (event : Event) (chs : Channels) (sub : Subscription) : Channels :=
  if (chs sub.sender).connected = false ∨ (chs sub.sender).full = true then chs
  else Function.update chs sub.sender ((chs sub.sender).push event)

/-- The oldest event makes room for a new one. -/
def turned (event : Event) (queue : List Event) : List Event := queue.drop 1 ++ [event]

/-- What a policy asks of a full channel. -/
def wantedOfFull (policy : OverflowPolicy) (receivers : Receivers) (event : Event) (n : Nat) (c : Channel) : Channel :=
  match policy with
  | .dropNewest | .rejectPublisher => c
  | .dropOldest => { c with queue := turned event c.queue }
  | .blockPublisher => ((receivers.wake n c).map fun c => if c.connected then c.push event else c).getD c

def wanted (policy : OverflowPolicy) (receivers : Receivers) (event : Event) (chs : Channels) (sub : Subscription) :
    Channels :=
  if IsFull chs sub then Function.update chs sub.sender (wantedOfFull policy receivers event sub.sender (chs sub.sender))
  else attempt event chs sub

/-- The subscriptions that are to get an event: they match, are active, and let it through. -/
def eligible (bus : EventBus) (event : Event) : List Subscription :=
  (bus.trie.lookup event.metadata.eventType).filter (wants event)

/-- **A call honours the policy.** A call that blocks for ever says nothing. -/
structure Honoured (bus : EventBus) (receivers : Receivers) (eventId : EventId) (event : Event) : Prop where
  returns : (publish receivers eventId event bus).1 ≠ .panic
  sent : ∀ id, (publish receivers eventId event bus).1 = .ok id → (publish receivers eventId event bus).2.channels =
    (bus.eligible (stamped eventId event)).foldl (wanted bus.overflowPolicy receivers (stamped eventId event)) bus.channels
  stored : ∀ id, (publish receivers eventId event bus).1 = .ok id → (publish receivers eventId event bus).2.eventStore =
    if event.metadata.persistent then bus.eventStore.append (stamped eventId event) else bus.eventStore
  refused : ∀ e, (publish receivers eventId event bus).1 = .err e →
    (publish receivers eventId event bus).2.channels = bus.channels ∧
      (publish receivers eventId event bus).2.eventStore = bus.eventStore

/-- The event is not turned away before the loop. -/
def Valid (bus : EventBus) (event : Event) : Prop :=
  2 ≤ event.metadata.eventType.segments.length ∧ event.payload.length ≤ bus.maxPayloadSize

/-- A full channel keeps what it holds when its oldest event makes room, which is so only if it
holds nothing but this event. -/
def Spared (event : Event) (chs : Channels) (sub : Subscription) : Prop :=
  IsFull chs sub → turned event (chs sub.sender).queue = (chs sub.sender).queue

/-- The first connected channel is full. -/
def Barred (chs : Channels) (subs : List Subscription) : Prop :=
  ∃ before sub later, subs = before ++ sub :: later ∧ (∀ s ∈ before, (chs s.sender).connected = false) ∧ IsFull chs sub

/-- There are shards, `DropOldest` meets no full channel, and `RejectPublisher` none behind a
subscription that got the event. -/
def Meets (bus : EventBus) (eventId : EventId) (event : Event) : Prop :=
  let subs := bus.eligible (stamped eventId event)
  let turns := fun ok => Run.Each (attempt (stamped eventId event)) ok bus.channels subs
  Valid bus event → (subs = [] ∨ bus.shardCount ≠ 0) ∧
    (bus.overflowPolicy = .dropOldest → turns (Spared (stamped eventId event))) ∧
    (bus.overflowPolicy = .rejectPublisher → turns (fun chs sub => ¬ IsFull chs sub) ∨ Barred bus.channels subs)

/-! ## One subscription -/

section Turn

variable {receivers : Receivers} {event : Event} {timestamp : Nat} {bus : EventBus} {sub : Subscription}

/-- What the loop leaves alone. -/
structure Kept (bus bus' : EventBus) : Prop where
  shardCount : bus'.shardCount = bus.shardCount
  overflowPolicy : bus'.overflowPolicy = bus.overflowPolicy
  eventStore : bus'.eventStore = bus.eventStore

theorem Kept.refl (bus : EventBus) : Kept bus bus := ⟨rfl, rfl, rfl⟩

theorem Kept.trans {bus bus' bus'' : EventBus} (first : Kept bus bus') (second : Kept bus' bus'') : Kept bus bus'' :=
  ⟨second.shardCount.trans first.shardCount, second.overflowPolicy.trans first.overflowPolicy,
    second.eventStore.trans first.eventStore⟩

theorem deliver_of_unwanted (unwanted : wants event sub = false) : deliver receivers event timestamp sub = pure () :=
  if_pos unwanted

/-- A channel that is not full takes the event, if it is connected. -/
theorem deliver_open (receivers : Receivers) (timestamp : Nat) (wanted' : wants event sub = true) (shards : bus.shardCount ≠ 0) (room : ¬ IsFull bus.channels sub) :
    ∃ bus', deliver receivers event timestamp sub bus = (.ok (), bus') ∧
      bus'.channels = attempt event bus.channels sub ∧ Kept bus bus' := by
  rw [deliver, if_neg (by simp [wanted']), Exec.get_bind, if_neg shards, attempt, Channel.trySend]
  cases connected : (bus.channels sub.sender).connected with
  | false =>
    rw [if_pos rfl, if_pos (.inl rfl)]
    exact ⟨_, rfl, rfl, rfl, rfl, rfl⟩
  | true =>
    have notFull : (bus.channels sub.sender).full = false := by
      cases full : (bus.channels sub.sender).full with
      | false => rfl
      | true => exact absurd ⟨connected, full⟩ room
    rw [if_neg (by simp), if_neg (by simp [notFull]), if_neg (by simp [notFull])]
    exact ⟨_, rfl, rfl, rfl, rfl, rfl⟩

theorem deliver_full (receivers : Receivers) (timestamp : Nat) (wanted' : wants event sub = true) (shards : bus.shardCount ≠ 0) (full : IsFull bus.channels sub) :
    (bus.overflowPolicy ≠ .rejectPublisher ∧ bus.overflowPolicy ≠ .blockPublisher ∧
      ∃ bus', deliver receivers event timestamp sub bus = (.ok (), bus') ∧ bus'.channels = bus.channels ∧ Kept bus bus') ∨
    (bus.overflowPolicy = .rejectPublisher ∧ ∃ e bus', deliver receivers event timestamp sub bus = (.err e, bus') ∧
      bus'.channels = bus.channels ∧ Kept bus bus') ∨
    (bus.overflowPolicy = .blockPublisher ∧ (deliver receivers event timestamp sub bus = (.hang, bus) ∨
      ∃ bus', deliver receivers event timestamp sub bus = (.ok (), bus') ∧
        bus'.channels = wanted .blockPublisher receivers event bus.channels sub ∧ Kept bus bus')) := by
  rw [wanted, if_pos full, wantedOfFull, deliver, if_neg (by simp [wanted']), Exec.get_bind, if_neg shards,
    Channel.trySend, if_neg (by simp [full.1]), if_pos full.2]
  cases policy : bus.overflowPolicy with
  | dropNewest | dropOldest => exact .inl ⟨nofun, nofun, _, rfl, rfl, rfl, rfl, rfl⟩
  | rejectPublisher => exact .inr (.inl ⟨rfl, _, _, rfl, rfl, rfl, rfl, rfl⟩)
  | blockPublisher =>
    refine .inr (.inr ⟨rfl, ?_⟩)
    cases receivers.wake sub.sender (bus.channels sub.sender) with
    | none => exact .inl rfl
    | some c =>
      dsimp only [Option.map_some, Option.getD_some]
      cases c.connected with
      | true | false => exact .inr ⟨_, rfl, rfl, rfl, rfl, rfl⟩

end Turn

/-! ## The loop -/

section Loop

variable {receivers : Receivers} {event : Event} {timestamp : Nat} {bus : EventBus} {subs : List Subscription}

/-- Subscriptions that do not want the event are passed. -/
theorem deliverAll_filter (subs : List Subscription) :
    deliverAll receivers event timestamp subs = deliverAll receivers event timestamp (subs.filter (wants event)) := by
  induction subs with
  | nil => rfl
  | cons sub subs ih =>
    rw [deliverAll]
    cases want : wants event sub with
    | true => rw [List.filter_cons_of_pos want, deliverAll, ih]
    | false =>
      rw [List.filter_cons_of_neg (by simp [want]), deliver_of_unwanted want, ih]
      rfl

theorem wanted_of_room {policy : OverflowPolicy} {chs : Channels} {sub : Subscription} (room : ¬ IsFull chs sub) :
    wanted policy receivers event chs sub = attempt event chs sub := if_neg room

theorem attempt_of_full {chs : Channels} {sub : Subscription} (full : IsFull chs sub) : attempt event chs sub = chs :=
  if_pos (.inr full.2)

/-- `DropNewest` asks for no more than a send that does not wait. -/
theorem wanted_dropNewest (chs : Channels) (sub : Subscription) :
    wanted .dropNewest receivers event chs sub = attempt event chs sub := by
  rw [wanted]
  split
  next full => rw [attempt_of_full full, wantedOfFull, Function.update_eq_self]
  next => rfl

/-- **The loop of a policy that drops.** -/
theorem deliverAll_drops (receivers : Receivers) (timestamp : Nat) (bus : EventBus) (want : ∀ s ∈ subs, wants event s = true) (shards : subs = [] ∨ bus.shardCount ≠ 0)
    (notReject : bus.overflowPolicy ≠ .rejectPublisher) (notBlock : bus.overflowPolicy ≠ .blockPublisher) :
    ∃ bus', deliverAll receivers event timestamp subs bus = (.ok (), bus') ∧
      bus'.channels = subs.foldl (attempt event) bus.channels ∧ Kept bus bus' := by
  induction subs generalizing bus with
  | nil => exact ⟨bus, rfl, rfl, .refl bus⟩
  | cons sub subs ih =>
    have some' : bus.shardCount ≠ 0 := shards.resolve_left (List.cons_ne_nil _ _)
    have turn : ∃ bus', deliver receivers event timestamp sub bus = (.ok (), bus') ∧
        bus'.channels = attempt event bus.channels sub ∧ Kept bus bus' := by
      by_cases full : IsFull bus.channels sub
      · rcases deliver_full receivers timestamp (want sub (.head _)) some' full with
          ⟨-, -, bus', ran, same, kept⟩ | ⟨reject, -⟩ | ⟨block, -⟩
        · exact ⟨bus', ran, by rw [same, attempt_of_full full], kept⟩
        · exact absurd reject notReject
        · exact absurd block notBlock
      · exact deliver_open receivers timestamp (want sub (.head _)) some' full
    obtain ⟨bus₁, ran, channels, kept⟩ := turn
    obtain ⟨bus₂, rest, channels', kept'⟩ := ih bus₁ (fun s member => want s (.tail _ member))
      (.inr (by rwa [kept.shardCount])) (by rwa [kept.overflowPolicy]) (by rwa [kept.overflowPolicy])
    exact ⟨bus₂, by rw [deliverAll, Exec.bind_of_ok ran, rest], by rw [channels', channels, List.foldl_cons],
      kept.trans kept'⟩

/-- **The loop that waits.** -/
theorem deliverAll_blocks (receivers : Receivers) (timestamp : Nat) (bus : EventBus) (want : ∀ s ∈ subs, wants event s = true) (shards : subs = [] ∨ bus.shardCount ≠ 0)
    (block : bus.overflowPolicy = .blockPublisher) :
    (∃ bus', deliverAll receivers event timestamp subs bus = (.hang, bus')) ∨
    ∃ bus', deliverAll receivers event timestamp subs bus = (.ok (), bus') ∧
      bus'.channels = subs.foldl (wanted .blockPublisher receivers event) bus.channels ∧ Kept bus bus' := by
  induction subs generalizing bus with
  | nil => exact .inr ⟨bus, rfl, rfl, .refl bus⟩
  | cons sub subs ih =>
    have some' : bus.shardCount ≠ 0 := shards.resolve_left (List.cons_ne_nil _ _)
    have turn : (∃ bus', deliver receivers event timestamp sub bus = (.hang, bus')) ∨
        ∃ bus', deliver receivers event timestamp sub bus = (.ok (), bus') ∧
          bus'.channels = wanted .blockPublisher receivers event bus.channels sub ∧ Kept bus bus' := by
      by_cases full : IsFull bus.channels sub
      · rcases deliver_full receivers timestamp (want sub (.head _)) some' full with
          ⟨-, notBlock, -⟩ | ⟨reject, -⟩ | ⟨-, waits⟩
        · exact absurd block notBlock
        · cases block.symm.trans reject
        · exact waits.imp (fun hangs => ⟨bus, hangs⟩) fun done => done
      · obtain ⟨bus', ran, channels, kept⟩ := deliver_open receivers timestamp
          (want sub (.head _)) some' full
        exact .inr ⟨bus', ran, by rw [channels, wanted_of_room full], kept⟩
    rcases turn with ⟨bus₁, hangs⟩ | ⟨bus₁, ran, channels, kept⟩
    · exact .inl ⟨bus₁, by rw [deliverAll, Exec.bind_apply, hangs]⟩
    · rcases ih bus₁ (fun s member => want s (.tail _ member)) (.inr (by rwa [kept.shardCount]))
        (by rwa [kept.overflowPolicy]) with ⟨bus₂, hangs⟩ | ⟨bus₂, rest, channels', kept'⟩
      · exact .inl ⟨bus₂, by rw [deliverAll, Exec.bind_of_ok ran, hangs]⟩
      · exact .inr ⟨bus₂, by rw [deliverAll, Exec.bind_of_ok ran, rest], by rw [channels', channels, List.foldl_cons],
          kept.trans kept'⟩

/-- **The loop that refuses** goes on to the first full channel. -/
theorem deliverAll_refuses (receivers : Receivers) (timestamp : Nat) (bus : EventBus) (want : ∀ s ∈ subs, wants event s = true) (shards : subs = [] ∨ bus.shardCount ≠ 0)
    (reject : bus.overflowPolicy = .rejectPublisher) :
    (Run.Each (attempt event) (fun chs sub => ¬ IsFull chs sub) bus.channels subs ∧
      ∃ bus', deliverAll receivers event timestamp subs bus = (.ok (), bus') ∧
        bus'.channels = subs.foldl (attempt event) bus.channels ∧ Kept bus bus') ∨
    ∃ before sub later e bus', subs = before ++ sub :: later ∧
      Run.Each (attempt event) (fun chs sub => ¬ IsFull chs sub) bus.channels before ∧
      IsFull (before.foldl (attempt event) bus.channels) sub ∧
      deliverAll receivers event timestamp subs bus = (.err e, bus') ∧
      bus'.channels = before.foldl (attempt event) bus.channels ∧ Kept bus bus' := by
  induction subs generalizing bus with
  | nil => exact .inl ⟨trivial, bus, rfl, rfl, .refl bus⟩
  | cons sub subs ih =>
    have some' : bus.shardCount ≠ 0 := shards.resolve_left (List.cons_ne_nil _ _)
    by_cases full : IsFull bus.channels sub
    · rcases deliver_full receivers timestamp (want sub (.head _)) some' full with
        ⟨notReject, -⟩ | ⟨-, e, bus', ran, same, kept⟩ | ⟨block, -⟩
      · exact absurd reject notReject
      · exact .inr ⟨[], sub, subs, e, bus', rfl, trivial, full, by rw [deliverAll, Exec.bind_apply, ran], same, kept⟩
      · cases block.symm.trans reject
    · obtain ⟨bus₁, ran, channels, kept⟩ := deliver_open receivers timestamp
        (want sub (.head _)) some' full
      rcases ih bus₁ (fun s member => want s (.tail _ member)) (.inr (by rwa [kept.shardCount]))
        (by rwa [kept.overflowPolicy]) with ⟨clear, bus₂, rest, channels', kept'⟩ |
          ⟨before, sub', later, e, bus₂, split, clear, full', rest, channels', kept'⟩
      · rw [channels] at clear channels'
        exact .inl ⟨⟨full, clear⟩, bus₂, by rw [deliverAll, Exec.bind_of_ok ran, rest], channels', kept.trans kept'⟩
      · rw [channels] at clear full' channels'
        exact .inr ⟨sub :: before, sub', later, e, bus₂, by rw [split, List.cons_append], ⟨full, clear⟩, full',
          by rw [deliverAll, Exec.bind_of_ok ran, rest], channels', kept.trans kept'⟩

end Loop

/-! ## Room for the oldest -/

section Oldest

variable {receivers : Receivers} {event : Event}
variable {chs chs' : Channels} {sub : Subscription}

/-- After as many turns as there are events, the queue holds the new one only. -/
theorem iterate_turned {queue : List Event} (some' : queue ≠ []) (n : Nat) :
    (turned event)^[n] queue = (queue ++ List.replicate n event).drop n := by
  have positive := List.length_pos_iff.mpr some'
  induction n with
  | zero => simp
  | succ n ih =>
    have inside : n + 1 ≤ (queue ++ List.replicate n event).length := by
      rw [List.length_append, List.length_replicate]
      omega
    rw [Function.iterate_succ_apply', ih, turned, List.drop_drop, List.replicate_succ', ← List.append_assoc]
    exact (List.drop_append_of_le_length inside).symm

/-- **A queue that some turns bring back** holds nothing but the event. -/
theorem turned_of_iterate {queue : List Event} {n : Nat} (back : (turned event)^[n + 1] queue = queue) :
    turned event queue = queue := by
  have some' : queue ≠ [] := by
    rintro rfl
    rw [Function.iterate_succ_apply'] at back
    exact absurd back (List.append_ne_nil_of_right_ne_nil _ (List.cons_ne_nil _ _))
  have positive := List.length_pos_iff.mpr some'
  have often : (turned event)^[(n + 1) * queue.length] queue = queue := by
    rw [Function.iterate_mul]
    exact Function.iterate_fixed back _
  have long : queue.length ≤ (n + 1) * queue.length := Nat.le_mul_of_pos_left _ (Nat.succ_pos n)
  rw [iterate_turned some', List.drop_append, List.drop_of_length_le long, List.nil_append, List.drop_replicate] at often
  have only : queue = List.replicate queue.length event := by
    have count : (n + 1) * queue.length - ((n + 1) * queue.length - queue.length) = queue.length := by omega
    rw [count] at often
    exact often.symm
  rw [only, turned, List.drop_replicate, ← List.replicate_succ']
  congr 1
  omega

/-- The queue that is asked for is some turns ahead, and only of a full channel. -/
def Ahead (event : Event) (chs chs' : Channels) : Prop :=
  ∀ n, ∃ turns, chs' n = { chs n with queue := (turned event)^[turns] (chs n).queue } ∧
    (turns = 0 ∨ (chs n).connected = true ∧ (chs n).full = true)

theorem full_iterate {c : Channel} (full : c.full = true) (n : Nat) :
    ({ c with queue := (turned event)^[n] c.queue } : Channel).full = true := by
  have longer : ∀ queue : List Event, queue.length ≤ (turned event queue).length := by
    intro queue
    rw [turned, List.length_append, List.length_drop, List.length_singleton]
    omega
  have longest : c.queue.length ≤ ((turned event)^[n] c.queue).length := by
    induction n with
    | zero => exact le_rfl
    | succ n ih =>
      rw [Function.iterate_succ_apply']
      exact le_trans ih (longer _)
  rw [Channel.full] at full ⊢
  cases capacity : c.capacity with
  | none =>
    rw [capacity] at full
    cases full
  | some m =>
    rw [capacity, Option.map_some, Option.getD_some, decide_eq_true_iff] at full
    simp only [Option.map_some, Option.getD_some, decide_eq_true_iff]
    omega

theorem Ahead.full (receivers : Receivers) (ahead : Ahead event chs chs') (full : IsFull chs sub) :
    attempt event chs sub = chs ∧ ∃ turns,
      wanted .dropOldest receivers event chs' sub = Function.update chs' sub.sender
        { chs sub.sender with queue := (turned event)^[turns + 1] (chs sub.sender).queue } ∧
      chs' sub.sender = { chs sub.sender with queue := (turned event)^[turns] (chs sub.sender).queue } := by
  obtain ⟨turns, here, -⟩ := ahead sub.sender
  have full' : IsFull chs' sub := by
    rw [IsFull, here]
    exact ⟨full.1, full_iterate full.2 turns⟩
  refine ⟨attempt_of_full full, turns, ?_, here⟩
  rw [wanted, if_pos full', wantedOfFull, here, Function.iterate_succ_apply']

theorem Ahead.room (receivers : Receivers) (ahead : Ahead event chs chs') (room : ¬ IsFull chs sub) :
    chs' sub.sender = chs sub.sender ∧ wanted .dropOldest receivers event chs' sub = attempt event chs' sub := by
  obtain ⟨turns, here, none | full⟩ := ahead sub.sender
  · subst none
    have same : chs' sub.sender = chs sub.sender := here
    exact ⟨same, wanted_of_room (by rwa [IsFull, same])⟩
  · exact absurd full room

theorem attempt_of_ne (event : Event) (chs : Channels) {n : Nat} (other : n ≠ sub.sender) :
    attempt event chs sub n = chs n := by
  rw [attempt]
  split
  · rfl
  · exact Function.update_of_ne other ..

theorem attempt_congr (same : chs' sub.sender = chs sub.sender) :
    attempt event chs' sub sub.sender = attempt event chs sub sub.sender := by
  rw [attempt, attempt, same]
  split
  · exact same
  · rw [Function.update_self, Function.update_self]

theorem Ahead.turn (ahead : Ahead event chs chs') (sub : Subscription) :
    Ahead event (attempt event chs sub) (wanted .dropOldest receivers event chs' sub) := by
  intro n
  by_cases full : IsFull chs sub
  · obtain ⟨still, turns, turned', -⟩ := ahead.full receivers full
    rw [still, turned']
    by_cases here : n = sub.sender
    · subst here
      exact ⟨turns + 1, by rw [Function.update_self], .inr full⟩
    · rw [Function.update_of_ne here]
      exact ahead n
  · obtain ⟨same, open'⟩ := ahead.room receivers full
    rw [open']
    by_cases here : n = sub.sender
    · subst here
      exact ⟨0, attempt_congr same, .inl rfl⟩
    · rw [attempt_of_ne event chs here, attempt_of_ne event chs' here]
      exact ahead n

/-- **Two loops that end alike** were alike at every turn. -/
theorem spared_of_eq {subs : List Subscription} (ahead : Ahead event chs chs')
    (same : subs.foldl (attempt event) chs = subs.foldl (wanted .dropOldest receivers event) chs') :
    chs = chs' ∧ Run.Each (attempt event) (Spared event) chs subs := by
  induction subs generalizing chs chs' with
  | nil => exact ⟨same, trivial⟩
  | cons sub subs ih =>
    obtain ⟨equal, each⟩ := ih (ahead.turn sub) same
    by_cases full : IsFull chs sub
    · obtain ⟨still, turns, turned', here⟩ := ahead.full receivers full
      rw [still, turned'] at equal
      have back : (turned event)^[turns + 1] (chs sub.sender).queue = (chs sub.sender).queue := by
        have at' := congrFun equal sub.sender
        rw [Function.update_self] at at'
        exact (congrArg Channel.queue at').symm
      have fixed := turned_of_iterate back
      have unturned : chs' sub.sender = chs sub.sender := by rw [here, Function.iterate_fixed fixed]
      refine ⟨?_, fun _ => fixed, each⟩
      funext n
      by_cases isSender : n = sub.sender
      · rw [isSender, unturned]
      · rw [congrFun equal n, Function.update_of_ne isSender]
    · obtain ⟨unturned, open'⟩ := ahead.room receivers full
      rw [open'] at equal
      refine ⟨?_, fun isFull => absurd isFull full, each⟩
      funext n
      by_cases isSender : n = sub.sender
      · rw [isSender, unturned]
      · rw [← attempt_of_ne event chs isSender, congrFun equal n, attempt_of_ne event chs' isSender]

theorem eq_of_spared {subs : List Subscription} (each : Run.Each (attempt event) (Spared event) chs subs) :
    subs.foldl (attempt event) chs = subs.foldl (wanted .dropOldest receivers event) chs := by
  induction subs generalizing chs with
  | nil => rfl
  | cons sub subs ih =>
    have turn : wanted .dropOldest receivers event chs sub = attempt event chs sub := by
      by_cases full : IsFull chs sub
      · have spared := each.1 full
        rw [wanted, if_pos full, wantedOfFull, spared, Function.update_eq_self, attempt_of_full full]
      · exact wanted_of_room full
    rw [List.foldl_cons, List.foldl_cons, turn, ih each.2]

end Oldest

/-! ## The whole call -/

section Call

variable {receivers : Receivers} {event : Event} {chs : Channels} {subs : List Subscription}

theorem length_attempt (event : Event) (chs : Channels) (sub : Subscription) (n : Nat) :
    (chs n).queue.length ≤ (attempt event chs sub n).queue.length := by
  rw [attempt]
  split
  · exact le_rfl
  · by_cases here : n = sub.sender
    · subst here
      rw [Function.update_self, Channel.push, List.length_append]
      exact Nat.le_add_right _ _
    · rw [Function.update_of_ne here]

theorem length_foldl (event : Event) (subs : List Subscription) (chs : Channels) (n : Nat) :
    (chs n).queue.length ≤ (subs.foldl (attempt event) chs n).queue.length := by
  induction subs generalizing chs with
  | nil => exact le_rfl
  | cons sub subs ih => exact le_trans (length_attempt event chs sub n) (ih _)

/-- **Nothing has been sent** only where all channels that had their turn are disconnected. -/
theorem disconnected_of_eq (clear : Run.Each (attempt event) (fun chs sub => ¬ IsFull chs sub) chs subs)
    (same : subs.foldl (attempt event) chs = chs) : ∀ s ∈ subs, (chs s.sender).connected = false := by
  induction subs with
  | nil => exact List.forall_mem_nil _
  | cons sub subs ih =>
    have gone : (chs sub.sender).connected = false := by
      cases connected : (chs sub.sender).connected with
      | false => rfl
      | true =>
        -- the queue would have grown
        exfalso
        have room : ¬ ((chs sub.sender).connected = false ∨ (chs sub.sender).full = true) := by
          rintro (gone | full)
          · cases connected.symm.trans gone
          · exact clear.1 ⟨connected, full⟩
        have longer := length_foldl event subs (attempt event chs sub) sub.sender
        have whole := congrFun same sub.sender
        rw [List.foldl_cons] at whole
        rw [whole, attempt, if_neg room, Function.update_self, Channel.push, List.length_append,
          List.length_singleton] at longer
        omega
    have passed : attempt event chs sub = chs := if_pos (.inl gone)
    rw [List.foldl_cons, passed] at same
    have clear' := clear.2
    rw [passed] at clear'
    exact fun s member => (List.mem_cons.mp member).elim (fun isSub => isSub ▸ gone) fun later => ih clear' same s later

/-- The loop from its first full channel on. -/
theorem deliverAll_barred (receivers : Receivers) (timestamp : Nat) (bus : EventBus) (want : ∀ s ∈ subs, wants event s = true)
    (shards : subs = [] ∨ bus.shardCount ≠ 0) (reject : bus.overflowPolicy = .rejectPublisher)
    (barred : Barred bus.channels subs) : ∃ e bus', deliverAll receivers event timestamp subs bus = (.err e, bus') ∧
      bus'.channels = bus.channels ∧ Kept bus bus' := by
  obtain ⟨before, sub, later, rfl, gone, full⟩ := barred
  have some' : bus.shardCount ≠ 0 := shards.resolve_left (List.append_ne_nil_of_right_ne_nil _ (List.cons_ne_nil _ _))
  clear shards
  induction before generalizing bus with
  | nil =>
    rcases deliver_full receivers timestamp (want sub (.head _)) some' full with
      ⟨notReject, -⟩ | ⟨-, e, bus', ran, same, kept⟩ | ⟨block, -⟩
    · exact absurd reject notReject
    · exact ⟨e, bus', by rw [List.nil_append, deliverAll, Exec.bind_apply, ran], same, kept⟩
    · cases block.symm.trans reject
  | cons first before ih =>
    have goneFirst := gone first (.head _)
    have notFull : ¬ IsFull bus.channels first := fun isFull => by cases goneFirst.symm.trans isFull.1
    have passed : attempt event bus.channels first = bus.channels := if_pos (.inl goneFirst)
    obtain ⟨bus₁, ran, channels, kept⟩ := deliver_open receivers timestamp
        (want first (.head _)) some' notFull
    rw [passed] at channels
    have next : IsFull bus₁.channels sub := by rwa [channels]
    obtain ⟨e, bus₂, rest, channels', kept'⟩ := ih bus₁ (by rwa [kept.overflowPolicy])
      (fun s member => want s (.tail _ member)) (fun s member => channels ▸ gone s (.tail _ member)) next
      (by rwa [kept.shardCount])
    exact ⟨e, bus₂, by rw [List.cons_append, deliverAll, Exec.bind_of_ok ran, rest], channels'.trans channels,
      kept.trans kept'⟩

/-- Without shards the first turn panics. -/
theorem deliverAll_panics (receivers : Receivers) (timestamp : Nat) (bus : EventBus) (want : ∀ s ∈ subs, wants event s = true)
    (some' : subs ≠ []) (none : bus.shardCount = 0) :
    deliverAll receivers event timestamp subs bus = (.panic, bus) := by
  obtain ⟨sub, rest, rfl⟩ := List.exists_cons_of_ne_nil some'
  have panics : deliver receivers event timestamp sub bus = (.panic, bus) := by
    rw [deliver, if_neg (by simp [want sub (.head _)]), Exec.get_bind, if_pos none]
    rfl
  rw [deliverAll, Exec.bind_apply, panics]

/-- The bus when the round begins. -/
def counted (bus : EventBus) : EventBus :=
  { bus with metrics := { bus.metrics with eventsPublishedTotal := bus.metrics.eventsPublishedTotal + 1 } }

/-- The event is counted, and then it makes its round. -/
theorem publish_of_valid {bus : EventBus} {eventId : EventId} (valid : Valid bus event) :
    publish receivers eventId event bus =
      (deliverAll receivers (stamped eventId event) eventId.timestamp (bus.eligible (stamped eventId event)) >>= fun _ => do
        if event.metadata.persistent then
          Exec.modify fun bus => { bus with eventStore := bus.eventStore.append (stamped eventId event) }
        pure eventId)
        (counted bus) := by
  rw [publish, Exec.get_bind, if_neg (Nat.not_lt.mpr valid.1), if_neg (Nat.not_lt.mpr valid.2)]
  dsimp only
  rw [deliverAll_filter]
  rfl

theorem publish_of_invalid (receivers : Receivers) (eventId : EventId) {bus : EventBus} (invalid : ¬ Valid bus event) :
    ∃ e, publish receivers eventId event bus = (.err e, bus) := by
  rw [publish, Exec.get_bind]
  by_cases short : event.metadata.eventType.segments.length < 2
  · rw [if_pos short]
    exact ⟨_, rfl⟩
  · have large : bus.maxPayloadSize < event.payload.length := by
      by_contra small
      exact invalid ⟨by omega, by omega⟩
    rw [if_neg short, if_pos large]
    exact ⟨_, rfl⟩

section Rounds

variable {bus bus' : EventBus} {eventId : EventId}

/-- The round of an event. -/
def round (bus : EventBus) (receivers : Receivers) (eventId : EventId) (event : Event) : Outcome EventError Unit × EventBus :=
  deliverAll receivers (stamped eventId event) eventId.timestamp (bus.eligible (stamped eventId event)) (counted bus)

theorem honoured_of_ok (valid : Valid bus event) (ran : round bus receivers eventId event = (.ok (), bus'))
    (kept : Kept (counted bus) bus') : Honoured bus receivers eventId event ↔
      bus'.channels = (bus.eligible (stamped eventId event)).foldl
        (wanted bus.overflowPolicy receivers (stamped eventId event)) bus.channels := by
  have result : ∃ bus'', publish receivers eventId event bus = (.ok eventId, bus'') ∧ bus''.channels = bus'.channels ∧
      bus''.eventStore =
        if event.metadata.persistent then bus.eventStore.append (stamped eventId event) else bus.eventStore := by
    rw [publish_of_valid valid]
    refine (Exec.bind_of_ok ran _) ▸ ?_
    cases event.metadata.persistent with
    | true => exact ⟨_, rfl, rfl, by rw [if_pos rfl]; exact congrArg (fun store : EventStore => store.append (stamped eventId event)) kept.eventStore⟩
    | false => exact ⟨_, rfl, rfl, by rw [if_neg Bool.false_ne_true]; exact kept.eventStore⟩
  obtain ⟨bus'', published, channels, stored⟩ := result
  constructor
  · intro honoured
    have sent := honoured.sent eventId (by rw [published])
    rw [published] at sent
    exact channels.symm.trans sent
  · intro sent
    refine ⟨by rw [published]; nofun, fun _ _ => ?_, fun _ _ => ?_, fun e refused => ?_⟩
    · rw [published]
      exact channels.trans sent
    · rw [published]
      exact stored
    · rw [published] at refused
      cases refused

theorem honoured_of_err (valid : Valid bus event) {e : EventError} (ran : round bus receivers eventId event = (.err e, bus'))
    (kept : Kept (counted bus) bus') :
    Honoured bus receivers eventId event ↔ bus'.channels = bus.channels := by
  have published : publish receivers eventId event bus = (.err e, bus') := by
    rw [round] at ran
    rw [publish_of_valid valid, Exec.bind_apply, ran]
  constructor
  · intro honoured
    have refused := honoured.refused e (by rw [published])
    rw [published] at refused
    exact refused.1
  · intro same
    refine ⟨by rw [published]; nofun, fun _ ok => ?_, fun _ ok => ?_, fun _ _ => ?_⟩
    · rw [published] at ok
      cases ok
    · rw [published] at ok
      cases ok
    · rw [published]
      exact ⟨same, kept.eventStore⟩

theorem honoured_of_hang (valid : Valid bus event) (ran : round bus receivers eventId event = (.hang, bus')) :
    Honoured bus receivers eventId event := by
  have published : publish receivers eventId event bus = (.hang, bus') := by
    rw [round] at ran
    rw [publish_of_valid valid, Exec.bind_apply, ran]
  refine ⟨by rw [published]; nofun, fun _ ok => ?_, fun _ ok => ?_, fun _ refused => ?_⟩
  · rw [published] at ok
    cases ok
  · rw [published] at ok
    cases ok
  · rw [published] at refused
    cases refused

end Rounds

end Call

/-- **A call honours its policy** exactly if there are shards, `DropOldest` meets no full channel
that holds anything else, and `RejectPublisher` meets none or meets it first. -/
theorem publish_honoured_iff (bus : EventBus) (receivers : Receivers) (eventId : EventId) (event : Event) :
    Honoured bus receivers eventId event ↔ Meets bus eventId event := by
  rw [Meets]
  dsimp only
  by_cases valid : Valid bus event
  · rw [imp_iff_right valid]
    have want : ∀ s ∈ bus.eligible (stamped eventId event), wants (stamped eventId event) s = true :=
      fun s member => (List.mem_filter.mp member).2
    by_cases shards : bus.eligible (stamped eventId event) = [] ∨ bus.shardCount ≠ 0
    · rw [and_iff_right shards]
      cases policy : bus.overflowPolicy with
      | dropNewest =>
        obtain ⟨bus', ran, channels, kept⟩ := deliverAll_drops receivers eventId.timestamp (counted bus) want shards (by rw [counted, policy]; nofun) (by rw [counted, policy]; nofun)
        rw [honoured_of_ok valid ran kept, channels, policy]
        have same : wanted .dropNewest receivers (stamped eventId event) = attempt (stamped eventId event) :=
          funext fun chs => funext fun sub => wanted_dropNewest chs sub
        rw [same]
        exact ⟨fun _ => ⟨nofun, nofun⟩, fun _ => rfl⟩
      | dropOldest =>
        obtain ⟨bus', ran, channels, kept⟩ := deliverAll_drops receivers eventId.timestamp (counted bus) want shards (by rw [counted, policy]; nofun) (by rw [counted, policy]; nofun)
        rw [honoured_of_ok valid ran kept, channels, policy]
        have start : Ahead (stamped eventId event) bus.channels bus.channels := fun n => ⟨0, rfl, .inl rfl⟩
        exact ⟨fun same => ⟨fun _ => (spared_of_eq start same).2, nofun⟩, fun meets => eq_of_spared (meets.1 rfl)⟩
      | rejectPublisher =>
        have reject : (counted bus).overflowPolicy = .rejectPublisher := policy
        rcases deliverAll_refuses receivers eventId.timestamp (counted bus) want shards reject with
          ⟨clear, bus', ran, channels, kept⟩ | ⟨before, sub, later, e, bus', split, clear, full, ran, channels, kept⟩
        · rw [honoured_of_ok valid ran kept, channels, policy]
          have same : ∀ subs chs, Run.Each (attempt (stamped eventId event)) (fun chs sub => ¬ IsFull chs sub) chs subs →
              subs.foldl (attempt (stamped eventId event)) chs =
                subs.foldl (wanted .rejectPublisher receivers (stamped eventId event)) chs := by
            intro subs
            induction subs with
            | nil => exact fun _ _ => rfl
            | cons sub subs ih =>
              intro chs clear
              rw [List.foldl_cons, List.foldl_cons, wanted_of_room clear.1, ih _ clear.2]
          exact ⟨fun _ => ⟨nofun, fun _ => .inl clear⟩, fun _ => same _ _ clear⟩
        · constructor
          · intro honoured
            have still := channels.symm.trans ((honoured_of_err valid ran kept).mp honoured)
            have gone := disconnected_of_eq clear still
            rw [still] at full
            exact ⟨nofun, fun _ => .inr ⟨before, sub, later, split, gone, full⟩⟩
          · intro meets
            rcases meets.2 rfl with allClear | barred
            · rw [split] at allClear
              exact absurd full (Run.Each.at_turn allClear)
            · obtain ⟨e', bus'', ran', channels', kept'⟩ := deliverAll_barred receivers eventId.timestamp (counted bus) want shards reject barred
              exact (honoured_of_err valid ran' kept').mpr channels'
      | blockPublisher =>
        have block : (counted bus).overflowPolicy = .blockPublisher := policy
        rcases deliverAll_blocks receivers eventId.timestamp (counted bus) want shards block with
          ⟨bus', ran⟩ | ⟨bus', ran, channels, kept⟩
        · exact ⟨fun _ => ⟨nofun, nofun⟩, fun _ => honoured_of_hang valid ran⟩
        · rw [honoured_of_ok valid ran kept, channels, policy]
          exact ⟨fun _ => ⟨nofun, nofun⟩, fun _ => rfl⟩
    · obtain ⟨some', none⟩ := not_or.mp shards
      have panics : (publish receivers eventId event bus).1 = .panic := by
        rw [publish_of_valid valid, Exec.bind_apply, deliverAll_panics receivers eventId.timestamp (counted bus) want some' (not_not.mp none)]
      exact ⟨fun honoured => absurd panics honoured.returns, fun meets => absurd meets.1 shards⟩
  · obtain ⟨e, refused⟩ := publish_of_invalid receivers eventId valid
    refine ⟨fun _ valid' => absurd valid' valid, fun _ => ⟨?_, fun _ ok => ?_, fun _ ok => ?_, fun _ _ => ?_⟩⟩
    · rw [refused]
      nofun
    · rw [refused] at ok
      cases ok
    · rw [refused] at ok
      cases ok
    · rw [refused]
      exact ⟨rfl, rfl⟩

/-! ### The newest is dropped -/

/-- An event `orders.placed` with a payload of one byte. -/
def placed (payload : UInt8) : Event :=
  { metadata := {
      eventId := { bytes := [] }
      eventType := { segments := ["orders".toList, "placed".toList], canonical := "orders.placed".toList }
      source := { subsystem := .system, component := [], nodeId := [], instanceId := [] }
      timestamp := 0, orderingKey := none, contentType := [], payloadSize := 1, ttlMs := 0, priority := .normal
      persistent := false, schemaVersion := 1, traceContext := none }
    payload := [payload] }

/-- The subscription to `orders.placed`. -/
def placedSub : Subscription :=
  { id := 1, subscriber := { id := "s".toList, subsystem := .system, name := "n".toList }
    topic := {
      segments := [.literal "orders".toList, .literal "placed".toList], canonical := "orders.placed".toList }
    contentFilter := none, active := true, sender := 0 }

/-- Its channel for one event, which holds one. -/
def oneSlot (policy : OverflowPolicy) : EventBus :=
  let bus := new 4 policy 1024 16 fun _ => { capacity := some 1, queue := [placed 1], connected := true }
  { bus with trie := bus.trie.insert placedSub.topic placedSub }

/-- Nobody takes events out. -/
def noReceivers : Receivers where
  wake := fun _ _ => none
  capacity := nofun
  front := nofun
  room := nofun

theorem newest_dropped : ¬ Honoured (oneSlot .dropOldest) noReceivers { bytes := [] } (placed 2) := by
  intro honoured
  have sent := honoured.sent { bytes := [] } (by decide +kernel)
  exact absurd (congrArg Channel.queue (congrFun sent 0)) (by decide +kernel)

end EventBus

end NovaRuntime.Events
