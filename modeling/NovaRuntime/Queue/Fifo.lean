/-
# NovaRuntime.Queue.Fifo — the order in which messages are handed out

A FIFO queue should hand out messages in the order in which they were enqueued. `dequeue` goes through
the available index in the order of its keys, and a key ends with the text of an identifier that is
drawn at random.

`fifo_iff` says which sequences of enqueues are handed out in order by all polls that follow: those in
which the keys of the messages, as far as they are to be had, ascend.
-/
import NovaRuntime.Queue.Isolation
import NovaRuntime.Queue.Takes

namespace NovaRuntime.Queue

open NovaRuntime.Library

set_option autoImplicit false

/-! ## Enqueues and polls -/

/-- Messages are enqueued one after the other, each at its time. -/
def enqueueAll (U : UuidText) (messages : List (Int × QueueMessage)) (kv : KeyValue Stored) : KeyValue Stored :=
  messages.foldl (fun kv e => (enqueue U e.1 e.2 kv).2) kv

/-- One `dequeue` with what it reads from outside. -/
structure Poll where
  now : Int
  receipts : Bytes → Uuid
  maxMessages : Nat

/-- What one poll after the other hands out. -/
def pollAll (U : UuidText) (name : Text) : List Poll → KeyValue Stored → List QueueMessage
  | [], _ => []
  | p :: polls, kv =>
    let outcome := dequeue U p.now p.receipts name p.maxMessages kv
    outcome.1.elim id [] ++ pollAll U name polls outcome.2

/-- The clock stands at `start`, and does not go back. -/
def ClockFrom (start : Int) (polls : List Poll) : Prop :=
  (∀ p ∈ polls, start ≤ p.now) ∧ polls.Pairwise fun p q => p.now ≤ q.now

/-- Undelayed messages with fresh identifiers, enqueued in a queue before the polls start. -/
structure Enqueues (U : UuidText) (name : Text) (start : Int) (kv : KeyValue Stored)
    (messages : List (Int × QueueMessage)) : Prop where
  own : ∀ e ∈ messages, e.2.queueName = name
  undelayed : ∀ e ∈ messages, enqueueSlot e.1 e.2 = .available
  shown : ∀ e ∈ messages, e.2.visibleAt ≤ start
  distinct : (messages.map fun e => e.2.id).Nodup
  unknown : ∀ e ∈ messages, ∀ n, Covers name n → kv[slotKey U .available n e.2.id]? = none

/-- **First in, first out**: whatever the polls, they hand out messages in the order of the enqueues. -/
def Fifo (U : UuidText) (name : Text) (start : Int) (kv : KeyValue Stored) (messages : List (Int × QueueMessage)) : Prop :=
  ∀ polls, ClockFrom start polls →
    ((pollAll U name polls (enqueueAll U messages kv)).map QueueMessage.id).Sublist (messages.map fun e => e.2.id)

/-- The message can be handed out: its key is read back, and it is visible when the polls start. -/
def ToBeHad (U : UuidText) (name : Text) (start : Int) (m : QueueMessage) : Prop :=
  messageId U (queueAvailableKey U name m.id) = some m.id ∧ m.isVisible start = true

/-- The messages that wait in a queue, and nothing else that an index entry of its scan leads to. -/
structure Stocked (U : UuidText) (name : Text) (rest : List QueueMessage) (kv : KeyValue Stored) : Prop where
  keyed : WellKeyed U kv
  opened : Open kv name
  distinct : (rest.map QueueMessage.id).Nodup
  stored : ∀ m ∈ rest, kv[slotKey U .message name m.id]? = some (.message m)
  indexed : ∀ m ∈ rest, kv[slotKey U .available name m.id]? = some .empty
  only : ∀ n i v v', Covers name n → kv[slotKey U .available n i]? = some v →
    kv[slotKey U .message name i]? = some v' → n = name ∧ ∃ m ∈ rest, m.id = i

section Enqueue

variable {U : UuidText} {name : Text} {kv : KeyValue Stored}

theorem stocked_nil (keyed : WellKeyed U kv) (opened : Open kv name)
    (empty : ∀ i, kv[slotKey U .message name i]? = none) : Stocked U name [] kv where
  keyed := keyed
  opened := opened
  distinct := List.nodup_nil
  stored := List.forall_mem_nil _
  indexed := List.forall_mem_nil _
  only := fun n i v v' _ _ found => by
    rw [empty] at found
    cases found

theorem Stocked.enqueue {rest : List QueueMessage} (stocked : Stocked U name rest kv) (laws : U.Laws) {now : Int}
    {m : QueueMessage} (own : m.queueName = name) (undelayed : enqueueSlot now m = .available)
    (new : m.id ∉ rest.map QueueMessage.id)
    (unknown : ∀ n, Covers name n → kv[slotKey U .available n m.id]? = none) :
    Stocked U name (rest ++ [m]) (enqueue U now m kv).2 := by
  have keyed := WellKeyed.enqueue stocked.keyed now m
  have same := SameConfigs.enqueue (U := U) kv now m
  have opened : Open kv m.queueName := own ▸ stocked.opened
  have entries (s : Slot) (n : Text) (i : Uuid) : (Queue.enqueue U now m kv).2[slotKey U s n i]? =
      if s = .available ∧ n = name ∧ i = m.id then some .empty
      else if s = .message ∧ n = name ∧ i = m.id then some (.message m) else kv[slotKey U s n i]? := by
    rw [enqueue_of_open now opened, undelayed, own]
    simp only [getElem?_insert_slot laws, eq_comm]
  have other {r : QueueMessage} (member : r ∈ rest) : r.id ≠ m.id := fun same =>
    new (same ▸ List.mem_map_of_mem member)
  constructor
  · exact keyed
  · exact (same.openAt).mpr stocked.opened
  · rw [List.map_append, List.nodup_append]
    refine ⟨stocked.distinct, by simp, ?_⟩
    rintro a inRest b (_ | ⟨_, ⟨⟩⟩) rfl
    exact new inRest
  · intro r member
    rcases List.mem_append.mp member with inRest | last
    · rw [entries, if_neg (by simp), if_neg fun here => other inRest here.2.2]
      exact stocked.stored r inRest
    · rw [List.mem_singleton.mp last, entries, if_neg (by simp), if_pos ⟨rfl, rfl, rfl⟩]
  · intro r member
    rcases List.mem_append.mp member with inRest | last
    · rw [entries, if_neg fun here => other inRest here.2.2, if_neg (by simp)]
      exact stocked.indexed r inRest
    · rw [List.mem_singleton.mp last, entries, if_pos ⟨rfl, rfl, rfl⟩]
  · intro n i v v' covers index data
    rw [entries] at index data
    by_cases own' : n = name ∧ i = m.id
    · exact ⟨own'.1, m, by simp, own'.2.symm⟩
    · rw [if_neg fun here => own' here.2, if_neg (by simp)] at index
      have differ : i ≠ m.id := by
        rintro rfl
        rw [unknown n covers] at index
        cases index
      rw [if_neg (by simp), if_neg fun here => differ here.2.2] at data
      obtain ⟨isName, r, inRest, id⟩ := stocked.only n i v v' covers index data
      exact ⟨isName, r, List.mem_append_left _ inRest, id⟩

/-- The entries of other identifiers are as they were. -/
theorem getElem?_enqueue_of_ne (laws : U.Laws) (now : Int) {m : QueueMessage} (kv : KeyValue Stored) {s : Slot}
    {n : Text} {i : Uuid} (differ : i ≠ m.id) :
    (enqueue U now m kv).2[slotKey U s n i]? = kv[slotKey U s n i]? := by
  by_cases opened : Open kv m.queueName
  · rw [enqueue_of_open now opened]
    simp only [getElem?_insert_slot laws]
    rw [if_neg fun here => differ here.2.2.symm, if_neg fun here => differ here.2.2.symm]
  · rw [enqueue_of_not_open opened]

/-- **After the enqueues the messages wait**, in the queue and nowhere else. -/
theorem stocked_enqueueAll (laws : U.Laws) {start : Int} {messages : List (Int × QueueMessage)}
    {rest : List QueueMessage} (enqueues : Enqueues U name start kv messages) (stocked : Stocked U name rest kv)
    (new : ∀ e ∈ messages, e.2.id ∉ rest.map QueueMessage.id) :
    Stocked U name (rest ++ messages.map Prod.snd) (enqueueAll U messages kv) := by
  induction messages generalizing rest kv with
  | nil => simpa [enqueueAll] using stocked
  | cons e messages ih =>
    obtain ⟨own, owns⟩ := List.forall_mem_cons.mp enqueues.own
    obtain ⟨undelayed, undelayeds⟩ := List.forall_mem_cons.mp enqueues.undelayed
    obtain ⟨unknown, unknowns⟩ := List.forall_mem_cons.mp enqueues.unknown
    obtain ⟨newHere, news⟩ := List.forall_mem_cons.mp new
    have distinct := enqueues.distinct
    rw [List.map_cons, List.nodup_cons] at distinct
    have differ {f : Int × QueueMessage} (later : f ∈ messages) : f.2.id ≠ e.2.id := fun same =>
      distinct.1 (List.mem_map.mpr ⟨f, later, same⟩)
    have next := stocked.enqueue laws own undelayed newHere unknown
    have left : Enqueues U name start (enqueue U e.1 e.2 kv).2 messages :=
      ⟨owns, undelayeds, (List.forall_mem_cons.mp enqueues.shown).2, distinct.2, fun f later n covers => by
        rw [getElem?_enqueue_of_ne laws e.1 kv (differ later)]
        exact unknowns f later n covers⟩
    have all := ih left next fun f later => by
      rw [List.map_append, List.mem_append, not_or]
      exact ⟨news f later, by simpa using differ later⟩
    rw [List.append_assoc, List.singleton_append] at all
    exact all

end Enqueue

/-! ## One poll -/

section Poll

variable {U : UuidText} {name : Text} {kv : KeyValue Stored} {rest : List QueueMessage} {now : Int}

theorem availableKeys_sorted (name : Text) (kv : KeyValue Stored) :
    ((entriesOf .available name kv).map Prod.fst).Pairwise (· < ·) := by
  rw [List.pairwise_map]
  exact KeyValue.sortedKeys_range kv _ _

section

variable (stocked : Stocked U name rest kv) (laws : U.Laws)

include stocked laws

/-- A usable entry is the one of a waiting message. -/
theorem Stocked.waits {key : Bytes} {m : QueueMessage}
    (inIndex : key ∈ (entriesOf .available name kv).map Prod.fst) (leads : usableAt U now name kv key = some m) :
    m ∈ rest ∧ key = slotKey U .available name m.id ∧ ToBeHad U name now m := by
  obtain ⟨e, member, rfl⟩ := List.mem_map.mp inIndex
  obtain ⟨n, j, isKey, covers, there⟩ := stocked.keyed.entry laws member
  obtain ⟨i, read, found, visible⟩ := usableAt_eq_some.mp leads
  rw [isKey] at read
  obtain rfl := messageId_slotKey laws read
  obtain ⟨rfl, r, inRest, rfl⟩ := stocked.only n i _ _ covers there found
  rw [stocked.stored r inRest] at found
  cases found
  exact ⟨inRest, isKey, read, visible⟩

/-- A waiting message that can be handed out has a usable entry. -/
theorem Stocked.leads {m : QueueMessage} (waits : m ∈ rest) (toBeHad : ToBeHad U name now m) :
    slotKey U .available name m.id ∈ (entriesOf .available name kv).map Prod.fst ∧
      usableAt U now name kv (slotKey U .available name m.id) = some m := by
  have scanned := (slotKey_mem_entriesOf laws).mpr ⟨stocked.indexed m waits, rfl, .refl name⟩
  refine ⟨List.mem_map.mpr ⟨_, scanned, rfl⟩, usableAt_eq_some.mpr ⟨m.id, toBeHad.1, stocked.stored m waits, toBeHad.2⟩⟩

/-- The usable ones among the first entries. -/
theorem Stocked.first {maxMessages : Nat} {p : Bytes × QueueMessage}
    (member : p ∈ usable U now name kv (firstKeys name maxMessages kv)) :
    p.2 ∈ rest ∧ p.1 = slotKey U .available name p.2.id ∧ ToBeHad U name now p.2 := by
  obtain ⟨inFirst, leads⟩ := mem_usable.mp member
  rw [firstKeys, List.map_take] at inFirst
  exact stocked.waits laws (List.mem_of_mem_take inFirst) leads

end

theorem usable_ascending (maxMessages : Nat) :
    (usable U now name kv (firstKeys name maxMessages kv)).Pairwise fun p q => p.1 < q.1 := by
  rw [← List.pairwise_map]
  refine ((availableKeys_sorted name kv).sublist ?_).sublist (map_fst_usable_sublist _)
  rw [firstKeys, List.map_take]
  exact List.take_sublist ..

/-- **One poll** hands out the usable ones of the first entries, and the others wait on. -/
theorem Stocked.poll (stocked : Stocked U name rest kv) (laws : U.Laws) (now : Int) (receipts : Bytes → Uuid)
    (maxMessages : Nat) :
    ∃ results kv' rest', dequeue U now receipts name maxMessages kv = (.ok results, kv') ∧
      results.map QueueMessage.id = (usable U now name kv (firstKeys name maxMessages kv)).map (fun p => p.2.id) ∧
      Stocked U name rest' kv' ∧ (∀ m, m ∈ rest' ↔ m ∈ rest ∧ m.id ∉ results.map QueueMessage.id) := by
  obtain ⟨results, kv', ran, taking⟩ := dequeue_takes laws stocked.keyed stocked.opened now receipts maxMessages
  have own {p : Bytes × QueueMessage} (member : p ∈ usable U now name kv (firstKeys name maxMessages kv)) :=
    stocked.first laws member
  -- no two entries lead to one message
  have all : handedOut (usable U now name kv (firstKeys name maxMessages kv)) =
      usable U now name kv (firstKeys name maxMessages kv) := by
    refine (firsts_sublist ..).eq_of_length (length_firsts_eq_iff.mpr ⟨List.forall_mem_nil _, ?_⟩)
    refine (usable_ascending maxMessages).imp_of_mem fun {p q} inP inQ less => ?_
    by_contra same
    rw [Bool.not_eq_false, again, Bool.and_eq_true, beq_iff_eq] at same
    rw [(own inP).2.1, (own inQ).2.1, same.1] at less
    exact lt_irrefl _ less
  have given := taking.results
  rw [all] at given
  have gone (i : Uuid) : slotKey U .available name i ∈
      (usable U now name kv (firstKeys name maxMessages kv)).map Prod.fst ↔ i ∈ results.map QueueMessage.id := by
    rw [given]
    simp only [List.mem_map]
    constructor
    · rintro ⟨p, member, isKey⟩
      rw [(own member).2.1, slotKey_inj laws] at isKey
      exact ⟨p, member, isKey.2.2⟩
    · rintro ⟨p, member, rfl⟩
      exact ⟨p, member, (own member).2.1⟩
  have others (i : Uuid) (waits : i ∉ results.map QueueMessage.id) :
      kv'[slotKey U .message name i]? = kv[slotKey U .message name i]? := by
    refine taking.others i fun p member same => waits ?_
    rw [given]
    exact List.mem_map.mpr ⟨p, member, same⟩
  have index := taking.index
  rw [all] at index
  have keyed := stocked.keyed.dequeue laws now receipts name maxMessages
  have same := SameConfigs.dequeue laws stocked.keyed now receipts name maxMessages
  rw [ran] at keyed same
  let left := rest.filter fun m => decide (m.id ∉ results.map QueueMessage.id)
  have mem_left (m : QueueMessage) : m ∈ left ↔ m ∈ rest ∧ m.id ∉ results.map QueueMessage.id := by
    rw [List.mem_filter, decide_eq_true_eq]
  refine ⟨results, kv', left, ran, given, ?_, mem_left⟩
  constructor
  · exact keyed
  · exact same.openAt.mpr stocked.opened
  · exact stocked.distinct.sublist (List.filter_sublist.map _)
  · intro m member
    obtain ⟨waits, stays⟩ := (mem_left m).mp member
    rw [others m.id stays]
    exact stocked.stored m waits
  · intro m member
    obtain ⟨waits, stays⟩ := (mem_left m).mp member
    rw [index, if_neg fun handed => stays ((gone m.id).mp handed)]
    exact stocked.indexed m waits
  · intro n i v v' covers there data
    rw [index] at there
    split at there
    · cases there
    next stays =>
      by_cases handed : i ∈ results.map QueueMessage.id
      · rw [given] at handed
        obtain ⟨p, member, rfl⟩ := List.mem_map.mp handed
        obtain ⟨waits, isKey, -⟩ := own member
        obtain ⟨rfl, -⟩ := stocked.only n p.2.id v _ covers there (stocked.stored p.2 waits)
        exact absurd (List.mem_map.mpr ⟨p, member, isKey⟩) stays
      · rw [others i handed] at data
        obtain ⟨isName, m, waits, id⟩ := stocked.only n i v v' covers there data
        exact ⟨isName, m, (mem_left m).mpr ⟨waits, id ▸ handed⟩, id⟩

end Poll

/-! ## Polls one after the other -/

section Polls

variable {U : UuidText} {name : Text} {kv : KeyValue Stored} {rest : List QueueMessage} {start : Int}

/-- What is to be had later was to be had from the start: it does not come back. -/
theorem ToBeHad.earlier {now : Int} {m : QueueMessage} (toBeHad : ToBeHad U name now m) (shown : m.visibleAt ≤ start)
    (passed : start ≤ now) : ToBeHad U name start m := by
  refine ⟨toBeHad.1, ?_⟩
  have visible := toBeHad.2
  rw [QueueMessage.isVisible, Bool.and_eq_true] at visible ⊢
  refine ⟨decide_eq_true shown, ?_⟩
  cases expires : m.expiresAt with
  | none => rfl
  | some e =>
    rw [expires] at visible
    simp only [Option.map_some, Option.getD_some, decide_eq_true_eq] at visible ⊢
    omega

/-- The entries behind the first ones have greater keys. -/
theorem firstKeys_lt_of_not_mem {maxMessages : Nat} {key key' : Bytes} (inFirst : key ∈ firstKeys name maxMessages kv)
    (inIndex : key' ∈ (entriesOf .available name kv).map Prod.fst) (behind : key' ∉ firstKeys name maxMessages kv) :
    key < key' := by
  have ascending := availableKeys_sorted name kv
  rw [firstKeys, List.map_take] at inFirst behind
  rw [← List.take_append_drop maxMessages ((entriesOf .available name kv).map Prod.fst)] at ascending inIndex
  exact (List.pairwise_append.mp ascending).2.2 key inFirst key' ((List.mem_append.mp inIndex).resolve_left behind)

/-- **The polls hand out waiting messages in the order of their keys**, whatever the clock and the sizes. -/
theorem Stocked.pollAll (stocked : Stocked U name rest kv) (laws : U.Laws) (shown : ∀ m ∈ rest, m.visibleAt ≤ start)
    {polls : List Poll} (clock : ClockFrom start polls) :
    (∀ r ∈ pollAll U name polls kv, ∃ m ∈ rest, m.id = r.id ∧ ToBeHad U name start m) ∧
      (Queue.pollAll U name polls kv).Pairwise fun a b =>
        queueAvailableKey U name a.id < queueAvailableKey U name b.id := by
  induction polls generalizing kv rest start with
  | nil => exact ⟨List.forall_mem_nil _, .nil⟩
  | cons p polls ih =>
    obtain ⟨results, kv', left, ran, given, stockedLeft, mem_left⟩ :=
      stocked.poll laws p.now p.receipts p.maxMessages
    have passed : start ≤ p.now := clock.1 p (.head _)
    obtain ⟨forward, later⟩ := List.pairwise_cons.mp clock.2
    have shownLeft : ∀ m ∈ left, m.visibleAt ≤ p.now := fun m member =>
      (shown m ((mem_left m).mp member).1).trans passed
    obtain ⟨fromLeft, ascendingLeft⟩ := ih stockedLeft shownLeft ⟨forward, later⟩
    have split : Queue.pollAll U name (p :: polls) kv = results ++ Queue.pollAll U name polls kv' := by
      rw [Queue.pollAll, ran]
      rfl
    have handed {r : QueueMessage} (member : r ∈ results) :
        ∃ q ∈ usable U p.now name kv (firstKeys name p.maxMessages kv), q.2.id = r.id := by
      have inIds : r.id ∈ results.map QueueMessage.id := List.mem_map_of_mem member
      rw [given] at inIds
      exact List.mem_map.mp inIds
    rw [split]
    constructor
    · intro r member
      rcases List.mem_append.mp member with now | then'
      · obtain ⟨q, inFirst, id⟩ := handed now
        obtain ⟨waits, -, toBeHad⟩ := stocked.first laws inFirst
        exact ⟨q.2, waits, id, toBeHad.earlier (shown q.2 waits) passed⟩
      · obtain ⟨m, inLeft, id, toBeHad⟩ := fromLeft r then'
        have waits := ((mem_left m).mp inLeft).1
        exact ⟨m, waits, id, toBeHad.earlier (shown m waits) passed⟩
    · refine List.pairwise_append.mpr ⟨?_, ascendingLeft, fun a inNow b inLater => ?_⟩
      · have ascending : (results.map QueueMessage.id).Pairwise fun i j =>
            queueAvailableKey U name i < queueAvailableKey U name j := by
          rw [given, List.pairwise_map]
          refine (usable_ascending p.maxMessages).imp_of_mem fun {q q'} inFirst inFirst' less => ?_
          rwa [(stocked.first laws inFirst).2.1, (stocked.first laws inFirst').2.1] at less
        rwa [List.pairwise_map] at ascending
      · -- what is handed out later was behind the first entries
        obtain ⟨q, inFirst, id⟩ := handed inNow
        obtain ⟨m, inLeft, id', toBeHad⟩ := fromLeft b inLater
        obtain ⟨waits, stays⟩ := (mem_left m).mp inLeft
        obtain ⟨inIndex, leads⟩ := stocked.leads laws waits toBeHad
        have behind : slotKey U .available name m.id ∉ firstKeys name p.maxMessages kv := fun inFirst' => by
          refine stays ?_
          rw [given]
          exact List.mem_map.mpr ⟨(slotKey U .available name m.id, m), mem_usable.mpr ⟨inFirst', leads⟩, rfl⟩
        have less := firstKeys_lt_of_not_mem (mem_usable.mp inFirst).1 inIndex behind
        rwa [(stocked.first laws inFirst).2.1, id, id'] at less

end Polls

/-! ## The theorem -/

/-- Of two lists that ascend, the one with fewer items is a part of the other. -/
theorem sublist_of_ascending {α : Type} (less : α → α → Prop) (irrefl : ∀ a, ¬ less a a)
    (trans : ∀ a b c, less a b → less b c → less a c) {xs ys : List α} (ascendingX : xs.Pairwise less)
    (ascendingY : ys.Pairwise less) (inside : xs ⊆ ys) : xs.Sublist ys := by
  induction ys generalizing xs with
  | nil => rw [List.subset_nil.mp inside]
  | cons y ys ih =>
    obtain ⟨below, ascendingRest⟩ := List.pairwise_cons.mp ascendingY
    cases xs with
    | nil => exact List.nil_sublist _
    | cons x xs =>
      obtain ⟨belowX, ascendingX'⟩ := List.pairwise_cons.mp ascendingX
      have inRest {z : α} (member : z ∈ x :: xs) (differ : z ≠ y) : z ∈ ys :=
        (List.mem_cons.mp (inside member)).resolve_left differ
      rcases List.mem_cons.mp (inside (.head _)) with rfl | later
      · refine (ih ascendingX' ascendingRest fun z member => inRest (.tail _ member) ?_).cons_cons x
        rintro rfl
        exact irrefl z (belowX z member)
      · refine (ih ascendingX ascendingRest fun z member => inRest member ?_).cons y
        rintro rfl
        rcases List.mem_cons.mp member with rfl | inX
        · exact irrefl z (below z later)
        · exact irrefl x (trans x z x (belowX z inX) (below x later))

/-- A part of a list without repetitions is the items of the list that are in it. -/
theorem filter_mem_of_sublist {α : Type} [DecidableEq α] {xs ys : List α} (part : xs.Sublist ys) (nodup : ys.Nodup) :
    ys.filter (fun y => decide (y ∈ xs)) = xs := by
  induction part with
  | slnil => rfl
  | @cons xs ys y part ih =>
    obtain ⟨new, nodup⟩ := List.nodup_cons.mp nodup
    have absent : y ∉ xs := fun member => new (part.subset member)
    rw [List.filter_cons_of_neg (by simpa using absent), ih nodup]
  | @cons_cons xs ys x part ih =>
    obtain ⟨new, nodup⟩ := List.nodup_cons.mp nodup
    rw [List.filter_cons_of_pos (by simp)]
    refine congrArg (x :: ·) (Eq.trans (List.filter_congr fun y member => ?_) (ih nodup))
    have differ : y ≠ x := fun same => new (same ▸ member)
    simp [differ]

/-- **Messages are handed out in the order in which they were enqueued if and only if the keys of those
that are to be had ascend in this order.** -/
theorem fifo_iff {U : UuidText} (laws : U.Laws) {kv : KeyValue Stored} (reachable : Reachable U kv) {name : Text}
    (opened : Open kv name) (empty : ∀ i, kv[queueMsgKey U name i]? = none) {start : Int}
    {messages : List (Int × QueueMessage)} (enqueues : Enqueues U name start kv messages) :
    Fifo U name start kv messages ↔ (messages.map Prod.snd).Pairwise fun a b =>
      ToBeHad U name start a → ToBeHad U name start b →
        queueAvailableKey U name a.id < queueAvailableKey U name b.id := by
  have stocked := stocked_enqueueAll laws enqueues
    (stocked_nil (wellKeyed_of_reachable laws reachable) opened empty) nofun
  rw [List.nil_append] at stocked
  have shown : ∀ m ∈ messages.map Prod.snd, m.visibleAt ≤ start := by
    intro m member
    obtain ⟨e, inMessages, rfl⟩ := List.mem_map.mp member
    exact enqueues.shown e inMessages
  have ids : messages.map (fun e => e.2.id) = (messages.map Prod.snd).map QueueMessage.id := by simp
  constructor
  · intro fifo
    -- one poll that asks for everything
    let poll : Poll := ⟨start, fun _ => 0, (entriesOf .available name (enqueueAll U messages kv)).length⟩
    have clock : ClockFrom start [poll] := ⟨by simp [poll], by simp⟩
    obtain ⟨-, given⟩ := stocked.pollAll laws shown clock
    have part := fifo [poll] clock
    rw [ids] at part
    have nodup := ids ▸ enqueues.distinct
    have all {m : QueueMessage} (inMessages : m ∈ messages.map Prod.snd) (toBeHad : ToBeHad U name start m) :
        m.id ∈ (pollAll U name [poll] (enqueueAll U messages kv)).map QueueMessage.id := by
      obtain ⟨results, kv', left, ran, handed, -, -⟩ := stocked.poll laws start poll.receipts poll.maxMessages
      have polled : pollAll U name [poll] (enqueueAll U messages kv) = results := by
        rw [pollAll, ran, pollAll, List.append_nil]
        rfl
      obtain ⟨inIndex, leads⟩ := stocked.leads laws inMessages toBeHad
      have inFirst : slotKey U .available name m.id ∈ firstKeys name poll.maxMessages (enqueueAll U messages kv) := by
        rwa [firstKeys, List.take_length]
      rw [polled, handed]
      exact List.mem_map.mpr ⟨(slotKey U .available name m.id, m), mem_usable.mpr ⟨inFirst, leads⟩, rfl⟩
    have ascending : ((pollAll U name [poll] (enqueueAll U messages kv)).map QueueMessage.id).Pairwise fun i j =>
        queueAvailableKey U name i < queueAvailableKey U name j := by
      rw [List.pairwise_map]
      exact given
    rw [← filter_mem_of_sublist part nodup, List.pairwise_filter, List.pairwise_map] at ascending
    refine ascending.imp_of_mem fun {a b} inA inB less hadA hadB => ?_
    exact less (decide_eq_true (all inA hadA)) (decide_eq_true (all inB hadB))
  · intro ascending polls clock
    classical
    obtain ⟨fromMessages, given⟩ := stocked.pollAll laws shown clock
    have kept : (((messages.map Prod.snd).filter fun m => decide (ToBeHad U name start m)).map QueueMessage.id).Sublist
        (messages.map fun e => e.2.id) := ids ▸ List.filter_sublist.map _
    refine List.Sublist.trans (sublist_of_ascending
      (fun i j => queueAvailableKey U name i < queueAvailableKey U name j) (fun _ => lt_irrefl _) (fun _ _ _ => lt_trans) ?_ ?_ ?_) kept
    · rw [List.pairwise_map]
      exact given
    · rw [List.pairwise_map, List.pairwise_filter]
      refine ascending.imp fun {a b} less => ?_
      simpa using less
    · intro i member
      obtain ⟨r, handed, rfl⟩ := List.mem_map.mp member
      obtain ⟨m, inMessages, id, toBeHad⟩ := fromMessages r handed
      exact List.mem_map.mpr ⟨m, List.mem_filter.mpr ⟨inMessages, decide_eq_true toBeHad⟩, id⟩

/-- A second message with a smaller identifier. -/
def secondMessage : QueueMessage := .new 0 1 ['q'] [0x69]

def sampleQueue : KeyValue Stored := QueueCall.step .hyphenated ∅ (.createQueue sampleConfig)

theorem sampleQueue_reachable : Reachable .hyphenated sampleQueue := ⟨[.createQueue sampleConfig], rfl⟩

theorem sampleQueue_open : Open sampleQueue ['q'] := ⟨sampleConfig, by decide +kernel, rfl⟩

theorem sampleQueue_slots (s : Slot) (n : Text) (i : Uuid) : sampleQueue[slotKey .hyphenated s n i]? = none := by
  have same : cell .hyphenated sampleQueue = cell .hyphenated ∅ := by
    rw [sampleQueue, QueueCall.step_eq]
    exact cell_createQueue sampleConfig
  have here : cell .hyphenated sampleQueue n i s = cell .hyphenated ∅ n i s := by rw [same]
  rw [cell] at here
  rw [here]
  simp [cell]

theorem twoMessages_enqueued :
    Enqueues .hyphenated ['q'] 1 sampleQueue [(0, sampleMessage), (1, secondMessage)] where
  own := by decide
  undelayed := by decide
  shown := by decide
  distinct := by decide
  unknown := fun e _ n _ => sampleQueue_slots .available n e.2.id

theorem fifo_iff_sample : Fifo .hyphenated ['q'] 1 sampleQueue [(0, sampleMessage), (1, secondMessage)] ↔
    [sampleMessage, secondMessage].Pairwise fun a b =>
      ToBeHad .hyphenated ['q'] 1 a → ToBeHad .hyphenated ['q'] 1 b →
        queueAvailableKey .hyphenated ['q'] a.id < queueAvailableKey .hyphenated ['q'] b.id :=
  fifo_iff UuidText.laws_hyphenated sampleQueue_reachable sampleQueue_open (fun i => sampleQueue_slots .message _ i)
    twoMessages_enqueued

/-- The message that was enqueued last is handed out first. -/
theorem last_in_first_out :
    ¬ Fifo .hyphenated ['q'] 1 sampleQueue [(0, sampleMessage), (1, secondMessage)] := by
  intro fifo
  have part := fifo [⟨1, fun _ => 7, 2⟩] ⟨by decide, by decide⟩
  have handed : (pollAll .hyphenated ['q'] [⟨1, fun _ => 7, 2⟩]
      (enqueueAll .hyphenated [(0, sampleMessage), (1, secondMessage)] sampleQueue)).map QueueMessage.id = [0, 1] := by
    decide +kernel
  rw [handed] at part
  revert part
  decide

end NovaRuntime.Queue
