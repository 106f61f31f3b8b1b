/-
# NovaRuntime.Queue.Takes — what one `dequeue` hands out

An index entry is usable if it leads to a message that is stored and visible (`usableAt`).
`dequeue_takes` says of any well-keyed store which of the first entries are handed out: the usable ones
in the order of their keys, but a message that an earlier entry led to only if its timeout is zero
(`handedOut`). Their entries are gone afterwards, and the data of the other messages is as it was.
-/
import NovaRuntime.Library.Distinct
import NovaRuntime.Queue.BackendSpec

namespace NovaRuntime.Queue

open NovaRuntime.Library

set_option autoImplicit false

variable {U : UuidText}

/-! ## Usable entries -/

/-- The message an index entry leads to, if it is visible. -/
def usableAt (U : UuidText) (now : Int) (name : Text) (kv : KeyValue Stored) (key : Bytes) : Option QueueMessage :=
  match messageId U key with
  | none => none
  | some i =>
    match kv[slotKey U .message name i]? with
    | some (.message m) => if m.isVisible now then some m else none
    | _ => none

/-- The usable entries among some keys, with their messages. -/
def usable (U : UuidText) (now : Int) (name : Text) (kv : KeyValue Stored) (keys : List Bytes) :
    List (Bytes × QueueMessage) :=
  keys.filterMap fun key => (usableAt U now name kv key).map fun m => (key, m)

/-- An earlier entry led to the same message, and it is not visible any more. -/
def again (earlier entry : Bytes × QueueMessage) : Bool :=
  earlier.2.id == entry.2.id && entry.2.visibilityTimeoutSecs != 0

/-- The entries a `dequeue` hands out of the usable ones. -/
def handedOut (entries : List (Bytes × QueueMessage)) : List (Bytes × QueueMessage) := firsts again [] entries

section Usable

variable {now : Int} {name : Text} {kv : KeyValue Stored} {key : Bytes}

theorem usableAt_eq_some {m : QueueMessage} : usableAt U now name kv key = some m ↔
    ∃ i, messageId U key = some i ∧ kv[slotKey U .message name i]? = some (.message m) ∧ m.isVisible now = true := by
  rw [usableAt]
  cases read : messageId U key with
  | none => simp
  | some i =>
    simp only [Option.some.injEq, exists_eq_left']
    rcases kv[slotKey U .message name i]? with _ | _ | m' | _
    · simp
    · simp
    · by_cases visible : m'.isVisible now = true
      · simp only [visible, if_true, Option.some.injEq, Stored.message.injEq]
        exact ⟨fun same => ⟨same, same ▸ visible⟩, fun same => same.1⟩
      · simp only [if_neg visible, reduceCtorEq, Option.some.injEq, Stored.message.injEq, false_iff]
        rintro ⟨rfl, shown⟩
        exact visible shown
    · simp

theorem usableAt_of_found {i : Uuid} {m : QueueMessage} (read : messageId U key = some i)
    (found : kv[slotKey U .message name i]? = some (.message m)) :
    usableAt U now name kv key = if m.isVisible now then some m else none := by
  simp only [usableAt, read, found]

theorem usable_cons (keys : List Bytes) : usable U now name kv (key :: keys) =
    ((usableAt U now name kv key).map fun m => (key, m)).toList ++ usable U now name kv keys := by
  rw [usable, List.filterMap_cons]
  cases usableAt U now name kv key <;> rfl

theorem usable_append (keys keys' : List Bytes) :
    usable U now name kv (keys ++ keys') = usable U now name kv keys ++ usable U now name kv keys' :=
  List.filterMap_append

theorem mem_usable {keys : List Bytes} {p : Bytes × QueueMessage} :
    p ∈ usable U now name kv keys ↔ p.1 ∈ keys ∧ usableAt U now name kv p.1 = some p.2 := by
  obtain ⟨key, m⟩ := p
  simp only [usable, List.mem_filterMap, Option.map_eq_some_iff, Prod.mk.injEq]
  constructor
  · rintro ⟨_, member, _, found, rfl, rfl⟩
    exact ⟨member, found⟩
  · rintro ⟨member, found⟩
    exact ⟨key, member, m, found, rfl, rfl⟩

theorem map_fst_usable_sublist (keys : List Bytes) : ((usable U now name kv keys).map Prod.fst).Sublist keys := by
  induction keys with
  | nil => exact .slnil
  | cons key keys ih =>
    rw [usable_cons]
    cases usableAt U now name kv key with
    | none => exact ih.cons key
    | some m => exact ih.cons_cons key

theorem length_usable_le (keys : List Bytes) : (usable U now name kv keys).length ≤ keys.length :=
  List.length_filterMap_le ..

end Usable

/-- A message that was just received is visible again only without a timeout. -/
theorem isVisible_markReceived {m : QueueMessage} {now : Int} (visible : m.isVisible now = true) (receipt : Text) :
    (m.markReceived now receipt).isVisible now = true ↔ m.visibilityTimeoutSecs = 0 := by
  rw [QueueMessage.isVisible, Bool.and_eq_true] at visible
  have again : (m.markReceived now receipt).isVisible now =
      decide (now + m.visibilityTimeoutSecs.toNat * 1000 ≤ now) := by
    rw [QueueMessage.isVisible, QueueMessage.markReceived]
    simp only [visible.2, Bool.and_true]
  rw [again, decide_eq_true_eq, ← UInt32.toNat_inj]
  constructor
  · intro due
    have none : m.visibilityTimeoutSecs.toNat = 0 := by omega
    exact none
  · intro none
    rw [none]
    simp

/-! ## The loop -/

/-- `seen` are the usable entries the loop has come to, `keys` those it has yet to look at. -/
structure Taking (U : UuidText) (now : Int) (name : Text) (start : KeyValue Stored) (all : List Bytes)
    (keys : List Bytes) (done : List QueueMessage) (kv : KeyValue Stored) (seen : List (Bytes × QueueMessage)) :
    Prop where
  split : seen ++ usable U now name start keys = usable U now name start all
  indexed : ∀ key ∈ keys, ∃ n j, key = slotKey U .available n j
  results : done.map QueueMessage.id = (handedOut seen).map fun p => p.2.id
  stored : ∀ p ∈ seen, start[slotKey U .message name p.2.id]? = some (.message p.2) ∧ p.2.isVisible now = true
  others : ∀ i, (∀ p ∈ seen, p.2.id ≠ i) → kv[slotKey U .message name i]? = start[slotKey U .message name i]?
  received : ∀ p ∈ seen, ∃ m, kv[slotKey U .message name p.2.id]? = some (.message m) ∧ m.id = p.2.id ∧
    m.visibilityTimeoutSecs = p.2.visibilityTimeoutSecs ∧
    (m.isVisible now = true ↔ p.2.visibilityTimeoutSecs = 0)
  index : ∀ n j, kv[slotKey U .available n j]? =
    if slotKey U .available n j ∈ (handedOut seen).map Prod.fst then none else start[slotKey U .available n j]?

namespace Taking

variable {now : Int} {name : Text} {start kv : KeyValue Stored} {all keys : List Bytes} {key : Bytes}
  {done : List QueueMessage} {seen : List (Bytes × QueueMessage)}

theorem initial (indexed : ∀ key ∈ all, ∃ n j, key = slotKey U .available n j) :
    Taking U now name start all all [] start [] where
  split := rfl
  indexed := indexed
  results := rfl
  stored := nofun
  others := fun _ _ => rfl
  received := nofun
  index := fun n j => by simp [handedOut, firsts]

section

variable (taking : Taking U now name start all (key :: keys) done kv seen)

include taking

/-- An entry that is not usable. -/
theorem skip (nothing : usableAt U now name start key = none) : Taking U now name start all keys done kv seen :=
  { taking with
    split := by
      rw [← taking.split, usable_cons, nothing]
      rfl
    indexed := fun key' member => taking.indexed key' (.tail _ member) }

/-- An entry whose message was handed out already, and is not visible any more. -/
theorem drop {m : QueueMessage} (leads : usableAt U now name start key = some m)
    (stored : start[slotKey U .message name m.id]? = some (.message m) ∧ m.isVisible now = true)
    (dropped : (seen.any fun p => again p (key, m)) = true) :
    Taking U now name start all keys done kv (seen ++ [(key, m)]) := by
  have same : handedOut (seen ++ [(key, m)]) = handedOut seen := by
    rw [handedOut, firsts_concat, List.append_nil, List.any_reverse, if_pos dropped, List.append_nil, handedOut]
  obtain ⟨q, inSeen, isSame⟩ := List.any_eq_true.mp dropped
  rw [again, Bool.and_eq_true, beq_iff_eq] at isSame
  obtain ⟨r, found, rest⟩ := taking.received q inSeen
  have still := (taking.stored q inSeen).1
  rw [show q.2.id = (key, m).2.id from isSame.1, stored.1] at still
  obtain rfl : m = q.2 := by cases still; rfl
  exact
    { split := by rw [← taking.split, usable_cons, leads, List.append_assoc]; rfl
      indexed := fun key' member => taking.indexed key' (.tail _ member)
      results := by rw [taking.results, same]
      stored := fun p member => by
        rcases List.mem_append.mp member with earlier | new
        · exact taking.stored p earlier
        · rw [List.mem_singleton.mp new]
          exact stored
      others := fun i other => taking.others i fun p earlier => other p (List.mem_append_left _ earlier)
      received := fun p member => by
        rcases List.mem_append.mp member with earlier | new
        · exact taking.received p earlier
        · rw [List.mem_singleton.mp new]
          exact ⟨r, found, rest⟩
      index := fun n j => by rw [same]; exact taking.index n j }

end

/-- An entry that is handed out. -/
theorem take (laws : U.Laws) (taking : Taking U now name start all (key :: keys) done kv seen)
    {first m : QueueMessage} (leads : usableAt U now name start key = some first)
    (stored : start[slotKey U .message name first.id]? = some (.message first) ∧ first.isVisible now = true)
    (kept : (seen.any fun p => again p (key, first)) = false)
    (found : kv[slotKey U .message name first.id]? = some (.message m)) (own : m.id = first.id)
    (timeout : m.visibilityTimeoutSecs = first.visibilityTimeoutSecs) (visible : m.isVisible now = true)
    (receipt : Text) :
    Taking U now name start all keys (done ++ [m.markReceived now receipt])
      (((kv.insert (slotKey U .message name first.id) (.message (m.markReceived now receipt))).erase key).insert
        (slotKey U .inflight name first.id) .empty) (seen ++ [(key, first)]) := by
  obtain ⟨n₀, j₀, rfl⟩ := taking.indexed key (.head _)
  have more : handedOut (seen ++ [(slotKey U .available n₀ j₀, first)]) =
      handedOut seen ++ [(slotKey U .available n₀ j₀, first)] := by
    rw [handedOut, firsts_concat, List.append_nil, List.any_reverse, if_neg (by rw [kept]; decide), handedOut]
  have data (i : Uuid) : (((kv.insert (slotKey U .message name first.id) (.message (m.markReceived now receipt))).erase
      (slotKey U .available n₀ j₀)).insert (slotKey U .inflight name first.id) .empty)[slotKey U .message name i]? =
        if first.id = i then some (.message (m.markReceived now receipt)) else kv[slotKey U .message name i]? := by
    simp only [getElem?_insert_slot laws, getElem?_erase_slot laws, reduceCtorEq, false_and, if_false, true_and]
  exact
    { split := by rw [← taking.split, usable_cons, leads, List.append_assoc]; rfl
      indexed := fun key' member => taking.indexed key' (.tail _ member)
      results := by
        rw [List.map_append, taking.results, more, List.map_append]
        exact congrArg _ (congrArg (fun i => [i]) own)
      stored := fun p member => by
        rcases List.mem_append.mp member with earlier | new
        · exact taking.stored p earlier
        · rw [List.mem_singleton.mp new]
          exact stored
      others := fun i other => by
        rw [data, if_neg (other _ (List.mem_append_right _ (List.mem_singleton.mpr rfl)))]
        exact taking.others i fun p earlier => other p (List.mem_append_left _ earlier)
      received := fun p member => by
        have shown := isVisible_markReceived visible receipt
        rw [data]
        rcases List.mem_append.mp member with earlier | new
        · obtain ⟨r, there, id, same, again⟩ := taking.received p earlier
          by_cases here : first.id = p.2.id
          · rw [← here, found] at there
            cases there
            rw [if_pos here]
            exact ⟨_, rfl, id, same, by rw [shown, same]⟩
          · rw [if_neg here]
            exact ⟨r, there, id, same, again⟩
        · rw [List.mem_singleton.mp new, if_pos rfl]
          exact ⟨_, rfl, own, timeout, by rw [shown, timeout]⟩
      index := fun n j => by
        have gone := taking.index n j
        simp only [getElem?_insert_slot laws, getElem?_erase_slot laws, reduceCtorEq, false_and, if_false, true_and,
          more, List.map_append, List.map_cons, List.map_nil, List.mem_append, List.mem_singleton, slotKey_inj laws,
          gone]
        by_cases here : n₀ = n ∧ j₀ = j
        · rw [if_pos here, if_pos (.inr ⟨here.1.symm, here.2.symm⟩)]
        · rw [if_neg here]
          refine if_congr ?_ rfl rfl
          exact ⟨.inl, fun either => either.resolve_right fun same => here ⟨same.1.symm, same.2.symm⟩⟩ }

/-- One key of the loop that leads to a message. -/
theorem visit (laws : U.Laws) (keyed : WellKeyed U start) {receipts : Bytes → Uuid}
    (taking : Taking U now name start all (key :: keys) done kv seen) {i : Uuid} {m : QueueMessage}
    (read : messageId U key = some i) (found : kv[slotKey U .message name i]? = some (.message m)) :
    ∃ result kv', receive U now receipts name key i m kv = (.ok result, kv') ∧
      ∃ seen', Taking U now name start all keys (done ++ result.toList) kv' seen' := by
  rw [receive_apply]
  by_cases known : ∃ p ∈ seen, p.2.id = i
  · obtain ⟨p, inSeen, rfl⟩ := known
    obtain ⟨original, wasVisible⟩ := taking.stored p inSeen
    obtain ⟨r, there, own, timeout, shown⟩ := taking.received p inSeen
    cases found.symm.trans there
    have leads : usableAt U now name start key = some p.2 := by rw [usableAt_of_found read original, if_pos wasVisible]
    by_cases visible : m.isVisible now = true
    · have zero : p.2.visibilityTimeoutSecs = 0 := shown.mp visible
      have kept : (seen.any fun q => again q (key, p.2)) = false := by
        rw [List.any_eq_false]
        intro q _ same
        simp [again, zero] at same
      rw [if_pos visible]
      exact ⟨_, _, rfl, _, taking.take laws leads ⟨original, wasVisible⟩ kept found own timeout visible _⟩
    · have dropped : (seen.any fun q => again q (key, p.2)) = true := by
        refine List.any_eq_true.mpr ⟨p, inSeen, ?_⟩
        rw [again, Bool.and_eq_true, bne_iff_ne]
        exact ⟨beq_self_eq_true _, fun zero => visible (shown.mpr zero)⟩
      rw [if_neg visible]
      refine ⟨none, kv, rfl, seen ++ [(key, p.2)], ?_⟩
      rw [Option.toList_none, List.append_nil]
      exact taking.drop leads ⟨original, wasVisible⟩ dropped
  · have unseen : ∀ p ∈ seen, p.2.id ≠ i := fun p inSeen same => known ⟨p, inSeen, same⟩
    have original := found
    rw [taking.others i unseen] at original
    obtain ⟨m', same, -, rfl⟩ := keyed.message laws original
    cases same
    have leads : usableAt U now name start key = if m.isVisible now then some m else none :=
      usableAt_of_found read original
    by_cases visible : m.isVisible now = true
    · rw [if_pos visible] at leads
      have kept : (seen.any fun q => again q (key, m)) = false := by
        rw [List.any_eq_false]
        intro q inSeen same
        rw [again, Bool.and_eq_true, beq_iff_eq] at same
        exact unseen q inSeen same.1
      rw [if_pos visible]
      exact ⟨_, _, rfl, _, taking.take laws leads ⟨original, visible⟩ kept found rfl rfl visible _⟩
    · rw [if_neg visible] at leads ⊢
      refine ⟨none, kv, rfl, seen, ?_⟩
      rw [Option.toList_none, List.append_nil]
      exact taking.skip leads

/-- A key that leads to no message now led to none at the start. -/
theorem pass (taking : Taking U now name start all (key :: keys) done kv seen)
    (nothing : ∀ i m, messageId U key = some i → kv[slotKey U .message name i]? ≠ some (.message m)) :
    Taking U now name start all keys done kv seen := by
  refine taking.skip (Option.eq_none_iff_forall_ne_some.mpr fun m leads => ?_)
  obtain ⟨i, read, original, -⟩ := usableAt_eq_some.mp leads
  by_cases known : ∃ p ∈ seen, p.2.id = i
  · obtain ⟨p, inSeen, rfl⟩ := known
    obtain ⟨r, there, -⟩ := taking.received p inSeen
    exact nothing _ r read there
  · refine nothing i m read ?_
    rwa [taking.others i fun p inSeen same => known ⟨p, inSeen, same⟩]

end Taking

/-! ## One call -/

/-- The keys of the first entries of the available index, in their order. -/
def firstKeys (name : Text) (maxMessages : Nat) (kv : KeyValue Stored) : List Bytes :=
  ((entriesOf .available name kv).take maxMessages).map Prod.fst

/-- **What a `dequeue` hands out**, and what it leaves. -/
theorem dequeue_takes (laws : U.Laws) {kv : KeyValue Stored} (keyed : WellKeyed U kv) {name : Text}
    (opened : Open kv name) (now : Int) (receipts : Bytes → Uuid) (maxMessages : Nat) :
    ∃ results kv', dequeue U now receipts name maxMessages kv = (.ok results, kv') ∧
      Taking U now name kv (firstKeys name maxMessages kv) [] results kv'
        (usable U now name kv (firstKeys name maxMessages kv)) := by
  have indexed : ∀ key ∈ firstKeys name maxMessages kv, ∃ n j, key = slotKey U .available n j := by
    intro key member
    obtain ⟨e, inEntries, rfl⟩ := List.mem_map.mp member
    obtain ⟨n, j, same, -, -⟩ := keyed.entry laws (List.mem_of_mem_take inEntries)
    exact ⟨n, j, same⟩
  obtain ⟨results, kv', ran, seen, taking⟩ := forEachMessage_spec (receive U now receipts name)
    (P := fun keys done kv' => ∃ seen, Taking U now name kv (firstKeys name maxMessages kv) keys done kv' seen)
    (fun _ _ _ _ ⟨seen, taking⟩ nothing => ⟨seen, taking.pass nothing⟩)
    (fun _ _ _ _ _ _ ⟨_, taking⟩ read found => taking.visit laws keyed read found)
    (firstKeys name maxMessages kv) [] kv ⟨[], .initial indexed⟩
  have all : seen = usable U now name kv (firstKeys name maxMessages kv) := by
    have split := taking.split
    rwa [usable, List.filterMap_nil, List.append_nil] at split
  refine ⟨results, kv', ?_, all ▸ taking⟩
  rw [dequeue_of_open opened]
  exact ran

end NovaRuntime.Queue
