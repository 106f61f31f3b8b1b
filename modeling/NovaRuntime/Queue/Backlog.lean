/-
# NovaRuntime.Queue.Backlog — entries in the way of `dequeue`

`dequeue` takes the first entries of the available index and then leaves out what is not visible, has
expired or is not stored any more. It should hand out as many messages as were asked for, or all that
are visible if these are fewer (`Full`).

`full_iff` names the states in which it does: behind the first entries there is a usable one only if
these are usable themselves, and no message stands behind two of them.
-/
import NovaRuntime.Queue.Isolation
import NovaRuntime.Queue.Takes

namespace NovaRuntime.Queue

open NovaRuntime.Library

set_option autoImplicit false

/-! ## What is asked of a call -/

def availableKeys (name : Text) (kv : KeyValue Stored) : List Bytes := (entriesOf .available name kv).map Prod.fst

/-- The number of visible and unexpired messages in the available index. -/
def visibleCount (U : UuidText) (now : Int) (name : Text) (kv : KeyValue Stored) : Nat :=
  (usable U now name kv (availableKeys name kv)).length

/-- **`dequeue` hands out as many messages as it can.** -/
def Full (U : UuidText) (now : Int) (receipts : Bytes → Uuid) (name : Text) (maxMessages : Nat)
    (kv : KeyValue Stored) : Prop :=
  ∃ results kv', dequeue U now receipts name maxMessages kv = (.ok results, kv') ∧
    results.length = min maxMessages (visibleCount U now name kv)

/-- The queue is there and not paused, no message with a timeout stands behind two of the first entries,
and either all of the first entries are usable or none behind them is. -/
structure Unblocked (U : UuidText) (now : Int) (name : Text) (maxMessages : Nat) (kv : KeyValue Stored) : Prop where
  opened : Open kv name
  once : (usable U now name kv (firstKeys name maxMessages kv)).Pairwise fun a b => again a b = false
  usable : (∀ key ∈ (availableKeys name kv).take maxMessages, usableAt U now name kv key ≠ none) ∨
    ∀ key ∈ (availableKeys name kv).drop maxMessages, usableAt U now name kv key = none

/-! ## Counting -/

section Counting

variable {U : UuidText} {now : Int} {name : Text} {kv : KeyValue Stored}

theorem firstKeys_eq (maxMessages : Nat) : firstKeys name maxMessages kv = (availableKeys name kv).take maxMessages :=
  List.map_take

theorem visibleCount_eq (maxMessages : Nat) : visibleCount U now name kv =
    (usable U now name kv ((availableKeys name kv).take maxMessages)).length +
      (usable U now name kv ((availableKeys name kv).drop maxMessages)).length := by
  rw [← List.length_append, ← usable_append, List.take_append_drop, visibleCount]

theorem length_usable_eq_iff {keys : List Bytes} :
    (usable U now name kv keys).length = keys.length ↔ ∀ key ∈ keys, usableAt U now name kv key ≠ none := by
  rw [usable, List.filterMap_length_eq_length]
  simp [Option.isSome_iff_ne_none]

theorem length_usable_eq_zero_iff {keys : List Bytes} :
    (usable U now name kv keys).length = 0 ↔ ∀ key ∈ keys, usableAt U now name kv key = none := by
  rw [List.length_eq_zero_iff, usable, List.filterMap_eq_nil_iff]
  simp

/-- All that is usable of the first entries is what can be had, or the call is full. -/
theorem length_usable_eq_min_iff (maxMessages : Nat) :
    (usable U now name kv ((availableKeys name kv).take maxMessages)).length = min maxMessages (visibleCount U now name kv) ↔
      (∀ key ∈ (availableKeys name kv).take maxMessages, usableAt U now name kv key ≠ none) ∨
        ∀ key ∈ (availableKeys name kv).drop maxMessages, usableAt U now name kv key = none := by
  have total : visibleCount U now name kv = _ := visibleCount_eq maxMessages
  have atMost : (usable U now name kv ((availableKeys name kv).take maxMessages)).length ≤ _ := length_usable_le _
  have behind : (usable U now name kv ((availableKeys name kv).drop maxMessages)).length ≤ _ := length_usable_le _
  rw [← length_usable_eq_iff, ← length_usable_eq_zero_iff]
  rw [List.length_take] at *
  rw [List.length_drop] at behind
  omega

end Counting

/-! ## The theorem -/

/-- **`dequeue` hands out as many messages as it can in exactly the states that are not blocked.** -/
theorem full_iff {U : UuidText} (laws : U.Laws) {kv : KeyValue Stored} (reachable : Reachable U kv) (now : Int)
    (receipts : Bytes → Uuid) (name : Text) (maxMessages : Nat) :
    Full U now receipts name maxMessages kv ↔ Unblocked U now name maxMessages kv := by
  have keyed := wellKeyed_of_reachable laws reachable
  by_cases opened : Open kv name
  · obtain ⟨results, kv', ran, taking⟩ := dequeue_takes laws keyed opened now receipts maxMessages
    have given : results.length = (handedOut (usable U now name kv (firstKeys name maxMessages kv))).length := by
      rw [← List.length_map QueueMessage.id, taking.results, List.length_map]
    have all : (handedOut (usable U now name kv (firstKeys name maxMessages kv))).length =
        (usable U now name kv (firstKeys name maxMessages kv)).length ↔
          (usable U now name kv (firstKeys name maxMessages kv)).Pairwise fun a b => again a b = false := by
      rw [handedOut, length_firsts_eq_iff]
      simp
    have fewer : (handedOut (usable U now name kv (firstKeys name maxMessages kv))).length ≤
        (usable U now name kv (firstKeys name maxMessages kv)).length := (firsts_sublist ..).length_le
    have first : firstKeys name maxMessages kv = (availableKeys name kv).take maxMessages := firstKeys_eq maxMessages
    constructor
    · rintro ⟨results', kv'', ran', full⟩
      cases ran.symm.trans ran'
      rw [given] at full
      have possible : (usable U now name kv (firstKeys name maxMessages kv)).length ≤
          min maxMessages (visibleCount U now name kv) := by
        have bound : (usable U now name kv (firstKeys name maxMessages kv)).length ≤ _ := length_usable_le _
        have total : visibleCount U now name kv = _ := visibleCount_eq maxMessages
        rw [first] at bound ⊢
        rw [List.length_take] at bound
        omega
      exact ⟨opened, all.mp (by omega), (length_usable_eq_min_iff maxMessages).mp (by rw [← first]; omega)⟩
    · intro unblocked
      refine ⟨results, kv', ran, ?_⟩
      rw [given, all.mpr unblocked.once, first]
      exact (length_usable_eq_min_iff maxMessages).mpr unblocked.usable
  · obtain ⟨e, failed⟩ := dequeue_of_not_open (U := U) now receipts maxMessages opened
    constructor
    · rintro ⟨results, kv', ran, -⟩
      rw [failed] at ran
      cases ran
    · exact fun unblocked => absurd unblocked.opened opened

/-- A message that expires after a day, and one that was enqueued a second later. -/
def twoEnqueued : List QueueCall :=
  [.createQueue sampleConfig, .enqueue 0 sampleMessage, .enqueue 1000 (.new 2 1000 ['q'] [0x69])]

theorem full_iff_sample : Full .hyphenated 86400500 (fun _ => 3) ['q'] 2 (twoEnqueued.foldl (QueueCall.step .hyphenated) ∅) ↔
    Unblocked .hyphenated 86400500 ['q'] 2 (twoEnqueued.foldl (QueueCall.step .hyphenated) ∅) :=
  full_iff UuidText.laws_hyphenated ⟨twoEnqueued, rfl⟩ 86400500 (fun _ => 3) ['q'] 2

/-- The expired message keeps the other one from being handed out. -/
theorem expired_blocks : ¬ ∀ (U : UuidText), U.Laws → ∀ kv, Reachable U kv → ∀ now receipts name maxMessages,
    Open kv name → Full U now receipts name maxMessages kv := by
  intro all
  have open' : Open (twoEnqueued.foldl (QueueCall.step .hyphenated) ∅) ['q'] :=
    ⟨sampleConfig, by decide +kernel, rfl⟩
  obtain ⟨results, kv', ran, full⟩ := all .hyphenated UuidText.laws_hyphenated _ ⟨twoEnqueued, rfl⟩ 86400500
    (fun _ => 3) ['q'] 1 open'
  have given : (dequeue .hyphenated 86400500 (fun _ => 3) ['q'] 1
      (twoEnqueued.foldl (QueueCall.step .hyphenated) ∅)).1 = .ok [] := by decide +kernel
  have visible : visibleCount .hyphenated 86400500 ['q'] (twoEnqueued.foldl (QueueCall.step .hyphenated) ∅) = 1 := by
    decide +kernel
  rw [ran] at given
  cases given
  rw [visible] at full
  cases full

end NovaRuntime.Queue
