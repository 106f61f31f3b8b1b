/-
# NovaRuntime.Events.DeadLetters — putting dead letters back on the bus

`DeadLetterQueue::requeue` reads an entry under the lock, publishes it without, and removes
under the lock what stands at the old position by then. A `Desk` is the queue with the calls
under way, cut where a lock is taken; what a bus does while it publishes is to push letters,
and to return. Every letter has a stamp of its own, and the desk writes down where it went.

`sorted_run` says between which steps a requeue removes what it published, once and alone
(`Orderly`): the letter is still there when its publication returns, no other call is about to
remove it, and at its removal it stands where it stood. A publication that fails leaves the
queue alone when it has pushed nothing.
-/
import Mathlib.Algebra.Order.Group.Multiset
import Mathlib.Tactic.Abel
import NovaRuntime.Events.Replay
import NovaRuntime.Library.Runs

namespace NovaRuntime.Events

open NovaRuntime.Library

set_option autoImplicit false

structure Letter where
  stamp : Nat
  entry : DeadLetterEntry

/-- A call of `requeue` that has read its letter; `pushed` counts what its publication pushed. -/
structure Requeue where
  index : Nat
  letter : Letter
  pushed : Nat

/-- What a call came to. -/
structure Receipt where
  ok : Bool
  pushed : Nat
  published : List Letter
  removed : List Letter

/-- The queue, the calls that publish and those that are about to remove, and where every letter went. -/
structure Desk where
  maxSize : Nat
  letters : List Letter
  publishing : List Requeue
  removing : List Requeue
  all : List Letter
  popped : List Letter
  displaced : List Letter
  published : List Letter
  receipts : List Receipt

namespace Desk

/-- A queue with any entries, and no call under way. -/
def ofQueue (q : DeadLetterQueue) : Desk :=
  let letters := q.entries.zipIdx.map fun e => ⟨e.2, e.1⟩
  { maxSize := q.maxSize, letters, publishing := [], removing := [], all := letters, popped := [], displaced := []
    published := [], receipts := [] }

def push (s : Desk) (entry : DeadLetterEntry) : Desk :=
  let letter := ⟨s.all.length, entry⟩
  let displaced := if s.maxSize ≤ s.letters.length then 1 else 0
  { s with
    letters := s.letters.drop displaced ++ [letter]
    displaced := s.letters.take displaced ++ s.displaced
    all := s.all ++ [letter] }

def removed (s : Desk) : List Letter := s.receipts.flatMap Receipt.removed

end Desk

inductive DeskAct where
  | push (entry : DeadLetterEntry)
  | pop
  /-- The call of `requeue`, with its read. -/
  | requeue (index : Nat)
  /-- A publication pushes a letter. -/
  | bounce (i : Nat) (entry : DeadLetterEntry)
  /-- A publication returns. -/
  | publish (i : Nat) (ok : Bool)
  | remove (i : Nat)

namespace Desk

def step (s : Desk) : DeskAct → Desk
  | .push entry => s.push entry
  | .pop => { s with letters := s.letters.drop 1, popped := s.letters.take 1 ++ s.popped }
  | .requeue index =>
    match s.letters[index]? with
    | some letter => { s with publishing := ⟨index, letter, 0⟩ :: s.publishing }
    | none => { s with receipts := ⟨false, 0, [], []⟩ :: s.receipts }
  | .bounce i entry =>
    match s.publishing[i]? with
    | some call =>
      { s.push entry with publishing := { call with pushed := call.pushed + 1 } :: s.publishing.eraseIdx i }
    | none => s
  | .publish i ok =>
    match s.publishing[i]? with
    | some call =>
      if ok then
        { s with
          publishing := s.publishing.eraseIdx i
          removing := call :: s.removing
          published := call.letter :: s.published }
      else
        { s with
          publishing := s.publishing.eraseIdx i
          receipts := ⟨false, call.pushed, [], []⟩ :: s.receipts }
    | none => s
  | .remove i =>
    match s.removing[i]? with
    | some call =>
      { s with
        letters := s.letters.eraseIdx call.index
        removing := s.removing.eraseIdx i
        receipts := ⟨true, call.pushed, [call.letter], s.letters[call.index]?.toList⟩ :: s.receipts }
    | none => s

end Desk

/-! ## What is asked -/

/-- A call that returns `Ok` published one letter and removed it, one that returns `Err` did nothing. -/
def Receipt.Right (r : Receipt) : Prop :=
  if r.ok then ∃ letter, r.published = [letter] ∧ r.removed = [letter]
  else r.pushed = 0 ∧ r.published = [] ∧ r.removed = []

/-- **Every letter is where it belongs.** -/
structure Desk.Sorted (s : Desk) : Prop where
  receipts : ∀ r ∈ s.receipts, r.Right
  once : (s.published.map Letter.stamp).Nodup
  kept : (s.letters : Multiset Letter) + s.popped + s.displaced + s.removed = s.all

/-- The condition of a step. -/
def Desk.Orderly (s : Desk) : DeskAct → Prop
  | .publish i true => ∀ call ∈ s.publishing[i]?, call.letter ∈ s.letters ∧
      ∀ other ∈ s.removing, other.letter.stamp ≠ call.letter.stamp
  | .publish i false => ∀ call ∈ s.publishing[i]?, call.pushed = 0
  | .remove i => ∀ call ∈ s.removing[i]?, s.letters[call.index]? = some call.letter
  | _ => True

/-! ## Steps -/

/-- **The invariant.** What is published is waiting to be removed, or removed. -/
structure Desk.Sound (s : Desk) : Prop extends s.Sorted where
  stamps : s.all.map Letter.stamp = List.range s.all.length
  settled : ∀ letter ∈ s.published, (∃ call ∈ s.removing, call.letter = letter) ∨ letter ∈ s.removed

namespace Desk.Sound

variable {s : Desk}

theorem take_add_drop (l : List Letter) (n : Nat) : (l.take n : Multiset Letter) + l.drop n = l := by
  rw [Multiset.coe_add, List.take_append_drop]

theorem eraseIdx_add (l : List Letter) (i : Nat) : (l.eraseIdx i : Multiset Letter) + l[i]?.toList = l := by
  rw [Multiset.coe_add, Multiset.coe_eq_coe]
  by_cases inside : i < l.length
  · rw [List.getElem?_eq_getElem inside]
    exact (List.perm_append_comm.trans (List.getElem_cons_eraseIdx_perm inside))
  · rw [List.getElem?_eq_none (Nat.not_lt.mp inside), List.eraseIdx_of_length_le (Nat.not_lt.mp inside)]
    simp

theorem push (sound : s.Sound) (entry : DeadLetterEntry) : (s.push entry).Sound where
  receipts := sound.receipts
  once := sound.once
  kept := by
    have parts := take_add_drop s.letters (if s.maxSize ≤ s.letters.length then 1 else 0)
    have before := sound.kept
    rw [← parts] at before
    simp only [Desk.push, removed, ← Multiset.coe_add]
    rw [← before]
    simp only [removed]
    abel
  stamps := by
    simp only [Desk.push, List.map_append, sound.stamps, List.length_append, List.length_singleton, List.range_succ]
    rfl
  settled := sound.settled

/-- A letter of the queue has not been removed. -/
theorem not_removed (sound : s.Sound) {letter other : Letter} (here : letter ∈ s.letters)
    (gone : other ∈ s.removed) : other.stamp ≠ letter.stamp := by
  intro same
  have perm : (s.letters ++ (s.popped ++ (s.displaced ++ s.removed))).Perm s.all := by
    rw [← Multiset.coe_eq_coe, ← sound.kept]
    simp only [← Multiset.coe_add, add_assoc]
  have distinct := (perm.map Letter.stamp).nodup_iff.mpr (sound.stamps ▸ List.nodup_range)
  rw [List.map_append, List.nodup_append'] at distinct
  refine distinct.2.2 (List.mem_map_of_mem here) (same ▸ List.mem_map_of_mem ?_)
  exact List.mem_append_right _ (List.mem_append_right _ gone)

/-- **A step** that meets the condition. -/
theorem step (sound : s.Sound) {act : DeskAct} (orderly : s.Orderly act) : (s.step act).Sound := by
  cases act with
  | push entry => exact sound.push entry
  | pop =>
    refine { sound with kept := ?_ }
    have before := sound.kept
    rw [← take_add_drop s.letters 1] at before
    simp only [Desk.step, removed, ← Multiset.coe_add]
    rw [← before]
    simp only [removed]
    abel
  | requeue index =>
    simp only [Desk.step]
    split
    · exact { sound with }
    · refine { sound with receipts := List.forall_mem_cons.mpr ⟨?_, sound.receipts⟩ }
      exact ⟨rfl, rfl, rfl⟩
  | bounce i entry =>
    simp only [Desk.step]
    split
    · exact { sound.push entry with }
    · exact sound
  | publish i ok =>
    simp only [Desk.step]
    split
    · next call found =>
      cases ok with
      | true =>
        obtain ⟨here, alone⟩ := orderly call found
        refine { sound with once := List.nodup_cons.mpr ⟨fun again => ?_, sound.once⟩, settled := ?_ }
        · obtain ⟨letter, was, same⟩ := List.mem_map.mp again
          rcases sound.settled letter was with ⟨other, waits, rfl⟩ | gone
          · exact alone other waits same
          · exact sound.not_removed here gone same
        · refine List.forall_mem_cons.mpr ⟨.inl ⟨call, .head _, rfl⟩, fun letter was => ?_⟩
          exact (sound.settled letter was).imp_left fun ⟨other, waits, same⟩ => ⟨other, .tail _ waits, same⟩
      | false =>
        refine { sound with receipts := List.forall_mem_cons.mpr ⟨?_, sound.receipts⟩ }
        exact ⟨orderly call found, rfl, rfl⟩
    · exact sound
  | remove i =>
    simp only [Desk.step]
    split
    · next call found =>
      have there := orderly call found
      refine { sound with receipts := ?_, kept := ?_, settled := fun letter was => ?_ }
      · refine List.forall_mem_cons.mpr ⟨⟨call.letter, rfl, ?_⟩, sound.receipts⟩
        rw [there]
        rfl
      · have before := sound.kept
        rw [← eraseIdx_add s.letters call.index] at before
        simp only [removed, List.flatMap_cons, ← Multiset.coe_add]
        rw [← before]
        simp only [removed]
        abel
      · have away : letter ∈ s.removed ∨ letter = call.letter →
            letter ∈ s.letters[call.index]?.toList ++ s.removed := by
          rw [there]
          rintro (gone | rfl)
          · exact List.mem_append_right _ gone
          · exact List.mem_append_left _ (.head _)
        rcases sound.settled letter was with ⟨other, waits, rfl⟩ | gone
        · obtain ⟨inside, rfl⟩ := List.getElem?_eq_some_iff.mp found
          rcases List.mem_cons.mp ((List.getElem_cons_eraseIdx_perm inside).mem_iff.mpr waits) with rfl | rest
          · exact .inr (away (.inr rfl))
          · exact .inl ⟨other, rest, rfl⟩
        · exact .inr (away (.inl gone))
    · exact sound

end Desk.Sound

/-! ## Runs -/

theorem sound_ofQueue (q : DeadLetterQueue) : (Desk.ofQueue q).Sound := by
  have stamps : (Desk.ofQueue q).all.map Letter.stamp = List.range (Desk.ofQueue q).all.length := by
    rw [Desk.ofQueue, List.map_map, List.length_map, List.length_zipIdx, List.range_eq_range']
    exact List.zipIdx_map_snd 0 q.entries
  have kept : ((Desk.ofQueue q).letters : Multiset Letter) + ([] : List Letter) + ([] : List Letter) +
      ([] : List Letter) = (Desk.ofQueue q).all := by
    simp only [Multiset.coe_nil, add_zero]
    rfl
  exact ⟨⟨nofun, List.nodup_nil, kept⟩, stamps,
    fun _ absent => absurd absent List.not_mem_nil⟩

/-- **Where every step is orderly, every letter is where it belongs**, in every state. -/
theorem sorted_run (q : DeadLetterQueue) {acts : List DeskAct}
    (orderly : Run.Each Desk.step Desk.Orderly (.ofQueue q) acts) :
    Run.Always Desk.step Desk.Sorted (.ofQueue q) acts := fun s reached =>
  (Run.Each.invariant (I := Desk.Sound) (fun _ _ sound => sound.step) (sound_ofQueue q) orderly s reached).toSorted

/-- Two letters with one event. -/
def twoLetters : DeadLetterQueue :=
  let entry : DeadLetterEntry := ⟨Replay.orderPlaced, Replay.orders.subscriber, [], 5, 0, []⟩
  ⟨[entry, entry], 2⟩

theorem sorted_run_two : Run.Always Desk.step Desk.Sorted (.ofQueue twoLetters)
    [.requeue 1, .publish 0 true, .remove 0] := by
  refine sorted_run twoLetters ⟨trivial, ?_, ?_, trivial⟩
  · intro call found
    obtain rfl := Option.some.inj found
    exact ⟨.tail _ (.head _), fun _ absent => absurd absent List.not_mem_nil⟩
  · intro call found
    obtain rfl := Option.some.inj found
    rfl

/-- The first letter is read and published; it is popped in between, and the second one removed. -/
theorem other_letter_removed : ¬ ∀ (q : DeadLetterQueue) (acts : List DeskAct),
    Run.Always Desk.step Desk.Sorted (.ofQueue q) acts := by
  intro claim
  have sorted := claim twoLetters [.requeue 0, .pop, .publish 0 true, .remove 0] _ (Run.foldl_mem_states _ _)
  obtain ⟨letter, published, removed⟩ := sorted.receipts ⟨true, 0, [_], [_]⟩ (.head _)
  have stamps := congrArg (List.map Letter.stamp) (published.trans removed.symm)
  exact absurd stamps (by decide)

end NovaRuntime.Events
