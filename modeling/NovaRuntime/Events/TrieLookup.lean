/-
# NovaRuntime.Events.TrieLookup — the trie answers as the patterns do

`Registry` is a trie beside the list of the subscriptions that are inserted and not removed. What
a lookup finds are those of the list whose topic matches, each of them once; a removal and a
switch succeed exactly for an identifier of the list (`answers_of_allowed`).

A lookup goes down a path for each way a pattern can match, and what it has gone down is taken
off the patterns below (`Holds`).
-/
import Mathlib.Data.List.Nodup
import NovaRuntime.Events.Trie
import NovaRuntime.Library.Runs

namespace NovaRuntime.Events

open NovaRuntime.Library

set_option autoImplicit false

/-- A list is filtered by two tests of which no item passes both. -/
theorem perm_filter_or {A : Type} {p q r : A → Bool} {l : List A} (each : ∀ a ∈ l, p a = (q a || r a))
    (apart : ∀ a ∈ l, q a = true → r a = false) : (l.filter q ++ l.filter r).Perm (l.filter p) := by
  induction l with
  | nil => exact .nil
  | cons a l ih =>
    have rest := ih (fun b member => each b (.tail _ member)) fun b member => apart b (.tail _ member)
    have here := each a (.head _)
    have either := apart a (.head _)
    cases left : q a with
    | true =>
      rw [left, either left, Bool.true_or] at here
      rw [List.filter_cons_of_pos left, List.filter_cons_of_neg (by simpa using either left), List.filter_cons_of_pos here]
      exact rest.cons a
    | false =>
      rw [left, Bool.false_or] at here
      rw [List.filter_cons_of_neg (by simpa using left)]
      cases right : r a with
      | true =>
        rw [List.filter_cons_of_pos right, List.filter_cons_of_pos (here.trans right)]
        exact List.perm_middle.trans (rest.cons a)
      | false =>
        rw [List.filter_cons_of_neg (by simpa using right), List.filter_cons_of_neg (by simpa using here.trans right)]
        exact rest

namespace TrieNode

open TopicPattern (MultiLast segmentsMatch)

/-! ## Lookup -/

/-- What is left of a path behind a segment. -/
def after (segment : PatternSegment) : List PatternSegment → Option (List PatternSegment)
  | [] => none
  | first :: rest => if first = segment then some rest else none

theorem after_eq_some {segment : PatternSegment} {path rest : List PatternSegment} :
    after segment path = some rest ↔ path = segment :: rest := by
  rcases path with _ | ⟨first, path⟩
  · exact ⟨nofun, nofun⟩
  · rw [after]
    split
    next same => rw [same, Option.some.injEq, List.cons.injEq, and_iff_right rfl]
    next differ => exact ⟨nofun, fun whole => absurd (List.cons.inj whole).1 differ⟩

/-- The subscriptions below a node are those of the list that have a path here, by that path. -/
structure Holds (path : Subscription → Option (List PatternSegment)) (live : List Subscription) (node : TrieNode) :
    Prop where
  ends : ∀ q, at' q node = live.filter fun s => decide (path s = some q)
  multiLast : ∀ s ∈ live, ∀ q, path s = some q → MultiLast q

/-- What is left of the pattern of a subscription matches what is left of an event type. -/
def reaches (path : Subscription → Option (List PatternSegment)) (event : List Text) (s : Subscription) : Bool :=
  ((path s).map fun q => segmentsMatch q event).getD false

section Lookup

variable {path : Subscription → Option (List PatternSegment)} {live : List Subscription} {node : TrieNode}

/-- One step down. -/
theorem Holds.below (holds : Holds path live node) {segment : PatternSegment} {child : TrieNode}
    (here : ∀ q, at' (segment :: q) node = at' q child) :
    Holds (fun s => (path s).bind (after segment)) live child where
  ends q := by
    rw [← here, holds.ends]
    refine List.filter_congr fun s _ => ?_
    cases path s with
    | none => rfl
    | some p => simp only [Option.bind_some, after_eq_some, Option.some.injEq]
  multiLast s member q known := by
    obtain ⟨p, whole, rest⟩ := Option.bind_eq_some_iff.mp known
    rw [after_eq_some] at rest
    subst rest
    exact (holds.multiLast s member _ whole).2

/-- **The way down to one child**, if there is one. -/
theorem Holds.branch (holds : Holds path live node) (segment : PatternSegment) (child : Option TrieNode) (event : List Text)
    (here : ∀ q, at' (segment :: q) node = (child.map (at' q)).getD [])
    (below : ∀ child, Holds (fun s => (path s).bind (after segment)) live child →
      (lookupRecursive event child).Perm (live.filter (reaches (fun s => (path s).bind (after segment)) event))) :
    ((child.map (lookupRecursive event)).getD []).Perm
      (live.filter (reaches (fun s => (path s).bind (after segment)) event)) := by
  cases child with
  | some child => exact below child (holds.below here)
  | none =>
    have none' : live.filter (reaches (fun s => (path s).bind (after segment)) event) = [] := by
      refine List.filter_eq_nil_iff.mpr fun s member reached => ?_
      rw [reaches] at reached
      cases known : (path s).bind (after segment) with
      | none =>
        rw [known] at reached
        cases reached
      | some q =>
        obtain ⟨p, whole, rest⟩ := Option.bind_eq_some_iff.mp known
        rw [after_eq_some] at rest
        have nobody := holds.ends (segment :: q)
        rw [here, Option.map_none, Option.getD_none] at nobody
        exact List.filter_eq_nil_iff.mp nobody.symm s member (by rw [whole, rest]; exact decide_eq_true rfl)
    rw [none']
    exact .nil

theorem multi_at (node : TrieNode) : (node.multiWildcard.map subscriptions).getD [] = at' [.multiWildcard] node := by
  rw [at']
  rfl

/-- **A lookup finds the subscriptions that match**, in some order. -/
theorem lookup_spec (event : List Text) (holds : Holds path live node) :
    (lookupRecursive event node).Perm (live.filter (reaches path event)) := by
  induction event generalizing path node with
  | nil =>
    have top : node.subscriptions = live.filter fun s => decide (path s = some []) := holds.ends []
    rw [lookupRecursive, multi_at, holds.ends, top]
    refine perm_filter_or (fun s member => ?_) fun s _ whole => ?_
    · rw [reaches]
      cases known : path s with
      | none => rfl
      | some q =>
        have last := holds.multiLast s member q known
        rcases q with _ | ⟨segment, rest⟩
        · rfl
        · cases segment with
          | literal lit | singleWildcard => rfl
          | multiWildcard =>
            rw [last.1 rfl]
            rfl
    · rw [of_decide_eq_true whole]
      rfl
  | cons first event ih =>
    have single := holds.branch .singleWildcard node.singleWildcard event (fun q => rfl) fun child held => ih held
    have literal := holds.branch (.literal first) (node.literalChildren.lookup first) event (fun q => rfl)
      fun child held => ih held
    rw [lookupRecursive, multi_at, holds.ends]
    refine ((literal.append_left _).append single).trans ?_
    refine List.Perm.trans (.append_right _ (perm_filter_or (p := fun s =>
      decide (path s = some [.multiWildcard]) || reaches (fun s => (path s).bind (after (.literal first))) event s)
        (fun _ _ => rfl) fun s _ whole => ?_)) (perm_filter_or (fun s member => ?_) fun s _ whole => ?_)
    · rw [reaches, of_decide_eq_true whole]
      rfl
    · rw [reaches, reaches, reaches]
      cases known : path s with
      | none => rfl
      | some q =>
        have last := holds.multiLast s member q known
        rcases q with _ | ⟨segment, rest⟩
        · rfl
        · cases segment with
          | literal lit =>
            simp only [Option.map_some, Option.getD_some, segmentsMatch, Option.bind_some, after,
              PatternSegment.literal.injEq, Option.some.injEq, List.cons.injEq]
            by_cases same : lit = first
            · simp [same]
            · simp [same]
          | singleWildcard => simp [segmentsMatch, after]
          | multiWildcard =>
            rw [last.1 rfl]
            simp [segmentsMatch]
    · -- a path that starts with `*` or with the literal does not start with `+`
      rw [reaches]
      cases known : path s with
      | none => rfl
      | some q =>
        rcases q with _ | ⟨segment, rest⟩
        · rfl
        · cases segment with
          | literal lit => simp [after]
          | singleWildcard =>
            rw [reaches, known] at whole
            simp [after] at whole
          | multiWildcard => simp [after]

end Lookup

/-! ## Steps of a visit -/

theorem dropId_cons (id : Uuid) (s : Subscription) (subs : List Subscription) :
    dropId id (s :: subs) = if s.id = id then some subs else (dropId id subs).map fun subs => s :: subs := by
  rw [dropId, List.findIdx?_cons]
  by_cases same : s.id = id
  · rw [if_pos same, decide_eq_true same]
    rfl
  · rw [if_neg same, decide_eq_false same, dropId]
    cases subs.findIdx? fun s => decide (s.id = id) with
    | none => rfl
    | some pos => rfl

theorem switch_cons (id : Uuid) (active : Bool) (s : Subscription) (subs : List Subscription) :
    switch id active (s :: subs) =
      if s.id = id then some ({ s with active } :: subs) else (switch id active subs).map fun subs => s :: subs := by
  rw [switch, List.findIdx?_cons]
  by_cases same : s.id = id
  · rw [if_pos same, decide_eq_true same]
    rfl
  · rw [if_neg same, decide_eq_false same, switch]
    cases subs.findIdx? fun s => decide (s.id = id) with
    | none => rfl
    | some pos => rfl

/-- A step changes the one subscription with the id, and so the list. -/
structure Edits (id : Uuid) (step : List Subscription → Option (List Subscription))
    (edit : List Subscription → List Subscription) : Prop where
  none : ∀ subs, (∀ s ∈ subs, s.id ≠ id) → step subs = none ∧ edit subs = subs
  some : ∀ subs, (subs.map Subscription.id).Nodup → (∃ s ∈ subs, s.id = id) → step subs = some (edit subs)
  topic : ∀ (q : List PatternSegment) subs, edit (subs.filter fun s => decide (s.topic.segments = q)) =
    (edit subs).filter fun s => decide (s.topic.segments = q)

theorem edits_dropId (id : Uuid) : Edits id (dropId id) fun subs => subs.filter fun s => decide (s.id ≠ id) where
  none subs absent := by
    constructor
    · rw [dropId, List.findIdx?_eq_none_iff.mpr fun s member => by simpa using absent s member]
      rfl
    · exact List.filter_eq_self.mpr fun s member => by simpa using absent s member
  some subs nodup present := by
    induction subs with
    | nil =>
      obtain ⟨s, member, -⟩ := present
      cases member
    | cons first subs ih =>
      rw [List.map_cons, List.nodup_cons] at nodup
      rw [dropId_cons]
      by_cases same : first.id = id
      · have absent : ∀ s ∈ subs, s.id ≠ id := fun s member isId =>
          nodup.1 (List.mem_map.mpr ⟨s, member, isId.trans same.symm⟩)
        rw [if_pos same, List.filter_cons_of_neg (by simpa using same),
          List.filter_eq_self.mpr fun s member => by simpa using absent s member]
      · obtain ⟨s, member, isId⟩ := present
        rcases List.mem_cons.mp member with rfl | later
        · exact absurd isId same
        · rw [if_neg same, ih nodup.2 ⟨s, later, isId⟩, List.filter_cons_of_pos (by simpa using same)]
          rfl
  topic q subs := by rw [List.filter_filter, List.filter_filter, List.filter_congr fun s _ => Bool.and_comm _ _]

/-- The subscription with the id is switched. -/
def switched (id : Uuid) (active : Bool) (s : Subscription) : Subscription :=
  if s.id = id then { s with active } else s

@[simp] theorem id_switched (id : Uuid) (active : Bool) (s : Subscription) : (switched id active s).id = s.id := by
  rw [switched]
  split <;> rfl

@[simp] theorem topic_switched (id : Uuid) (active : Bool) (s : Subscription) :
    (switched id active s).topic = s.topic := by
  rw [switched]
  split <;> rfl

theorem map_switched_of_absent {id : Uuid} (active : Bool) {subs : List Subscription} (absent : ∀ s ∈ subs, s.id ≠ id) :
    subs.map (switched id active) = subs := by
  refine (List.map_congr_left fun s member => ?_).trans (List.map_id subs)
  rw [switched, if_neg (absent s member)]
  rfl

theorem edits_switch (id : Uuid) (active : Bool) : Edits id (switch id active) (List.map (switched id active)) where
  none subs absent := by
    refine ⟨?_, map_switched_of_absent active absent⟩
    rw [switch, List.findIdx?_eq_none_iff.mpr fun s member => by simpa using absent s member]
    rfl
  some subs nodup present := by
    induction subs with
    | nil =>
      obtain ⟨s, member, -⟩ := present
      cases member
    | cons first subs ih =>
      rw [List.map_cons, List.nodup_cons] at nodup
      rw [switch_cons]
      by_cases same : first.id = id
      · have absent : ∀ s ∈ subs, s.id ≠ id := fun s member isId =>
          nodup.1 (List.mem_map.mpr ⟨s, member, isId.trans same.symm⟩)
        rw [if_pos same, List.map_cons, map_switched_of_absent active absent, switched, if_pos same]
      · obtain ⟨s, member, isId⟩ := present
        rcases List.mem_cons.mp member with rfl | later
        · exact absurd isId same
        · rw [if_neg same, ih nodup.2 ⟨s, later, isId⟩, List.map_cons, switched, if_neg same]
          rfl
  topic q subs := by
    rw [List.filter_map]
    congr 1
    refine List.filter_congr fun s _ => ?_
    rw [Function.comp_apply, topic_switched]

end TrieNode

/-! ## The registry -/

/-- A trie, and the subscriptions that are inserted and not removed. -/
structure Registry where
  trie : SubscriptionTrie
  live : List Subscription

inductive TrieOp where
  | insert (sub : Subscription)
  | remove (id : Uuid)
  | setActive (id : Uuid) (active : Bool)
  | lookup (eventType : EventType)

namespace Registry

def start : Registry := { trie := .new, live := [] }

def step (r : Registry) : TrieOp → Registry
  | .insert sub => { trie := r.trie.insert sub.topic sub, live := r.live ++ [sub] }
  | .remove id => { trie := (r.trie.remove id).2, live := r.live.filter fun s => decide (s.id ≠ id) }
  | .setActive id active =>
    { trie := (r.trie.setActive id active).2, live := r.live.map (TrieNode.switched id active) }
  | .lookup _ => r

/-- A topic comes from `TopicPattern::new`, and an identifier is used once at a time. -/
def Allowed (r : Registry) : TrieOp → Prop
  | .insert sub => (∃ pattern, TopicPattern.new pattern = .ok sub.topic) ∧ ∀ s ∈ r.live, s.id ≠ sub.id
  | _ => True

/-- A lookup returns the live subscriptions that match, each once; a removal and a switch say
whether the identifier is a live one. -/
def Answers (r : Registry) : TrieOp → Prop
  | .insert _ => True
  | .remove id => (r.trie.remove id).1 = true ↔ ∃ s ∈ r.live, s.id = id
  | .setActive id active => (r.trie.setActive id active).1 = true ↔ ∃ s ∈ r.live, s.id = id
  | .lookup eventType => ((r.trie.lookup eventType).map Subscription.id).Nodup ∧
      ∀ s, s ∈ r.trie.lookup eventType ↔ s ∈ r.live ∧ s.topic.«matches» eventType = true

/-- Every live subscription is at the end of its path, and nothing else is. -/
structure Sound (r : Registry) : Prop where
  proper : r.trie.root.Proper
  ends : ∀ q, r.trie.root.at' q = r.live.filter fun s => decide (s.topic.segments = q)
  multiLast : ∀ s ∈ r.live, TopicPattern.MultiLast s.topic.segments
  distinct : (r.live.map Subscription.id).Nodup

variable {r : Registry}

/-- **A visit by identifier.** -/
theorem Sound.visited (sound : Sound r) {id : Uuid} {step : List Subscription → Option (List Subscription)}
    {edit : List Subscription → List Subscription} (edits : TrieNode.Edits id step edit) :
    ((r.trie.visited step).1 = true ↔ ∃ s ∈ r.live, s.id = id) ∧ (r.trie.visited step).2.root.Proper ∧
      ∀ q, (r.trie.visited step).2.root.at' q = (edit r.live).filter fun s => decide (s.topic.segments = q) := by
  have absentIn : ∀ {q}, (∀ s ∈ r.trie.root.at' q, s.id ≠ id) ↔ step (r.trie.root.at' q) = none := by
    intro q
    refine ⟨fun absent => (edits.none _ absent).1, fun none s member isId => ?_⟩
    have distinct : ((r.trie.root.at' q).map Subscription.id).Nodup := by
      rw [sound.ends]
      exact sound.distinct.sublist (List.filter_sublist.map _)
    cases none.symm.trans (edits.some _ distinct ⟨s, member, isId⟩)
  rcases TrieNode.visit_spec (edits.none [] (List.forall_mem_nil _)).1 sound.proper with ⟨visited, nobody⟩ |
    ⟨root, path, subs, visited, changed⟩
  · have absent : ∀ s ∈ r.live, s.id ≠ id := by
      intro s member
      refine absentIn.mpr (nobody s.topic.segments) s ?_
      rw [sound.ends]
      exact List.mem_filter.mpr ⟨member, decide_eq_true rfl⟩
    rw [SubscriptionTrie.visited, visited]
    refine ⟨⟨nofun, fun ⟨s, member, isId⟩ => absurd isId (absent s member)⟩, sound.proper, fun q => ?_⟩
    rw [(edits.none _ absent).2]
    exact sound.ends q
  · have present : ∃ s ∈ r.trie.root.at' path, s.id = id := by
      by_contra absent
      have none := absentIn.mp fun s member isId => absent ⟨s, member, isId⟩
      cases none.symm.trans changed.found
    have distinct : ∀ q, ((r.trie.root.at' q).map Subscription.id).Nodup := by
      intro q
      rw [sound.ends]
      exact sound.distinct.sublist (List.filter_sublist.map _)
    obtain ⟨s, member, isId⟩ := present
    rw [sound.ends, List.mem_filter] at member
    rw [SubscriptionTrie.visited, visited]
    refine ⟨⟨fun _ => ⟨s, member.1, isId⟩, fun _ => rfl⟩, changed.proper, fun q => ?_⟩
    rw [← edits.topic, changed.others, ← sound.ends]
    by_cases here : q = path
    · have edited := edits.some _ (distinct path) ⟨s, by rw [sound.ends]; exact List.mem_filter.mpr member, isId⟩
      rw [if_pos here, here]
      exact Option.some.inj (changed.found.symm.trans edited)
    · rw [if_neg here]
      refine ((edits.none _ fun s' member' isId' => here ?_).2).symm
      rw [sound.ends, List.mem_filter] at member'
      have same := List.inj_on_of_nodup_map sound.distinct member'.1 member.1 (isId'.trans isId.symm)
      rw [← of_decide_eq_true member'.2, ← of_decide_eq_true member.2, same]

theorem Sound.lookup (sound : Sound r) (eventType : EventType) :
    (r.trie.lookup eventType).Perm (r.live.filter fun s => s.topic.«matches» eventType) := by
  suffices all : TrieNode.Holds (fun s => some s.topic.segments) r.live r.trie.root from
    TrieNode.lookup_spec eventType.segments all
  refine ⟨fun q => ?_, ?_⟩
  · rw [sound.ends]
    exact List.filter_congr fun s _ => by simp only [Option.some.injEq]
  · intro s member q isPath
    cases isPath
    exact sound.multiLast s member

theorem sound_start : Sound start :=
  ⟨TrieNode.proper_empty, TrieNode.at_empty, List.forall_mem_nil _, .nil⟩

theorem Sound.step (sound : Sound r) {op : TrieOp} (allowed : r.Allowed op) : Sound (r.step op) := by
  cases op with
  | lookup eventType => exact sound
  | insert sub =>
    obtain ⟨⟨pattern, accepted⟩, new⟩ := allowed
    refine ⟨TrieNode.proper_insert sub _ sound.proper, fun q => ?_, fun s member => ?_, ?_⟩
    · refine (TrieNode.at_insert sub sub.topic.segments r.trie.root q).trans ?_
      rw [Registry.step, List.filter_append, sound.ends, sound.ends]
      by_cases here : q = sub.topic.segments
      · rw [if_pos here, List.filter_cons_of_pos (by simp [here]), here]
        rfl
      · rw [if_neg here, List.filter_cons_of_neg (by simpa using Ne.symm here), List.filter_nil, List.append_nil]
    · rcases List.mem_append.mp member with old | last
      · exact sound.multiLast s old
      · rw [List.mem_singleton.mp last]
        exact TopicPattern.multi_last_of_new accepted
    · rw [Registry.step, List.map_append, List.nodup_append]
      refine ⟨sound.distinct, List.pairwise_singleton _ _, ?_⟩
      intro id old id' last same
      obtain ⟨s, member, rfl⟩ := List.mem_map.mp old
      rw [List.map_singleton, List.mem_singleton] at last
      exact new s member (same.trans last)
  | remove id =>
    obtain ⟨-, proper, ends⟩ := sound.visited (TrieNode.edits_dropId id)
    exact ⟨proper, ends, fun s member => sound.multiLast s (List.mem_filter.mp member).1,
      sound.distinct.sublist (List.filter_sublist.map _)⟩
  | setActive id active =>
    obtain ⟨-, proper, ends⟩ := sound.visited (TrieNode.edits_switch id active)
    refine ⟨proper, ends, fun s member => ?_, ?_⟩
    · obtain ⟨old, inLive, rfl⟩ := List.mem_map.mp member
      rw [TrieNode.topic_switched]
      exact sound.multiLast old inLive
    · have same : Subscription.id ∘ TrieNode.switched id active = Subscription.id :=
        funext (TrieNode.id_switched id active)
      rw [Registry.step, List.map_map, same]
      exact sound.distinct

theorem Sound.answers (sound : Sound r) (op : TrieOp) : r.Answers op := by
  cases op with
  | insert sub => trivial
  | remove id => exact (sound.visited (TrieNode.edits_dropId id)).1
  | setActive id active => exact (sound.visited (TrieNode.edits_switch id active)).1
  | lookup eventType =>
    have found := sound.lookup eventType
    refine ⟨((found.map Subscription.id).nodup_iff).mpr (sound.distinct.sublist (List.filter_sublist.map _)), fun s => ?_⟩
    rw [found.mem_iff, List.mem_filter]

/-- **Every answer of every run** of insertions with accepted topics and distinct identifiers, and
of removals, switches and lookups. -/
theorem answers_of_allowed (ops : List TrieOp) (allowed : Run.Each step Allowed start ops) :
    Run.Each step Answers start ops :=
  allowed.imp (I := Sound) (fun _ _ sound allowed => sound.step allowed) (fun _ op sound _ => sound.answers op) sound_start

def ordersTopic : TopicPattern :=
  { segments := [.literal "orders".toList, .multiWildcard], canonical := "orders.*".toList }

def ordersSub : Subscription :=
  { id := 7, subscriber := { id := "s".toList, subsystem := .system, name := "n".toList }, topic := ordersTopic
    contentFilter := none, active := true, sender := 0 }

theorem answers_of_allowed_sample : Run.Each step Answers start
    [.insert ordersSub, .setActive 7 false, .lookup { segments := ["orders".toList], canonical := "orders".toList },
      .remove 7] :=
  answers_of_allowed _ ⟨⟨⟨"orders.*".toList, by decide⟩, nofun⟩, trivial, trivial, trivial, trivial⟩

end Registry

end NovaRuntime.Events
