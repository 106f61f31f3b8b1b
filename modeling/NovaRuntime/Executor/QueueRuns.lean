/-
# NovaRuntime.Executor.QueueRuns — whether operations leave once, and in their order

A `Counter` stands beside the queue, hands a ticket to every operation that is pushed, and
writes down how it left. Every operation leaves once, and the depth is the number of
operations, in every run. Operations pushed with one priority are popped in the order they
were pushed as long as no pop ages one of them past another (`in_order`).
-/
import NovaRuntime.Executor.QueueOrder
import NovaRuntime.Library.Runs

namespace NovaRuntime.Executor

open NovaRuntime.Library

set_option autoImplicit false

/-! ## What each call does to the line -/

section

variable {J : Type} {capacity now deadline : Nat} {level : Priority} {op : PendingOperation J} {q : OperationQueue J}

namespace Queues

variable {queues : Queues J}

/-- An operation that is pushed stands at the end of its queue. -/
theorem line_pushBack (queues : Queues J) (level : Priority) (op : PendingOperation J) :
    ∃ front back, queues.line = front ++ back ∧ (queues.pushBack level op).line = front ++ op :: back ∧
      ∀ y ∈ back, ∃ behind, level.index < behind.index ∧ y ∈ queues behind := by
  cases level with
  | critical =>
    refine ⟨queues .critical, _, line_eq queues, ?_, fun y member => ?_⟩
    · rw [line_eq]
      exact List.append_assoc (queues .critical) [op] _
    · rw [List.mem_append, List.mem_append] at member
      rcases member with high | normal | background
      · exact ⟨.high, by decide, high⟩
      · exact ⟨.normal, by decide, normal⟩
      · exact ⟨.background, by decide, background⟩
  | high =>
    refine ⟨queues .critical ++ queues .high, queues .normal ++ queues .background, ?_, ?_, fun y member => ?_⟩
    · rw [line_eq, List.append_assoc]
    · rw [line_eq, List.append_assoc]
      exact congrArg _ (List.append_assoc (queues .high) [op] _)
    · rcases List.mem_append.mp member with normal | background
      · exact ⟨.normal, by decide, normal⟩
      · exact ⟨.background, by decide, background⟩
  | normal =>
    refine ⟨queues .critical ++ (queues .high ++ queues .normal), queues .background, ?_, ?_, fun y member => ?_⟩
    · rw [line_eq, List.append_assoc, List.append_assoc]
    · rw [line_eq, List.append_assoc, List.append_assoc]
      exact congrArg _ (congrArg _ (List.append_assoc (queues .normal) [op] _))
    · exact ⟨.background, by decide, member⟩
  | background =>
    refine ⟨queues.line, [], (List.append_nil _).symm, ?_, fun y member => nomatch member⟩
    rw [line_eq, line_eq, List.append_assoc, List.append_assoc, List.append_assoc]
    rfl

theorem Leveled.pushBack (leveled : queues.Leveled) (here : op.operationPriority = level) :
    (queues.pushBack level op).Leveled := by
  refine leveled.update fun op' member => ?_
  rcases List.mem_append.mp member with old | new
  · exact leveled level op' old
  · rw [List.mem_singleton.mp new, here]

end Queues

namespace OperationQueue

/-- The depth counts the line, and every operation stands in the queue of its priority. -/
structure Sound (capacity : Nat) (q : OperationQueue J) : Prop where
  leveled : q.queues.Leveled
  depth : q.depth = q.queues.line.length
  currentDepth : q.currentDepth = q.depth
  within : q.depth ≤ capacity

theorem sound_new : (new : OperationQueue J).Sound capacity :=
  ⟨fun _ _ absent => absurd absent List.not_mem_nil, rfl, rfl, Nat.zero_le _⟩

/-- A push that is refused counts it, and one that is accepted puts the operation into its queue. -/
theorem push_cases (q : OperationQueue J) (capacity : Nat) (op : PendingOperation J) :
    (∃ response, q.push capacity op = ({ q with rejectedCount := q.rejectedCount + 1 }, .error response)) ∨
      q.depth < capacity ∧ q.push capacity op =
        ({ q with
            queues := q.queues.pushBack op.operationPriority op
            depth := q.depth + 1
            currentDepth := q.depth + 1 }, .ok ()) := by
  rw [push]
  split
  · exact .inl ⟨_, rfl⟩
  next room =>
    split
    · exact .inl ⟨_, rfl⟩
    · exact .inr ⟨not_le.mp room, rfl⟩

theorem Sound.push (sound : q.Sound capacity) (op : PendingOperation J) : (q.push capacity op).1.Sound capacity := by
  rcases q.push_cases capacity op with ⟨response, refused⟩ | ⟨room, accepted⟩
  · rw [refused]
    exact ⟨sound.leveled, sound.depth, sound.currentDepth, sound.within⟩
  · obtain ⟨front, back, whole, added, -⟩ := q.queues.line_pushBack op.operationPriority op
    rw [accepted]
    refine ⟨sound.leveled.pushBack rfl, ?_, rfl, room⟩
    dsimp only
    rw [added, sound.depth, whole]
    simp only [List.length_append, List.length_cons]
    rfl

/-- **A pop** takes the front of the line that ageing leaves, and finds nothing only where
nothing waits. -/
theorem Sound.popPriority_cases (sound : q.Sound capacity) (now : Nat) :
    (q.queues.line = [] ∧ q.popPriority now = (q, none)) ∨
      ∃ op after, (q.queues.age now).line = op :: after.queues.line ∧ q.popPriority now = (after, some op) ∧
        after.Sound capacity := by
  by_cases empty : q.depth = 0
  · refine .inl ⟨List.eq_nil_of_length_eq_zero (sound.depth.symm.trans empty), ?_⟩
    rw [popPriority, if_pos empty]
  have aged : (q.queues.age now).line.length = q.depth := by
    have perm := (sound.leveled.jobs_age now).length_eq
    rw [List.length_map, List.length_map] at perm
    rw [perm, sound.depth]
  rw [popPriority, if_neg empty]
  cases found : (q.queues.age now).popFront Priority.all with
  | none =>
    have nothing : (q.queues.age now).line = [] := Queues.popFront_none _ found
    rw [nothing] at aged
    exact absurd aged.symm empty
  | some popped =>
    obtain ⟨op, queues⟩ := popped
    obtain ⟨front, -, inside⟩ := Queues.popFront_some _ (by decide) found
    refine .inr ⟨op, { q with
      queues
      depth := q.depth - 1
      currentDepth := q.depth - 1
      waitTimeTotal := q.waitTimeTotal + UInt64.ofNat (now - op.submittedAt)
      waitTimeCount := q.waitTimeCount + 1 }, front, rfl, (sound.leveled.age).within inside, ?_, rfl, ?_⟩
    · have line : (q.queues.age now).line = op :: Queues.line queues := front
      rw [line, List.length_cons] at aged
      exact Nat.sub_eq_of_eq_add aged.symm
    · exact le_trans (Nat.sub_le _ _) sound.within

theorem Sound.cancelAll (reason : Text) : (q.cancelAll reason).1.Sound capacity :=
  ⟨fun _ _ absent => absurd absent List.not_mem_nil, rfl, rfl, Nat.zero_le _⟩

theorem cancelAll_answers (reason : Text) :
    (q.cancelAll reason).2.1.map (·.1) = q.queues.line ∧
      (∀ answer ∈ (q.cancelAll reason).2.1, answer.2 = .ofCode .cancelled reason) ∧
      (q.cancelAll reason).2.2 = q.queues.line.length := by
  refine ⟨?_, fun answer member => ?_, rfl⟩
  · rw [OperationQueue.cancelAll, List.map_map]
    exact List.map_id _
  · obtain ⟨op, -, rfl⟩ := List.mem_map.mp member
    rfl

/-! ### What is drained -/

theorem drain_queues (q : OperationQueue J) (deadline : Nat) (level : Priority) :
    (q.drain deadline).1.queues level = (q.queues level).filter fun op => !decide (op.deadline ≤ deadline) := by
  rw [drain]
  dsimp only
  rw [Queues.takeBackwards_eq]

theorem drain_line (q : OperationQueue J) (deadline : Nat) :
    (q.drain deadline).1.queues.line = q.queues.line.filter fun op => !decide (op.deadline ≤ deadline) := by
  rw [Queues.line, Queues.line, List.filter_flatMap]
  exact List.flatMap_congr fun level _ => q.drain_queues deadline level

theorem drain_expired (q : OperationQueue J) (deadline : Nat) :
    (q.drain deadline).2.Perm (q.queues.line.filter fun op => op.deadline ≤ deadline) := by
  rw [Queues.line, List.filter_flatMap, drain]
  refine List.Perm.flatMap_left _ fun level _ => ?_
  dsimp only
  rw [Queues.takeBackwards_eq]
  exact List.reverse_perm _

/-- **What is drained and what stays** is what was there. -/
theorem perm_drain (q : OperationQueue J) (deadline : Nat) :
    ((q.drain deadline).2 ++ (q.drain deadline).1.queues.line).Perm q.queues.line := by
  rw [drain_line]
  exact ((q.drain_expired deadline).append_right _).trans (List.filter_append_perm _ _)

theorem Sound.drain (sound : q.Sound capacity) (deadline : Nat) : (q.drain deadline).1.Sound capacity := by
  have length := (q.perm_drain deadline).length_eq
  rw [List.length_append, ← sound.depth] at length
  refine ⟨sound.leveled.within fun level op member => ?_, ?_, rfl, ?_⟩
  · rw [drain_queues] at member
    exact List.mem_of_mem_filter member
  · exact Nat.sub_eq_of_eq_add (by rw [← length]; exact Nat.add_comm _ _)
  · exact le_trans (Nat.sub_le _ _) sound.within

end OperationQueue

end

/-! ## Tickets -/

/-- What an operation is given when it is pushed. -/
structure Ticket where
  number : Nat
  pushed : Priority
  deriving DecidableEq

def Ticket.Same (x y : Ticket) : Prop := x.pushed = y.pushed

def Ticket.Before (x y : Ticket) : Prop := x.number < y.number

instance : DecidableRel Ticket.Same := fun x y => inferInstanceAs (Decidable (x.pushed = y.pushed))

instance : DecidableRel Ticket.Before := fun x y => inferInstanceAs (Decidable (x.number < y.number))

/-- The queue, the clock, and the tickets of the operations that were accepted and that left. -/
structure Counter where
  queue : OperationQueue Ticket
  clock : Nat
  issued : Nat
  accepted : List Ticket
  popped : List Ticket
  drained : List Ticket
  cancelled : List (Ticket × OperationResponse)

namespace Counter

def new : Counter := ⟨.new, 0, 0, [], [], [], []⟩

/-- The calls, and the time that passes between them. -/
inductive Call where
  | elapse (nanos : Nat)
  | push (operationPriority : Priority) (submittedAt deadline priorityAge : Nat)
  | pop
  | drain (deadline : Nat)
  | cancelAll (reason : Text)
  deriving DecidableEq

/-- The operation with its ticket as its job. -/
def ticketed (c : Counter) (operationPriority : Priority) (submittedAt deadline priorityAge : Nat) :
    PendingOperation Ticket :=
  ⟨⟨c.issued, operationPriority⟩, operationPriority, submittedAt, deadline, priorityAge⟩

def step (capacity : Nat) (c : Counter) : Call → Counter
  | .elapse nanos => { c with clock := c.clock + nanos }
  | .push operationPriority submittedAt deadline priorityAge =>
    let op := c.ticketed operationPriority submittedAt deadline priorityAge
    match c.queue.push capacity op with
    | (queue, .ok _) => { c with queue, issued := c.issued + 1, accepted := c.accepted ++ [op.job] }
    | (queue, .error _) => { c with queue }
  | .pop =>
    match c.queue.popPriority c.clock with
    | (queue, some op) => { c with queue, popped := c.popped ++ [op.job] }
    | (queue, none) => { c with queue }
  | .drain deadline =>
    let found := c.queue.drain deadline
    { c with queue := found.1, drained := c.drained ++ found.2.map (·.job) }
  | .cancelAll reason =>
    let found := c.queue.cancelAll reason
    { c with
        queue := found.1
        cancelled := c.cancelled ++ found.2.1.map fun answer => (answer.1.job, answer.2) }

/-- The tickets in the queues. -/
def waiting (c : Counter) : List Ticket := c.queue.queues.line.map (·.job)

/-- The tickets of the operations that left. -/
def gone (c : Counter) : List Ticket := c.popped ++ (c.drained ++ c.cancelled.map (·.1))

/-- **Every operation that was accepted waits, or left once.** -/
structure Conserved (capacity : Nat) (c : Counter) : Prop where
  accounted : (c.gone ++ c.waiting).Perm c.accepted
  distinct : c.accepted.Nodup
  answered : ∀ answer ∈ c.cancelled, answer.2.error.map (·.code) = some .cancelled
  depth : c.queue.depth = c.waiting.length
  len : c.queue.len = c.waiting.length
  within : c.queue.depth ≤ capacity
  popped_none : ∀ now, (c.queue.popPriority now).2 = none → c.waiting = []

/-- Operations pushed with one priority are popped in the order they were pushed. -/
def InOrder (c : Counter) : Prop := c.popped.Pairwise fun x y => x.Same y → x.Before y

/-- A pop ages nothing past its own. -/
def Orderly (c : Counter) (call : Call) : Prop :=
  call = .pop → c.queue.queues.Orderly Ticket.Same Ticket.Before c.clock

/-! ## Every run conserves -/

/-- What every call keeps. -/
structure Kept (capacity : Nat) (c : Counter) : Prop where
  sound : c.queue.Sound capacity
  accounted : (c.gone ++ c.waiting).Perm c.accepted
  distinct : c.accepted.Nodup
  fresh : ∀ ticket ∈ c.accepted, ticket.number < c.issued
  answered : ∀ answer ∈ c.cancelled, answer.2.error.map (·.code) = some .cancelled

variable {capacity : Nat} {c : Counter}

theorem Kept.conserved (kept : c.Kept capacity) : c.Conserved capacity where
  accounted := kept.accounted
  distinct := kept.distinct
  answered := kept.answered
  depth := by rw [waiting, List.length_map, kept.sound.depth]
  len := by rw [waiting, List.length_map, ← kept.sound.depth, ← kept.sound.currentDepth, OperationQueue.len]
  within := kept.sound.within
  popped_none := by
    intro now nothing
    rcases kept.sound.popPriority_cases now with ⟨empty, -⟩ | ⟨op, after, -, popped, -⟩
    · rw [waiting, empty, List.map_nil]
    · rw [popped] at nothing
      cases nothing

theorem kept_new : new.Kept capacity :=
  ⟨OperationQueue.sound_new, .refl _, List.nodup_nil, nofun,
    fun _ absent => absurd absent List.not_mem_nil⟩

/-- What a call hands out or takes in is accounted for. -/
theorem accounted_of_perm {gone gone' waiting waiting' accepted : List Ticket} (accounted : (gone ++ waiting).Perm accepted)
    (out : List Ticket) (left : gone'.Perm (gone ++ out)) (there : (out ++ waiting').Perm waiting) :
    (gone' ++ waiting').Perm accepted := by
  refine ((left.append_right _).trans ?_).trans accounted
  rw [List.append_assoc]
  exact there.append_left _

section

variable (kept : c.Kept capacity)

include kept

theorem Kept.push (operationPriority : Priority) (submittedAt deadline priorityAge : Nat) :
    (c.step capacity (.push operationPriority submittedAt deadline priorityAge)).Kept capacity := by
  have sound := kept.sound.push (c.ticketed operationPriority submittedAt deadline priorityAge)
  rcases c.queue.push_cases capacity (c.ticketed operationPriority submittedAt deadline priorityAge) with
    ⟨response, refused⟩ | ⟨room, accepted⟩
  · rw [step, refused]
    rw [refused] at sound
    exact ⟨sound, kept.accounted, kept.distinct, kept.fresh, kept.answered⟩
  · obtain ⟨front, back, whole, added, -⟩ := c.queue.queues.line_pushBack operationPriority
      (c.ticketed operationPriority submittedAt deadline priorityAge)
    rw [step, accepted]
    rw [accepted] at sound
    refine ⟨sound, ?_, ?_, ?_, kept.answered⟩
    · have old := kept.accounted
      have new := congrArg (List.map (·.job)) added
      rw [waiting, whole, List.map_append] at old
      rw [List.map_append, List.map_cons] at new
      refine ((List.Perm.of_eq (congrArg (c.gone ++ ·) new)).trans ?_).trans (old.append_right _)
      rw [List.append_assoc, List.append_assoc]
      exact (List.perm_middle.trans (List.perm_append_singleton _ _).symm).append_left _ |>.trans
        (List.Perm.of_eq (by rw [List.append_assoc]))
    · refine List.nodup_append.mpr ⟨kept.distinct, List.pairwise_singleton _ _, fun ticket before new member same => ?_⟩
      rw [List.mem_singleton.mp member] at same
      have early := kept.fresh ticket before
      rw [same] at early
      exact absurd early (lt_irrefl _)
    · intro ticket member
      rcases List.mem_append.mp member with before | here
      · exact Nat.lt_succ_of_lt (kept.fresh ticket before)
      · rw [List.mem_singleton.mp here]
        exact Nat.lt_succ_self _

theorem Kept.pop : (c.step capacity .pop).Kept capacity := by
  rcases kept.sound.popPriority_cases c.clock with ⟨-, popped⟩ | ⟨op, after, front, popped, sound⟩
  · rw [step, popped]
    exact ⟨kept.sound, kept.accounted, kept.distinct, kept.fresh, kept.answered⟩
  · rw [step, popped]
    refine ⟨sound, accounted_of_perm kept.accounted [op.job] ?_ ?_, kept.distinct, kept.fresh, kept.answered⟩
    · rw [gone, gone, List.append_assoc, List.append_assoc]
      exact List.Perm.append_left _ List.perm_append_comm
    · have aged := kept.sound.leveled.jobs_age c.clock
      rw [front] at aged
      exact aged

theorem Kept.drain (deadline : Nat) : (c.step capacity (.drain deadline)).Kept capacity := by
  refine ⟨kept.sound.drain deadline, accounted_of_perm kept.accounted ((c.queue.drain deadline).2.map (·.job)) ?_ ?_,
    kept.distinct, kept.fresh, kept.answered⟩
  · rw [gone, gone, step, List.append_assoc, List.append_assoc]
    refine List.Perm.append_left _ ?_
    rw [List.append_assoc]
    exact List.Perm.append_left _ List.perm_append_comm
  · have perm := (c.queue.perm_drain deadline).map (·.job)
    rw [List.map_append] at perm
    exact perm

theorem Kept.cancelAll (reason : Text) : (c.step capacity (.cancelAll reason)).Kept capacity := by
  obtain ⟨all, answers, -⟩ := OperationQueue.cancelAll_answers (q := c.queue) reason
  have jobs : ((c.queue.cancelAll reason).2.1.map fun answer => (answer.1.job, answer.2)).map (·.1) = c.waiting := by
    rw [waiting, ← all, List.map_map, List.map_map]
    rfl
  refine ⟨.cancelAll reason, accounted_of_perm kept.accounted c.waiting ?_ ?_, kept.distinct, kept.fresh, ?_⟩
  · rw [gone, gone, step, List.map_append, jobs, List.append_assoc, List.append_assoc]
  · exact List.Perm.of_eq (List.append_nil _)
  · intro answer member
    rcases List.mem_append.mp member with before | here
    · exact kept.answered answer before
    · obtain ⟨given, known, rfl⟩ := List.mem_map.mp here
      rw [answers given known]
      rfl

theorem Kept.step (call : Call) : (c.step capacity call).Kept capacity := by
  cases call with
  | elapse nanos => exact ⟨kept.sound, kept.accounted, kept.distinct, kept.fresh, kept.answered⟩
  | push operationPriority submittedAt deadline priorityAge =>
    exact kept.push operationPriority submittedAt deadline priorityAge
  | pop => exact kept.pop
  | drain deadline => exact kept.drain deadline
  | cancelAll reason => exact kept.cancelAll reason

end

/-! ## Orderly runs keep the order -/

/-- What was popped and what waits stands in order. -/
structure Served (c : Counter) : Prop where
  sorted : (c.popped ++ c.waiting).Pairwise fun x y => x.Same y → x.Before y
  risen : c.queue.queues.Risen fun ticket => ticket.pushed.index

theorem Served.inOrder (served : c.Served) : c.InOrder := (List.pairwise_append.mp served.sorted).1

theorem Ticket.same_symm (x y : Ticket) (same : x.Same y) : y.Same x := Eq.symm same

theorem served_new : new.Served := ⟨List.Pairwise.nil, nofun⟩

/-- A ticket is put into its place. -/
theorem pairwise_insert {T : Type} {R : T → T → Prop} {front back : List T} {x : T} (ordered : (front ++ back).Pairwise R)
    (first : ∀ a ∈ front, R a x) (last : ∀ b ∈ back, R x b) : (front ++ x :: back).Pairwise R := by
  rw [List.pairwise_append] at ordered ⊢
  refine ⟨ordered.1, List.pairwise_cons.mpr ⟨last, ordered.2.1⟩, fun a ha b hb => ?_⟩
  rcases List.mem_cons.mp hb with rfl | behind
  · exact first a ha
  · exact ordered.2.2 a ha b behind

section

variable (served : c.Served)

include served

theorem Served.push (kept : c.Kept capacity) (operationPriority : Priority) (submittedAt deadline priorityAge : Nat) :
    (c.step capacity (.push operationPriority submittedAt deadline priorityAge)).Served := by
  rcases c.queue.push_cases capacity (c.ticketed operationPriority submittedAt deadline priorityAge) with
    ⟨response, refused⟩ | ⟨room, accepted⟩
  · rw [step, refused]
    exact ⟨served.sorted, served.risen⟩
  · obtain ⟨front, back, whole, added, behind⟩ := c.queue.queues.line_pushBack operationPriority
      (c.ticketed operationPriority submittedAt deadline priorityAge)
    have known : ∀ ticket ∈ c.popped ++ front.map (·.job), ticket.number < c.issued := by
      refine fun ticket member => kept.fresh ticket (kept.accounted.mem_iff.mp ?_)
      rw [gone, waiting, whole]
      simp only [List.map_append, List.mem_append] at member ⊢
      tauto
    have sorted := served.sorted
    rw [waiting, whole, List.map_append, ← List.append_assoc] at sorted
    rw [step, accepted]
    refine ⟨?_, fun op member => ?_⟩
    · rw [waiting]
      dsimp only
      rw [show (c.ticketed operationPriority submittedAt deadline priorityAge).operationPriority = operationPriority from rfl,
        added, List.map_append, List.map_cons, ← List.append_assoc]
      refine pairwise_insert sorted (fun x member _ => known x member) fun y member same => ?_
      obtain ⟨op, inBack, rfl⟩ := List.mem_map.mp member
      obtain ⟨level, lower, inQueue⟩ := behind op inBack
      have rises := served.risen op (by rw [whole]; exact List.mem_append_right _ inBack)
      rw [kept.sound.leveled level op inQueue] at rises
      dsimp only at rises
      rw [← show operationPriority = op.job.pushed from same] at rises
      exact absurd rises (not_le.mpr lower)
    · have place : op ∈ front ++ (c.ticketed operationPriority submittedAt deadline priorityAge) :: back := added ▸ member
      rcases List.mem_append.mp place with before | here
      · exact served.risen op (by rw [whole]; exact List.mem_append_left _ before)
      · rcases List.mem_cons.mp here with rfl | after
        · exact le_rfl
        · exact served.risen op (by rw [whole]; exact List.mem_append_right _ after)

/-- **A pop that ages nothing past its own** serves the first of them. -/
theorem Served.pop (kept : c.Kept capacity)
    (orderly : c.queue.queues.Orderly Ticket.Same Ticket.Before c.clock) : (c.step capacity .pop).Served := by
  rcases kept.sound.popPriority_cases c.clock with ⟨-, popped⟩ | ⟨op, after, front, popped, -⟩
  · rw [step, popped]
    exact ⟨served.sorted, served.risen⟩
  · have sorted : (c.queue.queues.age c.clock).Sorted Ticket.Same Ticket.Before :=
      Queues.Sorted.age Ticket.same_symm kept.sound.leveled (List.pairwise_append.mp served.sorted).2.1 orderly
    have risen := served.risen.age c.clock kept.sound.leveled
    have whole := pairwise_stretch c.popped [] (kept.sound.leveled.jobs_age _)
      (by rw [List.append_nil]; exact served.sorted) sorted
    rw [front, List.append_nil, List.map_cons] at whole
    rw [step, popped]
    refine ⟨?_, fun op' member => risen op' (front ▸ .tail _ member)⟩
    rw [List.append_assoc]
    exact whole

theorem Served.drain (deadline : Nat) : (c.step capacity (.drain deadline)).Served := by
  have fewer : ((c.queue.drain deadline).1.queues.line).Sublist c.queue.queues.line := by
    rw [OperationQueue.drain_line]
    exact List.filter_sublist
  exact ⟨served.sorted.sublist ((fewer.map _).append_left _), fun op member => served.risen op (fewer.subset member)⟩

theorem Served.cancelAll (reason : Text) : (c.step capacity (.cancelAll reason)).Served := by
  refine ⟨?_, nofun⟩
  have popped := (List.pairwise_append.mp served.sorted).1
  rw [← List.append_nil c.popped] at popped
  exact popped

theorem Served.step (kept : c.Kept capacity) (call : Call) (orderly : c.Orderly call) :
    (c.step capacity call).Served := by
  cases call with
  | elapse nanos => exact ⟨served.sorted, served.risen⟩
  | push operationPriority submittedAt deadline priorityAge =>
    exact served.push kept operationPriority submittedAt deadline priorityAge
  | pop => exact served.pop kept (orderly rfl)
  | drain deadline => exact served.drain deadline
  | cancelAll reason => exact served.cancelAll reason

end

/-- **Every run conserves its operations.** In a run whose pops age nothing past its own,
operations pushed with one priority are popped in the order they were pushed. -/
theorem in_order (capacity : Nat) (calls : List Call) :
    Run.Always (step capacity) (Conserved capacity) new calls ∧
      (Run.Each (step capacity) Orderly new calls → Run.Always (step capacity) InOrder new calls) := by
  have conserved : Run.Always (step capacity) (Kept capacity) new calls :=
    Run.always_of_step (fun _ call kept => kept.step call) kept_new calls
  refine ⟨fun c reached => (conserved c reached).conserved, fun each c reached => ?_⟩
  have served : ∀ c ∈ Run.states (step capacity) new calls, c.Kept capacity ∧ c.Served :=
    Run.Each.invariant (fun c call both orderly => ⟨both.1.step call, both.2.step both.1 call orderly⟩)
      ⟨kept_new, served_new⟩ each
  exact (served c reached).2.inOrder

instance (c : Counter) : Decidable c.InOrder := inferInstanceAs (Decidable (c.popped.Pairwise _))

/-- **Two operations of high priority** that waited for half a second: the second is popped first. -/
theorem turned_around :
    ¬ ∀ capacity calls, Run.Always (step capacity) InOrder new calls := by
  intro always
  have run := always 64 [.push .high 0 1000000000 0, .push .high 0 1000000000 0, .elapse 500000000, .pop, .pop] _
    (Run.foldl_mem_states _ _)
  revert run
  decide +kernel

end Counter

end NovaRuntime.Executor
