/-
# NovaRuntime.Executor.QueueOrder — what ageing does to the line of operations

The operations stand in one line: the four queues, one behind the other. Ageing turns what it
takes out of a queue around, and puts what is already at the top at the end of its queue. It
keeps every operation (`jobs_age`), and of operations that are the same the order, as long as
none of them is aged past another (`Sorted.age`).
-/
import Mathlib.Data.List.Perm.Basic
import Mathlib.Data.List.Pairwise
import NovaRuntime.Executor.OperationQueue

namespace NovaRuntime.Executor

open NovaRuntime.Library

set_option autoImplicit false

/-! ## Lists that are taken apart -/

section

variable {T : Type} {before same : T → T → Prop} {p : T → Bool} {l : List T}

section

variable (symm : ∀ x y, same x y → same y x) (ordered : l.Pairwise fun x y => same x y → before x y)

include symm ordered

/-- What is taken out comes to the front, backwards, without passing any of its own. -/
theorem pairwise_front (alone : l.Pairwise fun x y => same x y → p y = false) :
    ((l.filter p).reverse ++ l.filter fun x => !p x).Pairwise fun x y => same x y → before x y := by
  rw [List.pairwise_append, List.pairwise_reverse]
  refine ⟨?_, ordered.filter _, ?_⟩
  · refine (List.pairwise_filter.mpr (alone.imp fun {x y} clear _ out other => ?_))
    exact absurd out (by rw [clear (symm _ _ other)]; exact Bool.false_ne_true)
  · have cross : ∀ x ∈ l, ∀ y ∈ l, p x = true → p y = false → same x y → before x y := by
      refine List.Pairwise.forall_of_forall_of_flip
        (R := fun x y => p x = true → p y = false → same x y → before x y) (fun x _ out stays => ?_)
        (ordered.imp fun {x y} known _ _ other => known other) (alone.imp fun {x y} clear out _ other => ?_)
      · exact absurd out (by rw [stays]; exact Bool.false_ne_true)
      · exact absurd out (by rw [clear (symm _ _ other)]; exact Bool.false_ne_true)
    intro x out y stays
    rw [List.mem_reverse, List.mem_filter] at out
    rw [List.mem_filter, Bool.not_eq_true'] at stays
    exact cross x out.1 y stays.1 out.2 stays.2

/-- What is taken out comes to the end: the same of the list backwards. -/
theorem pairwise_back (alone : l.Pairwise fun x y => same x y → p x = false) :
    ((l.filter fun x => !p x) ++ (l.filter p).reverse).Pairwise fun x y => same x y → before x y := by
  have turned : ((l.reverse.filter p).reverse ++ l.reverse.filter fun x => !p x).Pairwise
      fun x y => same x y → before y x :=
    pairwise_front symm (List.pairwise_reverse.mpr (ordered.imp fun known other => known (symm _ _ other)))
      (List.pairwise_reverse.mpr (alone.imp fun clear other => clear (symm _ _ other)))
  rw [List.filter_reverse, List.filter_reverse, List.reverse_reverse] at turned
  rw [← List.reverse_reverse (l.filter fun x => !p x), ← List.reverse_append, List.pairwise_reverse]
  exact turned.imp fun known other => known (symm _ _ other)

end

/-- A stretch of a list is put into another order of its own. -/
theorem pairwise_stretch {R : T → T → Prop} {mid mid' : List T} (front back : List T) (perm : mid'.Perm mid)
    (ordered : (front ++ (mid ++ back)).Pairwise R) (own : mid'.Pairwise R) :
    (front ++ (mid' ++ back)).Pairwise R := by
  simp only [List.pairwise_append, List.mem_append, perm.mem_iff] at ordered ⊢
  exact ⟨ordered.1, ⟨own, ordered.2.1.2.1, ordered.2.1.2.2⟩, ordered.2.2⟩

end

/-! ## The line -/

namespace Queues

variable {J : Type} {queues : Queues J} {now : Nat} {level : Priority}

/-- The operations in the order they are served. -/
def line (queues : Queues J) : List (PendingOperation J) := Priority.all.flatMap queues

theorem line_eq (queues : Queues J) :
    queues.line = queues .critical ++ (queues .high ++ (queues .normal ++ queues .background)) := by
  simp [line, Priority.all]

/-- Where an operation of a level goes when it ages. -/
def target (level : Priority) : Priority := level.ageUp.getD level

def raise (up : Priority) (op : PendingOperation J) : PendingOperation J :=
  { op with operationPriority := up, priorityAge := op.priorityAge + 1 }

theorem foldl_promote (ops : List (PendingOperation J)) (here : ∀ op ∈ ops, op.operationPriority = level) :
    ops.foldl (fun queues op => queues.promote level op) queues =
      Function.update queues (target level) (queues (target level) ++ ops.map (raise (target level))) := by
  induction ops generalizing queues with
  | nil => rw [List.foldl_nil, List.map_nil, List.append_nil, Function.update_eq_self]
  | cons op ops ih =>
    have first : queues.promote level op = queues.pushBack (target level) (raise (target level) op) := by
      have own := here op List.mem_cons_self
      rw [promote, target, own]
      cases up : level.ageUp with
      | some p => rfl
      | none =>
        rw [raise, Option.getD_none, ← own]
    rw [List.foldl_cons, first, ih fun op' member => here op' (.tail _ member), pushBack,
      Function.update_idem, Function.update_self, List.map_cons, List.append_assoc]
    rfl

/-- **One level of ageing**, as a whole. -/
theorem ageLevel_eq (here : ∀ op ∈ queues level, op.operationPriority = level) :
    queues.ageLevel now level =
      let kept := Function.update queues level ((queues level).filter fun op => !op.waited now)
      Function.update kept (target level) (kept (target level) ++
        ((queues level).filter fun op => op.waited now).reverse.map (raise (target level))) := by
  rw [ageLevel, takeBackwards_eq]
  dsimp only
  rw [foldl_promote]
  intro op member
  exact here op (List.mem_of_mem_filter (List.mem_reverse.mp member))

/-- **The front of the line** is what is popped. -/
theorem popFront_some (levels : List Priority) (distinct : levels.Nodup) {op : PendingOperation J} {after : Queues J}
    (found : queues.popFront levels = some (op, after)) :
    levels.flatMap queues = op :: levels.flatMap after ∧ (∀ l ∉ levels, after l = queues l) ∧
      ∀ l, after l ⊆ queues l := by
  induction levels with
  | nil => cases found
  | cons level levels ih =>
    rw [List.nodup_cons] at distinct
    rw [popFront] at found
    split at found
    next op' rest here =>
      cases found
      have others : levels.flatMap (Function.update queues level rest) = levels.flatMap queues := by
        refine List.flatMap_congr fun l member => Function.update_of_ne (fun same => ?_) _ _
        exact distinct.1 (same ▸ member)
      refine ⟨?_, fun l absent => Function.update_of_ne (fun same => absent (List.mem_cons.mpr (Or.inl same))) _ _,
        fun l => ?_⟩
      · rw [List.flatMap_cons, List.flatMap_cons, others, here, Function.update_self]
        rfl
      · by_cases same : l = level
        · rw [same, here, Function.update_self]
          exact List.subset_cons_self _ _
        · rw [Function.update_of_ne same]
          exact List.Subset.refl _
    next here =>
      obtain ⟨front, others, within⟩ := ih distinct.2 found
      refine ⟨?_, fun l absent => others l fun member => absent (.tail _ member), within⟩
      rw [List.flatMap_cons, List.flatMap_cons, here, others level distinct.1, here, front]
      rfl

theorem popFront_none (levels : List Priority) (found : queues.popFront levels = none) :
    levels.flatMap queues = [] := by
  induction levels with
  | nil => rfl
  | cons level levels ih =>
    rw [popFront] at found
    split at found
    · cases found
    next here => rw [List.flatMap_cons, here, ih found, List.nil_append]

/-! ### Every operation in the queue of its priority -/

/-- What one level of ageing does to one operation. -/
def aged (now : Nat) (level : Priority) (op : PendingOperation J) : PendingOperation J :=
  if op.operationPriority = level ∧ op.waited now then raise (target level) op else op

theorem aged_job (op : PendingOperation J) : (aged now level op).job = op.job := by
  rw [aged]
  split <;> rfl

def Leveled (queues : Queues J) : Prop := ∀ level, ∀ op ∈ queues level, op.operationPriority = level

section

variable (leveled : queues.Leveled)

include leveled

theorem Leveled.update {ops : List (PendingOperation J)}
    (here : ∀ op ∈ ops, op.operationPriority = level) : Leveled (Function.update queues level ops) := by
  intro l op member
  by_cases same : l = level
  · subst same
    rw [Function.update_self] at member
    exact here op member
  · rw [Function.update_of_ne same] at member
    exact leveled l op member

theorem Leveled.within {fewer : Queues J} (within : ∀ l, fewer l ⊆ queues l) :
    fewer.Leveled := fun level op member => leveled level op (within level member)

theorem Leveled.ageLevel : (queues.ageLevel now level).Leveled := by
  rw [ageLevel_eq (leveled level)]
  have kept : Leveled (Function.update queues level ((queues level).filter fun op => !op.waited now)) :=
    leveled.update fun op member => leveled level op (List.mem_of_mem_filter member)
  refine kept.update fun op member => ?_
  rcases List.mem_append.mp member with stays | comes
  · exact kept _ op stays
  · obtain ⟨_, _, rfl⟩ := List.mem_map.mp comes
    rfl

theorem Leveled.mem_line {op : PendingOperation J} : op ∈ queues.line ↔ op ∈ queues op.operationPriority := by
  rw [line, List.mem_flatMap]
  constructor
  · rintro ⟨level, -, member⟩
    rw [leveled level op member]
    exact member
  · intro member
    exact ⟨_, by cases op.operationPriority <;> simp [Priority.all], member⟩

/-- What a level of ageing keeps of a queue. -/
def kept (now : Nat) (ops : List (PendingOperation J)) : List (PendingOperation J) :=
  ops.filter fun op => !op.waited now

/-- What it moves, in the order it does. -/
def moved (now : Nat) (level : Priority) (ops : List (PendingOperation J)) : List (PendingOperation J) :=
  (ops.filter fun op => op.waited now).reverse.map (raise (target level))

theorem Leveled.line_background : (queues.ageLevel now .background).line =
    queues .critical ++ (queues .high ++ (queues .normal ++
      (moved now .background (queues .background) ++ kept now (queues .background)))) := by
  rw [ageLevel_eq (leveled _), line_eq, ← List.append_assoc (queues .normal)]
  rfl

theorem Leveled.line_normal : (queues.ageLevel now .normal).line =
    queues .critical ++ (queues .high ++ ((moved now .normal (queues .normal) ++ kept now (queues .normal)) ++
      queues .background)) := by
  rw [ageLevel_eq (leveled _), line_eq, List.append_assoc (moved _ _ _), ← List.append_assoc (queues .high)]
  rfl

theorem Leveled.line_high : (queues.ageLevel now .high).line =
    queues .critical ++ ((kept now (queues .high) ++ moved now .high (queues .high)) ++
      (queues .normal ++ queues .background)) := by
  rw [ageLevel_eq (leveled _), line_eq]
  rfl

end

/-- What a level keeps and what it moves is what was there, aged. -/
theorem perm_aged {ops : List (PendingOperation J)} (here : ∀ op ∈ ops, op.operationPriority = level) :
    (moved now level ops ++ kept now ops).Perm (ops.map (aged now level)) := by
  have out : (ops.filter fun op => op.waited now).map (raise (target level)) =
      (ops.filter fun op => op.waited now).map (aged now level) := by
    refine List.map_congr_left fun op member => ?_
    have known := List.mem_filter.mp member
    rw [aged, if_pos ⟨here op known.1, known.2⟩]
  have stays : kept now ops = (kept now ops).map (aged now level) := by
    refine (List.map_id _).symm.trans (List.map_congr_left fun op member => ?_)
    have known := (List.mem_filter.mp member).2
    rw [Bool.not_eq_true'] at known
    rw [aged, if_neg fun both => by rw [known] at both; exact absurd both.2 Bool.false_ne_true]
    rfl
  rw [moved, List.map_reverse, out, stays, ← List.map_reverse, ← List.map_append]
  refine List.Perm.map _ ?_
  exact ((List.reverse_perm _).append_right _).trans (List.filter_append_perm _ _)

section

variable (leveled : queues.Leveled)

include leveled

/-- The other levels are left as they are. -/
theorem Leveled.map_aged {l : Priority} (other : l ≠ level) : (queues l).map (aged now level) = queues l := by
  refine (List.map_congr_left fun op member => ?_).trans (List.map_id _)
  rw [aged, if_neg fun both => other (by rw [← leveled l op member, both.1])]
  rfl

/-- **Ageing a level keeps every operation**, aged. -/
theorem Leveled.line_ageLevel (below : level ≠ .critical) :
    (queues.ageLevel now level).line.Perm (queues.line.map (aged now level)) := by
  have here : (moved now level (queues level) ++ kept now (queues level)).Perm _ := perm_aged (leveled level)
  rw [line_eq queues, List.map_append, List.map_append, List.map_append, leveled.map_aged below.symm]
  cases level with
  | critical => exact absurd rfl below
  | high =>
    rw [leveled.line_high, leveled.map_aged (l := .normal) (by decide), leveled.map_aged (l := .background) (by decide)]
    exact ((List.perm_append_comm.trans here).append_right _).append_left _
  | normal =>
    rw [leveled.line_normal, leveled.map_aged (l := .high) (by decide), leveled.map_aged (l := .background) (by decide)]
    exact ((here.append_right _).append_left _).append_left _
  | background =>
    rw [leveled.line_background, leveled.map_aged (l := .high) (by decide), leveled.map_aged (l := .normal) (by decide)]
    exact ((here.append_left _).append_left _).append_left _

theorem Leveled.age : (queues.age now).Leveled := leveled.ageLevel.ageLevel.ageLevel

theorem Leveled.jobs_ageLevel (below : level ≠ .critical) :
    ((queues.ageLevel now level).line.map (·.job)).Perm (queues.line.map (·.job)) := by
  refine ((leveled.line_ageLevel below).map _).trans (List.Perm.of_eq ?_)
  rw [List.map_map]
  exact List.map_congr_left fun op _ => aged_job op

end

variable (now) in
/-- **Ageing loses nothing** and makes nothing up. -/
theorem Leveled.jobs_age (leveled : queues.Leveled) :
    ((queues.age now).line.map (·.job)).Perm (queues.line.map (·.job)) :=
  ((leveled.ageLevel.ageLevel.jobs_ageLevel (by decide)).trans (leveled.ageLevel.jobs_ageLevel (by decide))).trans
    (leveled.jobs_ageLevel (by decide))

/-- No operation stands in a queue behind the one it was pushed into, if `rank` remembers that. -/
def Risen (rank : J → Nat) (queues : Queues J) : Prop :=
  ∀ op ∈ queues.line, op.operationPriority.index ≤ rank op.job

theorem Risen.ageLevel {rank : J → Nat} (risen : queues.Risen rank) (leveled : queues.Leveled) (below : level ≠ .critical) :
    (queues.ageLevel now level).Risen rank := by
  intro op member
  obtain ⟨old, known, rfl⟩ := List.mem_map.mp ((leveled.line_ageLevel below).mem_iff.mp member)
  rw [aged_job, aged]
  split
  next moves =>
    refine le_trans ?_ (risen old known)
    rw [moves.1, show (raise (target level) old).operationPriority = target level from rfl]
    cases level <;> decide
  · exact risen old known

variable (now) in
theorem Risen.age {rank : J → Nat} (risen : queues.Risen rank) (leveled : queues.Leveled) :
    (queues.age now).Risen rank :=
  ((risen.ageLevel leveled (by decide)).ageLevel leveled.ageLevel (by decide)).ageLevel leveled.ageLevel.ageLevel
    (by decide)

/-! ### The order of the line -/

section

variable {same before : J → J → Prop}

/-- Jobs that are the same stand in the line in this order. -/
def Sorted (same before : J → J → Prop) (queues : Queues J) : Prop :=
  (queues.line.map (·.job)).Pairwise fun x y => same x y → before x y

theorem moved_jobs (ops : List (PendingOperation J)) :
    (moved now level ops).map (·.job) = (ops.filter fun op => op.waited now).reverse.map (·.job) := by
  rw [moved, List.map_map]
  rfl

theorem perm_moved_kept (ops : List (PendingOperation J)) :
    ((moved now level ops).map (·.job) ++ (kept now ops).map (·.job)).Perm (ops.map (·.job)) := by
  rw [moved_jobs, ← List.map_append]
  exact (((List.reverse_perm _).append_right _).trans (List.filter_append_perm _ _)).map _

/-- The part of a sorted line that is a queue. -/
theorem Sorted.queue (sorted : queues.Sorted same before) (level : Priority) :
    (queues level).Pairwise fun x y => same x.job y.job → before x.job y.job := by
  rw [Sorted, List.pairwise_map, line_eq, List.pairwise_append, List.pairwise_append, List.pairwise_append] at sorted
  cases level with
  | critical => exact sorted.1
  | high => exact sorted.2.1.1
  | normal => exact sorted.2.1.2.1.1
  | background => exact sorted.2.1.2.1.2.1

/-- What leaves a queue for the end of a higher one, without passing any of its own. -/
theorem sorted_moved (level : Priority) (symm : ∀ x y, same x y → same y x) {ops : List (PendingOperation J)}
    (ordered : ops.Pairwise fun x y => same x.job y.job → before x.job y.job)
    (alone : ops.Pairwise fun x y => same x.job y.job → y.waited now = false) :
    ((moved now level ops).map (·.job) ++ (kept now ops).map (·.job)).Pairwise fun x y => same x y → before x y := by
  rw [moved_jobs, ← List.map_append, List.pairwise_map]
  exact pairwise_front (fun x y => symm x.job y.job) ordered alone

/-- What is put at the end of its own queue. -/
theorem sorted_turned (level : Priority) (symm : ∀ x y, same x y → same y x) {ops : List (PendingOperation J)}
    (ordered : ops.Pairwise fun x y => same x.job y.job → before x.job y.job)
    (alone : ops.Pairwise fun x y => same x.job y.job → x.waited now = false) :
    ((kept now ops).map (·.job) ++ (moved now level ops).map (·.job)).Pairwise fun x y => same x y → before x y := by
  rw [moved_jobs, ← List.map_append, List.pairwise_map]
  exact pairwise_back (fun x y => symm x.job y.job) ordered alone

section

variable (symm : ∀ x y, same x y → same y x) (leveled : queues.Leveled) (sorted : queues.Sorted same before)

include symm leveled sorted

theorem Sorted.ageBackground
    (alone : (queues .background).Pairwise fun x y => same x.job y.job → y.waited now = false) :
    (queues.ageLevel now .background).Sorted same before := by
  have own := sorted_moved .background symm (sorted.queue _) alone
  rw [Sorted, line_eq] at sorted
  have stretch := pairwise_stretch ((queues .critical ++ (queues .high ++ queues .normal)).map (·.job)) []
    (perm_moved_kept _) (by simpa only [List.map_append, List.append_assoc, List.append_nil] using sorted) own
  rw [Sorted, leveled.line_background]
  simpa only [List.map_append, List.append_assoc, List.append_nil] using stretch

theorem Sorted.ageNormal (alone : (queues .normal).Pairwise fun x y => same x.job y.job → y.waited now = false) :
    (queues.ageLevel now .normal).Sorted same before := by
  have own := sorted_moved .normal symm (sorted.queue _) alone
  rw [Sorted, line_eq] at sorted
  have stretch := pairwise_stretch ((queues .critical ++ queues .high).map (·.job))
    ((queues .background).map (·.job)) (perm_moved_kept _)
    (by simpa only [List.map_append, List.append_assoc] using sorted) own
  rw [Sorted, leveled.line_normal]
  simpa only [List.map_append, List.append_assoc] using stretch

theorem Sorted.ageHigh (alone : (queues .high).Pairwise fun x y => same x.job y.job → x.waited now = false) :
    (queues.ageLevel now .high).Sorted same before := by
  have own := sorted_turned .high symm (sorted.queue _) alone
  rw [Sorted, line_eq] at sorted
  have stretch := pairwise_stretch ((queues .critical).map (·.job))
    ((queues .normal ++ queues .background).map (·.job)) (List.perm_append_comm.trans (perm_moved_kept _))
    (by simpa only [List.map_append, List.append_assoc] using sorted) own
  rw [Sorted, leveled.line_high]
  simpa only [List.map_append, List.append_assoc] using stretch

end

/-- The operation as the ageing finds it when it comes to a level. -/
def atLevel (now : Nat) : Priority → PendingOperation J → PendingOperation J
  | .normal => aged now .background
  | .high => fun op => aged now .normal (aged now .background op)
  | _ => id

/-- The two stand in one queue when the ageing comes to it. -/
def Meet (now : Nat) (level : Priority) (x y : PendingOperation J) : Prop :=
  (atLevel now level x).operationPriority = level ∧ (atLevel now level y).operationPriority = level

/-- **Nothing is aged past its own**: of two that are the same, the later does not leave a
queue both stand in, and the earlier is not put behind the later. -/
structure Orderly (same before : J → J → Prop) (now : Nat) (queues : Queues J) : Prop where
  background : ∀ x ∈ queues.line, ∀ y ∈ queues.line, same x.job y.job → before x.job y.job →
    Meet now .background x y → (atLevel now .background y).waited now = false
  normal : ∀ x ∈ queues.line, ∀ y ∈ queues.line, same x.job y.job → before x.job y.job →
    Meet now .normal x y → (atLevel now .normal y).waited now = false
  high : ∀ x ∈ queues.line, ∀ y ∈ queues.line, same x.job y.job → before x.job y.job →
    Meet now .high x y → (atLevel now .high x).waited now = false

theorem atLevel_job (op : PendingOperation J) : (atLevel now level op).job = op.job := by
  cases level with
  | critical => rfl
  | high => exact (aged_job _).trans (aged_job _)
  | normal => exact aged_job _
  | background => rfl

/-- What is in a queue when the ageing comes to it is an operation of the line. -/
theorem exists_atLevel {stage : Queues J} (leveled : stage.Leveled)
    (perm : stage.line.Perm (queues.line.map (atLevel now level))) {op : PendingOperation J} (member : op ∈ stage level) :
    ∃ x ∈ queues.line, atLevel now level x = op ∧ (atLevel now level x).operationPriority = level := by
  have standing := leveled level op member
  have inLine : op ∈ stage.line := leveled.mem_line.mpr (standing.symm ▸ member)
  obtain ⟨x, known, rfl⟩ := List.mem_map.mp (perm.mem_iff.mp inLine)
  exact ⟨x, known, rfl, standing⟩

/-- Two that are the same in a queue the ageing comes to. -/
theorem Sorted.meet {stage : Queues J} (leveled : stage.Leveled) (sorted : stage.Sorted same before)
    (perm : stage.line.Perm (queues.line.map (atLevel now level))) :
    (stage level).Pairwise fun x y => same x.job y.job → ∃ x₀ ∈ queues.line, ∃ y₀ ∈ queues.line,
      atLevel now level x₀ = x ∧ atLevel now level y₀ = y ∧ same x₀.job y₀.job ∧ before x₀.job y₀.job ∧
        Meet now level x₀ y₀ := by
  refine (sorted.queue level).imp_of_mem fun {x y} hx hy known other => ?_
  obtain ⟨x₀, inLine, rfl, here⟩ := exists_atLevel leveled perm hx
  obtain ⟨y₀, inLine', rfl, here'⟩ := exists_atLevel leveled perm hy
  rw [atLevel_job, atLevel_job] at other known
  exact ⟨x₀, inLine, y₀, inLine', rfl, rfl, other, known other, here, here'⟩

/-- **A pop that ages nothing past its own** keeps the line sorted. -/
theorem Sorted.age (symm : ∀ x y, same x y → same y x) (leveled : queues.Leveled) (sorted : queues.Sorted same before)
    (orderly : queues.Orderly same before now) : (queues.age now).Sorted same before := by
  have atBackground : queues.line.Perm (queues.line.map (atLevel now .background)) :=
    List.Perm.of_eq (List.map_id _).symm
  have atNormal : (queues.ageLevel now .background).line.Perm (queues.line.map (atLevel now .normal)) :=
    leveled.line_ageLevel (by decide)
  have atHigh : ((queues.ageLevel now .background).ageLevel now .normal).line.Perm
      (queues.line.map (atLevel now .high)) := by
    refine (leveled.ageLevel.line_ageLevel (by decide)).trans ((atNormal.map _).trans (List.Perm.of_eq ?_))
    rw [List.map_map]
    rfl
  have first : (queues.ageLevel now .background).Sorted same before := by
    refine sorted.ageBackground symm leveled ((sorted.meet leveled atBackground).imp fun met other => ?_)
    obtain ⟨x, inLine, y, inLine', -, rfl, other, earlier, meet⟩ := met other
    exact orderly.background x inLine y inLine' other earlier meet
  have second : ((queues.ageLevel now .background).ageLevel now .normal).Sorted same before := by
    refine first.ageNormal symm leveled.ageLevel ((first.meet leveled.ageLevel atNormal).imp fun met other => ?_)
    obtain ⟨x, inLine, y, inLine', -, rfl, other, earlier, meet⟩ := met other
    exact orderly.normal x inLine y inLine' other earlier meet
  refine second.ageHigh symm leveled.ageLevel.ageLevel
    ((second.meet leveled.ageLevel.ageLevel atHigh).imp fun met other => ?_)
  obtain ⟨x, inLine, y, inLine', rfl, -, other, earlier, meet⟩ := met other
  exact orderly.high x inLine y inLine' other earlier meet

end

end Queues

end NovaRuntime.Executor
