/-
# NovaRuntime.Executor.Idempotency — whether a key executes at most once

A call looks for its key in the cache, waits for a permit, runs, and stores its reply; the
key is not reserved in between. `Reserved` excludes what breaks the promise of one execution
for each key:

* a call that misses while another one of its key is between the two places (`twice_runs`);
* a key that a read carries as well as a mutation, since a read stores its reply and does
  not look for one;
* a store that finds the cache full, expired entries counted, and clears a live entry of
  another key with it.

Without these, two executions of a key are a lifetime apart, and what succeeds in between
is answered with the reply of the first (`once_reserved`).
-/
import NovaRuntime.Executor.Replies

namespace NovaRuntime.Executor

open NovaRuntime.Library

set_option autoImplicit false

/-! ## Answers to the mutations of a key -/

/-- A success of a mutation with the key. -/
structure Answer.Succeeds (key : IdempotencyKey) (a : Answer) : Prop where
  keyed : a.call.key = some key
  mutation : a.call.isMutation
  success : a.response.success

/-- The call ran. -/
def Answer.executed (a : Answer) : Bool :=
  match a.source with
  | .pipeline _ _ => true
  | .cache => false
  | .refusal => false

/-- **At most one execution**: a success behind an execution of its key, and less than a
lifetime later, is no execution and repeats the reply. -/
structure OneExecution (config : PipelineConfig) (answers : List Answer) : Prop where
  once : answers.Pairwise fun later earlier => ∀ key, later.Succeeds key → earlier.Succeeds key →
    earlier.executed → later.instant < earlier.instant + idempotencyTtl config →
      later.executed = false ∧ later.response = earlier.response
  repeated : ∀ a ∈ answers, ∀ key, a.Succeeds key → a.executed = false →
    ∃ b ∈ answers, b.Succeeds key ∧ b.executed ∧ b.response = a.response

/-- No two executions of a key stand less than a lifetime apart. -/
theorem OneExecution.apart {config : PipelineConfig} {answers : List Answer} (one : OneExecution config answers)
    {i j : Nat} (before : i < j) {later earlier : Answer} (ith : answers[i]? = some later)
    (jth : answers[j]? = some earlier) {key : IdempotencyKey} (succeeds : later.Succeeds key) (executed : later.executed)
    (succeeded : earlier.Succeeds key) (ran : earlier.executed) :
    earlier.instant + idempotencyTtl config ≤ later.instant := by
  obtain ⟨inside, rfl⟩ := List.getElem?_eq_some_iff.mp ith
  obtain ⟨within, rfl⟩ := List.getElem?_eq_some_iff.mp jth
  refine Nat.le_of_not_lt fun soon => ?_
  have plain := (List.pairwise_iff_getElem.mp one.once i j inside within before key succeeds succeeded ran soon).1
  exact absurd (executed.symm.trans plain) (by decide)

namespace Task

/-- A mutation with the key, between the check of the cache and the store. -/
def engagedOn (key : IdempotencyKey) : Task → Bool
  | .call c place => c.key == some key && c.isMutation && place.engaged
  | .drain _ => false

/-- A mutation with the key that is about to store a reply. -/
def StoresFor (key : IdempotencyKey) (response : OperationResponse) : Task → Prop
  | .call c (.storing _ _ own) => c.key = some key ∧ c.isMutation ∧ own = response
  | _ => False

/-- The task at hand misses while no other call of its key is engaged, and clears no live
entry of another key. -/
def Reserves (config : PipelineConfig) (s : Shared) (rest : List Task) : Task → Prop
  | .call c .checking => ∀ key ∈ c.key, c.isMutation → s.cache.fresh s.clock key = none →
      ∀ other ∈ rest, other.engagedOn key = false
  | .call c (.storing _ _ response) => ∀ key ∈ c.key, response.success →
      s.cache.length ≥ config.maxIdempotencyKeys → ∀ e ∈ s.cache, e.1 ≠ key → e.2.2 ≤ s.clock
  | _ => True

end Task

/-! ## The invariant -/

section

variable (config : PipelineConfig)

/-- An execution is ended, or its reply is in the cache for its lifetime. -/
def Shared.Keeps (s : Shared) (key : IdempotencyKey) (e : Answer) : Prop :=
  e.instant + idempotencyTtl config ≤ s.clock ∨
    ∃ expires, s.cache.lookup key = some (e.response, expires) ∧ e.instant + idempotencyTtl config ≤ expires

structure Exclusive (s : Shared) (tasks : List Task) : Prop where
  listed : ∀ task ∈ tasks, ∀ call ∈ task.call?, call ∈ s.calls
  answered : ∀ a ∈ s.answers, a.call ∈ s.calls ∧ a.instant ≤ s.clock
  alike : ∀ call ∈ s.calls, ∀ other ∈ s.calls, call.key.isSome → call.key = other.key →
    call.isMutation = other.isMutation
  alone : ∀ key, tasks.countP (Task.engagedOn key) ≤ 1
  stale : ∀ key, ∀ task ∈ tasks, task.engagedOn key → s.cache.fresh s.clock key = none
  kept : ∀ key, ∀ e ∈ s.answers, e.Succeeds key → e.executed →
    (∃ task ∈ tasks, task.StoresFor key e.response) ∨ s.Keeps config key e
  past : ∀ key, ∀ task ∈ tasks, task.engagedOn key → ∀ e ∈ s.answers, e.Succeeds key → e.executed →
    e.instant + idempotencyTtl config ≤ s.clock ∨ task.StoresFor key e.response
  cached : ∀ key held, s.cache.lookup key = some held → ∃ e ∈ s.answers, e.call.key = some key ∧
    e.executed ∧ e.response = held.1 ∧ held.1.success
  stored : ∀ task ∈ tasks, ∀ call ctx env response, task = .call call (.storing ctx env response) →
    ∃ e ∈ s.answers, e.call = call ∧ e.executed ∧ e.response = response
  one : OneExecution config s.answers

end

section

variable {config : PipelineConfig} {s s' : Shared} {tasks rest : List Task} {env : Surroundings} {call : Call}
variable {key : IdempotencyKey} {response : OperationResponse} {place : Place} {task : Task}

theorem Exclusive.of_perm (exclusive : Exclusive config s tasks) (same : tasks.Perm rest) : Exclusive config s rest where
  listed task member := exclusive.listed task (same.mem_iff.mpr member)
  answered := exclusive.answered
  alike := exclusive.alike
  alone key := by rw [← same.countP_eq]; exact exclusive.alone key
  stale key task member := exclusive.stale key task (same.mem_iff.mpr member)
  kept key e member succeeds executed := (exclusive.kept key e member succeeds executed).imp_left fun held => by
    obtain ⟨task, here, stores⟩ := held
    exact ⟨task, same.mem_iff.mp here, stores⟩
  past key task member := exclusive.past key task (same.mem_iff.mpr member)
  cached := exclusive.cached
  stored task member := exclusive.stored task (same.mem_iff.mpr member)
  one := exclusive.one

theorem fresh_none_of_le {cache : Cache} {now later : Nat} (le : now ≤ later)
    (stale : cache.fresh now key = none) : cache.fresh later key = none := by
  cases found : cache.fresh later key with
  | none => rfl
  | some response =>
    obtain ⟨expires, held, alive⟩ := (cache.fresh_eq_some later).mp found
    rw [(cache.fresh_eq_some now).mpr ⟨expires, held, Nat.lt_of_le_of_lt le alive⟩] at stale
    cases stale

theorem Exclusive.elapse (exclusive : Exclusive config s tasks) (elapsed : Nat) :
    Exclusive config (s.elapse elapsed) tasks where
  listed := exclusive.listed
  answered a member := (exclusive.answered a member).imp_right fun past => Nat.le_trans past (Nat.le_add_right _ _)
  alike := exclusive.alike
  alone := exclusive.alone
  stale key task member engaged := fresh_none_of_le (Nat.le_add_right _ _) (exclusive.stale key task member engaged)
  kept key e member succeeds executed := (exclusive.kept key e member succeeds executed).imp_right fun keeps =>
    keeps.imp_left fun past => Nat.le_trans past (Nat.le_add_right _ _)
  past key task member engaged e here succeeds executed :=
    (exclusive.past key task member engaged e here succeeds executed).imp_left
      fun past => Nat.le_trans past (Nat.le_add_right _ _)
  cached := exclusive.cached
  stored := exclusive.stored
  one := exclusive.one

/-- What a call is answered without a run repeats the reply of an execution. -/
structure Follows (config : PipelineConfig) (s : Shared) (a : Answer) : Prop where
  once : ∀ key, a.Succeeds key → ∀ e ∈ s.answers, e.Succeeds key → e.executed →
    s.clock < e.instant + idempotencyTtl config → a.response = e.response
  repeated : ∀ key, a.Succeeds key → ∃ e ∈ s.answers, e.Succeeds key ∧ e.executed ∧ e.response = a.response

theorem Exclusive.answer {source : Source} (exclusive : Exclusive config s tasks)
    (listed : call ∈ s.calls) (unexecuted : Answer.executed ⟨call, response, source, s.clock⟩ = false)
    (follows : Follows config s ⟨call, response, source, s.clock⟩) :
    Exclusive config (s.answer call response source) tasks where
  listed := exclusive.listed
  answered := List.forall_mem_cons.mpr ⟨⟨listed, le_rfl⟩, exclusive.answered⟩
  alike := exclusive.alike
  alone := exclusive.alone
  stale := exclusive.stale
  kept key := by
    refine List.forall_mem_cons.mpr ⟨fun _ executed => ?_, exclusive.kept key⟩
    exact absurd (executed.symm.trans unexecuted) (by decide)
  past key task member engaged := by
    refine List.forall_mem_cons.mpr ⟨fun _ executed => ?_, exclusive.past key task member engaged⟩
    exact absurd (executed.symm.trans unexecuted) (by decide)
  cached key held found := by
    obtain ⟨e, member, facts⟩ := exclusive.cached key held found
    exact ⟨e, .tail _ member, facts⟩
  stored task member c ctx env own here := by
    obtain ⟨e, there, facts⟩ := exclusive.stored task member c ctx env own here
    exact ⟨e, .tail _ there, facts⟩
  one := by
    constructor
    · refine List.pairwise_cons.mpr ⟨fun e member key succeeds before executed soon => ⟨unexecuted, ?_⟩,
        exclusive.one.once⟩
      exact follows.once key succeeds e member before executed soon
    · refine List.forall_mem_cons.mpr ⟨fun key succeeds _ => ?_, fun a member key succeeds plain => ?_⟩
      · obtain ⟨e, member, facts⟩ := follows.repeated key succeeds
        exact ⟨e, .tail _ member, facts⟩
      · obtain ⟨e, here, facts⟩ := exclusive.one.repeated a member key succeeds plain
        exact ⟨e, .tail _ here, facts⟩

theorem engagedOn_call : (Task.call call place).engagedOn key = true ↔
    call.key = some key ∧ call.isMutation ∧ place.engaged := by
  simp [Task.engagedOn, and_assoc]

theorem Task.StoresFor.stores (stores : (Task.call call place).StoresFor key response) : place.stores := by
  cases place with
  | storing _ _ _ => rfl
  | _ => cases stores

/-- The tasks after a turn of a call. -/
theorem mem_turn {next : Option Place} (member : task ∈ (next.map (Task.call call)).toList ++ rest) :
    (∃ p ∈ next, task = .call call p) ∨ task ∈ rest := by
  rcases List.mem_append.mp member with new | old
  · obtain ⟨p, here, rfl⟩ := Option.map_eq_some_iff.mp (Option.mem_toList.mp new)
    exact .inl ⟨p, here, rfl⟩
  · exact .inr old

/-- A call that moves on behind the check, or ends, is as alone as before. -/
theorem countP_turn (next : Option Place) (key : IdempotencyKey)
    (engaged : ∀ p ∈ next, p.engaged → place.engaged) :
    ((next.map (Task.call call)).toList ++ rest).countP (Task.engagedOn key) ≤
      (.call call place :: rest).countP (Task.engagedOn key) := by
  cases next with
  | none => exact (List.sublist_cons_self _ _).countP_le
  | some p =>
    change (Task.call call p :: rest).countP _ ≤ _
    rw [List.countP_cons, List.countP_cons]
    by_cases here : (Task.call call p).engagedOn key = true
    · obtain ⟨keyed, mutation, inside⟩ := engagedOn_call.mp here
      rw [if_pos here, if_pos (engagedOn_call.mpr ⟨keyed, mutation, engaged p rfl inside⟩)]
    · rw [if_neg here]
      exact Nat.add_le_add_left (Nat.zero_le _) _

theorem Exclusive.listed_turn (exclusive : Exclusive config s (.call call place :: rest))
    (next : Option Place) :
    ∀ task ∈ (next.map (Task.call call)).toList ++ rest, ∀ c ∈ task.call?, c ∈ s.calls := by
  intro task member
  rcases mem_turn member with ⟨p, -, rfl⟩ | old
  · exact exclusive.listed (.call call place) List.mem_cons_self
  · exact exclusive.listed task (.tail _ old)

/-- **A quiet turn** of a call. -/
theorem Exclusive.quiet {next : Option Place} (exclusive : Exclusive config s (.call call place :: rest))
    (unstored : place.stores = false) (same : SameStory s s') (engaged : ∀ p ∈ next, p.engaged → place.engaged)
    (plain : ∀ p ∈ next, p.Plain call) : Exclusive config s' ((next.map (.call call)).toList ++ rest) where
  listed := by
    rw [same.calls]
    exact exclusive.listed_turn next
  answered := by
    rw [same.answers, same.calls, same.clock]
    exact exclusive.answered
  alike := by
    rw [same.calls]
    exact exclusive.alike
  alone key := Nat.le_trans (countP_turn next key engaged) (exclusive.alone key)
  stale key task member here := by
    rw [same.cache, same.clock]
    rcases mem_turn member with ⟨p, next, rfl⟩ | old
    · obtain ⟨keyed, mutation, inside⟩ := engagedOn_call.mp here
      exact exclusive.stale key _ (.head _) (engagedOn_call.mpr ⟨keyed, mutation, engaged p next inside⟩)
    · exact exclusive.stale key task (.tail _ old) here
  kept key e member succeeds executed := by
    rw [same.answers] at member
    rw [Shared.Keeps, same.cache, same.clock]
    refine (exclusive.kept key e member succeeds executed).imp_left fun held => ?_
    obtain ⟨task, here, stores⟩ := held
    rcases List.mem_cons.mp here with rfl | old
    · exact absurd (stores.stores.symm.trans unstored) (by decide)
    · exact ⟨task, List.mem_append_right _ old, stores⟩
  past key task member here e there succeeds executed := by
    rw [same.answers] at there
    rw [same.clock]
    rcases mem_turn member with ⟨p, next, rfl⟩ | old
    · obtain ⟨keyed, mutation, inside⟩ := engagedOn_call.mp here
      have before := engagedOn_call.mpr ⟨keyed, mutation, engaged p next inside⟩
      rcases exclusive.past key _ (.head _) before e there succeeds executed with ended | stores
      · exact .inl ended
      · exact absurd (stores.stores.symm.trans unstored) (by decide)
    · exact exclusive.past key task (.tail _ old) here e there succeeds executed
  cached := by
    rw [same.cache, same.answers]
    exact exclusive.cached
  stored task member c ctx env response here := by
    rw [same.answers]
    rcases mem_turn member with ⟨p, next, rfl⟩ | old
    · cases here
      cases plain _ next
    · exact exclusive.stored task (.tail _ old) c ctx env response here
  one := by
    rw [same.answers]
    exact exclusive.one

theorem Task.StoresFor.engaged (stores : task.StoresFor key response) : task.engagedOn key := by
  cases task with
  | call c place =>
    cases place with
    | storing _ _ _ => exact engagedOn_call.mpr ⟨stores.1, stores.2.1, rfl⟩
    | _ => cases stores
  | drain _ => cases stores

/-- Where a key is fresh in the cache, no call of it is about to store, and the entry is of
every execution that is not over. -/
theorem Exclusive.of_fresh (exclusive : Exclusive config s tasks)
    (fresh : s.cache.fresh s.clock key = some response) {e : Answer} (member : e ∈ s.answers)
    (succeeds : e.Succeeds key) (executed : e.executed) (soon : s.clock < e.instant + idempotencyTtl config) :
    response = e.response := by
  rcases exclusive.kept key e member succeeds executed with ⟨task, here, stores⟩ | ended | ⟨expires, held, -⟩
  · have stale := exclusive.stale key task here stores.engaged
    rw [stale] at fresh
    cases fresh
  · exact absurd ended (Nat.not_le_of_lt soon)
  · obtain ⟨_, found, -⟩ := (s.cache.fresh_eq_some s.clock).mp fresh
    rw [held] at found
    exact (congrArg Prod.fst (Option.some.inj found)).symm

/-- **A hit** repeats an execution. -/
theorem Exclusive.follows (exclusive : Exclusive config s tasks)
    (listed : call ∈ s.calls) (keyed : call.key = some key) (mutation : call.isMutation)
    (fresh : s.cache.fresh s.clock key = some response) : Follows config s ⟨call, response, .cache, s.clock⟩ := by
  have the_key {k : IdempotencyKey} {instant : Nat} (succeeds : Answer.Succeeds k ⟨call, response, .cache, instant⟩) :
      k = key := Option.some.inj (succeeds.keyed.symm.trans keyed)
  constructor
  · intro k succeeds e member before executed soon
    cases the_key succeeds
    exact exclusive.of_fresh fresh member before executed soon
  · intro k succeeds
    cases the_key succeeds
    obtain ⟨expires, held, -⟩ := (s.cache.fresh_eq_some s.clock).mp fresh
    obtain ⟨e, member, same, executed, reply, success⟩ := exclusive.cached key _ held
    have kind := exclusive.alike e.call (exclusive.answered e member).1 call listed (by rw [same]; rfl)
      (same.trans keyed.symm)
    exact ⟨e, member, ⟨same, kind.trans mutation, by rw [reply]; exact success⟩, executed, reply⟩

/-- **A miss**, while no other call of the key is engaged. -/
theorem Exclusive.miss (exclusive : Exclusive config s (.call call .checking :: rest))
    (missed : ∀ key, call.key = some key → call.isMutation → s.cache.fresh s.clock key = none)
    (reserves : (Task.call call .checking).Reserves config s rest) :
    Exclusive config s (.call call .queueing :: rest) where
  listed := exclusive.listed_turn (some .queueing)
  answered := exclusive.answered
  alike := exclusive.alike
  alone key := by
    rw [List.countP_cons]
    by_cases here : (Task.call call .queueing).engagedOn key = true
    · obtain ⟨keyed, mutation, -⟩ := engagedOn_call.mp here
      have none := List.countP_eq_zero.mpr fun other member =>
        Bool.eq_false_iff.mp (reserves key keyed mutation (missed key keyed mutation) other member)
      rw [none, if_pos here]
    · rw [if_neg here]
      exact Nat.le_trans (List.sublist_cons_self _ _).countP_le (exclusive.alone key)
  stale key := by
    refine List.forall_mem_cons.mpr ⟨fun here => ?_, fun task member => ?_⟩
    · obtain ⟨keyed, mutation, -⟩ := engagedOn_call.mp here
      exact missed key keyed mutation
    · exact exclusive.stale key task (.tail _ member)
  kept key e member succeeds executed := (exclusive.kept key e member succeeds executed).imp_left fun held => by
    obtain ⟨task, here, stores⟩ := held
    rcases List.mem_cons.mp here with rfl | old
    · cases stores
    · exact ⟨task, .tail _ old, stores⟩
  past key := by
    refine List.forall_mem_cons.mpr ⟨fun here e member succeeds executed => ?_, fun task member => ?_⟩
    · obtain ⟨keyed, mutation, -⟩ := engagedOn_call.mp here
      have missing := missed key keyed mutation
      rcases exclusive.kept key e member succeeds executed with ⟨task, there, stores⟩ | ended | ⟨expires, held, long⟩
      · rcases List.mem_cons.mp there with rfl | old
        · cases stores
        · exact absurd (stores.engaged.symm.trans (reserves key keyed mutation missing task old)) (by decide)
      · exact .inl ended
      · refine .inl (Nat.le_trans long (Nat.le_of_not_lt fun alive => ?_))
        rw [(s.cache.fresh_eq_some s.clock).mpr ⟨expires, held, alive⟩] at missing
        cases missing
    · exact exclusive.past key task (.tail _ member)
  cached := exclusive.cached
  stored := by
    refine List.forall_mem_cons.mpr ⟨?_, fun task member => ?_⟩
    · rintro _ _ _ _ ⟨⟩
    · exact exclusive.stored task (.tail _ member)
  one := exclusive.one

/-- An engaged call of a key has no other beside it. -/
theorem Exclusive.sole {other : Task} (exclusive : Exclusive config s (task :: rest))
    (engaged : task.engagedOn key) (member : other ∈ rest) : other.engagedOn key = false := by
  have alone := exclusive.alone key
  rw [List.countP_cons_of_pos engaged] at alone
  exact Bool.eq_false_iff.mpr (List.countP_eq_zero.mp (Nat.le_zero.mp (Nat.le_of_succ_le_succ alone)) other member)

/-- **A run** of a call, the only one of its key that is engaged. -/
theorem Exclusive.run {ctx : OperationContext}
    (exclusive : Exclusive config s (.call call (.running ctx) :: rest)) :
    Exclusive config (s.answer call response (.pipeline ctx env)) (.call call (.storing ctx env response) :: rest) where
  listed := exclusive.listed_turn (some (.storing ctx env response))
  answered := List.forall_mem_cons.mpr
    ⟨⟨exclusive.listed _ (.head _) call rfl, le_rfl⟩, exclusive.answered⟩
  alike := exclusive.alike
  alone key := Nat.le_trans (countP_turn (some (.storing ctx env response)) key (fun _ _ _ => rfl))
    (exclusive.alone key)
  stale key := by
    refine List.forall_mem_cons.mpr ⟨fun here => ?_, fun task member => ?_⟩
    · exact exclusive.stale key _ (.head _) (engagedOn_call.mpr (engagedOn_call.mp here))
    · exact exclusive.stale key task (.tail _ member)
  kept key := by
    refine List.forall_mem_cons.mpr ⟨fun succeeds _ => ?_, fun e member succeeds executed => ?_⟩
    · exact .inl ⟨_, (.head _), succeeds.keyed, succeeds.mutation, rfl⟩
    · refine (exclusive.kept key e member succeeds executed).imp_left fun held => ?_
      obtain ⟨task, here, stores⟩ := held
      rcases List.mem_cons.mp here with rfl | old
      · cases stores
      · exact ⟨task, .tail _ old, stores⟩
  past key := by
    refine List.forall_mem_cons.mpr ⟨fun here => ?_, fun task member engaged => ?_⟩
    · refine List.forall_mem_cons.mpr ⟨fun succeeds _ => .inr ⟨succeeds.keyed, succeeds.mutation, rfl⟩,
        fun e member succeeds executed => ?_⟩
      have before := exclusive.past key _ (.head _) (engagedOn_call.mpr (engagedOn_call.mp here)) e member
        succeeds executed
      exact .inl (before.resolve_right fun stores => absurd stores.stores Bool.false_ne_true)
    · refine List.forall_mem_cons.mpr ⟨fun succeeds _ => ?_,
        exclusive.past key task (.tail _ member) engaged⟩
      have own : (Task.call call (.running ctx)).engagedOn key :=
        engagedOn_call.mpr ⟨succeeds.keyed, succeeds.mutation, rfl⟩
      exact absurd (engaged.symm.trans (exclusive.sole own member)) (by decide)
  cached key held found := by
    obtain ⟨e, member, facts⟩ := exclusive.cached key held found
    exact ⟨e, .tail _ member, facts⟩
  stored := by
    refine List.forall_mem_cons.mpr ⟨?_, fun task member c own around reply here => ?_⟩
    · rintro _ _ _ _ ⟨⟩
      exact ⟨_, (.head _), rfl, rfl, rfl⟩
    · obtain ⟨e, there, facts⟩ := exclusive.stored task (.tail _ member) c own around reply here
      exact ⟨e, .tail _ there, facts⟩
  one := by
    constructor
    · refine List.pairwise_cons.mpr ⟨fun e member key succeeds before executed soon => ?_, exclusive.one.once⟩
      have own : (Task.call call (.running ctx)).engagedOn key :=
        engagedOn_call.mpr ⟨succeeds.keyed, succeeds.mutation, rfl⟩
      rcases exclusive.past key _ (.head _) own e member before executed with ended | stores
      · exact absurd ended (Nat.not_le_of_lt soon)
      · cases stores
    · refine List.forall_mem_cons.mpr ⟨?_, fun a member key succeeds plain => ?_⟩
      · rintro key succeeds ⟨⟩
      · obtain ⟨e, here, facts⟩ := exclusive.one.repeated a member key succeeds plain
        exact ⟨e, .tail _ here, facts⟩

theorem mem_of_lookup {cache : Cache} {held : OperationResponse × Nat}
    (found : cache.lookup key = some held) : (key, held) ∈ cache := by
  obtain ⟨before, after, rfl, -⟩ := List.lookup_eq_some_iff.mp found
  exact List.mem_append_right _ List.mem_cons_self

/-- A call that has a reply to store ends without a store. -/
theorem Exclusive.unstored {ctx : OperationContext} {ran : Surroundings}
    (exclusive : Exclusive config s (.call call (.storing ctx ran response) :: rest))
    (nothing : ∀ key, call.key = some key → response.success = false) :
    Exclusive config s (.call call .finishing :: rest) where
  listed := exclusive.listed_turn (some .finishing)
  answered := exclusive.answered
  alike := exclusive.alike
  alone key := Nat.le_trans (countP_turn (some .finishing) key (by rintro _ ⟨⟩ ⟨⟩)) (exclusive.alone key)
  stale key := by
    refine List.forall_mem_cons.mpr ⟨fun here => ?_, fun task member => ?_⟩
    · exact absurd (engagedOn_call.mp here).2.2 Bool.false_ne_true
    · exact exclusive.stale key task (.tail _ member)
  kept key e member succeeds executed := (exclusive.kept key e member succeeds executed).imp_left fun held => by
    obtain ⟨task, here, stores⟩ := held
    rcases List.mem_cons.mp here with rfl | old
    · obtain ⟨keyed, -, same⟩ := stores
      have success := succeeds.success
      rw [← same, nothing key keyed] at success
      cases success
    · exact ⟨task, .tail _ old, stores⟩
  past key := by
    refine List.forall_mem_cons.mpr ⟨fun here => ?_, fun task member => ?_⟩
    · exact absurd (engagedOn_call.mp here).2.2 Bool.false_ne_true
    · exact exclusive.past key task (.tail _ member)
  cached := exclusive.cached
  stored := by
    refine List.forall_mem_cons.mpr ⟨?_, fun task member => ?_⟩
    · rintro _ _ _ _ ⟨⟩
    · exact exclusive.stored task (.tail _ member)
  one := exclusive.one

/-- **A store** of a reply, which clears no live entry of another key. -/
theorem Exclusive.store {ctx : OperationContext} {ran : Surroundings} {stores : List Stored}
    (exclusive : Exclusive config s (.call call (.storing ctx ran response) :: rest)) (keyed : call.key = some key)
    (success : response.success) (reserves : (Task.call call (.storing ctx ran response)).Reserves config s rest) :
    Exclusive config { s with cache := s.cache.storeIdempotency s.clock config key response, stores := stores }
      (.call call .finishing :: rest) := by
  have own : call ∈ s.calls := exclusive.listed _ (.head _) call rfl
  -- a mutation with the key makes this call a mutation
  have mutates {c : Call} (listed : c ∈ s.calls) (same : c.key = some key) (mutation : c.isMutation) :
      (Task.call call (.storing ctx ran response)).engagedOn key := by
    have kind := exclusive.alike call own c listed (by rw [keyed]; rfl) (keyed.trans same.symm)
    exact engagedOn_call.mpr ⟨keyed, kind.trans mutation, rfl⟩
  have found (k : IdempotencyKey) := Cache.lookup_storeIdempotency s.cache s.clock config success key k
  refine ⟨exclusive.listed_turn (some .finishing), exclusive.answered, exclusive.alike, fun k => ?_,
    fun k => ?_, fun k e member succeeds executed => ?_, fun k => ?_, fun k held here => ?_, ?_, exclusive.one⟩
  · exact Nat.le_trans (countP_turn (some .finishing) k (by rintro _ ⟨⟩ ⟨⟩)) (exclusive.alone k)
  · refine List.forall_mem_cons.mpr ⟨fun here => ?_, fun task member engaged => ?_⟩
    · exact absurd (engagedOn_call.mp here).2.2 Bool.false_ne_true
    · have before := exclusive.stale k task (.tail _ member) engaged
      by_cases same : k = key
      · subst same
        cases task with
        | drain _ => cases engaged
        | call c place =>
          obtain ⟨theirs, mutation, -⟩ := engagedOn_call.mp engaged
          have listed := exclusive.listed _ (.tail _ member) c rfl
          exact absurd (engaged.symm.trans (exclusive.sole (mutates listed theirs mutation) member)) (by decide)
      · rw [Cache.fresh, found, if_neg same]
        split
        · rfl
        · exact before
  · by_cases same : k = key
    · subst same
      have engaged := mutates (exclusive.answered e member).1 succeeds.keyed succeeds.mutation
      refine .inr ((exclusive.past k _ (.head _) engaged e member succeeds executed).imp_right fun replies => ?_)
      refine ⟨s.clock + idempotencyTtl config, ?_, Nat.add_le_add_right (exclusive.answered e member).2 _⟩
      rw [← replies.2.2]
      exact (found k).trans (if_pos rfl)
    · rcases exclusive.kept k e member succeeds executed with ⟨task, here, theirs⟩ | ended | ⟨expires, held, long⟩
      · refine .inl ⟨task, ?_, theirs⟩
        rcases List.mem_cons.mp here with rfl | old
        · exact absurd (Option.some.inj (theirs.1.symm.trans keyed)) same
        · exact .tail _ old
      · exact .inr (.inl ended)
      · by_cases full : s.cache.length ≥ config.maxIdempotencyKeys
        · refine .inr (.inl (Nat.le_trans long ?_))
          exact reserves key keyed success full _ (mem_of_lookup held) same
        · refine .inr (.inr ⟨expires, ?_, long⟩)
          exact (found k).trans (by rw [if_neg same, if_neg full, held])
  · refine List.forall_mem_cons.mpr ⟨fun here => ?_, fun task member => ?_⟩
    · exact absurd (engagedOn_call.mp here).2.2 Bool.false_ne_true
    · exact exclusive.past k task (.tail _ member)
  · rw [found k] at here
    split at here
    next same =>
      cases here
      obtain ⟨e, member, caller, executed, reply⟩ :=
        exclusive.stored _ (.head _) call ctx ran response rfl
      exact ⟨e, member, by rw [caller, keyed, same], executed, reply, success⟩
    next =>
      split at here
      · cases here
      · exact exclusive.cached k held here
  · refine List.forall_mem_cons.mpr ⟨?_, fun task member => ?_⟩
    · rintro _ _ _ _ ⟨⟩
    · exact exclusive.stored task (.tail _ member)

theorem Exclusive.begin {calls : List Call}
    (exclusive : Exclusive config s tasks) (grows : ∀ call ∈ s.calls, call ∈ calls)
    (listed : ∀ call ∈ task.call?, call ∈ calls)
    (alike : ∀ call ∈ calls, ∀ other ∈ calls, call.key.isSome → call.key = other.key →
      call.isMutation = other.isMutation) (idle : ∀ key, task.engagedOn key = false)
    (plain : ∀ call ctx env response, task ≠ .call call (.storing ctx env response)) :
    Exclusive config { s with calls := calls } (task :: tasks) where
  listed := List.forall_mem_cons.mpr
    ⟨listed, fun other member call here => grows call (exclusive.listed other member call here)⟩
  answered a member := (exclusive.answered a member).imp_left (grows a.call)
  alike := alike
  alone key := by
    rw [List.countP_cons_of_neg (Bool.eq_false_iff.mp (idle key))]
    exact exclusive.alone key
  stale key := by
    refine List.forall_mem_cons.mpr ⟨fun engaged => ?_, exclusive.stale key⟩
    exact absurd (engaged.symm.trans (idle key)) (by decide)
  kept key e member succeeds executed := (exclusive.kept key e member succeeds executed).imp_left fun held => by
    obtain ⟨other, here, stores⟩ := held
    exact ⟨other, .tail _ here, stores⟩
  past key := by
    refine List.forall_mem_cons.mpr ⟨fun engaged => ?_, exclusive.past key⟩
    exact absurd (engaged.symm.trans (idle key)) (by decide)
  cached := exclusive.cached
  stored := List.forall_mem_cons.mpr
    ⟨fun call ctx env response here => absurd here (plain call ctx env response), exclusive.stored⟩
  one := exclusive.one

theorem Exclusive.drained {place : Draining} {next : Option Draining}
    (exclusive : Exclusive config s (.drain place :: rest)) (same : SameStory s s') :
    Exclusive config s' ((next.map .drain).toList ++ rest) := by
  have behind {task : Task} (member : task ∈ (next.map Task.drain).toList ++ rest) :
      (∃ p, task = .drain p) ∨ task ∈ rest := by
    rcases List.mem_append.mp member with new | old
    · obtain ⟨p, -, rfl⟩ := Option.map_eq_some_iff.mp (Option.mem_toList.mp new)
      exact .inl ⟨p, rfl⟩
    · exact .inr old
  have before {task : Task} (old : task ∈ rest) : task ∈ .drain place :: rest := .tail _ old
  refine ⟨?_, ?_, ?_, fun key => ?_, fun key task member engaged => ?_, fun key e member succeeds executed => ?_,
    fun key task member engaged e there => ?_, ?_, ?_, ?_⟩
  · rw [same.calls]
    intro task member
    rcases behind member with ⟨p, rfl⟩ | old
    · rintro _ ⟨⟩
    · exact exclusive.listed task (before old)
  · rw [same.answers, same.calls, same.clock]
    exact exclusive.answered
  · rw [same.calls]
    exact exclusive.alike
  · have none : (next.map Task.drain).toList.countP (Task.engagedOn key) = 0 := by cases next <;> rfl
    rw [List.countP_append, none, Nat.zero_add]
    exact Nat.le_trans (List.sublist_cons_self _ _).countP_le (exclusive.alone key)
  · rw [same.cache, same.clock]
    rcases behind member with ⟨p, rfl⟩ | old
    · cases engaged
    · exact exclusive.stale key task (before old) engaged
  · rw [same.answers] at member
    rw [Shared.Keeps, same.cache, same.clock]
    refine (exclusive.kept key e member succeeds executed).imp_left fun held => ?_
    obtain ⟨task, here, stores⟩ := held
    rcases List.mem_cons.mp here with rfl | old
    · cases stores
    · exact ⟨task, List.mem_append_right _ old, stores⟩
  · rw [same.answers] at there
    rw [same.clock]
    rcases behind member with ⟨p, rfl⟩ | old
    · cases engaged
    · exact exclusive.past key task (before old) engaged e there
  · rw [same.cache, same.answers]
    exact exclusive.cached
  · rw [same.answers]
    intro task member call ctx env response here
    rcases behind member with ⟨p, rfl⟩ | old
    · cases here
    · exact exclusive.stored task (before old) call ctx env response here
  · rw [same.answers]
    exact exclusive.one

/-- **A step of a call** that reserves its key keeps every key exclusive. -/
theorem Exclusive.advance {limited : Bool} (exclusive : Exclusive config s (.call call place :: rest))
    (reserves : (Task.call call place).Reserves config s rest) :
    Exclusive config (s.callStep config limited env call place).1
      (((s.callStep config limited env call place).2.map (.call call)).toList ++ rest) := by
  have turn := callStep_turn config env s limited call place
  generalize s.callStep config limited env call place = after at turn
  have own : call ∈ s.calls := exclusive.listed _ (.head _) call rfl
  cases turn with
  | quiet unstored same engaged plain => exact exclusive.quiet unstored same engaged plain
  | refused code message unstored same engaged plain =>
    have refusal : Follows config s ⟨call, .ofCode code message.toList, .refusal, s.clock⟩ := by
      constructor
      · intro key succeeds
        cases succeeds.success
      · intro key succeeds
        cases succeeds.success
    refine (exclusive.answer own rfl refusal).quiet unstored same (fun p here inside => ?_) plain
    exact absurd (inside.symm.trans (engaged p here)) (by decide)
  | hit key cached keyed mutation fresh =>
    have repeats := exclusive.follows own keyed mutation fresh
    exact (exclusive.answer own rfl repeats).quiet rfl (.refl _) (by rintro _ ⟨⟩) (by rintro _ ⟨⟩)
  | miss missed => exact exclusive.miss missed reserves
  | run ctx => exact exclusive.run
  | store ctx ran response =>
    cases keyed : call.key with
    | none =>
      rw [Shared.store, keyed]
      refine exclusive.unstored fun key some_key => ?_
      rw [keyed] at some_key
      cases some_key
    | some key =>
      cases success : response.success with
      | false =>
        have same : s.store config call ctx ran response = s := by
          rw [Shared.store, keyed]
          simp [Cache.storeIdempotency, success]
        rw [same]
        exact exclusive.unstored fun _ _ => success
      | true =>
        rw [Shared.store, keyed]
        exact exclusive.store keyed success reserves

end

namespace PipelineExecutor

/-! ## Runs -/

/-- A key is carried by mutations only or by none, a call misses only where no other call
of its key is engaged, and no store clears a live entry of another key. -/
def Reserved (config : PipelineConfig) (m : PipelineExecutor) : Event → Prop
  | .execute call => ∀ other ∈ m.shared.calls, call.key.isSome → other.key = call.key →
      other.isMutation = call.isMutation
  | .drain _ => True
  | .advance i elapsed _ _ => ∀ task ∈ m.tasks[i]?, task.Reserves config (m.shared.elapse elapsed) (m.others i)

section

variable {config : PipelineConfig} {m : PipelineExecutor} {event : Event}

theorem exclusive_new : Exclusive config (new config).shared (new config).tasks := by
  refine ⟨?_, ?_, ?_, fun _ => Nat.zero_le _, ?_, ?_, ?_, ?_, ?_, ⟨.nil, ?_⟩⟩
  · intro task absent
    exact nomatch absent
  · intro a absent
    exact nomatch absent
  · intro call absent
    exact nomatch absent
  · intro key task absent
    exact nomatch absent
  · intro key e absent
    exact nomatch absent
  · intro key task absent
    exact nomatch absent
  · rintro key held ⟨⟩
  · intro task absent
    exact nomatch absent
  · intro a absent
    exact nomatch absent

theorem exclusive_step (exclusive : Exclusive config m.shared m.tasks) (reserved : m.Reserved config event) :
    Exclusive config (m.step config event).shared (m.step config event).tasks := by
  cases event with
  | execute call =>
    refine exclusive.begin (fun _ => .tail _) ?_ ?_ (fun _ => Bool.and_false _) ?_
    · rintro _ ⟨⟩
      exact List.mem_cons_self
    · intro a here b there keyed same
      rcases List.mem_cons.mp here with rfl | old
      · rcases List.mem_cons.mp there with rfl | older
        · rfl
        · exact (reserved b older keyed same.symm).symm
      · rcases List.mem_cons.mp there with rfl | older
        · exact reserved a old (same ▸ keyed) same
        · exact exclusive.alike a old b older keyed same
    · rintro _ _ _ _ ⟨⟩
  | drain timeout =>
    refine exclusive.begin (fun _ => id) ?_ exclusive.alike (fun _ => rfl) ?_
    · rintro _ ⟨⟩
    · rintro _ _ _ _ ⟨⟩
  | advance i elapsed limited env =>
    rw [step]
    cases here : m.tasks[i]? with
    | none => exact exclusive.elapse elapsed
    | some task =>
      have turn := (exclusive.of_perm (Run.perm_of_turn here)).elapse elapsed
      cases task with
      | call call place => exact turn.advance (reserved _ here)
      | drain place => exact turn.drained (drainStep_same place)

/-- **One execution for each key** in every state of a run whose calls reserve their keys. -/
theorem once_reserved {events : List Event}
    (each : Run.Each (step config) (Reserved config) (new config) events) :
    Run.Always (step config) (fun m => OneExecution config m.shared.answers) (new config) events := by
  have invariant := each.invariant (I := fun m => Exclusive config m.shared m.tasks)
    (fun _ _ held meets => exclusive_step held meets) exclusive_new
  exact fun m reached => (invariant m reached).one

end

instance (config : PipelineConfig) (s : Shared) (rest : List Task) : (task : Task) →
    Decidable (task.Reserves config s rest)
  | .call c .checking => Option.decidableForallMem c.key
  | .call c (.storing _ _ response) =>
    have (key : IdempotencyKey) : Decidable (response.success → s.cache.length ≥ config.maxIdempotencyKeys →
        ∀ e ∈ s.cache, e.1 ≠ key → e.2.2 ≤ s.clock) := inferInstanceAs (Decidable (_ → _ → _))
    Option.decidableForallMem c.key
  | .call _ .entering | .call _ .undraining | .call _ .queueing | .call _ .acquiring | .call _ .counting
  | .call _ .limiting | .call _ .refusing | .call _ (.running _) | .call _ .finishing | .call _ .leaving
  | .call _ .returning | .drain _ => .isTrue trivial

instance (config : PipelineConfig) (m : PipelineExecutor) : (event : Event) → Decidable (m.Reserved config event)
  | .execute call => inferInstanceAs (Decidable
      (∀ other ∈ m.shared.calls, call.key.isSome → other.key = call.key → other.isMutation = call.isMutation))
  | .advance i _ _ _ => Option.decidableForallMem m.tasks[i]?
  | .drain _ => .isTrue trivial

/-- Two calls with one key begin, one of them runs, and the other one hits. -/
theorem once_reserved_sample : Run.Always (step {}) (fun m => OneExecution {} m.shared.answers) (new {})
    (.execute keyedCreate :: .execute keyedCreate :: advances 15) :=
  once_reserved (by decide +kernel)

/-- A call misses, another one with its key runs, and then the first one runs. -/
def racingRun : List Event :=
  .execute keyedCreate :: advances 3 ++ .execute keyedCreate :: advances 12 ++ advances 9

/-- The key executes twice. -/
theorem twice_runs : ¬ Run.Always (step {}) (fun m => OneExecution {} m.shared.answers) (new {}) racingRun := by
  intro always
  have last := always _ (Run.foldl_mem_states _ _)
  have ran (i : Nat) (below : i < 2) : ∃ a, (racingRun.foldl (step {}) (new {})).shared.answers[i]? = some a ∧
      a.Succeeds 7 ∧ a.executed ∧ a.instant = 0 := by
    have held : ((racingRun.foldl (step {}) (new {})).shared.answers[i]?.any fun a => a.call.key == some 7 &&
        a.call.isMutation && a.response.success && a.executed && a.instant == 0) = true := by
      revert i
      decide +kernel
    obtain ⟨a, here, facts⟩ := (Option.any_eq_true _ _).mp held
    simp only [Bool.and_eq_true, beq_iff_eq] at facts
    obtain ⟨⟨⟨⟨keyed, mutation⟩, success⟩, executed⟩, instant⟩ := facts
    exact ⟨a, here, ⟨keyed, mutation, success⟩, executed, instant⟩
  obtain ⟨later, first, succeeds, executed, now⟩ := ran 0 (by decide)
  obtain ⟨earlier, second, succeeded, before, before_now⟩ := ran 1 (by decide)
  have distance := last.apart (by decide) first second succeeds executed succeeded before
  rw [now, before_now] at distance
  exact absurd distance (by decide)

end PipelineExecutor

end NovaRuntime.Executor
