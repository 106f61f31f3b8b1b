/-
# NovaRuntime.Executor.Calls — calls of execute and drain as a step system

Every call of `PipelineExecutor::execute` or `drain` in flight is a `Task`: the place it is
at. A step is one access to what the calls share (a flag, the cache of replies, the
semaphore, a counter, the rate limiter), and the tasks take their steps in any order;
`run_pipeline` is entered in one step and left in another. Calls one after the other are
the runs in which a call starts when there is no other. The rate limiter's verdict and the
surroundings of a run come with the step, and time passes with it. A free permit goes to
any call that waits for one.

`calls`, `answers` and `stores` tell the story of a run for its theorems, the latest first:
the calls, what each was answered and by whom, and what was written into the cache.
-/
import NovaRuntime.Executor.Pipeline

namespace NovaRuntime.Executor

open NovaRuntime.Library

set_option autoImplicit false

/-! ## Calls in flight -/

structure Call where
  request : OperationRequest
  context : OperationContext

def Call.key (call : Call) : Option IdempotencyKey := call.request.options.idempotencyKey

def Call.isMutation (call : Call) : Bool := call.request.operationType.isMutation

/-- The places of `execute`. -/
inductive Place where
  | entering
  | undraining
  | checking
  | queueing
  | acquiring
  | counting
  | limiting
  | refusing
  | running (ctx : OperationContext)
  | storing (ctx : OperationContext) (env : Surroundings) (response : OperationResponse)
  | finishing
  | leaving
  | returning

/-- The places of `drain`. -/
inductive Draining where
  | flagging (timeout : Nat)
  | polling (deadline : Nat)
  | unflagging
  | stopping
  | returning (drained : Bool)
  deriving DecidableEq

inductive Task where
  | call (call : Call) (place : Place)
  | drain (place : Draining)

/-- In `run_pipeline`. -/
def Task.runs : Task → Bool
  | .call _ (.running _) => true
  | _ => false

/-! ## What they share -/

abbrev Cache := List (IdempotencyKey × OperationResponse × Nat)

namespace Cache

variable (cache : Cache) (now : Nat)

/-- An entry of a key that has not expired. -/
def fresh (key : IdempotencyKey) : Option OperationResponse :=
  (cache.lookup key).bind fun e => if now < e.2 then some e.1 else none

def checkIdempotency (key : IdempotencyKey) (operationType : OperationType) : Option OperationResponse :=
  if operationType.isMutation then cache.fresh now key else none

def insert (key : IdempotencyKey) (response : OperationResponse) (expires : Nat) : Cache :=
  (key, response, expires) :: cache.filter fun e => e.1 != key

def storeIdempotency (config : PipelineConfig) (key : IdempotencyKey) (response : OperationResponse) : Cache :=
  if response.success then
    Cache.insert (if cache.length ≥ config.maxIdempotencyKeys then [] else cache) key response
      (now + config.idempotencyKeyTtlSecs * 1000000000)
  else cache

theorem lookup_filter {key k : IdempotencyKey} (different : k ≠ key) :
    (cache.filter fun e => e.1 != key).lookup k = cache.lookup k := by
  induction cache with
  | nil => rfl
  | cons e cache ih =>
    obtain ⟨name, value⟩ := e
    by_cases here : name = key
    · subst here
      rw [List.filter_cons_of_neg (by simp), ih, List.lookup_cons, beq_false_of_ne different]
    · rw [List.filter_cons_of_pos (by simpa using here), List.lookup_cons, List.lookup_cons, ih]

theorem lookup_insert (key k : IdempotencyKey) (response : OperationResponse) (expires : Nat) :
    (insert cache key response expires).lookup k = if k = key then some (response, expires) else cache.lookup k := by
  unfold insert
  split
  next here => rw [here, List.lookup_cons, beq_self_eq_true]
  next different => rw [List.lookup_cons, beq_false_of_ne different, lookup_filter cache different]

/-- **What a store leaves**: the reply under its key, and of the others nothing where the
cache was full. -/
theorem lookup_storeIdempotency (config : PipelineConfig) {response : OperationResponse}
    (success : response.success) (key k : IdempotencyKey) :
    (cache.storeIdempotency now config key response).lookup k =
      if k = key then some (response, now + config.idempotencyKeyTtlSecs * 1000000000)
      else if cache.length ≥ config.maxIdempotencyKeys then none else cache.lookup k := by
  rw [storeIdempotency, if_pos success, lookup_insert]
  by_cases full : cache.length ≥ config.maxIdempotencyKeys
  · rw [if_pos full, if_pos full, List.lookup_nil]
  · rw [if_neg full, if_neg full]

theorem fresh_eq_some {key : IdempotencyKey} {response : OperationResponse} :
    cache.fresh now key = some response ↔ ∃ expires, cache.lookup key = some (response, expires) ∧ now < expires := by
  unfold fresh
  cases cache.lookup key with
  | none => simp
  | some e =>
    obtain ⟨held, expires⟩ := e
    by_cases alive : now < expires
    · simp [alive]
    · simp only [Option.bind_some, alive, if_false, Option.some.injEq, Prod.mk.injEq, reduceCtorEq, false_iff]
      rintro ⟨_, ⟨-, rfl⟩, later⟩
      exact alive later

end Cache

/-- Who answered a call: its own run, the cache, or a check in front of both. -/
inductive Source where
  | pipeline (ctx : OperationContext) (env : Surroundings)
  | cache
  | refusal

structure Answer where
  call : Call
  response : OperationResponse
  source : Source
  instant : Nat

structure Stored where
  call : Call
  key : IdempotencyKey
  ctx : OperationContext
  env : Surroundings
  response : OperationResponse
  instant : Nat

structure Shared where
  isRunning : Bool
  isDraining : Bool
  activeOperations : Nat
  totalOperations : Nat
  permits : Nat
  /-- The length of the operation queue, which no call pushes to. -/
  queued : Nat
  cache : Cache
  clock : Nat
  calls : List Call
  answers : List Answer
  stores : List Stored

/-! ## Steps -/

namespace Shared

variable (config : PipelineConfig) (s : Shared)

def answer (call : Call) (response : OperationResponse) (source : Source) : Shared :=
  { s with answers := ⟨call, response, source, s.clock⟩ :: s.answers }

/-- The store of a reply, where the request has a key. -/
def store (call : Call) (ctx : OperationContext) (env : Surroundings) (response : OperationResponse) : Shared :=
  match call.key with
  | some key =>
    { s with
      cache := s.cache.storeIdempotency s.clock config key response
      stores := if response.success then ⟨call, key, ctx, env, response, s.clock⟩ :: s.stores else s.stores }
  | none => s

/-- The deadline that `execute` sets. -/
def deadline (call : Call) : Nat :=
  s.clock + fromMillis
    (min (call.request.options.timeout.elim config.defaultOperationTimeoutMs asMillis) config.maxOperationTimeoutMs)

def refuse (call : Call) (code : ErrorCode) (message : String) : Shared :=
  s.answer call (.ofCode code message.toList) .refusal

def callStep (limited : Bool) (env : Surroundings) (call : Call) : Place → Shared × Option Place
  | .entering =>
    if s.isRunning then (s, some .undraining)
    else (s.refuse call .serviceUnavailable "pipeline is not running", none)
  | .undraining =>
    if s.isDraining then (s.refuse call .serviceUnavailable "pipeline is draining", none)
    else (s, some .checking)
  | .checking =>
    match call.key.bind fun key => s.cache.checkIdempotency s.clock key call.request.operationType with
    | some cached => (s.answer call cached .cache, none)
    | none => (s, some .queueing)
  | .queueing =>
    if s.queued ≥ config.pipelineQueueDepth then
      (s.refuse call .serviceUnavailable "operation queue full", none)
    else (s, some .acquiring)
  | .acquiring =>
    if 0 < s.permits then ({ s with permits := s.permits - 1 }, some .counting) else (s, some .acquiring)
  | .counting => ({ s with activeOperations := s.activeOperations + 1 }, some .limiting)
  | .limiting =>
    if limited then (s, some .refusing)
    else (s, some (.running { call.context with deadline := s.deadline config call }))
  | .refusing =>
    ({ s.refuse call .rateLimited "rate limit exceeded" with activeOperations := s.activeOperations - 1 },
      some .returning)
  | .running ctx =>
    let response := runPipeline config env ctx call.request
    (s.answer call response (.pipeline ctx env), some (.storing ctx env response))
  | .storing ctx env response => (s.store config call ctx env response, some .finishing)
  | .finishing => ({ s with totalOperations := s.totalOperations + 1 }, some .leaving)
  | .leaving => ({ s with activeOperations := s.activeOperations - 1 }, some .returning)
  | .returning => ({ s with permits := s.permits + 1 }, none)

def drainStep : Draining → Shared × Option Draining
  | .flagging timeout => ({ s with isDraining := true }, some (.polling (s.clock + timeout)))
  | .polling deadline =>
    if 0 < s.activeOperations then
      (s, some (if deadline ≤ s.clock then .unflagging else .polling deadline))
    else (s, some .stopping)
  | .unflagging => ({ s with isDraining := false }, some (.returning false))
  | .stopping => ({ s with isRunning := false }, some (.returning true))
  | .returning _ => (s, none)

def taskStep (limited : Bool) (env : Surroundings) : Task → Shared × Option Task
  | .call call place =>
    let after := s.callStep config limited env call place
    (after.1, after.2.map (.call call))
  | .drain place =>
    let after := s.drainStep place
    (after.1, after.2.map .drain)

def elapse (elapsed : Nat) : Shared := { s with clock := s.clock + elapsed }

end Shared

/-! ## What a step of a call does -/

/-- Behind the check of the cache, and not done with its store. -/
def Place.engaged : Place → Bool
  | .queueing => true
  | .acquiring => true
  | .counting => true
  | .limiting => true
  | .running _ => true
  | .storing _ _ _ => true
  | _ => false

/-- Done with its run, and not with its store. -/
def Place.stores : Place → Bool
  | .storing _ _ _ => true
  | _ => false

/-- The call runs with its own session, and has not run. -/
def Place.Plain (call : Call) : Place → Prop
  | .running ctx => ctx.userSession = call.context.userSession
  | .storing _ _ _ => False
  | _ => True

/-- The cache, the clock and the story are the same. -/
structure SameStory (s s' : Shared) : Prop where
  cache : s'.cache = s.cache
  clock : s'.clock = s.clock
  calls : s'.calls = s.calls
  answers : s'.answers = s.answers
  stores : s'.stores = s.stores

theorem SameStory.refl (s : Shared) : SameStory s s := ⟨rfl, rfl, rfl, rfl, rfl⟩

/-- **The turns of a call**, as far as the story goes. -/
inductive CallTurn (config : PipelineConfig) (env : Surroundings) (s : Shared) (call : Call) :
    Place → Shared × Option Place → Prop
  | quiet {place : Place} {after : Shared} {next : Option Place} (unstored : place.stores = false)
      (same : SameStory s after)
      (engaged : ∀ p ∈ next, p.engaged → place.engaged) (plain : ∀ p ∈ next, p.Plain call) :
      CallTurn config env s call place (after, next)
  | refused {place : Place} {after : Shared} {next : Option Place} (code : ErrorCode) (message : String)
      (unstored : place.stores = false) (same : SameStory (s.refuse call code message) after)
      (engaged : ∀ p ∈ next, p.engaged = false) (plain : ∀ p ∈ next, p.Plain call) :
      CallTurn config env s call place (after, next)
  | hit (key : IdempotencyKey) (cached : OperationResponse) (keyed : call.key = some key)
      (mutation : call.isMutation) (fresh : s.cache.fresh s.clock key = some cached) :
      CallTurn config env s call .checking (s.answer call cached .cache, none)
  | miss (missed : ∀ key, call.key = some key → call.isMutation → s.cache.fresh s.clock key = none) :
      CallTurn config env s call .checking (s, some .queueing)
  | run (ctx : OperationContext) : CallTurn config env s call (.running ctx)
      (s.answer call (runPipeline config env ctx call.request) (.pipeline ctx env),
        some (.storing ctx env (runPipeline config env ctx call.request)))
  | store (ctx : OperationContext) (ran : Surroundings) (response : OperationResponse) :
      CallTurn config env s call (.storing ctx ran response) (s.store config call ctx ran response, some .finishing)

section

variable {config : PipelineConfig} {env : Surroundings} {s : Shared} {call : Call}

/-- A turn that moves on to a place that is no run. -/
theorem CallTurn.moves {place p : Place} {after : Shared} (unstored : place.stores = false) (same : SameStory s after)
    (engaged : p.engaged → place.engaged) (plain : p.Plain call) :
    CallTurn config env s call place (after, some p) :=
  .quiet unstored same (by rintro _ ⟨⟩; exact engaged) (by rintro _ ⟨⟩; exact plain)

theorem CallTurn.rejected {place : Place} (unstored : place.stores = false) (code : ErrorCode) (message : String) :
    CallTurn config env s call place (s.refuse call code message, none) :=
  .refused code message unstored (.refl _) (by rintro _ ⟨⟩) (by rintro _ ⟨⟩)

/-- **Every step of a call is one of these turns.** -/
theorem callStep_turn (config : PipelineConfig) (env : Surroundings) (s : Shared) (limited : Bool) (call : Call)
    (place : Place) :
    CallTurn config env s call place (s.callStep config limited env call place) := by
  cases place with
  | entering =>
    simp only [Shared.callStep]
    split
    · exact .moves rfl (.refl s) (by rintro ⟨⟩) trivial
    · exact .rejected rfl _ _
  | undraining =>
    simp only [Shared.callStep]
    split
    · exact .rejected rfl _ _
    · exact .moves rfl (.refl s) (by rintro ⟨⟩) trivial
  | checking =>
    simp only [Shared.callStep]
    split
    next cached found =>
      obtain ⟨key, keyed, held⟩ := Option.bind_eq_some_iff.mp found
      rw [Cache.checkIdempotency] at held
      split at held
      next mutation => exact .hit key cached keyed mutation held
      next => cases held
    next missing =>
      refine .miss fun key keyed mutation => ?_
      rw [keyed, Option.bind_some, Cache.checkIdempotency] at missing
      exact (if_pos mutation).symm.trans missing
  | queueing =>
    simp only [Shared.callStep]
    split
    · exact .rejected rfl _ _
    · exact .moves rfl (.refl s) (fun _ => rfl) trivial
  | acquiring =>
    simp only [Shared.callStep]
    split
    · exact .moves rfl ⟨rfl, rfl, rfl, rfl, rfl⟩ (fun _ => rfl) trivial
    · exact .moves rfl (.refl s) (fun _ => rfl) trivial
  | counting => exact .moves rfl ⟨rfl, rfl, rfl, rfl, rfl⟩ (fun _ => rfl) trivial
  | limiting =>
    simp only [Shared.callStep]
    split
    · exact .moves rfl (.refl s) (by rintro ⟨⟩) trivial
    · exact .moves rfl (.refl s) (fun _ => rfl) rfl
  | refusing =>
    exact .refused .rateLimited "rate limit exceeded" rfl ⟨rfl, rfl, rfl, rfl, rfl⟩ (by rintro _ ⟨⟩; rfl)
      (by rintro _ ⟨⟩; trivial)
  | running ctx => exact .run ctx
  | storing ctx ran response => exact .store ctx ran response
  | finishing | leaving => exact .moves rfl ⟨rfl, rfl, rfl, rfl, rfl⟩ (by rintro ⟨⟩) trivial
  | returning => exact .quiet rfl ⟨rfl, rfl, rfl, rfl, rfl⟩ (by rintro _ ⟨⟩) (by rintro _ ⟨⟩)

theorem drainStep_same (place : Draining) : SameStory s (s.drainStep place).1 := by
  cases place with
  | polling deadline =>
    rw [Shared.drainStep]
    split <;> exact .refl s
  | _ => exact ⟨rfl, rfl, rfl, rfl, rfl⟩

end

/-! ## The machine -/

structure PipelineExecutor where
  shared : Shared
  tasks : List Task

namespace PipelineExecutor

inductive Event where
  | execute (call : Call)
  | drain (timeout : Nat)
  /-- Time passes, and the task of a number takes its next step. -/
  | advance (i elapsed : Nat) (limited : Bool) (env : Surroundings)

/-- The task in front takes some steps. -/
def advances (n : Nat) : List Event := List.replicate n (.advance 0 0 false {})

variable (config : PipelineConfig)

def new : PipelineExecutor where
  shared := {
    isRunning := true
    isDraining := false
    activeOperations := 0
    totalOperations := 0
    permits := max config.maxConcurrentOps 1
    queued := 0
    cache := []
    clock := 0
    calls := []
    answers := []
    stores := [] }
  tasks := []

/-- The tasks but the one of a number. -/
def others (m : PipelineExecutor) (i : Nat) : List Task := m.tasks.eraseIdx i

def step (m : PipelineExecutor) : Event → PipelineExecutor
  | .execute call => ⟨{ m.shared with calls := call :: m.shared.calls }, .call call .entering :: m.tasks⟩
  | .drain timeout => ⟨m.shared, .drain (.flagging timeout) :: m.tasks⟩
  | .advance i elapsed limited env =>
    match m.tasks[i]? with
    | none => ⟨m.shared.elapse elapsed, m.tasks⟩
    | some task =>
      let after := (m.shared.elapse elapsed).taskStep config limited env task
      ⟨after.1, after.2.toList ++ m.others i⟩

end PipelineExecutor

end NovaRuntime.Executor
