/-
# NovaRuntime.Executor.Pipeline — the stages that a request runs through

The stages of `PipelineExecutor` and `run_pipeline`. A middleware stands in front of a stage:
it lets the request pass, or it returns in place of the stage (`Surroundings`). What it
passes on is the request and the context it got; a session that a middleware sets is the
one in the context from the start. Log and notify change nothing, and are left out.

A request that is answered with success behind middlewares that only refuse has run all its
stages (`ran_of_success`), and where it is a mutation its session may write (`Ran.canWrite`).
-/
import NovaRuntime.Executor.Types

namespace NovaRuntime.Executor

open NovaRuntime.Library

set_option autoImplicit false

structure PipelineConfig where
  maxConcurrentOps : Nat := 256
  pipelineQueueDepth : Nat := 1024
  defaultOperationTimeoutMs : Nat := 5000
  maxOperationTimeoutMs : Nat := 60000
  idempotencyKeyTtlSecs : Nat := 86400
  maxIdempotencyKeys : Nat := 100000
  maxRetries : UInt8 := 3
  retryBaseDelayMs : Nat := 10
  retryMaxDelayMs : Nat := 1000
  deriving DecidableEq

/-- `as_millis() as u64`. -/
def asMillis (duration : Nat) : Nat := duration / 1000000 % 18446744073709551616

def fromMillis (ms : Nat) : Nat := ms * 1000000

/-! ## What stands around a run -/

inductive CircuitState where
  | closed
  | opened (until_ : Nat)
  | halfOpen
  deriving DecidableEq

/-- One turn of the loop of `execute_with_retry`: the instants at which it looks at the
clock, the jitter it draws, the state of the breaker, and what a middleware returns. -/
structure Attempt where
  backoffAt : Nat := 0
  sleepAt : Nat := 0
  jitterMs : Nat := 0
  startedAt : Nat := 0
  breaker : CircuitState := .closed
  breakerAt : Nat := 0
  gate : Option PipelineResult := none
  stageAt : Nat := 0

structure Surroundings where
  parse : Option PipelineResult := none
  validate : Option PipelineResult := none
  authorize : Option PipelineResult := none
  attempts : List Attempt := []
  durationNs : Nat := 0

/-! ## The stages -/

/-- The size of a payload that came without one. -/
def OperationRequest.sized (req : OperationRequest) : OperationRequest :=
  match req.payload with
  | some payload => if req.payloadSize = 0 then { req with payloadSize := payload.length } else req
  | none => req

def parseStage (req : OperationRequest) : PipelineResult × OperationRequest :=
  (if req.sized.payloadSize > 10 * 1024 * 1024 then
      .error (.at .parse .payloadTooLarge
        ("payload size ".toList ++ Nat.toDigits 10 req.sized.payloadSize ++ " exceeds limit".toList))
    else .continue_,
    req.sized)

def targetValid : OperationTarget → Bool
  | .object typeName _ => !typeName.isEmpty
  | .collection typeName => !typeName.isEmpty
  | .queue name => !name.isEmpty
  | .schedule _ => true
  | .blob _ => true
  | .auth realm => !realm.isEmpty
  | .admin endpoint => !endpoint.isEmpty
  | .system => true

def validateStage (req : OperationRequest) : PipelineResult :=
  if req.payloadSize > 0 && req.payload.isNone then
    .error (.at .validate .validationError "payload_size > 0 but no payload provided".toList)
  else if !targetValid req.target then
    .error (.at .validate .validationError "invalid operation target".toList)
  else if req.options.timeout.any fun timeout => asMillis timeout > 3600000 then
    .error (.at .validate .validationError "operation timeout exceeds maximum".toList)
  else .continue_

/-- `str::contains`. -/
def textContains (text part : Text) : Bool := text.tails.any part.isPrefixOf

/-- A permission of the session names writing or administration. -/
def UserSession.canWrite (session : UserSession) : Bool :=
  session.permissions.any fun p => textContains p "write".toList || textContains p "admin".toList

def authorizeStage (ctx : OperationContext) (req : OperationRequest) : PipelineResult :=
  if req.operationType.isMutation && !ctx.userSession.any UserSession.canWrite then
    .error (.at .authorize .authorizationError "insufficient permissions for mutation operation".toList)
  else .continue_

def executeStage (ctx : OperationContext) (now : Nat) : PipelineResult :=
  if ctx.isExpired now then
    .error (.at .execute .deadlineExceeded "deadline exceeded before execution".toList)
  else .continue_

/-! ## The loop around the last stage -/

/-- Saturating arithmetic of `u64`. -/
def saturate (n : Nat) : Nat := min n 18446744073709551615

/-- `calculate_backoff`, in nanoseconds. -/
def calculateBackoff (config : PipelineConfig) (attempt : Nat) : Nat :=
  fromMillis (min (saturate (config.retryBaseDelayMs * saturate (5 ^ (attempt - 1)))) config.retryMaxDelayMs)

/-- The breaker refuses. -/
def Attempt.isOpen (a : Attempt) : Bool :=
  match a.breaker with
  | .opened until_ => a.breakerAt < until_
  | _ => false

/-- A turn of the loop: an error ends it, and a result is that of the stage. -/
def Attempt.run (config : PipelineConfig) (ctx : OperationContext) (attempt : Nat) (a : Attempt) :
    Except PipelineError PipelineResult :=
  let delay := calculateBackoff config attempt
  if 0 < attempt ∧ ctx.remainingDeadline a.backoffAt ≤ delay then
    .error (.at .execute .deadlineExceeded "deadline exceeded before retry".toList)
  else if 0 < attempt ∧ ctx.remainingDeadline a.sleepAt ≤ delay + fromMillis a.jitterMs then
    .error (.at .execute .deadlineExceeded "deadline exceeded before retry".toList)
  else if ctx.isExpired a.startedAt then
    .error (.at .execute .deadlineExceeded "deadline exceeded".toList)
  else if a.isOpen then
    .error (.at .execute .circuitBreakerOpen "circuit breaker is open".toList)
  else .ok (a.gate.getD (executeStage ctx a.stageAt))

/-- The loop from an attempt on, with the retries that are left. -/
def executeFrom (config : PipelineConfig) (ctx : OperationContext) :
    Nat → Nat → List Attempt → Except PipelineError StageStatus
  | left, attempt, attempts =>
    match (attempts.headD {}).run config ctx attempt with
    | .error e => .error e
    | .ok .continue_ => .ok .success
    | .ok (.shortCircuit _) => .ok .shortCircuit
    | .ok (.error e) =>
      if !e.retryable then .error e
      else
        match left with
        | 0 => .error e
        | left + 1 => executeFrom config ctx left (attempt + 1) attempts.tail

def executeWithRetry (config : PipelineConfig) (env : Surroundings) (ctx : OperationContext)
    (req : OperationRequest) : Except PipelineError StageStatus :=
  executeFrom config ctx (min req.options.maxRetries config.maxRetries).toNat 0 env.attempts

/-! ## The run -/

def buildErrorResponse (ctx : OperationContext) (durationNs : Nat) (e : PipelineError) :
    OperationResponse where
  status := e.code.status
  success := false
  data := none
  dataSize := 0
  traceId := ctx.traceId
  durationNs := durationNs
  error := some ⟨e.code, e.message, e.details, e.code.retryable, none⟩

/-- The three stages before the execution, each behind its middlewares. -/
def runStages (env : Surroundings) (ctx : OperationContext) (req : OperationRequest) : PipelineResult :=
  let parsed := match env.parse with
    | some result => (result, req)
    | none => parseStage req
  match parsed.1 with
  | .continue_ =>
    match env.validate.getD (validateStage parsed.2) with
    | .continue_ => env.authorize.getD (authorizeStage ctx parsed.2)
    | result => result
  | result => result

def runPipeline (config : PipelineConfig) (env : Surroundings) (ctx : OperationContext)
    (req : OperationRequest) : OperationResponse :=
  match runStages env ctx req with
  | .shortCircuit response => response
  | .error e => buildErrorResponse ctx env.durationNs e
  | .continue_ =>
    match executeWithRetry config env ctx req with
    | .error e => buildErrorResponse ctx env.durationNs e
    | .ok .error => buildErrorResponse ctx env.durationNs
        (.at .execute .internalError "stage returned error status".toList)
    | .ok _ => ⟨.ok, true, none, 0, ctx.traceId, env.durationNs, none⟩

/-! ## What a success says -/

def PipelineResult.isContinue : PipelineResult → Bool
  | .continue_ => true
  | _ => false

/-- A result that keeps a request from its stage, and is no success. -/
def PipelineResult.refuses : PipelineResult → Bool
  | .continue_ => false
  | .shortCircuit response => !response.success
  | .error _ => true

def PipelineResult.isError : PipelineResult → Bool
  | .error _ => true
  | _ => false

/-- The middlewares only refuse. In front of the last stage they do so with an error: what
they cut short there is answered with success. -/
def Surroundings.Strict (env : Surroundings) : Prop :=
  (∀ result ∈ env.parse, result.refuses) ∧ (∀ result ∈ env.validate, result.refuses) ∧
    (∀ result ∈ env.authorize, result.refuses) ∧ ∀ a ∈ env.attempts, ∀ result ∈ a.gate, result.isError

/-- **All stages ran:** parse, validate and authorize let the request pass, and it executed. -/
structure Ran (config : PipelineConfig) (env : Surroundings) (ctx : OperationContext)
    (req : OperationRequest) : Prop where
  parsed : (parseStage req).1.isContinue
  validated : (validateStage (parseStage req).2).isContinue
  authorized : (authorizeStage ctx (parseStage req).2).isContinue
  executed : executeWithRetry config env ctx req = .ok .success

section

variable {config : PipelineConfig} {env : Surroundings} {ctx : OperationContext} {req : OperationRequest}

theorem OperationRequest.sized_operationType (req : OperationRequest) :
    req.sized.operationType = req.operationType := by
  unfold sized
  split
  · split <;> rfl
  · rfl

/-- **A mutation that ran** had a session that may write. -/
theorem Ran.canWrite (ran : Ran config env ctx req) (mutation : req.operationType.isMutation) :
    ∃ session ∈ ctx.userSession, session.canWrite := by
  have passed := ran.authorized
  unfold authorizeStage at passed
  rw [show (parseStage req).2 = req.sized from rfl, req.sized_operationType, mutation, Bool.true_and] at passed
  cases held : ctx.userSession with
  | none =>
    rw [held] at passed
    cases passed
  | some session =>
    rw [held] at passed
    refine ⟨session, rfl, ?_⟩
    cases may : session.canWrite with
    | true => rfl
    | false =>
      rw [Option.any_some, may] at passed
      cases passed

/-- What a turn of the loop gives behind middlewares that only fail. -/
theorem Attempt.run_strict {attempt : Nat} {a : Attempt} (strict : ∀ result ∈ a.gate, result.isError)
    {response : OperationResponse} : a.run config ctx attempt ≠ .ok (.shortCircuit response) := by
  intro cut
  unfold Attempt.run at cut
  dsimp only at cut
  split at cut
  · cases cut
  split at cut
  · cases cut
  split at cut
  · cases cut
  split at cut
  · cases cut
  have same := Except.ok.inj cut
  cases given : a.gate with
  | none =>
    rw [given, Option.getD_none] at same
    unfold executeStage at same
    split at same <;> cases same
  | some result =>
    rw [given, Option.getD_some] at same
    have error := strict result given
    rw [same] at error
    cases error

/-- The loop ends with success or with an error. -/
theorem executeFrom_strict {left attempt : Nat} {attempts : List Attempt} {status : StageStatus}
    (strict : ∀ a ∈ attempts, ∀ result ∈ a.gate, result.isError)
    (done : executeFrom config ctx left attempt attempts = .ok status) : status = .success := by
  have first : ∀ result ∈ (attempts.headD {}).gate, result.isError := by
    cases attempts with
    | nil =>
      rintro _ ⟨⟩
    | cons a attempts => exact strict a List.mem_cons_self
  induction left generalizing attempt attempts with
  | zero =>
    unfold executeFrom at done
    split at done
    next => cases done
    next => exact (Except.ok.inj done).symm
    next cut => exact absurd cut (Attempt.run_strict first)
    next =>
      split at done <;> cases done
  | succ left ih =>
    unfold executeFrom at done
    split at done
    next => cases done
    next => exact (Except.ok.inj done).symm
    next cut => exact absurd cut (Attempt.run_strict first)
    next =>
      split at done
      · cases done
      · have rest : ∀ a ∈ attempts.tail, ∀ result ∈ a.gate, result.isError :=
          fun a member => strict a (List.mem_of_mem_tail member)
        refine ih rest done ?_
        cases tail : attempts.tail with
        | nil =>
          rintro _ ⟨⟩
        | cons a more => exact rest a (by rw [tail]; exact (.head _))

theorem parseStage_plain (req : OperationRequest) :
    (parseStage req).1.isContinue ∨ (parseStage req).1.refuses := by
  unfold parseStage
  dsimp only
  split
  · exact .inr rfl
  · exact .inl rfl

theorem validateStage_plain (req : OperationRequest) :
    (validateStage req).isContinue ∨ (validateStage req).refuses := by
  unfold validateStage
  split
  · exact .inr rfl
  split
  · exact .inr rfl
  split
  · exact .inr rfl
  · exact .inl rfl

theorem authorizeStage_plain (ctx : OperationContext) (req : OperationRequest) :
    (authorizeStage ctx req).isContinue ∨ (authorizeStage ctx req).refuses := by
  unfold authorizeStage
  split
  · exact .inr rfl
  · exact .inl rfl

/-- Behind a middleware that only refuses, a stage passes only where it does so itself. -/
theorem gate_cases {gate : Option PipelineResult} {result : PipelineResult}
    (strict : ∀ given ∈ gate, given.refuses) (plain : result.isContinue ∨ result.refuses) :
    (gate.getD result).refuses ∨ (gate.getD result = .continue_ ∧ result.isContinue) := by
  cases gate with
  | some given => exact .inl (strict given rfl)
  | none =>
    refine plain.symm.imp_right fun passes => ⟨?_, passes⟩
    cases result with
    | continue_ => rfl
    | _ => cases passes

/-- The stages before the execution refuse, or each of them passes. -/
theorem runStages_cases (ctx : OperationContext) (req : OperationRequest) (strict : env.Strict) : (runStages env ctx req).refuses ∨
    (runStages env ctx req = .continue_ ∧ (parseStage req).1.isContinue ∧
      (validateStage (parseStage req).2).isContinue ∧ (authorizeStage ctx (parseStage req).2).isContinue) := by
  obtain ⟨parse, validate, authorize, -⟩ := strict
  unfold runStages
  cases front : env.parse with
  | some result =>
    have refuses := parse result front
    cases result with
    | continue_ => cases refuses
    | _ => exact .inl refuses
  | none =>
    dsimp only
    have plain := parseStage_plain req
    cases first : (parseStage req).1 with
    | continue_ =>
      dsimp only
      rcases gate_cases validate (validateStage_plain (parseStage req).2) with refused | ⟨passed, second⟩
      · cases given : env.validate.getD (validateStage (parseStage req).2) with
        | continue_ =>
          rw [given] at refused
          cases refused
        | _ =>
          rw [given] at refused
          exact .inl refused
      · rw [passed]
        exact (gate_cases authorize (authorizeStage_plain ctx (parseStage req).2)).imp_right
          fun last => ⟨last.1, rfl, second, last.2⟩
    | shortCircuit response =>
      rw [first] at plain
      exact .inl (plain.resolve_left Bool.false_ne_true)
    | error e => exact .inl rfl

/-- **A success has run all stages**, behind middlewares that only refuse. -/
theorem ran_of_success (strict : env.Strict) (success : (runPipeline config env ctx req).success) :
    Ran config env ctx req := by
  unfold runPipeline at success
  rcases runStages_cases ctx req strict with refused | ⟨passed, parsed, validated, authorized⟩
  · cases result : runStages env ctx req with
    | continue_ =>
      rw [result] at refused
      cases refused
    | shortCircuit response =>
      rw [result] at refused success
      rw [PipelineResult.refuses, success] at refused
      cases refused
    | error e =>
      rw [result] at success
      cases success
  · rw [passed] at success
    refine ⟨parsed, validated, authorized, ?_⟩
    cases done : executeWithRetry config env ctx req with
    | error e =>
      rw [done] at success
      cases success
    | ok status => rw [executeFrom_strict strict.2.2.2 done]

end

end NovaRuntime.Executor
