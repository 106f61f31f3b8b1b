/-
# NovaRuntime.Executor.Types — operations, sessions and responses of the pipeline

`nova_executor::types`. Of a request the modelled stages read the operation, the target, the
payload with its size and three of the options; the parameters are for middlewares
(`Auth.Middleware`). Instants are nanoseconds of one clock. Of the context the stages read
the session, the deadline and the trace.
-/
import NovaRuntime.Library.Json

namespace NovaRuntime.Executor

open NovaRuntime.Library

set_option autoImplicit false

/-! ## Requests -/

inductive OperationType where
  | get | list | create | update | delete | patch | query | search
  | enqueue | dequeue | peek | ack
  | schedule | cancel
  | blobPut | blobGet | blobDelete
  | authenticate | authorize | createToken | revokeToken
  | health | metrics | config | profile | adminAction
  deriving DecidableEq

def OperationType.isMutation : OperationType → Bool
  | .create | .update | .delete | .patch | .enqueue | .dequeue | .ack | .schedule | .cancel
  | .blobPut | .blobDelete | .createToken | .revokeToken | .adminAction => true
  | .get | .list | .query | .search | .peek | .blobGet | .authenticate | .authorize
  | .health | .metrics | .config | .profile => false

inductive OperationTarget where
  | object (typeName : Text) (id : Option (BitVec 128))
  | collection (typeName : Text)
  | queue (name : Text)
  | schedule (taskId : Option (BitVec 128))
  | blob (blobId : Option (BitVec 128))
  | auth (realm : Text)
  | admin (endpoint : Text)
  | system
  deriving DecidableEq

inductive SubsystemId where
  | storage | queue | scheduler | blob | auth | admin | pipeline
  deriving DecidableEq

abbrev IdempotencyKey := BitVec 128

structure OperationOptions where
  idempotencyKey : Option IdempotencyKey := none
  /-- A `Duration`, as nanoseconds. -/
  timeout : Option Nat := none
  maxRetries : UInt8 := 3
  deriving DecidableEq

structure OperationRequest where
  operationType : OperationType
  target : OperationTarget
  params : List (String × Json) := []
  payload : Option Bytes := none
  payloadSize : Nat := 0
  options : OperationOptions := {}

structure UserSession where
  userId : BitVec 128
  username : Text
  roles : List Text
  permissions : List Text
  sessionId : BitVec 128
  deriving DecidableEq

structure OperationContext where
  traceId : BitVec 128
  userSession : Option UserSession
  deadline : Nat
  deriving DecidableEq

def OperationContext.remainingDeadline (ctx : OperationContext) (now : Nat) : Nat := ctx.deadline - now

def OperationContext.isExpired (ctx : OperationContext) (now : Nat) : Bool := ctx.deadline ≤ now

/-! ## Responses -/

inductive ErrorCode where
  | parseError | validationError | authorizationError | authenticationError | notFound | conflict
  | rateLimited | circuitBreakerOpen | deadlineExceeded | cancelled | payloadTooLarge | unprocessable
  | internalError | serviceUnavailable | notImplemented | insufficientStorage
  deriving DecidableEq

inductive StatusCode where
  | ok | created | accepted | noContent
  | badRequest | unauthorized | forbidden | notFound | methodNotAllowed | conflict | gone
  | tooManyRequests | requestTooLarge | unprocessableEntity
  | internalError | notImplemented | serviceUnavailable | gatewayTimeout | insufficientStorage
  | circuitBreakerOpen | deadlineExceeded | cancelled
  deriving DecidableEq

/-- The status of a code, in `OperationResponse::error` and in `build_error_response`. -/
def ErrorCode.status : ErrorCode → StatusCode
  | .parseError => .badRequest
  | .validationError => .unprocessableEntity
  | .authorizationError => .forbidden
  | .authenticationError => .unauthorized
  | .notFound => .notFound
  | .conflict => .conflict
  | .rateLimited => .tooManyRequests
  | .circuitBreakerOpen => .serviceUnavailable
  | .deadlineExceeded => .deadlineExceeded
  | .cancelled => .cancelled
  | .payloadTooLarge => .requestTooLarge
  | .unprocessable => .unprocessableEntity
  | .internalError => .internalError
  | .serviceUnavailable => .serviceUnavailable
  | .notImplemented => .notImplemented
  | .insufficientStorage => .insufficientStorage

/-- What a response tells its caller to try again. -/
def ErrorCode.retryable (code : ErrorCode) : Bool :=
  [ErrorCode.rateLimited, .circuitBreakerOpen, .deadlineExceeded, .serviceUnavailable, .internalError].contains code

/-- What `execute_with_retry` tries again: an internal error is not among it. -/
def ErrorCode.retried (code : ErrorCode) : Bool :=
  [ErrorCode.rateLimited, .circuitBreakerOpen, .deadlineExceeded, .serviceUnavailable].contains code

inductive PipelineStage where
  | parse | validate | authorize | execute | log | notify
  deriving DecidableEq

inductive StageStatus where
  | success | skipped | shortCircuit | error
  deriving DecidableEq

structure ErrorInfo where
  code : ErrorCode
  message : Text
  details : Json
  retryable : Bool
  retryAfterMs : Option Nat

/-- Warnings and stage timings are always empty, and left out. -/
structure OperationResponse where
  status : StatusCode
  success : Bool
  data : Option Json
  dataSize : Nat
  traceId : BitVec 128
  durationNs : Nat
  error : Option ErrorInfo

structure PipelineError where
  code : ErrorCode
  message : Text
  details : Json
  stage : PipelineStage
  retryable : Bool

inductive PipelineResult where
  | continue_
  | shortCircuit (response : OperationResponse)
  | error (error : PipelineError)

/-- `OperationResponse::error`. -/
def OperationResponse.ofCode (code : ErrorCode) (message : Text) : OperationResponse where
  status := code.status
  success := false
  data := none
  dataSize := 0
  traceId := 0
  durationNs := 0
  error := some ⟨code, message, .null, code.retryable, none⟩

/-- `PipelineError::new(..).with_stage(..)`. -/
def PipelineError.at (stage : PipelineStage) (code : ErrorCode) (message : Text) : PipelineError where
  code := code
  message := message
  details := .null
  stage := stage
  retryable := code.retried

end NovaRuntime.Executor
