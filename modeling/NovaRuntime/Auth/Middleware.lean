/-
# NovaRuntime.Auth.Middleware — the stage of the pipeline that asks for a session

`AuthMiddleware` of `nova_auth`, in front of the rest of the pipeline. It reads the sessions
of the manager itself: `validate_session` is not called, and no session is touched. The
entry that it makes in the metadata of the context is left out.
-/
import NovaRuntime.Auth.Manager
import NovaRuntime.Executor.Types

namespace NovaRuntime.Auth

open NovaRuntime.Library NovaRuntime.Executor

set_option autoImplicit false

/-- `strip_prefix("Bearer ")`, or the text itself. -/
def stripBearer (t : Text) : Text := if "Bearer ".toList.isPrefixOf t then t.drop 7 else t

def textParam (req : OperationRequest) (name : String) : Option Text := (req.params.lookup name).bind Json.asText

def extractToken (req : OperationRequest) : Option Text :=
  (((textParam req "authorization").map stripBearer).or (textParam req "token")).or (textParam req "session_id")

/-- Whether a session is asked for. -/
def guarded : OperationTarget → Bool
  | .auth _ => false
  | .admin _ => false
  | .system => false
  | _ => true

namespace Session

def context (s : Session) (ctx : OperationContext) : OperationContext :=
  { ctx with userSession := some ⟨s.userId, s.username, s.roles, s.permissions, s.id⟩ }

end Session

/-- The context that `next` is called with, or the response that cuts the pipeline short. -/
def pass (config : AuthConfig) (sessions : Sessions) (now : Int) (ctx : OperationContext) (req : OperationRequest) :
    Except OperationResponse OperationContext :=
  if config.maxActiveSessions = 0 then
    .error (.ofCode .internalError "auth disabled: max_active_sessions is 0".toList)
  else if guarded req.target then
    match extractToken req with
    | none => .error (.ofCode .authenticationError "missing authentication token".toList)
    | some token =>
      match sessions.getSession now token with
      | .ok session => .ok (session.context ctx)
      | .error _ => .error (.ofCode .authenticationError "invalid or expired session".toList)
  else .ok ctx

section

variable {config : AuthConfig} {sessions : Sessions} {now : Int} {ctx : OperationContext} {req : OperationRequest}

/-- **A guarded request is admitted for its token alone.** -/
theorem pass_guarded (asked : guarded req.target) :
    (∃ ctx', pass config sessions now ctx req = .ok ctx') ↔
      config.maxActiveSessions ≠ 0 ∧
        ∃ token session, extractToken req = some token ∧ sessions.getSession now token = .ok session := by
  rw [pass, asked, if_pos rfl]
  by_cases disabled : config.maxActiveSessions = 0
  · rw [if_pos disabled]
    exact iff_of_false (by rintro ⟨_, ⟨⟩⟩) fun enabled => enabled.1 disabled
  rw [if_neg disabled, and_iff_right disabled]
  cases extractToken req with
  | none => exact iff_of_false (by rintro ⟨_, ⟨⟩⟩) (by rintro ⟨_, _, ⟨⟩, _⟩)
  | some token =>
    dsimp only
    cases known : sessions.getSession now token with
    | ok session => exact iff_of_true ⟨_, rfl⟩ ⟨token, session, rfl, known⟩
    | error e =>
      refine iff_of_false (by rintro ⟨_, ⟨⟩⟩) ?_
      rintro ⟨_, _, ⟨⟩, found⟩
      rw [known] at found
      cases found

end

end NovaRuntime.Auth
