/-
# NovaRuntime.Auth.Manager — the manager of users, keys and sessions

`AuthManager` of `nova_auth`. What a call draws at random (identifiers, tokens, salts, keys)
and the reading of the clocks come with it. Calls take effect one after the other, and the
locks of the maps are left out.

`authenticate` returns the error of a provider before it records a failure, and no provider
returns without an error unless it succeeds. So nothing is ever recorded in the
brute-force detector, and a call of `authenticate` is the call of its provider
(`authenticate_idle`).
-/
import NovaRuntime.Auth.Providers

namespace NovaRuntime.Auth

open NovaRuntime.Library

set_option autoImplicit false

structure AuthManager where
  /-- The registry, by the names of the providers. -/
  providers : List (Text × Provider)
  users : List UserRecord
  apiKeys : List ApiKeyRecord
  sessions : Sessions
  mfa : MfaStore
  detector : BruteForceDetector

/-- What `authenticate` draws. -/
structure Draw where
  userId : Uuid
  sessionId : Uuid
  bytes : Bytes
  deriving DecidableEq

structure AuthResult where
  session : Session
  userId : Uuid
  username : Text
  roles : List Text
  permissions : List Text
  mfaRequired : Bool
  deriving DecidableEq

def hex (bytes : Bytes) : Text := bytes.flatMap fun b => [Nat.digitChar (b.toNat / 16), Nat.digitChar (b.toNat % 16)]

section

variable (X : Extern) (config : AuthConfig)

def generateSessionToken (bytes : Bytes) : Text := "nova_sess_".toList ++ X.base64Url bytes

/-- The session that `create_session_with_roles` stores. -/
def newSession (clock : Clock) (draw : Draw) (userId : Uuid) (username : Text) (roles permissions : List Text) :
    Session where
  id := draw.sessionId
  userId := userId
  username := username
  token := generateSessionToken X draw.bytes
  roles := roles
  permissions := permissions
  createdAt := clock.millis
  expiresAt := clock.millis + config.sessionTtlSecs * 1000
  lastActivityAt := clock.millis
  revoked := false
  mfaVerified := false

/-- The identifier that the detector counts under. -/
def identifierOf (credentials : Credentials) : Text :=
  ((credentials.get "username").or (credentials.get "api_key")).getD "unknown".toList

namespace AuthManager

variable (m : AuthManager) (clock : Clock)

/-! ## Authentication -/

/-- What follows a result that says success. -/
def succeed (draw : Draw) (credentials : Credentials) (result : ProviderResult) : AuthManager × AuthResult :=
  let userId := result.userId.getD draw.userId
  let username := result.username.getD "unknown".toList
  let session := newSession X config clock draw userId username result.roles result.permissions
  ({ m with
      detector := m.detector.recordSuccess (identifierOf credentials)
      sessions := m.sessions.insert session },
    ⟨if result.mfaRequired then { session with mfaVerified := false } else session, userId, username, result.roles,
      result.permissions, result.mfaRequired⟩)

def authenticate (draw : Draw) (provider : Text) (credentials : Credentials) :
    AuthManager × Except AuthError AuthResult :=
  match m.providers.lookup provider with
  | none => (m, .error (.providerNotFound provider))
  | some provider =>
    let identifier := identifierOf credentials
    let checked :=
      if config.enableBruteForceDetection then m.detector.isLocked clock.instant identifier
      else (false, m.detector)
    let m := { m with detector := checked.2 }
    if checked.1 then
      (m, .error (.rateLimited (m.detector.remainingLockoutMs clock.instant identifier)))
    else
      match provider.authenticate X m.users (clock.millis / 1000) credentials with
      | .error e => (m, .error e)
      | .ok result =>
        if result.success then
          let done := m.succeed X config clock draw credentials result
          (done.1, .ok done.2)
        else
          ({ m with detector := m.detector.recordFailure config clock.instant identifier },
            .error (.authenticationFailed (result.errorMessage.getD "authentication failed".toList)))

/-! ## Sessions and the second factor -/

def validateSession (token : Text) : AuthManager × Except AuthError Session :=
  match m.sessions.getSession clock.millis token with
  | .error e => (m, .error e)
  | .ok session => ({ m with sessions := m.sessions.touchSession clock.millis token }, .ok session)

def revokeSession (token : Text) : AuthManager := { m with sessions := m.sessions.revokeSession token }

def revokeUserSessions (userId : Uuid) : AuthManager := { m with sessions := m.sessions.revokeUserSessions userId }

def cleanupSessions : AuthManager := { m with sessions := m.sessions.cleanupExpired clock.millis }

def cleanupBruteForce : AuthManager := { m with detector := m.detector.cleanup clock.instant }

def enableMfa (userId : Uuid) (secret : Bytes) : AuthManager × Text :=
  ({ m with mfa := m.mfa.enableMfa userId secret },
    "otpauth://totp/".toList ++ config.mfaIssuer ++ ":user?secret=".toList ++ X.base64Standard secret ++
      "&issuer=".toList ++ config.mfaIssuer)

def verifyMfa (userId : Uuid) (code : Text) : Bool :=
  m.mfa.verifyCode X config.mfaWindow clock.millis userId code

/-! ## Users and keys -/

def createUser (id : Uuid) (salt : Bytes) (username password : Text) (roles : List Text) :
    AuthManager × Except AuthError UserRecord :=
  if m.users.any fun u => u.username == username then
    (m, .error (.invalidArgument ("user '".toList ++ username ++ "' already exists".toList)))
  else
    let passwordHash := hashPassword X salt config.bcryptCost password
    if X.bcryptVerify password passwordHash then
      let user : UserRecord := ⟨id, username, passwordHash, roles, clock.millis, clock.millis⟩
      ({ m with users := m.users ++ [user] }, .ok user)
    else (m, .error (.internal "hash verification failed".toList))

def userById (id : Uuid) : Option UserRecord := m.users.find? fun u => u.id == id

def deleteUser (id : Uuid) : AuthManager × Bool :=
  match m.userById id with
  | some user => ({ m with users := m.users.filter fun u => u.username != user.username }, true)
  | none => (m, false)

def changePassword (id : Uuid) (salt : Bytes) (password : Text) : AuthManager × Except AuthError Unit :=
  let passwordHash := hashPassword X salt config.bcryptCost password
  if X.bcryptVerify password passwordHash then
    match m.userById id with
    | some _ =>
      ({ m with users := m.users.map fun u =>
          if u.id = id then { u with passwordHash, updatedAt := clock.millis } else u }, .ok ())
    | none => (m, .error (.invalidArgument "user not found".toList))
  else (m, .error (.internal "hash verification failed".toList))

def apiKeyOf (bytes : Bytes) : Text := "nr_".toList ++ hex (bytes.take 16)

def createApiKey (id : Uuid) (bytes : Bytes) (name : Text) (permissions : List Text) : AuthManager × Text :=
  let key := apiKeyOf bytes
  let record : ApiKeyRecord :=
    ⟨id, name, hex (X.sha256 (utf8 key)), key.take 10, permissions, clock.millis, none, true⟩
  ({ m with apiKeys := m.apiKeys.filter (fun k => k.id != id) ++ [record] }, key)

def revokeApiKey (id : Uuid) : AuthManager := { m with apiKeys := m.apiKeys.filter fun k => k.id != id }

/-! ## Calls -/

inductive Call where
  | authenticate (draw : Draw) (provider : Text) (credentials : Credentials)
  | validateSession (token : Text)
  | revokeSession (token : Text)
  | revokeUserSessions (userId : Uuid)
  | enableMfa (userId : Uuid) (secret : Bytes)
  | verifyMfa (userId : Uuid) (code : Text)
  | cleanupSessions
  | cleanupBruteForce
  | createUser (id : Uuid) (salt : Bytes) (username password : Text) (roles : List Text)
  | deleteUser (id : Uuid)
  | changePassword (id : Uuid) (salt : Bytes) (password : Text)
  | createApiKey (id : Uuid) (bytes : Bytes) (name : Text) (permissions : List Text)
  | revokeApiKey (id : Uuid)
  deriving DecidableEq

/-- The manager after a call. -/
def call : Call → AuthManager
  | .authenticate draw provider credentials => (m.authenticate X config clock draw provider credentials).1
  | .validateSession token => (m.validateSession clock token).1
  | .revokeSession token => m.revokeSession token
  | .revokeUserSessions userId => m.revokeUserSessions userId
  | .enableMfa userId secret => (m.enableMfa X config userId secret).1
  | .verifyMfa _ _ => m
  | .cleanupSessions => m.cleanupSessions clock
  | .cleanupBruteForce => m.cleanupBruteForce clock
  | .createUser id salt username password roles => (m.createUser X config clock id salt username password roles).1
  | .deleteUser id => (m.deleteUser id).1
  | .changePassword id salt password => (m.changePassword X config clock id salt password).1
  | .createApiKey id bytes name permissions => (m.createApiKey X clock id bytes name permissions).1
  | .revokeApiKey id => m.revokeApiKey id

/-- `AuthManager::new` with providers registered. -/
def new (providers : List (Text × Provider)) : AuthManager := ⟨providers, [], [], [], [], .new⟩

end AuthManager

/-! ## The detector is idle -/

theorem BruteForceDetector.isLocked_new (now : Nat) (identifier : Text) :
    BruteForceDetector.new.isLocked now identifier = (false, .new) := rfl

theorem BruteForceDetector.recordSuccess_new (identifier : Text) :
    BruteForceDetector.new.recordSuccess identifier = .new := by
  simp [recordSuccess, setAttempts, setLocked, new]

variable {X config}

namespace AuthManager

variable {m : AuthManager} {clock : Clock}

/-- Nothing is recorded. -/
def Idle (m : AuthManager) : Prop := m.detector = .new

theorem isLocked_idle (idle : m.Idle) (identifier : Text) :
    (if config.enableBruteForceDetection then m.detector.isLocked clock.instant identifier else (false, m.detector)) =
      (false, m.detector) := by
  rw [idle, BruteForceDetector.isLocked_new, ite_self]

/-- An error of a provider leaves the manager as it is. -/
theorem authenticate_error (idle : m.Idle) {draw : Draw} {name : Text} {credentials : Credentials} {provider : Provider}
    {e : AuthError} (registered : m.providers.lookup name = some provider)
    (failed : provider.authenticate X m.users (clock.millis / 1000) credentials = .error e) :
    m.authenticate X config clock draw name credentials = (m, .error e) := by
  rw [authenticate, registered]
  dsimp only
  rw [isLocked_idle idle, failed]
  rfl

/-- **A call of `authenticate` is the call of its provider**, since the detector is idle. -/
theorem authenticate_ok (idle : m.Idle) {draw : Draw} {name : Text} {credentials : Credentials} {provider : Provider}
    {result : ProviderResult} (registered : m.providers.lookup name = some provider)
    (done : provider.authenticate X m.users (clock.millis / 1000) credentials = .ok result) :
    m.authenticate X config clock draw name credentials =
      ((m.succeed X config clock draw credentials result).1,
        .ok (m.succeed X config clock draw credentials result).2) := by
  rw [authenticate, registered]
  dsimp only
  rw [isLocked_idle idle, done]
  dsimp only
  rw [if_neg Bool.false_ne_true, if_pos (authenticate_success provider done).1]

theorem authenticate_none {draw : Draw} {name : Text} {credentials : Credentials}
    (unknown : m.providers.lookup name = none) :
    m.authenticate X config clock draw name credentials = (m, .error (.providerNotFound name)) := by
  rw [authenticate, unknown]

theorem authenticate_cases (X : Extern) (config : AuthConfig) (clock : Clock) (idle : m.Idle) (draw : Draw) (name : Text) (credentials : Credentials) :
    (∃ e, m.authenticate X config clock draw name credentials = (m, .error e)) ∨
      ∃ provider result, m.providers.lookup name = some provider ∧
        provider.authenticate X m.users (clock.millis / 1000) credentials = .ok result ∧
        m.authenticate X config clock draw name credentials =
          ((m.succeed X config clock draw credentials result).1,
            .ok (m.succeed X config clock draw credentials result).2) := by
  cases registered : m.providers.lookup name with
  | none => exact .inl ⟨_, authenticate_none registered⟩
  | some provider =>
    cases done : provider.authenticate X m.users (clock.millis / 1000) credentials with
    | error e => exact .inl ⟨e, authenticate_error idle registered done⟩
    | ok result => exact .inr ⟨provider, result, rfl, done, authenticate_ok idle registered done⟩

theorem succeed_detector (idle : m.Idle) (draw : Draw) (credentials : Credentials) (result : ProviderResult) :
    (m.succeed X config clock draw credentials result).1.Idle := by
  rw [succeed, Idle, idle]
  exact BruteForceDetector.recordSuccess_new _

/-- **No call records anything in the detector.** -/
theorem Idle.call (idle : m.Idle) (c : Call) : (m.call X config clock c).Idle := by
  cases c with
  | authenticate draw name credentials =>
    rcases authenticate_cases X config clock idle draw name credentials with
      ⟨e, failed⟩ | ⟨provider, result, -, -, done⟩
    · rwa [AuthManager.call, failed]
    · rw [AuthManager.call, done]
      exact succeed_detector idle draw credentials result
  | validateSession token =>
    rw [AuthManager.call, validateSession]
    split <;> exact idle
  | cleanupBruteForce =>
    rw [AuthManager.call, cleanupBruteForce, Idle, idle]
    rfl
  | createUser id salt username password roles =>
    rw [AuthManager.call, createUser]
    split
    · exact idle
    · dsimp only
      split <;> exact idle
  | deleteUser id =>
    rw [AuthManager.call, deleteUser]
    split <;> exact idle
  | changePassword id salt password =>
    rw [AuthManager.call, changePassword]
    split
    · split <;> exact idle
    · exact idle
  | _ => exact idle

end AuthManager

end

end NovaRuntime.Auth
