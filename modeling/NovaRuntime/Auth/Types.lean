/-
# NovaRuntime.Auth.Types — users, keys, sessions and the brute-force detector

`nova_auth::types`, `brute_force`, `session` and the store of `mfa`. Maps with one entry
for each key are lists in the order of insertion; where the code looks for an identifier,
identifiers are drawn at random and at most one entry has it. A `Clock` is one reading of
the two clocks the code has: nanoseconds of `Instant::now()`, and milliseconds of
`Utc::now()`. Cryptography and encodings are in `Extern`.
-/
import NovaRuntime.Library.Json

namespace NovaRuntime.Auth

open NovaRuntime.Library

set_option autoImplicit false

abbrev Uuid := BitVec 128

structure Extern where
  sha256 : Bytes → Bytes
  /-- `bcrypt::hash` with the salt it draws. -/
  bcryptHash : Bytes → Nat → Text → Text
  bcryptVerify : Text → Text → Bool
  /-- `URL_SAFE_NO_PAD`. -/
  base64Url : Bytes → Text
  base64UrlDecode : Text → Option Bytes
  /-- `STANDARD_NO_PAD`. -/
  base64Standard : Bytes → Text
  /-- `serde_json::from_slice`; an object has each name once. -/
  parseJson : Bytes → Option Json
  /-- `Uuid::parse_str`. -/
  parseUuid : Text → Option Uuid

structure Clock where
  instant : Nat
  millis : Int
  deriving DecidableEq

structure AuthConfig where
  sessionTtlSecs : Nat := 86400
  maxActiveSessions : Nat := 100
  mfaIssuer : Text := "Nova Runtime".toList
  mfaWindow : Nat := 1
  bcryptCost : Nat := 12
  maxFailedAttempts : Nat := 5
  lockoutDurationSecs : Nat := 900
  enableBruteForceDetection : Bool := true
  deriving DecidableEq

inductive AuthError where
  | authenticationFailed (message : Text)
  | invalidCredentials (message : Text)
  | sessionExpired (message : Text)
  | sessionNotFound (message : Text)
  | tokenInvalid (message : Text)
  | tokenExpired (message : Text)
  | rateLimited (remainingMs : Nat)
  | providerNotFound (name : Text)
  | invalidArgument (message : Text)
  | internal (message : Text)
  deriving DecidableEq

structure UserRecord where
  id : Uuid
  username : Text
  passwordHash : Text
  roles : List Text
  createdAt : Int
  updatedAt : Int
  deriving DecidableEq

structure ApiKeyRecord where
  id : Uuid
  name : Text
  keyHash : Text
  keyPrefix : Text
  permissions : List Text
  createdAt : Int
  expiresAt : Option Int
  enabled : Bool
  deriving DecidableEq

/-- The credentials of a call: a map from names. -/
abbrev Credentials := List (String × Text)

def Credentials.get (credentials : Credentials) (name : String) : Option Text := credentials.lookup name

/-! ## Sessions -/

structure Session where
  id : Uuid
  userId : Uuid
  username : Text
  token : Text
  roles : List Text
  permissions : List Text
  createdAt : Int
  expiresAt : Int
  lastActivityAt : Int
  revoked : Bool
  mfaVerified : Bool
  deriving DecidableEq

namespace Session

def isExpired (s : Session) (now : Int) : Bool := s.expiresAt ≤ now

def isValid (s : Session) (now : Int) : Bool := !s.revoked && !s.isExpired now

end Session

/-- The sessions by their tokens. -/
abbrev Sessions := List Session

namespace Sessions

variable (sessions : Sessions)

def find (token : Text) : Option Session := sessions.find? fun s => s.token == token

def insert (session : Session) : Sessions := sessions.filter (fun s => s.token != session.token) ++ [session]

def getSession (now : Int) (token : Text) : Except AuthError Session :=
  match sessions.find token with
  | none => .error (.sessionNotFound "session not found".toList)
  | some session =>
    if session.isExpired now then .error (.sessionExpired "session has expired".toList)
    else if session.revoked then .error (.sessionNotFound "session has been revoked".toList)
    else .ok session

/-- The session of a token, changed. -/
def update (token : Text) (f : Session → Session) : Sessions :=
  sessions.map fun s => if s.token = token then f s else s

def revokeSession (token : Text) : Sessions := sessions.update token fun s => { s with revoked := true }

def touchSession (now : Int) (token : Text) : Sessions :=
  sessions.update token fun s => { s with lastActivityAt := now }

def revokeUserSessions (userId : Uuid) : Sessions := sessions.filter fun s => s.userId != userId

def activeSessionCount (now : Int) (userId : Uuid) : Nat :=
  sessions.countP fun s => s.userId == userId && s.isValid now

def cleanupExpired (now : Int) : Sessions := sessions.filter fun s => !(s.isExpired now || s.revoked)

end Sessions

/-! ## The brute-force detector -/

/-- The instants of the failures of an identifier, the earliest first, and the instant its
lock ends. -/
structure BruteForceDetector where
  attempts : Text → List Nat
  locked : Text → Option Nat

namespace BruteForceDetector

def seconds (n : Nat) : Nat := n * 1000000000

/-- Five minutes. -/
def window : Nat := seconds 300

variable (d : BruteForceDetector)

def new : BruteForceDetector := ⟨fun _ => [], fun _ => none⟩

/-- The failures in front that left the window are taken out. -/
def prune (now : Nat) (attempts : List Nat) : List Nat := attempts.dropWhile fun t => window < now - t

def setAttempts (identifier : Text) (attempts : List Nat) : BruteForceDetector :=
  { d with attempts := fun name => if name = identifier then attempts else d.attempts name }

def setLocked (identifier : Text) (until_ : Option Nat) : BruteForceDetector :=
  { d with locked := fun name => if name = identifier then until_ else d.locked name }

def recordFailure (config : AuthConfig) (now : Nat) (identifier : Text) : BruteForceDetector :=
  let attempts := prune now (d.attempts identifier ++ [now])
  let after := d.setAttempts identifier attempts
  if attempts.length ≥ config.maxFailedAttempts then
    after.setLocked identifier (some (now + seconds config.lockoutDurationSecs))
  else after

def recordSuccess (identifier : Text) : BruteForceDetector :=
  (d.setAttempts identifier []).setLocked identifier none

/-- Whether the identifier is locked; a lock that has ended is cleaned up. -/
def isLocked (now : Nat) (identifier : Text) : Bool × BruteForceDetector :=
  match d.locked identifier with
  | none => (false, d)
  | some until_ => if now < until_ then (true, d) else (false, d.recordSuccess identifier)

def remainingLockoutMs (now : Nat) (identifier : Text) : Nat :=
  (d.locked identifier).elim 0 fun until_ => (until_ - now) / 1000000

def cleanup (now : Nat) : BruteForceDetector where
  attempts name := prune now (d.attempts name)
  locked name := (d.locked name).filter fun until_ => now < until_

end BruteForceDetector

/-! ## The second factor -/

/-- `format!("{:06}", n)` for numbers of six digits. -/
def sixDigits (n : Nat) : Text :=
  [100000, 10000, 1000, 100, 10, 1].map fun place => Nat.digitChar (n / place % 10)

/-- A number of 64 bits, the high byte first. -/
def beBytes (n : Int) : Bytes :=
  (List.range 8).reverse.map fun i => UInt8.ofNat ((n % 18446744073709551616).toNat / 256 ^ i)

/-- `generate_code`; a digest has 32 bytes. -/
def generateCode (X : Extern) (secret : Bytes) (timeStep : Int) : Text :=
  let hash := X.sha256 (secret ++ beBytes timeStep)
  let byte (i : Nat) : Nat := (hash.getD i 0).toNat
  let offset := byte (hash.length - 1) % 16
  sixDigits ((byte offset % 128 * 16777216 + byte (offset + 1) * 65536 + byte (offset + 2) * 256 +
    byte (offset + 3)) % 1000000)

/-- `MfaProvider::verify_code`: the steps in the window around the present one. -/
def verifyCode (X : Extern) (mfaWindow : Nat) (now : Int) (secret : Bytes) (code : Text) : Bool :=
  let window := max mfaWindow 1
  (List.range (2 * window + 1)).any fun i =>
    generateCode X secret (now / 1000 / 30 + ((i : Int) - (window : Int))) == code

abbrev MfaStore := List (Uuid × Bytes)

namespace MfaStore

variable (store : MfaStore)

def enableMfa (userId : Uuid) (secret : Bytes) : MfaStore := (userId, secret) :: store.filter fun e => e.1 != userId

def hasMfa (userId : Uuid) : Bool := store.any fun e => e.1 == userId

def verifyCode (X : Extern) (mfaWindow : Nat) (now : Int) (userId : Uuid) (code : Text) : Bool :=
  (store.lookup userId).any fun secret => Auth.verifyCode X mfaWindow now secret code

end MfaStore

end NovaRuntime.Auth
