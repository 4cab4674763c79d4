/-
# The identity domain

The entities of `domain/entities.py`, the events of
`domain/events/user_events.py`, the published profile of
`application/payloads.py`, the error envelope of `core/errors.py` and the
settings the commands read. Ids are UUIDs drawn by the caller (`uuid4`),
instants are microseconds, and the two digests of `core/security.py` and
`infra/token_service.py` are parameters: nothing here depends on which
functions they are.
-/
import Mathlib.Data.Int.Notation
import Mathlib.Data.List.Basic
import Mathlib.Tactic.Common

namespace DiddiFreeID

abbrev Uuid : Type := ℕ

/-- An instant, in microseconds. -/
abbrev Time : Type := ℤ

/-- `timedelta(seconds=n)`. -/
def seconds (n : ℤ) : ℤ := n * 1000000

/-- `timedelta(minutes=n)`. -/
def minutes (n : ℤ) : ℤ := seconds (n * 60)

/-- `timedelta(days=n)`. -/
def days (n : ℤ) : ℤ := seconds (n * 86400)

/-- `a or b` on optional strings: an empty string counts as missing. -/
def orElse (a b : Option String) : Option String :=
  match a with
  | some s => if s = "" then b else some s
  | none => b

/-! ### Roles and statuses -/

inductive UserRole
  | user | driver | merchant | admin
  deriving DecidableEq, Repr

namespace UserRole

/-- The members, in the order of the class. -/
def all : List UserRole := [user, driver, merchant, admin]

def value : UserRole → String
  | user => "user"
  | driver => "driver"
  | merchant => "merchant"
  | admin => "admin"

/-- `UserRole(role)`; `none` is the `ValueError`. -/
def ofValue (role : String) : Option UserRole := all.find? fun r => r.value = role

end UserRole

/-- Roles handed out only by a KYC decision. -/
def kycRequiredRoles : List UserRole := [.driver, .merchant]

inductive UserStatus
  | pendingVerification | pendingKyc | active | suspended
  deriving DecidableEq, Repr

namespace UserStatus

def all : List UserStatus := [pendingVerification, pendingKyc, active, suspended]

def value : UserStatus → String
  | pendingVerification => "pending_verification"
  | pendingKyc => "pending_kyc"
  | active => "active"
  | suspended => "suspended"

/-- `UserStatus(status)`; `none` is the `ValueError`. -/
def ofValue (status : String) : Option UserStatus := all.find? fun s => s.value = status

end UserStatus

/-- The transitions of the OTP flow, the KYC flow and the admins, in one
table. -/
def allowedStatusTransitions : UserStatus → List UserStatus
  | .pendingVerification => [.active, .pendingKyc, .suspended]
  | .pendingKyc => [.active, .suspended]
  | .active => [.suspended]
  | .suspended => [.active]

/-- Statuses in which a person may still hold a session. -/
def sessionAllowedStatuses : List UserStatus := [.active, .pendingKyc]

/-- Statuses an admin may set directly. -/
def adminSettableStatuses : List UserStatus := [.active, .suspended]

def canTransition (current target : UserStatus) : Bool :=
  decide (target ∈ allowedStatusTransitions current)

@[simp] theorem canTransition_self (s : UserStatus) : canTransition s s = false := by
  cases s <;> rfl

/-- A status that is left is never `pending_verification` again. -/
theorem canTransition_pendingVerification (s : UserStatus) :
    canTransition s .pendingVerification = false := by
  cases s <;> rfl

/-! ### Entities -/

/-- An account, also its row of `identity.users`. -/
structure User where
  id : Uuid
  phone : String
  role : UserRole := .user
  status : UserStatus := .pendingVerification
  fullName : Option String := none
  passwordHash : Option String := none
  /-- The role awaiting a KYC decision. -/
  requestedRole : Option UserRole := none
  createdAt : Option Time := none
  updatedAt : Option Time := none
  deriving DecidableEq, Repr

def User.needsKycFor (u : User) (targetRole : UserRole) : Bool :=
  decide (targetRole ∈ kycRequiredRoles) && decide (u.role ≠ targetRole)

/-- A one-time password, stored as a hash. -/
structure OtpCode where
  id : Uuid
  phone : String
  codeHash : String
  expiresAt : Time
  createdAt : Time
  consumedAt : Option Time := none
  attempts : ℤ := 0
  deriving DecidableEq, Repr

def OtpCode.isExpired (o : OtpCode) (now : Time) : Bool := decide (o.expiresAt ≤ now)

/-- An opaque refresh token, stored as a hash. -/
structure RefreshToken where
  id : Uuid
  userId : Uuid
  tokenHash : String
  expiresAt : Time
  createdAt : Time
  deviceInfo : Option String := none
  revokedAt : Option Time := none
  deriving DecidableEq, Repr

/-- A row of `user_status_history`. -/
structure UserStatusChange where
  userId : Uuid
  toStatus : UserStatus
  changedAt : Time
  fromStatus : Option UserStatus := none
  reason : Option String := none
  changedBy : Option Uuid := none
  deriving DecidableEq, Repr

/-- A row of `user_role_history`; no `toRole` marks a request or a refusal. -/
structure UserRoleChange where
  userId : Uuid
  changedAt : Time
  fromRole : Option UserRole := none
  toRole : Option UserRole := none
  requestedRole : Option UserRole := none
  reason : Option String := none
  changedBy : Option Uuid := none
  deriving DecidableEq, Repr

/-! ### Errors -/

/-- A piece of an f-string: its text, or a value under `!r`. -/
inductive Piece
  | text (s : String)
  | quoted (s : String)
  deriving DecidableEq, Repr

/-- A value of an error's details. -/
inductive Detail
  | text (s : String)
  | int (n : ℤ)
  | texts (l : List String)
  deriving DecidableEq, Repr

structure ApiError where
  statusCode : ℕ
  code : String
  message : List Piece
  details : Option (List (String × Detail)) := none
  deriving DecidableEq, Repr

/-- What a command can raise: an error it names, or an exception of the
database, which no command catches. -/
inductive Failure
  | api (e : ApiError)
  | database
  deriving DecidableEq, Repr

/-! ### What is published -/

/-- The user object of contract §2 (`profile_payload`). -/
structure Profile where
  id : Uuid
  phone : String
  fullName : Option String
  role : UserRole
  status : UserStatus
  requestedRole : Option UserRole
  deriving DecidableEq, Repr

def profilePayload (user : User) : Profile :=
  { id := user.id
    phone := user.phone
    fullName := user.fullName
    role := user.role
    status := user.status
    requestedRole := user.requestedRole }

/-- A domain event. -/
inductive DomainEvent
  | userRegistered (userId : Uuid) (phone : String) (role : UserRole) (stamp : Time)
  | userUpdated (userId : Uuid) (phone : String) (role : UserRole) (stamp : Time)
      (changedFields : List String)
  | userRoleChanged (userId : Uuid) (phone : String) (role : UserRole) (stamp : Time)
      (oldRole newRole : UserRole)
  | userStatusChanged (userId : Uuid) (phone : String) (role : UserRole) (stamp : Time)
      (oldStatus newStatus : UserStatus) (reason : Option String)
  deriving DecidableEq, Repr

namespace DomainEvent

/-- The wire name; a status change that does not suspend renames itself. -/
def name : DomainEvent → String
  | userRegistered .. => "user.registered"
  | userUpdated .. => "user.updated"
  | userRoleChanged .. => "user.role_changed"
  | userStatusChanged _ _ _ _ _ newStatus _ =>
    if newStatus ≠ .suspended then "user.updated" else "user.suspended"

def userId : DomainEvent → Uuid
  | userRegistered id .. => id
  | userUpdated id .. => id
  | userRoleChanged id .. => id
  | userStatusChanged id .. => id

/-- The event is the registration of account `u`. -/
def registers (u : Uuid) (e : DomainEvent) : Bool :=
  decide (e.name = "user.registered") && decide (e.userId = u)

end DomainEvent

/-- How often the account `u` is announced in a stream. -/
def announced (u : Uuid) (l : List DomainEvent) : ℕ := l.countP (DomainEvent.registers u)

/-- An event of another name announces nobody. -/
theorem announced_snoc {u : Uuid} {l : List DomainEvent} {e : DomainEvent}
    (h : e.name ≠ "user.registered") : announced u (l ++ [e]) = announced u l := by
  simp [announced, List.countP_append, DomainEvent.registers, h]

/-! ### Settings and tokens -/

/-- The settings the commands read, with the defaults of `core/settings.py`. -/
structure Settings where
  jwtActiveKid : String := "dev-2026-07-01"
  jwtIssuer : String := "diddifree-id"
  jwtAccessLifetimeMinutes : ℤ := 15
  refreshTokenLifetimeDays : ℤ := 30
  otpCodeLifetimeSeconds : ℤ := 300
  otpRateLimitSeconds : ℤ := 60
  otpMaxAttempts : ℤ := 5
  otpHashPepper : String := "change-me-in-prod-32-characters-minimum"

/-- The settings of a deployment and the digests it uses: HMAC-SHA-256 of a
message under a key and SHA-256, both in hexadecimal. -/
structure Env where
  settings : Settings
  hmacSha256 : String → String → String
  sha256 : String → String

/-- The default settings, with digests one can read. -/
def plainEnv : Env :=
  { settings := {}, hmacSha256 := fun key message => key ++ message, sha256 := id }

variable (S : Env)

def hashOtpCode (code : String) : String := S.hmacSha256 S.settings.otpHashPepper code

def verifyOtpCode (code expectedHash : String) : Bool := hashOtpCode S code == expectedHash

def hashRefreshToken (rawToken : String) : String := S.sha256 rawToken

def refreshExpiry (now : Time) : Time := now + days S.settings.refreshTokenLifetimeDays

/-- A signed access token: its header's `kid` and its claims. -/
structure AccessToken where
  kid : String
  sub : Uuid
  role : String
  status : String
  iss : String
  iat : Time
  exp : Time
  deriving DecidableEq, Repr

def issueAccessToken (userId : Uuid) (role status : String) (now : Time) : AccessToken :=
  { kid := S.settings.jwtActiveKid
    sub := userId
    role := role
    status := status
    iss := S.settings.jwtIssuer
    iat := now
    exp := now + minutes S.settings.jwtAccessLifetimeMinutes }

/-- What a command answers. -/
inductive Response
  | registered (userId : Uuid) (phone : String) (status : UserStatus)
  | otpSent (expiresInSeconds retryAfterSeconds : ℤ)
  | authenticated (accessToken : AccessToken) (refreshToken : String) (user : Profile)
  | tokenPair (accessToken : AccessToken) (refreshToken : String)
  | profile (user : Profile)
  | noContent
  deriving DecidableEq, Repr

end DiddiFreeID
