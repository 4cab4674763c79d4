/-
# The commands

The nine commands of `application/commands/`, each the program of the
repository calls its `__call__` makes, in the source's order. A request
carries what the caller sends and what the handler draws: the clock
(`now`), new ids, the new refresh token, the new code. Every error is the
source's, text and details included.

`VerifyOtp.call` and `ChangeRole.call` are cut at the source's branches
(`VerifyOtp.reject`, `VerifyOtp.accept`, `ChangeRole.request`,
`ChangeRole.grant`, ...); the other commands are one block each.
-/
import DiddiFreeID.Store
import Mathlib.Algebra.Group.Nat.Defs

namespace DiddiFreeID

open Transact

/-! ### Repositories -/

def raiseError (e : ApiError) : Cmd Response := .raise (.api e)

/-- Lift a pure check. -/
def check {α : Type} : Except ApiError α → Cmd α
  | .ok a => .ret a
  | .error e => .raise (.api e)

def findById (id : Uuid) : Cmd (Option User) := .ask (Call.findById id)

def findByPhone (phone : String) : Cmd (Option User) := .ask (Call.findByPhone phone)

/-- `users.save`; a refused insert is an exception of the database. -/
def saveUser (u : User) (now : Time) : Cmd Unit := do
  let saved ← (.ask (Call.saveUser u now) : Cmd Bool)
  if saved then .ret () else .raise .database

def recordStatusChange (c : UserStatusChange) : Cmd Unit := .ask (Call.recordStatusChange c)

def recordRoleChange (c : UserRoleChange) : Cmd Unit := .ask (Call.recordRoleChange c)

def saveOtp (o : OtpCode) : Cmd Unit := .ask (Call.saveOtp o)

def findLatestActive (phone : String) : Cmd (Option OtpCode) := .ask (Call.findLatestActive phone)

/-- `otps.register_attempt`; `scalar_one` raises without a row, the statement where
the counter is full. -/
def registerAttempt (id : Uuid) : Cmd ℤ := do
  let some attempts ← (.ask (Call.registerAttempt id) : Cmd (Option ℤ)) | .raise .database
  .ret attempts

def markConsumed (id : Uuid) (now : Time) : Cmd Unit := .ask (Call.markConsumed id now)

def saveToken (t : RefreshToken) : Cmd Unit := .ask (Call.saveToken t)

def findByHash (hash : String) : Cmd (Option RefreshToken) := .ask (Call.findByHash hash)

def revoke (id : Uuid) (now : Time) : Cmd Unit := .ask (Call.revoke id now)

/-- `refresh_tokens.revoke_all_for_user`: the statement picks its rows, then
writes them. -/
def revokeAllForUser (userId : Uuid) (now : Time) : Cmd ℕ := do
  let ids ← (.ask (Call.liveTokens userId) : Cmd (List Uuid))
  .ask (Call.revokeThese ids now)

def commit : Cmd Unit := .ask Call.commit

def invalidateUser (id : Uuid) : Cmd Unit := .ask (Call.invalidateUser id)

def publish (e : DomainEvent) : Cmd Unit := .ask (Call.publish e)

section Bind

variable {α : Type}

/-! Under a bind each of these is the call it makes. -/

@[simp] theorem raiseError_eq (e : ApiError) : raiseError e = .raise (.api e) := rfl

@[simp] theorem check_ok_bind {β : Type} (a : β) (f : β → Cmd α) :
    check (.ok a) >>= f = f a := rfl

@[simp] theorem check_error_bind {β : Type} (e : ApiError) (f : β → Cmd α) :
    check (.error e) >>= f = .raise (.api e) := rfl

@[simp] theorem findById_bind (id : Uuid) (f : Option User → Cmd α) :
    findById id >>= f = .call (.findById id) f := rfl

@[simp] theorem findByPhone_bind (phone : String) (f : Option User → Cmd α) :
    findByPhone phone >>= f = .call (.findByPhone phone) f := rfl

@[simp] theorem saveUser_bind (u : User) (now : Time) (f : Unit → Cmd α) :
    saveUser u now >>= f =
      .call (.saveUser u now) fun saved : Bool => if saved then f () else .raise .database := by
  simp only [saveUser, Prog.ask_bind, Prog.call_bind, Prog.ite_bind]
  rfl

@[simp] theorem recordStatusChange_bind (c : UserStatusChange) (f : Unit → Cmd α) :
    recordStatusChange c >>= f = .call (.recordStatusChange c) f := rfl

@[simp] theorem recordRoleChange_bind (c : UserRoleChange) (f : Unit → Cmd α) :
    recordRoleChange c >>= f = .call (.recordRoleChange c) f := rfl

@[simp] theorem saveOtp_bind (o : OtpCode) (f : Unit → Cmd α) :
    saveOtp o >>= f = .call (.saveOtp o) f := rfl

@[simp] theorem findLatestActive_bind (phone : String) (f : Option OtpCode → Cmd α) :
    findLatestActive phone >>= f = .call (.findLatestActive phone) f := rfl

@[simp] theorem registerAttempt_bind (id : Uuid) (f : ℤ → Cmd α) :
    registerAttempt id >>= f = .call (.registerAttempt id) fun attempts : Option ℤ =>
      attempts.elim (.raise .database) f := by
  simp only [registerAttempt, Prog.ask_bind, Prog.call_bind]
  congr 1
  funext attempts
  cases attempts <;> rfl

@[simp] theorem markConsumed_bind (id : Uuid) (now : Time) (f : Unit → Cmd α) :
    markConsumed id now >>= f = .call (.markConsumed id now) f := rfl

@[simp] theorem saveToken_bind (t : RefreshToken) (f : Unit → Cmd α) :
    saveToken t >>= f = .call (.saveToken t) f := rfl

@[simp] theorem findByHash_bind (hash : String) (f : Option RefreshToken → Cmd α) :
    findByHash hash >>= f = .call (.findByHash hash) f := rfl

@[simp] theorem revoke_bind (id : Uuid) (now : Time) (f : Unit → Cmd α) :
    revoke id now >>= f = .call (.revoke id now) f := rfl

@[simp] theorem revokeAllForUser_bind (userId : Uuid) (now : Time) (f : ℕ → Cmd α) :
    revokeAllForUser userId now >>= f =
      .call (.liveTokens userId) fun ids : List Uuid => .call (.revokeThese ids now) f := rfl

@[simp] theorem commit_bind (f : Unit → Cmd α) : commit >>= f = .call .commit f := rfl

@[simp] theorem invalidateUser_bind (id : Uuid) (f : Unit → Cmd α) :
    invalidateUser id >>= f = .call (.invalidateUser id) f := rfl

@[simp] theorem publish_bind (e : DomainEvent) (f : Unit → Cmd α) :
    publish e >>= f = .call (.publish e) f := rfl

end Bind

/-! ### RegisterUser -/

def phoneAlreadyRegistered : ApiError :=
  { statusCode := 409
    code := "PHONE_ALREADY_REGISTERED"
    message := [.text "Ce numéro est déjà enregistré."] }

structure RegisterUser where
  phone : String
  fullName : Option String
  now : Time
  newId : Uuid
  deriving DecidableEq, Repr

/-- The account `RegisterUser` creates. -/
def RegisterUser.newUser (q : RegisterUser) (phone : String) : User :=
  { id := q.newId
    phone := phone
    fullName := orElse q.fullName none
    role := .user
    status := .pendingVerification
    createdAt := some q.now }

def RegisterUser.call (q : RegisterUser) : Cmd Response := do
  let phone ← check (validatePhone q.phone)
  match ← findByPhone phone with
  | some _ => raiseError phoneAlreadyRegistered
  | none =>
    let user := q.newUser phone
    saveUser user q.now
    commit
    return .registered user.id user.phone user.status

/-! ### RequestOtp -/

def ipRequestsPerWindow : ℕ := 10

def ipWindowSeconds : ℤ := 600

def otpRateLimitedIp (retryAfter : ℤ) : ApiError :=
  { statusCode := 429
    code := "OTP_RATE_LIMITED"
    message := [.text "Trop de demandes depuis cette adresse. Réessayez plus tard."]
    details := some [("retry_after_seconds", .int retryAfter)] }

def otpRateLimitedPhone (remaining : ℤ) : ApiError :=
  { statusCode := 429
    code := "OTP_RATE_LIMITED"
    message := [.text "Veuillez attendre avant de redemander un code."]
    details := some [("retry_after_seconds", .int remaining)] }

/-- `RedisOtpRateLimiter.hit_ip`, Redis answering. -/
def hitIp (ip : String) (now : Time) : Cmd Bool := do
  if ip = "" then return true
  let count ← (.ask (Call.incrIp ip now) : Cmd ℕ)
  if count = 1 then
    (.ask (Call.expireIp ip ipWindowSeconds now) : Cmd Unit)
  return decide (count ≤ ipRequestsPerWindow)

/-- `RedisOtpRateLimiter.seconds_until_phone_allowed`, Redis answering. -/
def secondsUntilPhoneAllowed (phone : String) (cooldown : ℤ) (now : Time) : Cmd ℤ :=
  if cooldown ≤ 0 then .ret 0
  else do
    let ttl ← (.ask (Call.cooldownTtl phone now) : Cmd ℤ)
    return max ttl 0

/-- `RedisOtpRateLimiter.mark_phone_sent`, Redis answering. -/
def markPhoneSent (phone : String) (cooldown : ℤ) (now : Time) : Cmd Unit :=
  if cooldown ≤ 0 then .ret () else .ask (Call.armCooldown phone cooldown now)

/-- `f"{n:06d}"` for a draw below a million. -/
def sixDigits (n : ℕ) : String :=
  String.ofList ((List.range 6).reverse.map fun k => Char.ofNat (48 + n / 10 ^ k % 10))

instance RequestOtp.neZero_draws : @NeZero ℕ Zero.ofOfNat0 1000000 :=
  @Nat.instNeZeroSucc 999999

structure RequestOtp where
  phone : String
  clientIp : Option String
  now : Time
  newId : Uuid
  draw : Fin 1000000
  deriving DecidableEq, Repr

variable (S : Env)

/-- The code row `RequestOtp` stores. -/
def RequestOtp.newOtp (q : RequestOtp) (phone : String) : OtpCode :=
  { id := q.newId
    phone := phone
    codeHash := hashOtpCode S (sixDigits q.draw)
    expiresAt := q.now + seconds S.settings.otpCodeLifetimeSeconds
    createdAt := q.now }

/-- What follows the limiter: the code, the SMS, the cooldown, the same
answer for every number. -/
def RequestOtp.issue (q : RequestOtp) (phone : String) : Cmd Response := do
  match ← findByPhone phone with
  | some _ =>
    saveOtp (q.newOtp S phone)
    commit
    (.ask (Call.send phone (sixDigits q.draw)) : Cmd Unit)
  | none => .ret ()
  markPhoneSent phone S.settings.otpRateLimitSeconds q.now
  return .otpSent S.settings.otpCodeLifetimeSeconds S.settings.otpRateLimitSeconds

def RequestOtp.call (q : RequestOtp) : Cmd Response := do
  let phone ← check (validatePhone q.phone)
  let allowed ← match q.clientIp with
    | some ip => hitIp ip q.now
    | none => .ret true
  if allowed then
    let remaining ← secondsUntilPhoneAllowed phone S.settings.otpRateLimitSeconds q.now
    if remaining > 0 then raiseError (otpRateLimitedPhone remaining)
    else q.issue S phone
  else raiseError (otpRateLimitedIp S.settings.otpRateLimitSeconds)

/-! ### VerifyOtp -/

def otpInvalid (details : Option (List (String × Detail))) : ApiError :=
  { statusCode := 400
    code := "OTP_INVALID"
    message := [.text "Le code OTP est invalide."]
    details := details }

def otpExpired : ApiError :=
  { statusCode := 410, code := "OTP_EXPIRED", message := [.text "Le code OTP a expiré."] }

def otpTooManyAttempts (attempts : ℤ) : ApiError :=
  { statusCode := 429
    code := "OTP_TOO_MANY_ATTEMPTS"
    message := [.text "Trop de tentatives. Demandez un nouveau code."]
    details := some [("attempts", .int attempts)] }

def noAccountForPhone : ApiError :=
  { statusCode := 404
    code := "USER_NOT_FOUND"
    message := [.text "Aucun compte n'est associé à ce numéro."] }

def userSuspended : ApiError :=
  { statusCode := 403, code := "USER_SUSPENDED", message := [.text "Ce compte est suspendu."] }

structure VerifyOtp where
  phone : String
  code : String
  deviceInfo : Option String
  now : Time
  newTokenId : Uuid
  newRefresh : String
  deriving DecidableEq, Repr

namespace VerifyOtp

/-- A wrong code: count it, burn the row at the ceiling. -/
def reject (q : VerifyOtp) (otp : OtpCode) : Cmd Response := do
  let attempts ← registerAttempt otp.id
  if S.settings.otpMaxAttempts ≤ attempts then
    markConsumed otp.id q.now
    commit
    raiseError (otpTooManyAttempts attempts)
  else
    commit
    raiseError (otpInvalid
      (some [("attempts_remaining", .int (S.settings.otpMaxAttempts - attempts))]))

/-- The session's refresh token. -/
def newToken (q : VerifyOtp) (user : User) : RefreshToken :=
  { id := q.newTokenId
    userId := user.id
    tokenHash := hashRefreshToken S q.newRefresh
    deviceInfo := q.deviceInfo
    expiresAt := refreshExpiry S q.now
    createdAt := q.now }

/-- What `VerifyOtp` answers for the account it read or activated. -/
def answer (q : VerifyOtp) (user : User) : Response :=
  .authenticated (issueAccessToken S user.id user.role.value user.status.value q.now) q.newRefresh
    (profilePayload user)

/-- The session of the account, and `user.registered` if it is its first. -/
def openSession (q : VerifyOtp) (user : User) (firstVerification : Bool) : Cmd Response := do
  saveToken (q.newToken S user)
  commit
  invalidateUser user.id
  if firstVerification then
    publish (.userRegistered user.id user.phone user.role q.now)
  return q.answer S user

/-- The account as its first verification leaves it. -/
def activated (user : User) : User :=
  { user with status := if user.requestedRole.isSome then .pendingKyc else .active }

@[simp] theorem activated_id (user : User) : (activated user).id = user.id := rfl

@[simp] theorem activated_phone (user : User) : (activated user).phone = user.phone := rfl

@[simp] theorem activated_role (user : User) : (activated user).role = user.role := rfl

@[simp] theorem activated_requestedRole (user : User) :
    (activated user).requestedRole = user.requestedRole := rfl

/-- The history row of a first verification. -/
def activationRow (q : VerifyOtp) (user : User) : UserStatusChange :=
  { userId := user.id
    fromStatus := some .pendingVerification
    toStatus := user.status
    reason := some "Vérification OTP"
    changedBy := none
    changedAt := q.now }

/-- The right code: consume it, then open a session. -/
def accept (q : VerifyOtp) (otp : OtpCode) (phone : String) : Cmd Response := do
  markConsumed otp.id q.now
  match ← findByPhone phone with
  | none => raiseError noAccountForPhone
  | some user =>
    if user.status = .suspended then raiseError userSuspended
    else if user.status = .pendingVerification then
      let user := activated user
      saveUser user q.now
      recordStatusChange (q.activationRow user)
      q.openSession S user true
    else q.openSession S user false

def call (q : VerifyOtp) : Cmd Response := do
  let phone ← check (validatePhone q.phone)
  match ← findLatestActive phone with
  | none => raiseError (otpInvalid none)
  | some otp =>
    if otp.isExpired q.now then raiseError otpExpired
    else if !verifyOtpCode S q.code otp.codeHash then q.reject S otp
    else q.accept S otp phone

end VerifyOtp

/-! ### RefreshAccessToken -/

def refreshTokenInvalid : ApiError :=
  { statusCode := 401
    code := "REFRESH_TOKEN_INVALID"
    message := [.text "Le refresh token est invalide."] }

def refreshTokenExpired : ApiError :=
  { statusCode := 401
    code := "REFRESH_TOKEN_INVALID"
    message := [.text "Le refresh token a expiré."] }

def refreshTokenRevoked : ApiError :=
  { statusCode := 401
    code := "REFRESH_TOKEN_REVOKED"
    message := [.text ("Ce refresh token a déjà été utilisé. " ++
      "Toutes les sessions ont été fermées par sécurité.")] }

def userNotActive : ApiError :=
  { statusCode := 403, code := "USER_SUSPENDED", message := [.text "Ce compte n'est plus actif."] }

structure RefreshAccessToken where
  refreshToken : String
  deviceInfo : Option String
  now : Time
  newTokenId : Uuid
  newRefresh : String
  deriving DecidableEq, Repr

namespace RefreshAccessToken

/-- The token that takes the place of `stored`. -/
def newToken (q : RefreshAccessToken) (stored : RefreshToken) (user : User) : RefreshToken :=
  { id := q.newTokenId
    userId := user.id
    tokenHash := hashRefreshToken S q.newRefresh
    deviceInfo := orElse q.deviceInfo stored.deviceInfo
    expiresAt := refreshExpiry S q.now
    createdAt := q.now }

def answer (q : RefreshAccessToken) (user : User) : Response :=
  .tokenPair (issueAccessToken S user.id user.role.value user.status.value q.now) q.newRefresh

def call (q : RefreshAccessToken) : Cmd Response := do
  match ← findByHash (hashRefreshToken S q.refreshToken) with
  | none => raiseError refreshTokenInvalid
  | some stored =>
    if stored.revokedAt.isSome then
      -- a rotated token comes back: every session of the user is closed
      let _ ← revokeAllForUser stored.userId q.now
      commit
      raiseError refreshTokenRevoked
    else if stored.expiresAt ≤ q.now then raiseError refreshTokenExpired
    else
      match ← findById stored.userId with
      | none => raiseError refreshTokenInvalid
      | some user =>
        if user.status ∉ sessionAllowedStatuses then raiseError userNotActive
        else
          revoke stored.id q.now
          saveToken (q.newToken S stored user)
          commit
          return q.answer S user

end RefreshAccessToken

/-! ### Logout -/

structure Logout where
  refreshToken : String
  allDevices : Bool
  now : Time
  deriving DecidableEq, Repr

def Logout.call (q : Logout) : Cmd Response := do
  match ← findByHash (hashRefreshToken S q.refreshToken) with
  | none => return .noContent
  | some stored =>
    if q.allDevices then
      let _ ← revokeAllForUser stored.userId q.now
      commit
      return .noContent
    else
      revoke stored.id q.now
      commit
      return .noContent

/-! ### UpdateProfile -/

def userNotFound : ApiError :=
  { statusCode := 404
    code := "USER_NOT_FOUND"
    message := [.text "Aucun utilisateur trouvé avec cet identifiant."] }

structure UpdateProfile where
  userId : Uuid
  fullName : Option String
  now : Time
  deriving DecidableEq, Repr

def UpdateProfile.call (q : UpdateProfile) : Cmd Response := do
  match ← findById q.userId with
  | none => raiseError userNotFound
  | some user =>
    if q.fullName.isSome ∧ q.fullName ≠ user.fullName then
      let user := { user with fullName := q.fullName }
      saveUser user q.now
      commit
      invalidateUser user.id
      publish (.userUpdated user.id user.phone user.role q.now ["full_name"])
      return .profile (profilePayload user)
    else return .profile (profilePayload user)

/-! ### ChangeRole -/

/-- `', '.join(...)` over the values of an enumeration. -/
def joined (values : List String) : String := String.intercalate ", " values

def invalidRole (role : String) : ApiError :=
  { statusCode := 422
    code := "INVALID_ROLE"
    message := [.text "Rôle inconnu : ", .quoted role, .text ". Valeurs acceptées : ",
      .text (joined (UserRole.all.map UserRole.value)), .text "."]
    details := some [("field", .text "role")] }

structure ChangeRole where
  userId : Uuid
  role : String
  reason : Option String
  changedBy : Option Uuid
  now : Time
  deriving DecidableEq, Repr

namespace ChangeRole

/-- The history row of a request. -/
def requestRow (q : ChangeRole) (user : User) (targetRole : UserRole) : UserRoleChange :=
  { userId := user.id
    fromRole := some user.role
    toRole := none
    requestedRole := some targetRole
    reason := q.reason
    changedBy := q.changedBy
    changedAt := q.now }

/-- A role under KYC is only requested. -/
def request (q : ChangeRole) (user : User) (targetRole : UserRole) : Cmd Response := do
  if user.requestedRole = some targetRole then return .profile (profilePayload user)
  else
    let asked := { user with requestedRole := some targetRole }
    saveUser asked q.now
    recordRoleChange (q.requestRow user targetRole)
    commit
    invalidateUser user.id
    publish (.userUpdated user.id user.phone user.role q.now ["requested_role"])
    return .profile (profilePayload asked)

/-- The history row of a direct grant. -/
def grantRow (q : ChangeRole) (user : User) (targetRole : UserRole) : UserRoleChange :=
  { userId := user.id
    fromRole := some user.role
    toRole := some targetRole
    reason := q.reason
    changedBy := q.changedBy
    changedAt := q.now }

/-- Any other role is granted at once, and settles a pending request. -/
def grant (q : ChangeRole) (user : User) (targetRole : UserRole) : Cmd Response := do
  if user.role = targetRole then return .profile (profilePayload user)
  else
    let granted := { user with role := targetRole, requestedRole := none }
    saveUser granted q.now
    recordRoleChange (q.grantRow user targetRole)
    commit
    invalidateUser user.id
    publish (.userRoleChanged user.id user.phone targetRole q.now user.role targetRole)
    return .profile (profilePayload granted)

def call (q : ChangeRole) : Cmd Response := do
  match UserRole.ofValue q.role with
  | none => raiseError (invalidRole q.role)
  | some targetRole =>
    match ← findById q.userId with
    | none => raiseError userNotFound
    | some user =>
      if user.needsKycFor targetRole then q.request user targetRole
      else q.grant user targetRole

end ChangeRole

/-! ### DecideKyc -/

def noKycPending : ApiError :=
  { statusCode := 409
    code := "NO_KYC_PENDING"
    message := [.text "Aucune demande de rôle en attente pour cet utilisateur."] }

structure DecideKyc where
  userId : Uuid
  approved : Bool
  reason : Option String
  decidedBy : Option Uuid
  now : Time
  deriving DecidableEq, Repr

namespace DecideKyc

/-- The account as the decision on its request for `requested` leaves it. -/
def decided (q : DecideKyc) (user : User) (requested : UserRole) : User :=
  { user with
    requestedRole := none
    role := if q.approved then requested else user.role
    status := if user.status = .pendingKyc then .active else user.status }

/-- The status row, where the decision releases an account from `pending_kyc`. -/
def releaseRow (q : DecideKyc) (user : User) (after : UserStatus) : UserStatusChange :=
  { userId := user.id
    fromStatus := some user.status
    toStatus := after
    reason := orElse q.reason
      (some (if q.approved then "Décision KYC : accordé" else "Décision KYC : refusé"))
    changedBy := q.decidedBy
    changedAt := q.now }

/-- The role row; a refusal grants none. -/
def decisionRow (q : DecideKyc) (user : User) (requested : UserRole) : UserRoleChange :=
  { userId := user.id
    fromRole := some user.role
    toRole := if q.approved then some requested else none
    requestedRole := some requested
    reason := q.reason
    changedBy := q.decidedBy
    changedAt := q.now }

/-- The event: the role granted, or the request gone. -/
def event (q : DecideKyc) (user after : User) : DomainEvent :=
  if q.approved then .userRoleChanged after.id after.phone after.role q.now user.role after.role
  else .userUpdated after.id after.phone after.role q.now ["requested_role"]

def call (q : DecideKyc) : Cmd Response := do
  match ← findById q.userId with
  | none => raiseError userNotFound
  | some user =>
    match user.requestedRole with
    | none => raiseError noKycPending
    | some requested =>
      let after := q.decided user requested
      saveUser after q.now
      if after.status ≠ user.status then
        recordStatusChange (q.releaseRow user after.status)
      recordRoleChange (q.decisionRow user requested)
      commit
      invalidateUser after.id
      publish (q.event user after)
      return .profile (profilePayload after)

end DecideKyc

/-! ### ChangeStatus -/

def invalidStatus (status : String) : ApiError :=
  { statusCode := 422
    code := "INVALID_STATUS"
    message := [.text "Statut inconnu : ", .quoted status, .text ". Valeurs acceptées : ",
      .text (joined (UserStatus.all.map UserStatus.value)), .text "."]
    details := some [("field", .text "status")] }

def statusNotSettable (target : UserStatus) : ApiError :=
  { statusCode := 422
    code := "STATUS_NOT_SETTABLE"
    message := [.text "Le statut ", .quoted target.value,
      .text " n'est pas modifiable par cette route. Valeurs acceptées : ",
      .text (joined (adminSettableStatuses.map UserStatus.value)), .text "."]
    details := some [("field", .text "status")] }

def invalidStatusTransition (current target : UserStatus) : ApiError :=
  { statusCode := 409
    code := "INVALID_STATUS_TRANSITION"
    message := [.text "Transition impossible : ", .text current.value, .text " → ",
      .text target.value, .text "."]
    details := some [("from_status", .text current.value), ("to_status", .text target.value)] }

structure ChangeStatus where
  userId : Uuid
  status : String
  reason : Option String
  changedBy : Option Uuid
  now : Time
  deriving DecidableEq, Repr

namespace ChangeStatus

/-- The history row of a transition. -/
def transitionRow (q : ChangeStatus) (user : User) (target : UserStatus) : UserStatusChange :=
  { userId := user.id
    fromStatus := some user.status
    toStatus := target
    reason := q.reason
    changedBy := q.changedBy
    changedAt := q.now }

/-- The commit and what follows it. -/
def finish (q : ChangeStatus) (user : User) (target : UserStatus) : Cmd Response := do
  commit
  invalidateUser user.id
  publish (.userStatusChanged user.id user.phone user.role q.now user.status target q.reason)
  return .profile (profilePayload { user with status := target })

def call (q : ChangeStatus) : Cmd Response := do
  match UserStatus.ofValue q.status with
  | none => raiseError (invalidStatus q.status)
  | some target =>
    if target ∉ adminSettableStatuses then raiseError (statusNotSettable target)
    else
      match ← findById q.userId with
      | none => raiseError userNotFound
      | some user =>
        if !canTransition user.status target then
          raiseError (invalidStatusTransition user.status target)
        else
          saveUser { user with status := target } q.now
          recordStatusChange (q.transitionRow user target)
          if target = .suspended then
            -- the sessions are closed in the same transaction
            let _ ← revokeAllForUser user.id q.now
            q.finish user target
          else q.finish user target

end ChangeStatus

/-! ### Requests -/

/-- A request to one of the nine commands. -/
inductive Request
  | registerUser (q : RegisterUser)
  | requestOtp (q : RequestOtp)
  | verifyOtp (q : VerifyOtp)
  | refreshAccessToken (q : RefreshAccessToken)
  | logout (q : Logout)
  | updateProfile (q : UpdateProfile)
  | changeRole (q : ChangeRole)
  | decideKyc (q : DecideKyc)
  | changeStatus (q : ChangeStatus)
  deriving DecidableEq, Repr

/-- The program of a request. -/
def Request.prog : Request → Cmd Response
  | registerUser q => q.call
  | requestOtp q => q.call S
  | verifyOtp q => q.call S
  | refreshAccessToken q => q.call S
  | logout q => q.call S
  | updateProfile q => q.call
  | changeRole q => q.call
  | decideKyc q => q.call
  | changeStatus q => q.call

/-- Requests in flight, and the store they share. -/
abbrev InFlight (ι : Type) : Type :=
  System Call Call.Resp Failure Response Db Outside Write ι

/-! Two or three of them are numbered from 0. -/

instance InFlight.neZero_two : @NeZero ℕ Zero.ofOfNat0 2 := @Nat.instNeZeroSucc 1

instance InFlight.neZero_three : @NeZero ℕ Zero.ofOfNat0 3 := @Nat.instNeZeroSucc 2

end DiddiFreeID
