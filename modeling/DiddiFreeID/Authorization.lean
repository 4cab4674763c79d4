/-
# Who may do what

The dependencies of `core/auth_deps.py` and the routes of
`presentation/users_router.py` and `presentation/admin_router.py`, each up to
the command or query it calls (`Route.handle`): a handler runs exactly if its
dependencies let the caller through. `require_admin` and
`require_service_or_admin` read the account of the token again, so whatever
the token says, the one who acts is an active admin of the store at that
moment, or a service (`ByAdmin`, `ByService`); and what the command records
as `changed_by` is that admin, or nobody for a service.

Key definitions: `requireAdmin`, `requireServiceOrAdmin`, `Route.handle`.
Key theorems: `Route.handle_admin`, `Route.handle_service`, `privileged`.
-/
import DiddiFreeID.AccessTokens
import DiddiFreeID.Effects
import DiddiFreeID.ListUsers
import DiddiFreeID.Queries

namespace DiddiFreeID

open Transact

/-! ### Errors -/

def tokenMissing : ApiError :=
  { statusCode := 401, code := "TOKEN_MISSING", message := [.text "Authentification requise."] }

def serviceTokenNotAllowed : ApiError :=
  { statusCode := 403
    code := "SERVICE_TOKEN_NOT_ALLOWED"
    message := [.text "Cette route attend un utilisateur, pas un service."] }

def userNotVerified : ApiError :=
  { statusCode := 403
    code := "USER_NOT_VERIFIED"
    message := [.text "Ce compte n'a pas terminé sa vérification."] }

def subMalformed : ApiError :=
  { statusCode := 401
    code := "TOKEN_INVALID"
    message := [.text "Claim `sub` absent ou malformé."] }

def tokenUserNotFound : ApiError :=
  { statusCode := 401, code := "TOKEN_INVALID", message := [.text "Utilisateur introuvable."] }

def accountNotActive : ApiError :=
  { statusCode := 403, code := "USER_SUSPENDED", message := [.text "Ce compte n'est pas actif."] }

def forbiddenRole (text : String) : ApiError :=
  { statusCode := 403, code := "FORBIDDEN_ROLE", message := [.text text] }

def serviceKeyInvalid : ApiError :=
  { statusCode := 401
    code := "SERVICE_KEY_INVALID"
    message := [.text "Clé de service inconnue."] }

/-! ### Dependencies -/

/-- The credentials of a request: the header `X-Service-Key` and the token of
the bearer scheme. -/
structure Credentials where
  serviceKey : Option String := none
  bearer : Option String := none
  deriving DecidableEq, Repr

/-- `service_api_key_set`, for the text of `SERVICE_API_KEYS`. -/
def serviceApiKeySet (serviceApiKeys : String) : List String :=
  (((serviceApiKeys.toList.splitOn ',').map strip).filter fun key => key ≠ []).map String.ofList

example : serviceApiKeySet " k1,, k2 " = ["k1", "k2"] := by decide

variable (S : Env) (T : TokenService)

def getClaims (c : Credentials) (now : Time) : Except Refusal Claims :=
  match c.bearer with
  | none => .error (.api tokenMissing)
  | some token =>
    if token = "" then .error (.api tokenMissing) else T.decodeAccessToken S token now

/-- `UUID(claims["sub"])`. -/
def subject (claims : Claims) : Except Refusal Uuid :=
  match claims.lookup "sub" with
  | none => .error (.api subMalformed)
  | some (.str sub) =>
    match uuidOf sub with
    | some id => .ok id
    | none => .error (.api subMalformed)
  | some _ => .error .uncaught

def getCurrentUserId (claims : Claims) : Except Refusal Uuid :=
  if Json.isText serviceRole (claims.lookup "role") then .error (.api serviceTokenNotAllowed)
  else
    match claims.lookup "status" with
    | some (.str status) =>
      if status ∈ sessionAllowedStatuses.map UserStatus.value then subject claims
      else if status = UserStatus.suspended.value then .error (.api userSuspended)
      else .error (.api userNotVerified)
    | some (.arr _) => .error .uncaught -- not hashable, like the next
    | some (.obj _) => .error .uncaught
    | _ => .error (.api userNotVerified)

/-- The account of a token, read again: an active admin. -/
def activeAdmin (forbidden : String) : Option User → Except Refusal User
  | none => .error (.api tokenUserNotFound)
  | some user =>
    if user.status ≠ .active then .error (.api accountNotActive)
    else if user.role ≠ .admin then .error (.api (forbiddenRole forbidden))
    else .ok user

def requireAdmin (c : Credentials) (now : Time) (d : Db) : Except Refusal User := do
  let claims ← getClaims S T c now
  let userId ← getCurrentUserId claims
  activeAdmin "Rôle insuffisant pour cette action." (d.findById userId)

/-- The acting admin's id, or `none` for a service. -/
def requireServiceOrAdmin (serviceApiKeys : String) (c : Credentials) (now : Time) (d : Db) :
    Except Refusal (Option Uuid) :=
  match c.serviceKey with
  | some key =>
    let keys := serviceApiKeySet serviceApiKeys
    if keys ≠ [] ∧ key ∈ keys then .ok none else .error (.api serviceKeyInvalid)
  | none => do
    let claims ← getClaims S T c now
    if Json.isText serviceRole (claims.lookup "role") then .ok none
    else
      let userId ← subject claims
      let user ← activeAdmin
        ("Cette route est réservée aux appels service-à-service et " ++ "aux administrateurs.")
        (d.findById userId)
      return some user.id

/-! ### Routes -/

/-- A route of the two routers, with its path, query and body. -/
inductive Route
  | me
  | updateMe (fullName : Option String)
  | backfill (since : Time) (page pageSize : ℤ)
  | getUser (userId : Uuid)
  | changeRole (userId : Uuid) (role : String) (reason : Option String)
  | listUsers (role status : Option String) (pendingKyc : Bool) (page pageSize : ℤ)
  | changeStatus (userId : Uuid) (status : String) (reason : Option String)
  | decideKyc (userId : Uuid) (approved : Bool) (reason : Option String)
  deriving DecidableEq, Repr

/-- What a handler calls. -/
inductive Invocation
  | command (r : Request)
  | query (q : Query)
  | listUsers (q : ListUsers)
  deriving DecidableEq, Repr

namespace Route

/-- Guarded by `require_admin`. -/
def forAdmins : Route → Bool
  | listUsers .. | changeStatus .. | decideKyc .. => true
  | _ => false

/-- Guarded by `require_service_or_admin`. -/
def forServices : Route → Bool
  | backfill .. | getUser _ | changeRole .. => true
  | _ => false

variable (serviceApiKeys : String) (c : Credentials) (checked now : Time) (d : Db)

/-- A request for the route, its token checked at the instant `checked`: what
the handler calls at `now`, if it runs. -/
def handle : Route → Except Refusal Invocation
  | me => do
    let claims ← getClaims S T c checked
    let userId ← getCurrentUserId claims
    return .query (.getCurrentUserProfile ⟨userId⟩)
  | updateMe fullName => do
    let claims ← getClaims S T c checked
    let userId ← getCurrentUserId claims
    return .command (.updateProfile ⟨userId, fullName, now⟩)
  | backfill since page pageSize => do
    let _ ← requireServiceOrAdmin S T serviceApiKeys c checked d
    return .listUsers { createdSince := some since, page := page, pageSize := pageSize }
  | getUser userId => do
    let _ ← requireServiceOrAdmin S T serviceApiKeys c checked d
    return .query (.getUserById ⟨userId⟩)
  | changeRole userId role reason => do
    let caller ← requireServiceOrAdmin S T serviceApiKeys c checked d
    return .command (.changeRole ⟨userId, role, reason, caller, now⟩)
  | listUsers role status pendingKyc page pageSize => do
    let _ ← requireAdmin S T c checked d
    return .listUsers
      { role := role, status := status, pendingKyc := pendingKyc, page := page,
        pageSize := pageSize }
  | changeStatus userId status reason => do
    let admin ← requireAdmin S T c checked d
    return .command (.changeStatus ⟨userId, status, reason, some admin.id, now⟩)
  | decideKyc userId approved reason => do
    let admin ← requireAdmin S T c checked d
    return .command (.decideKyc ⟨userId, approved, reason, some admin.id, now⟩)

end Route

/-! ### Authority -/

/-- The bearer token is verified and names the account `id`, which is an
active admin in `d`. -/
def ByAdmin (c : Credentials) (checked : Time) (d : Db) (id : Uuid) : Prop :=
  ∃ token claims sub user, c.bearer = some token ∧ T.Verified S token checked claims ∧
    claims.lookup "sub" = some (.str sub) ∧ uuidOf sub = some id ∧ d.findById id = some user ∧
    user.status = .active ∧ user.role = .admin

/-- The header `X-Service-Key` is a configured key, not the empty one; or
without that header the bearer token is verified and its role is `service`. -/
def ByService (serviceApiKeys : String) (c : Credentials) (checked : Time) : Prop :=
  (∃ key, c.serviceKey = some key ∧ key ≠ "" ∧ key ∈ serviceApiKeySet serviceApiKeys) ∨
  (c.serviceKey = none ∧ ∃ token claims, c.bearer = some token ∧
    T.decodeAccessToken S token checked = .ok claims ∧ T.Verified S token checked claims ∧
    claims.lookup "role" = some (.str serviceRole))

variable {S T} {serviceApiKeys : String} {c : Credentials} {checked now : Time} {d : Db}

theorem Except.exists_of_bind {ε α β : Type} {x : Except ε α} {f : α → Except ε β} {b : β}
    (h : (x >>= f) = .ok b) : ∃ a, x = .ok a ∧ f a = .ok b := by
  cases x with
  | error e => cases h
  | ok a => exact ⟨a, rfl, h⟩

theorem ne_empty_of_mem_keys {key : String} (h : key ∈ serviceApiKeySet serviceApiKeys) :
    key ≠ "" := by
  obtain ⟨chars, hm, rfl⟩ := List.mem_map.mp h
  have hne : chars ≠ [] := by simpa using (List.mem_filter.mp hm).2
  simpa using hne

theorem getClaims_ok {claims : Claims} (h : getClaims S T c checked = .ok claims) :
    ∃ token, c.bearer = some token ∧ T.decodeAccessToken S token checked = .ok claims := by
  unfold getClaims at h
  cases hb : c.bearer with
  | none =>
    rw [hb] at h
    cases h
  | some token =>
    rw [hb] at h
    dsimp only at h
    split_ifs at h
    exact ⟨token, rfl, h⟩

theorem subject_ok {claims : Claims} {id : Uuid} (h : subject claims = .ok id) :
    ∃ sub, claims.lookup "sub" = some (.str sub) ∧ uuidOf sub = some id := by
  unfold subject at h
  split at h
  · cases h
  · rename_i sub hsub
    split at h
    · rename_i id' hid
      injection h with h
      subst h
      exact ⟨sub, hsub, hid⟩
    · cases h
  · cases h

theorem getCurrentUserId_ok {claims : Claims} {id : Uuid} (h : getCurrentUserId claims = .ok id) :
    subject claims = .ok id := by
  unfold getCurrentUserId at h
  split_ifs at h
  split at h
  · split_ifs at h
    exact h
  all_goals cases h

theorem activeAdmin_ok {forbidden : String} {row : Option User} {user : User}
    (h : activeAdmin forbidden row = .ok user) :
    row = some user ∧ user.status = .active ∧ user.role = .admin := by
  cases row with
  | none => cases h
  | some row =>
    unfold activeAdmin at h
    dsimp only at h
    split_ifs at h with hst hrole
    obtain rfl := Except.ok.inj h
    exact ⟨rfl, not_not.mp hst, not_not.mp hrole⟩

theorem byAdmin_of_ok {claims : Claims} {forbidden : String} {id : Uuid} {user : User}
    (hc : getClaims S T c checked = .ok claims) (hid : subject claims = .ok id)
    (h : activeAdmin forbidden (d.findById id) = .ok user) : ByAdmin S T c checked d user.id := by
  obtain ⟨token, hb, hdecode⟩ := getClaims_ok hc
  obtain ⟨sub, hsub, huuid⟩ := subject_ok hid
  obtain ⟨hrow, hst, hrole⟩ := activeAdmin_ok h
  have huser := (Db.mem_of_findById hrow).2
  exact ⟨token, claims, sub, user, hb, TokenService.verified_of_decode hdecode, hsub,
    by rw [huuid, huser], by rw [huser, hrow], hst, hrole⟩

theorem requireAdmin_ok {user : User} (h : requireAdmin S T c checked d = .ok user) :
    ByAdmin S T c checked d user.id := by
  obtain ⟨claims, hc, h⟩ := Except.exists_of_bind h
  obtain ⟨id, hid, h⟩ := Except.exists_of_bind h
  exact byAdmin_of_ok hc (getCurrentUserId_ok hid) h

/-- Whom `require_service_or_admin` lets through: a service, or else an
active admin. -/
theorem requireServiceOrAdmin_ok {caller : Option Uuid}
    (h : requireServiceOrAdmin S T serviceApiKeys c checked d = .ok caller) :
    (caller = none ↔ ByService S T serviceApiKeys c checked) ∧
      ∀ id, caller = some id → ByAdmin S T c checked d id := by
  unfold requireServiceOrAdmin at h
  cases hk : c.serviceKey with
  | some key =>
    rw [hk] at h
    dsimp only at h
    split_ifs at h with hin
    obtain rfl := Except.ok.inj h
    have hservice : ByService S T serviceApiKeys c checked :=
      .inl ⟨key, hk, ne_empty_of_mem_keys hin.2, hin.2⟩
    exact ⟨⟨fun _ => hservice, fun _ => rfl⟩, fun id hid => (nomatch hid)⟩
  | none =>
    rw [hk] at h
    obtain ⟨claims, hc, h⟩ := Except.exists_of_bind h
    obtain ⟨token, hb, hdecode⟩ := getClaims_ok hc
    by_cases hrole : Json.isText serviceRole (claims.lookup "role") = true
    · rw [if_pos hrole] at h
      obtain rfl := Except.ok.inj h
      have hservice : ByService S T serviceApiKeys c checked :=
        .inr ⟨hk, token, claims, hb, hdecode, TokenService.verified_of_decode hdecode,
          Json.isText_iff.mp hrole⟩
      exact ⟨⟨fun _ => hservice, fun _ => rfl⟩, fun id hid => (nomatch hid)⟩
    · rw [if_neg hrole] at h
      obtain ⟨id, hid, h⟩ := Except.exists_of_bind h
      obtain ⟨user, huser, h⟩ := Except.exists_of_bind h
      obtain rfl := Except.ok.inj h
      refine ⟨⟨fun hn => (nomatch hn), fun hservice => ?_⟩, ?_⟩
      · -- the token decoded is the one whose role is not `service`
        rcases hservice with ⟨key, hkey, -⟩ | ⟨-, token', claims', hb', hdecode', -, hrole'⟩
        · rw [hk] at hkey
          cases hkey
        · obtain rfl := Option.some.inj (hb.symm.trans hb')
          obtain rfl := Except.ok.inj (hdecode.symm.trans hdecode')
          exact absurd (Json.isText_iff.mpr hrole') hrole
      · rintro _ ⟨⟩
        exact byAdmin_of_ok hc hid huser

/-! ### What is recorded -/

/-- Whom a request records as `changed_by`. -/
def Request.changedBy : Request → Option Uuid
  | changeRole q => q.changedBy
  | decideKyc q => q.decidedBy
  | changeStatus q => q.changedBy
  | _ => none

namespace Route

variable {i : Invocation}

theorem handle_admin {route : Route} (hr : route.forAdmins = true)
    (h : route.handle S T serviceApiKeys c checked now d = .ok i) :
    ∃ id, ByAdmin S T c checked d id ∧ ∀ r, i = .command r → r.changedBy = some id := by
  cases route with
  | listUsers | changeStatus | decideKyc =>
    obtain ⟨user, huser, h⟩ := Except.exists_of_bind h
    obtain rfl := Except.ok.inj h
    exact ⟨user.id, requireAdmin_ok huser, by rintro _ ⟨⟩ <;> rfl⟩
  | _ => cases hr

theorem handle_service {route : Route} (hr : route.forServices = true)
    (h : route.handle S T serviceApiKeys c checked now d = .ok i) :
    ∃ caller, (caller = none ↔ ByService S T serviceApiKeys c checked) ∧
      (∀ id, caller = some id → ByAdmin S T c checked d id) ∧
      ∀ r, i = .command r → r.changedBy = caller := by
  cases route with
  | backfill | getUser | changeRole =>
    obtain ⟨caller, hcaller, h⟩ := Except.exists_of_bind h
    obtain rfl := Except.ok.inj h
    obtain ⟨hnone, hsome⟩ := requireServiceOrAdmin_ok hcaller
    exact ⟨caller, hnone, hsome, by rintro _ ⟨⟩ <;> rfl⟩
  | _ => cases hr

/-- No route registers an account. -/
theorem handle_fresh {route : Route} {r : Request}
    (h : route.handle S T serviceApiKeys c checked now d = .ok (.command r)) : r.Fresh d := by
  cases route with
  | me | updateMe =>
    obtain ⟨claims, -, h⟩ := Except.exists_of_bind h
    obtain ⟨id, -, h⟩ := Except.exists_of_bind h
    cases Except.ok.inj h <;> trivial
  | _ =>
    obtain ⟨_, -, h⟩ := Except.exists_of_bind h
    cases Except.ok.inj h <;> trivial

end Route

/-- An entry's audit rows name whom the request records. -/
theorem Writes.changedBy {user : User} {r : Request} {o : Except Failure Response} {e : Entry}
    (h : Writes S user r o e) :
    (∀ row ∈ e.statusRows, row.changedBy = r.changedBy) ∧
      ∀ row ∈ e.roleRows, row.changedBy = r.changedBy := by
  cases h with
  | rename => simp
  | verify => simp [VerifyOtp.activationRow, Request.changedBy]
  | request => simp [ChangeRole.requestRow, Request.changedBy]
  | grant => simp [ChangeRole.grantRow, Request.changedBy]
  | decide =>
    refine ⟨fun row hrow => ?_, by simp [DecideKyc.decisionRow, Request.changedBy]⟩
    dsimp only at hrow
    split_ifs at hrow
    · rw [List.mem_singleton.mp hrow]
      rfl
    · cases hrow
  | transit => simp [ChangeStatus.transitionRow, Request.changedBy]

/-- Every audit row that `w'` has on top of those of `w` names `changedBy`. -/
structure Audited (w w' : World) (changedBy : Option Uuid) : Prop where
  status : ∃ rows, w'.db.statusHistory = w.db.statusHistory ++ rows ∧
    ∀ row ∈ rows, row.changedBy = changedBy
  role : ∃ rows, w'.db.roleHistory = w.db.roleHistory ++ rows ∧
    ∀ row ∈ rows, row.changedBy = changedBy

theorem World.audited_after {w : World} {r : Request} (hids : (w.db.users.map User.id).Nodup)
    (hf : r.Fresh w.db) : Audited w (w.after S r) r.changedBy := by
  have hsame : ∀ {l : Ledger}, (w.after S r).ledger = l → l.statusHistory = w.ledger.statusHistory →
      l.roleHistory = w.ledger.roleHistory → Audited w (w.after S r) r.changedBy := by
    rintro _ rfl hs hr
    exact ⟨⟨[], hs.trans (List.append_nil _).symm, by simp⟩,
      ⟨[], hr.trans (List.append_nil _).symm, by simp⟩⟩
  rcases World.after_cases (S := S) hids hf with h | ⟨q, phone, rfl, h⟩ | ⟨user, e, -, he, h⟩
  · exact hsame h rfl rfl
  · exact hsame h rfl rfl
  · obtain ⟨hs, hr⟩ := he.changedBy
    exact ⟨⟨e.statusRows, congrArg Ledger.statusHistory h, hs⟩,
      ⟨e.roleRows, congrArg Ledger.roleHistory h, hr⟩⟩

/-! ### Tokens issued -/

/-- The access token of an answer. -/
def Response.accessToken : Response → Option AccessToken
  | authenticated accessToken _ _ => some accessToken
  | tokenPair accessToken _ => some accessToken
  | _ => none

theorem UserRole.value_ne_serviceRole (role : UserRole) : role.value ≠ serviceRole := by
  cases role <;> decide

/-- A login or a rotation answers with a token for the role of the account,
which is never `service`. -/
theorem World.accessToken_role {w : World} {r : Request} (hids : (w.db.users.map User.id).Nodup)
    (hr : (∃ q, r = .verifyOtp q) ∨ ∃ q, r = .refreshAccessToken q) {a : Response}
    (ha : w.answer S r = .ok a) {t : AccessToken} (ht : a.accessToken = some t) :
    t.role ≠ serviceRole := by
  rw [World.answer_eq hids] at ha
  rcases hr with ⟨q, rfl⟩ | ⟨q, rfl⟩
  · rw [Request.effect] at ha
    rcases q.effect_cases S w.db w.outside with ⟨⟨e, he⟩, -⟩ | ⟨phone, otp, user, -, ho⟩
    · rw [he] at ha
      cases ha
    · rw [ho.outcome] at ha
      cases ha
      cases ht
      exact UserRole.value_ne_serviceRole _
  · rw [Request.effect] at ha
    rcases q.effect_cases S w.db w.outside with ⟨e, he, -⟩ | ⟨stored, -, -, he⟩ |
      ⟨stored, user, -, -, -, -, -, he⟩
    · rw [he] at ha
      cases ha
    · rw [he] at ha
      cases ha
    · rw [he] at ha
      cases ha
      cases ht
      exact UserRole.value_ne_serviceRole _

/-- **Who may do what.** In every store a service reaches, for every text of
`SERVICE_API_KEYS` and every credentials: the handlers of `/admin` run only
for an account that is an active admin of that store, the handlers for
services only for such an account or for a service; the audit rows they add
name that admin, or nobody exactly if the caller was a service. And no token
that a login or a rotation issued in the run has the role `service`. -/
theorem privileged {rs : List Request} (h : Legal S Anything rs) (T : TokenService)
    (serviceApiKeys : String) (c : Credentials) (checked now : Time) :
    (∀ (route : Route) (i : Invocation), route.forAdmins = true →
      route.handle S T serviceApiKeys c checked now (served S rs).db = .ok i →
        ∃ id, ByAdmin S T c checked (served S rs).db id ∧
          ∀ r, i = .command r → Audited (served S rs) ((served S rs).after S r) (some id)) ∧
    (∀ (route : Route) (i : Invocation), route.forServices = true →
      route.handle S T serviceApiKeys c checked now (served S rs).db = .ok i →
        ∃ caller, (caller = none ↔ ByService S T serviceApiKeys c checked) ∧
          (∀ id, caller = some id → ByAdmin S T c checked (served S rs).db id) ∧
          ∀ r, i = .command r → Audited (served S rs) ((served S rs).after S r) caller) ∧
    ∀ before r later, rs = before ++ r :: later →
      ((∃ q, r = .verifyOtp q) ∨ ∃ q, r = .refreshAccessToken q) →
        ∀ a t, (served S before).answer S r = .ok a → a.accessToken = some t →
          t.role ≠ serviceRole := by
  have hids := h.wellFormed.ids
  refine ⟨fun route i hr hi => ?_, fun route i hr hi => ?_, ?_⟩
  · obtain ⟨id, hadmin, hby⟩ := Route.handle_admin hr hi
    refine ⟨id, hadmin, ?_⟩
    rintro r rfl
    rw [← hby r rfl]
    exact World.audited_after hids (Route.handle_fresh hi)
  · obtain ⟨caller, hnone, hsome, hby⟩ := Route.handle_service hr hi
    refine ⟨caller, hnone, hsome, ?_⟩
    rintro r rfl
    rw [← hby r rfl]
    exact World.audited_after hids (Route.handle_fresh hi)
  · rintro before r later rfl hr a t ha ht
    exact World.accessToken_role h.of_append.wellFormed.ids hr ha ht

/-- A ring of one key, and a library that meets one token: account 7's, signed
with that key and good for fifteen minutes. -/
def plainTokens : TokenService :=
  { jwt :=
      { getUnverifiedHeader := fun _ => .ok [("kid", .str "dev-2026-07-01")]
        decode := fun token _ _ issuer _ now =>
          if token = "token-of-7" then
            if now < minutes 15 then
              .ok [("sub", .str "00000000-0000-0000-0000-000000000007"), ("role", .str "user"),
                ("status", .str "active"), ("iss", .str issuer), ("iat", .int 0), ("exp", .int 900)]
            else .error (.expiredSignature "Signature has expired")
          else .error (.invalidToken "Signature verification failed") }
    keyRing :=
      { activeKid := "dev-2026-07-01"
        privatePem := "private"
        publicKeys := [⟨"dev-2026-07-01", "public"⟩] } }

/-- A user logs in and is made an admin: the token still says `user`, and the
handler runs for the admin that the account is. -/
theorem privileged_admin :
    let rs : List Request :=
      [.registerUser ⟨"+22507000001", none, 0, 7⟩,
        .requestOtp ⟨"+22507000001", none, 1, 8, 123456⟩,
        .verifyOtp ⟨"+22507000001", "123456", none, 2, 9, "r"⟩,
        .changeRole ⟨7, "admin", none, none, 3⟩]
    let suspend : ChangeStatus := ⟨7, "suspended", none, some 7, 5⟩
    ∃ id, ByAdmin plainEnv plainTokens ⟨none, some "token-of-7"⟩ 4 (served plainEnv rs).db id ∧
      Audited (served plainEnv rs) ((served plainEnv rs).after plainEnv (.changeStatus suspend))
        (some id) := by
  intro rs suspend
  have hl : Legal plainEnv Anything rs := legal_of_forall (by decide +kernel)
  have hi : (Route.changeStatus 7 "suspended" none).handle plainEnv plainTokens ""
      ⟨none, some "token-of-7"⟩ 4 5 (served plainEnv rs).db =
        .ok (.command (.changeStatus suspend)) := by
    decide +kernel
  obtain ⟨id, hadmin, haudit⟩ := (privileged hl plainTokens "" ⟨none, some "token-of-7"⟩ 4 5).1 _ _
    rfl hi
  exact ⟨id, hadmin, haudit _ rfl⟩

end DiddiFreeID
