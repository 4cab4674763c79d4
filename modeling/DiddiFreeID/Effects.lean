/-
# Commands as single transactions

Every command commits at most once, and what it does before that depends on
a few rows. So with nobody else in flight a command is a decision on the
rows it reads: its outcome, the writes it commits and what it leaves outside
(`Effect`). The five commands that save an account decide on its row alone
(`Decision`): the entry they make, if any. `Request.run_prog` says that
running a request is its effect; later modules cite it and never run a
program.

Key definitions: `Decision`, `Effect`, `Request.effect`.
Key theorem: `Request.run_prog`.
-/
import DiddiFreeID.Accounts

namespace DiddiFreeID

open Transact

/-! ### More calls of a run -/

section Calls

variable {α : Type} (log : List Write) (d : Db) (x : Outside)

@[simp] theorem run_saveOtp (o : OtpCode) (k : Unit → Cmd α) :
    store.run (.call (.saveOtp o) k) log d x = store.run (k ()) (log ++ [.insertOtp o]) d x := rfl

@[simp] theorem run_findByHash (hash : String) (k : Option RefreshToken → Cmd α) :
    store.run (.call (.findByHash hash) k) log d x =
      store.run (k ((store.view d log).findByHash hash)) log d x := by
  rw [run_call _ _ _ rfl]
  simp only [exec, List.append_nil]

@[simp] theorem run_revoke (id : Uuid) (now : Time) (k : Unit → Cmd α) :
    store.run (.call (.revoke id now) k) log d x =
      store.run (k ()) (log ++ (store.view d log).revocation id now) d x := rfl

theorem run_registerAttempt (id : Uuid) (k : Option ℤ → Cmd α) :
    store.run (.call (.registerAttempt id) k) log d x =
      store.run (k ((store.view d log).nextAttempt id))
        (log ++ (((store.view d log).nextAttempt id).elim [] fun _ => [.bumpAttempts id])) d x := by
  rw [run_call _ _ _ rfl]
  simp only [exec]
  cases (store.view d log).nextAttempt id <;> rfl

@[simp] theorem run_incrIp (ip : String) (now : Time) (k : ℕ → Cmd α) :
    store.run (.call (.incrIp ip now) k) log d x =
      store.run (k ((x.hits ip now).1 + 1)) log d
        (x.setHits ip ((x.hits ip now).1 + 1) (x.hits ip now).2) := by
  rw [run_call _ _ _ rfl]
  simp only [exec, List.append_nil]

@[simp] theorem run_expireIp (ip : String) (window : ℤ) (now : Time) (k : Unit → Cmd α) :
    store.run (.call (.expireIp ip window now) k) log d x =
      store.run (k ()) log d (x.setHits ip (x.hits ip now).1 (some (now + seconds window))) := by
  rw [run_call _ _ _ rfl]
  simp only [exec, List.append_nil]

@[simp] theorem run_cooldownTtl (phone : String) (now : Time) (k : ℤ → Cmd α) :
    store.run (.call (.cooldownTtl phone now) k) log d x =
      store.run (k (x.cooldownTtl phone now)) log d x := by
  rw [run_call _ _ _ rfl]
  simp only [exec, List.append_nil]

@[simp] theorem run_armCooldown (phone : String) (cooldown : ℤ) (now : Time) (k : Unit → Cmd α) :
    store.run (.call (.armCooldown phone cooldown now) k) log d x =
      store.run (k ()) log d (x.armCooldown phone cooldown now) := by
  rw [run_call _ _ _ rfl]
  simp only [exec, List.append_nil]

@[simp] theorem run_send (phone code : String) (k : Unit → Cmd α) :
    store.run (.call (.send phone code) k) log d x =
      store.run (k ()) log d { x with sent := x.sent ++ [(phone, code)] } := by
  rw [run_call _ _ _ rfl]
  simp only [exec, List.append_nil]

end Calls

/-! ### Entries and decisions -/

namespace Entry

/-- The rows of an entry, in the order the commands write them. -/
def writes (e : Entry) : List Write :=
  .updateUser e.user e.now :: (e.statusRows.map .insertStatus ++ e.roleRows.map .insertRole)

/-- What follows the commit of an entry: the cached profile goes, the event
is published. -/
def outside (e : Entry) (x : Outside) : Outside :=
  e.events.foldl Outside.publish (x.invalidateUser e.user.id)

end Entry

/-- What a command decides on the account it read: its answer, and the entry
it makes. -/
structure Decision where
  outcome : Except Failure Response
  entry : Option Entry := none
  deriving DecidableEq

namespace Decision

def refuse (e : ApiError) : Decision := { outcome := .error (.api e) }

def answer (r : Response) : Decision := { outcome := .ok r }

def writes (dec : Decision) : List Write := dec.entry.elim [] Entry.writes

def outside (dec : Decision) (x : Outside) : Outside := dec.entry.elim x fun e => e.outside x

end Decision

def UpdateProfile.decision (q : UpdateProfile) : Option User → Decision
  | none => .refuse userNotFound
  | some user =>
    if q.fullName.isSome ∧ q.fullName ≠ user.fullName then
      { outcome := .ok (.profile (profilePayload { user with fullName := q.fullName }))
        entry := some
          { user := { user with fullName := q.fullName }
            now := q.now
            events := [.userUpdated user.id user.phone user.role q.now ["full_name"]] } }
    else .answer (.profile (profilePayload user))

def ChangeRole.decision (q : ChangeRole) (row : Option User) : Decision :=
  match UserRole.ofValue q.role with
  | none => .refuse (invalidRole q.role)
  | some targetRole =>
    match row with
    | none => .refuse userNotFound
    | some user =>
      if user.needsKycFor targetRole then
        if user.requestedRole = some targetRole then .answer (.profile (profilePayload user))
        else
          { outcome := .ok (.profile (profilePayload { user with requestedRole := some targetRole }))
            entry := some
              { user := { user with requestedRole := some targetRole }
                now := q.now
                roleRows := [q.requestRow user targetRole]
                events := [.userUpdated user.id user.phone user.role q.now ["requested_role"]] } }
      else if user.role = targetRole then .answer (.profile (profilePayload user))
      else
        { outcome := .ok (.profile (profilePayload
            { user with role := targetRole, requestedRole := none }))
          entry := some
            { user := { user with role := targetRole, requestedRole := none }
              now := q.now
              roleRows := [q.grantRow user targetRole]
              events := [.userRoleChanged user.id user.phone targetRole q.now user.role
                targetRole] } }

def DecideKyc.decision (q : DecideKyc) : Option User → Decision
  | none => .refuse userNotFound
  | some user =>
    match user.requestedRole with
    | none => .refuse noKycPending
    | some requested =>
      { outcome := .ok (.profile (profilePayload (q.decided user requested)))
        entry := some
          { user := q.decided user requested
            now := q.now
            statusRows := if (q.decided user requested).status ≠ user.status then
              [q.releaseRow user (q.decided user requested).status] else []
            roleRows := [q.decisionRow user requested]
            events := [q.event user (q.decided user requested)] } }

def ChangeStatus.decision (q : ChangeStatus) (row : Option User) : Decision :=
  match UserStatus.ofValue q.status with
  | none => .refuse (invalidStatus q.status)
  | some target =>
    if target ∉ adminSettableStatuses then .refuse (statusNotSettable target)
    else
      match row with
      | none => .refuse userNotFound
      | some user =>
        if !canTransition user.status target then
          .refuse (invalidStatusTransition user.status target)
        else
          { outcome := .ok (.profile (profilePayload { user with status := target }))
            entry := some
              { user := { user with status := target }
                now := q.now
                statusRows := [q.transitionRow user target]
                events := [.userStatusChanged user.id user.phone user.role q.now user.status target
                  q.reason] } }

variable (S : Env)

/-- The right code, on the account of its phone. -/
def VerifyOtp.decision (q : VerifyOtp) : Option User → Decision
  | none => .refuse noAccountForPhone
  | some user =>
    if user.status = .suspended then .refuse userSuspended
    else if user.status = .pendingVerification then
      { outcome := .ok (q.answer S (activated user))
        entry := some
          { user := activated user
            now := q.now
            statusRows := [q.activationRow (activated user)]
            events := [.userRegistered user.id user.phone user.role q.now] } }
    else .answer (q.answer S user)

/-! ### Effects -/

/-- What a request comes to with nobody else in flight. -/
structure Effect where
  outcome : Except Failure Response
  writes : List Write := []
  outside : Outside

namespace Effect

def refuse (e : ApiError) (x : Outside) : Effect := { outcome := .error (.api e), outside := x }

/-- The effect of a decision. -/
def decided (dec : Decision) (x : Outside) : Effect :=
  { outcome := dec.outcome, writes := dec.writes, outside := dec.outside x }

end Effect

/-- The write of `revoke_all_for_user`. -/
def Db.revocationOfAll (d : Db) (userId : Uuid) (now : Time) : Write :=
  .revokeTokens ((d.liveTokens userId).filter d.isLive) now

variable (d : Db) (x : Outside)

def RegisterUser.effect (q : RegisterUser) : Effect :=
  match validatePhone q.phone with
  | .error e => .refuse e x
  | .ok phone =>
    match d.findByPhone phone with
    | some _ => .refuse phoneAlreadyRegistered x
    | none =>
      { outcome := .ok (.registered q.newId phone .pendingVerification)
        writes := (d.saveUser (q.newUser phone) q.now).2
        outside := x }

namespace RequestOtp

/-- Does the limiter let the address through? -/
def ipAllows (q : RequestOtp) : Bool :=
  match q.clientIp with
  | some ip => decide (ip = "") || decide ((x.hits ip q.now).1 + 1 ≤ ipRequestsPerWindow)
  | none => true

/-- The limiter after the hit of the address. -/
def countIp (q : RequestOtp) : Outside :=
  match q.clientIp with
  | some ip =>
    if ip = "" then x
    else
      let x' := x.setHits ip ((x.hits ip q.now).1 + 1) (x.hits ip q.now).2
      if (x.hits ip q.now).1 + 1 = 1 then
        x'.setHits ip (x'.hits ip q.now).1 (some (q.now + seconds ipWindowSeconds))
      else x'
  | none => x

/-- The seconds the phone has to wait. -/
def wait (phone : String) (q : RequestOtp) : ℤ :=
  if S.settings.otpRateLimitSeconds ≤ 0 then 0 else max (x.cooldownTtl phone q.now) 0

/-- The limiter after the code was asked for. -/
def arm (phone : String) (q : RequestOtp) : Outside :=
  if S.settings.otpRateLimitSeconds ≤ 0 then x
  else x.armCooldown phone S.settings.otpRateLimitSeconds q.now

def effect (q : RequestOtp) : Effect :=
  match validatePhone q.phone with
  | .error e => .refuse e x
  | .ok phone =>
    if q.ipAllows x then
      if 0 < wait S (q.countIp x) phone q then
        .refuse (otpRateLimitedPhone (wait S (q.countIp x) phone q)) (q.countIp x)
      else
        let answer : Response :=
          .otpSent S.settings.otpCodeLifetimeSeconds S.settings.otpRateLimitSeconds
        match d.findByPhone phone with
        | some _ =>
          { outcome := .ok answer
            writes := [.insertOtp (q.newOtp S phone)]
            outside := arm S { q.countIp x with
              sent := (q.countIp x).sent ++ [(phone, sixDigits q.draw)] } phone q }
        | none => { outcome := .ok answer, outside := arm S (q.countIp x) phone q }
    else .refuse (otpRateLimitedIp S.settings.otpRateLimitSeconds) (q.countIp x)

end RequestOtp

namespace VerifyOtp

/-- A wrong code on the row `otp`. -/
def rejection (q : VerifyOtp) (otp : OtpCode) : Effect :=
  match d.nextAttempt otp.id with
  | none => { outcome := .error .database, outside := x }
  | some attempts =>
    if S.settings.otpMaxAttempts ≤ attempts then
      { outcome := .error (.api (otpTooManyAttempts attempts))
        writes := .bumpAttempts otp.id ::
          (Write.apply d (.bumpAttempts otp.id)).consumption otp.id q.now
        outside := x }
    else
      { outcome := .error (.api (otpInvalid (some
          [("attempts_remaining", .int (S.settings.otpMaxAttempts - attempts))])))
        writes := [.bumpAttempts otp.id]
        outside := x }

/-- The right code on the row `otp`, for the account `row`. -/
def acceptance (q : VerifyOtp) (otp : OtpCode) (row : Option User) : Effect :=
  match (q.decision S row).outcome, row with
  | .ok a, some user =>
    { outcome := .ok a
      writes := d.consumption otp.id q.now ++ (q.decision S row).writes ++
        [.insertToken (q.newToken S user)]
      outside := ((q.decision S row).entry.elim [] Entry.events).foldl Outside.publish
        (x.invalidateUser user.id) }
  | o, _ => { outcome := o, outside := x }

def effect (q : VerifyOtp) : Effect :=
  match validatePhone q.phone with
  | .error e => .refuse e x
  | .ok phone =>
    match d.findLatestActive phone with
    | none => .refuse (otpInvalid none) x
    | some otp =>
      if otp.isExpired q.now then .refuse otpExpired x
      else if !verifyOtpCode S q.code otp.codeHash then q.rejection S d x otp
      else q.acceptance S d x otp (d.findByPhone phone)

end VerifyOtp

def RefreshAccessToken.effect (q : RefreshAccessToken) : Effect :=
  match d.findByHash (hashRefreshToken S q.refreshToken) with
  | none => .refuse refreshTokenInvalid x
  | some stored =>
    if stored.revokedAt.isSome then
      { outcome := .error (.api refreshTokenRevoked)
        writes := [d.revocationOfAll stored.userId q.now]
        outside := x }
    else if stored.expiresAt ≤ q.now then .refuse refreshTokenExpired x
    else
      match d.findById stored.userId with
      | none => .refuse refreshTokenInvalid x
      | some user =>
        if user.status ∉ sessionAllowedStatuses then .refuse userNotActive x
        else
          { outcome := .ok (q.answer S user)
            writes := d.revocation stored.id q.now ++ [.insertToken (q.newToken S stored user)]
            outside := x }

def Logout.effect (q : Logout) : Effect :=
  match d.findByHash (hashRefreshToken S q.refreshToken) with
  | none => { outcome := .ok .noContent, outside := x }
  | some stored =>
    if q.allDevices then
      { outcome := .ok .noContent
        writes := [d.revocationOfAll stored.userId q.now]
        outside := x }
    else { outcome := .ok .noContent, writes := d.revocation stored.id q.now, outside := x }

/-- The entry of a transition to `suspended` goes with the revocation of
every token of the account. -/
def ChangeStatus.effect (q : ChangeStatus) : Effect :=
  let dec := q.decision (d.findById q.userId)
  { outcome := dec.outcome
    writes := dec.entry.elim [] fun e => e.writes ++
      if e.user.status = .suspended then [d.revocationOfAll e.user.id e.now] else []
    outside := dec.outside x }

/-- The effect of a request. -/
def Request.effect : Request → Effect
  | registerUser q => q.effect d x
  | requestOtp q => q.effect S d x
  | verifyOtp q => q.effect S d x
  | refreshAccessToken q => q.effect S d x
  | logout q => q.effect S d x
  | updateProfile q => .decided (q.decision (d.findById q.userId)) x
  | changeRole q => .decided (q.decision (d.findById q.userId)) x
  | decideKyc q => .decided (q.decision (d.findById q.userId)) x
  | changeStatus q => q.effect d x

/-! ### Running is the effect -/

/-- What a run leaves if it comes to the effect `e`. -/
def Effect.result (e : Effect) : Except Failure Response × Db × Outside :=
  (e.outcome, store.view d e.writes, e.outside)

/-- Saving the account that was read, over quiet writes, is an update. -/
theorem run_save {α : Type} {log : List Write} (hl : ∀ w ∈ log, w.quiet = true) {u v : User}
    (now : Time) {k : Unit → Cmd α} (h : d.findById u.id = some v) :
    store.run (saveUser u now >>= k) log d x =
      store.run (k ()) (log ++ [.updateUser u now]) d x := by
  rw [saveUser_bind, run_update d x hl now _ h]
  rfl

theorem RegisterUser.run_eq (q : RegisterUser) :
    store.run q.call [] d x = (q.effect d x).result d := by
  unfold call effect
  cases validatePhone q.phone with
  | error e => rfl
  | ok phone =>
    simp only [check_ok_bind, findByPhone_bind, run_findByPhone, Engine.view_nil]
    cases hp : d.findByPhone phone with
    | some u => rfl
    | none =>
      have hs : (d.saveUser (q.newUser phone) q.now).1 = true := by
        unfold Db.saveUser
        cases d.findById (q.newUser phone).id with
        | some v => rfl
        | none =>
          have hnone : d.findByPhone (q.newUser phone).phone = none := hp
          rw [hnone]
      simp only [saveUser_bind, run_saveUser, Engine.view_nil, hs, if_true]
      rfl

theorem UpdateProfile.run_eq (q : UpdateProfile) :
    store.run q.call [] d x = (Effect.decided (q.decision (d.findById q.userId)) x).result d := by
  unfold call decision
  simp only [findById_bind, run_findById, Engine.view_nil]
  cases hu : d.findById q.userId with
  | none => rfl
  | some user =>
    have hid : d.findById user.id = some user := by rw [(Db.mem_of_findById hu).2, hu]
    by_cases hname : q.fullName.isSome ∧ q.fullName ≠ user.fullName
    · simp only [if_pos hname]
      rw [run_save d x (by simp) q.now (by exact hid)]
      rfl
    · simp only [if_neg hname]
      rfl

theorem ChangeRole.run_eq (q : ChangeRole) :
    store.run q.call [] d x = (Effect.decided (q.decision (d.findById q.userId)) x).result d := by
  unfold call decision
  cases UserRole.ofValue q.role with
  | none => rfl
  | some targetRole =>
    simp only [findById_bind, run_findById, Engine.view_nil]
    cases hu : d.findById q.userId with
    | none => rfl
    | some user =>
      have hid : d.findById user.id = some user := by rw [(Db.mem_of_findById hu).2, hu]
      by_cases hk : user.needsKycFor targetRole = true
      · by_cases hr : user.requestedRole = some targetRole
        · simp only [hk, if_true, request, if_pos hr]
          rfl
        · simp only [hk, if_true, request, if_neg hr]
          rw [run_save d x (by simp) q.now (by exact hid)]
          rfl
      · by_cases hr : user.role = targetRole
        · simp only [if_neg hk, grant, if_pos hr]
          rfl
        · simp only [if_neg hk, grant, if_neg hr]
          rw [run_save d x (by simp) q.now (by exact hid)]
          rfl

theorem DecideKyc.run_eq (q : DecideKyc) :
    store.run q.call [] d x = (Effect.decided (q.decision (d.findById q.userId)) x).result d := by
  unfold call decision
  simp only [findById_bind, run_findById, Engine.view_nil]
  cases hu : d.findById q.userId with
  | none => rfl
  | some user =>
    have hid : d.findById user.id = some user := by rw [(Db.mem_of_findById hu).2, hu]
    cases hr : user.requestedRole with
    | none =>
      simp only [hr]
      rfl
    | some requested =>
      have hid' : d.findById (q.decided user requested).id = some user := hid
      simp only [hr]
      rw [run_save d x (by simp) q.now hid']
      by_cases hs : (q.decided user requested).status ≠ user.status
      · simp only [if_pos hs]
        rfl
      · simp only [if_neg hs]
        rfl

theorem ChangeStatus.run_eq (q : ChangeStatus) :
    store.run q.call [] d x = (q.effect d x).result d := by
  unfold call effect decision
  cases UserStatus.ofValue q.status with
  | none => rfl
  | some target =>
    by_cases hs : target ∉ adminSettableStatuses
    · simp only [if_pos hs]
      rfl
    · simp only [if_neg hs, findById_bind, run_findById, Engine.view_nil]
      cases hu : d.findById q.userId with
      | none => rfl
      | some user =>
        have hid : d.findById user.id = some user := by rw [(Db.mem_of_findById hu).2, hu]
        by_cases hc : (!canTransition user.status target) = true
        · simp only [if_pos hc]
          rfl
        · simp only [if_neg hc]
          rw [run_save d x (by simp) q.now (by exact hid)]
          by_cases hsus : target = .suspended
          · subst hsus
            rfl
          · simp only [if_neg hsus, finish]
            simp [Effect.result, Decision.outside, Entry.writes, Entry.outside, hsus]

namespace VerifyOtp

theorem run_reject (q : VerifyOtp) (otp : OtpCode) :
    store.run (q.reject S otp) [] d x = (q.rejection S d x otp).result d := by
  unfold reject rejection
  rw [registerAttempt_bind, run_registerAttempt, Engine.view_nil]
  cases d.nextAttempt otp.id with
  | none => rfl
  | some attempts =>
    simp only [Option.elim]
    by_cases ha : S.settings.otpMaxAttempts ≤ attempts
    · simp only [if_pos ha]
      rfl
    · simp only [if_neg ha]
      rfl

theorem run_accept_eq (q : VerifyOtp) (otp : OtpCode) (phone : String)
    (hids : (d.users.map User.id).Nodup) :
    store.run (q.accept S otp phone) [] d x =
      (q.acceptance S d x otp (d.findByPhone phone)).result d := by
  have hl := Db.consumption_quiet d otp.id q.now
  have hphone : (store.view d (d.consumption otp.id q.now)).findByPhone phone =
      d.findByPhone phone := by
    rw [Db.findByPhone, users_view d hl, Db.findByPhone]
  unfold accept acceptance decision
  simp only [markConsumed_bind, run_markConsumed, Engine.view_nil, List.nil_append,
    findByPhone_bind, run_findByPhone, hphone]
  cases hp : d.findByPhone phone with
  | none => rfl
  | some user =>
    have hid : d.findById user.id = some user :=
      Db.findById_of_mem hids (Db.mem_of_findByPhone hp).1
    by_cases hsus : user.status = .suspended
    · simp only [if_pos hsus]
      rfl
    by_cases hpend : user.status = .pendingVerification
    · simp only [if_neg hsus, if_pos hpend]
      rw [run_save d x hl q.now (by exact hid)]
      simp [openSession, Effect.result, Decision.writes, Entry.writes, newToken]
    · simp only [if_neg hsus, if_neg hpend]
      simp [openSession, Effect.result, Decision.answer, Decision.writes]

theorem run_eq (q : VerifyOtp) (hids : (d.users.map User.id).Nodup) :
    store.run (q.call S) [] d x = (q.effect S d x).result d := by
  unfold call effect
  cases validatePhone q.phone with
  | error e => rfl
  | ok phone =>
    simp only [check_ok_bind, findLatestActive_bind, run_findLatestActive, Engine.view_nil]
    cases hotp : d.findLatestActive phone with
    | none => rfl
    | some otp =>
      by_cases hexp : otp.isExpired q.now = true
      · simp only [if_pos hexp]
        rfl
      · simp only [if_neg hexp]
        by_cases hcode : (!verifyOtpCode S q.code otp.codeHash) = true
        · simp only [if_pos hcode]
          exact run_reject S d x q otp
        · simp only [if_neg hcode]
          exact run_accept_eq S d x q otp phone hids

end VerifyOtp

theorem RefreshAccessToken.run_eq (q : RefreshAccessToken) :
    store.run (q.call S) [] d x = (q.effect S d x).result d := by
  unfold call effect
  simp only [findByHash_bind, run_findByHash, Engine.view_nil]
  cases d.findByHash (hashRefreshToken S q.refreshToken) with
  | none => rfl
  | some stored =>
    by_cases hrev : stored.revokedAt.isSome = true
    · simp only [if_pos hrev]
      rfl
    by_cases hexp : stored.expiresAt ≤ q.now
    · simp only [if_neg hrev, if_pos hexp]
      rfl
    simp only [if_neg hrev, if_neg hexp, findById_bind, run_findById, Engine.view_nil]
    cases d.findById stored.userId with
    | none => rfl
    | some user =>
      by_cases hst : user.status ∉ sessionAllowedStatuses
      · simp only [if_pos hst]
        rfl
      · simp only [if_neg hst]
        rfl

theorem Logout.run_eq (q : Logout) : store.run (q.call S) [] d x = (q.effect S d x).result d := by
  unfold call effect
  simp only [findByHash_bind, run_findByHash, Engine.view_nil]
  cases d.findByHash (hashRefreshToken S q.refreshToken) with
  | none => rfl
  | some stored =>
    by_cases hall : q.allDevices = true
    · simp only [if_pos hall]
      rfl
    · simp only [if_neg hall]
      rfl

namespace RequestOtp

variable {α : Type}

/-- The limiter's answer to the address. -/
theorem run_hit (q : RequestOtp) (f : Bool → Cmd α) :
    store.run (match q.clientIp with
      | some ip => hitIp ip q.now >>= f
      | none => (.ret true : Cmd Bool) >>= f) [] d x =
      store.run (f (q.ipAllows x)) [] d (q.countIp x) := by
  unfold ipAllows countIp
  cases q.clientIp with
  | none => rfl
  | some ip =>
    by_cases hip : ip = ""
    · simp only [hitIp, hip, if_true]
      rfl
    · have hallow : (decide (ip = "") ||
          decide ((x.hits ip q.now).1 + 1 ≤ ipRequestsPerWindow)) =
          decide ((x.hits ip q.now).1 + 1 ≤ ipRequestsPerWindow) := by
        simp [hip]
      simp only [hitIp, if_neg hip, Prog.ask_bind, Prog.call_bind, run_incrIp, hallow]
      by_cases hone : (x.hits ip q.now).1 + 1 = 1
      · rw [if_pos hone, if_pos hone, Prog.call_bind, run_expireIp]
        rfl
      · rw [if_neg hone, if_neg hone]
        rfl

theorem run_wait (q : RequestOtp) (phone : String) (f : ℤ → Cmd α) :
    store.run (secondsUntilPhoneAllowed phone S.settings.otpRateLimitSeconds q.now >>= f) [] d x =
      store.run (f (wait S x phone q)) [] d x := by
  unfold secondsUntilPhoneAllowed wait
  by_cases hcool : S.settings.otpRateLimitSeconds ≤ 0
  · rw [if_pos hcool, if_pos hcool]
    rfl
  · rw [if_neg hcool, if_neg hcool, Prog.ask_bind, Prog.call_bind, run_cooldownTtl]
    rfl

theorem run_arm (q : RequestOtp) (phone : String) (f : Unit → Cmd α) :
    store.run (markPhoneSent phone S.settings.otpRateLimitSeconds q.now >>= f) [] d x =
      store.run (f ()) [] d (arm S x phone q) := by
  unfold markPhoneSent arm
  by_cases hcool : S.settings.otpRateLimitSeconds ≤ 0
  · rw [if_pos hcool, if_pos hcool]
    rfl
  · rw [if_neg hcool, if_neg hcool, Prog.ask_bind, run_armCooldown]

theorem run_eq (q : RequestOtp) : store.run (q.call S) [] d x = (q.effect S d x).result d := by
  unfold call effect
  cases validatePhone q.phone with
  | error e => rfl
  | ok phone =>
    simp only [check_ok_bind]
    refine (run_hit d x q _).trans ?_
    by_cases hip : q.ipAllows x = true
    · rw [if_pos hip, if_pos hip]
      refine (run_wait S d _ q phone _).trans ?_
      by_cases hwait : 0 < wait S (q.countIp x) phone q
      · rw [if_pos hwait, if_pos hwait]
        rfl
      · rw [if_neg hwait, if_neg hwait, issue]
        simp only [findByPhone_bind, run_findByPhone, Engine.view_nil]
        cases d.findByPhone phone with
        | none => exact run_arm S d _ q phone _
        | some user =>
          simp only [saveOtp_bind, run_saveOtp, commit_bind, run_commit, Prog.ask_bind, run_send]
          exact run_arm S _ _ q phone _
    · rw [if_neg hip, if_neg hip]
      rfl

end RequestOtp

/-- **Running a request is its effect.** -/
theorem Request.run_prog (r : Request) (hids : (d.users.map User.id).Nodup) :
    store.run (r.prog S) [] d x = (r.effect S d x).result d := by
  cases r with
  | registerUser q => exact q.run_eq d x
  | requestOtp q => exact q.run_eq S d x
  | verifyOtp q => exact q.run_eq S d x hids
  | refreshAccessToken q => exact q.run_eq S d x
  | logout q => exact q.run_eq S d x
  | updateProfile q => exact q.run_eq d x
  | changeRole q => exact q.run_eq d x
  | decideKyc q => exact q.run_eq d x
  | changeStatus q => exact q.run_eq d x

/-! ### What an effect can be -/

/-- What `RefreshAccessToken` does: refuse, close every session, or rotate. -/
theorem RefreshAccessToken.effect_cases (q : RefreshAccessToken) :
    (∃ e, q.effect S d x = .refuse e x ∧
      ∀ stored, d.findByHash (hashRefreshToken S q.refreshToken) = some stored →
        stored.revokedAt = none) ∨
    (∃ stored, d.findByHash (hashRefreshToken S q.refreshToken) = some stored ∧
      stored.revokedAt ≠ none ∧ q.effect S d x =
        { outcome := .error (.api refreshTokenRevoked)
          writes := [d.revocationOfAll stored.userId q.now]
          outside := x }) ∨
    ∃ stored user, d.findByHash (hashRefreshToken S q.refreshToken) = some stored ∧
      stored.revokedAt = none ∧ q.now < stored.expiresAt ∧
      d.findById stored.userId = some user ∧ user.status ∈ sessionAllowedStatuses ∧
      q.effect S d x =
        { outcome := .ok (q.answer S user)
          writes := d.revocation stored.id q.now ++ [.insertToken (q.newToken S stored user)]
          outside := x } := by
  unfold effect
  cases hs : d.findByHash (hashRefreshToken S q.refreshToken) with
  | none => exact .inl ⟨_, rfl, fun stored h => by cases h⟩
  | some stored =>
    dsimp only
    by_cases hrev : stored.revokedAt.isSome = true
    · rw [if_pos hrev]
      exact .inr (.inl ⟨stored, rfl, Option.isSome_iff_ne_none.mp hrev, rfl⟩)
    have hlive : stored.revokedAt = none := by simpa using hrev
    have hall : ∀ stored', some stored = some stored' → stored'.revokedAt = none := by
      rintro _ ⟨⟩
      exact hlive
    rw [if_neg hrev]
    by_cases hexp : stored.expiresAt ≤ q.now
    · rw [if_pos hexp]
      exact .inl ⟨_, rfl, hall⟩
    rw [if_neg hexp]
    cases hu : d.findById stored.userId with
    | none => exact .inl ⟨_, rfl, hall⟩
    | some user =>
      dsimp only
      split_ifs with hst
      · exact .inr (.inr ⟨stored, user, rfl, hlive, not_le.mp hexp, hu, hst, rfl⟩)
      · exact .inl ⟨_, rfl, hall⟩

theorem UserStatus.ofValue_eq_some {status : String} {target : UserStatus} :
    UserStatus.ofValue status = some target ↔ status = target.value := by
  constructor
  · intro h
    have hvalue := List.find?_some h
    exact (of_decide_eq_true hvalue).symm
  · rintro rfl
    cases target <;> rfl

/-- `ChangeStatus` refuses, or makes the entry of an allowed transition. -/
theorem ChangeStatus.decision_cases (q : ChangeStatus) (row : Option User) :
    (∃ e, q.decision row = .refuse e) ∨
    ∃ user target, row = some user ∧ q.status = target.value ∧ target ∈ adminSettableStatuses ∧
      q.decision row =
        { outcome := .ok (.profile (profilePayload { user with status := target }))
          entry := some
            { user := { user with status := target }
              now := q.now
              statusRows := [q.transitionRow user target]
              events := [.userStatusChanged user.id user.phone user.role q.now user.status target
                q.reason] } } := by
  unfold decision
  cases ht : UserStatus.ofValue q.status with
  | none => exact .inl ⟨_, rfl⟩
  | some target =>
    dsimp only
    by_cases hs : target ∈ adminSettableStatuses
    · rw [if_neg (by simpa using hs)]
      cases row with
      | none => exact .inl ⟨_, rfl⟩
      | some user =>
        dsimp only
        by_cases hc : (!canTransition user.status target) = true
        · rw [if_pos hc]
          exact .inl ⟨_, rfl⟩
        · rw [if_neg hc]
          exact .inr ⟨user, target, rfl, UserStatus.ofValue_eq_some.mp ht, hs, rfl⟩
    · rw [if_pos hs]
      exact .inl ⟨_, rfl⟩

/-- `Logout` writes revocations, or nothing. -/
theorem Logout.effect_cases (q : Logout) :
    (q.effect S d x).outcome = .ok .noContent ∧ (q.effect S d x).outside = x ∧
    ((d.findByHash (hashRefreshToken S q.refreshToken) = none ∧ (q.effect S d x).writes = []) ∨
    ∃ stored, d.findByHash (hashRefreshToken S q.refreshToken) = some stored ∧
      (q.effect S d x).writes = if q.allDevices then [d.revocationOfAll stored.userId q.now]
        else d.revocation stored.id q.now) := by
  unfold effect
  cases d.findByHash (hashRefreshToken S q.refreshToken) with
  | none => exact ⟨rfl, rfl, .inl ⟨rfl, rfl⟩⟩
  | some stored =>
    dsimp only
    split_ifs
    · exact ⟨rfl, rfl, .inr ⟨stored, rfl, rfl⟩⟩
    · exact ⟨rfl, rfl, .inr ⟨stored, rfl, rfl⟩⟩

/-- `RegisterUser` refuses, or saves the new account. -/
theorem RegisterUser.effect_cases (q : RegisterUser) :
    (∃ e, q.effect d x = .refuse e x) ∨
    ∃ phone, validatePhone q.phone = .ok phone ∧ d.findByPhone phone = none ∧ q.effect d x =
      { outcome := .ok (.registered q.newId phone .pendingVerification)
        writes := (d.saveUser (q.newUser phone) q.now).2
        outside := x } := by
  unfold effect
  cases validatePhone q.phone with
  | error e => exact .inl ⟨e, rfl⟩
  | ok phone =>
    dsimp only
    cases hp : d.findByPhone phone with
    | some u => exact .inl ⟨_, rfl⟩
    | none => exact .inr ⟨phone, rfl, hp, rfl⟩

/-! ### Codes issued -/

/-- `RequestOtp` refuses, or answers the same whether or not it issues a code;
it issues one exactly if the phone has an account. -/
theorem RequestOtp.effect_cases (q : RequestOtp) :
    ((∃ e, (q.effect S d x).outcome = .error (.api e)) ∧ (q.effect S d x).writes = []) ∨
    ∃ phone, validatePhone q.phone = .ok phone ∧ q.ipAllows x = true ∧
      wait S (q.countIp x) phone q ≤ 0 ∧
      (q.effect S d x).outcome =
        .ok (.otpSent S.settings.otpCodeLifetimeSeconds S.settings.otpRateLimitSeconds) ∧
      (q.effect S d x).writes =
        if (d.findByPhone phone).isSome then [.insertOtp (q.newOtp S phone)] else [] := by
  unfold effect
  cases hv : validatePhone q.phone with
  | error e => exact .inl ⟨⟨_, rfl⟩, rfl⟩
  | ok phone =>
    dsimp only
    by_cases hip : q.ipAllows x = true
    · rw [if_pos hip]
      by_cases hwait : 0 < wait S (q.countIp x) phone q
      · rw [if_pos hwait]
        exact .inl ⟨⟨_, rfl⟩, rfl⟩
      · rw [if_neg hwait]
        refine .inr ⟨phone, rfl, hip, not_lt.mp hwait, ?_⟩
        cases d.findByPhone phone with
        | none => exact ⟨rfl, rfl⟩
        | some user => exact ⟨rfl, rfl⟩
    · rw [if_neg hip]
      exact .inl ⟨⟨_, rfl⟩, rfl⟩

/-- What `save` writes is no code and no token. -/
theorem Db.saveUser_writes (u : User) (now : Time) : (d.saveUser u now).2 = [] ∨
    (d.saveUser u now).2 = [.updateUser u now] ∨ ∃ v, (d.saveUser u now).2 = [.insertUser v] := by
  unfold Db.saveUser
  split
  · exact .inr (.inl rfl)
  · split
    · exact .inl rfl
    · exact .inr (.inr ⟨_, rfl⟩)

/-! ### Logins -/

/-- A write on the row of a code. -/
def Write.onCode : Write → Bool
  | bumpAttempts _ | consumeOtp .. => true
  | _ => false

theorem Db.consumption_onCode (id : Uuid) (now : Time) :
    ∀ w ∈ d.consumption id now, w.onCode = true := by
  intro w hw
  rw [Db.eq_of_mem_consumption hw]
  rfl

namespace VerifyOtp

/-- The account as a login leaves it. -/
def admitted (user : User) : User :=
  if user.status = .pendingVerification then activated user else user

@[simp] theorem admitted_id (user : User) : (admitted user).id = user.id := by
  unfold admitted
  split_ifs <;> rfl

theorem admitted_status {user : User} (h : user.status ≠ .suspended) :
    (admitted user).status ∈ sessionAllowedStatuses := by
  unfold admitted
  split_ifs with hp
  · simp only [activated]
    split_ifs <;> decide
  · cases hst : user.status with
    | suspended => exact absurd hst h
    | pendingVerification => exact absurd hst hp
    | active | pendingKyc => decide

/-- What a login needs. -/
structure Admits (q : VerifyOtp) (phone : String) (otp : OtpCode) (user : User) : Prop where
  valid : validatePhone q.phone = .ok phone
  latest : d.findLatestActive phone = some otp
  unexpired : otp.isExpired q.now = false
  matched : verifyOtpCode S q.code otp.codeHash = true
  found : d.findByPhone phone = some user
  status : user.status ≠ .suspended

/-- What a login does. -/
structure Opens (q : VerifyOtp) (otp : OtpCode) (user : User) (e : Effect) : Prop where
  outcome : e.outcome = .ok (q.answer S (admitted user))
  writes : e.writes = d.consumption otp.id q.now ++ (q.decision S (some user)).writes ++
    [.insertToken (q.newToken S user)]
  outside : e.outside = ((q.decision S (some user)).entry.elim [] Entry.events).foldl
    Outside.publish (x.invalidateUser user.id)

/-- `VerifyOtp` refuses, and writes at most the row of a code; or it is a
login. -/
theorem effect_cases (q : VerifyOtp) :
    ((∃ e, (q.effect S d x).outcome = .error e) ∧ (q.effect S d x).outside = x ∧
      ∀ w ∈ (q.effect S d x).writes, w.onCode = true) ∨
    ∃ phone otp user, q.Admits S d phone otp user ∧ q.Opens S d x otp user (q.effect S d x) := by
  unfold effect
  cases hv : validatePhone q.phone with
  | error e => exact .inl ⟨⟨_, rfl⟩, rfl, by simp [Effect.refuse]⟩
  | ok phone =>
    dsimp only
    cases hotp : d.findLatestActive phone with
    | none => exact .inl ⟨⟨_, rfl⟩, rfl, by simp [Effect.refuse]⟩
    | some otp =>
      dsimp only
      by_cases hexp : otp.isExpired q.now = true
      · rw [if_pos hexp]
        exact .inl ⟨⟨_, rfl⟩, rfl, by simp [Effect.refuse]⟩
      rw [if_neg hexp]
      by_cases hcode : (!verifyOtpCode S q.code otp.codeHash) = true
      · -- a wrong code
        rw [if_pos hcode]
        left
        unfold rejection
        cases d.nextAttempt otp.id with
        | none => exact ⟨⟨_, rfl⟩, rfl, by simp⟩
        | some attempts =>
          dsimp only
          split_ifs
          · refine ⟨⟨_, rfl⟩, rfl, fun w hw => ?_⟩
            rcases List.mem_cons.mp hw with rfl | hw
            · rfl
            · exact Db.consumption_onCode _ _ _ w hw
          · exact ⟨⟨_, rfl⟩, rfl, by simp [Write.onCode]⟩
      · rw [if_neg hcode]
        unfold acceptance
        cases hu : d.findByPhone phone with
        | none => exact .inl ⟨⟨_, rfl⟩, rfl, by simp [decision, Decision.refuse]⟩
        | some user =>
          by_cases hsus : user.status = .suspended
          · left
            simp [decision, hsus, Decision.refuse]
          · refine .inr ⟨phone, otp, user, ⟨hv, hotp, by simpa using hexp, by simpa using hcode,
              hu, hsus⟩, ?_⟩
            have hout : (q.decision S (some user)).outcome = .ok (q.answer S (admitted user)) := by
              unfold decision admitted
              dsimp only
              rw [if_neg hsus]
              split_ifs <;> rfl
            rw [hout]
            exact ⟨rfl, rfl, rfl⟩

end VerifyOtp

/-! ### Worlds -/

namespace World

variable {S} {w : World} {r : Request}

theorem answer_eq (hids : (w.db.users.map User.id).Nodup) :
    w.answer S r = (r.effect S w.db w.outside).outcome := by
  rw [answer, r.run_prog S w.db w.outside hids]
  rfl

theorem after_db (hids : (w.db.users.map User.id).Nodup) :
    (w.after S r).db = store.view w.db (r.effect S w.db w.outside).writes := by
  rw [after, r.run_prog S w.db w.outside hids]
  rfl

theorem after_outside (hids : (w.db.users.map User.id).Nodup) :
    (w.after S r).outside = (r.effect S w.db w.outside).outside := by
  rw [after, r.run_prog S w.db w.outside hids]
  rfl

end World

end DiddiFreeID
