/-
# On what grounds a request acts

Everything a request does, it does on what the store has told it: a code is
consumed because a row was found whose hash the guess has and whose time has
not come, a token is saved for the account that was read, an event is
published about rows that were recorded and committed. `Grounds` says so for
every call of the nine commands, with one constructor for each place that
makes one; `Rests` says what an answer rests on. The programs keep to it
whatever they are told, as long as it is credible (`Request.follows_grounds`),
and no program makes a call twice.

In flight with others, what a request has been told is credible in every
interleaving (`credible`), so every call has its grounds (`grounds`).

Key definitions: `Told`, `Credible`, `Read`, `Saved`, `Documented`, `Grounds`, `Rests`.
Key theorems: `Request.follows_grounds`, `credible`, `grounds`, `told_unique`.
-/
import DiddiFreeID.Runs
import DiddiFreeID.Transact.History

namespace DiddiFreeID

open Transact Engine

/-- The answered calls of a request. -/
abbrev Heard : Type := List (Answered Call Call.Resp)

/-- The call has been answered so. -/
abbrev Told (l : Heard) (c : Call) (r : c.Resp) : Prop := (⟨c, r⟩ : Answered Call Call.Resp) ∈ l

/-- What a lookup answers is what was looked up. -/
structure Credible (l : Heard) : Prop where
  byId : ∀ {id u}, Told l (.findById id) (some u) → u.id = id
  byPhone : ∀ {phone u}, Told l (.findByPhone phone) (some u) → u.phone = phone
  latest : ∀ {phone o}, Told l (.findLatestActive phone) (some o) →
    o.phone = phone ∧ o.consumedAt = none
  byHash : ∀ {hash t}, Told l (.findByHash hash) (some t) → t.tokenHash = hash

theorem Credible.subset {l l' : Heard} (h : Credible l') (hl : l ⊆ l') : Credible l where
  byId ht := h.byId (hl ht)
  byPhone ht := h.byPhone (hl ht)
  latest ht := h.latest (hl ht)
  byHash ht := h.byHash (hl ht)

section Grounds

variable (S : Env)

/-- The guess has the hash of the newest code of the phone, in time. -/
structure Accepted (q : VerifyOtp) (l : Heard) (otp : OtpCode) (phone : String) : Prop where
  valid : validatePhone q.phone = .ok phone
  found : Told l (.findLatestActive phone) (some otp)
  inTime : q.now < otp.expiresAt
  hash : otp.codeHash = hashOtpCode S q.code

/-- The guess was compared with the code, in time, and is wrong. -/
structure Refused (q : VerifyOtp) (l : Heard) (otp : OtpCode) (phone : String) : Prop where
  valid : validatePhone q.phone = .ok phone
  found : Told l (.findLatestActive phone) (some otp)
  inTime : q.now < otp.expiresAt
  hash : otp.codeHash ≠ hashOtpCode S q.code

/-- The account a request acts on, as it read it. -/
def Read : Request → Heard → User → Prop
  | .verifyOtp q, l, user => ∃ otp, Accepted S q l otp user.phone ∧
      Told l (.markConsumed otp.id q.now) () ∧ Told l (.findByPhone user.phone) (some user)
  | _, l, user => Told l (.findById user.id) (some user)

/-- The request has saved the account it read. -/
structure Saved (r : Request) (l : Heard) (user : User) (o : Except Failure Response) (e : Entry) :
    Prop where
  read : Read S r l user
  writes : Writes S user r o e
  saved : Told l (.saveUser e.user e.now) true

/-- And has recorded every row that goes with it. -/
structure Documented (r : Request) (l : Heard) (user : User) (o : Except Failure Response)
    (e : Entry) : Prop extends Saved S r l user o e where
  status : ∀ row ∈ e.statusRows, Told l (.recordStatusChange row) ()
  role : ∀ row ∈ e.roleRows, Told l (.recordRoleChange row) ()

/-- A live token was presented, of an account that may hold a session. -/
structure Presented (q : RefreshAccessToken) (l : Heard) (stored : RefreshToken) (user : User) :
    Prop where
  found : Told l (.findByHash (hashRefreshToken S q.refreshToken)) (some stored)
  live : stored.revokedAt = none
  inTime : q.now < stored.expiresAt
  owner : Told l (.findById stored.userId) (some user)
  allowed : user.status ∈ sessionAllowedStatuses

/-- The account whose session a guess opens: one that was verified before, or
the one that the guess has just activated. -/
inductive Welcomes (q : VerifyOtp) (l : Heard) : User → Prop
  | again {user} : Read S (.verifyOtp q) l user → user.status ∈ sessionAllowedStatuses →
      Welcomes q l user
  | first {user o e} : Documented S (.verifyOtp q) l user o e → Welcomes q l e.user

/-- What a request that has been told `l` may call next, and why. -/
inductive Grounds : Request → Heard → Call → Prop
  -- `RegisterUser`
  | registerLookup {q l phone} : validatePhone q.phone = .ok phone →
      Grounds (.registerUser q) l (.findByPhone phone)
  | register {q l phone} : validatePhone q.phone = .ok phone → Told l (.findByPhone phone) none →
      Grounds (.registerUser q) l (.saveUser (q.newUser phone) q.now)
  | registerCommit {q l phone} : validatePhone q.phone = .ok phone →
      Told l (.saveUser (q.newUser phone) q.now) true → Grounds (.registerUser q) l .commit
  -- `RequestOtp`
  | hit {q l ip} : q.clientIp = some ip → Grounds (.requestOtp q) l (.incrIp ip q.now)
  | expire {q l ip} : q.clientIp = some ip → Told l (.incrIp ip q.now) 1 →
      Grounds (.requestOtp q) l (.expireIp ip ipWindowSeconds q.now)
  | wait {q l phone} : validatePhone q.phone = .ok phone →
      Grounds (.requestOtp q) l (.cooldownTtl phone q.now)
  | codeLookup {q l phone} : validatePhone q.phone = .ok phone →
      Grounds (.requestOtp q) l (.findByPhone phone)
  | saveCode {q l phone user} : validatePhone q.phone = .ok phone →
      Told l (.findByPhone phone) (some user) →
      Grounds (.requestOtp q) l (.saveOtp (q.newOtp S phone))
  | codeCommit {q l phone} : Told l (.saveOtp (q.newOtp S phone)) () →
      Grounds (.requestOtp q) l .commit
  | send {q l phone} : Told l (.saveOtp (q.newOtp S phone)) () → Told l .commit () →
      Grounds (.requestOtp q) l (.send phone (sixDigits q.draw))
  | arm {q l phone} : validatePhone q.phone = .ok phone →
      Grounds (.requestOtp q) l (.armCooldown phone S.settings.otpRateLimitSeconds q.now)
  -- `VerifyOtp`
  | latest {q l phone} : validatePhone q.phone = .ok phone →
      Grounds (.verifyOtp q) l (.findLatestActive phone)
  | attempt {q l otp phone} : Refused S q l otp phone →
      Grounds (.verifyOtp q) l (.registerAttempt otp.id)
  | burn {q l otp phone attempts} : Refused S q l otp phone →
      Told l (.registerAttempt otp.id) (some attempts) → S.settings.otpMaxAttempts ≤ attempts →
      Grounds (.verifyOtp q) l (.markConsumed otp.id q.now)
  | rejectCommit {q l otp phone attempts} : Refused S q l otp phone →
      Told l (.registerAttempt otp.id) (some attempts) →
      (S.settings.otpMaxAttempts ≤ attempts → Told l (.markConsumed otp.id q.now) ()) →
      Grounds (.verifyOtp q) l .commit
  | consume {q l otp phone} : Accepted S q l otp phone →
      Grounds (.verifyOtp q) l (.markConsumed otp.id q.now)
  | account {q l otp phone} : Accepted S q l otp phone → Told l (.markConsumed otp.id q.now) () →
      Grounds (.verifyOtp q) l (.findByPhone phone)
  | openSession {q l user} : Welcomes S q l user →
      Grounds (.verifyOtp q) l (.saveToken (q.newToken S user))
  | loginCommit {q l user} : Welcomes S q l user → Told l (.saveToken (q.newToken S user)) () →
      Grounds (.verifyOtp q) l .commit
  | loginDrop {q l user} : Welcomes S q l user → Told l (.saveToken (q.newToken S user)) () →
      Told l .commit () → Grounds (.verifyOtp q) l (.invalidateUser user.id)
  -- `RefreshAccessToken` and `Logout`
  | present {q l} :
      Grounds (.refreshAccessToken q) l (.findByHash (hashRefreshToken S q.refreshToken))
  | reused {q l stored} : Told l (.findByHash (hashRefreshToken S q.refreshToken)) (some stored) →
      stored.revokedAt.isSome = true → Grounds (.refreshAccessToken q) l (.liveTokens stored.userId)
  | reuseClose {q l stored ids} :
      Told l (.findByHash (hashRefreshToken S q.refreshToken)) (some stored) →
      Told l (.liveTokens stored.userId) ids →
      Grounds (.refreshAccessToken q) l (.revokeThese ids q.now)
  | reuseCommit {q l ids n} : Told l (.revokeThese ids q.now) n →
      Grounds (.refreshAccessToken q) l .commit
  | owner {q l stored} : Told l (.findByHash (hashRefreshToken S q.refreshToken)) (some stored) →
      stored.revokedAt = none → q.now < stored.expiresAt →
      Grounds (.refreshAccessToken q) l (.findById stored.userId)
  | rotate {q l stored user} : Presented S q l stored user →
      Grounds (.refreshAccessToken q) l (.revoke stored.id q.now)
  | renew {q l stored user} : Presented S q l stored user → Told l (.revoke stored.id q.now) () →
      Grounds (.refreshAccessToken q) l (.saveToken (q.newToken S stored user))
  | renewCommit {q l stored user} : Presented S q l stored user →
      Told l (.saveToken (q.newToken S stored user)) () → Grounds (.refreshAccessToken q) l .commit
  | leave {q l} : Grounds (.logout q) l (.findByHash (hashRefreshToken S q.refreshToken))
  | leaveAll {q l stored} : Told l (.findByHash (hashRefreshToken S q.refreshToken)) (some stored) →
      Grounds (.logout q) l (.liveTokens stored.userId)
  | leaveClose {q l stored ids} :
      Told l (.findByHash (hashRefreshToken S q.refreshToken)) (some stored) →
      Told l (.liveTokens stored.userId) ids → Grounds (.logout q) l (.revokeThese ids q.now)
  | leaveOne {q l stored} : Told l (.findByHash (hashRefreshToken S q.refreshToken)) (some stored) →
      Grounds (.logout q) l (.revoke stored.id q.now)
  | leaveCommit {q l stored} :
      Told l (.findByHash (hashRefreshToken S q.refreshToken)) (some stored) →
      Grounds (.logout q) l .commit
  -- the commands on an account
  | rename {q l} : Grounds (.updateProfile q) l (.findById q.userId)
  | changeRole {q l} : Grounds (.changeRole q) l (.findById q.userId)
  | decide {q l} : Grounds (.decideKyc q) l (.findById q.userId)
  | changeStatus {q l} : Grounds (.changeStatus q) l (.findById q.userId)
  | save {r l user o e} : Read S r l user → Writes S user r o e →
      Grounds r l (.saveUser e.user e.now)
  | recordStatus {r l user o e row} : Saved S r l user o e → row ∈ e.statusRows →
      Grounds r l (.recordStatusChange row)
  | recordRole {r l user o e row} : Saved S r l user o e → row ∈ e.roleRows →
      Grounds r l (.recordRoleChange row)
  | suspend {q l user o e} : Documented S (.changeStatus q) l user o e →
      e.user.status = .suspended → Grounds (.changeStatus q) l (.liveTokens user.id)
  | suspendClose {q l user o e ids} : Documented S (.changeStatus q) l user o e →
      e.user.status = .suspended → Told l (.liveTokens user.id) ids →
      Grounds (.changeStatus q) l (.revokeThese ids q.now)
  | commit {r l user o e} : Documented S r l user o e → (∀ q, r ≠ .verifyOtp q) →
      Grounds r l .commit
  | drop {r l user o e} : Documented S r l user o e → Told l .commit () →
      Grounds r l (.invalidateUser user.id)
  | publish {r l user o e ev} : Documented S r l user o e → Told l .commit () → ev ∈ e.events →
      Grounds r l (.publish ev)

/-- What an answer rests on. -/
inductive Rests : Request → Heard → Response → Prop
  | registered {q l phone} : validatePhone q.phone = .ok phone →
      Told l (.saveUser (q.newUser phone) q.now) true → Told l .commit () →
      Rests (.registerUser q) l (.registered q.newId phone .pendingVerification)
  | sent {q l phone} : validatePhone q.phone = .ok phone →
      (∀ user, Told l (.findByPhone phone) (some user) →
        Told l (.saveOtp (q.newOtp S phone)) () ∧ Told l .commit () ∧
        Told l (.send phone (sixDigits q.draw)) ()) →
      Rests (.requestOtp q) l
        (.otpSent S.settings.otpCodeLifetimeSeconds S.settings.otpRateLimitSeconds)
  | session {q l user} : Read S (.verifyOtp q) l user → user.status ∈ sessionAllowedStatuses →
      Told l (.saveToken (q.newToken S user)) () → Told l .commit () →
      (∀ v now, ¬Told l (.saveUser v now) true) → Rests (.verifyOtp q) l (q.answer S user)
  | firstSession {q l user o e} : Documented S (.verifyOtp q) l user o e →
      Told l (.saveToken (q.newToken S e.user)) () → Told l .commit () →
      (∀ ev ∈ e.events, Told l (.publish ev) ()) → Rests (.verifyOtp q) l (q.answer S e.user)
  | renewed {q l stored user} : Presented S q l stored user →
      Told l (.saveToken (q.newToken S stored user)) () → Told l .commit () →
      Rests (.refreshAccessToken q) l (q.answer S user)
  | left {q l} : Rests (.logout q) l .noContent
  | unchanged {r l user} : Read S r l user → (∀ v now, ¬Told l (.saveUser v now) true) →
      Rests r l (.profile (profilePayload user))
  | changed {r l user a e} : Documented S r l user (.ok a) e → Told l .commit () →
      (∀ ev ∈ e.events, Told l (.publish ev) ()) → Rests r l a

/-- The monitor of the grounds: on credible answers, a call has its grounds
and is made once; who has saved an account does not fail any more. -/
def grounded (r : Request) : Monitor Call Call.Resp Failure Response Heard :=
  tracing (fun l c => Credible l → Grounds S r l c ∧ ∀ a ∈ l, a.1 ≠ c)
    (fun l a => Credible l → Rests S r l a)
    (fun l _ => Credible l → ∀ v now, ¬Told l (.saveUser v now) true)

end Grounds

/-! ### The programs -/

section Programs

variable {S : Env} {r : Request} {l : Heard}

/-- A call that has its grounds, and the rest on every answer. -/
theorem follows_ask {c : Call} {k : c.Resp → Cmd Response} (h : Credible l → Grounds S r l c)
    (hnew : ∀ a ∈ l, a.1 ≠ c) (hk : ∀ a, (k a).Follows (grounded S r) (l ++ [⟨c, a⟩])) :
    (Prog.call c k).Follows (grounded S r) l :=
  ⟨fun hl => ⟨h hl, hnew⟩, hk⟩

theorem told_snoc {c : Call} {a : c.Resp} : Told (l ++ [⟨c, a⟩]) c a :=
  List.mem_append_right _ (List.mem_singleton.mpr rfl)

theorem Told.snoc {c : Call} {a : c.Resp} (h : Told l c a) (b : Answered Call Call.Resp) :
    Told (l ++ [b]) c a := List.mem_append_left _ h

theorem follows_error {e : Failure} (h : ∀ v now, ¬Told l (.saveUser v now) true) :
    (Prog.raise e : Cmd Response).Follows (grounded S r) l := fun _ => h

theorem follows_end {a : Response} (h : Credible l → Rests S r l a) :
    (Prog.ret a : Cmd Response).Follows (grounded S r) l := h

/-- On answers that are not credible anything may be done. -/
theorem follows_incredible : ∀ {p : Cmd Response} {l : Heard}, ¬Credible l →
    p.Follows (grounded S r) l
  | .ret _, _, h => fun hp => absurd hp h
  | .raise _, _, h => fun hp => absurd hp h
  | .call _ _, _, h => ⟨fun hp => absurd hp h, fun _ =>
      follows_incredible fun hp => h (hp.subset (List.subset_append_left _ _))⟩

theorem RegisterUser.follows_grounds (q : RegisterUser) :
    q.call.Follows (grounded S (.registerUser q)) [] := by
  unfold call
  cases hv : validatePhone q.phone with
  | error e => exact follows_error (by simp)
  | ok phone =>
    rw [check_ok_bind, findByPhone_bind]
    refine follows_ask (fun _ => .registerLookup hv) (by simp) fun user => ?_
    cases user with
    | some user => exact follows_error (by simp)
    | none =>
      dsimp only
      rw [saveUser_bind]
      refine follows_ask (fun _ => .register hv (by simp)) (by simp) fun saved => ?_
      cases saved with
      | false => exact follows_error (by simp)
      | true =>
        refine follows_ask (fun _ => .registerCommit hv (by simp)) (by simp) fun a => ?_
        have hsave : Told ([] ++ [⟨.findByPhone phone, none⟩] ++
            [⟨.saveUser (q.newUser phone) q.now, true⟩] ++ [⟨.commit, a⟩])
            (.saveUser (q.newUser phone) q.now) true := by simp
        exact follows_end fun _ => .registered hv hsave (by simp)

/-! #### `RequestOtp` -/

/-- The calls of the limiter that come before the code. -/
def Call.limits : Call → Bool
  | incrIp .. | expireIp .. | cooldownTtl .. => true
  | _ => false

theorem ne_of_limits (h : ∀ a ∈ l, a.1.limits = true) {c : Call} (hc : c.limits = false) :
    ∀ a ∈ l, a.1 ≠ c := by
  rintro a ha rfl
  rw [h a ha] at hc
  cases hc

theorem not_told_of_limits (h : ∀ a ∈ l, a.1.limits = true) {c : Call} (hc : c.limits = false)
    (a : c.Resp) : ¬Told l c a := fun ht => ne_of_limits h hc _ ht rfl

theorem limits_snoc (h : ∀ a ∈ l, a.1.limits = true) {c : Call} (hc : c.limits = true)
    (a : c.Resp) : ∀ b ∈ l ++ [⟨c, a⟩], b.1.limits = true := by
  intro b hb
  rcases List.mem_append.mp hb with hb | hb
  · exact h b hb
  · rw [List.mem_singleton.mp hb]
    exact hc

section RequestOtp

variable {q : RequestOtp} {phone : String}

/-- The end of a request for a code. -/
theorem RequestOtp.arm_follows_grounds (hv : validatePhone q.phone = .ok phone)
    (hnew : ∀ a ∈ l, a.1 ≠ .armCooldown phone S.settings.otpRateLimitSeconds q.now)
    (hsent : ∀ user, Told l (.findByPhone phone) (some user) →
      Told l (.saveOtp (q.newOtp S phone)) () ∧ Told l .commit () ∧
        Told l (.send phone (sixDigits q.draw)) ()) :
    Prog.Follows (grounded S (.requestOtp q)) l (do
      markPhoneSent phone S.settings.otpRateLimitSeconds q.now
      return .otpSent S.settings.otpCodeLifetimeSeconds S.settings.otpRateLimitSeconds) := by
  unfold markPhoneSent
  split_ifs
  · exact follows_end fun _ => .sent hv hsent
  · rw [Prog.ask_bind]
    refine follows_ask (fun _ => .arm hv) hnew fun _ => ?_
    refine follows_end fun _ => .sent hv fun user hu => ?_
    obtain ⟨hsave, hcommit, hsend⟩ := hsent user (by simpa using hu)
    exact ⟨List.mem_append_left _ hsave, List.mem_append_left _ hcommit,
      List.mem_append_left _ hsend⟩

theorem RequestOtp.issue_follows_grounds (hv : validatePhone q.phone = .ok phone)
    (hl : ∀ a ∈ l, a.1.limits = true) :
    (q.issue S phone).Follows (grounded S (.requestOtp q)) l := by
  have hnew : ∀ c : Call, c.limits = false → ∀ a ∈ l, a.1 ≠ c := fun c => ne_of_limits hl
  unfold issue
  rw [findByPhone_bind]
  refine follows_ask (fun _ => .codeLookup hv) (hnew _ rfl) fun user => ?_
  cases user with
  | none =>
    refine arm_follows_grounds hv ?_ fun user hu => ?_
    · simpa [or_imp, forall_and] using hnew (.armCooldown phone _ q.now) rfl
    · have htold : Told l (.findByPhone phone) (some user) := by simpa using hu
      exact absurd htold (not_told_of_limits hl rfl _)
  | some user =>
    dsimp only
    refine follows_ask (fun _ => .saveCode hv told_snoc) ?_ fun _ => ?_
    · simpa [or_imp, forall_and] using hnew (.saveOtp _) rfl
    refine follows_ask (fun _ => .codeCommit told_snoc) ?_ fun _ => ?_
    · simpa [or_imp, forall_and] using hnew .commit rfl
    refine follows_ask (fun _ => .send (told_snoc.snoc _) told_snoc) ?_ fun _ => ?_
    · simpa [or_imp, forall_and] using hnew (.send _ _) rfl
    refine arm_follows_grounds hv ?_ fun user hu => ⟨by simp, by simp, by simp⟩
    simpa [or_imp, forall_and] using hnew (.armCooldown phone _ q.now) rfl

/-- The wait for the cooldown and what follows it. -/
theorem RequestOtp.wait_follows_grounds (hv : validatePhone q.phone = .ok phone)
    (hl : ∀ a ∈ l, a.1.limits = true)
    (hnew : ∀ a ∈ l, a.1 ≠ .cooldownTtl phone q.now) :
    Prog.Follows (grounded S (.requestOtp q)) l (do
      let remaining ← secondsUntilPhoneAllowed phone S.settings.otpRateLimitSeconds q.now
      if remaining > 0 then raiseError (otpRateLimitedPhone remaining) else q.issue S phone) := by
  have hrest : ∀ {l : Heard}, (∀ a ∈ l, a.1.limits = true) → ∀ remaining : ℤ,
      Prog.Follows (grounded S (.requestOtp q)) l
        (if remaining > 0 then raiseError (otpRateLimitedPhone remaining)
          else q.issue S phone) := by
    intro l hl remaining
    split_ifs
    · exact follows_error fun v now => not_told_of_limits hl rfl _
    · exact issue_follows_grounds hv hl
  unfold secondsUntilPhoneAllowed
  by_cases hzero : S.settings.otpRateLimitSeconds ≤ 0
  · rw [if_pos hzero]
    exact hrest hl 0
  · rw [if_neg hzero]
    exact follows_ask (fun _ => .wait hv) hnew fun ttl => hrest (limits_snoc hl rfl _) _

theorem RequestOtp.follows_grounds (q : RequestOtp) :
    (q.call S).Follows (grounded S (.requestOtp q)) [] := by
  unfold call
  cases hv : validatePhone q.phone with
  | error e => exact follows_error (by simp)
  | ok phone =>
    rw [check_ok_bind]
    have hafter : ∀ {l : Heard}, (∀ a ∈ l, a.1.limits = true) →
        (∀ a ∈ l, a.1 ≠ .cooldownTtl phone q.now) → ∀ allowed : Bool,
        Prog.Follows (grounded S (.requestOtp q)) l (if allowed = true then do
            let remaining ← secondsUntilPhoneAllowed phone S.settings.otpRateLimitSeconds q.now
            if remaining > 0 then raiseError (otpRateLimitedPhone remaining) else q.issue S phone
          else raiseError (otpRateLimitedIp S.settings.otpRateLimitSeconds)) := by
      intro l hl hnew allowed
      split_ifs
      · exact wait_follows_grounds hv hl hnew
      · exact follows_error fun v now => not_told_of_limits hl rfl _
    cases hip : q.clientIp with
    | none => exact hafter (by simp) (by simp) true
    | some ip =>
      dsimp only
      unfold hitIp
      by_cases hempty : ip = ""
      · rw [if_pos hempty]
        exact hafter (by simp) (by simp) true
      rw [if_neg hempty, Prog.ask_bind]
      refine follows_ask (fun _ => .hit hip) (by simp) fun (count : ℕ) => ?_
      dsimp only
      by_cases hone : count = 1
      · rw [if_pos hone]
        refine follows_ask (fun _ => .expire hip (by simp [hone])) (by simp) fun _ => ?_
        exact hafter (by simp [Call.limits]) (by simp) _
      · rw [if_neg hone]
        exact hafter (by simp [Call.limits]) (by simp) _

end RequestOtp

/-! #### `VerifyOtp` -/

section VerifyOtp

variable {q : VerifyOtp} {otp : OtpCode} {phone : String}

theorem VerifyOtp.reject_follows_grounds
    (h : Refused S q [⟨.findLatestActive phone, some otp⟩] otp phone) :
    (q.reject S otp).Follows (grounded S (.verifyOtp q)) [⟨.findLatestActive phone, some otp⟩] := by
  have hrefused : ∀ {l : Heard}, [⟨.findLatestActive phone, some otp⟩] ⊆ l →
      Refused S q l otp phone := fun hl => ⟨h.valid, hl (by simp), h.inTime, h.hash⟩
  unfold reject
  rw [registerAttempt_bind]
  refine follows_ask (fun _ => .attempt h) (by simp) fun attempts => ?_
  cases attempts with
  | none => exact follows_error (by simp)
  | some attempts =>
    dsimp only [Option.elim]
    split_ifs with hmax
    · refine follows_ask (fun _ => .burn (hrefused (by simp)) told_snoc hmax) (by simp) fun _ => ?_
      refine follows_ask (fun _ => .rejectCommit (hrefused (by simp)) (told_snoc.snoc _)
        fun _ => told_snoc) (by simp) fun _ => ?_
      exact follows_error (by simp)
    · refine follows_ask (fun _ => .rejectCommit (hrefused (by simp)) told_snoc
        fun hle => absurd hle hmax) (by simp) fun _ => ?_
      exact follows_error (by simp)

/-- What the request has heard when it knows the account. -/
abbrev VerifyOtp.atAccount (q : VerifyOtp) (otp : OtpCode) (phone : String) (user : User) : Heard :=
  [⟨.findLatestActive phone, some otp⟩, ⟨.markConsumed otp.id q.now, ()⟩,
    ⟨.findByPhone phone, some user⟩]

theorem VerifyOtp.read_atAccount {user : User}
    (h : Accepted S q [⟨.findLatestActive phone, some otp⟩] otp phone)
    (hl : q.atAccount otp phone user ⊆ l) (hp : Credible l) : Read S (.verifyOtp q) l user := by
  have hfound : Told l (.findByPhone phone) (some user) := hl (by simp)
  obtain rfl := hp.byPhone hfound
  exact ⟨otp, ⟨h.valid, hl (by simp), h.inTime, h.hash⟩, hl (by simp), hfound⟩

/-- The login of an account that was verified before. -/
theorem VerifyOtp.again_follows_grounds {user : User}
    (h : Accepted S q [⟨.findLatestActive phone, some otp⟩] otp phone)
    (hsus : user.status ≠ .suspended) (hpend : user.status ≠ .pendingVerification) :
    (q.openSession S user false).Follows (grounded S (.verifyOtp q))
      (q.atAccount otp phone user) := by
  have hallowed : user.status ∈ sessionAllowedStatuses := by
    cases hs : user.status <;> simp_all [sessionAllowedStatuses]
  have hread : ∀ {l : Heard}, q.atAccount otp phone user ⊆ l → Credible l →
      Read S (.verifyOtp q) l user := fun hl hp => read_atAccount h hl hp
  unfold openSession
  rw [saveToken_bind]
  refine follows_ask (fun hp => .openSession (.again (hread (by simp) hp) hallowed)) (by simp)
    fun _ => ?_
  refine follows_ask (fun hp => .loginCommit (.again (hread (by simp) hp) hallowed) told_snoc)
    (by simp) fun _ => ?_
  refine follows_ask (fun hp => .loginDrop (.again (hread (by simp) hp) hallowed)
    (told_snoc.snoc _) told_snoc) (by simp) fun _ => ?_
  exact follows_end fun hp => .session (hread (by simp) hp) hallowed (by simp) (by simp) (by simp)

/-- The first verification of an account. -/
theorem VerifyOtp.first_follows_grounds {user : User}
    (h : Accepted S q [⟨.findLatestActive phone, some otp⟩] otp phone)
    (hpend : user.status = .pendingVerification) :
    Prog.Follows (grounded S (.verifyOtp q)) (q.atAccount otp phone user) (do
      saveUser (activated user) q.now
      recordStatusChange (q.activationRow (activated user))
      q.openSession S (activated user) true) := by
  have hread : ∀ {l : Heard}, q.atAccount otp phone user ⊆ l → Credible l →
      Read S (.verifyOtp q) l user := fun hl hp => read_atAccount h hl hp
  have hw := Writes.verify (S := S) (q := q) hpend
  have hrecorded : ∀ {l : Heard}, q.atAccount otp phone user ++
      [⟨.saveUser (activated user) q.now, true⟩,
        ⟨.recordStatusChange (q.activationRow (activated user)), ()⟩] ⊆ l → Credible l →
      ∃ e, Documented S (.verifyOtp q) l user (.ok (q.answer S (activated user))) e ∧
        e.user = activated user ∧
        e.events = [.userRegistered user.id user.phone user.role q.now] := by
    intro l hl hp
    refine ⟨_, ⟨⟨hread (fun a ha => hl (List.mem_append_left _ ha)) hp, hw, hl (by simp)⟩, ?_, ?_⟩,
      rfl, rfl⟩
    · intro row hrow
      rw [List.mem_singleton.mp hrow]
      exact hl (by simp)
    · exact fun row hrow => absurd hrow List.not_mem_nil
  rw [saveUser_bind]
  refine follows_ask (fun hp => .save (hread (by simp) hp) hw) (by simp) fun saved => ?_
  cases saved with
  | false => exact follows_error (by simp)
  | true =>
    rw [if_pos rfl, recordStatusChange_bind]
    refine follows_ask (fun hp => .recordStatus ⟨hread (by simp) hp, hw, told_snoc⟩
      (List.mem_singleton.mpr rfl)) (by simp) fun _ => ?_
    have hopens : ∀ {l : Heard}, q.atAccount otp phone user ++
        [⟨.saveUser (activated user) q.now, true⟩,
          ⟨.recordStatusChange (q.activationRow (activated user)), ()⟩] ⊆ l → Credible l →
        Welcomes S q l (activated user) := by
      intro l hl hp
      obtain ⟨e, hrec, he, -⟩ := hrecorded hl hp
      exact he ▸ .first hrec
    unfold openSession
    rw [saveToken_bind]
    refine follows_ask (fun hp => .openSession (hopens (by simp) hp)) (by simp) fun _ => ?_
    refine follows_ask (fun hp => .loginCommit (hopens (by simp) hp) told_snoc) (by simp)
      fun _ => ?_
    refine follows_ask (fun hp => .loginDrop (hopens (by simp) hp) (told_snoc.snoc _) told_snoc)
      (by simp) fun _ => ?_
    refine follows_ask (fun hp => ?_) (by simp) fun _ => follows_end fun hp => ?_
    · obtain ⟨e, hrec, -, hev⟩ := hrecorded (by simp) hp
      exact .publish hrec (by simp) (by rw [hev]; exact List.mem_singleton.mpr rfl)
    · obtain ⟨e, hrec, he, hev⟩ := hrecorded (by simp) hp
      have hend := Rests.firstSession hrec (by rw [he]; simp) (by simp) fun ev hmem => by
        rw [hev, List.mem_singleton] at hmem
        rw [hmem]
        exact told_snoc
      rwa [he] at hend

theorem VerifyOtp.accept_follows_grounds
    (h : Accepted S q [⟨.findLatestActive phone, some otp⟩] otp phone) :
    (q.accept S otp phone).Follows (grounded S (.verifyOtp q))
      [⟨.findLatestActive phone, some otp⟩] := by
  unfold accept
  rw [markConsumed_bind]
  refine follows_ask (fun _ => .consume h) (by simp) fun _ => ?_
  rw [findByPhone_bind]
  refine follows_ask (fun _ => .account ⟨h.valid, by simp, h.inTime, h.hash⟩ told_snoc) (by simp)
    fun user => ?_
  cases user with
  | none => exact follows_error (by simp)
  | some user =>
    dsimp only
    split_ifs with hsus hpend
    · exact follows_error (by simp)
    · exact first_follows_grounds h hpend
    · exact again_follows_grounds h hsus hpend

theorem VerifyOtp.follows_grounds (q : VerifyOtp) :
    (q.call S).Follows (grounded S (.verifyOtp q)) [] := by
  unfold call
  cases hv : validatePhone q.phone with
  | error e => exact follows_error (by simp)
  | ok phone =>
    rw [check_ok_bind, findLatestActive_bind]
    refine follows_ask (fun _ => .latest hv) (by simp) fun otp => ?_
    cases otp with
    | none => exact follows_error (by simp)
    | some otp =>
      dsimp only
      split_ifs with hexp hcode
      · exact follows_error (by simp)
      · have hhash : otp.codeHash ≠ hashOtpCode S q.code := fun he => by
          simp [verifyOtpCode, he] at hcode
        exact reject_follows_grounds ⟨hv, by simp, by simpa [OtpCode.isExpired] using hexp, hhash⟩
      · have hhash : hashOtpCode S q.code = otp.codeHash := by simpa [verifyOtpCode] using hcode
        exact accept_follows_grounds
          ⟨hv, by simp, by simpa [OtpCode.isExpired] using hexp, hhash.symm⟩

end VerifyOtp

/-! #### Refresh tokens -/

theorem RefreshAccessToken.follows_grounds (q : RefreshAccessToken) :
    (q.call S).Follows (grounded S (.refreshAccessToken q)) [] := by
  unfold call
  rw [findByHash_bind]
  refine follows_ask (fun _ => .present) (by simp) fun stored => ?_
  cases stored with
  | none => exact follows_error (by simp)
  | some stored =>
    dsimp only
    split_ifs with hrevoked hexpired
    · rw [revokeAllForUser_bind]
      refine follows_ask (fun _ => .reused told_snoc hrevoked) (by simp) fun ids => ?_
      refine follows_ask (fun _ => .reuseClose (told_snoc.snoc _) told_snoc) (by simp) fun n => ?_
      exact follows_ask (fun _ => .reuseCommit told_snoc) (by simp) fun _ => follows_error (by simp)
    · exact follows_error (by simp)
    · have hlive : stored.revokedAt = none := by simpa using hrevoked
      have htime : q.now < stored.expiresAt := not_le.mp hexpired
      rw [findById_bind]
      refine follows_ask (fun _ => .owner told_snoc hlive htime) (by simp) fun user => ?_
      cases user with
      | none => exact follows_error (by simp)
      | some user =>
        dsimp only
        split_ifs with hallowed
        · have hpresented : ∀ {l : Heard},
              [⟨.findByHash (hashRefreshToken S q.refreshToken), some stored⟩,
                ⟨.findById stored.userId, some user⟩] ⊆ l → Presented S q l stored user := fun hl =>
            ⟨hl (by simp), hlive, htime, hl (by simp), hallowed⟩
          refine follows_ask (fun _ => .rotate (hpresented (by simp))) (by simp) fun _ => ?_
          refine follows_ask (fun _ => .renew (hpresented (by simp)) told_snoc) (by simp)
            fun _ => ?_
          refine follows_ask (fun _ => .renewCommit (hpresented (by simp)) told_snoc) (by simp)
            fun _ => ?_
          exact follows_end fun _ => .renewed (hpresented (by simp)) (by simp) (by simp)
        · exact follows_error (by simp)

theorem Logout.follows_grounds (q : Logout) : (q.call S).Follows (grounded S (.logout q)) [] := by
  unfold call
  rw [findByHash_bind]
  refine follows_ask (fun _ => .leave) (by simp) fun stored => ?_
  cases stored with
  | none => exact follows_end fun _ => .left
  | some stored =>
    dsimp only
    split_ifs
    · rw [revokeAllForUser_bind]
      refine follows_ask (fun _ => .leaveAll told_snoc) (by simp) fun ids => ?_
      refine follows_ask (fun _ => .leaveClose (told_snoc.snoc _) told_snoc) (by simp) fun n => ?_
      exact follows_ask (fun _ => .leaveCommit ((told_snoc.snoc _).snoc _)) (by simp) fun _ =>
        follows_end fun _ => .left
    · rw [revoke_bind]
      refine follows_ask (fun _ => .leaveOne told_snoc) (by simp) fun _ => ?_
      exact follows_ask (fun _ => .leaveCommit (told_snoc.snoc _)) (by simp) fun _ =>
        follows_end fun _ => .left

/-! #### The commands on an account -/

section Accounts

variable {user : User} {o : Except Failure Response} {e : Entry} {l' : Heard}

theorem Read.mono (h : Read S r l user) (hl : l ⊆ l') : Read S r l' user := by
  cases r with
  | verifyOtp q =>
    obtain ⟨otp, hacc, hconsumed, hread⟩ := h
    exact ⟨otp, ⟨hacc.valid, hl hacc.found, hacc.inTime, hacc.hash⟩, hl hconsumed, hl hread⟩
  | _ => exact hl h

theorem Saved.mono (h : Saved S r l user o e) (hl : l ⊆ l') : Saved S r l' user o e :=
  ⟨h.read.mono hl, h.writes, hl h.saved⟩

theorem Documented.mono (h : Documented S r l user o e) (hl : l ⊆ l') :
    Documented S r l' user o e where
  toSaved := h.toSaved.mono hl
  status row hrow := hl (h.status row hrow)
  role row hrow := hl (h.role row hrow)

/-- The account of a session is the one that was read. -/
theorem Welcomes.read {q : VerifyOtp} (h : Welcomes S q l user) :
    ∃ u, Read S (.verifyOtp q) l u ∧ u.id = user.id := by
  cases h with
  | again hread => exact ⟨user, hread, rfl⟩
  | first hdoc => exact ⟨_, hdoc.read, hdoc.writes.about.1.symm⟩

/-- The account is saved, and the rest goes on only if the save went through. -/
theorem saveUser_follows_grounds {f : Unit → Cmd Response} (hread : Read S r l user)
    (hw : Writes S user r o e) (hnew : ∀ a ∈ l, ∀ v now, a.1 ≠ .saveUser v now)
    (hf : (f ()).Follows (grounded S r) (l ++ [⟨.saveUser e.user e.now, true⟩])) :
    (saveUser e.user e.now >>= f).Follows (grounded S r) l := by
  rw [saveUser_bind]
  refine follows_ask (fun _ => .save hread hw) (fun a ha => hnew a ha _ _) fun saved => ?_
  cases saved with
  | false =>
    refine follows_error fun v now ht => ?_
    rcases List.mem_append.mp ht with ht | ht
    · exact hnew _ ht v now rfl
    · simp at ht
  | true => exact hf

/-- What comes after the rows of an account. -/
theorem commit_follows_grounds {u : Uuid} {ev : DomainEvent} {a : Response}
    (hr : ∀ q, r ≠ .verifyOtp q) (hu : u = user.id)
    (hrec : Documented S r l user (.ok a) e) (hev : e.events = [ev])
    (hnew : ∀ b ∈ l, b.1 ≠ .commit ∧ (∀ u, b.1 ≠ .invalidateUser u) ∧ ∀ ev, b.1 ≠ .publish ev) :
    Prog.Follows (grounded S r) l (do commit; invalidateUser u; publish ev; return a) := by
  subst hu
  rw [commit_bind]
  refine follows_ask (fun _ => .commit hrec hr) (fun b hb => (hnew b hb).1) fun _ => ?_
  rw [invalidateUser_bind]
  refine follows_ask (fun _ => .drop (hrec.mono (by simp)) told_snoc) ?_ fun _ => ?_
  · simpa [or_imp, forall_and] using fun b hb => (hnew b hb).2.1 user.id
  rw [publish_bind]
  refine follows_ask (fun _ => .publish (hrec.mono (by simp)) (told_snoc.snoc _)
    (by rw [hev]; exact List.mem_singleton.mpr rfl)) ?_ fun _ => ?_
  · simpa [or_imp, forall_and] using fun b hb => (hnew b hb).2.2 ev
  refine follows_end fun _ => .changed (hrec.mono (by simp)) (by simp) fun ev' hmem => ?_
  rw [hev, List.mem_singleton] at hmem
  rw [hmem]
  exact told_snoc

/-- What comes after the row of a status, where one is written: the row of a
role, and the rest. -/
theorem role_follows_grounds {row : UserRoleChange} {u : Uuid} {ev : DomainEvent} {a : Response}
    (hr : ∀ q, r ≠ .verifyOtp q) (hu : u = user.id) (hsaved : Saved S r l user (.ok a) e)
    (hstatus : ∀ row ∈ e.statusRows, Told l (.recordStatusChange row) ())
    (hrole : e.roleRows = [row]) (hev : e.events = [ev])
    (hnew : ∀ b ∈ l, (∀ row, b.1 ≠ .recordRoleChange row) ∧ b.1 ≠ .commit ∧
      (∀ u, b.1 ≠ .invalidateUser u) ∧ ∀ ev, b.1 ≠ .publish ev) :
    Prog.Follows (grounded S r) l (do
      recordRoleChange row
      commit
      invalidateUser u
      publish ev
      return a) := by
  rw [recordRoleChange_bind]
  refine follows_ask (fun _ => .recordRole hsaved (by rw [hrole]; exact List.mem_singleton.mpr rfl))
    (fun b hb => (hnew b hb).1 row) fun _ => ?_
  refine commit_follows_grounds hr hu
    ⟨⟨hsaved.read.mono (by simp), hsaved.writes, hsaved.saved.snoc _⟩,
    fun row hrow => (hstatus row hrow).snoc _, fun row' hrow => ?_⟩ hev ?_
  · rw [hrole, List.mem_singleton] at hrow
    rw [hrow]
    exact told_snoc
  · simpa [or_imp, forall_and] using fun b hb => (hnew b hb).2

theorem UpdateProfile.follows_grounds (q : UpdateProfile) :
    q.call.Follows (grounded S (.updateProfile q)) [] := by
  unfold call
  rw [findById_bind]
  refine follows_ask (fun _ => .rename) (by simp) fun user => ?_
  cases user with
  | none => exact follows_error (by simp)
  | some user =>
    by_cases hid : q.userId = user.id
    · rw [hid]
      have hread : Read S (.updateProfile q) ([] ++ [⟨.findById user.id, some user⟩]) user :=
        told_snoc
      dsimp only
      split_ifs with hname
      · have hw := Writes.rename (S := S) hid hname
        refine saveUser_follows_grounds hread hw (by simp) ?_
        exact commit_follows_grounds (by simp) rfl
          ⟨⟨hread.mono (by simp), hw, told_snoc⟩, by simp, by simp⟩ rfl (by simp)
      · exact follows_end fun _ => .unchanged hread (by simp)
    · exact follows_incredible fun hp => hid (hp.byId told_snoc).symm

theorem ChangeRole.follows_grounds (q : ChangeRole) :
    q.call.Follows (grounded S (.changeRole q)) [] := by
  unfold call
  cases ht : UserRole.ofValue q.role with
  | none => exact follows_error (by simp)
  | some targetRole =>
    dsimp only
    rw [findById_bind]
    refine follows_ask (fun _ => .changeRole) (by simp) fun user => ?_
    cases user with
    | none => exact follows_error (by simp)
    | some user =>
      by_cases hid : q.userId = user.id
      · rw [hid]
        have hread : Read S (.changeRole q) ([] ++ [⟨.findById user.id, some user⟩]) user :=
          told_snoc
        dsimp only
        split_ifs with hk
        · unfold request
          split_ifs with hr
          · exact follows_end fun _ => .unchanged hread (by simp)
          · have hw := Writes.request (S := S) hid ht hk hr
            refine saveUser_follows_grounds hread hw (by simp) ?_
            exact role_follows_grounds (by simp) rfl ⟨hread.mono (by simp), hw, told_snoc⟩
              (by simp) rfl rfl (by simp)
        · unfold grant
          split_ifs with hr
          · exact follows_end fun _ => .unchanged hread (by simp)
          · have hw := Writes.grant (S := S) hid ht (by simpa using hk) hr
            refine saveUser_follows_grounds hread hw (by simp) ?_
            exact role_follows_grounds (by simp) rfl ⟨hread.mono (by simp), hw, told_snoc⟩
              (by simp) rfl rfl (by simp)
      · exact follows_incredible fun hp => hid (hp.byId told_snoc).symm

theorem DecideKyc.follows_grounds (q : DecideKyc) :
    q.call.Follows (grounded S (.decideKyc q)) [] := by
  unfold call
  rw [findById_bind]
  refine follows_ask (fun _ => .decide) (by simp) fun user => ?_
  cases user with
  | none => exact follows_error (by simp)
  | some user =>
    by_cases hid : q.userId = user.id
    · rw [hid]
      have hread : Read S (.decideKyc q) ([] ++ [⟨.findById user.id, some user⟩]) user :=
        told_snoc
      dsimp only
      cases hr : user.requestedRole with
      | none => exact follows_error (by simp)
      | some requested =>
        have hw := Writes.decide (S := S) hid hr
        dsimp only
        have hu : (q.decided user requested).id = user.id := rfl
        refine saveUser_follows_grounds hread hw (by simp) ?_
        split_ifs with hs
        · rw [recordStatusChange_bind]
          refine follows_ask (fun _ => .recordStatus ⟨hread.mono (by simp), hw, told_snoc⟩
            (by simp [hs])) (by simp) fun _ => ?_
          exact role_follows_grounds (by simp) hu ⟨hread.mono (by simp), hw, told_snoc.snoc _⟩
            (by simp [hs]) rfl rfl (by simp)
        · exact role_follows_grounds (by simp) hu ⟨hread.mono (by simp), hw, told_snoc⟩
            (by simp [hs]) rfl rfl (by simp)
    · exact follows_incredible fun hp => hid (hp.byId told_snoc).symm

theorem ChangeStatus.follows_grounds (q : ChangeStatus) :
    q.call.Follows (grounded S (.changeStatus q)) [] := by
  unfold call
  cases ht : UserStatus.ofValue q.status with
  | none => exact follows_error (by simp)
  | some target =>
    dsimp only
    by_cases hset : target ∈ adminSettableStatuses
    · rw [if_neg (not_not.mpr hset), findById_bind]
      refine follows_ask (fun _ => .changeStatus) (by simp) fun user => ?_
      cases user with
      | none => exact follows_error (by simp)
      | some user =>
        by_cases hid : q.userId = user.id
        · rw [hid]
          have hread : Read S (.changeStatus q) ([] ++ [⟨.findById user.id, some user⟩]) user :=
            told_snoc
          dsimp only
          cases hc : canTransition user.status target with
          | false => exact follows_error (by simp)
          | true =>
            have hw := Writes.transit (S := S) hid ht hset hc
            rw [if_neg (by simp)]
            refine saveUser_follows_grounds hread hw (by simp) ?_
            rw [recordStatusChange_bind]
            refine follows_ask (fun _ => .recordStatus ⟨hread.mono (by simp), hw, told_snoc⟩
              (List.mem_singleton.mpr rfl)) (by simp) fun _ => ?_
            unfold finish
            split_ifs with hsus
            · rw [revokeAllForUser_bind]
              refine follows_ask (fun _ => .suspend ⟨⟨hread.mono (by simp), hw, told_snoc.snoc _⟩,
                by simp, by simp⟩ hsus) (by simp) fun ids => ?_
              refine follows_ask (fun _ => .suspendClose ⟨⟨hread.mono (by simp), hw, by simp⟩,
                by simp, by simp⟩ hsus told_snoc) (by simp) fun n => ?_
              exact commit_follows_grounds (by simp) rfl
                ⟨⟨hread.mono (by simp), hw, by simp⟩, by simp, by simp⟩ rfl (by simp)
            · exact commit_follows_grounds (by simp) rfl
                ⟨⟨hread.mono (by simp), hw, by simp⟩, by simp, by simp⟩ rfl (by simp)
        · exact follows_incredible fun hp => hid (hp.byId told_snoc).symm
    · rw [if_pos hset]
      exact follows_error (by simp)

end Accounts

variable (S)

/-- **Grounds.** Every command keeps to its grounds. -/
theorem Request.follows_grounds (r : Request) : (r.prog S).Follows (grounded S r) [] := by
  cases r with
  | registerUser q => exact q.follows_grounds
  | requestOtp q => exact q.follows_grounds
  | verifyOtp q => exact q.follows_grounds
  | refreshAccessToken q => exact q.follows_grounds
  | logout q => exact q.follows_grounds
  | updateProfile q => exact q.follows_grounds
  | changeRole q => exact q.follows_grounds
  | decideKyc q => exact q.follows_grounds
  | changeStatus q => exact q.follows_grounds

end Programs

/-! ### In flight with others -/

/-- The answer names what was looked up. -/
def CredibleAnswer : Answered Call Call.Resp → Prop
  | ⟨.findById id, user⟩ => ∀ u : User, user = some u → u.id = id
  | ⟨.findByPhone phone, user⟩ => ∀ u : User, user = some u → u.phone = phone
  | ⟨.findLatestActive phone, otp⟩ =>
    ∀ o : OtpCode, otp = some o → o.phone = phone ∧ o.consumedAt = none
  | ⟨.findByHash hash, stored⟩ => ∀ t : RefreshToken, stored = some t → t.tokenHash = hash
  | _ => True

theorem Db.of_findLatestActive {d : Db} {phone : String} {o : OtpCode}
    (h : d.findLatestActive phone = some o) :
    o ∈ d.otps ∧ o.phone = phone ∧ o.consumedAt = none := by
  have hmem := List.argmax_mem h
  rw [List.mem_filter] at hmem
  exact ⟨hmem.1, by simpa using hmem.2⟩

theorem Db.of_findByHash {d : Db} {hash : String} {t : RefreshToken}
    (h : d.findByHash hash = some t) : t ∈ d.refreshTokens ∧ t.tokenHash = hash :=
  ⟨List.mem_of_find?_eq_some h, by simpa using List.find?_some h⟩

theorem exec_credible (c : Call) (d : Db) (x : Outside) : CredibleAnswer ⟨c, (exec c d x).1⟩ := by
  cases c with
  | findById id => exact fun u hu => (Db.mem_of_findById hu).2
  | findByPhone phone => exact fun u hu => (Db.mem_of_findByPhone hu).2
  | findLatestActive phone => exact fun o ho => (Db.of_findLatestActive ho).2
  | findByHash hash => exact fun t ht => (Db.of_findByHash ht).2
  | _ => trivial

theorem credible_of_answers {l : Heard} (h : ∀ a ∈ l, CredibleAnswer a) : Credible l :=
  ⟨fun ht => h _ ht _ rfl, fun ht => h _ ht _ rfl, fun ht => h _ ht _ rfl, fun ht => h _ ht _ rfl⟩

/-- The call makes the write. -/
def Call.makes : Call → Write → Prop
  | .saveUser u now, w => w = .updateUser u now ∨ w = .insertUser
      { u with createdAt := some (u.createdAt.getD now), updatedAt := some now }
  | .recordStatusChange c, w => w = .insertStatus c
  | .recordRoleChange c, w => w = .insertRole c
  | .saveOtp o, w => w = .insertOtp o
  | .registerAttempt id, w => w = .bumpAttempts id
  | .markConsumed id now, w => w = .consumeOtp id now
  | .saveToken t, w => w = .insertToken t
  | .revoke id now, w => w = .revokeTokens [id] now
  | .revokeThese ids now, w => ∃ live, live ⊆ ids ∧ w = .revokeTokens live now
  | _, _ => False

theorem exec_makes {c : Call} {d : Db} {x : Outside} {w : Write} (h : w ∈ (exec c d x).2.1) :
    c.makes w := by
  cases c with
  | saveUser u now => exact Db.eq_of_mem_saveUser h
  | registerAttempt id => exact Db.eq_of_mem_registerAttempt h
  | markConsumed id now => exact Db.eq_of_mem_consumption h
  | revoke id now => exact Db.eq_of_mem_revocation h
  | revokeThese ids now => exact ⟨_, List.filter_subset_self _, List.mem_singleton.mp h⟩
  | recordStatusChange | recordRoleChange | saveOtp | saveToken => exact List.mem_singleton.mp h
  | _ => exact absurd h List.not_mem_nil

section Makers

variable {ι : Type} {s : InFlight ι} {i : ι}

theorem answer_makes {c : Call} {w : Write} (h : w ∈ (store.answer s i c).2.1) : c.makes w :=
  exec_makes h

/-- Who has made a write has been told of the one call that makes it. -/
theorem told_of_produced {w : Write} {c : Call} (hc : ∀ c' : Call, c'.makes w → c' = c)
    (h : store.Produced s i w) : ∃ r, Told (s.thread i).trace c r := by
  obtain ⟨⟨c', r⟩, ha, d, x, -, hw⟩ := h
  obtain rfl : c' = c := hc c' (exec_makes hw)
  exact ⟨r, ha⟩

/-- Who has inserted an account has saved one. -/
theorem told_saveUser {u : User} (h : store.Produced s i (.insertUser u)) :
    ∃ v now r, Told (s.thread i).trace (.saveUser v now) r := by
  obtain ⟨⟨c, r⟩, ha, d, x, -, hw⟩ := h
  have hmakes := exec_makes hw
  cases c with
  | saveUser v now => exact ⟨v, now, r, ha⟩
  | revokeThese => simp [Call.makes] at hmakes
  | _ => cases hmakes

theorem told_saveToken {t : RefreshToken} (h : store.Produced s i (.insertToken t)) :
    Told (s.thread i).trace (.saveToken t) () :=
  (told_of_produced (fun c hc => by cases c <;> simp_all [Call.makes]) h).choose_spec

theorem told_saveOtp {o : OtpCode} (h : store.Produced s i (.insertOtp o)) :
    Told (s.thread i).trace (.saveOtp o) () :=
  (told_of_produced (fun c hc => by cases c <;> simp_all [Call.makes]) h).choose_spec

theorem told_recordStatusChange {row : UserStatusChange}
    (h : store.Produced s i (.insertStatus row)) :
    Told (s.thread i).trace (.recordStatusChange row) () :=
  (told_of_produced (fun c hc => by cases c <;> simp_all [Call.makes]) h).choose_spec

theorem told_recordRoleChange {row : UserRoleChange} (h : store.Produced s i (.insertRole row)) :
    Told (s.thread i).trace (.recordRoleChange row) () :=
  (told_of_produced (fun c hc => by cases c <;> simp_all [Call.makes]) h).choose_spec

end Makers

/-- What any program over the store has been told is credible. -/
theorem credible_of_reach {ι ε α : Type} [Fintype ι] [DecidableEq ι]
    {progs : ι → Prog Call Call.Resp ε α} {d : Db} {x : Outside}
    {ok : System Call Call.Resp ε α Db Outside Write ι → ι → Prop}
    {s : System Call Call.Resp ε α Db Outside Write ι}
    (h : store.Reach ok (System.start d x progs) s) (i : ι) : Credible (s.thread i).trace :=
  credible_of_answers (h.heard (P := fun _ _ a => CredibleAnswer a) (fun _ _ _ _ _ _ ha => ha)
    (fun _ _ c _ _ _ _ _ => exec_credible c _ _) i)

section Flight

variable {ι : Type} [Fintype ι] [DecidableEq ι] {S : Env} {rs : ι → Request} {d : Db} {x : Outside}
  {ok : InFlight ι → ι → Prop} {s : InFlight ι} {i : ι}

/-- What a request has been told is credible. -/
theorem credible (h : store.Reach ok (System.start d x fun i => (rs i).prog S) s) (i : ι) :
    Credible (s.thread i).trace := credible_of_reach h i

/-- Every answered call had its grounds, and had not been made before. -/
theorem grounds (h : store.Reach ok (System.start d x fun i => (rs i).prog S) s)
    {before after : Heard} {a : Answered Call Call.Resp}
    (ha : (s.thread i).trace = before ++ a :: after) :
    Grounds S (rs i) before a.1 ∧ ∀ b ∈ before, b.1 ≠ a.1 :=
  h.asked ((rs i).follows_grounds S) ha
    ((credible h i).subset (by rw [ha]; exact List.subset_append_left _ _))

/-- An answered call had its grounds in what is known by now. -/
theorem grounds_of_told (h : store.Reach ok (System.start d x fun i => (rs i).prog S) s) {c : Call}
    {r : c.Resp} (ha : Told (s.thread i).trace c r) :
    ∃ l, l ⊆ (s.thread i).trace ∧ Grounds S (rs i) l c := by
  obtain ⟨before, after, htrace⟩ := List.append_of_mem ha
  exact ⟨before, htrace ▸ List.subset_append_left _ _, (grounds h htrace).1⟩

/-- The next call has its grounds, and has not been made before. -/
theorem next_grounds (h : store.Reach ok (System.start d x fun i => (rs i).prog S) s) {c : Call}
    {k : c.Resp → Cmd Response} (hp : (s.thread i).prog = .call c k) :
    Grounds S (rs i) (s.thread i).trace c ∧ ∀ b ∈ (s.thread i).trace, b.1 ≠ c := by
  have hf := h.follows_trace ((rs i).follows_grounds S)
  rw [hp] at hf
  exact hf.1 (credible h i)

/-- An answer rests on what the request has been told. -/
theorem returned_rests (h : store.Reach ok (System.start d x fun i => (rs i).prog S) s)
    {a : Response} (hp : (s.thread i).prog = .ret a) : Rests S (rs i) (s.thread i).trace a := by
  have hf := h.follows_trace ((rs i).follows_grounds S)
  rw [hp] at hf
  exact hf (credible h i)

/-- A request that has failed has saved nothing. -/
theorem raised_unsaved (h : store.Reach ok (System.start d x fun i => (rs i).prog S) s)
    {e : Failure} (hp : (s.thread i).prog = .raise e) (v : User) (now : Time) :
    ¬Told (s.thread i).trace (.saveUser v now) true := by
  have hf := h.follows_trace ((rs i).follows_grounds S)
  rw [hp] at hf
  exact hf (credible h i) v now

/-- A call is made once, so it has one answer. -/
theorem told_unique (h : store.Reach ok (System.start d x fun i => (rs i).prog S) s) {c : Call}
    {r r' : c.Resp} (ha : Told (s.thread i).trace c r) (hb : Told (s.thread i).trace c r') :
    r = r' := by
  obtain ⟨before, after, htrace⟩ := List.append_of_mem ha
  have hfirst := (grounds h htrace).2
  rw [Told, htrace] at hb
  rcases List.mem_append.mp hb with hb | hb
  · exact (hfirst _ hb rfl).elim
  · rcases List.mem_cons.mp hb with hb | hb
    · cases hb
      rfl
    · obtain ⟨mid, rest, rfl⟩ := List.append_of_mem hb
      have hagain : (s.thread i).trace = (before ++ ⟨c, r⟩ :: mid) ++ ⟨c, r'⟩ :: rest := by
        simp [htrace]
      exact ((grounds h hagain).2 ⟨c, r⟩ (by simp) rfl).elim

end Flight

end DiddiFreeID
