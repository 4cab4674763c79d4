/-
# Commands are all or nothing

Any repository call of a command may raise, its commit included; `get_session`
then rolls back. Every command makes at most one commit, touches the cache and
the event stream only after it, and calls no repository then
(`Request.oneCommit`), so a command that fails has changed nothing, unless it
is a refusal that commits: `VerifyOtp` counts the attempt on a wrong code and
`RefreshAccessToken` closes the sessions of a revoked token (`Request.kept`).
What a command does commit is the whole of it, each change of a status or a
role with its row in the history (`Recorded`).

Key definitions: `Call.repository`, `Request.failing`, `Request.kept`, `Recorded`.
Key theorems: `Request.oneCommit`, `Request.kept_of_error`, `recorded_after`, `all_or_nothing`.
-/
import DiddiFreeID.StatusTrail
import DiddiFreeID.Codes
import DiddiFreeID.Effects
import DiddiFreeID.Tokens
import DiddiFreeID.Transact.Failing

namespace DiddiFreeID

open Transact

/-! ### Where an exception may strike -/

/-- The calls on the session of the request. -/
def Call.repository : Call → Bool
  | cacheGet _ | cacheSet _ | invalidateUser _ | publish _ | incrIp .. | expireIp .. | cooldownTtl ..
  | armCooldown .. | send .. => false
  | _ => true

/-- The calls that touch neither the cache nor the event stream. -/
def Call.calm : Call → Bool
  | cacheSet _ | invalidateUser _ | publish _ => false
  | _ => true

/-- The calls of the limiter and of the SMS sender. -/
def Call.aside : Call → Bool
  | incrIp .. | expireIp .. | cooldownTtl .. | armCooldown .. | send .. => true
  | _ => false

theorem Call.aside_spec : ∀ c : Call, c.aside = true →
    c.repository = false ∧ c.calm = true ∧ store.commits c = false := by
  intro c hc
  cases c <;> first | exact ⟨rfl, rfl, rfl⟩ | cases hc

/-- The event stream and the cache. -/
def Outside.observed (x : Outside) : List DomainEvent × List (Uuid × CachedUser) :=
  (x.stream, x.cache)

theorem exec_calm (c : Call) (d : Db) (x : Outside) (hc : c.calm = true) :
    (exec c d x).2.2.observed = x.observed := by
  cases c with
  | cacheSet | invalidateUser | publish => cases hc
  | registerAttempt id =>
    simp only [exec]
    split <;> rfl
  | _ => rfl

/-- The monitor of a command. -/
abbrev commandMonitor (α : Type) : Monitor Call Call.Resp Failure α Bool :=
  oneCommit store Call.repository Call.calm Failure α

/-! ### The nine commands -/

section Programs

theorem follows_aside_bind {α : Type} {p : Cmd α} {f : α → Cmd Response} {g : Bool}
    (hp : p.Follows (only Call.aside Call.Resp Failure α) ())
    (hf : ∀ a, (f a).Follows (commandMonitor Response) g) :
    (p >>= f).Follows (commandMonitor Response) g :=
  follows_oneCommit_bind Call.aside_spec hp hf

theorem RegisterUser.oneCommit (q : RegisterUser) :
    q.call.Follows (commandMonitor Response) false := by
  unfold call
  cases validatePhone q.phone with
  | error e => trivial
  | ok phone =>
    rw [check_ok_bind, findByPhone_bind]
    refine ⟨rfl, fun user => ?_⟩
    cases user with
    | some user => trivial
    | none =>
      dsimp only
      rw [saveUser_bind]
      refine ⟨rfl, fun saved => ?_⟩
      cases saved with
      | false => trivial
      | true => exact ⟨rfl, fun _ => trivial⟩

variable (S : Env)

theorem markPhoneSent_aside (phone : String) (cooldown : ℤ) (now : Time) :
    (markPhoneSent phone cooldown now).Follows (only Call.aside Call.Resp Failure Unit) () :=
  markPhoneSent_follows ⟨rfl, fun _ => rfl⟩ trivial

theorem RequestOtp.issue_oneCommit (q : RequestOtp) (phone : String) :
    (q.issue S phone).Follows (commandMonitor Response) false := by
  unfold issue
  rw [findByPhone_bind]
  refine ⟨rfl, fun user => ?_⟩
  cases user with
  | none =>
    exact follows_aside_bind (p := .ret ()) trivial fun _ =>
      follows_aside_bind (markPhoneSent_aside _ _ _) fun _ => trivial
  | some user =>
    -- After the commit only the SMS and the cooldown are left.
    exact ⟨rfl, fun _ => ⟨rfl, fun _ => ⟨rfl, fun _ =>
      follows_aside_bind (p := .ret ()) trivial fun _ =>
        follows_aside_bind (markPhoneSent_aside _ _ _) fun _ => trivial⟩⟩⟩

theorem RequestOtp.oneCommit (q : RequestOtp) :
    (q.call S).Follows (commandMonitor Response) false :=
  follows_of S (fun _ _ => trivial) (fun _ => ⟨rfl, fun _ => rfl⟩) (fun _ => ⟨rfl, fun _ => rfl⟩)
    fun phone _ => secondsUntilPhoneAllowed_follows ⟨rfl, fun _ => rfl⟩
      fun _ _ => q.issue_oneCommit S phone

theorem VerifyOtp.reject_oneCommit (q : VerifyOtp) (otp : OtpCode) :
    (q.reject S otp).Follows (commandMonitor Response) false := by
  unfold reject
  rw [registerAttempt_bind]
  refine ⟨rfl, fun attempts => ?_⟩
  cases attempts with
  | none => trivial
  | some attempts =>
    dsimp only [Option.elim]
    split_ifs
    · exact ⟨rfl, fun _ => ⟨rfl, fun _ => trivial⟩⟩
    · exact ⟨rfl, fun _ => trivial⟩

theorem VerifyOtp.openSession_oneCommit (q : VerifyOtp) (user : User) (first : Bool) :
    (q.openSession S user first).Follows (commandMonitor Response) false := by
  unfold openSession
  refine ⟨rfl, fun _ => ⟨rfl, fun _ => ⟨rfl, fun _ => ?_⟩⟩⟩
  cases first with
  | false => trivial
  | true => exact ⟨rfl, fun _ => trivial⟩

theorem VerifyOtp.oneCommit (q : VerifyOtp) :
    (q.call S).Follows (commandMonitor Response) false := by
  unfold call
  cases validatePhone q.phone with
  | error e => trivial
  | ok phone =>
    rw [check_ok_bind, findLatestActive_bind]
    refine ⟨rfl, fun otp => ?_⟩
    cases otp with
    | none => trivial
    | some otp =>
      dsimp only
      split_ifs
      · trivial
      · exact q.reject_oneCommit S otp
      · unfold accept
        rw [markConsumed_bind]
        refine ⟨rfl, fun _ => ?_⟩
        rw [findByPhone_bind]
        refine ⟨rfl, fun user => ?_⟩
        cases user with
        | none => trivial
        | some user =>
          dsimp only
          split_ifs
          · trivial
          · rw [saveUser_bind]
            refine ⟨rfl, fun saved => ?_⟩
            cases saved with
            | false => trivial
            | true => exact ⟨rfl, fun _ => q.openSession_oneCommit S _ true⟩
          · exact q.openSession_oneCommit S user false

theorem RefreshAccessToken.oneCommit (q : RefreshAccessToken) :
    (q.call S).Follows (commandMonitor Response) false := by
  unfold call
  rw [findByHash_bind]
  refine ⟨rfl, fun stored => ?_⟩
  cases stored with
  | none => trivial
  | some stored =>
    dsimp only
    split_ifs
    · exact ⟨rfl, fun _ => ⟨rfl, fun _ => ⟨rfl, fun _ => trivial⟩⟩⟩
    · trivial
    · rw [findById_bind]
      refine ⟨rfl, fun user => ?_⟩
      cases user with
      | none => trivial
      | some user =>
        dsimp only
        split_ifs
        · exact ⟨rfl, fun _ => ⟨rfl, fun _ => ⟨rfl, fun _ => trivial⟩⟩⟩
        · trivial

theorem Logout.oneCommit (q : Logout) : (q.call S).Follows (commandMonitor Response) false := by
  unfold call
  rw [findByHash_bind]
  refine ⟨rfl, fun stored => ?_⟩
  cases stored with
  | none => trivial
  | some stored =>
    dsimp only
    split_ifs
    · exact ⟨rfl, fun _ => ⟨rfl, fun _ => ⟨rfl, fun _ => trivial⟩⟩⟩
    · exact ⟨rfl, fun _ => ⟨rfl, fun _ => trivial⟩⟩

/-- A save, and what follows it. -/
theorem follows_save_oneCommit {v : User} {now : Time} {f : Unit → Cmd Response}
    (h : (f ()).Follows (commandMonitor Response) false) :
    (saveUser v now >>= f).Follows (commandMonitor Response) false := by
  rw [saveUser_bind]
  refine ⟨rfl, fun saved => ?_⟩
  cases saved with
  | false => trivial
  | true => exact h

/-- The commit, the cache, the event, the answer. -/
theorem commit_oneCommit {u : Uuid} {e : DomainEvent} {a : Response} :
    ((do commit; invalidateUser u; publish e; return a) : Cmd Response).Follows
      (commandMonitor Response) false :=
  ⟨rfl, fun _ => ⟨rfl, fun _ => ⟨rfl, fun _ => trivial⟩⟩⟩

theorem UpdateProfile.oneCommit (q : UpdateProfile) :
    q.call.Follows (commandMonitor Response) false := by
  unfold call
  rw [findById_bind]
  refine ⟨rfl, fun user => ?_⟩
  cases user with
  | none => trivial
  | some user =>
    dsimp only
    split_ifs
    · exact follows_save_oneCommit commit_oneCommit
    · trivial

theorem ChangeRole.oneCommit (q : ChangeRole) :
    q.call.Follows (commandMonitor Response) false := by
  unfold call
  cases UserRole.ofValue q.role with
  | none => trivial
  | some targetRole =>
    dsimp only
    rw [findById_bind]
    refine ⟨rfl, fun user => ?_⟩
    cases user with
    | none => trivial
    | some user =>
      dsimp only
      split_ifs
      · unfold request
        split_ifs
        · trivial
        · exact follows_save_oneCommit ⟨rfl, fun _ => commit_oneCommit⟩
      · unfold grant
        split_ifs
        · trivial
        · exact follows_save_oneCommit ⟨rfl, fun _ => commit_oneCommit⟩

theorem DecideKyc.oneCommit (q : DecideKyc) :
    q.call.Follows (commandMonitor Response) false := by
  unfold call
  rw [findById_bind]
  refine ⟨rfl, fun user => ?_⟩
  cases user with
  | none => trivial
  | some user =>
    dsimp only
    cases user.requestedRole with
    | none => trivial
    | some requested =>
      refine follows_save_oneCommit ?_
      split_ifs
      · exact ⟨rfl, fun _ => ⟨rfl, fun _ => commit_oneCommit⟩⟩
      · exact ⟨rfl, fun _ => commit_oneCommit⟩

theorem ChangeStatus.oneCommit (q : ChangeStatus) :
    q.call.Follows (commandMonitor Response) false := by
  unfold call
  cases UserStatus.ofValue q.status with
  | none => trivial
  | some target =>
    dsimp only
    by_cases hset : target ∉ adminSettableStatuses
    · rw [if_pos hset]
      trivial
    · rw [if_neg hset, findById_bind]
      refine ⟨rfl, fun user => ?_⟩
      cases user with
      | none => trivial
      | some user =>
        dsimp only
        by_cases hc : (!canTransition user.status target) = true
        · rw [if_pos hc]
          trivial
        · rw [if_neg hc]
          refine follows_save_oneCommit ⟨rfl, fun _ => ?_⟩
          dsimp only
          split_ifs
          · rw [revokeAllForUser_bind]
            exact ⟨rfl, fun _ => ⟨rfl, fun _ => commit_oneCommit⟩⟩
          · exact commit_oneCommit

/-- **Every command commits once**, and touches the cache and the stream only
afterwards, when it calls no repository any more. -/
theorem Request.oneCommit (r : Request) : (r.prog S).Follows (commandMonitor Response) false := by
  cases r with
  | registerUser q => exact q.oneCommit
  | requestOtp q => exact q.oneCommit S
  | verifyOtp q => exact q.oneCommit S
  | refreshAccessToken q => exact q.oneCommit S
  | logout q => exact q.oneCommit S
  | updateProfile q => exact q.oneCommit
  | changeRole q => exact q.oneCommit
  | decideKyc q => exact q.oneCommit
  | changeStatus q => exact q.oneCommit

end Programs

/-! ### What a refusal commits -/

/-- No account, code or token under an id twice. -/
structure Db.Keyed (d : Db) : Prop where
  users : (d.users.map User.id).Nodup
  otps : d.otpIds.Nodup
  tokens : d.tokenIds.Nodup

/-- A code after a wrong guess: as it was, where its counter is full. -/
def OtpCode.guessed (S : Env) (now : Time) (o : OtpCode) : OtpCode :=
  if o.attempts < maxSmallInteger then
    { o with
      attempts := o.attempts + 1
      consumedAt := if S.settings.otpMaxAttempts ≤ o.attempts + 1 then some now else o.consumedAt }
  else o

/-- The rows that a command leaves which ends with an exception of its own:
`VerifyOtp` on a wrong code counts the attempt, and consumes the code at the
ceiling; `RefreshAccessToken` on a revoked token revokes the live tokens of its
user; every other command leaves the rows as they were. -/
def Request.kept (S : Env) (d : Db) : Request → Db
  | .verifyOtp q =>
    match (validatePhone q.phone).toOption.bind d.findLatestActive with
    | some otp =>
      if otp.isExpired q.now || verifyOtpCode S q.code otp.codeHash then d
      else
        { d with otps := d.otps.map fun o => if o.id = otp.id then o.guessed S q.now else o }
    | none => d
  | .refreshAccessToken q =>
    match d.findByHash (hashRefreshToken S q.refreshToken) with
    | some stored =>
      if stored.revokedAt.isSome then
        { d with
          refreshTokens := d.refreshTokens.map fun t =>
            if t.userId = stored.userId ∧ t.revokedAt = none then { t with revokedAt := some q.now }
            else t }
      else d
    | none => d
  | _ => d

section Refusals

variable {S : Env} {d : Db} {x : Outside}

/-- Revoking the live tokens of a user, row by row. -/
theorem view_revocationOfAll (hids : d.tokenIds.Nodup) (userId : Uuid) (now : Time) :
    store.view d [d.revocationOfAll userId now] =
      { d with
        refreshTokens := d.refreshTokens.map fun t =>
          if t.userId = userId ∧ t.revokedAt = none then { t with revokedAt := some now } else t } := by
  have hrow : ∀ t ∈ d.refreshTokens,
      (t.id ∈ (d.liveTokens userId).filter d.isLive ∧ t.revokedAt = none) ↔
        t.userId = userId ∧ t.revokedAt = none := by
    intro t ht
    refine and_congr_left fun hlive => ⟨fun hmem => ?_, fun huser => ?_⟩
    · obtain ⟨s, hs, hid⟩ := List.mem_map.mp (List.mem_filter.mp hmem).1
      obtain ⟨hs, huser⟩ := List.mem_filter.mp hs
      rw [← List.inj_on_of_nodup_map hids hs ht hid]
      simp only [Bool.and_eq_true, decide_eq_true_eq] at huser
      exact huser.1
    · refine List.mem_filter.mpr ⟨List.mem_map_of_mem (List.mem_filter.mpr ⟨ht, ?_⟩), ?_⟩
      · simp [huser, hlive]
      · rw [Db.isLive_of_mem hids ht, hlive]
        rfl
  have hmap : d.refreshTokens.map (fun t =>
        if t.id ∈ (d.liveTokens userId).filter d.isLive ∧ t.revokedAt = none then
          { t with revokedAt := some now } else t) =
      d.refreshTokens.map fun t =>
        if t.userId = userId ∧ t.revokedAt = none then { t with revokedAt := some now } else t :=
    List.map_congr_left fun t ht => if_congr (hrow t ht) rfl rfl
  rw [Engine.view_cons, Engine.view_nil, store_apply, Db.revocationOfAll, Write.apply, hmap]

/-- A wrong guess on the newest code, row by row. -/
theorem VerifyOtp.view_rejection (q : VerifyOtp) {otp : OtpCode} (hids : d.otpIds.Nodup)
    (hmem : otp ∈ d.otps) (hactive : otp.consumedAt = none) :
    (∃ f, (q.rejection S d x otp).outcome = .error f) ∧ (q.rejection S d x otp).outside = x ∧
      store.view d (q.rejection S d x otp).writes =
        { d with otps := d.otps.map fun o => if o.id = otp.id then o.guessed S q.now else o } := by
  have hmap : ∀ f : OtpCode → OtpCode, f otp = otp.guessed S q.now →
      (∀ o, o.id ≠ otp.id → f o = o) →
      d.otps.map f = d.otps.map fun o => if o.id = otp.id then o.guessed S q.now else o := by
    intro f hself hother
    refine List.map_congr_left fun o ho => ?_
    by_cases hid : o.id = otp.id
    · rw [if_pos hid, List.inj_on_of_nodup_map hids ho hmem hid, hself]
    · rw [if_neg hid, hother o hid]
  have hbumped : (Write.apply d (.bumpAttempts otp.id)).otp otp.id =
      some { otp with attempts := otp.attempts + 1 } := by
    rw [Db.otp_bumpAttempts, Db.otp_of_mem hids hmem, Option.map_some, if_pos rfl]
  have hnext : d.nextAttempt otp.id =
      if otp.attempts < maxSmallInteger then some (otp.attempts + 1) else none := by
    rw [Db.nextAttempt, Db.otp_of_mem hids hmem, Option.bind_some]
  unfold rejection
  by_cases hfull : otp.attempts < maxSmallInteger
  case neg =>
    simp only [hnext, if_neg hfull]
    refine ⟨⟨_, rfl⟩, trivial, ?_⟩
    rw [← hmap id (by simp [OtpCode.guessed, hfull]) fun _ _ => rfl, List.map_id, Engine.view_nil]
  simp only [hnext, if_pos hfull]
  by_cases hmax : S.settings.otpMaxAttempts ≤ otp.attempts + 1
  · rw [if_pos hmax]
    refine ⟨⟨_, rfl⟩, rfl, ?_⟩
    have hconsumed : (Write.apply d (.bumpAttempts otp.id)).consumption otp.id q.now =
        [.consumeOtp otp.id q.now] := by
      simp only [Db.consumption, hbumped, hactive, Option.isNone_none, if_true]
    show store.view d (.bumpAttempts otp.id ::
      (Write.apply d (.bumpAttempts otp.id)).consumption otp.id q.now) = _
    rw [hconsumed]
    simp only [Engine.view_cons, Engine.view_nil, store_apply, Write.apply, List.map_map]
    rw [hmap _ (by simp [OtpCode.guessed, hfull, hmax]) fun o hid => by simp [hid]]
  · rw [if_neg hmax]
    refine ⟨⟨_, rfl⟩, rfl, ?_⟩
    simp only [Engine.view_cons, Engine.view_nil, store_apply, Write.apply]
    rw [hmap _ (by simp [OtpCode.guessed, hfull, hmax]) fun o hid => by simp [hid]]

/-- A decision that refuses makes no entry. -/
structure Decision.Sound (dec : Decision) : Prop where
  entry : ∀ f, dec.outcome = .error f → dec.entry = none

theorem UpdateProfile.decision_sound (q : UpdateProfile) (row : Option User) :
    (q.decision row).Sound := by
  refine ⟨fun f h => ?_⟩
  cases row with
  | none => rfl
  | some user =>
    by_cases hname : q.fullName.isSome ∧ q.fullName ≠ user.fullName
    · simp only [decision, if_pos hname] at h
      cases h
    · simp only [decision, if_neg hname, Decision.answer]

theorem ChangeRole.decision_sound (q : ChangeRole) (row : Option User) :
    (q.decision row).Sound := by
  refine ⟨fun f h => ?_⟩
  unfold decision at h ⊢
  cases ht : UserRole.ofValue q.role with
  | none => rfl
  | some targetRole =>
    cases row with
    | none => rfl
    | some user =>
      simp only [ht] at h ⊢
      split_ifs at h ⊢ <;> rfl

theorem DecideKyc.decision_sound (q : DecideKyc) (row : Option User) :
    (q.decision row).Sound := by
  refine ⟨fun f h => ?_⟩
  cases row with
  | none => rfl
  | some user =>
    unfold decision at h ⊢
    cases hr : user.requestedRole with
    | none => simp only [hr, Decision.refuse]
    | some requested =>
      simp only [hr] at h
      cases h

theorem ChangeStatus.decision_sound (q : ChangeStatus) (row : Option User) :
    (q.decision row).Sound := by
  refine ⟨fun f h => ?_⟩
  rcases q.decision_cases row with ⟨e, he⟩ | ⟨user, target, -, -, -, he⟩
  · rw [he]
    rfl
  · rw [he] at h
    cases h

/-- A refusing decision leaves everything as it was. -/
theorem Decision.Sound.nothing {dec : Decision} (h : dec.Sound) {f : Failure}
    (hf : dec.outcome = .error f) : dec.entry = none ∧ dec.writes = [] ∧ dec.outside x = x := by
  have hnone := h.entry f hf
  refine ⟨hnone, ?_, ?_⟩
  · rw [Decision.writes, hnone, Option.elim_none]
  · rw [Decision.outside, hnone, Option.elim_none]

theorem Decision.Sound.kept {dec : Decision} (h : dec.Sound) {f : Failure}
    (hf : dec.outcome = .error f) :
    (Effect.decided dec x).outside.observed = x.observed ∧
      store.view d (Effect.decided dec x).writes = d := by
  obtain ⟨-, hw, hout⟩ := h.nothing (x := x) hf
  simp only [Effect.decided, hw, hout]
  exact ⟨trivial, rfl⟩

theorem RequestOtp.effect_observed (q : RequestOtp) :
    (q.effect S d x).outside.observed = x.observed := by
  have hcount : (q.countIp x).observed = x.observed := by
    unfold countIp
    split
    · split_ifs <;> rfl
    · rfl
  have harm : ∀ (y : Outside) phone, (arm S y phone q).observed = y.observed := by
    intro y phone
    unfold arm
    split_ifs <;> rfl
  unfold effect
  split
  · rfl
  · split_ifs
    · exact hcount
    · dsimp only
      split
      · exact (harm _ _).trans hcount
      · exact (harm _ _).trans hcount
    · exact hcount

/-- `VerifyOtp` fails after a wrong code, or with everything as it was. -/
theorem VerifyOtp.kept_of_error (q : VerifyOtp) (hids : d.otpIds.Nodup) {f : Failure}
    (hf : (q.effect S d x).outcome = .error f) :
    (q.effect S d x).outside = x ∧
      store.view d (q.effect S d x).writes = (Request.verifyOtp q).kept S d := by
  unfold effect at hf ⊢
  simp only [Request.kept]
  cases hv : validatePhone q.phone with
  | error e => exact ⟨rfl, rfl⟩
  | ok phone =>
    simp only [hv, Except.toOption, Option.bind_some] at hf ⊢
    cases hl : d.findLatestActive phone with
    | none => exact ⟨rfl, rfl⟩
    | some otp =>
      obtain ⟨hmem, hactive⟩ := List.mem_filter.mp (List.argmax_mem hl)
      have hactive : otp.consumedAt = none := by
        rw [Bool.and_eq_true, Option.isNone_iff_eq_none] at hactive
        exact hactive.2
      simp only [hl] at hf ⊢
      by_cases hexp : otp.isExpired q.now = true
      · simp only [hexp, Bool.true_or, if_true]
        exact ⟨rfl, rfl⟩
      by_cases hcode : verifyOtpCode S q.code otp.codeHash = true
      · -- The right code: what fails then has written nothing.
        simp only [hexp, hcode, Bool.not_true, Bool.false_eq_true, if_false, Bool.or_true, if_true]
          at hf ⊢
        unfold acceptance at hf ⊢
        cases hdec : (q.decision S (d.findByPhone phone)).outcome with
        | error e => exact ⟨rfl, rfl⟩
        | ok a =>
          cases hrow : d.findByPhone phone with
          | none => exact ⟨rfl, rfl⟩
          | some user =>
            rw [hrow] at hdec
            simp only [hdec, hrow] at hf
            cases hf
      · have hwrong : (!verifyOtpCode S q.code otp.codeHash) = true := by simpa using hcode
        obtain ⟨-, hout, hview⟩ := q.view_rejection (S := S) (x := x) hids hmem hactive
        simp only [hexp, hcode, Bool.not_false, Bool.or_self, Bool.false_eq_true, if_true, if_false]
        exact ⟨hout, hview⟩

/-- `RefreshAccessToken` fails on a revoked token, whose user it logs out, or
with everything as it was. -/
theorem RefreshAccessToken.kept_of_error (q : RefreshAccessToken) (hids : d.tokenIds.Nodup)
    {f : Failure} (hf : (q.effect S d x).outcome = .error f) :
    (q.effect S d x).outside = x ∧
      store.view d (q.effect S d x).writes = (Request.refreshAccessToken q).kept S d := by
  rcases q.effect_cases S d x with
    ⟨e, he, hrev⟩ | ⟨stored, hs, hrev, he⟩ | ⟨stored, user, -, -, -, -, -, he⟩
  · refine ⟨by rw [he]; rfl, ?_⟩
    simp only [he, Request.kept, Effect.refuse, Engine.view_nil]
    cases hs : d.findByHash (hashRefreshToken S q.refreshToken) with
    | none => rfl
    | some stored => simp [hrev stored hs]
  · refine ⟨by rw [he], ?_⟩
    have hsome : stored.revokedAt.isSome = true := Option.isSome_iff_ne_none.mpr hrev
    simp only [he, Request.kept, hs, hsome, if_true]
    exact view_revocationOfAll hids _ _
  · rw [he] at hf
    cases hf

/-- **What a failing command leaves**: the cache and the event stream as they
were, and the rows that `kept` says. -/
theorem Request.kept_of_error (r : Request) (hd : d.Keyed) {f : Failure}
    (hf : (r.effect S d x).outcome = .error f) :
    (r.effect S d x).outside.observed = x.observed ∧
      store.view d (r.effect S d x).writes = r.kept S d := by
  cases r with
  | registerUser q =>
    rcases q.effect_cases d x with ⟨e, he⟩ | ⟨phone, -, -, he⟩
    · rw [effect, he]
      exact ⟨rfl, rfl⟩
    · rw [effect, he] at hf
      cases hf
  | requestOtp q =>
    refine ⟨q.effect_observed, ?_⟩
    rcases q.effect_cases S d x with ⟨-, hw⟩ | ⟨phone, -, -, -, hok, -⟩
    · rw [effect, hw]
      rfl
    · rw [effect, hok] at hf
      cases hf
  | verifyOtp q =>
    obtain ⟨hout, hview⟩ := q.kept_of_error hd.otps hf
    exact ⟨congrArg Outside.observed hout, hview⟩
  | refreshAccessToken q =>
    obtain ⟨hout, hview⟩ := q.kept_of_error hd.tokens hf
    exact ⟨congrArg Outside.observed hout, hview⟩
  | logout q =>
    obtain ⟨hok, -⟩ := q.effect_cases S d x
    rw [effect, hok] at hf
    cases hf
  | updateProfile q => exact (q.decision_sound _).kept hf
  | changeRole q => exact (q.decision_sound _).kept hf
  | decideKyc q => exact (q.decision_sound _).kept hf
  | changeStatus q =>
    obtain ⟨hentry, -, hout⟩ := (q.decision_sound _).nothing (x := x) hf
    simp only [effect, ChangeStatus.effect, hentry, hout, Option.elim_none]
    exact ⟨trivial, rfl⟩

end Refusals

/-! ### History rows -/

/-- `d'` has the histories of `d` with rows appended, and every account of
both whose status or role has changed has its row among these. -/
structure Recorded (d d' : Db) : Prop where
  status : ∃ rows, d'.statusHistory = d.statusHistory ++ rows ∧
    ∀ u ∈ d.users, ∀ u' ∈ d'.users, u'.id = u.id → u'.status ≠ u.status →
      ∃ c ∈ rows, c.userId = u.id ∧ c.fromStatus = some u.status ∧ c.toStatus = u'.status
  role : ∃ rows, d'.roleHistory = d.roleHistory ++ rows ∧
    ∀ u ∈ d.users, ∀ u' ∈ d'.users, u'.id = u.id →
      (u'.role ≠ u.role →
        ∃ c ∈ rows, c.userId = u.id ∧ c.fromRole = some u.role ∧ c.toRole = some u'.role) ∧
      (u'.requestedRole ≠ u.requestedRole → ∃ c ∈ rows, c.userId = u.id ∧ c.fromRole = some u.role)

/-- An entry leaves role and request alone, or writes a row that has them. -/
theorem Writes.role_row {S : Env} {user : User} {r : Request} {o : Except Failure Response}
    {e : Entry} (h : Writes S user r o e) :
    (e.user.role = user.role ∧ e.user.requestedRole = user.requestedRole) ∨
    ∃ c ∈ e.roleRows, c.fromRole = some user.role ∧
      (e.user.role ≠ user.role → c.toRole = some e.user.role) := by
  cases h with
  | rename | verify | transit => exact .inl ⟨rfl, rfl⟩
  | request hq ht hk hr =>
    exact .inr ⟨_, List.mem_singleton_self _, rfl, fun hne => absurd rfl hne⟩
  | grant hq ht hk hr => exact .inr ⟨_, List.mem_singleton_self _, rfl, fun _ => rfl⟩
  | @decide q requested hq hr =>
    refine .inr ⟨_, List.mem_singleton_self _, rfl, fun hne => ?_⟩
    cases hok : q.approved with
    | false => exact absurd (by simp [DecideKyc.decided, hok]) hne
    | true => simp [DecideKyc.decided, DecideKyc.decisionRow, hok]

section Histories

variable {S : Env} {d : Db} {x : Outside} {r : Request}

/-- Where no account has changed and no row is added. -/
theorem Recorded.of_unchanged {d' : Db}
    (hsame : ∀ u ∈ d.users, ∀ u' ∈ d'.users, u'.id = u.id → u' = u)
    (hstatus : d'.statusHistory = d.statusHistory) (hrole : d'.roleHistory = d.roleHistory) :
    Recorded d d' where
  status := ⟨[], hstatus.trans (List.append_nil _).symm, fun u hu u' hu' hid hne =>
    absurd (congrArg User.status (hsame u hu u' hu' hid)) hne⟩
  role := ⟨[], hrole.trans (List.append_nil _).symm, fun u hu u' hu' hid =>
    ⟨fun hne => absurd (congrArg User.role (hsame u hu u' hu' hid)) hne,
      fun hne => absurd (congrArg User.requestedRole (hsame u hu u' hu' hid)) hne⟩⟩

theorem Recorded.refl (hids : (d.users.map User.id).Nodup) : Recorded d d :=
  .of_unchanged (fun _ hu _ hu' hid => List.inj_on_of_nodup_map hids hu' hu hid) rfl rfl

/-- An entry on an account is recorded by its own rows. -/
theorem Writes.recorded {d' : Db} {user : User} {o : Except Failure Response} {e : Entry}
    (hids : (d.users.map User.id).Nodup) (hmem : user ∈ d.users) (he : Writes S user r o e)
    (husers : d'.users = d.users.map fun row =>
      if row.id = e.user.id then Write.assign e.user e.now row else row)
    (hstatus : d'.statusHistory = d.statusHistory ++ e.statusRows)
    (hrole : d'.roleHistory = d.roleHistory ++ e.roleRows) : Recorded d d' := by
  obtain ⟨heid, hstatusRows, hroleRows, -⟩ := he.about
  -- The account has the columns of the entry, the others are as they were.
  have hrow : ∀ u ∈ d.users, ∀ u' ∈ d'.users, u'.id = u.id →
      u' = u ∨ u = user ∧ u' = Write.assign e.user e.now user := by
    intro u hu u' hu' hid
    rw [husers] at hu'
    obtain ⟨row, hrow, rfl⟩ := List.mem_map.mp hu'
    by_cases hrid : row.id = e.user.id
    · rw [if_pos hrid] at hid ⊢
      have hrowUser : row = user := List.inj_on_of_nodup_map hids hrow hmem (hrid.trans heid)
      have hrowU : row = u := List.inj_on_of_nodup_map hids hrow hu hid
      exact .inr ⟨hrowU.symm.trans hrowUser, by rw [hrowUser]⟩
    · rw [if_neg hrid] at hid ⊢
      exact .inl (List.inj_on_of_nodup_map hids hrow hu hid)
  constructor
  · refine ⟨e.statusRows, hstatus, fun u hu u' hu' hid hne => ?_⟩
    rcases hrow u hu u' hu' hid with rfl | ⟨rfl, rfl⟩
    · exact absurd rfl hne
    · rcases he.status_row with ⟨-, hst⟩ | ⟨c, hc, hfrom, hto, -⟩
      · exact absurd hst hne
      · have hin : c ∈ e.statusRows := by
          rw [hc]
          exact List.mem_singleton_self c
        exact ⟨c, hin, hstatusRows c hin, hfrom, hto⟩
  · refine ⟨e.roleRows, hrole, fun u hu u' hu' hid => ?_⟩
    rcases hrow u hu u' hu' hid with rfl | ⟨rfl, rfl⟩
    · exact ⟨fun hne => absurd rfl hne, fun hne => absurd rfl hne⟩
    · rcases he.role_row with ⟨hrole, hreq⟩ | ⟨c, hc, hfrom, hto⟩
      · exact ⟨fun hne => absurd hrole hne, fun hne => absurd hreq hne⟩
      · exact ⟨fun hne => ⟨c, hc, hroleRows c hc, hfrom, hto hne⟩,
          fun _ => ⟨c, hc, hroleRows c hc, hfrom⟩⟩

/-- **What a command commits is recorded.** -/
theorem recorded_after (hids : (d.users.map User.id).Nodup) (hf : r.Fresh d) :
    Recorded d (store.run (r.prog S) [] d x).2.1 := by
  rcases World.after_cases (S := S) (w := ⟨d, x⟩) (r := r) hids hf with
    h | ⟨q, phone, rfl, h⟩ | ⟨user, e, huser, he, h⟩
  · have husers : (store.run (r.prog S) [] d x).2.1.users = d.users := congrArg Ledger.users h
    refine .of_unchanged (fun u hu u' hu' hid => ?_) (congrArg Ledger.statusHistory h)
      (congrArg Ledger.roleHistory h)
    rw [husers] at hu'
    exact List.inj_on_of_nodup_map hids hu' hu hid
  · -- A new account, which is none of those that were there.
    have husers : (store.run ((Request.registerUser q).prog S) [] d x).2.1.users =
        d.users ++ [(Account.born q phone).user] := congrArg Ledger.users h
    refine .of_unchanged (fun u hu u' hu' hid => ?_) (congrArg Ledger.statusHistory h)
      (congrArg Ledger.roleHistory h)
    rw [husers] at hu'
    rcases List.mem_append.mp hu' with hu' | hu'
    · exact List.inj_on_of_nodup_map hids hu' hu hid
    · rw [List.mem_singleton.mp hu', Account.born_id] at hid
      have hnone := List.find?_eq_none.mp (show d.findById q.newId = none from hf) u hu
      simp [hid] at hnone
  · exact he.recorded hids (Db.mem_of_findById huser).1 (congrArg Ledger.users h)
      (congrArg Ledger.statusHistory h) (congrArg Ledger.roleHistory h)

end Histories

/-! ### All or nothing -/

/-- A request alone, where its `n`-th repository call raises `e`. -/
def Request.failing (S : Env) (r : Request) (e : Failure) (n : ℕ) (d : Db) (x : Outside) :
    Except Failure Response × Db × Outside :=
  store.runFailing Call.repository e (r.prog S) n [] d x

/-- What an end of a request may be: that of a complete run, or the exception
with the rows as they were. Every change of a status or a role has its row;
and if it is an exception, the cache and the stream are as they were, and the
rows are, but for what `kept` says. -/
structure AllOrNothing (S : Env) (r : Request) (e : Failure) (d : Db) (x : Outside)
    (out : Except Failure Response × Db × Outside) : Prop where
  whole : out = store.run (r.prog S) [] d x ∨ (out.1 = .error e ∧ out.2.1 = d)
  recorded : Recorded d out.2.1
  failed : ∀ f, out.1 = .error f →
    out.2.2.stream = x.stream ∧ out.2.2.cache = x.cache ∧ (out.2.1 = d ∨ out.2.1 = r.kept S d)
  refused : ∀ f, (store.run (r.prog S) [] d x).1 = .error f →
    (store.run (r.prog S) [] d x).2.1 = r.kept S d

/-- **Every command is all or nothing**, whichever of its repository calls
raises, and if none does. -/
theorem all_or_nothing (S : Env) (r : Request) (e : Failure) (n : ℕ) {d : Db} (x : Outside)
    (hd : d.Keyed) (hf : r.Fresh d) : AllOrNothing S r e d x (r.failing S e n d x) := by
  have hrun : store.run (r.prog S) [] d x = (r.effect S d x).result d := r.run_prog S d x hd.users
  have hrefused : ∀ f, (store.run (r.prog S) [] d x).1 = .error f →
      (store.run (r.prog S) [] d x).2.2.observed = x.observed ∧
        (store.run (r.prog S) [] d x).2.1 = r.kept S d := by
    intro f hfail
    rw [hrun] at hfail ⊢
    exact r.kept_of_error hd hfail
  have hcalm : ∀ c d x, Call.calm c = true →
      Outside.observed (store.exec c d x).2.2 = x.observed := exec_calm
  rcases Engine.runFailing_cases (e := e) hcalm (r.oneCommit S) n [] d x with hout | ⟨x', hout, hx'⟩
  · rw [Request.failing, hout]
    refine ⟨.inl rfl, recorded_after hd.users hf, fun f hfail => ?_,
      fun f hfail => (hrefused f hfail).2⟩
    obtain ⟨hobserved, hkept⟩ := hrefused f hfail
    exact ⟨congrArg Prod.fst hobserved, congrArg Prod.snd hobserved, .inr hkept⟩
  · rw [Request.failing, hout]
    exact ⟨.inr ⟨rfl, rfl⟩, .refl hd.users,
      fun _ _ => ⟨congrArg Prod.fst hx', congrArg Prod.snd hx', .inl rfl⟩,
      fun f hfail => (hrefused f hfail).2⟩

/-- An active account with a code and a session. -/
def busyAccount : Db where
  users := [{ id := 7, phone := "+22507000007", role := .user, status := .active }]
  otps := [{ id := 8, phone := "+22507000007", codeHash := "h", expiresAt := 300, createdAt := 0 }]
  refreshTokens := [{ id := 9, userId := 7, tokenHash := "t", expiresAt := 900, createdAt := 0 }]

def suspending : Request :=
  .changeStatus { userId := 7, status := "suspended", reason := none, changedBy := none, now := 5 }

/-- The history row of a suspension cannot be written. -/
theorem all_or_nothing_suspending :
    AllOrNothing plainEnv suspending .database busyAccount {}
        (suspending.failing plainEnv .database 2 busyAccount {}) ∧
      (suspending.failing plainEnv .database 2 busyAccount {}).2.1 = busyAccount :=
  ⟨all_or_nothing plainEnv suspending .database 2 {} ⟨by decide, by decide, by decide⟩ trivial,
    by decide +kernel⟩

end DiddiFreeID
