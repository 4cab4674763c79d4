/-
# Where a request stands

The phases of the commands that write codes and tokens: what a request has
been answered so far, as far as its later calls depend on it. Each command
has one monitor, which fixes the next call of every phase with its
arguments, and one theorem that its program follows it, whatever the
answers (`VerifyOtp.follows`, `RefreshAccessToken.follows`).

Key definitions: `VerifyOtp.monitor`, `RefreshAccessToken.monitor`.
-/
import DiddiFreeID.Commands

namespace DiddiFreeID

open Transact

variable (S : Env)

/-! ### VerifyOtp -/

namespace VerifyOtp

inductive Phase
  | start
  /-- Nothing is left but an error. -/
  | stopped
  | wrong (otp : OtpCode)
  | counted (otp : OtpCode) (attempts : ℤ)
  | burnt (otp : OtpCode)
  | refused (otp : OtpCode)
  | right (otp : OtpCode)
  | consumed (otp : OtpCode)
  /-- The account was read, and is not suspended. -/
  | read (otp : OtpCode) (user : User)
  | saved (otp : OtpCode) (user : User)
  | recorded (otp : OtpCode) (user : User)
  | opened (otp : OtpCode) (user : User) (first : Bool)
  | committed (otp : OtpCode) (user : User) (first : Bool)
  | invalidated (otp : OtpCode) (user : User) (first : Bool)
  | announced (otp : OtpCode) (user : User)

def monitor (q : VerifyOtp) : Monitor Call Call.Resp Failure Response Phase where
  next g c r :=
    match g, c, r with
    | .start, .findLatestActive _, some otp =>
      if otp.isExpired q.now then .stopped
      else if !verifyOtpCode S q.code otp.codeHash then .wrong otp
      else .right otp
    | .wrong otp, .registerAttempt _, some attempts => .counted otp attempts
    | .counted otp _, .markConsumed .., _ => .burnt otp
    | .counted otp _, .commit, _ => .refused otp
    | .burnt otp, .commit, _ => .refused otp
    | .right otp, .markConsumed .., _ => .consumed otp
    | .consumed otp, .findByPhone _, some user =>
      if user.status = .suspended then .stopped else .read otp user
    | .read otp user, .saveUser .., true => .saved otp user
    | .read otp user, .saveToken _, _ => .opened otp user false
    | .saved otp user, .recordStatusChange _, _ => .recorded otp user
    | .recorded otp user, .saveToken _, _ => .opened otp user true
    | .opened otp user first, .commit, _ => .committed otp user first
    | .committed otp user first, .invalidateUser _, _ => .invalidated otp user first
    | .invalidated otp user _, .publish _, _ => .announced otp user
    | _, _, _ => .stopped
  may g c :=
    match g with
    | .start => ∃ phone, validatePhone q.phone = .ok phone ∧ c = .findLatestActive phone
    | .wrong otp => c = .registerAttempt otp.id
    | .counted otp attempts =>
      if S.settings.otpMaxAttempts ≤ attempts then c = .markConsumed otp.id q.now else c = .commit
    | .burnt _ => c = .commit
    | .right otp => c = .markConsumed otp.id q.now
    | .consumed _ => ∃ phone, validatePhone q.phone = .ok phone ∧ c = .findByPhone phone
    | .read _ user =>
      if user.status = .pendingVerification then c = .saveUser (activated user) q.now
      else c = .saveToken (q.newToken S user)
    | .saved _ user => c = .recordStatusChange (q.activationRow (activated user))
    | .recorded _ user => c = .saveToken (q.newToken S user)
    | .opened .. => c = .commit
    | .committed _ user _ => c = .invalidateUser user.id
    | .invalidated _ user first =>
      first = true ∧ c = .publish (.userRegistered user.id user.phone user.role q.now)
    | _ => False
  mayRet g a :=
    match g with
    | .invalidated _ user first => first = false ∧ a = q.answer S user
    | .announced _ user => a = q.answer S (activated user)
    | _ => False
  mayRaise g _ :=
    match g with
    | .start | .stopped | .refused _ => True
    | _ => False

/-- The moves between phases: one constructor for each answered call. -/
inductive Moves (q : VerifyOtp) : Phase → (c : Call) → c.Resp → Phase → Prop
  | noCode {phone} : validatePhone q.phone = .ok phone →
      Moves q .start (.findLatestActive phone) none .stopped
  | expired {phone} {otp : OtpCode} : validatePhone q.phone = .ok phone →
      otp.isExpired q.now = true → Moves q .start (.findLatestActive phone) (some otp) .stopped
  | wrong {phone} {otp : OtpCode} : validatePhone q.phone = .ok phone →
      otp.isExpired q.now = false → verifyOtpCode S q.code otp.codeHash = false →
      Moves q .start (.findLatestActive phone) (some otp) (.wrong otp)
  | right {phone} {otp : OtpCode} : validatePhone q.phone = .ok phone →
      otp.isExpired q.now = false → verifyOtpCode S q.code otp.codeHash = true →
      Moves q .start (.findLatestActive phone) (some otp) (.right otp)
  | count {otp attempts} : Moves q (.wrong otp) (.registerAttempt otp.id) (some attempts)
      (.counted otp attempts)
  | lost {otp} : Moves q (.wrong otp) (.registerAttempt otp.id) none .stopped
  | burn {otp attempts} : S.settings.otpMaxAttempts ≤ attempts →
      Moves q (.counted otp attempts) (.markConsumed otp.id q.now) () (.burnt otp)
  | refuse {otp attempts} : attempts < S.settings.otpMaxAttempts →
      Moves q (.counted otp attempts) .commit () (.refused otp)
  | refuseBurnt {otp} : Moves q (.burnt otp) .commit () (.refused otp)
  | consume {otp} : Moves q (.right otp) (.markConsumed otp.id q.now) () (.consumed otp)
  | noAccount {otp phone} : validatePhone q.phone = .ok phone →
      Moves q (.consumed otp) (.findByPhone phone) none .stopped
  | suspended {otp phone} {user : User} : validatePhone q.phone = .ok phone →
      user.status = .suspended → Moves q (.consumed otp) (.findByPhone phone) (some user) .stopped
  | read {otp phone} {user : User} : validatePhone q.phone = .ok phone →
      user.status ≠ .suspended →
      Moves q (.consumed otp) (.findByPhone phone) (some user) (.read otp user)
  | save {otp} {user : User} : user.status = .pendingVerification →
      Moves q (.read otp user) (.saveUser (activated user) q.now) true (.saved otp user)
  | unsaved {otp} {user : User} : user.status = .pendingVerification →
      Moves q (.read otp user) (.saveUser (activated user) q.now) false .stopped
  | record {otp user} : Moves q (.saved otp user)
      (.recordStatusChange (q.activationRow (activated user))) () (.recorded otp user)
  | openFirst {otp user} : Moves q (.recorded otp user) (.saveToken (q.newToken S user)) ()
      (.opened otp user true)
  | openAgain {otp} {user : User} : user.status ≠ .pendingVerification →
      Moves q (.read otp user) (.saveToken (q.newToken S user)) () (.opened otp user false)
  | commit {otp user first} : Moves q (.opened otp user first) .commit ()
      (.committed otp user first)
  | invalidate {otp user first} : Moves q (.committed otp user first) (.invalidateUser user.id) ()
      (.invalidated otp user first)
  | announce {otp user} : Moves q (.invalidated otp user true)
      (.publish (.userRegistered user.id user.phone user.role q.now)) () (.announced otp user)

/-- The account a first verification leaves is not `pending_verification`. -/
theorem activated_status_ne (user : User) : (activated user).status ≠ .pendingVerification := by
  unfold activated
  simp only
  split_ifs <;> simp

/-- The writes of a login: on its code, of an account past its first
verification, of a row of the history, of a token. -/
inductive LoginWrite : Write → Prop
  | count (id : Uuid) : LoginWrite (.bumpAttempts id)
  | consume (id : Uuid) (now : Time) : LoginWrite (.consumeOtp id now)
  | update {u : User} (now : Time) : u.status ≠ .pendingVerification → LoginWrite (.updateUser u now)
  | insert {u : User} : u.status ≠ .pendingVerification → LoginWrite (.insertUser u)
  | record (c : UserStatusChange) : LoginWrite (.insertStatus c)
  | openSession (t : RefreshToken) : LoginWrite (.insertToken t)

theorem Moves.writes {q : VerifyOtp} {g g' : Phase} {c : Call} {r : c.Resp}
    (h : Moves S q g c r g') (d : Db) (x : Outside) : ∀ w ∈ (exec c d x).2.1, LoginWrite w := by
  intro w hw
  cases h with
  | count | lost =>
    rw [Db.eq_of_mem_registerAttempt hw]
    exact .count _
  | burn | consume =>
    rw [Db.eq_of_mem_consumption hw]
    exact .consume _ _
  | @save otp user | @unsaved otp user =>
    rcases Db.eq_of_mem_saveUser hw with rfl | rfl
    · exact .update _ (activated_status_ne user)
    · exact .insert (activated_status_ne user)
  | record =>
    rw [List.mem_singleton.mp hw]
    exact .record _
  | openFirst | openAgain =>
    rw [List.mem_singleton.mp hw]
    exact .openSession _
  | _ => exact absurd hw List.not_mem_nil

/-- Every call the monitor allows is one of the moves. -/
theorem moves {q : VerifyOtp} {g : Phase} {c : Call} (h : (q.monitor S).may g c) (r : c.Resp) :
    Moves S q g c r ((q.monitor S).next g c r) := by
  cases g with
  | start =>
    obtain ⟨phone, hp, rfl⟩ := h
    cases r with
    | none => exact .noCode hp
    | some otp =>
      simp only [monitor]
      split_ifs with he hc
      · exact .expired hp he
      · exact .wrong hp (by simpa using he) (by simpa using hc)
      · exact .right hp (by simpa using he) (by simpa using hc)
  | wrong otp =>
    simp only [monitor] at h
    subst h
    cases r with
    | none => exact .lost
    | some attempts => exact .count
  | counted otp attempts =>
    simp only [monitor] at h
    split_ifs at h with hm
    · subst h
      exact .burn hm
    · subst h
      exact .refuse (by omega)
  | consumed otp =>
    obtain ⟨phone, hp, rfl⟩ := h
    cases r with
    | none => exact .noAccount hp
    | some user =>
      simp only [monitor]
      split_ifs with hs
      · exact .suspended hp hs
      · exact .read hp hs
  | read otp user =>
    simp only [monitor] at h
    split_ifs at h with hs
    · subst h
      cases r with
      | false => exact .unsaved hs
      | true => exact .save hs
    · subst h
      exact .openAgain hs
  | invalidated otp user first =>
    obtain ⟨rfl, rfl⟩ := h
    exact .announce
  | burnt otp | right otp | saved otp user | recorded otp user | opened otp user first
  | committed otp user first =>
    simp only [monitor] at h
    subst h
    constructor
  | stopped | refused | announced => exact absurd h fun h => h

theorem follows_openSession (q : VerifyOtp) (otp : OtpCode) (user : User) (first : Bool)
    {g : Phase} (hg : (g = .read otp user ∧ user.status ≠ .pendingVerification ∧ first = false) ∨
      (g = .recorded otp user ∧ first = true)) :
    (q.openSession S (if first then activated user else user) first).Follows (q.monitor S) g := by
  unfold openSession
  rcases hg with ⟨rfl, hs, rfl⟩ | ⟨rfl, rfl⟩
  · simp [monitor, hs]
  · simp [monitor, newToken, activated]

theorem follows_reject (q : VerifyOtp) (otp : OtpCode) :
    (q.reject S otp).Follows (q.monitor S) (.wrong otp) := by
  unfold reject
  rw [registerAttempt_bind]
  refine ⟨rfl, fun attempts => ?_⟩
  cases attempts with
  | none => trivial
  | some attempts =>
    dsimp only [Option.elim]
    split_ifs with h
    · simp [monitor, h]
    · simp [monitor, h]

theorem follows_accept (q : VerifyOtp) (otp : OtpCode) {phone : String}
    (hp : validatePhone q.phone = .ok phone) :
    (q.accept S otp phone).Follows (q.monitor S) (.right otp) := by
  unfold accept
  rw [markConsumed_bind]
  refine ⟨rfl, fun _ => ?_⟩
  rw [findByPhone_bind]
  refine ⟨⟨phone, hp, rfl⟩, fun user => ?_⟩
  cases user with
  | none => trivial
  | some user =>
    change Prog.Follows (q.monitor S) (if user.status = .suspended then .stopped else .read otp user) _
    dsimp only
    by_cases hsus : user.status = .suspended
    · rw [if_pos hsus, if_pos hsus]
      trivial
    · rw [if_neg hsus, if_neg hsus]
      by_cases hpv : user.status = .pendingVerification
      · rw [if_pos hpv, saveUser_bind]
        refine ⟨by simp [monitor, hpv], fun saved => ?_⟩
        cases saved with
        | false => trivial
        | true =>
          dsimp only
          rw [if_pos rfl, recordStatusChange_bind]
          exact ⟨rfl, fun _ => follows_openSession S q otp user true (.inr ⟨rfl, rfl⟩)⟩
      · rw [if_neg hpv]
        exact follows_openSession S q otp user false (.inl ⟨rfl, hpv, rfl⟩)

/-- `VerifyOtp` goes through its phases. -/
theorem follows (q : VerifyOtp) : (q.call S).Follows (q.monitor S) .start := by
  unfold call
  cases hp : validatePhone q.phone with
  | error e => trivial
  | ok phone =>
    rw [check_ok_bind, findLatestActive_bind]
    refine ⟨⟨phone, hp, rfl⟩, fun otp => ?_⟩
    cases otp with
    | none => trivial
    | some otp =>
      change Prog.Follows (q.monitor S) (if otp.isExpired q.now then .stopped
        else if !verifyOtpCode S q.code otp.codeHash then .wrong otp else .right otp) _
      dsimp only
      split_ifs
      · trivial
      · exact q.follows_reject S otp
      · exact q.follows_accept S otp hp

end VerifyOtp

/-! ### RefreshAccessToken -/

namespace RefreshAccessToken

inductive Phase
  | start
  /-- Nothing is left but a 401. -/
  | stopped
  /-- The account may not hold a session. -/
  | refused
  /-- The token presented was revoked already. -/
  | replayed (stored : RefreshToken)
  | listed (stored : RefreshToken) (ids : List Uuid)
  | closing (stored : RefreshToken)
  | found (stored : RefreshToken)
  | allowed (stored : RefreshToken) (user : User)
  | claimed (stored : RefreshToken) (user : User)
  | rotated (stored : RefreshToken) (user : User)
  | committed (stored : RefreshToken) (user : User)

def monitor (q : RefreshAccessToken) : Monitor Call Call.Resp Failure Response Phase where
  next g c r :=
    match g, c, r with
    | .start, .findByHash _, some stored =>
      if stored.revokedAt.isSome then .replayed stored
      else if stored.expiresAt ≤ q.now then .stopped
      else .found stored
    | .replayed stored, .liveTokens _, ids => .listed stored ids
    | .listed stored _, .revokeThese .., _ => .closing stored
    | .found stored, .findById _, some user =>
      if user.status ∈ sessionAllowedStatuses then .allowed stored user else .refused
    | .allowed stored user, .revoke .., _ => .claimed stored user
    | .claimed stored user, .saveToken _, _ => .rotated stored user
    | .rotated stored user, .commit, _ => .committed stored user
    | _, _, _ => .stopped
  may g c :=
    match g with
    | .start => c = .findByHash (hashRefreshToken S q.refreshToken)
    | .replayed stored => c = .liveTokens stored.userId
    | .listed _ ids => c = .revokeThese ids q.now
    | .closing _ => c = .commit
    | .found stored => c = .findById stored.userId
    | .allowed stored _ => c = .revoke stored.id q.now
    | .claimed stored user => c = .saveToken (q.newToken S stored user)
    | .rotated .. => c = .commit
    | _ => False
  mayRet g a :=
    match g with
    | .committed _ user => a = q.answer S user
    | _ => False
  mayRaise g e :=
    match g with
    | .stopped => ∃ a : ApiError, e = .api a ∧ a.statusCode = 401
    | .refused => e = .api userNotActive
    | _ => False

/-- The moves between phases: one constructor for each answered call. -/
inductive Moves (q : RefreshAccessToken) : Phase → (c : Call) → c.Resp → Phase → Prop
  | unknown : Moves q .start (.findByHash (hashRefreshToken S q.refreshToken)) none .stopped
  | replay {stored : RefreshToken} : stored.revokedAt.isSome = true →
      Moves q .start (.findByHash (hashRefreshToken S q.refreshToken)) (some stored)
        (.replayed stored)
  | expired {stored : RefreshToken} : stored.revokedAt = none → stored.expiresAt ≤ q.now →
      Moves q .start (.findByHash (hashRefreshToken S q.refreshToken)) (some stored) .stopped
  | find {stored : RefreshToken} : stored.revokedAt = none → q.now < stored.expiresAt →
      Moves q .start (.findByHash (hashRefreshToken S q.refreshToken)) (some stored)
        (.found stored)
  | list {stored ids} : Moves q (.replayed stored) (.liveTokens stored.userId) ids
      (.listed stored ids)
  | revokeAll {stored ids n} : Moves q (.listed stored ids) (.revokeThese ids q.now) n
      (.closing stored)
  | close {stored} : Moves q (.closing stored) .commit () .stopped
  | noAccount {stored} : Moves q (.found stored) (.findById stored.userId) none .stopped
  | allow {stored} {user : User} : user.status ∈ sessionAllowedStatuses →
      Moves q (.found stored) (.findById stored.userId) (some user) (.allowed stored user)
  | refuse {stored} {user : User} : user.status ∉ sessionAllowedStatuses →
      Moves q (.found stored) (.findById stored.userId) (some user) .refused
  | revoke {stored user} : Moves q (.allowed stored user) (.revoke stored.id q.now) ()
      (.claimed stored user)
  | rotate {stored user} : Moves q (.claimed stored user) (.saveToken (q.newToken S stored user)) ()
      (.rotated stored user)
  | commit {stored user} : Moves q (.rotated stored user) .commit () (.committed stored user)

/-- Every call the monitor allows is one of the moves. -/
theorem moves {q : RefreshAccessToken} {g : Phase} {c : Call} (h : (q.monitor S).may g c)
    (r : c.Resp) : Moves S q g c r ((q.monitor S).next g c r) := by
  cases g with
  | start =>
    simp only [monitor] at h
    subst h
    cases r with
    | none => exact .unknown
    | some stored =>
      simp only [monitor]
      split_ifs with hr he
      · exact .replay hr
      · exact .expired (by simpa using hr) he
      · exact .find (by simpa using hr) (not_le.mp he)
  | found stored =>
    simp only [monitor] at h
    subst h
    cases r with
    | none => exact .noAccount
    | some user =>
      simp only [monitor]
      split_ifs with hs
      · exact .allow hs
      · exact .refuse hs
  | replayed stored | listed stored ids | closing stored | allowed stored user
  | claimed stored user | rotated stored user =>
    simp only [monitor] at h
    subst h
    constructor
  | stopped | refused | committed => exact absurd h fun h => h

/-- `RefreshAccessToken` goes through its phases. -/
theorem follows (q : RefreshAccessToken) : (q.call S).Follows (q.monitor S) .start := by
  unfold call
  rw [findByHash_bind]
  refine ⟨rfl, fun stored => ?_⟩
  cases stored with
  | none => exact ⟨_, rfl, rfl⟩
  | some stored =>
    change Prog.Follows (q.monitor S) (if stored.revokedAt.isSome then .replayed stored
      else if stored.expiresAt ≤ q.now then .stopped else .found stored) _
    dsimp only
    split_ifs with hr he
    · exact ⟨rfl, fun _ => ⟨rfl, fun _ => ⟨rfl, fun _ => ⟨_, rfl, rfl⟩⟩⟩⟩
    · exact ⟨_, rfl, rfl⟩
    · rw [findById_bind]
      refine ⟨rfl, fun user => ?_⟩
      cases user with
      | none => exact ⟨_, rfl, rfl⟩
      | some user =>
        change Prog.Follows (q.monitor S)
          (if user.status ∈ sessionAllowedStatuses then .allowed stored user else .refused) _
        dsimp only
        by_cases hs : user.status ∈ sessionAllowedStatuses
        · rw [if_pos hs, if_neg (not_not.mpr hs)]
          exact ⟨rfl, fun _ => ⟨rfl, fun _ => ⟨rfl, fun _ => rfl⟩⟩⟩
        · rw [if_neg hs, if_pos hs]
          rfl

end RefreshAccessToken
end DiddiFreeID
