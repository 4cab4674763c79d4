/-
# Opening and closing sessions

The stages of a request that opens sessions (`VerifyOtp`,
`RefreshAccessToken`) or closes them (`Logout`, `ChangeStatus`), as far as
tokens and the status of an account depend on them: one monitor for the four
commands, which each of them follows (`SessionRequest.follows`).

Key definitions: `SessionRequest`, `Stage`, `SessionRequest.monitor`, `SessionRequest.Moves`.
Key theorems: `SessionRequest.follows`, `SessionRequest.moves`.
-/
import DiddiFreeID.Phases

namespace DiddiFreeID

open Transact Engine

/-- A request to one of the four commands. -/
inductive SessionRequest
  | refreshAccessToken (q : RefreshAccessToken)
  | verifyOtp (q : VerifyOtp)
  | logout (q : Logout)
  | changeStatus (q : ChangeStatus)

/-- Does the answer carry an access token for the account `u`, with a status
that modules act on or wait for? -/
def Response.grants (u : Uuid) : Response → Bool
  | .authenticated a _ _ | .tokenPair a _ =>
    decide (a.sub = u) && (a.status == "active" || a.status == "pending_kyc")
  | _ => false

/-- Where a request stands. -/
inductive Stage
  /-- Nothing is written but codes. -/
  | idle
  | found (stored : RefreshToken)
  /-- The account of `stored` may hold a session. -/
  | rotating (stored : RefreshToken)
  | claimed (stored : RefreshToken)
  /-- `t` is stored, in the place of `old` if it is a rotation. -/
  | opened (t : RefreshToken) (old : Option Uuid)
  /-- It is committed, and the answer is due. -/
  | granted (t : RefreshToken) (old : Option Uuid)
  | saved (user : User)
  /-- The bulk update has picked its rows, after `user` was suspended. -/
  | listed (userId : Uuid) (ids : List Uuid) (user : Option User)
  | closing (userId : Uuid) (user : Option User)
  | released
  | ended
  /-- The store answered with the row of another account. -/
  | mistaken

namespace SessionRequest

variable (S : Env)

def prog : SessionRequest → Cmd Response
  | refreshAccessToken q => q.call S
  | verifyOtp q => q.call S
  | logout q => q.call S
  | changeStatus q => q.call

/-- Does the request present a token? -/
def presents : SessionRequest → Prop
  | refreshAccessToken _ | logout _ => True
  | _ => False

/-- The id drawn for a new token. -/
def newTokenId : SessionRequest → Option Uuid
  | refreshAccessToken q => some q.newTokenId
  | verifyOtp q => some q.newTokenId
  | _ => none

/-- Accounts that the request may save. -/
def saves (user : User) : SessionRequest → Prop
  | verifyOtp _ => user.status ≠ .suspended
  | changeStatus q =>
    user.id = q.userId ∧ user.status ∈ adminSettableStatuses ∧ user.status.value = q.status
  | _ => False

/-- Is it a `ChangeStatus`? -/
def isChangeStatus : SessionRequest → Prop
  | changeStatus _ => True
  | _ => False

end SessionRequest

/-- Reads of accounts, and all that is done to codes. -/
def Call.preparatory : Call → Bool
  | .findById _ | .findByPhone _ | .findLatestActive _ | .registerAttempt _ | .markConsumed .. => true
  | _ => false

/-- What follows a commit. -/
def Call.following : Call → Bool
  | .invalidateUser _ | .publish _ => true
  | _ => false

namespace SessionRequest

variable (S : Env)

def monitor (o : SessionRequest) : Monitor Call Call.Resp Failure Response Stage where
  next g c r :=
    match g, c, r with
    | .idle, .findByHash _, some stored => .found stored
    | .idle, .findById id, some user => if user.id = id then .idle else .mistaken
    | .idle, .saveUser user _, true => .saved user
    | .idle, .saveUser .., false => .ended
    | .idle, .saveToken t, _ => .opened t none
    | .idle, .commit, _ => .ended
    | .found stored, .findById id, some user =>
      if user.id ≠ id then .mistaken
      else if user.status ∈ sessionAllowedStatuses then .rotating stored
      else .ended
    | .found _, .findById _, none => .ended
    | .found _, .liveTokens userId, ids => .listed userId ids none
    | .found _, .revoke .., _ => .released
    | .rotating stored, .revoke .., _ => .claimed stored
    | .claimed stored, .saveToken t, _ => .opened t (some stored.id)
    | .opened t old, .commit, _ => .granted t old
    | .saved _, .saveToken t, _ => .opened t none
    | .saved user, .liveTokens userId, ids => .listed userId ids (some user)
    | .saved _, .commit, _ => .ended
    | .listed userId _ user, .revokeThese .., _ => .closing userId user
    | .closing .., .commit, _ => .ended
    | .released, .commit, _ => .ended
    | g, _, _ => g
  may g c :=
    match g with
    | .idle => c.preparatory = true ∨ (∃ hash, c = .findByHash hash ∧ o.presents) ∨
        (∃ user now, c = .saveUser user now ∧ o.saves user) ∨
        (∃ t, c = .saveToken t ∧ o.newTokenId = some t.id) ∨ c = .commit ∧ ¬o.isChangeStatus
    | .found stored => c = .findById stored.userId ∨ c = .liveTokens stored.userId ∨
        ∃ now, c = .revoke stored.id now
    | .rotating stored => ∃ now, c = .revoke stored.id now
    | .claimed stored => ∃ t, c = .saveToken t ∧ t.userId = stored.userId ∧ o.newTokenId = some t.id
    | .opened .. => c = .commit
    | .granted .. => c.following = true
    | .saved user => (∃ row, c = .recordStatusChange row) ∨
        (user.status = .suspended ∧ c = .liveTokens user.id) ∨
        user.status ≠ .suspended ∧ (c = .commit ∧ o.isChangeStatus ∨
          ∃ t, c = .saveToken t ∧ t.userId = user.id ∧ o.newTokenId = some t.id)
    | .listed _ ids _ => ∃ now, c = .revokeThese ids now
    | .closing .. => c = .commit
    | .released => c = .commit
    | .ended => c.following = true
    | .mistaken => True
  mayRet g a :=
    match g with
    | .idle | .ended => ∀ u, a.grants u = false
    | .granted t _ => ∀ u, a.grants u = true → t.userId = u
    | .mistaken => True
    | _ => False
  mayRaise g _ :=
    match g with
    | .idle | .found _ | .ended | .mistaken => True
    | _ => False

variable {o : SessionRequest}

theorem follows_mistaken (p : Cmd Response) : p.Follows o.monitor .mistaken := by
  induction p with
  | ret | raise => trivial
  | call c k ih => exact ⟨trivial, fun r => ih r⟩

/-- `VerifyOtp` from the call that opens the session. -/
theorem follows_openSession (q : VerifyOtp) (user : User) (first : Bool) {g : Stage}
    (hg : g = .idle ∨ ∃ v, g = .saved v ∧ v.status ≠ .suspended ∧ v.id = user.id) :
    (q.openSession S user first).Follows (verifyOtp q).monitor g := by
  have hret : (verifyOtp q).monitor.mayRet (.granted (q.newToken S user) none) (q.answer S user) := by
    intro u hu
    simp only [VerifyOtp.answer, Response.grants, issueAccessToken, Bool.and_eq_true] at hu
    exact of_decide_eq_true hu.1
  unfold VerifyOtp.openSession
  rw [saveToken_bind]
  have hrest : ∀ g', g' = Stage.opened (q.newToken S user) none → Prog.Follows (verifyOtp q).monitor g' (do
      commit
      invalidateUser user.id
      if first then
        publish (.userRegistered user.id user.phone user.role q.now)
      return q.answer S user : Cmd Response) := by
    rintro _ rfl
    rw [commit_bind]
    refine ⟨rfl, fun _ => ⟨rfl, fun _ => ?_⟩⟩
    cases first with
    | false => exact hret
    | true => exact ⟨rfl, fun _ => hret⟩
  rcases hg with rfl | ⟨v, rfl, hs, hid⟩
  · exact ⟨.inr (.inr (.inr (.inl ⟨_, rfl, rfl⟩))), fun _ => hrest _ rfl⟩
  · exact ⟨.inr (.inr ⟨hs, .inr ⟨_, rfl, hid.symm, rfl⟩⟩), fun _ => hrest _ rfl⟩

theorem follows_verifyOtp (q : VerifyOtp) :
    (q.call S).Follows (verifyOtp q).monitor .idle := by
  unfold VerifyOtp.call
  cases hp : validatePhone q.phone with
  | error e => trivial
  | ok phone =>
    rw [check_ok_bind, findLatestActive_bind]
    refine ⟨.inl rfl, fun otp => ?_⟩
    cases otp with
    | none => trivial
    | some otp =>
      change Prog.Follows _ Stage.idle _
      dsimp only
      split_ifs
      · trivial
      · -- a wrong code: codes are written, and committed
        unfold VerifyOtp.reject
        rw [registerAttempt_bind]
        refine ⟨.inl rfl, fun attempts => ?_⟩
        cases attempts with
        | none => trivial
        | some attempts =>
          change Prog.Follows _ Stage.idle _
          dsimp only [Option.elim]
          split_ifs
          · exact ⟨.inl rfl, fun _ => ⟨.inr (.inr (.inr (.inr ⟨rfl, fun h => h⟩))), fun _ => trivial⟩⟩
          · exact ⟨.inr (.inr (.inr (.inr ⟨rfl, fun h => h⟩))), fun _ => trivial⟩
      · unfold VerifyOtp.accept
        rw [markConsumed_bind]
        refine ⟨.inl rfl, fun _ => ?_⟩
        rw [findByPhone_bind]
        refine ⟨.inl rfl, fun user => ?_⟩
        cases user with
        | none => trivial
        | some user =>
          change Prog.Follows _ Stage.idle _
          dsimp only
          split_ifs with hsus hpv
          · trivial
          · have hne : (VerifyOtp.activated user).status ≠ UserStatus.suspended := by
              unfold VerifyOtp.activated
              simp only
              split_ifs <;> simp
            rw [saveUser_bind]
            refine ⟨.inr (.inr (.inl ⟨_, _, rfl, hne⟩)), fun saved => ?_⟩
            cases saved with
            | false => trivial
            | true =>
              dsimp only
              rw [if_pos rfl, recordStatusChange_bind]
              exact ⟨.inl ⟨_, rfl⟩, fun _ =>
                follows_openSession S q _ true (.inr ⟨_, rfl, hne, rfl⟩)⟩
          · exact follows_openSession S q user false (.inl rfl)

theorem follows_refreshAccessToken (q : RefreshAccessToken) :
    (q.call S).Follows (refreshAccessToken q).monitor .idle := by
  unfold RefreshAccessToken.call
  rw [findByHash_bind]
  refine ⟨.inr (.inl ⟨_, rfl, trivial⟩), fun stored => ?_⟩
  cases stored with
  | none => trivial
  | some stored =>
    change Prog.Follows _ (Stage.found stored) _
    dsimp only
    split_ifs with hr he
    · rw [revokeAllForUser_bind]
      exact ⟨.inr (.inl rfl), fun _ => ⟨⟨_, rfl⟩, fun _ => ⟨rfl, fun _ => trivial⟩⟩⟩
    · trivial
    · rw [findById_bind]
      refine ⟨.inl rfl, fun user => ?_⟩
      cases user with
      | none => trivial
      | some user =>
        change Prog.Follows _ (if user.id ≠ stored.userId then Stage.mistaken
          else if user.status ∈ sessionAllowedStatuses then Stage.rotating stored
          else Stage.ended) _
        dsimp only
        by_cases hid : user.id = stored.userId
        · rw [if_neg (not_not.mpr hid)]
          by_cases hs : user.status ∈ sessionAllowedStatuses
          · rw [if_pos hs, if_neg (not_not.mpr hs)]
            refine ⟨⟨_, rfl⟩, fun _ => ⟨⟨_, rfl, hid, rfl⟩, fun _ => ⟨rfl, fun _ u hu => ?_⟩⟩⟩
            simp only [RefreshAccessToken.answer, Response.grants, issueAccessToken,
              Bool.and_eq_true] at hu
            exact of_decide_eq_true hu.1
          · rw [if_neg hs, if_pos hs]
            trivial
        · rw [if_pos hid]
          exact follows_mistaken _

theorem follows_logout (q : Logout) : (q.call S).Follows (logout q).monitor .idle := by
  unfold Logout.call
  rw [findByHash_bind]
  refine ⟨.inr (.inl ⟨_, rfl, trivial⟩), fun stored => ?_⟩
  cases stored with
  | none => exact fun _ => rfl
  | some stored =>
    change Prog.Follows _ (Stage.found stored) _
    dsimp only
    split_ifs
    · rw [revokeAllForUser_bind]
      exact ⟨.inr (.inl rfl), fun _ => ⟨⟨_, rfl⟩, fun _ => ⟨rfl, fun _ _ => rfl⟩⟩⟩
    · rw [revoke_bind]
      exact ⟨.inr (.inr ⟨_, rfl⟩), fun _ => ⟨rfl, fun _ _ => rfl⟩⟩

theorem follows_changeStatus (q : ChangeStatus) :
    q.call.Follows (changeStatus q).monitor .idle := by
  unfold ChangeStatus.call
  cases ht : UserStatus.ofValue q.status with
  | none => trivial
  | some target =>
    have hval : target.value = q.status := by simpa using List.find?_some ht
    dsimp only
    by_cases hset : target ∈ adminSettableStatuses
    · rw [if_neg (not_not.mpr hset), findById_bind]
      refine ⟨.inl rfl, fun user => ?_⟩
      cases user with
      | none => trivial
      | some user =>
        change Prog.Follows _ (if user.id = q.userId then Stage.idle else Stage.mistaken) _
        dsimp only
        by_cases hid : user.id = q.userId
        · rw [if_pos hid]
          by_cases hc : (!canTransition user.status target) = true
          · rw [if_pos hc]
            trivial
          · rw [if_neg hc, saveUser_bind]
            refine ⟨.inr (.inr (.inl ⟨_, _, rfl, hid, hset, hval⟩)), fun saved => ?_⟩
            cases saved with
            | false => trivial
            | true =>
              dsimp only
              rw [if_pos rfl, recordStatusChange_bind]
              refine ⟨.inl ⟨_, rfl⟩, fun _ => ?_⟩
              by_cases hsus : target = .suspended
              · rw [if_pos hsus, revokeAllForUser_bind]
                exact ⟨.inr (.inl ⟨hsus, rfl⟩), fun _ => ⟨⟨_, rfl⟩, fun _ =>
                  ⟨rfl, fun _ => ⟨rfl, fun _ => ⟨rfl, fun _ _ => rfl⟩⟩⟩⟩⟩
              · rw [if_neg hsus]
                exact ⟨.inr (.inr ⟨hsus, .inl ⟨rfl, trivial⟩⟩), fun _ =>
                  ⟨rfl, fun _ => ⟨rfl, fun _ _ => rfl⟩⟩⟩
        · rw [if_neg hid]
          exact follows_mistaken _
    · rw [if_pos hset]
      trivial

/-- The four commands go through these stages. -/
theorem follows (o : SessionRequest) : (o.prog S).Follows o.monitor .idle := by
  cases o with
  | refreshAccessToken q => exact follows_refreshAccessToken S q
  | verifyOtp q => exact follows_verifyOtp S q
  | logout q => exact follows_logout S q
  | changeStatus q => exact follows_changeStatus q

/-- The moves between stages on the rows `d` a request sees: one constructor
for each kind of answered call. -/
inductive Moves (o : SessionRequest) (d : Db) : Stage → Call → Stage → Prop
  | prepare {c : Call} : c.preparatory = true → Moves o d .idle c .idle
  | settle : ¬o.isChangeStatus → Moves o d .idle .commit .ended
  | unknown {hash} : Moves o d .idle (.findByHash hash) .idle
  | find {hash stored} : o.presents → d.findByHash hash = some stored →
      Moves o d .idle (.findByHash hash) (.found stored)
  | save {user now} : o.saves user → Moves o d .idle (.saveUser user now) (.saved user)
  | unsaved {user now} : (d.saveUser user now).1 = false →
      Moves o d .idle (.saveUser user now) .ended
  | login {t} : o.newTokenId = some t.id → Moves o d .idle (.saveToken t) (.opened t none)
  | refuse {stored} : Moves o d (.found stored) (.findById stored.userId) .ended
  | allow {stored} : Moves o d (.found stored) (.findById stored.userId) (.rotating stored)
  | list {stored} : Moves o d (.found stored) (.liveTokens stored.userId)
      (.listed stored.userId (d.liveTokens stored.userId) none)
  | release {stored now} : Moves o d (.found stored) (.revoke stored.id now) .released
  | claim {stored now} : Moves o d (.rotating stored) (.revoke stored.id now) (.claimed stored)
  | rotate {stored t} : t.userId = stored.userId → o.newTokenId = some t.id →
      Moves o d (.claimed stored) (.saveToken t) (.opened t (some stored.id))
  | grant {t old} : Moves o d (.opened t old) .commit (.granted t old)
  | deliver {t old} {c : Call} : c.following = true → Moves o d (.granted t old) c (.granted t old)
  | record {user row} : Moves o d (.saved user) (.recordStatusChange row) (.saved user)
  | listSuspended {user : User} : user.status = .suspended → Moves o d (.saved user)
      (.liveTokens user.id) (.listed user.id (d.liveTokens user.id) (some user))
  | loginFirst {user : User} {t} : t.userId = user.id → o.newTokenId = some t.id →
      Moves o d (.saved user) (.saveToken t) (.opened t none)
  | settleSaved {user : User} : user.status ≠ .suspended → o.isChangeStatus →
      Moves o d (.saved user) .commit .ended
  | revokeAll {userId ids user now} : Moves o d (.listed userId ids user) (.revokeThese ids now)
      (.closing userId user)
  | close {userId user} : Moves o d (.closing userId user) .commit .ended
  | closeOne : Moves o d .released .commit .ended
  | follow {c : Call} : c.following = true → Moves o d .ended c .ended

section Moves

variable {g : Stage} {c : Call}

/-- What follows a commit moves nothing. -/
theorem next_following (hc : c.following = true) (r : c.Resp) : o.monitor.next g c r = g := by
  cases c with
  | invalidateUser | publish => cases g <;> rfl
  | _ => cases hc

/-- A preparatory call that finds the account it asked for leaves a request
idle. -/
theorem next_preparatory (hc : c.preparatory = true) (d : Db) (x : Outside) :
    o.monitor.next .idle c (exec c d x).1 = .idle := by
  cases c with
  | findById id =>
    cases hu : d.findById id with
    | none =>
      simp only [exec, hu]
      rfl
    | some user =>
      simp only [exec, hu]
      exact if_pos (Db.mem_of_findById hu).2
  | findByPhone | findLatestActive | registerAttempt | markConsumed => rfl
  | _ => cases hc

theorem moves_idle (h : o.monitor.may .idle c) (d : Db) (x : Outside) :
    Moves o d .idle c (o.monitor.next .idle c (exec c d x).1) := by
  rcases h with hp | ⟨hash, rfl, ho⟩ | ⟨user, now, rfl, ho⟩ | ⟨t, rfl, ht⟩ | ⟨rfl, ho⟩
  · rw [next_preparatory hp]
    exact .prepare hp
  · cases hf : d.findByHash hash with
    | none =>
      simp only [exec, hf]
      exact .unknown
    | some stored =>
      simp only [exec, hf]
      exact .find ho hf
  · cases hs : (d.saveUser user now).1 with
    | true =>
      simp only [exec, hs]
      exact .save ho
    | false =>
      simp only [exec, hs]
      exact .unsaved hs
  · exact .login ht
  · exact .settle ho

theorem moves_found {stored : RefreshToken} (h : o.monitor.may (.found stored) c) (d : Db)
    (x : Outside) :
    Moves o d (.found stored) c (o.monitor.next (.found stored) c (exec c d x).1) := by
  rcases h with rfl | rfl | ⟨now, rfl⟩
  · cases hu : d.findById stored.userId with
    | none =>
      simp only [exec, hu]
      exact .refuse
    | some user =>
      have hid := (Db.mem_of_findById hu).2
      have hnext : o.monitor.next (.found stored) (.findById stored.userId) (some user) =
          if user.status ∈ sessionAllowedStatuses then .rotating stored else .ended :=
        if_neg (not_not.mpr hid)
      simp only [exec, hu, hnext]
      split_ifs
      · exact .allow
      · exact .refuse
  · exact .list
  · exact .release

/-- Every call the monitor allows is one of the moves. -/
theorem moves (h : o.monitor.may g c) (hg : g ≠ .mistaken) (d : Db) (x : Outside) :
    Moves o d g c (o.monitor.next g c (exec c d x).1) := by
  cases g with
  | idle => exact moves_idle h d x
  | found stored => exact moves_found h d x
  | rotating stored =>
    obtain ⟨now, rfl⟩ := h
    exact .claim
  | claimed stored =>
    obtain ⟨t, rfl, hu, ht⟩ := h
    exact .rotate hu ht
  | saved user =>
    rcases h with ⟨row, rfl⟩ | ⟨hs, rfl⟩ | ⟨hs, ⟨rfl, ho⟩ | ⟨t, rfl, hu, ht⟩⟩
    · exact .record
    · exact .listSuspended hs
    · exact .settleSaved hs ho
    · exact .loginFirst hu ht
  | listed userId ids user =>
    obtain ⟨now, rfl⟩ := h
    exact .revokeAll
  | opened t old =>
    obtain rfl : c = .commit := h
    exact .grant
  | closing userId user =>
    obtain rfl : c = .commit := h
    exact .close
  | released =>
    obtain rfl : c = .commit := h
    exact .closeOne
  | granted t old =>
    rw [next_following h]
    exact .deliver h
  | ended =>
    rw [next_following h]
    exact .follow h
  | mistaken => exact absurd rfl hg

end Moves

end SessionRequest

end DiddiFreeID
