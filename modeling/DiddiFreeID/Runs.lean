/-
# Commands run to completion

What one request does when nobody else is in flight: `store.run` of its
program from an empty log. The accounts, their audit rows and the event
stream are the `Ledger` of a store; most calls leave it alone
(`run_ledger`), and the five commands that save an account either leave it
alone or make one `Ledger.record` on it. Each of them has one theorem
(`ChangeStatus.run_call`, ...) that says so, with the guards that were met
and the answer; later modules cite these and never unfold a command.

Key definitions: `Ledger`, `Ledger.record`.
-/
import DiddiFreeID.Commands

namespace DiddiFreeID

open Transact

/-! ### The calls of a run -/

section Calls

variable {α : Type} (log : List Write) (d : Db) (x : Outside)

@[simp] theorem run_ret (a : α) :
    store.run (.ret a : Cmd α) log d x = (.ok a, store.view d log, x) := rfl

@[simp] theorem run_raise (e : Failure) :
    store.run (.raise e : Cmd α) log d x = (.error e, d, x) := rfl

@[simp] theorem run_commit (k : Unit → Cmd α) :
    store.run (.call .commit k) log d x = store.run (k ()) [] (store.view d log) x := rfl

/-- Every other call answers on the rows the request sees and adds its
writes to the log. -/
theorem run_call {c : Call} (h : store.commits c = false) (k : c.Resp → Cmd α) :
    store.run (.call c k) log d x =
      store.run (k (exec c (store.view d log) x).1) (log ++ (exec c (store.view d log) x).2.1) d
        (exec c (store.view d log) x).2.2 := by
  rw [Engine.run]
  simp only [h]
  rfl

@[simp] theorem run_findById (id : Uuid) (k : Option User → Cmd α) :
    store.run (.call (.findById id) k) log d x =
      store.run (k ((store.view d log).findById id)) log d x := by
  rw [run_call _ _ _ rfl]
  simp only [exec, List.append_nil]

@[simp] theorem run_findByPhone (phone : String) (k : Option User → Cmd α) :
    store.run (.call (.findByPhone phone) k) log d x =
      store.run (k ((store.view d log).findByPhone phone)) log d x := by
  rw [run_call _ _ _ rfl]
  simp only [exec, List.append_nil]

@[simp] theorem run_saveUser (u : User) (now : Time) (k : Bool → Cmd α) :
    store.run (.call (.saveUser u now) k) log d x =
      store.run (k ((store.view d log).saveUser u now).1)
        (log ++ ((store.view d log).saveUser u now).2) d x := rfl

@[simp] theorem run_recordStatusChange (c : UserStatusChange) (k : Unit → Cmd α) :
    store.run (.call (.recordStatusChange c) k) log d x =
      store.run (k ()) (log ++ [.insertStatus c]) d x := rfl

@[simp] theorem run_recordRoleChange (c : UserRoleChange) (k : Unit → Cmd α) :
    store.run (.call (.recordRoleChange c) k) log d x =
      store.run (k ()) (log ++ [.insertRole c]) d x := rfl

@[simp] theorem run_findLatestActive (phone : String) (k : Option OtpCode → Cmd α) :
    store.run (.call (.findLatestActive phone) k) log d x =
      store.run (k ((store.view d log).findLatestActive phone)) log d x := by
  rw [run_call _ _ _ rfl]
  simp only [exec, List.append_nil]

@[simp] theorem run_markConsumed (id : Uuid) (now : Time) (k : Unit → Cmd α) :
    store.run (.call (.markConsumed id now) k) log d x =
      store.run (k ()) (log ++ (store.view d log).consumption id now) d x := rfl

@[simp] theorem run_saveToken (t : RefreshToken) (k : Unit → Cmd α) :
    store.run (.call (.saveToken t) k) log d x =
      store.run (k ()) (log ++ [.insertToken t]) d x := rfl

@[simp] theorem run_liveTokens (userId : Uuid) (k : List Uuid → Cmd α) :
    store.run (.call (.liveTokens userId) k) log d x =
      store.run (k ((store.view d log).liveTokens userId)) log d x := by
  rw [run_call _ _ _ rfl]
  simp only [exec, List.append_nil]

@[simp] theorem run_revokeThese (ids : List Uuid) (now : Time) (k : ℕ → Cmd α) :
    store.run (.call (.revokeThese ids now) k) log d x =
      store.run (k (ids.filter (store.view d log).isLive).length)
        (log ++ [.revokeTokens (ids.filter (store.view d log).isLive) now]) d x := rfl

@[simp] theorem run_invalidateUser (id : Uuid) (k : Unit → Cmd α) :
    store.run (.call (.invalidateUser id) k) log d x =
      store.run (k ()) log d (x.invalidateUser id) := by
  rw [run_call _ _ _ rfl]
  simp only [exec, List.append_nil]

@[simp] theorem run_publish (e : DomainEvent) (k : Unit → Cmd α) :
    store.run (.call (.publish e) k) log d x = store.run (k ()) log d (x.publish e) := by
  rw [run_call _ _ _ rfl]
  simp only [exec, List.append_nil]

end Calls

/-! ### The ledger -/

/-- The accounts of a store, their audit rows and the event stream. -/
structure Ledger where
  users : List User
  statusHistory : List UserStatusChange
  roleHistory : List UserRoleChange
  stream : List DomainEvent
  deriving DecidableEq, Repr

/-- What one request writes about one account: the account as saved, the
audit rows and the events that go with it. -/
structure Entry where
  user : User
  now : Time
  statusRows : List UserStatusChange := []
  roleRows : List UserRoleChange := []
  events : List DomainEvent := []
  deriving DecidableEq, Repr

namespace Ledger

/-- The ledger of the rows `d` and the state `x` outside. -/
def of (d : Db) (x : Outside) : Ledger := ⟨d.users, d.statusHistory, d.roleHistory, x.stream⟩

def record (l : Ledger) (e : Entry) : Ledger :=
  { users := l.users.map fun row => if row.id = e.user.id then Write.assign e.user e.now row else row
    statusHistory := l.statusHistory ++ e.statusRows
    roleHistory := l.roleHistory ++ e.roleRows
    stream := l.stream ++ e.events }

end Ledger

/-- The request, answered so, writes this entry about `user`: one
constructor for each branch of the commands that saves an account. -/
inductive Writes (S : Env) (user : User) : Request → Except Failure Response → Entry → Prop
  | rename {q : UpdateProfile} : q.userId = user.id →
      q.fullName.isSome ∧ q.fullName ≠ user.fullName →
      Writes S user (.updateProfile q)
        (.ok (.profile (profilePayload { user with fullName := q.fullName })))
        { user := { user with fullName := q.fullName }
          now := q.now
          events := [.userUpdated user.id user.phone user.role q.now ["full_name"]] }
  | verify {q : VerifyOtp} : user.status = .pendingVerification →
      Writes S user (.verifyOtp q) (.ok (q.answer S (VerifyOtp.activated user)))
        { user := VerifyOtp.activated user
          now := q.now
          statusRows := [q.activationRow (VerifyOtp.activated user)]
          events := [.userRegistered user.id user.phone user.role q.now] }
  | request {q : ChangeRole} {targetRole : UserRole} : q.userId = user.id →
      UserRole.ofValue q.role = some targetRole → user.needsKycFor targetRole = true →
      user.requestedRole ≠ some targetRole →
      Writes S user (.changeRole q)
        (.ok (.profile (profilePayload { user with requestedRole := some targetRole })))
        { user := { user with requestedRole := some targetRole }
          now := q.now
          roleRows := [q.requestRow user targetRole]
          events := [.userUpdated user.id user.phone user.role q.now ["requested_role"]] }
  | grant {q : ChangeRole} {targetRole : UserRole} : q.userId = user.id →
      UserRole.ofValue q.role = some targetRole → user.needsKycFor targetRole = false →
      user.role ≠ targetRole →
      Writes S user (.changeRole q)
        (.ok (.profile (profilePayload { user with role := targetRole, requestedRole := none })))
        { user := { user with role := targetRole, requestedRole := none }
          now := q.now
          roleRows := [q.grantRow user targetRole]
          events := [.userRoleChanged user.id user.phone targetRole q.now user.role targetRole] }
  | decide {q : DecideKyc} {requested : UserRole} : q.userId = user.id →
      user.requestedRole = some requested →
      Writes S user (.decideKyc q) (.ok (.profile (profilePayload (q.decided user requested))))
        { user := q.decided user requested
          now := q.now
          statusRows := if (q.decided user requested).status ≠ user.status then
            [q.releaseRow user (q.decided user requested).status] else []
          roleRows := [q.decisionRow user requested]
          events := [q.event user (q.decided user requested)] }
  | transit {q : ChangeStatus} {target : UserStatus} : q.userId = user.id →
      UserStatus.ofValue q.status = some target → target ∈ adminSettableStatuses →
      canTransition user.status target = true →
      Writes S user (.changeStatus q)
        (.ok (.profile (profilePayload { user with status := target })))
        { user := { user with status := target }
          now := q.now
          statusRows := [q.transitionRow user target]
          events := [.userStatusChanged user.id user.phone user.role q.now user.status target
            q.reason] }

theorem Writes.answered {S : Env} {user : User} {r : Request} {o o' : Except Failure Response}
    {e : Entry} (h : Writes S user r o e) (ho : o' = o) : Writes S user r o' e := ho ▸ h

/-- What is written about an account names it. -/
theorem Writes.about {S : Env} {user : User} {r : Request} {o : Except Failure Response} {e : Entry}
    (h : Writes S user r o e) : e.user.id = user.id ∧ (∀ c ∈ e.statusRows, c.userId = user.id) ∧
      (∀ c ∈ e.roleRows, c.userId = user.id) ∧ ∀ c ∈ e.events, c.userId = user.id := by
  cases h with
  | rename hq hn => simp [DomainEvent.userId]
  | verify hs => simp [DomainEvent.userId, VerifyOtp.activationRow]
  | request hq ht hk hr => simp [DomainEvent.userId, ChangeRole.requestRow]
  | grant hq ht hk hr => simp [DomainEvent.userId, ChangeRole.grantRow]
  | decide hq hr =>
    refine ⟨rfl, fun c hc => ?_, by simp [DecideKyc.decisionRow], fun c hc => ?_⟩
    · split_ifs at hc
      · rw [List.mem_singleton.mp hc]
        rfl
      · exact absurd hc List.not_mem_nil
    · rw [List.mem_singleton.mp hc, DecideKyc.event]
      split_ifs <;> rfl
  | transit hq ht hs hc => simp [DomainEvent.userId, ChangeStatus.transitionRow]

/-- The calls that leave the ledger alone. -/
def Call.quiet : Call → Bool
  | saveUser .. | recordStatusChange _ | recordRoleChange _ | publish _ => false
  | _ => true

/-- A write that leaves the ledger alone. -/
def Write.quiet : Write → Bool
  | insertUser _ | updateUser .. | insertStatus _ | insertRole _ => false
  | _ => true

theorem Ledger.of_apply {d : Db} {x : Outside} {w : Write} (h : w.quiet = true) :
    Ledger.of (Write.apply d w) x = Ledger.of d x := by
  cases w with
  | insertUser | updateUser | insertStatus | insertRole => cases h
  | insertOtp | bumpAttempts | consumeOtp | insertToken | revokeTokens => rfl

theorem Ledger.of_view {log : List Write} (h : ∀ w ∈ log, w.quiet = true) (d : Db) (x : Outside) :
    Ledger.of (store.view d log) x = Ledger.of d x := by
  induction log generalizing d with
  | nil => rfl
  | cons w log ih =>
    rw [Engine.view_cons, store_apply, ih fun w' hw' => h w' (List.mem_cons_of_mem _ hw')]
    exact of_apply (h w List.mem_cons_self)

theorem Db.consumption_quiet (d : Db) (id : Uuid) (now : Time) :
    ∀ w ∈ d.consumption id now, w.quiet = true := by
  intro w hw
  rw [Db.eq_of_mem_consumption hw]
  rfl

theorem Db.revocation_quiet (d : Db) (id : Uuid) (now : Time) :
    ∀ w ∈ d.revocation id now, w.quiet = true := by
  intro w hw
  rw [Db.eq_of_mem_revocation hw]
  rfl

/-- A quiet call makes quiet writes and publishes nothing. -/
theorem exec_quiet {c : Call} (h : c.quiet = true) (d : Db) (x : Outside) :
    (∀ w ∈ (exec c d x).2.1, w.quiet = true) ∧ (exec c d x).2.2.stream = x.stream := by
  cases c with
  | saveUser | recordStatusChange | recordRoleChange | publish => cases h
  | registerAttempt id =>
    simp only [exec]
    cases d.nextAttempt id with
    | none => simp
    | some o => simp [Write.quiet]
  | markConsumed id now => exact ⟨Db.consumption_quiet d id now, rfl⟩
  | revoke id now => exact ⟨Db.revocation_quiet d id now, rfl⟩
  | saveOtp o | saveToken t => simp [exec, Write.quiet]
  | revokeThese ids now => simp [exec, Write.quiet]
  | _ => exact ⟨fun w hw => absurd hw List.not_mem_nil, rfl⟩

/-- The monitor of the programs that make only quiet calls. -/
def quietly (α : Type) : Monitor Call Call.Resp Failure α Unit where
  next _ _ _ := ()
  may _ c := c.quiet = true
  mayRet _ _ := True
  mayRaise _ _ := True

/-- A program of quiet calls leaves the ledger alone. -/
theorem run_ledger {α : Type} {p : Cmd α} (hp : p.Follows (quietly α) ()) {log : List Write}
    (hl : ∀ w ∈ log, w.quiet = true) (d : Db) (x : Outside) :
    Ledger.of (store.run p log d x).2.1 (store.run p log d x).2.2 = Ledger.of d x := by
  induction p generalizing log d x with
  | ret a => exact Ledger.of_view hl d x
  | raise e => rfl
  | call c k ih =>
    obtain ⟨hc, hk⟩ := hp
    obtain ⟨hw, hs⟩ := exec_quiet hc (store.view d log) x
    by_cases hcommit : store.commits c = true
    · have : c = .commit := by
        cases c <;> first | rfl | cases hcommit
      subst this
      rw [run_commit, ih () (hk ()) (by simp), Ledger.of_view hl]
    · rw [run_call _ _ _ (by simpa using hcommit), ih _ (hk _)]
      · simp only [Ledger.of, hs]
      · intro w h
        rcases List.mem_append.mp h with h | h
        · exact hl w h
        · exact hw w h

/-! ### The commands that only touch codes and tokens -/

variable (S : Env)

section Limiter

variable {G : Type} {phone : String} {cooldown : ℤ} {now : Time} {g : G}

theorem markPhoneSent_follows {M : Monitor Call Call.Resp Failure Unit G}
    (harm : M.Stays g (.armCooldown phone cooldown now)) (hret : M.mayRet g ()) :
    (markPhoneSent phone cooldown now).Follows M g := by
  unfold markPhoneSent
  split_ifs
  · exact hret
  · exact Prog.follows_call_of_stays harm fun _ => hret

theorem secondsUntilPhoneAllowed_follows {M : Monitor Call Call.Resp Failure ℤ G}
    (hread : M.Stays g (.cooldownTtl phone now)) (hret : ∀ remaining, M.mayRet g remaining) :
    (secondsUntilPhoneAllowed phone cooldown now).Follows M g := by
  unfold secondsUntilPhoneAllowed
  split_ifs
  · exact hret 0
  · exact Prog.follows_call_of_stays hread fun ttl => hret (max ttl 0)

theorem hitIp_follows {M : Monitor Call Call.Resp Failure Bool G} {ip : String}
    (hincr : M.Stays g (.incrIp ip now)) (hexpire : M.Stays g (.expireIp ip ipWindowSeconds now))
    (hret : ∀ allowed, M.mayRet g allowed) : (hitIp ip now).Follows M g := by
  unfold hitIp
  split_ifs
  · exact hret true
  · rw [Prog.ask_bind]
    refine Prog.follows_call_of_stays hincr fun (count : ℕ) => ?_
    dsimp only
    split_ifs
    · exact Prog.follows_call_of_stays hexpire fun _ => hret _
    · exact hret _

/-- A request for a code follows a monitor where the hit of its address keeps
the phase, and the read of the cooldown leads to one from which the issue
follows it. -/
theorem RequestOtp.follows_of {M : Monitor Call Call.Resp Failure Response G} {q : RequestOtp}
    (hraise : ∀ g e, M.mayRaise g e) (hincr : ∀ ip, M.Stays g (.incrIp ip q.now))
    (hexpire : ∀ ip, M.Stays g (.expireIp ip ipWindowSeconds q.now))
    (hwait : ∀ phone, validatePhone q.phone = .ok phone →
      (secondsUntilPhoneAllowed phone S.settings.otpRateLimitSeconds q.now).Follows
        { M with
          mayRet := fun g (remaining : ℤ) => ¬ remaining > 0 → (q.issue S phone).Follows M g } g) :
    (q.call S).Follows M g := by
  unfold call
  cases hv : validatePhone q.phone with
  | error e => exact hraise _ _
  | ok phone =>
    rw [check_ok_bind]
    have hrest (allowed : Bool) : ((if allowed = true then do
          let remaining ← secondsUntilPhoneAllowed phone S.settings.otpRateLimitSeconds q.now
          if remaining > 0 then raiseError (otpRateLimitedPhone remaining) else q.issue S phone
        else raiseError (otpRateLimitedIp S.settings.otpRateLimitSeconds)) : Cmd Response).Follows
        M g := by
      split_ifs
      · refine Prog.follows_bind.mpr ((hwait phone hv).simulated Eq ?_ ?_ ?_ rfl)
        · rintro g _ c rfl hc
          exact ⟨hc, fun _ => rfl⟩
        · rintro g _ remaining rfl hissue
          change Prog.Follows M g (if remaining > 0 then _ else _)
          split_ifs with hpos
          · exact hraise _ _
          · exact hissue hpos
        · rintro g _ e rfl he
          exact he
      · exact hraise _ _
    cases q.clientIp with
    | none => exact hrest true
    | some ip => exact Prog.follows_bind.mpr (hitIp_follows (hincr ip) (hexpire ip) hrest)

end Limiter

theorem RequestOtp.issue_follows_quietly (q : RequestOtp) (phone : String) :
    (q.issue S phone).Follows (quietly Response) () := by
  have hmark : ∀ a : Response, Prog.Follows (quietly Response) ()
      (do markPhoneSent phone S.settings.otpRateLimitSeconds q.now; return a) := fun a =>
    Prog.follows_bind.mpr (markPhoneSent_follows ⟨rfl, fun _ => rfl⟩ trivial)
  unfold issue
  rw [findByPhone_bind]
  refine ⟨rfl, fun u => ?_⟩
  cases u with
  | none => exact hmark _
  | some u => exact ⟨rfl, fun _ => ⟨rfl, fun _ => ⟨rfl, fun _ => hmark _⟩⟩⟩

theorem RequestOtp.follows_quietly (q : RequestOtp) : (q.call S).Follows (quietly Response) () :=
  follows_of S (fun _ _ => trivial) (fun _ => ⟨rfl, fun _ => rfl⟩) (fun _ => ⟨rfl, fun _ => rfl⟩)
    fun phone _ => secondsUntilPhoneAllowed_follows ⟨rfl, fun _ => rfl⟩
      fun _ _ => q.issue_follows_quietly S phone

theorem RefreshAccessToken.follows_quietly (q : RefreshAccessToken) :
    (q.call S).Follows (quietly Response) () := by
  unfold call
  rw [findByHash_bind]
  refine ⟨rfl, fun stored => ?_⟩
  cases stored with
  | none => trivial
  | some stored =>
    dsimp only
    split_ifs
    · exact ⟨rfl, fun _ => ⟨rfl, fun _ => ⟨rfl, fun _ => trivial⟩⟩⟩
    · trivial
    · rw [findById_bind]
      refine ⟨rfl, fun user => ?_⟩
      cases user with
      | none => trivial
      | some user =>
        dsimp only
        split_ifs
        · exact ⟨rfl, fun _ => ⟨rfl, fun _ => ⟨rfl, fun _ => trivial⟩⟩⟩
        · trivial

theorem Logout.follows_quietly (q : Logout) : (q.call S).Follows (quietly Response) () := by
  unfold call
  rw [findByHash_bind]
  refine ⟨rfl, fun stored => ?_⟩
  cases stored with
  | none => trivial
  | some stored =>
    dsimp only
    split_ifs
    · exact ⟨rfl, fun _ => ⟨rfl, fun _ => ⟨rfl, fun _ => trivial⟩⟩⟩
    · exact ⟨rfl, fun _ => ⟨rfl, fun _ => trivial⟩⟩

theorem VerifyOtp.reject_follows_quietly (q : VerifyOtp) (otp : OtpCode) :
    (q.reject S otp).Follows (quietly Response) () := by
  unfold reject
  rw [registerAttempt_bind]
  refine ⟨rfl, fun attempts => ?_⟩
  cases attempts with
  | none => trivial
  | some attempts =>
    dsimp only [Option.elim]
    split_ifs
    · exact ⟨rfl, fun _ => ⟨rfl, fun _ => trivial⟩⟩
    · exact ⟨rfl, fun _ => trivial⟩

/-! ### The commands that save an account -/

variable (d : Db) (x : Outside)

theorem users_view {log : List Write} (h : ∀ w ∈ log, w.quiet = true) :
    (store.view d log).users = d.users :=
  congrArg Ledger.users (Ledger.of_view h d {})

/-- Saving an account that is there, over quiet writes, is an update. -/
theorem run_update {α : Type} {log : List Write} (hl : ∀ w ∈ log, w.quiet = true) {u v : User}
    (now : Time) (k : Bool → Cmd α) (h : d.findById u.id = some v) :
    store.run (.call (.saveUser u now) k) log d x =
      store.run (k true) (log ++ [.updateUser u now]) d x := by
  have hv : (store.view d log).findById u.id = some v := by
    rw [Db.findById, users_view d hl]
    exact h
  rw [run_saveUser, Db.saveUser_of_findById hv]

/-- `RegisterUser` refuses, or it inserts the new account. -/
theorem RegisterUser.run_call (q : RegisterUser) (hfresh : d.findById q.newId = none) :
    let o := store.run q.call [] d x
    (Ledger.of o.2.1 o.2.2 = Ledger.of d x) ∨
    ∃ phone, validatePhone q.phone = .ok phone ∧ d.findByPhone phone = none ∧
      o.1 = .ok (.registered q.newId phone .pendingVerification) ∧
      Ledger.of o.2.1 o.2.2 = { Ledger.of d x with
        users := d.users ++ [{ q.newUser phone with updatedAt := some q.now }] } := by
  intro o
  cases hv : validatePhone q.phone with
  | error e =>
    have ho : o = (.error (.api e), d, x) := by simp [o, call, hv]
    exact .inl (by rw [ho])
  | ok phone =>
    cases hp : d.findByPhone phone with
    | some u =>
      have ho : o = (.error (.api phoneAlreadyRegistered), d, x) := by simp [o, call, hv, hp]
      exact .inl (by rw [ho])
    | none =>
      have hs : d.saveUser (q.newUser phone) q.now =
          (true, [.insertUser { q.newUser phone with updatedAt := some q.now }]) := by
        simp only [Db.saveUser, newUser, hfresh, hp, Option.getD]
      have ho : o = (.ok (.registered q.newId phone .pendingVerification),
          Write.apply d (.insertUser { q.newUser phone with updatedAt := some q.now }), x) := by
        simp only [o, call, hv, check_ok_bind, findByPhone_bind, run_findByPhone, Engine.view_nil,
          hp, saveUser_bind, run_saveUser, hs]
        rfl
      exact .inr ⟨phone, rfl, hp, by rw [ho], by rw [ho]; rfl⟩

/-- `UpdateProfile` leaves the account, or saves the new name. -/
theorem UpdateProfile.run_call (q : UpdateProfile) :
    let o := store.run q.call [] d x
    (Ledger.of o.2.1 o.2.2 = Ledger.of d x) ∨
    ∃ user e, d.findById user.id = some user ∧ Writes S user (.updateProfile q) o.1 e ∧
      Ledger.of o.2.1 o.2.2 = (Ledger.of d x).record e := by
  intro o
  cases hu : d.findById q.userId with
  | none =>
    have ho : o = (.error (.api userNotFound), d, x) := by simp [o, call, hu]
    exact .inl (by rw [ho])
  | some user =>
    by_cases hname : q.fullName.isSome ∧ q.fullName ≠ user.fullName
    · have hq := (Db.mem_of_findById hu).2
      have hid : d.findById user.id = some user := by rw [hq, hu]
      have ho : o = (.ok (.profile (profilePayload { user with fullName := q.fullName })),
          Write.apply d (.updateUser { user with fullName := q.fullName } q.now),
          (x.invalidateUser user.id).publish
            (.userUpdated user.id user.phone user.role q.now ["full_name"])) := by
        simp only [o, call, findById_bind, run_findById, Engine.view_nil, hu, if_pos hname,
          saveUser_bind]
        rw [run_update d x (by simp) q.now _ (u := { user with fullName := q.fullName }) hid]
        simp
      rw [ho]
      refine .inr ⟨user, _, hid, .rename hq.symm hname, ?_⟩
      simp [Ledger.of, Ledger.record, Write.apply, Outside.publish, Outside.invalidateUser]
    · have ho : o = (.ok (.profile (profilePayload user)), d, x) := by
        simp only [o, call, findById_bind, run_findById, Engine.view_nil, hu, if_neg hname]
        rfl
      exact .inl (by rw [ho])

theorem VerifyOtp.openSession_follows_quietly (q : VerifyOtp) (user : User) :
    (q.openSession S user false).Follows (quietly Response) () :=
  ⟨rfl, fun _ => ⟨rfl, fun _ => ⟨rfl, fun _ => trivial⟩⟩⟩

/-- The right code leaves the account, or it is its first verification. -/
theorem VerifyOtp.run_accept (q : VerifyOtp) (otp : OtpCode) (phone : String)
    (hids : (d.users.map User.id).Nodup) :
    let o := store.run (q.accept S otp phone) [] d x
    (Ledger.of o.2.1 o.2.2 = Ledger.of d x) ∨
    ∃ user e, d.findById user.id = some user ∧ Writes S user (.verifyOtp q) o.1 e ∧
      Ledger.of o.2.1 o.2.2 = (Ledger.of d x).record e := by
  intro o
  have hl := Db.consumption_quiet d otp.id q.now
  have hphone : (store.view d (d.consumption otp.id q.now)).findByPhone phone =
      d.findByPhone phone := by
    rw [Db.findByPhone, users_view d hl, Db.findByPhone]
  cases hp : d.findByPhone phone with
  | none =>
    have ho : o = (.error (.api noAccountForPhone), d, x) := by
      simp only [o, accept, markConsumed_bind, run_markConsumed, Engine.view_nil, List.nil_append,
        findByPhone_bind, run_findByPhone, hphone, hp, raiseError_eq, run_raise]
    exact .inl (by rw [ho])
  | some user =>
    have ho : o = store.run (if user.status = .suspended then raiseError userSuspended
        else if user.status = .pendingVerification then do
          saveUser (activated user) q.now
          recordStatusChange (q.activationRow (activated user))
          q.openSession S (activated user) true
        else q.openSession S user false) (d.consumption otp.id q.now) d x := by
      simp only [o, accept, markConsumed_bind, run_markConsumed, Engine.view_nil, List.nil_append,
        findByPhone_bind, run_findByPhone, hphone, hp]
    have hid : d.findById user.id = some user :=
      Db.findById_of_mem hids (Db.mem_of_findByPhone hp).1
    by_cases hsus : user.status = .suspended
    · rw [ho]
      exact .inl (by simp [hsus])
    by_cases hpend : user.status = .pendingVerification
    · rw [if_neg hsus, if_pos hpend, saveUser_bind,
        run_update d x hl q.now _ (u := activated user) hid] at ho
      have hl' := Ledger.of_view hl d x
      simp only [Ledger.of, Ledger.mk.injEq] at hl'
      obtain ⟨hu, hsh, hrh, -⟩ := hl'
      have hans : o.1 = .ok (q.answer S (activated user)) := by
        rw [ho]
        rfl
      refine .inr ⟨user, _, hid, (Writes.verify hpend).answered hans, ?_⟩
      rw [ho]
      simp [openSession, Engine.view_append, Ledger.of, Ledger.record, Write.apply,
        Outside.publish, Outside.invalidateUser, hu, hsh, hrh]
    · rw [if_neg hsus, if_neg hpend] at ho
      rw [ho]
      exact .inl (run_ledger (openSession_follows_quietly S q user) hl d x)

/-- `VerifyOtp` leaves the account, or it is its first verification. -/
theorem VerifyOtp.run_call (q : VerifyOtp) (hids : (d.users.map User.id).Nodup) :
    let o := store.run (q.call S) [] d x
    (Ledger.of o.2.1 o.2.2 = Ledger.of d x) ∨
    ∃ user e, d.findById user.id = some user ∧ Writes S user (.verifyOtp q) o.1 e ∧
      Ledger.of o.2.1 o.2.2 = (Ledger.of d x).record e := by
  intro o
  cases hv : validatePhone q.phone with
  | error e =>
    have ho : o = (.error (.api e), d, x) := by simp [o, call, hv]
    exact .inl (by rw [ho])
  | ok phone =>
    cases hotp : d.findLatestActive phone with
    | none =>
      have ho : o = (.error (.api (otpInvalid none)), d, x) := by simp [o, call, hv, hotp]
      exact .inl (by rw [ho])
    | some otp =>
      by_cases hexp : otp.isExpired q.now = true
      · have ho : o = (.error (.api otpExpired), d, x) := by simp [o, call, hv, hotp, hexp]
        exact .inl (by rw [ho])
      by_cases hcode : verifyOtpCode S q.code otp.codeHash = true
      · have ho : o = store.run (q.accept S otp phone) [] d x := by
          simp [o, call, hv, hotp, hexp, hcode]
        rw [ho]
        exact run_accept S d x q otp phone hids
      · have ho : o = store.run (q.reject S otp) [] d x := by
          simp [o, call, hv, hotp, hexp, hcode]
        rw [ho]
        exact .inl (run_ledger (reject_follows_quietly S q otp) (by simp) d x)

/-- `ChangeRole` leaves the account, saves a request for a role under KYC, or
grants another role at once. -/
theorem ChangeRole.run_call (q : ChangeRole) :
    let o := store.run q.call [] d x
    (Ledger.of o.2.1 o.2.2 = Ledger.of d x) ∨
    ∃ user e, d.findById user.id = some user ∧ Writes S user (.changeRole q) o.1 e ∧
      Ledger.of o.2.1 o.2.2 = (Ledger.of d x).record e := by
  intro o
  cases ht : UserRole.ofValue q.role with
  | none =>
    have ho : o = (.error (.api (invalidRole q.role)), d, x) := by simp [o, call, ht]
    exact .inl (by rw [ho])
  | some targetRole =>
    cases hu : d.findById q.userId with
    | none =>
      have ho : o = (.error (.api userNotFound), d, x) := by simp [o, call, ht, hu]
      exact .inl (by rw [ho])
    | some user =>
      have hq := (Db.mem_of_findById hu).2
      have hid : d.findById user.id = some user := by rw [hq, hu]
      by_cases hk : user.needsKycFor targetRole = true
      · have ho : o = store.run (q.request user targetRole) [] d x := by
          simp [o, call, ht, hu, hk]
        by_cases hr : user.requestedRole = some targetRole
        · rw [ho]
          exact .inl (by simp [request, hr])
        · rw [request, if_neg hr] at ho
          dsimp only at ho
          rw [saveUser_bind, run_update d x (by simp) q.now _
            (u := { user with requestedRole := some targetRole }) hid] at ho
          have hans : o.1 = .ok (.profile (profilePayload
              { user with requestedRole := some targetRole })) := by
            rw [ho]
            rfl
          refine .inr ⟨user, _, hid, (Writes.request hq.symm ht hk hr).answered hans, ?_⟩
          rw [ho]
          simp [Ledger.of, Ledger.record, Write.apply, Outside.publish, Outside.invalidateUser]
      · have ho : o = store.run (q.grant user targetRole) [] d x := by
          simp [o, call, ht, hu, hk]
        by_cases hr : user.role = targetRole
        · rw [ho]
          exact .inl (by simp [grant, hr])
        · rw [grant, if_neg hr] at ho
          dsimp only at ho
          rw [saveUser_bind, run_update d x (by simp) q.now _
            (u := { user with role := targetRole, requestedRole := none }) hid] at ho
          have hans : o.1 = .ok (.profile (profilePayload
              { user with role := targetRole, requestedRole := none })) := by
            rw [ho]
            rfl
          refine .inr ⟨user, _, hid, (Writes.grant hq.symm ht (by simpa using hk) hr).answered hans, ?_⟩
          rw [ho]
          simp [Ledger.of, Ledger.record, Write.apply, Outside.publish, Outside.invalidateUser]

/-- `DecideKyc` finds no account, finds no request, or saves its decision. -/
theorem DecideKyc.run_call (q : DecideKyc) :
    let o := store.run q.call [] d x
    (Ledger.of o.2.1 o.2.2 = Ledger.of d x ∧
      (d.findById q.userId = none ∧ o.1 = .error (.api userNotFound) ∨
        ∃ user, d.findById q.userId = some user ∧ user.requestedRole = none ∧
          o.1 = .error (.api noKycPending))) ∨
    ∃ user e, d.findById user.id = some user ∧ Writes S user (.decideKyc q) o.1 e ∧
      Ledger.of o.2.1 o.2.2 = (Ledger.of d x).record e := by
  intro o
  cases hu : d.findById q.userId with
  | none =>
    have ho : o = (.error (.api userNotFound), d, x) := by simp [o, call, hu]
    exact .inl ⟨by rw [ho], .inl ⟨rfl, by rw [ho]⟩⟩
  | some user =>
    have hq := (Db.mem_of_findById hu).2
    have hid : d.findById user.id = some user := by rw [hq, hu]
    cases hr : user.requestedRole with
    | none =>
      have ho : o = (.error (.api noKycPending), d, x) := by simp [o, call, hu, hr]
      exact .inl ⟨by rw [ho], .inr ⟨user, rfl, hr, by rw [ho]⟩⟩
    | some requested =>
      have hid' : d.findById (q.decided user requested).id = some user := hid
      have ho : o = store.run (.call (.saveUser (q.decided user requested) q.now)
          fun saved : Bool => if saved then (do
            if (q.decided user requested).status ≠ user.status then
              recordStatusChange (q.releaseRow user (q.decided user requested).status)
            recordRoleChange (q.decisionRow user requested)
            commit
            invalidateUser (q.decided user requested).id
            publish (q.event user (q.decided user requested))
            return .profile (profilePayload (q.decided user requested)) : Cmd Response)
          else .raise .database) [] d x := by
        simp only [o, call, findById_bind, run_findById, Engine.view_nil, hu, hr, saveUser_bind]
      rw [run_update d x (by simp) q.now _ hid'] at ho
      have hans : o.1 = .ok (.profile (profilePayload (q.decided user requested))) := by
        rw [ho]
        by_cases hs : (q.decided user requested).status = user.status <;> simp [hs]
      refine .inr ⟨user, _, hid, (Writes.decide hq.symm hr).answered hans, ?_⟩
      rw [ho]
      by_cases hs : (q.decided user requested).status = user.status
      · simp [hs, Ledger.of, Ledger.record, Write.apply, Outside.publish, Outside.invalidateUser]
      · simp [hs, Ledger.of, Ledger.record, Write.apply, Outside.publish, Outside.invalidateUser]

/-- `ChangeStatus` leaves the account, or saves an allowed transition. -/
theorem ChangeStatus.run_call (q : ChangeStatus) :
    let o := store.run q.call [] d x
    (Ledger.of o.2.1 o.2.2 = Ledger.of d x) ∨
    ∃ user e, d.findById user.id = some user ∧ Writes S user (.changeStatus q) o.1 e ∧
      Ledger.of o.2.1 o.2.2 = (Ledger.of d x).record e := by
  intro o
  cases ht : UserStatus.ofValue q.status with
  | none =>
    have ho : o = (.error (.api (invalidStatus q.status)), d, x) := by simp [o, call, ht]
    exact .inl (by rw [ho])
  | some target =>
    by_cases hs : target ∈ adminSettableStatuses
    · cases hu : d.findById q.userId with
      | none =>
        have ho : o = (.error (.api userNotFound), d, x) := by simp [o, call, ht, hs, hu]
        exact .inl (by rw [ho])
      | some user =>
        have hq := (Db.mem_of_findById hu).2
        have hid : d.findById user.id = some user := by rw [hq, hu]
        by_cases hc : canTransition user.status target = true
        · have ho : o = store.run (.call (.saveUser { user with status := target } q.now)
              fun saved : Bool => if saved then (do
                recordStatusChange (q.transitionRow user target)
                if target = .suspended then
                  let _ ← revokeAllForUser user.id q.now
                  q.finish user target
                else q.finish user target : Cmd Response)
              else .raise .database) [] d x := by
            simp only [o, call, ht, hs, not_true_eq_false, ↓reduceIte, findById_bind, run_findById,
              Engine.view_nil, hu, hc, Bool.not_true, Bool.false_eq_true, saveUser_bind]
          rw [run_update d x (by simp) q.now _ (u := { user with status := target }) hid] at ho
          have hans : o.1 = .ok (.profile (profilePayload { user with status := target })) := by
            rw [ho]
            by_cases hsus : target = .suspended <;> simp [hsus, finish]
          refine .inr ⟨user, _, hid, (Writes.transit hq.symm ht hs hc).answered hans, ?_⟩
          rw [ho]
          by_cases hsus : target = .suspended
          · simp [hsus, finish, Ledger.of, Ledger.record, Write.apply, Outside.publish,
              Outside.invalidateUser]
          · simp [hsus, finish, Ledger.of, Ledger.record, Write.apply, Outside.publish,
              Outside.invalidateUser]
        · have ho : o = (.error (.api (invalidStatusTransition user.status target)), d, x) := by
            simp [o, call, ht, hs, hu, hc]
          exact .inl (by rw [ho])
    · have ho : o = (.error (.api (statusNotSettable target)), d, x) := by simp [o, call, ht, hs]
      exact .inl (by rw [ho])

end DiddiFreeID
