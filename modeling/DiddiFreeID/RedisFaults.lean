/-
# Redis out of order

Any command sent to Redis may fail, with or without having been carried out:
whoever has sent it logs the exception and goes on with the answer of its
`except` branch (`Call.excepted`). An entry of the profile cache expires
`PROFILE_TTL_SECONDS` after it was stored. `redis` is the store under such
conditions.

No command but `RequestOtp` asks Redis anything it goes on: whatever fails, the
rows, the answers and the errors are at every instant those of the run in which
nothing fails, and only events are missing (`outage_invisible`).

Key definitions: `Fault`, `Conditions`, `redis`.
Key theorems: `outage_alike`, `outage_invisible`.
-/
import DiddiFreeID.Aftermath
import DiddiFreeID.Transact.History
import DiddiFreeID.Transact.Siblings

namespace DiddiFreeID

open Transact Engine

/-! ### Redis under conditions -/

/-- What becomes of a command sent to Redis: it is answered, it is lost, or it is
carried out and its answer lost. -/
inductive Fault
  | answered | lost | unheard
  deriving DecidableEq, Repr

/-- What the caller of Redis goes on with after an exception. -/
def Call.excepted : (c : Call) → Option c.Resp
  | .cacheGet _ => some (none : Option User)
  | .cacheSet _ => some ()
  | .invalidateUser _ => some ()
  | .publish _ => some ()
  -- `hit_ip` answers `True` at once, as for a count of 0
  | .incrIp .. => some (0 : ℕ)
  | .expireIp .. => some ()
  | .cooldownTtl .. => some (0 : ℤ)
  | .armCooldown .. => some ()
  | _ => none

def profileTtlSeconds : ℤ := 300

/-- The state outside, when the entries of the cache expire, and the number of
calls so far. -/
structure Remote where
  outside : Outside := {}
  expiries : List (Uuid × Time) := []
  calls : ℕ := 0
  deriving DecidableEq, Repr

namespace Remote

/-- The state outside at an instant: what has expired is gone. -/
def current (r : Remote) (now : Time) : Outside :=
  { r.outside with
    cache := r.outside.cache.filter fun e => (r.expiries.lookup e.1).all fun t => decide (now < t) }

/-- The expiries after a call that was carried out: `SET ... EX`. -/
def expiring (r : Remote) (now : Time) : Call → List (Uuid × Time)
  | .cacheSet u =>
    (u.id, now + seconds profileTtlSeconds) :: r.expiries.filter fun e => e.1 ≠ u.id
  | _ => r.expiries

end Remote

/-- The instant of a call and what becomes of it, by its number. -/
structure Conditions where
  clock : ℕ → Time
  fault : ℕ → Fault

variable (K : Conditions)

/-- One call under the conditions. -/
def remoteExec (c : Call) (d : Db) (r : Remote) : c.Resp × List Write × Remote :=
  let now := K.clock r.calls
  let x := r.current now
  let a := exec c d x
  let carriedOut : Remote := ⟨a.2.2, r.expiring now c, r.calls + 1⟩
  match c.excepted, K.fault r.calls with
  | some e, .lost => (e, [], ⟨x, r.expiries, r.calls + 1⟩)
  | some e, .unheard => (e, [], carriedOut)
  | _, _ => (a.1, a.2.1, carriedOut)

/-- The store, with Redis under the conditions. -/
def redis : Engine Call Call.Resp Db Remote Write Key where
  exec := remoteExec K
  commits := store.commits
  apply := Write.apply
  keys := Write.keys

@[simp] theorem redis_exec (c : Call) (d : Db) (r : Remote) :
    (redis K).exec c d r = remoteExec K c d r := rfl

/-! ### What no command goes on -/

/-- The calls whose answer does not depend on Redis. -/
def Call.steady : Call → Bool
  | .cacheGet _ | .incrIp .. | .cooldownTtl .. => false
  | _ => true

/-- The calls of a query. -/
def Call.ofQuery : Call → Bool
  | .cacheGet _ | .cacheSet _ | .findById _ => true
  | _ => false

/-- What is left of the stream, at best. -/
def Lossy (x : Outside) (r : Remote) : Prop := r.outside.stream.Sublist x.stream

variable {K} {c : Call} {d : Db} {x : Outside} {r : Remote}

/-- The answer and the writes of a call, and the stream it leaves, where it is
carried out. -/
theorem remoteExec_cases (c : Call) (d : Db) (r : Remote) :
    ((remoteExec K c d r).1 = (exec c d (r.current (K.clock r.calls))).1 ∧
      (remoteExec K c d r).2.1 = (exec c d (r.current (K.clock r.calls))).2.1 ∧
      (remoteExec K c d r).2.2.outside = (exec c d (r.current (K.clock r.calls))).2.2) ∨
    ∃ e, c.excepted = some e ∧ (remoteExec K c d r).1 = e ∧ (remoteExec K c d r).2.1 = [] ∧
      ((remoteExec K c d r).2.2.outside = r.current (K.clock r.calls) ∨
        (remoteExec K c d r).2.2.outside = (exec c d (r.current (K.clock r.calls))).2.2) := by
  unfold remoteExec
  cases hc : c.excepted with
  | none => exact .inl ⟨rfl, rfl, rfl⟩
  | some e =>
    cases K.fault r.calls with
    | answered => exact .inl ⟨rfl, rfl, rfl⟩
    | lost => exact .inr ⟨e, rfl, rfl, rfl, .inl rfl⟩
    | unheard => exact .inr ⟨e, rfl, rfl, rfl, .inr rfl⟩

/-- A steady call answers and writes the same whatever is outside. -/
theorem exec_steady (hc : c.steady = true) (d : Db) (x x' : Outside) :
    (exec c d x').1 = (exec c d x).1 ∧ (exec c d x').2.1 = (exec c d x).2.1 := by
  cases c with
  | cacheGet | incrIp | cooldownTtl => cases hc
  | registerAttempt id =>
    simp only [exec]
    cases d.nextAttempt id <;> exact ⟨rfl, rfl⟩
  | _ => exact ⟨rfl, rfl⟩

/-- So does its exception, if Redis raises one. -/
theorem excepted_steady (hc : c.steady = true) {e : c.Resp} (he : c.excepted = some e) (d : Db)
    (x : Outside) : e = (exec c d x).1 ∧ (exec c d x).2.1 = [] := by
  cases c with
  | cacheGet | incrIp | cooldownTtl => cases hc
  | cacheSet | invalidateUser | publish | expireIp | armCooldown => exact ⟨rfl, rfl⟩
  | _ => cases he

/-- The event that a call publishes. -/
def Call.published : Call → List DomainEvent
  | .publish e => [e]
  | _ => []

theorem exec_published (c : Call) (d : Db) (x : Outside) :
    (exec c d x).2.2.stream = x.stream ++ c.published := by
  cases c with
  | publish e => rfl
  | registerAttempt id =>
    simp only [exec]
    cases d.nextAttempt id <;> simp [Call.published]
  | _ => simp [exec, Call.published, Outside.setUser, Outside.invalidateUser, Outside.setHits,
      Outside.armCooldown]

/-- Whatever becomes of a call, the stream gets its event or not. -/
theorem remoteExec_stream (c : Call) (d : Db) (r : Remote) :
    (remoteExec K c d r).2.2.outside.stream = r.outside.stream ∨
      (remoteExec K c d r).2.2.outside.stream = r.outside.stream ++ c.published := by
  rcases remoteExec_cases (K := K) c d r with ⟨-, -, hout⟩ | ⟨e, -, -, -, hout | hout⟩ <;> rw [hout]
  · exact .inr (exec_published c d _)
  · exact .inl rfl
  · exact .inr (exec_published c d _)

theorem published_of_query (hc : c.ofQuery = true) : c.published = [] := by
  cases c with
  | cacheGet | cacheSet | findById => rfl
  | _ => cases hc

/-- **Redis and its faults.** For what commands go on, both stores are one. -/
theorem siblings (K : Conditions) : Siblings store (redis K) Call.steady Call.ofQuery Lossy where
  commits := rfl
  apply := rfl
  keys := rfl
  answer c d x r hc := by
    rcases remoteExec_cases (K := K) c d r with ⟨h, -⟩ | ⟨e, he, h, -⟩
    · exact h.trans (exec_steady hc d x _).1
    · exact h.trans (excepted_steady hc he d x).1
  writes c d x r hc := by
    rcases remoteExec_cases (K := K) c d r with ⟨-, h, -⟩ | ⟨e, he, -, h, -⟩
    · exact h.trans (exec_steady hc d x _).2
    · exact h.trans (excepted_steady hc he d x).2.symm
  related c d x r _ h := by
    have hstream : (exec c d x).2.2.stream = x.stream ++ c.published := exec_published c d x
    unfold Lossy at h ⊢
    rw [store_exec, redis_exec, hstream]
    rcases remoteExec_stream (K := K) c d r with hr | hr <;> rw [hr]
    · exact h.trans (List.sublist_append_left _ _)
    · exact h.append (List.Sublist.refl _)
  aside_commits c hc := by
    cases c with
    | commit => cases hc
    | _ => rfl
  aside_writes c d x r hc := by
    have hw : ∀ x, (exec c d x).2.1 = [] := by
      cases c with
      | cacheGet | cacheSet | findById => exact fun _ => rfl
      | _ => cases hc
    rcases remoteExec_cases (K := K) c d r with ⟨-, h, -⟩ | ⟨e, -, -, h, -⟩
    · exact ⟨hw x, h.trans (hw _)⟩
    · exact ⟨hw x, h⟩
  aside_left c d x r hc h := by
    unfold Lossy
    rw [store_exec, exec_published, published_of_query hc, List.append_nil]
    exact h
  aside_right c d x r hc h := by
    unfold Lossy
    rw [redis_exec]
    rcases remoteExec_stream (K := K) c d r with hr | hr <;> rw [hr]
    · exact h
    · rwa [published_of_query hc, List.append_nil]

/-! ### The programs -/

section Programs

variable (S : Env)

/-- The monitor of the programs that go on nothing that Redis answers. -/
abbrev steadily : Monitor Call Call.Resp Failure Response Unit :=
  only Call.steady Call.Resp Failure Response

theorem follows_saveUser_steadily {u : User} {now : Time} {f : Unit → Cmd Response}
    (hf : (f ()).Follows steadily ()) : (saveUser u now >>= f).Follows steadily () := by
  rw [saveUser_bind]
  refine ⟨rfl, fun saved => ?_⟩
  cases saved with
  | false => trivial
  | true => exact hf

theorem announce_steadily (u : Uuid) (e : DomainEvent) (a : Response) :
    Prog.Follows steadily () (do commit; invalidateUser u; publish e; return a) :=
  ⟨rfl, fun _ => ⟨rfl, fun _ => ⟨rfl, fun _ => trivial⟩⟩⟩

theorem RegisterUser.steady (q : RegisterUser) : q.call.Follows steadily () := by
  unfold call
  cases validatePhone q.phone with
  | error e => trivial
  | ok phone =>
    rw [check_ok_bind, findByPhone_bind]
    refine ⟨rfl, fun user => ?_⟩
    cases user with
    | some user => trivial
    | none => exact follows_saveUser_steadily ⟨rfl, fun _ => trivial⟩

theorem VerifyOtp.openSession_steady (q : VerifyOtp) (user : User) (first : Bool) :
    (q.openSession S user first).Follows steadily () := by
  unfold openSession
  refine ⟨rfl, fun _ => ⟨rfl, fun _ => ⟨rfl, fun _ => ?_⟩⟩⟩
  cases first with
  | false => trivial
  | true => exact ⟨rfl, fun _ => trivial⟩

theorem VerifyOtp.steady (q : VerifyOtp) : (q.call S).Follows steadily () := by
  unfold call
  cases validatePhone q.phone with
  | error e => trivial
  | ok phone =>
    rw [check_ok_bind, findLatestActive_bind]
    refine ⟨rfl, fun otp => ?_⟩
    cases otp with
    | none => trivial
    | some otp =>
      dsimp only
      split_ifs
      · trivial
      · unfold reject
        rw [registerAttempt_bind]
        refine ⟨rfl, fun attempts => ?_⟩
        cases attempts with
        | none => trivial
        | some attempts =>
          dsimp only [Option.elim_some]
          split_ifs
          · exact ⟨rfl, fun _ => ⟨rfl, fun _ => trivial⟩⟩
          · exact ⟨rfl, fun _ => trivial⟩
      · unfold accept
        rw [markConsumed_bind]
        refine ⟨rfl, fun _ => ?_⟩
        rw [findByPhone_bind]
        refine ⟨rfl, fun user => ?_⟩
        cases user with
        | none => trivial
        | some user =>
          dsimp only
          split_ifs
          · trivial
          · exact follows_saveUser_steadily ⟨rfl, fun _ => openSession_steady S q _ true⟩
          · exact openSession_steady S q _ false

theorem RefreshAccessToken.steady (q : RefreshAccessToken) : (q.call S).Follows steadily () := by
  unfold call
  rw [findByHash_bind]
  refine ⟨rfl, fun stored => ?_⟩
  cases stored with
  | none => trivial
  | some stored =>
    dsimp only
    split_ifs
    · exact ⟨rfl, fun _ => ⟨rfl, fun _ => ⟨rfl, fun _ => trivial⟩⟩⟩
    · trivial
    · rw [findById_bind]
      refine ⟨rfl, fun user => ?_⟩
      cases user with
      | none => trivial
      | some user =>
        dsimp only
        split_ifs
        · exact ⟨rfl, fun _ => ⟨rfl, fun _ => ⟨rfl, fun _ => trivial⟩⟩⟩
        · trivial

theorem Logout.steady (q : Logout) : (q.call S).Follows steadily () := by
  unfold call
  rw [findByHash_bind]
  refine ⟨rfl, fun stored => ?_⟩
  cases stored with
  | none => trivial
  | some stored =>
    dsimp only
    split_ifs
    · exact ⟨rfl, fun _ => ⟨rfl, fun _ => ⟨rfl, fun _ => trivial⟩⟩⟩
    · exact ⟨rfl, fun _ => ⟨rfl, fun _ => trivial⟩⟩

theorem UpdateProfile.steady (q : UpdateProfile) : q.call.Follows steadily () := by
  unfold call
  rw [findById_bind]
  refine ⟨rfl, fun user => ?_⟩
  cases user with
  | none => trivial
  | some user =>
    dsimp only
    split_ifs
    · exact follows_saveUser_steadily (announce_steadily _ _ _)
    · trivial

theorem ChangeRole.steady (q : ChangeRole) : q.call.Follows steadily () := by
  unfold call
  cases UserRole.ofValue q.role with
  | none => trivial
  | some targetRole =>
    dsimp only
    rw [findById_bind]
    refine ⟨rfl, fun user => ?_⟩
    cases user with
    | none => trivial
    | some user =>
      dsimp only
      split_ifs
      · unfold request
        split_ifs
        · trivial
        · exact follows_saveUser_steadily ⟨rfl, fun _ => announce_steadily _ _ _⟩
      · unfold grant
        split_ifs
        · trivial
        · exact follows_saveUser_steadily ⟨rfl, fun _ => announce_steadily _ _ _⟩

theorem DecideKyc.steady (q : DecideKyc) : q.call.Follows steadily () := by
  unfold call
  rw [findById_bind]
  refine ⟨rfl, fun user => ?_⟩
  cases user with
  | none => trivial
  | some user =>
    dsimp only
    cases user.requestedRole with
    | none => trivial
    | some requested =>
      dsimp only
      refine follows_saveUser_steadily ?_
      split_ifs
      · exact ⟨rfl, fun _ => ⟨rfl, fun _ => announce_steadily _ _ _⟩⟩
      · exact ⟨rfl, fun _ => announce_steadily _ _ _⟩

theorem ChangeStatus.steady (q : ChangeStatus) : q.call.Follows steadily () := by
  unfold call
  cases UserStatus.ofValue q.status with
  | none => trivial
  | some target =>
    dsimp only
    by_cases hset : target ∈ adminSettableStatuses
    · rw [if_neg (not_not.mpr hset), findById_bind]
      refine ⟨rfl, fun user => ?_⟩
      cases user with
      | none => trivial
      | some user =>
        dsimp only
        by_cases hc : (!canTransition user.status target) = true
        · rw [if_pos hc]
          trivial
        · rw [if_neg hc]
          refine follows_saveUser_steadily ?_
          rw [recordStatusChange_bind]
          refine ⟨rfl, fun _ => ?_⟩
          unfold finish
          split_ifs
          · rw [revokeAllForUser_bind]
            exact ⟨rfl, fun _ => ⟨rfl, fun _ => announce_steadily _ _ _⟩⟩
          · exact announce_steadily _ _ _
    · rw [if_pos hset]
      trivial

/-- Every command but `RequestOtp`. -/
theorem Request.steady (r : Request) (hr : ∀ q, r ≠ .requestOtp q) :
    (r.prog S).Follows steadily () := by
  cases r with
  | registerUser q => exact q.steady
  | requestOtp q => exact absurd rfl (hr q)
  | verifyOtp q => exact q.steady S
  | refreshAccessToken q => exact q.steady S
  | logout q => exact q.steady S
  | updateProfile q => exact q.steady
  | changeRole q => exact q.steady
  | decideKyc q => exact q.steady
  | changeStatus q => exact q.steady

theorem Query.follows_ofQuery (q : Query) :
    q.prog.Follows (only Call.ofQuery Call.Resp Failure Response) () := by
  rw [q.prog_eq]
  unfold GetUserById.call
  rw [cachedUser_bind]
  refine ⟨rfl, fun cached => ?_⟩
  cases cached with
  | some cached => trivial
  | none =>
    dsimp only
    rw [getById_bind]
    refine ⟨rfl, fun user => ?_⟩
    cases user with
    | none => trivial
    | some user => exact ⟨rfl, fun _ => trivial⟩

end Programs

/-! ### Commands -/

/-- The requests at their start, Redis in order or not. -/
theorem outage_alike {ι : Type} [Fintype ι] [DecidableEq ι] (S : Env) (K : Conditions)
    {tasks : ι → Task} (hotp : ∀ i q, tasks i ≠ .command (.requestOtp q)) (d : Db) {x : Outside}
    {r : Remote} (hr : Lossy x r) (sched : ℕ → ι) (n : ℕ) :
    Alike Lossy (fun i => ∃ q, tasks i = .query q)
      (store.state (System.start d x fun i => (tasks i).prog S) sched n)
      ((redis K).state (System.start d r fun i => (tasks i).prog S) sched n) := by
  refine state_alike (siblings K) hr (fun i hi => ?_) (fun i ⟨q, hq⟩ => ?_) sched n
  · cases ht : tasks i with
    | command r =>
      exact r.steady S fun q hq => hotp i q (by rw [ht, hq])
    | query q => exact absurd ⟨q, ht⟩ hi
  · rw [hq]
    exact q.follows_ofQuery

/-- **Outage.** Commands other than `RequestOtp` and any queries are in flight,
and any commands to Redis fail. At every instant the committed rows are those of
the run on the same schedule in which none fails, and every command has been
told the same, has the same uncommitted writes and the same rest to do; of the
events published there, some may be missing. -/
theorem outage_invisible {ι : Type} [Fintype ι] [DecidableEq ι] (S : Env) (K : Conditions)
    (tasks : ι → Task) (hotp : ∀ i q, tasks i ≠ .command (.requestOtp q)) (d : Db) (x : Outside)
    (expiries : List (Uuid × Time)) (sched : ℕ → ι) (n : ℕ) :
    let healthy := store.state (System.start d x fun i => (tasks i).prog S) sched n
    let faulty := (redis K).state (System.start d ⟨x, expiries, 0⟩ fun i => (tasks i).prog S)
      sched n
    faulty.db = healthy.db ∧
      (∀ i r, tasks i = .command r → faulty.thread i = healthy.thread i) ∧
      faulty.outside.outside.stream.Sublist healthy.outside.stream := by
  intro healthy faulty
  have h := outage_alike S K hotp d (r := ⟨x, expiries, 0⟩) (List.Sublist.refl x.stream) sched n
  refine ⟨h.db, fun i r hr => h.thread i ?_, h.outside⟩
  rintro ⟨q, hq⟩
  rw [hr] at hq
  cases hq

/-! ### A decision that Redis does not hear of -/

/-- An account that wants to be a driver. -/
def wantsToDrive : Db :=
  { users := [{ id := 7, phone := "+22507000001", status := .pendingKyc
                requestedRole := some .driver }] }

/-- An admin accepts, while the account looks at its profile. -/
def acceptWhileAsking : Fin 2 → Task
  | 0 => .command (.decideKyc ⟨7, true, none, some 1, 5⟩)
  | 1 => .query (.getUserById ⟨7⟩)

/-- Nothing that is sent gets there. -/
def unreachable : Conditions where
  clock n := seconds n
  fault _ := .lost

/-- The decision is in the rows and was answered, as if the event had been
published. -/
theorem outage_invisible_accepted :
    let healthy := store.state (System.start wantsToDrive {} fun i =>
      (acceptWhileAsking i).prog plainEnv) (fun n => if n % 2 = 0 then 0 else 1) 20
    let faulty := (redis unreachable).state (System.start wantsToDrive {} fun i =>
      (acceptWhileAsking i).prog plainEnv) (fun n => if n % 2 = 0 then 0 else 1) 20
    faulty.db = healthy.db ∧ (faulty.thread 0).prog = (healthy.thread 0).prog ∧
      healthy.outside.stream.length = 1 ∧ faulty.outside.outside.stream = [] := by
  intro healthy faulty
  have hotp : ∀ i q, acceptWhileAsking i ≠ .command (.requestOtp q) := by
    intro i q h
    match i with
    | 0 => cases h
    | 1 => cases h
  obtain ⟨hdb, hthread, -⟩ := outage_invisible plainEnv unreachable acceptWhileAsking hotp
    wantsToDrive {} [] (fun n => if n % 2 = 0 then 0 else 1) 20
  exact ⟨hdb, by rw [hthread 0 _ rfl], by decide +kernel, by decide +kernel⟩

end DiddiFreeID
