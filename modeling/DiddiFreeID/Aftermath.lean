/-
# What follows a save

Every command on an account goes through the same phases once it has saved
the account: it commits, drops the cached profile, publishes one event about
the account, and answers (`Task.follows`). The uncommitted update of an
account tells that its request has saved it (`Saves.phase`), so the
instant of a commit fixes what the request does from then on.

Key definitions: `Task`, `aftermath`, `Saves`.
Key theorems: `Task.follows`, `Saves.phase`, `next_of_committed`.
-/
import DiddiFreeID.Queries
import DiddiFreeID.Runs
import DiddiFreeID.Transact.Schedule

namespace DiddiFreeID

open Transact Engine

/-- A request in flight: a command or a query. -/
inductive Task
  | command (r : Request)
  | query (q : Query)

/-- The program of a task. -/
def Task.prog (S : Env) : Task → Cmd Response
  | command r => r.prog S
  | query q => q.prog

/-- Queries, and every command but the one that creates accounts. -/
def Task.OnAccounts : Task → Prop
  | command (.registerUser _) => False
  | _ => True

/-- How far a request is with the account it saves. -/
inductive Aftermath
  | idle
  | saved (u : Uuid)
  | committed (u : Uuid)
  | invalidated (u : Uuid)
  | published (u : Uuid)
  deriving DecidableEq

/-- The calls of a request that has saved an account and not committed it. -/
def Call.beforeCommit : Call → Bool
  | saveUser .. | publish _ | invalidateUser _ | cacheSet _ => false
  | _ => true

def aftermath (α : Type) : Monitor Call Call.Resp Failure α Aftermath where
  next g c r :=
    match g, c, r with
    | .idle, .saveUser v _, true => .saved v.id
    | .saved u, .commit, _ => .committed u
    | .committed u, .invalidateUser _, _ => .invalidated u
    | .invalidated u, .publish _, _ => .published u
    | g, _, _ => g
  may g c :=
    match g with
    | .idle => ∀ e, c ≠ .publish e
    | .saved _ => c.beforeCommit = true
    | .committed u => c = .invalidateUser u
    | .invalidated u => ∃ e : DomainEvent, c = .publish e ∧ e.userId = u
    | .published _ => False
  mayRet g _ :=
    match g with
    | .idle | .published _ => True
    | _ => False
  mayRaise g _ := g = .idle

/-! ### The programs -/

/-- A program of quiet calls saves nothing. -/
theorem follows_aftermath_of_quietly {α : Type} {p : Cmd α} (h : p.Follows (quietly α) ()) :
    p.Follows (aftermath α) .idle := by
  refine h.simulated (fun _ g => g = .idle) ?_ ?_ (fun hg _ => hg) rfl
  · rintro _ _ c rfl hc
    refine ⟨fun e he => ?_, fun r => ?_⟩
    · rw [he] at hc
      cases hc
    · cases c with
      | saveUser => cases hc
      | _ => rfl
  · rintro _ _ _ rfl _
    trivial

/-- The rest of a request that has saved the account `v`. -/
def Rest (v : User) (p : Cmd Response) : Prop := p.Follows (aftermath Response) (.saved v.id)

theorem follows_save {v : User} {now : Time} {f : Unit → Cmd Response} (h : Rest v (f ())) :
    (saveUser v now >>= f).Follows (aftermath Response) .idle := by
  rw [saveUser_bind]
  refine ⟨fun e he => (nomatch he), fun saved => ?_⟩
  cases saved with
  | false => exact rfl
  | true => exact h

/-- What every command does once it has saved and recorded. -/
theorem rest_commit {v : User} {u : Uuid} {e : DomainEvent} {a : Response} (hu : u = v.id)
    (he : e.userId = v.id) : Rest v (do commit; invalidateUser u; publish e; return a) := by
  subst hu
  exact ⟨rfl, fun _ => ⟨rfl, fun _ => ⟨⟨e, rfl, he⟩, fun _ => trivial⟩⟩⟩

variable (S : Env)

theorem UpdateProfile.follows (q : UpdateProfile) :
    q.call.Follows (aftermath Response) .idle := by
  unfold call
  rw [findById_bind]
  refine ⟨fun e he => (nomatch he), fun user => ?_⟩
  cases user with
  | none => exact rfl
  | some user =>
    dsimp only
    split_ifs
    · exact follows_save (rest_commit rfl rfl)
    · trivial

theorem ChangeRole.follows (q : ChangeRole) : q.call.Follows (aftermath Response) .idle := by
  unfold call
  cases UserRole.ofValue q.role with
  | none => exact rfl
  | some targetRole =>
    dsimp only
    rw [findById_bind]
    refine ⟨fun e he => (nomatch he), fun user => ?_⟩
    cases user with
    | none => exact rfl
    | some user =>
      dsimp only
      split_ifs
      · unfold request
        split_ifs
        · trivial
        · exact follows_save ⟨rfl, fun _ => rest_commit rfl rfl⟩
      · unfold grant
        split_ifs
        · trivial
        · exact follows_save ⟨rfl, fun _ => rest_commit rfl rfl⟩

theorem DecideKyc.follows (q : DecideKyc) : q.call.Follows (aftermath Response) .idle := by
  unfold call
  rw [findById_bind]
  refine ⟨fun e he => (nomatch he), fun user => ?_⟩
  cases user with
  | none => exact rfl
  | some user =>
    dsimp only
    cases user.requestedRole with
    | none => exact rfl
    | some requested =>
      have hevent : (q.event user (q.decided user requested)).userId =
          (q.decided user requested).id := by
        unfold event
        split_ifs <;> rfl
      refine follows_save ?_
      split_ifs
      · exact ⟨rfl, fun _ => ⟨rfl, fun _ => rest_commit rfl hevent⟩⟩
      · exact ⟨rfl, fun _ => rest_commit rfl hevent⟩

theorem ChangeStatus.follows (q : ChangeStatus) : q.call.Follows (aftermath Response) .idle := by
  unfold call
  cases UserStatus.ofValue q.status with
  | none => exact rfl
  | some target =>
    dsimp only
    by_cases hset : target ∉ adminSettableStatuses
    · rw [if_pos hset]
      exact rfl
    · rw [if_neg hset, findById_bind]
      refine ⟨fun e he => (nomatch he), fun user => ?_⟩
      cases user with
      | none => exact rfl
      | some user =>
        dsimp only
        by_cases hc : (!canTransition user.status target) = true
        · rw [if_pos hc]
          exact rfl
        · rw [if_neg hc]
          refine follows_save ⟨rfl, fun _ => ?_⟩
          dsimp only
          split_ifs
          · rw [revokeAllForUser_bind]
            exact ⟨rfl, fun _ => ⟨rfl, fun _ => rest_commit rfl rfl⟩⟩
          · exact rest_commit rfl rfl

theorem VerifyOtp.follows_aftermath (q : VerifyOtp) :
    (q.call S).Follows (aftermath Response) .idle := by
  unfold call
  cases validatePhone q.phone with
  | error e => exact rfl
  | ok phone =>
    rw [check_ok_bind, findLatestActive_bind]
    refine ⟨fun e he => (nomatch he), fun otp => ?_⟩
    cases otp with
    | none => exact rfl
    | some otp =>
      dsimp only
      split_ifs
      · exact rfl
      · exact follows_aftermath_of_quietly (q.reject_follows_quietly S otp)
      · unfold accept
        rw [markConsumed_bind]
        refine ⟨fun e he => (nomatch he), fun _ => ?_⟩
        rw [findByPhone_bind]
        refine ⟨fun e he => (nomatch he), fun user => ?_⟩
        cases user with
        | none => exact rfl
        | some user =>
          dsimp only
          split_ifs
          · exact rfl
          · refine follows_save ⟨rfl, fun _ => ?_⟩
            exact ⟨rfl, fun _ => ⟨rfl, fun _ => ⟨rfl, fun _ => ⟨⟨_, rfl, rfl⟩, fun _ => trivial⟩⟩⟩⟩
          · -- a login of an account that was verified before saves nothing
            exact ⟨fun e he => (nomatch he), fun _ => ⟨fun e he => (nomatch he), fun _ =>
              ⟨fun e he => (nomatch he), fun _ => trivial⟩⟩⟩

theorem Query.follows_aftermath (q : Query) : q.prog.Follows (aftermath Response) .idle := by
  rw [q.prog_eq]
  unfold GetUserById.call
  rw [cachedUser_bind]
  refine ⟨fun e he => (nomatch he), fun cached => ?_⟩
  cases cached with
  | some cached => trivial
  | none =>
    refine ⟨fun e he => (nomatch he), fun user => ?_⟩
    cases user with
    | none => exact rfl
    | some user => exact ⟨fun e he => (nomatch he), fun _ => trivial⟩

/-- Every task on accounts goes through these phases. -/
theorem Task.follows {t : Task} (h : t.OnAccounts) :
    (t.prog S).Follows (aftermath Response) .idle := by
  cases t with
  | query q => exact q.follows_aftermath
  | command r =>
    cases r with
    | registerUser q => cases h
    | requestOtp q => exact follows_aftermath_of_quietly (q.follows_quietly S)
    | verifyOtp q => exact q.follows_aftermath S
    | refreshAccessToken q => exact follows_aftermath_of_quietly (q.follows_quietly S)
    | logout q => exact follows_aftermath_of_quietly (q.follows_quietly S)
    | updateProfile q => exact q.follows
    | changeRole q => exact q.follows
    | decideKyc q => exact q.follows
    | changeStatus q => exact q.follows

/-- The account whose row the write sets. -/
def Write.account : Write → Option Uuid
  | insertUser u => some u.id
  | updateUser u _ => some u.id
  | _ => none

/-- A call that is no save sets no row of an account. -/
theorem exec_account {c : Call} (hc : ∀ v now, c ≠ .saveUser v now) (d : Db) (x : Outside) :
    ∀ w ∈ (exec c d x).2.1, w.account = none := by
  intro w hw
  cases c with
  | saveUser v now => exact absurd rfl (hc v now)
  | recordStatusChange | recordRoleChange | saveOtp | saveToken | revokeThese =>
    rw [List.mem_singleton.mp hw]
    rfl
  | registerAttempt id =>
    simp only [exec] at hw
    cases ho : d.nextAttempt id with
    | none => simp [ho] at hw
    | some o =>
      simp only [ho, List.mem_singleton] at hw
      rw [hw]
      rfl
  | markConsumed id now =>
    have hq := Db.consumption_quiet d id now w hw
    cases w <;> first | rfl | cases hq
  | revoke id now =>
    have hq := Db.revocation_quiet d id now w hw
    cases w <;> first | rfl | cases hq
  | _ => exact absurd hw List.not_mem_nil

/-- A save sets the row of its account, or is refused. -/
theorem saveUser_account (d : Db) (v : User) (now : Time) :
    ((d.saveUser v now).1 = false ∧ (d.saveUser v now).2 = []) ∨
    ((d.saveUser v now).1 = true ∧
      ∃ w, (d.saveUser v now).2 = [w] ∧ w.account = some v.id) := by
  unfold Db.saveUser
  split
  · exact .inr ⟨rfl, _, rfl, rfl⟩
  · split
    · exact .inl ⟨rfl, rfl⟩
    · exact .inr ⟨rfl, _, rfl, rfl⟩

/-- The uncommitted row of an account belongs to a request that has saved
it. -/
def Pending (g : Aftermath) (log : List Write) : Prop :=
  ∀ u, (∃ w ∈ log, w.account = some u) ↔ g = .saved u

theorem pending_nil {g : Aftermath} (h : ∀ u, g ≠ .saved u) : Pending g [] := fun u =>
  ⟨fun ⟨_, hw, _⟩ => absurd hw List.not_mem_nil, fun hg => absurd hg (h u)⟩

/-- Writes that set no row of an account. -/
theorem Pending.append {g : Aftermath} {log ws : List Write} (h : Pending g log)
    (hws : ∀ w ∈ ws, w.account = none) : Pending g (log ++ ws) := by
  intro u
  rw [← h u]
  refine ⟨fun ⟨w, hw, hu⟩ => ?_, fun ⟨w, hw, hu⟩ => ⟨w, List.mem_append_left _ hw, hu⟩⟩
  rcases List.mem_append.mp hw with hw | hw
  · exact ⟨w, hw, hu⟩
  · rw [hws w hw] at hu
    cases hu

theorem Pending.call {g : Aftermath} {c : Call} {log : List Write} {d : Db} {x : Outside}
    (h : Pending g log) (hmay : (aftermath Response).may g c) (hc : store.commits c = false) :
    Pending ((aftermath Response).next g c (exec c d x).1) (log ++ (exec c d x).2.1) := by
  by_cases hs : ∃ v now, c = .saveUser v now
  · obtain ⟨v, now, rfl⟩ := hs
    cases g with
    | idle =>
      change Pending ((aftermath Response).next .idle (.saveUser v now) (d.saveUser v now).1)
        (log ++ (d.saveUser v now).2)
      rcases saveUser_account d v now with ⟨hr, hw⟩ | ⟨hr, w, hw, hv⟩
      · rw [hr, hw, List.append_nil]
        exact h
      · rw [hr, hw]
        have hnone : ∀ u, ¬∃ w ∈ log, w.account = some u := fun u hm => by
          cases (h u).mp hm
        intro u
        constructor
        · rintro ⟨w', hw', hu⟩
          rcases List.mem_append.mp hw' with hw' | hw'
          · exact absurd ⟨w', hw', hu⟩ (hnone u)
          · rw [List.mem_singleton.mp hw', hv] at hu
            rw [← Option.some.inj hu]
            rfl
        · intro hg
          obtain rfl : v.id = u := Aftermath.saved.inj hg
          exact ⟨w, List.mem_append_right _ (List.mem_singleton.mpr rfl), hv⟩
    | saved => cases hmay
    | committed => cases hmay
    | invalidated =>
      obtain ⟨e, he, -⟩ := hmay
      cases he
    | published => exact absurd hmay fun h => h
  · have hws := exec_account (fun v now he => hs ⟨v, now, he⟩) d x
    refine Pending.append (fun u => ?_) hws
    rw [h u]
    -- no other call leads to or out of `saved`
    cases g with
    | idle =>
      cases c with
      | saveUser v now => exact absurd ⟨v, now, rfl⟩ hs
      | _ => exact Iff.rfl
    | saved u' =>
      cases c with
      | commit => cases hc
      | _ => exact Iff.rfl
    | committed u' =>
      obtain rfl : c = .invalidateUser u' := hmay
      exact ⟨fun hg => (nomatch hg), fun hg => (nomatch hg)⟩
    | invalidated u' =>
      obtain ⟨e, rfl, -⟩ := hmay
      exact ⟨fun hg => (nomatch hg), fun hg => (nomatch hg)⟩
    | published u' => exact absurd hmay fun h => h

/-- A commit leaves no uncommitted row. -/
theorem pending_commit {g : Aftermath} {c : Call} (r : c.Resp)
    (hmay : (aftermath Response).may g c) (hc : store.commits c = true) :
    Pending ((aftermath Response).next g c r) [] := by
  obtain rfl := commits_iff.mp hc
  refine pending_nil fun u hg => ?_
  cases g with
  | idle => cases hg
  | saved u' => cases hg
  | committed u' => cases hmay
  | invalidated u' =>
    obtain ⟨e, he, -⟩ := hmay
    cases he
  | published u' => exact hmay

/-! ### Interleavings -/

/-- Tasks on accounts, where they start, and who takes a step when. -/
structure Interleaving (ι : Type) where
  env : Env
  tasks : ι → Task
  onAccounts : ∀ i, (tasks i).OnAccounts
  db : Db
  outside : Outside
  schedule : ℕ → ι

namespace Interleaving

variable {ι : Type} [Fintype ι] [DecidableEq ι] (I : Interleaving ι)

/-- The state at an instant. -/
def state (n : ℕ) : InFlight ι :=
  store.state (System.start I.db I.outside fun i => (I.tasks i).prog I.env) I.schedule n

/-- The call that a task makes next. -/
def next (n : ℕ) (i : ι) : Option Call := ((I.state n).thread i).next

/-- The instant `n` commits a save of the account `u`. -/
def Saves (n : ℕ) (u : Uuid) : Prop :=
  I.next n (I.schedule n) = some .commit ∧
    ∃ w ∈ ((I.state n).thread (I.schedule n)).log, w.account = some u

instance (n : ℕ) (u : Uuid) : Decidable (I.Saves n u) := by unfold Saves; infer_instance

/-- How far a task is. -/
def phase (n : ℕ) (i : ι) : Aftermath :=
  Engine.phase (fun _ => aftermath Response) (fun _ => Aftermath.idle) (I.state n) i

variable {I} {n m : ℕ} {i : ι} {u : Uuid}

omit [Fintype ι] [DecidableEq ι] in
theorem follows_idle (i : ι) : ((I.tasks i).prog I.env).Follows (aftermath Response) .idle :=
  Task.follows I.env (I.onAccounts i)

theorem follows (n : ℕ) (i : ι) :
    ((I.state n).thread i).prog.Follows (aftermath Response) (I.phase n i) :=
  state_follows (M := fun _ => aftermath Response) (g := fun _ => Aftermath.idle) follows_idle n i

theorem stepped (n : ℕ) : I.state (n + 1) = I.state n ∨
    store.Step (I.state n) (I.schedule n) (I.state (n + 1)) :=
  (state_cases _ _ _ n).imp_left And.right

theorem next_of_ended (h : ((I.state m).thread i).prog.ended = true) (hmn : m ≤ n) :
    I.next n i = none := next_eq_none_of_ended hmn h

/-- A step moves at most the phase of the task that takes it. -/
theorem phase_succ (n : ℕ) (i : ι) : I.phase (n + 1) i = I.phase n i ∨
    (i = I.schedule n ∧ ∃ c r, I.next n i = some c ∧
      (aftermath Response).may (I.phase n i) c ∧
      I.phase (n + 1) i = (aftermath Response).next (I.phase n i) c r) := by
  have hf := I.follows n i
  unfold phase at hf ⊢
  rcases I.stepped n with hs | hs
  · exact .inl (by rw [hs])
  by_cases hi : i = I.schedule n
  · rw [← hi] at hs
    generalize I.state (n + 1) = s' at hs ⊢
    cases hs with
    | @call c k hp _ _ | @commit c k hp _ =>
      rw [hp] at hf
      exact .inr ⟨hi, c, (store.answer (I.state n) i c).1, Thread.next_eq_some.mpr ⟨k, hp⟩, hf.1,
        by simp⟩
    | close | abort => exact .inl (by simp)
  · exact .inl (hs.phase_ne hi)

/-- An uncommitted row tells which account the task has saved. -/
theorem pending (n : ℕ) (i : ι) : Pending (I.phase n i) ((I.state n).thread i).log := by
  refine Reach.log_invariant (M := fun _ => aftermath Response) (g := fun _ => Aftermath.idle)
    (P := fun _ => Pending) (reach_state n) follows_idle (fun _ => pending_nil (by simp))
    (fun _ _ _ _ hmay hp hc => hp.call hmay hc) (fun _ _ _ hmay _ hc => pending_commit _ hmay hc)
    (fun _ g _ _ hg _ => pending_nil fun u hu => ?_) (fun _ g _ _ hg _ => pending_nil fun u hu => ?_) i
  · rw [hu] at hg
    exact hg
  · rw [hu] at hg
    cases hg

theorem Saves.phase (h : I.Saves n u) : I.phase n (I.schedule n) = .saved u :=
  (I.pending n _ u).mp h.2

theorem saves_of_phase (h : I.phase n (I.schedule n) = .saved u)
    (hc : I.next n (I.schedule n) = some .commit) : I.Saves n u :=
  ⟨hc, (I.pending n _ u).mpr h⟩

/-- Once an account is committed the request is past its save. -/
theorem Saves.committed (h : I.Saves n u) : I.phase (n + 1) (I.schedule n) = .committed u := by
  obtain ⟨k, hk, hs⟩ := state_commit (E := store) h.1 rfl
  unfold Interleaving.phase state
  rw [hs, phase_committed_self]
  have hphase := h.phase
  unfold Interleaving.phase state at hphase
  rw [hphase]
  rfl

/-- Next, the request drops the cached profile. -/
theorem next_of_committed (h : I.phase n i = .committed u) :
    I.next n i = some (.invalidateUser u) := by
  have hf := I.follows n i
  rw [h] at hf
  refine Thread.next_eq_some.mpr ?_
  generalize ((I.state n).thread i).prog = p at hf ⊢
  cases p with
  | call c k =>
    obtain rfl : c = .invalidateUser u := hf.1
    exact ⟨k, rfl⟩
  | ret a => exact absurd hf fun h => h
  | raise e => cases hf

end Interleaving
end DiddiFreeID
