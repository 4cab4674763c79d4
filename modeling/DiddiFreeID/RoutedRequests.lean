/-
# Routed requests in flight

A routed request reads the account of its token in the session that its command
writes in, one call before it: the guards of `core/auth_deps.py` as programs, each
followed by what the handler calls (`Route.prog`). Alone, that is
`Route.handle` on the tables and then the command (`Route.run_prog`).

In flight, the guard is no part of what it lets through: the admin it has read may
be suspended before the command writes. What stays true is that every audit row
says who did it to whom, and with what right: it was written by a request whose
path names the account of the row, and whose token names an account that was an
active admin among the committed rows at an instant before, or whose caller is a
service; or it was a guess, and the right one for the phone of the account
(`audit_vouched`).

Key definitions: `Route.prog`, `Inbound`, `Concerns`, `Vouched`.
Key theorems: `Route.run_prog`, `audit_vouched`.
-/
import DiddiFreeID.Authorization
import DiddiFreeID.Integrity
import DiddiFreeID.Transact.Guarded

namespace DiddiFreeID

open Transact Engine

/-! ### Handlers -/

/-- A handler with its dependencies: either may fail. -/
abbrev Routed (α : Type) : Type := Prog Call Call.Resp (Refusal ⊕ Failure) α

/-- What a handler comes to: the answer of its command or query, or the listing it
makes of the tables. -/
inductive Reply
  | answered (a : Response)
  | listing (q : ListUsers)
  deriving DecidableEq, Repr

/-- Raise what a dependency raises. -/
def depends {α : Type} : Except Refusal α → Routed α
  | .ok a => .ret a
  | .error e => .raise (.inl e)

@[simp] theorem depends_ok_bind {α β : Type} (a : α) (f : α → Routed β) :
    depends (.ok a) >>= f = f a := rfl

@[simp] theorem depends_error_bind {α β : Type} (e : Refusal) (f : α → Routed β) :
    depends (.error e) >>= f = .raise (.inl e) := rfl

section Programs

variable (S : Env) (T : TokenService)

/-- The account of a token, read again. -/
def askAdmin (forbidden : String) (userId : Uuid) : Routed User := do
  let user ← .ask (Call.findById userId)
  depends (activeAdmin forbidden user)

def askRequireAdmin (c : Credentials) (now : Time) : Routed User := do
  let claims ← depends (getClaims S T c now)
  let userId ← depends (getCurrentUserId claims)
  askAdmin "Rôle insuffisant pour cette action." userId

def askRequireServiceOrAdmin (serviceApiKeys : String) (c : Credentials) (now : Time) :
    Routed (Option Uuid) :=
  match c.serviceKey with
  | some key =>
    let keys := serviceApiKeySet serviceApiKeys
    if keys ≠ [] ∧ key ∈ keys then .ret none else .raise (.inl (.api serviceKeyInvalid))
  | none => do
    let claims ← depends (getClaims S T c now)
    if Json.isText serviceRole (claims.lookup "role") then return none
    else
      let userId ← depends (subject claims)
      let user ← askAdmin
        ("Cette route est réservée aux appels service-à-service et " ++ "aux administrateurs.")
        userId
      return some user.id

/-- The program of what a handler calls. -/
def Invocation.prog : Invocation → Routed Reply
  | command r => (r.prog S).mapEnd .inr .answered
  | query q => q.prog.mapEnd .inr .answered
  | listUsers q => .ret (.listing q)

/-- A routed request: its dependencies, then what the handler calls. -/
def Route.prog (serviceApiKeys : String) (c : Credentials) (checked now : Time) :
    Route → Routed Reply
  | me => do
    let claims ← depends (getClaims S T c checked)
    let userId ← depends (getCurrentUserId claims)
    (Invocation.query (.getCurrentUserProfile ⟨userId⟩)).prog S
  | updateMe fullName => do
    let claims ← depends (getClaims S T c checked)
    let userId ← depends (getCurrentUserId claims)
    (Invocation.command (.updateProfile ⟨userId, fullName, now⟩)).prog S
  | backfill since page pageSize => do
    let _ ← askRequireServiceOrAdmin S T serviceApiKeys c checked
    (Invocation.listUsers
      { createdSince := some since, page := page, pageSize := pageSize }).prog S
  | getUser userId => do
    let _ ← askRequireServiceOrAdmin S T serviceApiKeys c checked
    (Invocation.query (.getUserById ⟨userId⟩)).prog S
  | changeRole userId role reason => do
    let caller ← askRequireServiceOrAdmin S T serviceApiKeys c checked
    (Invocation.command (.changeRole ⟨userId, role, reason, caller, now⟩)).prog S
  | listUsers role status pendingKyc page pageSize => do
    let _ ← askRequireAdmin S T c checked
    (Invocation.listUsers
      { role := role, status := status, pendingKyc := pendingKyc, page := page,
        pageSize := pageSize }).prog S
  | changeStatus userId status reason => do
    let admin ← askRequireAdmin S T c checked
    (Invocation.command (.changeStatus ⟨userId, status, reason, some admin.id, now⟩)).prog S
  | decideKyc userId approved reason => do
    let admin ← askRequireAdmin S T c checked
    (Invocation.command (.decideKyc ⟨userId, approved, reason, some admin.id, now⟩)).prog S

end Programs

/-! ### Alone -/

section Alone

variable {S : Env} {T : TokenService} {serviceApiKeys : String} {c : Credentials}
  {checked now : Time} {d : Db} {x : Outside} {α β : Type}

/-- Go on where the guard lets through. -/
def after (d : Db) (x : Outside) (guard : Except Refusal α)
    (f : α → Except (Refusal ⊕ Failure) β × Db × Outside) :
    Except (Refusal ⊕ Failure) β × Db × Outside :=
  match guard with
  | .ok a => f a
  | .error e => (.error (.inl e), d, x)

theorem run_depends (guard : Except Refusal α) (f : α → Routed β) :
    store.run (depends guard >>= f) [] d x = after d x guard fun a => store.run (f a) [] d x := by
  cases guard with
  | ok a => rfl
  | error e => rfl

theorem after_bind {γ : Type} (guard : Except Refusal α) (g : α → Except Refusal β)
    (f : β → Except (Refusal ⊕ Failure) γ × Db × Outside) :
    after d x (guard >>= g) f = after d x guard fun a => after d x (g a) f := by
  cases guard with
  | ok a => rfl
  | error e => rfl

theorem run_askAdmin (forbidden : String) (userId : Uuid) (f : User → Routed β) :
    store.run (askAdmin forbidden userId >>= f) [] d x =
      after d x (activeAdmin forbidden (d.findById userId)) fun user =>
        store.run (f user) [] d x := by
  change store.run (depends (activeAdmin forbidden (d.findById userId)) >>= f) [] d x = _
  exact run_depends _ _

theorem run_askRequireAdmin (f : User → Routed β) :
    store.run (askRequireAdmin S T c checked >>= f) [] d x =
      after d x (requireAdmin S T c checked d) fun user => store.run (f user) [] d x := by
  unfold askRequireAdmin requireAdmin
  cases getClaims S T c checked with
  | error e => rfl
  | ok claims =>
    change store.run ((depends (getCurrentUserId claims) >>= fun userId => askAdmin _ userId) >>= f)
      [] d x = after d x (getCurrentUserId claims >>= fun userId =>
        activeAdmin _ (d.findById userId)) _
    cases getCurrentUserId claims with
    | error e => rfl
    | ok userId => exact run_askAdmin _ _ _

theorem run_askRequireServiceOrAdmin (f : Option Uuid → Routed β) :
    store.run (askRequireServiceOrAdmin S T serviceApiKeys c checked >>= f) [] d x =
      after d x (requireServiceOrAdmin S T serviceApiKeys c checked d) fun caller =>
        store.run (f caller) [] d x := by
  unfold askRequireServiceOrAdmin requireServiceOrAdmin
  cases c.serviceKey with
  | some key =>
    dsimp only
    split_ifs <;> rfl
  | none =>
    dsimp only
    cases getClaims S T c checked with
    | error e => rfl
    | ok claims =>
      change store.run ((if _ then _ else _) >>= f) [] d x = after d x (if _ then _ else _) _
      by_cases hrole : Json.isText serviceRole (claims.lookup "role") = true
      · rw [if_pos hrole, if_pos hrole]
        rfl
      · rw [if_neg hrole, if_neg hrole]
        cases subject claims with
        | error e => rfl
        | ok userId =>
          change store.run (depends (activeAdmin _ (d.findById userId)) >>= _ >>= f) [] d x =
            after d x (activeAdmin _ (d.findById userId) >>= _) _
          cases activeAdmin _ (d.findById userId) with
          | error e => rfl
          | ok user => rfl

/-- **Refinement.** Alone, a routed request is its guard on the tables, then what
the handler calls. -/
theorem Route.run_prog (route : Route) :
    store.run (route.prog S T serviceApiKeys c checked now) [] d x =
      after d x (route.handle S T serviceApiKeys c checked now d) fun i =>
        store.run (i.prog S) [] d x := by
  cases route with
  | me | updateMe =>
    unfold Route.prog Route.handle
    cases getClaims S T c checked with
    | error e => rfl
    | ok claims =>
      change store.run (depends (getCurrentUserId claims) >>= _) [] d x =
        after d x (getCurrentUserId claims >>= _) _
      rw [run_depends, after_bind]
      rfl
  | backfill | getUser | changeRole =>
    unfold Route.prog Route.handle
    rw [run_askRequireServiceOrAdmin, after_bind]
    rfl
  | listUsers | changeStatus | decideKyc =>
    unfold Route.prog Route.handle
    rw [run_askRequireAdmin, after_bind]
    rfl

end Alone

/-! ### In flight -/

/-- Open to anyone: the five routes of `presentation/auth_router.py`. -/
def Request.forAnyone : Request → Bool
  | registerUser _ | requestOtp _ | verifyOtp _ | refreshAccessToken _ | logout _ => true
  | _ => false

/-- A request that comes in. -/
inductive Inbound
  | anyone (r : Request) (h : r.forAnyone = true)
  | routed (c : Credentials) (checked now : Time) (route : Route)

/-- The account a route is about, where its command keeps an audit trail. -/
def Route.target : Route → Option Uuid
  | changeRole userId .. | changeStatus userId .. | decideKyc userId .. => some userId
  | _ => none

section Inbound

variable (S : Env) (T : TokenService) (serviceApiKeys : String)

def Inbound.prog : Inbound → Routed Reply
  | anyone r _ => (Invocation.command r).prog S
  | routed c checked now route => route.prog S T serviceApiKeys c checked now

/-- Whom the guards let through, on the answers `l`: a service, or the admin that the
first of them has shown. -/
def Lets (c : Credentials) (checked : Time) (l : Heard) : Option Uuid → Prop
  | none => ByService S T serviceApiKeys c checked
  | some id => ∃ user rest, l = ⟨.findById id, some user⟩ :: rest ∧
      ByAdmin S T c checked { users := [user] } id

/-- The request may have `userId` changed in the name of the caller; in nobody's, where
its guess was right and this is the account of the phone. -/
inductive Entitled : Inbound → Heard → Uuid → Option Uuid → Prop
  | verification {q h l user} : Read S (.verifyOtp q) l user →
      Entitled (.anyone (.verifyOtp q) h) l user.id none
  | routed {c checked now route l userId caller} : route.target = some userId →
      Lets S T serviceApiKeys c checked l caller →
      Entitled (.routed c checked now route) l userId caller

end Inbound

/-- What a recorded row says: who did it to whom. -/
def Call.audits : Call → Option (Uuid × Option Uuid)
  | .recordStatusChange row => some (row.userId, row.changedBy)
  | .recordRoleChange row => some (row.userId, row.changedBy)
  | _ => none

/-- The monitor of the audit rows. -/
def vouching (S : Env) (T : TokenService) (serviceApiKeys : String) (b : Inbound) :
    Monitor Call Call.Resp (Refusal ⊕ Failure) Reply Heard :=
  tracing (fun l c => Credible l → ∀ userId caller, c.audits = some (userId, caller) →
    Entitled S T serviceApiKeys b l userId caller) (fun _ _ => True) fun _ _ => True

section Vouching

variable {S : Env} {T : TokenService} {serviceApiKeys : String} {c : Credentials}
  {checked now : Time} {b : Inbound}

/-- Whom a command that keeps an audit trail changes. -/
def Request.target : Request → Option Uuid
  | changeRole q => some q.userId
  | decideKyc q => some q.userId
  | changeStatus q => some q.userId
  | _ => none

/-- `userId` is the target of the request, or the account that its guess has found. -/
inductive Concerns (S : Env) (l : Heard) (userId : Uuid) : Request → Prop
  | target {r} : r.target = some userId → Concerns S l userId r
  | guess {q user} : Read S (.verifyOtp q) l user → user.id = userId →
      Concerns S l userId (.verifyOtp q)

/-- The rows of a request name its target and its caller. -/
theorem Grounds.audits {r : Request} {l : Heard} {call : Call} (h : Grounds S r l call)
    {userId : Uuid} {caller : Option Uuid} (ha : call.audits = some (userId, caller)) :
    caller = r.changedBy ∧ Concerns S l userId r := by
  have hentry : ∀ {user o e}, Read S r l user → Writes S user r o e → (∃ row ∈ e.statusRows,
      row.userId = userId ∧ row.changedBy = caller) ∨ (∃ row ∈ e.roleRows,
      row.userId = userId ∧ row.changedBy = caller) →
      caller = r.changedBy ∧ Concerns S l userId r := by
    intro user o e hread hw hrow
    have hcaller : caller = r.changedBy := by
      rcases hrow with ⟨row, hrow, -, rfl⟩ | ⟨row, hrow, -, rfl⟩
      · exact hw.changedBy.1 row hrow
      · exact hw.changedBy.2 row hrow
    have huser : userId = user.id := by
      rcases hrow with ⟨row, hrow, rfl, -⟩ | ⟨row, hrow, rfl, -⟩
      · exact hw.about.2.1 row hrow
      · exact hw.about.2.2.1 row hrow
    refine ⟨hcaller, ?_⟩
    rw [huser]
    cases hw with
    | rename => simp at hrow
    | verify => exact .guess hread rfl
    | request hq | grant hq | decide hq | transit hq => exact .target (congrArg some hq)
  cases h with
  | recordStatus hs hrow =>
    cases ha
    exact hentry hs.read hs.writes (.inl ⟨_, hrow, rfl, rfl⟩)
  | recordRole hs hrow =>
    cases ha
    exact hentry hs.read hs.writes (.inr ⟨_, hrow, rfl, rfl⟩)
  | _ => cases ha

/-- What a handler calls keeps to what its guard has let through. -/
theorem Invocation.follows_vouching {i : Invocation} (before : Heard)
    (h : ∀ r, i = .command r → ∀ l, Credible (before ++ l) → ∀ userId, Concerns S l userId r →
      Entitled S T serviceApiKeys b (before ++ l) userId r.changedBy) :
    (i.prog S).Follows (vouching S T serviceApiKeys b) before := by
  cases i with
  | listUsers q => trivial
  | query q =>
    have hquiet : ∀ {call : Call}, call.audits = none → ∀ {l : Heard}, Credible l →
        ∀ userId caller, call.audits = some (userId, caller) →
          Entitled S T serviceApiKeys b l userId caller := by
      intro call hnone l _ userId caller ha
      rw [hnone] at ha
      cases ha
    change (q.prog.mapEnd _ _).Follows _ _
    rw [q.prog_eq, GetUserById.call, cachedUser_bind]
    refine ⟨hquiet rfl, fun cached => ?_⟩
    cases cached with
    | some user => trivial
    | none =>
      refine ⟨hquiet rfl, fun user => ?_⟩
      cases user with
      | none => trivial
      | some user => exact ⟨hquiet rfl, fun _ => trivial⟩
  | command r =>
    have hf := (r.follows_grounds S).behind (f := (Sum.inr : Failure → Refusal ⊕ Failure))
      (g := Reply.answered) before
    rw [List.append_nil] at hf
    refine hf.simulated (fun t t' => t = t') ?_ (fun _ _ => trivial) (fun _ _ => trivial) rfl
    rintro t _ call rfl ⟨l, rfl, hmay⟩
    refine ⟨fun hcred userId caller ha => ?_, fun _ => rfl⟩
    obtain ⟨hg, -⟩ := hmay (hcred.subset (List.subset_append_right _ _))
    obtain ⟨rfl, hconcerns⟩ := hg.audits ha
    exact h r rfl l hcred userId hconcerns

/-- What follows a guard that reads an admin. -/
theorem follows_askAdmin {claims : Claims} {forbidden : String} {userId : Uuid}
    (hc : getClaims S T c checked = .ok claims) (hid : subject claims = .ok userId)
    {f : User → Routed Reply}
    (hf : ∀ before user, (∀ l, Credible (before ++ l) →
        Lets S T serviceApiKeys c checked (before ++ l) (some user.id)) →
      (f user).Follows (vouching S T serviceApiKeys b) before) :
    (askAdmin forbidden userId >>= f).Follows (vouching S T serviceApiKeys b) [] := by
  refine ⟨fun _ _ _ ha => (nomatch ha), fun row => ?_⟩
  change (depends (activeAdmin forbidden row) >>= f).Follows (vouching S T serviceApiKeys b)
    [⟨.findById userId, row⟩]
  cases hrow : activeAdmin forbidden row with
  | error e => trivial
  | ok user =>
    obtain ⟨rfl, -⟩ := activeAdmin_ok hrow
    refine hf _ user fun l hcred => ?_
    have huser : user.id = userId := hcred.byId (List.mem_cons_self ..)
    subst huser
    exact ⟨user, l, rfl, byAdmin_of_ok hc hid (by simpa [Db.findById] using hrow)⟩

theorem follows_askRequireAdmin {f : User → Routed Reply}
    (hf : ∀ before user, (∀ l, Credible (before ++ l) →
        Lets S T serviceApiKeys c checked (before ++ l) (some user.id)) →
      (f user).Follows (vouching S T serviceApiKeys b) before) :
    (askRequireAdmin S T c checked >>= f).Follows (vouching S T serviceApiKeys b) [] := by
  unfold askRequireAdmin
  cases hc : getClaims S T c checked with
  | error e => trivial
  | ok claims =>
    change ((depends (getCurrentUserId claims) >>= fun userId => askAdmin _ userId) >>= f).Follows
      (vouching S T serviceApiKeys b) []
    cases hid : getCurrentUserId claims with
    | error e => trivial
    | ok userId => exact follows_askAdmin hc (getCurrentUserId_ok hid) hf

theorem follows_askRequireServiceOrAdmin {f : Option Uuid → Routed Reply}
    (hf : ∀ before caller, (∀ l, Credible (before ++ l) →
        Lets S T serviceApiKeys c checked (before ++ l) caller) →
      (f caller).Follows (vouching S T serviceApiKeys b) before) :
    (askRequireServiceOrAdmin S T serviceApiKeys c checked >>= f).Follows
      (vouching S T serviceApiKeys b) [] := by
  unfold askRequireServiceOrAdmin
  cases hk : c.serviceKey with
  | some key =>
    dsimp only
    split_ifs with hin
    · exact hf [] none fun _ _ => .inl ⟨key, hk, ne_empty_of_mem_keys hin.2, hin.2⟩
    · trivial
  | none =>
    dsimp only
    cases hc : getClaims S T c checked with
    | error e => trivial
    | ok claims =>
      change ((if _ then _ else _) >>= f).Follows (vouching S T serviceApiKeys b) []
      by_cases hrole : Json.isText serviceRole (claims.lookup "role") = true
      · obtain ⟨token, hb, hdecode⟩ := getClaims_ok hc
        rw [if_pos hrole]
        exact hf [] none fun _ _ => .inr ⟨hk, token, claims, hb, hdecode,
          TokenService.verified_of_decode hdecode, Json.isText_iff.mp hrole⟩
      · rw [if_neg hrole]
        cases hid : subject claims with
        | error e => trivial
        | ok userId =>
          change (askAdmin _ userId >>= (fun user => .ret (some user.id)) >>= f).Follows
            (vouching S T serviceApiKeys b) []
          rw [Prog.bind_assoc]
          exact follows_askAdmin hc hid fun before user huser => hf before (some user.id) huser

/-- Every request keeps to it. -/
theorem Inbound.follows_vouching (b : Inbound) :
    (b.prog S T serviceApiKeys).Follows (vouching S T serviceApiKeys b) [] := by
  cases b with
  | anyone r h =>
    change ((Invocation.command r).prog S).Follows (vouching S T serviceApiKeys (.anyone r h)) []
    refine Invocation.follows_vouching [] fun r' hr l _ userId hconcerns => ?_
    obtain rfl := Invocation.command.inj hr
    cases hconcerns with
    | guess hread hid => exact hid ▸ .verification hread
    | target htarget =>
      cases r with
      | registerUser | requestOtp | verifyOtp | refreshAccessToken | logout => cases htarget
      | _ => cases h
  | routed c checked now route =>
    have hquiet : ∀ {i : Invocation},
        (∀ r, i = .command r → r.target = none ∧ ∀ q, r ≠ .verifyOtp q) →
        ∀ before, (i.prog S).Follows (vouching S T serviceApiKeys (.routed c checked now route))
          before := by
      intro i hi before
      refine Invocation.follows_vouching before fun r hr l _ userId hconcerns => ?_
      cases hconcerns with
      | target htarget =>
        rw [(hi r hr).1] at htarget
        cases htarget
      | guess => exact absurd rfl ((hi _ hr).2 _)
    have hown : ∀ f : Uuid → Invocation,
        (∀ userId r, f userId = .command r → r.target = none ∧ ∀ q, r ≠ .verifyOtp q) →
        Prog.Follows (vouching S T serviceApiKeys (.routed c checked now route)) [] (do
          let claims ← depends (getClaims S T c checked)
          let userId ← depends (getCurrentUserId claims)
          (f userId).prog S) := by
      intro f hf
      cases getClaims S T c checked with
      | error e => trivial
      | ok claims =>
        change (depends (getCurrentUserId claims) >>= fun userId => (f userId).prog S).Follows
          (vouching S T serviceApiKeys (.routed c checked now route)) []
        cases getCurrentUserId claims with
        | error e => trivial
        | ok userId => exact hquiet (hf userId) []
    change (route.prog S T serviceApiKeys c checked now).Follows _ _
    cases route with
    | me => exact hown (fun userId => .query (.getCurrentUserProfile ⟨userId⟩)) (by simp)
    | updateMe fullName =>
      refine hown (fun userId => .command (.updateProfile ⟨userId, fullName, now⟩)) ?_
      rintro userId _ ⟨⟩
      exact ⟨rfl, by simp⟩
    | backfill | getUser =>
      exact follows_askRequireServiceOrAdmin fun before _ _ => hquiet (by simp) before
    | listUsers => exact follows_askRequireAdmin fun before _ _ => hquiet (by simp) before
    | changeRole userId role reason =>
      refine follows_askRequireServiceOrAdmin fun before caller hcaller => ?_
      refine Invocation.follows_vouching before fun r hr l hcred id hconcerns => ?_
      obtain rfl := Invocation.command.inj hr
      cases hconcerns with
      | target htarget => exact .routed htarget (hcaller l hcred)
    | changeStatus userId status reason =>
      refine follows_askRequireAdmin fun before user huser => ?_
      refine Invocation.follows_vouching before fun r hr l hcred id hconcerns => ?_
      obtain rfl := Invocation.command.inj hr
      cases hconcerns with
      | target htarget => exact .routed htarget (huser l hcred)
    | decideKyc userId approved reason =>
      refine follows_askRequireAdmin fun before user huser => ?_
      refine Invocation.follows_vouching before fun r hr l hcred id hconcerns => ?_
      obtain rfl := Invocation.command.inj hr
      cases hconcerns with
      | target htarget => exact .routed htarget (huser l hcred)

end Vouching

/-! ### Every interleaving -/

/-- A run of the service: the requests that come in, the first tables, a schedule. -/
structure Service (ι : Type) where
  env : Env
  tokens : TokenService
  serviceApiKeys : String
  inbound : ι → Inbound
  db : Db
  outside : Outside
  schedule : ℕ → ι

namespace Service

variable {ι : Type} [Fintype ι] [DecidableEq ι] (G : Service ι)

def start : System Call Call.Resp (Refusal ⊕ Failure) Reply Db Outside Write ι :=
  System.start G.db G.outside fun i => (G.inbound i).prog G.env G.tokens G.serviceApiKeys

/-- The state at an instant. -/
def state (n : ℕ) : System Call Call.Resp (Refusal ⊕ Failure) Reply Db Outside Write ι :=
  store.state G.start G.schedule n

/-- Request `i` has had the right to change `userId` in the name of the caller: an
active admin at an instant before `n`, or nobody, for a service and for the account of
a phone whose code was typed. -/
inductive Vouched (n : ℕ) (i : ι) (userId : Uuid) : Option Uuid → Prop
  | admin {c checked now route m id} : G.inbound i = .routed c checked now route →
      route.target = some userId → m < n →
      ByAdmin G.env G.tokens c checked (G.state m).db id → Vouched n i userId (some id)
  | service {c checked now route} : G.inbound i = .routed c checked now route →
      route.target = some userId → ByService G.env G.tokens G.serviceApiKeys c checked →
      Vouched n i userId none
  | verification {q h user} : G.inbound i = .anyone (.verifyOtp q) h →
      Read G.env (.verifyOtp q) ((G.state n).thread i).trace user → user.id = userId →
      Vouched n i userId none

variable {G} {n : ℕ} {i : ι}

theorem reach (n : ℕ) : store.Reach Any G.start (G.state n) := reach_state n

end Service

theorem ByAdmin.of_findById {S : Env} {T : TokenService} {c : Credentials} {checked : Time}
    {d : Db} {user : User} (h : ByAdmin S T c checked { users := [user] } user.id)
    (hd : d.findById user.id = some user) : ByAdmin S T c checked d user.id := by
  obtain ⟨token, claims, sub, found, hb, hv, hsub, hid, hfound, hst, hrole⟩ := h
  obtain rfl : user = found := by simpa [Db.findById] using hfound
  exact ⟨token, claims, sub, user, hb, hv, hsub, hid, hd, hst, hrole⟩

namespace Service

variable {ι : Type} [Fintype ι] [DecidableEq ι] {G : Service ι} {n : ℕ} {i : ι}

/-- Who has recorded a row had the right to. -/
theorem vouched_of_told {call : Call} {r : call.Resp}
    (ht : Told ((G.state n).thread i).trace call r) {userId : Uuid} {caller : Option Uuid}
    (ha : call.audits = some (userId, caller)) :
    G.Vouched n i userId caller := by
  obtain ⟨before, after, htrace⟩ := List.append_of_mem ht
  have hcred := credible_of_reach (reach (G := G) n) i
  rw [htrace] at hcred
  have hf : ((G.inbound i).prog G.env G.tokens G.serviceApiKeys).Follows
      (vouching G.env G.tokens G.serviceApiKeys (G.inbound i)) [] := (G.inbound i).follows_vouching
  have hentitled := (reach n).asked hf htrace
    (hcred.subset (List.subset_append_left _ _)) userId caller ha
  generalize hb : G.inbound i = b at hentitled
  cases hentitled with
  | verification hread => exact .verification hb (hread.mono (htrace ▸ List.subset_append_left _ _)) rfl
  | @routed c checked now route _ _ _ htarget hlets =>
    cases caller with
    | none => exact .service hb htarget hlets
    | some id =>
      obtain ⟨user, rest, hbefore, hadmin⟩ := hlets
      have hid : user.id = id := by
        have hfound : Told before (.findById id) (some user) := by rw [hbefore]; simp
        exact hcred.byId (List.mem_append_left _ hfound)
      subst hid
      -- the guard has read the account before anything was written
      rw [hbefore, List.cons_append] at htrace
      have hstart : ((G.state n).thread i).trace =
          [] ++ ⟨.findById user.id, some user⟩ :: (rest ++ ⟨call, r⟩ :: after) := htrace
      obtain ⟨m, hm, -, hfirst, -, hread⟩ := state_asked hstart
      have hlog := congrArg Thread.log (thread_of_trace_nil hfirst)
      rw [answer, hlog] at hread
      exact .admin hb htarget hm (hadmin.of_findById hread)

/-- **Who did it to whom.** Each audit row that a run adds was written by a
request that vouches for it. -/
theorem audit_vouched (G : Service ι) (n : ℕ) : ∃ status role,
    (G.state n).db.statusHistory = G.db.statusHistory ++ status ∧
    (G.state n).db.roleHistory = G.db.roleHistory ++ role ∧
    (∀ row ∈ status, ∃ i, Told ((G.state n).thread i).trace (.recordStatusChange row) () ∧
      G.Vouched n i row.userId row.changedBy) ∧
    ∀ row ∈ role, ∃ i, Told ((G.state n).thread i).trace (.recordRoleChange row) () ∧
      G.Vouched n i row.userId row.changedBy := by
  obtain ⟨⟨ws, hdb, hws⟩, -⟩ := (reach (G := G) n).history
  have hgrown := G.db.grownBy_view (ws.map Prod.snd)
  rw [← hdb] at hgrown
  refine ⟨_, _, hgrown.status, hgrown.role, fun row hrow => ?_, fun row hrow => ?_⟩
  · obtain ⟨p, hp, hmem⟩ := exists_of_mem_flatMap hrow
    obtain ⟨⟨c, r⟩, ha, d', x', -, hw⟩ := (hws p hp).1
    rw [Write.eq_of_mem_statusRows hmem] at hw
    obtain rfl : c = .recordStatusChange row := by
      have hmakes := exec_makes hw
      revert hmakes
      cases c <;> simp_all [Call.makes]
    exact ⟨p.1, ha, vouched_of_told ha rfl⟩
  · obtain ⟨p, hp, hmem⟩ := exists_of_mem_flatMap hrow
    obtain ⟨⟨c, r⟩, ha, d', x', -, hw⟩ := (hws p hp).1
    rw [Write.eq_of_mem_roleRows hmem] at hw
    obtain rfl : c = .recordRoleChange row := by
      have hmakes := exec_makes hw
      revert hmakes
      cases c <;> simp_all [Call.makes]
    exact ⟨p.1, ha, vouched_of_told ha rfl⟩

end Service
end DiddiFreeID
