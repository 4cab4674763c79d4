/-
# A pending request takes nothing away

`World.unasked u` is a world without what account `u` asked for: the request
pending on its row and the instant of its last save, the audit rows and
events of requests, its cached profile. A request for a role under KYC
changes nothing else (`ChangeRole.unasked_request`), and for an account past
its first verification no command but `DecideKyc` on it reads what is taken
out (`Request.effect_unasked`): two worlds alike without it answer alike and
stay alike (`unasked_step`). So a run with the request put in agrees with the
run without it at every later point (`request_takes_nothing`).

Key definitions: `World.unasked`, `Response.unasked`, `Effect.Alike`.
Key theorems: `Request.effect_unasked`, `unasked_step`, `request_takes_nothing`.
-/
import DiddiFreeID.Effects
import DiddiFreeID.StatusTrail

namespace DiddiFreeID

open Transact Engine

variable (u : Uuid)

/-! ### What is taken out -/

/-- The row of `u` without its pending request. -/
def User.unasked (row : User) : User :=
  if row.id = u then { row with requestedRole := none, updatedAt := none } else row

/-- The row of a request or of a refusal: no role is granted. -/
def UserRoleChange.asks (c : UserRoleChange) : Bool := decide (c.userId = u) && c.toRole.isNone

/-- The event of a request or of a refusal. -/
def DomainEvent.asks (e : DomainEvent) : Bool :=
  decide (e.userId = u) &&
    match e with
    | userUpdated _ _ _ _ changedFields => decide (changedFields = ["requested_role"])
    | _ => false

def Db.unasked (d : Db) : Db :=
  { d with
    users := d.users.map (User.unasked u)
    roleHistory := d.roleHistory.filter fun c => !c.asks u }

def Outside.unasked (x : Outside) : Outside :=
  { x with
    cache := x.cache.filter fun e => e.1 ≠ u
    stream := x.stream.filter fun e => !e.asks u }

def World.unasked (w : World) : World := ⟨w.db.unasked u, w.outside.unasked u⟩

def Account.unasked (a : Account) : Account :=
  { a with
    user := a.user.unasked u
    roleRows := a.roleRows.filter fun c => !c.asks u
    events := a.events.filter fun e => !e.asks u }

def Profile.unasked (p : Profile) : Profile :=
  if p.id = u then { p with requestedRole := none } else p

/-- An answer but for the pending request in the profile of `u`: the tokens
and everything else stay. -/
def Response.unasked : Response → Response
  | authenticated accessToken refreshToken user => authenticated accessToken refreshToken (user.unasked u)
  | profile user => profile (user.unasked u)
  | r => r

def Write.unasked : Write → Write
  | updateUser user now => updateUser (user.unasked u) now
  | w => w

def Entry.unasked (e : Entry) : Entry := { e with user := e.user.unasked u }

def Decision.unasked (dec : Decision) : Decision :=
  { outcome := dec.outcome.map (Response.unasked u), entry := dec.entry.map (Entry.unasked u) }

variable {u}

namespace User

theorem unasked_of_ne {row : User} (h : row.id ≠ u) : row.unasked u = row := if_neg h

theorem unasked_of_eq {row : User} (h : row.id = u) :
    row.unasked u = { row with requestedRole := none, updatedAt := none } := if_pos h

@[simp] theorem unasked_id (row : User) : (row.unasked u).id = row.id := by
  unfold unasked
  split_ifs <;> rfl

@[simp] theorem unasked_phone (row : User) : (row.unasked u).phone = row.phone := by
  unfold unasked
  split_ifs <;> rfl

@[simp] theorem unasked_role (row : User) : (row.unasked u).role = row.role := by
  unfold unasked
  split_ifs <;> rfl

@[simp] theorem unasked_status (row : User) : (row.unasked u).status = row.status := by
  unfold unasked
  split_ifs <;> rfl

@[simp] theorem unasked_fullName (row : User) : (row.unasked u).fullName = row.fullName := by
  unfold unasked
  split_ifs <;> rfl

@[simp] theorem unasked_unasked (row : User) : (row.unasked u).unasked u = row.unasked u := by
  by_cases h : row.id = u
  · simp [unasked_of_eq, h]
  · simp [unasked_of_ne, h]

/-- Saving keeps apart what is taken out and what is not. -/
theorem unasked_assign (row user : User) (now : Time) (hid : row.id = user.id) :
    (Write.assign user now row).unasked u =
      (Write.assign (user.unasked u) now (row.unasked u)).unasked u := by
  by_cases h : user.id = u
  · simp [unasked, Write.assign, h, hid]
  · simp [unasked, Write.assign, h, hid]

end User

/-! ### The tables -/

namespace Db

variable (d : Db)

@[simp] theorem unasked_otps : (d.unasked u).otps = d.otps := rfl

@[simp] theorem unasked_refreshTokens : (d.unasked u).refreshTokens = d.refreshTokens := rfl

@[simp] theorem unasked_statusHistory : (d.unasked u).statusHistory = d.statusHistory := rfl

theorem unasked_ids : (d.unasked u).users.map User.id = d.users.map User.id := by
  rw [unasked, List.map_map]
  exact List.map_congr_left fun row _ => row.unasked_id

@[simp] theorem unasked_unasked : (d.unasked u).unasked u = d.unasked u := by
  simp only [unasked, List.map_map, List.filter_filter, Bool.and_self, Db.mk.injEq, and_true]
  exact List.map_congr_left fun row _ => row.unasked_unasked

theorem unasked_findById (v : Uuid) :
    (d.unasked u).findById v = (d.findById v).map (User.unasked u) := by
  simp only [findById, unasked, List.find?_map]
  congr 2
  funext row
  simp

theorem unasked_findByPhone (phone : String) :
    (d.unasked u).findByPhone phone = (d.findByPhone phone).map (User.unasked u) := by
  simp only [findByPhone, unasked, List.find?_map]
  congr 2
  funext row
  simp

/-- What a write leaves, but for the pending request, depends on the tables
but for the pending request. -/
theorem unasked_apply (w : Write) :
    (Write.apply d w).unasked u = (Write.apply (d.unasked u) (w.unasked u)).unasked u := by
  cases w with
  | updateUser user now =>
    simp only [unasked, Write.apply, Write.unasked, List.map_map, List.filter_filter, Bool.and_self,
      Db.mk.injEq, and_self, and_true]
    refine List.map_congr_left fun row _ => ?_
    simp only [Function.comp_apply, User.unasked_id]
    split_ifs with hid
    · exact User.unasked_assign row user now hid
    · rw [User.unasked_unasked]
  | insertRole c =>
    simp only [unasked, Write.apply, Write.unasked, List.map_map, List.filter_append,
      List.filter_filter, Bool.and_self, Db.mk.injEq, and_true]
    exact List.map_congr_left fun row _ => by simp
  | insertUser user =>
    simp only [unasked, Write.apply, Write.unasked, List.map_append, List.map_map,
      List.filter_filter, Bool.and_self, Db.mk.injEq, and_true]
    congr 1
    exact List.map_congr_left fun row _ => by simp
  | _ =>
    simp only [unasked, Write.apply, Write.unasked, List.map_map, List.filter_filter, Bool.and_self,
      Db.mk.injEq, and_true]
    exact List.map_congr_left fun row _ => by simp

variable {d} {d₁ d₂ : Db} {log₁ log₂ : List Write}

theorem unasked_apply_congr (hd : d₁.unasked u = d₂.unasked u) {w₁ w₂ : Write}
    (hw : w₁.unasked u = w₂.unasked u) :
    (Write.apply d₁ w₁).unasked u = (Write.apply d₂ w₂).unasked u := by
  rw [unasked_apply d₁, unasked_apply d₂, hd, hw]

theorem unasked_view_congr (hd : d₁.unasked u = d₂.unasked u)
    (hl : log₁.map (Write.unasked u) = log₂.map (Write.unasked u)) :
    (store.view d₁ log₁).unasked u = (store.view d₂ log₂).unasked u := by
  induction log₁ generalizing d₁ d₂ log₂ with
  | nil =>
    rw [List.map_nil, eq_comm, List.map_eq_nil_iff] at hl
    rw [hl]
    exact hd
  | cons w₁ log₁ ih =>
    cases log₂ with
    | nil => cases hl
    | cons w₂ log₂ =>
      obtain ⟨hw, hl⟩ := List.cons.inj hl
      rw [view_cons, view_cons, store_apply, store_apply]
      exact ih (unasked_apply_congr hd hw) hl

end Db

/-! ### Outside -/

namespace Outside

variable {x₁ x₂ : Outside}

theorem unasked_invalidateUser (h : x₁.unasked u = x₂.unasked u) (v : Uuid) :
    (x₁.invalidateUser v).unasked u = (x₂.invalidateUser v).unasked u := by
  simp only [unasked, Outside.mk.injEq] at h ⊢
  refine ⟨?_, h.2⟩
  simp only [invalidateUser]
  rw [List.filter_comm, h.1, List.filter_comm]

theorem unasked_publish (h : x₁.unasked u = x₂.unasked u) (e : DomainEvent) :
    (x₁.publish e).unasked u = (x₂.publish e).unasked u := by
  simp only [unasked, Outside.mk.injEq, publish, List.filter_append] at h ⊢
  exact ⟨h.1, by rw [h.2.1], h.2.2⟩

theorem unasked_published (h : x₁.unasked u = x₂.unasked u) (events : List DomainEvent) :
    (events.foldl publish x₁).unasked u = (events.foldl publish x₂).unasked u := by
  induction events generalizing x₁ x₂ with
  | nil => exact h
  | cons e events ih => exact ih (unasked_publish h e)

/-- The event of a request is taken out. -/
theorem unasked_publish_asks {e : DomainEvent} (he : e.asks u = true) (x : Outside) :
    (x.publish e).unasked u = x.unasked u := by
  simp [unasked, publish, he]

theorem unasked_invalidateUser_self (x : Outside) :
    (x.invalidateUser u).unasked u = x.unasked u := by
  simp [unasked, invalidateUser]

@[simp] theorem unasked_unasked (x : Outside) : (x.unasked u).unasked u = x.unasked u := by
  simp [unasked]

end Outside

/-! ### Decisions -/

theorem Entry.writes_unasked (e : Entry) : e.writes.map (Write.unasked u) = (e.unasked u).writes := by
  simp [writes, unasked, Write.unasked, Function.comp_def]

theorem Decision.writes_unasked (dec : Decision) :
    dec.writes.map (Write.unasked u) = (dec.unasked u).writes := by
  unfold writes unasked
  cases dec.entry with
  | none => rfl
  | some e => exact e.writes_unasked

theorem Entry.outside_unasked {e e' : Entry} (h : e.unasked u = e'.unasked u) {x₁ x₂ : Outside}
    (hx : x₁.unasked u = x₂.unasked u) : (e.outside x₁).unasked u = (e'.outside x₂).unasked u := by
  have hid : e.user.id = e'.user.id := by
    simpa [unasked] using congrArg (fun e : Entry => e.user.id) h
  have hevents : (e.unasked u).events = (e'.unasked u).events := by rw [h]
  change e.events = e'.events at hevents
  unfold outside
  rw [hid, hevents]
  exact Outside.unasked_published (Outside.unasked_invalidateUser hx _) _

theorem Decision.entry_unasked {dec dec' : Decision} (h : dec.unasked u = dec'.unasked u) :
    (dec.entry = none ∧ dec'.entry = none) ∨
    ∃ e e', dec.entry = some e ∧ dec'.entry = some e' ∧ e.unasked u = e'.unasked u := by
  have hentry : dec.entry.map (Entry.unasked u) = dec'.entry.map (Entry.unasked u) :=
    congrArg Decision.entry h
  cases he : dec.entry with
  | none =>
    rw [he, Option.map_none, eq_comm, Option.map_eq_none_iff] at hentry
    exact .inl ⟨rfl, hentry⟩
  | some e =>
    rw [he, Option.map_some, eq_comm] at hentry
    obtain ⟨e', he', hee⟩ := Option.map_eq_some_iff.mp hentry
    exact .inr ⟨e, e', rfl, he', hee.symm⟩

theorem Decision.outside_unasked {dec dec' : Decision} (h : dec.unasked u = dec'.unasked u)
    {x₁ x₂ : Outside} (hx : x₁.unasked u = x₂.unasked u) :
    (dec.outside x₁).unasked u = (dec'.outside x₂).unasked u := by
  unfold outside
  rcases entry_unasked h with ⟨he, he'⟩ | ⟨e, e', he, he', hee⟩
  · rw [he, he']
    exact hx
  · rw [he, he']
    exact Entry.outside_unasked hee hx

/-- A decision on a row that is not the one of `u`, or that does not read
what is taken out of it. -/
theorem Decision.unasked_row {decision : Option User → Decision}
    (h : ∀ user : User, user.id = u → (decision (some user)).unasked u =
      (decision (some { user with requestedRole := none, updatedAt := none })).unasked u)
    (row : Option User) :
    (decision row).unasked u = (decision (row.map (User.unasked u))).unasked u := by
  cases row with
  | none => rfl
  | some user =>
    rw [Option.map_some]
    by_cases hid : user.id = u
    · rw [User.unasked_of_eq hid]
      exact h user hid
    · rw [User.unasked_of_ne hid]

theorem UpdateProfile.decision_unasked (q : UpdateProfile) (row : Option User) :
    (q.decision row).unasked u = (q.decision (row.map (User.unasked u))).unasked u := by
  refine Decision.unasked_row (fun user hid => ?_) row
  simp only [decision]
  split_ifs
  all_goals simp [Decision.unasked, Decision.answer, Entry.unasked, User.unasked, Except.map,
    Response.unasked, Profile.unasked, profilePayload, hid]

theorem ChangeStatus.decision_unasked (q : ChangeStatus) (row : Option User) :
    (q.decision row).unasked u = (q.decision (row.map (User.unasked u))).unasked u := by
  refine Decision.unasked_row (fun user hid => ?_) row
  unfold decision
  cases UserStatus.ofValue q.status with
  | none => rfl
  | some target =>
    dsimp only
    split_ifs
    all_goals simp [Decision.unasked, Decision.refuse, Entry.unasked, User.unasked, Except.map,
      Response.unasked, Profile.unasked, profilePayload, transitionRow, hid]

namespace ChangeRole

/-- A grant does not read the pending request. -/
theorem decision_unasked {q : ChangeRole} {targetRole : UserRole}
    (ht : UserRole.ofValue q.role = some targetRole) (row : Option User)
    (hk : ∀ user, row = some user → user.id = u → user.needsKycFor targetRole = false) :
    (q.decision row).unasked u = (q.decision (row.map (User.unasked u))).unasked u := by
  cases row with
  | none => rfl
  | some user =>
    rw [Option.map_some]
    by_cases hid : user.id = u
    · have hk' := hk user rfl hid
      have hk'' : ({ user with requestedRole := none, updatedAt := none } : User).needsKycFor
          targetRole = false := hk'
      rw [User.unasked_of_eq hid]
      simp only [decision, ht, hk', hk'', Bool.false_eq_true, ↓reduceIte]
      split_ifs
      all_goals simp [Decision.unasked, Decision.answer, Entry.unasked, User.unasked, Except.map,
        Response.unasked, Profile.unasked, profilePayload, grantRow, hid]
    · rw [User.unasked_of_ne hid]

/-- A request for a role under KYC, by account `u`: what is not taken out
stays. -/
theorem unasked_request {d : Db} (hids : (d.users.map User.id).Nodup) (x : Outside) {q : ChangeRole}
    {targetRole : UserRole} {user : User} (ht : UserRole.ofValue q.role = some targetRole)
    (hu : user ∈ d.users) (hid : user.id = u) (hk : user.needsKycFor targetRole = true) :
    (q.decision (some user)).outcome.map (Response.unasked u) =
      .ok ((Response.profile (profilePayload user)).unasked u) ∧
    (store.view d (q.decision (some user)).writes).unasked u = d.unasked u ∧
    ((q.decision (some user)).outside x).unasked u = x.unasked u := by
  simp only [decision, ht, hk, ↓reduceIte]
  split_ifs with hr
  · exact ⟨rfl, rfl, rfl⟩
  · refine ⟨?_, ?_, ?_⟩
    · simp [Except.map, Response.unasked, Profile.unasked, profilePayload, hid]
    · -- the row saved is the one read, but for the request
      have hsave : ∀ row ∈ d.users, User.unasked u (if row.id = user.id
          then Write.assign { user with requestedRole := some targetRole } q.now row else row) =
            row.unasked u := by
        intro row hrow
        split_ifs with hrid
        · rw [List.inj_on_of_nodup_map hids hrow hu hrid]
          simp [User.unasked, Write.assign, hid]
        · rfl
      simp only [Decision.writes, Option.elim, Entry.writes, List.map_nil, List.map_cons,
        List.nil_append, view_cons, view_nil, store_apply, Write.apply, Db.unasked, List.map_map,
        Db.mk.injEq, true_and]
      refine ⟨List.map_congr_left fun row hrow => hsave row hrow, ?_⟩
      simp [List.filter_append, UserRoleChange.asks, requestRow, hid]
    · rw [Decision.outside, Option.elim, Entry.outside, List.foldl_cons, List.foldl_nil,
        Outside.unasked_publish_asks (by simp [DomainEvent.asks, DomainEvent.userId, hid])]
      dsimp only
      rw [hid]
      exact Outside.unasked_invalidateUser_self x

end ChangeRole

/-! ### Effects -/

/-- Two effects that answer alike and leave alike tables, but for the pending
request of `u`. -/
structure Effect.Alike (u : Uuid) (d₁ d₂ : Db) (e₁ e₂ : Effect) : Prop where
  outcome : e₁.outcome.map (Response.unasked u) = e₂.outcome.map (Response.unasked u)
  db : (store.view d₁ e₁.writes).unasked u = (store.view d₂ e₂.writes).unasked u
  outside : e₁.outside.unasked u = e₂.outside.unasked u

namespace Effect.Alike

variable {d : Db} {x : Outside}

theorem refuse (e : ApiError) :
    Effect.Alike u d (d.unasked u) (.refuse e x) (.refuse e (x.unasked u)) :=
  ⟨rfl, (d.unasked_unasked).symm, x.unasked_unasked.symm⟩

/-- The same answer and the same writes. -/
theorem same {o : Except Failure Response} {log : List Write} {x₁ x₂ : Outside}
    (hx : x₁.unasked u = x₂.unasked u) :
    Effect.Alike u d (d.unasked u) ⟨o, log, x₁⟩ ⟨o, log, x₂⟩ :=
  ⟨rfl, Db.unasked_view_congr d.unasked_unasked.symm rfl, hx⟩

theorem decided {dec dec' : Decision} (h : dec.unasked u = dec'.unasked u) :
    Effect.Alike u d (d.unasked u) (.decided dec x) (.decided dec' (x.unasked u)) where
  outcome := congrArg Decision.outcome h
  db := by
    refine Db.unasked_view_congr d.unasked_unasked.symm ?_
    change dec.writes.map _ = dec'.writes.map _
    rw [Decision.writes_unasked, Decision.writes_unasked, h]
  outside := Decision.outside_unasked h x.unasked_unasked.symm

end Effect.Alike

variable (S : Env) {d : Db} (x : Outside)

theorem ChangeRole.effect_unasked (hids : (d.users.map User.id).Nodup) (q : ChangeRole) :
    Effect.Alike u d (d.unasked u) (.decided (q.decision (d.findById q.userId)) x)
      (.decided (q.decision ((d.unasked u).findById q.userId)) (x.unasked u)) := by
  rw [Db.unasked_findById]
  by_cases hk : ∃ user targetRole, d.findById q.userId = some user ∧ user.id = u ∧
      UserRole.ofValue q.role = some targetRole ∧ user.needsKycFor targetRole = true
  · -- both ask: neither leaves anything else
    obtain ⟨user, targetRole, hu, hid, ht, hk⟩ := hk
    have hmem := (Db.mem_of_findById hu).1
    obtain ⟨ho, hw, hx⟩ := unasked_request hids x ht hmem hid hk
    have hids' : ((d.unasked u).users.map User.id).Nodup := by rw [Db.unasked_ids]; exact hids
    have hmem' : user.unasked u ∈ (d.unasked u).users := List.mem_map_of_mem hmem
    have hk' : (user.unasked u).needsKycFor targetRole = true := by
      rw [User.unasked_of_eq hid]
      exact hk
    obtain ⟨ho', hw', hx'⟩ := unasked_request hids' (x.unasked u) ht hmem'
      (by rw [User.unasked_id, hid]) hk'
    rw [hu, Option.map_some]
    refine ⟨ho.trans (Eq.trans ?_ ho'.symm), hw.trans (d.unasked_unasked.symm.trans hw'.symm),
      hx.trans (x.unasked_unasked.symm.trans hx'.symm)⟩
    simp [Response.unasked, Profile.unasked, profilePayload, hid, User.unasked_of_eq]
  · refine .decided ?_
    cases ht : UserRole.ofValue q.role with
    | none =>
      unfold decision
      rw [ht]
    | some targetRole =>
      refine decision_unasked ht _ fun user hu hid => ?_
      by_contra hne
      exact hk ⟨user, targetRole, hu, hid, ht, by simpa using hne⟩

theorem RegisterUser.effect_unasked (q : RegisterUser) :
    Effect.Alike u d (d.unasked u) (q.effect d x) (q.effect (d.unasked u) (x.unasked u)) := by
  unfold effect
  cases validatePhone q.phone with
  | error e => exact .refuse e
  | ok phone =>
    dsimp only
    rw [Db.unasked_findByPhone]
    cases d.findByPhone phone with
    | some user => exact .refuse _
    | none =>
      have hsave : ((d.unasked u).saveUser (q.newUser phone) q.now).2 =
          (d.saveUser (q.newUser phone) q.now).2 := by
        unfold Db.saveUser
        rw [Db.unasked_findById, Db.unasked_findByPhone]
        cases d.findById (q.newUser phone).id with
        | some row => rfl
        | none => cases d.findByPhone (q.newUser phone).phone <;> rfl
      rw [Option.map_none, hsave]
      exact .same x.unasked_unasked.symm

namespace RequestOtp

variable (q : RequestOtp)

theorem countIp_unasked : q.countIp (x.unasked u) = (q.countIp x).unasked u := by
  unfold countIp
  cases q.clientIp with
  | none => rfl
  | some ip =>
    have hhits : (x.unasked u).hits ip q.now = x.hits ip q.now := rfl
    simp only [hhits]
    split_ifs
    · rfl
    · rfl
    · rfl

theorem arm_unasked (phone : String) : arm S (x.unasked u) phone q = (arm S x phone q).unasked u := by
  unfold arm
  split_ifs <;> rfl

theorem effect_unasked :
    Effect.Alike u d (d.unasked u) (q.effect S d x) (q.effect S (d.unasked u) (x.unasked u)) := by
  have hallows : q.ipAllows (x.unasked u) = q.ipAllows x := rfl
  have hwait : ∀ phone y, wait S (Outside.unasked u y) phone q = wait S y phone q :=
    fun _ _ => rfl
  unfold effect
  cases validatePhone q.phone with
  | error e => exact .refuse e
  | ok phone =>
    simp only [countIp_unasked, hallows, hwait, Db.unasked_findByPhone]
    split_ifs
    · exact .refuse _
    · have hsent : ∀ y sent, ({ Outside.unasked u y with sent := sent } : Outside) =
          Outside.unasked u { y with sent := sent } := fun _ _ => rfl
      cases d.findByPhone phone with
      | some user =>
        simp only [Option.map_some, hsent, arm_unasked]
        exact .same (Outside.unasked_unasked _).symm
      | none =>
        simp only [Option.map_none, arm_unasked]
        exact .same (Outside.unasked_unasked _).symm
    · exact .refuse _

end RequestOtp

theorem RefreshAccessToken.effect_unasked (q : RefreshAccessToken) :
    Effect.Alike u d (d.unasked u) (q.effect S d x) (q.effect S (d.unasked u) (x.unasked u)) := by
  have htoken : ∀ hash, (d.unasked u).findByHash hash = d.findByHash hash := fun _ => rfl
  unfold effect
  rw [htoken]
  cases d.findByHash (hashRefreshToken S q.refreshToken) with
  | none => exact .refuse _
  | some stored =>
    dsimp only
    rw [Db.unasked_findById]
    split_ifs
    · exact .same x.unasked_unasked.symm
    · exact .refuse _
    · cases d.findById stored.userId with
      | none => exact .refuse _
      | some user =>
        simp only [Option.map_some, User.unasked_status]
        split_ifs
        · have hanswer : q.answer S (user.unasked u) = q.answer S user := by
            simp [answer]
          have hnew : q.newToken S stored (user.unasked u) = q.newToken S stored user := by
            simp [newToken]
          rw [hanswer, hnew]
          exact .same x.unasked_unasked.symm
        · exact .refuse _

theorem Logout.effect_unasked (q : Logout) :
    Effect.Alike u d (d.unasked u) (q.effect S d x) (q.effect S (d.unasked u) (x.unasked u)) := by
  have htoken : ∀ hash, (d.unasked u).findByHash hash = d.findByHash hash := fun _ => rfl
  unfold effect
  rw [htoken]
  cases d.findByHash (hashRefreshToken S q.refreshToken) with
  | none => exact .same x.unasked_unasked.symm
  | some stored =>
    dsimp only
    split_ifs
    · exact .same x.unasked_unasked.symm
    · exact .same x.unasked_unasked.symm

theorem ChangeStatus.effect_unasked (q : ChangeStatus) :
    Effect.Alike u d (d.unasked u) (q.effect d x) (q.effect (d.unasked u) (x.unasked u)) := by
  have hrow : (q.decision (d.findById q.userId)).unasked u =
      (q.decision ((d.unasked u).findById q.userId)).unasked u := by
    rw [Db.unasked_findById]
    exact q.decision_unasked _
  refine ⟨congrArg Decision.outcome hrow, Db.unasked_view_congr d.unasked_unasked.symm ?_,
    Decision.outside_unasked hrow x.unasked_unasked.symm⟩
  change List.map _ (Option.elim _ _ _) = List.map _ (Option.elim _ _ _)
  rcases Decision.entry_unasked hrow with ⟨he, he'⟩ | ⟨e, e', he, he', hee⟩
  · rw [he, he']
    rfl
  · have hid : e.user.id = e'.user.id := by
      simpa [Entry.unasked] using congrArg (fun e : Entry => e.user.id) hee
    have hst : e.user.status = e'.user.status := by
      simpa [Entry.unasked] using congrArg (fun e : Entry => e.user.status) hee
    have hnow : (e.unasked u).now = (e'.unasked u).now := by rw [hee]
    change e.now = e'.now at hnow
    rw [he, he', Option.elim, Option.elim, List.map_append, List.map_append, Entry.writes_unasked,
      Entry.writes_unasked, hee, hid, hst, hnow]
    rfl

namespace VerifyOtp

variable (q : VerifyOtp)

theorem rejection_unasked (otp : OtpCode) :
    Effect.Alike u d (d.unasked u) (q.rejection S d x otp)
      (q.rejection S (d.unasked u) (x.unasked u) otp) := by
  have hnext : (d.unasked u).nextAttempt otp.id = d.nextAttempt otp.id := rfl
  have hconsumed : (Write.apply (d.unasked u) (.bumpAttempts otp.id)).consumption otp.id q.now =
      (Write.apply d (.bumpAttempts otp.id)).consumption otp.id q.now := rfl
  unfold rejection
  rw [hnext]
  cases d.nextAttempt otp.id with
  | none => exact .same x.unasked_unasked.symm
  | some attempts =>
    dsimp only
    rw [hconsumed]
    split_ifs
    · exact .same x.unasked_unasked.symm
    · exact .same x.unasked_unasked.symm

/-- Past its first verification an account logs in as it is. -/
theorem decision_of_verified {user : User} (h : user.status ≠ .pendingVerification) :
    q.decision S (some user) =
      if user.status = .suspended then .refuse userSuspended else .answer (q.answer S user) := by
  simp only [decision, if_neg h]

theorem acceptance_unasked (otp : OtpCode) (row : Option User)
    (hpos : ∀ user, row = some user → user.id = u → user.status ≠ .pendingVerification) :
    Effect.Alike u d (d.unasked u) (q.acceptance S d x otp row)
      (q.acceptance S (d.unasked u) (x.unasked u) otp (row.map (User.unasked u))) := by
  have hconsumed : (d.unasked u).consumption otp.id q.now = d.consumption otp.id q.now := rfl
  unfold acceptance
  rw [hconsumed]
  cases row with
  | none => exact .same x.unasked_unasked.symm
  | some user =>
    rw [Option.map_some]
    by_cases hid : user.id = u
    · have hst := hpos user rfl hid
      rw [decision_of_verified S q hst, decision_of_verified S q (by rw [User.unasked_status]; exact hst),
        User.unasked_status]
      split_ifs
      · exact .same x.unasked_unasked.symm
      · have hnew : q.newToken S (user.unasked u) = q.newToken S user := by
          simp [newToken]
        simp only [Decision.answer, Decision.writes, Option.elim, List.foldl_nil, hnew,
          User.unasked_id]
        refine ⟨?_, Db.unasked_view_congr d.unasked_unasked.symm rfl,
          Outside.unasked_invalidateUser x.unasked_unasked.symm _⟩
        simp [Except.map, answer, Response.unasked, Profile.unasked, profilePayload, hid,
          User.unasked_of_eq]
    · rw [User.unasked_of_ne hid]
      cases (q.decision S (some user)).outcome with
      | error e => exact .same x.unasked_unasked.symm
      | ok a =>
        exact .same (Outside.unasked_published
          (Outside.unasked_invalidateUser x.unasked_unasked.symm _) _)

theorem effect_unasked (hids : (d.users.map User.id).Nodup)
    (hpos : ∀ user, d.findById u = some user → user.status ≠ .pendingVerification) :
    Effect.Alike u d (d.unasked u) (q.effect S d x) (q.effect S (d.unasked u) (x.unasked u)) := by
  have hlatest : ∀ phone, (d.unasked u).findLatestActive phone = d.findLatestActive phone :=
    fun _ => rfl
  unfold effect
  cases validatePhone q.phone with
  | error e => exact .refuse e
  | ok phone =>
    dsimp only
    rw [hlatest]
    cases d.findLatestActive phone with
    | none => exact .refuse _
    | some otp =>
      dsimp only
      split_ifs
      · exact .refuse _
      · exact q.rejection_unasked S x otp
      · rw [Db.unasked_findByPhone]
        refine q.acceptance_unasked S x otp _ fun user hu hid => hpos user ?_
        rw [← hid]
        exact Db.findById_of_mem hids (Db.mem_of_findByPhone hu).1

end VerifyOtp

/-- **No command reads the pending request** of an account past its first
verification but to decide on it, or to drop or repeat it. -/
theorem Request.effect_unasked (hids : (d.users.map User.id).Nodup)
    (hpos : ∀ user, d.findById u = some user → user.status ≠ .pendingVerification) {r : Request}
    (hr : ∀ q, r = .decideKyc q → q.userId ≠ u) :
    Effect.Alike u d (d.unasked u) (r.effect S d x) (r.effect S (d.unasked u) (x.unasked u)) := by
  cases r with
  | registerUser q => exact q.effect_unasked x
  | requestOtp q => exact q.effect_unasked S x
  | verifyOtp q => exact q.effect_unasked S x hids hpos
  | refreshAccessToken q => exact q.effect_unasked S x
  | logout q => exact q.effect_unasked S x
  | updateProfile q =>
    refine .decided ?_
    rw [Db.unasked_findById]
    exact q.decision_unasked _
  | changeRole q => exact q.effect_unasked x hids
  | decideKyc q =>
    refine .decided ?_
    rw [Db.unasked_findById]
    cases hu : d.findById q.userId with
    | none => rfl
    | some user =>
      have hne : user.id ≠ u := by
        rw [(Db.mem_of_findById hu).2]
        exact hr q rfl
      rw [Option.map_some, User.unasked_of_ne hne]
  | changeStatus q => exact q.effect_unasked x

/-! ### Two runs -/

namespace World

variable {u : Uuid}

theorem account_unasked (w : World) (v : Uuid) :
    (w.unasked u).account v = (w.account v).map (Account.unasked u) := by
  have hrow : ((w.db.users.map (User.unasked u)).find? fun row => row.id = v) =
      (w.db.users.find? fun row => row.id = v).map (User.unasked u) := by
    rw [List.find?_map]
    congr 2
    funext row
    simp
  simp only [account, Ledger.account, ledger, Ledger.of, unasked, Db.unasked, Outside.unasked, hrow,
    Option.map_map]
  congr 1
  funext row
  simp only [Function.comp_apply, Account.unasked, Account.mk.injEq, true_and]
  exact ⟨List.filter_comm .., List.filter_comm ..⟩

/-- Of another account nothing is taken out. -/
theorem unasked_of_account {w : World} {v : Uuid} {a : Account} (h : w.account v = some a)
    (hv : v ≠ u) : a.unasked u = a := by
  obtain ⟨row, hrow, rfl⟩ := Option.map_eq_some_iff.mp h
  have hid : row.id = v := by simpa using List.find?_some hrow
  simp only [Account.unasked, User.unasked_of_ne (hid.trans_ne hv), Account.mk.injEq, true_and,
    List.filter_eq_self]
  refine ⟨fun c hc => ?_, fun e he => ?_⟩
  · have hcv : c.userId = v := by simpa using (List.mem_filter.mp hc).2
    simp [UserRoleChange.asks, hcv, hv]
  · have hev : e.userId = v := by simpa using (List.mem_filter.mp he).2
    simp [DomainEvent.asks, hev, hv]

theorem ids_of_unasked {w₁ w₂ : World} (h : w₁.unasked u = w₂.unasked u)
    (hids : (w₁.db.users.map User.id).Nodup) : (w₂.db.users.map User.id).Nodup := by
  have hd : w₁.db.unasked u = w₂.db.unasked u := congrArg World.db h
  rwa [← Db.unasked_ids (u := u), ← hd, Db.unasked_ids]

/-- The account of `u` in two worlds alike. -/
theorem account_of_unasked {w₁ w₂ : World} (h : w₁.unasked u = w₂.unasked u) {v : Uuid}
    {a₁ : Account} (h₁ : w₁.account v = some a₁) :
    ∃ a₂, w₂.account v = some a₂ ∧ a₂.unasked u = a₁.unasked u := by
  have hacc : (w₂.account v).map (Account.unasked u) = some (a₁.unasked u) := by
    rw [← account_unasked, ← h, account_unasked, h₁, Option.map_some]
  exact Option.map_eq_some_iff.mp hacc

theorem account_eq_of_unasked {w₁ w₂ : World} (h : w₁.unasked u = w₂.unasked u) {v : Uuid}
    (hv : v ≠ u) : w₁.account v = w₂.account v := by
  have hacc : (w₁.account v).map (Account.unasked u) = (w₂.account v).map (Account.unasked u) := by
    rw [← account_unasked, ← account_unasked, h]
  have hself : ∀ w : World, (w.account v).map (Account.unasked u) = w.account v := by
    intro w
    cases ha : w.account v with
    | none => rfl
    | some a => rw [Option.map_some, unasked_of_account ha hv]
  rwa [hself, hself] at hacc

end World

variable {S} {w₁ w₂ : World}

/-- **Step.** Two worlds alike but for the pending request of an account past
its first verification answer alike and stay alike. -/
theorem unasked_step {u : Uuid} (hids : (w₁.db.users.map User.id).Nodup)
    (h : w₁.unasked u = w₂.unasked u)
    (hpos : ∀ user, w₁.db.findById u = some user → user.status ≠ .pendingVerification) {r : Request}
    (hr : ∀ q, r = .decideKyc q → q.userId ≠ u) :
    (w₁.answer S r).map (Response.unasked u) = (w₂.answer S r).map (Response.unasked u) ∧
      (w₁.after S r).unasked u = (w₂.after S r).unasked u := by
  have hids₂ := World.ids_of_unasked h hids
  have hd : w₁.db.unasked u = w₂.db.unasked u := congrArg World.db h
  have hx : w₁.outside.unasked u = w₂.outside.unasked u := congrArg World.outside h
  have hpos₂ : ∀ user, w₂.db.findById u = some user → user.status ≠ .pendingVerification := by
    intro user hu
    have hrow : (w₁.db.findById u).map (User.unasked u) = some (user.unasked u) := by
      rw [← Db.unasked_findById, hd, Db.unasked_findById, hu, Option.map_some]
    obtain ⟨user₁, hu₁, he⟩ := Option.map_eq_some_iff.mp hrow
    rw [← User.unasked_status (u := u), ← he, User.unasked_status]
    exact hpos user₁ hu₁
  have h₁ := Request.effect_unasked S w₁.outside hids hpos hr
  have h₂ := Request.effect_unasked S w₂.outside hids₂ hpos₂ hr
  rw [hd, hx] at h₁
  rw [World.answer_eq hids, World.answer_eq hids₂]
  refine ⟨h₁.outcome.trans h₂.outcome.symm, ?_⟩
  simp only [World.unasked, World.after_db hids, World.after_db hids₂, World.after_outside hids,
    World.after_outside hids₂, h₁.db, h₂.db, h₁.outside, h₂.outside]

/-- The request itself. -/
theorem unasked_after_request {u : Uuid} (hids : (w₁.db.users.map User.id).Nodup) {q : ChangeRole}
    (hq : q.userId = u) {role : UserRole} (hrole : role ∈ kycRequiredRoles)
    (hvalue : q.role = role.value) : (w₁.after S (.changeRole q)).unasked u = w₁.unasked u := by
  have ht : UserRole.ofValue q.role = some role := by
    rw [hvalue]
    cases role <;> rfl
  simp only [World.unasked, World.after_db hids, World.after_outside hids, Request.effect,
    Effect.decided]
  cases hu : w₁.db.findById q.userId with
  | none =>
    simp only [ChangeRole.decision, ht]
    rfl
  | some user =>
    have hid : user.id = u := (Db.mem_of_findById hu).2.trans hq
    by_cases hk : user.needsKycFor role = true
    · obtain ⟨-, hd, hx⟩ := ChangeRole.unasked_request hids w₁.outside ht (Db.mem_of_findById hu).1
        hid hk
      rw [hd, hx]
    · -- the account has the role
      have hhas : user.role = role := by
        simpa [User.needsKycFor, hrole] using hk
      simp only [ChangeRole.decision, ht, if_neg hk, if_pos hhas]
      rfl

section PastVerification

variable {before rs : List Request} {u : Uuid} {a : Account}

/-- An account past its first verification stays so. -/
theorem Legal.past_verification (h : Legal S Anything (before ++ rs))
    (ha : (served S before).account u = some a) (hst : a.user.status ≠ .pendingVerification)
    {user : User} (hu : (served S (before ++ rs)).db.findById u = some user) :
    user.status ≠ .pendingVerification := by
  obtain ⟨b, hb, hs⟩ := status_closed (P := (· ≠ .pendingVerification))
    (fun s t => by cases s <;> cases t <;> decide) h ha hst
  rw [World.findById_of_account hb] at hu
  rw [← Option.some.inj hu]
  exact hs

/-- **Run.** With the request and without it, the runs stay alike. -/
theorem unasked_run {q : ChangeRole} {role : UserRole} (h : Legal S Anything (before ++ rs))
    (ha : (served S before).account u = some a) (hst : a.user.status ≠ .pendingVerification)
    (hq : q.userId = u) (hrole : role ∈ kycRequiredRoles) (hvalue : q.role = role.value)
    (hd : ∀ d, .decideKyc d ∈ rs → d.userId ≠ u) :
    (served S (before ++ rs)).unasked u = (served S (before ++ .changeRole q :: rs)).unasked u := by
  induction rs using List.reverseRecOn with
  | nil =>
    rw [List.append_nil] at h ⊢
    rw [served_snoc]
    exact (unasked_after_request h.wellFormed.ids hq hrole hvalue).symm
  | append_singleton rs r ih =>
    rw [← List.append_assoc] at h
    have hrs := h.of_snoc.1
    rw [← List.append_assoc, ← List.cons_append, ← List.append_assoc, served_snoc, served_snoc]
    refine (unasked_step hrs.wellFormed.ids (ih hrs fun d hm => hd d ?_)
      (fun user hu => hrs.past_verification ha hst hu) fun d hr => hd d ?_).2
    · exact List.mem_append_left _ hm
    · rw [hr]
      exact List.mem_append_right _ List.mem_cons_self

end PastVerification

/-- **A pending request takes nothing away.** Put a request of account `u`
for a role under KYC into a run where `u` is past its first verification, and
let no later request decide on it. At every later point the two runs agree on
the role, status and name of `u`, on every refresh token and on every other
account, and answer the next request alike but for the pending request in a
profile of `u`. -/
theorem request_takes_nothing {before mid later : List Request} {u : Uuid} {a : Account}
    {q : ChangeRole} {role : UserRole} (h : Legal S Anything (before ++ (mid ++ later)))
    (ha : (served S before).account u = some a) (hst : a.user.status ≠ .pendingVerification)
    (hq : q.userId = u) (hrole : role ∈ kycRequiredRoles) (hvalue : q.role = role.value)
    (hd : ∀ d, .decideKyc d ∈ mid ++ later → d.userId ≠ u) :
    let w₁ := served S (before ++ mid)
    let w₂ := served S (before ++ .changeRole q :: mid)
    (∃ a₁ a₂, w₁.account u = some a₁ ∧ w₂.account u = some a₂ ∧ a₁.user.role = a₂.user.role ∧
      a₁.user.status = a₂.user.status ∧ a₁.user.fullName = a₂.user.fullName) ∧
    w₁.db.refreshTokens = w₂.db.refreshTokens ∧
    (∀ v, v ≠ u → w₁.account v = w₂.account v) ∧
    ∀ r rest, later = r :: rest →
      (w₁.answer S r).map (Response.unasked u) = (w₂.answer S r).map (Response.unasked u) := by
  intro w₁ w₂
  have hl : Legal S Anything (before ++ mid) := by
    rw [← List.append_assoc] at h
    exact h.of_append
  have hw : w₁.unasked u = w₂.unasked u :=
    unasked_run hl ha hst hq hrole hvalue fun d hm => hd d (List.mem_append_left _ hm)
  obtain ⟨a₁, ha₁, -⟩ := status_closed (P := fun _ => True) (fun _ _ _ _ => trivial) hl ha trivial
  obtain ⟨a₂, ha₂, he⟩ := World.account_of_unasked hw ha₁
  have huser : a₂.user.unasked u = a₁.user.unasked u := congrArg Account.user he
  have htokens : (w₁.unasked u).db.refreshTokens = (w₂.unasked u).db.refreshTokens := by rw [hw]
  refine ⟨⟨a₁, a₂, ha₁, ha₂, ?_, ?_, ?_⟩, htokens,
    fun v hv => World.account_eq_of_unasked hw hv, fun r rest hr => ?_⟩
  · rw [← User.unasked_role (u := u), ← huser, User.unasked_role]
  · rw [← User.unasked_status (u := u), ← huser, User.unasked_status]
  · rw [← User.unasked_fullName (u := u), ← huser, User.unasked_fullName]
  · refine (unasked_step hl.wellFormed.ids hw (fun user hu => hl.past_verification ha hst hu)
      fun d hrd => hd d ?_).1
    rw [hr, hrd]
    exact List.mem_append_right _ List.mem_cons_self

/-- An active account asks for `driver`, then refreshes its session. -/
theorem request_takes_nothing_driver :
    let before : List Request :=
      [.registerUser ⟨"+22507000001", none, 0, 7⟩,
        .requestOtp ⟨"+22507000001", none, 1, 8, 123456⟩,
        .verifyOtp ⟨"+22507000001", "123456", none, 2, 9, "r"⟩]
    let q : ChangeRole := ⟨7, "driver", none, some 7, 3⟩
    let refresh : Request := .refreshAccessToken ⟨"r", none, 4, 10, "r'"⟩
    ((served plainEnv before).answer plainEnv refresh).map (Response.unasked 7) =
      ((served plainEnv (before ++ [.changeRole q])).answer plainEnv refresh).map
        (Response.unasked 7) := by
  intro before q refresh
  have hl : Legal plainEnv Anything (before ++ ([] ++ [refresh])) :=
    legal_of_forall (by decide +kernel)
  have ha : ((served plainEnv before).account 7).any fun a => a.user.status = .active := by
    decide +kernel
  obtain ⟨hs, hact⟩ := (Option.any_eq_true_iff_get _ _).mp ha
  have hst : (((served plainEnv before).account 7).get hs).user.status ≠ .pendingVerification := by
    rw [of_decide_eq_true hact]
    decide
  obtain ⟨-, -, -, hnext⟩ := @request_takes_nothing plainEnv before [] [refresh] 7 _ q .driver hl
    (Option.some_get hs).symm hst rfl (by decide) rfl (by simp [refresh])
  simpa using hnext refresh [] rfl

end DiddiFreeID
