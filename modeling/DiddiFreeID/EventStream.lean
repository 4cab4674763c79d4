/-
# The event stream

What a subscriber of `identity.events` can know. The payloads are
`to_payload` of `domain/events/user_events.py`; a subscriber that takes
`role` from every one of an account's payloads and follows `user.suspended`
and the `new_status` of `user.updated` has the account's role and knows
whether it is suspended, and the `user.role_changed` payloads are one chain
of real changes from `user` to the role the account has (`event_stream`).

Key definitions: `DomainEvent.toPayload`, `Projection.read`, `RoleChain`.
Key theorems: `Writes.projected`, `event_stream`.
-/
import DiddiFreeID.KycGate

namespace DiddiFreeID

/-! ### Payloads -/

/-- A value of a published JSON body. -/
inductive PayloadValue
  | text (s : String)
  | texts (l : List String)
  | id (u : Uuid)
  | stamp (t : Time)
  | null
  deriving DecidableEq, Repr

abbrev Payload : Type := List (String × PayloadValue)

namespace DomainEvent

/-- The envelope of every event. -/
def envelope (name : String) (userId : Uuid) (phone : String) (role : UserRole) (stamp : Time) :
    Payload :=
  [("event", .text name), ("user_id", .id userId), ("phone", .text phone),
    ("role", .text role.value), ("at", .stamp stamp)]

/-- The published body (contract §4). -/
def toPayload : DomainEvent → Payload
  | e@(userRegistered userId phone role stamp) => envelope e.name userId phone role stamp
  | e@(userUpdated userId phone role stamp changedFields) =>
    envelope e.name userId phone role stamp ++ [("changed_fields", .texts changedFields)]
  | e@(userRoleChanged userId phone role stamp oldRole newRole) =>
    envelope e.name userId phone role stamp ++
      [("old_role", .text oldRole.value), ("new_role", .text newRole.value)]
  | e@(userStatusChanged userId phone role stamp oldStatus newStatus reason) =>
    envelope e.name userId phone role stamp ++
      [("old_status", .text oldStatus.value), ("new_status", .text newStatus.value),
        ("reason", reason.elim .null .text)]

def role : DomainEvent → UserRole
  | userRegistered _ _ role _ => role
  | userUpdated _ _ role _ _ => role
  | userRoleChanged _ _ role _ _ _ => role
  | userStatusChanged _ _ role _ _ _ _ => role

theorem lookup_event (e : DomainEvent) : e.toPayload.lookup "event" = some (.text e.name) := by
  cases e <;> rfl

end DomainEvent

/-! ### A subscriber -/

/-- What a subscriber keeps about an account. -/
structure Projection where
  role : PayloadValue := .text "user"
  suspended : Bool := false
  deriving DecidableEq, Repr

/-- Take `role` from the payload, and the suspension from `user.suspended`
and from the `new_status` of `user.updated`. -/
def Projection.read (p : Projection) (payload : Payload) : Projection :=
  { role := (payload.lookup "role").getD p.role
    suspended :=
      if payload.lookup "event" = some (.text "user.suspended") then true
      else if payload.lookup "event" = some (.text "user.updated") then
        match payload.lookup "new_status" with
        | some status => decide (status = .text "suspended")
        | none => p.suspended
      else p.suspended }

/-- The fold of the payloads, in stream order. -/
def project (events : List DomainEvent) : Projection :=
  (events.map DomainEvent.toPayload).foldl Projection.read {}

@[simp] theorem project_nil : project [] = {} := rfl

@[simp] theorem project_snoc (events : List DomainEvent) (e : DomainEvent) :
    project (events ++ [e]) = (project events).read e.toPayload := by
  simp [project]

/-- What the database says about the account. -/
def Projection.of (user : User) : Projection :=
  { role := .text user.role.value, suspended := decide (user.status = .suspended) }

/-- The old and the new role of a `user.role_changed` payload. -/
def roleChange (payload : Payload) : Option (PayloadValue × PayloadValue) :=
  if payload.lookup "event" = some (.text "user.role_changed") then
    some ((payload.lookup "old_role").getD .null, (payload.lookup "new_role").getD .null)
  else none

/-- The role changes that a stream announces, in order. -/
def roleChanges (events : List DomainEvent) : List (PayloadValue × PayloadValue) :=
  (events.map DomainEvent.toPayload).filterMap roleChange

@[simp] theorem roleChanges_nil : roleChanges [] = [] := rfl

theorem roleChanges_append (l l' : List DomainEvent) :
    roleChanges (l ++ l') = roleChanges l ++ roleChanges l' := by
  simp [roleChanges]

/-- Real changes of role, each from where the one before it ended, from
`user` to `role`. -/
structure RoleChain (changes : List (PayloadValue × PayloadValue)) (role : UserRole) : Prop where
  first : ∀ c ∈ changes.head?, c.1 = .text "user"
  linked : changes.IsChain fun c c' => c'.1 = c.2
  changed : ∀ c ∈ changes, c.1 ≠ c.2
  last : (changes.getLast?.map Prod.snd).getD (.text "user") = .text role.value

namespace RoleChain

variable {changes : List (PayloadValue × PayloadValue)} {role newRole : UserRole}

theorem nil : RoleChain [] .user := ⟨by simp, .nil, by simp, rfl⟩

theorem snoc (h : RoleChain changes role) (hne : role ≠ newRole) :
    RoleChain (changes ++ [(.text role.value, .text newRole.value)]) newRole := by
  refine ⟨fun c hc => ?_, ?_, fun c hc => ?_, by simp⟩
  · cases changes with
    | nil =>
      obtain rfl : (.text role.value, .text newRole.value) = c := by simpa using hc
      exact h.last.symm
    | cons b changes => exact h.first c (by simpa using hc)
  · refine h.linked.append (.singleton _) fun b hb b' hb' => ?_
    obtain rfl : (PayloadValue.text role.value, PayloadValue.text newRole.value) = b' := by
      simpa using hb'
    have hlast := h.last
    rw [Option.mem_def.mp hb] at hlast
    exact hlast.symm
  · rcases List.mem_append.mp hc with hc | hc
    · exact h.changed c hc
    · obtain rfl := List.mem_singleton.mp hc
      cases role <;> cases newRole <;> first | exact absurd rfl hne | decide

end RoleChain

/-! ### What the commands publish -/

section Payloads

variable (p : Projection) (u : Uuid) (phone : String) (role oldRole newRole : UserRole)
  (stamp : Time) (oldStatus newStatus : UserStatus)

theorem read_registered :
    p.read (DomainEvent.toPayload (.userRegistered u phone role stamp)) =
      ⟨.text role.value, p.suspended⟩ := rfl

theorem read_updated (fields : List String) :
    p.read (DomainEvent.toPayload (.userUpdated u phone role stamp fields)) =
      ⟨.text role.value, p.suspended⟩ := rfl

theorem read_roleChanged :
    p.read (DomainEvent.toPayload (.userRoleChanged u phone role stamp oldRole newRole)) =
      ⟨.text role.value, p.suspended⟩ := rfl

theorem read_statusChanged (reason : Option String) :
    p.read (DomainEvent.toPayload
      (.userStatusChanged u phone role stamp oldStatus newStatus reason)) =
        ⟨.text role.value, decide (newStatus = .suspended)⟩ := by
  cases newStatus <;> rfl

/-- Only `user.role_changed` announces a change of role. -/
theorem roleChange_eq_none {e : DomainEvent} (h : e.name ≠ "user.role_changed") :
    roleChange e.toPayload = none := by
  rw [roleChange, e.lookup_event, if_neg]
  simpa using h

end Payloads

variable {S : Env}

/-- Every entry on an account publishes one event. With it a subscriber that
was right about the account is right again, and it announces a change of
role exactly if the role changes. -/
theorem Writes.projected {user : User} {r : Request} {o : Except Failure Response} {e : Entry}
    (h : Writes S user r o e)
    (hreq : ∀ role, user.requestedRole = some role → role ≠ user.role) :
    ∃ event, e.events = [event] ∧
      (Projection.of user).read event.toPayload = Projection.of e.user ∧
      (roleChange event.toPayload = none ∧ e.user.role = user.role ∨
        roleChange event.toPayload = some (.text user.role.value, .text e.user.role.value) ∧
          user.role ≠ e.user.role) := by
  cases h with
  | rename => exact ⟨_, rfl, read_updated .., .inl ⟨rfl, rfl⟩⟩
  | verify hs =>
    refine ⟨_, rfl, ?_, .inl ⟨rfl, rfl⟩⟩
    rw [read_registered]
    have hact : (VerifyOtp.activated user).status ≠ .suspended := by
      simp only [VerifyOtp.activated]
      split_ifs <;> decide
    simp [Projection.of, hs, hact]
  | request => exact ⟨_, rfl, read_updated .., .inl ⟨rfl, rfl⟩⟩
  | grant hq ht hk hne => exact ⟨_, rfl, read_roleChanged .., .inr ⟨rfl, hne⟩⟩
  | @decide q requested hq hr =>
    have hsus : (Projection.of (q.decided user requested)).suspended =
        (Projection.of user).suspended := by
      simp only [Projection.of, DecideKyc.decided]
      split_ifs with hp
      · simp [hp]
      · rfl
    cases happ : q.approved with
    | true =>
      have hrole : (q.decided user requested).role = requested := by simp [DecideKyc.decided, happ]
      refine ⟨_, rfl, ?_, .inr ?_⟩
      · rw [DecideKyc.event, if_pos happ, read_roleChanged, ← hsus]
        rfl
      · rw [DecideKyc.event, if_pos happ, hrole]
        exact ⟨rfl, (hreq requested hr).symm⟩
    | false =>
      have hrole : (q.decided user requested).role = user.role := by simp [DecideKyc.decided, happ]
      refine ⟨_, rfl, ?_, .inl ⟨?_, hrole⟩⟩
      · rw [DecideKyc.event, if_neg (by simp [happ]), read_updated, ← hsus]
        rfl
      · rw [DecideKyc.event, if_neg (by simp [happ])]
        rfl
  | @transit q target hq ht hs hc =>
    refine ⟨_, rfl, read_statusChanged .., .inl ⟨roleChange_eq_none ?_, rfl⟩⟩
    simp only [DomainEvent.name]
    split_ifs <;> decide

/-! ### Over whole runs -/

variable {ok : World → Request → Prop} {rs : List Request} {u : Uuid}

/-- The stream tells the role and the suspension of the account. -/
structure Streamed (a : Account) : Prop where
  projected : project a.events = .of a.user
  chain : RoleChain (roleChanges a.events) a.user.role

/-- **Step.** What a request does to an account, its event tells. -/
theorem Streamed.step {a a' : Account} {r : Request} {o : Except Failure Response}
    (hreq : ∀ role, a.user.requestedRole = some role → role ≠ a.user.role)
    (hs : a.Step S r o a') (h : Streamed a) : Streamed a' := by
  cases hs with
  | idle => exact h
  | @entry e he =>
    obtain ⟨event, hev, hp, hrole⟩ := he.projected hreq
    refine ⟨?_, ?_⟩
    · rw [Account.record_events, hev, project_snoc, h.projected, hp]
      rfl
    · rw [Account.record_events, hev, roleChanges_append, Account.record_role]
      rcases hrole with ⟨hnone, hsame⟩ | ⟨hsome, hne⟩
      · have hnil : roleChanges [event] = [] := by simp [roleChanges, hnone]
        rw [hnil, List.append_nil, hsame]
        exact h.chain
      · have hone : roleChanges [event] = [(.text a.user.role.value, .text e.user.role.value)] := by
          simp [roleChanges, hsome]
        rw [hone]
        exact h.chain.snoc hne

theorem Legal.streamed (h : Legal S ok rs) {a : Account} (ha : (served S rs).account u = some a) :
    Streamed a :=
  h.account_induction (P := fun _ a => Streamed a)
    (fun _ _ _ _ _ _ => ⟨rfl, .nil⟩)
    (fun _ _ _ _ hl _ hb _ ih hs => ih.step (fun role hr => ((hl.kycGate hb).request role hr).2) hs)
    ha

/-- **The stream.** In every run, for every account, the fold of its payloads
is its role and whether it is suspended; and its `user.role_changed` payloads
are a chain of real changes from `user` to its role. -/
theorem event_stream (h : Legal S Anything rs) {a : Account} (ha : (served S rs).account u = some a) :
    project a.events = .of a.user ∧ RoleChain (roleChanges a.events) a.user.role :=
  ⟨(h.streamed ha).projected, (h.streamed ha).chain⟩

theorem event_stream_driver : ∃ a, (served plainEnv driverRun).account 7 = some a ∧
    project a.events = ⟨.text "driver", true⟩ ∧ RoleChain (roleChanges a.events) .driver := by
  have ha : ((served plainEnv driverRun).account 7).any fun a =>
      a.user.role = .driver ∧ a.user.status = .suspended := by
    decide +kernel
  obtain ⟨hs, hrow⟩ := (Option.any_eq_true_iff_get _ _).mp ha
  obtain ⟨hr, hst⟩ := of_decide_eq_true hrow
  obtain ⟨hp, hc⟩ := event_stream driverRun_legal (Option.some_get hs).symm
  rw [hr] at hc
  refine ⟨_, (Option.some_get hs).symm, ?_, hc⟩
  rw [hp, Projection.of, hr, hst]
  rfl

end DiddiFreeID
