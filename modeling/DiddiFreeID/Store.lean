/-
# The store: repositories, Redis, transactions

The tables of the `identity` schema, what sits outside the database (the
profile cache, the event stream, the rate limiter's keys, the SMS sent),
and every call a command or a query makes on them, as an engine of
`Transact/System.lean`.

The users table is under its two unique keys, `id` and `phone`; `save`
inserts or updates by `id`, writes the columns it assigns and answers
`false` where the unique index on `phone` refuses the insert. A row is
locked by the uncommitted write that touches it. A bulk `UPDATE` picks its
rows when it starts and writes them once no lock stops it: two calls,
`liveTokens` and `revokeThese`, for the one method `revoke_all_for_user`.
Lookups answer the first matching row: ids and token hashes are never drawn
twice.
-/
import DiddiFreeID.Phone
import DiddiFreeID.Transact.System
import Mathlib.Data.List.MinMax
import Mathlib.Order.Lattice

namespace DiddiFreeID

open Transact

/-- The order of instants, the one that computes. -/
instance Time.instPreorder : Preorder Time := Int.instLinearOrder.toPreorder

/-! ### The tables -/

/-- The tables of the `identity` schema, each in insertion order. -/
structure Db where
  users : List User := []
  otps : List OtpCode := []
  refreshTokens : List RefreshToken := []
  statusHistory : List UserStatusChange := []
  roleHistory : List UserRoleChange := []
  deriving DecidableEq, Repr

namespace Db

def findById (d : Db) (id : Uuid) : Option User := d.users.find? fun u => u.id = id

def findByPhone (d : Db) (phone : String) : Option User := d.users.find? fun u => u.phone = phone

/-- The newest unconsumed code for a phone. -/
def findLatestActive (d : Db) (phone : String) : Option OtpCode :=
  (d.otps.filter fun o => o.phone = phone && o.consumedAt.isNone).argmax OtpCode.createdAt

def otp (d : Db) (id : Uuid) : Option OtpCode := d.otps.find? fun o => o.id = id

def findByHash (d : Db) (hash : String) : Option RefreshToken :=
  d.refreshTokens.find? fun t => t.tokenHash = hash

def token (d : Db) (id : Uuid) : Option RefreshToken := d.refreshTokens.find? fun t => t.id = id

/-- The ids of a user's tokens that are not revoked. -/
def liveTokens (d : Db) (userId : Uuid) : List Uuid :=
  (d.refreshTokens.filter fun t => t.userId = userId && t.revokedAt.isNone).map RefreshToken.id

/-- Is the token with this id there and not revoked? -/
def isLive (d : Db) (id : Uuid) : Bool :=
  (d.token id).any fun t => t.revokedAt.isNone

end Db

/-- The uncommitted writes. -/
inductive Write
  | insertUser (u : User)
  | updateUser (u : User) (now : Time)
  | insertStatus (c : UserStatusChange)
  | insertRole (c : UserRoleChange)
  | insertOtp (o : OtpCode)
  | bumpAttempts (id : Uuid)
  | consumeOtp (id : Uuid) (now : Time)
  | insertToken (t : RefreshToken)
  | revokeTokens (ids : List Uuid) (now : Time)
  deriving DecidableEq, Repr

/-- A locked row or index entry. -/
inductive Key
  | user (id : Uuid)
  | phone (phone : String)
  | otp (id : Uuid)
  | token (id : Uuid)
  deriving DecidableEq, Repr

namespace Write

/-- `save` on an existing row: the columns it assigns. -/
def assign (u : User) (now : Time) (row : User) : User :=
  { row with
    fullName := u.fullName
    passwordHash := u.passwordHash
    role := u.role
    status := u.status
    requestedRole := u.requestedRole
    updatedAt := some now }

def apply (d : Db) : Write → Db
  | insertUser u => { d with users := d.users ++ [u] }
  | updateUser u now =>
    { d with users := d.users.map fun row => if row.id = u.id then assign u now row else row }
  | insertStatus c => { d with statusHistory := d.statusHistory ++ [c] }
  | insertRole c => { d with roleHistory := d.roleHistory ++ [c] }
  | insertOtp o => { d with otps := d.otps ++ [o] }
  | bumpAttempts id =>
    { d with otps := d.otps.map fun o => if o.id = id then { o with attempts := o.attempts + 1 } else o }
  | consumeOtp id now =>
    { d with otps := d.otps.map fun o => if o.id = id then { o with consumedAt := some now } else o }
  | insertToken t => { d with refreshTokens := d.refreshTokens ++ [t] }
  | revokeTokens ids now =>
    { d with
      refreshTokens := d.refreshTokens.map fun t =>
        if t.id ∈ ids ∧ t.revokedAt = none then { t with revokedAt := some now } else t }

def keys : Write → List Key
  | insertUser u => [.user u.id, .phone u.phone]
  | updateUser u _ => [.user u.id]
  | insertStatus _ => []
  | insertRole _ => []
  | insertOtp o => [.otp o.id]
  | bumpAttempts id => [.otp id]
  | consumeOtp id _ => [.otp id]
  | insertToken t => [.token t.id]
  | revokeTokens ids _ => ids.map .token

end Write

/-! ### Outside the database -/

/-- A profile as the cache stores it: the members of its JSON. -/
structure CachedUser where
  id : Uuid
  phone : String
  fullName : Option String
  role : UserRole
  status : UserStatus
  createdAt : Option Time
  updatedAt : Option Time
  deriving DecidableEq, Repr

/-- What `set_user` encodes. -/
def CachedUser.ofUser (u : User) : CachedUser :=
  { id := u.id
    phone := u.phone
    fullName := u.fullName
    role := u.role
    status := u.status
    createdAt := u.createdAt
    updatedAt := u.updatedAt }

/-- What `get_user` decodes. -/
def CachedUser.toUser (c : CachedUser) : User :=
  { id := c.id
    phone := c.phone
    fullName := c.fullName
    role := c.role
    status := c.status
    createdAt := c.createdAt
    updatedAt := c.updatedAt }

/-- Redis (the profile cache, the event stream, the limiter's keys with
their expiry) and the SMS sent. -/
structure Outside where
  cache : List (Uuid × CachedUser) := []
  stream : List DomainEvent := []
  cooldowns : List (String × Time) := []
  ipHits : List (String × ℕ × Option Time) := []
  sent : List (String × String) := []
  deriving DecidableEq, Repr

namespace Outside

def invalidateUser (x : Outside) (id : Uuid) : Outside :=
  { x with cache := x.cache.filter fun e => e.1 ≠ id }

def setUser (x : Outside) (u : User) : Outside :=
  { x with cache := (u.id, .ofUser u) :: x.cache.filter fun e => e.1 ≠ u.id }

def publish (x : Outside) (e : DomainEvent) : Outside := { x with stream := x.stream ++ [e] }

/-- The live counter of an address at an instant: its count and expiry. -/
def hits (x : Outside) (ip : String) (now : Time) : ℕ × Option Time :=
  match x.ipHits.lookup ip with
  | some (n, some expiry) => if expiry ≤ now then (0, none) else (n, some expiry)
  | some (n, none) => (n, none)
  | none => (0, none)

def setHits (x : Outside) (ip : String) (n : ℕ) (expiry : Option Time) : Outside :=
  { x with ipHits := (ip, n, expiry) :: x.ipHits.filter fun e => e.1 ≠ ip }

/-- `TTL` on the cooldown of a phone: −2 without a key, else the seconds left,
to the nearest. -/
def cooldownTtl (x : Outside) (phone : String) (now : Time) : ℤ :=
  match x.cooldowns.lookup phone with
  | some expiry => if expiry ≤ now then -2 else (expiry - now + 500000) / 1000000
  | none => -2

def armCooldown (x : Outside) (phone : String) (cooldown : ℤ) (now : Time) : Outside :=
  { x with
    cooldowns := (phone, now + seconds cooldown) :: x.cooldowns.filter fun e => e.1 ≠ phone }

end Outside

/-- A key taken out of a list of entries. -/
theorem lookup_filter_ne {α β : Type} [DecidableEq α] (l : List (α × β)) (k k' : α) :
    (l.filter fun e => e.1 ≠ k).lookup k' = if k' = k then none else l.lookup k' := by
  induction l with
  | nil => simp
  | cons e l ih =>
    by_cases he : e.1 = k
    · rw [List.filter_cons, if_neg (by simp [he]), ih]
      split_ifs with hk
      · rfl
      · rw [List.lookup_cons, he, beq_eq_false_iff_ne.mpr hk]
    · rw [List.filter_cons, if_pos (by simp [he]), List.lookup_cons, List.lookup_cons, ih]
      by_cases hk : k' = e.1
      · simp [hk, he]
      · rw [beq_eq_false_iff_ne.mpr hk]

/-- Only some keys are left. -/
theorem lookup_filter_key {α β : Type} [DecidableEq α] (p : α → Bool) (l : List (α × β)) (k : α) :
    (l.filter fun e => p e.1).lookup k = if p k then l.lookup k else none := by
  induction l with
  | nil => simp
  | cons e l ih =>
    obtain ⟨a, b⟩ := e
    by_cases hk : k = a
    · subst hk
      by_cases hp : p k = true
      · simp [hp]
      · simpa [hp] using ih
    · have hne : (k == a) = false := beq_eq_false_iff_ne.mpr hk
      by_cases hp : p a = true
      · simpa [hp, List.lookup_cons, hne] using ih
      · simpa [hp, List.lookup_cons, hne] using ih

namespace Outside

variable (x : Outside)

theorem lookup_invalidateUser (id u : Uuid) :
    (x.invalidateUser id).cache.lookup u = if u = id then none else x.cache.lookup u :=
  lookup_filter_ne _ _ _

theorem lookup_setUser (user : User) (u : Uuid) : (x.setUser user).cache.lookup u =
    if u = user.id then some (.ofUser user) else x.cache.lookup u := by
  simp only [setUser]
  by_cases hu : u = user.id
  · simp [hu]
  · rw [List.lookup_cons, beq_eq_false_iff_ne.mpr hu, if_neg hu]
    exact (lookup_filter_ne _ _ _).trans (if_neg hu)

end Outside

/-! ### Calls -/

/-- The calls of the repositories, of Redis and of the SMS sender. -/
inductive Call
  | findById (id : Uuid)
  | findByPhone (phone : String)
  | saveUser (u : User) (now : Time)
  | recordStatusChange (c : UserStatusChange)
  | recordRoleChange (c : UserRoleChange)
  | saveOtp (o : OtpCode)
  | findLatestActive (phone : String)
  | registerAttempt (id : Uuid)
  | markConsumed (id : Uuid) (now : Time)
  | saveToken (t : RefreshToken)
  | findByHash (hash : String)
  | revoke (id : Uuid) (now : Time)
  | liveTokens (userId : Uuid)
  | revokeThese (ids : List Uuid) (now : Time)
  | commit
  | cacheGet (id : Uuid)
  | cacheSet (u : User)
  | invalidateUser (id : Uuid)
  | publish (e : DomainEvent)
  | incrIp (ip : String) (now : Time)
  | expireIp (ip : String) (windowSeconds : ℤ) (now : Time)
  | cooldownTtl (phone : String) (now : Time)
  | armCooldown (phone : String) (cooldownSeconds : ℤ) (now : Time)
  | send (phone : String) (code : String)
  deriving DecidableEq, Repr

/-- The answer to a call. -/
@[reducible] def Call.Resp : Call → Type
  | findById _ => Option User
  | findByPhone _ => Option User
  | saveUser .. => Bool
  | findLatestActive _ => Option OtpCode
  | registerAttempt _ => Option ℤ
  | findByHash _ => Option RefreshToken
  | liveTokens _ => List Uuid
  | revokeThese .. => ℕ
  | cacheGet _ => Option User
  | incrIp .. => ℕ
  | cooldownTtl .. => ℤ
  | _ => Unit

instance (c : Call) : DecidableEq c.Resp := by cases c <;> infer_instance

/-- `save` on the rows `d`: an update where the id is known, else an insert,
which the index on `phone` may refuse. -/
def Db.saveUser (d : Db) (u : User) (now : Time) : Bool × List Write :=
  match d.findById u.id with
  | some _ => (true, [.updateUser u now])
  | none =>
    match d.findByPhone u.phone with
    | some _ => (false, [])
    | none =>
      (true, [.insertUser { u with createdAt := some (u.createdAt.getD now), updatedAt := some now }])

/-- The largest value of a `SmallInteger` column. -/
def maxSmallInteger : ℤ := 32767

/-- What `register_attempt` counts: nothing without a row, nor where the column of
the counter does not hold the next number. -/
def Db.nextAttempt (d : Db) (id : Uuid) : Option ℤ :=
  (d.otp id).bind fun o => if o.attempts < maxSmallInteger then some (o.attempts + 1) else none

/-- Is the code with this id there and not consumed? -/
def Db.isActive (d : Db) (id : Uuid) : Bool :=
  (d.otp id).any fun o => o.consumedAt.isNone

/-- The writes of `mark_consumed`: none on a missing or consumed code. -/
def Db.consumption (d : Db) (id : Uuid) (now : Time) : List Write :=
  match d.otp id with
  | some o => if o.consumedAt.isNone then [.consumeOtp id now] else []
  | none => []

/-- The writes of `revoke`: none on a missing or revoked token. -/
def Db.revocation (d : Db) (id : Uuid) (now : Time) : List Write :=
  if d.isLive id then [.revokeTokens [id] now] else []

/-- One call on the rows a request sees and the state outside. -/
def exec : (c : Call) → Db → Outside → c.Resp × List Write × Outside
  | .findById id, d, x => (d.findById id, [], x)
  | .findByPhone phone, d, x => (d.findByPhone phone, [], x)
  | .saveUser u now, d, x => ((d.saveUser u now).1, (d.saveUser u now).2, x)
  | .recordStatusChange c, _, x => ((), [.insertStatus c], x)
  | .recordRoleChange c, _, x => ((), [.insertRole c], x)
  | .saveOtp o, _, x => ((), [.insertOtp o], x)
  | .findLatestActive phone, d, x => (d.findLatestActive phone, [], x)
  | .registerAttempt id, d, x =>
    match d.nextAttempt id with
    | some attempts => (some attempts, [.bumpAttempts id], x)
    | none => (none, [], x)
  | .markConsumed id now, d, x => ((), d.consumption id now, x)
  | .saveToken t, _, x => ((), [.insertToken t], x)
  | .findByHash hash, d, x => (d.findByHash hash, [], x)
  | .revoke id now, d, x => ((), d.revocation id now, x)
  | .liveTokens userId, d, x => (d.liveTokens userId, [], x)
  | .revokeThese ids now, d, x =>
    let live := ids.filter d.isLive
    (live.length, [.revokeTokens live now], x)
  | .commit, _, x => ((), [], x)
  | .cacheGet id, _, x => ((x.cache.lookup id).map CachedUser.toUser, [], x)
  | .cacheSet u, _, x => ((), [], x.setUser u)
  | .invalidateUser id, _, x => ((), [], x.invalidateUser id)
  | .publish e, _, x => ((), [], x.publish e)
  | .incrIp ip now, _, x =>
    let h := x.hits ip now
    (h.1 + 1, [], x.setHits ip (h.1 + 1) h.2)
  | .expireIp ip window now, _, x =>
    ((), [], x.setHits ip (x.hits ip now).1 (some (now + seconds window)))
  | .cooldownTtl phone now, _, x => (x.cooldownTtl phone now, [], x)
  | .armCooldown phone cooldown now, _, x => ((), [], x.armCooldown phone cooldown now)
  | .send phone code, _, x => ((), [], { x with sent := x.sent ++ [(phone, code)] })

/-- The store as an engine. -/
def store : Engine Call Call.Resp Db Outside Write Key where
  exec := exec
  commits c := c matches .commit
  apply := Write.apply
  keys := Write.keys

@[simp] theorem store_exec (c : Call) (d : Db) (x : Outside) : store.exec c d x = exec c d x := rfl

@[simp] theorem store_apply (d : Db) (w : Write) : store.apply d w = Write.apply d w := rfl

@[simp] theorem store_keys (w : Write) : store.keys w = w.keys := rfl

theorem commits_iff {c : Call} : store.commits c = true ↔ c = .commit := by
  cases c <;> simp [store]

/-! ### The writes of a call -/

namespace Db

variable {d : Db} {id : Uuid} {u : User} {now : Time} {w : Write}

theorem eq_of_mem_consumption (h : w ∈ d.consumption id now) : w = .consumeOtp id now := by
  unfold consumption at h
  split at h
  · split_ifs at h
    · exact List.mem_singleton.mp h
    · exact absurd h List.not_mem_nil
  · exact absurd h List.not_mem_nil

theorem eq_of_mem_revocation (h : w ∈ d.revocation id now) : w = .revokeTokens [id] now := by
  unfold revocation at h
  split_ifs at h
  · exact List.mem_singleton.mp h
  · exact absurd h List.not_mem_nil

theorem eq_of_mem_registerAttempt {x : Outside} (h : w ∈ (exec (.registerAttempt id) d x).2.1) :
    w = .bumpAttempts id := by
  simp only [exec] at h
  split at h
  · exact List.mem_singleton.mp h
  · exact absurd h List.not_mem_nil

/-- `save` updates the row, or inserts it with its times. -/
theorem eq_of_mem_saveUser (h : w ∈ (d.saveUser u now).2) :
    w = .updateUser u now ∨ w = .insertUser
      { u with createdAt := some (u.createdAt.getD now), updatedAt := some now } := by
  unfold saveUser at h
  split at h
  · exact .inl (List.mem_singleton.mp h)
  · split at h
    · exact absurd h List.not_mem_nil
    · exact .inr (List.mem_singleton.mp h)

end Db

/-- A program over the store. -/
abbrev Cmd (α : Type) : Type := Prog Call Call.Resp Failure α

/-! ### What a write changes -/

namespace Db

variable (d : Db) (u : User) (now : Time)

theorem mem_of_findById {d : Db} {id : Uuid} {u : User} (h : d.findById id = some u) :
    u ∈ d.users ∧ u.id = id :=
  ⟨List.mem_of_find?_eq_some h, by simpa using List.find?_some h⟩

theorem mem_of_findByPhone {d : Db} {phone : String} {u : User} (h : d.findByPhone phone = some u) :
    u ∈ d.users ∧ u.phone = phone :=
  ⟨List.mem_of_find?_eq_some h, by simpa using List.find?_some h⟩

theorem exists_findById {d : Db} {u : User} (h : u ∈ d.users) : ∃ v, d.findById u.id = some v := by
  have : (d.findById u.id).isSome := by
    rw [findById, List.find?_isSome]
    exact ⟨u, h, by simp⟩
  exact Option.isSome_iff_exists.mp this

theorem findById_of_mem {d : Db} (hids : (d.users.map User.id).Nodup) {u : User}
    (h : u ∈ d.users) : d.findById u.id = some u := by
  obtain ⟨v, hv⟩ := exists_findById h
  obtain ⟨hm, hid⟩ := mem_of_findById hv
  rw [hv, List.inj_on_of_nodup_map hids hm h hid]

/-- An update by `id` keeps every row's keys. -/
theorem findById_updateUser (id : Uuid) : (Write.apply d (.updateUser u now)).findById id =
    (d.findById id).map fun row => if row.id = u.id then Write.assign u now row else row := by
  simp only [findById, Write.apply, List.find?_map]
  congr 2
  funext row
  simp only [Function.comp_apply]
  split_ifs <;> rfl

theorem findByPhone_updateUser (phone : String) :
    (Write.apply d (.updateUser u now)).findByPhone phone =
      (d.findByPhone phone).map fun row => if row.id = u.id then Write.assign u now row else row := by
  simp only [findByPhone, Write.apply, List.find?_map]
  congr 2
  funext row
  simp only [Function.comp_apply]
  split_ifs <;> rfl

/-- Saving an account that is there is an update. -/
theorem saveUser_of_findById {d : Db} {u v : User} (h : d.findById u.id = some v) (now : Time) :
    d.saveUser u now = (true, [.updateUser u now]) := by
  simp [saveUser, h]

/-- A write that is no insert or update of `users` leaves the table. -/
theorem users_apply {w : Write} (h1 : ∀ u, w ≠ .insertUser u) (h2 : ∀ u now, w ≠ .updateUser u now) :
    (Write.apply d w).users = d.users := by
  cases w with
  | insertUser u => exact absurd rfl (h1 u)
  | updateUser u now => exact absurd rfl (h2 u now)
  | _ => rfl

/-! ### Codes -/

theorem otp_bumpAttempts (id id' : Uuid) : (Write.apply d (.bumpAttempts id')).otp id =
    (d.otp id).map fun o => if o.id = id' then { o with attempts := o.attempts + 1 } else o := by
  simp only [otp, Write.apply, List.find?_map]
  congr 2
  funext o
  simp only [Function.comp_apply]
  split_ifs <;> rfl

theorem otp_consumeOtp (id id' : Uuid) : (Write.apply d (.consumeOtp id' now)).otp id =
    (d.otp id).map fun o => if o.id = id' then { o with consumedAt := some now } else o := by
  simp only [otp, Write.apply, List.find?_map]
  congr 2
  funext o
  simp only [Function.comp_apply]
  split_ifs <;> rfl

theorem isActive_bumpAttempts (id id' : Uuid) :
    (Write.apply d (.bumpAttempts id')).isActive id = d.isActive id := by
  simp only [isActive, otp_bumpAttempts]
  cases d.otp id with
  | none => rfl
  | some o => simp only [Option.map_some, Option.any_some]; split_ifs <;> rfl

theorem isActive_consumeOtp (id id' : Uuid) :
    (Write.apply d (.consumeOtp id' now)).isActive id = (d.isActive id && decide (id ≠ id')) := by
  simp only [isActive, otp_consumeOtp]
  cases h : d.otp id with
  | none => rfl
  | some o =>
    have hid : o.id = id := by simpa using List.find?_some h
    by_cases he : id = id' <;> simp [hid, he]

theorem consumption_of_isActive {d : Db} {id : Uuid} (h : d.isActive id = true) :
    d.consumption id now = [.consumeOtp id now] := by
  obtain ⟨o, ho, hc⟩ := Option.any_eq_true _ _ |>.mp h
  simp only [consumption, ho, hc, if_true]

/-! ### Tokens -/

variable (t : RefreshToken) (ids : List Uuid) (id : Uuid) (hash : String)

theorem token_insertToken : (Write.apply d (.insertToken t)).token id =
    (d.token id).or (if t.id = id then some t else none) := by
  simp only [token, Write.apply, List.find?_append]
  congr 1
  by_cases h : t.id = id <;> simp [h]

theorem findByHash_insertToken : (Write.apply d (.insertToken t)).findByHash hash =
    (d.findByHash hash).or (if t.tokenHash = hash then some t else none) := by
  simp only [findByHash, Write.apply, List.find?_append]
  congr 1
  by_cases h : t.tokenHash = hash <;> simp [h]

theorem token_revokeTokens : (Write.apply d (.revokeTokens ids now)).token id =
    (d.token id).map fun t =>
      if t.id ∈ ids ∧ t.revokedAt = none then { t with revokedAt := some now } else t := by
  simp only [token, Write.apply, List.find?_map]
  congr 2
  funext t
  simp only [Function.comp_apply]
  split_ifs <;> rfl

theorem findByHash_revokeTokens : (Write.apply d (.revokeTokens ids now)).findByHash hash =
    (d.findByHash hash).map fun t =>
      if t.id ∈ ids ∧ t.revokedAt = none then { t with revokedAt := some now } else t := by
  simp only [findByHash, Write.apply, List.find?_map]
  congr 2
  funext t
  simp only [Function.comp_apply]
  split_ifs <;> rfl

/-- A new row never hides an older one. -/
theorem isLive_insertToken {d : Db} {id : Uuid} (h : (d.token id).isSome) :
    (Write.apply d (.insertToken t)).isLive id = d.isLive id := by
  obtain ⟨s, hs⟩ := Option.isSome_iff_exists.mp h
  simp [isLive, token_insertToken, hs]

theorem isLive_revokeTokens :
    (Write.apply d (.revokeTokens ids now)).isLive id = (d.isLive id && decide (id ∉ ids)) := by
  simp only [isLive, token_revokeTokens]
  cases h : d.token id with
  | none => simp
  | some t =>
    have hid : t.id = id := by simpa using List.find?_some h
    cases hr : t.revokedAt with
    | none => by_cases hm : id ∈ ids <;> simp [hid, hr, hm]
    | some r => simp [hr]

theorem revocation_of_isLive {d : Db} {id : Uuid} (h : d.isLive id = true) :
    d.revocation id now = [.revokeTokens [id] now] := if_pos h

end Db

end DiddiFreeID
