/-
# Accounts do not interfere

Split everything that names something into two realms: accounts, phones, IP
addresses, the ids and tokens that are drawn. In every row of the tables the names are
of one realm (`Realm.Splits`); a request names one realm only (`Task.In`). Then what
a request is told is of its realm, so all it calls for is, and so is all it writes
(`told_in`). The requests of one realm, in flight with those of the other, do what
they do in a service that has their rows alone and no other request
(`realm_apart`). In particular a request that no other one concerns answers what it
answers by itself (`answers_alone`).

Key definitions: `Realm`, `Realm.Splits`, `Task.In`, `Realm.rows`, `Realm.around`.
Key theorems: `told_in`, `realm_apart`, `answers_alone`.
-/
import DiddiFreeID.Aftermath
import DiddiFreeID.Growth
import DiddiFreeID.Transact.Projection
import Mathlib.Data.List.Find

namespace DiddiFreeID

open Transact Engine

/-- Of every name, whether it is of the first realm. -/
structure Realm where
  user : Uuid → Bool
  phone : String → Bool
  ip : String → Bool
  otp : Uuid → Bool
  token : Uuid → Bool
  hash : String → Bool

namespace Realm

variable (R : Realm)

/-- The names of a row are of one realm. -/
structure Splits (d : Db) : Prop where
  users : ∀ v ∈ d.users, R.phone v.phone = R.user v.id
  otps : ∀ o ∈ d.otps, R.otp o.id = R.phone o.phone
  tokens : ∀ t ∈ d.refreshTokens,
    R.token t.id = R.user t.userId ∧ R.hash t.tokenHash = R.user t.userId

/-- The rows of the first realm. -/
def rows (d : Db) : Db where
  users := d.users.filter fun v => R.user v.id
  otps := d.otps.filter fun o => R.phone o.phone
  refreshTokens := d.refreshTokens.filter fun t => R.user t.userId
  statusHistory := d.statusHistory.filter fun c => R.user c.userId
  roleHistory := d.roleHistory.filter fun c => R.user c.userId

/-- What is outside of the first realm. -/
def around (x : Outside) : Outside where
  cache := x.cache.filter fun e => R.user e.1
  stream := x.stream.filter fun e => R.user e.userId
  cooldowns := x.cooldowns.filter fun e => R.phone e.1
  ipHits := x.ipHits.filter fun e => R.ip e.1
  sent := x.sent.filter fun e => R.phone e.1

/-- The account is of the realm `b`. -/
structure Account (b : Bool) (v : User) : Prop where
  id : R.user v.id = b
  phone : R.phone v.phone = b

structure Code (b : Bool) (o : OtpCode) : Prop where
  id : R.otp o.id = b
  phone : R.phone o.phone = b

structure Token (b : Bool) (t : RefreshToken) : Prop where
  id : R.token t.id = b
  owner : R.user t.userId = b
  hash : R.hash t.tokenHash = b

/-- The call names the realm `b` only. -/
def Calls (b : Bool) : Call → Prop
  | .findById id | .liveTokens id | .cacheGet id | .invalidateUser id => R.user id = b
  | .cacheSet u => R.user u.id = b
  | .findByPhone phone | .findLatestActive phone | .cooldownTtl phone _ | .armCooldown phone ..
  | .send phone _ => R.phone phone = b
  | .saveUser u _ => R.Account b u
  | .recordStatusChange c => R.user c.userId = b
  | .recordRoleChange c => R.user c.userId = b
  | .publish e => R.user e.userId = b
  | .saveOtp o => R.Code b o
  | .registerAttempt id | .markConsumed id _ => R.otp id = b
  | .saveToken t => R.Token b t
  | .findByHash hash => R.hash hash = b
  | .revoke id _ => R.token id = b
  | .revokeThese ids _ => ∀ id ∈ ids, R.token id = b
  | .incrIp ip _ | .expireIp ip .. => R.ip ip = b
  | .commit => True

/-- So does the answer. -/
def Answers (b : Bool) : Answered Call Call.Resp → Prop
  | ⟨.findById _, user⟩ => ∀ v : User, user = some v → R.Account b v
  | ⟨.findByPhone _, user⟩ => ∀ v : User, user = some v → R.Account b v
  | ⟨.findLatestActive _, otp⟩ => ∀ o : OtpCode, otp = some o → R.Code b o
  | ⟨.findByHash _, stored⟩ => ∀ t : RefreshToken, stored = some t → R.Token b t
  | ⟨.liveTokens _, ids⟩ => ∀ id ∈ (ids : List Uuid), R.token id = b
  | _ => True

/-- All that has been asked and told is of the realm `b`. -/
def Hears (b : Bool) (l : Heard) : Prop := ∀ a ∈ l, R.Calls b a.1 ∧ R.Answers b a

/-- And the write. -/
def Writes (b : Bool) : Write → Prop
  | .insertUser u => R.Account b u
  | .updateUser u _ => R.Account b u
  | .insertStatus c => R.user c.userId = b
  | .insertRole c => R.user c.userId = b
  | .insertOtp o => R.Code b o
  | .bumpAttempts id | .consumeOtp id _ => R.otp id = b
  | .insertToken t => R.Token b t
  | .revokeTokens ids _ => ∀ id ∈ ids, R.token id = b

end Realm

/-- The request names the realm `b` only. -/
def Request.In (S : Env) (R : Realm) (b : Bool) : Request → Prop
  | registerUser q =>
    (∀ phone, validatePhone q.phone = .ok phone → R.phone phone = b) ∧ R.user q.newId = b
  | requestOtp q =>
    (∀ phone, validatePhone q.phone = .ok phone → R.phone phone = b) ∧
      (∀ ip, q.clientIp = some ip → R.ip ip = b) ∧ R.otp q.newId = b
  | verifyOtp q =>
    (∀ phone, validatePhone q.phone = .ok phone → R.phone phone = b) ∧
      R.token q.newTokenId = b ∧ R.hash (hashRefreshToken S q.newRefresh) = b
  | refreshAccessToken q =>
    R.hash (hashRefreshToken S q.refreshToken) = b ∧
      R.token q.newTokenId = b ∧ R.hash (hashRefreshToken S q.newRefresh) = b
  | logout q => R.hash (hashRefreshToken S q.refreshToken) = b
  | updateProfile q => R.user q.userId = b
  | changeRole q => R.user q.userId = b
  | decideKyc q => R.user q.userId = b
  | changeStatus q => R.user q.userId = b

def Task.In (S : Env) (R : Realm) (b : Bool) : Task → Prop
  | command r => r.In S R b
  | query q => R.user q.userId = b

/-! ### Programs -/

section Programs

variable {S : Env} {R : Realm} {b : Bool} {r : Request} {l : Heard} {user : User}

theorem Read.account (h : Read S r l user) (hl : R.Hears b l) : R.Account b user := by
  cases r with
  | verifyOtp q =>
    obtain ⟨otp, -, -, ht⟩ := h
    exact (hl _ ht).2 user rfl
  | _ => exact (hl _ h).2 user rfl

/-- An entry is about the account that was read. -/
theorem Writes.account {o : Except Failure Response} {e : Entry} (h : Writes S user r o e)
    (hu : R.Account b user) : R.Account b e.user := by
  refine ⟨h.about.1 ▸ hu.id, ?_⟩
  cases h <;> exact hu.phone

theorem Welcomes.account {q : VerifyOtp} (h : Welcomes S q l user)
    (hl : R.Hears b l) : R.Account b user := by
  cases h with
  | again hread => exact hread.account hl
  | first hdoc => exact hdoc.writes.account (hdoc.read.account hl)

/-- **Grounds.** Who is told of one realm calls for that realm. -/
theorem Grounds.calls {c : Call} (h : Grounds S r l c) (hr : r.In S R b)
    (hl : R.Hears b l) : R.Calls b c := by
  cases h with
  | registerLookup hv | wait hv | codeLookup hv | latest hv | arm hv => exact hr.1 _ hv
  | register hv => exact ⟨hr.2, hr.1 _ hv⟩
  | hit hip | expire hip => exact hr.2.1 _ hip
  | saveCode hv => exact ⟨hr.2.2, hr.1 _ hv⟩
  | send ht => exact (hl _ ht).1.phone
  | attempt h => exact ((hl _ h.found).2 _ rfl).id
  | burn h => exact ((hl _ h.found).2 _ rfl).id
  | consume h => exact ((hl _ h.found).2 _ rfl).id
  | account h => exact hr.1 _ h.valid
  | openSession hw => exact ⟨hr.2.1, (hw.account hl).id, hr.2.2⟩
  | loginDrop hw => exact (hw.account hl).id
  | present => exact hr.1
  | reused ht => exact ((hl _ ht).2 _ rfl).owner
  | reuseClose _ ht => exact (hl _ ht).2
  | owner ht => exact ((hl _ ht).2 _ rfl).owner
  | rotate hp => exact ((hl _ hp.found).2 _ rfl).id
  | renew hp => exact ⟨hr.2.1, ((hl _ hp.owner).2 _ rfl).id, hr.2.2⟩
  | leave => exact hr
  | leaveAll ht => exact ((hl _ ht).2 _ rfl).owner
  | leaveClose _ ht => exact (hl _ ht).2
  | leaveOne ht => exact ((hl _ ht).2 _ rfl).id
  | rename | changeRole | decide | changeStatus => exact hr
  | save hread hw => exact hw.account (hread.account hl)
  | recordStatus hs hrow =>
    exact (congrArg R.user (hs.writes.about.2.1 _ hrow)).trans (hs.read.account hl).id
  | recordRole hs hrow =>
    exact (congrArg R.user (hs.writes.about.2.2.1 _ hrow)).trans (hs.read.account hl).id
  | suspend hd => exact (hd.read.account hl).id
  | suspendClose _ _ ht => exact (hl _ ht).2
  | drop hd => exact (hd.read.account hl).id
  | publish hd _ hev =>
    exact (congrArg R.user (hd.writes.about.2.2.2 _ hev)).trans (hd.read.account hl).id
  | registerCommit | codeCommit | rejectCommit | loginCommit | reuseCommit | renewCommit
  | leaveCommit | commit => trivial

/-- The monitor of a realm. -/
def keepingTo (R : Realm) (b : Bool) : Monitor Call Call.Resp Failure Response Heard :=
  tracing (fun l c => Credible l → R.Hears b l → R.Calls b c) (fun _ _ => True) fun _ _ => True

theorem Task.follows_keepingTo {t : Task} (ht : t.In S R b) :
    (t.prog S).Follows (keepingTo R b) [] := by
  cases t with
  | command r =>
    refine (r.follows_grounds S).simulated (fun l l' => l = l') ?_ (fun _ _ => trivial)
      (fun _ _ => trivial) rfl
    rintro l _ c rfl hmay
    exact ⟨fun hcred hl => (hmay hcred).1.calls ht hl, fun _ => rfl⟩
  | query q =>
    change (q.prog).Follows (keepingTo R b) []
    rw [q.prog_eq, GetUserById.call, cachedUser_bind]
    refine ⟨fun _ _ => ht, fun cached => ?_⟩
    cases cached with
    | some user => trivial
    | none =>
      refine ⟨fun _ _ => ht, fun user => ?_⟩
      cases user with
      | none => trivial
      | some user => exact ⟨fun _ hl => ((hl _ told_snoc).2 user rfl).id, fun _ => trivial⟩

end Programs

/-! ### The rows of a realm -/

/-- Where only some rows answer the question, the others may be left out. -/
theorem find?_filter_of_imp {α : Type} {p q : α → Bool} {l : List α}
    (h : ∀ a ∈ l, q a = true → p a = true) : (l.filter p).find? q = l.find? q := by
  rw [List.find?_filter]
  refine List.find?_congr fun a ha => ?_
  cases hq : q a with
  | true => simp [h a ha hq]
  | false => simp

theorem filter_filter_of_imp {α : Type} {p q : α → Bool} {l : List α}
    (h : ∀ a ∈ l, q a = true → p a = true) : (l.filter p).filter q = l.filter q := by
  rw [List.filter_filter]
  refine List.filter_congr fun a ha => ?_
  cases hq : q a with
  | true => simp [h a ha hq]
  | false => simp

/-- A change that does not move rows, and none of those left out, is one of what is left. -/
theorem filter_map_side {α : Type} {p : α → Bool} {f : α → α} {l : List α} {b : Bool}
    (h : ∀ a ∈ l, p (f a) = p a) (hother : b = false → ∀ a ∈ l, p a = true → f a = a) :
    (l.map f).filter p = if b = true then (l.filter p).map f else l.filter p := by
  have hmap : (l.map f).filter p = (l.filter p).map f := by
    rw [List.filter_map]
    exact congrArg _ (List.filter_congr h)
  rw [hmap]
  split_ifs with hb
  · rfl
  · refine (List.map_congr_left fun a ha => ?_).trans (List.map_id _)
    exact hother (by simpa using hb) a (List.mem_filter.mp ha).1 (List.mem_filter.mp ha).2

namespace Realm

variable {R : Realm} {d : Db} {x : Outside} {b : Bool}

theorem findById_rows {id : Uuid} (h : R.user id = true) : (R.rows d).findById id = d.findById id :=
  find?_filter_of_imp fun v _ hv => by
    obtain rfl : v.id = id := by simpa using hv
    exact h

theorem findByPhone_rows (hd : R.Splits d) {phone : String} (h : R.phone phone = true) :
    (R.rows d).findByPhone phone = d.findByPhone phone :=
  find?_filter_of_imp fun v hin hv => by
    obtain rfl : v.phone = phone := by simpa using hv
    rw [← hd.users v hin, h]

theorem findLatestActive_rows {phone : String} (h : R.phone phone = true) :
    (R.rows d).findLatestActive phone = d.findLatestActive phone := by
  unfold Db.findLatestActive
  rw [show (R.rows d).otps = d.otps.filter fun o => R.phone o.phone from rfl,
    filter_filter_of_imp fun o _ ho => ?_]
  have hphone : o.phone = phone := by
    have hand := ho
    simp only [Bool.and_eq_true, decide_eq_true_eq] at hand
    exact hand.1
  rw [hphone, h]

theorem otp_rows (hd : R.Splits d) {id : Uuid} (h : R.otp id = true) :
    (R.rows d).otp id = d.otp id :=
  find?_filter_of_imp fun o hin ho => by
    obtain rfl : o.id = id := by simpa using ho
    rw [← hd.otps o hin, h]

theorem findByHash_rows (hd : R.Splits d) {hash : String} (h : R.hash hash = true) :
    (R.rows d).findByHash hash = d.findByHash hash :=
  find?_filter_of_imp fun t hin ht => by
    obtain rfl : t.tokenHash = hash := by simpa using ht
    rw [← (hd.tokens t hin).2, h]

theorem token_rows (hd : R.Splits d) {id : Uuid} (h : R.token id = true) :
    (R.rows d).token id = d.token id :=
  find?_filter_of_imp fun t hin ht => by
    obtain rfl : t.id = id := by simpa using ht
    rw [← (hd.tokens t hin).1, h]

theorem isLive_rows (hd : R.Splits d) {id : Uuid} (h : R.token id = true) :
    (R.rows d).isLive id = d.isLive id := by
  unfold Db.isLive
  rw [token_rows hd h]

theorem liveTokens_rows {userId : Uuid} (h : R.user userId = true) :
    (R.rows d).liveTokens userId = d.liveTokens userId := by
  unfold Db.liveTokens
  rw [show (R.rows d).refreshTokens = d.refreshTokens.filter fun t => R.user t.userId from rfl,
    filter_filter_of_imp fun t _ ht => ?_]
  have howner : t.userId = userId := by
    have hand := ht
    simp only [Bool.and_eq_true, decide_eq_true_eq] at hand
    exact hand.1
  rw [howner, h]

/-! ### Calls of a realm -/

theorem saveUser_rows (hd : R.Splits d) {u : User} (h : R.Account true u) (now : Time) :
    (R.rows d).saveUser u now = d.saveUser u now := by
  unfold Db.saveUser
  rw [findById_rows h.id, findByPhone_rows hd h.phone]

/-- An entry is put in its realm. -/
theorem filter_put {A B : Type} [DecidableEq A] {p : A → Bool} (l : List (A × B)) (k : A) (v : B) :
    (((k, v) :: l.filter fun e => e.1 ≠ k).filter fun e => p e.1) =
      if p k = true then (k, v) :: (l.filter fun e => p e.1).filter fun e => e.1 ≠ k
      else l.filter fun e => p e.1 := by
  rw [List.filter_cons, List.filter_filter, List.filter_filter]
  split_ifs with hk
  · simp only [Bool.and_comm]
  · refine List.filter_congr fun e _ => ?_
    by_cases he : e.1 = k
    · simp [he, hk]
    · simp [he]

theorem filter_drop {A B : Type} [DecidableEq A] {p : A → Bool} (l : List (A × B)) (k : A) :
    ((l.filter fun e => e.1 ≠ k).filter fun e => p e.1) =
      if p k = true then (l.filter fun e => p e.1).filter fun e => e.1 ≠ k
      else l.filter fun e => p e.1 := by
  rw [List.filter_filter, List.filter_filter]
  split_ifs with hk
  · simp only [Bool.and_comm]
  · refine List.filter_congr fun e _ => ?_
    by_cases he : e.1 = k
    · simp [he, hk]
    · simp [he]

theorem hits_around {ip : String} (h : R.ip ip = true) (now : Time) :
    (R.around x).hits ip now = x.hits ip now := by
  unfold Outside.hits
  rw [show (R.around x).ipHits = x.ipHits.filter fun e => R.ip e.1 from rfl,
    lookup_filter_key, if_pos h]

theorem cooldownTtl_around {phone : String} (h : R.phone phone = true) (now : Time) :
    (R.around x).cooldownTtl phone now = x.cooldownTtl phone now := by
  unfold Outside.cooldownTtl
  rw [show (R.around x).cooldowns = x.cooldowns.filter fun e => R.phone e.1 from rfl,
    lookup_filter_key, if_pos h]

theorem around_setUser (u : User) : R.around (x.setUser u) =
    if R.user u.id = true then (R.around x).setUser u else R.around x := by
  have hput := filter_put (p := R.user) x.cache u.id (CachedUser.ofUser u)
  split_ifs at hput ⊢ <;> simp only [around, Outside.setUser, hput]

theorem around_invalidateUser (id : Uuid) : R.around (x.invalidateUser id) =
    if R.user id = true then (R.around x).invalidateUser id else R.around x := by
  have hdrop := filter_drop (p := R.user) x.cache id
  split_ifs at hdrop ⊢ <;> simp only [around, Outside.invalidateUser, hdrop]

theorem around_publish (e : DomainEvent) : R.around (x.publish e) =
    if R.user e.userId = true then (R.around x).publish e else R.around x := by
  split_ifs with h <;> simp [around, Outside.publish, h]

theorem around_setHits (ip : String) (n : ℕ) (expiry : Option Time) :
    R.around (x.setHits ip n expiry) =
      if R.ip ip = true then (R.around x).setHits ip n expiry else R.around x := by
  have hput := filter_put (p := R.ip) x.ipHits ip (n, expiry)
  split_ifs at hput ⊢ <;> simp only [around, Outside.setHits, hput]

theorem around_armCooldown (phone : String) (cooldown : ℤ) (now : Time) :
    R.around (x.armCooldown phone cooldown now) =
      if R.phone phone = true then (R.around x).armCooldown phone cooldown now else R.around x := by
  have hput := filter_put (p := R.phone) x.cooldowns phone (now + seconds cooldown)
  split_ifs at hput ⊢ <;> simp only [around, Outside.armCooldown, hput]

theorem around_send (phone code : String) :
    R.around { x with sent := x.sent ++ [(phone, code)] } =
      if R.phone phone = true then { R.around x with sent := (R.around x).sent ++ [(phone, code)] }
      else R.around x := by
  split_ifs with h <;> simp [around, h]

/-- A call of the first realm is answered from its rows. -/
theorem exec_rows (hd : R.Splits d) {c : Call} (h : R.Calls true c) :
    exec c (R.rows d) (R.around x) =
      ((exec c d x).1, (exec c d x).2.1, R.around (exec c d x).2.2) := by
  have houtside : ∀ {A B : Type} {a : A} {b : B} {y y' : Outside}, y' = y →
      (a, b, y) = (a, b, y') := fun h => by rw [h]
  cases c with
  | findById id => simp [exec, findById_rows h]
  | findByPhone phone => simp [exec, findByPhone_rows hd h]
  | saveUser u now => simp [exec, saveUser_rows hd h]
  | findLatestActive phone => simp [exec, findLatestActive_rows h]
  | registerAttempt id =>
    have hnext : (R.rows d).nextAttempt id = d.nextAttempt id := by
      rw [Db.nextAttempt, otp_rows hd h, Db.nextAttempt]
    simp only [exec, hnext]
    cases d.nextAttempt id <;> rfl
  | markConsumed id now => simp [exec, Db.consumption, otp_rows hd h]
  | findByHash hash => simp [exec, findByHash_rows hd h]
  | revoke id now => simp [exec, Db.revocation, isLive_rows hd h]
  | liveTokens userId => simp [exec, liveTokens_rows h]
  | revokeThese ids now =>
    have hlive : ids.filter (R.rows d).isLive = ids.filter d.isLive :=
      List.filter_congr fun id hid => isLive_rows hd (h id hid)
    simp [exec, hlive]
  | cacheGet id =>
    have hid : R.user id = true := h
    simp [exec, around, lookup_filter_key, hid]
  | cacheSet u => exact houtside ((around_setUser u).trans (if_pos h))
  | invalidateUser id => exact houtside ((around_invalidateUser id).trans (if_pos h))
  | publish e => exact houtside ((around_publish e).trans (if_pos h))
  | incrIp ip now =>
    simp only [exec, hits_around h]
    exact houtside ((around_setHits ip _ _).trans (if_pos h))
  | expireIp ip window now =>
    simp only [exec, hits_around h]
    exact houtside ((around_setHits ip _ _).trans (if_pos h))
  | cooldownTtl phone now => simp [exec, cooldownTtl_around h]
  | armCooldown phone cooldown now =>
    exact houtside ((around_armCooldown phone cooldown now).trans (if_pos h))
  | send phone code => exact houtside ((around_send phone code).trans (if_pos h))
  | recordStatusChange | recordRoleChange | saveOtp | saveToken | commit => rfl

/-- A call of the other realm changes nothing around the first. -/
theorem exec_aside {c : Call} (h : R.Calls false c) : R.around (exec c d x).2.2 = R.around x := by
  have hne : ∀ {p : Bool}, p = false → ¬p = true := by simp
  cases c with
  | cacheSet u => exact (around_setUser u).trans (if_neg (hne h))
  | invalidateUser id => exact (around_invalidateUser id).trans (if_neg (hne h))
  | publish e => exact (around_publish e).trans (if_neg (hne h))
  | incrIp ip now => exact (around_setHits ip _ _).trans (if_neg (hne h))
  | expireIp ip window now => exact (around_setHits ip _ _).trans (if_neg (hne h))
  | armCooldown phone cooldown now =>
    exact (around_armCooldown phone cooldown now).trans (if_neg (hne h))
  | send phone code => exact (around_send phone code).trans (if_neg (hne h))
  | registerAttempt id =>
    simp only [exec]
    cases d.nextAttempt id <;> rfl
  | _ => rfl

/-- What is told of split rows is of the realm that was asked for. -/
theorem exec_answers (hd : R.Splits d) {c : Call} (h : R.Calls b c) :
    R.Answers b ⟨c, (exec c d x).1⟩ := by
  have haccount : ∀ {v}, v ∈ d.users → R.user v.id = b → R.Account b v := fun hin hid =>
    ⟨hid, (hd.users _ hin).trans hid⟩
  cases c with
  | findById id =>
    intro v hv
    obtain ⟨hin, rfl⟩ := Db.mem_of_findById hv
    exact haccount hin h
  | findByPhone phone =>
    intro v hv
    obtain ⟨hin, rfl⟩ := Db.mem_of_findByPhone hv
    exact haccount hin ((hd.users v hin).symm.trans h)
  | findLatestActive phone =>
    intro o ho
    obtain ⟨hin, rfl, -⟩ := Db.of_findLatestActive ho
    exact ⟨(hd.otps o hin).trans h, h⟩
  | findByHash hash =>
    intro t ht
    obtain ⟨hin, rfl⟩ := Db.of_findByHash ht
    have howner := (hd.tokens t hin).2.symm.trans h
    exact ⟨(hd.tokens t hin).1.trans howner, howner, h⟩
  | liveTokens userId =>
    intro id hid
    obtain ⟨t, ht, rfl⟩ := List.mem_map.mp hid
    obtain ⟨hin, hlive⟩ := List.mem_filter.mp ht
    simp only [Bool.and_eq_true, decide_eq_true_eq] at hlive
    exact (hd.tokens t hin).1.trans ((congrArg R.user hlive.1).trans h)
  | _ => trivial

/-- The writes of a call are of its realm. -/
theorem makes_writes {c : Call} (h : R.Calls b c) {w : Write} (hw : c.makes w) : R.Writes b w := by
  cases c with
  | saveUser u now => rcases hw with rfl | rfl <;> exact ⟨h.id, h.phone⟩
  | revoke id now =>
    obtain rfl := hw
    intro id' hid'
    rw [List.mem_singleton.mp hid']
    exact h
  | revokeThese ids now =>
    obtain ⟨live, hlive, rfl⟩ := hw
    exact fun id hid => h id (hlive hid)
  | recordStatusChange | recordRoleChange | saveOtp | registerAttempt | markConsumed | saveToken =>
    obtain rfl := hw
    exact h
  | _ => cases hw

/-! ### Writes of a realm -/

theorem splits_apply (hd : R.Splits d) {w : Write} (h : R.Writes b w) :
    R.Splits (Write.apply d w) := by
  have hmap : ∀ {A : Type} {P : A → Prop} {f : A → A} {l : List A}, (∀ a ∈ l, P a) →
      (∀ a, P a → P (f a)) → ∀ a ∈ l.map f, P a := by
    intro A P f l hl hf a' ha'
    obtain ⟨a, ha, rfl⟩ := List.mem_map.mp ha'
    exact hf a (hl a ha)
  have hsnoc : ∀ {A : Type} {P : A → Prop} {a : A} {l : List A}, (∀ a ∈ l, P a) → P a →
      ∀ a' ∈ l ++ [a], P a' := by
    intro A P a l hl ha a' ha'
    rcases List.mem_append.mp ha' with ha' | ha'
    · exact hl a' ha'
    · rw [List.mem_singleton.mp ha']
      exact ha
  cases w with
  | insertUser u => exact ⟨hsnoc hd.users (h.phone.trans h.id.symm), hd.otps, hd.tokens⟩
  | updateUser u now =>
    refine ⟨hmap hd.users fun v hv => ?_, hd.otps, hd.tokens⟩
    split_ifs <;> exact hv
  | insertOtp o => exact ⟨hd.users, hsnoc hd.otps (h.id.trans h.phone.symm), hd.tokens⟩
  | bumpAttempts id | consumeOtp id now =>
    refine ⟨hd.users, hmap hd.otps fun o ho => ?_, hd.tokens⟩
    split_ifs <;> exact ho
  | insertToken t =>
    exact ⟨hd.users, hd.otps, hsnoc hd.tokens ⟨h.id.trans h.owner.symm, h.hash.trans h.owner.symm⟩⟩
  | revokeTokens ids now =>
    refine ⟨hd.users, hd.otps, hmap hd.tokens fun t ht => ?_⟩
    split_ifs <;> exact ht
  | insertStatus | insertRole => exact ⟨hd.users, hd.otps, hd.tokens⟩

theorem filter_snoc_side {A : Type} {p : A → Bool} {a : A} (l : List A) (h : p a = b) :
    (l ++ [a]).filter p = if b = true then l.filter p ++ [a] else l.filter p := by
  subst h
  split_ifs with hb <;> simp [hb]

/-- A write changes the rows of its realm alone. -/
theorem rows_apply (hd : R.Splits d) {w : Write} (h : R.Writes b w) :
    R.rows (Write.apply d w) = if b = true then Write.apply (R.rows d) w else R.rows d := by
  have hne : ∀ {p : Bool}, b = false → p = b → p = true → False := by
    rintro _ rfl rfl ⟨⟩
  cases w with
  | insertUser u =>
    have hrows := filter_snoc_side (p := fun v : User => R.user v.id) d.users h.id
    split_ifs at hrows ⊢ <;> simp only [rows, Write.apply, hrows]
  | insertStatus c =>
    have hrows := filter_snoc_side (p := fun c : UserStatusChange => R.user c.userId)
      d.statusHistory h
    split_ifs at hrows ⊢ <;> simp only [rows, Write.apply, hrows]
  | insertRole c =>
    have hrows := filter_snoc_side (p := fun c : UserRoleChange => R.user c.userId) d.roleHistory h
    split_ifs at hrows ⊢ <;> simp only [rows, Write.apply, hrows]
  | insertOtp o =>
    have hrows := filter_snoc_side (p := fun o : OtpCode => R.phone o.phone) d.otps h.phone
    split_ifs at hrows ⊢ <;> simp only [rows, Write.apply, hrows]
  | insertToken t =>
    have hrows := filter_snoc_side (p := fun t : RefreshToken => R.user t.userId)
      d.refreshTokens h.owner
    split_ifs at hrows ⊢ <;> simp only [rows, Write.apply, hrows]
  | updateUser u now =>
    have hrows := filter_map_side (p := fun v : User => R.user v.id) (l := d.users) (b := b)
      (f := fun row => if row.id = u.id then Write.assign u now row else row)
      (fun v _ => by split_ifs <;> rfl) fun hb v _ hv => by
        rw [if_neg]
        intro hid
        rw [hid] at hv
        exact hne hb h.id hv
    split_ifs at hrows ⊢ <;> simp only [rows, Write.apply, hrows]
  | bumpAttempts id =>
    have hrows := filter_map_side (p := fun o : OtpCode => R.phone o.phone) (l := d.otps) (b := b)
      (f := fun o => if o.id = id then { o with attempts := o.attempts + 1 } else o)
      (fun o _ => by split_ifs <;> rfl) fun hb o ho hphone => by
        rw [if_neg]
        rintro rfl
        exact hne hb ((hd.otps o ho).symm.trans h) hphone
    split_ifs at hrows ⊢ <;> simp only [rows, Write.apply, hrows]
  | consumeOtp id now =>
    have hrows := filter_map_side (p := fun o : OtpCode => R.phone o.phone) (l := d.otps) (b := b)
      (f := fun o => if o.id = id then { o with consumedAt := some now } else o)
      (fun o _ => by split_ifs <;> rfl) fun hb o ho hphone => by
        rw [if_neg]
        rintro rfl
        exact hne hb ((hd.otps o ho).symm.trans h) hphone
    split_ifs at hrows ⊢ <;> simp only [rows, Write.apply, hrows]
  | revokeTokens ids now =>
    have hrows := filter_map_side (p := fun t : RefreshToken => R.user t.userId)
      (l := d.refreshTokens) (b := b)
      (f := fun t =>
        if t.id ∈ ids ∧ t.revokedAt = none then { t with revokedAt := some now } else t)
      (fun t _ => by split_ifs <;> rfl) fun hb t ht howner => by
        rw [if_neg]
        rintro ⟨hid, -⟩
        exact hne hb ((hd.tokens t ht).1.symm.trans (h t.id hid)) howner
    split_ifs at hrows ⊢ <;> simp only [rows, Write.apply, hrows]

/-- So do uncommitted writes. -/
theorem rows_view (log : List Write) : ∀ {d : Db}, R.Splits d → (∀ w ∈ log, R.Writes b w) →
    R.rows (store.view d log) = if b = true then store.view (R.rows d) log else R.rows d := by
  induction log with
  | nil => intro d _ _; split_ifs <;> rfl
  | cons w log ih =>
    intro d hd h
    have hw := h w List.mem_cons_self
    rw [view_cons, store_apply,
      ih (splits_apply hd hw) fun w' hw' => h w' (List.mem_cons_of_mem _ hw'), rows_apply hd hw]
    split_ifs <;> rfl

theorem splits_view (log : List Write) : ∀ {d : Db}, R.Splits d →
    (∀ w ∈ log, ∃ b, R.Writes b w) → R.Splits (store.view d log) := by
  induction log with
  | nil => exact fun hd _ => hd
  | cons w log ih =>
    intro d hd h
    obtain ⟨b, hw⟩ := h w List.mem_cons_self
    exact ih (splits_apply hd hw) fun w' hw' => h w' (List.mem_cons_of_mem _ hw')

end Realm

/-! ### In flight -/

section Flight

variable {ι : Type} [Fintype ι] [DecidableEq ι] {S : Env} {R : Realm} {side : ι → Bool}
  {tasks : ι → Task} {d : Db} {x : Outside} {ok : InFlight ι → ι → Prop} {s : InFlight ι} {i : ι}

/-- Who has been told of his realm sees rows that are split. -/
theorem splits_of_hears (h : store.Reach ok (System.start d x fun i => (tasks i).prog S) s)
    (hd : R.Splits d) (hears : ∀ j, R.Hears (side j) (s.thread j).trace) :
    R.Splits s.db ∧ ∀ i, R.Splits (store.view s.db (s.thread i).log) := by
  have hwrites : ∀ {j w}, store.Produced s j w → R.Writes (side j) w := by
    rintro j w ⟨a, ha, d', x', -, hw⟩
    exact Realm.makes_writes (hears j a ha).1 (exec_makes hw)
  constructor
  · obtain ⟨⟨ws, hdb, hws⟩, -⟩ := h.history
    rw [hdb]
    refine Realm.splits_view _ hd fun w hw => ?_
    obtain ⟨p, hp, rfl⟩ := List.mem_map.mp hw
    exact ⟨_, hwrites (hws p hp).1⟩
  · intro i
    obtain ⟨ws, hview, hws⟩ := h.history_view i
    rw [hview]
    refine Realm.splits_view _ hd fun w hw => ?_
    obtain ⟨p, hp, rfl⟩ := List.mem_map.mp hw
    exact ⟨_, hwrites (hws p hp)⟩

/-- The next call of a task that has been told of its realm is for that realm. -/
theorem calls_of_hears (h : store.Reach ok (System.start d x fun i => (tasks i).prog S) s)
    (hin : (tasks i).In S R (side i)) (hears : R.Hears (side i) (s.thread i).trace) {c : Call}
    {k : c.Resp → Cmd Response} (hp : (s.thread i).prog = .call c k) : R.Calls (side i) c := by
  have hf := h.follows_trace (Task.follows_keepingTo hin)
  rw [hp] at hf
  exact hf.1 (credible_of_reach h i) hears

/-- **Told.** What a task calls and is told is of its realm. -/
theorem told_in (h : store.Reach ok (System.start d x fun i => (tasks i).prog S) s)
    (hd : R.Splits d) (hin : ∀ i, (tasks i).In S R (side i)) (i : ι) :
    R.Hears (side i) (s.thread i).trace := by
  refine h.heard (P := fun _ i (a : Answered Call Call.Resp) =>
    R.Calls (side i) a.1 ∧ R.Answers (side i) a) (fun _ _ _ _ _ _ ha => ha)
    (fun s i c k hr _ hp ih => ?_) i
  have hcalls := calls_of_hears hr (hin i) (ih i) hp
  exact ⟨hcalls, Realm.exec_answers ((splits_of_hears hr hd ih).2 i) hcalls⟩

/-- The two realms keep to themselves in every state. -/
theorem realm_splits (h : store.Reach ok (System.start d x fun i => (tasks i).prog S) s)
    (hd : R.Splits d) (hin : ∀ i, (tasks i).In S R (side i)) :
    store.Splits R.rows R.around side s := by
  have hears := told_in h hd hin
  obtain ⟨hdb, hview⟩ := splits_of_hears h hd hears
  have hlog : ∀ i, ∀ w ∈ (s.thread i).log, R.Writes (side i) w := by
    intro i w hw
    obtain ⟨a, ha, d', x', -, hmakes⟩ := h.history.2 i w hw
    exact Realm.makes_writes (hears i a ha).1 (exec_makes hmakes)
  refine ⟨fun i hi => ?_, fun i hi => ?_, fun i c k hi hp => ?_, fun i c k hi hp => ?_⟩
  · rw [Realm.rows_view _ hdb (hlog i), if_pos hi]
  · rw [Realm.rows_view _ hdb (hlog i), if_neg (by simp [hi])]
  · have hcalls := calls_of_hears h (hin i) (hears i) hp
    rw [hi] at hcalls
    exact Realm.exec_rows (hview i) hcalls
  · have hcalls := calls_of_hears h (hin i) (hears i) hp
    rw [hi] at hcalls
    exact Realm.exec_aside hcalls

/-- **Apart.** The requests of a realm, in flight with those of the other, are in a state
that they reach from the rows of their realm by themselves. -/
theorem realm_apart (h : store.Reach ok (System.start d x fun i => (tasks i).prog S) s)
    (hd : R.Splits d) (hin : ∀ i, (tasks i).In S R (side i)) :
    store.Reach (fun _ i => side i = true)
      (System.start (R.rows d) (R.around x) fun i => (tasks i).prog S)
      (s.projected R.rows R.around side fun i => (tasks i).prog S) :=
  h.projected (fun _ hr => realm_splits hr hd hin) fun _ _ _ hi => hi

/-- The end of a request that no other one concerns is its end by itself, in its realm. -/
theorem run_of_done (h : store.Reach ok (System.start d x fun i => (tasks i).prog S) s)
    (hd : R.Splits d) (hin : ∀ j, (tasks j).In S R (decide (j = i)))
    {o : Except Failure Response} (ho : Done s i o) :
    store.run ((tasks i).prog S) [] (R.rows d) (R.around x) =
      (o, R.rows s.db, R.around s.outside) := by
  have hself : store.Reach (fun _ j => j = i)
      (System.start (R.rows d) (R.around x) fun i => (tasks i).prog S)
      (s.projected R.rows R.around (fun j => decide (j = i)) fun i => (tasks i).prog S) :=
    (realm_apart h hd hin).mono fun _ j hj => of_decide_eq_true hj
  have hdone : Done (s.projected R.rows R.around (fun j => decide (j = i))
      fun i => (tasks i).prog S) i o := by
    refine (projected_done ?_).mpr ho
    exact decide_eq_true rfl
  rw [← hself.run_eq]
  exact hdone.run_eq

/-- **Alone.** A request that no other one concerns answers in flight what it answers by
itself, and leaves the rows of its realm and what is around it as by itself. -/
theorem answers_alone (h : store.Reach ok (System.start d x fun i => (tasks i).prog S) s)
    (hd : R.Splits d) (hin : ∀ j, (tasks j).In S R (decide (j = i)))
    {o : Except Failure Response} (ho : Done s i o) :
    o = (store.run ((tasks i).prog S) [] d x).1 ∧
      R.rows s.db = R.rows (store.run ((tasks i).prog S) [] d x).2.1 ∧
      R.around s.outside = R.around (store.run ((tasks i).prog S) [] d x).2.2 := by
  -- by itself it ends too, in a state that is reached
  have halone : ∃ s', store.Reach Any (System.start d x fun i => (tasks i).prog S) s' ∧
      Done s' i (store.run ((tasks i).prog S) [] d x).1 ∧
      (s'.db, s'.outside) = (store.run ((tasks i).prog S) [] d x).2 := by
    obtain ⟨s', hreach, -, hdone, hrun⟩ := store.reach_run ((tasks i).prog S)
      (System.start d x fun i => (tasks i).prog S) i rfl fun _ _ => rfl
    exact ⟨s', hreach, hdone, hrun⟩
  obtain ⟨s', hreach, hdone, hrun⟩ := halone
  have hself := (run_of_done h hd hin ho).symm.trans (run_of_done hreach hd hin hdone)
  simp only [Prod.mk.injEq] at hself
  rw [← hrun]
  exact hself

end Flight

/-- An account and what names it. -/
def ofSeven : Realm where
  user u := u = 7
  phone phone := phone = "+22507000001"
  ip ip := ip = "10.0.0.1"
  otp id := id ≤ 1
  token id := id = 2
  hash hash := hash = hashRefreshToken plainEnv "a"

def neighbours : Db :=
  { users := [{ id := 7, phone := "+22507000001", status := .active },
      { id := 8, phone := "+22507000002", status := .active }]
    otps := [{ id := 1, phone := "+22507000001", codeHash := hashOtpCode plainEnv "000042",
               expiresAt := 9, createdAt := 0 }] }

/-- A login, and what befalls another account meanwhile. -/
def besides : Fin 3 → Task
  | 0 => .command (.verifyOtp ⟨"+22507000001", "000042", none, 3, 2, "a"⟩)
  | 1 => .command (.changeStatus ⟨8, "suspended", none, some 1, 4⟩)
  | 2 => .query (.getUserById ⟨8⟩)

theorem besides_in (i : Fin 3) : (besides i).In plainEnv ofSeven (decide (i = 0)) := by
  match i with
  | 0 =>
    refine ⟨fun phone hv => ?_, rfl, by decide +kernel⟩
    have hok : validatePhone "+22507000001" = .ok "+22507000001" := by decide +kernel
    obtain rfl := Except.ok.inj (hok.symm.trans hv)
    rfl
  | 1 | 2 => rfl

theorem splits_neighbours : ofSeven.Splits neighbours :=
  ⟨by decide, by decide, fun t ht => absurd ht List.not_mem_nil⟩

/-- The login holds its session, not committed, when the other account is suspended. -/
theorem realm_apart_besides : ∃ s : InFlight (Fin 3),
    (s.db.users.map User.status, (s.thread 0).log.length) = ([.active, .suspended], 2) ∧
    store.Reach (fun _ i => decide (i = 0) = true)
      (System.start (ofSeven.rows neighbours) (ofSeven.around {})
        fun i => (besides i).prog plainEnv)
      (s.projected ofSeven.rows ofSeven.around (fun i => decide (i = 0))
        fun i => (besides i).prog plainEnv) := by
  have hrun : ((store.follow Any (System.start neighbours {} fun i => (besides i).prog plainEnv)
      [0, 1, 1, 2, 0, 1, 0, 1, 1, 0, 1]).map fun s =>
        (s.db.users.map User.status, (s.thread 0).log.length)) =
        some ([.active, .suspended], 2) := by
    decide +kernel
  obtain ⟨s, hs, hp⟩ := Option.map_eq_some_iff.mp hrun
  exact ⟨s, hp, realm_apart (reach_of_follow hs) splits_neighbours besides_in⟩

theorem answers_alone_besides : ∃ (s : InFlight (Fin 3)) (o : Except Failure Response),
    s.db.users.map User.status = [.active, .suspended] ∧ Done s 0 o ∧
    o = (store.run ((besides 0).prog plainEnv) [] neighbours {}).1 ∧
      ofSeven.rows s.db =
        ofSeven.rows (store.run ((besides 0).prog plainEnv) [] neighbours {}).2.1 ∧
      ofSeven.around s.outside =
        ofSeven.around (store.run ((besides 0).prog plainEnv) [] neighbours {}).2.2 := by
  have hrun : ((store.follow Any (System.start neighbours {} fun i => (besides i).prog plainEnv)
      [0, 1, 1, 2, 0, 1, 0, 1, 2, 0, 1, 1, 0, 0, 1, 2, 1]).map fun s =>
        (s.db.users.map User.status, (s.thread 0).prog.outcome.isSome, (s.thread 0).log)) =
        some ([.active, .suspended], true, []) := by
    decide +kernel
  obtain ⟨s, hs, hp⟩ := Option.map_eq_some_iff.mp hrun
  obtain ⟨hstatus, hend, hlog⟩ := Prod.ext_iff.mp hp |>.imp_right Prod.ext_iff.mp
  obtain ⟨o, ho⟩ := Option.isSome_iff_exists.mp hend
  exact ⟨s, o, hstatus, ⟨ho, hlog⟩,
    answers_alone (reach_of_follow hs) splits_neighbours besides_in ⟨ho, hlog⟩⟩

end DiddiFreeID
