/-
# The constraints of the schema hold by themselves

The schema declares primary keys, the unique index on `users.phone` and three
foreign keys to `users`; the queries of the repositories rely on more, that a
token hash is in one row (`scalar_one_or_none`). The store checks ids and phones
of accounts alone. The rest holds without a check, whatever requests are in
flight: ids and raw tokens are drawn, each by one request and used once
(`Drawn`), and every row of another table is written about an account that the
request was told of, which was committed then and is never removed.

Key definitions: `Db.Sound`, `FreshDraws`, `ToldOf`.
Key theorems: `accounted`, `referential`, `tables_sound`.
-/
import DiddiFreeID.AllOrNothing
import DiddiFreeID.Growth
import DiddiFreeID.Transact.Unique

namespace DiddiFreeID

open Transact Engine

/-! ### The constraints -/

namespace Db

def userIds (d : Db) : List Uuid := d.users.map User.id

def phones (d : Db) : List String := d.users.map User.phone

def tokenHashes (d : Db) : List String := d.refreshTokens.map RefreshToken.tokenHash

/-- Every row of another table is about one of these accounts. -/
structure About (ids : List Uuid) (d : Db) : Prop where
  tokens : ∀ t ∈ d.refreshTokens, t.userId ∈ ids
  status : ∀ c ∈ d.statusHistory, c.userId ∈ ids
  role : ∀ c ∈ d.roleHistory, c.userId ∈ ids

theorem About.mono {ids ids' : List Uuid} {d : Db} (h : d.About ids) (hids : ids ⊆ ids') :
    d.About ids' :=
  ⟨fun t ht => hids (h.tokens t ht), fun c hc => hids (h.status c hc), fun c hc => hids (h.role c hc)⟩

/-- What the schema and the queries rely on. -/
structure Sound (d : Db) : Prop extends d.Keyed where
  phones : d.phones.Nodup
  hashes : d.tokenHashes.Nodup
  about : d.About d.userIds

end Db

/-! ### Indexes -/

theorem indexed_userIds : store.Indexed Db.userIds fun w => w.users.map User.id where
  apply d w := by
    have h := map_eq_of_forall₂ (f := User.id) User.Evolves.id (Db.GrownBy.apply d w).users
    simpa [Db.userIds] using h

theorem indexed_phones : store.Indexed Db.phones fun w => w.users.map User.phone where
  apply d w := by
    have h := map_eq_of_forall₂ (f := User.phone) User.Evolves.phone (Db.GrownBy.apply d w).users
    simpa [Db.phones] using h

theorem indexed_otpIds : store.Indexed Db.otpIds fun w => w.otps.map OtpCode.id where
  apply d w := by
    have h := map_eq_of_forall₂ (f := OtpCode.id) OtpCode.Evolves.id (Db.GrownBy.apply d w).otps
    simpa [Db.otpIds] using h

theorem indexed_tokenIds : store.Indexed Db.tokenIds fun w => w.tokens.map RefreshToken.id where
  apply d w := by
    have h := map_eq_of_forall₂ (f := RefreshToken.id) RefreshToken.Evolves.id
      (Db.GrownBy.apply d w).tokens
    simpa [Db.tokenIds] using h

theorem indexed_tokenHashes :
    store.Indexed Db.tokenHashes fun w => w.tokens.map RefreshToken.tokenHash where
  apply d w := by
    have h := map_eq_of_forall₂ (f := RefreshToken.tokenHash) RefreshToken.Evolves.tokenHash
      (Db.GrownBy.apply d w).tokens
    simpa [Db.tokenHashes] using h

/-! ### Accounts -/

/-- The request has been told the account. -/
def ToldOf (l : Heard) (user : User) : Prop :=
  (∃ id, Told l (.findById id) (some user)) ∨ ∃ phone, Told l (.findByPhone phone) (some user)

theorem ToldOf.mono {l l' : Heard} {user : User} (h : ToldOf l user) (hl : l ⊆ l') :
    ToldOf l' user :=
  h.imp (fun ⟨id, ht⟩ => ⟨id, hl ht⟩) fun ⟨phone, ht⟩ => ⟨phone, hl ht⟩

theorem Read.toldOf {S : Env} {r : Request} {l : Heard} {user : User} (h : Read S r l user) :
    ToldOf l user := by
  cases r with
  | verifyOtp q =>
    obtain ⟨otp, -, -, hread⟩ := h
    exact .inr ⟨_, hread⟩
  | _ => exact .inl ⟨_, h⟩

/-- Whose row a request writes: a token, a history row. -/
def Call.rowOwner : Call → Option Uuid
  | .saveToken t => some t.userId
  | .recordStatusChange c => some c.userId
  | .recordRoleChange c => some c.userId
  | _ => none

/-- A row is written about an account that the request was told of. -/
theorem Grounds.row_owner {S : Env} {r : Request} {l : Heard} {c : Call} (h : Grounds S r l c)
    {u : Uuid} (hu : c.rowOwner = some u) : ∃ user, ToldOf l user ∧ user.id = u := by
  cases h with
  | openSession hopens =>
    obtain ⟨user, hread, hid⟩ := hopens.read
    exact ⟨user, hread.toldOf, hid.trans (Option.some.inj hu)⟩
  | renew hp => exact ⟨_, .inl ⟨_, hp.owner⟩, Option.some.inj hu⟩
  | recordStatus hsaved hrow =>
    exact ⟨_, hsaved.read.toldOf, (hsaved.writes.about.2.1 _ hrow).symm.trans (Option.some.inj hu)⟩
  | recordRole hsaved hrow =>
    exact ⟨_, hsaved.read.toldOf,
      (hsaved.writes.about.2.2.1 _ hrow).symm.trans (Option.some.inj hu)⟩
  | _ => cases hu

section Flight

variable {ι : Type} [Fintype ι] [DecidableEq ι] {S : Env} {rs : ι → Request} {d : Db} {x : Outside}
  {ok : InFlight ι → ι → Prop} {s s' : InFlight ι} {i : ι}

omit [Fintype ι] in
theorem userIds_step (hs : store.Step s i s') : s.db.userIds ⊆ s'.db.userIds := by
  obtain ⟨new, hnew⟩ := (grown_step hs).users
  have hmap : s'.db.userIds = s.db.userIds ++ new.map User.id := by
    simpa [Db.userIds] using map_eq_of_forall₂ (f := User.id) User.Evolves.id hnew
  exact hmap ▸ List.subset_append_left _ _

omit [Fintype ι] [DecidableEq ι] in
/-- An account that a request sees has been committed, unless the request is
about to register it. -/
theorem mem_userIds_of_view {u : User}
    (hu : u ∈ (store.view s.db (s.thread i).log).users) :
    u.id ∈ s.db.userIds ∨ ∃ v, .insertUser v ∈ (s.thread i).log := by
  have hid : u.id ∈ (store.view s.db (s.thread i).log).userIds := List.mem_map_of_mem hu
  rw [indexed_userIds.view] at hid
  refine (List.mem_append.mp hid).imp_right fun hin => ?_
  obtain ⟨w, hw, hadds⟩ := List.mem_flatMap.mp hin
  cases w with
  | insertUser v => exact ⟨v, hw⟩
  | _ => exact absurd hadds List.not_mem_nil

variable (rs) in
/-- The accounts that requests were told of are committed, and only
`RegisterUser` inserts any. -/
structure Accounted (s : InFlight ι) : Prop where
  told : ∀ i user, ToldOf (s.thread i).trace user → user.id ∈ s.db.userIds
  inserts : ∀ i u, .insertUser u ∈ (s.thread i).log → ∃ q, rs i = .registerUser q

omit [Fintype ι] [DecidableEq ι] in
/-- Who saves an account that is committed updates it. -/
theorem no_insert_of_mem {v u : User} {now : Time} (hv : v.id ∈ s.db.userIds) :
    .insertUser u ∉ (store.answer s i (.saveUser v now)).2.1 := by
  have hid : v.id ∈ (store.view s.db (s.thread i).log).userIds := by
    rw [indexed_userIds.view]
    exact List.mem_append_left _ hv
  obtain ⟨row, hrow, hrid⟩ := List.mem_map.mp hid
  obtain ⟨found, hfound⟩ := Db.exists_findById hrow
  rw [hrid] at hfound
  simp [answer, exec, Db.saveUser_of_findById hfound now]

/-- What a lookup by id finds is committed: `RegisterUser` makes none. -/
theorem findById_committed (h : store.Reach ok (System.start d x fun i => (rs i).prog S) s)
    (hacc : Accounted rs s) {id : Uuid} {k : Option User → Cmd Response}
    (hp : (s.thread i).prog = .call (.findById id) k) {user : User}
    (hu : (store.answer s i (.findById id)).1 = some user) : user.id ∈ s.db.userIds := by
  rcases mem_userIds_of_view (Db.mem_of_findById hu).1 with hin | ⟨v, hv⟩
  · exact hin
  · obtain ⟨q, hq⟩ := hacc.inserts i v hv
    have hg := (next_grounds h hp).1
    rw [hq] at hg
    cases hg

/-- So is what a lookup by phone finds: `RegisterUser` makes one, before it saves
the account. -/
theorem findByPhone_committed (h : store.Reach ok (System.start d x fun i => (rs i).prog S) s)
    (hacc : Accounted rs s) {phone : String} {k : Option User → Cmd Response}
    (hp : (s.thread i).prog = .call (.findByPhone phone) k) {user : User}
    (hu : (store.answer s i (.findByPhone phone)).1 = some user) : user.id ∈ s.db.userIds := by
  rcases mem_userIds_of_view (Db.mem_of_findByPhone hu).1 with hin | ⟨v, hv⟩
  · exact hin
  · obtain ⟨q, hq⟩ := hacc.inserts i v hv
    obtain ⟨w, now, r, hsaved⟩ := told_saveUser (h.history.2 i _ hv)
    obtain ⟨l, hl, hsave⟩ := grounds_of_told h hsaved
    obtain ⟨hg, hfirst⟩ := next_grounds h hp
    rw [hq] at hg hsave
    cases hg with
    | registerLookup hv =>
      cases hsave with
      | register hv' hlooked =>
        obtain rfl := Except.ok.inj (hv'.symm.trans hv)
        exact absurd rfl (hfirst _ (hl hlooked))
      | save _ hw => cases hw

/-- Only `RegisterUser` inserts an account: any other request saves one that it
was told of. -/
theorem inserts_of_call (h : store.Reach ok (System.start d x fun i => (rs i).prog S) s)
    (hacc : Accounted rs s) {c : Call} {k : c.Resp → Cmd Response}
    (hp : (s.thread i).prog = .call c k) {u : User}
    (hu : .insertUser u ∈ (store.answer s i c).2.1) : ∃ q, rs i = .registerUser q := by
  have hg := (next_grounds h hp).1
  have hmakes := answer_makes hu
  cases c with
  | saveUser v now =>
    generalize hr : rs i = r at hg
    cases hg with
    | @register q => exact ⟨q, rfl⟩
    | save hread hw =>
      refine absurd hu (no_insert_of_mem ?_)
      rw [hw.about.1]
      exact hacc.told i _ hread.toldOf
  | revokeThese => simp [Call.makes] at hmakes
  | _ => cases hmakes

theorem accounted (h : store.Reach ok (System.start d x fun i => (rs i).prog S) s) :
    Accounted rs s := by
  refine h.invariant (P := Accounted rs)
    ⟨fun i user hu => ?_, fun i u hu => absurd hu List.not_mem_nil⟩ (fun s s' i hr ih _ hs => ?_)
  · rcases hu with ⟨id, ht⟩ | ⟨phone, ht⟩ <;> exact absurd ht List.not_mem_nil
  refine ⟨fun j user hu => ?_, fun j u hu => ?_⟩
  · by_cases hj : j = i
    · subst hj
      cases hs.advance with
      | @answered c k hp _ htrace =>
        rw [htrace] at hu
        rcases hu with ⟨id, ht⟩ | ⟨phone, ht⟩
        · rcases List.mem_append.mp ht with ht | ht
          · exact userIds_step hs (ih.told j user (.inl ⟨id, ht⟩))
          · obtain ⟨rfl, ha⟩ := Sigma.mk.inj (List.mem_singleton.mp ht)
            exact userIds_step hs (findById_committed hr ih hp (eq_of_heq ha).symm)
        · rcases List.mem_append.mp ht with ht | ht
          · exact userIds_step hs (ih.told j user (.inr ⟨phone, ht⟩))
          · obtain ⟨rfl, ha⟩ := Sigma.mk.inj (List.mem_singleton.mp ht)
            exact userIds_step hs (findByPhone_committed hr ih hp (eq_of_heq ha).symm)
      | finished _ _ htrace =>
        rw [htrace] at hu
        exact userIds_step hs (ih.told j user hu)
    · rw [hs.thread_ne hj] at hu
      exact userIds_step hs (ih.told j user hu)
  · by_cases hj : j = i
    · subst hj
      cases hs with
      | call hp =>
        rw [called_thread_self] at hu
        rcases List.mem_append.mp hu with hu | hu
        · exact ih.inserts j u hu
        · exact inserts_of_call hr ih hp hu
      | commit | close | abort => simp at hu
    · rw [hs.thread_ne hj] at hu
      exact ih.inserts j u hu

/-- Who has written a row was told of its account, which is committed. -/
theorem owner_committed (h : store.Reach ok (System.start d x fun i => (rs i).prog S) s) {c : Call}
    {r : c.Resp} (hc : Told (s.thread i).trace c r) {u : Uuid} (hu : c.rowOwner = some u) :
    u ∈ s.db.userIds := by
  obtain ⟨l, hl, hg⟩ := grounds_of_told h hc
  obtain ⟨user, htold, rfl⟩ := hg.row_owner hu
  exact (accounted h).told i user (htold.mono hl)

theorem about_of_history (h : store.Reach ok (System.start d x fun i => (rs i).prog S) s)
    (hd : d.About d.userIds) {ws : List (ι × Write)} (hws : ∀ p ∈ ws, store.Produced s p.1 p.2) :
    (store.view d (ws.map Prod.snd)).About s.db.userIds := by
  have hstart : d.userIds ⊆ s.db.userIds := by
    obtain ⟨⟨ws', hdb, -⟩, -⟩ := h.history
    rw [hdb, indexed_userIds.view]
    exact List.subset_append_left _ _
  have hgrown := d.grownBy_view (ws.map Prod.snd)
  refine ⟨fun t ht => ?_, fun c hc => ?_, fun c hc => ?_⟩
  · obtain ⟨t₀, hevolves, hin | ⟨j, hsaved⟩⟩ := token_of_history ht hws
    · rw [hevolves.userId]
      exact hstart (hd.tokens t₀ hin)
    · rw [hevolves.userId]
      exact owner_committed h hsaved rfl
  · rw [hgrown.status] at hc
    rcases List.mem_append.mp hc with hc | hc
    · exact hstart (hd.status c hc)
    · obtain ⟨p, hp, hmem⟩ := exists_of_mem_flatMap hc
      have hprod := hws p hp
      rw [Write.eq_of_mem_statusRows hmem] at hprod
      exact owner_committed h (told_recordStatusChange hprod) rfl
  · rw [hgrown.role] at hc
    rcases List.mem_append.mp hc with hc | hc
    · exact hstart (hd.role c hc)
    · obtain ⟨p, hp, hmem⟩ := exists_of_mem_flatMap hc
      have hprod := hws p hp
      rw [Write.eq_of_mem_roleRows hmem] at hprod
      exact owner_committed h (told_recordRoleChange hprod) rfl

/-- **Foreign keys.** Every row, committed or about to be, is about a committed
account: no insert is refused for want of one. -/
theorem referential (h : store.Reach ok (System.start d x fun i => (rs i).prog S) s)
    (hd : d.About d.userIds) : s.db.About s.db.userIds ∧
      ∀ i, (store.view s.db (s.thread i).log).About s.db.userIds := by
  constructor
  · obtain ⟨⟨ws, hdb, hws⟩, -⟩ := h.history
    have habout := about_of_history h hd fun p hp => (hws p hp).1
    rwa [← hdb] at habout
  · intro i
    obtain ⟨ws, hview, hws⟩ := h.history_view i
    rw [hview]
    exact about_of_history h hd hws

/-! ### Unique keys -/

omit [Fintype ι] [DecidableEq ι] in
/-- A call inserts no account, or one whose id and phone its request sees
nowhere. -/
theorem insert_cases (s : InFlight ι) (i : ι) (c : Call) :
    (store.answer s i c).2.1.flatMap Write.users = [] ∨
    ∃ v, (store.answer s i c).2.1 = [.insertUser v] ∧
      v.id ∉ (store.view s.db (s.thread i).log).userIds ∧
      v.phone ∉ (store.view s.db (s.thread i).log).phones := by
  cases c with
  | saveUser u now =>
    simp only [answer, store_exec, exec, Db.saveUser]
    cases hid : (store.view s.db (s.thread i).log).findById u.id with
    | some v => simp [Write.users]
    | none =>
      cases hphone : (store.view s.db (s.thread i).log).findByPhone u.phone with
      | some v => simp
      | none =>
        refine .inr ⟨_, rfl, ?_, ?_⟩
        · simpa [Db.findById, Db.userIds] using hid
        · simpa [Db.findByPhone, Db.phones] using hphone
  | _ =>
    refine .inl (List.flatMap_eq_nil_iff.mpr fun w hw => ?_)
    have hmakes := answer_makes hw
    revert hmakes
    cases w <;> simp [Call.makes, Write.users]

omit [Fintype ι] [DecidableEq ι] in
/-- A key of the accounts that an insert locks is inserted once. -/
theorem addsNew_of_lock {V : Type} {index : Db → List V} {key : User → V}
    (lock : V → Key) (hlock : ∀ u, lock (key u) ∈ (Write.insertUser u).keys)
    (hkey : ∀ d v, v.id ∉ Db.userIds d → v.phone ∉ d.phones → key v ∉ index d) (c : Call)
    (hf : ∀ j, j ≠ i → store.Free (store.answer s i c).2.1 (s.thread j).log) :
    store.AddsNew index (fun w => w.users.map key) s i c where
  once := by
    rw [← List.map_flatMap]
    rcases insert_cases s i c with hnil | ⟨v, hv, -⟩
    · simp [hnil]
    · simp [hv, Write.users]
  unseen := by
    rw [← List.map_flatMap]
    rcases insert_cases s i c with hnil | ⟨v, hv, hid, hphone⟩
    · simp [hnil]
    · simpa [hv, Write.users] using hkey _ v hid hphone
  apart j hj := by
    refine Indexed.disjoint_of_lock lock (fun w v hv => ?_) (hf j hj)
    cases w with
    | insertUser u =>
      rw [List.mem_singleton.mp hv]
      exact hlock u
    | _ => exact absurd hv List.not_mem_nil

theorem userIds_distinct (h : store.Reach ok (System.start d x fun i => (rs i).prog S) s)
    (h0 : d.userIds.Nodup) : store.Distinct Db.userIds (fun w => w.users.map User.id) s :=
  h.unique indexed_userIds h0 fun _ _ c _ _ _ _ hf =>
    addsNew_of_lock .user (fun u => by simp [Write.keys]) (fun _ _ hid _ => hid) c hf

theorem phones_distinct (h : store.Reach ok (System.start d x fun i => (rs i).prog S) s)
    (h0 : d.phones.Nodup) : store.Distinct Db.phones (fun w => w.users.map User.phone) s :=
  h.unique indexed_phones h0 fun _ _ c _ _ _ _ hf =>
    addsNew_of_lock .phone (fun u => by simp [Write.keys]) (fun _ _ _ hphone => hphone) c hf

/-! ### Drawn keys -/

/-- A login or a renewal saves one token. -/
theorem newToken_unique {s : InFlight ι} {i : ι}
    (h : store.Reach ok (System.start d x fun i => (rs i).prog S) s) {l l' : Heard}
    {t t' : RefreshToken} (hl : l ⊆ (s.thread i).trace) (hl' : l' ⊆ (s.thread i).trace)
    (hg : Grounds S (rs i) l (.saveToken t)) (hg' : Grounds S (rs i) l' (.saveToken t')) : t = t' := by
  generalize rs i = r at hg hg'
  cases hg with
  | @openSession q l user hopens =>
    cases hg' with
    | @openSession q l' user' hopens' =>
      obtain ⟨u, ⟨otp, hacc, -, hread⟩, hid⟩ := hopens.read
      obtain ⟨u', ⟨otp', hacc', -, hread'⟩, hid'⟩ := hopens'.read
      -- both accounts were read under the one phone of the request
      have hphone : u.phone = u'.phone := Except.ok.inj (hacc.valid.symm.trans hacc'.valid)
      rw [hphone] at hread
      have huser : u = u' := Option.some.inj (told_unique h (hl hread) (hl' hread'))
      unfold VerifyOtp.newToken
      rw [← hid, ← hid', huser]
  | @renew q l stored user hp =>
    cases hg' with
    | @renew q l' stored' user' hp' =>
      obtain rfl : stored = stored' := Option.some.inj (told_unique h (hl hp.found) (hl' hp'.found))
      obtain rfl : user = user' := Option.some.inj (told_unique h (hl hp.owner) (hl' hp'.owner))
      rfl

omit [Fintype ι] [DecidableEq ι] in
/-- A request for a code saves one. -/
theorem newOtp_unique {l l' : Heard} {o o' : OtpCode} (hg : Grounds S (rs i) l (.saveOtp o))
    (hg' : Grounds S (rs i) l' (.saveOtp o')) : o = o' := by
  generalize rs i = r at hg hg'
  cases hg with
  | saveCode hv =>
    cases hg' with
    | saveCode hv' => rw [Except.ok.inj (hv.symm.trans hv')]

/-- A drawn key of rows that each request saves once is inserted once. -/
theorem drawn_distinct (h : store.Reach ok (System.start d x fun i => (rs i).prog S) s) {α V : Type}
    {index : Db → List V} {rows : Write → List α} {key : α → V} (saves : α → Call)
    (draw : Request → Option V) (hI : store.Indexed index fun w => (rows w).map key)
    (hdraw : ∀ r l a, Grounds S r l (saves a) → draw r = some (key a))
    (htold : ∀ {s : InFlight ι} {i w a}, store.Produced s i w → a ∈ rows w →
      ∃ r, Told (s.thread i).trace (saves a) r)
    (hcall : ∀ (s : InFlight ι) i c, (store.answer s i c).2.1.flatMap rows = [] ∨
      ∃ a, c = saves a ∧ (store.answer s i c).2.1.flatMap rows = [a])
    (honce : ∀ {s : InFlight ι} {i l l' a a'},
      store.Reach ok (System.start d x fun i => (rs i).prog S) s → l ⊆ (s.thread i).trace →
      l' ⊆ (s.thread i).trace → Grounds S (rs i) l (saves a) → Grounds S (rs i) l' (saves a') → a = a')
    (h0 : (index d).Nodup) (hfresh : Drawn (fun i => draw (rs i)) (index d)) :
    store.Distinct index (fun w => (rows w).map key) s := by
  refine h.unique_drawn hI h0 hfresh (fun s i w v hr hprod hv => ?_) (fun s i c k hr hp => ?_)
  · obtain ⟨a, ha, rfl⟩ := List.mem_map.mp hv
    obtain ⟨r, hsaved⟩ := htold hprod ha
    obtain ⟨l, -, hg⟩ := grounds_of_told hr hsaved
    exact hdraw _ l a hg
  · rw [← List.map_flatMap]
    rcases hcall s i c with hnil | ⟨a, rfl, ha⟩
    · exact .inl (by rw [hnil, List.map_nil])
    · obtain ⟨hg, hfirst⟩ := next_grounds hr hp
      refine .inr ⟨key a, by rw [ha, List.map_singleton], hdraw _ _ a hg, fun w hprod hv => ?_⟩
      -- a row inserted before would be this one, and its call made twice
      obtain ⟨a', ha', -⟩ := List.mem_map.mp hv
      obtain ⟨r, hsaved⟩ := htold hprod ha'
      obtain ⟨l, hl, hg'⟩ := grounds_of_told hr hsaved
      exact hfirst _ hsaved (congrArg saves (honce hr (List.Subset.refl _) hl hg hg').symm)

omit [Fintype ι] [DecidableEq ι] in
theorem saveToken_cases (s : InFlight ι) (i : ι) (c : Call) :
    (store.answer s i c).2.1.flatMap Write.tokens = [] ∨
      ∃ t, c = .saveToken t ∧ (store.answer s i c).2.1.flatMap Write.tokens = [t] := by
  cases c with
  | saveToken t => exact .inr ⟨t, rfl, rfl⟩
  | _ =>
    refine .inl (List.flatMap_eq_nil_iff.mpr fun w hw => ?_)
    have hmakes := answer_makes hw
    revert hmakes
    cases w <;> simp [Call.makes, Write.tokens]

omit [Fintype ι] [DecidableEq ι] in
theorem saveOtp_cases (s : InFlight ι) (i : ι) (c : Call) :
    (store.answer s i c).2.1.flatMap Write.otps = [] ∨
      ∃ o, c = .saveOtp o ∧ (store.answer s i c).2.1.flatMap Write.otps = [o] := by
  cases c with
  | saveOtp o => exact .inr ⟨o, rfl, rfl⟩
  | _ =>
    refine .inl (List.flatMap_eq_nil_iff.mpr fun w hw => ?_)
    have hmakes := answer_makes hw
    revert hmakes
    cases w <;> simp [Call.makes, Write.otps]

/-! ### All constraints -/

end Flight

/-- The id a request draws for a code. -/
def Request.otpId : Request → Option Uuid
  | .requestOtp q => some q.newId
  | _ => none

/-- The id a request draws for a token. -/
def Request.tokenId : Request → Option Uuid
  | .verifyOtp q => some q.newTokenId
  | .refreshAccessToken q => some q.newTokenId
  | _ => none

/-- The hash of the token a request draws. -/
def Request.tokenHash (S : Env) : Request → Option String
  | .verifyOtp q => some (hashRefreshToken S q.newRefresh)
  | .refreshAccessToken q => some (hashRefreshToken S q.newRefresh)
  | _ => none

/-- Nothing is drawn twice, and no drawn token has the hash of another. -/
structure FreshDraws {ι : Type} (S : Env) (rs : ι → Request) (d : Db) : Prop where
  otps : Drawn (fun i => (rs i).otpId) d.otpIds
  tokens : Drawn (fun i => (rs i).tokenId) d.tokenIds
  hashes : Drawn (fun i => (rs i).tokenHash S) d.tokenHashes

/-- **Constraints.** Whatever requests are in flight, the committed rows and
those that any request sees meet every constraint, if the first rows do. -/
theorem tables_sound {ι : Type} [Fintype ι] [DecidableEq ι] {S : Env} {rs : ι → Request} {d : Db}
    {x : Outside} {ok : InFlight ι → ι → Prop} {s : InFlight ι}
    (h : store.Reach ok (System.start d x fun i => (rs i).prog S) s) (hd : d.Sound)
    (hfresh : FreshDraws S rs d) :
    s.db.Sound ∧ ∀ i, (store.view s.db (s.thread i).log).Sound := by
  have husers := userIds_distinct h hd.users
  have hphones := phones_distinct h hd.phones
  have hotps : store.Distinct Db.otpIds (fun w => w.otps.map OtpCode.id) s :=
    drawn_distinct h .saveOtp Request.otpId indexed_otpIds (fun r l o hg => by cases hg; rfl)
      (fun hprod ho => ⟨(), told_saveOtp (Write.eq_of_mem_otps ho ▸ hprod)⟩) saveOtp_cases
      (fun _ _ _ => newOtp_unique) hd.otps hfresh.otps
  have htokens : ∀ {V : Type} {index : Db → List V} {key : RefreshToken → V}
      (draw : Request → Option V), store.Indexed index (fun w => w.tokens.map key) →
      (∀ r l t, Grounds S r l (.saveToken t) → draw r = some (key t)) → (index d).Nodup →
      Drawn (fun i => draw (rs i)) (index d) → store.Distinct index (fun w => w.tokens.map key) s :=
    fun draw hI hdraw => drawn_distinct h .saveToken draw hI hdraw
      (fun hprod ht => ⟨(), told_saveToken (Write.eq_of_mem_tokens ht ▸ hprod)⟩) saveToken_cases
      fun hr hl hl' => newToken_unique hr hl hl'
  have hids := htokens Request.tokenId indexed_tokenIds
    (fun r l t hg => by cases hg <;> rfl) hd.tokens hfresh.tokens
  have hhashes := htokens (Request.tokenHash S) indexed_tokenHashes
    (fun r l t hg => by cases hg <;> rfl) hd.hashes hfresh.hashes
  obtain ⟨habout, hseen⟩ := referential h hd.about
  refine ⟨⟨⟨husers.committed, hotps.committed, hids.committed⟩, hphones.committed,
    hhashes.committed, habout⟩, fun i => ⟨⟨husers.seen i, hotps.seen i, hids.seen i⟩,
    hphones.seen i, hhashes.seen i, (hseen i).mono ?_⟩⟩
  rw [indexed_userIds.view]
  exact List.subset_append_left _ _

/-- A registration and a first session, from an empty store. -/
def firstSession : Fin 4 → Request
  | 0 => .registerUser { phone := "+22507000001", fullName := some "Awa", now := 1, newId := 7 }
  | 1 => .requestOtp { phone := "+22507000001", clientIp := none, now := 2, newId := 1, draw := 42 }
  | 2 => .verifyOtp { phone := "+22507000001", code := "000042", deviceInfo := none, now := 3
                      newTokenId := 2, newRefresh := "a" }
  | 3 => .refreshAccessToken { refreshToken := "a", deviceInfo := none, now := 4, newTokenId := 3
                               newRefresh := "b" }

/-- The rows it leaves meet every constraint; the renewal is still under way. -/
theorem tables_sound_firstSession : ∃ s : InFlight (Fin 4),
    store.Reach Any (System.start {} {} fun i => (firstSession i).prog plainEnv) s ∧
    (s.db.users.length, s.db.otps.length, s.db.refreshTokens.length, s.db.statusHistory.length,
      (s.thread 3).log.length) = (1, 1, 1, 1, 2) ∧
    s.db.Sound ∧ ∀ i, (store.view s.db (s.thread i).log).Sound := by
  have hrun : ((store.follow Any (System.start {} {} fun i => (firstSession i).prog plainEnv)
      [0, 0, 0, 1, 1, 1, 1, 2, 2, 2, 2, 2, 2, 2, 3, 3, 3, 3]).map fun s =>
        (s.db.users.length, s.db.otps.length, s.db.refreshTokens.length, s.db.statusHistory.length,
          (s.thread 3).log.length)) = some (1, 1, 1, 1, 2) := by
    decide +kernel
  obtain ⟨s, hs, hp⟩ := Option.map_eq_some_iff.mp hrun
  have h := reach_of_follow hs
  have hempty : Db.Sound {} := ⟨⟨.nil, .nil, .nil⟩, .nil, .nil, ⟨by simp, by simp, by simp⟩⟩
  have hfresh : FreshDraws plainEnv firstSession {} := by
    constructor <;> unfold Drawn <;> decide +kernel
  exact ⟨s, h, hp, tables_sound h hempty hfresh⟩

end DiddiFreeID
