/-
# Accounts over whole runs

A service handles a finite sequence of requests, each run to completion,
from an empty store (`served`): one of the schedules of the same requests in
flight together (`served_inFlight`). Seen through one id, the ledger is an
`Account`: its row, its audit rows, its events. Every request leaves an
account alone or makes one entry of `Writes` on it (`Account.Step`), a new
account is `Account.born`, and `Legal.account_induction` turns these two
into an induction over runs for properties of one account and the requests
so far.

Key definitions: `World`, `served`, `Legal`, `Account`, `Account.Step`.
Key theorems: `served_inFlight`, `World.account_after`, `World.account_born`, `Legal.account_induction`.
-/
import DiddiFreeID.Runs

namespace DiddiFreeID

open Transact

variable (S : Env)

/-! ### Runs -/

/-- The store and the state outside it between two requests. -/
structure World where
  db : Db := {}
  outside : Outside := {}
  deriving DecidableEq, Repr

namespace World

/-- What a request is answered. -/
def answer (w : World) (r : Request) : Except Failure Response :=
  (store.run (r.prog S) [] w.db w.outside).1

/-- The world a request leaves. -/
def after (w : World) (r : Request) : World :=
  ⟨(store.run (r.prog S) [] w.db w.outside).2.1, (store.run (r.prog S) [] w.db w.outside).2.2⟩

def ledger (w : World) : Ledger := Ledger.of w.db w.outside

end World

/-- The world after the requests `rs`, from an empty store. -/
def served (rs : List Request) : World := rs.foldl (World.after S) {}

@[simp] theorem served_nil : served S [] = {} := rfl

@[simp] theorem served_snoc (rs : List Request) (r : Request) :
    served S (rs ++ [r]) = (served S rs).after S r := by
  simp [served]

/-- The requests `rs` in flight together, on an empty store. -/
def inFlight (rs : List Request) :
    System Call Call.Resp Failure Response Db Outside Write (Fin rs.length) :=
  .start {} {} fun i => (rs.get i).prog S

/-- `s` is what the first `n` of the requests `rs` in flight reach one after
the other. -/
structure Serial (rs : List Request) (n : ℕ)
    (s : System Call Call.Resp Failure Response Db Outside Write (Fin rs.length)) : Prop where
  world : World.mk s.db s.outside = served S (rs.take n)
  done : ∀ i : Fin rs.length, i < n → Engine.Done s i ((served S (rs.take i)).answer S (rs.get i))
  waiting : ∀ i : Fin rs.length, n ≤ i → s.thread i = (inFlight S rs).thread i

variable {S} in
theorem Serial.log {rs : List Request} {n : ℕ}
    {s : System Call Call.Resp Failure Response Db Outside Write (Fin rs.length)}
    (h : Serial S rs n s) (i : Fin rs.length) : (s.thread i).log = [] := by
  by_cases hi : i < n
  · exact (h.done i hi).2
  · rw [h.waiting i (not_lt.mp hi)]
    rfl

theorem serial_reach (rs : List Request) : ∀ n ≤ rs.length,
    ∃ s, store.Reach Engine.Any (inFlight S rs) s ∧ Serial S rs n s
  | 0, _ => ⟨_, .init, rfl, fun i hi => absurd hi (Nat.not_lt_zero i), fun _ _ => rfl⟩
  | n + 1, hn => by
    obtain ⟨s, hreach, hs⟩ := serial_reach rs n (by omega)
    let i : Fin rs.length := ⟨n, hn⟩
    have hstart : s.thread i = (inFlight S rs).thread i := hs.waiting i le_rfl
    have hprog : (s.thread i).prog = (rs.get i).prog S := by rw [hstart]; rfl
    obtain ⟨s', hrun, hothers, hdone, hworld⟩ :=
      Engine.reach_run (E := store) _ s i hprog fun j _ => hs.log j
    have hnext : rs.take (n + 1) = rs.take n ++ [rs.get i] := List.take_succ_eq_append_getElem hn
    have hdb : s.db = (served S (rs.take n)).db := congrArg World.db hs.world
    have hout : s.outside = (served S (rs.take n)).outside := congrArg World.outside hs.world
    rw [hs.log i, hdb, hout] at hdone hworld
    refine ⟨s', hreach.trans hrun, ?_, fun j hj => ?_, fun j hj => ?_⟩
    · rw [hnext, served_snoc]
      exact congrArg (fun p => World.mk p.1 p.2) hworld
    · rcases Nat.lt_succ_iff_lt_or_eq.mp hj with hlt | heq
      · have hne : j ≠ i := fun h => absurd hlt (h ▸ lt_irrefl n)
        have hold := hs.done j hlt
        rw [Engine.Done, hothers j hne]
        exact hold
      · obtain rfl : j = i := Fin.ext heq
        exact hdone
    · have hne : j ≠ i := fun h => absurd hj (h ▸ Nat.not_succ_le_self n)
      rw [hothers j hne, hs.waiting j (by omega)]

/-- **One after the other.** Serving the requests `rs` is a schedule of them in
flight together: it leaves the same world and gives the same answers. -/
theorem served_inFlight (rs : List Request) : ∃ s, store.Reach Engine.Any (inFlight S rs) s ∧
    World.mk s.db s.outside = served S rs ∧
    ∀ i, Engine.Done s i ((served S (rs.take i)).answer S (rs.get i)) := by
  obtain ⟨s, hreach, hs⟩ := serial_reach S rs rs.length le_rfl
  refine ⟨s, hreach, ?_, fun i => hs.done i i.isLt⟩
  rw [hs.world, List.take_length]

/-- The id that `RegisterUser` draws (`uuid4`) is new. -/
def Request.Fresh (d : Db) : Request → Prop
  | registerUser q => d.findById q.newId = none
  | _ => True

instance (d : Db) : (r : Request) → Decidable (r.Fresh d)
  | .registerUser q => inferInstanceAs (Decidable (d.findById q.newId = none))
  | .requestOtp _ | .verifyOtp _ | .refreshAccessToken _ | .logout _ | .updateProfile _
  | .changeRole _ | .decideKyc _ | .changeStatus _ => .isTrue trivial

/-- The requests `rs` can be served: new ids are new, and each request meets
`ok` in the world it finds. -/
inductive Legal (ok : World → Request → Prop) : List Request → Prop
  | nil : Legal ok []
  | snoc {rs : List Request} {r : Request} : Legal ok rs → r.Fresh (served S rs).db →
      ok (served S rs) r → Legal ok (rs ++ [r])

/-- Every request. -/
abbrev Anything (_ : World) (_ : Request) : Prop := True

/-! ### One account -/

/-- An account: its row, and what the ledger holds about it. -/
structure Account where
  user : User
  statusRows : List UserStatusChange := []
  roleRows : List UserRoleChange := []
  events : List DomainEvent := []
  deriving DecidableEq, Repr

/-- The account under the id `u`. -/
def Ledger.account (l : Ledger) (u : Uuid) : Option Account :=
  (l.users.find? fun row => row.id = u).map fun row =>
    { user := row
      statusRows := l.statusHistory.filter fun c => c.userId = u
      roleRows := l.roleHistory.filter fun c => c.userId = u
      events := l.stream.filter fun e => e.userId = u }

namespace Account

/-- The account with an entry made on it. -/
def record (a : Account) (e : Entry) : Account :=
  { user := Write.assign e.user e.now a.user
    statusRows := a.statusRows ++ e.statusRows
    roleRows := a.roleRows ++ e.roleRows
    events := a.events ++ e.events }

variable (a : Account) (e : Entry)

@[simp] theorem record_id : (a.record e).user.id = a.user.id := rfl

@[simp] theorem record_role : (a.record e).user.role = e.user.role := rfl

@[simp] theorem record_status : (a.record e).user.status = e.user.status := rfl

@[simp] theorem record_requestedRole : (a.record e).user.requestedRole = e.user.requestedRole := rfl

@[simp] theorem record_statusRows : (a.record e).statusRows = a.statusRows ++ e.statusRows := rfl

@[simp] theorem record_roleRows : (a.record e).roleRows = a.roleRows ++ e.roleRows := rfl

@[simp] theorem record_events : (a.record e).events = a.events ++ e.events := rfl

/-- The account that `RegisterUser` creates. -/
def born (q : RegisterUser) (phone : String) : Account :=
  { user := { q.newUser phone with updatedAt := some q.now } }

@[simp] theorem born_id (q : RegisterUser) (phone : String) : (born q phone).user.id = q.newId := rfl

/-- What a request does to an account: nothing, or one entry. -/
inductive Step (a : Account) (r : Request) (o : Except Failure Response) : Account → Prop
  | idle : Step a r o a
  | entry {e : Entry} : Writes S a.user r o e → Step a r o (a.record e)

end Account

def World.account (w : World) (u : Uuid) : Option Account := w.ledger.account u

theorem World.findById_of_account {w : World} {u : Uuid} {a : Account} (h : w.account u = some a) :
    w.db.findById u = some a.user := by
  obtain ⟨row, hr, rfl⟩ := Option.map_eq_some_iff.mp h
  exact hr

theorem World.account_of_findById {w : World} {u : Uuid} {user : User}
    (h : w.db.findById u = some user) : ∃ a, w.account u = some a ∧ a.user = user :=
  ⟨_, Option.map_eq_some_iff.mpr ⟨user, h, rfl⟩, rfl⟩

theorem World.account_id {w : World} {u : Uuid} {a : Account} (h : w.account u = some a) :
    a.user.id = u :=
  (Db.mem_of_findById (findById_of_account h)).2

theorem World.account_eq_none {w : World} {u : Uuid} :
    w.account u = none ↔ w.db.findById u = none := Option.map_eq_none_iff

/-! ### Well-formed ledgers -/

/-- No id twice, and nothing recorded about an account that is not there. -/
structure Ledger.WellFormed (l : Ledger) : Prop where
  ids : (l.users.map User.id).Nodup
  status : ∀ c ∈ l.statusHistory, c.userId ∈ l.users.map User.id
  role : ∀ c ∈ l.roleHistory, c.userId ∈ l.users.map User.id
  stream : ∀ e ∈ l.stream, e.userId ∈ l.users.map User.id

namespace Ledger

theorem record_ids (l : Ledger) (e : Entry) :
    (l.record e).users.map User.id = l.users.map User.id := by
  simp only [record, List.map_map]
  refine List.map_congr_left fun row _ => ?_
  simp only [Function.comp_apply]
  split_ifs <;> rfl

theorem WellFormed.record {l : Ledger} (h : l.WellFormed) {user : User} {r : Request}
    {o : Except Failure Response} {e : Entry} (he : Writes S user r o e) (hu : user ∈ l.users) :
    (l.record e).WellFormed := by
  obtain ⟨-, h1, h2, h3⟩ := he.about
  have hmem : user.id ∈ l.users.map User.id := List.mem_map_of_mem hu
  refine ⟨by rw [record_ids]; exact h.ids, fun c hc => ?_, fun c hc => ?_, fun c hc => ?_⟩
  all_goals
    rw [record_ids]
    rcases List.mem_append.mp hc with hc | hc
  · exact h.status c hc
  · rw [h1 c hc]; exact hmem
  · exact h.role c hc
  · rw [h2 c hc]; exact hmem
  · exact h.stream c hc
  · rw [h3 c hc]; exact hmem

theorem WellFormed.born {l : Ledger} (h : l.WellFormed) {u : User}
    (hu : (l.users.find? fun row => row.id = u.id) = none) :
    ({ l with users := l.users ++ [u] } : Ledger).WellFormed := by
  have hnew : u.id ∉ l.users.map User.id := by
    intro hm
    obtain ⟨row, hr, he⟩ := List.mem_map.mp hm
    have := List.find?_eq_none.mp hu row hr
    simp [he] at this
  refine ⟨?_, fun c hc => ?_, fun c hc => ?_, fun c hc => ?_⟩
  · simp only [List.map_append, List.map_cons, List.map_nil]
    exact List.nodup_append.mpr ⟨h.ids, List.nodup_singleton _, fun a ha b hb he =>
      hnew (by rw [← List.mem_singleton.mp hb, ← he]; exact ha)⟩
  all_goals simp only [List.map_append]
  · exact List.mem_append_left _ (h.status c hc)
  · exact List.mem_append_left _ (h.role c hc)
  · exact List.mem_append_left _ (h.stream c hc)

/-- Rows that all name `i`, seen through `u`. -/
theorem filter_about {α : Type} {f : α → Uuid} {rows : List α} {i : Uuid}
    (h : ∀ c ∈ rows, f c = i) (u : Uuid) :
    (rows.filter fun c => f c = u) = if u = i then rows else [] := by
  split_ifs with hu
  · exact List.filter_eq_self.mpr fun c hc => by simp [h c hc, hu]
  · exact List.filter_eq_nil_iff.mpr fun c hc => by simp [h c hc, Ne.symm hu]

/-- An entry about another account changes nothing here; one about this
account is made on it. -/
theorem account_record {l : Ledger} {user : User} {r : Request} {o : Except Failure Response}
    {e : Entry} (he : Writes S user r o e) (u : Uuid) :
    (l.record e).account u =
      if u = user.id then (l.account u).map fun a => a.record e else l.account u := by
  obtain ⟨h0, h1, h2, h3⟩ := he.about
  have hfind : ((l.record e).users.find? fun row => row.id = u) =
      (l.users.find? fun row => row.id = u).map fun row =>
        if row.id = e.user.id then Write.assign e.user e.now row else row := by
    simp only [record, List.find?_map]
    congr 2
    funext row
    simp only [Function.comp_apply]
    split_ifs <;> rfl
  simp only [account, hfind]
  cases hrow : l.users.find? fun row => row.id = u with
  | none => simp
  | some row =>
    have hid : row.id = u := by simpa using List.find?_some hrow
    simp only [record, Option.map_some, List.filter_append, hid, h0, filter_about h1,
      filter_about h2, filter_about h3]
    split_ifs with hu
    · rfl
    · simp

/-- A new row: the accounts there stay, and its own has no past. -/
theorem account_born {l : Ledger} (h : l.WellFormed) {v : User}
    (hv : (l.users.find? fun row => row.id = v.id) = none) (u : Uuid) :
    ({ l with users := l.users ++ [v] } : Ledger).account u =
      if u = v.id then some { user := v } else l.account u := by
  have hnew : v.id ∉ l.users.map User.id := by
    intro hm
    obtain ⟨row, hr, he⟩ := List.mem_map.mp hm
    have := List.find?_eq_none.mp hv row hr
    simp [he] at this
  have hfind : ((l.users ++ [v]).find? fun row => row.id = u) =
      if u = v.id then some v else l.users.find? fun row => row.id = u := by
    split_ifs with hu
    · subst hu
      rw [List.find?_append, hv]
      simp
    · rw [List.find?_append]
      simp [Ne.symm hu]
  simp only [account, hfind]
  split_ifs with hu
  · subst hu
    simp only [Option.map_some, Option.some.injEq, Account.mk.injEq, true_and]
    refine ⟨?_, ?_, ?_⟩
    · exact List.filter_eq_nil_iff.mpr fun c hc => by
        simp only [decide_eq_true_eq]
        exact fun he => hnew (he ▸ h.status c hc)
    · exact List.filter_eq_nil_iff.mpr fun c hc => by
        simp only [decide_eq_true_eq]
        exact fun he => hnew (he ▸ h.role c hc)
    · exact List.filter_eq_nil_iff.mpr fun c hc => by
        simp only [decide_eq_true_eq]
        exact fun he => hnew (he ▸ h.stream c hc)
  · rfl

end Ledger

/-! ### One request -/

variable {S} {w : World} {r : Request}

/-- What one request does to the ledger: nothing, a new account, or one
entry on an account. -/
theorem World.after_cases (hids : (w.db.users.map User.id).Nodup) (hf : r.Fresh w.db) :
    (w.after S r).ledger = w.ledger ∨
    (∃ q phone, r = .registerUser q ∧ (w.after S r).ledger =
      { w.ledger with users := w.ledger.users ++ [(Account.born q phone).user] }) ∨
    ∃ user e, w.db.findById user.id = some user ∧ Writes S user r (w.answer S r) e ∧
      (w.after S r).ledger = w.ledger.record e := by
  cases r with
  | registerUser q =>
    rcases q.run_call w.db w.outside hf with h | ⟨phone, -, -, -, h⟩
    · exact .inl h
    · exact .inr (.inl ⟨q, phone, rfl, h⟩)
  | requestOtp q => exact .inl (run_ledger (q.follows_quietly S) (by simp) _ _)
  | verifyOtp q => exact (q.run_call S w.db w.outside hids).imp_right .inr
  | refreshAccessToken q => exact .inl (run_ledger (q.follows_quietly S) (by simp) _ _)
  | logout q => exact .inl (run_ledger (q.follows_quietly S) (by simp) _ _)
  | updateProfile q => exact (q.run_call S w.db w.outside).imp_right .inr
  | changeRole q => exact (q.run_call S w.db w.outside).imp_right .inr
  | decideKyc q => exact (q.run_call S w.db w.outside).imp And.left .inr
  | changeStatus q => exact (q.run_call S w.db w.outside).imp_right .inr

/-- No id comes twice. -/
theorem World.ids_after (hids : (w.db.users.map User.id).Nodup) (hf : r.Fresh w.db) :
    ((w.after S r).db.users.map User.id).Nodup := by
  change ((w.after S r).ledger.users.map User.id).Nodup
  rcases World.after_cases (S := S) hids hf with h | ⟨q, phone, rfl, h⟩ | ⟨user, e, -, -, h⟩
  · rw [h]
    exact hids
  · have hnew : q.newId ∉ w.db.users.map User.id := by
      intro hm
      obtain ⟨row, hr, he⟩ := List.mem_map.mp hm
      have := List.find?_eq_none.mp (show w.db.findById q.newId = none from hf) row hr
      simp [he] at this
    rw [h, List.map_append]
    refine List.nodup_append.mpr ⟨hids, List.nodup_singleton _, fun a ha b hb he => hnew ?_⟩
    rw [he, List.mem_singleton.mp hb] at ha
    exact ha
  · rw [h, Ledger.record_ids]
    exact hids

theorem World.wellFormed_after (hw : w.ledger.WellFormed) (hf : r.Fresh w.db) :
    (w.after S r).ledger.WellFormed := by
  rcases World.after_cases (S := S) hw.ids hf with h | ⟨q, phone, rfl, h⟩ | ⟨user, e, hu, he, h⟩
  · rw [h]
    exact hw
  · rw [h]
    exact hw.born hf
  · rw [h]
    exact hw.record S he (Db.mem_of_findById hu).1

/-- A request leaves an account alone or makes one entry on it. -/
theorem World.account_after (hw : w.ledger.WellFormed) (hf : r.Fresh w.db) {u : Uuid} {a : Account}
    (ha : w.account u = some a) :
    ∃ a', (w.after S r).account u = some a' ∧ a.Step S r (w.answer S r) a' := by
  unfold account at ha ⊢
  rcases World.after_cases (S := S) hw.ids hf with h | ⟨q, phone, rfl, h⟩ | ⟨user, e, hu, he, h⟩
  · exact ⟨a, by rw [h, ha], .idle⟩
  · have hne : u ≠ q.newId := by
      rintro rfl
      have := findById_of_account (w := w) ha
      rw [show w.db.findById q.newId = none from hf] at this
      cases this
    refine ⟨a, ?_, .idle⟩
    rw [h, Ledger.account_born hw (v := (Account.born q phone).user) hf,
      Account.born_id, if_neg hne, ha]
  · by_cases hid : u = user.id
    · have hrow : a.user = user := by
        have := findById_of_account (w := w) ha
        rw [hid, hu] at this
        exact (Option.some.inj this).symm
      refine ⟨a.record e, ?_, .entry (hrow ▸ he)⟩
      rw [h, Ledger.account_record S he, if_pos hid, ha]
      rfl
    · refine ⟨a, ?_, .idle⟩
      rw [h, Ledger.account_record S he, if_neg hid, ha]

/-- An account that was not there is a new one. -/
theorem World.account_born (hw : w.ledger.WellFormed) (hf : r.Fresh w.db) {u : Uuid} {a : Account}
    (hn : w.account u = none) (ha : (w.after S r).account u = some a) :
    ∃ q phone, r = .registerUser q ∧ q.newId = u ∧ a = .born q phone := by
  unfold account at hn ha
  rcases World.after_cases (S := S) hw.ids hf with h | ⟨q, phone, rfl, h⟩ | ⟨user, e, hu, he, h⟩
  · rw [h, hn] at ha
    cases ha
  · rw [h, Ledger.account_born hw (v := (Account.born q phone).user) hf] at ha
    split_ifs at ha with hid
    · exact ⟨q, phone, rfl, hid.symm, (Option.some.inj ha).symm⟩
    · rw [hn] at ha
      cases ha
  · rw [h, Ledger.account_record S he, hn] at ha
    split_ifs at ha
    cases ha

/-! ### Induction over runs -/

variable {ok : World → Request → Prop} {rs : List Request}

theorem Legal.of_snoc (h : Legal S ok (rs ++ [r])) :
    Legal S ok rs ∧ r.Fresh (served S rs).db ∧ ok (served S rs) r := by
  generalize hl : rs ++ [r] = l at h
  cases h with
  | nil => simp at hl
  | snoc h hf hok =>
    obtain ⟨rfl, hr⟩ := List.append_inj' hl rfl
    obtain rfl := List.singleton_inj.mp hr
    exact ⟨h, hf, hok⟩

theorem Legal.of_append {rs' : List Request} (h : Legal S ok (rs ++ rs')) : Legal S ok rs := by
  induction rs' using List.reverseRecOn with
  | nil => simpa using h
  | append_singleton rs' r ih =>
    rw [← List.append_assoc] at h
    exact ih h.of_snoc.1

/-- A list of requests is legal if each of them is where it stands. -/
theorem legal_of_forall : ∀ {rs : List Request}, (∀ i : Fin rs.length,
    rs[i].Fresh (served S (rs.take i)).db ∧ ok (served S (rs.take i)) rs[i]) → Legal S ok rs := by
  intro rs h
  induction rs using List.reverseRecOn with
  | nil => exact .nil
  | append_singleton rs r ih =>
    have hlast := h ⟨rs.length, by simp⟩
    simp only [Fin.getElem_fin, List.getElem_concat_length, List.take_left'] at hlast
    refine .snoc (ih fun i => ?_) hlast.1 hlast.2
    have hlen : i < (rs ++ [r]).length := by
      rw [List.length_append]
      omega
    have hi := h ⟨i, hlen⟩
    simpa only [Fin.getElem_fin, List.getElem_append_left i.isLt,
      List.take_append_of_le_length i.isLt.le] using hi

theorem Legal.wellFormed (h : Legal S ok rs) : (served S rs).ledger.WellFormed := by
  induction h with
  | nil => exact ⟨List.nodup_nil, by simp [World.ledger, Ledger.of],
      by simp [World.ledger, Ledger.of], by simp [World.ledger, Ledger.of]⟩
  | snoc _ hf _ ih =>
    rw [served_snoc]
    exact World.wellFormed_after ih hf

/-- A property of an account and the requests so far holds in every run if
new accounts have it and every request keeps it. -/
theorem Legal.account_induction {u : Uuid} {P : List Request → Account → Prop}
    (born : ∀ rs q phone, Legal S ok rs → (served S rs).account u = none →
      (served S (rs ++ [.registerUser q])).account u = some (.born q phone) →
      P (rs ++ [.registerUser q]) (.born q phone))
    (step : ∀ rs r a a', Legal S ok rs → ok (served S rs) r → (served S rs).account u = some a →
      (served S (rs ++ [r])).account u = some a' → P rs a →
      a.Step S r ((served S rs).answer S r) a' → P (rs ++ [r]) a')
    (h : Legal S ok rs) {a : Account} (ha : (served S rs).account u = some a) : P rs a := by
  induction h generalizing a with
  | nil => cases ha
  | @snoc rs r hl hf hok ih =>
    rw [served_snoc] at ha
    cases hb : (served S rs).account u with
    | none =>
      obtain ⟨q, phone, rfl, -, rfl⟩ := World.account_born hl.wellFormed hf hb ha
      exact born rs q phone hl hb (by rw [served_snoc, ha])
    | some b =>
      obtain ⟨a', ha', hs⟩ := World.account_after (S := S) hl.wellFormed hf hb
      rw [ha'] at ha
      cases ha
      exact step rs r b a hl hok hb (by rw [served_snoc, ha']) (ih hb) hs

/-! ### A run -/

/-- A driver registers, asks for the role, verifies the phone, is approved
and is suspended. -/
def driverRun : List Request :=
  [.registerUser ⟨"+22507000001", none, 0, 7⟩,
    .requestOtp ⟨"+22507000001", none, 1, 8, 123456⟩,
    .changeRole ⟨7, "driver", none, some 7, 2⟩,
    .verifyOtp ⟨"+22507000001", "123456", none, 3, 9, "r"⟩,
    .decideKyc ⟨7, true, none, some 1, 4⟩,
    .changeStatus ⟨7, "suspended", none, some 1, 5⟩]

theorem driverRun_legal : Legal plainEnv Anything driverRun := legal_of_forall (by decide +kernel)

end DiddiFreeID
