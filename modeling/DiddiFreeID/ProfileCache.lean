/-
# The profile cache

Commands and queries one after the other, cache entries expiring at any
moment. What the cache holds for an account is what it would encode from the
row (`Coherent`): every command that saves the row drops the entry. But the
encoding has no `requested_role`, so a profile answered from the cache is
the profile of the row exactly if the row has no pending request
(`cached_profile`).

Key definitions: `Move`, `Coherent`, `Db.published`.
Key theorems: `Request.effect_cache`, `Coherent.moved`, `cached_profile`.
-/
import DiddiFreeID.Effects
import DiddiFreeID.Queries

namespace DiddiFreeID

open Transact Engine

/-! ### Rows and entries -/

/-- A log that does not update the row of an account leaves it. -/
theorem findById_view {log : List Write} {d : Db} {id : Uuid} {row : User}
    (h : ∀ u now, .updateUser u now ∈ log → u.id ≠ id) (hrow : d.findById id = some row) :
    (store.view d log).findById id = some row := by
  induction log generalizing d with
  | nil => exact hrow
  | cons w log ih =>
    rw [view_cons, store_apply]
    refine ih (fun u now hm => h u now (List.mem_cons_of_mem _ hm)) ?_
    cases w with
    | insertUser u =>
      have happ : (Write.apply d (.insertUser u)).findById id =
          (d.findById id).or (if u.id = id then some u else none) := by
        simp only [Db.findById, Write.apply, List.find?_append]
        congr 1
        by_cases he : u.id = id <;> simp [he]
      rw [happ, hrow, Option.some_or]
    | updateUser u now =>
      have hid := (Db.mem_of_findById hrow).2
      rw [Db.findById_updateUser, hrow, Option.map_some,
        if_neg fun he => h u now List.mem_cons_self (he.symm.trans hid)]
    | _ => exact hrow

@[simp] theorem Outside.cache_publish (x : Outside) (events : List DomainEvent) :
    (events.foldl Outside.publish x).cache = x.cache := by
  induction events generalizing x with
  | nil => rfl
  | cons e events ih => exact ih (x.publish e)

/-- What is cached after an effect was cached before, and its row is as it
was. -/
def Effect.KeepsCache (e : Effect) (d : Db) (x : Outside) : Prop :=
  ∀ u c, e.outside.cache.lookup u = some c → x.cache.lookup u = some c ∧
    ∀ row, d.findById u = some row → (store.view d e.writes).findById u = some row

namespace Effect.KeepsCache

variable {e : Effect} {d : Db} {x : Outside}

/-- An effect that updates no account and leaves the cache. -/
theorem of_quiet (hx : e.outside.cache = x.cache) (hw : ∀ u now, .updateUser u now ∉ e.writes) :
    e.KeepsCache d x := by
  intro u c h
  rw [hx] at h
  exact ⟨h, fun row hrow => findById_view (fun v now hm => absurd hm (hw v now)) hrow⟩

/-- An effect that updates one account and drops its entry. -/
theorem of_invalidated (id : Uuid) (hx : e.outside.cache = (x.invalidateUser id).cache)
    (hw : ∀ u now, .updateUser u now ∈ e.writes → u.id = id) : e.KeepsCache d x := by
  intro u c h
  rw [hx, Outside.lookup_invalidateUser] at h
  split_ifs at h with hu
  exact ⟨h, fun row hrow => findById_view (fun v now hm he => hu (he.symm.trans (hw v now hm))) hrow⟩

end Effect.KeepsCache

theorem Entry.updateUser_mem {e : Entry} {u : User} {now : Time}
    (h : .updateUser u now ∈ e.writes) : u = e.user := by
  simp [writes] at h
  exact h.1

theorem Decision.updateUser_mem {dec : Decision} {u : User} {now : Time}
    (h : .updateUser u now ∈ dec.writes) : ∃ e, dec.entry = some e ∧ u = e.user := by
  unfold writes at h
  cases he : dec.entry with
  | none => simp [he] at h
  | some e =>
    rw [he] at h
    exact ⟨e, rfl, Entry.updateUser_mem h⟩

theorem Decision.keepsCache (dec : Decision) (d : Db) (x : Outside) :
    (Effect.decided dec x).KeepsCache d x := by
  cases he : dec.entry with
  | none =>
    refine .of_quiet ?_ fun u now hm => ?_
    · simp [Effect.decided, outside, he]
    · obtain ⟨e, he', -⟩ := Decision.updateUser_mem hm
      rw [he] at he'
      cases he'
  | some e =>
    refine .of_invalidated e.user.id ?_ fun u now hm => ?_
    · simp [Effect.decided, outside, he, Entry.outside]
    · obtain ⟨e', he', rfl⟩ := Decision.updateUser_mem hm
      rw [he] at he'
      rw [Option.some.inj he']

/-! ### Requests -/

variable (S : Env) (d : Db) (x : Outside)

/-- `RequestOtp` asks the limiter and sends; the cache stays. -/
theorem RequestOtp.effect_cache (q : RequestOtp) :
    (q.effect S d x).outside.cache = x.cache := by
  have hcount : (q.countIp x).cache = x.cache := by
    unfold countIp
    cases q.clientIp with
    | none => rfl
    | some ip => dsimp only; split_ifs <;> rfl
  have harm : ∀ (y : Outside) (phone : String), (arm S y phone q).cache = y.cache := by
    intro y phone
    unfold arm
    split_ifs <;> rfl
  unfold effect
  cases validatePhone q.phone with
  | error e => rfl
  | ok phone =>
    dsimp only
    split_ifs
    · exact hcount
    · cases d.findByPhone phone with
      | none => exact (harm _ _).trans hcount
      | some user => exact (harm _ _).trans hcount
    · exact hcount

variable {d x}

theorem RegisterUser.keepsCache {q : RegisterUser} (hf : d.findById q.newId = none) :
    (q.effect d x).KeepsCache d x := by
  have hquiet : ∀ phone u now, .updateUser u now ∉ (d.saveUser (q.newUser phone) q.now).2 := by
    intro phone u now hm
    rw [Db.saveUser, show d.findById (q.newUser phone).id = none from hf] at hm
    dsimp only at hm
    split at hm <;> simp at hm
  rcases q.effect_cases d x with ⟨e, heff⟩ | ⟨phone, -, -, heff⟩
  · rw [heff]
    exact .of_quiet rfl fun u now => List.not_mem_nil
  · rw [heff]
    exact .of_quiet rfl (hquiet phone)

theorem RequestOtp.keepsCache (q : RequestOtp) : (q.effect S d x).KeepsCache d x := by
  refine .of_quiet (q.effect_cache S d x) fun u now hm => ?_
  rcases q.effect_cases S d x with ⟨-, hw⟩ | ⟨phone, -, -, -, -, hw⟩
  · rw [hw] at hm
    exact absurd hm List.not_mem_nil
  · rw [hw] at hm
    split_ifs at hm <;> simp at hm

theorem VerifyOtp.keepsCache (q : VerifyOtp) : (q.effect S d x).KeepsCache d x := by
  rcases q.effect_cases S d x with ⟨-, hx, hw⟩ | ⟨phone, otp, user, hadm, ho⟩
  · exact .of_quiet (congrArg Outside.cache hx) fun u now hm => by cases hw _ hm
  · refine .of_invalidated user.id (by rw [ho.outside, Outside.cache_publish]) fun u now hm => ?_
    rw [ho.writes, List.mem_append, List.mem_append] at hm
    rcases hm with (hm | hm) | hm
    · cases Db.eq_of_mem_consumption hm
    · -- the account is saved at its first login
      obtain ⟨e, he, rfl⟩ := Decision.updateUser_mem hm
      simp only [VerifyOtp.decision, if_neg hadm.status] at he
      split_ifs at he
      · cases he
        rfl
      · cases he
    · cases List.mem_singleton.mp hm

theorem RefreshAccessToken.keepsCache (q : RefreshAccessToken) :
    (q.effect S d x).KeepsCache d x := by
  rcases q.effect_cases S d x with
    ⟨e, heff, -⟩ | ⟨stored, -, -, heff⟩ | ⟨stored, user, -, -, -, -, -, heff⟩
  all_goals rw [heff]
  · exact .of_quiet rfl fun u now => List.not_mem_nil
  · exact .of_quiet rfl fun u now hm => by cases List.mem_singleton.mp hm
  · refine .of_quiet rfl fun u now hm => ?_
    rcases List.mem_append.mp hm with hm | hm
    · cases Db.eq_of_mem_revocation hm
    · cases List.mem_singleton.mp hm

theorem Logout.keepsCache (q : Logout) : (q.effect S d x).KeepsCache d x := by
  obtain ⟨-, hx, hw⟩ := q.effect_cases S d x
  refine .of_quiet (congrArg Outside.cache hx) fun u now hm => ?_
  rcases hw with ⟨-, hw⟩ | ⟨stored, -, hw⟩
  · rw [hw] at hm
    exact absurd hm List.not_mem_nil
  · rw [hw] at hm
    split_ifs at hm
    · cases List.mem_singleton.mp hm
    · cases Db.eq_of_mem_revocation hm

theorem ChangeStatus.keepsCache (q : ChangeStatus) : (q.effect d x).KeepsCache d x := by
  unfold ChangeStatus.effect
  rcases q.decision_cases (d.findById q.userId) with ⟨e, hdec⟩ | ⟨user, target, hu, ht, -, hdec⟩
  · rw [hdec]
    exact .of_quiet rfl fun u now => List.not_mem_nil
  · rw [hdec]
    refine .of_invalidated user.id rfl fun u now hm => ?_
    rcases List.mem_append.mp hm with hm | hm
    · rw [Entry.updateUser_mem hm]
    · dsimp only at hm
      split_ifs at hm
      · cases List.mem_singleton.mp hm
      · exact absurd hm List.not_mem_nil

/-- **A request drops the entry of the account it saves.** -/
theorem Request.effect_cache (r : Request) (hf : r.Fresh d) : (r.effect S d x).KeepsCache d x := by
  cases r with
  | registerUser q => exact RegisterUser.keepsCache hf
  | requestOtp q => exact q.keepsCache S
  | verifyOtp q => exact q.keepsCache S
  | refreshAccessToken q => exact q.keepsCache S
  | logout q => exact q.keepsCache S
  | updateProfile q => exact (q.decision (d.findById q.userId)).keepsCache d x
  | changeRole q => exact (q.decision (d.findById q.userId)).keepsCache d x
  | decideKyc q => exact (q.decision (d.findById q.userId)).keepsCache d x
  | changeStatus q => exact q.keepsCache

variable (d x)

/-! ### Commands and queries -/

/-- What happens: a command, a query, the end of an entry's time to live. -/
inductive Move
  | command (r : Request)
  | query (q : Query)
  | expire (id : Uuid)

namespace World

/-- What a query is answered. -/
def reply (w : World) (q : Query) : Except Failure Response :=
  (store.run q.prog [] w.db w.outside).1

def moved (w : World) : Move → World
  | .command r => w.after S r
  | .query q =>
    ⟨(store.run q.prog [] w.db w.outside).2.1, (store.run q.prog [] w.db w.outside).2.2⟩
  | .expire id => { w with outside := w.outside.invalidateUser id }

/-- The world after the moves `ms`. -/
def movedBy (w : World) (ms : List Move) : World := ms.foldl (moved S) w

end World

/-- The ids that the commands draw are new. -/
def FreshMoves : World → List Move → Prop
  | _, [] => True
  | w, m :: ms => (∀ r, m = .command r → r.Fresh w.db) ∧ FreshMoves (w.moved S m) ms

/-- The profile of an account as its row has it. -/
def Db.published (id : Uuid) : Except Failure Response :=
  match d.findById id with
  | some user => .ok (.profile (profilePayload user))
  | none => .error (.api userNotFound)

theorem run_cacheGet {α : Type} (log : List Write) (id : Uuid) (k : Option User → Cmd α) :
    store.run (.call (.cacheGet id) k) log d x =
      store.run (k ((x.cache.lookup id).map CachedUser.toUser)) log d x := by
  rw [run_call _ _ _ rfl]
  simp only [exec, List.append_nil]

theorem Query.run_prog (q : Query) : store.run q.prog [] d x =
    match x.cache.lookup q.userId with
    | some c => (.ok (.profile (profilePayload c.toUser)), d, x)
    | none => (d.published q.userId, d, (d.findById q.userId).elim x x.setUser) := by
  rw [q.prog_eq]
  unfold GetUserById.call Db.published
  rw [cachedUser_bind, run_cacheGet]
  cases hc : x.cache.lookup q.userId with
  | some c =>
    rw [Option.map_some]
    rfl
  | none =>
    simp only [Option.map_none, getById_bind, run_findById, view_nil]
    cases d.findById q.userId with
    | none => rfl
    | some user => rfl

/-- What the cache holds for an account is encoded from its row. -/
def Coherent (w : World) : Prop :=
  ∀ u c, w.outside.cache.lookup u = some c → ∃ row, w.db.findById u = some row ∧ c = .ofUser row

variable {S d x} {w : World}

/-- **Step.** -/
theorem Coherent.moved {m : Move} (hids : (w.db.users.map User.id).Nodup)
    (hf : ∀ r, m = .command r → r.Fresh w.db) (h : Coherent w) : Coherent (w.moved S m) := by
  intro u c hc
  cases m with
  | command r =>
    simp only [World.moved] at hc ⊢
    rw [World.after_outside hids] at hc
    rw [World.after_db hids]
    obtain ⟨hold, hrow⟩ := r.effect_cache S (hf r rfl) u c hc
    obtain ⟨row, hr, rfl⟩ := h u c hold
    exact ⟨row, hrow row hr, rfl⟩
  | query q =>
    simp only [World.moved, q.run_prog] at hc ⊢
    cases hl : w.outside.cache.lookup q.userId with
    | some c' =>
      simp only [hl] at hc ⊢
      exact h u c hc
    | none =>
      simp only [hl] at hc ⊢
      cases hu : w.db.findById q.userId with
      | none =>
        rw [hu] at hc
        exact h u c hc
      | some user =>
        rw [hu, Option.elim, Outside.lookup_setUser] at hc
        split_ifs at hc with he
        · have hid := (Db.mem_of_findById hu).2
          exact ⟨user, by rw [he, hid, hu], (Option.some.inj hc).symm⟩
        · exact h u c hc
  | expire id =>
    simp only [World.moved, Outside.lookup_invalidateUser] at hc ⊢
    split_ifs at hc
    exact h u c hc

theorem World.moved_ids {m : Move} (hids : (w.db.users.map User.id).Nodup)
    (hf : ∀ r, m = .command r → r.Fresh w.db) : ((w.moved S m).db.users.map User.id).Nodup := by
  cases m with
  | command r => exact World.ids_after hids (hf r rfl)
  | query q =>
    simp only [moved, q.run_prog]
    split <;> exact hids
  | expire id => exact hids

/-- **Run.** -/
theorem Coherent.movedBy : ∀ {ms : List Move} {w : World}, FreshMoves S w ms →
    (w.db.users.map User.id).Nodup → Coherent w → Coherent (w.movedBy S ms)
  | [], _, _, _, hc => hc
  | m :: ms, w, hf, hids, hc => by
    have hms : Coherent ((w.moved S m).movedBy S ms) :=
      movedBy hf.2 (World.moved_ids hids hf.1) (hc.moved hids hf.1)
    exact hms

/-- **Cached profiles.** From an empty cache, after any commands and queries
and however entries expire, a query answers the profile of the account's row
exactly if no entry answers it or the row has no pending request. -/
theorem cached_profile (hids : (w.db.users.map User.id).Nodup) (hc : w.outside.cache = [])
    {ms : List Move} (hf : FreshMoves S w ms) (q : Query) :
    (w.movedBy S ms).reply q = (w.movedBy S ms).db.published q.userId ↔
      (w.movedBy S ms).outside.cache.lookup q.userId = none ∨
        ∀ row, (w.movedBy S ms).db.findById q.userId = some row → row.requestedRole = none := by
  have hcoh : Coherent (w.movedBy S ms) := Coherent.movedBy hf hids fun u c h => by
    rw [hc] at h
    cases h
  unfold World.reply
  rw [q.run_prog]
  cases hl : (w.movedBy S ms).outside.cache.lookup q.userId with
  | none => simp
  | some c =>
    obtain ⟨row, hrow, rfl⟩ := hcoh q.userId c hl
    have hcached : profilePayload (CachedUser.ofUser row).toUser =
        { profilePayload row with requestedRole := none } := rfl
    simp only [Db.published, hrow, hcached, reduceCtorEq, false_or, Option.some.injEq,
      Except.ok.injEq, Response.profile.injEq, forall_eq']
    constructor
    · intro h
      exact (congrArg Profile.requestedRole h).symm
    · intro h
      rw [← h]
      rfl

/-- A world with one account. -/
def onlyAccount : World :=
  { db := { users := [{ id := 7, phone := "+22507000001", status := .active }] } }

/-- The profile of an account without a request is the same from the cache. -/
theorem cached_profile_twice :
    let q : Query := .getCurrentUserProfile ⟨7⟩
    (onlyAccount.movedBy plainEnv [.query q]).reply q =
      (onlyAccount.movedBy plainEnv [.query q]).db.published 7 := by
  intro q
  have hrow : ((onlyAccount.movedBy plainEnv [.query q]).db.findById 7).all fun row =>
      row.requestedRole.isNone := by
    decide +kernel
  have hfresh : FreshMoves plainEnv onlyAccount [.query q] := ⟨fun r h => (nomatch h), trivial⟩
  refine (cached_profile (by decide) rfl hfresh q).mpr (.inr fun row hr => ?_)
  have hnone := (Option.all_eq_true _ _).mp hrow row hr
  exact Option.isNone_iff_eq_none.mp hnone

/-- **The request is lost in the cache.** An account asks for a role; the
first query shows the request, the second, from the cache, does not. -/
theorem cached_profile_drops_request :
    let q : Query := .getUserById ⟨7⟩
    let ms : List Move := [.command (.changeRole ⟨7, "driver", none, some 7, 1⟩)]
    (onlyAccount.movedBy plainEnv ms).reply q =
      .ok (.profile ⟨7, "+22507000001", none, .user, .active, some .driver⟩) ∧
    (onlyAccount.movedBy plainEnv (ms ++ [.query q])).reply q =
      .ok (.profile ⟨7, "+22507000001", none, .user, .active, none⟩) ∧
    (onlyAccount.movedBy plainEnv (ms ++ [.query q])).db.published 7 =
      .ok (.profile ⟨7, "+22507000001", none, .user, .active, some .driver⟩) := by
  intro q ms
  exact ⟨by decide +kernel, by decide +kernel, by decide +kernel⟩

end DiddiFreeID
