/-
# One event for a changed profile

What a command publishes and what it changes of a published profile go
together: a command on an account makes one event, about that account,
exactly if it leaves another profile (`event_iff_changed`). So a second call
with the same arguments finds nothing to change (`changes_nothing_again`).

An event named `user.updated` says which fields changed. It does not say so
on a reactivation, which carries a status instead, and leaves the status out
where a refused request releases the account (`updated_tells_iff`).

Key definitions: `World.profile`, `Request.On`, `OneEvent`, `Request.Repeats`, `TellsChanges`.
Key theorems: `Writes.changes`, `event_iff_changed`, `updated_tells_iff`.
-/
import DiddiFreeID.EventStream
import DiddiFreeID.Stands

namespace DiddiFreeID

open Transact Engine

variable (S : Env)

/-- The profile that is published of an account. -/
def World.profile (w : World) (u : Uuid) : Option Profile := (w.db.findById u).map profilePayload

/-- The request is a command on the existing account `u`: on its id, its phone
or one of its refresh tokens. -/
def Request.On (d : Db) (u : Uuid) : Request → Prop
  | registerUser _ => False
  | requestOtp q => ∃ phone user, validatePhone q.phone = .ok phone ∧
      d.findByPhone phone = some user ∧ user.id = u
  | verifyOtp q => ∃ phone user, validatePhone q.phone = .ok phone ∧
      d.findByPhone phone = some user ∧ user.id = u
  | refreshAccessToken q =>
      ∃ t, d.findByHash (hashRefreshToken S q.refreshToken) = some t ∧ t.userId = u
  | logout q => ∃ t, d.findByHash (hashRefreshToken S q.refreshToken) = some t ∧ t.userId = u
  | updateProfile q => q.userId = u
  | changeRole q => q.userId = u
  | decideKyc q => q.userId = u
  | changeStatus q => q.userId = u

/-- A changed profile of `u` goes with one event, about `u`; an unchanged one
with no event and no row of the history. -/
structure OneEvent (w : World) (r : Request) (u : Uuid) : Prop where
  changed : w.profile u ≠ (w.after S r).profile u →
    ∃ e, (w.after S r).outside.stream = w.outside.stream ++ [e] ∧ e.userId = u
  unchanged : w.profile u = (w.after S r).profile u →
    (w.after S r).outside.stream = w.outside.stream ∧
      (w.after S r).db.statusHistory = w.db.statusHistory ∧
        (w.after S r).db.roleHistory = w.db.roleHistory

/-- The second request is the first one again, at another time. -/
def Request.Repeats : Request → Request → Prop
  | updateProfile q, updateProfile q' => q' = { q with now := q'.now }
  | changeRole q, changeRole q' => q' = { q with now := q'.now }
  | logout q, logout q' => q' = { q with now := q'.now }
  | _, _ => False

/-- The answer is the one before, and the rows and the stream stay. -/
structure SameAgain (w : World) (o : Except Failure Response) (r : Request) : Prop where
  answer : w.answer S r = o
  db : (w.after S r).db = w.db
  stream : (w.after S r).outside.stream = w.outside.stream

variable {S} {w : World} {r : Request} {u : Uuid}

/-! ### The entry of a command -/

/-- An entry changes the profile of its account. -/
theorem Writes.changes {user : User} {o : Except Failure Response} {e : Entry}
    (h : Writes S user r o e) :
    profilePayload (Write.assign e.user e.now user) ≠ profilePayload user := by
  intro hsame
  simp only [profilePayload, Write.assign, Profile.mk.injEq, true_and] at hsame
  obtain ⟨hname, hrole, hstatus, hrequested⟩ := hsame
  cases h with
  | rename hq hn => exact hn.2 hname
  | verify hs =>
    have hact : (VerifyOtp.activated user).status ≠ .pendingVerification := by
      simp only [VerifyOtp.activated]
      split_ifs <;> decide
    exact hact (hstatus.trans hs)
  | request hq ht hk hr => exact hr hrequested.symm
  | grant hq ht hk hr => exact hr hrole.symm
  | decide hq hr =>
    have hnone : none = user.requestedRole := hrequested
    rw [hr] at hnone
    cases hnone
  | transit hq ht hs hc =>
    have hsame : _ = user.status := hstatus
    rw [← hsame, canTransition_self] at hc
    cases hc

/-- An entry has one event. -/
theorem Writes.one_event {user : User} {o : Except Failure Response} {e : Entry}
    (h : Writes S user r o e) : ∃ event, e.events = [event] ∧ event.userId = user.id := by
  have habout := h.about.2.2.2
  cases h with
  | rename | verify | request | grant | decide | transit => exact ⟨_, rfl, habout _ (by simp)⟩

theorem Request.On.fresh (h : r.On S w.db u) : r.Fresh w.db := by
  cases r with
  | registerUser q => exact h.elim
  | requestOtp | verifyOtp | refreshAccessToken | logout | updateProfile | changeRole | decideKyc
    | changeStatus => trivial

/-- The account of a login. -/
theorem VerifyOtp.account_of_answer (hids : (w.db.users.map User.id).Nodup) {q : VerifyOtp}
    {user : User} (h : w.answer S (.verifyOtp q) = .ok (q.answer S user)) :
    ∃ phone found, validatePhone q.phone = .ok phone ∧ w.db.findByPhone phone = some found ∧
      found.id = user.id := by
  rw [World.answer_eq hids] at h
  have houtcome : (q.effect S w.db w.outside).outcome = .ok (q.answer S user) := h
  rcases q.effect_cases S w.db w.outside with ⟨⟨e, he⟩, -⟩ | ⟨phone, otp, found, hadmits, hopens⟩
  · rw [he] at houtcome
    cases houtcome
  · refine ⟨phone, found, hadmits.valid, hadmits.found, ?_⟩
    have hanswer : q.answer S (admitted found) = q.answer S user :=
      Except.ok.inj (hopens.outcome.symm.trans houtcome)
    simp only [answer, profilePayload, Response.authenticated.injEq, Profile.mk.injEq,
      admitted_id] at hanswer
    exact hanswer.2.2.1

/-- A command on `u` makes its entry on `u`. -/
theorem Writes.on (hids : (w.db.users.map User.id).Nodup) {user : User} {e : Entry}
    (h : Writes S user r (w.answer S r) e) (hon : r.On S w.db u) : user.id = u := by
  generalize ho : w.answer S r = o at h
  cases h with
  | @verify q hs =>
    obtain ⟨phone, found, hvalid, hfound, hid⟩ := VerifyOtp.account_of_answer hids ho
    obtain ⟨phone', found', hvalid', hfound', rfl⟩ := hon
    rw [hvalid] at hvalid'
    obtain rfl := Except.ok.inj hvalid'
    rw [hfound] at hfound'
    obtain rfl := Option.some.inj hfound'
    exact hid.symm
  | rename hq | request hq | grant hq | decide hq | transit hq => exact hq.symm.trans hon

/-- The row that an entry leaves. -/
theorem World.row_after {user : User} {e : Entry} (hu : w.db.findById user.id = some user)
    (he : Writes S user r (w.answer S r) e) (h : (w.after S r).ledger = w.ledger.record e) :
    (w.after S r).db.findById user.id = some (Write.assign e.user e.now user) := by
  obtain ⟨a, ha, hrow⟩ := World.account_of_findById hu
  have hafter : (w.after S r).account user.id = some (a.record e) := by
    rw [World.account, h, Ledger.account_record S he, if_pos rfl]
    exact congrArg (Option.map fun a => a.record e) ha
  rw [World.findById_of_account hafter, Account.record, hrow]

/-- **One event for a changed profile.** -/
theorem oneEvent (hids : (w.db.users.map User.id).Nodup) (hon : r.On S w.db u) :
    OneEvent S w r u := by
  rcases World.after_cases (S := S) hids hon.fresh with h | ⟨q, phone, rfl, -⟩ | ⟨user, e, hu, he, h⟩
  · -- the ledger stays, and with it the profile
    have husers : (w.after S r).db.users = w.db.users := congrArg Ledger.users h
    have hprofile : w.profile u = (w.after S r).profile u := by
      simp only [World.profile, Db.findById, husers]
    exact ⟨fun hne => absurd hprofile hne, fun _ => ⟨congrArg Ledger.stream h,
      congrArg Ledger.statusHistory h, congrArg Ledger.roleHistory h⟩⟩
  · exact hon.elim
  · obtain rfl := he.on hids hon
    obtain ⟨event, hevents, habout⟩ := he.one_event
    have hstream : (w.after S r).outside.stream = w.outside.stream ++ [event] := by
      have := congrArg Ledger.stream h
      rwa [Ledger.record, hevents] at this
    have hrow := World.row_after hu he h
    have hne : w.profile user.id ≠ (w.after S r).profile user.id := by
      simp only [World.profile, hu, hrow, Option.map_some, ne_eq, Option.some.injEq]
      exact he.changes.symm
    exact ⟨fun _ => ⟨event, hstream, habout⟩, fun hsame => absurd hsame hne⟩

/-! ### The same request again -/

/-- The row as a decision leaves it. -/
def Decision.row (dec : Decision) (row : Option User) : Option User :=
  dec.entry.elim row fun e => row.map (Write.assign e.user e.now)

/-- The decision is on the row with this id. -/
def Decision.Regards (dec : Decision) (id : Uuid) : Prop := ∀ e ∈ dec.entry, e.user.id = id

theorem Decision.findById_view {dec : Decision} {d : Db} {id : Uuid} (h : dec.Regards id) :
    (store.view d dec.writes).findById id = dec.row (d.findById id) := by
  unfold writes row
  cases he : dec.entry with
  | none => rfl
  | some e =>
    have hid : e.user.id = id := h e he
    have hrest : ∀ w ∈ e.statusRows.map Write.insertStatus ++ e.roleRows.map Write.insertRole,
        (∀ u, w ≠ .insertUser u) ∧ ∀ u now, w ≠ .updateUser u now := by
      intro w hw
      rcases List.mem_append.mp hw with hw | hw
      · obtain ⟨c, -, rfl⟩ := List.mem_map.mp hw
        simp
      · obtain ⟨c, -, rfl⟩ := List.mem_map.mp hw
        simp
    simp only [Option.elim_some, Entry.writes, Engine.view_cons, store_apply]
    rw [findById_untouched (fun u hu => (hrest _ hu).1 u rfl)
      (fun u now hu => absurd rfl ((hrest _ hu).2 u now)), Db.findById_updateUser]
    cases hrow : d.findById id with
    | none => rfl
    | some row =>
      have hrowid : row.id = e.user.id := (Db.mem_of_findById hrow).2.trans hid.symm
      simp only [Option.map_some, if_pos hrowid]

section Again

variable {q : UpdateProfile} {q' : ChangeRole} {row : Option User} {now : Time}

theorem UpdateProfile.regards (hrow : ∀ user ∈ row, user.id = q.userId) :
    (q.decision row).Regards q.userId := by
  intro e he
  cases row with
  | none => cases he
  | some user =>
    unfold decision at he
    dsimp only at he
    split_ifs at he
    · cases he
      exact hrow user rfl
    · cases he

theorem UpdateProfile.decision_again : ({ q with now := now } : UpdateProfile).decision
    ((q.decision row).row row) = { outcome := (q.decision row).outcome } := by
  cases row with
  | none => rfl
  | some user =>
    by_cases hname : q.fullName.isSome ∧ q.fullName ≠ user.fullName
    · simp only [decision, if_pos hname, Decision.row, Option.elim_some, Option.map_some]
      have hagain : ¬ (q.fullName.isSome ∧ q.fullName ≠
          (Write.assign { user with fullName := q.fullName } q.now user).fullName) := fun h => h.2 rfl
      rw [if_neg hagain]
      rfl
    · simp only [decision, if_neg hname, Decision.row, Decision.answer, Option.elim_none]

theorem ChangeRole.regards (hrow : ∀ user ∈ row, user.id = q'.userId) :
    (q'.decision row).Regards q'.userId := by
  intro e he
  unfold decision at he
  cases ht : UserRole.ofValue q'.role with
  | none =>
    rw [ht] at he
    cases he
  | some targetRole =>
    rw [ht] at he
    cases row with
    | none => cases he
    | some user =>
      dsimp only at he
      split_ifs at he
      · cases he
      · cases he
        exact hrow user rfl
      · cases he
      · cases he
        exact hrow user rfl

theorem ChangeRole.decision_again : ({ q' with now := now } : ChangeRole).decision
    ((q'.decision row).row row) = { outcome := (q'.decision row).outcome } := by
  unfold decision
  dsimp only
  cases ht : UserRole.ofValue q'.role with
  | none => rfl
  | some targetRole =>
    cases row with
    | none => rfl
    | some user =>
      dsimp only
      by_cases hk : user.needsKycFor targetRole = true
      · by_cases hr : user.requestedRole = some targetRole
        · simp only [if_pos hk, if_pos hr, Decision.row, Decision.answer, Option.elim_none]
        · simp only [if_pos hk, if_neg hr, Decision.row, Option.elim_some, Option.map_some]
          have hk' : (Write.assign { user with requestedRole := some targetRole } q'.now
              user).needsKycFor targetRole = true := hk
          have hr' : (Write.assign { user with requestedRole := some targetRole } q'.now
              user).requestedRole = some targetRole := rfl
          rw [if_pos hk', if_pos hr']
          rfl
      · by_cases hr : user.role = targetRole
        · simp only [if_neg hk, if_pos hr, Decision.row, Decision.answer, Option.elim_none]
        · simp only [if_neg hk, if_neg hr, Decision.row, Option.elim_some, Option.map_some]
          have hk' : ¬ (Write.assign { user with role := targetRole, requestedRole := none } q'.now
              user).needsKycFor targetRole = true := by
            simp [User.needsKycFor, Write.assign]
          have hr' : (Write.assign { user with role := targetRole, requestedRole := none } q'.now
              user).role = targetRole := rfl
          rw [if_neg hk', if_pos hr']
          rfl

end Again

/-- A decision that is again the same, and without an entry, leaves the rows
and the stream. -/
theorem SameAgain.decided (hids : (w.db.users.map User.id).Nodup)
    {o : Except Failure Response} {dec : Decision}
    (heffect : r.effect S w.db w.outside = .decided dec w.outside) (hdec : dec = { outcome := o }) :
    SameAgain S w o r := by
  subst hdec
  refine ⟨?_, ?_, ?_⟩
  · rw [World.answer_eq hids, heffect]
    rfl
  · rw [World.after_db hids, heffect]
    rfl
  · rw [World.after_outside hids, heffect]
    rfl

section Tokens

variable {d : Db}

theorem Db.apply_revokeTokens_nil (now : Time) : Write.apply d (.revokeTokens [] now) = d := by
  have hsame : d.refreshTokens.map (fun t => if t.id ∈ ([] : List Uuid) ∧ t.revokedAt = none then
      { t with revokedAt := some now } else t) = d.refreshTokens := by
    simp
  rw [Write.apply, hsame]

/-- After `revoke_all_for_user` there is nothing to revoke for the user. -/
theorem Db.revocationOfAll_again (userId : Uuid) (now now' : Time) :
    (Write.apply d (d.revocationOfAll userId now)).revocationOfAll userId now' =
      .revokeTokens [] now' := by
  have hnone : ((Write.apply d (d.revocationOfAll userId now)).liveTokens userId).filter
      (Write.apply d (d.revocationOfAll userId now)).isLive = [] := by
    rw [List.filter_eq_nil_iff]
    intro id hid hlive
    rw [revocationOfAll, isLive_revokeTokens, Bool.and_eq_true, decide_eq_true_eq] at hlive
    obtain ⟨t, ht, rfl⟩ := List.mem_map.mp hid
    obtain ⟨hmem, hcond⟩ := List.mem_filter.mp ht
    obtain ⟨t₀, ht₀, rfl⟩ := List.mem_map.mp hmem
    -- a token that is still live was live before, and so it was revoked
    have hsame : (if t₀.id ∈ (d.liveTokens userId).filter d.isLive ∧ t₀.revokedAt = none then
        { t₀ with revokedAt := some now } else t₀).id = t₀.id := by
      split_ifs <;> rfl
    rw [hsame] at hlive
    rw [if_neg fun h => hlive.2 h.1] at hcond
    exact hlive.2 (List.mem_filter.mpr
      ⟨List.mem_map.mpr ⟨t₀, List.mem_filter.mpr ⟨ht₀, hcond⟩, rfl⟩, hlive.1⟩)
  rw [Db.revocationOfAll, hnone]

theorem Db.revocation_again (id : Uuid) (now now' : Time) :
    (store.view d (d.revocation id now)).revocation id now' = [] := by
  by_cases hlive : d.isLive id = true
  · rw [revocation_of_isLive now hlive, Engine.view_cons, Engine.view_nil, store_apply, revocation,
      isLive_revokeTokens]
    simp
  · have hnone : d.revocation id now = [] := if_neg hlive
    rw [hnone, Engine.view_nil, revocation, if_neg hlive]

/-- Revoking keeps which token a hash finds, and whose it is. -/
theorem Db.findByHash_revoked (ids : List Uuid) (now : Time) {hash : String} {t : RefreshToken}
    (h : d.findByHash hash = some t) :
    ∃ t', (Write.apply d (.revokeTokens ids now)).findByHash hash = some t' ∧ t'.id = t.id ∧
      t'.userId = t.userId := by
  rw [findByHash_revokeTokens, h]
  refine ⟨_, rfl, ?_, ?_⟩
  · dsimp only
    split_ifs <;> rfl
  · dsimp only
    split_ifs <;> rfl

end Tokens

/-- A second logout writes nothing. -/
theorem Logout.effect_again (q : Logout) (d : Db) (x x' : Outside) (now : Time) :
    store.view (store.view d (q.effect S d x).writes)
      (({ q with now := now } : Logout).effect S (store.view d (q.effect S d x).writes) x').writes =
        store.view d (q.effect S d x).writes := by
  cases hfound : d.findByHash (hashRefreshToken S q.refreshToken) with
  | none =>
    simp only [Engine.view_nil, effect, hfound]
  | some stored =>
    by_cases hall : q.allDevices = true
    · have hwrites : (q.effect S d x).writes = [d.revocationOfAll stored.userId q.now] := by
        simp only [effect, hfound, if_pos hall]
      obtain ⟨t, ht, -, huser⟩ := Db.findByHash_revoked
        ((d.liveTokens stored.userId).filter d.isLive) q.now hfound
      have hagain : (Write.apply d (d.revocationOfAll stored.userId q.now)).findByHash
          (hashRefreshToken S q.refreshToken) = some t := ht
      rw [hwrites]
      simp only [Engine.view_cons, Engine.view_nil, store_apply, effect, hagain, if_pos hall, huser,
        Db.revocationOfAll_again, Db.apply_revokeTokens_nil]
    · have hwrites : (q.effect S d x).writes = d.revocation stored.id q.now := by
        simp only [effect, hfound, if_neg hall]
      have hagain : ∃ t, (store.view d (d.revocation stored.id q.now)).findByHash
          (hashRefreshToken S q.refreshToken) = some t ∧ t.id = stored.id := by
        by_cases hlive : d.isLive stored.id = true
        · obtain ⟨t, ht, hid, -⟩ := Db.findByHash_revoked [stored.id] q.now hfound
          refine ⟨t, ?_, hid⟩
          rw [Db.revocation_of_isLive q.now hlive]
          exact ht
        · have hnone : d.revocation stored.id q.now = [] := if_neg hlive
          rw [hnone]
          exact ⟨stored, hfound, rfl⟩
      obtain ⟨t, ht, hid⟩ := hagain
      rw [hwrites]
      simp only [effect, ht, if_neg hall, hid, Db.revocation_again, Engine.view_nil]

theorem Logout.again (hids : (w.db.users.map User.id).Nodup) {q : Logout} (now : Time)
    (hids' : ((w.after S (.logout q)).db.users.map User.id).Nodup) :
    SameAgain S (w.after S (.logout q)) (w.answer S (.logout q)) (.logout { q with now := now }) := by
  have heffect : ∀ (q' : Logout) (w' : World), (w'.db.users.map User.id).Nodup →
      w'.answer S (.logout q') = .ok .noContent ∧
        (w'.after S (.logout q')).outside = w'.outside := by
    intro q' w' h
    obtain ⟨hanswer, houtside, -⟩ := q'.effect_cases S w'.db w'.outside
    exact ⟨(World.answer_eq h).trans hanswer, (World.after_outside h).trans houtside⟩
  refine ⟨?_, ?_, ?_⟩
  · rw [(heffect _ _ hids').1, (heffect _ _ hids).1]
  · rw [World.after_db hids', World.after_db hids]
    exact q.effect_again w.db w.outside _ now
  · rw [(heffect _ _ hids').2]

/-- **The second run** of a command that `Repeats` the first finds nothing to
change. -/
theorem changes_nothing_again {r' : Request} (hids : (w.db.users.map User.id).Nodup)
    (h : r.Repeats r') : SameAgain S (w.after S r) (w.answer S r) r' := by
  have hfresh : r.Fresh w.db := by
    cases r with
    | registerUser => cases r' <;> exact h.elim
    | _ => trivial
  have hids' := World.ids_after (S := S) hids hfresh
  have hrows : ∀ (id : Uuid), ∀ user ∈ w.db.findById id, user.id = id :=
    fun id user huser => (Db.mem_of_findById huser).2
  cases r with
  | updateProfile q =>
    cases r' with
    | updateProfile q' =>
      obtain ⟨now, rfl⟩ : ∃ now, q' = { q with now := now } := ⟨q'.now, h⟩
      refine .decided hids' rfl ?_
      rw [World.answer_eq hids, World.after_db hids]
      have hrow := Decision.findById_view (d := w.db) (UpdateProfile.regards (hrows q.userId))
      have hagain := @UpdateProfile.decision_again q (w.db.findById q.userId) now
      rw [← hrow] at hagain
      exact hagain
    | _ => exact h.elim
  | changeRole q =>
    cases r' with
    | changeRole q' =>
      obtain ⟨now, rfl⟩ : ∃ now, q' = { q with now := now } := ⟨q'.now, h⟩
      refine .decided hids' rfl ?_
      rw [World.answer_eq hids, World.after_db hids]
      have hrow := Decision.findById_view (d := w.db) (ChangeRole.regards (hrows q.userId))
      have hagain := @ChangeRole.decision_again q (w.db.findById q.userId) now
      rw [← hrow] at hagain
      exact hagain
    | _ => exact h.elim
  | logout q =>
    cases r' with
    | logout q' =>
      obtain ⟨now, rfl⟩ : ∃ now, q' = { q with now := now } := ⟨q'.now, h⟩
      exact Logout.again hids now hids'
    | _ => exact h.elim
  | _ => cases r' <;> exact h.elim

/-- **One event exactly when the published profile changed**, for every
command on an account; and a second run with the same arguments changes
nothing. -/
theorem event_iff_changed (hids : (w.db.users.map User.id).Nodup) :
    (∀ u, r.On S w.db u → OneEvent S w r u) ∧
      ∀ r', r.Repeats r' → SameAgain S (w.after S r) (w.answer S r) r' :=
  ⟨fun _ => oneEvent hids, fun _ => changes_nothing_again hids⟩

theorem event_iff_changed_driver :
    OneEvent plainEnv (served plainEnv driverRun) (.changeStatus ⟨7, "active", none, some 1, 6⟩) 7 ∧
    SameAgain plainEnv
      ((served plainEnv driverRun).after plainEnv (.updateProfile ⟨7, some "Awa", 6⟩))
      ((served plainEnv driverRun).answer plainEnv (.updateProfile ⟨7, some "Awa", 6⟩))
      (.updateProfile ⟨7, some "Awa", 7⟩) := by
  have hids : ((served plainEnv driverRun).db.users.map User.id).Nodup := by decide +kernel
  exact ⟨(event_iff_changed hids).1 7 rfl, (event_iff_changed hids).2 _ rfl⟩

/-! ### What `user.updated` tells -/

/-- The fields of a profile that differ. -/
def changedFields (before after : User) : List String :=
  (if before.fullName ≠ after.fullName then ["full_name"] else []) ++
    (if before.role ≠ after.role then ["role"] else []) ++
    (if before.status ≠ after.status then ["status"] else []) ++
    if before.requestedRole ≠ after.requestedRole then ["requested_role"] else []

/-- The payload has a list `changed_fields`, of exactly the fields of the
account that differ. -/
def TellsFields (payload : Payload) (before after : User) : Prop :=
  ∃ fields, payload.lookup "changed_fields" = some (.texts fields) ∧
    ∀ field, field ∈ fields ↔ field ∈ changedFields before after

variable (S) in
/-- Every `user.updated` that the command publishes tells the fields of the
account that changed. -/
def TellsChanges (w : World) (r : Request) : Prop :=
  ∀ es, (w.after S r).outside.stream = w.outside.stream ++ es → ∀ e ∈ es, e.name = "user.updated" →
    ∃ before after, w.db.findById e.userId = some before ∧
      (w.after S r).db.findById e.userId = some after ∧ TellsFields e.toPayload before after

/-- The request is not the reactivation of an account, nor the refusal of the
role that an account in `pending_kyc` asked for. -/
def Request.Listed (d : Db) : Request → Prop
  | changeStatus q => ∀ user, d.findById q.userId = some user →
      UserStatus.ofValue q.status = some .active → canTransition user.status .active = false
  | decideKyc q => ∀ user, d.findById q.userId = some user → user.requestedRole ≠ none →
      user.status = .pendingKyc → q.approved = true
  | _ => True

section Told

variable {user : User}

/-- A decision on a request: only a refusal is a `user.updated`, and it tells
everything unless it releases the account from `pending_kyc`. -/
theorem DecideKyc.tells {q : DecideKyc} {requested : UserRole} (hr : user.requestedRole = some requested) :
    ((q.event user (q.decided user requested)).name = "user.updated" →
      TellsFields (q.event user (q.decided user requested)).toPayload user
        (Write.assign (q.decided user requested) q.now user)) ↔
      (user.status = .pendingKyc → q.approved = true) := by
  by_cases happroved : q.approved = true
  · refine iff_of_true (fun hname => ?_) fun _ => happroved
    simp [event, happroved, DomainEvent.name] at hname
  · have hevent : q.event user (q.decided user requested) = .userUpdated user.id user.phone
        user.role q.now ["requested_role"] := by
      simp [event, decided, happroved]
    simp only [hevent, happroved]
    by_cases hpending : user.status = .pendingKyc
    · -- the status changes too
      have hfields : changedFields user (Write.assign (q.decided user requested) q.now user) =
          ["status", "requested_role"] := by
        simp [changedFields, Write.assign, decided, happroved, hpending, hr]
      refine iff_of_false (fun h => ?_) (by simpa using hpending)
      obtain ⟨fields, hlookup, hexact⟩ := h rfl
      have hlist : fields = ["requested_role"] := by
        have : some (PayloadValue.texts ["requested_role"]) = some (.texts fields) := hlookup
        simpa using this.symm
      have hmem := (hexact "status").mpr (by rw [hfields]; decide)
      rw [hlist] at hmem
      exact absurd hmem (by decide)
    · have hfields : changedFields user (Write.assign (q.decided user requested) q.now user) =
          ["requested_role"] := by
        simp [changedFields, Write.assign, decided, happroved, hpending, hr]
      refine iff_of_true (fun _ => ⟨["requested_role"], rfl, fun field => ?_⟩)
        fun h => absurd h hpending
      rw [hfields]

/-- A transition of an admin: to `active` it is a `user.updated` that tells no
fields. -/
theorem ChangeStatus.tells {target : UserStatus} {reason : Option String} {stamp : Time} {after : User}
    (hs : target ∈ adminSettableStatuses) :
    ((DomainEvent.userStatusChanged user.id user.phone user.role stamp user.status target
        reason).name = "user.updated" →
      TellsFields (DomainEvent.userStatusChanged user.id user.phone user.role stamp user.status target
        reason).toPayload user after) ↔ target ≠ .active := by
  have htarget : target = .active ∨ target = .suspended := by simpa [adminSettableStatuses] using hs
  rcases htarget with rfl | rfl
  · refine iff_of_false (fun h => ?_) (by simp)
    obtain ⟨fields, hlookup, -⟩ := h rfl
    cases hlookup
  · refine iff_of_true (fun hname => ?_) (by simp)
    simp [DomainEvent.name] at hname

end Told

/-- The event of an entry, where it is a `user.updated`, tells the changes
exactly if the request is `Listed`. -/
theorem Writes.tells {user : User} {o : Except Failure Response} {e : Entry} {d : Db}
    (h : Writes S user r o e) (hu : d.findById user.id = some user) :
    (∀ event ∈ e.events, event.name = "user.updated" →
      TellsFields event.toPayload user (Write.assign e.user e.now user)) ↔ r.Listed d := by
  cases h with
  | @rename q hq hn =>
    refine iff_of_true (fun event hevent _ => ?_) trivial
    obtain rfl := List.mem_singleton.mp hevent
    refine ⟨["full_name"], rfl, fun field => ?_⟩
    simp [changedFields, Write.assign, hn.2.symm]
  | @verify q hs =>
    refine iff_of_true (fun event hevent hname => ?_) trivial
    obtain rfl := List.mem_singleton.mp hevent
    simp [DomainEvent.name] at hname
  | @request q targetRole hq ht hk hr =>
    refine iff_of_true (fun event hevent _ => ?_) trivial
    obtain rfl := List.mem_singleton.mp hevent
    refine ⟨["requested_role"], rfl, fun field => ?_⟩
    simp [changedFields, Write.assign, hr]
  | @grant q targetRole hq ht hk hr =>
    refine iff_of_true (fun event hevent hname => ?_) trivial
    obtain rfl := List.mem_singleton.mp hevent
    simp [DomainEvent.name] at hname
  | @decide q requested hq hr =>
    have hlisted : (Request.decideKyc q).Listed d ↔ (user.status = .pendingKyc → q.approved = true) := by
      simp only [Request.Listed, hq, hu, Option.some.injEq, forall_eq', hr, ne_eq, reduceCtorEq,
        not_false_eq_true, forall_const]
    rw [hlisted]
    simp only [List.mem_singleton, forall_eq]
    exact DecideKyc.tells hr
  | @transit q target hq ht hs hc =>
    have hlisted : (Request.changeStatus q).Listed d ↔ target ≠ .active := by
      simp only [Request.Listed, hq, hu, Option.some.injEq, forall_eq', ht]
      refine ⟨fun h => ?_, fun h heq => absurd heq h⟩
      rintro rfl
      rw [h rfl] at hc
      cases hc
    rw [hlisted]
    simp only [List.mem_singleton, forall_eq]
    exact ChangeStatus.tells hs

/-- A request publishes nothing, or makes an entry. -/
theorem World.stream_cases (hids : (w.db.users.map User.id).Nodup) :
    (w.after S r).outside.stream = w.outside.stream ∨
    ∃ user e, w.db.findById user.id = some user ∧ Writes S user r (w.answer S r) e ∧
      (w.after S r).ledger = w.ledger.record e := by
  by_cases hregister : ∃ q, r = .registerUser q
  · obtain ⟨q, rfl⟩ := hregister
    left
    rw [World.after_outside hids]
    rcases q.effect_cases w.db w.outside with ⟨e, he⟩ | ⟨phone, -, -, he⟩
    · rw [Request.effect, he]
      rfl
    · rw [Request.effect, he]
  · have hfresh : r.Fresh w.db := by
      cases r with
      | registerUser q => exact absurd ⟨q, rfl⟩ hregister
      | _ => trivial
    rcases World.after_cases (S := S) hids hfresh with h | ⟨q, phone, hr, -⟩ | h
    · exact .inl (congrArg Ledger.stream h)
    · exact absurd ⟨q, hr⟩ hregister
    · exact .inr h

/-- A request that is not `Listed` publishes an event. -/
theorem Request.listed_of_silent (hids : (w.db.users.map User.id).Nodup)
    (h : (w.after S r).outside.stream = w.outside.stream) : r.Listed w.db := by
  rw [World.after_outside hids] at h
  cases r with
  | changeStatus q =>
    intro user hu ht
    by_contra hc
    rw [Bool.not_eq_false] at hc
    have hstream : ((Request.changeStatus q).effect S w.db w.outside).outside.stream =
        w.outside.stream ++ [.userStatusChanged user.id user.phone user.role q.now user.status .active
          q.reason] := by
      have hsettable : ¬ UserStatus.active ∉ adminSettableStatuses := by decide
      simp only [Request.effect, ChangeStatus.effect, ChangeStatus.decision, ht, if_neg hsettable, hu,
        hc, Bool.not_true, Bool.false_eq_true, if_false]
      rfl
    rw [hstream] at h
    simp at h
  | decideKyc q =>
    intro user hu hr _
    obtain ⟨requested, hr⟩ := Option.ne_none_iff_exists'.mp hr
    have hstream : ((Request.decideKyc q).effect S w.db w.outside).outside.stream =
        w.outside.stream ++ [q.event user (q.decided user requested)] := by
      simp only [Request.effect, DecideKyc.decision, hu, hr]
      rfl
    rw [hstream] at h
    simp at h
  | _ => trivial

/-- **What `user.updated` tells.** The payload has the exact list of the
fields that changed if and only if the request is neither a reactivation, nor
the refusal that releases an account from `pending_kyc`. -/
theorem updated_tells_iff (hids : (w.db.users.map User.id).Nodup) :
    TellsChanges S w r ↔ r.Listed w.db := by
  rcases World.stream_cases (S := S) (r := r) hids with h | ⟨user, e, hu, he, h⟩
  · refine iff_of_true (fun es hes event hevent _ => ?_) (Request.listed_of_silent hids h)
    rw [h] at hes
    have hnil : es = [] := by simpa using hes
    rw [hnil] at hevent
    cases hevent
  · have hstream : (w.after S r).outside.stream = w.outside.stream ++ e.events :=
      congrArg Ledger.stream h
    have hafter := World.row_after hu he h
    rw [← he.tells hu]
    constructor
    · intro htells event hevent hname
      obtain ⟨before, after, hbefore, hrow, hfields⟩ := htells e.events hstream event hevent hname
      rw [he.about.2.2.2 event hevent] at hbefore hrow
      rw [hu] at hbefore
      rw [hafter] at hrow
      obtain rfl := Option.some.inj hbefore
      obtain rfl := Option.some.inj hrow
      exact hfields
    · intro htells es hes event hevent hname
      obtain rfl : e.events = es := List.append_cancel_left (hstream.symm.trans hes)
      rw [he.about.2.2.2 event hevent]
      exact ⟨user, _, hu, hafter, htells event hevent hname⟩

theorem updated_tells_name :
    TellsChanges plainEnv (served plainEnv driverRun) (.updateProfile ⟨7, some "Awa", 6⟩) :=
  (updated_tells_iff (by decide +kernel)).mpr trivial

/-- **A reactivation** is published as `user.updated` without
`changed_fields`. -/
theorem reactivation_untold :
    ∃ event : DomainEvent, Legal plainEnv Anything driverRun ∧
      ((served plainEnv driverRun).after plainEnv
        (.changeStatus ⟨7, "active", none, some 1, 6⟩)).outside.stream =
          (served plainEnv driverRun).outside.stream ++ [event] ∧
      event = .userStatusChanged 7 "+22507000001" .driver 6 .suspended .active none ∧
      event.name = "user.updated" ∧ event.toPayload.lookup "changed_fields" = none ∧
      ¬ TellsChanges plainEnv (served plainEnv driverRun)
        (.changeStatus ⟨7, "active", none, some 1, 6⟩) := by
  have hstream : ((served plainEnv driverRun).after plainEnv
      (.changeStatus ⟨7, "active", none, some 1, 6⟩)).outside.stream =
        (served plainEnv driverRun).outside.stream ++
          [.userStatusChanged 7 "+22507000001" .driver 6 .suspended .active none] := by
    decide +kernel
  refine ⟨_, driverRun_legal, hstream, rfl, rfl, rfl, fun htells => ?_⟩
  obtain ⟨before, after, -, -, fields, hlookup, -⟩ := htells _ hstream _ List.mem_cons_self rfl
  cases hlookup

end DiddiFreeID
