/-
# Registration events

`user.registered` is published by the first verification alone, the one
place where an account is meant to become usable. `ChangeStatus` goes by
the same table of transitions and also takes a never verified account to
`active` (`active_without_verification`). Where it does not, an account that
is or was usable has been verified and announced once, and any other
account never (`registered_once`).

Key definitions: `Account.NeverVerified`, `NoActivationUnverified`, `Usable`, `Verified`.
Key theorems: `Registration.step`, `registered_once`.
-/
import DiddiFreeID.StatusTrail

namespace DiddiFreeID

/-- The account has not left `pending_verification`, or left it for
`suspended`. -/
def Account.NeverVerified (a : Account) : Prop :=
  a.user.status = .pendingVerification ∨
    ∃ c ∈ a.statusRows, c.fromStatus = some .pendingVerification ∧ c.toStatus = .suspended

instance (a : Account) : Decidable a.NeverVerified := by
  unfold Account.NeverVerified; infer_instance

/-- The request is no `ChangeStatus` to `active` of a never verified account. -/
def NoActivationUnverified (w : World) : Request → Prop
  | .changeStatus q => UserStatus.ofValue q.status = some .active →
      ∀ a ∈ w.account q.userId, ¬a.NeverVerified
  | _ => True

instance (w : World) : (r : Request) → Decidable (NoActivationUnverified w r)
  | .changeStatus q => inferInstanceAs (Decidable (UserStatus.ofValue q.status = some .active →
      ∀ a ∈ w.account q.userId, ¬a.NeverVerified))
  | .registerUser _ | .requestOtp _ | .verifyOtp _ | .refreshAccessToken _ | .logout _
  | .updateProfile _ | .changeRole _ | .decideKyc _ => .isTrue trivial

variable (S : Env) (u : Uuid)

/-- The account is or was `active` or `pending_kyc`. -/
def Usable (rs : List Request) : Prop :=
  ∃ before a, before <+: rs ∧ (served S before).account u = some a ∧
    a.user.status ∈ sessionAllowedStatuses

/-- A `VerifyOtp` has opened a session of the account. -/
def Verified (rs : List Request) : Prop :=
  ∃ before q later token refresh profile, rs = before ++ .verifyOtp q :: later ∧
    (served S before).answer S (.verifyOtp q) = .ok (.authenticated token refresh profile) ∧
    profile.id = u

variable {S u} {rs : List Request} {r : Request} {a a' : Account}

theorem Usable.snoc (h : Usable S u rs) : Usable S u (rs ++ [r]) := by
  obtain ⟨before, a, hp, ha, hs⟩ := h
  exact ⟨before, a, hp.trans (List.prefix_append rs [r]), ha, hs⟩

theorem Verified.snoc (h : Verified S u rs) : Verified S u (rs ++ [r]) := by
  obtain ⟨before, q, later, token, refresh, profile, rfl, h⟩ := h
  exact ⟨before, q, later ++ [r], token, refresh, profile, by simp, h⟩

/-- What a run has to say about an account: never verified and never
announced, or verified and announced once. -/
inductive Registration (S : Env) (u : Uuid) (rs : List Request) (a : Account) : Prop
  | unverified : a.NeverVerified →
      a.user.status = .pendingVerification ∨ a.user.status = .suspended →
      announced u a.events = 0 → ¬Usable S u rs → Registration S u rs a
  | verified : ¬a.NeverVerified → announced u a.events = 1 → Verified S u rs → Usable S u rs →
      Registration S u rs a

/-- An account in `pending_verification` has no status row. -/
theorem StatusTrail.rows_nil {rows : List UserStatusChange}
    (h : StatusTrail rows .pendingVerification) : rows = [] := by
  cases hr : rows.getLast? with
  | none => exact List.getLast?_eq_none_iff.mp hr
  | some c =>
    have hc : c.toStatus = .pendingVerification := by simpa [hr] using h.last
    obtain ⟨source, -, ht, -⟩ := h.allowed c (List.mem_of_getLast? hr)
    rw [hc, canTransition_pendingVerification] at ht
    cases ht

theorem not_usable_snoc (h : ¬Usable S u rs) (ha : (served S (rs ++ [r])).account u = some a')
    (hs : a'.user.status ∉ sessionAllowedStatuses) : ¬Usable S u (rs ++ [r]) := by
  rintro ⟨before, b, hp, hb, hbs⟩
  rcases List.prefix_concat_iff.mp hp with rfl | hp
  · rw [ha] at hb
    cases hb
    exact hs hbs
  · exact h ⟨before, b, hp, hb, hbs⟩

namespace Registration

/-- A request that announces nobody and leaves the status and its rows. -/
theorem keep (h : Registration S u rs a) (ha : (served S (rs ++ [r])).account u = some a')
    (hst : a'.user.status = a.user.status) (hrows : a'.statusRows = a.statusRows)
    (hev : announced u a'.events = announced u a.events) : Registration S u (rs ++ [r]) a' := by
  have hnv : a'.NeverVerified ↔ a.NeverVerified := by
    unfold Account.NeverVerified
    rw [hst, hrows]
  cases h with
  | unverified h1 h2 h3 h4 =>
    refine .unverified (hnv.mpr h1) (hst ▸ h2) (hev.trans h3) (not_usable_snoc h4 ha ?_)
    rw [hst]
    rcases h2 with h2 | h2 <;> rw [h2] <;> decide
  | verified h1 h2 h3 h4 =>
    exact .verified (fun h => h1 (hnv.mp h)) (hev.trans h2) h3.snoc h4.snoc

/-- A status change out of another status than `pending_verification`, to
`active` or `suspended`. -/
theorem move {c : UserStatusChange} (h : Registration S u rs a)
    (hv : ¬a.NeverVerified ∨ c.toStatus = .suspended) (hpv : a.user.status ≠ .pendingVerification)
    (ha : (served S (rs ++ [r])).account u = some a') (hrows : a'.statusRows = a.statusRows ++ [c])
    (hc : c.fromStatus = some a.user.status) (ht : c.toStatus = a'.user.status)
    (hst : a'.user.status ≠ .pendingVerification)
    (hev : announced u a'.events = announced u a.events) : Registration S u (rs ++ [r]) a' := by
  have hnv : a'.NeverVerified ↔ a.NeverVerified := by
    unfold Account.NeverVerified
    rw [hrows]
    simp [hst, hpv, hc]
  cases h with
  | unverified h1 h2 h3 h4 =>
    have hs : a'.user.status = .suspended := by
      rcases hv with hv | hv
      · exact absurd h1 hv
      · rw [← ht, hv]
    refine .unverified (hnv.mpr h1) (.inr hs) (hev.trans h3) (not_usable_snoc h4 ha ?_)
    rw [hs]
    decide
  | verified h1 h2 h3 h4 =>
    exact .verified (fun h => h1 (hnv.mp h)) (hev.trans h2) h3.snoc h4.snoc

/-- The first verification. -/
theorem first (h : Registration S u rs a) (hid : a.user.id = u)
    (hv : a.user.status = .pendingVerification) (htrail : StatusTrail a.statusRows a.user.status)
    {q : VerifyOtp} (hans : (served S rs).answer S (.verifyOtp q) =
      .ok (q.answer S (VerifyOtp.activated a.user)))
    (ha : (served S (rs ++ [.verifyOtp q])).account u = some a')
    (hst : a'.user.status = (VerifyOtp.activated a.user).status)
    (hrows : a'.statusRows = a.statusRows ++ [q.activationRow (VerifyOtp.activated a.user)])
    (hev : a'.events = a.events ++ [.userRegistered a.user.id a.user.phone a.user.role q.now]) :
    Registration S u (rs ++ [.verifyOtp q]) a' := by
  rw [hv] at htrail
  rw [htrail.rows_nil] at hrows
  have hopen : (VerifyOtp.activated a.user).status = .active ∨
      (VerifyOtp.activated a.user).status = .pendingKyc := by
    simp only [VerifyOtp.activated]
    split_ifs <;> simp
  have h0 : announced u a.events = 0 := by
    cases h with
    | unverified h1 h2 h3 h4 => exact h3
    | verified h1 h2 h3 h4 => exact absurd (.inl hv) h1
  refine .verified (fun hn => ?_) ?_ ⟨rs, q, [], _, _, _, rfl, hans, hid⟩
    ⟨rs ++ [.verifyOtp q], _, List.prefix_rfl, ha, ?_⟩
  · rcases hn with hn | ⟨c, hc, -, hc'⟩
    · rw [hst] at hn
      rcases hopen with hst | hst <;> rw [hst] at hn <;> cases hn
    · obtain rfl : c = _ := by simpa [hrows] using hc
      rcases hopen with hst | hst <;> rw [VerifyOtp.activationRow, hst] at hc' <;> cases hc'
  · simp only [announced, hev, List.countP_append, List.countP_singleton] at h0 ⊢
    rw [h0]
    simp [DomainEvent.registers, DomainEvent.name, DomainEvent.userId, hid]
  · rw [hst]
    rcases hopen with hst | hst <;> rw [hst] <;> decide

/-- A `ChangeStatus`, which does not activate a never verified account. -/
theorem set (h : Registration S u rs a) {c : UserStatusChange}
    (htarget : a'.user.status = .active ∨ a'.user.status = .suspended)
    (hv : a'.user.status = .active → ¬a.NeverVerified)
    (ha : (served S (rs ++ [r])).account u = some a') (hrows : a'.statusRows = a.statusRows ++ [c])
    (hc : c.fromStatus = some a.user.status) (ht : c.toStatus = a'.user.status)
    (hev : announced u a'.events = announced u a.events) : Registration S u (rs ++ [r]) a' := by
  by_cases hpv : a.user.status = .pendingVerification
  · -- never verified: the account is suspended, and remains so
    have hnv : a.NeverVerified := .inl hpv
    have hs : a'.user.status = .suspended := htarget.resolve_left fun hactive => hv hactive hnv
    cases h with
    | verified h1 h2 h3 h4 => exact absurd hnv h1
    | unverified h1 h2 h3 h4 =>
      refine .unverified (.inr ⟨c, ?_, hc.trans (congrArg _ hpv), ht.trans hs⟩) (.inr hs)
        (hev.trans h3) (not_usable_snoc h4 ha (by rw [hs]; decide))
      rw [hrows]
      exact List.mem_append_right _ (List.mem_singleton_self c)
  · refine h.move (htarget.imp hv ht.trans) hpv ha hrows hc ht ?_ hev
    rcases htarget with h | h <;> rw [h] <;> decide

end Registration

/-- **Step.** The first verification announces the account; nothing else
does, or makes it usable. -/
theorem Registration.step (hb : (served S rs).account u = some a)
    (ha : (served S (rs ++ [r])).account u = some a') (hok : NoActivationUnverified (served S rs) r)
    (htrail : StatusTrail a.statusRows a.user.status) (h : Registration S u rs a)
    (hs : a.Step S r ((served S rs).answer S r) a') : Registration S u (rs ++ [r]) a' := by
  cases hs with
  | idle => exact h.keep ha rfl rfl rfl
  | @entry e he =>
    generalize ho : (served S rs).answer S r = o at he
    cases he with
    | rename => exact h.keep ha rfl (by simp) (announced_snoc (by simp [DomainEvent.name]))
    | request => exact h.keep ha rfl (by simp) (announced_snoc (by simp [DomainEvent.name]))
    | grant => exact h.keep ha rfl (by simp) (announced_snoc (by simp [DomainEvent.name]))
    | @verify q hv =>
      exact h.first (World.account_id hb) hv htrail ho ha rfl rfl rfl
    | @decide q requested hq hreq =>
      have hname : (q.event a.user (q.decided a.user requested)).name ≠ "user.registered" := by
        unfold DecideKyc.event
        split_ifs <;> simp [DomainEvent.name]
      have hev := announced_snoc (u := u) (l := a.events) hname
      by_cases hp : a.user.status = .pendingKyc
      · have hd : (q.decided a.user requested).status = .active := by simp [DecideKyc.decided, hp]
        have hnv : ¬a.NeverVerified := by
          cases h with
          | unverified h1 h2 h3 h4 => rw [hp] at h2; rcases h2 with h2 | h2 <;> cases h2
          | verified h1 h2 h3 h4 => exact h1
        refine h.move (c := q.releaseRow a.user .active) (.inl hnv) (by rw [hp]; decide) ha
          ?_ rfl ?_ ?_ hev
        · rw [Account.record_statusRows, hd, if_pos (by rw [hp]; decide)]
        · rw [Account.record_status, hd]
          rfl
        · rw [Account.record_status, hd]
          decide
      · have hd : (q.decided a.user requested).status = a.user.status := by
          simp [DecideKyc.decided, hp]
        exact h.keep ha hd (by simp [hd]) hev
    | @transit q target hq ht hs hc =>
      have hname : (DomainEvent.userStatusChanged a.user.id a.user.phone a.user.role q.now
          a.user.status target q.reason).name ≠ "user.registered" := by
        show (if target ≠ .suspended then "user.updated" else "user.suspended") ≠ _
        split_ifs <;> decide
      have htarget : target = .active ∨ target = .suspended := by
        simpa [adminSettableStatuses] using hs
      refine h.set (c := q.transitionRow a.user target) htarget (fun hactive => ?_) ha rfl rfl rfl
        (announced_snoc hname)
      obtain rfl : target = .active := hactive
      exact hok ht a (by rw [hq, World.account_id hb]; exact hb)

theorem not_usable_of_new {ok : World → Request → Prop} (h : Legal S ok rs)
    (hn : (served S rs).account u = none) : ¬Usable S u rs := by
  rintro ⟨before, a, ⟨later, rfl⟩, ha, -⟩
  obtain ⟨b, hb, -⟩ := status_closed (P := fun _ => True) (fun _ _ _ _ => trivial) h ha trivial
  rw [hn] at hb
  cases hb

theorem Legal.registration (h : Legal S NoActivationUnverified rs)
    (ha : (served S rs).account u = some a) : Registration S u rs a := by
  refine h.account_induction (P := fun rs a => Registration S u rs a)
    (fun rs q phone hl hn hb => ?_)
    (fun rs r a a' hl hok hb ha ih hs => ih.step hb ha hok (hl.statusTrail hb) hs) ha
  exact .unverified (.inl rfl) (.inl rfl) rfl
    (not_usable_snoc (not_usable_of_new hl hn) hb (show UserStatus.pendingVerification ∉ sessionAllowedStatuses by decide))

/-- The events of the stream about an account are its own. -/
theorem announced_account {w : World} (ha : w.account u = some a) :
    announced u w.outside.stream = announced u a.events := by
  obtain ⟨row, -, rfl⟩ := Option.map_eq_some_iff.mp ha
  simp only [announced, World.ledger, Ledger.of, List.countP_filter]
  refine List.countP_congr fun e _ => ?_
  simp [DomainEvent.registers]

/-- **Registered once.** In every run without a `ChangeStatus` that makes a
never verified account `active`: an account that is or was `active` or
`pending_kyc` has had a successful `VerifyOtp` and exactly one
`user.registered` in the stream, and any other account has had none. -/
theorem registered_once (h : Legal S NoActivationUnverified rs)
    (ha : (served S rs).account u = some a) :
    (Usable S u rs → Verified S u rs ∧ announced u (served S rs).outside.stream = 1) ∧
    (¬Usable S u rs → announced u (served S rs).outside.stream = 0) := by
  rw [announced_account ha]
  cases h.registration ha with
  | unverified h1 h2 h3 h4 => exact ⟨fun hu => absurd hu h4, fun _ => h3⟩
  | verified h1 h2 h3 h4 => exact ⟨fun _ => ⟨h3, h2⟩, fun hu => absurd h4 hu⟩

theorem registered_once_driver : Verified plainEnv 7 driverRun ∧
    announced 7 (served plainEnv driverRun).outside.stream = 1 := by
  have hl : Legal plainEnv NoActivationUnverified driverRun := legal_of_forall (by decide +kernel)
  have ha : ((served plainEnv driverRun).account 7).isSome := by decide +kernel
  have hb : ((served plainEnv (driverRun.take 5)).account 7).any
      fun a => a.user.status ∈ sessionAllowedStatuses := by
    decide +kernel
  obtain ⟨hs, hst⟩ := (Option.any_eq_true_iff_get _ _).mp hb
  exact (registered_once hl (Option.some_get ha).symm).1
    ⟨driverRun.take 5, _, List.take_prefix 5 driverRun, (Option.some_get hs).symm,
      of_decide_eq_true hst⟩

/-- **Active unverified.** An admin activates a new account: it is `active`
with no `VerifyOtp` in the run and no event, and logging in later announces
nothing either. -/
theorem active_without_verification :
    let rs : List Request := [.registerUser ⟨"+22507000001", none, 0, 7⟩,
      .changeStatus ⟨7, "active", none, some 1, 1⟩]
    let login : List Request := [.requestOtp ⟨"+22507000001", none, 2, 8, 123456⟩,
      .verifyOtp ⟨"+22507000001", "123456", none, 3, 9, "r"⟩]
    Legal plainEnv Anything (rs ++ login) ∧ Usable plainEnv 7 rs ∧ ¬Verified plainEnv 7 rs ∧
    announced 7 (served plainEnv rs).outside.stream = 0 ∧
    Verified plainEnv 7 (rs ++ login) ∧
    announced 7 (served plainEnv (rs ++ login)).outside.stream = 0 := by
  intro rs login
  have hb : ((served plainEnv rs).account 7).any
      fun a => a.user.status ∈ sessionAllowedStatuses := by
    decide +kernel
  obtain ⟨hs, hst⟩ := (Option.any_eq_true_iff_get _ _).mp hb
  refine ⟨legal_of_forall (by decide +kernel),
    ⟨rs, _, List.prefix_rfl, (Option.some_get hs).symm, of_decide_eq_true hst⟩, ?_,
    by decide +kernel, ?_, by decide +kernel⟩
  · rintro ⟨before, q, later, token, refresh, profile, hrs, -⟩
    have hq : Request.verifyOtp q ∈ rs := by rw [hrs]; simp
    simp [rs] at hq
  · exact ⟨rs ++ [.requestOtp ⟨"+22507000001", none, 2, 8, 123456⟩], _, [],
      issueAccessToken plainEnv 7 "user" "active" 3, "r",
      ⟨7, "+22507000001", none, .user, .active, none⟩, rfl, by decide +kernel, rfl⟩

end DiddiFreeID
