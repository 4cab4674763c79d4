/-
# The KYC queue

An account is parked in `pending_kyc` for the sake of its pending request:
the list of pending requests shows it and `DecideKyc` releases it. A direct
grant of another role to a parked account clears the request and leaves the
status, and then neither reaches the account (`pending_kyc_dead_end`).
Without such a grant no account is lost (`pending_kyc_reachable`).

Key definition: `NoGrantWhileParked`.
Key theorems: `parked_step`, `pending_kyc_reachable`.
-/
import DiddiFreeID.KycGate
import DiddiFreeID.ListUsers

namespace DiddiFreeID

/-- The request is no direct grant of another role to a parked account. -/
def NoGrantWhileParked (w : World) : Request → Prop
  | .changeRole q => ∀ user ∈ w.db.findById q.userId, ∀ target ∈ UserRole.ofValue q.role,
      user.status = .pendingKyc → user.needsKycFor target = true ∨ user.role = target
  | _ => True

instance (w : World) : (r : Request) → Decidable (NoGrantWhileParked w r)
  | .changeRole q => inferInstanceAs (Decidable (∀ user ∈ w.db.findById q.userId,
      ∀ target ∈ UserRole.ofValue q.role, user.status = .pendingKyc →
        user.needsKycFor target = true ∨ user.role = target))
  | .registerUser _ | .requestOtp _ | .verifyOtp _ | .refreshAccessToken _ | .logout _
  | .updateProfile _ | .decideKyc _ | .changeStatus _ => .isTrue trivial

variable {S : Env} {rs : List Request} {u : Uuid}

/-- **Step.** A parked account keeps a request until it is released. -/
theorem parked_step {w : World} {r : Request} {o : Except Failure Response} {a a' : Account}
    (ha : w.account u = some a) (hok : NoGrantWhileParked w r) (hs : a.Step S r o a')
    (h : a.user.status = .pendingKyc → a.user.requestedRole.isSome) :
    a'.user.status = .pendingKyc → a'.user.requestedRole.isSome := by
  cases hs with
  | idle => exact h
  | entry he =>
    cases he with
    | rename => exact h
    | verify hv =>
      intro hst
      simp only [Account.record_status, VerifyOtp.activated] at hst
      split_ifs at hst with hreq
      exact hreq
    | request => exact fun _ => rfl
    | @grant q target hq ht hk hne =>
      intro hst
      have hu : w.db.findById q.userId = some a.user := by
        rw [hq, World.account_id ha]
        exact World.findById_of_account ha
      rcases hok a.user hu target ht hst with hk' | hr
      · rw [hk] at hk'
        cases hk'
      · exact absurd hr hne
    | @decide q requested hq hreq =>
      intro hst
      simp only [Account.record_status, DecideKyc.decided] at hst
      split_ifs at hst with hp
      exact absurd hst hp
    | @transit q target hq ht hs hc =>
      intro hst
      obtain rfl : target = .pendingKyc := hst
      exact absurd hs (by decide)

theorem Legal.parked (h : Legal S NoGrantWhileParked rs) {a : Account}
    (ha : (served S rs).account u = some a) :
    a.user.status = .pendingKyc → a.user.requestedRole.isSome :=
  h.account_induction (P := fun _ a => a.user.status = .pendingKyc → a.user.requestedRole.isSome)
    (fun _ _ _ _ _ _ hst => by cases hst)
    (fun _ _ _ _ _ hok hb _ ih hs => parked_step hb hok hs ih) ha

/-- An account with a pending request is on a page of the pending requests,
whatever the page size. -/
theorem listed_of_request {d : Db} (hlength : d.users.length ≤ maxBigint + 1) {user : User}
    (hu : user ∈ d.users) (hr : user.requestedRole.isSome) (pageSize : ℤ) :
    ∃ page result, 1 ≤ page ∧
      ListUsers.call d { pendingKyc := true, page := page, pageSize := pageSize } = .ok result ∧
      profilePayload user ∈ result.data := by
  obtain ⟨page, rows, hp, hrows, hm⟩ := ListUsers.mem_page (d := d) (u := user)
    (q := { pendingKyc := true, pageSize := pageSize }) hlength hu (by simp [ListUsers.keeps, hr])
  have hcall := ListUsers.call_of_valid (d := d)
    (q := { pendingKyc := true, page := page, pageSize := pageSize }) (by simp [ListUsers.Valid])
  rw [hrows] at hcall
  exact ⟨page, _, hp, hcall, List.mem_map_of_mem (f := profilePayload) hm⟩

/-- `DecideKyc` answers that nothing is pending only where nothing is. -/
theorem decideKyc_answer {w : World} {q : DecideKyc} {user : User}
    (hu : w.db.findById q.userId = some user) (hr : user.requestedRole.isSome) :
    w.answer S (.decideKyc q) ≠ .error (.api noKycPending) := by
  intro ho
  rcases q.run_call S w.db w.outside with ⟨-, ⟨hn, -⟩ | ⟨user', hu', hn, -⟩⟩ | ⟨_, e, -, he, -⟩
  · rw [hu] at hn
    cases hn
  · rw [hu] at hu'
    cases hu'
    rw [hn] at hr
    cases hr
  · have ho' : (store.run q.call [] w.db w.outside).1 = .error (.api noKycPending) := ho
    rw [ho'] at he
    cases he

/-- **The KYC queue.** In every run without a direct grant to a parked
account, every account in `pending_kyc` has a pending request, is on a page
of the list of pending requests (an `OFFSET` reaches every row of the table),
and `DecideKyc` does not answer it that nothing is pending. -/
theorem pending_kyc_reachable (h : Legal S NoGrantWhileParked rs) {a : Account}
    (ha : (served S rs).account u = some a) (hst : a.user.status = .pendingKyc) :
    a.user.requestedRole ≠ none ∧
    ((served S rs).db.users.length ≤ maxBigint + 1 → ∀ pageSize, ∃ page result, 1 ≤ page ∧
      ListUsers.call (served S rs).db
        { pendingKyc := true, page := page, pageSize := pageSize } = .ok result ∧
      profilePayload a.user ∈ result.data) ∧
    ∀ q : DecideKyc, q.userId = u →
      (served S rs).answer S (.decideKyc q) ≠ .error (.api noKycPending) := by
  have hr := h.parked ha hst
  have hu := World.findById_of_account ha
  refine ⟨fun hn => ?_, fun hlength => listed_of_request hlength (Db.mem_of_findById hu).1 hr,
    fun q hq => ?_⟩
  · rw [hn] at hr
    cases hr
  · exact decideKyc_answer (by rw [hq]; exact hu) hr

/-- A driver's request is on file, the account is parked, the request stands. -/
theorem pending_kyc_reachable_driver :
    ∃ a, (served plainEnv (driverRun.take 4)).account 7 = some a ∧
      a.user.status = .pendingKyc ∧ a.user.requestedRole ≠ none := by
  have hl : Legal plainEnv NoGrantWhileParked (driverRun.take 4) :=
    legal_of_forall (by decide +kernel)
  have ha : ((served plainEnv (driverRun.take 4)).account 7).any
      fun a => a.user.status = .pendingKyc := by
    decide +kernel
  obtain ⟨hs, hst⟩ := (Option.any_eq_true_iff_get _ _).mp ha
  exact ⟨_, (Option.some_get hs).symm, of_decide_eq_true hst,
    (pending_kyc_reachable hl (Option.some_get hs).symm (of_decide_eq_true hst)).1⟩

/-- **Dead end.** A parked account is granted another role: it stays in
`pending_kyc` without a request, no page of the pending requests shows it,
and `DecideKyc` answers 409. -/
theorem pending_kyc_dead_end :
    let rs := driverRun.take 4 ++ [.changeRole ⟨7, "admin", none, some 1, 4⟩]
    Legal plainEnv Anything rs ∧
    ∃ a, (served plainEnv rs).account 7 = some a ∧
      a.user.status = .pendingKyc ∧ a.user.requestedRole = none ∧
      (∀ page pageSize result, ListUsers.call (served plainEnv rs).db
        { pendingKyc := true, page := page, pageSize := pageSize } = .ok result →
          result = { data := [], pagination := ⟨page, pageSize, 0, 0⟩ }) ∧
      (served plainEnv rs).answer plainEnv (.decideKyc ⟨7, true, none, some 1, 5⟩) =
        .error (.api noKycPending) := by
  intro rs
  have hl : Legal plainEnv Anything rs := legal_of_forall (by decide +kernel)
  have ha : ((served plainEnv rs).account 7).any
      fun a => a.user.status = .pendingKyc ∧ a.user.requestedRole = none := by
    decide +kernel
  have hrows : (served plainEnv rs).db.users.filter (fun u => u.requestedRole.isSome) = [] := by
    decide +kernel
  obtain ⟨hs, hst⟩ := (Option.any_eq_true_iff_get _ _).mp ha
  refine ⟨hl, _, (Option.some_get hs).symm, (of_decide_eq_true hst).1, (of_decide_eq_true hst).2,
    fun page pageSize result hcall => ?_, by decide +kernel⟩
  have hk : (served plainEnv rs).db.users.filter
      (ListUsers.keeps { pendingKyc := true, page := page, pageSize := pageSize }) = [] := by
    simpa [ListUsers.keeps] using hrows
  rw [ListUsers.call_of_valid (by simp [ListUsers.Valid])] at hcall
  cases hlist : (served plainEnv rs).db.listUsers
      { pendingKyc := true, page := page, pageSize := pageSize } with
  | none =>
    rw [hlist] at hcall
    cases hcall
  | some listed =>
    have hempty : listed = ([], 0) := by
      simp only [Db.listUsers, hk, Option.ite_none_right_eq_some, Option.some.injEq] at hlist
      simpa using hlist.2.symm
    subst hempty
    rw [hlist] at hcall
    simpa using (Except.ok.inj hcall).symm

end DiddiFreeID
