/-
# The KYC gate

The roles `driver` and `merchant` are requested with `ChangeRole` and
granted by `DecideKyc`. In every run a pending request is for such a role,
other than the one held, and an account that holds one was given it by an
approval of a request made since its role last changed (`kyc_gate`).

Key definitions: `Held`, `Asked`, `Granted`.
Key theorems: `KycGate.step`, `kyc_gate`.
-/
import DiddiFreeID.StatusTrail

namespace DiddiFreeID

variable (S : Env) (u : Uuid)

/-- From the requests `before` to the end of `later`, account `u` meets `P`. -/
def Held (P : User → Prop) (before later : List Request) : Prop :=
  ∀ l, l <+: later → ∃ a, (served S (before ++ l)).account u = some a ∧ P a.user

/-- A `ChangeRole` asked for `role`, and since then the account has kept its
role `held` and the request. -/
def Asked (rs : List Request) (held role : UserRole) : Prop :=
  ∃ before q later, rs = before ++ .changeRole q :: later ∧ q.userId = u ∧
    UserRole.ofValue q.role = some role ∧
    (∃ a, (served S before).account u = some a ∧ a.user.role = held ∧
      a.user.requestedRole ≠ some role) ∧
    Held S u (fun user => user.role = held ∧ user.requestedRole = some role)
      (before ++ [.changeRole q]) later

/-- An approving `DecideKyc` found the account with another role and a
request for `role`, asked for while it had that other role, and since then
the account has had `role`. -/
def Granted (rs : List Request) (role : UserRole) : Prop :=
  ∃ before q later held, rs = before ++ .decideKyc q :: later ∧ q.userId = u ∧
    q.approved = true ∧ held ≠ role ∧ Asked S u before held role ∧
    Held S u (fun user => user.role = role) (before ++ [.decideKyc q]) later

variable {S u} {P : User → Prop} {before later rs : List Request} {r : Request}

theorem Held.nil {a : Account} (ha : (served S before).account u = some a) (hP : P a.user) :
    Held S u P before [] := by
  intro l hl
  obtain rfl := List.prefix_nil.mp hl
  exact ⟨a, by simpa using ha, hP⟩

theorem Held.snoc (h : Held S u P before later) {a : Account}
    (ha : (served S (before ++ (later ++ [r]))).account u = some a) (hP : P a.user) :
    Held S u P before (later ++ [r]) := by
  intro l hl
  rcases List.prefix_concat_iff.mp hl with rfl | hl
  · exact ⟨a, ha, hP⟩
  · exact h l hl

theorem Asked.snoc {held role : UserRole} (h : Asked S u rs held role) {a : Account}
    (ha : (served S (rs ++ [r])).account u = some a) (hr : a.user.role = held)
    (hq : a.user.requestedRole = some role) : Asked S u (rs ++ [r]) held role := by
  obtain ⟨before, q, later, rfl, hu, ht, hb, hh⟩ := h
  refine ⟨before, q, later ++ [r], by simp, hu, ht, hb, hh.snoc ?_ ⟨hr, hq⟩⟩
  simpa using ha

theorem Granted.snoc {role : UserRole} (h : Granted S u rs role) {a : Account}
    (ha : (served S (rs ++ [r])).account u = some a) (hr : a.user.role = role) :
    Granted S u (rs ++ [r]) role := by
  obtain ⟨before, q, later, held, rfl, hu, happ, hne, hask, hh⟩ := h
  refine ⟨before, q, later ++ [r], held, by simp, hu, happ, hne, hask, hh.snoc ?_ hr⟩
  simpa using ha

/-- What a run has to say about the role and the request of an account. -/
structure KycGate (S : Env) (u : Uuid) (rs : List Request) (a : Account) : Prop where
  request : ∀ role, a.user.requestedRole = some role →
    role ∈ kycRequiredRoles ∧ role ≠ a.user.role
  asked : ∀ role, a.user.requestedRole = some role → Asked S u rs a.user.role role
  granted : a.user.role ∈ kycRequiredRoles → Granted S u rs a.user.role

namespace KycGate

variable {a a' : Account}

/-- A request that leaves role and request alone. -/
theorem keep (h : KycGate S u rs a) (ha : (served S (rs ++ [r])).account u = some a')
    (hr : a'.user.role = a.user.role) (hq : a'.user.requestedRole = a.user.requestedRole) :
    KycGate S u (rs ++ [r]) a' := by
  refine ⟨fun role hrole => ?_, fun role hrole => ?_, fun hk => ?_⟩
  · rw [hr]
    exact h.request role (hq ▸ hrole)
  · rw [hr]
    exact (h.asked role (hq ▸ hrole)).snoc ha hr hrole
  · rw [hr] at hk ⊢
    exact (h.granted hk).snoc ha hr

/-- **Step.** Requesting and approving are the only ways through the gate. -/
theorem step (hid : a.user.id = u) (hb : (served S rs).account u = some a)
    (ha : (served S (rs ++ [r])).account u = some a') (h : KycGate S u rs a)
    {o : Except Failure Response} (hs : a.Step S r o a') : KycGate S u (rs ++ [r]) a' := by
  cases hs with
  | idle => exact h.keep ha rfl rfl
  | entry he =>
    cases he with
    | rename | verify | transit => exact h.keep ha rfl rfl
    | @request q target hq ht hk hne =>
      simp only [User.needsKycFor, Bool.and_eq_true, decide_eq_true_eq] at hk
      refine ⟨fun role hrole => ?_, fun role hrole => ?_, fun hr => ?_⟩
      · obtain rfl : target = role := by simpa using hrole
        exact ⟨hk.1, fun he => hk.2 he.symm⟩
      · obtain rfl : target = role := by simpa using hrole
        refine ⟨rs, q, [], rfl, by rw [hq, hid], ht, ⟨a, hb, rfl, hne⟩, ?_⟩
        exact .nil ha ⟨rfl, rfl⟩
      · exact (h.granted hr).snoc ha rfl
    | @grant q target hq ht hk hne =>
      refine ⟨fun role hrole => by simp at hrole, fun role hrole => by simp at hrole, fun hr => ?_⟩
      have : a.user.needsKycFor target = true := by
        simp only [User.needsKycFor, Bool.and_eq_true, decide_eq_true_eq]
        exact ⟨hr, hne⟩
      rw [hk] at this
      cases this
    | @decide q requested hq hreq =>
      refine ⟨fun role hrole => (by cases hrole), fun role hrole => (by cases hrole), fun hr => ?_⟩
      by_cases happ : q.approved = true
      · have hrole : (q.decided a.user requested).role = requested := by
          simp [DecideKyc.decided, happ]
        rw [Account.record_role] at hr ⊢
        rw [hrole]
        obtain ⟨-, hne⟩ := h.request requested hreq
        exact ⟨rs, q, [], a.user.role, rfl, by rw [hq, hid], happ, hne.symm,
          h.asked requested hreq, .nil ha hrole⟩
      · have hrole : (q.decided a.user requested).role = a.user.role := by
          simp [DecideKyc.decided, happ]
        rw [Account.record_role] at hr ⊢
        rw [hrole] at hr ⊢
        exact (h.granted hr).snoc ha hrole

end KycGate

theorem Legal.kycGate {ok : World → Request → Prop} (h : Legal S ok rs) {a : Account}
    (ha : (served S rs).account u = some a) : KycGate S u rs a :=
  h.account_induction (P := fun rs a => KycGate S u rs a)
    (fun rs q phone _ _ _ => ⟨fun role hr => (by cases hr), fun role hr => (by cases hr),
      fun hr => absurd hr (show UserRole.user ∉ kycRequiredRoles by decide)⟩)
    (fun _ _ _ _ _ _ hb ha ih hs => ih.step (World.account_id hb) hb ha hs) ha

/-- **KYC gate.** In every run, for every account: a pending request is for a
role under KYC that it does not hold; a role under KYC that it holds was
granted by an approval of a request for it; and requests without a
`DecideKyc` among them never lead to such a role. -/
theorem kyc_gate (h : Legal S Anything rs) {a : Account} (ha : (served S rs).account u = some a) :
    (∀ role, a.user.requestedRole = some role → role ∈ kycRequiredRoles ∧ role ≠ a.user.role) ∧
    (a.user.role ∈ kycRequiredRoles → Granted S u rs a.user.role) ∧
    ∀ before later, rs = before ++ later →
      (∀ b, (served S before).account u = some b → b.user.role ∉ kycRequiredRoles) →
      (∀ q, .decideKyc q ∉ later) → a.user.role ∉ kycRequiredRoles := by
  have hg := h.kycGate ha
  refine ⟨hg.request, hg.granted, fun before later hrs hb hq hk => ?_⟩
  obtain ⟨before', q, later', held, hrs', -, -, -, -, hh⟩ := hg.granted hk
  rw [hrs] at hrs'
  rcases List.append_eq_append_iff.mp hrs' with ⟨l, hl, hl'⟩ | ⟨l, hl, hl'⟩
  · exact hq q (by rw [hl']; simp)
  · cases l with
    | nil =>
      rw [List.nil_append] at hl'
      exact hq q (by rw [← hl']; simp)
    | cons r l =>
      rw [List.cons_append, List.cons.injEq] at hl'
      obtain ⟨rfl, hl'⟩ := hl'
      obtain ⟨b, hb', hr⟩ := hh l (by rw [hl']; exact List.prefix_append l later)
      refine hb b ?_ (hr ▸ hk)
      rw [hl]
      simpa using hb'

theorem kyc_gate_driver : ∃ a, (served plainEnv driverRun).account 7 = some a ∧
    a.user.role = .driver ∧ Granted plainEnv 7 driverRun .driver := by
  have ha : ((served plainEnv driverRun).account 7).any fun a => a.user.role = .driver := by
    decide +kernel
  obtain ⟨hs, hr⟩ := (Option.any_eq_true_iff_get _ _).mp ha
  have hrole := of_decide_eq_true hr
  have hg := (kyc_gate driverRun_legal (Option.some_get hs).symm).2.1
  rw [hrole] at hg
  exact ⟨_, (Option.some_get hs).symm, hrole, hg (by decide)⟩

end DiddiFreeID
