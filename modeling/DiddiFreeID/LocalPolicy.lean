/-
# The status check, locally and in the service

`JwksIdentityVerifier.verify` lets a token through whose `status` is `active`;
`get_current_user_id` has a list of allowed statuses and turns service tokens
away. On the claims of one token the two agree where the token carries a
`status`; where it carries none, `verify` takes `active` for granted and the
service refuses (`fails_closed_iff`).

Key definition: `Jwks.FailsClosed`.
Key theorem: `Jwks.fails_closed_iff`.
-/
import DiddiFreeID.Authorization
import DiddiFreeID.SameVerification

namespace DiddiFreeID

namespace Jwks

/-- An identity is returned only if the token carries `status: active`, and
the service accepts the claims for the same user unless their role is
`service`. -/
def FailsClosed (claims : Claims) (outcome : Except VerifyError VerifiedIdentity) : Prop :=
  ∀ identity, outcome = .ok identity →
    claims.lookup "status" = some (.str UserStatus.active.value) ∧
    (identity.role ≠ .str serviceRole → getCurrentUserId claims = .ok identity.userId)

section Policy

variable {claims : Claims} {identity : VerifiedIdentity}

theorem status_of_isText {status : Option Json}
    (h : Json.isText "active" (some (status.getD (.str "active"))) = true) :
    status = none ∨ status = some (.str "active") := by
  cases status with
  | none => exact .inl rfl
  | some status =>
    rw [Json.isText_iff] at h
    exact .inr h

/-- `verify` returns an identity for the `sub` of a token whose `status` is
`active` or missing. -/
theorem identityOf_eq_ok : identityOf claims = .ok identity ↔
    (claims.lookup "status" = none ∨ claims.lookup "status" = some (.str "active")) ∧
      subject claims = .ok identity.userId ∧ claims.lookup "role" = some identity.role ∧
      identity.status = .str "active" := by
  unfold identityOf
  constructor
  · intro h
    dsimp only at h
    split_ifs at h with hactive
    have hstatus := status_of_isText hactive
    have hgetD : (claims.lookup "status").getD (.str "active") = .str "active" :=
      Option.some.inj (Json.isText_iff.mp hactive)
    rw [hgetD] at h
    cases hsub : claims.lookup "sub" with
    | none => simp [hsub] at h
    | some sub =>
      cases sub with
      | str sub =>
        cases hid : uuidOf sub with
        | none => simp [hsub, hid] at h
        | some id =>
          cases hrole : claims.lookup "role" with
          | none => simp [hsub, hid, hrole] at h
          | some role =>
            simp only [hsub, hid, hrole, Except.ok.injEq] at h
            subst h
            exact ⟨hstatus, by simp only [subject, hsub, hid], rfl, rfl⟩
      | _ => simp [hsub] at h
  · rintro ⟨hstatus, hsubject, hrole, hactive⟩
    obtain ⟨sub, hsub, hid⟩ := subject_ok hsubject
    have hgetD : (claims.lookup "status").getD (.str "active") = .str "active" := by
      rcases hstatus with hstatus | hstatus
      · rw [hstatus]
        rfl
      · rw [hstatus]
        rfl
    have htext : Json.isText "active" (some (.str "active")) = true := Json.isText_iff.mpr rfl
    simp only [hgetD, htext, if_true, hsub, hid, hrole]
    rw [← hactive]

/-- On the claims of an active account other than a service, the service
decides by `sub` alone. -/
theorem getCurrentUserId_of_active (hrole : ¬ Json.isText serviceRole (claims.lookup "role") = true)
    (hstatus : claims.lookup "status" = some (.str "active")) :
    getCurrentUserId claims = subject claims := by
  have hallowed : "active" ∈ sessionAllowedStatuses.map UserStatus.value := by decide
  unfold getCurrentUserId
  rw [if_neg hrole, hstatus]
  simp only [if_pos hallowed]

/-- **The local check fails closed** for verified claims if and only if they
carry a `status`, or no user either. -/
theorem fails_closed_iff {L : PyJwt} {C : VerifierSettings} {token : String} {v : Verifier}
    {a : Attempt} (hclaims : (claimsFor L C token v a).1 = .ok claims)
    (hrequired : ∀ name ∈ requiredClaims, ∃ value, claims.lookup name = some value) :
    FailsClosed claims (verify L C token v a).1 ↔
      (∃ status, claims.lookup "status" = some status) ∨ ∀ id, subject claims ≠ .ok id := by
  have hverify : (verify L C token v a).1 = identityOf claims := by
    unfold verify
    rcases hfor : claimsFor L C token v a with ⟨outcome, s⟩
    rw [hfor] at hclaims
    obtain rfl : outcome = .ok claims := hclaims
    rfl
  obtain ⟨role, hrole⟩ := hrequired "role" (by decide)
  rw [hverify]
  constructor
  · intro h
    by_contra hnot
    obtain ⟨hnone, hid⟩ := not_or.mp hnot
    have hmissing : claims.lookup "status" = none := by
      cases hstatus : claims.lookup "status" with
      | none => rfl
      | some status => exact absurd ⟨status, hstatus⟩ hnone
    obtain ⟨id, hsub⟩ := not_forall_not.mp hid
    -- Without a `status` an identity is returned.
    have hok : identityOf claims = .ok ⟨id, role, .str "active"⟩ :=
      identityOf_eq_ok.mpr ⟨.inl hmissing, hsub, hrole, rfl⟩
    have hcarried := (h _ hok).1
    rw [hmissing] at hcarried
    cases hcarried
  · rintro (⟨status, hstatus⟩ | hnobody) identity hok
    · obtain ⟨hactive, hsub, hlookup, -⟩ := identityOf_eq_ok.mp hok
      have hcarried : claims.lookup "status" = some (.str "active") := by
        refine hactive.resolve_left fun hmissing => ?_
        rw [hstatus] at hmissing
        cases hmissing
      refine ⟨hcarried, fun hservice => ?_⟩
      have hperson : ¬ Json.isText serviceRole (claims.lookup "role") = true := by
        rw [Json.isText_iff, hlookup, Option.some.injEq]
        exact hservice
      rw [getCurrentUserId_of_active hperson hcarried, hsub]
    · exact absurd (identityOf_eq_ok.mp hok).2.1 (hnobody _)

end Policy

/-! ### A token without a status -/

/-- The claims both sides require, and a `status` if there is one. -/
def statusClaims (status : Option String) : Claims :=
  [("exp", .int 900), ("iat", .int 0), ("sub", .str "00000000000000000000000000000007"),
    ("role", .str "user")] ++ (status.map fun s => ("status", .str s)).toList

/-- The library that verifies one token under one key. -/
def statusJwt (status : Option String) : PyJwt :=
  oneKey samplePem "k2" ⟨3233, 17⟩ (statusClaims status)

theorem statusJwt_claims (status : Option String) : (claimsFor (statusJwt status) {} ""
    (fetched [("k2", ⟨3233, 17⟩)]) (attempt [("k2", ⟨3233, 17⟩)] 0)).1 =
      .ok (statusClaims status) := rfl

theorem statusClaims_required (status : Option String) :
    ∀ name ∈ requiredClaims, ∃ value, (statusClaims status).lookup name = some value := by
  simp only [requiredClaims, List.mem_cons, List.not_mem_nil, or_false]
  rintro name (rfl | rfl | rfl | rfl)
  · exact ⟨_, rfl⟩
  · exact ⟨_, rfl⟩
  · exact ⟨_, rfl⟩
  · exact ⟨_, rfl⟩

theorem fails_closed_active : FailsClosed (statusClaims (some "active"))
    (verify (statusJwt (some "active")) {} "" (fetched [("k2", ⟨3233, 17⟩)])
      (attempt [("k2", ⟨3233, 17⟩)] 0)).1 :=
  (fails_closed_iff (statusJwt_claims _) (statusClaims_required _)).mpr (.inl ⟨_, rfl⟩)

/-- **No status.** A token without one is let through as active, and the
service refuses it. -/
theorem fails_open_without_status : ¬ FailsClosed (statusClaims none)
    (verify (statusJwt none) {} "" (fetched [("k2", ⟨3233, 17⟩)])
      (attempt [("k2", ⟨3233, 17⟩)] 0)).1 ∧
    getCurrentUserId (statusClaims none) = .error (.api userNotVerified) := by
  refine ⟨fun h => ?_, rfl⟩
  have hok : (verify (statusJwt none) {} "" (fetched [("k2", ⟨3233, 17⟩)])
      (attempt [("k2", ⟨3233, 17⟩)] 0)).1 = .ok ⟨7, .str "user", .str "active"⟩ := rfl
  have hstatus := (h _ hok).1
  cases hstatus

end Jwks

end DiddiFreeID
