/-
# The errors of a local verification

`verify` has three errors of its own, which a consumer maps onto its error
envelope. The token errors of the JWT library are turned into them; what else
it raises (a `RecursionError`, on a header nested too deep) is not, nor are
the exceptions of a refresh (the network, the status, the body, a key that
cannot be read), and a refresh of a stale cache that fails takes the cached
keys with it, although they are still there. `verify` keeps to its errors
exactly where the library raises its own on the token and the fetches that
the call needs bring keys (`contract_iff`). Nothing depends on what a key is.

Key definitions: `readKeys`, `finalKeys`, `KeepsContract`, `Settled`.
Key theorems: `verify_escaped_iff`, `contract_iff`.
-/
import DiddiFreeID.LocalPolicy

namespace DiddiFreeID

/-- What the code relies on: a header's `kid` is text, and verified claims
have what is required. -/
structure PyJwt.Documented (L : PyJwt) : Prop where
  header_kid : ∀ {token header}, L.getUnverifiedHeader token = .ok header →
    ∀ {kid}, header.lookup "kid" = some kid → ∃ s, kid = .str s
  decode_requires : ∀ {issuer token key now claims}, L.verifies issuer token key now = .ok claims →
    ∀ name ∈ requiredClaims, ∃ value, claims.lookup name = some value

namespace Jwks

section Verify

variable (L : PyJwt) (C : VerifierSettings) (token : String) (v : Verifier) (a : Attempt)

/-! ### The keys of a call -/

/-- The keys that a refresh returns with. -/
def readKeys (response : JwksResponse) : Option (List (Json × RsaPublicKey)) :=
  match response with
  | .networkError => none
  | .answered status body =>
    if 200 ≤ status ∧ status < 300 then
      (body.bind (parseKeys L)).filter fun keys => keys.all fun p => p.1.isStr
    else none

/-- The last key with a `kid`. -/
def keyIn (keys : List (Json × RsaPublicKey)) (kid : String) : Option RsaPublicKey :=
  Verifier.key { keys := keys } (.str kid)

/-- The keys after the first look at the cache. -/
def loadedKeys : Option (List (Json × RsaPublicKey)) :=
  if v.expired C a then readKeys L (a.fetch 0).1 else some v.keys

/-- The keys that the token's key is taken from; none where a fetch fails. -/
def finalKeys (kid : String) : Option (List (Json × RsaPublicKey)) :=
  (loadedKeys L C v a).bind fun keys =>
    if (keyIn keys kid).isSome then some keys
    else readKeys L (a.fetch (if v.expired C a then 1 else 0)).1

/-- `verify` returns an identity or raises one of its three errors, and a
token whose key is cached is verified against it when the refresh fails. -/
structure KeepsContract : Prop where
  documented : (verify L C token v a).1 ≠ .error .escaped
  cached : ∀ kid key claims, kid ≠ "" → L.Names token kid → v.key (.str kid) = some key →
    L.verifies C.issuer token key a.now = .ok claims → readKeys L (a.fetch 0).1 = none →
      (verify L C token v a).1 = identityOf claims

/-- The library raises nothing but its token errors on the token; for one
that names a `kid`, the fetches that the call needs bring keys, and the `sub`
that an active token verifies to is text. -/
structure Settled : Prop where
  header : L.getUnverifiedHeader token ≠ .error .other
  decode : ∀ kid keys key, kid ≠ "" → L.Names token kid → finalKeys L C v a kid = some keys →
    keyIn keys kid = some key → L.verifies C.issuer token key a.now ≠ .error .other
  fetches : ∀ kid, kid ≠ "" → L.Names token kid → ∃ keys, finalKeys L C v a kid = some keys
  subject : ∀ kid keys key claims, kid ≠ "" → L.Names token kid →
    finalKeys L C v a kid = some keys → keyIn keys kid = some key →
      L.verifies C.issuer token key a.now = .ok claims →
        claims.lookup "status" = none ∨ claims.lookup "status" = some (.str "active") →
          ∃ sub, claims.lookup "sub" = some (.str sub)

end Verify

/-! ### A refresh -/

section Refresh

variable {L : PyJwt} {C : VerifierSettings} {token : String} {v : Verifier} {a : Attempt}
variable {response : JwksResponse} {keys : List (Json × RsaPublicKey)} {kid : String}

theorem refresh_of_readKeys (done : Time) (h : readKeys L response = some keys) :
    refresh L v response done = (true, { keys := keys, fetchedAt := done }) := by
  cases response with
  | networkError => cases h
  | answered status body =>
    simp only [readKeys] at h
    split_ifs at h with hstatus
    obtain ⟨hparse, htext⟩ := Option.filter_eq_some_iff.mp h
    simp only [refresh, if_pos hstatus, hparse, htext]

theorem refresh_of_not_read (done : Time) (h : readKeys L response = none) :
    (refresh L v response done).1 = false := by
  cases response with
  | networkError => rfl
  | answered status body =>
    simp only [readKeys] at h
    split_ifs at h with hstatus
    · cases hparse : body.bind (parseKeys L) with
      | none => simp only [refresh, if_pos hstatus, hparse]
      | some keys =>
        rw [hparse, Option.filter_eq_none_iff] at h
        simp only [refresh, if_pos hstatus, hparse]
        simpa using h keys rfl
    · simp only [refresh, if_neg hstatus]

theorem refreshIf_of_not_read {s : Progress} (h : readKeys L (a.fetch s.fetches).1 = none) :
    (refreshIf L true a s).1 = false := by
  have hrefresh := refresh_of_not_read (v := s.verifier) (a.fetch s.fetches).2 h
  simpa only [refreshIf, if_true] using hrefresh

theorem refreshIf_of_readKeys {s : Progress} (h : readKeys L (a.fetch s.fetches).1 = some keys) :
    refreshIf L true a s = (true, ⟨⟨keys, (a.fetch s.fetches).2⟩, s.fetches + 1⟩) := by
  simp only [refreshIf, if_true, refresh_of_readKeys (a.fetch s.fetches).2 h]

/-- The first look at the cache. -/
theorem refreshIf_expired : match loadedKeys L C v a with
    | none => (refreshIf L (v.expired C a) a ⟨v, 0⟩).1 = false
    | some keys => ∃ t, refreshIf L (v.expired C a) a ⟨v, 0⟩ =
        (true, ⟨⟨keys, t⟩, if v.expired C a then 1 else 0⟩) := by
  unfold loadedKeys
  cases hexpired : v.expired C a with
  | false => exact ⟨v.fetchedAt, rfl⟩
  | true =>
    simp only [if_true]
    cases hread : readKeys L (a.fetch 0).1 with
    | none => exact refreshIf_of_not_read hread
    | some keys => exact ⟨_, refreshIf_of_readKeys hread⟩

/-- `_key_for` fails beyond its errors where a fetch does, and takes the key
from the keys of the last fetch otherwise. -/
theorem keyFor_eq : (keyFor L C (.str kid) v a).1 =
    match finalKeys L C v a kid with
    | none => .error .escaped
    | some keys =>
      match keyIn keys kid with
      | some key => .ok key
      | none => .error (.tokenInvalid
          [.text "Aucune clé publique ne correspond au kid ", .quoted kid, .text "."]) := by
  have hloaded := @refreshIf_expired L C v a
  unfold keyFor finalKeys
  cases hkeys : loadedKeys L C v a with
  | none =>
    rw [hkeys] at hloaded
    rcases hfirst : refreshIf L (v.expired C a) a ⟨v, 0⟩ with ⟨ok, s⟩
    rw [hfirst] at hloaded
    obtain rfl : ok = false := hloaded
    rfl
  | some keys =>
    rw [hkeys] at hloaded
    obtain ⟨t, hfirst⟩ := hloaded
    have hkey : ∀ keys t, Verifier.key ⟨keys, t⟩ (.str kid) = keyIn keys kid := fun _ _ => rfl
    simp only [hfirst, Json.hashable, if_true, hkey, Option.bind_some]
    cases hin : keyIn keys kid with
    | some key =>
      simp only [Option.isNone_some, Option.isSome_some, if_true, refreshIf, hin,
        Bool.false_eq_true, if_false]
    | none =>
      simp only [Option.isNone_none, Option.isSome_none, Bool.false_eq_true, if_false]
      cases hread : readKeys L (a.fetch (if v.expired C a then 1 else 0)).1 with
      | none =>
        have hsecond := refreshIf_of_not_read (s := ⟨⟨keys, t⟩, if v.expired C a then 1 else 0⟩) hread
        rcases hrefresh : refreshIf L true a ⟨⟨keys, t⟩, if v.expired C a then 1 else 0⟩ with ⟨ok, s⟩
        rw [hrefresh] at hsecond
        obtain rfl : ok = false := hsecond
        rfl
      | some keys' =>
        have hsecond := refreshIf_of_readKeys (s := ⟨⟨keys, t⟩, if v.expired C a then 1 else 0⟩) hread
        simp only [hsecond]
        cases keyIn keys' kid <;> rfl

end Refresh

/-! ### What escapes -/

section Escapes

variable {L : PyJwt} {C : VerifierSettings} {token : String} {v : Verifier} {a : Attempt}
variable {claims : Claims} {kid : String}

/-- The claims with a `role` that no identity and no error is made of: those
of an active token whose `sub` is not text. -/
theorem identityOf_escaped_iff (hsub : ∃ sub, claims.lookup "sub" = some sub)
    (hrole : ∃ role, claims.lookup "role" = some role) :
    identityOf claims = .error .escaped ↔
      (claims.lookup "status" = none ∨ claims.lookup "status" = some (.str "active")) ∧
        ∀ sub, claims.lookup "sub" ≠ some (.str sub) := by
  obtain ⟨role, hrole⟩ := hrole
  obtain ⟨sub, hsub⟩ := hsub
  have hactive : Json.isText "active" (some ((claims.lookup "status").getD (.str "active"))) = true ↔
      claims.lookup "status" = none ∨ claims.lookup "status" = some (.str "active") := by
    refine ⟨status_of_isText, fun h => ?_⟩
    rcases h with h | h
    · rw [h]
      rfl
    · rw [h]
      rfl
  simp only [identityOf, hsub, hrole, ← hactive]
  split_ifs with h
  · cases sub with
    | str sub => cases huuid : uuidOf sub <;> simp [h, huuid]
    | _ => simp [h]
  · simp [h]

theorem keyFor_escaped_iff : (keyFor L C (.str kid) v a).1 = .error .escaped ↔
    finalKeys L C v a kid = none := by
  rw [keyFor_eq]
  cases finalKeys L C v a kid with
  | none => simp
  | some keys => cases hkey : keyIn keys kid <;> simp [hkey]

theorem keyFor_eq_ok {key : RsaPublicKey} : (keyFor L C (.str kid) v a).1 = .ok key ↔
    ∃ keys, finalKeys L C v a kid = some keys ∧ keyIn keys kid = some key := by
  rw [keyFor_eq]
  cases finalKeys L C v a kid with
  | none => simp
  | some keys => cases hkey : keyIn keys kid <;> simp [hkey]

/-- `verify` on a token that names a `kid`. -/
theorem verify_of_names (hkid : kid ≠ "") (h : L.Names token kid) :
    (verify L C token v a).1 =
      match (keyFor L C (.str kid) v a).1 with
      | .error e => .error e
      | .ok key =>
        match L.verifies C.issuer token key a.now with
        | .ok claims => identityOf claims
        | .error (.expiredSignature text) => .error (.tokenExpired text)
        | .error (.invalidToken text) => .error (.tokenInvalid [.text text])
        | .error .other => .error .escaped := by
  rw [verify, claimsFor_named hkid h]
  rcases keyFor L C (.str kid) v a with ⟨_ | key, s⟩
  · rfl
  · cases hv : L.verifies C.issuer token key a.now with
    | ok claims => simp only [hv]
    | error e => cases e <;> simp only [hv]

theorem verify_of_not_names (hL : L.Documented) (h : ∀ kid, kid ≠ "" → ¬ L.Names token kid) :
    (verify L C token v a).1 = .error .escaped ↔ L.getUnverifiedHeader token = .error .other := by
  unfold verify claimsFor
  cases hheader : L.getUnverifiedHeader token with
  | error e => cases e <;> simp
  | ok header => simp [kid_falsy hheader (hL.header_kid hheader) h]

/-- **What escapes**: an error of the library that is no token error, and, on
a token that names a `kid`, a fetch that fails or an active token that
verifies to a `sub` that is not text. -/
theorem verify_escaped_iff (hL : L.Documented) : (verify L C token v a).1 = .error .escaped ↔
    L.getUnverifiedHeader token = .error .other ∨
    ∃ kid, kid ≠ "" ∧ L.Names token kid ∧ (finalKeys L C v a kid = none ∨
      ∃ keys key, finalKeys L C v a kid = some keys ∧ keyIn keys kid = some key ∧
        (L.verifies C.issuer token key a.now = .error .other ∨
          ∃ claims, L.verifies C.issuer token key a.now = .ok claims ∧
            (claims.lookup "status" = none ∨ claims.lookup "status" = some (.str "active")) ∧
              ∀ sub, claims.lookup "sub" ≠ some (.str sub))) := by
  have hidentity : ∀ {key claims}, L.verifies C.issuer token key a.now = .ok claims →
      (identityOf claims = .error .escaped ↔
        (claims.lookup "status" = none ∨ claims.lookup "status" = some (.str "active")) ∧
          ∀ sub, claims.lookup "sub" ≠ some (.str sub)) := fun h =>
    identityOf_escaped_iff (hL.decode_requires h "sub" (by decide))
      (hL.decode_requires h "role" (by decide))
  constructor
  · intro hescaped
    by_cases hnames : ∃ kid, kid ≠ "" ∧ L.Names token kid
    · obtain ⟨kid, hkid, hnames⟩ := hnames
      refine .inr ⟨kid, hkid, hnames, ?_⟩
      rw [verify_of_names hkid hnames] at hescaped
      cases hkey : (keyFor L C (.str kid) v a).1 with
      | error e =>
        rw [hkey] at hescaped
        obtain rfl : e = .escaped := Except.error.inj hescaped
        exact .inl (keyFor_escaped_iff.mp hkey)
      | ok key =>
        obtain ⟨keys, hkeys, hin⟩ := keyFor_eq_ok.mp hkey
        refine .inr ⟨keys, key, hkeys, hin, ?_⟩
        rw [hkey] at hescaped
        cases hv : L.verifies C.issuer token key a.now with
        | ok claims =>
          simp only [hv] at hescaped
          exact .inr ⟨claims, rfl, (hidentity hv).mp hescaped⟩
        | error e =>
          cases e with
          | other => exact .inl rfl
          | _ => simp [hv] at hescaped
    · have hnone : ∀ kid, kid ≠ "" → ¬ L.Names token kid := fun kid hkid h => hnames ⟨kid, hkid, h⟩
      exact .inl ((verify_of_not_names hL hnone).mp hescaped)
  · rintro (hheader | ⟨kid, hkid, hnames, hnone | ⟨keys, key, hkeys, hin, hbad⟩⟩)
    · simp only [verify, claimsFor, hheader]
    · rw [verify_of_names hkid hnames, keyFor_escaped_iff.mpr hnone]
    · rw [verify_of_names hkid hnames, keyFor_eq_ok.mpr ⟨keys, hkeys, hin⟩]
      rcases hbad with hv | ⟨claims, hv, hbad⟩
      · simp only [hv]
      · simp only [hv]
        exact (hidentity hv).mpr hbad

/-- A call that keeps to its errors verifies a cached token against its key,
also when the refresh fails. -/
theorem verify_cached {key : RsaPublicKey} (hdocumented : (verify L C token v a).1 ≠ .error .escaped)
    (hkid : kid ≠ "") (hnames : L.Names token kid) (hkey : v.key (.str kid) = some key)
    (hv : L.verifies C.issuer token key a.now = .ok claims)
    (hfails : readKeys L (a.fetch 0).1 = none) :
    (verify L C token v a).1 = identityOf claims := by
  have hfresh : v.expired C a = false := by
    by_contra hexpired
    rw [Bool.not_eq_false] at hexpired
    have hnone : finalKeys L C v a kid = none := by
      simp only [finalKeys, loadedKeys, if_pos hexpired, hfails, Option.bind_none]
    apply hdocumented
    rw [verify_of_names hkid hnames, keyFor_escaped_iff.mpr hnone]
  have hin : keyIn v.keys kid = some key := hkey
  have hkeys : finalKeys L C v a kid = some v.keys := by
    simp only [finalKeys, loadedKeys, hfresh, Bool.false_eq_true, if_false, Option.bind_some, hin,
      Option.isSome_some, if_true]
  rw [verify_of_names hkid hnames, keyFor_eq_ok.mpr ⟨_, hkeys, hin⟩]
  simp only [hv]

/-- **The error contract** is kept if and only if the library raises its token
errors on the token, the fetches that the call needs bring keys, and the
`sub` of an active token is text. -/
theorem contract_iff (hL : L.Documented) : KeepsContract L C token v a ↔ Settled L C token v a := by
  constructor
  · intro h
    have hnot := mt (verify_escaped_iff hL).mpr h.documented
    refine ⟨fun hheader => hnot (.inl hheader), ?_, ?_, ?_⟩
    · intro kid keys key hkid hnames hkeys hin hv
      exact hnot (.inr ⟨kid, hkid, hnames, .inr ⟨keys, key, hkeys, hin, .inl hv⟩⟩)
    · intro kid hkid hnames
      by_contra hnone
      exact hnot (.inr ⟨kid, hkid, hnames, .inl (Option.eq_none_iff_forall_ne_some.mpr
        fun keys hkeys => hnone ⟨keys, hkeys⟩)⟩)
    · intro kid keys key claims hkid hnames hkeys hin hv hactive
      by_contra hsub
      have htext : ∀ sub, claims.lookup "sub" ≠ some (.str sub) := not_exists.mp hsub
      exact hnot (.inr ⟨kid, hkid, hnames,
        .inr ⟨keys, key, hkeys, hin, .inr ⟨claims, hv, hactive, htext⟩⟩⟩)
  · intro h
    have hdocumented : (verify L C token v a).1 ≠ .error .escaped := by
      intro hescaped
      rcases (verify_escaped_iff hL).mp hescaped with
        hheader | ⟨kid, hkid, hnames, hnone | ⟨keys, key, hkeys, hin, hv | ⟨claims, hv, hactive, hsub⟩⟩⟩
      · exact h.header hheader
      · obtain ⟨keys, hkeys⟩ := h.fetches kid hkid hnames
        rw [hnone] at hkeys
        cases hkeys
      · exact h.decode kid keys key hkid hnames hkeys hin hv
      · obtain ⟨sub, htext⟩ := h.subject kid keys key claims hkid hnames hkeys hin hv hactive
        exact hsub sub htext
    exact ⟨hdocumented, fun kid key claims hkid hnames hkey hv hfails =>
      verify_cached hdocumented hkid hnames hkey hv hfails⟩

end Escapes

/-! ### A stale cache -/

theorem statusJwt_raises (status : Option String) (issuer token : String) (key : RsaPublicKey)
    (now : Time) : (statusJwt status).verifies issuer token key now ≠ .error .other := by
  simp only [PyJwt.verifies, statusJwt, oneKey]
  split_ifs <;> simp

theorem statusJwt_documented (status : Option String) : (statusJwt status).Documented where
  header_kid := (oneKey_lawful (P := samplePem)).header_kid
  decode_requires := by
    intro issuer token key now claims h
    have hclaims : claims = statusClaims status := by
      simp only [PyJwt.verifies, statusJwt, oneKey] at h
      split_ifs at h
      exact (Except.ok.inj h).symm
    rw [hclaims]
    exact statusClaims_required status

/-- A call an hour and a second after the keys were fetched. -/
def staleAttempt (response : JwksResponse) : Attempt where
  clock := seconds 3601
  now := seconds 3601
  fetch _ := (response, seconds 3601)

theorem statusJwt_exports (status : Option String) (keys : List (String × RsaPublicKey)) :
    Exports (statusJwt status) keys := by
  intro p _
  simp only [statusJwt, oneKey, rsaOfJwk_jwkOf]

/-- The refresh of a stale cache brings the key again. -/
theorem contract_served : KeepsContract (statusJwt (some "active")) {} ""
    (fetched [("k2", ⟨3233, 17⟩)])
    (staleAttempt (.answered 200 (some (documentOf [("k2", ⟨3233, 17⟩)])))) := by
  have hkeys : finalKeys (statusJwt (some "active")) {} (fetched [("k2", ⟨3233, 17⟩)])
      (staleAttempt (.answered 200 (some (documentOf [("k2", ⟨3233, 17⟩)])))) "k2" =
        some (stored [("k2", ⟨3233, 17⟩)]) := by
    have hparse : parseKeys (statusJwt (some "active")) (documentOf [("k2", ⟨3233, 17⟩)]) =
        some (stored [("k2", ⟨3233, 17⟩)]) :=
      parseKeys_documentOf (statusJwt_exports _ _)
    have hexpired : (fetched [("k2", ⟨3233, 17⟩)]).expired {}
        (staleAttempt (.answered 200 (some (documentOf [("k2", ⟨3233, 17⟩)])))) = true := by decide
    have hread : readKeys (statusJwt (some "active"))
        (.answered 200 (some (documentOf [("k2", ⟨3233, 17⟩)]))) =
          some (stored [("k2", ⟨3233, 17⟩)]) := by
      simp only [readKeys, Option.bind_some, hparse]
      rfl
    simp only [finalKeys, loadedKeys, hexpired, if_true]
    rfl
  refine (contract_iff (statusJwt_documented _)).mpr
    ⟨fun hheader => (by cases hheader), fun _ _ key _ _ _ _ => statusJwt_raises _ _ _ key _, ?_, ?_⟩
  · intro kid _ hnames
    obtain rfl : kid = "k2" := hnames.unique (oneKey_names _)
    exact ⟨_, hkeys⟩
  · intro kid keys key claims _ _ _ _ hv _
    have hclaims : claims = statusClaims (some "active") := by
      simp only [PyJwt.verifies, statusJwt, oneKey] at hv
      split_ifs at hv
      exact (Except.ok.inj hv).symm
    rw [hclaims]
    exact ⟨_, rfl⟩

/-- **The network fails.** The key of the token is cached, an hour old, and
the token verifies against it; `verify` raises what the fetch raised. -/
theorem escapes_when_the_network_fails :
    (verify (statusJwt (some "active")) {} "" (fetched [("k2", ⟨3233, 17⟩)])
      (staleAttempt .networkError)).1 = .error .escaped ∧
    ¬ ∀ (L : PyJwt) (C : VerifierSettings) (token : String) (v : Verifier) (a : Attempt),
      L.Documented → KeepsContract L C token v a := by
  have hescaped : (verify (statusJwt (some "active")) {} "" (fetched [("k2", ⟨3233, 17⟩)])
      (staleAttempt .networkError)).1 = .error .escaped := rfl
  exact ⟨hescaped, fun h => (h _ _ _ _ _ (statusJwt_documented _)).documented hescaped⟩

end Jwks

end DiddiFreeID
