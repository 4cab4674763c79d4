/-
# One token, two verifiers

`decode_access_token` takes the first published key with the token's `kid`;
the consumer's verifier builds a `dict` of the published keys, in which the
last one wins, and refuses an empty `kid` before it looks. The two paths give
the same claims for every token, and accept what the ring issues until it
expires, exactly if the ring is `Sound`: its active `kid` is not empty, no two
of its keys share a `kid`, and its active key is the public half of the key it
signs with. `get_key_ring` checks none of the three (`same_verification_iff`).

Key definitions: `SameVerification`, `Sound`.
Key theorems: `sameVerification_of_sound`, `same_verification_iff`.
-/
import DiddiFreeID.JwksVerifier

namespace DiddiFreeID

namespace Jwks

/-! ### First and last -/

section Lookup

variable {κ α : Type} [DecidableEq κ]

theorem mem_of_lookup {l : List (κ × α)} {k : κ} {a : α} (h : l.lookup k = some a) : (k, a) ∈ l := by
  obtain ⟨l₁, l₂, rfl, -⟩ := List.lookup_eq_some_iff.mp h
  simp

theorem exists_lookup_of_mem {l : List (κ × α)} {k : κ} {a : α} (h : (k, a) ∈ l) :
    ∃ a', l.lookup k = some a' := by
  refine Option.isSome_iff_exists.mp (List.lookup_isSome_iff.mpr ⟨(k, a), h, ?_⟩)
  simp

/-- Where a key has one value, looking it up finds that value. -/
theorem lookup_eq_some_of_mem {l : List (κ × α)} (h : ∀ p ∈ l, ∀ q ∈ l, p.1 = q.1 → p.2 = q.2)
    {k : κ} {a : α} (hmem : (k, a) ∈ l) : l.lookup k = some a := by
  obtain ⟨a', ha'⟩ := exists_lookup_of_mem hmem
  obtain rfl : a' = a := h _ (mem_of_lookup ha') _ hmem rfl
  exact ha'

end Lookup

/-- Where a `kid` has one key, the first and the last agree. -/
theorem lastKey_eq_lookup {keys : List (String × RsaPublicKey)}
    (h : ∀ p ∈ keys, ∀ q ∈ keys, p.1 = q.1 → p.2 = q.2) (kid : String) :
    lastKey keys kid = keys.lookup kid := by
  have hrev : ∀ p ∈ keys.reverse, ∀ q ∈ keys.reverse, p.1 = q.1 → p.2 = q.2 := by simpa using h
  cases hk : keys.lookup kid with
  | some key =>
    exact lookup_eq_some_of_mem hrev (List.mem_reverse.mpr (mem_of_lookup hk))
  | none =>
    cases hlast : lastKey keys kid with
    | none => rfl
    | some key =>
      obtain ⟨key', hkey'⟩ := exists_lookup_of_mem (List.mem_reverse.mp (mem_of_lookup hlast))
      rw [hk] at hkey'
      cases hkey'

/-- On a fresh cache of what the endpoint serves, the keys stay. -/
theorem selection_same (keys : List (String × RsaPublicKey)) (kid : String) :
    (selection keys false (fun _ => keys) kid).1 = keys := by
  unfold selection
  simp only [Bool.false_eq_true, if_false]
  split <;> rfl

/-! ### The two paths -/

section Paths

variable {P : Pem} {settings : KeySettings} {files : String → Option String} {ring : KeyRing}
variable {keys : List (String × RsaPublicKey)}

/-- Both paths give the same claims for every token, the consumer's cache
being fresh from the ring, and both accept what the ring issues until it
expires. -/
structure SameVerification (P : Pem) (ring : KeyRing) (keys : List (String × RsaPublicKey)) :
    Prop where
  agree : ∀ (L : PyJwt) (S : Env) (v : Verifier) (a : Attempt) (token : String) (claims : Claims),
    L.Lawful P → v.keys = stored keys → v.expired { issuer := S.settings.jwtIssuer } a = false →
    Serves a (fun _ => keys) →
      (TokenService.decodeAccessToken S ⟨L.toJwtLibrary, ring⟩ token a.now = .ok claims ↔
        (claimsFor L { issuer := S.settings.jwtIssuer } token v a).1 = .ok claims)
  issued : ∀ (L : PyJwt) (S : Env) (v : Verifier) (a : Attempt) (userId : Uuid)
    (role status : String) (issuedAt : Time),
    L.Lawful P → v.keys = stored keys → v.expired { issuer := S.settings.jwtIssuer } a = false →
    Serves a (fun _ => keys) →
    L.Signs P (accessPayload S userId role status issuedAt) ring.privatePem ring.activeKid
      (L.issueAccessToken S ring userId role status issuedAt) →
    Unexpired (accessPayload S userId role status issuedAt) a.now →
      TokenService.decodeAccessToken S ⟨L.toJwtLibrary, ring⟩
        (L.issueAccessToken S ring userId role status issuedAt) a.now =
          .ok (accessPayload S userId role status issuedAt) ∧
      (claimsFor L { issuer := S.settings.jwtIssuer }
        (L.issueAccessToken S ring userId role status issuedAt) v a).1 =
          .ok (accessPayload S userId role status issuedAt)

/-- The active `kid` is not empty, a `kid` has one key, and the active key is
the public half of the signing key. -/
structure Sound (P : Pem) (ring : KeyRing) : Prop where
  kid : ring.activeKid ≠ ""
  one_key : ∀ e ∈ ring.publicKeys, ∀ e' ∈ ring.publicKeys, e.kid = e'.kid →
    P.rsa e.pem = P.rsa e'.pem
  pair : ∀ key, P.publicOf ring.privatePem = some key →
    ∀ e ∈ ring.publicKeys, e.kid = ring.activeKid → P.rsa e.pem = some key

/-- What is published comes from an entry. -/
theorem exists_entry : ∀ {entries : List PublicKeyEntry} {keys : List (String × RsaPublicKey)},
    (entries.mapM fun entry => (P.rsa entry.pem).map fun key => (entry.kid, key)) = some keys →
    ∀ p ∈ keys, ∃ e ∈ entries, e.kid = p.1 ∧ P.rsa e.pem = some p.2
  | [], keys, h, p, hp => by
    cases h
    cases hp
  | entry :: entries, _, h, p, hp => by
    obtain ⟨q, ks, hq, hks, rfl⟩ := published_cons.mp h
    rcases List.mem_cons.mp hp with rfl | hp
    · obtain ⟨key, hkey, rfl⟩ := Option.map_eq_some_iff.mp hq
      exact ⟨entry, List.mem_cons_self, rfl, hkey⟩
    · obtain ⟨e, he, hkid, hkey⟩ := exists_entry hks p hp
      exact ⟨e, List.mem_cons_of_mem _ he, hkid, hkey⟩

theorem published_two {e e' : PublicKeyEntry}
    (h : ([e, e'].mapM fun entry => (P.rsa entry.pem).map fun key => (entry.kid, key)) = some keys) :
    ∃ key key', keys = [(e.kid, key), (e'.kid, key')] ∧ P.rsa e.pem = some key ∧
      P.rsa e'.pem = some key' := by
  obtain ⟨p, ks, hp, hks, rfl⟩ := published_cons.mp h
  obtain ⟨q, ks', hq, hks', rfl⟩ := published_cons.mp hks
  obtain ⟨key, hkey, rfl⟩ := Option.map_eq_some_iff.mp hp
  obtain ⟨key', hkey', rfl⟩ := Option.map_eq_some_iff.mp hq
  cases hks'
  exact ⟨key, key', rfl, hkey, hkey'⟩

/-- The active key is published first. -/
theorem published_active (hring : getKeyRing settings files = some ring)
    (hkeys : ring.published P = some keys) :
    ∃ key rest, keys = (ring.activeKid, key) :: rest ∧ rest.length ≤ 1 ∧
      (∀ p ∈ rest, p.1 ≠ "") ∧ ∃ e ∈ ring.publicKeys, e.kid = ring.activeKid ∧ P.rsa e.pem = some key := by
  obtain ⟨pem, hentries⟩ := publicKeys_of_getKeyRing hring
  rw [KeyRing.published] at hkeys
  rcases hentries with hentries | ⟨previous, hprevious, hentries⟩
  · rw [hentries] at hkeys ⊢
    obtain ⟨p, ks, hp, hks, rfl⟩ := published_cons.mp hkeys
    obtain ⟨key, hkey, rfl⟩ := Option.map_eq_some_iff.mp hp
    cases hks
    exact ⟨key, [], rfl, by simp, by simp, _, by simp, rfl, hkey⟩
  · rw [hentries] at hkeys ⊢
    obtain ⟨key, key', rfl, hkey, -⟩ := published_two hkeys
    exact ⟨key, _, rfl, by simp, by simpa using hprevious, _, by simp, rfl, hkey⟩

theorem Sound.one_published (h : Sound P ring) (hkeys : ring.published P = some keys) :
    ∀ p ∈ keys, ∀ q ∈ keys, p.1 = q.1 → p.2 = q.2 := by
  intro p hp q hq heq
  obtain ⟨e, he, hkid, hkey⟩ := exists_entry hkeys p hp
  obtain ⟨e', he', hkid', hkey'⟩ := exists_entry hkeys q hq
  have hsame := h.one_key e he e' he' (by rw [hkid, hkid', heq])
  rw [hkey, hkey', Option.some.injEq] at hsame
  exact hsame

theorem sameVerification_of_sound (hring : getKeyRing settings files = some ring)
    (hkeys : ring.published P = some keys) (h : Sound P ring) : SameVerification P ring keys := by
  obtain ⟨active, rest, hactive, -, hrest, e, he, hekid, hekey⟩ := published_active hring hkeys
  have hlast := lastKey_eq_lookup (h.one_published hkeys)
  have hkid : ∀ {kid key}, keys.lookup kid = some key → kid ≠ "" := by
    intro kid key hlookup
    have hmem := mem_of_lookup hlookup
    rw [hactive] at hmem
    rcases List.mem_cons.mp hmem with hmem | hmem
    · rw [(Prod.mk.inj hmem).1]
      exact h.kid
    · exact hrest _ hmem
  have hagree : ∀ (L : PyJwt) (S : Env) (v : Verifier) (a : Attempt) (token : String)
      (claims : Claims), L.Lawful P → v.keys = stored keys →
      v.expired { issuer := S.settings.jwtIssuer } a = false → Serves a (fun _ => keys) →
      (TokenService.decodeAccessToken S ⟨L.toJwtLibrary, ring⟩ token a.now = .ok claims ↔
        (claimsFor L { issuer := S.settings.jwtIssuer } token v a).1 = .ok claims) := by
    intro L S v a token claims hL hv hfresh ha
    rw [decodeAccessToken_eq_ok hL hkeys,
      claimsFor_eq_ok hL (fun _ => exports_of_published hL hkeys) ha hv]
    simp only [hfresh, selection_same, hlast]
    constructor
    · rintro ⟨kid, key, hnames, hlookup, hverifies⟩
      exact ⟨kid, key, hkid hlookup, hnames, hlookup, hverifies⟩
    · rintro ⟨kid, key, -, hnames, hlookup, hverifies⟩
      exact ⟨kid, key, hnames, hlookup, hverifies⟩
  refine ⟨hagree, fun L S v a userId role status issuedAt hL hv hfresh ha hsigns hunexpired => ?_⟩
  obtain ⟨key, hkey, hverifies⟩ := hsigns.verifies
  have hpair : active = key := by
    have := h.pair key hkey e he hekid
    rw [hekey, Option.some.injEq] at this
    exact this
  have hdecode : TokenService.decodeAccessToken S ⟨L.toJwtLibrary, ring⟩
      (L.issueAccessToken S ring userId role status issuedAt) a.now =
        .ok (accessPayload S userId role status issuedAt) :=
    (decodeAccessToken_eq_ok hL hkeys).mpr ⟨ring.activeKid, active, hsigns.names,
      by rw [hactive, List.lookup_cons_self], hpair ▸ hverifies _ _ rfl hunexpired⟩
  exact ⟨hdecode, (hagree L S v a _ _ hL hv hfresh ha).mp hdecode⟩

/-! ### A library that accepts one key -/

/-- The key of an RSA JWK. -/
def rsaOfJwk : Json → Option RsaPublicKey
  | .obj members =>
    match members.lookup "n", members.lookup "e" with
    | some (.str n), some (.str e) =>
      (uintOfB64url n).bind fun n => (uintOfB64url e).map fun e => ⟨n, e⟩
    | _, _ => none
  | _ => none

theorem rsaOfJwk_jwkOf (kid : String) (key : RsaPublicKey) : rsaOfJwk (jwkOf kid key) = some key := by
  simp [rsaOfJwk, jwkOf, List.lookup_cons, uintOfB64url_b64urlUint]

/-- Every token carries this `kid` and verifies to this payload against this
key, and against no other. -/
def oneKey (P : Pem) (kid : String) (key : RsaPublicKey) (payload : Claims) : PyJwt where
  getUnverifiedHeader _ := .ok [("kid", .str kid)]
  decode _ pem _ _ _ _ :=
    match P.rsa pem with
    | some key' =>
      if key' = key then .ok payload else .error (.invalidToken "Signature verification failed")
    | none => .error .other
  encode _ _ _ _ := ""
  fromDict := rsaOfJwk
  decodeJwk _ key' _ _ _ _ :=
    if key' = key then .ok payload else .error (.invalidToken "Signature verification failed")

section OneKey

variable {kid : String} {key key' : RsaPublicKey} {payload : Claims}

theorem oneKey_lawful : (oneKey P kid key payload).Lawful P where
  header_kid := by
    rintro _ _ ⟨⟩ kid' h
    exact ⟨kid, by simpa [List.lookup_cons] using h.symm⟩
  decode_pem := by
    intro _ _ h _ _ _ _ _
    simp only [oneKey, h]
  fromDict_jwkOf := by
    intro _ key' _ kid
    simp only [oneKey, rsaOfJwk_jwkOf kid key']

theorem oneKey_names (token : String) : (oneKey P kid key payload).Names token kid :=
  ⟨_, rfl, List.lookup_cons_self⟩

theorem oneKey_verifies {issuer token : String} {now : Time} :
    (oneKey P kid key payload).verifies issuer token key' now = .ok payload ↔ key' = key := by
  simp only [PyJwt.verifies, oneKey]
  split_ifs with h <;> simp [h]

end OneKey

/-- A verifier that has just fetched the keys. -/
def fetched (keys : List (String × RsaPublicKey)) : Verifier := { keys := stored keys }

/-- A call whose fetches bring the keys. -/
def attempt (keys : List (String × RsaPublicKey)) (now : Time) : Attempt where
  clock := 0
  now := now
  fetch _ := (.answered 200 (some (documentOf keys)), 0)

theorem fetched_fresh {p : String × RsaPublicKey} {rest : List (String × RsaPublicKey)}
    {issuer : String} {now : Time} :
    (fetched (p :: rest)).expired { issuer := issuer } (attempt (p :: rest) now) = false := by
  simp only [Verifier.expired, fetched, stored, attempt, List.map_cons, List.isEmpty_cons,
    Bool.false_or, decide_eq_false_iff_not, seconds]
  decide

section Necessary

variable (hring : getKeyRing settings files = some ring) (hkeys : ring.published P = some keys)
  (h : SameVerification P ring keys)

include hring hkeys h

/-- What the library that accepts one key tells of the two paths. -/
theorem lookup_iff_lastKey (kid : String) (key : RsaPublicKey) :
    keys.lookup kid = some key ↔ kid ≠ "" ∧ lastKey keys kid = some key := by
  obtain ⟨active, rest, rfl, -⟩ := published_active hring hkeys
  have hagree := h.agree (oneKey P kid key []) plainEnv (fetched _) (attempt _ 0) "" [] oneKey_lawful
    rfl fetched_fresh (fun _ => rfl)
  rw [decodeAccessToken_eq_ok oneKey_lawful hkeys,
    @claimsFor_eq_ok _ _ _ _ _ _ (fun _ => (ring.activeKid, active) :: rest) oneKey_lawful
      (fun _ => exports_of_published oneKey_lawful hkeys) (fun _ => rfl) rfl] at hagree
  simp only [fetched_fresh, selection_same, oneKey_verifies] at hagree
  constructor
  · intro hlookup
    obtain ⟨kid', key', hkid', hnames, hlast, rfl⟩ :=
      hagree.mp ⟨kid, key, oneKey_names _, hlookup, rfl⟩
    rw [hnames.unique (oneKey_names _)] at hkid' hlast
    exact ⟨hkid', hlast⟩
  · rintro ⟨hkid, hlast⟩
    obtain ⟨kid', key', hnames, hlookup, rfl⟩ :=
      hagree.mpr ⟨kid, key, hkid, oneKey_names _, hlast, rfl⟩
    rwa [hnames.unique (oneKey_names _)] at hlookup

theorem one_key_of_same : ∀ e ∈ ring.publicKeys, ∀ e' ∈ ring.publicKeys, e.kid = e'.kid →
    P.rsa e.pem = P.rsa e'.pem := by
  have hlookup := lookup_iff_lastKey hring hkeys h
  obtain ⟨pem, hentries⟩ := publicKeys_of_getKeyRing hring
  rw [KeyRing.published] at hkeys
  rcases hentries with hentries | ⟨previous, -, hentries⟩
  · rw [hentries]
    simp
  · rw [hentries] at hkeys ⊢
    obtain ⟨key, key', rfl, hkey, hkey'⟩ := published_two hkeys
    have hsame : previous.kid = ring.activeKid → key = key' := by
      intro hkid
      have hlast := ((hlookup ring.activeKid key).mp List.lookup_cons_self).2
      rw [hkid] at hlast
      simpa [lastKey] using hlast.symm
    simp only [List.mem_cons, List.not_mem_nil, or_false]
    rintro e (rfl | rfl) e' (rfl | rfl) heq
    · rfl
    · rw [hkey, hkey', hsame heq.symm]
    · rw [hkey, hkey', hsame heq]
    · rfl

theorem pair_of_same : ∀ key, P.publicOf ring.privatePem = some key →
    ∀ e ∈ ring.publicKeys, e.kid = ring.activeKid → P.rsa e.pem = some key := by
  intro key hkey e he hekid
  have hone := one_key_of_same hring hkeys h
  obtain ⟨active, rest, hactive, -, -, e', he', hekid', hekey'⟩ := published_active hring hkeys
  -- A token that verifies against the public half of the signing key only.
  have hsigns : (oneKey P ring.activeKid key (accessPayload plainEnv 0 "user" "active" 0)).Signs P
      (accessPayload plainEnv 0 "user" "active" 0) ring.privatePem ring.activeKid "" :=
    ⟨oneKey_names _, key, hkey, fun _ _ _ _ => oneKey_verifies.mpr rfl⟩
  have hunexpired : Unexpired (accessPayload plainEnv 0 "user" "active" 0) 0 :=
    ⟨_, _, rfl, rfl, by decide, by decide⟩
  subst hactive
  have hdecode := (h.issued _ plainEnv (fetched _) (attempt _ 0) 0 "user" "active" 0 oneKey_lawful
    rfl fetched_fresh (fun _ => rfl) hsigns hunexpired).1
  obtain ⟨kid, key', hnames, hlookup, hverifies⟩ := (decodeAccessToken_eq_ok oneKey_lawful hkeys).mp hdecode
  obtain rfl := oneKey_verifies.mp hverifies
  rw [hnames.unique (oneKey_names _), List.lookup_cons_self, Option.some.injEq] at hlookup
  rw [hone e he e' he' (hekid.trans hekid'.symm), hekey', hlookup]

theorem sound_of_sameVerification : Sound P ring where
  kid := by
    obtain ⟨active, rest, rfl, -⟩ := published_active hring hkeys
    exact ((lookup_iff_lastKey hring hkeys h ring.activeKid active).mp List.lookup_cons_self).1
  one_key := one_key_of_same hring hkeys h
  pair := pair_of_same hring hkeys h

end Necessary

/-- **Both verification paths select the same key exactly for a sound ring.**
For every ring of an accepted configuration whose keys are published, both
paths give the same claims for every token and accept what the ring issues
until it expires, if and only if the active `kid` is not empty, no `kid` has
two keys, and the active key is the public half of the signing key. -/
theorem same_verification_iff (hring : getKeyRing settings files = some ring)
    (hkeys : ring.published P = some keys) : SameVerification P ring keys ↔ Sound P ring :=
  ⟨sound_of_sameVerification hring hkeys, sameVerification_of_sound hring hkeys⟩

end Paths

/-! ### A rotation that keeps its `kid` -/

/-- Three files: a private key and its public half, and an older key. -/
def sampleFiles (path : String) : Option String :=
  if path = "keys/private.pem" then some "private"
  else if path = "keys/public.pem" then some "public"
  else if path = "keys/old.pem" then some "old"
  else none

def samplePem : Pem where
  loadPublic pem :=
    if pem = "public" then some (.rsa ⟨3233, 17⟩)
    else if pem = "old" then some (.rsa ⟨3127, 3⟩)
    else none
  publicOf pem := if pem = "private" then some ⟨3233, 17⟩ else none

/-- A rotation, with the `kid` of the previous key. -/
def rotated (previousKid : String) : KeySettings :=
  { jwtActiveKid := "k2"
    jwtPreviousPublicKeyPath := some "keys/old.pem"
    jwtPreviousKid := some previousKid }

def rotatedRing (previousKid : String) : KeyRing :=
  ⟨"k2", "private", [⟨"k2", "public"⟩, ⟨previousKid, "old"⟩]⟩

theorem same_verification_rotated :
    SameVerification samplePem (rotatedRing "k1") [("k2", ⟨3233, 17⟩), ("k1", ⟨3127, 3⟩)] := by
  refine (@same_verification_iff _ (rotated "k1") sampleFiles _ _ rfl rfl).mpr
    ⟨by decide, ?_, ?_⟩
  · simp only [List.mem_cons, List.not_mem_nil, or_false]
    rintro e (rfl | rfl) e' (rfl | rfl) heq
    · rfl
    · exact absurd heq (by decide)
    · exact absurd heq (by decide)
    · rfl
  · intro key hkey
    simp only [List.mem_cons, List.not_mem_nil, or_false]
    rintro e (rfl | rfl) heq
    · rw [← hkey]
      rfl
    · exact absurd heq (by decide)

/-- The keys of `rotated "k2"`, both under the active `kid`. -/
def oneKid : List (String × RsaPublicKey) := [("k2", ⟨3233, 17⟩), ("k2", ⟨3127, 3⟩)]

/-- The previous key under the active `kid`: a token signed with the active
key verifies at the service, and the consumer tries the previous key. -/
theorem rotation_under_one_kid :
    getKeyRing (rotated "k2") sampleFiles = some (rotatedRing "k2") ∧
      (rotatedRing "k2").published samplePem = some oneKid ∧
      (oneKey samplePem "k2" ⟨3233, 17⟩ []).Lawful samplePem ∧
      TokenService.decodeAccessToken plainEnv
        ⟨(oneKey samplePem "k2" ⟨3233, 17⟩ []).toJwtLibrary, rotatedRing "k2"⟩ "token" 0 = .ok [] ∧
      (claimsFor (oneKey samplePem "k2" ⟨3233, 17⟩ []) { issuer := plainEnv.settings.jwtIssuer }
        "token" (fetched oneKid) (attempt oneKid 0)).1 =
          .error (.tokenInvalid [.text "Signature verification failed"]) ∧
      ¬ SameVerification samplePem (rotatedRing "k2") oneKid := by
  refine ⟨rfl, rfl, oneKey_lawful, rfl, rfl, fun hsame => ?_⟩
  have hone := @one_key_of_same _ (rotated "k2") sampleFiles _ _ rfl rfl hsame
    ⟨"k2", "public"⟩ List.mem_cons_self ⟨"k2", "old"⟩
    (List.mem_cons_of_mem _ List.mem_cons_self) rfl
  exact absurd hone (by decide)

end Jwks

end DiddiFreeID
