/-
# The consumer's verifier

`JwksIdentityVerifier` of `shared_kernel/contracts/identity_provider.py`: the
key that a token's `kid` names is looked up in a cached key set, which is
fetched again when it is empty or stale, and once more when it has no such
key. What the endpoint answers, and the clocks, are those of an `Attempt`.
The verification up to the claims and the identity made of them are two
stages (`claimsFor`, `verify`).

Where the endpoint serves published keys nothing escapes: the key selected is
the last one with the `kid`, in the cache or in what the last fetch brought
(`keyFor_served`), and the claims are what the token verifies to against it
(`claimsFor_eq_ok`).

Key definitions: `Verifier`, `refresh`, `keyFor`, `claimsFor`, `verify`, `selection`.
Key theorems: `keyFor_served`, `claimsFor_eq_ok`.
-/
import DiddiFreeID.Keys

namespace DiddiFreeID

/-! ### JSON as Python values -/

/-- The value counts as true. -/
def Json.truthy : Json → Bool
  | null => false
  | bool b => b
  | int n => decide (n ≠ 0)
  | float digits =>
    (digits.toList.takeWhile fun c => c ≠ 'e' && c ≠ 'E').any fun c => '1' ≤ c && c ≤ '9'
  | str s => decide (s ≠ "")
  | arr items => !items.isEmpty
  | obj members => !members.isEmpty

def Json.hashable : Json → Bool
  | arr _ | obj _ => false
  | _ => true

def Json.isStr : Json → Bool
  | str _ => true
  | _ => false

/-- The values are one key of a `dict`; floats are compared by their text. -/
def Json.sameKey : Json → Json → Bool
  | str s, str s' => decide (s = s')
  | null, null => true
  | bool b, bool b' => b == b'
  | int n, int n' => decide (n = n')
  | bool b, int n | int n, bool b => decide (n = b.toNat)
  | float s, float s' => decide (s = s')
  | _, _ => false

namespace Jwks

/-! ### The verifier -/

/-- What a request to the endpoint comes to; no body is one that
`response.json()` fails on. -/
inductive JwksResponse
  | networkError
  | answered (status : ℕ) (body : Option Json)

/-- The cached keys in the order they were read, and when. -/
structure Verifier where
  keys : List (Json × RsaPublicKey) := []
  fetchedAt : Time := 0

/-- The last key read with a `kid`. -/
def Verifier.key (v : Verifier) (kid : Json) : Option RsaPublicKey :=
  (v.keys.reverse.find? fun p => p.1.sameKey kid).map Prod.snd

structure VerifierSettings where
  issuer : String := "diddifree-id"
  ttlSeconds : ℤ := 3600
  deriving DecidableEq, Repr

/-- What `verify` raises: its three errors, or an exception of the code it
calls. -/
inductive VerifyError
  | tokenExpired (text : String)
  | tokenInvalid (message : List Piece)
  | userNotActive (status : Json)
  | escaped

/-- The user, the role and the status of a token. -/
structure VerifiedIdentity where
  userId : Uuid
  role : Json
  status : Json

/-- One call: the monotonic clock when it looks at the cache, the time of
day, and what its fetches come to and when they are done. -/
structure Attempt where
  clock : Time
  now : Time
  fetch : ℕ → JwksResponse × Time

/-- The verifier during a call, and the fetches made. -/
structure Progress where
  verifier : Verifier
  fetches : ℕ := 0

section Verify

variable (L : PyJwt) (C : VerifierSettings)

/-- `{jwk["kid"]: PyJWK.from_dict(jwk) for jwk in document.get("keys", [])}`. -/
def parseKeys : Json → Option (List (Json × RsaPublicKey))
  | .obj members =>
    match members.lookup "keys" with
    | none | some (.str "") | some (.obj []) => some []
    | some (.arr jwks) => jwks.mapM fun
      | .obj jwk => do
        let kid ← jwk.lookup "kid"
        if kid.hashable then
          let key ← L.fromDict (.obj jwk)
          return (kid, key)
        else none
      | _ => none
    | _ => none
  | _ => none

/-- `_refresh`: whether it returns, and the verifier it leaves. Its log line
joins the `kid`s, after they are cached. -/
def refresh (v : Verifier) (response : JwksResponse) (done : Time) : Bool × Verifier :=
  match response with
  | .networkError => (false, v)
  | .answered status body =>
    if 200 ≤ status ∧ status < 300 then
      match body.bind (parseKeys L) with
      | none => (false, v)
      | some keys => (keys.all fun p => p.1.isStr, { keys := keys, fetchedAt := done })
    else (false, v)

/-- A refresh, where one is needed. -/
def refreshIf (needed : Bool) (a : Attempt) (s : Progress) : Bool × Progress :=
  if needed then
    let (ok, v) := refresh L s.verifier (a.fetch s.fetches).1 (a.fetch s.fetches).2
    (ok, ⟨v, s.fetches + 1⟩)
  else (true, s)

/-- The cache is empty or older than the TTL. -/
def Verifier.expired (v : Verifier) (a : Attempt) : Bool :=
  v.keys.isEmpty || decide (seconds C.ttlSeconds < a.clock - v.fetchedAt)

/-- `kid!r` in a message; the library lets only text through. -/
def kidText : Json → Piece
  | .str kid => .quoted kid
  | _ => .text "…"

/-- `_key_for`. -/
def keyFor (kid : Json) (v : Verifier) (a : Attempt) : Except VerifyError RsaPublicKey × Progress :=
  match refreshIf L (v.expired C a) a ⟨v, 0⟩ with
  | (false, s) => (.error .escaped, s)
  | (true, s) =>
    if kid.hashable then
      match refreshIf L (s.verifier.key kid).isNone a s with
      | (false, s) => (.error .escaped, s)
      | (true, s) =>
        match s.verifier.key kid with
        | some key => (.ok key, s)
        | none =>
          (.error (.tokenInvalid
            [.text "Aucune clé publique ne correspond au kid ", kidText kid, .text "."]), s)
    -- `kid not in self._keys` hashes the `kid`.
    else (.error .escaped, s)

/-- `verify` up to the claims. -/
def claimsFor (token : String) (v : Verifier) (a : Attempt) : Except VerifyError Claims × Progress :=
  match L.getUnverifiedHeader token with
  | .error (.expiredSignature text) | .error (.invalidToken text) =>
    (.error (.tokenInvalid [.text text]), ⟨v, 0⟩)
  | .error .other => (.error .escaped, ⟨v, 0⟩)
  | .ok header =>
    let kid := (header.lookup "kid").getD .null
    if kid.truthy then
      match keyFor L C kid v a with
      | (.error e, s) => (.error e, s)
      | (.ok key, s) =>
        match L.verifies C.issuer token key a.now with
        | .ok claims => (.ok claims, s)
        | .error (.expiredSignature text) => (.error (.tokenExpired text), s)
        | .error (.invalidToken text) => (.error (.tokenInvalid [.text text]), s)
        | .error .other => (.error .escaped, s)
    else (.error (.tokenInvalid [.text "En-tête JWT sans ", .text "`kid`."]), ⟨v, 0⟩)

/-- The identity that verified claims make. -/
def identityOf (claims : Claims) : Except VerifyError VerifiedIdentity :=
  let status := (claims.lookup "status").getD (.str "active")
  if Json.isText "active" (some status) then
    match claims.lookup "sub" with
    | none => .error (.tokenInvalid [.text "Claim `sub` absent ou malformé."])
    | some (.str sub) =>
      match uuidOf sub with
      | none => .error (.tokenInvalid [.text "Claim `sub` absent ou malformé."])
      | some userId =>
        match claims.lookup "role" with
        | none => .error .escaped
        | some role => .ok { userId := userId, role := role, status := status }
    | some _ => .error .escaped
  else .error (.userNotActive status)

/-- `verify`. -/
def verify (token : String) (v : Verifier) (a : Attempt) :
    Except VerifyError VerifiedIdentity × Progress :=
  match claimsFor L C token v a with
  | (.error e, s) => (.error e, s)
  | (.ok claims, s) => (identityOf claims, s)

end Verify

/-! ### Published keys -/

/-- A list of keys as the cache stores it. -/
def stored (keys : List (String × RsaPublicKey)) : List (Json × RsaPublicKey) :=
  keys.map fun p => (.str p.1, p.2)

/-- The key a `dict` of the list has for a `kid`. -/
def lastKey (keys : List (String × RsaPublicKey)) (kid : String) : Option RsaPublicKey :=
  keys.reverse.lookup kid

/-- The JWKs of the keys are read back as the keys. -/
def Exports (L : PyJwt) (keys : List (String × RsaPublicKey)) : Prop :=
  ∀ p ∈ keys, L.fromDict (jwkOf p.1 p.2) = some p.2

/-- The `k`-th fetch of the call succeeds and brings the keys `served k`. -/
def Serves (a : Attempt) (served : ℕ → List (String × RsaPublicKey)) : Prop :=
  ∀ k, (a.fetch k).1 = .answered 200 (some (documentOf (served k)))

/-- The keys that a call decides on, and the fetches it makes: the cached
ones, those of a first fetch if the cache has expired, and those of one more
if the `kid` is not among them. -/
def selection (cached : List (String × RsaPublicKey)) (expired : Bool)
    (served : ℕ → List (String × RsaPublicKey)) (kid : String) : List (String × RsaPublicKey) × ℕ :=
  let keys := if expired then served 0 else cached
  let n := if expired then 1 else 0
  if (lastKey keys kid).isSome then (keys, n) else (served n, n + 1)

section Published

variable {L : PyJwt} {C : VerifierSettings} {P : Pem} {ring : KeyRing} {v : Verifier} {a : Attempt}
variable {keys cached : List (String × RsaPublicKey)} {served : ℕ → List (String × RsaPublicKey)}

/-- The published keys of a ring are exported. -/
theorem exports_of_published (hL : L.Lawful P) (h : ring.published P = some keys) :
    Exports L keys := by
  rw [KeyRing.published] at h
  generalize ring.publicKeys = entries at h
  induction entries generalizing keys with
  | nil =>
    cases h
    exact fun p hp => absurd hp List.not_mem_nil
  | cons entry entries ih =>
    obtain ⟨p, ks, hp, hks, rfl⟩ := published_cons.mp h
    obtain ⟨key, hkey, rfl⟩ := Option.map_eq_some_iff.mp hp
    intro q hq
    rcases List.mem_cons.mp hq with rfl | hq
    · exact hL.fromDict_jwkOf hkey _
    · exact ih hks q hq

theorem key_stored (hv : v.keys = stored keys) (kid : String) : v.key (.str kid) = lastKey keys kid := by
  rw [Verifier.key, hv, stored, ← List.map_reverse, lastKey]
  generalize keys.reverse = keys'
  induction keys' with
  | nil => rfl
  | cons p ps ih =>
    by_cases h : kid = p.1
    · obtain ⟨k, key⟩ := p
      subst h
      simp [Json.sameKey, List.lookup_cons_self]
    · have hp : Json.sameKey (.str p.1) (.str kid) = false := by simpa [Json.sameKey] using Ne.symm h
      have hb : (kid == p.1) = false := by simpa using h
      rw [List.map_cons, List.find?_cons_of_neg (by simp [hp]), ih, List.lookup_cons, hb]

theorem parseKeys_documentOf (h : Exports L keys) : parseKeys L (documentOf keys) = some (stored keys) := by
  have hlookup : ([("keys", Json.arr (keys.map fun p => jwkOf p.1 p.2))] :
      List (String × Json)).lookup "keys" = some (.arr (keys.map fun p => jwkOf p.1 p.2)) := rfl
  simp only [parseKeys, documentOf, hlookup]
  induction keys with
  | nil => rfl
  | cons p ps ih =>
    have hp := h p (by simp)
    have hps := ih (fun q hq => h q (by simp [hq])) rfl
    simp only [List.map_cons, List.mapM_cons, hps]
    simp only [jwkOf] at hp ⊢
    simp [hp, Json.hashable, stored]

theorem refresh_documentOf (h : Exports L keys) (v : Verifier) (done : Time) :
    refresh L v (.answered 200 (some (documentOf keys))) done = (true, ⟨stored keys, done⟩) := by
  have hstr : ((stored keys).all fun p => p.1.isStr) = true := by
    simp [stored, Json.isStr, List.all_map]
  simp only [refresh, Option.bind_some, parseKeys_documentOf h, hstr]
  rfl

theorem refreshIf_served (hexp : ∀ k, Exports L (served k)) (ha : Serves a served) (needed : Bool)
    (s : Progress) : refreshIf L needed a s =
      (true, if needed then ⟨⟨stored (served s.fetches), (a.fetch s.fetches).2⟩, s.fetches + 1⟩
        else s) := by
  cases needed with
  | false => rfl
  | true => simp [refreshIf, ha s.fetches, refresh_documentOf (hexp s.fetches)]

/-- The verifier that a call leaves, which decided on `keys` after `n`
fetches. -/
def leaves (v : Verifier) (a : Attempt) (keys : List (String × RsaPublicKey)) (n : ℕ) : Progress :=
  ⟨⟨stored keys, if n = 0 then v.fetchedAt else (a.fetch (n - 1)).2⟩, n⟩

/-- Where the endpoint serves published keys, the key is the last one with
the `kid` among those the call decides on, and those are cached. -/
theorem keyFor_served (hexp : ∀ k, Exports L (served k)) (ha : Serves a served)
    (hv : v.keys = stored cached) (kid : String) {s : List (String × RsaPublicKey) × ℕ}
    (hs : selection cached (v.expired C a) served kid = s) :
    (∀ key, (keyFor L C (.str kid) v a).1 = .ok key ↔ lastKey s.1 kid = some key) ∧
      (keyFor L C (.str kid) v a).2 = leaves v a s.1 s.2 := by
  have hsame : v = ⟨stored cached, v.fetchedAt⟩ := by rw [← hv]
  have hkey : ∀ keys t, Verifier.key ⟨stored keys, t⟩ (.str kid) = lastKey keys kid :=
    fun keys t => key_stored rfl kid
  subst hs
  unfold keyFor selection
  simp only [refreshIf_served hexp ha, Json.hashable, if_true]
  cases v.expired C a with
  | false =>
    simp only [Bool.false_eq_true, if_false, key_stored hv]
    cases hk : lastKey cached kid with
    | none =>
      simp only [Option.isNone_none, if_true, hkey, Option.isSome_none, Bool.false_eq_true, if_false]
      cases hk' : lastKey (served 0) kid <;> simp [leaves]
    | some key =>
      simp only [Option.isNone_some, Bool.false_eq_true, if_false, key_stored hv, hk,
        Option.isSome_some, if_true, leaves]
      exact ⟨fun key' => by simp, by rw [← hv]⟩
  | true =>
    simp only [if_true, hkey]
    cases hk : lastKey (served 0) kid with
    | none =>
      simp only [Option.isNone_none, if_true, hkey, Option.isSome_none, Bool.false_eq_true, if_false]
      cases hk' : lastKey (served 1) kid <;> simp [leaves]
    | some key =>
      simp [hkey, hk, leaves]

/-- Where a token names no `kid` that counts, `if not kid` refuses it. -/
theorem kid_falsy {token : String} {header : List (String × Json)}
    (hheader : L.getUnverifiedHeader token = .ok header)
    (htext : ∀ {kid}, header.lookup "kid" = some kid → ∃ s, kid = .str s)
    (h : ∀ kid, kid ≠ "" → ¬ L.Names token kid) :
    ((header.lookup "kid").getD .null).truthy = false := by
  cases hkid : header.lookup "kid" with
  | none => rfl
  | some kid =>
    obtain ⟨kid, rfl⟩ := htext hkid
    by_cases hempty : kid = ""
    · simp [Json.truthy, hempty]
    · exact absurd ⟨header, hheader, hkid⟩ (h kid hempty)

theorem claimsFor_of_not_names {token : String} (hL : L.Lawful P)
    (h : ∀ kid, kid ≠ "" → ¬ L.Names token kid) :
    (∀ claims, (claimsFor L C token v a).1 ≠ .ok claims) ∧ (claimsFor L C token v a).2 = ⟨v, 0⟩ := by
  unfold claimsFor
  cases hheader : L.getUnverifiedHeader token with
  | error e => cases e <;> simp
  | ok header => simp [kid_falsy hheader (hL.header_kid hheader) h]

/-- Past the header, a named `kid` selects the key that the token is verified
with. -/
theorem claimsFor_named {token kid : String} (hkid : kid ≠ "") (h : L.Names token kid) :
    claimsFor L C token v a =
      match keyFor L C (.str kid) v a with
      | (.error e, s) => (.error e, s)
      | (.ok key, s) =>
        match L.verifies C.issuer token key a.now with
        | .ok claims => (.ok claims, s)
        | .error (.expiredSignature text) => (.error (.tokenExpired text), s)
        | .error (.invalidToken text) => (.error (.tokenInvalid [.text text]), s)
        | .error .other => (.error .escaped, s) := by
  obtain ⟨header, hheader, hlookup⟩ := h
  have htruthy : (Json.str kid).truthy = true := decide_eq_true hkid
  simp only [claimsFor, hheader, hlookup, Option.getD_some, htruthy, if_true]

theorem claimsFor_of_names {token kid : String} (hkid : kid ≠ "") (h : L.Names token kid) :
    (∀ claims, (claimsFor L C token v a).1 = .ok claims ↔
      ∃ key, (keyFor L C (.str kid) v a).1 = .ok key ∧
        L.verifies C.issuer token key a.now = .ok claims) ∧
      (claimsFor L C token v a).2 = (keyFor L C (.str kid) v a).2 := by
  rw [claimsFor_named hkid h]
  rcases keyFor L C (.str kid) v a with ⟨_ | key, s⟩
  · simp
  · cases hv : L.verifies C.issuer token key a.now with
    | ok claims => simp [hv]
    | error e => cases e <;> simp [hv]

/-- **The claims of the consumer's path**, where the endpoint serves published
keys: what the token verifies to against the key selected. -/
theorem claimsFor_eq_ok (hL : L.Lawful P) (hexp : ∀ k, Exports L (served k)) (ha : Serves a served)
    (hv : v.keys = stored cached) {token : String} {claims : Claims} :
    (claimsFor L C token v a).1 = .ok claims ↔ ∃ kid key, kid ≠ "" ∧ L.Names token kid ∧
      lastKey (selection cached (v.expired C a) served kid).1 kid = some key ∧
        L.verifies C.issuer token key a.now = .ok claims := by
  by_cases hnames : ∃ kid, kid ≠ "" ∧ L.Names token kid
  · obtain ⟨kid, hkid, hnames⟩ := hnames
    rw [(claimsFor_of_names hkid hnames).1]
    constructor
    · rintro ⟨key, hkey, hverifies⟩
      exact ⟨kid, key, hkid, hnames, ((keyFor_served hexp ha hv kid rfl).1 key).mp hkey, hverifies⟩
    · rintro ⟨kid', key, -, hnames', hkey, hverifies⟩
      obtain rfl := hnames'.unique hnames
      exact ⟨key, ((keyFor_served hexp ha hv kid' rfl).1 key).mpr hkey, hverifies⟩
  · have hnone : ∀ kid, kid ≠ "" → ¬ L.Names token kid := fun kid hkid h => hnames ⟨kid, hkid, h⟩
    constructor
    · exact fun h => absurd h ((claimsFor_of_not_names hL hnone).1 claims)
    · rintro ⟨kid, key, hkid, h, -⟩
      exact absurd h (hnone kid hkid)

end Published

end Jwks

end DiddiFreeID
