/-
# The key ring

`core/keys.py`: the key ring that a configuration gives, and the JWKS
document that publishes it. PEM files are read by a parameter
(`cryptography`), the JWT library is a parameter too; what the code relies on
in them is `PyJwt.Lawful`. A ring publishes one active key and at most one
previous key (`publicKeys_of_getKeyRing`), and nothing stops the two from
having one `kid`.

Key definitions: `b64urlUint`, `getKeyRing`, `KeyRing.jwks`, `KeyRing.published`,
`PyJwt`, `TokenService.issueAccessToken`.
Key theorems: `b64urlUint_exact`, `uintOfB64url_b64urlUint`, `publicKeys_of_getKeyRing`,
`decodeAccessToken_eq_ok`.
-/
import DiddiFreeID.AccessTokens
import DiddiFreeID.Base64

namespace DiddiFreeID

/-! ### RSA parameters -/

structure RsaPublicKey where
  n : ℕ
  e : ℕ
  deriving DecidableEq, Repr

/-- `to_bytes` in big-endian order; `none` is the `OverflowError`. -/
def toBytes (value length : ℕ) : Option (List ℕ) :=
  if value < 256 ^ length then some (Base64.octets length value) else none

/-- `_b64url_uint`; `Nat.size` is `bit_length`. -/
def b64urlUint (value : ℕ) : String :=
  String.ofList (Base64.strip (Base64.encode (Base64.octets ((value.size + 7) / 8) value)))

/-- Base64url text as an integer. -/
def uintOfB64url (text : String) : Option ℕ := (Base64.decode text.toList).map Base64.ofOctets

theorem uintOfB64url_b64urlUint (value : ℕ) : uintOfB64url (b64urlUint value) = some value := by
  rw [uintOfB64url, b64urlUint, String.toList_ofList, Base64.decode_strip (Base64.octets_lt _ _),
    Option.map_some, Base64.ofOctets_octets (by omega)]

/-- The octets that `_b64url_uint` asks for are enough. -/
theorem toBytes_bitLength (value : ℕ) : toBytes value ((value.size + 7) / 8) =
    some (Base64.octets ((value.size + 7) / 8) value) :=
  if_pos (Base64.lt_pow_of_size_le (by omega))

theorem toList_b64urlUint (value : ℕ) :
    (b64urlUint value).toList = Base64.digits (Base64.octets ((value.size + 7) / 8) value) := by
  rw [b64urlUint, String.toList_ofList, Base64.strip_encode (Base64.octets_lt _ _)]

theorem b64urlUint_ne_empty {value : ℕ} (hpos : 0 < value) : b64urlUint value ≠ "" := by
  intro hempty
  have hvalue := uintOfB64url_b64urlUint value
  rw [hempty] at hvalue
  exact hpos.ne (Option.some.inj hvalue)

theorem b64urlUint_injective : Function.Injective b64urlUint := by
  intro value other heq
  have hvalue := uintOfB64url_b64urlUint value
  rw [heq, uintOfB64url_b64urlUint] at hvalue
  exact (Option.some.inj hvalue).symm

/-- **The JWK integer encoding is exact.** The text of a positive integer is
not empty and has no padding; with the padding back it decodes to the bytes
that were encoded, the fewest that hold the integer; and no other integer has
it. -/
theorem b64urlUint_exact {value : ℕ} (hpos : 0 < value) :
    b64urlUint value ≠ "" ∧
      (∀ c ∈ (b64urlUint value).toList, c ∈ Base64.alphabet ∧ c ≠ '=') ∧
      (∃ raw, toBytes value ((value.size + 7) / 8) = some raw ∧
        Base64.decodePadded (Base64.pad (b64urlUint value).toList) = some raw ∧
        Base64.Minimal raw value ∧
        ∀ bs, (∀ b ∈ bs, b < 256) → Base64.ofOctets bs = value → raw.length ≤ bs.length) ∧
      ∀ other, b64urlUint other = b64urlUint value → other = value := by
  have hoctet := Base64.octets_lt ((value.size + 7) / 8) value
  have hpad : ∀ c ∈ (b64urlUint value).toList, c ≠ '=' := by
    rw [toList_b64urlUint]
    exact Base64.ne_pad_of_mem_digits hoctet
  refine ⟨b64urlUint_ne_empty hpos, fun c hc => ⟨?_, hpad c hc⟩,
    ⟨_, toBytes_bitLength value, ?_, Base64.minimal_octets value,
      fun bs hbs hv => (Base64.minimal_octets value).length_le hbs hv⟩,
    fun other heq => b64urlUint_injective heq⟩
  · rw [toList_b64urlUint] at hc
    exact Base64.mem_alphabet_of_mem_digits hoctet c hc
  · rw [Base64.decodePadded_pad hpad, toList_b64urlUint, Base64.decode_digits hoctet]

/-- The usual public exponent. -/
theorem b64urlUint_exact_exponent : b64urlUint 65537 = "AQAB" ∧
    ∀ other, b64urlUint other = "AQAB" → other = 65537 := by
  have htext : b64urlUint 65537 = "AQAB" := by decide +kernel
  have hpos : 0 < 65537 := by decide
  obtain ⟨-, -, -, hinj⟩ := b64urlUint_exact hpos
  rw [htext] at hinj
  exact ⟨htext, hinj⟩

/-! ### The ring of a configuration -/

/-- What a PEM text holds. -/
inductive PublicKey
  | rsa (key : RsaPublicKey)
  /-- Another kind of key. -/
  | other
  deriving DecidableEq, Repr

/-- `cryptography`: the key of a public PEM (`none` raises), and the public
half of a private RSA key. -/
structure Pem where
  loadPublic : String → Option PublicKey
  publicOf : String → Option RsaPublicKey

/-- The settings that `get_key_ring` reads, with their defaults. -/
structure KeySettings where
  jwtPrivateKeyPath : String := "keys/private.pem"
  jwtPublicKeyPath : String := "keys/public.pem"
  jwtActiveKid : String := "dev-2026-07-01"
  jwtPreviousPublicKeyPath : Option String := none
  jwtPreviousKid : Option String := none
  deriving DecidableEq, Repr

/-- A string that counts as true. -/
def truthy (s : Option String) : Option String := s.filter fun s => s ≠ ""

/-- `get_key_ring`; `none` is the `RuntimeError`. `files` is `_read`. -/
def getKeyRing (settings : KeySettings) (files : String → Option String) : Option KeyRing := do
  let privatePem ← files settings.jwtPrivateKeyPath
  let publicPem ← files settings.jwtPublicKeyPath
  let active : PublicKeyEntry := ⟨settings.jwtActiveKid, publicPem⟩
  match truthy settings.jwtPreviousPublicKeyPath, truthy settings.jwtPreviousKid with
  | some previousPath, some previousKid =>
    let pem ← files previousPath
    some ⟨settings.jwtActiveKid, privatePem, [active, ⟨previousKid, pem⟩]⟩
  | none, none => some ⟨settings.jwtActiveKid, privatePem, [active]⟩
  | _, _ => none

/-- The active key first, then at most one previous key, whose `kid` is not
empty. -/
theorem publicKeys_of_getKeyRing {settings : KeySettings} {files : String → Option String}
    {ring : KeyRing} (h : getKeyRing settings files = some ring) :
    ∃ pem, ring.publicKeys = [⟨ring.activeKid, pem⟩] ∨
      ∃ previous : PublicKeyEntry, previous.kid ≠ "" ∧
        ring.publicKeys = [⟨ring.activeKid, pem⟩, previous] := by
  simp only [getKeyRing, Option.bind_eq_bind, Option.bind_eq_some_iff] at h
  obtain ⟨privatePem, -, publicPem, -, h⟩ := h
  split at h
  · rename_i previousPath previousKid hpath hkid
    obtain ⟨pem, -, h⟩ := Option.bind_eq_some_iff.mp h
    cases h
    rw [truthy, Option.filter_eq_some_iff] at hkid
    exact ⟨publicPem, .inr ⟨⟨previousKid, pem⟩, by simpa using hkid.2, rfl⟩⟩
  · cases h
    exact ⟨publicPem, .inl rfl⟩
  · cases h

/-! ### What a ring publishes -/

/-- The JWK of a key. -/
def jwkOf (kid : String) (key : RsaPublicKey) : Json :=
  .obj [("kid", .str kid), ("kty", .str "RSA"), ("use", .str "sig"), ("alg", .str "RS256"),
    ("n", .str (b64urlUint key.n)), ("e", .str (b64urlUint key.e))]

/-- The RSA key of a PEM text; `none` raises. -/
def Pem.rsa (P : Pem) (pem : String) : Option RsaPublicKey :=
  match P.loadPublic pem with
  | some (.rsa key) => some key
  | _ => none

def PublicKeyEntry.toJwk (P : Pem) (entry : PublicKeyEntry) : Option Json :=
  (P.rsa entry.pem).map (jwkOf entry.kid)

def KeyRing.jwks (P : Pem) (ring : KeyRing) : Option Json :=
  (ring.publicKeys.mapM (PublicKeyEntry.toJwk P)).map fun keys => .obj [("keys", .arr keys)]

/-- The keys of a ring with their `kid`s. -/
def KeyRing.published (P : Pem) (ring : KeyRing) : Option (List (String × RsaPublicKey)) :=
  ring.publicKeys.mapM fun entry => (P.rsa entry.pem).map fun key => (entry.kid, key)

/-- The document of a list of keys. -/
def documentOf (keys : List (String × RsaPublicKey)) : Json :=
  .obj [("keys", .arr (keys.map fun p => jwkOf p.1 p.2))]

theorem jwks_eq (P : Pem) (ring : KeyRing) : ring.jwks P = (ring.published P).map documentOf := by
  rw [KeyRing.jwks, KeyRing.published]
  generalize ring.publicKeys = entries
  have hmap : entries.mapM (PublicKeyEntry.toJwk P) =
      (entries.mapM fun entry => (P.rsa entry.pem).map fun key => (entry.kid, key)).map
        fun keys => keys.map fun p => jwkOf p.1 p.2 := by
    induction entries with
    | nil => rfl
    | cons entry entries ih =>
      simp only [List.mapM_cons, ih, PublicKeyEntry.toJwk, Option.bind_eq_bind, Option.pure_def]
      cases P.rsa entry.pem with
      | none => rfl
      | some key =>
        cases entries.mapM fun entry => (P.rsa entry.pem).map fun key => (entry.kid, key) <;> rfl
  rw [hmap, Option.map_map]
  rfl

/-! ### The JWT library -/

/-- The JWT library with what issuing a token and verifying it against a JWK
call: `encode`, `PyJWK.from_dict` (`none` raises) and `decode` with a JWK. -/
structure PyJwt extends JwtLibrary where
  encode (payload : Claims) (pem algorithm : String) (headers : List (String × Json)) : String
  fromDict : Json → Option RsaPublicKey
  decodeJwk (token : String) (key : RsaPublicKey) (algorithms : List String) (issuer : String)
    (require : List String) (now : Time) : Except JwtError Claims

/-- What the code relies on: a header's `kid` is text, a PEM text stands for
its key, and exporting a key as a JWK preserves it. -/
structure PyJwt.Lawful (L : PyJwt) (P : Pem) : Prop where
  header_kid : ∀ {token header}, L.getUnverifiedHeader token = .ok header →
    ∀ {kid}, header.lookup "kid" = some kid → ∃ s, kid = .str s
  decode_pem : ∀ {pem key}, P.rsa pem = some key → ∀ token algorithms issuer require now,
    L.decode token pem algorithms issuer require now =
      L.decodeJwk token key algorithms issuer require now
  fromDict_jwkOf : ∀ {pem key}, P.rsa pem = some key → ∀ kid, L.fromDict (jwkOf kid key) = some key

/-- The `kid` that a token's header carries. -/
def PyJwt.Names (L : PyJwt) (token kid : String) : Prop :=
  ∃ header, L.getUnverifiedHeader token = .ok header ∧ header.lookup "kid" = some (.str kid)

theorem PyJwt.Names.unique {L : PyJwt} {token kid kid' : String} (h : L.Names token kid)
    (h' : L.Names token kid') : kid = kid' := by
  obtain ⟨header, hheader, hkid⟩ := h
  obtain ⟨header', hheader', hkid'⟩ := h'
  rw [hheader, Except.ok.injEq] at hheader'
  subst hheader'
  rw [hkid, Option.some.injEq, Json.str.injEq] at hkid'
  exact hkid'

/-- The claims that both paths require. -/
def requiredClaims : List String := ["exp", "iat", "sub", "role"]

/-- The verification of a token against a key, as both paths ask for it. -/
def PyJwt.verifies (L : PyJwt) (issuer token : String) (key : RsaPublicKey) (now : Time) :
    Except JwtError Claims :=
  L.decodeJwk token key ["RS256"] issuer requiredClaims now

/-! ### Issuing -/

/-- `str` of a UUID. -/
def uuidText (id : Uuid) : String :=
  let hex := (List.range 32).map fun i => Nat.digitChar (id / 16 ^ (31 - i) % 16)
  String.ofList (hex.take 8 ++ '-' :: ((hex.drop 8).take 4) ++ '-' :: ((hex.drop 12).take 4) ++
    '-' :: ((hex.drop 16).take 4) ++ '-' :: hex.drop 20)

example : uuidText 255 = "00000000-0000-0000-0000-0000000000ff" := by decide

/-- An instant in whole seconds, as the library writes it. -/
def numericDate (t : Time) : ℤ := t.fdiv 1000000

/-- The payload of an access token. -/
def accessPayload (S : Env) (userId : Uuid) (role status : String) (now : Time) : Claims :=
  [("sub", .str (uuidText userId)), ("role", .str role), ("status", .str status),
    ("iss", .str S.settings.jwtIssuer), ("iat", .int (numericDate now)),
    ("exp", .int (numericDate (now + minutes S.settings.jwtAccessLifetimeMinutes)))]

/-- `issue_access_token`. -/
def PyJwt.issueAccessToken (L : PyJwt) (S : Env) (ring : KeyRing) (userId : Uuid)
    (role status : String) (now : Time) : String :=
  L.encode (accessPayload S userId role status now) ring.privatePem "RS256"
    [("kid", .str ring.activeKid)]

/-- The token is not expired: from its `iat` on and before its `exp`. -/
def Unexpired (payload : Claims) (now : Time) : Prop :=
  ∃ iat exp, payload.lookup "iat" = some (.int iat) ∧ payload.lookup "exp" = some (.int exp) ∧
    seconds iat ≤ now ∧ now < seconds exp

/-- What the library documents of a token it signed with a private key: its
header carries the `kid`, and until it expires it verifies, under its own
issuer and with the claims it has, against the public half of that key. -/
structure PyJwt.Signs (L : PyJwt) (P : Pem) (payload : Claims) (pem kid : String) (token : String) :
    Prop where
  names : L.Names token kid
  verifies : ∃ key, P.publicOf pem = some key ∧ ∀ issuer now,
    payload.lookup "iss" = some (.str issuer) → Unexpired payload now →
      L.verifies issuer token key now = .ok payload

/-! ### Verifying by the ring -/

section Decode

variable {P : Pem} {L : PyJwt} {S : Env} {ring : KeyRing} {keys : List (String × RsaPublicKey)}

theorem published_cons {entry : PublicKeyEntry} {entries : List PublicKeyEntry}
    {f : PublicKeyEntry → Option (String × RsaPublicKey)} :
    (entry :: entries).mapM f = some keys ↔
      ∃ p ks, f entry = some p ∧ entries.mapM f = some ks ∧ keys = p :: ks := by
  simp only [List.mapM_cons, Option.bind_eq_bind, Option.bind_eq_some_iff, Option.pure_def,
    Option.some.injEq]
  constructor
  · rintro ⟨p, hp, ks, hks, rfl⟩
    exact ⟨p, ks, hp, hks, rfl⟩
  · rintro ⟨p, ks, hp, hks, rfl⟩
    exact ⟨p, hp, ks, hks, rfl⟩

/-- The first entry with a `kid` holds the first published key with it. -/
theorem find?_published (kid : String) : ∀ {entries : List PublicKeyEntry}
    {keys : List (String × RsaPublicKey)},
    (entries.mapM fun entry => (P.rsa entry.pem).map fun key => (entry.kid, key)) = some keys →
    (entries.find? fun e => Json.isText e.kid (some (.str kid))).bind (fun e => P.rsa e.pem) =
      keys.lookup kid
  | [], keys, h => by
    cases h
    rfl
  | entry :: entries, _, h => by
    obtain ⟨⟨k, key⟩, ks, hp, hks, rfl⟩ := published_cons.mp h
    obtain ⟨key', hkey, heq⟩ := Option.map_eq_some_iff.mp hp
    obtain ⟨rfl, rfl⟩ := Prod.mk.inj heq
    have ih := find?_published kid hks
    by_cases hk : kid = entry.kid
    · simp [Json.isText, hk, hkey]
    · have hk' : (kid == entry.kid) = false := by simpa using hk
      rw [List.find?_cons_of_neg (by simpa [Json.isText] using hk), ih, List.lookup_cons, hk']

/-- Every published entry holds an RSA key. -/
theorem rsa_of_published : ∀ {entries : List PublicKeyEntry} {keys : List (String × RsaPublicKey)},
    (entries.mapM fun entry => (P.rsa entry.pem).map fun key => (entry.kid, key)) = some keys →
    ∀ entry ∈ entries, ∃ key, P.rsa entry.pem = some key
  | [], _, _, _, h => by cases h
  | entry :: entries, _, h, e, he => by
    obtain ⟨p, ks, hp, hks, rfl⟩ := published_cons.mp h
    rcases List.mem_cons.mp he with rfl | he
    · obtain ⟨key, hkey, -⟩ := Option.map_eq_some_iff.mp hp
      exact ⟨key, hkey⟩
    · exact rsa_of_published hks e he

theorem decodeWith_eq (hL : L.Lawful P) {entry : PublicKeyEntry} {key : RsaPublicKey}
    (hkey : P.rsa entry.pem = some key) (token : String) (now : Time) :
    TokenService.decodeWith S ⟨L.toJwtLibrary, ring⟩ entry token now =
      L.verifies S.settings.jwtIssuer token key now :=
  hL.decode_pem hkey ..

/-- `decode_access_token` gives the claims that the token verifies to against
the first published key with its `kid`. -/
theorem decodeAccessToken_eq_ok (hL : L.Lawful P) (hkeys : ring.published P = some keys)
    {token : String} {now : Time} {claims : Claims} :
    TokenService.decodeAccessToken S ⟨L.toJwtLibrary, ring⟩ token now = .ok claims ↔
      ∃ kid key, L.Names token kid ∧ keys.lookup kid = some key ∧
        L.verifies S.settings.jwtIssuer token key now = .ok claims := by
  unfold TokenService.decodeAccessToken
  cases hheader : L.getUnverifiedHeader token with
  | error e =>
    have hnone : ∀ kid, ¬ L.Names token kid := by
      rintro kid ⟨header, hok, -⟩
      rw [hheader] at hok
      cases hok
    cases e <;> simp [hnone]
  | ok header =>
    cases hkid : header.lookup "kid" with
    | none =>
      have hnone : ∀ kid, ¬ L.Names token kid := by
        rintro kid ⟨header', hok, hkid'⟩
        rw [hheader, Except.ok.injEq] at hok
        rw [← hok, hkid] at hkid'
        cases hkid'
      have hfind : ring.publicKeys.find? (fun e => Json.isText e.kid none) = none :=
        List.find?_eq_none.mpr fun _ _ => by simp [Json.isText]
      simp [hnone, hkid, hfind]
    | some kid =>
      obtain ⟨kid, rfl⟩ := hL.header_kid hheader hkid
      have hnames : L.Names token kid := ⟨header, hheader, hkid⟩
      have hfind := find?_published kid hkeys
      -- The token names one `kid`, so the right side is about one key.
      have hright : (∃ kid key, L.Names token kid ∧ keys.lookup kid = some key ∧
          L.verifies S.settings.jwtIssuer token key now = .ok claims) ↔
          ∃ key, keys.lookup kid = some key ∧
            L.verifies S.settings.jwtIssuer token key now = .ok claims := by
        constructor
        · rintro ⟨kid', key, hnames', hlookup, hverifies⟩
          exact ⟨key, hnames'.unique hnames ▸ hlookup, hverifies⟩
        · rintro ⟨key, hlookup, hverifies⟩
          exact ⟨kid, key, hnames, hlookup, hverifies⟩
      rw [hright]
      cases hentry : ring.publicKeys.find? fun e => Json.isText e.kid (some (.str kid)) with
      | none =>
        rw [hentry, Option.bind_none] at hfind
        simp [hkid, hentry, ← hfind]
      | some entry =>
        rw [hentry, Option.bind_some] at hfind
        obtain ⟨key, hkey⟩ := rsa_of_published hkeys entry (List.mem_of_find?_eq_some hentry)
        simp only [hkid, hentry, decodeWith_eq hL hkey, ← hfind, hkey, Option.some.injEq,
          exists_eq_left']
        cases hv : L.verifies S.settings.jwtIssuer token key now with
        | ok claims' => simp
        | error e => cases e <;> simp

end Decode

end DiddiFreeID
