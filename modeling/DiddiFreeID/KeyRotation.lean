/-
# A rotation logs nobody out

A rotation replaces the key ring by one whose previous entry is the active key
that it replaces. If every new active `kid` is fresh, a `kid` has one key in
all the key sets that were ever published (`Rotation.only`), so it does not
matter which of them a consumer has cached: a token is verified against the
key that signed it, by its own ring and by the next one
(`rotation_logs_nobody_out`).

Key definitions: `Jwks.Only`, `Jwks.Holds`, `Rotation`.
Key theorems: `Jwks.lastKey_selection`, `Rotation.only`, `rotation_logs_nobody_out`.
-/
import DiddiFreeID.SameVerification

namespace DiddiFreeID

namespace Jwks

/-! ### One key under a `kid` -/

/-- The keys have no other key under the `kid`. -/
def Only (keys : List (String × RsaPublicKey)) (kid : String) (key : RsaPublicKey) : Prop :=
  ∀ key', (kid, key') ∈ keys → key' = key

/-- The keys have this key under the `kid`, and no other. -/
structure Holds (keys : List (String × RsaPublicKey)) (kid : String) (key : RsaPublicKey) :
    Prop where
  mem : (kid, key) ∈ keys
  only : Only keys kid key

section OneKey

variable {keys cached : List (String × RsaPublicKey)} {kid : String} {key key' : RsaPublicKey}

theorem Only.lastKey (h : Only keys kid key) (hlast : lastKey keys kid = some key') : key' = key :=
  h key' (List.mem_reverse.mp (mem_of_lookup hlast))

theorem Holds.lookup (h : Holds keys kid key) : keys.lookup kid = some key := by
  obtain ⟨key', hkey'⟩ := exists_lookup_of_mem h.mem
  have hsame : key' = key := h.only key' (mem_of_lookup hkey')
  rw [hkey', hsame]

theorem Holds.lastKey (h : Holds keys kid key) : lastKey keys kid = some key := by
  obtain ⟨key', hkey'⟩ := exists_lookup_of_mem (List.mem_reverse.mpr h.mem)
  have hsame : key' = key := h.only.lastKey hkey'
  rw [Jwks.lastKey, hkey', hsame]

/-- Whatever is cached, and whatever the fetches bring, one key is selected. -/
theorem lastKey_selection {served : ℕ → List (String × RsaPublicKey)} (hcached : Only cached kid key)
    (hserved : ∀ n, Holds (served n) kid key) (expired : Bool) :
    Jwks.lastKey (selection cached expired served kid).1 kid = some key := by
  have hlast : Jwks.lastKey (served 0) kid = some key := (hserved 0).lastKey
  unfold selection
  cases expired with
  | true => simp only [if_true, hlast, Option.isSome_some]
  | false =>
    simp only [Bool.false_eq_true, if_false]
    cases hk : Jwks.lastKey cached kid with
    | none => exact hlast
    | some key' =>
      have hsame : key' = key := hcached.lastKey hk
      rw [Option.isSome_some, if_pos rfl, hk, hsame]

end OneKey

/-! ### Tokens signed with a key -/

section Accepted

variable {P : Pem} {L : PyJwt} {S : Env} {C : VerifierSettings} {ring : KeyRing}
variable {keys cached : List (String × RsaPublicKey)} {served : ℕ → List (String × RsaPublicKey)}
variable {kid token : String} {key : RsaPublicKey} {now : Time} {payload : Claims}

theorem decodeAccessToken_of_holds (hL : L.Lawful P) (hkeys : ring.published P = some keys)
    (h : Holds keys kid key) (hnames : L.Names token kid)
    (hverifies : L.verifies S.settings.jwtIssuer token key now = .ok payload) :
    TokenService.decodeAccessToken S ⟨L.toJwtLibrary, ring⟩ token now = .ok payload :=
  (decodeAccessToken_eq_ok hL hkeys).mpr ⟨kid, key, hnames, h.lookup, hverifies⟩

theorem claimsFor_of_holds {v : Verifier} {a : Attempt} (hL : L.Lawful P)
    (hexp : ∀ n, Exports L (served n)) (ha : Serves a served) (hv : v.keys = stored cached)
    (hkid : kid ≠ "") (hcached : Only cached kid key) (hserved : ∀ n, Holds (served n) kid key)
    (hnames : L.Names token kid) (hverifies : L.verifies C.issuer token key a.now = .ok payload) :
    (claimsFor L C token v a).1 = .ok payload :=
  (claimsFor_eq_ok hL hexp ha hv).mpr
    ⟨kid, key, hkid, hnames, lastKey_selection hcached hserved _, hverifies⟩

/-- What the service signs verifies against the public half of its key. -/
theorem verifies_of_signs {pem : String} (h : L.Signs P payload pem kid token)
    (hpair : P.publicOf pem = some key)
    (hissuer : payload.lookup "iss" = some (.str S.settings.jwtIssuer))
    (hunexpired : Unexpired payload now) :
    L.verifies S.settings.jwtIssuer token key now = .ok payload := by
  obtain ⟨key', hkey', hverifies⟩ := h.verifies
  have hsame : key' = key := Option.some.inj (hkey'.symm.trans hpair)
  rw [← hsame]
  exact hverifies _ now hissuer hunexpired

end Accepted

end Jwks

open Jwks

/-! ### A sequence of rings -/

/-- The rings that a service had up to the `N`-th, and the keys they publish.
A ring's active key is the public half of its signing key, its previous entry
is the active one of the ring before, and its active `kid` has not been
published before. -/
structure Rotation (P : Pem) (N : ℕ) (ring : ℕ → KeyRing)
    (keys : ℕ → List (String × RsaPublicKey)) : Prop where
  built : ∀ i ≤ N, ∃ settings files, getKeyRing settings files = some (ring i)
  published : ∀ i ≤ N, (ring i).published P = some (keys i)
  pair : ∀ i ≤ N, P.publicOf (ring i).privatePem = (keys i).head?.map Prod.snd
  previous : ∀ i < N, (keys (i + 1))[1]? = (keys i)[0]?
  fresh : ∀ i ≤ N, ∀ j < i, ∀ p ∈ keys j, p.1 ≠ (ring i).activeKid
  apart : ∀ p ∈ (keys 0).tail, p.1 ≠ (ring 0).activeKid

namespace Rotation

variable {P : Pem} {N : ℕ} {ring : ℕ → KeyRing} {keys : ℕ → List (String × RsaPublicKey)}
variable {i j m : ℕ} {key : RsaPublicKey}

/-- The key of the `i`-th ring comes first among those it publishes. -/
theorem active (h : Rotation P N ring keys) (hi : i ≤ N) :
    ∃ key rest, keys i = ((ring i).activeKid, key) :: rest ∧ rest.length ≤ 1 ∧
      (∀ p ∈ rest, p.1 ≠ "") ∧ P.publicOf (ring i).privatePem = some key := by
  obtain ⟨settings, files, hring⟩ := h.built i hi
  obtain ⟨key, rest, hkeys, hlength, hrest, -⟩ := published_active hring (h.published i hi)
  have hpair := h.pair i hi
  rw [hkeys] at hpair
  exact ⟨key, rest, hkeys, hlength, hrest, hpair⟩

/-- What a ring publishes besides its own key is the key of the ring before. -/
theorem rest (h : Rotation P N ring keys) (hi : i < N) {p : String × RsaPublicKey}
    (hp : p ∈ (keys (i + 1)).tail) : p ∈ keys i := by
  obtain ⟨key, rest, hkeys, hlength, -⟩ := h.active (Nat.succ_le_of_lt hi)
  have hprevious := h.previous i hi
  rw [hkeys] at hp hprevious
  match rest with
  | [] => cases hp
  | [q] =>
    obtain rfl : p = q := List.mem_singleton.mp hp
    exact List.mem_of_getElem? hprevious.symm
  | _ :: _ :: _ =>
    simp only [List.length_cons] at hlength
    omega

/-- The active `kid`s of two rings differ. -/
theorem activeKid_ne (h : Rotation P N ring keys) (hi : i ≤ N) (hj : j < i) :
    (ring j).activeKid ≠ (ring i).activeKid := by
  obtain ⟨key, rest, hkeys, -⟩ := h.active (hj.le.trans hi)
  exact h.fresh i hi j hj ((ring j).activeKid, key) (by rw [hkeys]; exact List.mem_cons_self)

/-- **A `kid` has one key** in all that the rings publish. -/
theorem only (h : Rotation P N ring keys) (hi : i ≤ N) (hm : m ≤ N)
    (hkey : P.publicOf (ring i).privatePem = some key) :
    Only (keys m) (ring i).activeKid key := by
  -- By induction on the ring: besides its own key it has one of the ring before.
  induction m with
  | zero =>
    intro key' hmem
    obtain ⟨x, rest, hkeys, -, -, hpair⟩ := h.active hm
    by_cases hi0 : i = 0
    · subst hi0
      rw [hkeys] at hmem
      rcases List.mem_cons.mp hmem with heq | hmem
      · obtain ⟨-, rfl⟩ := Prod.mk.inj heq
        exact Option.some.inj (hpair.symm.trans hkey)
      · exact absurd rfl (h.apart _ (by rw [hkeys]; exact hmem))
    · exact absurd rfl (h.fresh i hi 0 (Nat.pos_of_ne_zero hi0) _ hmem)
  | succ m ih =>
    intro key' hmem
    obtain ⟨x, rest, hkeys, -, -, hpair⟩ := h.active hm
    have htail : (keys (m + 1)).tail = rest := by rw [hkeys, List.tail_cons]
    rw [hkeys] at hmem
    rcases List.mem_cons.mp hmem with heq | hmem
    · obtain ⟨hkid, rfl⟩ := Prod.mk.inj heq
      rcases Nat.lt_trichotomy i (m + 1) with hlt | rfl | hlt
      · exact absurd hkid (h.activeKid_ne hm hlt)
      · exact Option.some.inj (hpair.symm.trans hkey)
      · exact absurd hkid.symm (h.activeKid_ne hi hlt)
    · have hbefore : ((ring i).activeKid, key') ∈ keys m := h.rest (by omega) (by rw [htail]; exact hmem)
      exact ih (by omega) key' hbefore

/-- A ring and the next one publish the active key of the first. -/
theorem holds (h : Rotation P N ring keys) (hi : i < N) (hj : j = i ∨ j = i + 1)
    (hkey : P.publicOf (ring i).privatePem = some key) :
    Holds (keys j) (ring i).activeKid key := by
  have hjN : j ≤ N := by omega
  refine ⟨?_, h.only hi.le hjN hkey⟩
  obtain ⟨x, rest, hkeys, -, -, hpair⟩ := h.active hi.le
  have hsame : x = key := Option.some.inj (hpair.symm.trans hkey)
  rcases hj with rfl | rfl
  · rw [hkeys, hsame]
    exact List.mem_cons_self
  · have hprevious := h.previous i hi
    rw [hkeys, hsame, List.getElem?_cons_zero] at hprevious
    exact List.mem_of_getElem? hprevious

/-- The active `kid` is not empty: the next configuration names it. -/
theorem activeKid_ne_empty (h : Rotation P N ring keys) (hi : i < N) : (ring i).activeKid ≠ "" := by
  obtain ⟨x, rest, hkeys, -⟩ := h.active hi.le
  obtain ⟨x', rest', hkeys', -, hrest', -⟩ := h.active (Nat.succ_le_of_lt hi)
  have hprevious := h.previous i hi
  rw [hkeys, hkeys', List.getElem?_cons_succ, List.getElem?_cons_zero] at hprevious
  exact hrest' _ (List.mem_of_getElem? hprevious)

end Rotation

/-- **A rotation logs nobody out.** In every sequence of rings, a token that
the `i`-th issued is accepted until it expires by that ring and by the next:
by the service, and by a consumer that has cached nothing or the keys of any
ring so far, stale or not, where its fetches bring the keys of the current
ring. -/
theorem rotation_logs_nobody_out {P : Pem} {L : PyJwt} {S : Env} {N : ℕ} {ring : ℕ → KeyRing}
    {keys : ℕ → List (String × RsaPublicKey)} (hL : L.Lawful P) (h : Rotation P N ring keys) {i : ℕ}
    (hi : i < N) {userId : Uuid} {role status : String} {issuedAt now : Time}
    (hsigns : L.Signs P (accessPayload S userId role status issuedAt) (ring i).privatePem
      (ring i).activeKid (L.issueAccessToken S (ring i) userId role status issuedAt))
    (hunexpired : Unexpired (accessPayload S userId role status issuedAt) now) :
    ∀ j, (j = i ∨ j = i + 1) →
      TokenService.decodeAccessToken S ⟨L.toJwtLibrary, ring j⟩
        (L.issueAccessToken S (ring i) userId role status issuedAt) now =
          .ok (accessPayload S userId role status issuedAt) ∧
      ∀ (ttlSeconds : ℤ) (v : Verifier) (a : Attempt),
        (v.keys = [] ∨ ∃ m ≤ j, v.keys = stored (keys m)) → a.now = now →
        Serves a (fun _ => keys j) →
          (claimsFor L ⟨S.settings.jwtIssuer, ttlSeconds⟩
            (L.issueAccessToken S (ring i) userId role status issuedAt) v a).1 =
              .ok (accessPayload S userId role status issuedAt) := by
  intro j hj
  have hjN : j ≤ N := by omega
  obtain ⟨key, -, -, -, -, hkey⟩ := h.active hi.le
  have hholds : Holds (keys j) (ring i).activeKid key := h.holds hi hj hkey
  have hverifies := verifies_of_signs hsigns hkey rfl hunexpired
  refine ⟨decodeAccessToken_of_holds hL (h.published j hjN) hholds hsigns.names hverifies, ?_⟩
  intro ttlSeconds v a hv hnow ha
  have hexp : ∀ _ : ℕ, Exports L (keys j) := fun _ => exports_of_published hL (h.published j hjN)
  -- What is cached has no other key under the `kid`.
  obtain ⟨cached, hcached, honly⟩ :
      ∃ cached, v.keys = stored cached ∧ Only cached (ring i).activeKid key := by
    rcases hv with hv | ⟨m, hm, hv⟩
    · exact ⟨[], hv, fun key' hmem => absurd hmem List.not_mem_nil⟩
    · exact ⟨keys m, hv, h.only hi.le (hm.trans hjN) hkey⟩
  exact claimsFor_of_holds hL hexp ha hcached (h.activeKid_ne_empty hi) honly (fun _ => hholds)
    hsigns.names (by rw [hnow]; exact hverifies)

/-! ### One rotation -/

def firstPem : Pem where
  loadPublic := samplePem.loadPublic
  publicOf pem := if pem = "old private" then some ⟨3127, 3⟩ else samplePem.publicOf pem

def firstSettings : KeySettings :=
  { jwtPrivateKeyPath := "keys/old-private.pem"
    jwtPublicKeyPath := "keys/old.pem"
    jwtActiveKid := "k1" }

def firstFiles (path : String) : Option String :=
  if path = "keys/old-private.pem" then some "old private" else sampleFiles path

/-- A ring, and the one that replaces it. -/
def rings : ℕ → KeyRing
  | 0 => ⟨"k1", "old private", [⟨"k1", "old"⟩]⟩
  | _ => rotatedRing "k1"

def ringKeys : ℕ → List (String × RsaPublicKey)
  | 0 => [("k1", ⟨3127, 3⟩)]
  | _ => [("k2", ⟨3233, 17⟩), ("k1", ⟨3127, 3⟩)]

theorem rotation_rings : Rotation firstPem 1 rings ringKeys where
  built
    | 0, _ => ⟨firstSettings, firstFiles, rfl⟩
    | 1, _ => ⟨rotated "k1", firstFiles, rfl⟩
  published
    | 0, _ => rfl
    | 1, _ => rfl
  pair
    | 0, _ => rfl
    | 1, _ => rfl
  previous
    | 0, _ => rfl
  fresh
    | 1, _, 0, _ => by decide
  apart := by decide

/-- The token of the first ring, at a consumer with the keys of that ring,
after the second has replaced it. -/
theorem rotation_logs_nobody_out_once :
    TokenService.decodeAccessToken plainEnv
        ⟨(oneKey firstPem "k1" ⟨3127, 3⟩ (accessPayload plainEnv 7 "user" "active" 0)).toJwtLibrary,
          rotatedRing "k1"⟩ "" 0 =
      .ok (accessPayload plainEnv 7 "user" "active" 0) ∧
    (claimsFor (oneKey firstPem "k1" ⟨3127, 3⟩ (accessPayload plainEnv 7 "user" "active" 0))
        ⟨plainEnv.settings.jwtIssuer, 3600⟩ "" (fetched (ringKeys 0)) (attempt (ringKeys 1) 0)).1 =
      .ok (accessPayload plainEnv 7 "user" "active" 0) := by
  have hsigns : (oneKey firstPem "k1" ⟨3127, 3⟩ (accessPayload plainEnv 7 "user" "active" 0)).Signs
      firstPem (accessPayload plainEnv 7 "user" "active" 0) "old private" "k1" "" :=
    ⟨oneKey_names _, ⟨3127, 3⟩, rfl, fun _ _ _ _ => oneKey_verifies.mpr rfl⟩
  have hunexpired : Unexpired (accessPayload plainEnv 7 "user" "active" 0) 0 :=
    ⟨_, _, rfl, rfl, by decide, by decide⟩
  obtain ⟨hdecode, hclaims⟩ := rotation_logs_nobody_out oneKey_lawful rotation_rings
    (Nat.zero_lt_one) hsigns hunexpired 1 (.inr rfl)
  exact ⟨hdecode, hclaims 3600 _ _ (.inr ⟨0, Nat.zero_le 1, rfl⟩) rfl fun _ => rfl⟩

end DiddiFreeID
