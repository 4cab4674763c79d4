/-
# Restarting a fleet onto a new key

Each process loads its key ring when it starts, so during a rolling restart
some processes sign with the new key while others do not know it yet. The
`Fleet` is the processes with the consumers' key caches and the tokens issued
so far; any process may restart, issue a token or serve a consumer's fetch at
any time.

A token whose key is known `Everywhere` when it is issued stays accepted by
every process and consumer, whatever happens next; if some process has no key
under its `kid`, that process refuses it (`rolling_rotation`). Before the last
process has restarted the new key is not known everywhere
(`new_token_refused`).

Key definitions: `Fleet`, `Fleet.step`, `Fleet.NoneRefused`, `Fleet.Everywhere`.
Key theorems: `Fleet.Inv.step`, `rolling_rotation`.
-/
import DiddiFreeID.KeyRotation

namespace DiddiFreeID

open Jwks

/-- The rings of before and after a rotation, and the keys they publish: the
previous entry of the new ring is the active key of the old one. -/
structure Restart (P : Pem) (old new : KeyRing) (oldKeys newKeys : List (String × RsaPublicKey)) :
    Prop where
  built_old : ∃ settings files, getKeyRing settings files = some old
  built_new : ∃ settings files, getKeyRing settings files = some new
  published_old : old.published P = some oldKeys
  published_new : new.published P = some newKeys
  pair_old : P.publicOf old.privatePem = oldKeys.head?.map Prod.snd
  pair_new : P.publicOf new.privatePem = newKeys.head?.map Prod.snd
  previous : newKeys[1]? = oldKeys[0]?
  activeKid_ne : new.activeKid ≠ old.activeKid

/-- The new ring publishes both active keys, each under its own `kid`. -/
theorem Restart.holds_new {P : Pem} {old new ring : KeyRing}
    {oldKeys newKeys : List (String × RsaPublicKey)} (h : Restart P old new oldKeys newKeys)
    (hring : ring = old ∨ ring = new) {key : RsaPublicKey}
    (hkey : P.publicOf ring.privatePem = some key) : Holds newKeys ring.activeKid key := by
  obtain ⟨settings, files, hbuilt⟩ := h.built_old
  obtain ⟨settings', files', hbuilt'⟩ := h.built_new
  obtain ⟨x, rest, hold, -⟩ := published_active hbuilt h.published_old
  obtain ⟨x', rest', hnew, hlength, -⟩ := published_active hbuilt' h.published_new
  have hprevious := h.previous
  have hpair := h.pair_old
  have hpair' := h.pair_new
  rw [hold] at hprevious hpair
  rw [hnew] at hprevious hpair'
  -- The new ring has two entries: its own key, and the old active one.
  obtain rfl : rest' = [(old.activeKid, x)] := by
    match rest' with
    | [] => cases hprevious
    | [q] => rw [Option.some.inj hprevious]
    | _ :: _ :: _ =>
      simp only [List.length_cons] at hlength
      omega
  rw [hnew]
  rcases hring with rfl | rfl
  · have hsame : x = key := Option.some.inj (hpair.symm.trans hkey)
    refine ⟨by simp [hsame], fun key' hmem => ?_⟩
    rcases List.mem_cons.mp hmem with heq | hmem
    · exact absurd (Prod.mk.inj heq).1.symm h.activeKid_ne
    · rw [← hsame]
      exact (Prod.mk.inj (List.mem_singleton.mp hmem)).2
  · have hsame : x' = key := Option.some.inj (hpair'.symm.trans hkey)
    refine ⟨by simp [hsame], fun key' hmem => ?_⟩
    rcases List.mem_cons.mp hmem with heq | hmem
    · rw [← hsame]
      exact (Prod.mk.inj heq).2
    · exact absurd (Prod.mk.inj (List.mem_singleton.mp hmem)).1 h.activeKid_ne

/-! ### The fleet -/

/-- A token, with the ring that issued it. -/
structure IssuedToken where
  ring : KeyRing
  payload : Claims
  token : String

/-- The processes that have restarted, the consumers' verifiers, and the
tokens issued so far. -/
structure Fleet (ι γ : Type) where
  restarted : ι → Bool
  consumers : γ → Verifier
  issued : List IssuedToken := []

/-- What happens next: a process restarts, a process issues a token, or a
consumer verifies some text, its fetches being served by processes. -/
inductive Act (ι γ : Type)
  | restart (p : ι)
  | issue (p : ι) (userId : Uuid) (role status : String) (now : Time)
  | verify (c : γ) (token : String) (clock now : Time) (route : ℕ → ι) (done : ℕ → Time)

namespace Fleet

variable {ι γ : Type}

section Step

variable (P : Pem) (L : PyJwt) (S : Env) (ttlSeconds : γ → ℤ) (old new : KeyRing)

/-- The ring that a process has loaded. -/
def ringOf (s : Fleet ι γ) (p : ι) : KeyRing := if s.restarted p then new else old

/-- A call whose `n`-th fetch is served by the process `route n`. -/
def attempt (s : Fleet ι γ) (clock now : Time) (route : ℕ → ι) (done : ℕ → Time) : Attempt where
  clock := clock
  now := now
  fetch n := (.answered 200 ((s.ringOf old new (route n)).jwks P), done n)

/-- The consumer's settings: the service's issuer, and a TTL of its own. -/
def settingsOf (c : γ) : VerifierSettings := ⟨S.settings.jwtIssuer, ttlSeconds c⟩

def step [DecidableEq ι] [DecidableEq γ] (s : Fleet ι γ) : Act ι γ → Fleet ι γ
  | .restart p => { s with restarted := Function.update s.restarted p true }
  | .issue p userId role status now =>
    { s with
      issued := s.issued ++ [⟨s.ringOf old new p, accessPayload S userId role status now,
        L.issueAccessToken S (s.ringOf old new p) userId role status now⟩] }
  | .verify c token clock now route done =>
    { s with
      consumers := Function.update s.consumers c
        (claimsFor L (settingsOf S ttlSeconds c) token (s.consumers c)
          (s.attempt P old new clock now route done)).2.verifier }

/-- What is issued is signed as the library documents. -/
def Signed (s : Fleet ι γ) : Act ι γ → Prop
  | .issue p userId role status now =>
    L.Signs P (accessPayload S userId role status now) (s.ringOf old new p).privatePem
      (s.ringOf old new p).activeKid
      (L.issueAccessToken S (s.ringOf old new p) userId role status now)
  | _ => True

/-- The fleets that a rolling restart comes to, where every step is signed and
meets `ok`. At first no process has restarted, no token is issued, and the
consumers have cached any keys. -/
inductive Reach [DecidableEq ι] [DecidableEq γ] (ok : Fleet ι γ → Act ι γ → Prop) : Fleet ι γ → Prop
  | start (consumers : γ → Verifier) : (∀ c, ∃ cached, (consumers c).keys = stored cached) →
      Reach ok { restarted := fun _ => false, consumers := consumers }
  | step {s : Fleet ι γ} (act : Act ι γ) : Reach ok s → s.Signed P L S old new act → ok s act →
      Reach ok (s.step P L S ttlSeconds old new act)

/-- Every token issued so far is accepted until it expires, by every process
and by every consumer, whichever processes serve its fetches. -/
def NoneRefused (s : Fleet ι γ) : Prop :=
  ∀ t ∈ s.issued, ∀ now, Unexpired t.payload now →
    (∀ p, TokenService.decodeAccessToken S ⟨L.toJwtLibrary, s.ringOf old new p⟩ t.token now =
      .ok t.payload) ∧
    ∀ c clock route done, (claimsFor L (settingsOf S ttlSeconds c) t.token (s.consumers c)
      (s.attempt P old new clock now route done)).1 = .ok t.payload

end Step

/-- The keys that a process publishes. -/
def keysOf (oldKeys newKeys : List (String × RsaPublicKey)) (s : Fleet ι γ) (p : ι) :
    List (String × RsaPublicKey) :=
  if s.restarted p then newKeys else oldKeys

/-- Every process publishes the key under the `kid`, which is not empty, and
no process and no consumer has another one under it. -/
structure Everywhere (oldKeys newKeys : List (String × RsaPublicKey)) (s : Fleet ι γ) (kid : String)
    (key : RsaPublicKey) : Prop where
  named : kid ≠ ""
  published : ∀ p, Holds (s.keysOf oldKeys newKeys p) kid key
  cached : ∀ c, ∀ cached, (s.consumers c).keys = stored cached → Only cached kid key

/-- The key of a token that is issued is known everywhere. -/
def Known (P : Pem) (old new : KeyRing) (oldKeys newKeys : List (String × RsaPublicKey))
    (s : Fleet ι γ) : Act ι γ → Prop
  | .issue p _ _ _ _ => ∀ key, P.publicOf (s.ringOf old new p).privatePem = some key →
      s.Everywhere oldKeys newKeys (s.ringOf old new p).activeKid key
  | _ => True

/-! ### Steps -/

section Invariant

variable {P : Pem} {L : PyJwt} {S : Env} {ttlSeconds : γ → ℤ} {old new : KeyRing}
variable {oldKeys newKeys : List (String × RsaPublicKey)} {s : Fleet ι γ}

theorem published_ringOf (h : Restart P old new oldKeys newKeys) (p : ι) :
    (s.ringOf old new p).published P = some (s.keysOf oldKeys newKeys p) := by
  unfold ringOf keysOf
  split
  · exact h.published_new
  · exact h.published_old

theorem ringOf_cases (s : Fleet ι γ) (p : ι) : s.ringOf old new p = old ∨ s.ringOf old new p = new := by
  unfold ringOf
  split
  · exact .inr rfl
  · exact .inl rfl

/-- A consumer's fetches bring the keys of the processes that serve them. -/
theorem serves_attempt (h : Restart P old new oldKeys newKeys) (clock now : Time) (route : ℕ → ι)
    (done : ℕ → Time) :
    Serves (s.attempt P old new clock now route done)
      fun n => s.keysOf oldKeys newKeys (route n) := by
  intro n
  have hjwks : (s.ringOf old new (route n)).jwks P =
      some (documentOf (s.keysOf oldKeys newKeys (route n))) := by
    rw [jwks_eq, published_ringOf h, Option.map_some]
  simp only [attempt, hjwks]

theorem exports_keysOf (hL : L.Lawful P) (h : Restart P old new oldKeys newKeys) (p : ι) :
    Exports L (s.keysOf oldKeys newKeys p) :=
  exports_of_published hL (published_ringOf h p)

/-- The keys that a call decides on are the cached ones, or were served to it. -/
theorem selection_fst (cached : List (String × RsaPublicKey)) (expired : Bool)
    (served : ℕ → List (String × RsaPublicKey)) (kid : String) :
    (selection cached expired served kid).1 = cached ∨
      ∃ n, (selection cached expired served kid).1 = served n := by
  unfold selection
  cases expired with
  | true =>
    by_cases hk : (lastKey (served 0) kid).isSome
    · exact .inr ⟨0, by simp [hk]⟩
    · exact .inr ⟨1, by simp [hk]⟩
  | false =>
    by_cases hk : (lastKey cached kid).isSome
    · exact .inl (by simp [hk])
    · exact .inr ⟨0, by simp [hk]⟩

theorem stored_inj {keys keys' : List (String × RsaPublicKey)} :
    stored keys = stored keys' ↔ keys = keys' := by
  refine List.map_inj_right fun p q h => ?_
  obtain ⟨hkid, hkey⟩ := Prod.mk.inj h
  exact Prod.ext (Json.str.inj hkid) hkey

/-- What a call leaves in the cache was there, or was served to it. -/
theorem cache_of_claimsFor {C : VerifierSettings} {token : String} {v : Verifier} {a : Attempt}
    {cached : List (String × RsaPublicKey)} {served : ℕ → List (String × RsaPublicKey)}
    (hL : L.Lawful P) (hexp : ∀ n, Exports L (served n)) (ha : Serves a served)
    (hv : v.keys = stored cached) :
    (claimsFor L C token v a).2.verifier.keys = stored cached ∨
      ∃ n, (claimsFor L C token v a).2.verifier.keys = stored (served n) := by
  by_cases hnames : ∃ kid, kid ≠ "" ∧ L.Names token kid
  · obtain ⟨kid, hkid, hnames⟩ := hnames
    have hleaves := (keyFor_served (C := C) hexp ha hv kid rfl).2
    rw [(claimsFor_of_names hkid hnames).2, hleaves]
    rcases selection_fst cached (v.expired C a) served kid with hs | ⟨n, hs⟩
    · exact .inl (congrArg stored hs)
    · exact .inr ⟨n, congrArg stored hs⟩
  · have hnone : ∀ kid, kid ≠ "" → ¬ L.Names token kid := fun kid hkid hn => hnames ⟨kid, hkid, hn⟩
    rw [(claimsFor_of_not_names hL hnone).2]
    exact .inl hv

/-- What stays true of a fleet: the keys of the tokens issued so far are known
everywhere. -/
structure Inv (P : Pem) (L : PyJwt) (S : Env) (old new : KeyRing)
    (oldKeys newKeys : List (String × RsaPublicKey)) (s : Fleet ι γ) : Prop where
  cached : ∀ c, ∃ cached, (s.consumers c).keys = stored cached
  issued : ∀ t ∈ s.issued, (t.ring = old ∨ t.ring = new) ∧
    L.Signs P t.payload t.ring.privatePem t.ring.activeKid t.token ∧
    t.payload.lookup "iss" = some (.str S.settings.jwtIssuer) ∧
    ∀ key, P.publicOf t.ring.privatePem = some key →
      s.Everywhere oldKeys newKeys t.ring.activeKid key

theorem Everywhere.restart [DecidableEq ι] {kid : String} {key : RsaPublicKey}
    (h : s.Everywhere oldKeys newKeys kid key) (hnew : Holds newKeys kid key) (p : ι) :
    Everywhere oldKeys newKeys { s with restarted := Function.update s.restarted p true } kid key where
  named := h.named
  published := by
    intro q
    have hq := h.published q
    unfold keysOf at hq ⊢
    by_cases hqp : q = p
    · simpa [hqp] using hnew
    · simpa [Function.update_of_ne hqp] using hq
  cached := h.cached

theorem Everywhere.verify [DecidableEq γ] {kid : String} {key : RsaPublicKey} {c : γ} {v : Verifier}
    (h : s.Everywhere oldKeys newKeys kid key)
    (hv : v.keys = (s.consumers c).keys ∨ ∃ p, v.keys = stored (s.keysOf oldKeys newKeys p)) :
    Everywhere oldKeys newKeys { s with consumers := Function.update s.consumers c v } kid key where
  named := h.named
  published := h.published
  cached := by
    intro c' cached hcached
    by_cases hc : c' = c
    · subst hc
      simp only [Function.update_self] at hcached
      rcases hv with hv | ⟨p, hv⟩
      · exact h.cached c' cached (hv.symm.trans hcached)
      · rw [stored_inj.mp (hcached.symm.trans hv)]
        exact (h.published p).only
    · simp only [Function.update_of_ne hc] at hcached
      exact h.cached c' cached hcached

/-- A step keeps what is known everywhere. -/
theorem Everywhere.step [DecidableEq ι] [DecidableEq γ] {kid : String} {key : RsaPublicKey}
    (hL : L.Lawful P) (hset : Restart P old new oldKeys newKeys)
    (hcached : ∀ c, ∃ cached, (s.consumers c).keys = stored cached)
    (h : s.Everywhere oldKeys newKeys kid key) (hnew : Holds newKeys kid key) (act : Act ι γ) :
    (s.step P L S ttlSeconds old new act).Everywhere oldKeys newKeys kid key := by
  cases act with
  | restart p => exact h.restart hnew p
  | issue p userId role status now => exact ⟨h.named, h.published, h.cached⟩
  | verify c token clock now route done =>
    obtain ⟨cached, hc⟩ := hcached c
    refine h.verify ?_
    rcases cache_of_claimsFor hL (fun n => exports_keysOf hL hset (route n))
      (serves_attempt hset clock now route done) hc with hv | ⟨n, hv⟩
    · exact .inl (hv.trans hc.symm)
    · exact .inr ⟨route n, hv⟩

theorem cached_step [DecidableEq ι] [DecidableEq γ] (hL : L.Lawful P)
    (hset : Restart P old new oldKeys newKeys)
    (hcached : ∀ c, ∃ cached, (s.consumers c).keys = stored cached) (act : Act ι γ) (c : γ) :
    ∃ cached, ((s.step P L S ttlSeconds old new act).consumers c).keys = stored cached := by
  cases act with
  | restart p => exact hcached c
  | issue p userId role status now => exact hcached c
  | verify c' token clock now route done =>
    obtain ⟨cached, hc⟩ := hcached c'
    by_cases h : c = c'
    · subst h
      simp only [Fleet.step, Function.update_self]
      rcases cache_of_claimsFor hL (fun n => exports_keysOf hL hset (route n))
        (serves_attempt hset clock now route done) hc with hv | ⟨n, hv⟩
      · exact ⟨cached, hv⟩
      · exact ⟨_, hv⟩
    · simp only [Fleet.step, Function.update_of_ne h]
      exact hcached c

theorem Inv.step [DecidableEq ι] [DecidableEq γ] (hL : L.Lawful P)
    (hset : Restart P old new oldKeys newKeys) (h : s.Inv P L S old new oldKeys newKeys)
    {act : Act ι γ} (hsigned : s.Signed P L S old new act)
    (hknown : s.Known P old new oldKeys newKeys act) :
    (s.step P L S ttlSeconds old new act).Inv P L S old new oldKeys newKeys where
  cached := cached_step hL hset h.cached act
  issued := by
    -- What was issued before stays known everywhere.
    have hbefore : ∀ t ∈ s.issued, (t.ring = old ∨ t.ring = new) ∧
        L.Signs P t.payload t.ring.privatePem t.ring.activeKid t.token ∧
        t.payload.lookup "iss" = some (.str S.settings.jwtIssuer) ∧
        ∀ key, P.publicOf t.ring.privatePem = some key →
          (s.step P L S ttlSeconds old new act).Everywhere oldKeys newKeys t.ring.activeKid key := by
      intro t ht
      obtain ⟨hring, hsigns, hissuer, hkey⟩ := h.issued t ht
      exact ⟨hring, hsigns, hissuer, fun key hpair =>
        (hkey key hpair).step hL hset h.cached (hset.holds_new hring hpair) act⟩
    cases act with
    | restart p => exact hbefore
    | verify c token clock now route done => exact hbefore
    | issue p userId role status now =>
      intro t ht
      rcases List.mem_append.mp ht with ht | ht
      · exact hbefore t ht
      · obtain rfl := List.mem_singleton.mp ht
        exact ⟨s.ringOf_cases p, hsigned, rfl, fun key hpair =>
          (hknown key hpair).step hL hset h.cached (hset.holds_new (s.ringOf_cases p) hpair)
            (.issue p userId role status now)⟩

/-- What is known everywhere is refused nowhere. -/
theorem Inv.noneRefused (hL : L.Lawful P) (hset : Restart P old new oldKeys newKeys)
    (h : s.Inv P L S old new oldKeys newKeys) : s.NoneRefused P L S ttlSeconds old new := by
  intro t ht now hunexpired
  obtain ⟨-, hsigns, hissuer, hkey⟩ := h.issued t ht
  obtain ⟨key, hpair, -⟩ := hsigns.verifies
  have hevery : s.Everywhere oldKeys newKeys t.ring.activeKid key := hkey key hpair
  have hverifies : L.verifies S.settings.jwtIssuer t.token key now = .ok t.payload :=
    verifies_of_signs hsigns hpair hissuer hunexpired
  refine ⟨fun p => decodeAccessToken_of_holds hL (published_ringOf hset p) (hevery.published p)
    hsigns.names hverifies, fun c clock route done => ?_⟩
  obtain ⟨cached, hcached⟩ := h.cached c
  exact claimsFor_of_holds hL (fun n => exports_keysOf hL hset (route n))
    (serves_attempt hset clock now route done) hcached hevery.named (hevery.cached c cached hcached)
    (fun n => hevery.published (route n)) hsigns.names hverifies

/-- A process that has no key under a token's `kid` refuses it. -/
theorem refused_of_unpublished (hL : L.Lawful P) (hset : Restart P old new oldKeys newKeys)
    {p : ι} {kid token : String} {now : Time} {claims : Claims} (hnames : L.Names token kid)
    (hnone : ∀ key, (kid, key) ∉ s.keysOf oldKeys newKeys p) :
    TokenService.decodeAccessToken S ⟨L.toJwtLibrary, s.ringOf old new p⟩ token now ≠ .ok claims := by
  intro hok
  obtain ⟨kid', key, hnames', hlookup, -⟩ :=
    (decodeAccessToken_eq_ok hL (published_ringOf hset p)).mp hok
  rw [hnames'.unique hnames] at hlookup
  exact hnone key (mem_of_lookup hlookup)

end Invariant

end Fleet

section Rolling

variable {ι γ : Type} [DecidableEq ι] [DecidableEq γ]
variable {P : Pem} {L : PyJwt} {S : Env} {ttlSeconds : γ → ℤ} {old new : KeyRing}
variable {oldKeys newKeys : List (String × RsaPublicKey)} {s : Fleet ι γ}

theorem Fleet.Reach.inv (hL : L.Lawful P) (hset : Restart P old new oldKeys newKeys)
    (h : Fleet.Reach P L S ttlSeconds old new (fun s => s.Known P old new oldKeys newKeys) s) :
    s.Inv P L S old new oldKeys newKeys := by
  induction h with
  | start consumers hcached => exact ⟨hcached, fun t ht => absurd ht List.not_mem_nil⟩
  | step act _ hsigned hknown ih => exact ih.step hL hset hsigned hknown

/-- **A rolling restart refuses no token whose key is known everywhere.** In
every fleet that a rolling restart comes to by steps that only issue such
tokens, every token issued so far is accepted until it expires by every
process and every consumer, whichever processes serve its fetches. And the
next token has to be of that kind: one whose `kid` some process has no key
under is refused there as long as it is valid. -/
theorem rolling_rotation (hL : L.Lawful P) (hset : Restart P old new oldKeys newKeys)
    (h : Fleet.Reach P L S ttlSeconds old new (fun s => s.Known P old new oldKeys newKeys) s) :
    s.NoneRefused P L S ttlSeconds old new ∧
      ∀ p userId role status issuedAt,
        s.Signed P L S old new (.issue p userId role status issuedAt) →
        (∃ q, ∀ key, ((s.ringOf old new p).activeKid, key) ∉ s.keysOf oldKeys newKeys q) →
        (∃ now, Unexpired (accessPayload S userId role status issuedAt) now) →
          ¬ (s.step P L S ttlSeconds old new (.issue p userId role status issuedAt)).NoneRefused
            P L S ttlSeconds old new := by
  refine ⟨(h.inv hL hset).noneRefused hL hset, ?_⟩
  intro p userId role status issuedAt hsigned hq hunexpired hnone
  obtain ⟨q, hq⟩ := hq
  obtain ⟨now, hunexpired⟩ := hunexpired
  have hmem : (⟨s.ringOf old new p, accessPayload S userId role status issuedAt,
      L.issueAccessToken S (s.ringOf old new p) userId role status issuedAt⟩ : IssuedToken) ∈
        (s.step P L S ttlSeconds old new (.issue p userId role status issuedAt)).issued := by
    simp [Fleet.step]
  have haccepted := (hnone _ hmem now hunexpired).1 q
  exact Fleet.refused_of_unpublished (s := s) hL hset hsigned.names hq haccepted

end Rolling

/-! ### Two processes -/

/-- A library whose tokens are the private keys they are signed with, and
carry one payload. -/
def twoKeys (payload : Claims) : PyJwt where
  getUnverifiedHeader token := .ok [("kid", .str (if token = "private" then "k2" else "k1"))]
  decode token pem _ _ _ _ :=
    if (firstPem.rsa pem).isSome ∧ firstPem.publicOf token = firstPem.rsa pem then .ok payload
    else .error (.invalidToken "Signature verification failed")
  encode _ pem _ _ := pem
  fromDict := rsaOfJwk
  decodeJwk token key _ _ _ _ :=
    if firstPem.publicOf token = some key then .ok payload
    else .error (.invalidToken "Signature verification failed")

section TwoKeys

variable {payload : Claims}

theorem twoKeys_lawful : (twoKeys payload).Lawful firstPem where
  header_kid := by
    rintro token _ ⟨⟩ kid h
    exact ⟨_, by simpa [List.lookup_cons] using h.symm⟩
  decode_pem := by
    intro _ _ h _ _ _ _ _
    simp [twoKeys, h]
  fromDict_jwkOf := by
    intro _ key _ kid
    simp only [twoKeys, rsaOfJwk_jwkOf kid key]

theorem twoKeys_names (token : String) :
    (twoKeys payload).Names token (if token = "private" then "k2" else "k1") :=
  ⟨_, rfl, List.lookup_cons_self⟩

theorem twoKeys_signs {pem kid : String} {key : RsaPublicKey} (hkey : firstPem.publicOf pem = some key)
    (hkid : (if pem = "private" then "k2" else "k1") = kid) :
    (twoKeys payload).Signs firstPem payload pem kid pem where
  names := by
    rw [← hkid]
    exact twoKeys_names pem
  verifies := ⟨key, hkey, fun _ _ _ _ => by simp [PyJwt.verifies, twoKeys, hkey]⟩

end TwoKeys

theorem restart_rings : Restart firstPem (rings 0) (rings 1) (ringKeys 0) (ringKeys 1) where
  built_old := rotation_rings.built 0 (Nat.zero_le 1)
  built_new := rotation_rings.built 1 le_rfl
  published_old := rfl
  published_new := rfl
  pair_old := rfl
  pair_new := rfl
  previous := rfl
  activeKid_ne := by decide

/-- Two processes on the old ring, and a consumer that has cached nothing. -/
def twoProcesses : Fleet Bool Unit where
  restarted _ := false
  consumers _ := {}

def samplePayload : Claims := accessPayload plainEnv 7 "user" "active" 0

/-- A step of the two processes. -/
def sampleStep (s : Fleet Bool Unit) (act : Act Bool Unit) : Fleet Bool Unit :=
  s.step firstPem (twoKeys samplePayload) plainEnv (fun _ => 3600) (rings 0) (rings 1) act

/-- The new key signs once both processes have restarted. -/
theorem rolling_rotation_drained :
    ([.issue false 7 "user" "active" 0, .restart false, .restart true,
      .issue true 7 "user" "active" 0].foldl sampleStep twoProcesses).NoneRefused firstPem
        (twoKeys samplePayload) plainEnv (fun _ => 3600) (rings 0) (rings 1) := by
  have hcached : ∀ keys, [] = stored keys → ∀ kid key, Only keys kid key := by
    intro keys hkeys kid key key' hmem
    rw [List.map_eq_nil_iff.mp hkeys.symm] at hmem
    cases hmem
  have hold : twoProcesses.Everywhere (ringKeys 0) (ringKeys 1) "k1" ⟨3127, 3⟩ :=
    ⟨by decide, fun _ => ⟨List.mem_cons_self, by simp [Only, Fleet.keysOf, twoProcesses, ringKeys]⟩,
      fun _ cached h => hcached cached h _ _⟩
  have hstart : Fleet.Reach firstPem (twoKeys samplePayload) plainEnv (fun _ : Unit => 3600) (rings 0)
      (rings 1) (fun s => s.Known firstPem (rings 0) (rings 1) (ringKeys 0) (ringKeys 1))
      twoProcesses := .start _ fun _ => ⟨[], rfl⟩
  have hissue := hstart.step (.issue false 7 "user" "active" 0) (twoKeys_signs rfl rfl)
    (fun key hkey => by
      obtain rfl : ⟨3127, 3⟩ = key := Option.some.inj hkey
      exact hold)
  have hdrained := (hissue.step (.restart false) trivial trivial).step (.restart true) trivial trivial
  have hlast := hdrained.step (.issue true 7 "user" "active" 0) (twoKeys_signs rfl rfl)
    (fun key hkey => by
      obtain rfl : ⟨3233, 17⟩ = key := Option.some.inj hkey
      exact ⟨by decide, fun p => by cases p <;> exact restart_rings.holds_new (.inr rfl) rfl,
        fun _ cached h => hcached cached h _ _⟩)
  exact (rolling_rotation twoKeys_lawful restart_rings hlast).1

/-- One process has restarted and issues a token, which the other refuses. -/
theorem new_token_refused :
    ∃ s : Fleet Bool Unit,
      s = [.restart true, .issue true 7 "user" "active" 0].foldl sampleStep twoProcesses ∧
      (twoKeys samplePayload).Lawful firstPem ∧
      Restart firstPem (rings 0) (rings 1) (ringKeys 0) (ringKeys 1) ∧
      Fleet.Reach firstPem (twoKeys samplePayload) plainEnv (fun _ : Unit => 3600) (rings 0) (rings 1)
        (fun _ _ => True) s ∧
      s.issued = [⟨rings 1, samplePayload, "private"⟩] ∧ Unexpired samplePayload 0 ∧
      TokenService.decodeAccessToken plainEnv
        ⟨(twoKeys samplePayload).toJwtLibrary, s.ringOf (rings 0) (rings 1) false⟩ "private" 0 =
          .error (.api unknownKid) ∧
      ¬ s.NoneRefused firstPem (twoKeys samplePayload) plainEnv (fun _ => 3600) (rings 0) (rings 1) := by
  have hstart : Fleet.Reach firstPem (twoKeys samplePayload) plainEnv (fun _ : Unit => 3600) (rings 0)
      (rings 1) (fun _ _ => True) twoProcesses := .start _ fun _ => ⟨[], rfl⟩
  have hissued := (hstart.step (.restart true) trivial trivial).step
    (.issue true 7 "user" "active" 0) (twoKeys_signs rfl rfl) trivial
  have hunexpired : Unexpired samplePayload 0 := ⟨_, _, rfl, rfl, by decide, by decide⟩
  refine ⟨_, rfl, twoKeys_lawful, restart_rings, hissued, rfl, hunexpired, rfl, fun hnone => ?_⟩
  have haccepted := (hnone _ List.mem_cons_self 0 hunexpired).1 false
  refine Fleet.refused_of_unpublished twoKeys_lawful restart_rings (twoKeys_names "private") ?_ haccepted
  simp [sampleStep, Fleet.keysOf, Fleet.step, twoProcesses, ringKeys]

end DiddiFreeID
