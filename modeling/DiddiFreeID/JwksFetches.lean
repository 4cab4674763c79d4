/-
# How often a verifier fetches the key set

Within one TTL window, against a key set that does not change, a verifier
loads the keys once, and from then on every call whose `kid` is not published
costs one fetch: nothing remembers that a `kid` is unknown. So the number of
fetches is the one load plus the number of those calls (`fetchCount_eq`), and
it is at most two exactly if there is at most one of them (`few_fetches_iff`).

Key definitions: `Jwks.fetchCount`, `Jwks.unknownFromLoad`, `Jwks.FewFetches`.
Key theorems: `Jwks.fetches_known`, `Jwks.fetchCount_loaded`, `Jwks.fetchCount_eq`,
`Jwks.few_fetches_iff`.
-/
import DiddiFreeID.SameVerification

namespace DiddiFreeID

namespace Jwks

/-! ### Sequences of calls -/

section Calls

variable (L : PyJwt) (C : VerifierSettings)

/-- The `kid` that `verify` looks a token up by. -/
def kidOf (token : String) : Option String :=
  match L.getUnverifiedHeader token with
  | .ok header =>
    match header.lookup "kid" with
    | some (.str kid) => if kid = "" then none else some kid
    | _ => none
  | .error _ => none

/-- The verifier after some calls, each a token and when it is verified. -/
def after (v : Verifier) (calls : List (String × Attempt)) : Verifier :=
  calls.foldl (fun v call => (verify L C call.1 v call.2).2.verifier) v

/-- The fetches that the calls make. -/
def fetchCount : Verifier → List (String × Attempt) → ℕ
  | _, [] => 0
  | v, call :: calls =>
    (verify L C call.1 v call.2).2.fetches + fetchCount (verify L C call.1 v call.2).2.verifier calls

/-- At most two fetches, and none by a call whose `kid` is cached and fresh. -/
structure FewFetches (v : Verifier) (calls : List (String × Attempt)) : Prop where
  count : fetchCount L C v calls ≤ 2
  cached : ∀ before call rest, calls = before ++ call :: rest →
    ∀ kid, kidOf L call.1 = some kid → ((after L C v before).key (.str kid)).isSome →
      (after L C v before).expired C call.2 = false →
        (verify L C call.1 (after L C v before) call.2).2.fetches = 0

/-- The call makes a fetch: its cache is empty or stale, or lacks its `kid`. -/
def loads (v : Verifier) (call : String × Attempt) : Bool :=
  (kidOf L call.1).any fun kid => v.expired C call.2 || (v.key (.str kid)).isNone

/-- The call has a `kid` which is not among the keys. -/
def unknown (keys : List (String × RsaPublicKey)) (call : String × Attempt) : Bool :=
  (kidOf L call.1).any fun kid => (lastKey keys kid).isNone

/-- The calls with an unknown `kid` from the first fetch on. The call that
makes it counts if the cache was empty or stale. -/
def unknownFromLoad (keys : List (String × RsaPublicKey)) (v : Verifier) :
    List (String × Attempt) → ℕ
  | [] => 0
  | call :: calls =>
    if loads L C v call then
      (if v.expired C call.2 && unknown L keys call then 1 else 0) + calls.countP (unknown L keys)
    else unknownFromLoad keys v calls

/-- No fetch of the calls is stale at another one. -/
def Window (calls : List (String × Attempt)) : Prop :=
  ∃ opened, ∀ call ∈ calls, call.2.clock ≤ opened + seconds C.ttlSeconds ∧
    ∀ n, opened ≤ (call.2.fetch n).2

end Calls

/-! ### One call -/

section Call

variable {L : PyJwt} {C : VerifierSettings} {P : Pem} {v : Verifier} {a : Attempt} {token kid : String}
variable {keys cached : List (String × RsaPublicKey)}

theorem kidOf_eq_some : kidOf L token = some kid ↔ kid ≠ "" ∧ L.Names token kid := by
  unfold kidOf PyJwt.Names
  cases L.getUnverifiedHeader token with
  | error e => simp
  | ok header =>
    cases hkid : header.lookup "kid" with
    | none => simp [hkid]
    | some value =>
      cases value with
      | str kid' =>
        by_cases hempty : kid' = ""
        · subst hempty
          simp [hkid]
        · simp only [hempty, if_false, Option.some.injEq, Except.ok.injEq, exists_eq_left', hkid,
            Json.str.injEq]
          exact ⟨fun h => ⟨h ▸ hempty, h⟩, fun h => h.2⟩
      | _ => simp [hkid]

theorem verify_snd : (verify L C token v a).2 = (claimsFor L C token v a).2 := by
  unfold verify
  rcases claimsFor L C token v a with ⟨_ | claims, s⟩ <;> rfl

/-- A token without a `kid` is refused before the cache is looked at. -/
theorem verify_of_no_kid (hL : L.Lawful P) (h : kidOf L token = none) :
    (verify L C token v a).2 = ⟨v, 0⟩ := by
  have hnone : ∀ kid, kid ≠ "" → ¬ L.Names token kid := by
    intro kid hkid hnames
    rw [kidOf_eq_some.mpr ⟨hkid, hnames⟩] at h
    cases h
  rw [verify_snd, (claimsFor_of_not_names hL hnone).2]

/-- A cached and fresh `kid` makes no fetch. -/
theorem fetches_known (hkid : kidOf L token = some kid) (hfresh : v.expired C a = false)
    (hkey : (v.key (.str kid)).isSome) : (verify L C token v a).2 = ⟨v, 0⟩ := by
  obtain ⟨hne, hnames⟩ := kidOf_eq_some.mp hkid
  obtain ⟨key, hkey⟩ := Option.isSome_iff_exists.mp hkey
  rw [verify_snd, (claimsFor_of_names hne hnames).2]
  simp [keyFor, refreshIf, hfresh, hkey, Json.hashable]

/-- Against an endpoint that serves `keys`, a call leaves what `selection`
says. -/
theorem verify_served (hexp : Exports L keys) (ha : Serves a fun _ => keys) (hv : v.keys = stored cached)
    (hkid : kidOf L token = some kid) {s : List (String × RsaPublicKey) × ℕ}
    (hs : selection cached (v.expired C a) (fun _ => keys) kid = s) :
    (verify L C token v a).2 = leaves v a s.1 s.2 := by
  obtain ⟨hne, hnames⟩ := kidOf_eq_some.mp hkid
  rw [verify_snd, (claimsFor_of_names hne hnames).2]
  exact (keyFor_served (fun _ => hexp) ha hv kid hs).2

end Call

/-! ### A window -/

section Window

variable {L : PyJwt} {C : VerifierSettings} {P : Pem} {keys cached : List (String × RsaPublicKey)}
variable {v : Verifier} {calls : List (String × Attempt)} {opened : Time}

/-- **Once the keys are loaded** every call with an unknown `kid` makes one
fetch, and no other does. -/
theorem fetchCount_loaded (hL : L.Lawful P) (hexp : Exports L keys) (hne : keys ≠ [])
    (hserves : ∀ call ∈ calls, Serves call.2 fun _ => keys)
    (hwindow : ∀ call ∈ calls, call.2.clock ≤ opened + seconds C.ttlSeconds ∧
      ∀ n, opened ≤ (call.2.fetch n).2) (hv : v.keys = stored keys) (hopened : opened ≤ v.fetchedAt) :
    fetchCount L C v calls = calls.countP (unknown L keys) := by
  induction calls generalizing v with
  | nil => rfl
  | cons call calls ih =>
    obtain ⟨hclock, hdone⟩ := hwindow call List.mem_cons_self
    have hrest : ∀ w : Verifier, w.keys = stored keys → opened ≤ w.fetchedAt →
        fetchCount L C w calls = calls.countP (unknown L keys) := fun w hw ho =>
      ih (fun c hc => hserves c (List.mem_cons_of_mem _ hc))
        (fun c hc => hwindow c (List.mem_cons_of_mem _ hc)) hw ho
    have hfresh : v.expired C call.2 = false := by
      have hkeys : v.keys.isEmpty = false := by
        rw [hv, stored, List.isEmpty_map, List.isEmpty_eq_false_iff]
        exact hne
      have hage : call.2.clock - v.fetchedAt ≤ seconds C.ttlSeconds :=
        calc call.2.clock - v.fetchedAt ≤ call.2.clock - opened := Int.sub_le_sub_left hopened _
          _ ≤ seconds C.ttlSeconds := Int.sub_left_le_of_le_add hclock
      rw [Verifier.expired, hkeys, Bool.false_or, decide_eq_false_iff_not]
      exact Int.not_lt.mpr hage
    rw [fetchCount, List.countP_cons]
    cases hkid : kidOf L call.1 with
    | none =>
      rw [verify_of_no_kid hL hkid, hrest v hv hopened]
      simp [unknown, hkid]
    | some kid =>
      have hserved : ∀ n, selection keys (v.expired C call.2) (fun _ => keys) kid = (keys, n) →
          (verify L C call.1 v call.2).2 = leaves v call.2 keys n := fun n hs =>
        verify_served hexp (hserves call List.mem_cons_self) hv hkid hs
      cases hk : lastKey keys kid with
      | some key =>
        rw [hserved 0 (by simp [selection, hfresh, hk]),
          hrest (leaves v call.2 keys 0).verifier rfl hopened]
        simp [leaves, unknown, hkid, hk]
      | none =>
        rw [hserved 1 (by simp [selection, hfresh, hk]),
          hrest (leaves v call.2 keys 1).verifier rfl (hdone 0)]
        simp [leaves, unknown, hkid, hk, Nat.add_comm]

/-- A call that does not load makes no fetch. -/
theorem verify_of_not_loads (hL : L.Lawful P) {call : String × Attempt}
    (h : loads L C v call = false) : (verify L C call.1 v call.2).2 = ⟨v, 0⟩ := by
  cases hkid : kidOf L call.1 with
  | none => exact verify_of_no_kid hL hkid
  | some kid =>
    simp only [loads, hkid, Option.any_some, Bool.or_eq_false_iff,
      Option.isNone_eq_false_iff] at h
    exact fetches_known hkid h.1 h.2

/-- A call that loads leaves the published keys; it makes one fetch, and a
second one if its `kid` is unknown and the first was made for the cache's age. -/
theorem verify_of_loads (hexp : Exports L keys) {call : String × Attempt}
    (hserves : Serves call.2 fun _ => keys) (hv : v.keys = stored cached)
    (h : loads L C v call = true) : (verify L C call.1 v call.2).2 =
      leaves v call.2 keys
        (1 + (if v.expired C call.2 && unknown L keys call then 1 else 0)) := by
  obtain ⟨kid, hkid, hload⟩ := (Option.any_eq_true _ _).mp h
  refine verify_served (s := (keys, _)) hexp hserves hv hkid ?_
  cases hexpired : v.expired C call.2 with
  | true =>
    cases hk : lastKey keys kid with
    | some key => simp [selection, unknown, hkid, hk]
    | none => simp [selection, unknown, hkid, hk]
  | false =>
    have hk : lastKey cached kid = none := by
      rw [hexpired, Bool.false_or, key_stored hv] at hload
      exact Option.isNone_iff_eq_none.mp hload
    simp [selection, hk]

/-- **The fetches of a window**: none if no call makes one, else the load and
one for each unknown `kid` from then on. -/
theorem fetchCount_eq (hL : L.Lawful P) (hexp : Exports L keys) (hne : keys ≠ [])
    (hserves : ∀ call ∈ calls, Serves call.2 fun _ => keys) (hwindow : Window C calls)
    (hv : v.keys = stored cached) :
    fetchCount L C v calls =
      if calls.any (loads L C v) then 1 + unknownFromLoad L C keys v calls else 0 := by
  obtain ⟨opened, hwindow⟩ := hwindow
  induction calls with
  | nil => rfl
  | cons call calls ih =>
    obtain ⟨-, hdone⟩ := hwindow call List.mem_cons_self
    have hserves' : ∀ c ∈ calls, Serves c.2 fun _ => keys :=
      fun c hc => hserves c (List.mem_cons_of_mem _ hc)
    have hwindow' := fun c hc => hwindow c (List.mem_cons_of_mem call hc)
    rw [fetchCount, unknownFromLoad, List.any_cons]
    cases hloads : loads L C v call with
    | true =>
      -- The first fetch: from here on the keys are loaded.
      have hrest : ∀ n, fetchCount L C (leaves v call.2 keys (1 + n)).verifier calls =
          calls.countP (unknown L keys) := by
        intro n
        rw [Nat.add_comm]
        exact fetchCount_loaded hL hexp hne hserves' hwindow' rfl (hdone n)
      rw [verify_of_loads hexp (hserves call List.mem_cons_self) hv hloads, hrest, Bool.true_or,
        if_pos rfl, if_pos rfl]
      exact Nat.add_assoc 1 _ _
    | false =>
      -- No fetch: the verifier is as it was.
      rw [verify_of_not_loads hL hloads, Bool.false_or, Nat.zero_add]
      exact ih hserves' hwindow'

theorem unknownFromLoad_of_no_load (h : calls.any (loads L C v) = false) :
    unknownFromLoad L C keys v calls = 0 := by
  induction calls with
  | nil => rfl
  | cons call calls ih =>
    rw [List.any_cons, Bool.or_eq_false_iff] at h
    rw [unknownFromLoad, h.1]
    exact ih h.2

/-- **A window costs at most two fetches exactly if it has at most one unknown
`kid`** from the first fetch on; a call whose `kid` is cached and fresh never
makes one. -/
theorem few_fetches_iff {settings : KeySettings} {files : String → Option String} {ring : KeyRing}
    (hL : L.Lawful P) (hring : getKeyRing settings files = some ring)
    (hkeys : ring.published P = some keys) (hserves : ∀ call ∈ calls, Serves call.2 fun _ => keys)
    (hwindow : Window C calls) (hv : v.keys = stored cached) :
    FewFetches L C v calls ↔ unknownFromLoad L C keys v calls ≤ 1 := by
  have hne : keys ≠ [] := by
    obtain ⟨key, rest, hcons, -⟩ := published_active hring hkeys
    rw [hcons]
    exact List.cons_ne_nil _ _
  have hcount := fetchCount_eq hL (exports_of_published hL hkeys) hne hserves hwindow hv
  constructor
  · rintro ⟨hfew, -⟩
    cases hany : calls.any (loads L C v) with
    | false =>
      rw [unknownFromLoad_of_no_load hany]
      exact Nat.zero_le 1
    | true =>
      rw [hcount, hany, if_pos rfl] at hfew
      omega
  · intro hone
    refine ⟨?_, fun before call rest _ kid hkid hkey hfresh => ?_⟩
    · rw [hcount]
      split <;> omega
    · rw [fetches_known hkid hfresh hkey]

end Window

/-! ### A flood of bogus tokens -/

/-- A library whose tokens are their own `kid`s, and verify to nothing. -/
def echoKid : PyJwt where
  getUnverifiedHeader token := .ok [("kid", .str token)]
  decode _ _ _ _ _ _ := .error (.invalidToken "Signature verification failed")
  encode _ _ _ _ := ""
  fromDict := rsaOfJwk
  decodeJwk _ _ _ _ _ _ := .error (.invalidToken "Signature verification failed")

theorem echoKid_lawful : echoKid.Lawful samplePem where
  header_kid := by
    rintro token _ ⟨⟩ kid h
    exact ⟨token, by simpa [List.lookup_cons] using h.symm⟩
  decode_pem := fun _ _ _ _ _ _ => rfl
  fromDict_jwkOf := by
    intro _ key _ kid
    simp only [echoKid, rsaOfJwk_jwkOf kid key]

def twoPublished : List (String × RsaPublicKey) := [("k2", ⟨3233, 17⟩), ("k1", ⟨3127, 3⟩)]

/-- Calls that carry these `kid`s, at one time. -/
def callsOf (kids : List String) : List (String × Attempt) :=
  kids.map fun kid => (kid, attempt twoPublished 0)

theorem callsOf_served (kids : List String) :
    ∀ call ∈ callsOf kids, Serves call.2 fun _ => twoPublished := by
  intro call hcall
  obtain ⟨kid, -, rfl⟩ := List.mem_map.mp hcall
  exact fun _ => rfl

theorem callsOf_window (kids : List String) : Window {} (callsOf kids) := by
  refine ⟨0, fun call hcall => ?_⟩
  obtain ⟨kid, -, rfl⟩ := List.mem_map.mp hcall
  have hclock : (0 : ℤ) ≤ 0 + seconds 3600 := by decide
  exact ⟨hclock, fun _ => le_rfl⟩

theorem few_fetches_one_bogus : FewFetches echoKid {} {} (callsOf ["k2", "bogus", "k1", "k2"]) :=
  (@few_fetches_iff _ _ _ _ [] _ _ (rotated "k1") sampleFiles (rotatedRing "k1") echoKid_lawful rfl rfl
    (callsOf_served _) (callsOf_window _) rfl).mpr (by decide)

/-- Three bogus tokens make four fetches, the first two by the first. -/
theorem flood_of_fetches :
    ∃ (kids : List String) (ring : KeyRing), kids = ["a", "b", "c"] ∧ echoKid.Lawful samplePem ∧
      getKeyRing (rotated "k1") sampleFiles = some ring ∧ ring.published samplePem = some twoPublished ∧
      (∀ call ∈ callsOf kids, Serves call.2 fun _ => twoPublished) ∧ Window {} (callsOf kids) ∧
      fetchCount echoKid {} {} (callsOf kids) = 4 ∧ ¬ FewFetches echoKid {} {} (callsOf kids) := by
  have hexp : Exports echoKid twoPublished :=
    @exports_of_published _ _ (rotatedRing "k1") _ echoKid_lawful rfl
  have hne : twoPublished ≠ [] := List.cons_ne_nil _ _
  have hcount : fetchCount echoKid {} {} (callsOf ["a", "b", "c"]) = 4 := by
    rw [@fetchCount_eq _ _ _ _ [] _ _ echoKid_lawful hexp hne (callsOf_served _) (callsOf_window _) rfl]
    decide
  refine ⟨_, rotatedRing "k1", rfl, echoKid_lawful, rfl, rfl, callsOf_served _, callsOf_window _,
    hcount, fun hfew => ?_⟩
  have htwo := hfew.count
  rw [hcount] at htwo
  exact absurd htwo (by decide)

end Jwks

end DiddiFreeID
