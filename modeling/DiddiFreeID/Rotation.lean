/-
# Rotating a refresh token

`RefreshAccessToken` reads the presented token, reads its account, and then
revokes the token: an `UPDATE` that finds it revoked by another request in
the meantime changes nothing and is not noticed, and the rotation goes on
(`rotated_twice`). Where every `revoke` finds its token live, the row is a
claim, and one of any number of requests with the same token rotates it
(`rotation_single_use`).

Key definitions: `RefreshAccessToken.tokenClaim`, `RevokesLive`.
-/
import DiddiFreeID.Phases
import DiddiFreeID.Transact.Claim
import Mathlib.Data.Fintype.Fin

namespace DiddiFreeID

open Transact Engine

variable {S : Env} {ι : Type} [Fintype ι] [DecidableEq ι]

namespace RefreshAccessToken

/-- The request has revoked the token `id` and goes on to rotate it. -/
def Phase.HasRevoked (id : Uuid) : Phase → Prop
  | .claimed stored _ | .rotated stored _ | .committed stored _ => stored.id = id
  | _ => False

/-- The request has stored a successor of its token. -/
def Phase.HasRotated : Phase → Prop
  | .rotated .. | .committed .. => True
  | _ => False

/-- The token presented is `id`, where the phase knows it. -/
def Phase.Presents (id : Uuid) : Phase → Prop
  | .found stored | .allowed stored _ | .claimed stored _ | .rotated stored _
  | .committed stored _ => stored.id = id
  | _ => True

/-- The writes of `RefreshAccessToken` are new tokens and revocations. -/
theorem Moves.writes {q : RefreshAccessToken} {g g' : Phase} {c : Call} {r : c.Resp}
    (h : Moves S q g c r g') (d : Db) (x : Outside) : ∀ w ∈ (exec c d x).2.1,
    (∃ t, w = .insertToken t) ∨ ∃ ids now, w = .revokeTokens ids now := by
  intro w hw
  cases h with
  | revokeAll => exact .inr ⟨_, _, List.mem_singleton.mp hw⟩
  | rotate => exact .inl ⟨_, List.mem_singleton.mp hw⟩
  | revoke => exact .inr ⟨_, _, Db.eq_of_mem_revocation hw⟩
  | _ => exact absurd hw List.not_mem_nil

/-- A request gets there by revoking the token. -/
theorem Moves.hasRevoked {q : RefreshAccessToken} {g g' : Phase} {c : Call} {r : c.Resp} {id : Uuid}
    (h : Moves S q g c r g') (h' : g'.HasRevoked id) :
    g.HasRevoked id ∨ c = .revoke id q.now := by
  cases h with
  | @revoke stored user =>
    obtain rfl : stored.id = id := h'
    exact .inr rfl
  | rotate | commit => exact .inl h'
  | _ => exact absurd h' fun h => h

/-- The token `id`, which the hash `h` leads to, is claimed by revoking it. -/
def tokenClaim (q : ι → RefreshAccessToken) (h : String) (id : Uuid) :
    store.Claim fun i => (q i).monitor S where
  taken g := g.HasRevoked id
  there d := (d.token id).isSome ∧ (d.findByHash h).map RefreshToken.id = some id
  free d := d.isLive id = true
  key := .token id
  stays hmay d x w hw d' := by
    rintro ⟨ht, hh⟩
    obtain ⟨s, hs⟩ := Option.isSome_iff_exists.mp ht
    obtain ⟨s', hs', hid⟩ := Option.map_eq_some_iff.mp hh
    rcases (moves S hmay (exec _ d x).1).writes d x w hw with ⟨t, rfl⟩ | ⟨ids, now, rfl⟩
    · rw [store_apply, Db.token_insertToken, Db.findByHash_insertToken, Db.isLive_insertToken t ht,
        hs, hs']
      exact ⟨⟨rfl, by simpa using hid⟩, fun hf => hf⟩
    · rw [store_apply, Db.token_revokeTokens, Db.findByHash_revokeTokens, Db.isLive_revokeTokens,
        hs, hs']
      refine ⟨⟨rfl, ?_⟩, fun hf => by simp [hf]⟩
      simp only [Option.map_some, Option.some.injEq]
      split_ifs <;> exact hid
  commit_next r hmay hc ht := by
    rcases (moves S hmay r).hasRevoked ht with h | rfl
    · exact h
    · cases hc
  take {i g c} d x hmay hn ht _ hfree := by
    rcases (moves S hmay _).hasRevoked ht with h | rfl
    · exact absurd h hn
    · have hw : (exec (.revoke id (q i).now) d x).2.1 = [.revokeTokens [id] (q i).now] :=
        Db.revocation_of_isLive _ hfree
      rw [store_exec, hw]
      refine ⟨⟨_, List.mem_singleton.mpr rfl, by simp [Write.keys]⟩, fun d' _ => ?_⟩
      simp [Db.isLive_revokeTokens]

/-- A request presents the token that its hash leads to. -/
theorem Moves.presents {q : RefreshAccessToken} {g g' : Phase} {c : Call} {r : c.Resp} {id : Uuid}
    (h : Moves S q g c r g') {d : Db} {x : Outside} (hr : (exec c d x).1 = r)
    (hd : ∀ stored, d.findByHash (hashRefreshToken S q.refreshToken) = some stored →
      stored.id = id) (hg : g.Presents id) : g'.Presents id := by
  cases h with
  | find => exact hd _ hr
  | allow | revoke | rotate | commit => exact hg
  | _ => trivial

/-- A request whose account may hold a session is not refused. -/
theorem Moves.ne_refused {q : RefreshAccessToken} {g g' : Phase} {c : Call} {r : c.Resp}
    (h : Moves S q g c r g') {d : Db} {x : Outside} (hr : (exec c d x).1 = r)
    (hd : ∀ id, c = .findById id → ∀ user ∈ d.findById id, user.status ∈ sessionAllowedStatuses) :
    g' ≠ .refused := by
  cases h with
  | refuse hs => exact absurd (hd _ rfl _ hr) hs
  | _ => simp

/-- Every `revoke` finds its token live, and every account that a rotation
reads may hold a session. -/
def RevokesLive (s : InFlight ι) (i : ι) : Prop :=
  match (s.thread i).prog with
  | .call (.revoke id _) _ => (store.view s.db (s.thread i).log).isLive id = true
  | .call (.findById id) _ => ∀ user ∈ (store.view s.db (s.thread i).log).findById id,
      user.status ∈ sessionAllowedStatuses
  | _ => True

instance (s : InFlight ι) (i : ι) : Decidable (RevokesLive s i) := by
  unfold RevokesLive
  split <;> infer_instance

end RefreshAccessToken

open RefreshAccessToken

variable {q : ι → RefreshAccessToken} {d : Db} {x : Outside} {s : InFlight ι}

omit [DecidableEq ι] in
theorem tokenClaim_guarded (h : String) (id : Uuid) :
    (tokenClaim (S := S) q h id).Guarded (fun _ => .start) RevokesLive := by
  intro s i c k ho hp hmay hn ht
  rcases (moves S hmay _).hasRevoked ht with h | rfl
  · exact absurd h hn
  · unfold RevokesLive at ho
    rw [hp] at ho
    exact ho

/-- The phase of request `i`. -/
abbrev rotationPhase (S : Env) (q : ι → RefreshAccessToken) (s : InFlight ι) (i : ι) : Phase :=
  phase (fun i => (q i).monitor S) (fun _ => Phase.start) s i

theorem rotation_follows (h : store.Reach RevokesLive (System.start d x fun i => (q i).call S) s)
    (i : ι) : (s.thread i).prog.Follows ((q i).monitor S) (rotationPhase S q s i) :=
  h.follows (M := fun i => (q i).monitor S) (g := fun _ => Phase.start)
    (fun i => RefreshAccessToken.follows S (q i)) i

/-- No request gets past a hash that leads to no token. -/
theorem unknown_token {raw : String} (hraw : ∀ i, (q i).refreshToken = raw)
    (hn : d.findByHash (hashRefreshToken S raw) = none)
    (h : store.Reach RevokesLive (System.start d x fun i => (q i).call S) s) (i : ι) :
    rotationPhase S q s i = .start ∨ rotationPhase S q s i = .stopped := by
  refine ((h.invariant (P := fun s => s.db = d ∧ ∀ i, (s.thread i).log = [] ∧
    (rotationPhase S q s i = .start ∨ rotationPhase S q s i = .stopped))
    ⟨rfl, fun i => ⟨rfl, .inl rfl⟩⟩ fun s s' j hr ih _ hs => ?_).2 i).2
  obtain ⟨hd, hi⟩ := ih
  have hf := rotation_follows hr j
  have hg := (hi j).2
  cases hs with
  | @call c k hp hc _ =>
    rw [hp] at hf
    rcases hg with hg | hg
    · rw [hg] at hf
      have hc' : c = .findByHash (hashRefreshToken S raw) := by
        rw [← hraw j]
        exact hf.1
      subst hc'
      refine ⟨hd, fun i => ?_⟩
      by_cases hij : i = j
      · subst hij
        have ha : store.answer s i (.findByHash (hashRefreshToken S raw)) = (none, [], s.outside) := by
          simp [Engine.answer, (hi i).1, hd, exec, hn]
        rw [called_thread_self, rotationPhase, phase_called_self, ha, (hi i).1,
          show phase (fun i => (q i).monitor S) (fun _ => Phase.start) s i = Phase.start from hg]
        exact ⟨rfl, .inr rfl⟩
      · simpa [rotationPhase, hij] using hi i
    · rw [hg] at hf
      exact absurd hf.1 fun h => h
  | @commit c k hp hc =>
    rw [hp] at hf
    obtain rfl := commits_iff.mp hc
    rcases hg with hg | hg <;> rw [hg] at hf
    · exact absurd hf.1 (by simp [monitor])
    · exact absurd hf.1 fun h => h
  | close hp =>
    refine ⟨by simp [(hi j).1, hd], fun i => ?_⟩
    by_cases hij : i = j
    · subst hij
      simpa [rotationPhase] using (hi i).2
    · simpa [rotationPhase, hij] using hi i
  | abort hp =>
    refine ⟨hd, fun i => ?_⟩
    by_cases hij : i = j
    · subst hij
      simpa [rotationPhase] using (hi i).2
    · simpa [rotationPhase, hij] using hi i

theorem isSome_token_of_findByHash {h : String} {t : RefreshToken} (ht : d.findByHash h = some t) :
    (d.token t.id).isSome := by
  rw [Db.token, List.find?_isSome]
  exact ⟨t, List.mem_of_find?_eq_some ht, by simp⟩

/-- Every request presents the token the hash leads to, and none is refused
for its account. -/
theorem rotation_presents {raw : String} (hraw : ∀ i, (q i).refreshToken = raw) {t : RefreshToken}
    (ht : d.findByHash (hashRefreshToken S raw) = some t)
    (h : store.Reach RevokesLive (System.start d x fun i => (q i).call S) s) (i : ι) :
    (rotationPhase S q s i).Presents t.id ∧ rotationPhase S q s i ≠ .refused := by
  refine h.phase_invariant (M := fun i => (q i).monitor S) (g := fun _ => Phase.start)
    (fun i => RefreshAccessToken.follows S (q i)) (P := fun _ g => g.Presents t.id ∧ g ≠ .refused)
    (fun _ => ⟨trivial, by simp⟩) (fun s i c k hr ho hp hmay hg => ?_) i
  have hinv := (tokenClaim (S := S) q (hashRefreshToken S raw) t.id).holds
    (tokenClaim_guarded _ _) (fun i => RefreshAccessToken.follows S (q i))
    ⟨isSome_token_of_findByHash ht, by rw [ht]; rfl⟩ (fun _ h => h) hr
  have hview := ((hinv.safe i).there_view hinv.there).2
  refine ⟨(moves S hmay _).presents rfl (fun stored hs => ?_) hg.1,
    (moves S hmay _).ne_refused rfl fun id hc => ?_⟩
  · rw [hraw i] at hs
    rw [hs] at hview
    exact Option.some.inj hview
  · subst hc
    unfold RevokesLive at ho
    rw [hp] at ho
    exact ho

/-- A request that returned has committed its rotation. -/
theorem rotated_of_ret (h : store.Reach RevokesLive (System.start d x fun i => (q i).call S) s)
    {i : ι} {a : Response} (ha : (s.thread i).prog.outcome = some (.ok a)) :
    (rotationPhase S q s i).HasRotated := by
  have hi := rotation_follows h i
  rw [Prog.outcome_eq_ok.mp ha] at hi
  generalize rotationPhase S q s i = g at hi ⊢
  cases g with
  | committed => trivial
  | _ => exact absurd hi fun h => h

/-- So has a request that stored a successor. -/
theorem rotated_of_saveToken
    (h : store.Reach RevokesLive (System.start d x fun i => (q i).call S) s) {i : ι}
    {t : RefreshToken} (ha : (⟨.saveToken t, ()⟩ : Answered Call Call.Resp) ∈ (s.thread i).trace) :
    (rotationPhase S q s i).HasRotated := by
  refine h.phase_of_mem (M := fun i => (q i).monitor S) (g := fun _ => Phase.start)
    (fun i => RefreshAccessToken.follows S (q i)) (P := fun _ g => g.HasRotated)
    (Q := fun _ a => ∃ t, a.1 = .saveToken t) (fun i g c r hmay hor => ?_) ha ⟨t, rfl⟩
  have hm := moves S hmay r
  generalize ((q i).monitor S).next g c r = g' at hm ⊢
  cases hm with
  | rotate | commit => trivial
  | _ =>
    rcases hor with ⟨t, ht⟩ | hg
    · cases ht
    · exact absurd hg fun h => h

/-- A request that failed was refused for its account, or answers 401. -/
theorem refused_of_raise (h : store.Reach RevokesLive (System.start d x fun i => (q i).call S) s)
    {i : ι} {e : Failure} (he : (s.thread i).prog.outcome = some (.error e)) :
    rotationPhase S q s i = .refused ∨ ∃ a : ApiError, e = .api a ∧ a.statusCode = 401 := by
  have hi := rotation_follows h i
  rw [Prog.outcome_eq_error.mp he] at hi
  generalize rotationPhase S q s i = g at hi ⊢
  cases g with
  | stopped => exact .inr hi
  | refused => exact .inl rfl
  | _ => exact absurd hi fun h => h

/-- One request rotates the token that the hash leads to. -/
theorem rotated_unique {raw : String} (hraw : ∀ i, (q i).refreshToken = raw) {t : RefreshToken}
    (ht : d.findByHash (hashRefreshToken S raw) = some t)
    (h : store.Reach RevokesLive (System.start d x fun i => (q i).call S) s) {i j : ι}
    (hi : (rotationPhase S q s i).HasRotated) (hj : (rotationPhase S q s j).HasRotated) : i = j := by
  have hholds : ∀ i, (rotationPhase S q s i).HasRotated →
      (tokenClaim (S := S) q (hashRefreshToken S raw) t.id).Holds (fun _ => .start) s i := by
    intro i hg
    have hp := (rotation_presents hraw ht h i).1
    have hf := rotation_follows h i
    change (rotationPhase S q s i).HasRevoked t.id ∧ _
    generalize rotationPhase S q s i = g at hg hp hf ⊢
    cases g with
    | rotated | committed =>
      refine ⟨hp, fun e he => ?_⟩
      rw [he] at hf
      exact hf
    | _ => exact absurd hg fun h => h
  exact Claim.unique (tokenClaim_guarded _ _) (fun i => RefreshAccessToken.follows S (q i))
    ⟨isSome_token_of_findByHash ht, by rw [ht]; rfl⟩ (fun _ h => h) h (hholds i hi) (hholds j hj)

/-- **Rotation is single-use** where every revocation finds its token live:
at most one of the requests with the token returns a token pair, every other
one that ends answers 401, and at most one stores a successor. -/
theorem rotation_single_use {raw : String} (hraw : ∀ i, (q i).refreshToken = raw)
    (h : store.Reach RevokesLive (System.start d x fun i => (q i).call S) s) :
    (∀ i j a b, (s.thread i).prog.outcome = some (.ok a) → (s.thread j).prog.outcome = some (.ok b) →
      i = j) ∧
    (∀ i e, (s.thread i).prog.outcome = some (.error e) →
      ∃ a : ApiError, e = .api a ∧ a.statusCode = 401) ∧
    ∀ i j t t', (⟨.saveToken t, ()⟩ : Answered Call Call.Resp) ∈ (s.thread i).trace →
      (⟨.saveToken t', ()⟩ : Answered Call Call.Resp) ∈ (s.thread j).trace → i = j := by
  cases ht : d.findByHash (hashRefreshToken S raw) with
  | none =>
    have hstop : ∀ i, ¬(rotationPhase S q s i).HasRotated ∧ rotationPhase S q s i ≠ .refused := by
      intro i
      rcases unknown_token hraw ht h i with hg | hg <;> rw [hg] <;> exact ⟨fun h => h, by simp⟩
    exact ⟨fun i _ _ _ ha _ => absurd (rotated_of_ret h ha) (hstop i).1,
      fun i _ he => (refused_of_raise h he).resolve_left (hstop i).2,
      fun i _ _ _ ha _ => absurd (rotated_of_saveToken h ha) (hstop i).1⟩
  | some t =>
    exact ⟨fun _ _ _ _ ha hb =>
        rotated_unique hraw ht h (rotated_of_ret h ha) (rotated_of_ret h hb),
      fun i _ he => (refused_of_raise h he).resolve_left (rotation_presents hraw ht h i).2,
      fun _ _ _ _ ha hb =>
        rotated_unique hraw ht h (rotated_of_saveToken h ha) (rotated_of_saveToken h hb)⟩

/-! ### The race -/

/-- An active account with one session. -/
def oneSession : Db :=
  { users := [{ id := 7, phone := "+22507000001", status := .active }]
    refreshTokens := [{ id := 1, userId := 7, tokenHash := "r", expiresAt := 100, createdAt := 0 }] }

/-- Two requests with its token. -/
def twice (i : Fin 2) : RefreshAccessToken :=
  { refreshToken := "r", deviceInfo := none, now := 5, newTokenId := 2 + i
    newRefresh := if i = 0 then "a" else "b" }

/-- One after the other: the second is answered 401. -/
theorem rotation_single_use_serial : ∃ s : InFlight (Fin 2),
    store.Reach RevokesLive (System.start oneSession {} fun i => (twice i).call plainEnv) s ∧
    (∃ a, (s.thread 0).prog.outcome = some (.ok a)) ∧
    (s.thread 1).prog.outcome = some (.error (.api refreshTokenRevoked)) ∧
    ∃ a : ApiError, Failure.api refreshTokenRevoked = .api a ∧ a.statusCode = 401 := by
  have hrun : ((store.follow RevokesLive
      (System.start oneSession {} fun i => (twice i).call plainEnv)
      [0, 0, 0, 0, 0, 1, 1, 1, 1]).map fun s =>
        ((s.thread 0).prog.outcome, (s.thread 1).prog.outcome)) =
      some (some (.ok (.tokenPair (issueAccessToken plainEnv 7 "user" "active" 5) "a")),
        some (.error (.api refreshTokenRevoked))) := by
    decide +kernel
  obtain ⟨s, hs, hp⟩ := Option.map_eq_some_iff.mp hrun
  simp only [Prod.mk.injEq] at hp
  have h := rotation_single_use (q := twice) (fun _ => rfl) (reach_of_follow hs)
  exact ⟨s, reach_of_follow hs, ⟨_, hp.1⟩, hp.2, h.2.1 1 _ hp.2⟩

/-- **Rotated twice.** Both requests read the token before either revokes it:
both return a token pair, and the token has two live successors. -/
theorem rotated_twice : ∃ s : InFlight (Fin 2),
    store.Reach Any (System.start oneSession {} fun i => (twice i).call plainEnv) s ∧
    (∃ a, (s.thread 0).prog.outcome = some (.ok a)) ∧
    (∃ a, (s.thread 1).prog.outcome = some (.ok a)) ∧
    s.db.liveTokens 7 = [2, 3] := by
  have hrun : ((store.follow Any (System.start oneSession {} fun i => (twice i).call plainEnv)
      [0, 1, 0, 1, 0, 0, 0, 1, 1, 1]).map fun s =>
        ((s.thread 0).prog.outcome, (s.thread 1).prog.outcome, s.db.liveTokens 7)) =
      some (some (.ok (.tokenPair (issueAccessToken plainEnv 7 "user" "active" 5) "a")),
        some (.ok (.tokenPair (issueAccessToken plainEnv 7 "user" "active" 5) "b")), [2, 3]) := by
    decide +kernel
  obtain ⟨s, hs, hp⟩ := Option.map_eq_some_iff.mp hrun
  simp only [Prod.mk.injEq] at hp
  exact ⟨s, reach_of_follow hs, ⟨_, hp.1⟩, ⟨_, hp.2.1⟩, hp.2.2⟩

end DiddiFreeID
