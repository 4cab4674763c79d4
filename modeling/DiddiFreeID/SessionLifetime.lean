/-
# The lifetime of a session

A refresh token lives from its issue to the first of five events: it is
exchanged, logged out, logged out with all the others of its account, its
account is suspended, or a revoked token of its account comes back
(`Ends`). A live row of the table is never altered, only revoked, so being
live is being in the table as issued; one lemma says what each request does
to that (`live_after`), and every account with a live token may hold a
session (`Sessions.step`). Presenting a token succeeds exactly while it lives and
has not expired (`session_lifetime`).

Key definitions: `Issues`, `Ends`, `DistinctTokens`.
Key theorems: `live_after`, `refresh_isOk`, `session_lifetime`.
-/
import DiddiFreeID.Effects
import DiddiFreeID.Tokens
import DiddiFreeID.Transact.Since

namespace DiddiFreeID

open Transact Engine

/-! ### Live rows under writes -/

section Writes

variable {d : Db} {t : RefreshToken} {ids : List Uuid} {now : Time}

/-- The live rows left by a revocation are those it does not name. -/
theorem mem_revoked (hl : t.revokedAt = none) :
    t ∈ (Write.apply d (.revokeTokens ids now)).refreshTokens ↔
      t ∈ d.refreshTokens ∧ t.id ∉ ids := by
  constructor
  · intro h
    obtain ⟨t₀, h₀, he⟩ := List.mem_map.mp h
    split_ifs at he with hc
    · rw [← he] at hl
      cases hl
    · subst he
      exact ⟨h₀, fun hid => hc ⟨hid, hl⟩⟩
  · rintro ⟨h, hid⟩
    exact List.mem_map.mpr ⟨t, h, if_neg fun hc => hid hc.1⟩

theorem mem_inserted {t' : RefreshToken} :
    t ∈ (Write.apply d (.insertToken t')).refreshTokens ↔ t ∈ d.refreshTokens ∨ t = t' := by
  simp [Write.apply]

/-- `revoke` on a live row. -/
theorem mem_revocation (hids : d.tokenIds.Nodup) {id : Uuid} (hl : t.revokedAt = none) :
    t ∈ (store.view d (d.revocation id now)).refreshTokens ↔ t ∈ d.refreshTokens ∧ t.id ≠ id := by
  unfold Db.revocation
  split_ifs with hlive
  · rw [view_cons, view_nil, store_apply, mem_revoked hl]
    simp
  · refine ⟨fun h => ⟨h, fun hid => hlive ?_⟩, fun h => h.1⟩
    rw [← hid, Db.isLive_of_mem hids h, hl]
    rfl

/-- `revoke_all_for_user`, on a table that is still what it was when the rows
were picked. -/
theorem mem_revocationOfAll {d' : Db} (hd : d'.refreshTokens = d.refreshTokens)
    (hids : d.tokenIds.Nodup) {u : Uuid} (hl : t.revokedAt = none) :
    t ∈ (Write.apply d' (d.revocationOfAll u now)).refreshTokens ↔
      t ∈ d.refreshTokens ∧ t.userId ≠ u := by
  rw [Db.revocationOfAll, mem_revoked hl, hd]
  refine and_congr_right fun ht => not_congr ⟨fun h => ?_, fun h => ?_⟩
  · obtain ⟨s, hs, hid⟩ := List.mem_map.mp (List.mem_filter.mp h).1
    obtain ⟨hs, hu⟩ := List.mem_filter.mp hs
    rw [← List.inj_on_of_nodup_map hids hs ht hid]
    simp only [Bool.and_eq_true, decide_eq_true_eq] at hu
    exact hu.1
  · refine List.mem_filter.mpr ⟨List.mem_map_of_mem (List.mem_filter.mpr ⟨ht, ?_⟩), ?_⟩
    · simp [h, hl]
    · rw [Db.isLive_of_mem hids ht, hl]
      rfl

/-- The rows of an entry are no tokens. -/
theorem Entry.tokens_view (e : Entry) (d : Db) :
    (store.view d e.writes).refreshTokens = d.refreshTokens := by
  refine DiddiFreeID.tokens_view ?_ fun ids now h => ?_
  · simp [inserted, writes, List.filterMap_append, List.filterMap_map]
  · simp [writes] at h

theorem consumption_tokens (d d' : Db) (id : Uuid) (now : Time) :
    (store.view d (d'.consumption id now)).refreshTokens = d.refreshTokens := by
  refine tokens_view (List.filterMap_eq_nil_iff.mpr fun w hw => ?_) fun ids now' h => ?_
  · rw [Db.eq_of_mem_consumption hw]
  · cases Db.eq_of_mem_consumption h

theorem Decision.tokens_view (dec : Decision) (d : Db) :
    (store.view d dec.writes).refreshTokens = d.refreshTokens := by
  unfold writes
  cases dec.entry with
  | none => rfl
  | some e => exact e.tokens_view d

end Writes

/-! ### Issues and ends -/

variable (S : Env) (w : World) (t : RefreshToken)

/-- The request issues the token `t`. -/
inductive Issues : Request → Prop
  | login {q : VerifyOtp} {user : User} :
      w.answer S (.verifyOtp q) = .ok (q.answer S user) → t = q.newToken S user →
      Issues (.verifyOtp q)
  | rotation {q : RefreshAccessToken} {stored : RefreshToken} {user : User} :
      w.db.findByHash (hashRefreshToken S q.refreshToken) = some stored →
      w.answer S (.refreshAccessToken q) = .ok (q.answer S user) → t = q.newToken S stored user →
      Issues (.refreshAccessToken q)

/-- The request ends the session of the token `t`. -/
inductive Ends : Request → Prop
  | refreshed {q : RefreshAccessToken} {a : Response} :
      hashRefreshToken S q.refreshToken = t.tokenHash →
      w.answer S (.refreshAccessToken q) = .ok a → Ends (.refreshAccessToken q)
  | loggedOut {q : Logout} : hashRefreshToken S q.refreshToken = t.tokenHash → Ends (.logout q)
  | loggedOutEverywhere {q : Logout} {s : RefreshToken} : q.allDevices = true →
      s ∈ w.db.refreshTokens → s.userId = t.userId →
      hashRefreshToken S q.refreshToken = s.tokenHash → Ends (.logout q)
  | suspended {q : ChangeStatus} {a : Response} : q.userId = t.userId →
      q.status = UserStatus.suspended.value → w.answer S (.changeStatus q) = .ok a →
      Ends (.changeStatus q)
  | reused {q : RefreshAccessToken} {s : RefreshToken} : s ∈ w.db.refreshTokens →
      s.userId = t.userId → s.revokedAt ≠ none →
      hashRefreshToken S q.refreshToken = s.tokenHash → Ends (.refreshAccessToken q)

/-- No hash and no id twice in the table of tokens. -/
def Db.Distinct (d : Db) : Prop :=
  (d.refreshTokens.map RefreshToken.tokenHash).Nodup ∧ d.tokenIds.Nodup

instance (d : Db) : Decidable d.Distinct := by unfold Db.Distinct; infer_instance

/-- The tokens issued so far, with those that the request issues, have
distinct hashes and ids. -/
def DistinctTokens (w : World) (r : Request) : Prop := (w.after S r).db.Distinct

instance (w : World) (r : Request) : Decidable (DistinctTokens S w r) := by
  unfold DistinctTokens; infer_instance

variable {S w t}

theorem Db.Distinct.findByHash {d : Db} (h : d.Distinct) (ht : t ∈ d.refreshTokens) :
    d.findByHash t.tokenHash = some t := by
  have hsome : (d.findByHash t.tokenHash).isSome := by
    rw [Db.findByHash, List.find?_isSome]
    exact ⟨t, ht, by simp⟩
  obtain ⟨t', ht'⟩ := Option.isSome_iff_exists.mp hsome
  have hhash : t'.tokenHash = t.tokenHash := by simpa using List.find?_some ht'
  rw [ht', List.inj_on_of_nodup_map h.1 (List.mem_of_find?_eq_some ht') ht hhash]

/-- A hash that is presented is of one row. -/
theorem Db.Distinct.eq_of_hash {d : Db} (h : d.Distinct) {hash : String} {stored : RefreshToken}
    (hs : d.findByHash hash = some stored) (ht : t ∈ d.refreshTokens) (hh : hash = t.tokenHash) :
    t = stored := by
  rw [hh, h.findByHash ht] at hs
  exact Option.some.inj hs

theorem Db.mem_of_findByHash {d : Db} {hash : String} (h : d.findByHash hash = some t) :
    t ∈ d.refreshTokens ∧ t.tokenHash = hash :=
  ⟨List.mem_of_find?_eq_some h, by simpa using List.find?_some h⟩

/-- The answer of a login tells the account. -/
theorem VerifyOtp.id_of_answer {q : VerifyOtp} {user user' : User}
    (h : (Except.ok (q.answer S user) : Except Failure Response) = .ok (q.answer S user')) :
    user.id = user'.id := by
  simp only [answer, Except.ok.injEq, Response.authenticated.injEq, profilePayload,
    Profile.mk.injEq] at h
  exact h.2.2.1

/-- So does the answer of a rotation. -/
theorem RefreshAccessToken.id_of_answer {q : RefreshAccessToken} {user user' : User}
    (h : (Except.ok (q.answer S user) : Except Failure Response) = .ok (q.answer S user')) :
    user.id = user'.id := by
  simp only [answer, Except.ok.injEq, Response.tokenPair.injEq, issueAccessToken,
    AccessToken.mk.injEq] at h
  exact h.1.2.1

/-! ### One request -/

/-- The requests that leave the table of tokens alone. -/
theorem live_after_of_tokens {r : Request} (h : (w.after S r).db.refreshTokens = w.db.refreshTokens)
    (hi : ¬Issues S w t r) (he : ¬Ends S w t r) :
    t ∈ (w.after S r).db.refreshTokens ↔
      Issues S w t r ∨ (t ∈ w.db.refreshTokens ∧ ¬Ends S w t r) := by
  rw [h]
  simp [hi, he]

theorem tokens_onCode {log : List Write} (h : ∀ w ∈ log, w.onCode = true) (d : Db) :
    (store.view d log).refreshTokens = d.refreshTokens := by
  refine tokens_view (List.filterMap_eq_nil_iff.mpr fun w hw => ?_) fun ids now hw => ?_
  · have hon := h w hw
    cases w with
    | bumpAttempts | consumeOtp => rfl
    | _ => cases hon
  · have hon := h _ hw
    cases hon

/-- A login issues its token and leaves the others; a refusal leaves all. -/
theorem VerifyOtp.live_after (hids : (w.db.users.map User.id).Nodup) (q : VerifyOtp) :
    t ∈ (w.after S (.verifyOtp q)).db.refreshTokens ↔
      Issues S w t (.verifyOtp q) ∨ (t ∈ w.db.refreshTokens ∧ ¬Ends S w t (.verifyOtp q)) := by
  have hend : ¬Ends S w t (.verifyOtp q) := fun h => by cases h
  have hans := World.answer_eq (S := S) (r := .verifyOtp q) hids
  have hdb := World.after_db (S := S) (r := .verifyOtp q) hids
  rcases q.effect_cases S w.db w.outside with ⟨⟨e, he⟩, -, hw⟩ | ⟨phone, otp, user, -, ho⟩
  · refine live_after_of_tokens ?_ (fun hi => ?_) hend
    · rw [hdb]
      exact tokens_onCode hw w.db
    · cases hi with
      | login ha _ =>
        rw [hans] at ha
        exact absurd (he.symm.trans ha) (by simp)
  · have htokens : (w.after S (.verifyOtp q)).db.refreshTokens =
        w.db.refreshTokens ++ [q.newToken S user] := by
      rw [hdb]
      change (store.view w.db (q.effect S w.db w.outside).writes).refreshTokens = _
      rw [ho.writes, Engine.view_append, Engine.view_append, view_cons, view_nil, store_apply]
      simp only [Write.apply, Decision.tokens_view, consumption_tokens]
    have hissues : Issues S w t (.verifyOtp q) ↔ t = q.newToken S user := by
      constructor
      · intro hi
        cases hi with
        | @login _ user' ha ht =>
          rw [hans] at ha
          have hid := id_of_answer (ho.outcome.symm.trans ha)
          rw [admitted_id] at hid
          rw [ht, newToken, newToken, hid]
      · intro ht
        refine @Issues.login S w t q (admitted user) (hans.trans ho.outcome) ?_
        rw [ht, newToken, newToken, admitted_id]
    rw [htokens, hissues, List.mem_append, List.mem_singleton, or_comm]
    simp [hend]

section Refresh

variable {q : RefreshAccessToken} {stored : RefreshToken}

theorem not_issues_of_error {e : Failure} (herr : w.answer S (.refreshAccessToken q) = .error e) :
    ¬Issues S w t (.refreshAccessToken q) := by
  intro hi
  cases hi with
  | rotation _ ha _ => exact absurd (herr.symm.trans ha) (by simp)

/-- A rotation issues the token it draws. -/
theorem issues_rotation {user : User}
    (hs : w.db.findByHash (hashRefreshToken S q.refreshToken) = some stored)
    (hok : w.answer S (.refreshAccessToken q) = .ok (q.answer S user)) :
    Issues S w t (.refreshAccessToken q) ↔ t = q.newToken S stored user := by
  constructor
  · intro hi
    cases hi with
    | @rotation _ stored' user' hs' ha ht =>
      rw [hs'] at hs
      rw [ht, Option.some.inj hs, RefreshAccessToken.newToken, RefreshAccessToken.newToken,
        RefreshAccessToken.id_of_answer (hok.symm.trans ha)]
  · exact fun ht => .rotation hs hok ht

/-- A rotation ends the session of the token presented. -/
theorem ends_rotation (hd : w.db.Distinct)
    (hs : w.db.findByHash (hashRefreshToken S q.refreshToken) = some stored)
    (hlive : stored.revokedAt = none) {a : Response}
    (hok : w.answer S (.refreshAccessToken q) = .ok a) (ht : t ∈ w.db.refreshTokens) :
    Ends S w t (.refreshAccessToken q) ↔ t.id = stored.id := by
  obtain ⟨hmem, hhash⟩ := Db.mem_of_findByHash hs
  constructor
  · intro he
    cases he with
    | refreshed hh _ => rw [hd.eq_of_hash hs ht hh]
    | reused hs' _ hrev hh =>
      rw [hd.eq_of_hash hs hs' hh] at hrev
      exact absurd hlive hrev
  · intro hid
    obtain rfl := List.inj_on_of_nodup_map hd.2 ht hmem hid
    exact .refreshed hhash.symm hok

/-- A revoked token that is presented ends the sessions of its account. -/
theorem ends_reuse (hd : w.db.Distinct)
    (hs : w.db.findByHash (hashRefreshToken S q.refreshToken) = some stored)
    (hrev : stored.revokedAt ≠ none) {e : Failure}
    (herr : w.answer S (.refreshAccessToken q) = .error e) :
    Ends S w t (.refreshAccessToken q) ↔ t.userId = stored.userId := by
  obtain ⟨hmem, hhash⟩ := Db.mem_of_findByHash hs
  constructor
  · intro he
    cases he with
    | refreshed _ ha => exact absurd (herr.symm.trans ha) (by simp)
    | reused hs' hu' _ hh => rw [← hu', hd.eq_of_hash hs hs' hh]
  · exact fun hu' => .reused hmem hu'.symm hrev hhash.symm

end Refresh

/-- A rotation ends its token and issues the next; a token that comes back
ends every session of its account. -/
theorem RefreshAccessToken.live_after (hids : (w.db.users.map User.id).Nodup)
    (hd : w.db.Distinct) (hl : t.revokedAt = none) (q : RefreshAccessToken) :
    t ∈ (w.after S (.refreshAccessToken q)).db.refreshTokens ↔
      Issues S w t (.refreshAccessToken q) ∨
        (t ∈ w.db.refreshTokens ∧ ¬Ends S w t (.refreshAccessToken q)) := by
  have hans := World.answer_eq (S := S) (r := .refreshAccessToken q) hids
  have hdb := World.after_db (S := S) (r := .refreshAccessToken q) hids
  rcases q.effect_cases S w.db w.outside with
    ⟨e, heff, hlive⟩ | ⟨stored, hs, hrev, heff⟩ | ⟨stored, user, hs, hlive, -, hu, -, heff⟩
  · -- refused
    have herr : w.answer S (.refreshAccessToken q) = .error (.api e) := by
      rw [hans, Request.effect, heff]
      rfl
    refine live_after_of_tokens ?_ (not_issues_of_error herr) fun he => ?_
    · rw [hdb, Request.effect, heff]
      rfl
    · cases he with
      | refreshed _ ha => exact absurd (herr.symm.trans ha) (by simp)
      | reused hs _ hrev hh => exact hrev (hlive _ (by rw [hh]; exact hd.findByHash hs))
  · -- reused
    have herr : w.answer S (.refreshAccessToken q) = .error (.api refreshTokenRevoked) := by
      rw [hans, Request.effect, heff]
    rw [hdb, Request.effect, heff, view_cons, view_nil, store_apply,
      mem_revocationOfAll rfl hd.2 hl, ends_reuse hd hs hrev herr]
    simp only [not_issues_of_error herr, false_or, ne_eq]
  · -- rotated
    have hok : w.answer S (.refreshAccessToken q) = .ok (q.answer S user) := by
      rw [hans, Request.effect, heff]
    rw [hdb, Request.effect, heff, Engine.view_append, view_cons, view_nil, store_apply,
      mem_inserted, mem_revocation hd.2 hl, issues_rotation hs hok, or_comm]
    exact or_congr_right (and_congr_right fun ht =>
      not_congr (ends_rotation hd hs hlive hok ht).symm)

/-- A logout ends its token, or with `all_devices` every session of its
account. -/
theorem Logout.live_after (hids : (w.db.users.map User.id).Nodup) (hd : w.db.Distinct)
    (hl : t.revokedAt = none) (q : Logout) :
    t ∈ (w.after S (.logout q)).db.refreshTokens ↔
      Issues S w t (.logout q) ∨ (t ∈ w.db.refreshTokens ∧ ¬Ends S w t (.logout q)) := by
  have hdb := World.after_db (S := S) (r := .logout q) hids
  have hissues : ¬Issues S w t (.logout q) := fun hi => by cases hi
  rw [hdb, Request.effect, effect]
  simp only [hissues, false_or]
  cases hs : w.db.findByHash (hashRefreshToken S q.refreshToken) with
  | none =>
    refine ⟨fun ht => ⟨ht, fun he => ?_⟩, And.left⟩
    cases he with
    | loggedOut hh =>
      rw [hh, hd.findByHash ht] at hs
      cases hs
    | loggedOutEverywhere _ hs' _ hh =>
      rw [hh, hd.findByHash hs'] at hs
      cases hs
  | some stored =>
    obtain ⟨hmem, hhash⟩ := Db.mem_of_findByHash hs
    dsimp only
    by_cases hall : q.allDevices = true
    · rw [if_pos hall, view_cons, view_nil, store_apply, mem_revocationOfAll rfl hd.2 hl]
      refine and_congr_right fun ht => not_congr ⟨fun hu => ?_, fun he => ?_⟩
      · exact .loggedOutEverywhere hall hmem hu.symm hhash.symm
      · cases he with
        | loggedOut hh => rw [hd.eq_of_hash hs ht hh]
        | loggedOutEverywhere _ hs' hu hh => rw [← hu, hd.eq_of_hash hs hs' hh]
    · rw [if_neg hall, mem_revocation hd.2 hl]
      refine and_congr_right fun ht => not_congr ⟨fun hid => ?_, fun he => ?_⟩
      · obtain rfl := List.inj_on_of_nodup_map hd.2 ht hmem hid
        exact .loggedOut hhash.symm
      · cases he with
        | loggedOut hh => rw [hd.eq_of_hash hs ht hh]
        | loggedOutEverywhere hall' => exact absurd hall' hall

/-- A suspension ends every session of its account. -/
theorem ChangeStatus.live_after (hids : (w.db.users.map User.id).Nodup) (hd : w.db.Distinct)
    (hl : t.revokedAt = none) (q : ChangeStatus) :
    t ∈ (w.after S (.changeStatus q)).db.refreshTokens ↔
      Issues S w t (.changeStatus q) ∨
        (t ∈ w.db.refreshTokens ∧ ¬Ends S w t (.changeStatus q)) := by
  have hans := World.answer_eq (S := S) (r := .changeStatus q) hids
  have hdb := World.after_db (S := S) (r := .changeStatus q) hids
  have hissues : ¬Issues S w t (.changeStatus q) := fun hi => by cases hi
  simp only [hissues, false_or]
  rcases q.decision_cases (w.db.findById q.userId) with ⟨e, hdec⟩ | ⟨user, target, hu, ht, -, hdec⟩
  · have hends : ¬Ends S w t (.changeStatus q) := fun he => by
      cases he with
      | suspended _ _ ha =>
        rw [hans, Request.effect, effect, hdec] at ha
        cases ha
    rw [hdb, Request.effect, effect, hdec]
    simp only [hends, not_false_eq_true, and_true]
    rfl
  · have hok : w.answer S (.changeStatus q) =
        .ok (.profile (profilePayload { user with status := target })) := by
      rw [hans, Request.effect, effect, hdec]
    have huser := (Db.mem_of_findById hu).2
    rw [hdb, Request.effect, effect, hdec]
    dsimp only [Option.elim]
    rw [Engine.view_append]
    by_cases hsus : target = .suspended
    · rw [if_pos hsus, view_cons, view_nil, store_apply,
        mem_revocationOfAll (Entry.tokens_view _ w.db) hd.2 hl]
      refine and_congr_right fun _ => not_congr ⟨fun he => ?_, fun he => ?_⟩
      · exact .suspended (huser.symm.trans he.symm) (by rw [ht, hsus]) hok
      · cases he with
        | suspended hq _ _ => exact hq.symm.trans huser.symm
    · have hends : ¬Ends S w t (.changeStatus q) := fun he => by
        cases he with
        | suspended _ hst _ =>
          rw [ht] at hst
          cases target <;> first | exact hsus rfl | exact absurd hst (by decide)
      rw [if_neg hsus, view_nil, Entry.tokens_view]
      simp [hends]

/-- The requests whose effect is an entry, or nothing. -/
theorem Decision.live_after {r : Request} (hids : (w.db.users.map User.id).Nodup) (dec : Decision)
    (heff : r.effect S w.db w.outside = .decided dec w.outside) (hi : ¬Issues S w t r)
    (he : ¬Ends S w t r) : t ∈ (w.after S r).db.refreshTokens ↔
      Issues S w t r ∨ (t ∈ w.db.refreshTokens ∧ ¬Ends S w t r) := by
  refine live_after_of_tokens ?_ hi he
  rw [World.after_db hids, heff]
  exact dec.tokens_view w.db

/-- **One request.** A live row is in the table after a request exactly if
the request issued it, or it was there and the request does not end it. -/
theorem live_after (hids : (w.db.users.map User.id).Nodup) (hd : w.db.Distinct)
    (hl : t.revokedAt = none) (r : Request) :
    t ∈ (w.after S r).db.refreshTokens ↔
      Issues S w t r ∨ (t ∈ w.db.refreshTokens ∧ ¬Ends S w t r) := by
  cases r with
  | registerUser q =>
    refine live_after_of_tokens ?_ (fun hi => by cases hi) fun he => by cases he
    rw [World.after_db hids, Request.effect, RegisterUser.effect]
    split
    · rfl
    · split
      · rfl
      · rcases w.db.saveUser_writes (q.newUser _) q.now with h | h | ⟨v, h⟩ <;> (rw [h]; rfl)
  | requestOtp q =>
    refine live_after_of_tokens ?_ (fun hi => by cases hi) fun he => by cases he
    rw [World.after_db hids, Request.effect]
    rcases q.effect_cases S w.db w.outside with ⟨-, h⟩ | ⟨phone, -, -, -, -, h⟩
    · rw [h]
      rfl
    · rw [h]
      split_ifs <;> rfl
  | verifyOtp q => exact q.live_after hids
  | refreshAccessToken q => exact q.live_after hids hd hl
  | logout q => exact q.live_after hids hd hl
  | updateProfile q | changeRole q | decideKyc q =>
    exact Decision.live_after hids _ rfl (fun hi => by cases hi) fun he => by cases he
  | changeStatus q => exact q.live_after hids hd hl

/-! ### Accounts with sessions -/

/-- Every live token is of an account that may hold a session. -/
structure Sessions (d : Db) : Prop where
  distinct : d.Distinct
  held : ∀ t ∈ d.refreshTokens, t.revokedAt = none →
    ∃ status, d.statusOf t.userId = some status ∧ status ∈ sessionAllowedStatuses

/-- Only a suspension takes the right to a session away. -/
theorem Account.Step.status {a a' : Account} {r : Request} {o : Except Failure Response}
    (hs : a.Step S r o a') (h : a.user.status ∈ sessionAllowedStatuses) :
    a'.user.status ∈ sessionAllowedStatuses ∨
      ∃ q resp, r = .changeStatus q ∧ q.userId = a.user.id ∧
        q.status = UserStatus.suspended.value ∧ o = .ok resp := by
  cases hs with
  | idle => exact .inl h
  | entry he =>
    cases he with
    | rename | request | grant => exact .inl h
    | verify hp =>
      rw [hp] at h
      exact absurd h (by decide)
    | @decide q requested hq hr =>
      left
      rw [Account.record_status, DecideKyc.decided]
      dsimp only
      split_ifs
      · decide
      · exact h
    | @transit q target hq ht hadm hc =>
      cases target with
      | active => exact .inl (show UserStatus.active ∈ sessionAllowedStatuses by decide)
      | suspended => exact .inr ⟨q, _, rfl, hq, UserStatus.ofValue_eq_some.mp ht, rfl⟩
      | pendingVerification | pendingKyc => exact absurd hadm (by decide)

/-- A login leaves its account with a status that may hold a session. -/
theorem VerifyOtp.Opens.statusOf {q : VerifyOtp} {d : Db} {x : Outside} {otp : OtpCode} {user : User}
    {e : Effect} (h : q.Opens S d x otp user e) (hu : d.findById user.id = some user)
    (hst : user.status ≠ .suspended) :
    (store.view d e.writes).statusOf user.id = some (admitted user).status := by
  have hsome : (d.findById user.id).isSome := by rw [hu]; rfl
  have hcode : ∀ v now, .updateUser v now ∉ d.consumption otp.id q.now := fun v now hm => by
    cases Db.eq_of_mem_consumption hm
  have hupd : ∀ v now, .updateUser v now ∈ e.writes ↔
      .updateUser v now ∈ (q.decision S (some user)).writes := fun v now => by
    rw [h.writes]
    simp [hcode]
  by_cases hp : user.status = .pendingVerification
  · have hdec : (q.decision S (some user)).writes =
        [.updateUser (activated user) q.now, .insertStatus (q.activationRow (activated user))] := by
      simp [decision, hp, Decision.writes, Entry.writes]
    have hadm : admitted user = activated user := if_pos hp
    refine statusOf_view hsome (fun v now hm _ => ?_) (.inr ⟨activated user, q.now, ?_, rfl⟩)
    · rw [hupd, hdec] at hm
      obtain ⟨rfl, -⟩ : v = activated user ∧ now = q.now := by simpa using hm
      rw [hadm]
    · rw [hupd, hdec]
      exact List.mem_cons_self
  · have hdec : (q.decision S (some user)).writes = [] := by
      simp [decision, hp, hst, Decision.writes, Decision.answer]
    have hadm : admitted user = user := if_neg hp
    refine statusOf_view hsome (fun v now hm _ => ?_) (.inl ?_)
    · rw [hupd, hdec] at hm
      exact absurd hm List.not_mem_nil
    · rw [Db.statusOf, hu, hadm]
      rfl

/-- A token that is issued is of an account that may hold a session. -/
theorem Issues.held {r : Request} (hids : (w.db.users.map User.id).Nodup) (h : Issues S w t r) :
    ∃ status, (w.after S r).db.statusOf t.userId = some status ∧
      status ∈ sessionAllowedStatuses := by
  cases h with
  | @login q user ha ht =>
    have hans := World.answer_eq (S := S) (r := .verifyOtp q) hids
    rcases q.effect_cases S w.db w.outside with ⟨⟨e, he⟩, -, -⟩ | ⟨phone, otp, user', hadm, ho⟩
    · rw [hans] at ha
      exact absurd (he.symm.trans ha) (by simp)
    · have hid : user.id = user'.id := by
        rw [hans] at ha
        rw [← VerifyOtp.id_of_answer (ho.outcome.symm.trans ha), VerifyOtp.admitted_id]
      have huser := Db.findById_of_mem hids (Db.mem_of_findByPhone hadm.found).1
      refine ⟨_, ?_, VerifyOtp.admitted_status hadm.status⟩
      rw [ht, World.after_db hids, ← ho.statusOf huser hadm.status]
      exact congrArg _ hid
  | @rotation q stored user hs ha ht =>
    have hans := World.answer_eq (S := S) (r := .refreshAccessToken q) hids
    rcases q.effect_cases S w.db w.outside with
      ⟨e, heff, -⟩ | ⟨_, -, -, heff⟩ | ⟨stored', user', hs', -, -, hu, hst, heff⟩
    · rw [hans, Request.effect, heff] at ha
      cases ha
    · rw [hans, Request.effect, heff] at ha
      cases ha
    · have hid : user.id = user'.id := by
        rw [hans, Request.effect, heff] at ha
        exact (RefreshAccessToken.id_of_answer ha).symm
      have huser := (Db.mem_of_findById hu).2
      refine ⟨user'.status, ?_, hst⟩
      rw [ht, World.after_db hids, Request.effect, heff]
      have hsome : (w.db.findById user'.id).isSome := by
        rw [huser, hu]
        rfl
      have hnone : ∀ v now, .updateUser v now ∉
          w.db.revocation stored'.id q.now ++ [.insertToken (q.newToken S stored' user')] := by
        intro v now hm
        rcases List.mem_append.mp hm with hm | hm
        · cases Db.eq_of_mem_revocation hm
        · simp at hm
      refine (congrArg _ hid).trans (statusOf_view hsome (fun v now hm _ => ?_) (.inl ?_))
      · exact absurd hm (hnone v now)
      · rw [Db.statusOf, huser, hu]
        rfl

/-- **Step.** -/
theorem Sessions.step {r : Request} (hw : w.ledger.WellFormed) (hf : r.Fresh w.db)
    (hd : DistinctTokens S w r) (h : Sessions w.db) : Sessions (w.after S r).db := by
  refine ⟨hd, fun t ht hl => ?_⟩
  rcases (live_after hw.ids h.distinct hl r).mp ht with hi | ⟨hmem, he⟩
  · exact hi.held hw.ids
  · obtain ⟨status, hst, hallowed⟩ := h.held t hmem hl
    obtain ⟨user, hu, rfl⟩ := Option.map_eq_some_iff.mp hst
    obtain ⟨a, ha, rfl⟩ := World.account_of_findById hu
    obtain ⟨a', ha', hs⟩ := World.account_after (S := S) hw hf ha
    refine ⟨a'.user.status, by rw [Db.statusOf, World.findById_of_account ha']; rfl, ?_⟩
    rcases hs.status hallowed with h | ⟨q, resp, rfl, hq, hsus, ho⟩
    · exact h
    · rw [World.account_id ha] at hq
      exact absurd (Ends.suspended hq hsus ho) he

variable {ok : World → Request → Prop} {rs : List Request}

theorem Legal.sessions (h : Legal S (DistinctTokens S) rs) : Sessions (served S rs).db := by
  induction h with
  | nil => exact ⟨⟨List.nodup_nil, List.nodup_nil⟩, fun t ht => absurd ht List.not_mem_nil⟩
  | snoc hl hf hok ih =>
    rw [served_snoc]
    exact ih.step hl.wellFormed hf hok

/-- A token is accepted exactly if its row is live and has not expired. -/
theorem refresh_isOk (hids : (w.db.users.map User.id).Nodup) (h : Sessions w.db)
    (q : RefreshAccessToken) :
    (∃ a, w.answer S (.refreshAccessToken q) = .ok a) ↔
      ∃ t ∈ w.db.refreshTokens, t.revokedAt = none ∧
        t.tokenHash = hashRefreshToken S q.refreshToken ∧ q.now < t.expiresAt := by
  rw [World.answer_eq hids, Request.effect]
  constructor
  · rintro ⟨a, ha⟩
    rcases q.effect_cases S w.db w.outside with
      ⟨e, heff, -⟩ | ⟨_, -, -, heff⟩ | ⟨stored, user, hs, hlive, hexp, -, -, -⟩
    · rw [heff] at ha
      cases ha
    · rw [heff] at ha
      cases ha
    · exact ⟨stored, (Db.mem_of_findByHash hs).1, hlive, (Db.mem_of_findByHash hs).2, hexp⟩
  · rintro ⟨t, ht, hl, hhash, hexp⟩
    obtain ⟨status, hst, hallowed⟩ := h.held t ht hl
    obtain ⟨user, hu, rfl⟩ := Option.map_eq_some_iff.mp hst
    refine ⟨q.answer S user, ?_⟩
    unfold RefreshAccessToken.effect
    rw [← hhash, h.distinct.findByHash ht]
    dsimp only
    rw [if_neg (by simp [hl]), if_neg (not_le.mpr hexp), hu]
    dsimp only
    rw [if_neg (by simpa using hallowed)]

/-- The request that issued `t` is there, and none since has ended it. -/
def Alive (S : Env) (t : RefreshToken) (rs : List Request) : Prop :=
  Since (fun rs r => Issues S (served S rs) t r) (fun rs r => Ends S (served S rs) t r) rs

/-- The live rows are the tokens that are alive. -/
theorem Legal.alive_iff (h : Legal S (DistinctTokens S) rs) (hl : t.revokedAt = none) :
    t ∈ (served S rs).db.refreshTokens ↔ Alive S t rs := by
  unfold Alive
  induction h with
  | nil => exact ⟨fun ht => absurd ht List.not_mem_nil, fun h => absurd h not_since_nil⟩
  | snoc hr _ _ ih =>
    rw [served_snoc, since_snoc, ← ih, live_after hr.wellFormed.ids hr.sessions.distinct hl]

theorem Issues.live {r : Request} (h : Issues S w t r) : t.revokedAt = none := by
  cases h with
  | login _ ht => rw [ht]; rfl
  | rotation _ _ ht => rw [ht]; rfl

/-- **The lifetime of a session.** In every run whose tokens are distinct, a
token is accepted at an instant exactly if some request issued it, it has
not expired, and since its issue it was not exchanged, not logged out, not
logged out with all the tokens of its account, its account was not
suspended, and no revoked token of its account came back. -/
theorem session_lifetime (h : Legal S (DistinctTokens S) rs) (q : RefreshAccessToken) :
    (∃ a, (served S rs).answer S (.refreshAccessToken q) = .ok a) ↔
      ∃ t, t.tokenHash = hashRefreshToken S q.refreshToken ∧ q.now < t.expiresAt ∧
        ∃ before r later, rs = before ++ r :: later ∧ Issues S (served S before) t r ∧
          ∀ mid r' rest, later = mid ++ r' :: rest →
            ¬Ends S (served S (before ++ r :: mid)) t r' := by
  rw [refresh_isOk h.wellFormed.ids h.sessions]
  constructor
  · rintro ⟨t, ht, hl, hhash, hexp⟩
    exact ⟨t, hhash, hexp, (h.alive_iff hl).mp ht⟩
  · rintro ⟨t, hhash, hexp, before, r, later, hrs, hi, he⟩
    have hl := hi.live
    exact ⟨t, (h.alive_iff hl).mpr ⟨before, r, later, hrs, hi, he⟩, hl, hhash, hexp⟩

/-- The driver's token is accepted until the suspension, and has been alive
since the login. -/
theorem session_lifetime_driver :
    let q : RefreshAccessToken := ⟨"r", none, 5, 10, "r'"⟩
    (∃ a, (served plainEnv (driverRun.take 5)).answer plainEnv (.refreshAccessToken q) = .ok a) ∧
    (∃ t, Alive plainEnv t (driverRun.take 5) ∧ t.tokenHash = "r" ∧ 5 < t.expiresAt) ∧
    ¬∃ a, (served plainEnv driverRun).answer plainEnv (.refreshAccessToken q) = .ok a := by
  intro q
  have hl : Legal plainEnv (DistinctTokens plainEnv) (driverRun.take 5) :=
    legal_of_forall (by decide +kernel)
  have hans : (served plainEnv (driverRun.take 5)).answer plainEnv (.refreshAccessToken q) =
      .ok (.tokenPair (issueAccessToken plainEnv 7 "driver" "active" 5) "r'") := by
    decide +kernel
  have hsus : (served plainEnv driverRun).answer plainEnv (.refreshAccessToken q) =
      .error (.api refreshTokenRevoked) := by
    decide +kernel
  obtain ⟨t, hhash, hexp, halive⟩ := (session_lifetime hl q).mp ⟨_, hans⟩
  exact ⟨⟨_, hans⟩, ⟨t, halive, hhash, hexp⟩, fun ⟨a, ha⟩ => by rw [hsus] at ha; cases ha⟩

end DiddiFreeID
