/-
# Every session goes back to a code that was sent

A refresh token is a session. Whatever requests are in flight, the row of a
token has a first ancestor under rotation (`Renews`): a token that was there
at first, or the one of a login (`LogsIn`), whose guess had the hash of the
newest code of the account's phone. And that code was there at first, or a
request for this same phone had committed it, and sent it, less than the
lifetime of a code before (`Sends`). So no interleaving opens a session
of an account whose phone has been sent no code.

Both are properties of what requests have been told: an account is logged in
on the answers of the login (`Grounds.lean`), and a row that was told comes from
a row that was written (`Growth.lean`), by a request that was told something
itself; hence the induction over answers (`Reach.heard`).

Key definitions: `Renews`, `LogsIn`, `Sends`, `Origin`.
Key theorems: `code_origin`, `session_origin`.
-/
import DiddiFreeID.Growth
import Mathlib.Logic.Relation

namespace DiddiFreeID

open Transact Engine

section Definitions

variable {ι : Type} (S : Env) (rs : ι → Request) (d : Db) (s : InFlight ι)

/-- Some request has been shown the row of `t` and has put `t'` in its place. -/
def Renews (t t' : RefreshToken) : Prop :=
  ∃ i q stored user, rs i = .refreshAccessToken q ∧ t.Evolves stored ∧
    Presented S q (s.thread i).trace stored user ∧
    Told (s.thread i).trace (.revoke stored.id q.now) () ∧ t' = q.newToken S stored user

/-- Request `i` has logged the account in: it has accepted and consumed the
code, and read the account under its phone. -/
structure LogsIn (i : ι) (q : VerifyOtp) (otp : OtpCode) (user : User) : Prop where
  request : rs i = .verifyOtp q
  accepted : Accepted S q (s.thread i).trace otp user.phone
  consumed : Told (s.thread i).trace (.markConsumed otp.id q.now) ()
  account : Told (s.thread i).trace (.findByPhone user.phone) (some user)

/-- Request `j` has committed the code for this phone. -/
structure Sends (j : ι) (q : RequestOtp) (phone : String) : Prop where
  request : rs j = .requestOtp q
  valid : validatePhone q.phone = .ok phone
  saved : Told (s.thread j).trace (.saveOtp (q.newOtp S phone)) ()
  committed : Told (s.thread j).trace .commit ()

/-- Where a code comes from. -/
def Issued (o : OtpCode) : Prop :=
  o ∈ d.otps ∨ ∃ j q phone, Sends S rs s j q phone ∧ o = q.newOtp S phone

/-- Where a session comes from. -/
def Origin (t : RefreshToken) : Prop :=
  t ∈ d.refreshTokens ∨ ∃ i q otp user o, LogsIn S rs s i q otp user ∧ t = q.newToken S user ∧
    Issued S rs d s o ∧ o.Evolves otp

end Definitions

section Flight

variable {ι : Type} [DecidableEq ι] {S : Env} {rs : ι → Request} {d : Db} {x : Outside}
  {ok : InFlight ι → ι → Prop} {s s' : InFlight ι} {i j : ι}

/-! ### What is lasting -/

theorem Renews.step (hs : store.Step s i s') {t t' : RefreshToken} (h : Renews S rs s t t') :
    Renews S rs s' t t' := by
  obtain ⟨j, q, stored, user, hr, hevolves, hp, hrevoked, rfl⟩ := h
  exact ⟨j, q, stored, user, hr, hevolves,
    ⟨hs.trace_mem hp.found, hp.live, hp.inTime, hs.trace_mem hp.owner, hp.allowed⟩,
    hs.trace_mem hrevoked, rfl⟩

theorem LogsIn.step (hs : store.Step s i s') {q : VerifyOtp} {otp : OtpCode} {user : User}
    (h : LogsIn S rs s j q otp user) : LogsIn S rs s' j q otp user where
  request := h.request
  accepted := ⟨h.accepted.valid, hs.trace_mem h.accepted.found, h.accepted.inTime, h.accepted.hash⟩
  consumed := hs.trace_mem h.consumed
  account := hs.trace_mem h.account

theorem Issued.step (hs : store.Step s i s') {o : OtpCode} (h : Issued S rs d s o) :
    Issued S rs d s' o := by
  refine h.imp_right ?_
  rintro ⟨j, q, phone, hsends, rfl⟩
  exact ⟨j, q, phone, ⟨hsends.request, hsends.valid, hs.trace_mem hsends.saved,
    hs.trace_mem hsends.committed⟩, rfl⟩

theorem Origin.step (hs : store.Step s i s') {t : RefreshToken} (h : Origin S rs d s t) :
    Origin S rs d s' t := by
  refine h.imp_right ?_
  rintro ⟨j, q, otp, user, o, hlogs, rfl, hissued, hevolves⟩
  exact ⟨j, q, otp, user, o, hlogs.step hs, rfl, hissued.step hs, hevolves⟩

variable (S rs d) in
/-- What is known of an answer: a code that was told was issued, and a token
that was saved or told descends from a first one. -/
def Traced (s : InFlight ι) : ι → Answered Call Call.Resp → Prop
  | i, ⟨.findLatestActive _, otp⟩ => ∀ q o, rs i = .verifyOtp q → otp = some o →
    ∃ o₀, Issued S rs d s o₀ ∧ o₀.Evolves o
  | _, ⟨.findByHash _, stored⟩ => ∀ t, stored = some t →
    ∃ root t₀, Relation.ReflTransGen (Renews S rs s) root t₀ ∧ Origin S rs d s root ∧ t₀.Evolves t
  | _, ⟨.saveToken t, _⟩ => ∃ root, Relation.ReflTransGen (Renews S rs s) root t ∧
    Origin S rs d s root
  | _, _ => True

theorem Traced.step (hs : store.Step s i s') {a : Answered Call Call.Resp}
    (h : Traced S rs d s j a) : Traced S rs d s' j a := by
  obtain ⟨c, r⟩ := a
  cases c with
  | findLatestActive phone =>
    intro q o hr ho
    obtain ⟨o₀, hissued, hevolves⟩ := h q o hr ho
    exact ⟨o₀, hissued.step hs, hevolves⟩
  | findByHash hash =>
    intro t ht
    obtain ⟨root, t₀, hrotated, horigin, hevolves⟩ := h t ht
    exact ⟨root, t₀, hrotated.lift id fun _ _ => Renews.step hs, horigin.step hs, hevolves⟩
  | saveToken t =>
    obtain ⟨root, hrotated, horigin⟩ := h
    exact ⟨root, hrotated.lift id fun _ _ => Renews.step hs, horigin.step hs⟩
  | _ => trivial

/-! ### Codes -/

variable [Fintype ι]

/-- A request that has saved a code and is through with its transaction has
committed it. -/
theorem sends_of_settled (h : store.Reach ok (System.start d x fun i => (rs i).prog S) s)
    {o : OtpCode} (hsaved : Told (s.thread j).trace (.saveOtp o) ()) (hj : store.Settled s j) :
    ∃ q phone, Sends S rs s j q phone ∧ o = q.newOtp S phone := by
  obtain ⟨l, hl, hg⟩ := grounds_of_told h hsaved
  generalize hr : rs j = r at hg
  cases hg with
  | @saveCode q l phone user hv hu =>
    refine ⟨q, phone, ⟨hr, hv, hsaved, ?_⟩, rfl⟩
    rcases hj with ⟨⟨c, a⟩, ha, hc⟩ | ⟨a, hp⟩
    · obtain rfl := commits_iff.mp hc
      exact ha
    · -- who returns after the account was found has committed
      have hrests := returned_rests h hp
      rw [hr] at hrests
      cases hrests with
      | @sent _ _ phone' hv' hsent =>
        obtain rfl : phone' = phone := Except.ok.inj (hv'.symm.trans hv)
        exact (hsent user (hl hu)).2.1
      | unchanged hread =>
        -- a request for a code reads no account by its id
        obtain ⟨l', -, hg⟩ := grounds_of_told h hread
        rw [hr] at hg
        cases hg
      | changed hdoc => cases hdoc.writes

/-- **Codes.** A committed code was there at first, or some request has
committed it. -/
theorem code_origin (h : store.Reach ok (System.start d x fun i => (rs i).prog S) s) {otp : OtpCode}
    (ho : otp ∈ s.db.otps) : ∃ o, Issued S rs d s o ∧ o.Evolves otp := by
  obtain ⟨o, hevolves, hin | ⟨j, hsaved, hj⟩⟩ := otp_written h ho
  · exact ⟨o, .inl hin, hevolves⟩
  · obtain ⟨q, phone, hsends, ho⟩ := sends_of_settled h hsaved hj
    exact ⟨o, .inr ⟨j, q, phone, hsends, ho⟩, hevolves⟩

/-- A guess is compared with a committed code: no login has saved any. -/
theorem code_told (h : store.Reach ok (System.start d x fun i => (rs i).prog S) s) {q : VerifyOtp}
    (hr : rs i = .verifyOtp q) {otp : OtpCode}
    (ho : otp ∈ (store.view s.db (s.thread i).log).otps) : ∃ o, Issued S rs d s o ∧ o.Evolves otp := by
  obtain ⟨o, hin, hevolves⟩ := exists_of_forall₂ (s.db.grownBy_view (s.thread i).log).otps ho
  rcases List.mem_append.mp hin with hin | hin
  · obtain ⟨o₀, hissued, hevolves₀⟩ := code_origin h hin
    exact ⟨o₀, hissued, hevolves₀.trans hevolves⟩
  · obtain ⟨w, hw, hmem⟩ := List.mem_flatMap.mp hin
    have hprod := h.history.2 i w hw
    rw [Write.eq_of_mem_otps hmem] at hprod
    obtain ⟨l, -, hg⟩ := grounds_of_told h (told_saveOtp hprod)
    rw [hr] at hg
    cases hg

/-! ### Sessions -/

theorem traced (h : store.Reach ok (System.start d x fun i => (rs i).prog S) s) :
    ∀ i, ∀ a ∈ (s.thread i).trace, Traced S rs d s i a := by
  refine h.heard (fun _ _ _ _ _ hs ha => Traced.step hs ha) (fun s i c k hr _ hp ih => ?_)
  have hg := (next_grounds hr hp).1
  cases c with
  | findLatestActive phone =>
    intro q o hi ho
    exact code_told hr hi (Db.of_findLatestActive ho).1
  | findByHash hash =>
    intro t ht
    obtain ⟨t₀, hevolves, hin | ⟨j, hsaved⟩⟩ := token_seen hr i (Db.of_findByHash ht).1
    · exact ⟨t₀, t₀, .refl, .inl hin, hevolves⟩
    · obtain ⟨root, hrotated, horigin⟩ := ih j _ hsaved
      exact ⟨root, t₀, hrotated, horigin, hevolves⟩
  | saveToken t =>
    generalize hri : rs i = r at hg
    generalize htr : (s.thread i).trace = l at hg
    cases hg with
    | @openSession q l user hopens =>
      subst htr
      obtain ⟨u, ⟨otp, hacc, hconsumed, haccount⟩, hid⟩ := hopens.read
      obtain ⟨o, hissued, hevolves⟩ := ih i _ hacc.found q otp hri rfl
      have htoken : q.newToken S user = q.newToken S u := by
        unfold VerifyOtp.newToken
        rw [hid]
      exact ⟨_, .refl, .inr ⟨i, q, otp, u, o, ⟨hri, hacc, hconsumed, haccount⟩, htoken, hissued,
        hevolves⟩⟩
    | @renew q l stored user hpresented hrevoked =>
      subst htr
      obtain ⟨root, t₀, hrotated, horigin, hevolves⟩ := ih i _ hpresented.found stored rfl
      exact ⟨root, hrotated.tail
        ⟨i, q, stored, user, hri, hevolves, hpresented, hrevoked, rfl⟩, horigin⟩
  | _ => trivial

/-- A token is rotated within its account. -/
theorem Renews.userId (h : store.Reach ok (System.start d x fun i => (rs i).prog S) s)
    {t t' : RefreshToken} (hrot : Renews S rs s t t') : t'.userId = t.userId := by
  obtain ⟨i, q, stored, user, -, hevolves, hp, -, rfl⟩ := hrot
  calc user.id = stored.userId := (credible h i).byId hp.owner
    _ = t.userId := hevolves.userId

theorem userId_of_renewed (h : store.Reach ok (System.start d x fun i => (rs i).prog S) s)
    {root t : RefreshToken} (hrot : Relation.ReflTransGen (Renews S rs s) root t) :
    t.userId = root.userId := by
  induction hrot with
  | refl => rfl
  | tail _ hlast ih => rw [hlast.userId h, ih]

/-- **Sessions.** Whatever requests are in flight, a committed token goes back
under rotation to a token of the same account that was there at first, or to a
login of this account. The login's code was there at first, or some request
for the phone of the account has committed it: the guess has the hash of that
code, and came before it expired. -/
theorem session_origin (h : store.Reach ok (System.start d x fun i => (rs i).prog S) s)
    {t : RefreshToken} (ht : t ∈ s.db.refreshTokens) :
    ∃ root t₀, Relation.ReflTransGen (Renews S rs s) root t₀ ∧ t₀.Evolves t ∧
      root.userId = t.userId ∧
      (root ∈ d.refreshTokens ∨ ∃ i q otp user, LogsIn S rs s i q otp user ∧
        root = q.newToken S user ∧
        ((∃ o ∈ d.otps, o.Evolves otp) ∨ ∃ j q', Sends S rs s j q' user.phone ∧
          hashOtpCode S (sixDigits q'.draw) = hashOtpCode S q.code ∧
          q.now < q'.now + seconds S.settings.otpCodeLifetimeSeconds)) := by
  obtain ⟨root, t₀, hrotated, horigin, hevolves⟩ :
      ∃ root t₀, Relation.ReflTransGen (Renews S rs s) root t₀ ∧ Origin S rs d s root ∧
        t₀.Evolves t := by
    obtain ⟨t₀, hevolves, hin | ⟨j, hsaved⟩⟩ := token_written h ht
    · exact ⟨t₀, t₀, .refl, .inl hin, hevolves⟩
    · obtain ⟨root, hrotated, horigin⟩ := traced h j _ hsaved
      exact ⟨root, t₀, hrotated, horigin, hevolves⟩
  refine ⟨root, t₀, hrotated, hevolves,
    (hevolves.userId.trans (userId_of_renewed h hrotated)).symm, horigin.imp_right ?_⟩
  rintro ⟨i, q, otp, user, o, hlogs, rfl, hissued, hotp⟩
  refine ⟨i, q, otp, user, hlogs, rfl, ?_⟩
  rcases hissued with hin | ⟨j, q', phone, hsends, rfl⟩
  · exact .inl ⟨o, hin, hotp⟩
  · -- the code that was found is one of the phone that logs in
    have hphone : phone = user.phone :=
      hotp.phone.symm.trans ((credible h i).latest hlogs.accepted.found).1
    subst hphone
    refine .inr ⟨j, q', hsends, ?_, ?_⟩
    · rw [← hlogs.accepted.hash, hotp.codeHash]
      rfl
    · have htime := hlogs.accepted.inTime
      rw [hotp.expiresAt] at htime
      exact htime

end Flight

/-- An account nobody has logged in. -/
def loggedOut : Db := { users := [{ id := 7, phone := "+22507000001", status := .active }] }

/-- A code is asked for, used, and the session renewed. -/
def codeLoginRenewal : Fin 3 → Request
  | 0 => .requestOtp { phone := "+22507000001", clientIp := none, now := 1, newId := 1, draw := 42 }
  | 1 => .verifyOtp { phone := "+225 0700 0001", code := "000042", deviceInfo := none, now := 2
                      newTokenId := 2, newRefresh := "a" }
  | 2 => .refreshAccessToken { refreshToken := "a", deviceInfo := none, now := 3, newTokenId := 3
                               newRefresh := "b" }

/-- The session as renewed. -/
def renewedSession : RefreshToken :=
  { id := 3, userId := 7, tokenHash := "b", expiresAt := refreshExpiry plainEnv 3, createdAt := 3 }

/-- It goes back to the code: there was nothing at first. -/
theorem session_origin_renewed : ∃ s : InFlight (Fin 3),
    store.Reach Any (System.start loggedOut {} fun i => (codeLoginRenewal i).prog plainEnv) s ∧
    renewedSession ∈ s.db.refreshTokens ∧
    ∃ i q otp user, LogsIn plainEnv codeLoginRenewal s i q otp user ∧
      user.id = renewedSession.userId ∧
      ∃ j q', Sends plainEnv codeLoginRenewal s j q' user.phone := by
  have hrun : ((store.follow Any
      (System.start loggedOut {} fun i => (codeLoginRenewal i).prog plainEnv)
      [0, 0, 0, 0, 1, 0, 1, 1, 1, 0, 1, 2, 2, 2, 2, 1, 2]).map fun s =>
        decide (renewedSession ∈ s.db.refreshTokens)) = some true := by
    decide +kernel
  obtain ⟨s, hs, hp⟩ := Option.map_eq_some_iff.mp hrun
  have h := reach_of_follow hs
  have ht := of_decide_eq_true hp
  obtain ⟨root, t₀, -, -, huser, hroot | ⟨i, q, otp, user, hlogs, rfl, hcode⟩⟩ := session_origin h ht
  · exact absurd hroot List.not_mem_nil
  · rcases hcode with ⟨o, ho, -⟩ | ⟨j, q', hsends, -⟩
    · exact absurd ho List.not_mem_nil
    · exact ⟨s, h, ht, i, q, otp, user, hlogs, huser, j, q', hsends⟩

end DiddiFreeID
