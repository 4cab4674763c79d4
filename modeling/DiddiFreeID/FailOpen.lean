/-
# With Redis down

Whatever is sent to Redis fails, carried out or not. A `RequestOtp` then refuses
a malformed number and nothing else: it reads a counter of 0 and no cooldown, so
every request for the phone of an account ends with a code saved, committed and
sent (`otp_fails_open`). A query finds no entry, so it answers a committed row
that it has read itself (`query_reads_row`).

Key definitions: `refusing`, `Conditions.Down`.
Key theorems: `told_excepted`, `otp_fails_open`, `query_reads_row`.
-/
import DiddiFreeID.CacheExpiry
import DiddiFreeID.Enumeration

namespace DiddiFreeID

open Transact Engine

/-- Nothing that is sent is answered. -/
def Conditions.Down (K : Conditions) : Prop := ∀ n, K.fault n ≠ .answered

theorem remoteExec_down {K : Conditions} (hdown : K.Down) {c : Call} {e : c.Resp}
    (he : c.excepted = some e) (d : Db) (r : Remote) : (remoteExec K c d r).1 = e := by
  unfold remoteExec
  rw [he]
  cases hf : K.fault r.calls with
  | answered => exact absurd hf (hdown _)
  | lost | unheard => rfl

/-! ### What `RequestOtp` refuses -/

section RequestOtp

variable (S : Env)

/-- The account was looked for; where there is one, the code has been saved,
committed and sent. -/
def Served (q : RequestOtp) (phone : String) (l : Heard) : Prop :=
  ∃ user : Option User, Told l (.findByPhone phone) user ∧ (user.isSome = true →
    Told l (.saveOtp (q.newOtp S phone)) () ∧ Told l .commit () ∧
      Told l (.send phone (sixDigits q.draw)) ())

/-- Who raises has been given a number that is none, or has been told that the
address or the phone has to wait; who returns has served the phone. -/
def refusing (q : RequestOtp) : Monitor Call Call.Resp Failure Response Heard :=
  tracing (fun _ _ => True)
    (fun l a => a = .otpSent S.settings.otpCodeLifetimeSeconds S.settings.otpRateLimitSeconds ∧
      ∃ phone, validatePhone q.phone = .ok phone ∧ Served S q phone l)
    (fun l e => (∃ e', validatePhone q.phone = .error e' ∧ e = .api e') ∨
      (∃ ip n, Told l (.incrIp ip q.now) n ∧ ipRequestsPerWindow < n) ∨
      ∃ phone ttl, Told l (.cooldownTtl phone q.now) ttl ∧ 0 < ttl)

variable {q : RequestOtp} {phone : String} {l : Heard}

theorem Served.snoc {S : Env} (h : Served S q phone l) (b : Answered Call Call.Resp) :
    Served S q phone (l ++ [b]) := by
  obtain ⟨user, huser, hsent⟩ := h
  refine ⟨user, huser.snoc b, fun hu => ?_⟩
  obtain ⟨hsave, hcommit, hsend⟩ := hsent hu
  exact ⟨hsave.snoc b, hcommit.snoc b, hsend.snoc b⟩

/-- The end of a request that has served the phone. -/
theorem RequestOtp.arm_refusing (hv : validatePhone q.phone = .ok phone)
    (hl : Served S q phone l) :
    Prog.Follows (refusing S q) l (do
      markPhoneSent phone S.settings.otpRateLimitSeconds q.now
      return .otpSent S.settings.otpCodeLifetimeSeconds S.settings.otpRateLimitSeconds) := by
  unfold markPhoneSent
  split_ifs
  · exact ⟨rfl, phone, hv, hl⟩
  · exact ⟨trivial, fun _ => ⟨rfl, phone, hv, hl.snoc _⟩⟩

theorem RequestOtp.issue_refusing (hv : validatePhone q.phone = .ok phone) (l : Heard) :
    (q.issue S phone).Follows (refusing S q) l := by
  unfold issue
  rw [findByPhone_bind]
  refine ⟨trivial, fun user => ?_⟩
  cases user with
  | none => exact arm_refusing S hv ⟨none, told_snoc, fun hu => (nomatch hu)⟩
  | some user =>
    refine ⟨trivial, fun _ => ⟨trivial, fun _ => ⟨trivial, fun _ => arm_refusing S hv ?_⟩⟩⟩
    exact ⟨some user, ((told_snoc.snoc _).snoc _).snoc _, fun _ =>
      ⟨(told_snoc.snoc _).snoc _, told_snoc.snoc _, told_snoc⟩⟩

/-- The wait for the cooldown and what follows it. -/
theorem RequestOtp.wait_refusing (hv : validatePhone q.phone = .ok phone) (l : Heard) :
    Prog.Follows (refusing S q) l (do
      let remaining ← secondsUntilPhoneAllowed phone S.settings.otpRateLimitSeconds q.now
      if remaining > 0 then raiseError (otpRateLimitedPhone remaining) else q.issue S phone) := by
  unfold secondsUntilPhoneAllowed
  split_ifs with hzero
  · exact issue_refusing S hv l
  · refine ⟨trivial, fun ttl => ?_⟩
    change Prog.Follows _ _ (if max ttl 0 > 0 then _ else _)
    split_ifs with hwait
    · exact .inr (.inr ⟨phone, ttl, told_snoc, by simpa using hwait⟩)
    · exact issue_refusing S hv _

theorem RequestOtp.follows_refusing (q : RequestOtp) : (q.call S).Follows (refusing S q) [] := by
  unfold call
  cases hv : validatePhone q.phone with
  | error e => exact .inl ⟨e, hv, rfl⟩
  | ok phone =>
    rw [check_ok_bind]
    cases q.clientIp with
    | none => exact wait_refusing S hv _
    | some ip =>
      dsimp only
      unfold hitIp
      by_cases hempty : ip = ""
      · rw [if_pos hempty]
        exact wait_refusing S hv _
      rw [if_neg hempty, Prog.ask_bind]
      refine ⟨trivial, fun (count : ℕ) => ?_⟩
      have hcounted : ∀ l, Told l (.incrIp ip q.now) count → Prog.Follows (refusing S q) l
          (if decide (count ≤ ipRequestsPerWindow) = true then do
            let remaining ← secondsUntilPhoneAllowed phone S.settings.otpRateLimitSeconds q.now
            if remaining > 0 then raiseError (otpRateLimitedPhone remaining) else q.issue S phone
          else raiseError (otpRateLimitedIp S.settings.otpRateLimitSeconds)) := by
        intro l hl
        split_ifs with hallowed
        · exact wait_refusing S hv l
        · exact .inr (.inl ⟨ip, count, hl, by simpa using hallowed⟩)
      dsimp only
      by_cases hone : count = 1
      · rw [if_pos hone]
        exact ⟨trivial, fun _ => hcounted _ (told_snoc.snoc _)⟩
      · rw [if_neg hone]
        exact hcounted _ told_snoc

end RequestOtp

/-! ### In flight -/

section Flight

variable {ι : Type} [Fintype ι] [DecidableEq ι] {S : Env} {K : Conditions} {tasks : ι → Task}
  {d : Db} {r : Remote} {i : ι}
  {s : System Call Call.Resp Failure Response Db Remote Write ι}

/-- Whoever has sent anything to Redis goes on with its exception. -/
theorem told_excepted (hdown : K.Down)
    (h : (redis K).Reach Any (System.start d r fun i => (tasks i).prog S) s) {c : Call}
    {a e : c.Resp} (he : c.excepted = some e) (ht : Told (s.thread i).trace c a) : a = e := by
  have hall := h.heard (P := fun _ _ (a : Answered Call Call.Resp) =>
      ∀ e, a.1.excepted = some e → a.2 = e) (fun _ _ _ _ _ _ ha => ha)
    (fun _ _ c _ _ _ _ _ e he => remoteExec_down hdown he _ _) i
  exact hall ⟨c, a⟩ ht e he

/-- An account that was there at the start is found. -/
theorem told_account {phone : String} (hd : (d.findByPhone phone).isSome = true)
    (h : (redis K).Reach Any (System.start d r fun i => (tasks i).prog S) s) {user : Option User}
    (ht : Told (s.thread i).trace (.findByPhone phone) user) : user.isSome = true := by
  have hview : ∀ ws : List Write, (((redis K).view d ws).findByPhone phone).isSome = true := by
    intro ws
    induction ws using List.reverseRecOn with
    | nil => exact hd
    | append_singleton ws w ih =>
      rw [view_append]
      exact Db.isSome_findByPhone_apply ih w
  have hall := h.heard (P := fun _ _ (a : Answered Call Call.Resp) => ∀ user : Option User,
      a = ⟨.findByPhone phone, user⟩ → user.isSome = true)
    (fun _ _ _ _ _ _ ha => ha) (fun s j c k hs _ _ _ user ha => ?_) i
  · exact hall _ ht user rfl
  · obtain ⟨rfl, hu⟩ := Sigma.mk.inj ha
    obtain ⟨ws, hws, -⟩ := hs.history_view j
    obtain rfl := eq_of_heq hu
    change (((redis K).view s.db (s.thread j).log).findByPhone phone).isSome = true
    rw [hws]
    exact hview _

/-- **Fail open.** With Redis down, whatever else is in flight: a request for a
code raises nothing but the error of a malformed number; it answers the same as
ever, and where the phone has an account, it has sent the code by then. -/
theorem otp_fails_open (hdown : K.Down)
    (h : (redis K).Reach Any (System.start d r fun i => (tasks i).prog S) s) {q : RequestOtp}
    (hi : tasks i = .command (.requestOtp q)) :
    (∀ e, (s.thread i).prog = .raise e → ∃ e', validatePhone q.phone = .error e' ∧ e = .api e') ∧
    ∀ a, (s.thread i).prog = .ret a →
      a = .otpSent S.settings.otpCodeLifetimeSeconds S.settings.otpRateLimitSeconds ∧
      ∃ phone, validatePhone q.phone = .ok phone ∧ ((d.findByPhone phone).isSome = true →
        Told (s.thread i).trace (.saveOtp (q.newOtp S phone)) () ∧
        Told (s.thread i).trace .commit () ∧
        Told (s.thread i).trace (.send phone (sixDigits q.draw)) ()) := by
  have hf := h.follows_trace (i := i) (by rw [hi]; exact q.follows_refusing S)
  refine ⟨fun e he => ?_, fun a ha => ?_⟩
  · rw [he] at hf
    rcases hf with herr | ⟨ip, n, hn, hover⟩ | ⟨phone, ttl, httl, hwait⟩
    · exact herr
    · obtain rfl := told_excepted hdown h rfl hn
      exact absurd hover (Nat.not_lt_zero _)
    · obtain rfl := told_excepted hdown h rfl httl
      exact absurd hwait (lt_irrefl _)
  · rw [ha] at hf
    obtain ⟨rfl, phone, hv, user, huser, hsent⟩ := hf
    exact ⟨rfl, phone, hv, fun hd => hsent (told_account hd h huser)⟩

end Flight

/-- With Redis down a query answers a committed row that it has read. -/
theorem query_reads_row {ι : Type} [Fintype ι] [DecidableEq ι] {G : Degraded ι} {i : ι} {n : ℕ}
    (hdown : G.conditions.Down) {q : Query} (hq : G.tasks i = .query q) {p : Profile}
    (hret : ((G.state n).thread i).prog = .ret (.profile p)) :
    ∃ k < n, ∃ v, G.Reads i q.userId v k ∧ p = profilePayload v := by
  have hreach : (redis G.conditions).Reach Any
      (System.start G.db G.remote fun i => (G.tasks i).prog G.env) (G.state n) := reach_state n
  have hf := hreach.follows_trace ((G.tasks i).follows_reading G.env)
  rw [hret] at hf
  obtain ⟨v, rfl, hgot | hread⟩ := hf q hq p rfl
  · exact nomatch told_excepted hdown hreach rfl hgot
  · obtain ⟨k, hk, hrow⟩ := Degraded.read_of_told hq hread
    exact ⟨k, hk, v, hrow, rfl⟩

/-! ### An outage -/

/-- Everything is carried out and nothing is heard of it. -/
def unheard : Conditions where
  clock n := seconds n
  fault _ := .unheard

/-- Two requests for a code of one phone, from one address. -/
def twoCodes (i : Fin 2) : Task :=
  .command (.requestOtp ⟨"+22507000001", some "10.0.0.1", 0, i, 123456⟩)

/-- Step by step in turn. -/
def twoCodesInTurn (n : ℕ) : System Call Call.Resp Failure Response Db Remote Write (Fin 2) :=
  (redis unheard).state (System.start activeAccount {} fun i => (twoCodes i).prog plainEnv)
    (fun n => if n % 2 = 0 then 0 else 1) n

/-- The second has sent its code as well. -/
theorem otp_fails_open_twice : Told ((twoCodesInTurn 16).thread 1).trace
    (.send "+22507000001" (sixDigits (123456 : Fin 1000000))) () := by
  have hout : ((twoCodesInTurn 16).thread 1).prog.outcome = some (.ok (.otpSent 300 60)) := by
    decide +kernel
  have hvalid : validatePhone "+22507000001" = .ok "+22507000001" := by decide +kernel
  have hreach : (redis unheard).Reach Any
      (System.start activeAccount {} fun i => (twoCodes i).prog plainEnv) (twoCodesInTurn 16) :=
    reach_state 16
  have hdown : unheard.Down := fun n => (nomatch ·)
  have htask : twoCodes 1 = .command (.requestOtp _) := rfl
  obtain ⟨-, phone, hv, hserved⟩ := (otp_fails_open hdown hreach htask).2 _
    (Prog.outcome_eq_ok.mp hout)
  obtain rfl : phone = "+22507000001" := Except.ok.inj (hv.symm.trans hvalid)
  exact (hserved (by decide +kernel)).2.2

end DiddiFreeID
