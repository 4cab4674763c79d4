/-
# Finished codes

Of the unconsumed codes of a phone only the newest is compared with a guess,
and a code that is used or burnt is consumed: the next one is the newest of
the others (`Finishes.latest_after`). `RequestOtp` never retires the codes it
issued before, so an older one comes back unless it has expired. An expired
newest code shuts the phone until a new code is issued (`OtpRun.shut`), and
`finished_code` says that this is the only way to stay shut.

Key definitions: `Db.nextActive`, `OtpRun`, `Finishes`, `Compares`.
Key theorems: `Finishes.latest_after`, `finished_code`.
-/
import DiddiFreeID.Codes
import DiddiFreeID.Effects

namespace DiddiFreeID

open Transact Engine

/-! ### The codes of a phone -/

namespace Db

/-- The unconsumed codes of a phone. -/
def activeCodes (d : Db) (phone : String) : List OtpCode :=
  d.otps.filter fun o => o.phone = phone && o.consumedAt.isNone

/-- The newest unconsumed code of a phone but the one with this id. -/
def nextActive (d : Db) (phone : String) (id : Uuid) : Option OtpCode :=
  ((d.activeCodes phone).filter fun o => o.id ≠ id).argmax OtpCode.createdAt

theorem findLatestActive_eq (d : Db) (phone : String) :
    d.findLatestActive phone = (d.activeCodes phone).argmax OtpCode.createdAt := rfl

/-- Consuming a code takes it from the list. -/
theorem activeCodes_consumeOtp (d : Db) (phone : String) (id : Uuid) (now : Time) :
    (Write.apply d (.consumeOtp id now)).activeCodes phone =
      (d.activeCodes phone).filter fun o => o.id ≠ id := by
  simp only [activeCodes, Write.apply]
  induction d.otps with
  | nil => rfl
  | cons o l ih =>
    by_cases hid : o.id = id
    · simp only [List.map_cons, if_pos hid, List.filter_cons, Option.isNone_some, Bool.and_false,
        Bool.false_eq_true, ↓reduceIte, ih]
      split_ifs <;> simp [hid]
    · simp only [List.map_cons, if_neg hid, List.filter_cons, ih]
      split_ifs <;> simp [hid]

/-- An attempt on a code leaves the others. -/
theorem activeCodes_bumpAttempts (d : Db) (phone : String) (id : Uuid) :
    ((Write.apply d (.bumpAttempts id)).activeCodes phone).filter (fun o => o.id ≠ id) =
      (d.activeCodes phone).filter fun o => o.id ≠ id := by
  simp only [activeCodes, Write.apply]
  induction d.otps with
  | nil => rfl
  | cons o l ih =>
    by_cases hid : o.id = id
    · simp only [List.map_cons, if_pos hid, List.filter_cons]
      split_ifs
      · simpa only [List.filter_cons, hid, ne_eq, not_true_eq_false, decide_false,
          Bool.false_eq_true, ↓reduceIte] using ih
      · exact ih
    · simp only [List.map_cons, if_neg hid, List.filter_cons]
      split_ifs
      · simp only [List.filter_cons, hid, ne_eq, not_false_eq_true, decide_true, ↓reduceIte]
        rw [ih]
      · exact ih

/-- The newest code is there and not consumed. -/
theorem isActive_of_latest {d : Db} (hids : d.otpIds.Nodup) {phone : String} {otp : OtpCode}
    (h : d.findLatestActive phone = some otp) : d.isActive otp.id = true := by
  obtain ⟨hmem, hactive⟩ := List.mem_filter.mp (List.argmax_mem h)
  rw [isActive, otp_of_mem hids hmem]
  exact (Bool.and_eq_true _ _ ▸ hactive).2

/-- A write on no code leaves the table of codes. -/
theorem otps_apply {w : Write} (hc : w.onCode = false) (hk : w.keepsCodes = true) (d : Db) :
    (Write.apply d w).otps = d.otps := by
  cases w with
  | bumpAttempts | consumeOtp => cases hc
  | insertOtp => cases hk
  | _ => rfl

theorem otps_view {log : List Write} (h : ∀ w ∈ log, w.onCode = false ∧ w.keepsCodes = true)
    (d : Db) : (store.view d log).otps = d.otps := by
  induction log generalizing d with
  | nil => rfl
  | cons w log ih =>
    obtain ⟨hc, hk⟩ := h w List.mem_cons_self
    rw [view_cons, ih (fun w' hw' => h w' (List.mem_cons_of_mem _ hw')), store_apply,
      otps_apply hc hk]

end Db

theorem Decision.writes_off_codes (dec : Decision) :
    ∀ w ∈ dec.writes, w.onCode = false ∧ w.keepsCodes = true := by
  intro w hw
  unfold writes at hw
  cases he : dec.entry with
  | none => simp [he] at hw
  | some e =>
    rw [he] at hw
    rcases List.mem_cons.mp hw with rfl | hw
    · exact ⟨rfl, rfl⟩
    · rcases List.mem_append.mp hw with hw | hw
      all_goals
        obtain ⟨c, -, rfl⟩ := List.mem_map.mp hw
        exact ⟨rfl, rfl⟩

/-- The right code: refused for the account, or accepted. -/
theorem VerifyOtp.acceptance_cases (S : Env) (q : VerifyOtp) (d : Db) (x : Outside) (otp : OtpCode)
    (row : Option User) :
    (∃ e, (q.acceptance S d x otp row).outcome = .error (.api e) ∧
      ∀ n, e ≠ otpTooManyAttempts n) ∨
    ∃ user, (q.acceptance S d x otp row).writes = d.consumption otp.id q.now ++
      (q.decision S row).writes ++ [.insertToken (q.newToken S user)] := by
  unfold acceptance
  cases row with
  | none => exact .inl ⟨noAccountForPhone, rfl, by simp [noAccountForPhone, otpTooManyAttempts]⟩
  | some user =>
    by_cases hsus : user.status = .suspended
    · refine .inl ⟨userSuspended, ?_, by simp [userSuspended, otpTooManyAttempts]⟩
      simp [decision, hsus, Decision.refuse]
    · right
      have hok : ∃ a, (q.decision S (some user)).outcome = .ok a := by
        simp only [decision, if_neg hsus]
        split_ifs
        · exact ⟨_, rfl⟩
        · exact ⟨_, rfl⟩
      obtain ⟨a, ha⟩ := hok
      exact ⟨user, by rw [ha]⟩

theorem VerifyOtp.effect_keepsCodes (S : Env) (q : VerifyOtp) (d : Db) (x : Outside) :
    ∀ w ∈ (q.effect S d x).writes, w.keepsCodes = true := by
  have honly : ∀ w : Write, w.onCode = true → w.keepsCodes = true := by
    intro w hw
    cases w with
    | bumpAttempts | consumeOtp => rfl
    | _ => cases hw
  rcases q.effect_cases S d x with ⟨-, -, hw⟩ | ⟨phone, otp, user, -, ho⟩
  · exact fun w h => honly w (hw w h)
  · rw [ho.writes]
    intro w hw
    rcases List.mem_append.mp hw with hw | hw
    · rcases List.mem_append.mp hw with hw | hw
      · exact honly w (Db.consumption_onCode _ _ _ w hw)
      · exact (Decision.writes_off_codes _ w hw).2
    · rw [List.mem_singleton.mp hw]
      rfl

/-! ### Runs on a phone -/

/-- The instant of a request. -/
def Request.now : Request → Time
  | registerUser q => q.now
  | requestOtp q => q.now
  | verifyOtp q => q.now
  | refreshAccessToken q => q.now
  | logout q => q.now
  | updateProfile q => q.now
  | changeRole q => q.now
  | decideKyc q => q.now
  | changeStatus q => q.now

/-- The world after the requests `rs`. -/
def World.run (S : Env) (w : World) (rs : List Request) : World := rs.foldl (World.after S) w

@[simp] theorem World.run_nil (S : Env) (w : World) : w.run S [] = w := rfl

@[simp] theorem World.run_cons (S : Env) (w : World) (r : Request) (rs : List Request) :
    w.run S (r :: rs) = (w.after S r).run S rs := rfl

@[simp] theorem World.run_append (S : Env) (w : World) (rs rs' : List Request) :
    w.run S (rs ++ rs') = (w.run S rs).run S rs' := List.foldl_append

/-- A call of an OTP route for the phone, not before `now`; the id that
`RequestOtp` draws is new. -/
def OtpCall (phone : String) (w : World) (now : Time) : Request → Prop
  | .requestOtp q => validatePhone q.phone = .ok phone ∧ now ≤ q.now ∧ q.newId ∉ w.db.otpIds
  | .verifyOtp q => validatePhone q.phone = .ok phone ∧ now ≤ q.now
  | _ => False

instance (phone : String) (w : World) (now : Time) :
    (r : Request) → Decidable (OtpCall phone w now r)
  | .requestOtp q => inferInstanceAs
      (Decidable (validatePhone q.phone = .ok phone ∧ now ≤ q.now ∧ q.newId ∉ w.db.otpIds))
  | .verifyOtp q => inferInstanceAs (Decidable (validatePhone q.phone = .ok phone ∧ now ≤ q.now))
  | .registerUser _ | .refreshAccessToken _ | .logout _ | .updateProfile _
  | .changeRole _ | .decideKyc _ | .changeStatus _ => .isFalse id

/-- Calls of the OTP routes for the phone, at non-decreasing instants. -/
def OtpRun (S : Env) (phone : String) : World → Time → List Request → Prop
  | _, _, [] => True
  | w, now, r :: rs => OtpCall phone w now r ∧ OtpRun S phone (w.after S r) r.now rs

instance OtpRun.instDecidable (S : Env) (phone : String) : ∀ (w : World) (now : Time)
    (rs : List Request), Decidable (OtpRun S phone w now rs)
  | _, _, [] => .isTrue trivial
  | w, _, r :: rs =>
    have := instDecidable S phone (w.after S r) r.now rs
    inferInstanceAs (Decidable (_ ∧ _))

/-- No account and no code under an id twice. -/
structure World.Keyed (w : World) : Prop where
  users : (w.db.users.map User.id).Nodup
  otps : w.db.otpIds.Nodup

variable (S : Env)

/-- The request issues a code. -/
def IssuesCode (w : World) (r : Request) : Prop := (w.after S r).db.otpIds ≠ w.db.otpIds

/-- None of the requests issues a code. -/
def NoneIssued : World → List Request → Prop
  | _, [] => True
  | w, r :: rs => ¬IssuesCode S w r ∧ NoneIssued (w.after S r) rs

/-- `VerifyOtp` succeeds, or answers that the attempts are used up. -/
def Finishes (w : World) (q : VerifyOtp) : Prop :=
  (∃ a, w.answer S (.verifyOtp q) = .ok a) ∨
    ∃ n, w.answer S (.verifyOtp q) = .error (.api (otpTooManyAttempts n))

/-- The guess is compared with a code. -/
def Compares (phone : String) (w : World) (q : VerifyOtp) : Prop :=
  ∃ otp, w.db.findLatestActive phone = some otp ∧ otp.isExpired q.now = false

variable {S} {phone : String} {w : World} {now : Time}

theorem VerifyOtp.effect_of_latest {q : VerifyOtp} {d : Db} {otp : OtpCode} (x : Outside)
    (hv : validatePhone q.phone = .ok phone) (hl : d.findLatestActive phone = some otp) :
    q.effect S d x =
      if otp.isExpired q.now then .refuse otpExpired x
      else if !verifyOtpCode S q.code otp.codeHash then q.rejection S d x otp
      else q.acceptance S d x otp (d.findByPhone phone) := by
  simp only [effect, hv, hl]

/-- Without a code that can be compared, `VerifyOtp` refuses and writes
nothing. -/
theorem VerifyOtp.effect_of_not_compares {q : VerifyOtp} (hv : validatePhone q.phone = .ok phone)
    (hc : ¬Compares phone w q) : ∃ e, q.effect S w.db w.outside = .refuse e w.outside := by
  cases hl : w.db.findLatestActive phone with
  | none => exact ⟨otpInvalid none, by simp only [effect, hv, hl]⟩
  | some otp =>
    have hexp : otp.isExpired q.now = true := by
      by_contra hne
      exact hc ⟨otp, hl, by simpa using hne⟩
    exact ⟨otpExpired, by rw [effect_of_latest _ hv hl, if_pos hexp]⟩

/-! ### A finished code -/

/-- A refusal that does not finish the code is none. -/
theorem Finishes.ne_refusal {q : VerifyOtp} {e : ApiError} (hf : Finishes S w q)
    (hne : ∀ n, e ≠ otpTooManyAttempts n) : w.answer S (.verifyOtp q) ≠ .error (.api e) := by
  intro hans
  rcases hf with ⟨a, ha⟩ | ⟨n, hn⟩
  · cases hans.symm.trans ha
  · injection hans.symm.trans hn with h
    injection h with h
    exact hne n h

theorem Finishes.ne_database {q : VerifyOtp} (hf : Finishes S w q) :
    w.answer S (.verifyOtp q) ≠ .error .database := by
  intro hans
  rcases hf with ⟨a, ha⟩ | ⟨n, hn⟩
  · cases hans.symm.trans ha
  · cases hans.symm.trans hn

/-- The last wrong guess: the row is counted, then consumed. -/
theorem VerifyOtp.activeCodes_rejection {q : VerifyOtp} {d : Db} {x : Outside} {otp : OtpCode}
    {attempts : ℤ} (hnext : d.nextAttempt otp.id = some attempts)
    (hactive : d.isActive otp.id = true) (hlast : S.settings.otpMaxAttempts ≤ attempts) :
    (store.view d (q.rejection S d x otp).writes).activeCodes phone =
      (d.activeCodes phone).filter fun o => o.id ≠ otp.id := by
  have hbumped : (Write.apply d (.bumpAttempts otp.id)).isActive otp.id = true := by
    rw [Db.isActive_bumpAttempts]
    exact hactive
  simp only [rejection, hnext, if_pos hlast, Db.consumption_of_isActive _ hbumped]
  rw [view_cons, view_cons, view_nil, store_apply, store_apply, Db.activeCodes_consumeOtp,
    Db.activeCodes_bumpAttempts]

/-- The right code: the row is consumed, and what else is written is on no
code. -/
theorem VerifyOtp.activeCodes_acceptance {q : VerifyOtp} {d : Db} {x : Outside} {otp : OtpCode}
    {row : Option User} (hactive : d.isActive otp.id = true) {t : RefreshToken}
    (hw : (q.acceptance S d x otp row).writes = d.consumption otp.id q.now ++
      (q.decision S row).writes ++ [.insertToken t]) :
    (store.view d (q.acceptance S d x otp row).writes).activeCodes phone =
      (d.activeCodes phone).filter fun o => o.id ≠ otp.id := by
  have hotps : (store.view d (q.acceptance S d x otp row).writes).otps =
      (Write.apply d (.consumeOtp otp.id q.now)).otps := by
    rw [hw, Db.consumption_of_isActive _ hactive, List.singleton_append, List.cons_append,
      view_cons, store_apply]
    refine Db.otps_view (fun w' hw' => ?_) _
    rcases List.mem_append.mp hw' with hw' | hw'
    · exact Decision.writes_off_codes _ w' hw'
    · rw [List.mem_singleton.mp hw']
      exact ⟨rfl, rfl⟩
  rw [Db.activeCodes, hotps]
  exact Db.activeCodes_consumeOtp _ _ _ _

/-- The code that is finished was the newest, and it is consumed. -/
theorem Finishes.latest_after (hk : w.Keyed) {q : VerifyOtp}
    (hv : validatePhone q.phone = .ok phone) (hf : Finishes S w q) :
    ∃ otp, w.db.findLatestActive phone = some otp ∧
      (w.after S (.verifyOtp q)).db.findLatestActive phone = w.db.nextActive phone otp.id := by
  have hans := World.answer_eq (S := S) (r := .verifyOtp q) hk.users
  have hdb := World.after_db (S := S) (r := .verifyOtp q) hk.users
  simp only [Request.effect] at hans hdb
  cases hl : w.db.findLatestActive phone with
  | none =>
    refine absurd (hans.trans ?_) (hf.ne_refusal (e := otpInvalid none)
      (by simp [otpInvalid, otpTooManyAttempts]))
    simp only [VerifyOtp.effect, hv, hl]
    rfl
  | some otp =>
    refine ⟨otp, rfl, ?_⟩
    have hactive := Db.isActive_of_latest hk.otps hl
    rw [VerifyOtp.effect_of_latest _ hv hl] at hans hdb
    by_cases hexp : otp.isExpired q.now = true
    · rw [if_pos hexp] at hans
      exact absurd hans (hf.ne_refusal (by simp [otpExpired, otpTooManyAttempts]))
    rw [if_neg hexp] at hans hdb
    rw [Db.findLatestActive_eq, Db.nextActive]
    congr 1
    by_cases hcode : (!verifyOtpCode S q.code otp.codeHash) = true
    · -- a wrong code
      rw [if_pos hcode] at hans hdb
      cases hnext : w.db.nextAttempt otp.id with
      | none =>
        simp only [VerifyOtp.rejection, hnext] at hans
        exact absurd hans hf.ne_database
      | some attempts =>
        by_cases hlast : S.settings.otpMaxAttempts ≤ attempts
        · rw [hdb, VerifyOtp.activeCodes_rejection hnext hactive hlast]
        · simp only [VerifyOtp.rejection, hnext, if_neg hlast] at hans
          exact absurd hans (hf.ne_refusal (by simp [otpInvalid, otpTooManyAttempts]))
    · -- the right code
      rw [if_neg hcode] at hans hdb
      rcases q.acceptance_cases S w.db w.outside otp (w.db.findByPhone phone) with
        ⟨e, he, hne⟩ | ⟨user, hw⟩
      · exact absurd (hans.trans he) (hf.ne_refusal hne)
      · rw [hdb, VerifyOtp.activeCodes_acceptance hactive hw]

/-! ### Shut phones -/

/-- No code of the phone can be compared from `now` on. -/
def ShutPhone (phone : String) (w : World) (now : Time) : Prop :=
  ∀ otp, w.db.findLatestActive phone = some otp → otp.isExpired now = true

theorem ShutPhone.mono {now' : Time} (h : ShutPhone phone w now) (hle : now ≤ now') : ShutPhone phone w now' := by
  intro otp hl
  have hexp := h otp hl
  simp only [OtpCode.isExpired, decide_eq_true_eq] at hexp ⊢
  exact hexp.trans hle

theorem ShutPhone.not_compares {q : VerifyOtp} (h : ShutPhone phone w q.now) : ¬Compares phone w q := by
  rintro ⟨otp, hl, hexp⟩
  rw [h otp hl] at hexp
  cases hexp

/-- **Step.** A call that issues no code leaves a shut phone shut. -/
theorem ShutPhone.step {r : Request} (hids : (w.db.users.map User.id).Nodup)
    (hr : OtpCall phone w now r) (hi : ¬IssuesCode S w r) (h : ShutPhone phone w now) :
    ShutPhone phone (w.after S r) r.now := by
  have hdb := World.after_db (S := S) (r := r) hids
  have hkeep : ∀ {now'}, (w.after S r).db.otps = w.db.otps → now ≤ now' →
      ShutPhone phone (w.after S r) now' := by
    intro now' hotps hle otp hl
    rw [Db.findLatestActive, hotps] at hl
    exact h.mono hle otp hl
  cases r with
  | requestOtp q =>
    refine hkeep ?_ hr.2.1
    rw [hdb, Request.effect]
    rcases q.effect_cases S w.db w.outside with ⟨-, hw⟩ | ⟨phone', -, -, -, -, hw⟩
    · rw [hw]
      rfl
    · split_ifs at hw
      · refine absurd ?_ hi
        rw [IssuesCode, hdb, Request.effect, hw]
        simp [Db.otpIds, Write.apply]
      · rw [hw]
        rfl
  | verifyOtp q =>
    refine hkeep ?_ hr.2
    obtain ⟨e, he⟩ := VerifyOtp.effect_of_not_compares (S := S) hr.1 (h.mono hr.2).not_compares
    rw [hdb, Request.effect, he]
    rfl
  | _ => cases hr

/-- An OTP call leaves the ids of the accounts, and no code id comes twice. -/
theorem World.Keyed.step {r : Request} (hk : w.Keyed) (hr : OtpCall phone w now r) :
    (w.after S r).Keyed := by
  have hdb := World.after_db (S := S) (r := r) hk.users
  have hfresh : r.Fresh w.db := by
    cases r with
    | registerUser q => cases hr
    | _ => trivial
  refine ⟨World.ids_after hk.users hfresh, ?_⟩
  cases r with
  | requestOtp q =>
    rw [hdb, Request.effect]
    rcases q.effect_cases S w.db w.outside with ⟨-, hw⟩ | ⟨phone', -, -, -, -, hw⟩
    · rw [hw]
      exact hk.otps
    · rw [hw]
      split_ifs
      · rw [view_cons, view_nil, store_apply, Db.otpIds, Write.apply, List.map_append]
        refine List.nodup_append.mpr ⟨hk.otps, List.nodup_singleton _, fun a ha b hb he => ?_⟩
        rw [he, List.mem_singleton.mp hb] at ha
        exact hr.2.2 ha
      · exact hk.otps
  | verifyOtp q =>
    rw [hdb, Request.effect, otpIds_view (q.effect_keepsCodes S w.db w.outside)]
    exact hk.otps
  | _ => cases hr

/-- The instant of the last of the requests `rs`, which start from `now`. -/
def lastNow (now : Time) (rs : List Request) : Time := rs.foldl (fun _ r => r.now) now

theorem otpRun_append {rs' : List Request} : ∀ {rs : List Request} {w : World} {now : Time},
    OtpRun S phone w now (rs ++ rs') ↔
      OtpRun S phone w now rs ∧ OtpRun S phone (w.run S rs) (lastNow now rs) rs'
  | [], _, _ => by simp [OtpRun, lastNow]
  | r :: rs, w, now => by
    simp only [List.cons_append, OtpRun, World.run_cons, lastNow, List.foldl_cons, otpRun_append,
      and_assoc]

theorem OtpRun.keyed : ∀ {rs : List Request} {w : World} {now : Time}, OtpRun S phone w now rs →
    w.Keyed → (w.run S rs).Keyed
  | [], _, _, _, hk => hk
  | _ :: _, _, _, h, hk => h.2.keyed (hk.step h.1)

/-- **Run.** While no code is issued, a shut phone stays shut. -/
theorem OtpRun.shut : ∀ {rs : List Request} {w : World} {now : Time}, OtpRun S phone w now rs →
    w.Keyed → NoneIssued S w rs → ShutPhone phone w now → ShutPhone phone (w.run S rs) (lastNow now rs)
  | [], _, _, _, _, _, hs => hs
  | _ :: _, _, _, h, hk, hi, hs => h.2.shut (hk.step h.1) hi.2 (hs.step hk.users h.1 hi.1)

/-- A login compares its guess. -/
theorem Compares.of_ok {q : VerifyOtp} {a : Response} (hids : (w.db.users.map User.id).Nodup)
    (hv : validatePhone q.phone = .ok phone) (h : w.answer S (.verifyOtp q) = .ok a) :
    Compares phone w q := by
  by_contra hc
  obtain ⟨e, he⟩ := VerifyOtp.effect_of_not_compares (S := S) hv hc
  rw [World.answer_eq hids, Request.effect, he] at h
  cases h

/-- **A finished code.** From any store, in any run of OTP calls on a phone:
after a `VerifyOtp` that succeeds or uses up the attempts, no guess is
compared and none succeeds until a code is issued, exactly if the newest
other unconsumed code of the phone, if there is one, had expired. -/
theorem finished_code (hk : w.Keyed) {before : List Request} {q : VerifyOtp}
    (h : OtpRun S phone w now (before ++ [.verifyOtp q])) (hf : Finishes S (w.run S before) q) :
    (∀ mid q', OtpRun S phone w now (before ++ [.verifyOtp q] ++ mid ++ [.verifyOtp q']) →
      NoneIssued S (w.run S (before ++ [.verifyOtp q])) mid →
        ¬Compares phone (w.run S (before ++ [.verifyOtp q] ++ mid)) q' ∧
        ¬∃ a, (w.run S (before ++ [.verifyOtp q] ++ mid)).answer S (.verifyOtp q') = .ok a) ↔
    ∀ otp next, (w.run S before).db.findLatestActive phone = some otp →
      (w.run S before).db.nextActive phone otp.id = some next → next.isExpired q.now = true := by
  obtain ⟨hbefore, hcall⟩ := otpRun_append.mp h
  have hkq := hbefore.keyed hk
  obtain ⟨otp, hl, hafter⟩ := hf.latest_after hkq hcall.1.1
  have hrun : w.run S (before ++ [.verifyOtp q]) = (w.run S before).after S (.verifyOtp q) := by
    simp
  have hlast : lastNow now (before ++ [.verifyOtp q]) = q.now := by
    simp [lastNow, Request.now]
  constructor
  · -- the same call again
    intro hall otp' next hl' hnext
    obtain rfl : otp = otp' := Option.some.inj (hl.symm.trans hl')
    by_contra hexp
    have hagain : OtpRun S phone w now (before ++ [.verifyOtp q] ++ [] ++ [.verifyOtp q]) := by
      rw [List.append_nil]
      refine otpRun_append.mpr ⟨h, ⟨hcall.1.1, ?_⟩, trivial⟩
      rw [hlast]
    refine (hall [] q hagain trivial).1 ⟨next, ?_, by simpa using hexp⟩
    rw [List.append_nil, hrun, hafter, hnext]
  · intro hexp mid q' hlater hi
    obtain ⟨hmid, hq'⟩ := otpRun_append.mp hlater
    obtain ⟨-, hmid⟩ := otpRun_append.mp hmid
    have hstart : ShutPhone phone (w.run S (before ++ [.verifyOtp q]))
        (lastNow now (before ++ [.verifyOtp q])) := by
      intro next hnext
      rw [hrun, hafter] at hnext
      rw [hlast]
      exact hexp otp next hl hnext
    have hkmid := h.keyed hk
    have hshut := hmid.shut hkmid hi hstart
    have hlater' : lastNow (lastNow now (before ++ [.verifyOtp q])) mid ≤ q'.now := by
      have := hq'.1.2
      rwa [lastNow, List.foldl_append] at this
    rw [World.run_append]
    have hnot := (hshut.mono hlater').not_compares
    exact ⟨hnot, fun ⟨a, ha⟩ => hnot (Compares.of_ok (hmid.keyed hkmid).users hq'.1.1 ha)⟩

/-- A world with one account. -/
def oneAccount : World := served plainEnv [.registerUser ⟨"+22507000001", none, 0, 7⟩]

theorem oneAccount_keyed : oneAccount.Keyed := ⟨by decide +kernel, by decide +kernel⟩

/-- Two codes: the first has expired when the second is used, and is not
compared any more. -/
theorem finished_code_expired :
    let codes : List Request :=
      [.requestOtp ⟨"+22507000001", none, seconds 1, 8, 123456⟩,
        .requestOtp ⟨"+22507000001", none, seconds 302, 9, 654321⟩]
    let q : VerifyOtp := ⟨"+22507000001", "654321", none, seconds 303, 10, "r"⟩
    let q' : VerifyOtp := ⟨"+22507000001", "123456", none, seconds 304, 11, "r'"⟩
    ¬Compares "+22507000001" (oneAccount.run plainEnv (codes ++ [.verifyOtp q])) q' := by
  intro codes q q'
  have hrun : OtpRun plainEnv "+22507000001" oneAccount 0
      (codes ++ [.verifyOtp q] ++ [] ++ [.verifyOtp q']) := by
    decide +kernel
  have hok : Finishes plainEnv (oneAccount.run plainEnv codes) q :=
    .inl ⟨q.answer plainEnv { id := 7, phone := "+22507000001", status := .active },
      by decide +kernel⟩
  have hnext : ∀ otp ∈ (oneAccount.run plainEnv codes).db.otps,
      ∀ next ∈ (oneAccount.run plainEnv codes).db.nextActive "+22507000001" otp.id,
        otp.id = 9 → next.isExpired q.now = true := by
    decide +kernel
  have hlatest : ((oneAccount.run plainEnv codes).db.findLatestActive "+22507000001").map
      OtpCode.id = some 9 := by
    decide +kernel
  rw [List.append_nil] at hrun
  refine ((finished_code oneAccount_keyed (otpRun_append.mp hrun).1 hok).mpr
    (fun otp next hl hn => ?_) [] q' (by simpa using hrun) trivial).1
  rw [hl] at hlatest
  exact hnext otp (List.mem_filter.mp (List.argmax_mem hl)).1 next hn (Option.some.inj hlatest)

/-- **An older code comes back.** Two codes are issued as fast as the
cooldown allows; the second opens a session, and then the first opens one,
no code having been issued in between. -/
theorem older_code_accepted :
    let codes : List Request :=
      [.requestOtp ⟨"+22507000001", none, seconds 1, 8, 123456⟩,
        .requestOtp ⟨"+22507000001", none, seconds 62, 9, 654321⟩]
    let q : VerifyOtp := ⟨"+22507000001", "654321", none, seconds 63, 10, "r"⟩
    let q' : VerifyOtp := ⟨"+22507000001", "123456", none, seconds 64, 11, "r'"⟩
    OtpRun plainEnv "+22507000001" oneAccount 0 (codes ++ [.verifyOtp q] ++ [.verifyOtp q']) ∧
    Finishes plainEnv (oneAccount.run plainEnv codes) q ∧
    ∃ a, (oneAccount.run plainEnv (codes ++ [.verifyOtp q])).answer plainEnv (.verifyOtp q') =
      .ok a := by
  intro codes q q'
  exact ⟨by decide +kernel,
    .inl ⟨q.answer plainEnv { id := 7, phone := "+22507000001", status := .active },
      by decide +kernel⟩,
    q'.answer plainEnv { id := 7, phone := "+22507000001", status := .active }, by decide +kernel⟩

end DiddiFreeID
