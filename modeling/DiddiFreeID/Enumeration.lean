/-
# What the OTP routes tell about a number

Two stores alike in the rate limiter, one with an account for a phone and one
with neither account nor code for it (`Twins`), answer the same calls of the
OTP routes. `RequestOtp` reads the limiter alone for its answer, so it never
tells them apart (`Twins.requestOtp`). `VerifyOtp` does as soon as the first
store holds a code: it answers that the code has expired, how many attempts
remain or that they are used up, where the second answers a bare
`OTP_INVALID` (`Twins.verifyOtp`). `same_answers` is the whole run: the two
stores answer alike exactly if every guess comes before the first code.

Key definitions: `OnPhone`, `World.answers`, `Twins`, `Unguessed`.
Key theorems: `Legal.unknown_noCode`, `same_answers`.
-/
import DiddiFreeID.FinishedCodes

namespace DiddiFreeID

open Transact Engine

variable {S : Env} {phone : String}

/-! ### Codes belong to accounts -/

namespace Db

/-- Every code is for the phone of an account. -/
def CodesOwned (d : Db) : Prop := ∀ o ∈ d.otps, (d.findByPhone o.phone).isSome = true

/-- No write removes an account. -/
theorem isSome_findByPhone_apply {d : Db} (h : (d.findByPhone phone).isSome = true) (w : Write) :
    ((Write.apply d w).findByPhone phone).isSome = true := by
  cases w with
  | insertUser u =>
    obtain ⟨v, hv⟩ := Option.isSome_iff_exists.mp h
    rw [findByPhone] at hv
    simp [findByPhone, Write.apply, List.find?_append, hv]
  | updateUser u now => rw [findByPhone_updateUser, Option.isSome_map, h]
  | _ => exact h

/-- A code that was there before has the phone it had. -/
theorem phone_of_mem_otps_apply {d : Db} {w : Write} (hw : w.keepsCodes = true) {o : OtpCode}
    (h : o ∈ (Write.apply d w).otps) : ∃ o' ∈ d.otps, o'.phone = o.phone := by
  cases w with
  | insertOtp => cases hw
  | bumpAttempts | consumeOtp =>
    obtain ⟨o', ho', rfl⟩ := List.mem_map.mp h
    refine ⟨o', ho', ?_⟩
    split_ifs <;> rfl
  | _ => exact ⟨o, h, rfl⟩

theorem CodesOwned.apply {d : Db} (h : d.CodesOwned) {w : Write} (hw : w.keepsCodes = true) :
    (Write.apply d w).CodesOwned := by
  intro o ho
  obtain ⟨o', ho', hp⟩ := phone_of_mem_otps_apply hw ho
  exact isSome_findByPhone_apply (hp ▸ h o' ho') w

theorem CodesOwned.view {log : List Write} (hlog : ∀ w ∈ log, w.keepsCodes = true) {d : Db}
    (h : d.CodesOwned) : (store.view d log).CodesOwned := by
  induction log generalizing d with
  | nil => exact h
  | cons w log ih =>
    rw [view_cons, store_apply]
    exact ih (fun w' hw' => hlog w' (List.mem_cons_of_mem _ hw'))
      (h.apply (hlog w List.mem_cons_self))

/-- Where codes belong to accounts, a phone without an account has none. -/
theorem CodesOwned.findLatestActive {d : Db} (h : d.CodesOwned) (hp : d.findByPhone phone = none) :
    d.findLatestActive phone = none := by
  rw [findLatestActive_eq, List.argmax_eq_none]
  refine List.filter_eq_nil_iff.mpr fun o ho hactive => ?_
  have hphone : o.phone = phone := by
    simp only [Bool.and_eq_true, decide_eq_true_eq] at hactive
    exact hactive.1
  have hsome := h o ho
  rw [hphone, hp] at hsome
  cases hsome

end Db

/-- A request that is no `RequestOtp` inserts no code. -/
theorem Request.effect_keepsCodes (S : Env) (d : Db) (x : Outside) {r : Request}
    (hr : ∀ q, r ≠ .requestOtp q) : ∀ w ∈ (r.effect S d x).writes, w.keepsCodes = true := by
  have hrevocation : ∀ id now, ∀ w ∈ d.revocation id now, w.keepsCodes = true := by
    intro id now w hw
    rw [Db.eq_of_mem_revocation hw]
    rfl
  cases r with
  | requestOtp q => exact absurd rfl (hr q)
  | registerUser q =>
    change ∀ w ∈ (q.effect d x).writes, _
    rcases q.effect_cases d x with ⟨e, he⟩ | ⟨phone, -, -, he⟩
    · simp [he, Effect.refuse]
    · rw [he]
      rcases d.saveUser_writes (q.newUser phone) q.now with hw | hw | ⟨v, hw⟩
      all_goals simp [hw, Write.keepsCodes]
  | verifyOtp q => exact q.effect_keepsCodes S d x
  | refreshAccessToken q =>
    change ∀ w ∈ (q.effect S d x).writes, _
    rcases q.effect_cases S d x with ⟨e, he, -⟩ | ⟨stored, -, -, he⟩ |
      ⟨stored, user, -, -, -, -, -, he⟩
    · simp [he, Effect.refuse]
    · simp [he, Db.revocationOfAll, Write.keepsCodes]
    · rw [he]
      intro w hw
      rcases List.mem_append.mp hw with hw | hw
      · exact hrevocation _ _ w hw
      · rw [List.mem_singleton.mp hw]
        rfl
  | logout q =>
    change ∀ w ∈ (q.effect S d x).writes, _
    rcases (q.effect_cases S d x).2.2 with ⟨-, hw⟩ | ⟨stored, -, hw⟩
    · simp [hw]
    · rw [hw]
      split_ifs
      · simp [Db.revocationOfAll, Write.keepsCodes]
      · exact hrevocation _ _
  | updateProfile | changeRole | decideKyc => exact fun w hw => (Decision.writes_off_codes _ w hw).2
  | changeStatus q =>
    change ∀ w ∈ (q.effect d x).writes, _
    have hdec := Decision.writes_off_codes (q.decision (d.findById q.userId))
    unfold ChangeStatus.effect
    unfold Decision.writes at hdec
    cases he : (q.decision (d.findById q.userId)).entry with
    | none => simp [he]
    | some e =>
      simp only [he, Option.elim] at hdec ⊢
      intro w hw
      rcases List.mem_append.mp hw with hw | hw
      · exact (hdec w hw).2
      · split_ifs at hw
        · rw [List.mem_singleton.mp hw]
          rfl
        · cases hw

/-- **Step.** A code is issued to the phone of an account only. -/
theorem Db.CodesOwned.after {w : World} {r : Request} (hids : (w.db.users.map User.id).Nodup)
    (h : w.db.CodesOwned) : (w.after S r).db.CodesOwned := by
  rw [World.after_db hids]
  by_cases hr : ∃ q, r = .requestOtp q
  · obtain ⟨q, rfl⟩ := hr
    rw [Request.effect]
    rcases q.effect_cases S w.db w.outside with ⟨-, hw⟩ | ⟨phone, -, -, -, -, hw⟩
    · rw [hw]
      exact h
    · rw [hw]
      split_ifs with hp
      · intro o ho
        rcases List.mem_append.mp ho with ho | ho
        · exact h o ho
        · rw [List.mem_singleton.mp ho]
          exact hp
      · exact h
  · exact h.view (Request.effect_keepsCodes S _ _ fun q he => hr ⟨q, he⟩)

/-- **Run.** A phone without an account has no code, in every store a service
reaches. -/
theorem Legal.unknown_noCode {ok : World → Request → Prop} {rs : List Request} (h : Legal S ok rs)
    (hp : (served S rs).db.findByPhone phone = none) :
    (served S rs).db.findLatestActive phone = none := by
  have howned : (served S rs).db.CodesOwned := by
    clear hp
    induction h with
    | nil => exact fun o ho => absurd ho List.not_mem_nil
    | snoc hl _ _ ih =>
      rw [served_snoc]
      exact Db.CodesOwned.after hl.wellFormed.ids ih
  exact howned.findLatestActive hp

/-! ### Calls and answers -/

/-- A call of an OTP route for the phone, at any time and from any address. -/
def OnPhone (phone : String) : Request → Prop
  | .requestOtp q => validatePhone q.phone = .ok phone
  | .verifyOtp q => validatePhone q.phone = .ok phone
  | _ => False

instance (phone : String) : (r : Request) → Decidable (OnPhone phone r)
  | .requestOtp q => inferInstanceAs (Decidable (validatePhone q.phone = .ok phone))
  | .verifyOtp q => inferInstanceAs (Decidable (validatePhone q.phone = .ok phone))
  | .registerUser _ | .refreshAccessToken _ | .logout _ | .updateProfile _
  | .changeRole _ | .decideKyc _ | .changeStatus _ => .isFalse id

/-- The answers to the requests `rs`, in order. -/
def World.answers (S : Env) : World → List Request → List (Except Failure Response)
  | _, [] => []
  | w, r :: rs => w.answer S r :: (w.after S r).answers S rs

/-- Every guess comes while the store holds no unconsumed code of the phone. -/
def Unguessed (S : Env) (phone : String) : World → List Request → Prop
  | _, [] => True
  | w, r :: rs =>
    (∀ q, r = .verifyOtp q → w.db.findLatestActive phone = none) ∧
      Unguessed S phone (w.after S r) rs

/-- `w₁` has an account for the phone, `w₂` has neither an account nor a
code, and the rate limiter is the same in both. -/
structure Twins (phone : String) (w₁ w₂ : World) : Prop where
  ids₁ : (w₁.db.users.map User.id).Nodup
  ids₂ : (w₂.db.users.map User.id).Nodup
  known : (w₁.db.findByPhone phone).isSome = true
  unknown : w₂.db.findByPhone phone = none
  noCode : w₂.db.findLatestActive phone = none
  ipHits : w₁.outside.ipHits = w₂.outside.ipHits
  cooldowns : w₁.outside.cooldowns = w₂.outside.cooldowns

/-! ### The limiter -/

/-- The same keys of the rate limiter. -/
def SameLimiter (x₁ x₂ : Outside) : Prop :=
  x₁.ipHits = x₂.ipHits ∧ x₁.cooldowns = x₂.cooldowns

namespace SameLimiter

variable {x₁ x₂ : Outside}

theorem hits (h : SameLimiter x₁ x₂) (ip : String) (now : Time) : x₁.hits ip now = x₂.hits ip now := by
  rw [Outside.hits, h.1, ← Outside.hits]

theorem setHits (h : SameLimiter x₁ x₂) (ip : String) (n : ℕ) (expiry : Option Time) :
    SameLimiter (x₁.setHits ip n expiry) (x₂.setHits ip n expiry) :=
  ⟨by simp only [Outside.setHits, h.1], h.2⟩

theorem armCooldown (h : SameLimiter x₁ x₂) (phone : String) (cooldown : ℤ) (now : Time) :
    SameLimiter (x₁.armCooldown phone cooldown now) (x₂.armCooldown phone cooldown now) :=
  ⟨h.1, by simp only [Outside.armCooldown, h.2]⟩

variable (q : RequestOtp)

theorem ipAllows (h : SameLimiter x₁ x₂) : q.ipAllows x₁ = q.ipAllows x₂ := by
  unfold RequestOtp.ipAllows
  simp only [h.hits]

theorem countIp (h : SameLimiter x₁ x₂) : SameLimiter (q.countIp x₁) (q.countIp x₂) := by
  unfold RequestOtp.countIp
  cases q.clientIp with
  | none => exact h
  | some ip =>
    have hset := h.setHits ip ((x₂.hits ip q.now).1 + 1) (x₂.hits ip q.now).2
    simp only [h.hits, hset.hits]
    split_ifs
    · exact h
    · exact hset.setHits _ _ _
    · exact hset

theorem wait (h : SameLimiter x₁ x₂) :
    RequestOtp.wait S x₁ phone q = RequestOtp.wait S x₂ phone q := by
  unfold RequestOtp.wait Outside.cooldownTtl
  rw [h.2]

theorem arm (h : SameLimiter x₁ x₂) :
    SameLimiter (RequestOtp.arm S x₁ phone q) (RequestOtp.arm S x₂ phone q) := by
  unfold RequestOtp.arm
  split_ifs
  · exact h
  · exact h.armCooldown _ _ _

end SameLimiter

/-- `RequestOtp` answers from the limiter alone, and moves it alike whether
or not the phone has an account. -/
theorem RequestOtp.effect_congr (q : RequestOtp) (d₁ d₂ : Db) {x₁ x₂ : Outside}
    (h : SameLimiter x₁ x₂) :
    (q.effect S d₁ x₁).outcome = (q.effect S d₂ x₂).outcome ∧
      SameLimiter (q.effect S d₁ x₁).outside (q.effect S d₂ x₂).outside := by
  have hcount := h.countIp q
  unfold effect
  cases validatePhone q.phone with
  | error e => exact ⟨rfl, h⟩
  | ok phone =>
    dsimp only
    rw [h.ipAllows q, hcount.wait q]
    split_ifs
    · exact ⟨rfl, hcount⟩
    · -- an account or none: the message sent is no part of the limiter
      have hsent : ∀ sent₁ sent₂, SameLimiter { q.countIp x₁ with sent := sent₁ }
          { q.countIp x₂ with sent := sent₂ } := fun _ _ => hcount
      cases d₁.findByPhone phone <;> cases d₂.findByPhone phone <;>
        exact ⟨rfl, SameLimiter.arm q (hsent _ _)⟩
    · exact ⟨rfl, hcount⟩

/-! ### Two runs -/

namespace Twins

variable {w₁ w₂ : World}

/-- `RequestOtp` does not tell the two stores apart. -/
theorem requestOtp (h : Twins phone w₁ w₂) {q : RequestOtp} (hq : validatePhone q.phone = .ok phone) :
    w₁.answer S (.requestOtp q) = w₂.answer S (.requestOtp q) ∧
      Twins phone (w₁.after S (.requestOtp q)) (w₂.after S (.requestOtp q)) := by
  obtain ⟨hout, hlimiter⟩ := q.effect_congr (S := S) w₁.db w₂.db ⟨h.ipHits, h.cooldowns⟩
  have hdb : ∀ {w : World}, (w.db.users.map User.id).Nodup →
      ((w.after S (.requestOtp q)).db = w.db ∨
        (w.db.findByPhone phone).isSome = true ∧
          (w.after S (.requestOtp q)).db = Write.apply w.db (.insertOtp (q.newOtp S phone))) := by
    intro w hids
    rw [World.after_db hids, Request.effect]
    rcases q.effect_cases S w.db w.outside with ⟨-, hw⟩ | ⟨phone', hv, -, -, -, hw⟩
    · exact .inl (by rw [hw, view_nil])
    · obtain rfl : phone = phone' := Except.ok.inj (hq.symm.trans hv)
      split_ifs at hw with hp
      · exact .inr ⟨hp, by rw [hw]; rfl⟩
      · exact .inl (by rw [hw, view_nil])
  have hdb₂ : (w₂.after S (.requestOtp q)).db = w₂.db := by
    rcases hdb h.ids₂ with h₂ | ⟨hp, -⟩
    · exact h₂
    · rw [h.unknown] at hp
      cases hp
  refine ⟨by rw [World.answer_eq h.ids₁, World.answer_eq h.ids₂]; exact hout,
    World.ids_after h.ids₁ trivial, World.ids_after h.ids₂ trivial, ?_, by rw [hdb₂, h.unknown],
    by rw [hdb₂, h.noCode], ?_, ?_⟩
  · rcases hdb h.ids₁ with h₁ | ⟨-, h₁⟩
    · rw [h₁]
      exact h.known
    · rw [h₁]
      exact Db.isSome_findByPhone_apply h.known _
  · rw [World.after_outside h.ids₁, World.after_outside h.ids₂]
    exact hlimiter.1
  · rw [World.after_outside h.ids₁, World.after_outside h.ids₂]
    exact hlimiter.2

end Twins

/-- With a code to look at, `VerifyOtp` never answers the bare `OTP_INVALID`,
whether or not the guess is right. -/
theorem VerifyOtp.outcome_of_latest {q : VerifyOtp} {d : Db} {otp : OtpCode} (x : Outside)
    (hv : validatePhone q.phone = .ok phone) (hl : d.findLatestActive phone = some otp) :
    (q.effect S d x).outcome ≠ .error (.api (otpInvalid none)) := by
  rw [effect_of_latest x hv hl]
  split_ifs
  · simp [Effect.refuse, otpExpired, otpInvalid]
  · unfold rejection
    cases d.nextAttempt otp.id with
    | none => simp
    | some attempts =>
      dsimp only
      split_ifs
      · simp [otpTooManyAttempts, otpInvalid]
      · simp [otpInvalid]
  · unfold acceptance
    cases d.findByPhone phone with
    | none => simp [decision, Decision.refuse, noAccountForPhone, otpInvalid]
    | some user =>
      unfold decision
      dsimp only
      split_ifs
      · simp [Decision.refuse, userSuspended, otpInvalid]
      · simp
      · simp [Decision.answer]

namespace Twins

variable {w₁ w₂ : World}

/-- `VerifyOtp` tells the two stores apart exactly if the first holds a code;
if it does not, both are left as they are. -/
theorem verifyOtp (h : Twins phone w₁ w₂) {q : VerifyOtp} (hq : validatePhone q.phone = .ok phone) :
    (w₁.answer S (.verifyOtp q) = w₂.answer S (.verifyOtp q) ↔
      w₁.db.findLatestActive phone = none) ∧
    (w₁.db.findLatestActive phone = none →
      Twins phone (w₁.after S (.verifyOtp q)) (w₂.after S (.verifyOtp q))) := by
  have hnone : ∀ {d : Db} (x : Outside), d.findLatestActive phone = none →
      q.effect S d x = .refuse (otpInvalid none) x := by
    intro d x hl
    simp only [VerifyOtp.effect, hq, hl]
  rw [World.answer_eq h.ids₁, World.answer_eq h.ids₂]
  simp only [Request.effect]
  rw [hnone w₂.outside h.noCode]
  refine ⟨⟨fun he => ?_, fun hl => by rw [hnone w₁.outside hl]; rfl⟩, fun hl => ?_⟩
  · cases hl : w₁.db.findLatestActive phone with
    | none => rfl
    | some otp => exact absurd he (VerifyOtp.outcome_of_latest _ hq hl)
  · have hleft : ∀ {w : World}, (w.db.users.map User.id).Nodup →
        w.db.findLatestActive phone = none → w.after S (.verifyOtp q) = w := by
      intro w hids hl
      have hdb := World.after_db (S := S) (r := .verifyOtp q) hids
      have hout := World.after_outside (S := S) (r := .verifyOtp q) hids
      rw [Request.effect, hnone w.outside hl] at hdb hout
      calc w.after S (.verifyOtp q)
          = ⟨(w.after S (.verifyOtp q)).db, (w.after S (.verifyOtp q)).outside⟩ := rfl
        _ = w := by rw [hdb, hout]; rfl
    rw [hleft h.ids₁ hl, hleft h.ids₂ h.noCode]
    exact h

/-- One call: answered alike or not, and where it is, alike afterwards. -/
theorem step (h : Twins phone w₁ w₂) {r : Request} (hr : OnPhone phone r) :
    (w₁.answer S r = w₂.answer S r ↔
      ∀ q, r = .verifyOtp q → w₁.db.findLatestActive phone = none) ∧
    (w₁.answer S r = w₂.answer S r → Twins phone (w₁.after S r) (w₂.after S r)) := by
  cases r with
  | requestOtp q =>
    obtain ⟨hans, htwins⟩ := h.requestOtp (S := S) hr
    exact ⟨⟨fun _ _ he => (nomatch he), fun _ => hans⟩, fun _ => htwins⟩
  | verifyOtp q =>
    obtain ⟨hiff, htwins⟩ := h.verifyOtp (S := S) hr
    exact ⟨hiff.trans ⟨fun hl _ _ => hl, fun hall => hall q rfl⟩, fun he => htwins (hiff.mp he)⟩
  | _ => cases hr

end Twins

/-- **What the OTP routes tell about a number.** Two stores, one with an
account for the phone and one without, answer any calls of the OTP routes
alike exactly if no guess is made while the first holds a code. -/
theorem same_answers : ∀ {rs : List Request} {w₁ w₂ : World}, Twins phone w₁ w₂ →
    (∀ r ∈ rs, OnPhone phone r) →
    (w₁.answers S rs = w₂.answers S rs ↔ Unguessed S phone w₁ rs)
  | [], _, _, _, _ => by simp [World.answers, Unguessed]
  | r :: rs, w₁, w₂, h, hrs => by
    obtain ⟨hiff, htwins⟩ := h.step (S := S) (hrs r List.mem_cons_self)
    have hrest : ∀ r' ∈ rs, OnPhone phone r' := fun r' hr' => hrs r' (List.mem_cons_of_mem _ hr')
    simp only [World.answers, Unguessed, List.cons.injEq]
    constructor
    · rintro ⟨hr, hans⟩
      exact ⟨hiff.mp hr, (same_answers (htwins hr) hrest).mp hans⟩
    · rintro ⟨hr, hun⟩
      have hans := hiff.mpr hr
      exact ⟨hans, (same_answers (htwins hans) hrest).mpr hun⟩

/-- A world with one account, and the empty one. -/
theorem oneAccount_twins : Twins "+22507000001" oneAccount {} :=
  ⟨oneAccount_keyed.users, List.nodup_nil, by decide +kernel, rfl, rfl, by decide +kernel,
    by decide +kernel⟩

/-- A guess before any code, then two requests, the second too early. -/
theorem same_answers_early :
    let rs : List Request :=
      [.verifyOtp ⟨"+22507000001", "123456", none, seconds 1, 9, "r"⟩,
        .requestOtp ⟨"+22507000001", some "203.0.113.7", seconds 2, 8, 654321⟩,
        .requestOtp ⟨"+22507000001", some "203.0.113.7", seconds 3, 10, 111111⟩]
    oneAccount.answers plainEnv rs = ({} : World).answers plainEnv rs := by
  intro rs
  refine (same_answers oneAccount_twins (by decide)).mpr ⟨fun q _ => by decide +kernel, ?_⟩
  exact ⟨fun q he => (nomatch he), fun q he => (nomatch he), trivial⟩

/-- **A wrong guess tells.** Two stores that differ in one account: the same
request for a code and the same wrong guess, and only the store with the
account says how many attempts remain. -/
theorem wrong_guess_tells :
    let request : RequestOtp := ⟨"+22507000001", none, seconds 1, 8, 123456⟩
    let guess : VerifyOtp := ⟨"+22507000001", "000000", none, seconds 2, 9, "r"⟩
    let rs : List Request := [.requestOtp request, .verifyOtp guess]
    oneAccount = { db := { users := oneAccount.db.users } } ∧
    oneAccount.db.users.map (fun u => (u.phone, decide (u.status ≠ .suspended))) =
      [("+22507000001", true)] ∧
    verifyOtpCode plainEnv guess.code (request.newOtp plainEnv "+22507000001").codeHash = false ∧
    oneAccount.answers plainEnv rs =
      [.ok (.otpSent 300 60),
        .error (.api (otpInvalid (some [("attempts_remaining", .int 4)])))] ∧
    ({} : World).answers plainEnv rs =
      [.ok (.otpSent 300 60), .error (.api (otpInvalid none))] := by
  intro request guess rs
  exact ⟨by decide +kernel, by decide +kernel, by decide +kernel, by decide +kernel,
    by decide +kernel⟩

end DiddiFreeID
