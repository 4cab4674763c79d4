/-
# The hint of a refused request

A request for a code that is refused is told when to come again. Where the
phone has to wait, the hint is what is left of its cooldown; where the address
has been counted too often, it is the length of that cooldown, although the
window of the address is another one. And a refused request is counted as
well. So the hint holds exactly where the address has no counter that
refuses the retry: the counter has gone by then, or has room for one more
(`truthful_iff`).

Key definitions: `Truthful`, `RoomToRetry`.
Key theorems: `answer_refused`, `limited_iff`, `truthful_iff`.
-/
import DiddiFreeID.RateLimiter

namespace DiddiFreeID

open Transact

/-- The answer is a refusal of the limiter. -/
def Limited (o : Except Failure Response) : Prop :=
  ∃ e : ApiError, o = .error (.api e) ∧ e.code = "OTP_RATE_LIMITED"

/-- The answer is a refusal of the limiter with this hint. -/
def LimitedFor (o : Except Failure Response) (r : ℤ) : Prop :=
  ∃ e : ApiError, o = .error (.api e) ∧ e.code = "OTP_RATE_LIMITED" ∧
    e.details = some [("retry_after_seconds", .int r)]

variable (S : Env)

/-- What a sequence of requests for a code, in order of time, leads to. -/
inductive CodesAsked (ok : RequestOtp → Prop) (w₀ : World) (t₀ : Time) : World → Time → Prop
  | init : CodesAsked ok w₀ t₀ w₀ t₀
  | ask {w : World} {t : Time} (q : RequestOtp) : CodesAsked ok w₀ t₀ w t → t ≤ q.now → ok q →
      CodesAsked ok w₀ t₀ (w.after S (.requestOtp q)) q.now

namespace RequestOtp

/-- Another phone, and no request from the same address. -/
def Apart (q k : RequestOtp) : Prop :=
  validatePhone k.phone ≠ validatePhone q.phone ∧
    ∀ ip, q.clientIp = some ip → ip ≠ "" → k.clientIp ≠ some ip

/-- If the request is refused with a hint, the same request is not refused when
the hint has passed, with nothing for the phone or from the address since. -/
def Truthful (w : World) (q : RequestOtp) : Prop :=
  ∀ r, LimitedFor (w.answer S (.requestOtp q)) r → ∀ w' t',
    CodesAsked S q.Apart (w.after S (.requestOtp q)) q.now w' t' → ∀ q' : RequestOtp,
      q'.phone = q.phone → q'.clientIp = q.clientIp → q'.now = q.now + seconds r → t' ≤ q'.now →
        ¬ Limited (w'.answer S (.requestOtp q'))

/-- When the counter of an address goes that has a hit at an instant. -/
def windowEnd (x : Outside) (ip : String) (now : Time) : Option Time :=
  if (x.hits ip now).1 = 0 then some (now + seconds ipWindowSeconds) else (x.hits ip now).2

/-- The counter of the address has gone by then. -/
def Gone (x : Outside) (ip : String) (now later : Time) : Prop :=
  ∃ expiry, windowEnd x ip now = some expiry ∧ expiry ≤ later

/-- With an address: the counter of one that is at its ceiling goes within the
cooldown; and where the phone has to wait, the counter goes by then, or has
room for two requests. -/
def RoomToRetry (x : Outside) (q : RequestOtp) : Prop :=
  ∀ phone ip, validatePhone q.phone = .ok phone → q.clientIp = some ip → ip ≠ "" →
    if ipRequestsPerWindow ≤ (x.hits ip q.now).1 then
      Gone x ip q.now (q.now + seconds S.settings.otpRateLimitSeconds)
    else 0 < x.cooldownTtl phone q.now → (x.hits ip q.now).1 + 2 ≤ ipRequestsPerWindow ∨
      Gone x ip q.now (q.now + seconds (x.cooldownTtl phone q.now))

/-! ### The limiter's keys -/

section Keys

variable (x : Outside) (q : RequestOtp)

/-- The hit of a request is a call of `hit_ip`. -/
theorem countIp_eq {ip : String} (h : q.clientIp = some ip) :
    q.countIp x = (Hit.hitIp { ip := ip, now := q.now } x).2 := by
  unfold countIp Hit.hitIp Hit.counting Hit.command
  simp only [h]
  by_cases hip : ip = ""
  · simp only [if_pos hip]
  · simp only [if_neg hip, Bool.false_eq_true, if_false, exec]
    by_cases hone : (x.hits ip q.now).1 + 1 = 1
    · simp only [if_pos hone]
    · simp only [if_neg hone]

theorem countIp_cooldowns : (q.countIp x).cooldowns = x.cooldowns := by
  unfold countIp
  cases q.clientIp with
  | none => rfl
  | some ip =>
    dsimp only
    split_ifs <;> rfl

theorem lookup_countIp {ip : String} (h : q.clientIp = some ip) (hip : ip ≠ "") :
    (q.countIp x).ipHits.lookup ip = some ((x.hits ip q.now).1 + 1, windowEnd x ip q.now) := by
  have hcount : Hit.count { ip := ip, now := q.now } x = some ((x.hits ip q.now).1 + 1) := by
    simp [Hit.count, hip]
  rw [countIp_eq x q h, Hit.hitIp_eq, hcount]
  simp only [Outside.lookup_setHits, if_true, and_true, windowEnd, Nat.add_eq_right]

theorem lookup_countIp_ne {ip : String} (h : q.clientIp ≠ some ip) :
    (q.countIp x).ipHits.lookup ip = x.ipHits.lookup ip := by
  cases hclient : q.clientIp with
  | none => rw [countIp, hclient]
  | some ip' =>
    have hne : ip ≠ ip' := fun heq => h (by rw [hclient, heq])
    rw [countIp_eq x q hclient, Hit.hitIp_eq]
    cases Hit.count { ip := ip', now := q.now } x with
    | none => rfl
    | some n => exact (Outside.lookup_setHits ..).trans (if_neg hne)

end Keys

/-! ### One request -/

section Request

variable {S} {w : World} {q : RequestOtp} {phone : String}

theorem answer_eq : w.answer S (.requestOtp q) = (q.effect S w.db w.outside).outcome := by
  rw [World.answer, Request.prog, q.run_eq S w.db w.outside]
  rfl

theorem after_outside : (w.after S (.requestOtp q)).outside = (q.effect S w.db w.outside).outside := by
  rw [World.after, Request.prog, q.run_eq S w.db w.outside]
  rfl

/-- A request counts its address, and arms the cooldown of its own phone or
none. -/
theorem after_limiter (hv : validatePhone q.phone = .ok phone) :
    (w.after S (.requestOtp q)).outside.ipHits = (q.countIp w.outside).ipHits ∧
      ((w.after S (.requestOtp q)).outside.cooldowns = w.outside.cooldowns ∨
        (w.after S (.requestOtp q)).outside.cooldowns =
          (w.outside.armCooldown phone S.settings.otpRateLimitSeconds q.now).cooldowns) := by
  have hcooldowns := countIp_cooldowns w.outside q
  have harm : ∀ x : Outside, x.ipHits = (q.countIp w.outside).ipHits →
      x.cooldowns = w.outside.cooldowns → (arm S x phone q).ipHits = (q.countIp w.outside).ipHits ∧
        ((arm S x phone q).cooldowns = w.outside.cooldowns ∨ (arm S x phone q).cooldowns =
          (w.outside.armCooldown phone S.settings.otpRateLimitSeconds q.now).cooldowns) := by
    intro x hhits hcool
    unfold arm
    split_ifs
    · exact ⟨hhits, .inl hcool⟩
    · refine ⟨hhits, .inr ?_⟩
      simp only [Outside.armCooldown, hcool]
  rw [after_outside]
  unfold effect
  rw [hv]
  dsimp only
  split_ifs
  · exact ⟨rfl, .inl hcooldowns⟩
  · cases w.db.findByPhone phone with
    | none => exact harm _ rfl hcooldowns
    | some user => exact harm _ rfl hcooldowns
  · exact ⟨rfl, .inl hcooldowns⟩

theorem wait_countIp : wait S (q.countIp w.outside) phone q = wait S w.outside phone q := by
  simp only [wait, Outside.cooldownTtl, countIp_cooldowns]

/-- **What is refused, and with what hint**: an address at its ceiling, with
the cooldown; a phone that has to wait, with what is left of it. -/
theorem answer_refused (hv : validatePhone q.phone = .ok phone) {r : ℤ} :
    LimitedFor (w.answer S (.requestOtp q)) r ↔
      (q.ipAllows w.outside = false ∧ r = S.settings.otpRateLimitSeconds) ∨
        (q.ipAllows w.outside = true ∧ 0 < wait S w.outside phone q ∧
          r = wait S w.outside phone q) := by
  rw [answer_eq]
  unfold effect LimitedFor
  rw [hv]
  dsimp only
  rw [wait_countIp]
  cases hallows : q.ipAllows w.outside with
  | false =>
    simp [Effect.refuse, otpRateLimitedIp, eq_comm]
  | true =>
    by_cases hwait : 0 < wait S w.outside phone q
    · simp [Effect.refuse, otpRateLimitedPhone, hwait, eq_comm]
    · cases w.db.findByPhone phone <;> simp [hwait]

/-- A request is refused only with a hint. -/
theorem limited_iff (hv : validatePhone q.phone = .ok phone) :
    Limited (w.answer S (.requestOtp q)) ↔
      q.ipAllows w.outside = false ∨ 0 < wait S w.outside phone q := by
  rw [answer_eq]
  unfold effect Limited
  rw [hv]
  dsimp only
  rw [wait_countIp]
  cases hallows : q.ipAllows w.outside with
  | false => simp [Effect.refuse, otpRateLimitedIp]
  | true =>
    by_cases hwait : 0 < wait S w.outside phone q
    · simp [Effect.refuse, otpRateLimitedPhone, hwait]
    · cases w.db.findByPhone phone <;> simp [hwait]

/-- What is left of a refused request: the hit of its address. -/
theorem after_refused (hv : validatePhone q.phone = .ok phone)
    (hr : Limited (w.answer S (.requestOtp q))) :
    (w.after S (.requestOtp q)).outside = q.countIp w.outside := by
  rw [limited_iff hv, ← wait_countIp] at hr
  rw [after_outside]
  unfold effect
  rw [hv]
  dsimp only
  rcases hr with hip | hwait
  · rw [if_neg (by simp [hip])]
    rfl
  · split_ifs
    · rfl
    · rfl

/-- A request whose number is refused moves nothing. -/
theorem after_invalid {e : ApiError} (hv : validatePhone q.phone = .error e) :
    (w.after S (.requestOtp q)).outside = w.outside := by
  rw [after_outside]
  unfold effect
  rw [hv]
  rfl

theorem valid_of_limited (h : Limited (w.answer S (.requestOtp q))) :
    ∃ phone, validatePhone q.phone = .ok phone := by
  cases hv : validatePhone q.phone with
  | ok phone => exact ⟨phone, rfl⟩
  | error e =>
    obtain ⟨e', hanswer, hcode⟩ := h
    have he : e = invalidPhoneFormat := by
      unfold validatePhone at hv
      dsimp only at hv
      split_ifs at hv
      exact (Except.error.inj hv).symm
    rw [answer_eq, effect, hv] at hanswer
    have heq : e = e' := by simpa [Effect.refuse] using hanswer
    rw [← heq, he] at hcode
    exact absurd hcode (by decide)

theorem limited_of_limitedFor {o : Except Failure Response} {r : ℤ} (h : LimitedFor o r) : Limited o :=
  ⟨h.choose, h.choose_spec.1, h.choose_spec.2.1⟩

end Request

/-! ### Sequences of requests -/

theorem lookup_armCooldown (x : Outside) (phone phone' : String) (cooldown : ℤ) (now : Time) :
    (x.armCooldown phone cooldown now).cooldowns.lookup phone' =
      if phone' = phone then some (now + seconds cooldown) else x.cooldowns.lookup phone' := by
  simp only [Outside.armCooldown]
  by_cases hphone : phone' = phone
  · simp [hphone]
  · rw [List.lookup_cons, beq_eq_false_iff_ne.mpr hphone, if_neg hphone]
    exact (lookup_filter_ne _ _ _).trans (if_neg hphone)

section Runs

variable {S} {w₀ w w' : World} {t₀ t t' : Time} {q : RequestOtp} {phone : String}

/-- Requests apart from `q` leave its keys alone. -/
theorem keys_of_apart (h : CodesAsked S q.Apart w₀ t₀ w t) (hv : validatePhone q.phone = .ok phone) :
    w.outside.cooldowns.lookup phone = w₀.outside.cooldowns.lookup phone ∧
      ∀ ip, q.clientIp = some ip → ip ≠ "" →
        w.outside.ipHits.lookup ip = w₀.outside.ipHits.lookup ip := by
  induction h with
  | init => exact ⟨rfl, fun _ _ _ => rfl⟩
  | @ask w t k _ _ hapart ih =>
    cases hk : validatePhone k.phone with
    | error e =>
      rw [after_invalid hk]
      exact ih
    | ok phone' =>
      have hne : phone ≠ phone' := by
        rintro rfl
        exact hapart.1 (hk.trans hv.symm)
      obtain ⟨hhits, hcooldowns⟩ := after_limiter (S := S) (w := w) hk
      constructor
      · rw [← ih.1]
        rcases hcooldowns with hsame | harmed
        · rw [hsame]
        · rw [harmed, lookup_armCooldown, if_neg hne]
      · intro ip hclient hip
        rw [hhits, lookup_countIp_ne _ _ (hapart.2 ip hclient hip)]
        exact ih.2 ip hclient hip

/-- Every cooldown ends within its length. -/
theorem cooldown_ends {ok : RequestOtp → Prop} (h : CodesAsked S ok w₀ t₀ w t)
    (hstart : w₀.outside.cooldowns = []) {expiry : Time}
    (hlookup : w.outside.cooldowns.lookup phone = some expiry) :
    expiry ≤ t + seconds S.settings.otpRateLimitSeconds := by
  induction h generalizing expiry with
  | init => simp [hstart] at hlookup
  | @ask w t k _ ht _ ih =>
    have hold : ∀ expiry, w.outside.cooldowns.lookup phone = some expiry →
        expiry ≤ k.now + seconds S.settings.otpRateLimitSeconds :=
      fun expiry hlookup => (ih hlookup).trans (Int.add_le_add_right ht _)
    cases hk : validatePhone k.phone with
    | error e =>
      rw [after_invalid hk] at hlookup
      exact hold expiry hlookup
    | ok phone' =>
      rcases (after_limiter (S := S) (w := w) hk).2 with hsame | harmed
      · rw [hsame] at hlookup
        exact hold expiry hlookup
      · rw [harmed, lookup_armCooldown] at hlookup
        split_ifs at hlookup
        · cases hlookup
          exact le_rfl
        · exact hold expiry hlookup

/-! ### The retry -/

/-- The hit of a retry: the counter of the refused request has gone, or has
room. -/
theorem ipAllows_iff {x : Outside} {ip : String} {n : ℕ} {e : Option Time}
    (hclient : q.clientIp = some ip) (hip : ip ≠ "")
    (hlookup : x.ipHits.lookup ip = some (n + 1, e)) :
    q.ipAllows x = true ↔ n + 2 ≤ ipRequestsPerWindow ∨ ∃ expiry, e = some expiry ∧ expiry ≤ q.now := by
  have hfew : 0 + 1 ≤ ipRequestsPerWindow := by decide
  simp only [ipAllows, hclient, hip, decide_false, Bool.false_or, decide_eq_true_eq, Outside.hits,
    hlookup]
  cases e with
  | none =>
    refine (or_iff_left ?_).symm
    rintro ⟨_, h, -⟩
    cases h
  | some expiry =>
    simp only [Option.some.injEq, exists_eq_left']
    by_cases hgone : expiry ≤ q.now
    · rw [if_pos hgone]
      exact iff_of_true hfew (.inr hgone)
    · rw [if_neg hgone]
      exact (or_iff_left hgone).symm

/-- An address is let through while its counter has room. -/
theorem ipAllows_iff_lt {x : Outside} {ip : String} (hclient : q.clientIp = some ip) (hip : ip ≠ "") :
    q.ipAllows x = true ↔ (x.hits ip q.now).1 < ipRequestsPerWindow := by
  simp only [ipAllows, hclient, hip, decide_false, Bool.false_or, decide_eq_true_eq]
  exact Nat.succ_le_iff

/-- A retry is let through whose address has a counter that has gone by then,
or has room for it. -/
theorem retry_allowed {x x' : Outside} {q' : RequestOtp} (hclient : q'.clientIp = q.clientIp)
    (hhits : ∀ ip, q.clientIp = some ip → ip ≠ "" →
      x'.ipHits.lookup ip = (q.countIp x).ipHits.lookup ip)
    (hcounter : ∀ ip, q.clientIp = some ip → ip ≠ "" →
      (x.hits ip q.now).1 + 2 ≤ ipRequestsPerWindow ∨ Gone x ip q.now q'.now) :
    q'.ipAllows x' = true := by
  cases hq : q.clientIp with
  | none => simp only [ipAllows, hclient, hq]
  | some ip =>
    by_cases hempty : ip = ""
    · simp [ipAllows, hclient, hq, hempty]
    · have hlookup : x'.ipHits.lookup ip = some ((x.hits ip q.now).1 + 1, windowEnd x ip q.now) := by
        rw [hhits ip hq hempty, lookup_countIp _ _ hq hempty]
      exact (ipAllows_iff (hclient.trans hq) hempty hlookup).mpr (hcounter ip hq hempty)

/-- Seconds rounded to the nearest are over, or less than half of one is left. -/
theorem rounded_over (left : ℤ) :
    (left - (left + 500000) / 1000000 * 1000000 + 500000) / 1000000 = 0 := by
  omega

/-- The phone of a retry does not wait when the seconds it was told have
passed. -/
theorem wait_of_ttl {x x' : Outside} {q' : RequestOtp}
    (hcool : x'.cooldowns.lookup phone = x.cooldowns.lookup phone)
    (httl : 0 < x.cooldownTtl phone q.now)
    (hnow : q'.now = q.now + seconds (x.cooldownTtl phone q.now)) :
    ¬ 0 < wait S x' phone q' := by
  have hzero : x'.cooldownTtl phone q'.now ≤ 0 := by
    unfold Outside.cooldownTtl at httl hnow ⊢
    rw [hcool]
    cases hlookup : x.cooldowns.lookup phone with
    | none => exact (by decide : (-2 : ℤ) ≤ 0)
    | some expiry =>
      rw [hlookup] at httl hnow
      dsimp only at httl hnow ⊢
      by_cases hold : expiry ≤ q.now
      · rw [if_pos hold] at httl
        exact absurd httl (by decide)
      · rw [if_neg hold] at hnow
        split_ifs
        · decide
        · have hleft : expiry - q'.now =
              expiry - q.now - (expiry - q.now + 500000) / 1000000 * 1000000 := by
            rw [hnow, seconds]
            exact (Int.sub_sub ..).symm
          exact (hleft ▸ rounded_over _).le
  unfold wait
  split_ifs
  · decide
  · rw [max_eq_right hzero]
    decide

theorem wait_of_expired {x : Outside} {q' : RequestOtp}
    (hexpired : ∀ expiry, x.cooldowns.lookup phone = some expiry → expiry ≤ q'.now) :
    ¬ 0 < wait S x phone q' := by
  have hgone : x.cooldownTtl phone q'.now = -2 := by
    unfold Outside.cooldownTtl
    cases hlookup : x.cooldowns.lookup phone with
    | none => rfl
    | some expiry => exact if_pos (hexpired expiry hlookup)
  unfold wait
  rw [hgone]
  split_ifs <;> decide

section Truth

variable (h : CodesAsked S (fun _ => True) w₀ t₀ w t) (hstart : w₀.outside.cooldowns = [])
  (hpos : 1 ≤ S.settings.otpRateLimitSeconds) (ht : t ≤ q.now)

include hpos

theorem wait_pos_iff : 0 < wait S w.outside phone q ↔ 0 < w.outside.cooldownTtl phone q.now := by
  have hcooldown : ¬ S.settings.otpRateLimitSeconds ≤ 0 := by omega
  rw [wait, if_neg hcooldown]
  exact ⟨fun hwait => (lt_max_iff.mp hwait).resolve_right (lt_irrefl 0), lt_max_of_lt_left⟩

theorem wait_eq_ttl (hwait : 0 < wait S w.outside phone q) :
    wait S w.outside phone q = w.outside.cooldownTtl phone q.now := by
  have hcooldown : ¬ S.settings.otpRateLimitSeconds ≤ 0 := by omega
  have httl := (wait_pos_iff hpos).mp hwait
  rw [wait, if_neg hcooldown]
  exact max_eq_left httl.le

include h hstart ht

/-- With room the hint is true. -/
theorem truthful_of_room (hroom : RoomToRetry S w.outside q) : Truthful S w q := by
  intro r hr w' t' hapart q' hphone hclient hnow _ hlimited
  obtain ⟨phone, hv⟩ := valid_of_limited (limited_of_limitedFor hr)
  have hv' : validatePhone q'.phone = .ok phone := hphone ▸ hv
  have hrefused := after_refused hv (limited_of_limitedFor hr)
  obtain ⟨hcool, hhits⟩ := keys_of_apart hapart hv
  rw [hrefused, countIp_cooldowns] at hcool
  rw [hrefused] at hhits
  rcases (answer_refused hv).mp hr with ⟨hdenied, rfl⟩ | ⟨hallowed, hwait, rfl⟩
  · -- the address was at its ceiling
    have hallows : q'.ipAllows w'.outside = true := by
      refine retry_allowed hclient hhits fun ip hq hempty => .inr ?_
      have hfull : ipRequestsPerWindow ≤ (w.outside.hits ip q.now).1 := by
        by_contra hroom
        rw [(ipAllows_iff_lt hq hempty).mpr (Nat.lt_of_not_le hroom)] at hdenied
        cases hdenied
      have hgone := hroom phone ip hv hq hempty
      rw [if_pos hfull] at hgone
      rwa [hnow]
    have hready : ¬ 0 < wait S w'.outside phone q' := by
      refine wait_of_expired fun expiry hlookup => ?_
      rw [hcool] at hlookup
      calc expiry ≤ t + seconds S.settings.otpRateLimitSeconds := cooldown_ends h hstart hlookup
        _ ≤ q.now + seconds S.settings.otpRateLimitSeconds := Int.add_le_add_right ht _
        _ = q'.now := hnow.symm
    rcases (limited_iff hv').mp hlimited with hno | hwait
    · rw [hallows] at hno
      cases hno
    · exact hready hwait
  · -- the phone had to wait
    have httl := (wait_pos_iff hpos).mp hwait
    rw [wait_eq_ttl hpos hwait] at hnow
    have hallows : q'.ipAllows w'.outside = true := by
      refine retry_allowed hclient hhits fun ip hq hempty => ?_
      have hfew : ¬ ipRequestsPerWindow ≤ (w.outside.hits ip q.now).1 :=
        Nat.not_le_of_lt ((ipAllows_iff_lt hq hempty).mp hallowed)
      have hleft := hroom phone ip hv hq hempty
      rw [if_neg hfew] at hleft
      rw [hnow]
      exact hleft httl
    rcases (limited_iff hv').mp hlimited with hno | hwait'
    · rw [hallows] at hno
      cases hno
    · exact wait_of_ttl hcool httl hnow hwait'

omit h hstart ht in
/-- Without room the retry that nothing came before is refused. -/
theorem room_of_truthful (htrue : Truthful S w q) : RoomToRetry S w.outside q := by
  intro phone ip hv hclient hempty
  -- what a retry at the hint tells of the counter
  have hretry : ∀ r, 0 ≤ r → LimitedFor (w.answer S (.requestOtp q)) r →
      (w.outside.hits ip q.now).1 + 2 ≤ ipRequestsPerWindow ∨
        Gone w.outside ip q.now (q.now + seconds r) := by
    intro r hr hlimited
    have hlater : q.now ≤ q.now + seconds r := by
      have hseconds : 0 ≤ seconds r := by
        unfold seconds
        omega
      exact Int.le_add_of_nonneg_right hseconds
    have hnot := htrue r hlimited _ _ .init { q with now := q.now + seconds r } rfl rfl rfl hlater
    rw [limited_iff (by exact hv), not_or, Bool.not_eq_false] at hnot
    have hlookup := lookup_countIp w.outside q hclient hempty
    rw [← after_refused hv (limited_of_limitedFor hlimited)] at hlookup
    exact (ipAllows_iff (q := { q with now := q.now + seconds r }) hclient hempty hlookup).mp hnot.1
  split_ifs with hfull
  · have hdenied : q.ipAllows w.outside = false := by
      rw [← Bool.not_eq_true, ipAllows_iff_lt hclient hempty]
      exact Nat.not_lt_of_le hfull
    have hcooldown : 0 ≤ S.settings.otpRateLimitSeconds := by omega
    refine (hretry _ hcooldown ((answer_refused hv).mpr (.inl ⟨hdenied, rfl⟩))).resolve_left ?_
    omega
  · intro httl
    have hwait := (wait_pos_iff (S := S) (q := q) hpos).mpr httl
    have hallowed : q.ipAllows w.outside = true :=
      (ipAllows_iff_lt hclient hempty).mpr (Nat.lt_of_not_le hfull)
    exact hretry _ httl.le ((answer_refused hv).mpr
      (.inr ⟨hallowed, hwait, (wait_eq_ttl hpos hwait).symm⟩))

/-- **The hint is true**, whatever was asked before, if and only if the address
of the request has room for the retry. -/
theorem truthful_iff : Truthful S w q ↔ RoomToRetry S w.outside q :=
  ⟨room_of_truthful hpos, truthful_of_room h hstart hpos ht⟩

end Truth

end Runs

/-! ### An address at its ceiling -/

/-- The `n`-th request of one phone from one address, a second after the one
before. -/
def sampleAsk (n : ℕ) : RequestOtp :=
  { phone := "+22507000001", clientIp := some "192.0.2.1", now := seconds n, newId := n, draw := 0 }

/-- The world after `n` such requests, from an empty one. -/
def asked (n : ℕ) : World :=
  (List.range n).foldl (fun w n => w.after plainEnv (.requestOtp (sampleAsk n))) {}

theorem asked_reached : ∀ n, CodesAsked plainEnv (fun _ => True) {} 0 (asked (n + 1)) (seconds n)
  | 0 => .ask (sampleAsk 0) .init (by decide) trivial
  | n + 1 => by
    have hnext : asked (n + 1 + 1) = (asked (n + 1)).after plainEnv (.requestOtp (sampleAsk (n + 1))) := by
      rw [asked, List.range_succ, List.foldl_append]
      rfl
    have hlater : seconds n ≤ seconds (n + 1) := by
      unfold seconds
      omega
    rw [hnext]
    exact .ask (sampleAsk (n + 1)) (asked_reached n) hlater trivial

/-- The second request is told 59 seconds, and the address has room. -/
theorem truthful_second : Truthful plainEnv (asked 1) (sampleAsk 1) := by
  refine (truthful_iff (asked_reached 0) rfl (by decide) (by decide)).mpr ?_
  intro phone ip hv hclient hempty
  obtain rfl : "+22507000001" = phone := Except.ok.inj hv
  obtain rfl : "192.0.2.1" = ip := Option.some.inj hclient
  have hhits : ((asked 1).outside.hits "192.0.2.1" (sampleAsk 1).now).1 = 1 := by decide +kernel
  rw [hhits, if_neg (by decide)]
  exact fun _ => .inl (by decide)

/-- **A minute for ten.** The eleventh request in a row is told to come again
after the cooldown of a minute, and is refused then: the counter of its
address stays for ten. -/
theorem told_too_early : CodesAsked plainEnv (fun _ => True) {} 0 (asked 10) (seconds 9) ∧
    ∃ r, LimitedFor ((asked 10).answer plainEnv (.requestOtp (sampleAsk 10))) r ∧
      ¬ Truthful plainEnv (asked 10) (sampleAsk 10) := by
  have hlimited : (asked 10).answer plainEnv (.requestOtp (sampleAsk 10)) =
      .error (.api (otpRateLimitedIp 60)) := by decide +kernel
  have hretry : (asked 11).answer plainEnv (.requestOtp { sampleAsk 10 with now := seconds 70 }) =
      .error (.api (otpRateLimitedIp 60)) := by decide +kernel
  have hfor : LimitedFor ((asked 10).answer plainEnv (.requestOtp (sampleAsk 10))) 60 :=
    ⟨_, hlimited, rfl, rfl⟩
  refine ⟨asked_reached 9, 60, hfor, fun htrue => ?_⟩
  exact htrue 60 hfor _ _ .init { sampleAsk 10 with now := seconds 70 } rfl rfl (by decide) (by decide)
    ⟨_, hretry, rfl⟩

end RequestOtp

end DiddiFreeID
