/-
# One code per cooldown

`RequestOtp` reads the cooldown of the phone before everything else and arms
it after the SMS, with the account's row, the code's row, a commit and the
sending between. Requests that read before one of them arms all send
(`two_codes`). Where a request reads only while no other one is on its way
from such a read to its arming, and not in the last half second of a
cooldown, which `TTL` rounds to none, nothing is sent to the phone from a
send until the cooldown armed after it has run out (`spaced_of_readsFree`).

Key definitions: `storeAt`, `Spaced`, `ReadsFree`, `Kept`.
Key theorems: `Kept.step`, `spaced_of_readsFree`.
-/
import DiddiFreeID.RetryAfter
import DiddiFreeID.Transact.Clocked
import Mathlib.Data.Fintype.Fin

namespace DiddiFreeID

open Transact Engine

/-- One call when the clock is at `t`: the limiter's keys are counted, read
and armed by the clock, not by a time the request brings. -/
def execAt (t : Time) : (c : Call) → Db → Outside → c.Resp × List Write × Outside
  | .incrIp ip _, d, x => exec (.incrIp ip t) d x
  | .expireIp ip window _, d, x => exec (.expireIp ip window t) d x
  | .cooldownTtl phone _, d, x => exec (.cooldownTtl phone t) d x
  | .armCooldown phone cooldown _, d, x => exec (.armCooldown phone cooldown t) d x
  | c, d, x => exec c d x

/-- The store at an instant. -/
def storeAt (t : Time) : Engine Call Call.Resp Db Outside Write Key := { store with exec := execAt t }

namespace Cooldown

variable {ι : Type}

/-- Requests in flight beside the clock. -/
abbrev Flight (ι : Type) : Type := Clocked Call Call.Resp Failure Response Db Outside Write ι

/-! ### Codes and cooldowns -/

section Spacing

variable (phone : String) (cooldown : ℤ)

/-- The phone that a call sends a code to. -/
def recipient : Call → Option String
  | .send phone' _ => some phone'
  | _ => none

/-- The phone whose cooldown a call arms, and for how long. -/
def arming : Call → Option (String × ℤ)
  | .armCooldown phone' cooldown' _ => some (phone', cooldown')
  | _ => none

/-- The call sends a code to the phone. -/
abbrev Sends (c : Call) : Prop := recipient c = some phone

/-- The call arms the cooldown of the phone. -/
abbrev Arms (c : Call) : Prop := arming c = some (phone, cooldown)

/-- Whatever request `i` has sent, the cooldown it armed then has run out by `t`. -/
def Over (l : List (Stamped Call ι)) (i : ι) (t : Time) : Prop :=
  ∀ a ∈ l, a.request = i → Sends phone a.call → ∃ b ∈ l, b.request = i ∧
    Arms phone cooldown b.call ∧ a.time ≤ b.time ∧ b.time + seconds cooldown ≤ t

/-- A code is sent only when what every other request sent before is over. -/
def Spaced (l : List (Stamped Call ι)) : Prop :=
  ∀ before b after, l = before ++ b :: after → Sends phone b.call →
    ∀ i, i ≠ b.request → Over phone cooldown before i b.time

instance [DecidableEq ι] (l : List (Stamped Call ι)) (i : ι) (t : Time) :
    Decidable (Over phone cooldown l i t) :=
  inferInstanceAs (Decidable (∀ _ ∈ _, _ → _ → ∃ _ ∈ _, _ ∧ _ ∧ _ ∧ _))

variable {phone cooldown} {l : List (Stamped Call ι)} {i : ι} {t u : Time} {a : Stamped Call ι}

theorem not_sends {c : Call} (h : recipient c = none) : ¬ Sends phone c := by
  rw [Sends, h]
  simp

theorem Over.mono (h : Over phone cooldown l i t) (htu : t ≤ u) : Over phone cooldown l i u := by
  intro a ha hi hsends
  obtain ⟨b, hb, hib, harms, hab, hbt⟩ := h a ha hi hsends
  exact ⟨b, hb, hib, harms, hab, hbt.trans htu⟩

theorem Over.snoc (h : Over phone cooldown l i t) (ha : a.request = i → ¬ Sends phone a.call) :
    Over phone cooldown (l ++ [a]) i t := by
  intro a' ha' hi hsends
  rcases List.mem_append.mp ha' with ha' | ha'
  · obtain ⟨b, hb, hrest⟩ := h a' ha' hi hsends
    exact ⟨b, List.mem_append_left _ hb, hrest⟩
  · obtain rfl := List.mem_singleton.mp ha'
    exact absurd hsends (ha hi)

theorem Spaced.snoc (h : Spaced phone cooldown l)
    (ha : Sends phone a.call → ∀ i, i ≠ a.request → Over phone cooldown l i a.time) :
    Spaced phone cooldown (l ++ [a]) := by
  intro before b after hl hsends i hi
  rcases List.eq_nil_or_concat after with rfl | ⟨after, c, rfl⟩
  · obtain ⟨rfl, hab⟩ := List.append_inj' hl rfl
    obtain rfl : a = b := List.singleton_inj.mp hab
    exact ha hsends i hi
  · rw [List.concat_eq_append, ← List.cons_append, ← List.append_assoc] at hl
    exact h before b after (List.append_inj' hl rfl).1 hsends i hi

end Spacing

/-! ### The stages of a request -/

/-- Before the read of the cooldown; let go on by it, until the arming; or
past that, or refused. -/
inductive Stage
  | asking
  | cleared
  | finished
  deriving DecidableEq, Repr

def Stage.next : Stage → (c : Call) → c.Resp → Stage
  | .asking, .cooldownTtl .., ttl => if 0 < ttl then .finished else .cleared
  | .cleared, .armCooldown .., _ => .finished
  | g, _, _ => g

/-- The calls of a request for a code of the phone. -/
def Stage.may (phone : String) (cooldown : ℤ) : Stage → Call → Prop
  | .asking, .incrIp .. | .asking, .expireIp .. => True
  | .asking, .cooldownTtl phone' _ => phone' = phone
  | .cleared, .findByPhone _ | .cleared, .saveOtp _ | .cleared, .commit | .cleared, .send .. => True
  | .cleared, .armCooldown phone' cooldown' _ => phone' = phone ∧ cooldown' = cooldown
  | _, _ => False

def monitor (phone : String) (cooldown : ℤ) : Monitor Call Call.Resp Failure Response Stage where
  next := Stage.next
  may := Stage.may phone cooldown
  mayRet _ _ := True
  mayRaise _ _ := True

section Follows

variable {S : Env} {q : RequestOtp} {phone : String}

theorem issue_follows (hpos : 0 < S.settings.otpRateLimitSeconds) :
    (q.issue S phone).Follows (monitor phone S.settings.otpRateLimitSeconds) .cleared := by
  have hmark : ∀ a : Response, Prog.Follows (monitor phone S.settings.otpRateLimitSeconds) .cleared
      (do markPhoneSent phone S.settings.otpRateLimitSeconds q.now; return a) := by
    intro a
    unfold markPhoneSent
    rw [if_neg (by omega), Prog.ask_bind]
    exact ⟨⟨rfl, rfl⟩, fun _ => trivial⟩
  unfold RequestOtp.issue
  rw [findByPhone_bind]
  refine ⟨trivial, fun user => ?_⟩
  cases user with
  | none => exact hmark _
  | some user => exact ⟨trivial, fun _ => ⟨trivial, fun _ => ⟨trivial, fun _ => hmark _⟩⟩⟩

theorem call_follows (hv : validatePhone q.phone = .ok phone)
    (hpos : 0 < S.settings.otpRateLimitSeconds) :
    (q.call S).Follows (monitor phone S.settings.otpRateLimitSeconds) .asking := by
  refine RequestOtp.follows_of S (fun _ _ => trivial) (fun _ => ⟨trivial, fun _ => rfl⟩)
    (fun _ => ⟨trivial, fun _ => rfl⟩) fun phone' hv' => ?_
  obtain rfl : phone' = phone := Except.ok.inj (hv'.symm.trans hv)
  unfold secondsUntilPhoneAllowed
  rw [if_neg (by omega)]
  refine ⟨rfl, fun (ttl : ℤ) => ?_⟩
  -- The answer that lets the request go on is the one that clears it.
  change ¬ max ttl 0 > 0 → Prog.Follows _ (if 0 < ttl then Stage.finished else Stage.cleared) _
  intro hzero
  rw [if_neg fun httl => hzero (lt_max_of_lt_left httl)]
  exact issue_follows hpos

end Follows

/-! ### What a call does -/

/-- The `TTL` of a cooldown is positive from half a second up. -/
theorem cooldownTtl_pos_iff {x : Outside} {phone : String} {t : Time} : 0 < x.cooldownTtl phone t ↔
    ∃ expiry, x.cooldowns.lookup phone = some expiry ∧ t + 500000 ≤ expiry := by
  unfold Outside.cooldownTtl
  cases hlookup : x.cooldowns.lookup phone with
  | none => simp
  | some expiry =>
    simp only [Option.some.injEq, exists_eq_left']
    have hround : ∀ a b : ℤ, 0 < (a - b + 500000) / 1000000 ↔ b + 500000 ≤ a := by omega
    have hsoon : ∀ a b : ℤ, a ≤ b → ¬ b + 500000 ≤ a := by omega
    split_ifs with hgone
    · exact iff_of_false (by decide) (hsoon _ _ hgone)
    · exact hround _ _

section Calls

variable {phone : String} {cooldown : ℤ} {t : Time} {x : Outside}

/-- What a call of a stage does, made at `t` with `x` outside: the stage and
the state outside that it leaves. -/
inductive Moved (phone : String) (cooldown : ℤ) (t : Time) (x : Outside) :
    Stage → Call → Stage → Outside → Prop
  | other {g : Stage} {c : Call} {x' : Outside} : ¬ Sends phone c →
      x'.cooldowns = x.cooldowns → Moved phone cooldown t x g c g x'
  | read (now : Time) : Moved phone cooldown t x .asking (.cooldownTtl phone now)
      (if 0 < x.cooldownTtl phone t then .finished else .cleared) x
  | send {x' : Outside} (phone' code : String) : x'.cooldowns = x.cooldowns →
      Moved phone cooldown t x .cleared (.send phone' code) .cleared x'
  | arm (now : Time) : Moved phone cooldown t x .cleared (.armCooldown phone cooldown now)
      .finished (x.armCooldown phone cooldown t)

theorem moved {g : Stage} {c : Call} (h : g.may phone cooldown c) (d : Db) :
    Moved phone cooldown t x g c (g.next c (execAt t c d x).1) (execAt t c d x).2.2 := by
  cases g with
  | asking =>
    cases c with
    | incrIp | expireIp => exact .other (not_sends rfl) rfl
    | cooldownTtl phone' now =>
      obtain rfl : phone' = phone := h
      exact .read now
    | _ => exact absurd h fun h => h
  | cleared =>
    cases c with
    | findByPhone | saveOtp | commit => exact .other (not_sends rfl) rfl
    | send phone' code => exact .send phone' code rfl
    | armCooldown phone' cooldown' now =>
      obtain ⟨rfl, rfl⟩ : phone' = phone ∧ cooldown' = cooldown := h
      exact .arm now
    | _ => exact absurd h fun h => h
  | finished => exact absurd h fun h => h

end Calls

/-! ### What is kept -/

/-- Of the stages of the requests, the cooldown of the phone, the calls so far
and the clock: one request at most is on its way to the arming; what the
others sent is over, and what a request sent that is not on its way is over
when the cooldown is. -/
structure Kept (phone : String) (cooldown : ℤ) (stage : ι → Stage) (expiry : Option Time)
    (l : List (Stamped Call ι)) (t : Time) : Prop where
  one : ∀ i j, stage i = .cleared → stage j = .cleared → i = j
  others : ∀ j, stage j = .cleared → ∀ i, i ≠ j → Over phone cooldown l i t
  settled : ∀ i, stage i ≠ .cleared → ∀ u, (∀ e, expiry = some e → e ≤ u) → Over phone cooldown l i u
  spaced : Spaced phone cooldown l

namespace Kept

variable {phone : String} {cooldown : ℤ} {stage : ι → Stage} {expiry : Option Time}
  {l : List (Stamped Call ι)} {t u : Time} {i : ι} {c : Call}

theorem tick (h : Kept phone cooldown stage expiry l t) (htu : t ≤ u) :
    Kept phone cooldown stage expiry l u where
  one := h.one
  others j hj i hi := (h.others j hj i hi).mono htu
  settled := h.settled
  spaced := h.spaced

/-- A call that sends nothing to the phone. -/
theorem other (h : Kept phone cooldown stage expiry l t) (hc : ¬ Sends phone c) :
    Kept phone cooldown stage expiry (l ++ [⟨t, i, c⟩]) t where
  one := h.one
  others j hj k hk := (h.others j hj k hk).snoc fun _ => hc
  settled k hk u hu := (h.settled k hk u hu).snoc fun _ => hc
  spaced := h.spaced.snoc fun hsends => absurd hsends hc

/-- A request on its way sends. -/
theorem send (h : Kept phone cooldown stage expiry l t) (hi : stage i = .cleared) :
    Kept phone cooldown stage expiry (l ++ [⟨t, i, c⟩]) t where
  one := h.one
  others j hj k hk := by
    have hkj : i ≠ k := fun hik => hk (h.one k j (hik ▸ hi) hj)
    exact (h.others j hj k hk).snoc fun hik => absurd hik hkj
  settled k hk u hu := by
    have hne : i ≠ k := fun hik => hk (hik ▸ hi)
    exact (h.settled k hk u hu).snoc fun hik => absurd hik hne
  spaced := h.spaced.snoc fun _ k hk => h.others i hi k hk

variable [DecidableEq ι]

/-- A request is let go on: no other one is on its way, and the cooldown is
over. -/
theorem clear (h : Kept phone cooldown stage expiry l t)
    (halone : ∀ j, j ≠ i → stage j ≠ .cleared) (hover : ∀ e, expiry = some e → e ≤ t) :
    Kept phone cooldown (Function.update stage i .cleared) expiry l t := by
  have honly : ∀ j, Function.update stage i .cleared j = .cleared → j = i := by
    intro j hj
    by_contra hne
    rw [Function.update_of_ne hne] at hj
    exact halone j hne hj
  have hsame : ∀ k, k ≠ i → Over phone cooldown l k t := fun k hk =>
    h.settled k (halone k hk) t hover
  refine ⟨fun j k hj hk => (honly j hj).trans (honly k hk).symm, fun j hj k hk => ?_,
    fun k hk u hu => ?_, h.spaced⟩
  · obtain rfl := honly j hj
    exact hsame k hk
  · have hne : k ≠ i := by
      rintro rfl
      exact hk (Function.update_self ..)
    exact h.settled k (halone k hne) u hu

/-- A request is refused. -/
theorem refuse (h : Kept phone cooldown stage expiry l t) (hi : stage i ≠ .cleared) :
    Kept phone cooldown (Function.update stage i .finished) expiry l t := by
  have hstage : ∀ j, Function.update stage i .finished j = .cleared ↔ stage j = .cleared := by
    intro j
    by_cases hj : j = i
    · subst hj
      rw [Function.update_self]
      exact iff_of_false (by decide) hi
    · rw [Function.update_of_ne hj]
  refine ⟨fun j k hj hk => h.one j k ((hstage j).mp hj) ((hstage k).mp hk),
    fun j hj => h.others j ((hstage j).mp hj), fun k hk => ?_, h.spaced⟩
  exact h.settled k fun hk' => hk ((hstage k).mpr hk')

/-- A request arms: what it sent is over when this cooldown is. -/
theorem arm (h : Kept phone cooldown stage expiry l t) (hpast : ∀ a ∈ l, a.time ≤ t)
    (hpos : 0 ≤ cooldown) (hi : stage i = .cleared) (now : Time) :
    Kept phone cooldown (Function.update stage i .finished) (some (t + seconds cooldown))
      (l ++ [⟨t, i, .armCooldown phone cooldown now⟩]) t := by
  have hnone : ∀ j, Function.update stage i .finished j ≠ .cleared := by
    intro j hj
    by_cases hji : j = i
    · rw [hji, Function.update_self] at hj
      cases hj
    · rw [Function.update_of_ne hji] at hj
      exact hji (h.one j i hj hi)
  refine ⟨fun j _ hj => absurd hj (hnone j), fun j hj => absurd hj (hnone j), fun k _ u hu => ?_,
    h.spaced.snoc fun hsends => absurd hsends (not_sends rfl)⟩
  have hlater : t + seconds cooldown ≤ u := hu _ rfl
  by_cases hk : k = i
  · subst hk
    intro a ha _ hsends
    refine ⟨⟨t, k, .armCooldown phone cooldown now⟩, List.mem_append_right _ List.mem_cons_self,
      rfl, rfl, ?_, hlater⟩
    rcases List.mem_append.mp ha with ha | ha
    · exact hpast a ha
    · rw [List.mem_singleton.mp ha] at hsends
      exact absurd hsends (not_sends rfl)
  · have hnow : t ≤ u := by
      have hseconds : 0 ≤ seconds cooldown := by
        unfold seconds
        omega
      exact (Int.le_add_of_nonneg_right hseconds).trans hlater
    exact ((h.others i hi k hk).mono hnow).snoc fun _ => not_sends rfl

end Kept

/-! ### Runs -/

variable [DecidableEq ι]

/-- The stage of request `i`. -/
abbrev stageOf (phone : String) (cooldown : ℤ) (s : Flight ι) (i : ι) : Stage :=
  phase (fun _ => monitor phone cooldown) (fun _ => Stage.asking) s.system i

/-- A request reads the cooldown of the phone only while no other one is on
its way from such a read to its arming, and not in the last half second of a
cooldown. -/
def ReadsFree (phone : String) (cooldown : ℤ) (s : Flight ι) (i : ι) : Prop :=
  (s.system.thread i).next.any (fun c => c matches .cooldownTtl ..) = true →
    (∀ j, j ≠ i → stageOf phone cooldown s j ≠ .cleared) ∧
    ∀ e ∈ s.system.outside.cooldowns.lookup phone, e ≤ s.clock ∨ s.clock + 500000 ≤ e

instance [Fintype ι] (phone : String) (cooldown : ℤ) (s : Flight ι) (i : ι) :
    Decidable (ReadsFree phone cooldown s i) :=
  inferInstanceAs (Decidable (_ → (∀ _, _ → _) ∧ ∀ _ ∈ _, _ ∨ _))

section Runs

variable {phone : String} {cooldown : ℤ} {s : Flight ι} {i : ι}

/-- What is kept in a state of the requests. -/
abbrev KeptIn (phone : String) (cooldown : ℤ) (s : Flight ι) : Prop :=
  Kept phone cooldown (stageOf phone cooldown s) (s.system.outside.cooldowns.lookup phone)
    s.history s.clock

/-- **Step.** A call of a request that follows its monitor and reads free. -/
theorem Kept.moved {g' : Stage} {x' : Outside} {c : Call} {k : c.Resp → Cmd Response}
    (h : KeptIn phone cooldown s) (hpast : ∀ a ∈ s.history, a.time ≤ s.clock) (hpos : 0 ≤ cooldown)
    (ho : ReadsFree phone cooldown s i) (hcall : (s.system.thread i).prog = .call c k)
    (hm : Moved phone cooldown s.clock s.system.outside (stageOf phone cooldown s i) c g' x') :
    Kept phone cooldown (Function.update (stageOf phone cooldown s) i g')
      (x'.cooldowns.lookup phone) (s.history ++ [⟨s.clock, i, c⟩]) s.clock := by
  generalize hg : stageOf phone cooldown s i = g at hm
  have hsame : Function.update (stageOf phone cooldown s) i g = stageOf phone cooldown s := by
    rw [← hg, Function.update_eq_self]
  cases hm with
  | other hsends hcool =>
    rw [hsame, hcool]
    exact h.other hsends
  | send phone' code hcool =>
    rw [hsame, hcool]
    exact h.send hg
  | arm now =>
    rw [RequestOtp.lookup_armCooldown, if_pos rfl]
    exact h.arm hpast hpos hg now
  | read now =>
    refine Kept.other ?_ (not_sends rfl)
    by_cases httl : 0 < s.system.outside.cooldownTtl phone s.clock
    · rw [if_pos httl]
      refine h.refuse ?_
      rw [hg]
      decide
    · rw [if_neg httl]
      have hnext : (s.system.thread i).next = some (.cooldownTtl phone now) :=
        Thread.next_eq_some.mpr ⟨k, hcall⟩
      obtain ⟨halone, hlate⟩ := ho (by rw [hnext]; rfl)
      refine h.clear halone fun e he => (hlate e he).resolve_right fun hlive => ?_
      exact httl (cooldownTtl_pos_iff.mpr ⟨e, he, hlive⟩)

/-- **Step** of any request: it makes a call, or its session ends. -/
theorem Kept.step {s' : System Call Call.Resp Failure Response Db Outside Write ι}
    (h : KeptIn phone cooldown s) (hpast : ∀ a ∈ s.history, a.time ≤ s.clock) (hpos : 0 ≤ cooldown)
    (ho : ReadsFree phone cooldown s i)
    (hfollows : (s.system.thread i).prog.Follows (monitor phone cooldown) (stageOf phone cooldown s i))
    (hs : (storeAt s.clock).Step s.system i s') : KeptIn phone cooldown (s.stepped i s') := by
  -- the stage of `i` after an answered call, the other stages as they were
  have hstages : ∀ {c : Call} {r : c.Resp},
      (s'.thread i).trace = (s.system.thread i).trace ++ [⟨c, r⟩] →
      stageOf phone cooldown (s.stepped i s') =
        Function.update (stageOf phone cooldown s) i ((stageOf phone cooldown s i).next c r) := by
    intro c r htrace
    funext j
    by_cases hj : j = i
    · subst hj
      rw [Function.update_self]
      exact phase_of_answer htrace
    · rw [Function.update_of_ne hj]
      exact hs.phase_ne hj
  have hended : (s.system.thread i).prog.ended = true → s'.outside = s.system.outside →
      (s'.thread i).trace = (s.system.thread i).trace → KeptIn phone cooldown (s.stepped i s') := by
    intro hprog houtside htrace
    have hstage : stageOf phone cooldown (s.stepped i s') = stageOf phone cooldown s := by
      funext j
      by_cases hj : j = i
      · subst hj
        exact phase_of_trace htrace
      · exact hs.phase_ne hj
    unfold KeptIn
    rw [hstage, Clocked.stepped_ended _ hprog, Clocked.stepped_system, houtside]
    exact h
  cases hs with
  | @call c k hcall _ _ | @commit c k hcall _ =>
    rw [hcall] at hfollows
    have hstage := hstages (c := c) (r := ((storeAt s.clock).answer s.system i c).1) (by simp)
    unfold KeptIn
    rw [Clocked.stepped_call _ hcall, hstage]
    exact h.moved hpast hpos ho hcall (Cooldown.moved hfollows.1 _)
  | close hret => exact hended (by rw [hret]; rfl) rfl (by simp)
  | abort hraise => exact hended (by rw [hraise]; rfl) rfl (by simp)

end Runs

variable [Fintype ι] {S : Env} {phone : String} {q : ι → RequestOtp} {d : Db} {x : Outside} {t : Time}
  {s : Flight ι}

/-- **One code per cooldown**, where the cooldown is read free: from a send to
the phone until the cooldown that its request arms has run out, no other
request sends to it. -/
theorem spaced_of_readsFree
    (h : Clocked.Reach storeAt (ReadsFree phone S.settings.otpRateLimitSeconds)
      { system := System.start d x fun i => (q i).call S, clock := t } s)
    (hv : ∀ i, validatePhone (q i).phone = .ok phone) (hpos : 0 < S.settings.otpRateLimitSeconds) :
    Spaced phone S.settings.otpRateLimitSeconds s.history := by
  have hstart : KeptIn phone S.settings.otpRateLimitSeconds
      { system := System.start d x fun i => (q i).call S, clock := t } := by
    have hasks : ∀ i : ι, Stage.asking ≠ Stage.cleared := fun _ => by decide
    refine ⟨fun i _ hi => absurd hi (hasks i), fun j hj => absurd hj (hasks j), fun i _ u _ a ha => ?_,
      fun before b after hl => ?_⟩
    · exact absurd ha List.not_mem_nil
    · simp at hl
  have hkept : KeptIn phone S.settings.otpRateLimitSeconds s := by
    refine h.invariant hstart (fun s t _ ih ht => ih.tick ht) fun s s' i hr ih ho hs => ?_
    exact ih.step (hr.time_le fun a ha => absurd ha List.not_mem_nil) hpos.le ho
      (hr.follows (fun i => call_follows (hv i) hpos) i) hs
  exact hkept.spaced

/-! ### Two requests -/

/-- Two requests for a code of one phone, from two addresses. -/
def sampleAsks (i : Fin 2) : RequestOtp :=
  { phone := "+22507000001", clientIp := some (if i = 0 then "192.0.2.1" else "192.0.2.2"), now := 0
    newId := 1 + i, draw := 0 }

/-- They start at 0, and the phone has an account. -/
def sampleStart : Flight (Fin 2) :=
  { system := System.start { users := [{ id := 7, phone := "+22507000001", status := .active }] } {}
      fun i => (sampleAsks i).call plainEnv
    clock := 0 }

theorem sampleAsks_valid (i : Fin 2) : validatePhone (sampleAsks i).phone = .ok "+22507000001" :=
  (by decide +kernel : validatePhone "+22507000001" = .ok "+22507000001")

/-- The first request to its end, then the second one at `t` until it has sent. -/
def oneAfterOther (t : Time) : List (Clocked.Event (Fin 2)) :=
  List.replicate 8 (.step 0) ++ .tick t :: List.replicate 7 (.step 1)

/-- A minute later the second one sends as well. -/
theorem spaced_after_a_minute : ∃ s : Flight (Fin 2),
    Clocked.Reach storeAt (ReadsFree "+22507000001" plainEnv.settings.otpRateLimitSeconds)
      sampleStart s ∧
    (s.history.filter fun a => Sends "+22507000001" a.call).length = 2 ∧
    Spaced "+22507000001" plainEnv.settings.otpRateLimitSeconds s.history := by
  have hrun : ((Clocked.follow storeAt
      (ReadsFree "+22507000001" plainEnv.settings.otpRateLimitSeconds) sampleStart
      (oneAfterOther (seconds 60))).map fun s =>
        (s.history.filter fun a => Sends "+22507000001" a.call).length) = some 2 := by
    decide +kernel
  obtain ⟨s, hs, hsent⟩ := Option.map_eq_some_iff.mp hrun
  have h := Clocked.reach_of_follow hs
  exact ⟨s, h, hsent, spaced_of_readsFree h sampleAsks_valid (by decide)⟩

omit [Fintype ι] [DecidableEq ι] in
/-- A last call that sends too early. -/
theorem not_spaced {phone : String} {cooldown : ℤ} {l : List (Stamped Call ι)} {a : Stamped Call ι}
    {i : ι} (ha : l.getLast? = some a) (hsends : Sends phone a.call) (hi : i ≠ a.request)
    (hearly : ¬ Over phone cooldown l.dropLast i a.time) : ¬ Spaced phone cooldown l := by
  intro h
  have hl : l = l.dropLast ++ a :: [] := (List.dropLast_append_getLast? a ha).symm
  exact hearly (h _ _ _ hl hsends i hi)

/-- What is seen of a schedule: its last call, and whether what the first
request had sent before was over at `t`. -/
theorem sent_early {events : List (Clocked.Event (Fin 2))} {t : Time}
    (h : ((Clocked.follow storeAt (fun _ _ => True) sampleStart events).map fun s =>
      (s.history.getLast?, decide (Over "+22507000001" plainEnv.settings.otpRateLimitSeconds
        s.history.dropLast 0 t))) =
      some (some ⟨t, 1, .send "+22507000001" (sixDigits 0)⟩, false)) :
    ∃ s : Flight (Fin 2), Clocked.Reach storeAt (fun _ _ => True) sampleStart s ∧
      ¬ Spaced "+22507000001" plainEnv.settings.otpRateLimitSeconds s.history := by
  obtain ⟨s, hs, hseen⟩ := Option.map_eq_some_iff.mp h
  simp only [Prod.mk.injEq, decide_eq_false_iff_not] at hseen
  obtain ⟨hlast, hearly⟩ := hseen
  exact ⟨s, Clocked.reach_of_follow hs, not_spaced hlast rfl (by decide : (0 : Fin 2) ≠ 1) hearly⟩

/-- **Two codes.** Both requests read before either arms, and the second one
sends a second after the first has armed a cooldown of a minute. -/
theorem two_codes : ∃ s : Flight (Fin 2),
    Clocked.Reach storeAt (fun _ _ => True) sampleStart s ∧
    (∀ i, validatePhone (sampleAsks i).phone = .ok "+22507000001") ∧
    0 < plainEnv.settings.otpRateLimitSeconds ∧
    ¬ Spaced "+22507000001" plainEnv.settings.otpRateLimitSeconds s.history := by
  have hrun : ((Clocked.follow storeAt (fun _ _ => True) sampleStart
      (List.replicate 3 (.step 0) ++ List.replicate 3 (.step 1) ++ List.replicate 5 (.step 0) ++
        .tick (seconds 1) :: List.replicate 4 (.step 1))).map fun s =>
      (s.history.getLast?, decide (Over "+22507000001" plainEnv.settings.otpRateLimitSeconds
        s.history.dropLast 0 (seconds 1)))) =
      some (some ⟨seconds 1, 1, .send "+22507000001" (sixDigits 0)⟩, false) := by
    decide +kernel
  obtain ⟨s, hs, hearly⟩ := sent_early hrun
  exact ⟨s, hs, sampleAsks_valid, by decide, hearly⟩

/-- And with nobody in between: in the last half second the cooldown reads as
none. -/
theorem sent_before_the_end : ∃ s : Flight (Fin 2),
    Clocked.Reach storeAt (fun _ _ => True) sampleStart s ∧
    ¬ Spaced "+22507000001" plainEnv.settings.otpRateLimitSeconds s.history := by
  have hrun : ((Clocked.follow storeAt (fun _ _ => True) sampleStart
      (oneAfterOther (seconds 60 - 400000))).map fun s =>
      (s.history.getLast?, decide (Over "+22507000001" plainEnv.settings.otpRateLimitSeconds
        s.history.dropLast 0 (seconds 60 - 400000)))) =
      some (some ⟨seconds 60 - 400000, 1, .send "+22507000001" (sixDigits 0)⟩, false) := by
    decide +kernel
  exact sent_early hrun

end Cooldown

end DiddiFreeID
