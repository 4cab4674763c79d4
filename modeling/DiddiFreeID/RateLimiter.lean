/-
# The counter of an address

`hit_ip` counts a request with two Redis commands, `INCR` and, where the count
is 1, `EXPIRE`; where one of them raises, its handler lets the request
through. An `EXPIRE` that raises after its `INCR` leaves a counter that never
goes: no later call finds the count at 1 again, and after nine more the
address is refused for good (`blocked_for_good`). Where no `EXPIRE` raises
that is due, every counter expires within the window, whatever else fails
(`never_blocked`).

Key definitions: `Hit.hitIp`, `Calls`, `NeverBlocked`.
Key theorems: `hitIp_healthy`, `never_blocked`.
-/
import DiddiFreeID.Effects
import Mathlib.Data.List.Chain

namespace DiddiFreeID

open Transact

/-! ### Counts -/

/-- Counts that go on by one or start again. -/
abbrev Counting (counts : List ℕ) : Prop := counts.IsChain fun n m => m = 1 ∨ m = n + 1

/-- Counts that do not start again rise one by one, so few of them are small. -/
theorem length_filter_le_of_counting (limit : ℕ) : ∀ {n : ℕ} {counts : List ℕ},
    Counting (n :: counts) → (∀ m ∈ counts, m ≠ 1) →
      ((n :: counts).filter fun m => m ≤ limit).length ≤ limit + 1 - n
  | n, [], _, _ => by
    by_cases hn : n ≤ limit
    · rw [List.filter_cons_of_pos (by simpa using hn)]
      simp only [List.filter_nil, List.length_singleton]
      omega
    · rw [List.filter_cons_of_neg (by simpa using hn)]
      simp
  | n, m :: counts, hcounts, hne => by
    obtain ⟨hstep, hrest⟩ := List.isChain_cons_cons.mp hcounts
    have hm : m = n + 1 := hstep.resolve_left (hne m List.mem_cons_self)
    have ih := length_filter_le_of_counting limit hrest fun k hk => hne k (List.mem_cons_of_mem _ hk)
    by_cases hn : n ≤ limit
    · rw [List.filter_cons_of_pos (by simpa using hn), List.length_cons]
      omega
    · rw [List.filter_cons_of_neg (by simpa using hn)]
      omega

theorem Counting.snoc {counts : List ℕ} {n : ℕ} (h : Counting counts)
    (hn : ∀ m ∈ counts.getLast?, n = 1 ∨ n = m + 1) : Counting (counts ++ [n]) := by
  refine h.append (.singleton _) fun m hm k hk => ?_
  obtain rfl : n = k := by simpa using hk
  exact hn m hm

/-! ### One call -/

/-- A call of `hit_ip`: the address, the time, and which of its two commands
raise. -/
structure Hit where
  ip : String
  now : Time
  incrRaises : Bool := false
  expireRaises : Bool := false
  deriving DecidableEq, Repr

namespace Hit

/-- A Redis command answers, or raises and has no effect. -/
def command (raises : Bool) (c : Call) (x : Outside) : Option c.Resp × Outside :=
  if raises then (none, x) else (some (exec c {} x).1, (exec c {} x).2.2)

variable (h : Hit) (x : Outside)

/-- The `try` block; none is an exception. -/
def counting : Option Bool × Outside :=
  match command h.incrRaises (.incrIp h.ip h.now) x with
  | (none, x) => (none, x)
  | (some (count : ℕ), x) =>
    if count = 1 then
      match command h.expireRaises (.expireIp h.ip ipWindowSeconds h.now) x with
      | (none, x) => (none, x)
      | (some _, x) => (some (decide (count ≤ ipRequestsPerWindow)), x)
    else (some (decide (count ≤ ipRequestsPerWindow)), x)

/-- `hit_ip`, whose handler answers `True`. -/
def hitIp : Bool × Outside :=
  if h.ip = "" then (true, x) else ((h.counting x).1.getD true, (h.counting x).2)

/-- What `INCR` returned, if it was called and did not raise. -/
def count : Option ℕ :=
  if h.ip = "" ∨ h.incrRaises = true then none else some ((x.hits h.ip h.now).1 + 1)

end Hit

theorem Outside.lookup_setHits (x : Outside) (ip ip' : String) (n : ℕ) (expiry : Option Time) :
    (x.setHits ip n expiry).ipHits.lookup ip' =
      if ip' = ip then some (n, expiry) else x.ipHits.lookup ip' := by
  simp only [setHits]
  by_cases hip : ip' = ip
  · simp [hip]
  · rw [List.lookup_cons, beq_eq_false_iff_ne.mpr hip, if_neg hip]
    exact (lookup_filter_ne _ _ _).trans (if_neg hip)

theorem Outside.setHits_setHits (x : Outside) (ip : String) (n m : ℕ) (e e' : Option Time) :
    (x.setHits ip n e).setHits ip m e' = x.setHits ip m e' := by
  simp [setHits, List.filter_filter]

/-- A counter that has just been set, with an expiry that was alive. -/
theorem Outside.hits_setHits (x : Outside) (ip : String) (n : ℕ) (now : Time) :
    ((x.setHits ip n (x.hits ip now).2).hits ip now).1 = n := by
  have hlookup : (x.setHits ip n (x.hits ip now).2).ipHits.lookup ip = some (n, (x.hits ip now).2) := by
    rw [lookup_setHits, if_pos rfl]
  have halive : ∀ expiry, (x.hits ip now).2 = some expiry → ¬ expiry ≤ now := by
    intro expiry hexpiry
    unfold hits at hexpiry
    split at hexpiry
    · split_ifs at hexpiry with hold
      cases hexpiry
      exact hold
    · cases hexpiry
    · cases hexpiry
  cases he : (x.hits ip now).2 with
  | none => rw [hits, ← he, hlookup, he]
  | some expiry =>
    rw [hits, ← he, hlookup, he]
    simp only [if_neg (halive expiry he)]

namespace Hit

variable (h : Hit) (x : Outside)

/-- What a call answers and leaves: where it counted, the answer of the count
test, and the counter with its old expiry, or with a new one if the count is 1
and `EXPIRE` does not raise. -/
theorem hitIp_eq : h.hitIp x =
    match h.count x with
    | none => (true, x)
    | some n => (decide (n ≤ ipRequestsPerWindow),
        x.setHits h.ip n (if n = 1 ∧ h.expireRaises = false then
          some (h.now + seconds ipWindowSeconds) else (x.hits h.ip h.now).2)) := by
  unfold hitIp count counting command
  by_cases hip : h.ip = ""
  · simp only [hip, true_or, if_true]
  by_cases hincr : h.incrRaises = true
  · simp only [if_neg hip, hincr, or_true, if_true, Option.getD_none]
  simp only [hip, hincr, or_self, if_false, Bool.false_eq_true, exec]
  by_cases hone : (x.hits h.ip h.now).1 + 1 = 1
  · have haccepted : decide ((x.hits h.ip h.now).1 + 1 ≤ ipRequestsPerWindow) = true := by
      rw [hone]
      decide
    by_cases hexpire : h.expireRaises = true
    · simp only [hone, hexpire, if_true, Bool.true_eq_false, and_false, if_false, Option.getD_none]
      rfl
    · rw [Bool.not_eq_true] at hexpire
      have hcounter : (x.setHits h.ip 1 (x.hits h.ip h.now).2).setHits h.ip
          ((x.setHits h.ip 1 (x.hits h.ip h.now).2).hits h.ip h.now).1
            (some (h.now + seconds ipWindowSeconds)) =
          x.setHits h.ip 1 (some (h.now + seconds ipWindowSeconds)) := by
        rw [Outside.hits_setHits, Outside.setHits_setHits]
      simp only [hone, hexpire, Bool.false_eq_true, if_false, and_self, if_true, hcounter,
        Option.getD_some]
  · simp only [hone, if_false, false_and, Option.getD_some]

theorem answer_eq : (h.hitIp x).1 = (h.count x).all fun n => n ≤ ipRequestsPerWindow := by
  rw [hitIp_eq]
  cases h.count x <;> rfl

/-- Where nothing raises, it is the `hit_ip` of the commands. -/
theorem hitIp_healthy (d : Db) (hincr : h.incrRaises = false) (hexpire : h.expireRaises = false) :
    store.run (DiddiFreeID.hitIp h.ip h.now) [] d x = (.ok (h.hitIp x).1, d, (h.hitIp x).2) := by
  unfold DiddiFreeID.hitIp hitIp counting command
  by_cases hip : h.ip = ""
  · simp only [hip, if_true]
    rfl
  · simp only [hip, if_false, hincr, hexpire, Bool.false_eq_true, Prog.ask_bind, run_incrIp, exec]
    by_cases hone : (x.hits h.ip h.now).1 + 1 = 1
    · simp only [hone, if_true, run_expireIp]
      rfl
    · simp only [hone, if_false]
      rfl

end Hit

/-! ### Sequences of calls -/

/-- The time of the last call, Redis, and the calls with what `INCR` returned. -/
structure Limiter where
  clock : Time
  redis : Outside := {}
  answers : List (Hit × Option ℕ) := []

namespace Limiter

def after (s : Limiter) (h : Hit) : Limiter :=
  { clock := h.now
    redis := (h.hitIp s.redis).2
    answers := s.answers ++ [(h, h.count s.redis)] }

/-- What a sequence of calls in order of time leads to, each of which meets
`ok`, a condition on the counters before it. -/
inductive Calls (ok : Outside → Hit → Prop) (s₀ : Limiter) : Limiter → Prop
  | init : Calls ok s₀ s₀
  | hit {s : Limiter} (h : Hit) : Calls ok s₀ s → s.clock ≤ h.now → ok s.redis h →
      Calls ok s₀ (s.after h)

/-- Where the call starts a counter, its `EXPIRE` does not raise. -/
def Expires (x : Outside) (h : Hit) : Prop := h.count x = some 1 → h.expireRaises = false

instance (x : Outside) (h : Hit) : Decidable (Expires x h) :=
  inferInstanceAs (Decidable (_ → _))

/-- The counts of an address, of the calls whose `INCR` succeeded. -/
def counts (ip : String) (answers : List (Hit × Option ℕ)) : List ℕ :=
  answers.filterMap fun a => if a.1.ip = ip then a.2 else none

theorem counts_append (ip : String) (l l' : List (Hit × Option ℕ)) :
    counts ip (l ++ l') = counts ip l ++ counts ip l' := by
  simp [counts]

/-- Every counter expires within the window; a refused address that stays
silent is let through after the window; and of the calls of an address in the
lifetime of one counter (`INCR` returns 1 for none but the first), the count
test accepts at most ten. -/
structure NeverBlocked (s : Limiter) : Prop where
  expires : ∀ ip n e, s.redis.ipHits.lookup ip = some (n, e) →
    ∃ expiry, e = some expiry ∧ expiry ≤ s.clock + seconds ipWindowSeconds
  silent : ∀ (h h' : Hit) (s' : Limiter), s.clock ≤ h.now → (h.hitIp s.redis).1 = false →
    Calls (fun _ k => k.ip ≠ h.ip) (s.after h) s' → h'.ip = h.ip →
      h.now + seconds ipWindowSeconds ≤ h'.now → (h'.hitIp s'.redis).1 = true
  lifetime : ∀ ip before segment after, s.answers = before ++ segment ++ after →
    (∀ n ∈ (counts ip segment).tail, n ≠ 1) →
      ((counts ip segment).filter fun n => n ≤ ipRequestsPerWindow).length ≤ ipRequestsPerWindow

variable {ok : Outside → Hit → Prop} {s s' : Limiter} {h : Hit} {ip : String}

/-! ### Counters -/

/-- Every counter expires, by `t` and a window at the latest. -/
def Windowed (t : Time) (x : Outside) : Prop :=
  ∀ ip n e, x.ipHits.lookup ip = some (n, e) →
    ∃ expiry, e = some expiry ∧ expiry ≤ t + seconds ipWindowSeconds

/-- The counter that a call leaves to its address. -/
theorem lookup_after : (s.after h).redis.ipHits.lookup ip =
    match h.count s.redis with
    | none => s.redis.ipHits.lookup ip
    | some n => if ip = h.ip then some (n, if n = 1 ∧ h.expireRaises = false then
        some (h.now + seconds ipWindowSeconds) else (s.redis.hits h.ip h.now).2)
      else s.redis.ipHits.lookup ip := by
  rw [after, Hit.hitIp_eq]
  cases h.count s.redis with
  | none => rfl
  | some n => exact Outside.lookup_setHits ..

/-- A count beyond 1 is that of a live counter. -/
theorem hits_of_pos {x : Outside} {t : Time} (hpos : (x.hits ip t).1 ≠ 0) :
    x.ipHits.lookup ip = some (x.hits ip t) ∧ ∀ expiry, (x.hits ip t).2 = some expiry → t < expiry := by
  unfold Outside.hits at hpos ⊢
  cases hlookup : x.ipHits.lookup ip with
  | none => simp [hlookup] at hpos
  | some entry =>
    obtain ⟨n, e⟩ := entry
    cases e with
    | none => simp
    | some expiry =>
      by_cases hold : expiry ≤ t
      · simp [hlookup, hold] at hpos
      · simp only [hold, if_false, Option.some.injEq, forall_eq', true_and]
        exact not_le.mp hold

/-- **Step.** A call after which every started counter has its expiry. -/
theorem Windowed.step (hw : Windowed s.clock s.redis) (ht : s.clock ≤ h.now)
    (hok : Expires s.redis h) : Windowed (s.after h).clock (s.after h).redis := by
  have hlater : ∀ expiry : Time, expiry ≤ s.clock + seconds ipWindowSeconds →
      expiry ≤ h.now + seconds ipWindowSeconds :=
    fun expiry hle => hle.trans (Int.add_le_add_right ht _)
  intro ip n e hlookup
  rw [lookup_after] at hlookup
  cases hcount : h.count s.redis with
  | none =>
    rw [hcount] at hlookup
    obtain ⟨expiry, rfl, hle⟩ := hw ip n e hlookup
    exact ⟨expiry, rfl, hlater expiry hle⟩
  | some m =>
    rw [hcount] at hlookup
    dsimp only at hlookup
    by_cases hip : ip = h.ip
    · rw [if_pos hip] at hlookup
      obtain ⟨rfl, he⟩ := Prod.mk.inj (Option.some.inj hlookup)
      by_cases hone : m = 1
      · subst hone
        rw [if_pos ⟨rfl, hok hcount⟩] at he
        exact ⟨_, he.symm, le_rfl⟩
      · rw [if_neg fun hc => hone hc.1] at he
        -- the counter was there, with an expiry
        have hm : (s.redis.hits h.ip h.now).1 + 1 = m := by
          unfold Hit.count at hcount
          split_ifs at hcount
          exact Option.some.inj hcount
        have hpos : (s.redis.hits h.ip h.now).1 ≠ 0 := by omega
        obtain ⟨expiry, hexpiry, hle⟩ := hw h.ip _ _ (hits_of_pos hpos).1
        exact ⟨expiry, he.symm.trans hexpiry, hlater expiry hle⟩
    · rw [if_neg hip] at hlookup
      obtain ⟨expiry, rfl, hle⟩ := hw ip n e hlookup
      exact ⟨expiry, rfl, hlater expiry hle⟩

theorem Calls.windowed {x : Outside} {t : Time} (hx : x.ipHits = [])
    (hs : Calls Expires { clock := t, redis := x } s) : Windowed s.clock s.redis := by
  induction hs with
  | init =>
    intro ip n e hlookup
    simp [hx] at hlookup
  | hit h _ ht hok ih => exact ih.step ht hok

/-! ### Silence -/

/-- A call is refused on a live counter. -/
theorem refused (hr : (h.hitIp s.redis).1 = false) :
    ∃ n, (s.after h).redis.ipHits.lookup h.ip = some (n, (s.redis.hits h.ip h.now).2) ∧
      s.redis.ipHits.lookup h.ip = some (s.redis.hits h.ip h.now) := by
  rw [Hit.answer_eq] at hr
  cases hcount : h.count s.redis with
  | none =>
    rw [hcount] at hr
    cases hr
  | some n =>
    rw [hcount] at hr
    have hn : ¬ n ≤ ipRequestsPerWindow := of_decide_eq_false hr
    have hm : (s.redis.hits h.ip h.now).1 + 1 = n := by
      unfold Hit.count at hcount
      split_ifs at hcount
      exact Option.some.inj hcount
    have hne : n ≠ 1 := by
      rintro rfl
      exact hn (by decide)
    refine ⟨n, ?_, (hits_of_pos (by omega)).1⟩
    rw [lookup_after, hcount]
    simp only [if_true, hne, false_and, if_false]

/-- The calls of other addresses leave a counter alone. -/
theorem Calls.lookup_eq {s₀ : Limiter} (hs : Calls (fun _ k => k.ip ≠ ip) s₀ s) :
    s.redis.ipHits.lookup ip = s₀.redis.ipHits.lookup ip := by
  induction hs with
  | init => rfl
  | @hit s k _ _ hk ih =>
    rw [lookup_after, ← ih]
    cases k.count s.redis with
    | none => rfl
    | some n => exact if_neg (Ne.symm hk)

/-- After the expiry of its counter an address is let through. -/
theorem let_through {x : Outside} {n : ℕ} {expiry : Time}
    (hlookup : x.ipHits.lookup h.ip = some (n, some expiry)) (ht : expiry ≤ h.now) :
    (h.hitIp x).1 = true := by
  have hhits : (x.hits h.ip h.now).1 = 0 := by
    rw [Outside.hits, hlookup]
    simp only [if_pos ht]
  rw [Hit.answer_eq, Hit.count]
  split_ifs
  · rfl
  · rw [hhits]
    decide

theorem silent_of_windowed (hw : Windowed s.clock s.redis) {h' : Hit} (ht : s.clock ≤ h.now)
    (hr : (h.hitIp s.redis).1 = false) (hs : Calls (fun _ k => k.ip ≠ h.ip) (s.after h) s')
    (hip : h'.ip = h.ip) (hlater : h.now + seconds ipWindowSeconds ≤ h'.now) :
    (h'.hitIp s'.redis).1 = true := by
  obtain ⟨n, hafter, hbefore⟩ := refused hr
  obtain ⟨expiry, hexpiry, hle⟩ : ∃ expiry, (s.redis.hits h.ip h.now).2 = some expiry ∧
      expiry ≤ s.clock + seconds ipWindowSeconds := hw h.ip _ _ hbefore
  have hcounter : s'.redis.ipHits.lookup h'.ip = some (n, some expiry) := by
    rw [hip, hs.lookup_eq, hafter, hexpiry]
  have hexpired : expiry ≤ h'.now := calc
    expiry ≤ s.clock + seconds ipWindowSeconds := hle
    _ ≤ h.now + seconds ipWindowSeconds := Int.add_le_add_right ht _
    _ ≤ h'.now := hlater
  exact let_through hcounter hexpired

/-! ### Lifetimes -/

/-- The counts of an address start at 1, go on by one or start again, and the
last one is what its counter holds. -/
structure Counted (ip : String) (s : Limiter) : Prop where
  chain : Counting (counts ip s.answers)
  pos : ∀ n ∈ counts ip s.answers, 1 ≤ n
  last : ∀ n e, s.redis.ipHits.lookup ip = some (n, e) → (counts ip s.answers).getLast? = some n

theorem counts_after : counts ip (s.after h).answers =
    counts ip s.answers ++ if h.ip = ip then (h.count s.redis).toList else [] := by
  rw [after, counts_append]
  congr 1
  simp only [counts, List.filterMap_cons, List.filterMap_nil]
  split_ifs
  · cases h.count s.redis <;> rfl
  · rfl

/-- A hit that is not counted for the address. -/
theorem Counted.uncounted (hc : Counted ip s)
    (hanswers : counts ip (s.after h).answers = counts ip s.answers)
    (hlookup : (s.after h).redis.ipHits.lookup ip = s.redis.ipHits.lookup ip) :
    Counted ip (s.after h) := by
  refine ⟨hanswers ▸ hc.chain, hanswers ▸ hc.pos, fun n e hn => ?_⟩
  rw [hanswers]
  exact hc.last n e (hlookup ▸ hn)

theorem Counted.step (hc : Counted ip s) : Counted ip (s.after h) := by
  have hanswers : counts ip (s.after h).answers =
      counts ip s.answers ++ if h.ip = ip then (h.count s.redis).toList else [] := counts_after
  by_cases hip : h.ip = ip
  · subst hip
    rw [if_pos rfl] at hanswers
    cases hcount : h.count s.redis with
    | none =>
      rw [hcount, Option.toList_none, List.append_nil] at hanswers
      exact hc.uncounted hanswers (by rw [lookup_after, hcount])
    | some n =>
      rw [hcount, Option.toList_some] at hanswers
      have hn : (s.redis.hits h.ip h.now).1 + 1 = n := by
        unfold Hit.count at hcount
        split_ifs at hcount
        exact Option.some.inj hcount
      refine ⟨?_, fun m hm => ?_, fun m e hlookup => ?_⟩
      · rw [hanswers]
        refine hc.chain.snoc fun m hm => ?_
        by_cases hzero : (s.redis.hits h.ip h.now).1 = 0
        · exact .inl (by omega)
        · have hlast : (counts h.ip s.answers).getLast? = some (s.redis.hits h.ip h.now).1 :=
            hc.last _ _ (hits_of_pos hzero).1
          rw [hlast] at hm
          obtain rfl : (s.redis.hits h.ip h.now).1 = m := by simpa using hm
          exact .inr hn.symm
      · rw [hanswers] at hm
        rcases List.mem_append.mp hm with hm | hm
        · exact hc.pos m hm
        · rw [List.mem_singleton.mp hm]
          omega
      · rw [lookup_after, hcount] at hlookup
        simp only [if_true] at hlookup
        obtain ⟨rfl, -⟩ := Prod.mk.inj (Option.some.inj hlookup)
        rw [hanswers, List.getLast?_concat]
  · rw [if_neg hip, List.append_nil] at hanswers
    refine hc.uncounted hanswers ?_
    rw [lookup_after]
    cases h.count s.redis with
    | none => rfl
    | some m => exact if_neg (Ne.symm hip)

theorem Calls.counted {x : Outside} {t : Time} (hx : x.ipHits = [])
    (hs : Calls ok { clock := t, redis := x } s) (ip : String) : Counted ip s := by
  induction hs with
  | init => exact ⟨.nil, fun n hn => by simp [counts] at hn, fun n e hlookup => by simp [hx] at hlookup⟩
  | hit h _ _ _ ih => exact ih.step

/-- The counts of an address from one start on are accepted up to the ceiling. -/
theorem Counted.lifetime (hc : Counted ip s) {before segment after : List (Hit × Option ℕ)}
    (hsplit : s.answers = before ++ segment ++ after)
    (hone : ∀ n ∈ (counts ip segment).tail, n ≠ 1) :
    ((counts ip segment).filter fun n => n ≤ ipRequestsPerWindow).length ≤ ipRequestsPerWindow := by
  have hcounts : counts ip s.answers = counts ip before ++ counts ip segment ++ counts ip after := by
    rw [hsplit, counts_append, counts_append]
  have hchain : Counting (counts ip segment) := hc.chain.infix ⟨_, _, hcounts.symm⟩
  have hpos : ∀ n ∈ counts ip segment, 1 ≤ n := by
    intro n hn
    refine hc.pos n ?_
    rw [hcounts]
    exact List.mem_append_left _ (List.mem_append_right _ hn)
  cases hsegment : counts ip segment with
  | nil => exact Nat.zero_le _
  | cons n rest =>
    rw [hsegment] at hchain hone hpos
    have hle := length_filter_le_of_counting ipRequestsPerWindow hchain hone
    have hn : 1 ≤ n := hpos n List.mem_cons_self
    omega

/-- **No address is blocked for good**, where no `EXPIRE` raises that starts a
counter. -/
theorem never_blocked {x : Outside} {t : Time} (hx : x.ipHits = [])
    (hs : Calls Expires { clock := t, redis := x } s) : NeverBlocked s := by
  have hw := hs.windowed hx
  exact ⟨hw, fun h h' s' ht hr hs' hip hlater => silent_of_windowed hw ht hr hs' hip hlater,
    fun ip _ _ _ hsplit hone => (hs.counted hx ip).lifetime hsplit hone⟩

/-! ### A counter without an expiry -/

/-- The `n`-th call of one address, in the same second. -/
def sampleHit (n : ℕ) : Hit := { ip := "192.0.2.1", now := n }

/-- Redis fails at the second call, before it counts. -/
theorem never_blocked_outage : NeverBlocked
    ((({ clock := 0 } : Limiter).after (sampleHit 0)).after { sampleHit 1 with incrRaises := true }) :=
  never_blocked rfl (.hit _ (.hit _ .init (by decide) (by decide)) (by decide) (by decide))

/-- A call that fails in `EXPIRE`, and `n` more. -/
def unexpiring : ℕ → Limiter
  | 0 => ({ clock := 0 } : Limiter).after { sampleHit 0 with expireRaises := true }
  | n + 1 => (unexpiring n).after (sampleHit (n + 1))

theorem unexpiring_calls : ∀ n, (unexpiring n).clock = n ∧
    Calls (fun _ _ => True) { clock := 0 } (unexpiring n)
  | 0 => ⟨rfl, .hit _ .init (by decide) trivial⟩
  | n + 1 => by
    obtain ⟨hclock, hcalls⟩ := unexpiring_calls n
    refine ⟨rfl, .hit _ hcalls ?_ trivial⟩
    rw [hclock]
    exact Int.ofNat_le.mpr (Nat.le_succ n)

/-- **Blocked for good.** `EXPIRE` raised once: from the eleventh call on, the
address is refused at any time. -/
theorem blocked_for_good : Calls (fun _ _ => True) { clock := 0 } (unexpiring 9) ∧
    ¬ NeverBlocked (unexpiring 9) ∧
    ∀ h : Hit, h.ip = "192.0.2.1" → h.incrRaises = false →
      (h.hitIp (unexpiring 9).redis).1 = false := by
  have hcounter : (unexpiring 9).redis.ipHits.lookup "192.0.2.1" = some (10, none) := by
    decide +kernel
  refine ⟨(unexpiring_calls 9).2, fun hnever => ?_, fun h hip hincr => ?_⟩
  · obtain ⟨expiry, hexpiry, -⟩ := hnever.expires _ _ _ hcounter
    cases hexpiry
  · have hcount : h.count (unexpiring 9).redis = some 11 := by
      simp [Hit.count, hip, hincr, Outside.hits, hcounter]
    rw [Hit.answer_eq, hcount]
    decide

end Limiter

end DiddiFreeID
