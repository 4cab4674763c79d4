/-
# Profiles under an expiring cache

A failed invalidation leaves the old profile in the cache, and so does a query
that stores what it read before a commit: nothing but its expiry takes such an
entry away. Whatever fails, a profile that is answered is that of a row the same
query read, or of an entry that had not expired, stored by a query that had read
it in a committed row (`profile_sourced`). So an old profile is answered for no
longer than `PROFILE_TTL_SECONDS` and what a query takes from its read to its
store (`stale_no_longer`).

Key definitions: `Degraded`, `Degraded.Filled`, `Degraded.Sourced`.
Key theorems: `entry_origin`, `profile_sourced`, `stale_no_longer`.
-/
import DiddiFreeID.Grounds
import DiddiFreeID.ProfileFreshness
import DiddiFreeID.RedisFaults

namespace DiddiFreeID

open Transact Engine

/-! ### Entries -/

section Entries

variable {K : Conditions} {c : Call} {d : Db} {r : Remote} {u : Uuid} {e : CachedUser}
  {now : Time}

/-- An entry is there as long as it has not expired. -/
theorem Remote.lookup_current : (r.current now).cache.lookup u = some e ↔
    r.outside.cache.lookup u = some e ∧ ∀ t, r.expiries.lookup u = some t → now < t := by
  have h : (r.current now).cache.lookup u =
      if (r.expiries.lookup u).all fun t => decide (now < t) then r.outside.cache.lookup u
      else none :=
    lookup_filter_key (fun u => (r.expiries.lookup u).all fun t => decide (now < t)) _ u
  rw [h]
  cases r.expiries.lookup u with
  | none => simp
  | some t => by_cases ht : now < t <;> simp [ht]

/-- What a call leaves, carried out or lost. -/
theorem remoteExec_left (c : Call) (d : Db) (r : Remote) :
    (remoteExec K c d r).2.2 = ⟨(exec c d (r.current (K.clock r.calls))).2.2,
      r.expiring (K.clock r.calls) c, r.calls + 1⟩ ∨
    (remoteExec K c d r).2.2 = ⟨r.current (K.clock r.calls), r.expiries, r.calls + 1⟩ := by
  unfold remoteExec
  cases c.excepted with
  | none => exact .inl rfl
  | some a =>
    cases K.fault r.calls with
    | answered => exact .inl rfl
    | lost => exact .inr rfl
    | unheard => exact .inl rfl

theorem lookup_expiring_self {v : User} :
    (r.expiring now (.cacheSet v)).lookup v.id = some (now + seconds profileTtlSeconds) := by
  simp [Remote.expiring]

theorem lookup_expiring (h : ∀ v, c = .cacheSet v → v.id ≠ u) :
    (r.expiring now c).lookup u = r.expiries.lookup u := by
  cases c with
  | cacheSet v =>
    have hv : u ≠ v.id := fun he => h v rfl he.symm
    unfold Remote.expiring
    rw [List.lookup_cons, beq_eq_false_iff_ne.mpr hv]
    exact (lookup_filter_ne _ _ _).trans (if_neg hv)
  | _ => rfl

/-- An entry that is there after a call was stored by it and expires
`PROFILE_TTL_SECONDS` later, or was there before and expires when it did. -/
theorem remoteExec_cache (h : (remoteExec K c d r).2.2.outside.cache.lookup u = some e) :
    (∃ v, c = .cacheSet v ∧ v.id = u ∧ e = .ofUser v ∧
      (remoteExec K c d r).2.2.expiries.lookup u =
        some (K.clock r.calls + seconds profileTtlSeconds)) ∨
    (r.outside.cache.lookup u = some e ∧
      (remoteExec K c d r).2.2.expiries.lookup u = r.expiries.lookup u) := by
  rcases remoteExec_left (K := K) c d r with hleft | hleft
  · rw [hleft] at h ⊢
    by_cases hset : ∃ v, c = .cacheSet v ∧ v.id = u
    · obtain ⟨v, rfl, rfl⟩ := hset
      have he : some (CachedUser.ofUser v) = some e := by
        rw [← h]
        exact ((Outside.lookup_setUser _ v v.id).trans (if_pos rfl)).symm
      exact .inl ⟨v, rfl, rfl, (Option.some.inj he).symm, lookup_expiring_self⟩
    · have hne : ∀ v, c = .cacheSet v → v.id ≠ u := fun v hc hv => hset ⟨v, hc, hv⟩
      rcases exec_cache h with ⟨v, hc, hv, -⟩ | ⟨hold, -⟩
      · exact absurd hv (hne v hc)
      · exact .inr ⟨(Remote.lookup_current.mp hold).1, lookup_expiring hne⟩
  · rw [hleft] at h ⊢
    exact .inr ⟨(Remote.lookup_current.mp h).1, rfl⟩

end Entries

/-! ### What is told -/

theorem remoteExec_credible (K : Conditions) (c : Call) (d : Db) (r : Remote) :
    CredibleAnswer ⟨c, (remoteExec K c d r).1⟩ := by
  rcases remoteExec_cases (K := K) c d r with ⟨h, -⟩ | ⟨a, ha, h, -⟩ <;> rw [h]
  · exact exec_credible c d _
  · cases c with
    | findById | findByPhone | findLatestActive | findByHash => cases ha
    | _ => trivial

theorem cacheGet_some {K : Conditions} {d : Db} {r : Remote} {u : Uuid} {v : User}
    (h : (remoteExec K (.cacheGet u) d r).1 = some v) :
    ∃ e, (r.current (K.clock r.calls)).cache.lookup u = some e ∧ v = e.toUser := by
  rcases remoteExec_cases (K := K) (.cacheGet u) d r with ⟨ha, -⟩ | ⟨a, hex, ha, -⟩
  · obtain ⟨e, he, hv⟩ := Option.map_eq_some_iff.mp (ha.symm.trans h)
    exact ⟨e, he, hv.symm⟩
  · obtain rfl : a = none := (Option.some.inj hex).symm
    rw [ha] at h
    cases h

/-- What a task has been told is credible. -/
theorem redis_credible {ι : Type} [Fintype ι] [DecidableEq ι] {K : Conditions}
    {progs : ι → Cmd Response} {d : Db} {r : Remote}
    {s : System Call Call.Resp Failure Response Db Remote Write ι}
    (h : (redis K).Reach Any (System.start d r progs) s) (i : ι) :
    Credible (s.thread i).trace :=
  credible_of_answers (h.heard (P := fun _ _ a => CredibleAnswer a)
    (fun _ _ _ _ _ _ ha => ha) (fun _ _ c _ _ _ _ _ => remoteExec_credible K c _ _) i)

/-- Who stores a profile is a query that has read it; what a query answers it has
read or got from the cache. -/
def reading (t : Task) : Monitor Call Call.Resp Failure Response Heard :=
  tracing (fun l c => Credible l → ∀ v, c = .cacheSet v →
      ∃ q, t = .query q ∧ Told l (.findById v.id) (some v))
    (fun l a => ∀ q, t = .query q → ∀ p, a = .profile p → ∃ v, p = profilePayload v ∧
      (Told l (.cacheGet q.userId) (some v) ∨ Told l (.findById q.userId) (some v)))
    (fun _ _ => True)

theorem Query.follows_reading (q : Query) : q.prog.Follows (reading (.query q)) [] := by
  rw [q.prog_eq, GetUserById.call_eq]
  refine ⟨fun _ v hv => (nomatch hv), fun cached => ?_⟩
  cases cached with
  | some v =>
    rintro q' hq' p hp
    obtain rfl := Task.query.inj hq'
    exact ⟨v, (Response.profile.inj hp).symm, .inl told_snoc⟩
  | none =>
    refine ⟨fun _ v hv => (nomatch hv), fun user => ?_⟩
    cases user with
    | none => trivial
    | some v =>
      refine ⟨fun hl w hw => ?_, fun _ q' hq' p hp => ?_⟩
      · obtain rfl := Call.cacheSet.inj hw
        have hid : v.id = q.userId := hl.byId told_snoc
        refine ⟨q, rfl, ?_⟩
        rw [hid]
        exact told_snoc
      · obtain rfl := Task.query.inj hq'
        exact ⟨v, (Response.profile.inj hp).symm, .inr (told_snoc.snoc _)⟩

/-- A command stores no profile. -/
theorem Request.follows_reading (S : Env) (r : Request) :
    (r.prog S).Follows (reading (.command r)) [] := by
  refine (r.follows_grounds S).simulated Eq ?_ ?_ (fun _ _ => trivial) rfl
  · rintro l _ c rfl hc
    refine ⟨fun hl v hv => ?_, fun _ => rfl⟩
    subst hv
    exact nomatch (hc hl).1
  · rintro l _ a rfl - q hq
    exact nomatch hq

theorem Task.follows_reading (S : Env) (t : Task) : (t.prog S).Follows (reading t) [] := by
  cases t with
  | command r => exact r.follows_reading S
  | query q => exact q.follows_reading

/-! ### In flight -/

/-- Tasks in flight, with Redis under conditions. -/
structure Degraded (ι : Type) where
  env : Env
  conditions : Conditions
  tasks : ι → Task
  db : Db
  remote : Remote
  schedule : ℕ → ι

namespace Degraded

variable {ι : Type} [Fintype ι] [DecidableEq ι] (G : Degraded ι)

/-- The state at an instant. -/
def state (n : ℕ) : System Call Call.Resp Failure Response Db Remote Write ι :=
  (redis G.conditions).state (System.start G.db G.remote fun i => (G.tasks i).prog G.env)
    G.schedule n

/-- The call that a task makes next. -/
def next (n : ℕ) (i : ι) : Option Call := ((G.state n).thread i).next

/-- The instant `n` is one where task `i` makes the call. -/
def Asks (i : ι) (c : Call) (n : ℕ) : Prop := G.schedule n = i ∧ G.next n i = some c

/-- Task `i` reads a committed row of `u` at the instant `n`. -/
def Reads (i : ι) (u : Uuid) (v : User) (n : ℕ) : Prop :=
  G.Asks i (.findById u) n ∧ (G.state n).db.findById u = some v

/-- What the clock says at an instant. -/
def now (n : ℕ) : Time := G.conditions.clock (G.state n).outside.calls

variable {G} {n m k l : ℕ} {i : ι} {u : Uuid} {v : User} {e : CachedUser}

/-- A query has read a committed row. -/
theorem read_of_told {q : Query} (hq : G.tasks i = .query q)
    (h : Told ((G.state n).thread i).trace (.findById u) (some v)) :
    ∃ m < n, G.Reads i u v m := by
  obtain ⟨m, hm, hi, hnext, ha⟩ := state_told h
  let progs i := (G.tasks i).prog G.env
  have hf : (progs i).Follows (only Call.ofQuery Call.Resp Failure Response) () := by
    change ((G.tasks i).prog G.env).Follows _ _
    rw [hq]
    exact q.follows_ofQuery
  have hlog : ((G.state m).thread i).log = [] :=
    state_silent (fun c d r hc => ((siblings G.conditions).aside_writes c d {} r hc).2) hf
      G.schedule m
  refine ⟨m, hm, ⟨hi, hnext⟩, ?_⟩
  change ((redis G.conditions).answer (G.state m) i _).1 = _ at ha
  rw [answer, hlog, view_nil] at ha
  exact ha

/-- It has found an entry that had not expired. -/
theorem found_of_told (h : Told ((G.state n).thread i).trace (.cacheGet u) (some v)) :
    ∃ m < n, G.Asks i (.cacheGet u) m ∧
      ∃ e, (G.state m).outside.outside.cache.lookup u = some e ∧ v = e.toUser ∧
        ∀ t, (G.state m).outside.expiries.lookup u = some t → G.now m < t := by
  obtain ⟨m, hm, hi, hnext, ha⟩ := state_told h
  obtain ⟨e, he, hv⟩ := cacheGet_some ha
  obtain ⟨hold, halive⟩ := Remote.lookup_current.mp he
  exact ⟨m, hm, ⟨hi, hnext⟩, e, hold, hv, halive⟩

/-- At the instant `m` a query stores the row of `u` that it has read at `k`. -/
structure Filled (G : Degraded ι) (u : Uuid) (v : User) (k m : ℕ) : Prop where
  before : k < m
  read : G.Reads (G.schedule m) u v k
  stores : G.next m (G.schedule m) = some (.cacheSet v)

/-- Who stores a profile has read it. -/
theorem filled (h : G.next m (G.schedule m) = some (.cacheSet v)) : ∃ k, G.Filled v.id v k m := by
  have hreach : (redis G.conditions).Reach Any
      (System.start G.db G.remote fun i => (G.tasks i).prog G.env) (G.state m) := reach_state m
  have hf := hreach.follows_trace ((G.tasks (G.schedule m)).follows_reading G.env)
  obtain ⟨kont, hp⟩ := Thread.next_eq_some.mp h
  rw [hp] at hf
  obtain ⟨q, hq, htold⟩ := hf.1 (redis_credible hreach _) v rfl
  obtain ⟨k, hk, hread⟩ := read_of_told hq htold
  exact ⟨k, hk, hread, h⟩

/-- **Step.** An entry that is there after an instant was stored at it, or was
there before and expires when it did. -/
theorem entry_succ (h : (G.state (n + 1)).outside.outside.cache.lookup u = some e) :
    (∃ v, G.next n (G.schedule n) = some (.cacheSet v) ∧ v.id = u ∧ e = .ofUser v ∧
      (G.state (n + 1)).outside.expiries.lookup u = some (G.now n + seconds profileTtlSeconds)) ∨
    ((G.state n).outside.outside.cache.lookup u = some e ∧
      (G.state (n + 1)).outside.expiries.lookup u = (G.state n).outside.expiries.lookup u) := by
  rcases state_cases (redis G.conditions)
    (System.start G.db G.remote fun i => (G.tasks i).prog G.env) G.schedule n with ⟨-, hs⟩ | hs
  · change G.state (n + 1) = G.state n at hs
    rw [hs] at h ⊢
    exact .inr ⟨h, rfl⟩
  · change (redis G.conditions).Step (G.state n) (G.schedule n) (G.state (n + 1)) at hs
    generalize G.state (n + 1) = t at hs h ⊢
    cases hs with
    | @call c k hp =>
      rcases remoteExec_cache h with ⟨v, rfl, hrest⟩ | hold
      · exact .inl ⟨v, Thread.next_eq_some.mpr ⟨k, hp⟩, hrest⟩
      · exact .inr hold
    | @commit c k hp hc =>
      rcases remoteExec_cache h with ⟨v, rfl, hrest⟩ | hold
      · exact .inl ⟨v, Thread.next_eq_some.mpr ⟨k, hp⟩, hrest⟩
      · exact .inr hold
    | close | abort => exact .inr ⟨h, rfl⟩

/-- Where an entry comes from, and when it expires. -/
def Origin (G : Degraded ι) (u : Uuid) (e : CachedUser) (n : ℕ) (expiry : Option Time) : Prop :=
  (G.remote.outside.cache.lookup u = some e ∧ expiry = G.remote.expiries.lookup u) ∨
  ∃ k m v, m < n ∧ G.Filled u v k m ∧ e = .ofUser v ∧
    expiry = some (G.now m + seconds profileTtlSeconds)

theorem Origin.succ {expiry : Option Time} (h : G.Origin u e n expiry) :
    G.Origin u e (n + 1) expiry := by
  rcases h with h | ⟨k, m, v, hm, hrest⟩
  · exact .inl h
  · exact .inr ⟨k, m, v, hm.trans n.lt_succ_self, hrest⟩

/-- **Run.** Every entry was there at the start, or a query has stored it. -/
theorem entry_origin (h : (G.state n).outside.outside.cache.lookup u = some e) :
    G.Origin u e n ((G.state n).outside.expiries.lookup u) := by
  induction n with
  | zero => exact .inl ⟨h, rfl⟩
  | succ n ih =>
    rcases entry_succ h with ⟨v, hset, rfl, he, hexp⟩ | ⟨hold, hexp⟩
    · obtain ⟨k, hk⟩ := filled hset
      exact .inr ⟨k, n, v, n.lt_succ_self, hk, he, hexp⟩
    · rw [hexp]
      exact (ih hold).succ

/-- Where the profile that a query `i` for `u` has answered by the instant `n`
comes from: a committed row it has read, or an entry it has found in time. -/
inductive Sourced (G : Degraded ι) (i : ι) (u : Uuid) (n : ℕ) : Profile → Prop
  | row {k : ℕ} {v : User} : k < n → G.Reads i u v k → Sourced G i u n (profilePayload v)
  | entry {k m l : ℕ} {v : User} : G.Filled u v k m → m < l → l < n →
      G.Asks i (.cacheGet u) l → G.now l < G.now m + seconds profileTtlSeconds →
      Sourced G i u n (profilePayload (CachedUser.ofUser v).toUser)
  | old {l : ℕ} {e : CachedUser} : l < n → G.Asks i (.cacheGet u) l →
      G.remote.outside.cache.lookup u = some e →
      (∀ t, G.remote.expiries.lookup u = some t → G.now l < t) →
      Sourced G i u n (profilePayload e.toUser)

/-- **Sources.** Whatever fails, every profile that is answered has its source. -/
theorem profile_sourced {q : Query} (hq : G.tasks i = .query q) {p : Profile}
    (hret : ((G.state n).thread i).prog = .ret (.profile p)) : G.Sourced i q.userId n p := by
  have hreach : (redis G.conditions).Reach Any
      (System.start G.db G.remote fun i => (G.tasks i).prog G.env) (G.state n) := reach_state n
  have hf := hreach.follows_trace ((G.tasks i).follows_reading G.env)
  rw [hret] at hf
  obtain ⟨v, rfl, hgot | hread⟩ := hf q hq p rfl
  · obtain ⟨l, hl, hi, e, he, rfl, hintime⟩ := found_of_told hgot
    rcases entry_origin he with ⟨h0, hexp⟩ | ⟨k, m, v, hm, hfilled, rfl, hexp⟩
    · exact .old hl hi h0 (hexp ▸ hintime)
    · exact .entry hfilled hm hl hi (hintime _ hexp)
  · obtain ⟨k, hk, hrow⟩ := read_of_told hq hread
    exact .row hk hrow

/-! ### How old a profile may be -/

theorem calls_le (n : ℕ) : (G.state n).outside.calls ≤ (G.state (n + 1)).outside.calls := by
  have hexec : ∀ {c d r}, r.calls ≤ (remoteExec G.conditions c d r).2.2.calls := by
    intro c d r
    rcases remoteExec_left (K := G.conditions) c d r with h | h <;> rw [h] <;>
      exact Nat.le_succ _
  rcases state_cases (redis G.conditions)
    (System.start G.db G.remote fun i => (G.tasks i).prog G.env) G.schedule n with ⟨-, hs⟩ | hs
  · exact le_of_eq (congrArg (fun s => s.outside.calls) hs).symm
  · change (redis G.conditions).Step (G.state n) (G.schedule n) (G.state (n + 1)) at hs
    generalize G.state (n + 1) = t at hs ⊢
    cases hs with
    | call | commit => exact hexec
    | close | abort => exact le_rfl

theorem now_mono (hclock : Monotone G.conditions.clock) (hmn : m ≤ n) : G.now m ≤ G.now n :=
  hclock (monotone_nat_of_le_succ (f := fun n => (G.state n).outside.calls) calls_le hmn)

/-- The calls of a query come after it has started: no lock stops them. -/
theorem Asks.le {c : Call} {a : ℕ} (h : G.Asks i c l) (hc : c.ofQuery = true)
    (hnew : ((G.state a).thread i).trace = []) : a ≤ l := by
  by_contra hla
  obtain ⟨rfl, hnext⟩ := h
  have hcommits : (redis G.conditions).commits c = false :=
    (siblings G.conditions).aside_commits c hc
  obtain ⟨kont, -, hs⟩ := state_call (E := redis G.conditions) hnext hcommits
    ((siblings G.conditions).aside_writes c _ {} _ hc).2
  have htold : (⟨c, ((redis G.conditions).answer (G.state l) (G.schedule l) c).1⟩ :
      Answered Call Call.Resp) ∈ ((G.state (l + 1)).thread (G.schedule l)).trace := by
    unfold state
    rw [hs, called_thread_self]
    exact List.mem_append_right _ (List.mem_singleton.mpr rfl)
  have hlater := state_trace_mem (not_le.mp hla) htold
  change _ ∈ ((G.state a).thread (G.schedule l)).trace at hlater
  rw [hnew] at hlater
  exact List.not_mem_nil hlater

/-- **Bounded staleness.** Where a query stores within `δ` what it reads, whatever
else fails: a query that starts `PROFILE_TTL_SECONDS` and `δ` after an instant
answers the role, the status and the name of a row committed since. -/
theorem stale_no_longer (hclock : Monotone G.conditions.clock)
    (hstart : G.remote.outside.cache = []) {δ : Time}
    (hfills : ∀ u v k m, G.Filled u v k m → G.now m ≤ G.now k + δ) {q : Query}
    (hq : G.tasks i = .query q) {a b : ℕ} (hba : b < a)
    (hlate : G.now b + δ + seconds profileTtlSeconds ≤ G.now a)
    (hnew : ((G.state a).thread i).trace = []) {p : Profile}
    (hret : ((G.state n).thread i).prog = .ret (.profile p)) :
    ∃ k, b < k ∧ k < n ∧ (G.state k).db.facts q.userId = some p.facts := by
  cases profile_sourced hq hret with
  | @row k v hk hread =>
    have hak : a ≤ k := hread.1.le rfl hnew
    refine ⟨k, by omega, hk, ?_⟩
    rw [Db.facts, hread.2]
    rfl
  | @entry k m l v hfilled hml hl hasks hintime =>
    have hal : a ≤ l := hasks.le rfl hnew
    have hak : G.now b < G.now k := by
      refine lt_of_add_lt_add_right (a := δ + seconds profileTtlSeconds) ?_
      calc G.now b + (δ + seconds profileTtlSeconds)
          = G.now b + δ + seconds profileTtlSeconds := (add_assoc _ _ _).symm
        _ ≤ G.now a := hlate
        _ ≤ G.now l := now_mono hclock hal
        _ < G.now m + seconds profileTtlSeconds := hintime
        _ ≤ G.now k + δ + seconds profileTtlSeconds :=
          Int.add_le_add_right (hfills _ _ _ _ hfilled) _
        _ = G.now k + (δ + seconds profileTtlSeconds) := add_assoc _ _ _
    refine ⟨k, ?_, by have := hfilled.before; omega, ?_⟩
    · by_contra hkb
      exact absurd (now_mono hclock (not_lt.mp hkb)) (not_le.mpr hak)
    · rw [Db.facts, hfilled.read.2]
      rfl
  | old _ _ hold _ =>
    rw [hstart] at hold
    cases hold

end Degraded

/-! ### A suspension that Redis does not hear of -/

/-- A query fills the cache, the account is suspended, the invalidation and the
event are lost; a second query starts 1000 s later. -/
def unheardSuspension : Degraded (Fin 3) where
  env := plainEnv
  conditions :=
    { clock n := seconds (if n < 11 then n else 1000 + n)
      fault n := if n < 9 then .answered else .lost }
  tasks i := if i = 1 then .command suspend else .query (.getUserById ⟨7⟩)
  db := activeAccount
  remote := {}
  schedule n := if n < 3 then 0 else if n < 11 then 1 else 2

/-- Does the instant store nothing, or what was read within `δ`? -/
def Degraded.fillsWithin {ι : Type} [Fintype ι] [DecidableEq ι] (G : Degraded ι) (δ : Time)
    (m : ℕ) : Bool :=
  match G.next m (G.schedule m) with
  | some (.cacheSet _) =>
    (List.range m).all fun k => G.schedule k ≠ G.schedule m || decide (G.now m ≤ G.now k + δ)
  | _ => true

theorem Degraded.fills_of_within {ι : Type} [Fintype ι] [DecidableEq ι] {G : Degraded ι} {δ : Time}
    (h : ∀ m, G.fillsWithin δ m = true) {u : Uuid} {v : User} {k m : ℕ} (hf : G.Filled u v k m) :
    G.now m ≤ G.now k + δ := by
  have hm := h m
  rw [fillsWithin, hf.stores] at hm
  have hk := List.all_eq_true.mp hm k (List.mem_range.mpr hf.before)
  simpa [hf.read.1.1] using hk

theorem stale_no_longer_suspended : ∃ k, 8 < k ∧ k < 14 ∧
    (unheardSuspension.state k).db.facts 7 = some ⟨.user, .suspended, none⟩ := by
  have hwithin : ∀ m, unheardSuspension.fillsWithin (seconds 100) m = true := by
    intro m
    by_cases hm : m < 14
    · have hall : ∀ m : Fin 14, unheardSuspension.fillsWithin (seconds 100) m = true := by
        decide +kernel
      exact hall ⟨m, hm⟩
    · have hended : ((unheardSuspension.state 14).thread 2).prog.ended = true := by decide +kernel
      have hsched : unheardSuspension.schedule m = 2 := by
        simp only [unheardSuspension]
        rw [if_neg (by omega), if_neg (by omega)]
      have hnext : unheardSuspension.next m 2 = none := next_eq_none_of_ended (not_lt.mp hm) hended
      rw [Degraded.fillsWithin, hsched, hnext]
  have hclock : Monotone unheardSuspension.conditions.clock := by
    intro m n hmn
    have hle : (if m < 11 then (m : ℤ) else 1000 + m) ≤ if n < 11 then (n : ℤ) else 1000 + n := by
      split_ifs <;> omega
    exact Int.mul_le_mul_of_nonneg_right hle (by decide)
  have hout : ((unheardSuspension.state 14).thread 2).prog.outcome =
      some (.ok (.profile ⟨7, "+22507000001", none, .user, .suspended, none⟩)) := by
    decide +kernel
  exact Degraded.stale_no_longer (G := unheardSuspension) (i := 2) (q := .getUserById ⟨7⟩)
    (a := 11) (b := 8) hclock rfl (fun _ _ _ _ hf => Degraded.fills_of_within hwithin hf) rfl
    (by decide) (by decide +kernel) (by decide +kernel) (Prog.outcome_eq_ok.mp hout)

end DiddiFreeID
