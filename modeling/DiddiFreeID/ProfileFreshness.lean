/-
# Fresh profiles

A query that misses the cache reads the row and then stores it; a command
that commits in between and drops the entry is overtaken by the store, and
the old profile stays (`stale_profile`). Facts about an account are `Recent`
if they are those of a committed row after which every save is by a request
that has yet to drop the entry. Where every store into the cache is recent,
so is every entry (`Cached.recent`), and a query that starts after a command
has returned answers nothing older than what the command committed
(`fresh_profile`).

Key definitions: `Facts`, `Interleaving.Recent`, `Interleaving.FillsRecent`.
Key theorems: `cached_recent`, `fresh_profile`.
-/
import DiddiFreeID.Aftermath
import Mathlib.Data.Fintype.Fin

namespace DiddiFreeID

open Transact Engine

/-- What a profile says that commands on the account change. -/
structure Facts where
  role : UserRole
  status : UserStatus
  fullName : Option String
  deriving DecidableEq

def User.facts (u : User) : Facts := ⟨u.role, u.status, u.fullName⟩

def CachedUser.facts (c : CachedUser) : Facts := ⟨c.role, c.status, c.fullName⟩

def Profile.facts (p : Profile) : Facts := ⟨p.role, p.status, p.fullName⟩

def Db.facts (d : Db) (u : Uuid) : Option Facts := (d.findById u).map User.facts

/-- An entry that is there after a call is the one it stored, or was there
before and was not dropped. -/
theorem exec_cache {c : Call} {d : Db} {x : Outside} {u : Uuid} {e : CachedUser}
    (h : (exec c d x).2.2.cache.lookup u = some e) :
    (∃ v, c = .cacheSet v ∧ v.id = u ∧ e = .ofUser v) ∨
      (x.cache.lookup u = some e ∧ c ≠ .invalidateUser u) := by
  cases c with
  | cacheSet v =>
    change (x.setUser v).cache.lookup u = some e at h
    rw [Outside.lookup_setUser] at h
    split_ifs at h with hu
    · exact .inl ⟨v, rfl, hu.symm, (Option.some.inj h).symm⟩
    · exact .inr ⟨h, by simp⟩
  | invalidateUser id =>
    change (x.invalidateUser id).cache.lookup u = some e at h
    rw [Outside.lookup_invalidateUser] at h
    split_ifs at h with hu
    exact .inr ⟨h, fun he => hu (Call.invalidateUser.inj he).symm⟩
  | registerAttempt id =>
    refine .inr ⟨?_, by simp⟩
    simp only [exec] at h
    cases ho : d.nextAttempt id <;> simpa [ho] using h
  | _ => exact .inr ⟨h, by simp⟩

namespace Interleaving

variable {ι : Type} [Fintype ι] [DecidableEq ι] (I : Interleaving ι)

/-- At the instant `n`, `f` are facts of a committed row of `u`, and whoever
has saved the account since has yet to drop its entry. -/
def Recent (u : Uuid) (f : Facts) (n : ℕ) : Prop :=
  ∃ m ≤ n, (I.state m).db.facts u = some f ∧ ∀ b, m ≤ b → b < n → I.Saves b u →
    I.next n (I.schedule b) = some (.invalidateUser u)

/-- Every profile that is stored in the cache is recent. -/
def FillsRecent : Prop :=
  ∀ n v, I.next n (I.schedule n) = some (.cacheSet v) → I.Recent v.id v.facts n

/-- What the cache holds at the start is what the rows say. -/
def CacheAgrees : Prop :=
  ∀ u c, I.outside.cache.lookup u = some c → I.db.facts u = some c.facts

variable {I} {n m : ℕ} {i : ι} {u : Uuid} {f : Facts}

theorem next_of_ne (h : i ≠ I.schedule n) : I.next (n + 1) i = I.next n i := by
  unfold next state
  rw [state_thread_ne h]

/-- Facts stay recent until the entry of the account is dropped. -/
theorem Recent.succ (h : I.Recent u f n)
    (hdrop : I.next n (I.schedule n) ≠ some (.invalidateUser u)) : I.Recent u f (n + 1) := by
  obtain ⟨m, hm, hf, hsaves⟩ := h
  refine ⟨m, by omega, hf, fun b hmb hb hs => ?_⟩
  rcases Nat.lt_succ_iff_lt_or_eq.mp hb with hlt | rfl
  · have hold := hsaves b hmb hlt hs
    rw [next_of_ne fun he => hdrop (he ▸ hold), hold]
  · exact next_of_committed hs.committed

/-- An entry that is there after an instant was stored at it, or was there
before and was not dropped. -/
theorem cache_succ {e : CachedUser}
    (h : (I.state (n + 1)).outside.cache.lookup u = some e) :
    (∃ v, I.next n (I.schedule n) = some (.cacheSet v) ∧ v.id = u ∧ e = .ofUser v) ∨
      ((I.state n).outside.cache.lookup u = some e ∧
        I.next n (I.schedule n) ≠ some (.invalidateUser u)) := by
  by_cases hdrop : I.next n (I.schedule n) = some (.invalidateUser u)
  · obtain ⟨k, -, hs⟩ := state_call (E := store) hdrop rfl rfl
    have hgone : (I.state (n + 1)).outside.cache.lookup u = none := by
      unfold state
      rw [hs]
      exact (Outside.lookup_invalidateUser _ u u).trans (if_pos rfl)
    rw [hgone] at h
    cases h
  rcases I.stepped n with hs | hs
  · rw [hs] at h
    exact .inr ⟨h, hdrop⟩
  · generalize I.state (n + 1) = s' at hs h
    cases hs with
    | @call c k hc _ _ =>
      have hnext : I.next n (I.schedule n) = some c := Thread.next_eq_some.mpr ⟨k, hc⟩
      rcases exec_cache h with ⟨v, rfl, hv, he⟩ | ⟨hold, -⟩
      · exact .inl ⟨v, hnext, hv, he⟩
      · exact .inr ⟨hold, hdrop⟩
    | @commit c k hc hcommit =>
      obtain rfl := commits_iff.mp hcommit
      exact .inr ⟨h, hdrop⟩
    | close | abort => exact .inr ⟨h, hdrop⟩

/-- **Run.** Every entry is recent. -/
theorem cached_recent (hstart : I.CacheAgrees) (hfills : I.FillsRecent) {e : CachedUser}
    (h : (I.state n).outside.cache.lookup u = some e) : I.Recent u e.facts n := by
  induction n with
  | zero => exact ⟨0, le_rfl, hstart u e h, fun b _ hb => absurd hb (Nat.not_lt_zero b)⟩
  | succ n ih =>
    rcases cache_succ h with ⟨v, hv, rfl, rfl⟩ | ⟨hold, hdrop⟩
    · exact (hfills n v hv).succ (by rw [hv]; simp)
    · exact (ih hold).succ hdrop

end Interleaving

/-! ### A query in flight -/

/-- What a query does with the row it read. -/
def afterRead : Option User → Cmd Response
  | none => .raise (.api userNotFound)
  | some user => .call (.cacheSet user) fun _ => .ret (.profile (profilePayload user))

/-- What it does with the entry it got. -/
def afterGet (u : Uuid) : Option User → Cmd Response
  | some cached => .ret (.profile (profilePayload cached))
  | none => .call (.findById u) afterRead

theorem GetUserById.call_eq (u : Uuid) : call ⟨u⟩ = .call (.cacheGet u) (afterGet u) := by
  unfold call
  rw [cachedUser_bind]
  congr 1

/-- Where a query for `u` can be, if what it has read so far is `P`. -/
inductive Asking (u : Uuid) (P : Facts → Prop) : Cmd Response → Prop
  | start : Asking u P (.call (.cacheGet u) (afterGet u))
  | missed : Asking u P (.call (.findById u) afterRead)
  | read {v : User} : P v.facts →
      Asking u P (.call (.cacheSet v) fun _ => .ret (.profile (profilePayload v)))
  | answered {p : Profile} : P p.facts → Asking u P (.ret (.profile p))
  | unknown : Asking u P (.raise (.api userNotFound))

namespace Asking

variable {u : Uuid} {P P' : Facts → Prop} {p : Cmd Response}

theorem mono (h : Asking u P p) (hP : ∀ f, P f → P' f) : Asking u P' p := by
  cases h with
  | start => exact .start
  | missed => exact .missed
  | read hv => exact .read (hP _ hv)
  | answered hp => exact .answered (hP _ hp)
  | unknown => exact .unknown

/-- A query writes nothing; what it reads next comes from the entry or from
the row. -/
theorem call {c : Call} {k : c.Resp → Cmd Response} (h : Asking u P (.call c k)) {d : Db}
    {x : Outside} (hentry : ∀ e, x.cache.lookup u = some e → P e.facts)
    (hrow : ∀ f, d.facts u = some f → P f) :
    c ≠ .commit ∧ (exec c d x).2.1 = [] ∧ Asking u P (k (exec c d x).1) := by
  cases h with
  | start =>
    refine ⟨by simp, rfl, ?_⟩
    change Asking u P (afterGet u ((x.cache.lookup u).map CachedUser.toUser))
    cases he : x.cache.lookup u with
    | none => exact .missed
    | some e => exact .answered (hentry e he)
  | missed =>
    refine ⟨by simp, rfl, ?_⟩
    change Asking u P (afterRead (d.findById u))
    cases hu : d.findById u with
    | none => exact .unknown
    | some v => exact .read (hrow _ (by rw [Db.facts, hu]; rfl))
  | read hv => exact ⟨by simp, rfl, .answered hv⟩

end Asking

namespace Interleaving

variable {ι : Type} [Fintype ι] [DecidableEq ι] {I : Interleaving ι}
variable {a b n : ℕ} {i : ι} {u : Uuid}

/-- Facts of a row committed after the instant `b`. -/
def SeenSince (I : Interleaving ι) (u : Uuid) (b n : ℕ) (f : Facts) : Prop :=
  ∃ m, b < m ∧ m ≤ n ∧ (I.state m).db.facts u = some f

/-- Once a request that saved the account has ended, recent facts are no older
than its save. -/
theorem Recent.since {f : Facts} (h : I.Recent u f n) (hsaves : I.Saves b u) (hbn : b < n)
    (hended : I.next n (I.schedule b) = none) : I.SeenSince u b n f := by
  obtain ⟨m, hm, hf, hlater⟩ := h
  refine ⟨m, ?_, hm, hf⟩
  by_contra hmb
  have hdrop := hlater b (by omega) hbn hsaves
  rw [hended] at hdrop
  cases hdrop

/-- **Run.** A query that starts after the request of a save has ended reads
only facts since that save. -/
theorem asking (hstart : I.CacheAgrees) (hfills : I.FillsRecent) {q : Query}
    (hq : I.tasks i = .query q) (hsaves : I.Saves b q.userId)
    (hended : ((I.state a).thread (I.schedule b)).prog.ended = true)
    (hnew : ((I.state a).thread i).trace = []) (han : a ≤ n) :
    Asking q.userId (I.SeenSince q.userId b n) ((I.state n).thread i).prog ∧
      ((I.state n).thread i).log = [] := by
  have hba : b < a := by
    by_contra hab
    have hnone := next_of_ended hended (not_lt.mp hab)
    rw [hsaves.1] at hnone
    cases hnone
  induction n, han using Nat.le_induction with
  | base =>
    have hthread := thread_of_trace_nil hnew
    change (I.state a).thread i = _ at hthread
    rw [hthread, hq]
    refine ⟨?_, rfl⟩
    rw [Task.prog, q.prog_eq, GetUserById.call_eq]
    exact .start
  | succ n han ih =>
    obtain ⟨hask, hlog⟩ := ih
    have hmono : ∀ f, I.SeenSince q.userId b n f → I.SeenSince q.userId b (n + 1) f :=
      fun f ⟨m, hbm, hmn, hf⟩ => ⟨m, hbm, by omega, hf⟩
    rcases I.stepped n with hs | hs
    · rw [hs]
      exact ⟨hask.mono hmono, hlog⟩
    by_cases hi : i = I.schedule n
    · rw [← hi] at hs
      have hentry : ∀ e, (I.state n).outside.cache.lookup q.userId = some e →
          I.SeenSince q.userId b n e.facts := fun e he =>
        (cached_recent hstart hfills he).since hsaves (by omega) (next_of_ended hended han)
      have hrow : ∀ f, (I.state n).db.facts q.userId = some f → I.SeenSince q.userId b n f :=
        fun f hf => ⟨n, by omega, le_rfl, hf⟩
      generalize I.state (n + 1) = s' at hs ⊢
      cases hs with
      | call hp =>
        rw [hp] at hask
        obtain ⟨-, hw, hnext⟩ := hask.call (d := (I.state n).db) hentry hrow
        have hanswer : ∀ c, store.answer (I.state n) i c =
            exec c (I.state n).db (I.state n).outside := fun c => by
          rw [answer, hlog, view_nil, store_exec]
        rw [called_thread_self, hanswer, hlog, hw]
        exact ⟨hnext.mono hmono, rfl⟩
      | commit hp hc =>
        rw [hp] at hask
        exact absurd (commits_iff.mp hc) (hask.call (d := (I.state n).db) hentry hrow).1
      | close =>
        rw [closed_thread_self]
        exact ⟨hask.mono hmono, rfl⟩
      | abort =>
        rw [rolledBack_thread_self]
        exact ⟨hask.mono hmono, rfl⟩
    · have hthread : (I.state (n + 1)).thread i = (I.state n).thread i := state_thread_ne hi
      rw [hthread]
      exact ⟨hask.mono hmono, hlog⟩

/-- **Fresh profiles.** Where every profile stored in the cache is recent, a
query that starts after the request that committed a save of the account has
ended answers the role, the status and the name of a row committed since. -/
theorem fresh_profile (hstart : I.CacheAgrees) (hfills : I.FillsRecent) {q : Query}
    (hq : I.tasks i = .query q) (hsaves : I.Saves b q.userId)
    (hended : ((I.state a).thread (I.schedule b)).prog.ended = true)
    (hnew : ((I.state a).thread i).trace = []) {p : Profile}
    (hret : ((I.state n).thread i).prog = .ret (.profile p)) :
    ∃ m, b < m ∧ m ≤ n ∧ (I.state m).db.facts q.userId = some p.facts := by
  have han : a ≤ n := by
    by_contra hna
    have hnone : I.next a i = none := next_of_ended (by rw [hret]; rfl) (not_le.mp hna).le
    have hthread := thread_of_trace_nil hnew
    change (I.state a).thread i = _ at hthread
    rw [next, Thread.next, hthread, hq, Task.prog, q.prog_eq, GetUserById.call_eq] at hnone
    cases hnone
  have hask := (asking hstart hfills hq hsaves hended hnew han).1
  rw [hret] at hask
  cases hask with
  | answered hp => exact hp

/-- A profile that is what the row says is recent. -/
theorem recent_of_facts {f : Facts} (h : (I.state n).db.facts u = some f) : I.Recent u f n :=
  ⟨n, le_rfl, h, fun _ hn hb => absurd hb (not_lt.mpr hn)⟩

/-- Does the instant store nothing, or what the row says? -/
def fillsCurrent (I : Interleaving ι) (n : ℕ) : Bool :=
  match I.next n (I.schedule n) with
  | some (.cacheSet v) => decide ((I.state n).db.facts v.id = some v.facts)
  | _ => true

theorem fillsRecent_of_current (h : ∀ n, I.fillsCurrent n = true) : I.FillsRecent := by
  intro n v hv
  have hn := h n
  rw [fillsCurrent, hv] at hn
  exact recent_of_facts (of_decide_eq_true hn)

end Interleaving

/-! ### The race -/

/-- An active account. -/
def activeAccount : Db := { users := [{ id := 7, phone := "+22507000001", status := .active }] }

/-- An admin suspends it. -/
def suspend : Request := .changeStatus ⟨7, "suspended", none, some 1, 5⟩

/-- The suspension, then a query. -/
def suspendThenAsk : Interleaving (Fin 2) where
  env := plainEnv
  tasks i := if i = 0 then .command suspend else .query (.getUserById ⟨7⟩)
  onAccounts i := by
    split_ifs
    · trivial
    · trivial
  db := activeAccount
  outside := {}
  schedule n := if n < 8 then 0 else 1

theorem fresh_profile_suspended : ∃ m, 5 < m ∧ m ≤ 11 ∧
    (suspendThenAsk.state m).db.facts 7 = some ⟨.user, .suspended, none⟩ := by
  have hfills : suspendThenAsk.FillsRecent := by
    refine Interleaving.fillsRecent_of_current fun n => ?_
    by_cases hn : n < 11
    · have hall : ∀ n : Fin 11, suspendThenAsk.fillsCurrent n = true := by decide +kernel
      exact hall ⟨n, hn⟩
    · have hended : ((suspendThenAsk.state 11).thread 1).prog.ended = true := by decide +kernel
      have hsched : suspendThenAsk.schedule n = 1 := if_neg (by omega)
      rw [Interleaving.fillsCurrent, hsched, Interleaving.next_of_ended hended (not_lt.mp hn)]
  have hout : ((suspendThenAsk.state 11).thread 1).prog.outcome =
      some (.ok (.profile ⟨7, "+22507000001", none, .user, .suspended, none⟩)) := by
    decide +kernel
  refine Interleaving.fresh_profile (I := suspendThenAsk) (a := 8) (b := 5) (i := 1)
    (q := .getUserById ⟨7⟩) (fun u c h => (nomatch h)) hfills rfl
    (by decide +kernel) (by decide +kernel) (by decide +kernel) (Prog.outcome_eq_ok.mp hout)

/-- A query reads the row; the suspension runs through; the query stores what
it read; a second query starts. -/
def suspendWhileAsking : Interleaving (Fin 3) where
  env := plainEnv
  tasks i := if i = 1 then .command suspend else .query (.getUserById ⟨7⟩)
  onAccounts i := by
    split_ifs
    · trivial
    · trivial
  db := activeAccount
  outside := {}
  schedule n := if n < 2 then 0 else if n < 10 then 1 else if n < 11 then 0 else 2

/-- **A stale profile.** The suspension is committed at the instant 7 and
answered by the instant 10, where the second query has not started; it
answers `active`, which no row says after the commit. -/
theorem stale_profile :
    suspendWhileAsking.CacheAgrees ∧ suspendWhileAsking.Saves 7 7 ∧
    suspendWhileAsking.schedule 7 = 1 ∧
    ((suspendWhileAsking.state 10).thread 1).prog.ended = true ∧
    ((suspendWhileAsking.state 10).thread 2).trace = [] ∧
    ((suspendWhileAsking.state 12).thread 2).prog.outcome =
      some (.ok (.profile ⟨7, "+22507000001", none, .user, .active, none⟩)) ∧
    ∀ m : Fin 13, 7 < m → (suspendWhileAsking.state m).db.facts 7 =
      some ⟨.user, .suspended, none⟩ := by
  exact ⟨fun u c h => (nomatch h), by decide +kernel, rfl, by decide +kernel,
    by decide +kernel, by decide +kernel, by decide +kernel⟩

end DiddiFreeID
