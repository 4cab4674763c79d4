/-
# Locks in order

`Engine.step` lets a call write once all its rows are free. A database locks them one by
one, and a statement keeps those it has while it waits for the next (`Engine.lockStep`).
Nothing is reached that way but what is reached with the locks taken at once
(`LockReach.system`), except that requests may wait for each other, and a cycle of such
waits would last for good. None closes where every program takes its locks in ascending
order (`ascending`), every call those of its own (`locks`), apart from calls that find
nobody in their way: a lock that is waited for is below the one its holder waits for
(`WaitsFor.climbs`), and the highest of them has a holder that goes on. So where no
request can take a step all of them are done (`LockReach.done_of_stuck`). A step leaves
less to do (`lockStep_left`); on a schedule that gives every request its turn again and
again all of them end (`all_done`).

Key definitions: `Locking`, `Engine.lockStep`, `ascending`, `WaitsFor`, `Fair`.
Key theorems: `LockReach.system`, `LockReach.done_of_stuck`, `all_done`.
-/
import DiddiFreeID.Transact.Schedule
import Mathlib.Data.DFinsupp.WellFounded
import Mathlib.Data.Finset.Max
import Mathlib.SetTheory.Ordinal.Family

namespace Transact

variable {C : Type} {R : C → Type} {ε α D X W K ι : Type}

/-- Requests that lock one row at a time: the locks that each of them holds are those of
its uncommitted writes and those that its next call has taken so far. -/
structure Locking (C : Type) (R : C → Type) (ε α D X W K ι : Type) where
  system : System C R ε α D X W ι
  held : ι → List K

/-- The requests at their start, without a lock. -/
def Locking.start (d : D) (x : X) (progs : ι → Prog C R ε α) : Locking C R ε α D X W K ι :=
  ⟨System.start d x progs, fun _ => []⟩

namespace Locking

variable [DecidableEq ι] (s : Locking C R ε α D X W K ι) (t : System C R ε α D X W ι) (i : ι) (key : K)

/-- Request `i` has one more lock. -/
def take : Locking C R ε α D X W K ι :=
  { s with held := Function.update s.held i (s.held i ++ [key]) }

/-- Request `i` has released its locks. -/
def release : Locking C R ε α D X W K ι := ⟨t, Function.update s.held i []⟩

@[simp] theorem take_system : (s.take i key).system = s.system := rfl

@[simp] theorem take_held_self : (s.take i key).held i = s.held i ++ [key] := Function.update_self ..

@[simp] theorem release_system : (s.release t i).system = t := rfl

@[simp] theorem release_held_self : (s.release t i).held i = [] := Function.update_self ..

end Locking

/-- Every request gets its turn again and again. -/
def Fair (sched : ℕ → ι) : Prop := ∀ i n, ∃ m ≥ n, sched m = i

namespace Engine

variable (E : Engine C R D X W K) (locks : C → List K)

/-- The lock that a call takes next. -/
def wanted [DecidableEq K] (held : List K) (c : C) : Option K :=
  (locks c).find? fun key => key ∉ held

variable [DecidableEq ι] [Fintype ι] [DecidableEq K]

/-- One step of request `i`: its next call takes a lock that nobody holds, or is made once
it has all of them; the end of a transaction releases them. -/
def lockStep (s : Locking C R ε α D X W K ι) (i : ι) : Option (Locking C R ε α D X W K ι) :=
  match (s.system.thread i).prog with
  | .call c _ =>
    if E.commits c then (E.step s.system i).map fun t => s.release t i
    else
      match wanted locks (s.held i) c with
      | some key => if ∀ j, j ≠ i → key ∉ s.held j then some (s.take i key) else none
      | none => (E.step s.system i).map fun t => { s with system := t }
  | _ =>
    match E.step s.system i with
    | some t => some (s.release t i)
    | none => if (s.held i).isEmpty then none else some (s.release s.system i)

/-- The steps as a relation. -/
inductive LockStep (s : Locking C R ε α D X W K ι) (i : ι) : Locking C R ε α D X W K ι → Prop
  | lock {c k key} : (s.system.thread i).prog = .call c k →
      wanted locks (s.held i) c = some key → (∀ j, j ≠ i → key ∉ s.held j) →
      LockStep s i (s.take i key)
  | call {c k t} : (s.system.thread i).prog = .call c k → E.commits c = false →
      wanted locks (s.held i) c = none → E.step s.system i = some t →
      LockStep s i { s with system := t }
  | commit {c k t} : (s.system.thread i).prog = .call c k → E.commits c = true →
      E.step s.system i = some t → LockStep s i (s.release t i)
  | finish {t} : (s.system.thread i).prog.ended = true → E.step s.system i = some t →
      LockStep s i (s.release t i)
  | release : (s.system.thread i).prog.ended = true → E.step s.system i = none →
      s.held i ≠ [] → LockStep s i (s.release s.system i)

/-- What some schedule reaches. -/
inductive LockReach (s₀ : Locking C R ε α D X W K ι) : Locking C R ε α D X W K ι → Prop
  | init : LockReach s₀ s₀
  | step {s s' : Locking C R ε α D X W K ι} (i : ι) : LockReach s₀ s →
      E.lockStep locks s i = some s' → LockReach s₀ s'

/-- The state at an instant of the schedule. -/
def lockState (s₀ : Locking C R ε α D X W K ι) (sched : ℕ → ι) : ℕ → Locking C R ε α D X W K ι
  | 0 => s₀
  | n + 1 => (E.lockStep locks (lockState s₀ sched n) (sched n)).getD (lockState s₀ sched n)

variable {E locks} {s s' s₀ : Locking C R ε α D X W K ι} {i j : ι}

theorem lockStep_cases (h : E.lockStep locks s i = some s') : E.LockStep locks s i s' := by
  unfold lockStep at h
  cases hp : (s.system.thread i).prog with
  | call c k =>
    rw [hp] at h
    dsimp only at h
    by_cases hc : E.commits c = true
    · rw [if_pos hc] at h
      obtain ⟨t, ht, rfl⟩ := Option.map_eq_some_iff.mp h
      exact .commit hp hc ht
    · rw [if_neg hc] at h
      cases hw : wanted locks (s.held i) c with
      | some key =>
        rw [hw] at h
        dsimp only at h
        split_ifs at h with hfree
        obtain rfl := Option.some.inj h
        exact .lock hp hw hfree
      | none =>
        rw [hw] at h
        obtain ⟨t, ht, rfl⟩ := Option.map_eq_some_iff.mp h
        exact .call hp (Bool.not_eq_true _ ▸ hc) hw ht
  | ret a | raise a =>
    rw [hp] at h
    have hend : (s.system.thread i).prog.ended = true := by rw [hp]; rfl
    cases hs : E.step s.system i with
    | some t =>
      rw [hs] at h
      obtain rfl := Option.some.inj h
      exact .finish hend hs
    | none =>
      rw [hs] at h
      dsimp only at h
      split_ifs at h with hheld
      obtain rfl := Option.some.inj h
      exact .release hend hs (by simpa using hheld)

theorem lockReach_state (sched : ℕ → ι) (n : ℕ) :
    E.LockReach locks s₀ (E.lockState locks s₀ sched n) := by
  induction n with
  | zero => exact .init
  | succ n ih =>
    cases hs : E.lockStep locks (E.lockState locks s₀ sched n) (sched n) with
    | none =>
      rw [lockState, hs, Option.getD_none]
      exact ih
    | some s' =>
      rw [lockState, hs, Option.getD_some]
      exact .step (sched n) ih hs

/-- A step is one of the system whose calls lock at once, or leaves that as it is. -/
theorem LockStep.system (h : E.LockStep locks s i s') :
    E.step s.system i = some s'.system ∨ s'.system = s.system := by
  cases h with
  | lock | release => exact .inr rfl
  | call _ _ _ hs | commit _ _ hs | finish _ hs => exact .inl hs

theorem LockStep.thread_ne (h : E.LockStep locks s i s') (hj : j ≠ i) :
    s'.system.thread j = s.system.thread j := by
  rcases h.system with hs | hs
  · exact (E.step_cases hs).thread_ne hj
  · rw [hs]

theorem LockStep.held_ne (h : E.LockStep locks s i s') (hj : j ≠ i) : s'.held j = s.held j := by
  cases h with
  | call => rfl
  | lock | commit | finish | release => exact Function.update_of_ne hj _ _

/-- **One by one.** What is reached with the locks taken one at a time is reached with
those of a call taken at once. -/
theorem LockReach.system (h : E.LockReach locks s₀ s) : E.Reach Any s₀.system s.system := by
  induction h with
  | init => exact .init
  | step i _ hs ih =>
    rcases (lockStep_cases hs).system with hs | hs
    · exact .step i ih trivial hs
    · rw [hs]
      exact ih

/-! ### What is held -/

/-- The monitor of programs that take locks in ascending order. Its phase is what the
calls since the last commit may have locked; a call that `waits` asks for locks above all
of these, or for one that it has. -/
def ascending (E : Engine C R D X W K) (rank : K → ℕ) (locks : C → List K) (waits : C → Bool) :
    Monitor C R ε α (List K) where
  next g c _ := if E.commits c = true then [] else g ++ locks c
  may g c := waits c = true → ∀ k ∈ locks c, ∀ k' ∈ g, k' = k ∨ rank k' < rank k
  mayRet _ _ := True
  mayRaise _ _ := True

/-- What the calls of request `i` since its last commit may have locked. -/
abbrev mayHold (E : Engine C R D X W K) (rank : K → ℕ) (locks : C → List K) (waits : C → Bool)
    (s : System C R ε α D X W ι) (i : ι) : List K :=
  phase (fun _ => E.ascending rank locks waits) (fun _ => []) s i

variable {rank : K → ℕ} {waits : C → Bool}

/-- What a call has taken comes before what it waits for. -/
def Taking (locks : C → List K) (s : Locking C R ε α D X W K ι) (i : ι) (key : K) : Prop :=
  ∃ c k l l', (s.system.thread i).prog = .call c k ∧ locks c = l ++ l' ∧
    (∀ key ∈ l, key ∈ s.held i) ∧ key ∈ l

variable (E rank locks waits) in
/-- What every state reached keeps of the locks. -/
structure Holding (s : Locking C R ε α D X W K ι) : Prop where
  exclusive : ∀ i j, i ≠ j → ∀ key ∈ s.held i, key ∉ s.held j
  log : ∀ i, ∀ w ∈ (s.system.thread i).log, ∀ key ∈ E.keys w, key ∈ s.held i
  taken : ∀ i, ∀ key ∈ s.held i, key ∈ E.mayHold rank locks waits s.system i ∨ Taking locks s i key

theorem wanted_eq_some {held : List K} {c : C} {key : K} (h : wanted locks held c = some key) :
    key ∉ held ∧ ∃ l l', locks c = l ++ key :: l' ∧ ∀ key ∈ l, key ∈ held := by
  obtain ⟨hkey, l, l', hl, hall⟩ := List.find?_eq_some_iff_append.mp h
  exact ⟨by simpa using hkey, l, l', hl, fun k hk => by simpa using hall k hk⟩

theorem wanted_eq_none {held : List K} {c : C} :
    wanted locks held c = none ↔ ∀ key ∈ locks c, key ∈ held := by
  simp [wanted, List.find?_eq_none]

/-- A lock that is taken has no other holder, and no holder is added otherwise. -/
theorem LockStep.exclusive (h : E.LockStep locks s i s')
    (hold : ∀ i j, i ≠ j → ∀ key ∈ s.held i, key ∉ s.held j) :
    ∀ a b, a ≠ b → ∀ key ∈ s'.held a, key ∉ s'.held b := by
  -- the locks of `i` are its own afterwards too
  have hmine : ∀ b, b ≠ i → ∀ key ∈ s'.held i, key ∉ s.held b := by
    intro b hb key hkey
    cases h with
    | lock _ hw hfree =>
      rw [Locking.take_held_self] at hkey
      rcases List.mem_append.mp hkey with hkey | hkey
      · exact hold i b hb.symm key hkey
      · rw [List.mem_singleton.mp hkey]
        exact hfree b hb
    | call => exact hold i b hb.symm key hkey
    | commit | finish | release =>
      rw [Locking.release_held_self] at hkey
      cases hkey
  intro a b hab key hkey hkey'
  by_cases ha : a = i
  · subst ha
    rw [h.held_ne hab.symm] at hkey'
    exact hmine b hab.symm key hkey hkey'
  · rw [h.held_ne ha] at hkey
    by_cases hb : b = i
    · subst hb
      exact hmine a ha key hkey' hkey
    · rw [h.held_ne hb] at hkey'
      exact hold a b hab key hkey hkey'

/-- The end of a transaction leaves no write. -/
theorem log_nil_of_step {s s' : System C R ε α D X W ι} (hs : E.step s i = some s')
    (hend : ∀ c k, (s.thread i).prog = .call c k → E.commits c = true) :
    (s'.thread i).log = [] := by
  cases E.step_cases hs with
  | call hp hc =>
    rw [hend _ _ hp] at hc
    cases hc
  | commit | close | abort => simp

theorem log_nil_of_stuck {s : System C R ε α D X W ι} (hs : E.step s i = none)
    (hend : (s.thread i).prog.ended = true) : (s.thread i).log = [] := by
  unfold step at hs
  cases hp : (s.thread i).prog with
  | call c k =>
    rw [hp] at hend
    cases hend
  | ret a | raise a =>
    rw [hp] at hs
    dsimp only at hs
    split_ifs at hs with hlog
    exact List.isEmpty_iff.mp hlog

/-- A request holds the locks of its writes. -/
theorem LockStep.log (hlocks : ∀ c d x, ∀ w ∈ (E.exec c d x).2.1, E.keys w ⊆ locks c)
    (h : E.LockStep locks s i s')
    (hold : ∀ i, ∀ w ∈ (s.system.thread i).log, ∀ key ∈ E.keys w, key ∈ s.held i) :
    ∀ a, ∀ w ∈ (s'.system.thread a).log, ∀ key ∈ E.keys w, key ∈ s'.held a := by
  intro a w hw key hkey
  by_cases ha : a = i
  · subst ha
    cases h with
    | lock =>
      rw [Locking.take_held_self]
      exact List.mem_append_left _ (hold a w hw key hkey)
    | @call c k t hp hc hnone hs =>
      rw [(E.step_cases hs).eq_called hp hc, called_thread_self] at hw
      rcases List.mem_append.mp hw with hw | hw
      · exact hold a w hw key hkey
      · exact wanted_eq_none.mp hnone key (hlocks c _ _ w hw hkey)
    | commit hp hc hs =>
      rw [Locking.release_system,
        log_nil_of_step hs fun c k hp' => by rw [hp] at hp'; cases hp'; exact hc] at hw
      cases hw
    | finish hend hs =>
      rw [Locking.release_system,
        log_nil_of_step hs fun c k hp => by rw [hp] at hend; cases hend] at hw
      cases hw
    | release hend hs =>
      rw [Locking.release_system, log_nil_of_stuck hs hend] at hw
      cases hw
  · rw [h.thread_ne ha] at hw
    rw [h.held_ne ha]
    exact hold a w hw key hkey

/-- What a request holds, its calls have locked, or the next one has so far. -/
theorem LockStep.taken (h : E.LockStep locks s i s')
    (hold : ∀ i, ∀ key ∈ s.held i,
      key ∈ E.mayHold rank locks waits s.system i ∨ Taking locks s i key) :
    ∀ a, ∀ key ∈ s'.held a,
      key ∈ E.mayHold rank locks waits s'.system a ∨ Taking locks s' a key := by
  intro a key hkey
  by_cases ha : a = i
  · subst ha
    cases h with
    | @lock c k new hp hw =>
      obtain ⟨-, l, l', hl, hall⟩ := wanted_eq_some hw
      rw [Locking.take_held_self] at hkey
      have hmore : ∀ key ∈ s.held a, key ∈ (s.take a new).held a := by
        intro key hkey
        rw [Locking.take_held_self]
        exact List.mem_append_left _ hkey
      rcases List.mem_append.mp hkey with hkey | hkey
      · refine (hold a key hkey).imp_right ?_
        rintro ⟨c', k', l₁, l₂, hp', hl', hall', hin⟩
        exact ⟨c', k', l₁, l₂, hp', hl', fun key hkey => hmore key (hall' key hkey), hin⟩
      · refine .inr ⟨c, k, l ++ [new], l', hp, by rw [hl]; simp, fun key hkey => ?_,
          List.mem_append_right _ hkey⟩
        rcases List.mem_append.mp hkey with hkey | hkey
        · exact hmore key (hall key hkey)
        · rw [Locking.take_held_self]
          exact List.mem_append_right _ hkey
    | @call c k t hp hc _ hs =>
      left
      have hphase : E.mayHold rank locks waits t a =
          E.mayHold rank locks waits s.system a ++ locks c := by
        rw [mayHold, (E.step_cases hs).eq_called hp hc, phase_called_self]
        exact if_neg (by simp [hc])
      rw [hphase]
      rcases hold a key hkey with hin | ⟨c', k', l, l', hp', hl, -, hin⟩
      · exact List.mem_append_left _ hin
      · rw [hp] at hp'
        cases hp'
        exact List.mem_append_right _ (hl ▸ List.mem_append_left _ hin)
    | commit | finish | release =>
      rw [Locking.release_held_self] at hkey
      cases hkey
  · rw [h.held_ne ha] at hkey
    have hthread := h.thread_ne ha
    refine (hold a key hkey).imp (fun hin => ?_) ?_
    · rwa [mayHold, phase, hthread]
    · rintro ⟨c, k, l, l', hp, hl, hall, hin⟩
      exact ⟨c, k, l, l', hthread ▸ hp, hl, h.held_ne ha ▸ hall, hin⟩

/-! ### Waiting -/

/-- Request `i` waits for request `j` to release the lock. -/
structure WaitsFor (locks : C → List K) (s : Locking C R ε α D X W K ι) (i j : ι) (key : K) :
    Prop where
  ne : j ≠ i
  asks : ∃ c k, (s.system.thread i).prog = .call c k ∧ wanted locks (s.held i) c = some key
  held : key ∈ s.held j

/-- A request that has ended and holds a lock has still to release it. -/
theorem lockStep_of_held (hend : (s.system.thread i).prog.ended = true) (hheld : s.held i ≠ []) :
    E.lockStep locks s i ≠ none := by
  unfold lockStep
  cases hp : (s.system.thread i).prog with
  | call c k =>
    rw [hp] at hend
    cases hend
  | ret a | raise a =>
    cases E.step s.system i with
    | some t => simp
    | none => simpa using hheld

section Order

variable {d : D} {x : X} {progs : ι → Prog C R ε α}

-- A call takes the locks of its writes.
variable (hlocks : ∀ c d x, ∀ w ∈ (E.exec c d x).2.1, E.keys w ⊆ locks c)

include hlocks

variable (rank waits) in
theorem LockReach.holding (h : E.LockReach locks (Locking.start d x progs) s) :
    Holding E locks rank waits s := by
  induction h with
  | init =>
    exact ⟨fun i j _ key hkey => absurd hkey List.not_mem_nil,
      fun i w hw => absurd hw List.not_mem_nil, fun i key hkey => absurd hkey List.not_mem_nil⟩
  | step i _ hs ih =>
    have hstep := lockStep_cases hs
    exact ⟨hstep.exclusive ih.exclusive, hstep.log hlocks ih.log, hstep.taken ih.taken⟩

/-- A lock that is held was asked for, by a call that has been answered or by the next. -/
theorem LockReach.held_cases (h : E.LockReach locks (Locking.start d x progs) s) {key : K}
    (hkey : key ∈ s.held i) : (∃ a ∈ (s.system.thread i).trace, key ∈ locks a.1) ∨
      ∃ c k, (s.system.thread i).prog = .call c k ∧ key ∈ locks c := by
  rcases (h.holding (fun _ => 0) (fun _ => true) hlocks).taken i key hkey with
    hin | ⟨c, k, l, l', hp, hl, -, hin⟩
  · left
    rw [mayHold, phase] at hin
    generalize (s.system.thread i).trace = trace at hin
    induction trace using List.reverseRecOn with
    | nil => cases hin
    | append_singleton trace a ih =>
      rw [Monitor.phase_snoc] at hin
      simp only [ascending] at hin
      split_ifs at hin
      · cases hin
      · rcases List.mem_append.mp hin with hin | hin
        · obtain ⟨b, hb, hkey⟩ := ih hin
          exact ⟨b, List.mem_append_left _ hb, hkey⟩
        · exact ⟨a, List.mem_append_right _ (List.mem_singleton_self a), hin⟩
  · exact .inr ⟨c, k, hp, hl ▸ List.mem_append_left _ hin⟩

/-- A request that cannot take a step is done and holds no lock, or waits. -/
theorem Holding.done_or_waitsFor (h : Holding E locks rank waits s)
    (hstuck : E.lockStep locks s i = none) :
    ((∃ o, Done s.system i o) ∧ s.held i = []) ∨ ∃ j key, WaitsFor locks s i j key := by
  cases hp : (s.system.thread i).prog with
  | call c k =>
    right
    unfold lockStep at hstuck
    rw [hp] at hstuck
    dsimp only at hstuck
    by_cases hc : E.commits c = true
    · rw [if_pos hc] at hstuck
      simp [step, hp, hc] at hstuck
    · rw [if_neg hc] at hstuck
      cases hw : wanted locks (s.held i) c with
      | some key =>
        rw [hw] at hstuck
        dsimp only at hstuck
        split_ifs at hstuck with hfree
        push Not at hfree
        obtain ⟨j, hj, hheld⟩ := hfree
        exact ⟨j, key, hj, ⟨c, k, hp, hw⟩, hheld⟩
      | none =>
        -- with all its locks nothing stops a call
        rw [hw] at hstuck
        have hfree : ∀ j, j ≠ i → E.Free (E.answer s.system i c).2.1 (s.system.thread j).log := by
          intro j hj w hwrite w' hw' key hkey hkey'
          have hmine := wanted_eq_none.mp hw key (hlocks c _ _ w hwrite hkey)
          exact h.exclusive i j hj.symm key hmine (h.log j w' hw' key hkey')
        have hstep : E.step s.system i = some (E.called s.system i c k) := by
          unfold step
          rw [hp]
          dsimp only
          rw [if_neg hc, if_pos hfree]
        rw [hstep] at hstuck
        cases hstuck
  | ret a | raise a =>
    left
    have hend : (s.system.thread i).prog.ended = true := by rw [hp]; rfl
    have hnone : s.held i = [] := by
      by_contra hheld
      exact lockStep_of_held hend hheld hstuck
    refine ⟨⟨_, by rw [hp]; rfl, ?_⟩, hnone⟩
    -- a write that locks no row is no reason to wait
    unfold lockStep at hstuck
    rw [hp] at hstuck
    dsimp only at hstuck
    cases hs : E.step s.system i with
    | some t =>
      rw [hs] at hstuck
      cases hstuck
    | none => exact log_nil_of_stuck hs hend

/-! ### No cycle -/

-- A call takes its locks in ascending order, and so does a program its calls; those that
-- need not wait find their locks free.
variable (h : E.LockReach locks (Locking.start d x progs) s)
  (hsorted : ∀ c, (locks c).Pairwise fun k k' => k = k' ∨ rank k < rank k')
  (hf : ∀ i, (progs i).Follows (E.ascending rank locks waits) [])
  (hfree : ∀ i c k, (s.system.thread i).prog = .call c k → waits c = false →
    ∀ j, j ≠ i → ∀ key ∈ locks c, key ∉ s.held j)

include h hsorted hf hfree

/-- A lock that is waited for is below the one its holder waits for. -/
theorem WaitsFor.climbs {l : ι} {key key' : K} (hw : WaitsFor locks s i j key)
    (hw' : WaitsFor locks s j l key') : rank key < rank key' := by
  have hholding := h.holding rank waits hlocks
  obtain ⟨c, k, hp, hwant⟩ := hw'.asks
  obtain ⟨hnot, l₁, l₂, hl, hall⟩ := wanted_eq_some hwant
  have hin : key' ∈ locks c := hl ▸ List.mem_append_right _ List.mem_cons_self
  have hne : key ≠ key' := by
    rintro rfl
    exact hnot hw.held
  rcases hholding.taken j key hw.held with hphase | ⟨c', k', l, l', hp', hl', hheld, htaken⟩
  · cases hwaits : waits c with
    | false => exact absurd hw'.held (hfree j c k hp hwaits l hw'.ne key' hin)
    | true =>
      have hfj := h.system.follows (M := fun _ => E.ascending rank locks waits)
        (g := fun _ => []) hf j
      rw [hp] at hfj
      exact (hfj.1 hwaits key' hin key hphase).resolve_left hne
  · -- its own call has taken the one and waits for the other
    rw [hp] at hp'
    cases hp'
    have hpairs := hsorted c
    rw [hl', List.pairwise_append] at hpairs
    have hlater : key' ∈ l' := by
      rw [hl'] at hin
      exact (List.mem_append.mp hin).resolve_left fun hl => hnot (hheld key' hl)
    exact (hpairs.2.2 key htaken key' hlater).resolve_left hne

/-- **No deadlock.** Where no request can take a step, all are done, and no lock is held. -/
theorem LockReach.done_of_stuck (hstuck : ∀ i, E.lockStep locks s i = none) (i : ι) :
    (∃ o, Done s.system i o) ∧ s.held i = [] := by
  classical
  have hcases := fun i => (h.holding rank waits hlocks).done_or_waitsFor hlocks (hstuck i)
  by_contra hnot
  let waiting := Finset.univ.filter fun i => ∃ j key, WaitsFor locks s i j key
  have hi : i ∈ waiting := Finset.mem_filter.mpr ⟨Finset.mem_univ _, (hcases i).resolve_left hnot⟩
  obtain ⟨-, key₀, -⟩ := (Finset.mem_filter.mp hi).2
  have : Nonempty K := ⟨key₀⟩
  have hchoice : ∀ i, i ∈ waiting → ∃ j key, WaitsFor locks s i j key := fun i hi =>
    (Finset.mem_filter.mp hi).2
  choose! holder key hholds using hchoice
  -- of those that wait, one waits for the highest lock
  obtain ⟨m, hm, hmax⟩ := waiting.exists_max_image (fun i => rank (key i)) ⟨i, hi⟩
  have hw := hholds m hm
  have hholder : holder m ∈ waiting := by
    refine Finset.mem_filter.mpr ⟨Finset.mem_univ _, (hcases (holder m)).resolve_left fun hdone => ?_⟩
    have hheld := hw.held
    rw [hdone.2] at hheld
    cases hheld
  have hle := hmax (holder m) hholder
  exact absurd hle (not_le.mpr (hw.climbs hlocks h hsorted hf hfree (hholds _ hholder)))

end Order

end Engine

/-! ### The end -/

/-- The height of the tree. -/
noncomputable def Prog.height : Prog C R ε α → Ordinal.{0}
  | .call _ k => ⨆ r, Order.succ (k r).height
  | _ => 0

theorem Prog.height_lt {c : C} {k : R c → Prog C R ε α} (r : R c) :
    (k r).height < (call c k).height :=
  (Order.lt_succ _).trans_le (Ordinal.le_iSup (fun r => Order.succ (k r).height) r)

/-- What is left to do: the calls, then the writes to commit or to drop. -/
noncomputable def Thread.left (t : Thread C R ε α W) : Ordinal.{0} ×ₗ ℕ :=
  toLex (t.prog.height, t.log.length)

/-- The locks that request `i` has still to take or to release. -/
def Locking.due [DecidableEq K] (locks : C → List K) (s : Locking C R ε α D X W K ι) (i : ι) : ℕ :=
  match (s.system.thread i).prog with
  | .call c _ => (locks c).countP fun key => key ∉ s.held i
  | _ => (s.held i).length

/-- What is left to do, down to the locks. -/
noncomputable def Locking.left [DecidableEq K] (locks : C → List K) (s : Locking C R ε α D X W K ι)
    (i : ι) : (Ordinal.{0} ×ₗ ℕ) ×ₗ ℕ := toLex ((s.system.thread i).left, s.due locks i)

namespace Engine

variable [DecidableEq ι] [Fintype ι] [DecidableEq K] {E : Engine C R D X W K} {locks : C → List K}
  {s s' s₀ : Locking C R ε α D X W K ι} {i : ι} {sched : ℕ → ι}

/-- A step leaves less to do. -/
theorem step_left {s s' : System C R ε α D X W ι} (h : E.step s i = some s') :
    (s'.thread i).left < (s.thread i).left := by
  unfold step at h
  cases hp : (s.thread i).prog with
  | call c k =>
    rw [hp] at h
    dsimp only at h
    split_ifs at h <;> obtain rfl := Option.some.inj h
    all_goals
      refine Prod.Lex.toLex_lt_toLex.mpr (.inl ?_)
      simp only [committed_thread_self, called_thread_self, hp]
      exact Prog.height_lt _
  | ret a | raise a =>
    rw [hp] at h
    dsimp only at h
    split_ifs at h with hlog
    obtain rfl := Option.some.inj h
    refine Prod.Lex.toLex_lt_toLex.mpr (.inr ⟨by simp, ?_⟩)
    simp only [closed_thread_self, rolledBack_thread_self, List.length_nil]
    exact List.length_pos_iff.mpr fun hnil => hlog (by simp [hnil])

omit [Fintype ι] in
/-- A lock that is taken is one less to take. -/
theorem due_take {c : C} {k : R c → Prog C R ε α} {key : K}
    (hp : (s.system.thread i).prog = .call c k) (hw : wanted locks (s.held i) c = some key) :
    (s.take i key).due locks i < s.due locks i := by
  obtain ⟨hnot, l, l', hl, -⟩ := wanted_eq_some hw
  simp only [Locking.due, Locking.take_system, hp, Locking.take_held_self]
  rw [hl, List.countP_append, List.countP_append, List.countP_cons_of_neg (by simp),
    List.countP_cons_of_pos (by simpa using hnot)]
  have hless : ∀ l : List K, (l.countP fun k => k ∉ s.held i ++ [key]) ≤
      l.countP fun k => k ∉ s.held i := fun l =>
    List.countP_mono_left fun k _ hk => by
      simp only [List.mem_append, not_or, decide_eq_true_eq] at hk ⊢
      exact hk.1
  have := hless l
  have := hless l'
  omega

theorem lockStep_left (h : E.lockStep locks s i = some s') : s'.left locks i < s.left locks i := by
  cases lockStep_cases h with
  | lock hp hw => exact Prod.Lex.toLex_lt_toLex.mpr (.inr ⟨rfl, due_take hp hw⟩)
  | call _ _ _ hs | commit _ _ hs | finish _ hs =>
    exact Prod.Lex.toLex_lt_toLex.mpr (.inl (step_left hs))
  | release hend _ hheld =>
    refine Prod.Lex.toLex_lt_toLex.mpr (.inr ⟨rfl, ?_⟩)
    cases hp : (s.system.thread i).prog with
    | call c k =>
      rw [hp] at hend
      cases hend
    | ret a | raise a =>
      simp only [Locking.due, Locking.release_system, hp, Locking.release_held_self, List.length_nil]
      exact List.length_pos_iff.mpr hheld

/-- The others have as much to do as before. -/
theorem lockStep_left_ne {j : ι} (h : E.lockStep locks s i = some s') (hj : j ≠ i) :
    s'.left locks j = s.left locks j := by
  have hs := lockStep_cases h
  unfold Locking.left Locking.due
  rw [hs.thread_ne hj, hs.held_ne hj]

variable (E locks s₀ sched) in
/-- From some instant on no step is taken any more. -/
theorem exists_settled :
    ∃ n, ∀ m ≥ n, E.lockStep locks (E.lockState locks s₀ sched m) (sched m) = none := by
  let left (n : ℕ) (i : ι) := (E.lockState locks s₀ sched n).left locks i
  have hsucc : ∀ n s', E.lockStep locks (E.lockState locks s₀ sched n) (sched n) = some s' →
      E.lockState locks s₀ sched (n + 1) = s' := fun n s' hs => by
    rw [lockState, hs, Option.getD_some]
  have hstep : ∀ n, (∃ s', E.lockStep locks (E.lockState locks s₀ sched n) (sched n) = some s') →
      left (n + 1) < left n := by
    rintro n ⟨s', hs⟩
    have hless : left (n + 1) (sched n) < left n (sched n) := by
      simp only [left, hsucc n s' hs]
      exact lockStep_left hs
    refine Pi.lt_def.mpr ⟨fun i => ?_, sched n, hless⟩
    by_cases hi : i = sched n
    · subst hi
      exact hless.le
    · simp only [left, hsucc n s' hs]
      exact (lockStep_left_ne hs hi).le
  have hanti : Antitone left := antitone_nat_of_succ_le fun n => by
    cases hs : E.lockStep locks (E.lockState locks s₀ sched n) (sched n) with
    | none => exact le_of_eq (by simp only [left, lockState, hs, Option.getD_none])
    | some s' => exact (hstep n ⟨s', hs⟩).le
  obtain ⟨_, ⟨n, rfl⟩, hmin⟩ := wellFounded_lt.has_min (Set.range left) ⟨_, 0, rfl⟩
  refine ⟨n, fun m hm => ?_⟩
  by_contra hne
  exact hmin _ ⟨m + 1, rfl⟩
    ((hstep m (Option.ne_none_iff_exists'.mp hne)).trans_le (hanti hm))

/-- **The end.** On a fair schedule all requests end and release their locks, if none is
stuck before. -/
theorem all_done (hfair : Fair sched)
    (hstuck : ∀ s, E.LockReach locks s₀ s → (∀ i, E.lockStep locks s i = none) →
      ∀ i, (∃ o, Done s.system i o) ∧ s.held i = []) :
    ∃ n, ∀ i, (∃ o, Done (E.lockState locks s₀ sched n).system i o) ∧
      (E.lockState locks s₀ sched n).held i = [] := by
  obtain ⟨n, hn⟩ := exists_settled E locks s₀ sched
  have hconst : ∀ m ≥ n, E.lockState locks s₀ sched m = E.lockState locks s₀ sched n := by
    intro m hm
    induction m, hm using Nat.le_induction with
    | base => rfl
    | succ m hm ih =>
      rw [lockState, hn m hm, Option.getD_none]
      exact ih
  refine ⟨n, hstuck _ (lockReach_state sched n) fun i => ?_⟩
  obtain ⟨m, hm, rfl⟩ := hfair i n
  rw [← hconst m hm]
  exact hn m hm

end Engine
end Transact
