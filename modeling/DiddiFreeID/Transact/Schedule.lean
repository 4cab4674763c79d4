/-
# Schedules

A schedule says for every instant which request may take a step; a step that
cannot be taken is skipped. `Engine.state` is the state at an instant, so
what happened when can be said with two numbers, and what is lasting in a
request (its end, a phase that no call leaves) lasts from one instant to all
later ones.

Key definitions: `Thread.next`, `Engine.state`.
Key theorems: `reach_state`, `state_cases`, `phase_stable`.
-/
import DiddiFreeID.Transact.System

namespace Transact

variable {C : Type} {R : C → Type} {ε α D X W K ι : Type}

/-- The call a request makes next. -/
def Thread.next (t : Thread C R ε α W) : Option C :=
  match t.prog with
  | .call c _ => some c
  | _ => none

theorem Thread.next_eq_some {t : Thread C R ε α W} {c : C} :
    t.next = some c ↔ ∃ k, t.prog = .call c k := by
  unfold next
  cases t.prog with
  | ret a => simp
  | raise e => simp
  | call c' k =>
    constructor
    · intro h
      obtain rfl : c' = c := Option.some.inj h
      exact ⟨k, rfl⟩
    · rintro ⟨k', hk⟩
      cases hk
      rfl

namespace Engine

variable [DecidableEq ι] [Fintype ι] [DecidableEq K]
variable (E : Engine C R D X W K) (s₀ : System C R ε α D X W ι) (sched : ℕ → ι)

/-- The state at an instant of the schedule. -/
def state : ℕ → System C R ε α D X W ι
  | 0 => s₀
  | n + 1 => (E.step (state n) (sched n)).getD (state n)

variable {E s₀ sched} {n m : ℕ} {i : ι}

variable (E s₀ sched) in
/-- The step of an instant is skipped or taken. -/
theorem state_cases (n : ℕ) :
    (E.step (E.state s₀ sched n) (sched n) = none ∧
      E.state s₀ sched (n + 1) = E.state s₀ sched n) ∨
    E.Step (E.state s₀ sched n) (sched n) (E.state s₀ sched (n + 1)) := by
  have hsucc : E.state s₀ sched (n + 1) =
      (E.step (E.state s₀ sched n) (sched n)).getD (E.state s₀ sched n) := rfl
  cases hs : E.step (E.state s₀ sched n) (sched n) with
  | none => exact .inl ⟨rfl, by rw [hsucc, hs, Option.getD_none]⟩
  | some s =>
    rw [hs, Option.getD_some] at hsucc
    rw [hsucc]
    exact .inr (step_cases E hs)

/-- Every state of a schedule is reached. -/
theorem reach_state (n : ℕ) : E.Reach Any s₀ (E.state s₀ sched n) := by
  induction n with
  | zero => exact .init
  | succ n ih =>
    have hsucc : E.state s₀ sched (n + 1) =
        (E.step (E.state s₀ sched n) (sched n)).getD (E.state s₀ sched n) := rfl
    cases hs : E.step (E.state s₀ sched n) (sched n) with
    | none =>
      rw [hsucc, hs, Option.getD_none]
      exact ih
    | some s =>
      rw [hsucc, hs, Option.getD_some]
      exact .step (sched n) ih trivial hs

/-- A commit is never skipped. -/
theorem state_commit {c : C} (h : ((E.state s₀ sched n).thread (sched n)).next = some c)
    (hc : E.commits c = true) : ∃ k, ((E.state s₀ sched n).thread (sched n)).prog = .call c k ∧
      E.state s₀ sched (n + 1) = E.committed (E.state s₀ sched n) (sched n) c k := by
  obtain ⟨k, hk⟩ := Thread.next_eq_some.mp h
  have hs : E.step (E.state s₀ sched n) (sched n) =
      some (E.committed (E.state s₀ sched n) (sched n) c k) := by
    simp [step, hk, hc]
  exact ⟨k, hk, by rw [state, hs, Option.getD_some]⟩

/-- Nor is a call that writes nothing: no lock stops it. -/
theorem state_call {c : C} (h : ((E.state s₀ sched n).thread (sched n)).next = some c)
    (hc : E.commits c = false) (hw : (E.answer (E.state s₀ sched n) (sched n) c).2.1 = []) :
    ∃ k, ((E.state s₀ sched n).thread (sched n)).prog = .call c k ∧
      E.state s₀ sched (n + 1) = E.called (E.state s₀ sched n) (sched n) c k := by
  obtain ⟨k, hk⟩ := Thread.next_eq_some.mp h
  have hs : E.step (E.state s₀ sched n) (sched n) =
      some (E.called (E.state s₀ sched n) (sched n) c k) := by
    simp [step, hk, hc, hw, free_nil]
  exact ⟨k, hk, by rw [state, hs, Option.getD_some]⟩

/-- A request that is not scheduled stays as it is. -/
theorem state_thread_ne (h : i ≠ sched n) :
    (E.state s₀ sched (n + 1)).thread i = (E.state s₀ sched n).thread i := by
  rcases state_cases E s₀ sched n with ⟨-, hs⟩ | hs
  · rw [hs]
  · exact hs.thread_ne h

/-- What every step keeps lasts. -/
theorem state_stable {P : System C R ε α D X W ι → Prop}
    (hstep : ∀ n s', P (E.state s₀ sched n) → E.Step (E.state s₀ sched n) (sched n) s' → P s')
    (hmn : m ≤ n) (h : P (E.state s₀ sched m)) : P (E.state s₀ sched n) := by
  induction n, hmn using Nat.le_induction with
  | base => exact h
  | succ n _ ih =>
    rcases state_cases E s₀ sched n with ⟨-, hs⟩ | hs
    · rw [hs]
      exact ih
    · exact hstep n _ ih hs

/-- An ended request makes no call any more. -/
theorem next_eq_none_of_ended (hmn : m ≤ n)
    (h : ((E.state s₀ sched m).thread i).prog.ended = true) :
    ((E.state s₀ sched n).thread i).next = none := by
  have hend : ((E.state s₀ sched n).thread i).prog.ended = true := by
    refine state_stable (P := fun s => (s.thread i).prog.ended = true) (fun n s' hp hs => ?_) hmn h
    by_cases hi : i = sched n
    · rw [← hi] at hs
      cases hs with
      | call hc | commit hc =>
        rw [hc] at hp
        cases hp
      | close | abort => simpa using hp
    · cases hs with
      | call | commit | close | abort => simpa [hi] using hp
  unfold Thread.next
  generalize ((E.state s₀ sched n).thread i).prog = p at hend
  cases p with
  | call c k => cases hend
  | _ => rfl

section Start

variable {d : D} {x : X} {progs : ι → Prog C R ε α}

/-- A request that has made no call is at its start. -/
theorem thread_of_trace_nil
    (h : ((E.state (System.start d x progs) sched n).thread i).trace = []) :
    (E.state (System.start d x progs) sched n).thread i = ⟨progs i, [], []⟩ := by
  have hreach : E.Reach Any (System.start d x progs) (E.state (System.start d x progs) sched n) :=
    reach_state n
  refine hreach.invariant
    (P := fun s => (s.thread i).trace = [] → s.thread i = ⟨progs i, [], []⟩) (fun _ => rfl)
    (fun s s' j _ ih _ hs htrace => ?_) h
  by_cases hi : i = j
  · subst hi
    cases hs with
    | call | commit => simp at htrace
    | close | abort =>
      have hold := ih (by simpa using htrace)
      simp [hold]
  · cases hs with
    | call | commit | close | abort => simpa [hi] using ih (by simpa [hi] using htrace)

variable {G : ι → Type} {M : ∀ i, Monitor C R ε α (G i)} {g : ∀ i, G i}

theorem state_follows (hf : ∀ i, (progs i).Follows (M i) (g i)) (n : ℕ) (i : ι) :
    ((E.state (System.start d x progs) sched n).thread i).prog.Follows (M i)
      (phase M g (E.state (System.start d x progs) sched n) i) :=
  (reach_state n).follows hf i

/-- A kind of phase that no call leaves lasts. -/
theorem phase_stable (hf : ∀ i, (progs i).Follows (M i) (g i)) {P : G i → Prop}
    (hP : ∀ p c r, (M i).may p c → P p → P ((M i).next p c r)) (hmn : m ≤ n)
    (h : P (phase M g (E.state (System.start d x progs) sched m) i)) :
    P (phase M g (E.state (System.start d x progs) sched n) i) := by
  refine state_stable (P := fun s => P (phase M g s i)) (fun n s' hp hs => ?_) hmn h
  exact hs.phase_stable (state_follows hf n i) (fun c r => hP _ c r) hp

end Start
end Engine
end Transact
