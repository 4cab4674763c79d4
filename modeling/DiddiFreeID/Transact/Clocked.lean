/-
# Systems with a clock

The time of a request is when its calls are made, not one time for all of
them. `Clocked` is a system of requests beside a clock that goes on between
any two steps; a step is answered by the engine of its instant, and the
history keeps which request made which call when.

Key definitions: `Clocked`, `Clocked.Reach`.
Key theorems: `Clocked.Reach.invariant`, `Clocked.Reach.follows`, `Clocked.Reach.time_le`.
-/
import DiddiFreeID.Transact.Schedule

namespace Transact

/-- A call that a request made at a time. -/
structure Stamped (C ι : Type) where
  time : ℤ
  request : ι
  call : C
  deriving DecidableEq

/-- The requests, the clock, and the calls made so far. -/
structure Clocked (C : Type) (R : C → Type) (ε α D X W ι : Type) where
  system : System C R ε α D X W ι
  clock : ℤ
  history : List (Stamped C ι) := []

namespace Clocked

variable {C : Type} {R : C → Type} {ε α D X W K ι : Type}

section Steps

variable (s : Clocked C R ε α D X W ι)

/-- The clock has gone on to `t`. -/
def advance (t : ℤ) : Clocked C R ε α D X W ι := { s with clock := t }

/-- Request `i` has taken a step now, to `s'`. -/
def stepped (i : ι) (s' : System C R ε α D X W ι) : Clocked C R ε α D X W ι :=
  { s with
    system := s'
    history := s.history ++ (s.system.thread i).next.toList.map fun c => ⟨s.clock, i, c⟩ }

@[simp] theorem advance_system (t : ℤ) : (s.advance t).system = s.system := rfl

@[simp] theorem advance_clock (t : ℤ) : (s.advance t).clock = t := rfl

@[simp] theorem advance_history (t : ℤ) : (s.advance t).history = s.history := rfl

@[simp] theorem stepped_system (i : ι) (s' : System C R ε α D X W ι) :
    (s.stepped i s').system = s' := rfl

@[simp] theorem stepped_clock (i : ι) (s' : System C R ε α D X W ι) :
    (s.stepped i s').clock = s.clock := rfl

/-- The history after a call. -/
theorem stepped_call {i : ι} {s' : System C R ε α D X W ι} {c : C} {k : R c → Prog C R ε α}
    (h : (s.system.thread i).prog = .call c k) :
    (s.stepped i s').history = s.history ++ [⟨s.clock, i, c⟩] := by
  simp only [stepped, Thread.next_eq_some.mpr ⟨k, h⟩, Option.toList_some, List.map_cons, List.map_nil]

/-- The end of a session is no call. -/
theorem stepped_ended {i : ι} {s' : System C R ε α D X W ι}
    (h : (s.system.thread i).prog.ended = true) : (s.stepped i s').history = s.history := by
  have hnext : (s.system.thread i).next = none := by
    unfold Thread.next
    cases hp : (s.system.thread i).prog with
    | ret | raise => rfl
    | call =>
      rw [hp] at h
      cases h
  simp only [stepped, hnext, Option.toList_none, List.map_nil, List.append_nil]

end Steps

variable [DecidableEq ι] [Fintype ι] [DecidableEq K] (E : ℤ → Engine C R D X W K)

/-- What a run reaches in which the clock never goes back and the steps meet
`ok`, a condition on the state before the step and the request that takes it. -/
inductive Reach (ok : Clocked C R ε α D X W ι → ι → Prop) (s₀ : Clocked C R ε α D X W ι) :
    Clocked C R ε α D X W ι → Prop
  | init : Reach ok s₀ s₀
  | tick {s : Clocked C R ε α D X W ι} (t : ℤ) : Reach ok s₀ s → s.clock ≤ t →
      Reach ok s₀ (s.advance t)
  | step {s : Clocked C R ε α D X W ι} {s' : System C R ε α D X W ι} (i : ι) : Reach ok s₀ s →
      ok s i → (E s.clock).step s.system i = some s' → Reach ok s₀ (s.stepped i s')

/-- The clock moves, or a request takes a step. -/
inductive Event (ι : Type)
  | tick (t : ℤ)
  | step (i : ι)

/-- The state a list of events leads to, if the clock never goes back, every
step can be taken and meets `ok`. -/
def follow (ok : Clocked C R ε α D X W ι → ι → Prop) [∀ s i, Decidable (ok s i)]
    (s : Clocked C R ε α D X W ι) : List (Event ι) → Option (Clocked C R ε α D X W ι)
  | [] => some s
  | .tick t :: es => if s.clock ≤ t then follow ok (s.advance t) es else none
  | .step i :: es =>
    if ok s i then
      ((E s.clock).step s.system i).bind fun s' => follow ok (s.stepped i s') es
    else none

variable {E} {ok : Clocked C R ε α D X W ι → ι → Prop} {s₀ s s' : Clocked C R ε α D X W ι}

theorem Reach.trans (h : Reach E ok s₀ s) (h' : Reach E ok s s') : Reach E ok s₀ s' := by
  induction h' with
  | init => exact h
  | tick t _ ht ih => exact .tick t ih ht
  | step i _ ho hs ih => exact .step i ih ho hs

theorem reach_of_follow [∀ s i, Decidable (ok s i)] : ∀ {es : List (Event ι)}
    {s s' : Clocked C R ε α D X W ι}, follow E ok s es = some s' → Reach E ok s s'
  | [], _, _, h => by
    cases h
    exact .init
  | .tick t :: es, s, s', h => by
    unfold follow at h
    split_ifs at h with ht
    exact (Reach.tick t .init ht).trans (reach_of_follow h)
  | .step i :: es, s, s', h => by
    unfold follow at h
    split_ifs at h with ho
    obtain ⟨s₁, hs, h⟩ := Option.bind_eq_some_iff.mp h
    exact (Reach.step i .init ho hs).trans (reach_of_follow h)

/-- What time and every step keep holds in every reached state. -/
theorem Reach.invariant {P : Clocked C R ε α D X W ι → Prop} (h : Reach E ok s₀ s) (h0 : P s₀)
    (htick : ∀ s t, Reach E ok s₀ s → P s → s.clock ≤ t → P (s.advance t))
    (hstep : ∀ s s' i, Reach E ok s₀ s → P s → ok s i → (E s.clock).Step s.system i s' →
      P (s.stepped i s')) : P s := by
  induction h with
  | init => exact h0
  | tick t hr ht ih => exact htick _ t hr ih ht
  | step i hr ho hs ih => exact hstep _ _ i hr ih ho (Engine.step_cases _ hs)

/-- The calls of a run were made by now. -/
theorem Reach.time_le (h : Reach E ok s₀ s) (h0 : ∀ a ∈ s₀.history, a.time ≤ s₀.clock) :
    ∀ a ∈ s.history, a.time ≤ s.clock := by
  refine h.invariant (P := fun s => ∀ a ∈ s.history, a.time ≤ s.clock) h0
    (fun s t _ ih ht a ha => (ih a ha).trans ht) (fun s s' i _ ih _ _ a ha => ?_)
  rcases List.mem_append.mp ha with ha | ha
  · exact ih a ha
  · obtain ⟨c, -, rfl⟩ := List.mem_map.mp ha
    exact le_rfl

/-- What is left of a program follows its monitor, whatever the time. -/
theorem Reach.follows {G : ι → Type} {M : ∀ i, Monitor C R ε α (G i)} {g : ∀ i, G i} {d : D} {x : X}
    {t : ℤ} {progs : ι → Prog C R ε α}
    (h : Reach E ok { system := System.start d x progs, clock := t } s)
    (hf : ∀ i, (progs i).Follows (M i) (g i)) (i : ι) :
    (s.system.thread i).prog.Follows (M i) (Engine.phase M g s.system i) :=
  h.invariant (P := fun s => ∀ i, (s.system.thread i).prog.Follows (M i) (Engine.phase M g s.system i))
    hf (fun _ _ _ ih _ => ih) (fun _ _ _ _ ih _ hs i => hs.follows (ih i)) i

end Clocked

end Transact
