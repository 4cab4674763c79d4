/-
# Transactions under READ COMMITTED

Any number of programs (`Transact/Program.lean`) share one store. Each runs
in its own transaction: a call reads the committed rows under the request's
own uncommitted writes (`Engine.view`), its writes go to the request's log,
and a write waits as long as another request's log holds a write of the
same row (`Engine.Free`). A commit applies the log to the committed rows; a
program that returns commits what is left, one that raises rolls back.
State outside the database (a cache, an event stream) changes at once and
is never rolled back.

`Engine.step` is one call of one program, so a list of indices is a
schedule at the granularity of calls, `Engine.Reach` is what some schedule
reaches, and `Engine.run` is one program run to completion with nobody
else (`Engine.reach_run`: the same steps).

Key definitions: `Engine`, `System`, `Engine.step`, `Engine.Reach`, `Engine.run`.
Key theorems: `Engine.Reach.follows`, `Engine.reach_run`.
-/
import DiddiFreeID.Transact.Program
import Mathlib.Data.Fintype.Basic

namespace Transact

/-- How the store answers calls. On the rows a request sees and the state
outside, `exec` gives a call's answer, the writes it makes and the state it
leaves outside; `commits` marks the call that ends a transaction; `apply` is
a write's effect on the rows and `keys` are the rows it locks. -/
structure Engine (C : Type) (R : C → Type) (D X W K : Type) where
  exec : (c : C) → D → X → R c × List W × X
  commits : C → Bool
  apply : D → W → D
  keys : W → List K

/-- A request in flight: what is left of its program, its uncommitted
writes, and the calls it has made with their answers. -/
structure Thread (C : Type) (R : C → Type) (ε α W : Type) where
  prog : Prog C R ε α
  log : List W
  trace : List (Answered C R)

/-- The committed rows, the state outside the database, the requests. -/
structure System (C : Type) (R : C → Type) (ε α D X W ι : Type) where
  db : D
  outside : X
  thread : ι → Thread C R ε α W

variable {C : Type} {R : C → Type} {ε α D X W K ι : Type}

/-- The requests `progs` at their start. -/
def System.start (d : D) (x : X) (progs : ι → Prog C R ε α) : System C R ε α D X W ι :=
  ⟨d, x, fun i => ⟨progs i, [], []⟩⟩

namespace Engine

variable (E : Engine C R D X W K)

/-- The rows a request sees: the committed ones under its own writes. -/
def view (d : D) (log : List W) : D := log.foldl E.apply d

@[simp] theorem view_nil (d : D) : E.view d [] = d := rfl

@[simp] theorem view_cons (d : D) (w : W) (log : List W) :
    E.view d (w :: log) = E.view (E.apply d w) log := rfl

theorem view_append (d : D) (l l' : List W) : E.view d (l ++ l') = E.view (E.view d l) l' := by
  simp [view]

/-- The writes `ws` touch no row that a write of `log` holds. -/
def Free (ws log : List W) : Prop := ∀ w ∈ ws, ∀ w' ∈ log, ∀ k ∈ E.keys w, k ∉ E.keys w'

instance [DecidableEq K] (ws log : List W) : Decidable (E.Free ws log) := by
  unfold Free; infer_instance

theorem free_nil (log : List W) : E.Free [] log := fun _ h => absurd h List.not_mem_nil

/-- The answer request `i` gets to the call `c`. -/
def answer (s : System C R ε α D X W ι) (i : ι) (c : C) : R c × List W × X :=
  E.exec c (E.view s.db (s.thread i).log) s.outside

variable [DecidableEq ι]

/-- The state after request `i` made the call `c`. -/
def called (s : System C R ε α D X W ι) (i : ι) (c : C) (k : R c → Prog C R ε α) :
    System C R ε α D X W ι :=
  let a := E.answer s i c
  { s with
    outside := a.2.2
    thread := Function.update s.thread i
      ⟨k a.1, (s.thread i).log ++ a.2.1, (s.thread i).trace ++ [⟨c, a.1⟩]⟩ }

/-- The state after request `i` committed. -/
def committed (s : System C R ε α D X W ι) (i : ι) (c : C) (k : R c → Prog C R ε α) :
    System C R ε α D X W ι :=
  let a := E.answer s i c
  { db := E.view s.db (s.thread i).log
    outside := a.2.2
    thread := Function.update s.thread i ⟨k a.1, [], (s.thread i).trace ++ [⟨c, a.1⟩]⟩ }

/-- The state after the session of the returned request `i` committed what
was left. -/
def closed (s : System C R ε α D X W ι) (i : ι) : System C R ε α D X W ι :=
  { s with
    db := E.view s.db (s.thread i).log
    thread := Function.update s.thread i { s.thread i with log := [] } }

/-- The state after the session of the failed request `i` rolled back. -/
def rolledBack (s : System C R ε α D X W ι) (i : ι) : System C R ε α D X W ι :=
  { s with thread := Function.update s.thread i { s.thread i with log := [] } }

section Fields

variable (s : System C R ε α D X W ι) {i j : ι} (c : C) (k : R c → Prog C R ε α)

@[simp] theorem called_db : (E.called s i c k).db = s.db := rfl

@[simp] theorem called_outside : (E.called s i c k).outside = (E.answer s i c).2.2 := rfl

@[simp] theorem called_thread_self : (E.called s i c k).thread i =
    ⟨k (E.answer s i c).1, (s.thread i).log ++ (E.answer s i c).2.1,
      (s.thread i).trace ++ [⟨c, (E.answer s i c).1⟩]⟩ := by
  simp [called]

@[simp] theorem called_thread_ne (h : j ≠ i) : (E.called s i c k).thread j = s.thread j := by
  simp [called, h]

@[simp] theorem committed_db : (E.committed s i c k).db = E.view s.db (s.thread i).log := rfl

@[simp] theorem committed_outside : (E.committed s i c k).outside = (E.answer s i c).2.2 := rfl

@[simp] theorem committed_thread_self : (E.committed s i c k).thread i =
    ⟨k (E.answer s i c).1, [], (s.thread i).trace ++ [⟨c, (E.answer s i c).1⟩]⟩ := by
  simp [committed]

@[simp] theorem committed_thread_ne (h : j ≠ i) :
    (E.committed s i c k).thread j = s.thread j := by
  simp [committed, h]

@[simp] theorem closed_db : (E.closed s i).db = E.view s.db (s.thread i).log := rfl

@[simp] theorem closed_outside : (E.closed s i).outside = s.outside := rfl

@[simp] theorem closed_thread_self :
    (E.closed s i).thread i = { s.thread i with log := [] } := by
  simp [closed]

@[simp] theorem closed_thread_ne (h : j ≠ i) : (E.closed s i).thread j = s.thread j := by
  simp [closed, h]

@[simp] theorem rolledBack_db : (rolledBack s i).db = s.db := rfl

@[simp] theorem rolledBack_outside : (rolledBack s i).outside = s.outside := rfl

@[simp] theorem rolledBack_thread_self :
    (rolledBack s i).thread i = { s.thread i with log := [] } := by
  simp [rolledBack]

@[simp] theorem rolledBack_thread_ne (h : j ≠ i) : (rolledBack s i).thread j = s.thread j := by
  simp [rolledBack, h]

end Fields

/-- One step of request `i`: its next call, if no lock stops it, or the end
of its session. -/
def step [Fintype ι] [DecidableEq K] (s : System C R ε α D X W ι) (i : ι) :
    Option (System C R ε α D X W ι) :=
  match (s.thread i).prog with
  | .call c k =>
    if E.commits c then some (E.committed s i c k)
    else if ∀ j, j ≠ i → E.Free (E.answer s i c).2.1 (s.thread j).log then
      some (E.called s i c k)
    else none
  | .ret _ => if (s.thread i).log.isEmpty then none else some (E.closed s i)
  | .raise _ => if (s.thread i).log.isEmpty then none else some (rolledBack s i)

/-- The steps as a relation, one constructor for each kind. -/
inductive Step (s : System C R ε α D X W ι) (i : ι) : System C R ε α D X W ι → Prop
  | call {c k} : (s.thread i).prog = .call c k → E.commits c = false →
      (∀ j, j ≠ i → E.Free (E.answer s i c).2.1 (s.thread j).log) → Step s i (E.called s i c k)
  | commit {c k} : (s.thread i).prog = .call c k → E.commits c = true → Step s i (E.committed s i c k)
  | close {a} : (s.thread i).prog = .ret a → Step s i (E.closed s i)
  | abort {e} : (s.thread i).prog = .raise e → Step s i (rolledBack s i)

theorem step_cases [Fintype ι] [DecidableEq K] {s s' : System C R ε α D X W ι} {i : ι}
    (h : E.step s i = some s') : E.Step s i s' := by
  unfold step at h
  split at h
  · rename_i c k hp
    split at h
    · rename_i hc
      cases h
      exact .commit hp hc
    · rename_i hc
      split at h
      · rename_i hf
        cases h
        exact .call hp (by simpa using hc) hf
      · cases h
  · rename_i a hp
    split at h
    · cases h
    · cases h
      exact .close hp
  · rename_i e hp
    split at h
    · cases h
    · cases h
      exact .abort hp

section Next

variable {E} {s s' : System C R ε α D X W ι} {i : ι} {c : C} {k : R c → Prog C R ε α}

/-- The step of a request whose next call is no commit. -/
theorem Step.eq_called (h : E.Step s i s') (hp : (s.thread i).prog = .call c k)
    (hc : E.commits c = false) : s' = E.called s i c k := by
  cases h with
  | call hp' =>
    rw [hp] at hp'
    cases hp'
    rfl
  | commit hp' hc' =>
    rw [hp] at hp'
    cases hp'
    rw [hc] at hc'
    cases hc'
  | close hp' | abort hp' =>
    rw [hp] at hp'
    cases hp'

/-- The step of a request whose next call is a commit. -/
theorem Step.eq_committed (h : E.Step s i s') (hp : (s.thread i).prog = .call c k)
    (hc : E.commits c = true) : s' = E.committed s i c k := by
  cases h with
  | call hp' hc' =>
    rw [hp] at hp'
    cases hp'
    rw [hc] at hc'
    cases hc'
  | commit hp' =>
    rw [hp] at hp'
    cases hp'
    rfl
  | close hp' | abort hp' =>
    rw [hp] at hp'
    cases hp'

end Next

/-! ### Phases -/

section Phases

variable {G : ι → Type} (M : ∀ i, Monitor C R ε α (G i)) (g : ∀ i, G i)

/-- The phase that the trace of request `i` has led to. -/
def phase (s : System C R ε α D X W ι) (i : ι) : G i := (M i).phase (g i) (s.thread i).trace

variable {M g}

@[simp] theorem phase_called_self {i : ι} {c : C} {k : R c → Prog C R ε α} :
    phase M g (E.called s i c k) i = (M i).next (phase M g s i) c (E.answer s i c).1 := by
  simp [phase]

@[simp] theorem phase_called_ne {i j : ι} {c : C} {k : R c → Prog C R ε α} (h : j ≠ i) :
    phase M g (E.called s i c k) j = phase M g s j := by
  simp [phase, h]

@[simp] theorem phase_committed_self {i : ι} {c : C} {k : R c → Prog C R ε α} :
    phase M g (E.committed s i c k) i = (M i).next (phase M g s i) c (E.answer s i c).1 := by
  simp [phase]

@[simp] theorem phase_committed_ne {i j : ι} {c : C} {k : R c → Prog C R ε α} (h : j ≠ i) :
    phase M g (E.committed s i c k) j = phase M g s j := by
  simp [phase, h]

@[simp] theorem phase_closed {i j : ι} : phase M g (E.closed s i) j = phase M g s j := by
  by_cases h : j = i
  · subst h
    simp [phase]
  · simp [phase, h]

@[simp] theorem phase_rolledBack {i j : ι} : phase M g (rolledBack s i) j = phase M g s j := by
  by_cases h : j = i
  · subst h
    simp [phase]
  · simp [phase, h]

end Phases

/-! ### What a step leaves alone -/

section Frame

variable {E} {s s' : System C R ε α D X W ι} {i j : ι}
variable {G : ι → Type} {M : ∀ i, Monitor C R ε α (G i)} {g : ∀ i, G i}

/-- The other requests stay as they are. -/
theorem Step.thread_ne (h : E.Step s i s') (hj : j ≠ i) : s'.thread j = s.thread j := by
  cases h with
  | call | commit | close | abort => simp [hj]

theorem Step.phase_ne (h : E.Step s i s') (hj : j ≠ i) : phase M g s' j = phase M g s j := by
  unfold phase
  rw [h.thread_ne hj]

/-- What its own step does to a request: it has an answer and goes on, or it
has ended and stays where it is. -/
inductive Advance (E : Engine C R D X W K) (s s' : System C R ε α D X W ι) (i : ι) : Prop
  | answered {c : C} {k : R c → Prog C R ε α} : (s.thread i).prog = .call c k →
      (s'.thread i).prog = k (E.answer s i c).1 →
      (s'.thread i).trace = (s.thread i).trace ++ [⟨c, (E.answer s i c).1⟩] → Advance E s s' i
  | finished : (s.thread i).prog.ended = true → (s'.thread i).prog = (s.thread i).prog →
      (s'.thread i).trace = (s.thread i).trace → Advance E s s' i

theorem Step.advance (h : E.Step s i s') : E.Advance s s' i := by
  cases h with
  | call hp | commit hp => exact .answered hp (by simp) (by simp)
  | close hp | abort hp => exact .finished (by rw [hp]; rfl) (by simp) (by simp)

omit [DecidableEq ι] in
theorem phase_of_answer {c : C} {a : R c}
    (h : (s'.thread i).trace = (s.thread i).trace ++ [⟨c, a⟩]) :
    phase M g s' i = (M i).next (phase M g s i) c a := by
  rw [phase, h, Monitor.phase_snoc]
  rfl

omit [DecidableEq ι] in
theorem phase_of_trace (h : (s'.thread i).trace = (s.thread i).trace) :
    phase M g s' i = phase M g s i := by
  rw [phase, h]
  rfl

/-- What is left of a program follows its monitor, whoever takes the step. -/
theorem Step.follows (h : E.Step s i s')
    (hf : (s.thread j).prog.Follows (M j) (phase M g s j)) :
    (s'.thread j).prog.Follows (M j) (phase M g s' j) := by
  by_cases hj : j = i
  · subst hj
    cases h.advance with
    | answered hp hprog htrace =>
      rw [hp] at hf
      rw [hprog, phase_of_answer htrace]
      exact hf.2 _
    | finished _ hprog htrace =>
      rw [hprog, phase_of_trace htrace]
      exact hf
  · rw [h.phase_ne hj, h.thread_ne hj]
    exact hf

/-- A kind of phase that no call of the request leaves lasts. -/
theorem Step.phase_stable (h : E.Step s i s')
    (hf : (s.thread j).prog.Follows (M j) (phase M g s j)) {P : G j → Prop}
    (hP : ∀ c r, (M j).may (phase M g s j) c → P (phase M g s j) →
      P ((M j).next (phase M g s j) c r)) (hp : P (phase M g s j)) : P (phase M g s' j) := by
  by_cases hj : j = i
  · subst hj
    cases h.advance with
    | answered hc _ htrace =>
      rw [hc] at hf
      rw [phase_of_answer htrace]
      exact hP _ _ hf.1 hp
    | finished _ _ htrace => rwa [phase_of_trace htrace]
  · rw [h.phase_ne hj]
    exact hp

end Frame

/-! ### Runs -/

variable [Fintype ι] [DecidableEq K]

/-- What some schedule reaches from `s₀` by steps that meet `ok`, a condition
on the state before the step and the request that takes it. -/
inductive Reach (ok : System C R ε α D X W ι → ι → Prop) (s₀ : System C R ε α D X W ι) :
    System C R ε α D X W ι → Prop
  | init : Reach ok s₀ s₀
  | step {s s' : System C R ε α D X W ι} (i : ι) : Reach ok s₀ s → ok s i →
      E.step s i = some s' → Reach ok s₀ s'

/-- Every schedule. -/
abbrev Any (_ : System C R ε α D X W ι) (_ : ι) : Prop := True

variable {E} {ok ok' : System C R ε α D X W ι → ι → Prop} {s₀ s s' : System C R ε α D X W ι}

theorem Reach.trans (h : E.Reach ok s₀ s) (h' : E.Reach ok s s') : E.Reach ok s₀ s' := by
  induction h' with
  | init => exact h
  | step i _ ho hs ih => exact .step i ih ho hs

theorem Reach.mono (hok : ∀ s i, ok s i → ok' s i) (h : E.Reach ok s₀ s) : E.Reach ok' s₀ s := by
  induction h with
  | init => exact .init
  | step i _ ho hs ih => exact .step i ih (hok _ _ ho) hs

/-- An invariant holds in every reached state. -/
theorem Reach.invariant {P : System C R ε α D X W ι → Prop} (h : E.Reach ok s₀ s) (h0 : P s₀)
    (hstep : ∀ s s' i, E.Reach ok s₀ s → P s → ok s i → E.Step s i s' → P s') : P s := by
  induction h with
  | init => exact h0
  | step i hr ho hs ih => exact hstep _ _ i hr ih ho (E.step_cases hs)

/-- An invariant of every request: what the step of one keeps of itself, and
of the others. -/
theorem Reach.invariant_each {P : ι → System C R ε α D X W ι → Prop} (h : E.Reach ok s₀ s)
    (h0 : ∀ i, P i s₀)
    (hself : ∀ s s' i, E.Reach ok s₀ s → (∀ j, P j s) → ok s i → E.Step s i s' → P i s')
    (hother : ∀ s s' i j, E.Reach ok s₀ s → P j s → ok s i → E.Step s i s' → j ≠ i → P j s')
    (i : ι) : P i s := by
  refine h.invariant (P := fun s => ∀ i, P i s) h0 (fun s s' i hr ih ho hs j => ?_) i
  by_cases hj : j = i
  · subst hj
    exact hself s s' j hr ih ho hs
  · exact hother s s' i j hr (ih j) ho hs hj

/-- The state a schedule leads to, if every step of it can be taken and meets
`ok`. -/
def follow (E : Engine C R D X W K) (ok : System C R ε α D X W ι → ι → Prop)
    [∀ s i, Decidable (ok s i)] (s : System C R ε α D X W ι) :
    List ι → Option (System C R ε α D X W ι)
  | [] => some s
  | i :: is => if ok s i then (E.step s i).bind fun s' => E.follow ok s' is else none

theorem reach_of_follow [∀ s i, Decidable (ok s i)] : ∀ {is : List ι}
    {s s' : System C R ε α D X W ι}, E.follow ok s is = some s' → E.Reach ok s s'
  | [], _, _, h => by cases h; exact .init
  | i :: is, s, s', h => by
    unfold follow at h
    split_ifs at h with ho
    obtain ⟨s₁, hs, h⟩ := Option.bind_eq_some_iff.mp h
    exact (Reach.step i .init ho hs).trans (reach_of_follow h)

section Monitored

variable {G : ι → Type} {M : ∀ i, Monitor C R ε α (G i)} {g : ∀ i, G i} {d : D} {x : X}
  {progs : ι → Prog C R ε α}

/-- Two requests never hold uncommitted writes of one row. -/
theorem Reach.exclusive (h : E.Reach ok (System.start d x progs) s) {i j : ι} (hij : i ≠ j)
    {w w' : W} (hw : w ∈ (s.thread i).log) (hw' : w' ∈ (s.thread j).log) {k : K}
    (hk : k ∈ E.keys w) : k ∉ E.keys w' := by
  refine h.invariant
    (P := fun s => ∀ i j, i ≠ j → E.Free (s.thread i).log (s.thread j).log)
    (fun i j _ => E.free_nil _) (fun s s' l _ ih _ hs i j hij => ?_) i j hij w hw w' hw' k hk
  have hfree : ∀ log, E.Free log [] := fun log w _ w' hw' => absurd hw' List.not_mem_nil
  have hold := ih i j hij
  by_cases hi : i = l
  · subst hi
    cases hs with
    | @call c k hp hc hf =>
      rw [called_thread_self, called_thread_ne _ _ _ _ hij.symm]
      intro w hw w' hw' k hk hk'
      rcases List.mem_append.mp hw with hw | hw
      · exact hold w hw w' hw' k hk hk'
      · exact hf j hij.symm w hw w' hw' k hk hk'
    | commit | close | abort => simp [hij.symm, E.free_nil]
  · by_cases hj : j = l
    · subst hj
      cases hs with
      | @call c k hp hc hf =>
        rw [called_thread_self, called_thread_ne _ _ _ _ hij]
        intro w hw w' hw' k hk hk'
        rcases List.mem_append.mp hw' with hw' | hw'
        · exact hold w hw w' hw' k hk hk'
        · exact hf i hij w' hw' w hw k hk' hk
      | commit | close | abort => simp [hij, hfree]
    · cases hs <;> simpa [hi, hj] using hold

/-- In every reached state what is left of a program follows its monitor
from the phase its trace has led to. -/
theorem Reach.follows (h : E.Reach ok (System.start d x progs) s)
    (hf : ∀ i, (progs i).Follows (M i) (g i)) (i : ι) :
    (s.thread i).prog.Follows (M i) (phase M g s i) :=
  h.invariant (P := fun s => ∀ i, (s.thread i).prog.Follows (M i) (phase M g s i)) hf
    (fun _ _ _ _ ih _ hs i => hs.follows (ih i)) i

/-- What every call keeps of a request's phase and uncommitted writes, and
what the end of its transaction leaves, holds in every reached state. -/
theorem Reach.log_invariant (h : E.Reach ok (System.start d x progs) s)
    (hf : ∀ i, (progs i).Follows (M i) (g i)) {P : ∀ i, G i → List W → Prop}
    (h0 : ∀ i, P i (g i) [])
    (hcall : ∀ s i c, E.Reach ok (System.start d x progs) s → (M i).may (phase M g s i) c →
      P i (phase M g s i) (s.thread i).log → E.commits c = false → P i ((M i).next (phase M g s i) c (E.answer s i c).1)
        ((s.thread i).log ++ (E.answer s i c).2.1))
    (hcommit : ∀ s i c, (M i).may (phase M g s i) c → P i (phase M g s i) (s.thread i).log →
      E.commits c = true → P i ((M i).next (phase M g s i) c (E.answer s i c).1) [])
    (hret : ∀ i p a log, (M i).mayRet p a → P i p log → P i p [])
    (hraise : ∀ i p e log, (M i).mayRaise p e → P i p log → P i p []) (i : ι) :
    P i (phase M g s i) (s.thread i).log := by
  refine h.invariant_each (P := fun i s => P i (phase M g s i) (s.thread i).log) h0
    (fun s s' i hr ih _ hs => ?_) (fun s s' i j _ ih _ hs hj => ?_) i
  · have hfi := hr.follows hf i
    cases hs with
    | @call c k hp hc _ =>
      rw [hp] at hfi
      simpa using hcall s i c hr hfi.1 (ih i) hc
    | @commit c k hp hc =>
      rw [hp] at hfi
      simpa using hcommit s i c hfi.1 (ih i) hc
    | @close a hp =>
      rw [hp] at hfi
      simpa using hret i _ a _ hfi (ih i)
    | @abort e hp =>
      rw [hp] at hfi
      simpa using hraise i _ e _ hfi (ih i)
  · rw [hs.phase_ne hj, hs.thread_ne hj]
    exact ih

/-- What every answered call keeps of its request's phase holds of the phases
of every reached state. -/
theorem Reach.phase_invariant (h : E.Reach ok (System.start d x progs) s)
    (hf : ∀ i, (progs i).Follows (M i) (g i)) {P : ∀ i, G i → Prop} (h0 : ∀ i, P i (g i))
    (hstep : ∀ s i c k, E.Reach ok (System.start d x progs) s → ok s i →
      (s.thread i).prog = .call c k → (M i).may (phase M g s i) c → P i (phase M g s i) →
      P i ((M i).next (phase M g s i) c (E.answer s i c).1)) (i : ι) :
    P i (phase M g s i) := by
  refine h.invariant_each (P := fun i s => P i (phase M g s i)) h0
    (fun s s' i hr ih ho hs => ?_) (fun s s' i j _ ih _ hs hj => ?_) i
  · cases hs.advance with
    | answered hp _ htrace =>
      have hi := hr.follows hf i
      rw [hp] at hi
      rw [phase_of_answer htrace]
      exact hstep s i _ _ hr ho hp hi.1 (ih i)
    | finished _ _ htrace =>
      rw [phase_of_trace htrace]
      exact ih i
  · rw [hs.phase_ne hj]
    exact ih

/-- A request that has had an answer of the kind `Q` is in a phase of the kind
`P`, if such answers lead there and no call leads out. -/
theorem Reach.phase_of_mem (h : E.Reach ok (System.start d x progs) s)
    (hf : ∀ i, (progs i).Follows (M i) (g i)) {P : ∀ i, G i → Prop} {Q : ι → Answered C R → Prop}
    (hstep : ∀ i (p : G i) c r, (M i).may p c → Q i ⟨c, r⟩ ∨ P i p → P i ((M i).next p c r))
    {i : ι} {a : Answered C R}
    (ha : a ∈ (s.thread i).trace) (hQ : Q i a) : P i (phase M g s i) := by
  refine h.invariant_each (P := fun i s => ∀ a ∈ (s.thread i).trace, Q i a → P i (phase M g s i))
    (fun i a ha => absurd ha List.not_mem_nil) (fun s s' i hr ih _ hs a ha hQ => ?_)
    (fun s s' i j _ ih _ hs hj a ha hQ => ?_) i a ha hQ
  · cases hs.advance with
    | answered hp _ htrace =>
      have hi := hr.follows hf i
      rw [hp] at hi
      rw [phase_of_answer htrace]
      rw [htrace] at ha
      refine hstep i _ _ _ hi.1 ?_
      rcases List.mem_append.mp ha with ha | ha
      · exact .inr (ih i a ha hQ)
      · rw [List.mem_singleton.mp ha] at hQ
        exact .inl hQ
    | finished _ _ htrace =>
      rw [phase_of_trace htrace]
      exact ih i a (htrace ▸ ha) hQ
  · rw [hs.phase_ne hj]
    rw [hs.thread_ne hj] at ha
    exact ih a ha hQ

end Monitored

/-! ### One program at a time -/

/-- The program run to completion with nobody else, from the uncommitted
writes `log`: its outcome, the rows and the state outside that it leaves. -/
def run (E : Engine C R D X W K) : Prog C R ε α → List W → D → X → Except ε α × D × X
  | .ret a, log, d, x => (.ok a, E.view d log, x)
  | .raise e, _, d, x => (.error e, d, x)
  | .call c k, log, d, x =>
    let a := E.exec c (E.view d log) x
    if E.commits c then E.run (k a.1) [] (E.view d log) a.2.2
    else E.run (k a.1) (log ++ a.2.1) d a.2.2

/-- Request `i` has ended, with outcome `o`, and holds no lock. -/
def Done (s : System C R ε α D X W ι) (i : ι) (o : Except ε α) : Prop :=
  (s.thread i).prog.outcome = some o ∧ (s.thread i).log = []

/-- Running a program to completion is letting it take all the steps while
the other requests hold no lock. -/
theorem reach_run : ∀ (p : Prog C R ε α) (s : System C R ε α D X W ι) (i : ι),
    (s.thread i).prog = p → (∀ j, j ≠ i → (s.thread j).log = []) →
    ∃ s', E.Reach Any s s' ∧ (∀ j, j ≠ i → s'.thread j = s.thread j) ∧
      Done s' i (E.run p (s.thread i).log s.db s.outside).1 ∧
      (s'.db, s'.outside) = (E.run p (s.thread i).log s.db s.outside).2
  | .ret a, s, i, hp, _ => by
    by_cases hl : (s.thread i).log = []
    · exact ⟨s, .init, fun _ _ => rfl, ⟨by rw [hp]; rfl, hl⟩, by rw [hl]; rfl⟩
    · have hs : E.step s i = some (E.closed s i) := by simp [step, hp, hl]
      refine ⟨_, .step i .init trivial hs, fun j hj => by simp [closed, hj], ⟨?_, ?_⟩, rfl⟩
      · simp [closed, hp, Prog.outcome, run]
      · simp [closed]
  | .raise e, s, i, hp, _ => by
    by_cases hl : (s.thread i).log = []
    · exact ⟨s, .init, fun _ _ => rfl, ⟨by rw [hp]; rfl, hl⟩, rfl⟩
    · have hs : E.step s i = some (rolledBack s i) := by simp [step, hp, hl]
      refine ⟨_, .step i .init trivial hs, fun j hj => by simp [rolledBack, hj], ⟨?_, ?_⟩, rfl⟩
      · simp [rolledBack, hp, Prog.outcome, run]
      · simp [rolledBack]
  | .call c k, s, i, hp, hj => by
    by_cases hc : E.commits c = true
    · have hs : E.step s i = some (E.committed s i c k) := by simp [step, hp, hc]
      obtain ⟨s', hr, ho, hd, he⟩ := reach_run (k (E.answer s i c).1) (E.committed s i c k) i
        (by simp [committed]) (fun j h => by simpa [committed, h] using hj j h)
      have e : E.run (.call c k) (s.thread i).log s.db s.outside =
          E.run (k (E.answer s i c).1) ((E.committed s i c k).thread i).log
            (E.committed s i c k).db (E.committed s i c k).outside := by
        simp [run, hc, committed, answer]
      refine ⟨s', (Reach.step i .init trivial hs).trans hr, fun j h => ?_, e ▸ hd, e ▸ he⟩
      rw [ho j h]; simp [committed, h]
    · have hf : ∀ j, j ≠ i → E.Free (E.answer s i c).2.1 (s.thread j).log := fun j h => by
        rw [hj j h]; exact fun _ _ _ h => absurd h List.not_mem_nil
      have hs : E.step s i = some (E.called s i c k) := by
        simp only [step, hp]
        rw [if_neg hc, if_pos hf]
      obtain ⟨s', hr, ho, hd, he⟩ := reach_run (k (E.answer s i c).1) (E.called s i c k) i
        (by simp [called]) (fun j h => by simpa [called, h] using hj j h)
      have e : E.run (.call c k) (s.thread i).log s.db s.outside =
          E.run (k (E.answer s i c).1) ((E.called s i c k).thread i).log
            (E.called s i c k).db (E.called s i c k).outside := by
        simp [run, hc, called, answer]
      refine ⟨s', (Reach.step i .init trivial hs).trans hr, fun j h => ?_, e ▸ hd, e ▸ he⟩
      rw [ho j h]; simp [called, h]

end Engine
end Transact
