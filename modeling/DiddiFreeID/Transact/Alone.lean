/-
# What a request does alone

As long as nobody has committed, a request sees the first committed rows
under its own writes, as if nobody else were in flight: the run of what is
left of its program ends the run of the whole program on those rows
(`Engine.Alone`). So the request that commits first leaves the rows that it
leaves alone, and one that ends before any commit has its outcome from them.

Key definition: `Engine.Alone`.
Key theorems: `Alone.call`, `Alone.commit`, `Alone.ended`.
-/
import DiddiFreeID.Transact.System

namespace Transact
namespace Engine

variable {C : Type} {R : C → Type} {ε α D X W K : Type} (E : Engine C R D X W K)

/-- The answer to the call and its writes are read off the rows. -/
def FromRows (c : C) : Prop :=
  ∀ d x x', (E.exec c d x).1 = (E.exec c d x').1 ∧ (E.exec c d x).2.1 = (E.exec c d x').2.1

/-- What the request `t` has done is what its program `p` does alone on the
rows `d`. -/
def Alone (p : Prog C R ε α) (d : D) (x : X) (t : Thread C R ε α W) : Prop :=
  ∃ x', E.run p [] d x = E.run t.prog t.log d x'

theorem alone_start (p : Prog C R ε α) (d : D) (x : X) : E.Alone p d x ⟨p, [], []⟩ := ⟨x, rfl⟩

namespace Alone

variable {E} {p : Prog C R ε α} {d : D} {x : X} {t : Thread C R ε α W} {c : C}
  {k : R c → Prog C R ε α}

theorem call (h : E.Alone p d x t) (hp : t.prog = .call c k) (hc : E.commits c = false)
    (hr : E.FromRows c) (x₁ : X) (trace : List (Answered C R)) :
    E.Alone p d x ⟨k (E.exec c (E.view d t.log) x₁).1,
      t.log ++ (E.exec c (E.view d t.log) x₁).2.1, trace⟩ := by
  obtain ⟨x', h⟩ := h
  obtain ⟨ha, hw⟩ := hr (E.view d t.log) x₁ x'
  refine ⟨(E.exec c (E.view d t.log) x').2.2, ?_⟩
  rw [h, hp, ha, hw, run]
  simp only [hc, Bool.false_eq_true, if_false]

/-- At its commit the request leaves the rows that it leaves alone. -/
theorem commit (h : E.Alone p d x t) (hp : t.prog = .call c k) (hc : E.commits c = true)
    (hr : E.FromRows c) (x₁ : X) : ∃ x', E.run p [] d x =
      E.run (k (E.exec c (E.view d t.log) x₁).1) [] (E.view d t.log) x' := by
  obtain ⟨x', h⟩ := h
  obtain ⟨ha, -⟩ := hr (E.view d t.log) x₁ x'
  refine ⟨(E.exec c (E.view d t.log) x').2.2, ?_⟩
  rw [h, hp, ha, run]
  simp only [hc, if_true]

theorem rolledBack {e : ε} (h : E.Alone p d x t) (hp : t.prog = .raise e) :
    E.Alone p d x { t with log := [] } := by
  obtain ⟨x', h⟩ := h
  refine ⟨x', ?_⟩
  rw [h, hp]
  rfl

/-- A request that has failed leaves the rows as they are. -/
theorem raised {e : ε} (h : E.Alone p d x t) (hp : t.prog = .raise e) :
    (E.run p [] d x).2.1 = d := by
  obtain ⟨x', h⟩ := h
  rw [h, hp, run]

/-- So does one that ends without a write, and its outcome is the one it has
alone. -/
theorem ended {o : Except ε α} (h : E.Alone p d x t) (ho : t.prog.outcome = some o)
    (hl : t.log = []) : (E.run p [] d x).1 = o ∧ (E.run p [] d x).2.1 = d := by
  obtain ⟨x', h⟩ := h
  cases hp : t.prog with
  | ret a =>
    rw [hp] at ho
    rw [h, hp, hl, run, view_nil]
    exact ⟨Option.some.inj ho, rfl⟩
  | raise e =>
    rw [hp] at ho
    rw [h, hp, run]
    exact ⟨Option.some.inj ho, rfl⟩
  | call c k =>
    rw [hp] at ho
    cases ho

end Alone
end Engine
end Transact
