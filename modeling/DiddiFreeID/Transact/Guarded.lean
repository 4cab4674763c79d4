/-
# A program behind a guard

A handler is often a guard and a program: the guard makes calls of its own and
lets the program go on, or raises errors of its own. The program does the same
behind it as from its start (`Follows.behind`); what the guard was told stands
before what the program is told. On a schedule every call of the trace has its
instant, and at that instant the trace was what stands before it
(`state_asked`).

Key definitions: `Prog.mapEnd`.
Key theorems: `Follows.behind`, `state_asked`.
-/
import DiddiFreeID.Transact.History

namespace Transact

variable {C : Type} {R : C → Type} {ε ε' α β D X W K ι : Type}

namespace Prog

theorem bind_assoc {γ : Type} (f : α → Prog C R ε β) (g : β → Prog C R ε γ) :
    ∀ p : Prog C R ε α, p >>= f >>= g = p >>= fun a => f a >>= g
  | ret _ => rfl
  | raise _ => rfl
  | call c k => congrArg (call c) (funext fun r => bind_assoc f g (k r))

/-- The same calls, with other errors and results. -/
def mapEnd (f : ε → ε') (g : α → β) : Prog C R ε α → Prog C R ε' β
  | ret a => ret (g a)
  | raise e => raise (f e)
  | call c k => call c fun r => (k r).mapEnd f g

@[simp] theorem mapEnd_ret (f : ε → ε') (g : α → β) (a : α) :
    (ret a : Prog C R ε α).mapEnd f g = ret (g a) := rfl

@[simp] theorem mapEnd_raise (f : ε → ε') (g : α → β) (e : ε) :
    (raise e : Prog C R ε α).mapEnd f g = raise (f e) := rfl

@[simp] theorem mapEnd_call (f : ε → ε') (g : α → β) (c : C) (k : R c → Prog C R ε α) :
    (call c k).mapEnd f g = call c fun r => (k r).mapEnd f g := rfl

variable {may : List (Answered C R) → C → Prop} {mayRet : List (Answered C R) → α → Prop}
  {mayRaise : List (Answered C R) → ε → Prop}

/-- **Behind a guard.** What a program may do on `l`, it may do on `before ++ l`. -/
theorem Follows.behind {f : ε → ε'} {g : α → β} (before : List (Answered C R)) :
    ∀ {p : Prog C R ε α} {l : List (Answered C R)}, p.Follows (tracing may mayRet mayRaise) l →
      (p.mapEnd f g).Follows
        (tracing (fun t c => ∃ l, t = before ++ l ∧ may l c)
          (fun t b => ∃ l a, t = before ++ l ∧ b = g a ∧ mayRet l a)
          fun t e' => ∃ l e, t = before ++ l ∧ e' = f e ∧ mayRaise l e) (before ++ l)
  | .ret a, l, h => ⟨l, a, rfl, rfl, h⟩
  | .raise e, l, h => ⟨l, e, rfl, rfl, h⟩
  | .call c k, l, h => ⟨⟨l, rfl, h.1⟩, fun r => by
      have hk := (h.2 r).behind (f := f) (g := g) before
      rwa [show (tracing may mayRet mayRaise).next l c r = l ++ [⟨c, r⟩] from rfl,
        ← List.append_assoc] at hk⟩

end Prog

namespace Engine

variable [DecidableEq ι] [Fintype ι] [DecidableEq K] {E : Engine C R D X W K} {d : D} {x : X}
  {progs : ι → Prog C R ε α}

/-- **When.** Every answered call was made at an instant before, and what had
been answered then is what stands before it in the trace. -/
theorem state_asked {sched : ℕ → ι} {n : ℕ} {i : ι} {before after : List (Answered C R)}
    {a : Answered C R}
    (ha : ((E.state (System.start d x progs) sched n).thread i).trace = before ++ a :: after) :
    ∃ m < n, sched m = i ∧
      ((E.state (System.start d x progs) sched m).thread i).trace = before ∧
      ((E.state (System.start d x progs) sched m).thread i).next = some a.1 ∧
      (E.answer (E.state (System.start d x progs) sched m) i a.1).1 = a.2 := by
  induction n generalizing after with
  | zero => exact absurd ha.symm (List.append_ne_nil_of_right_ne_nil _ (by simp))
  | succ n ih =>
    rcases state_cases E (System.start d x progs) sched n with ⟨-, hs⟩ | hs
    · rw [hs] at ha
      obtain ⟨m, hm, h⟩ := ih ha
      exact ⟨m, hm.trans n.lt_succ_self, h⟩
    by_cases hi : i = sched n
    · rw [← hi] at hs
      cases hs.advance with
      | @answered c k hp _ htrace =>
        rw [htrace] at ha
        rcases List.eq_nil_or_concat after with rfl | ⟨after, b, rfl⟩
        · obtain ⟨hbefore, hb⟩ := List.append_inj' ha rfl
          rw [← List.singleton_inj.mp hb]
          exact ⟨n, n.lt_succ_self, hi.symm, hbefore, Thread.next_eq_some.mpr ⟨k, hp⟩, rfl⟩
        · rw [List.concat_eq_append, ← List.cons_append, ← List.append_assoc] at ha
          obtain ⟨m, hm, h⟩ := ih (List.append_inj' ha rfl).1
          exact ⟨m, hm.trans n.lt_succ_self, h⟩
      | finished _ _ htrace =>
        rw [htrace] at ha
        obtain ⟨m, hm, h⟩ := ih ha
        exact ⟨m, hm.trans n.lt_succ_self, h⟩
    · rw [hs.thread_ne hi] at ha
      obtain ⟨m, hm, h⟩ := ih ha
      exact ⟨m, hm.trans n.lt_succ_self, h⟩

end Engine
end Transact
