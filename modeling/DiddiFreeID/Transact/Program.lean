/-
# Programs as the calls they make

A request handler talks to its repositories one call at a time and decides
on the answers. `Prog C R ε α` is the tree of what it may do: make a call
`c : C` and go on with the answer in `R c`, return an `α`, or raise an `ε`.
`do` blocks build such trees, and every bind is definitional on the three
constructors, so a handler written as a `do` block unfolds to its tree.

A `Monitor` watches the answered calls of a program and says, phase by
phase, which call, which result and which exception may come next
(`Prog.Follows`). It is proved of a program alone, over every answer the
store could give; `Transact/System.lean` carries it to any number of
programs running at once.

Key definitions: `Prog`, `Monitor`, `Prog.Follows`, `Monitor.phase`.
Key theorems: `Prog.follows_bind`, `Prog.Follows.simulated`.
-/
import Mathlib.Tactic.Common

namespace Transact

/-- A program that makes calls `c : C`, each answered in `R c`, and ends by
returning an `α` or raising an `ε`. -/
inductive Prog (C : Type) (R : C → Type) (ε α : Type) : Type where
  | ret (a : α)
  | raise (e : ε)
  | call (c : C) (k : R c → Prog C R ε α)

/-- An answered call. -/
abbrev Answered (C : Type) (R : C → Type) : Type := (c : C) × R c

namespace Prog

variable {C : Type} {R : C → Type} {ε α β : Type}

/-- Go on with `f` where the program returns; an exception ends both. -/
def bind : Prog C R ε α → (α → Prog C R ε β) → Prog C R ε β
  | ret a, f => f a
  | raise e, _ => raise e
  | call c k, f => call c fun r => (k r).bind f

instance : Monad (Prog C R ε) where
  pure := ret
  bind := bind

/-- The program of one call. -/
def ask (c : C) : Prog C R ε (R c) := call c ret

@[simp] theorem pure_def (a : α) : (pure a : Prog C R ε α) = ret a := rfl

@[simp] theorem ret_bind (a : α) (f : α → Prog C R ε β) : (ret a : Prog C R ε α) >>= f = f a := rfl

@[simp] theorem raise_bind (e : ε) (f : α → Prog C R ε β) :
    (raise e : Prog C R ε α) >>= f = raise e := rfl

@[simp] theorem call_bind (c : C) (k : R c → Prog C R ε α) (f : α → Prog C R ε β) :
    call c k >>= f = call c fun r => k r >>= f := rfl

@[simp] theorem ask_bind (c : C) (f : R c → Prog C R ε β) : ask c >>= f = call c f := rfl

theorem ite_bind (p : Prop) [Decidable p] (x y : Prog C R ε α) (f : α → Prog C R ε β) :
    (if p then x else y) >>= f = if p then x >>= f else y >>= f := by
  split_ifs <;> rfl

/-- The program has returned or raised. -/
def ended : Prog C R ε α → Bool
  | call _ _ => false
  | _ => true

/-- What an ended program came to. -/
def outcome : Prog C R ε α → Option (Except ε α)
  | ret a => some (.ok a)
  | raise e => some (.error e)
  | call _ _ => none

@[simp] theorem outcome_eq_ok {p : Prog C R ε α} {a : α} : p.outcome = some (.ok a) ↔ p = ret a := by
  cases p <;> simp [outcome]

@[simp] theorem outcome_eq_error {p : Prog C R ε α} {e : ε} :
    p.outcome = some (.error e) ↔ p = raise e := by
  cases p <;> simp [outcome]

end Prog

/-! ### Monitors -/

/-- A monitor of programs: a phase `G` that advances with every answered
call, the calls it lets a program make in a phase, and the results and the
exceptions it lets it end with. -/
structure Monitor (C : Type) (R : C → Type) (ε α G : Type) where
  next : G → (c : C) → R c → G
  may : G → C → Prop
  mayRet : G → α → Prop
  mayRaise : G → ε → Prop

variable {C : Type} {R : C → Type} {ε α G : Type}

/-- The call may come in a phase, and keeps it. -/
def Monitor.Stays (M : Monitor C R ε α G) (g : G) (c : C) : Prop := M.may g c ∧ ∀ r, M.next g c r = g

/-- The phase that a list of answered calls leads to from `g`. -/
def Monitor.phase (M : Monitor C R ε α G) (g : G) (trace : List (Answered C R)) : G :=
  trace.foldl (fun g a => M.next g a.1 a.2) g

@[simp] theorem Monitor.phase_nil (M : Monitor C R ε α G) (g : G) : M.phase g [] = g := rfl

@[simp] theorem Monitor.phase_snoc (M : Monitor C R ε α G) (g : G) (trace : List (Answered C R))
    (a : Answered C R) : M.phase g (trace ++ [a]) = M.next (M.phase g trace) a.1 a.2 := by
  simp [phase]

/-- From phase `g` the program only does what the monitor allows, whatever
the answers. -/
def Prog.Follows (M : Monitor C R ε α G) : G → Prog C R ε α → Prop
  | g, .ret a => M.mayRet g a
  | g, .raise e => M.mayRaise g e
  | g, .call c k => M.may g c ∧ ∀ r, (k r).Follows M (M.next g c r)

namespace Prog

variable {M : Monitor C R ε α G} {g : G}

@[simp] theorem follows_ret {a : α} : (ret a : Prog C R ε α).Follows M g ↔ M.mayRet g a := Iff.rfl

@[simp] theorem follows_raise {e : ε} : (raise e : Prog C R ε α).Follows M g ↔ M.mayRaise g e :=
  Iff.rfl

@[simp] theorem follows_call {c : C} {k : R c → Prog C R ε α} :
    (call c k).Follows M g ↔ M.may g c ∧ ∀ r, (k r).Follows M (M.next g c r) := Iff.rfl

/-- A call that keeps the phase. -/
theorem follows_call_of_stays {c : C} {k : R c → Prog C R ε α} (hc : M.Stays g c)
    (hk : ∀ r, (k r).Follows M g) : (call c k).Follows M g := by
  refine ⟨hc.1, fun r => ?_⟩
  rw [hc.2 r]
  exact hk r

/-- A bind follows a monitor where its first part does and ends only with
results from which the rest does. -/
theorem follows_bind {β : Type} {f : β → Prog C R ε α} : ∀ {p : Prog C R ε β} {g : G},
    (p >>= f).Follows M g ↔ p.Follows { M with mayRet := fun g b => (f b).Follows M g } g
  | .ret _, _ => Iff.rfl
  | .raise _, _ => Iff.rfl
  | .call _ _, _ => and_congr_right fun _ => forall_congr' fun _ => follows_bind

/-- A program that follows a monitor follows one that simulates it: what the
first lets it do in a phase, the second lets it do in the phases related. -/
theorem Follows.simulated {G' : Type} {M' : Monitor C R ε α G'} (sim : G → G' → Prop)
    (hcall : ∀ {g g' c}, sim g g' → M.may g c →
      M'.may g' c ∧ ∀ r, sim (M.next g c r) (M'.next g' c r))
    (hret : ∀ {g g' a}, sim g g' → M.mayRet g a → M'.mayRet g' a)
    (hraise : ∀ {g g' e}, sim g g' → M.mayRaise g e → M'.mayRaise g' e)
    {p : Prog C R ε α} {g : G} {g' : G'} (hsim : sim g g') (h : p.Follows M g) :
    p.Follows M' g' := by
  induction p generalizing g g' with
  | ret a => exact hret hsim h
  | raise e => exact hraise hsim h
  | call c k ih =>
    obtain ⟨hmay, hnext⟩ := hcall hsim h.1
    exact ⟨hmay, fun r => ih r (hnext r) (h.2 r)⟩

end Prog
end Transact
