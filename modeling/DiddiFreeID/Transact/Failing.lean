/-
# Runs in which a call fails

One program runs with nobody else (`Engine.run`), and one of the calls that
may fail raises an exception: nothing catches it, so the session rolls back
and the exception is the outcome (`Engine.runFailing`). A program that keeps
to the monitor `oneCommit` commits at most once, touches what is observed
outside only after that, and makes no more calls that may fail then. Such a
program either runs as if no call failed, or leaves everything as it was
(`runFailing_cases`).

Key definitions: `Engine.runFailing`, `oneCommit`.
Key theorems: `Engine.runFailing_committed`, `Engine.runFailing_cases`.
-/
import DiddiFreeID.Transact.System

namespace Transact

variable {C : Type} {R : C → Type} {ε α β D X W K O : Type}

namespace Engine

/-- A program run to completion, where of the calls that `fails` marks the one
numbered `n`, from 0, raises `e`. -/
def runFailing (E : Engine C R D X W K) (fails : C → Bool) (e : ε) :
    Prog C R ε α → ℕ → List W → D → X → Except ε α × D × X
  | .ret a, _, log, d, x => (.ok a, E.view d log, x)
  | .raise e', _, _, d, x => (.error e', d, x)
  | .call c k, n, log, d, x =>
    if fails c && n == 0 then (.error e, d, x)
    else
      let a := E.exec c (E.view d log) x
      let m := if fails c then n - 1 else n
      if E.commits c then runFailing E fails e (k a.1) m [] (E.view d log) a.2.2
      else runFailing E fails e (k a.1) m (log ++ a.2.1) d a.2.2

end Engine

/-- At most one commit: before it only `calm` calls, after it only calls that
do not fail. The phase says whether it has been made. -/
def oneCommit (E : Engine C R D X W K) (fails calm : C → Bool) (ε α : Type) :
    Monitor C R ε α Bool where
  next committed c _ := committed || E.commits c
  may committed c :=
    match committed with
    | false => (E.commits c || calm c) = true
    | true => fails c = false
  mayRet _ _ := True
  mayRaise _ _ := True

variable {E : Engine C R D X W K} {fails calm : C → Bool}

/-- A program that makes only calls of one kind. -/
def only (P : C → Bool) (R : C → Type) (ε α : Type) : Monitor C R ε α Unit where
  next _ _ _ := ()
  may _ c := P c = true
  mayRet _ _ := True
  mayRaise _ _ := True

/-- Calls that neither fail nor commit nor touch what is observed may come at
any time. -/
theorem follows_oneCommit_bind {P : C → Bool}
    (hP : ∀ c, P c = true → fails c = false ∧ calm c = true ∧ E.commits c = false)
    {p : Prog C R ε α} {f : α → Prog C R ε β} {g : Bool} (hp : p.Follows (only P R ε α) ())
    (hf : ∀ a, (f a).Follows (oneCommit E fails calm ε β) g) :
    (p >>= f).Follows (oneCommit E fails calm ε β) g := by
  refine Prog.follows_bind.mpr (hp.simulated (fun _ g' => g' = g) ?_ ?_ (fun _ _ => trivial) rfl)
  · rintro _ g c rfl hc
    obtain ⟨hfails, hcalm, hcommits⟩ := hP c hc
    refine ⟨?_, fun r => by simp [oneCommit, hcommits]⟩
    cases g with
    | false => simp [oneCommit, hcalm]
    | true => exact hfails
  · rintro _ g a rfl -
    exact hf a

namespace Engine

variable {e : ε}

/-- After the commit no call fails any more. -/
theorem runFailing_committed : ∀ {p : Prog C R ε α}, p.Follows (oneCommit E fails calm ε α) true →
    ∀ (n : ℕ) (log : List W) (d : D) (x : X), E.runFailing fails e p n log d x = E.run p log d x
  | .ret _, _, _, _, _, _ => rfl
  | .raise _, _, _, _, _, _ => rfl
  | .call c k, h, n, log, d, x => by
    obtain ⟨hfails, hk⟩ := h
    have hfails : fails c = false := hfails
    have ih := fun r => runFailing_committed (hk r)
    simp only [runFailing, run, hfails, Bool.false_and, Bool.false_eq_true, if_false]
    split
    · exact ih _ n [] _ _
    · exact ih _ n _ d _

/-- **All or nothing.** A program of one commit runs as if no call failed, or
raises the exception with the rows as they were; what is observed outside is
then as it was. -/
theorem runFailing_cases {observe : X → O}
    (hcalm : ∀ c d x, calm c = true → observe (E.exec c d x).2.2 = observe x) :
    ∀ {p : Prog C R ε α}, p.Follows (oneCommit E fails calm ε α) false →
    ∀ (n : ℕ) (log : List W) (d : D) (x : X),
      E.runFailing fails e p n log d x = E.run p log d x ∨
      ∃ x', E.runFailing fails e p n log d x = (.error e, d, x') ∧ observe x' = observe x
  | .ret _, _, _, _, _, _ => .inl rfl
  | .raise _, _, _, _, _, _ => .inl rfl
  | .call c k, h, n, log, d, x => by
    obtain ⟨hmay, hk⟩ := h
    by_cases hstrike : (fails c && n == 0) = true
    · exact .inr ⟨x, by rw [runFailing, if_pos hstrike], rfl⟩
    simp only [runFailing, run, if_neg hstrike]
    cases hcommits : E.commits c with
    | true =>
      -- The commit: from here on nothing fails.
      have hafter : ∀ r, (k r).Follows (oneCommit E fails calm ε α) true := by
        intro r
        have hr := hk r
        simpa only [oneCommit, hcommits, Bool.false_or] using hr
      left
      simp only [if_true]
      exact runFailing_committed (hafter _) _ _ _ _
    | false =>
      have hbefore : ∀ r, (k r).Follows (oneCommit E fails calm ε α) false := by
        intro r
        have hr := hk r
        simpa only [oneCommit, hcommits, Bool.false_or] using hr
      have hc : calm c = true := by simpa only [oneCommit, hcommits, Bool.false_or] using hmay
      simp only [Bool.false_eq_true, if_false]
      rcases runFailing_cases hcalm (hbefore _) (if fails c then n - 1 else n)
        (log ++ (E.exec c (E.view d log) x).2.1) d (E.exec c (E.view d log) x).2.2 with hrun | hrun
      · exact .inl hrun
      · obtain ⟨x', hrun, hx'⟩ := hrun
        exact .inr ⟨x', hrun, hx'.trans (hcalm c _ x hc)⟩

end Engine
end Transact
