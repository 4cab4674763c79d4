/-
# A part of the requests by itself

Requests are on one side or the other. `rows` keeps the part of the rows that one side
is about, `around` the part of what is outside. Where the calls of that side are
answered from its part, and those of the other leave it as it is, the other side does
not matter: what is left of a run when its steps are taken out is a run of the one side
from its part of the rows (`Reach.projected`). Who is on a side alone does in
it what he does alone (`Reach.run_eq`), and so do two that take turns
(`Reach.run_in_turn`).

Key definitions: `System.projected`, `Splits`.
Key theorems: `step_projected`, `Reach.projected`, `Reach.run_eq`, `Reach.run_in_turn`.
-/
import DiddiFreeID.Transact.System

namespace Transact

variable {C : Type} {R : C → Type} {ε α D X W K ι : Type}

/-- What is left of a state: the part of the rows, of what is outside, and the requests of
one side; the others are as at their start. -/
def System.projected (rows : D → D) (around : X → X) (side : ι → Bool)
    (progs : ι → Prog C R ε α) (s : System C R ε α D X W ι) : System C R ε α D X W ι where
  db := rows s.db
  outside := around s.outside
  thread i := if side i = true then s.thread i else ⟨progs i, [], []⟩

namespace Engine

/-- In `s` both sides keep to themselves: the uncommitted writes of one change its part of
the rows alone, and so do the calls to come. -/
structure Splits (E : Engine C R D X W K) (rows : D → D) (around : X → X) (side : ι → Bool)
    (s : System C R ε α D X W ι) : Prop where
  view : ∀ i, side i = true →
    rows (E.view s.db (s.thread i).log) = E.view (rows s.db) (s.thread i).log
  other : ∀ i, side i = false → rows (E.view s.db (s.thread i).log) = rows s.db
  exec : ∀ i c k, side i = true → (s.thread i).prog = .call c k →
    E.exec c (rows (E.view s.db (s.thread i).log)) (around s.outside) =
      ((E.answer s i c).1, (E.answer s i c).2.1, around (E.answer s i c).2.2)
  aside : ∀ i c k, side i = false → (s.thread i).prog = .call c k →
    around (E.answer s i c).2.2 = around s.outside

variable {E : Engine C R D X W K} {rows : D → D} {around : X → X} {side : ι → Bool}
  {progs : ι → Prog C R ε α} {s s' : System C R ε α D X W ι} {i : ι}

theorem projected_thread (hi : side i = true) :
    (s.projected rows around side progs).thread i = s.thread i := if_pos hi

theorem projected_done (hi : side i = true) {o : Except ε α} :
    Done (s.projected rows around side progs) i o ↔ Done s i o := by
  unfold Done
  rw [projected_thread hi]

variable (progs) in
/-- Both sides give the request the same answer. -/
theorem Splits.answer (h : E.Splits rows around side s) (hi : side i = true) {c : C}
    {k : R c → Prog C R ε α} (hp : (s.thread i).prog = .call c k) :
    E.answer (s.projected rows around side progs) i c =
      ((E.answer s i c).1, (E.answer s i c).2.1, around (E.answer s i c).2.2) := by
  rw [← h.exec i c k hi hp, h.view i hi, Engine.answer, projected_thread hi]
  rfl

variable [DecidableEq ι]

/-- The states with one request of the side changed. -/
theorem projected_eq (hi : side i = true) {t : System C R ε α D X W ι} (hdb : t.db = rows s'.db)
    (hout : t.outside = around s'.outside) (hself : t.thread i = s'.thread i)
    (hne : ∀ j, j ≠ i → t.thread j = (s.projected rows around side progs).thread j)
    (hne' : ∀ j, j ≠ i → s'.thread j = s.thread j) :
    t = s'.projected rows around side progs := by
  obtain ⟨db, outside, thread⟩ := t
  simp only [System.projected, System.mk.injEq]
  refine ⟨hdb, hout, funext fun j => ?_⟩
  by_cases hj : j = i
  · subst hj
    rw [if_pos hi]
    exact hself
  · rw [hne' j hj]
    exact hne j hj

variable [Fintype ι] [DecidableEq K]

variable (progs) in
/-- **Step.** A step of the side is a step of its part; a step of the other side is none. -/
theorem step_projected (h : E.Splits rows around side s) (hs : E.step s i = some s') :
    (side i = true ∧ E.step (s.projected rows around side progs) i =
      some (s'.projected rows around side progs)) ∨
    (side i = false ∧
      s'.projected rows around side progs = s.projected rows around side progs) := by
  cases hi : side i with
  | false =>
    right
    have hstep := E.step_cases hs
    have hthread : ∀ j, (s'.projected rows around side progs).thread j =
        (s.projected rows around side progs).thread j := by
      intro j
      by_cases hj : side j = true
      · have hne : j ≠ i := by
          rintro rfl
          rw [hi] at hj
          cases hj
        rw [projected_thread hj, projected_thread hj, hstep.thread_ne hne]
      · exact (if_neg hj).trans (if_neg hj).symm
    have hparts : rows s'.db = rows s.db ∧ around s'.outside = around s.outside := by
      cases hstep with
      | call hp => exact ⟨rfl, h.aside i _ _ hi hp⟩
      | commit hp => exact ⟨h.other i hi, h.aside i _ _ hi hp⟩
      | close => exact ⟨h.other i hi, rfl⟩
      | abort => exact ⟨rfl, rfl⟩
    have hext : s'.projected rows around side progs = ⟨rows s'.db, around s'.outside,
        (s.projected rows around side progs).thread⟩ := congrArg _ (funext hthread)
    rw [hext, hparts.1, hparts.2]
    exact ⟨rfl, rfl⟩
  | true =>
    left
    refine ⟨rfl, ?_⟩
    have hthread : (s.projected rows around side progs).thread i = s.thread i := projected_thread hi
    have hview := h.view i hi
    have hothers : ∀ j, j ≠ i → s'.thread j = s.thread j := fun j => (E.step_cases hs).thread_ne
    unfold step at hs ⊢
    rw [hthread]
    cases hp : (s.thread i).prog with
    | ret a =>
      rw [hp] at hs
      dsimp only at hs ⊢
      split_ifs at hs ⊢ with hl
      obtain rfl := Option.some.inj hs
      refine congrArg some (projected_eq (s := s) hi ?_ rfl ?_ (fun j hj => by simp [hj]) hothers)
      · rw [closed_db, closed_db, hthread, hview]
        rfl
      · rw [closed_thread_self, closed_thread_self, hthread]
    | raise e =>
      rw [hp] at hs
      dsimp only at hs ⊢
      split_ifs at hs ⊢ with hl
      obtain rfl := Option.some.inj hs
      refine congrArg some (projected_eq (s := s) hi rfl rfl ?_ (fun j hj => by simp [hj]) hothers)
      rw [rolledBack_thread_self, rolledBack_thread_self, hthread]
    | call c k =>
      rw [hp] at hs
      have hanswer := h.answer progs hi hp
      dsimp only at hs ⊢
      by_cases hc : E.commits c = true
      · rw [if_pos hc] at hs ⊢
        obtain rfl := Option.some.inj hs
        refine congrArg some (projected_eq (s := s) hi ?_ ?_ ?_ (fun j hj => by simp [hj]) hothers)
        · rw [committed_db, committed_db, hthread, hview]
          rfl
        · rw [committed_outside, committed_outside, hanswer]
        · rw [committed_thread_self, committed_thread_self, hanswer, hthread]
      · rw [if_neg hc] at hs ⊢
        split_ifs at hs with hfree
        obtain rfl := Option.some.inj hs
        -- the locks of the side are the same, the other one holds none
        have hfree' : ∀ j, j ≠ i → E.Free (E.answer (s.projected rows around side progs) i c).2.1
            ((s.projected rows around side progs).thread j).log := by
          intro j hj
          rw [hanswer]
          by_cases hside : side j = true
          · rw [projected_thread hside]
            exact hfree j hj
          · rw [show (s.projected rows around side progs).thread j = ⟨progs j, [], []⟩ from
              if_neg hside]
            exact fun _ _ w hw => absurd hw List.not_mem_nil
        rw [if_pos hfree']
        refine congrArg some (projected_eq (s := s) hi rfl ?_ ?_ (fun j hj => by simp [hj]) hothers)
        · rw [called_outside, called_outside, hanswer]
        · rw [called_thread_self, called_thread_self, hanswer, hthread]

variable {ok ok' : System C R ε α D X W ι → ι → Prop} {d : D} {x : X}

/-- **Run.** Without the steps of the other side a run is one of the part. -/
theorem Reach.projected (h : E.Reach ok (System.start d x progs) s)
    (hsplits : ∀ s, E.Reach ok (System.start d x progs) s → E.Splits rows around side s)
    (hok : ∀ s i, ok s i → side i = true → ok' (s.projected rows around side progs) i) :
    E.Reach ok' (System.start (rows d) (around x) progs) (s.projected rows around side progs) := by
  induction h with
  | init =>
    have hstart : (System.start d x progs : System C R ε α D X W ι).projected rows around side
        progs = System.start (rows d) (around x) progs := by
      simp [System.projected, System.start]
    rw [hstart]
    exact .init
  | step i hr ho hs ih =>
    rcases step_projected progs (hsplits _ hr) hs with ⟨hi, ht⟩ | ⟨-, ht⟩
    · exact .step i ih (hok _ _ ho hi) ht
    · rwa [ht]

/-! ### One after the other -/

omit [Fintype ι] [DecidableEq K] in
/-- With its own steps a request comes no nearer to another end. -/
theorem Step.run_eq (hs : E.Step s i s') :
    E.run (s'.thread i).prog (s'.thread i).log s'.db s'.outside =
      E.run (s.thread i).prog (s.thread i).log s.db s.outside := by
  cases hs with
  | call hp hc =>
    rw [called_thread_self, called_db, called_outside, hp, run, hc]
    rfl
  | commit hp hc =>
    rw [committed_thread_self, committed_db, committed_outside, hp, run, hc]
    rfl
  | close hp | abort hp => simp [hp, run]

omit [DecidableEq ι] [Fintype ι] [DecidableEq K] in
theorem Done.run_eq {o : Except ε α} (h : Done s i o) :
    E.run (s.thread i).prog (s.thread i).log s.db s.outside = (o, s.db, s.outside) := by
  obtain ⟨hend, hlog⟩ := h
  rw [hlog]
  cases hp : (s.thread i).prog with
  | call c k =>
    rw [hp] at hend
    cases hend
  | ret a | raise a =>
    rw [hp] at hend
    obtain rfl := Option.some.inj hend
    rfl

omit [Fintype ι] [DecidableEq K] in
theorem Step.done (hs : E.Step s i s') {j : ι} {o : Except ε α} (h : Done s j o) : Done s' j o := by
  by_cases hj : j = i
  · subst hj
    cases hs with
    | call hp | commit hp =>
      rw [Done, hp] at h
      cases h.1
    | close | abort => exact ⟨by simpa using h.1, by simp⟩
  · rw [Done, hs.thread_ne hj]
    exact h

omit [Fintype ι] [DecidableEq K] in
/-- A step of a request that is done changes nothing. -/
theorem Step.of_done (hs : E.Step s i s') {o : Except ε α} (h : Done s i o) :
    s'.db = s.db ∧ s'.outside = s.outside := by
  cases hs with
  | call hp | commit hp =>
    rw [Done, hp] at h
    cases h.1
  | close => exact ⟨by rw [closed_db, h.2, view_nil], rfl⟩
  | abort => exact ⟨rfl, rfl⟩

/-- **Alone.** A request that takes all the steps does what it does alone. -/
theorem Reach.run_eq {i : ι} (h : E.Reach (fun _ j => j = i) (System.start d x progs) s) :
    E.run (s.thread i).prog (s.thread i).log s.db s.outside = E.run (progs i) [] d x := by
  refine h.invariant (P := fun s =>
    E.run (s.thread i).prog (s.thread i).log s.db s.outside = E.run (progs i) [] d x) rfl
    fun s s' j _ ih hj hs => ?_
  subst hj
  rw [← ih]
  exact hs.run_eq

/-- **In turn.** Of two requests, the second of which waits for the first, each does what it
does alone, the second on what the first has left. -/
theorem Reach.run_in_turn {i j : ι} (hij : i ≠ j)
    (h : E.Reach (fun s k => k = i ∨ k = j ∧ ∃ o, Done s i o) (System.start d x progs) s)
    {o o' : Except ε α} (ho : Done s i o) (ho' : Done s j o') :
    ∃ d' x', (o, d', x') = E.run (progs i) [] d x ∧
      (o', s.db, s.outside) = E.run (progs j) [] d' x' := by
  have hphase := h.invariant (P := fun s =>
    (s.thread j = ⟨progs j, [], []⟩ ∧
      E.run (s.thread i).prog (s.thread i).log s.db s.outside = E.run (progs i) [] d x) ∨
    ∃ o d' x', Done s i o ∧ (o, d', x') = E.run (progs i) [] d x ∧
      E.run (s.thread j).prog (s.thread j).log s.db s.outside = E.run (progs j) [] d' x')
    (.inl ⟨rfl, rfl⟩) fun s s' k _ ih hk hs => ?_
  · rcases hphase with ⟨hstart, hrun⟩ | ⟨o₁, d', x', hdone, hrun, hrun'⟩
    · have hend := ho'.run_eq (E := E)
      rw [ho.run_eq] at hrun
      rw [hstart] at hend
      exact ⟨s.db, s.outside, hrun, hend.symm⟩
    · obtain rfl := Option.some.inj (hdone.1.symm.trans ho.1)
      rw [ho'.run_eq] at hrun'
      exact ⟨d', x', hrun, hrun'⟩
  · rcases ih with ⟨hstart, hrun⟩ | ⟨o₁, d', x', hdone, hrun, hrun'⟩
    · rcases hk with rfl | ⟨rfl, o₁, hdone⟩
      · exact .inl ⟨by rw [hs.thread_ne hij.symm, hstart], hs.run_eq.trans hrun⟩
      · -- the second one starts, on what the first has left
        rw [hdone.run_eq] at hrun
        refine .inr ⟨o₁, s.db, s.outside, hs.done hdone, hrun, hs.run_eq.trans ?_⟩
        rw [hstart]
    · refine .inr ⟨o₁, d', x', hs.done hdone, hrun, ?_⟩
      rcases hk with rfl | ⟨rfl, -⟩
      · obtain ⟨hdb, hout⟩ := hs.of_done hdone
        rw [hdb, hout, hs.thread_ne hij.symm]
        exact hrun'
      · exact hs.run_eq.trans hrun'

end Engine
end Transact
