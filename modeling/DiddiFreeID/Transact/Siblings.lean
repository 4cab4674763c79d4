/-
# Two stores that answer alike

Two engines share the rows, the writes and the locks, and differ in what is
outside the database. On the calls that are `steady` they give the same answer
and make the same writes whatever is outside; the calls that are `aside` write
nothing in either. Then programs of steady calls run alike under both, step by
step on one schedule, whatever programs of aside calls run beside them
(`state_alike`): the rows are the same at every instant, and so is all that a
steady program has been told. What is outside stays related.

Key definitions: `Siblings`, `Alike`.
Key theorems: `step_alike`, `state_alike`.
-/
import DiddiFreeID.Transact.Failing
import DiddiFreeID.Transact.Schedule

namespace Transact.Engine

variable {C : Type} {R : C → Type} {ε α D X X' W K ι : Type}

/-- The engines agree on the steady calls, and the aside ones write nothing;
both keep what is outside related. -/
structure Siblings (E : Engine C R D X W K) (E' : Engine C R D X' W K) (steady aside : C → Bool)
    (rel : X → X' → Prop) : Prop where
  commits : E'.commits = E.commits
  apply : E'.apply = E.apply
  keys : E'.keys = E.keys
  answer : ∀ c d x x', steady c = true → (E'.exec c d x').1 = (E.exec c d x).1
  writes : ∀ c d x x', steady c = true → (E'.exec c d x').2.1 = (E.exec c d x).2.1
  related : ∀ c d x x', steady c = true → rel x x' → rel (E.exec c d x).2.2 (E'.exec c d x').2.2
  aside_commits : ∀ c, aside c = true → E.commits c = false
  aside_writes : ∀ c d x x', aside c = true → (E.exec c d x).2.1 = [] ∧ (E'.exec c d x').2.1 = []
  aside_left : ∀ c d x x', aside c = true → rel x x' → rel (E.exec c d x).2.2 x'
  aside_right : ∀ c d x x', aside c = true → rel x x' → rel x (E'.exec c d x').2.2

/-- The states have the same rows and, but for the requests `apart`, which have
written nothing, the same requests. -/
structure Alike (rel : X → X' → Prop) (apart : ι → Prop) (s : System C R ε α D X W ι)
    (s' : System C R ε α D X' W ι) : Prop where
  db : s'.db = s.db
  thread : ∀ i, ¬apart i → s'.thread i = s.thread i
  log : ∀ i, apart i → (s.thread i).log = [] ∧ (s'.thread i).log = []
  outside : rel s.outside s'.outside

section Steps

variable {E : Engine C R D X W K} {E' : Engine C R D X' W K} {steady aside : C → Bool}
  {rel : X → X' → Prop} {apart : ι → Prop} {s t : System C R ε α D X W ι}
  {s' t' : System C R ε α D X' W ι} {i : ι}

theorem Siblings.symm (hE : Siblings E E' steady aside rel) :
    Siblings E' E steady aside fun x' x => rel x x' where
  commits := hE.commits.symm
  apply := hE.apply.symm
  keys := hE.keys.symm
  answer c d x x' hc := (hE.answer c d x' x hc).symm
  writes c d x x' hc := (hE.writes c d x' x hc).symm
  related c d x x' hc h := hE.related c d x' x hc h
  aside_commits c hc := by
    rw [hE.commits]
    exact hE.aside_commits c hc
  aside_writes c d x x' hc := (hE.aside_writes c d x' x hc).symm
  aside_left c d x x' hc h := hE.aside_right c d x' x hc h
  aside_right c d x x' hc h := hE.aside_left c d x' x hc h

theorem Siblings.view (hE : Siblings E E' steady aside rel) (d : D) (log : List W) :
    E'.view d log = E.view d log := by
  unfold Engine.view
  rw [hE.apply]

theorem Siblings.free (hE : Siblings E E' steady aside rel) (ws log : List W) :
    E'.Free ws log ↔ E.Free ws log := by
  unfold Free
  rw [hE.keys]

theorem Alike.start {d : D} {x : X} {x' : X'} {progs : ι → Prog C R ε α} (h : rel x x') :
    Alike rel apart (System.start d x progs : System C R ε α D X W ι) (System.start d x' progs) :=
  ⟨rfl, fun _ _ => rfl, fun _ _ => ⟨rfl, rfl⟩, h⟩

theorem Alike.symm (h : Alike rel apart s s') : Alike (fun x' x => rel x x') apart s' s :=
  ⟨h.db.symm, fun i hi => (h.thread i hi).symm, fun i hi => (h.log i hi).symm, h.outside⟩

/-- The answer to a steady call is the same. -/
theorem Alike.answer (hE : Siblings E E' steady aside rel) (h : Alike rel apart s s')
    (hi : ¬apart i) {c : C} (hc : steady c = true) :
    (E'.answer s' i c).1 = (E.answer s i c).1 ∧ (E'.answer s' i c).2.1 = (E.answer s i c).2.1 ∧
      rel (E.answer s i c).2.2 (E'.answer s' i c).2.2 := by
  have hview : E'.view s'.db (s'.thread i).log = E.view s.db (s.thread i).log := by
    rw [hE.view, h.db, h.thread i hi]
  unfold Engine.answer
  rw [hview]
  exact ⟨hE.answer c _ _ _ hc, hE.writes c _ _ _ hc, hE.related c _ _ _ hc h.outside⟩

/-- A request that is not apart goes from a thread to the same one in both. -/
theorem Alike.step (h : Alike rel apart s s') (hi : ¬apart i) (hdb : t'.db = t.db)
    (hself : t'.thread i = t.thread i) (hothers : ∀ j, j ≠ i → t.thread j = s.thread j)
    (hothers' : ∀ j, j ≠ i → t'.thread j = s'.thread j) (hout : rel t.outside t'.outside) :
    Alike rel apart t t' where
  db := hdb
  thread j hj := by
    by_cases hji : j = i
    · rw [hji, hself]
    · rw [hothers' j hji, hothers j hji, h.thread j hj]
  log j hj := by
    have hji : j ≠ i := by
      rintro rfl
      exact hi hj
    rw [hothers j hji, hothers' j hji]
    exact h.log j hj
  outside := hout

variable [DecidableEq ι]

/-- The other store does not see the step of a request apart. -/
theorem Step.alike (hE : Siblings E E' steady aside rel) (h : Alike rel apart s s') (hi : apart i)
    (hf : (s.thread i).prog.Follows (only aside R ε α) ()) (hs : E.Step s i t) :
    Alike rel apart t s' := by
  have hothers : ∀ j, ¬apart j → s'.thread j = t.thread j := by
    intro j hj
    have hne : j ≠ i := by
      rintro rfl
      exact hj hi
    rw [hs.thread_ne hne, h.thread j hj]
  have hlogs : (t.thread i).log = [] →
      ∀ j, apart j → (t.thread j).log = [] ∧ (s'.thread j).log = [] := by
    intro hlog j hj
    by_cases hji : j = i
    · rw [hji]
      exact ⟨hlog, (h.log i hi).2⟩
    · rw [hs.thread_ne hji]
      exact h.log j hj
  have hlog := (h.log i hi).1
  cases hs with
  | @call c k hp =>
    rw [hp] at hf
    refine ⟨h.db, hothers, hlogs ?_, hE.aside_left c _ _ _ hf.1 h.outside⟩
    rw [called_thread_self, hlog, Engine.answer, (hE.aside_writes c _ _ s'.outside hf.1).1,
      List.append_nil]
  | @commit c k hp hc =>
    rw [hp] at hf
    rw [hE.aside_commits c hf.1] at hc
    cases hc
  | close hp =>
    refine ⟨?_, hothers, hlogs (by simp), h.outside⟩
    rw [closed_db, hlog, view_nil, h.db]
  | abort hp => exact ⟨h.db, hothers, hlogs (by simp), h.outside⟩

/-- A call that writes nothing leaves nothing uncommitted. -/
theorem Step.silent {P : C → Bool} (hP : ∀ c d x, P c = true → (E.exec c d x).2.1 = [])
    (hs : E.Step s i t) {j : ι} (hf : (s.thread j).prog.Follows (only P R ε α) ())
    (hl : (s.thread j).log = []) : (t.thread j).log = [] := by
  by_cases hj : j = i
  · subst hj
    cases hs with
    | call hp =>
      rw [hp] at hf
      rw [called_thread_self, hl, Engine.answer, hP _ _ _ hf.1, List.append_nil]
    | commit | close | abort => simp
  · rw [hs.thread_ne hj, hl]

variable [Fintype ι] [DecidableEq K]

/-- **Step.** A request of steady calls takes the same step in both stores. -/
theorem step_alike (hE : Siblings E E' steady aside rel) (h : Alike rel apart s s') (hi : ¬apart i)
    (hf : (s.thread i).prog.Follows (only steady R ε α) ()) :
    (E.step s i = none ∧ E'.step s' i = none) ∨
      ∃ t t', E.step s i = some t ∧ E'.step s' i = some t' ∧ Alike rel apart t t' := by
  have hthread := h.thread i hi
  have hview : E'.view s'.db (s'.thread i).log = E.view s.db (s.thread i).log := by
    rw [hE.view, h.db, hthread]
  unfold step
  rw [hthread]
  cases hp : (s.thread i).prog with
  | ret a =>
    by_cases hl : (s.thread i).log.isEmpty = true
    · exact .inl ⟨by simp [hl], by simp [hl]⟩
    · refine .inr ⟨E.closed s i, E'.closed s' i, by simp [hl], by simp [hl],
        h.step hi hview ?_ ?_ ?_ h.outside⟩
      · simp [hthread]
      · exact fun j hj => by simp [hj]
      · exact fun j hj => by simp [hj]
  | raise e =>
    by_cases hl : (s.thread i).log.isEmpty = true
    · exact .inl ⟨by simp [hl], by simp [hl]⟩
    · refine .inr ⟨rolledBack s i, rolledBack s' i, by simp [hl], by simp [hl],
        h.step hi h.db ?_ ?_ ?_ h.outside⟩
      · simp [hthread]
      · exact fun j hj => by simp [hj]
      · exact fun j hj => by simp [hj]
  | call c k =>
    rw [hp] at hf
    obtain ⟨hanswer, hwrites, hout⟩ := h.answer hE hi (c := c) hf.1
    dsimp only
    rw [hE.commits]
    by_cases hc : E.commits c = true
    · rw [if_pos hc, if_pos hc]
      refine .inr ⟨_, _, rfl, rfl, h.step hi hview ?_ ?_ ?_ hout⟩
      · rw [committed_thread_self, committed_thread_self, hanswer, hthread]
      · exact fun j hj => by simp [hj]
      · exact fun j hj => by simp [hj]
    · rw [if_neg hc, if_neg hc]
      -- the same locks stop it
      have hlocks : (∀ j, j ≠ i → E'.Free (E'.answer s' i c).2.1 (s'.thread j).log) ↔
          ∀ j, j ≠ i → E.Free (E.answer s i c).2.1 (s.thread j).log := by
        refine forall₂_congr fun j _ => ?_
        rw [hE.free, hwrites]
        by_cases hj : apart j
        · rw [(h.log j hj).1, (h.log j hj).2]
        · rw [h.thread j hj]
      by_cases hfree : ∀ j, j ≠ i → E.Free (E.answer s i c).2.1 (s.thread j).log
      · rw [if_pos hfree, if_pos (hlocks.mpr hfree)]
        refine .inr ⟨_, _, rfl, rfl, h.step hi h.db ?_ ?_ ?_ hout⟩
        · rw [called_thread_self, called_thread_self, hanswer, hwrites, hthread]
        · exact fun j hj => by simp [hj]
        · exact fun j hj => by simp [hj]
      · rw [if_neg hfree, if_neg fun hf' => hfree (hlocks.mp hf')]
        exact .inl ⟨rfl, rfl⟩

end Steps

section Runs

variable {E : Engine C R D X W K} {E' : Engine C R D X' W K} {steady aside : C → Bool}
  {rel : X → X' → Prop} {apart : ι → Prop} [Fintype ι] [DecidableEq ι] [DecidableEq K] {d : D}
  {x : X} {x' : X'} {progs : ι → Prog C R ε α}

/-- What is left of a program makes calls of its kind. -/
theorem state_only {P : C → Bool} {i : ι} (h : (progs i).Follows (only P R ε α) ()) (sched : ℕ → ι)
    (n : ℕ) :
    ((E.state (System.start d x progs) sched n).thread i).prog.Follows (only P R ε α) () :=
  state_stable (P := fun s => (s.thread i).prog.Follows (only P R ε α) ())
    (fun _ _ hp hs => hs.follows (M := fun _ => only P R ε α) (g := fun _ => ()) hp)
    (Nat.zero_le n) h

theorem state_silent {P : C → Bool} (hP : ∀ c d x, P c = true → (E.exec c d x).2.1 = []) {i : ι}
    (h : (progs i).Follows (only P R ε α) ()) (sched : ℕ → ι) (n : ℕ) :
    ((E.state (System.start d x progs) sched n).thread i).log = [] := by
  induction n with
  | zero => rfl
  | succ n ih =>
    rcases state_cases E (System.start d x progs) sched n with ⟨-, hs⟩ | hs
    · rw [hs]
      exact ih
    · exact hs.silent hP (state_only h sched n) ih

/-- **Run.** On one schedule the two stores are alike at every instant. -/
theorem state_alike (hE : Siblings E E' steady aside rel) (hx : rel x x')
    (hsteady : ∀ i, ¬apart i → (progs i).Follows (only steady R ε α) ())
    (haside : ∀ i, apart i → (progs i).Follows (only aside R ε α) ()) (sched : ℕ → ι) (n : ℕ) :
    Alike rel apart (E.state (System.start d x progs) sched n)
      (E'.state (System.start d x' progs) sched n) := by
  induction n with
  | zero => exact .start hx
  | succ n ih =>
    by_cases hi : apart (sched n)
    · have hleft : Alike rel apart (E.state (System.start d x progs) sched (n + 1))
          (E'.state (System.start d x' progs) sched n) := by
        rcases state_cases E (System.start d x progs) sched n with ⟨-, hs⟩ | hs
        · rw [hs]
          exact ih
        · exact hs.alike hE ih hi (state_only (haside _ hi) sched n)
      rcases state_cases E' (System.start d x' progs) sched n with ⟨-, hs⟩ | hs
      · rw [hs]
        exact hleft
      · exact (hs.alike hE.symm hleft.symm hi (state_only (haside _ hi) sched n)).symm
    · unfold state
      rcases step_alike hE ih hi (state_only (hsteady _ hi) sched n)
        with ⟨hs, hs'⟩ | ⟨t, t', hs, hs', ht⟩
      · rw [hs, hs']
        exact ih
      · rw [hs, hs']
        exact ht

end Runs

end Transact.Engine
