/-
# Claims

Requests compete for one row, and each may take it once. `Claim` is what
makes taking it exclusive: a phase of the monitors that a request enters by
a call which writes the row, finds it free, and leaves it taken in every
state of the store. If no request enters that phase when the row is not
free, at most one request that has not failed ever gets there
(`Claim.unique`): the others wait for its lock, and find the row taken when
it is released.

Key definition: `Claim`.
Key theorems: `Claim.holds`, `Claim.unique`.
-/
import DiddiFreeID.Transact.System

namespace Transact.Engine

variable {C : Type} {R : C → Type} {ε α D X W K ι : Type}

/-- A row that requests take: `taken` is the phase after the claim, `there`
what the store must satisfy for the row to be meaningful, `free` whether it
can be taken, `key` its lock. -/
structure Claim (E : Engine C R D X W K) {G : ι → Type} (M : ∀ i, Monitor C R ε α (G i)) where
  taken : ∀ {i}, G i → Prop
  there : D → Prop
  free : D → Prop
  key : K
  /-- No write makes the row meaningless, or free again. -/
  stays : ∀ {i} {g : G i} {c}, (M i).may g c → ∀ d x, ∀ w ∈ (E.exec c d x).2.1, ∀ d', there d' →
    there (E.apply d' w) ∧ (¬free d' → ¬free (E.apply d' w))
  /-- A commit takes nothing. -/
  commit_next : ∀ {i} {g : G i} {c} (r : R c), (M i).may g c → E.commits c = true →
    taken ((M i).next g c r) → taken g
  /-- Taking a free row locks it and leaves it taken. -/
  take : ∀ {i} {g : G i} {c} d x, (M i).may g c → ¬taken g →
    taken ((M i).next g c (E.exec c d x).1) → there d → free d →
    (∃ w ∈ (E.exec c d x).2.1, key ∈ E.keys w) ∧
      ∀ d', there d' → ¬free (E.view d' (E.exec c d x).2.1)

namespace Claim

variable {E : Engine C R D X W K} {G : ι → Type} {M : ∀ i, Monitor C R ε α (G i)} {g : ∀ i, G i}
  (cl : E.Claim M)

/-- Writes that leave the row meaningful and not free. -/
def Safe (log : List W) : Prop :=
  ∀ w ∈ log, ∀ d, cl.there d → cl.there (E.apply d w) ∧ (¬cl.free d → ¬cl.free (E.apply d w))

variable {cl} {log log' : List W} {d : D}

theorem Safe.there_view (h : cl.Safe log) (hd : cl.there d) : cl.there (E.view d log) := by
  induction log generalizing d with
  | nil => exact hd
  | cons w log ih =>
    exact ih (fun w' hw' => h w' (List.mem_cons_of_mem _ hw'))
      (h w List.mem_cons_self d hd).1

theorem Safe.not_free_view (h : cl.Safe log) (hd : cl.there d) (hf : ¬cl.free d) :
    ¬cl.free (E.view d log) := by
  induction log generalizing d with
  | nil => exact hf
  | cons w log ih =>
    obtain ⟨h1, h2⟩ := h w List.mem_cons_self d hd
    exact ih (fun w' hw' => h w' (List.mem_cons_of_mem _ hw')) h1 (h2 hf)

theorem Safe.append (h : cl.Safe log) (h' : cl.Safe log') : cl.Safe (log ++ log') := fun w hw =>
  (List.mem_append.mp hw).elim (h w) (h' w)

variable (cl)

/-- The writes of a request that has taken the row: they hold its lock, and
leave it taken wherever they are applied. -/
def Keeps (log : List W) : Prop :=
  (∃ w ∈ log, cl.key ∈ E.keys w) ∧ ∀ d, cl.there d → ¬cl.free (E.view d log)

variable {cl} in
theorem Keeps.append (h : cl.Keeps log) (hl : cl.Safe log) (hl' : cl.Safe log') :
    cl.Keeps (log ++ log') := by
  obtain ⟨⟨w, hw, hkey⟩, hk⟩ := h
  refine ⟨⟨w, List.mem_append_left _ hw, hkey⟩, fun d hd => ?_⟩
  rw [E.view_append]
  exact hl'.not_free_view (hl.there_view hd) (hk d hd)

variable {cl} in
theorem Keeps.after (h : cl.Keeps log') (hl : cl.Safe log) : cl.Keeps (log ++ log') := by
  obtain ⟨⟨w, hw, hkey⟩, hk⟩ := h
  refine ⟨⟨w, List.mem_append_right _ hw, hkey⟩, fun d hd => ?_⟩
  rw [E.view_append]
  exact hk _ (hl.there_view hd)

variable [DecidableEq ι]

/-- Request `i` has taken the row and has not failed. -/
def Holds (g : ∀ i, G i) (s : System C R ε α D X W ι) (i : ι) : Prop :=
  cl.taken (phase M g s i) ∧ ∀ e, (s.thread i).prog ≠ .raise e

/-- The row is there, no uncommitted write undoes a claim, a holder either
still has its lock or has left the row taken, and there is one holder. -/
structure Inv (g : ∀ i, G i) (s : System C R ε α D X W ι) : Prop where
  there : cl.there s.db
  safe : ∀ i, cl.Safe (s.thread i).log
  kept : ∀ i, cl.Holds g s i → ¬cl.free s.db ∨ cl.Keeps (s.thread i).log
  one : ∀ i j, cl.Holds g s i → cl.Holds g s j → i = j

/-- A step that takes the row finds it free. -/
def Guarded [Fintype ι] [DecidableEq K] (g : ∀ i, G i)
    (ok : System C R ε α D X W ι → ι → Prop) : Prop :=
  ∀ s i c k, ok s i → (s.thread i).prog = .call c k → (M i).may (phase M g s i) c →
    ¬cl.taken (phase M g s i) → cl.taken ((M i).next (phase M g s i) c (E.answer s i c).1) →
    cl.free (E.view s.db (s.thread i).log)

variable {cl} {s s' : System C R ε α D X W ι} {i j : ι}

/-- A commit or a close publishes a log: the row stays there, and taken. -/
theorem Inv.publish (h : cl.Inv g s) (hd : s'.db = E.view s.db (s.thread i).log)
    (hl : (s'.thread i).log = []) (hj : ∀ j, j ≠ i → s'.thread j = s.thread j)
    (hi : cl.Holds g s' i → cl.Holds g s i) : cl.Inv g s' := by
  have hold : ∀ j, cl.Holds g s' j → cl.Holds g s j := by
    intro j h'
    by_cases hji : j = i
    · subst hji
      exact hi h'
    · simpa only [Holds, phase, hj j hji] using h'
  have hnf : ¬cl.free s.db → ¬cl.free s'.db := fun hf => by
    rw [hd]
    exact (h.safe i).not_free_view h.there hf
  refine ⟨?_, fun j => ?_, fun j h' => ?_, fun a b ha hb => h.one a b (hold a ha) (hold b hb)⟩
  · rw [hd]
    exact (h.safe i).there_view h.there
  · by_cases hji : j = i
    · subst hji
      rw [hl]
      exact fun w hw => absurd hw List.not_mem_nil
    · rw [hj j hji]
      exact h.safe j
  · rcases h.kept j (hold j h') with hf | hk
    · exact .inl (hnf hf)
    · by_cases hji : j = i
      · subst hji
        rw [hd]
        exact .inl (hk.2 s.db h.there)
      · rw [hj j hji]
        exact .inr hk

section Call

variable {c : C} {k : R c → Prog C R ε α}

theorem Inv.safe_called (h : cl.Inv g s) (hws : cl.Safe (E.answer s i c).2.1) (j : ι) :
    cl.Safe ((E.called s i c k).thread j).log := by
  by_cases hji : j = i
  · subst hji
    rw [called_thread_self]
    exact (h.safe j).append hws
  · rw [E.called_thread_ne s c k hji]
    exact h.safe j

/-- A call by which nobody takes the row. -/
theorem Inv.called (h : cl.Inv g s) (hws : cl.Safe (E.answer s i c).2.1)
    (hold : ∀ j, cl.Holds g (E.called s i c k) j → cl.Holds g s j) :
    cl.Inv g (E.called s i c k) := by
  refine ⟨h.there, h.safe_called hws, fun j h' => ?_,
    fun a b ha hb => h.one a b (hold a ha) (hold b hb)⟩
  rcases h.kept j (hold j h') with hnf | hk
  · exact .inl hnf
  · right
    by_cases hji : j = i
    · subst hji
      rw [called_thread_self]
      exact hk.append (h.safe j) hws
    · rw [E.called_thread_ne s c k hji]
      exact hk

/-- A call by which request `i` takes the row, which is free: so nobody holds
it. -/
theorem Inv.taken (h : cl.Inv g s) (hws : cl.Safe (E.answer s i c).2.1)
    (hk : cl.Keeps (E.answer s i c).2.1) (hfr : cl.free (E.view s.db (s.thread i).log))
    (hfree : ∀ j, j ≠ i → E.Free (E.answer s i c).2.1 (s.thread j).log) :
    cl.Inv g (E.called s i c k) := by
  obtain ⟨w, hw, hkey⟩ := hk.1
  have hnobody : ∀ j, j ≠ i → ¬cl.Holds g s j := by
    intro j hji hj
    rcases h.kept j hj with hnf | ⟨⟨w', hw', hkey'⟩, -⟩
    · exact (h.safe i).not_free_view h.there hnf hfr
    · exact hfree j hji w hw w' hw' cl.key hkey hkey'
  have honly : ∀ j, cl.Holds g (E.called s i c k) j → j = i := by
    intro j hj
    by_contra hji
    exact hnobody j hji (by simpa [Holds, hji] using hj)
  refine ⟨h.there, h.safe_called hws, fun j h' => ?_, fun a b ha hb => ?_⟩
  · obtain rfl := honly j h'
    right
    rw [called_thread_self]
    exact hk.after (h.safe j)
  · rw [honly a ha, honly b hb]

end Call

/-- A request that fails holds nothing. -/
theorem Inv.rolledBack (h : cl.Inv g s) {e : ε} (hp : (s.thread i).prog = .raise e) :
    cl.Inv g (rolledBack s i) := by
  have hold : ∀ j, cl.Holds g (Engine.rolledBack s i) j → j ≠ i ∧ cl.Holds g s j := by
    intro j h'
    by_cases hji : j = i
    · subst hji
      exact absurd (by simpa using hp) (h'.2 e)
    · exact ⟨hji, by simpa [Holds, hji] using h'⟩
  refine ⟨h.there, fun j => ?_, fun j h' => ?_,
    fun a b ha hb => h.one a b (hold a ha).2 (hold b hb).2⟩
  · by_cases hji : j = i
    · subst hji
      simp [Safe]
    · simpa [hji] using h.safe j
  · obtain ⟨hji, hj⟩ := hold j h'
    simpa [hji] using h.kept j hj

variable [Fintype ι] [DecidableEq K] {ok : System C R ε α D X W ι → ι → Prop}
  {s₀ : System C R ε α D X W ι}

/-- **Step.** A guarded step keeps the claim. -/
theorem Inv.step (hok : cl.Guarded g ok) (hf : (s.thread i).prog.Follows (M i) (phase M g s i))
    (ho : ok s i) (h : cl.Inv g s) (hs : E.Step s i s') : cl.Inv g s' := by
  cases hs with
  | @call c k hp hc hfree =>
    rw [hp] at hf
    obtain ⟨hmay, -⟩ := hf
    have hws : cl.Safe (E.answer s i c).2.1 := fun w hw => cl.stays hmay _ _ w hw
    have hothers : ∀ j, j ≠ i → cl.Holds g (E.called s i c k) j → cl.Holds g s j :=
      fun j hji h' => by simpa [Holds, hji] using h'
    by_cases ht : cl.taken (phase M g s i)
    · -- the row was taken before: the request keeps it
      have hi : cl.Holds g s i := ⟨ht, fun e he => by rw [hp] at he; cases he⟩
      refine h.called hws fun j h' => ?_
      by_cases hji : j = i
      · exact hji ▸ hi
      · exact hothers j hji h'
    by_cases ht' : cl.taken ((M i).next (phase M g s i) c (E.answer s i c).1)
    · -- the request takes the row: the guard says that it is free
      have hfr := hok s i c k ho hp hmay ht ht'
      have hview := (h.safe i).there_view h.there
      exact h.taken hws (cl.take _ _ hmay ht ht' hview hfr) hfr hfree
    · refine h.called hws fun j h' => ?_
      by_cases hji : j = i
      · subst hji
        exact absurd (by simpa using h'.1) ht'
      · exact hothers j hji h'
  | @commit c k hp hc =>
    rw [hp] at hf
    obtain ⟨hmay, -⟩ := hf
    refine h.publish (i := i) rfl (by simp) (fun j hji => by simp [hji]) fun h' => ?_
    refine ⟨cl.commit_next (E.answer s i c).1 hmay hc (by simpa using h'.1), fun e he => ?_⟩
    rw [hp] at he
    cases he
  | close hp =>
    exact h.publish (i := i) rfl (by simp) (fun j hji => by simp [hji])
      fun h' => by simpa [Holds] using h'
  | abort hp => exact h.rolledBack hp

/-- **Run.** From a start where nobody has taken the row, the invariant of
the claim holds along every guarded run. -/
theorem holds (hok : cl.Guarded g ok) {d : D} {x : X} {progs : ι → Prog C R ε α}
    (hf : ∀ i, (progs i).Follows (M i) (g i)) (hd : cl.there d) (hn : ∀ i, ¬cl.taken (g i))
    (h : E.Reach ok (System.start d x progs) s) : cl.Inv g s := by
  refine h.invariant (P := cl.Inv g) ⟨hd, fun i => ?_, fun i hi => ?_, fun i j hi _ => ?_⟩
    fun s s' i hr ih ho hs => ih.step hok (hr.follows hf i) ho hs
  · exact fun w hw => absurd hw List.not_mem_nil
  · exact absurd hi.1 (hn i)
  · exact absurd hi.1 (hn i)

/-- **One holder.** -/
theorem unique (hok : cl.Guarded g ok) {d : D} {x : X} {progs : ι → Prog C R ε α}
    (hf : ∀ i, (progs i).Follows (M i) (g i)) (hd : cl.there d) (hn : ∀ i, ¬cl.taken (g i))
    (h : E.Reach ok (System.start d x progs) s) (hi : cl.Holds g s i) (hj : cl.Holds g s j) :
    i = j :=
  (holds hok hf hd hn h).one i j hi hj

end Claim
end Transact.Engine
