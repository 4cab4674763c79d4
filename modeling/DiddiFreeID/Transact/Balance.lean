/-
# What the requests add up to

Calls add to what is counted: through the writes they make, once these are
committed (`Counted`), or outside the database at once (`Shown`). In every
interleaving the sums balance: what the committed rows count, and what the
uncommitted writes still hold, is what was there at first and what every answered
call has added (`Reach.balance`, `Reach.shown`). A request that has not committed
holds all it has added (`Reach.uncommitted`).

Key definitions: `Counted`, `Shown`.
Key theorems: `Reach.balance`, `Reach.shown`, `Reach.uncommitted`.
-/
import DiddiFreeID.Transact.System
import Mathlib.Algebra.BigOperators.Group.Finset.Basic
import Mathlib.Algebra.BigOperators.Group.List.Basic
import Mathlib.Data.Fintype.Basic
import Mathlib.Tactic.Abel

namespace Transact.Engine

variable {C : Type} {R : C → Type} {ε α D X W K ι M : Type} [AddCommMonoid M]

/-- `count` of the rows grows by what the writes add, and these add what the call
that made them does. -/
structure Counted (E : Engine C R D X W K) (count : D → M) (adds : W → M)
    (told : Answered C R → M) : Prop where
  apply : ∀ d w, count (E.apply d w) = count d + adds w
  answer : ∀ c d x, ((E.exec c d x).2.1.map adds).sum = told ⟨c, (E.exec c d x).1⟩
  commits : ∀ c r, E.commits c = true → told ⟨c, r⟩ = 0

/-- `count` of what is outside grows by what the calls add. -/
def Shown (E : Engine C R D X W K) (count : X → M) (told : Answered C R → M) : Prop :=
  ∀ c d x, count (E.exec c d x).2.2 = count x + told ⟨c, (E.exec c d x).1⟩

/-- Where one term changes, the rest of the sum stays. -/
theorem exists_sum_rest [Fintype ι] [DecidableEq ι] {f f' : ι → M} {i : ι}
    (h : ∀ j, j ≠ i → f' j = f j) : ∃ rest, ∑ j, f j = f i + rest ∧ ∑ j, f' j = f' i + rest := by
  refine ⟨∑ j ∈ Finset.univ.erase i, f j, (Finset.add_sum_erase _ _ (Finset.mem_univ i)).symm, ?_⟩
  rw [← Finset.add_sum_erase _ _ (Finset.mem_univ i)]
  exact congrArg (f' i + ·) (Finset.sum_congr rfl fun j hj => h j (Finset.ne_of_mem_erase hj))

variable {E : Engine C R D X W K} {count : D → M} {adds : W → M} {told : Answered C R → M}

namespace Counted

theorem view (hE : E.Counted count adds told) (d : D) (log : List W) :
    count (E.view d log) = count d + (log.map adds).sum := by
  induction log generalizing d with
  | nil => simp
  | cons w log ih => rw [view_cons, ih, hE.apply, List.map_cons, List.sum_cons, add_assoc]

end Counted

variable [Fintype ι] [DecidableEq ι] {s s' : System C R ε α D X W ι} {i : ι}

theorem sum_snoc (t : List (Answered C R)) (a : Answered C R) :
    ((t ++ [a]).map told).sum = (t.map told).sum + told a := by
  rw [List.map_append, List.sum_append, List.map_singleton, List.sum_singleton]

/-- What has been counted and what uncommitted writes hold is `first` and what
has been told. -/
def Balanced (count : D → M) (adds : W → M) (told : Answered C R → M) (first : M)
    (s : System C R ε α D X W ι) : Prop :=
  count s.db + ∑ i, ((s.thread i).log.map adds).sum =
    first + ∑ i, ((s.thread i).trace.map told).sum

/-- **Step.** Only an exception could lose anything. -/
theorem Step.balanced (hE : E.Counted count adds told) (hs : E.Step s i s')
    (hlost : ∀ e, (s.thread i).prog = .raise e → ((s.thread i).log.map adds).sum = 0) {first : M}
    (h : Balanced count adds told first s) : Balanced count adds told first s' := by
  have hlogs : ∃ rest,
      ∑ j, ((s.thread j).log.map adds).sum = ((s.thread i).log.map adds).sum + rest ∧
      ∑ j, ((s'.thread j).log.map adds).sum = ((s'.thread i).log.map adds).sum + rest :=
    exists_sum_rest fun j hj => by rw [hs.thread_ne hj]
  have htraces : ∃ rest,
      ∑ j, ((s.thread j).trace.map told).sum = ((s.thread i).trace.map told).sum + rest ∧
      ∑ j, ((s'.thread j).trace.map told).sum = ((s'.thread i).trace.map told).sum + rest :=
    exists_sum_rest fun j hj => by rw [hs.thread_ne hj]
  obtain ⟨restL, hlog, hlog'⟩ := hlogs
  obtain ⟨restT, htrace, htrace'⟩ := htraces
  unfold Balanced at h ⊢
  rw [hlog, htrace] at h
  rw [hlog', htrace']
  cases hs with
  | @call c k hp hc hf =>
    have hwrites : ((E.answer s i c).2.1.map adds).sum = told ⟨c, (E.answer s i c).1⟩ :=
      hE.answer c _ _
    rw [called_thread_self, sum_snoc, List.map_append, List.sum_append, hwrites, called_db]
    calc count s.db + (((s.thread i).log.map adds).sum + told ⟨c, (E.answer s i c).1⟩ + restL)
        = count s.db + (((s.thread i).log.map adds).sum + restL) +
            told ⟨c, (E.answer s i c).1⟩ := by abel
      _ = first + (((s.thread i).trace.map told).sum + restT) + told ⟨c, (E.answer s i c).1⟩ := by
          rw [h]
      _ = first + (((s.thread i).trace.map told).sum + told ⟨c, (E.answer s i c).1⟩ + restT) := by
          abel
  | @commit c k hp hc =>
    rw [committed_thread_self, sum_snoc, hE.commits c _ hc, add_zero, committed_db, hE.view,
      List.map_nil, List.sum_nil, zero_add, add_assoc]
    exact h
  | close hp =>
    rw [closed_thread_self, closed_db, hE.view, List.map_nil, List.sum_nil, zero_add, add_assoc]
    exact h
  | abort hp =>
    rw [hlost _ hp, zero_add] at h
    rw [rolledBack_thread_self, rolledBack_db, List.map_nil, List.sum_nil, zero_add]
    exact h

variable [DecidableEq K] {ok : System C R ε α D X W ι → ι → Prop} {d : D} {x : X}
  {progs : ι → Prog C R ε α}

/-- **Balance.** Where a request that raises holds nothing, nothing is lost. -/
theorem Reach.balance (hE : E.Counted count adds told)
    (h : E.Reach ok (System.start d x progs) s)
    (hlost : ∀ s i e, E.Reach ok (System.start d x progs) s → (s.thread i).prog = .raise e →
      ((s.thread i).log.map adds).sum = 0) :
    count s.db + ∑ i, ((s.thread i).log.map adds).sum =
      count d + ∑ i, ((s.thread i).trace.map told).sum := by
  refine h.invariant (P := Balanced count adds told (count d)) ?_
    fun s s' i hr ih _ hs => hs.balanced hE (hlost s i · hr) ih
  simp [Balanced, System.start]

/-- What is shown outside is what every call has added. -/
theorem Reach.shown {count : X → M} (hE : E.Shown count told)
    (h : E.Reach ok (System.start d x progs) s) :
    count s.outside = count x + ∑ i, ((s.thread i).trace.map told).sum := by
  refine h.invariant (P := fun s => count s.outside =
    count x + ∑ i, ((s.thread i).trace.map told).sum) (by simp [System.start])
    fun s s' i _ ih _ hs => ?_
  have htraces : ∃ rest,
      ∑ j, ((s.thread j).trace.map told).sum = ((s.thread i).trace.map told).sum + rest ∧
      ∑ j, ((s'.thread j).trace.map told).sum = ((s'.thread i).trace.map told).sum + rest :=
    exists_sum_rest fun j hj => by rw [hs.thread_ne hj]
  obtain ⟨rest, htrace, htrace'⟩ := htraces
  rw [htrace] at ih
  rw [htrace']
  cases hs with
  | @call c k | @commit c k =>
    first | rw [called_thread_self] | rw [committed_thread_self]
    rw [sum_snoc]
    calc count (E.answer s i c).2.2
        = count s.outside + told ⟨c, (E.answer s i c).1⟩ := hE c _ _
      _ = count x + (((s.thread i).trace.map told).sum + rest) + told ⟨c, (E.answer s i c).1⟩ := by
          rw [ih]
      _ = count x + (((s.thread i).trace.map told).sum + told ⟨c, (E.answer s i c).1⟩ + rest) := by
          abel
  | close => rwa [closed_thread_self]
  | abort => rwa [rolledBack_thread_self]

/-- A request that has not committed and goes on holds all it has added. -/
theorem Reach.uncommitted (hE : E.Counted count adds told)
    (h : E.Reach ok (System.start d x progs) s) (i : ι)
    (hgoes : (s.thread i).prog.ended = false)
    (hnone : ∀ a ∈ (s.thread i).trace, E.commits a.1 = false) :
    ((s.thread i).log.map adds).sum = ((s.thread i).trace.map told).sum := by
  refine h.invariant (P := fun s => (s.thread i).prog.ended = false →
    (∀ a ∈ (s.thread i).trace, E.commits a.1 = false) →
    ((s.thread i).log.map adds).sum = ((s.thread i).trace.map told).sum) (fun _ _ => rfl)
    (fun s s' j _ ih _ hs hgoes hnone => ?_) hgoes hnone
  by_cases hij : i = j
  · subst hij
    cases hs with
    | @call c k hp =>
      rw [called_thread_self] at hnone ⊢
      have hold := ih (by rw [hp]; rfl) fun a ha => hnone a (List.mem_append_left _ ha)
      have hwrites : ((E.answer s i c).2.1.map adds).sum = told ⟨c, (E.answer s i c).1⟩ :=
        hE.answer c _ _
      rw [sum_snoc, List.map_append, List.sum_append, hold, hwrites]
    | @commit c k hp hc =>
      have hfalse := hnone ⟨c, (E.answer s i c).1⟩ (by simp)
      rw [hc] at hfalse
      cases hfalse
    | close hp | abort hp =>
      simp [hp, Prog.ended] at hgoes
  · rw [hs.thread_ne hij] at hgoes hnone ⊢
    exact ih hgoes hnone

end Transact.Engine
