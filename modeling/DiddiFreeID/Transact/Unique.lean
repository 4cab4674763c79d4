/-
# Unique indexes under transactions

An index of the rows lists their keys, and a write adds keys to it. The keys
stay distinct in the committed rows and in the rows that any request sees, if
a call adds keys that are not among those its request sees, nor among those
another request is about to commit (`Reach.unique`). Locks on the keys give the
latter (`Indexed.disjoint_of_lock`), and so do draws that nobody makes twice
(`Reach.unique_drawn`).

Key definitions: `Indexed`, `Distinct`, `AddsNew`, `Drawn`.
Key theorems: `Reach.unique`, `Reach.unique_drawn`.
-/
import DiddiFreeID.Transact.History
import Mathlib.Data.List.Nodup

namespace Transact.Engine

variable {C : Type} {R : C → Type} {ε α D X W K V ι : Type} (E : Engine C R D X W K)

/-- `index` lists the keys of the rows, and a write adds `adds` to it. -/
structure Indexed (index : D → List V) (adds : W → List V) : Prop where
  apply : ∀ d w, index (E.apply d w) = index d ++ adds w

namespace Indexed

variable {E} {index : D → List V} {adds : W → List V}

theorem view (hI : E.Indexed index adds) (d : D) (log : List W) :
    index (E.view d log) = index d ++ log.flatMap adds := by
  induction log generalizing d with
  | nil => simp
  | cons w log ih => rw [view_cons, ih, hI.apply, List.flatMap_cons, List.append_assoc]

/-- Keys that are locked by the writes that add them are added by one request
at a time. -/
theorem disjoint_of_lock (lock : V → K) (hlock : ∀ w, ∀ v ∈ adds w, lock v ∈ E.keys w)
    {ws log : List W} (h : E.Free ws log) : (ws.flatMap adds).Disjoint (log.flatMap adds) := by
  intro v hv hv'
  obtain ⟨w, hw, hin⟩ := List.mem_flatMap.mp hv
  obtain ⟨w', hw', hin'⟩ := List.mem_flatMap.mp hv'
  exact h w hw w' hw' _ (hlock w v hin) (hlock w' v hin')

end Indexed

/-- No key is twice in the committed rows or in those that a request sees, and
what a request has added is apart from what any other has. -/
structure Distinct (index : D → List V) (adds : W → List V) (s : System C R ε α D X W ι) :
    Prop where
  committed : (index s.db).Nodup
  seen : ∀ i, (index (E.view s.db (s.thread i).log)).Nodup
  apart : ∀ i j, i ≠ j →
    ((s.thread i).log.flatMap adds).Disjoint ((s.thread j).log.flatMap adds)

/-- The call of request `i` adds new keys, in its own eyes and in those of all
the others. -/
structure AddsNew (index : D → List V) (adds : W → List V) (s : System C R ε α D X W ι) (i : ι)
    (c : C) : Prop where
  once : ((E.answer s i c).2.1.flatMap adds).Nodup
  unseen : (index (E.view s.db (s.thread i).log)).Disjoint ((E.answer s i c).2.1.flatMap adds)
  apart : ∀ j, j ≠ i →
    ((E.answer s i c).2.1.flatMap adds).Disjoint ((s.thread j).log.flatMap adds)

section Unique

variable {E} {d : D} {x : X} {progs : ι → Prog C R ε α} {s s' : System C R ε α D X W ι} {i : ι}
  {index : D → List V} {adds : W → List V}

theorem Distinct.start (h0 : (index d).Nodup) :
    E.Distinct index adds (System.start d x progs) where
  committed := h0
  seen _ := h0
  apart _ _ _ := by simp [System.start]

/-- What request `i` has added is apart from what the others see and have
added. -/
theorem Distinct.seen_committed (hI : E.Indexed index adds) (h : E.Distinct index adds s) {j : ι}
    (hj : j ≠ i) : (index (E.view (E.view s.db (s.thread i).log) (s.thread j).log)).Nodup := by
  have hi := h.seen i
  have hj' := h.seen j
  rw [hI.view] at hi hj' ⊢
  rw [hI.view]
  refine hi.append (List.Nodup.of_append_right hj') fun v hv hv' => ?_
  rcases List.mem_append.mp hv with hv | hv
  · exact List.disjoint_of_nodup_append hj' hv hv'
  · exact h.apart i j hj.symm hv hv'

variable [DecidableEq ι]

/-- A call keeps the keys distinct. -/
theorem Distinct.called (hI : E.Indexed index adds) (h : E.Distinct index adds s) {c : C}
    {k : R c → Prog C R ε α} (hnew : E.AddsNew index adds s i c) :
    E.Distinct index adds (E.called s i c k) where
  committed := h.committed
  seen j := by
    by_cases hj : j = i
    · subst hj
      rw [called_thread_self, called_db, view_append, hI.view (E.view _ _)]
      exact (h.seen j).append hnew.once hnew.unseen
    · rw [called_thread_ne _ _ _ _ hj, called_db]
      exact h.seen j
  apart j l hjl := by
    by_cases hj : j = i
    · subst hj
      rw [called_thread_self, called_thread_ne _ _ _ _ hjl.symm, List.flatMap_append]
      exact List.disjoint_append_left.mpr ⟨h.apart j l hjl, hnew.apart l hjl.symm⟩
    · by_cases hl : l = i
      · subst hl
        rw [called_thread_self, called_thread_ne _ _ _ _ hj, List.flatMap_append]
        exact List.disjoint_append_right.mpr ⟨h.apart j l hjl, (hnew.apart j hj).symm⟩
      · rw [called_thread_ne _ _ _ _ hj, called_thread_ne _ _ _ _ hl]
        exact h.apart j l hjl

/-- So does the end of a transaction, with its writes committed or dropped. -/
theorem Distinct.ended (hI : E.Indexed index adds) (h : E.Distinct index adds s)
    (hlog : (s'.thread i).log = []) (hothers : ∀ j, j ≠ i → s'.thread j = s.thread j)
    (hdb : s'.db = s.db ∨ s'.db = E.view s.db (s.thread i).log) : E.Distinct index adds s' where
  committed := by
    rcases hdb with hdb | hdb <;> rw [hdb]
    · exact h.committed
    · exact h.seen i
  seen j := by
    by_cases hj : j = i
    · rw [hj, hlog, view_nil]
      rcases hdb with hdb | hdb <;> rw [hdb]
      · exact h.committed
      · exact h.seen i
    · rw [hothers j hj]
      rcases hdb with hdb | hdb <;> rw [hdb]
      · exact h.seen j
      · exact h.seen_committed hI hj
  apart j l hjl := by
    by_cases hj : j = i
    · simp [hj, hlog]
    · by_cases hl : l = i
      · simp [hl, hlog]
      · rw [hothers j hj, hothers l hl]
        exact h.apart j l hjl

variable [Fintype ι] [DecidableEq K] {ok : System C R ε α D X W ι → ι → Prop}

/-- **Unique keys.** If every call adds new keys, the keys stay distinct. -/
theorem Reach.unique (h : E.Reach ok (System.start d x progs) s) (hI : E.Indexed index adds)
    (h0 : (index d).Nodup)
    (hnew : ∀ s i c k, E.Reach ok (System.start d x progs) s → ok s i →
      (s.thread i).prog = .call c k →
      (∀ j, j ≠ i → E.Free (E.answer s i c).2.1 (s.thread j).log) → E.AddsNew index adds s i c) :
    E.Distinct index adds s := by
  refine h.invariant (P := E.Distinct index adds) (.start h0) (fun s s' i hr ih ho hs => ?_)
  have hothers : ∀ j, j ≠ i → s'.thread j = s.thread j := fun j hj => hs.thread_ne hj
  cases hs with
  | call hp hc hf => exact ih.called hI (hnew s i _ _ hr ho hp hf)
  | commit | close => exact ih.ended hI (by simp) hothers (.inr rfl)
  | abort => exact ih.ended hI (by simp) hothers (.inl rfl)

/-- Every key that is drawn is new, and drawn by one request. -/
def Drawn (draw : ι → Option V) (old : List V) : Prop :=
  ∀ i, ∀ v ∈ draw i, v ∉ old ∧ ∀ j, v ∈ draw j → j = i

/-- **Drawn keys.** If requests add only keys they have drawn, each once, the
keys stay distinct. -/
theorem Reach.unique_drawn (h : E.Reach ok (System.start d x progs) s) (hI : E.Indexed index adds)
    (h0 : (index d).Nodup) {draw : ι → Option V} (hdraw : Drawn draw (index d))
    (howner : ∀ s i w v, E.Reach ok (System.start d x progs) s → E.Produced s i w → v ∈ adds w →
      draw i = some v)
    (honce : ∀ s i c k, E.Reach ok (System.start d x progs) s → (s.thread i).prog = .call c k →
      (E.answer s i c).2.1.flatMap adds = [] ∨ ∃ v, (E.answer s i c).2.1.flatMap adds = [v] ∧
        draw i = some v ∧ ∀ w, E.Produced s i w → v ∉ adds w) :
    E.Distinct index adds s := by
  refine h.unique hI h0 fun s i c k hr _ hp _ => ?_
  rcases honce s i c k hr hp with hnil | ⟨v, hv, hdrawn, hfirst⟩
  · exact ⟨by simp [hnil], by simp [hnil], by simp [hnil]⟩
  · obtain ⟨hnew, hmine⟩ := hdraw i v hdrawn
    refine ⟨by simp [hv], ?_, fun j hj => ?_⟩
    · rw [hv]
      obtain ⟨ws, hview, hws⟩ := hr.history_view i
      rw [hview, hI.view]
      refine List.disjoint_singleton.mpr fun hin => ?_
      rcases List.mem_append.mp hin with hin | hin
      · exact hnew hin
      · obtain ⟨w, hw, hadds⟩ := List.mem_flatMap.mp hin
        obtain ⟨p, hp, rfl⟩ := List.mem_map.mp hw
        have hprod := hws p hp
        rw [hmine _ (howner s _ _ v hr hprod hadds)] at hprod
        exact hfirst _ hprod hadds
    · rw [hv]
      refine List.singleton_disjoint.mpr fun hin => hj ?_
      obtain ⟨w, hw, hadds⟩ := List.mem_flatMap.mp hin
      exact hmine j (howner s j w v hr (hr.history.2 j w hw) hadds)

end Unique

end Transact.Engine
