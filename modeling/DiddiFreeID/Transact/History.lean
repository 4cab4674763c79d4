/-
# What the requests have been told

The answered calls of a request are all it knows. The monitor `tracing` lets
a call, a result or an exception depend on every one of them, so what a
program does can be said by naming the answers that it goes on
(`Reach.asked`), and a property of what the requests have been told is
proved of one answer at a time (`Reach.heard`); on a schedule every answer has
its instant (`state_told`).

The other way round, nothing is in the rows that no request has asked for:
the committed rows are the first ones under writes that answered calls have
made, each by a request that has committed since (`Reach.history`).

Key definitions: `tracing`, `Engine.Produced`, `Engine.Settled`.
Key theorems: `Reach.asked`, `Reach.heard`, `state_told`, `Reach.history`.
-/
import DiddiFreeID.Transact.Schedule

namespace Transact

variable {C : Type} {R : C → Type} {ε α D X W K ι : Type}

/-- Nothing comes twice where nothing has come before. -/
theorem nodup_map_of_first {A B : Type} {f : A → B} {l : List A}
    (h : ∀ before a after, l = before ++ a :: after → ∀ b ∈ before, f b ≠ f a) :
    (l.map f).Nodup := by
  induction l using List.reverseRecOn with
  | nil => exact List.nodup_nil
  | append_singleton l a ih =>
    have hold := ih fun before b after hl => h before b (after ++ [a]) (by rw [hl]; simp)
    rw [List.map_append, List.nodup_append]
    refine ⟨hold, List.nodup_singleton _, fun b hb c hc => ?_⟩
    obtain ⟨b', hb', rfl⟩ := List.mem_map.mp hb
    rw [List.mem_singleton.mp hc]
    exact h l a [] rfl b' hb'

/-- The monitor whose phase is the trace. -/
def tracing (may : List (Answered C R) → C → Prop) (mayRet : List (Answered C R) → α → Prop)
    (mayRaise : List (Answered C R) → ε → Prop) : Monitor C R ε α (List (Answered C R)) where
  next trace c r := trace ++ [⟨c, r⟩]
  may := may
  mayRet := mayRet
  mayRaise := mayRaise

section Tracing

variable {may : List (Answered C R) → C → Prop} {mayRet : List (Answered C R) → α → Prop}
  {mayRaise : List (Answered C R) → ε → Prop}

@[simp] theorem phase_tracing (trace : List (Answered C R)) :
    (tracing may mayRet mayRaise).phase [] trace = trace := by
  induction trace using List.reverseRecOn with
  | nil => rfl
  | append_singleton trace a ih => rw [Monitor.phase_snoc, ih]; rfl

end Tracing

namespace Engine

variable (E : Engine C R D X W K)

/-- A call that request `i` has been answered made the write. -/
def Produced (s : System C R ε α D X W ι) (i : ι) (w : W) : Prop :=
  ∃ a ∈ (s.thread i).trace, ∃ d x, (E.exec a.1 d x).1 = a.2 ∧ w ∈ (E.exec a.1 d x).2.1

/-- Request `i` has committed, or has returned. -/
def Settled (s : System C R ε α D X W ι) (i : ι) : Prop :=
  (∃ a ∈ (s.thread i).trace, E.commits a.1 = true) ∨ ∃ a, (s.thread i).prog = .ret a

variable {E} {s s' : System C R ε α D X W ι} {i j : ι} [DecidableEq ι]

/-- What has been answered stays so. -/
theorem Step.trace_mem (h : E.Step s i s') {a : Answered C R} (ha : a ∈ (s.thread j).trace) :
    a ∈ (s'.thread j).trace := by
  by_cases hj : j = i
  · subst hj
    cases h.advance with
    | answered _ _ htrace => rw [htrace]; exact List.mem_append_left _ ha
    | finished _ _ htrace => rwa [htrace]
  · rwa [h.thread_ne hj]

theorem Step.produced (h : E.Step s i s') {w : W} (hw : E.Produced s j w) : E.Produced s' j w := by
  obtain ⟨a, ha, hwrites⟩ := hw
  exact ⟨a, h.trace_mem ha, hwrites⟩

theorem Step.settled (h : E.Step s i s') (hj : E.Settled s j) : E.Settled s' j := by
  rcases hj with ⟨a, ha, hc⟩ | ⟨a, hp⟩
  · exact .inl ⟨a, h.trace_mem ha, hc⟩
  · right
    by_cases hji : j = i
    · subst hji
      cases h.advance with
      | answered hp' => rw [hp] at hp'; cases hp'
      | finished _ hprog _ => exact ⟨a, hprog.trans hp⟩
    · exact ⟨a, by rw [h.thread_ne hji, hp]⟩

variable [Fintype ι] [DecidableEq K] {ok : System C R ε α D X W ι → ι → Prop} {d : D} {x : X}
  {progs : ι → Prog C R ε α}

/-- **Answers.** What an answer keeps, given all the earlier ones, holds of
every answer. -/
theorem Reach.heard {P : System C R ε α D X W ι → ι → Answered C R → Prop}
    (h : E.Reach ok (System.start d x progs) s)
    (hmono : ∀ s s' i j a, E.Step s i s' → P s j a → P s' j a)
    (hnew : ∀ s i c k, E.Reach ok (System.start d x progs) s → ok s i →
      (s.thread i).prog = .call c k → (∀ j, ∀ a ∈ (s.thread j).trace, P s j a) →
      P s i ⟨c, (E.answer s i c).1⟩) :
    ∀ i, ∀ a ∈ (s.thread i).trace, P s i a := by
  refine h.invariant (P := fun s => ∀ i, ∀ a ∈ (s.thread i).trace, P s i a)
    (fun i a ha => absurd ha List.not_mem_nil) (fun s s' i hr ih ho hs j a ha => ?_)
  by_cases hj : j = i
  · subst hj
    cases hs.advance with
    | answered hp _ htrace =>
      rw [htrace] at ha
      rcases List.mem_append.mp ha with ha | ha
      · exact hmono s s' j j a hs (ih j a ha)
      · rw [List.mem_singleton.mp ha]
        exact hmono s s' j j _ hs (hnew s j _ _ hr ho hp ih)
    | finished _ _ htrace =>
      rw [htrace] at ha
      exact hmono s s' j j a hs (ih j a ha)
  · rw [hs.thread_ne hj] at ha
    exact hmono s s' i j a hs (ih j a ha)

/-- What has been answered by an instant stays so. -/
theorem state_trace_mem {s₀ : System C R ε α D X W ι} {sched : ℕ → ι} {m n : ℕ} {i : ι}
    {a : Answered C R} (hmn : m ≤ n) (ha : a ∈ ((E.state s₀ sched m).thread i).trace) :
    a ∈ ((E.state s₀ sched n).thread i).trace :=
  state_stable (P := fun s => a ∈ (s.thread i).trace) (fun _ _ hp hs => hs.trace_mem hp) hmn ha

/-- **When.** Every answered call was made at an instant before. -/
theorem state_told {sched : ℕ → ι} {n : ℕ} {i : ι} {a : Answered C R}
    (ha : a ∈ ((E.state (System.start d x progs) sched n).thread i).trace) :
    ∃ m < n, sched m = i ∧
      ((E.state (System.start d x progs) sched m).thread i).next = some a.1 ∧
      (E.answer (E.state (System.start d x progs) sched m) i a.1).1 = a.2 := by
  induction n with
  | zero => exact absurd ha List.not_mem_nil
  | succ n ih =>
    by_cases hold : a ∈ ((E.state (System.start d x progs) sched n).thread i).trace
    · obtain ⟨m, hm, h⟩ := ih hold
      exact ⟨m, hm.trans n.lt_succ_self, h⟩
    rcases state_cases E (System.start d x progs) sched n with ⟨-, hs⟩ | hs
    · rw [hs] at ha
      exact absurd ha hold
    by_cases hi : i = sched n
    · rw [← hi] at hs
      cases hs.advance with
      | @answered c k hp _ htrace =>
        rw [htrace] at ha
        rcases List.mem_append.mp ha with ha | ha
        · exact absurd ha hold
        · rw [List.mem_singleton.mp ha]
          exact ⟨n, n.lt_succ_self, hi.symm, Thread.next_eq_some.mpr ⟨k, hp⟩, rfl⟩
      | finished _ _ htrace =>
        rw [htrace] at ha
        exact absurd ha hold
    · rw [hs.thread_ne hi] at ha
      exact absurd ha hold

section Asked

variable {may : List (Answered C R) → C → Prop} {mayRet : List (Answered C R) → α → Prop}
  {mayRaise : List (Answered C R) → ε → Prop}

/-- What is left of a program goes on what it has been told. -/
theorem Reach.follows_trace (h : E.Reach ok (System.start d x progs) s)
    (hf : (progs i).Follows (tracing may mayRet mayRaise) []) :
    (s.thread i).prog.Follows (tracing may mayRet mayRaise) (s.thread i).trace := by
  have hi := h.invariant (P := fun s => (s.thread i).prog.Follows (tracing may mayRet mayRaise)
      (phase (fun _ => tracing may mayRet mayRaise) (fun _ => []) s i)) hf
    (fun _ _ _ _ ih _ hs => hs.follows (M := fun _ => tracing may mayRet mayRaise)
      (g := fun _ => []) ih)
  rwa [Engine.phase, phase_tracing] at hi

/-- Every answered call was allowed by what had been answered before. -/
theorem Reach.asked (h : E.Reach ok (System.start d x progs) s)
    (hf : (progs i).Follows (tracing may mayRet mayRaise) [])
    {before after : List (Answered C R)} {a : Answered C R}
    (ha : (s.thread i).trace = before ++ a :: after) : may before a.1 := by
  refine h.invariant (P := fun s => ∀ before a after,
      (s.thread i).trace = before ++ a :: after → may before a.1)
    (fun before a after ha => absurd ha.symm (List.append_ne_nil_of_right_ne_nil _ (by simp)))
    (fun s s' j hr ih _ hs before a after ha => ?_) before a after ha
  by_cases hj : i = j
  · subst hj
    cases hs.advance with
    | answered hp _ htrace =>
      have hfi := hr.follows_trace hf
      rw [hp] at hfi
      rw [htrace] at ha
      rcases List.eq_nil_or_concat after with rfl | ⟨after, b, rfl⟩
      · obtain ⟨rfl, hb⟩ := List.append_inj' ha rfl
        rw [← List.singleton_inj.mp hb]
        exact hfi.1
      · rw [List.concat_eq_append, ← List.cons_append, ← List.append_assoc] at ha
        exact ih before a after (List.append_inj' ha rfl).1
    | finished _ _ htrace =>
      rw [htrace] at ha
      exact ih before a after ha
  · rw [hs.thread_ne hj] at ha
    exact ih before a after ha

end Asked

/-- **Writes.** The committed rows are the first ones under writes of answered
calls, made by requests that have committed; the uncommitted writes of a
request are of its own answered calls. -/
theorem Reach.history (h : E.Reach ok (System.start d x progs) s) :
    (∃ ws : List (ι × W), s.db = E.view d (ws.map Prod.snd) ∧
      ∀ p ∈ ws, E.Produced s p.1 p.2 ∧ E.Settled s p.1) ∧
    ∀ i, ∀ w ∈ (s.thread i).log, E.Produced s i w := by
  refine h.invariant (P := fun s => (∃ ws : List (ι × W), s.db = E.view d (ws.map Prod.snd) ∧
      ∀ p ∈ ws, E.Produced s p.1 p.2 ∧ E.Settled s p.1) ∧
      ∀ i, ∀ w ∈ (s.thread i).log, E.Produced s i w)
    ⟨⟨[], rfl, fun p hp => absurd hp List.not_mem_nil⟩, fun i w hw => absurd hw List.not_mem_nil⟩
    (fun s s' i _ ih _ hs => ?_)
  obtain ⟨⟨ws, hdb, hws⟩, hlogs⟩ := ih
  have hold : ∀ p ∈ ws, E.Produced s' p.1 p.2 ∧ E.Settled s' p.1 := fun p hp =>
    ⟨hs.produced (hws p hp).1, hs.settled (hws p hp).2⟩
  -- What becomes of the rows when the writes of request `i` are committed.
  have hnew : E.Settled s' i → ∃ ws : List (ι × W),
      E.view s.db (s.thread i).log = E.view d (ws.map Prod.snd) ∧
      ∀ p ∈ ws, E.Produced s' p.1 p.2 ∧ E.Settled s' p.1 := by
    intro hi
    refine ⟨ws ++ (s.thread i).log.map (Prod.mk i), ?_, fun p hp => ?_⟩
    · rw [List.map_append, view_append, ← hdb, List.map_map]
      simp [Function.comp_def]
    · rcases List.mem_append.mp hp with hp | hp
      · exact hold p hp
      · obtain ⟨w, hw, rfl⟩ := List.mem_map.mp hp
        exact ⟨hs.produced (hlogs i w hw), hi⟩
  have hothers : ∀ j, j ≠ i → ∀ w ∈ (s'.thread j).log, E.Produced s' j w := by
    intro j hj w hw
    rw [hs.thread_ne hj] at hw
    exact hs.produced (hlogs j w hw)
  have hself : (∀ w ∈ (s'.thread i).log, E.Produced s' i w) →
      ∀ j, ∀ w ∈ (s'.thread j).log, E.Produced s' j w := by
    intro hi j
    by_cases hj : j = i
    · exact hj ▸ hi
    · exact hothers j hj
  have hs' := hs
  cases hs with
  | @call c k hp hc hf =>
    refine ⟨⟨ws, hdb, hold⟩, hself fun w hw => ?_⟩
    rw [called_thread_self] at hw
    rcases List.mem_append.mp hw with hw | hw
    · exact hs'.produced (hlogs i w hw)
    · exact ⟨⟨c, (E.answer s i c).1⟩, by simp, E.view s.db (s.thread i).log, s.outside, rfl, hw⟩
  | @commit c k hp hc =>
    refine ⟨hnew (.inl ⟨⟨c, (E.answer s i c).1⟩, by simp, hc⟩), hself fun w hw => ?_⟩
    rw [committed_thread_self] at hw
    exact absurd hw List.not_mem_nil
  | @close a hp =>
    refine ⟨hnew (.inr ⟨a, by simpa using hp⟩), hself fun w hw => ?_⟩
    rw [closed_thread_self] at hw
    exact absurd hw List.not_mem_nil
  | @abort e hp =>
    refine ⟨⟨ws, hdb, hold⟩, hself fun w hw => ?_⟩
    rw [rolledBack_thread_self] at hw
    exact absurd hw List.not_mem_nil

/-- The rows a request sees are the first ones under writes of answered
calls. -/
theorem Reach.history_view (h : E.Reach ok (System.start d x progs) s) (i : ι) :
    ∃ ws : List (ι × W), E.view s.db (s.thread i).log = E.view d (ws.map Prod.snd) ∧
      ∀ p ∈ ws, E.Produced s p.1 p.2 := by
  obtain ⟨⟨ws, hdb, hws⟩, hlogs⟩ := h.history
  refine ⟨ws ++ (s.thread i).log.map (Prod.mk i), ?_, fun p hp => ?_⟩
  · rw [List.map_append, view_append, ← hdb, List.map_map]
    simp [Function.comp_def]
  · rcases List.mem_append.mp hp with hp | hp
    · exact (hws p hp).1
    · obtain ⟨w, hw, rfl⟩ := List.mem_map.mp hp
      exact hlogs i w hw

end Engine
end Transact
