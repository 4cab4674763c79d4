/-
# Closing all sessions of an account

`revoke_all_for_user` reaches the rows that are there when its statement
starts. A rotation or a login in flight has passed its checks and stores its
token afterwards (`revived_after_suspension`). Where the sessions of an account are
not opened while a request closes them all, nor closed while one is opened,
and a rotation finds its token live and a login its account not suspended,
closing them is final: no descendant of a token that was there is live, and
after a suspension nothing is opened or granted until the account is
reinstated (`revocation_final`). `VerifyOtp` signs its access token after the
last of its calls, the invalidation of the cache: a suspension, unlike the
other two, may not pick the rows between its commit and its end.

Key definitions: `Orderly`, `Rotates`.
Key theorems: `closed_commit`, `barred_suspended`, `revocation_final`.
-/
import DiddiFreeID.Rotation
import DiddiFreeID.SessionStages
import Mathlib.Logic.Relation

namespace DiddiFreeID

open Transact Engine

variable {S : Env} {ι : Type}

open SessionRequest

/-! ### Runs -/

section Runs

variable [DecidableEq ι]

/-- The stage of request `i`. -/
abbrev stageOf (r : ι → SessionRequest) (s : InFlight ι) (i : ι) : Stage :=
  phase (fun i => (r i).monitor) (fun _ => Stage.idle) s i

/-- A step of request `i`, in stages. -/
inductive Staged (r : ι → SessionRequest) (s : InFlight ι) (i : ι) (s' : InFlight ι) : Prop
  | call (c : Call) (k : c.Resp → Cmd Response) : (s.thread i).prog = .call c k → c ≠ .commit →
      Moves (r i) (store.view s.db (s.thread i).log) (stageOf r s i) c (stageOf r s' i) →
      s' = store.called s i c k → Staged r s i s'
  | commit (k : Unit → Cmd Response) : (s.thread i).prog = .call .commit k →
      Moves (r i) (store.view s.db (s.thread i).log) (stageOf r s i) .commit (stageOf r s' i) →
      s' = store.committed s i .commit k → Staged r s i s'
  /-- The request has ended, and its session with it. -/
  | finish : stageOf r s' i = stageOf r s i → (stageOf r s i).resting = true →
      (s.thread i).prog.ended = true → s' = store.closed s i ∨ s' = rolledBack s i →
      Staged r s i s'

variable {r : ι → SessionRequest} {s s' : InFlight ι} {i j : ι}

theorem staged (hf : (s.thread i).prog.Follows (r i).monitor (stageOf r s i))
    (hg : stageOf r s i ≠ .mistaken) (hs : store.Step s i s') : Staged r s i s' := by
  cases hs with
  | @call c k hp hc hfree =>
    rw [hp] at hf
    have hst : stageOf r (store.called s i c k) i =
        (r i).monitor.next (stageOf r s i) c (store.answer s i c).1 := phase_called_self store
    have hm : Moves (r i) (store.view s.db (s.thread i).log) (stageOf r s i) c
        ((r i).monitor.next (stageOf r s i) c (store.answer s i c).1) := moves hf.1 hg _ _
    have hcommit : c ≠ .commit := by
      rintro rfl
      exact absurd hc (by simp [store])
    rw [← hst] at hm
    exact .call c k hp hcommit hm rfl
  | @commit c k hp hc =>
    obtain rfl := commits_iff.mp hc
    rw [hp] at hf
    have hst : stageOf r (store.committed s i .commit k) i =
        (r i).monitor.next (stageOf r s i) .commit (store.answer s i .commit).1 :=
      phase_committed_self store
    have hm : Moves (r i) (store.view s.db (s.thread i).log) (stageOf r s i) .commit
        ((r i).monitor.next (stageOf r s i) .commit (store.answer s i .commit).1) :=
      moves hf.1 hg _ s.outside
    rw [← hst] at hm
    exact .commit k hp hm rfl
  | @close a hp =>
    rw [hp] at hf
    exact .finish (by simp [stageOf]) (resting_of_ret hf hg) (by rw [hp]; rfl) (.inl rfl)
  | @abort e hp =>
    rw [hp] at hf
    exact .finish (by simp [stageOf]) (resting_of_raise hf hg) (by rw [hp]; rfl) (.inr rfl)

/-- What its own step does to request `i`, in stages: it makes a call and
moves, or its session ends and it stays where it is. -/
inductive Turn (r : ι → SessionRequest) (s : InFlight ι) (i : ι) (s' : InFlight ι) : Prop
  | moved (c : Call) (k : c.Resp → Cmd Response) (a : c.Resp) : (s.thread i).prog = .call c k →
      Moves (r i) (store.view s.db (s.thread i).log) (stageOf r s i) c (stageOf r s' i) →
      (s'.thread i).prog = k a → (s'.thread i).trace = (s.thread i).trace ++ [⟨c, a⟩] →
      Turn r s i s'
  | rested : stageOf r s' i = stageOf r s i → (s.thread i).prog.ended = true →
      (s'.thread i).prog = (s.thread i).prog → (s'.thread i).trace = (s.thread i).trace →
      Turn r s i s'

theorem turn (hf : (s.thread i).prog.Follows (r i).monitor (stageOf r s i))
    (hg : stageOf r s i ≠ .mistaken) (hs : store.Step s i s') : Turn r s i s' := by
  cases hs.advance with
  | answered hp hprog htrace =>
    rw [hp] at hf
    have hst : stageOf r s' i = (r i).monitor.next (stageOf r s i) _ _ := phase_of_answer htrace
    have hm := moves hf.1 hg (store.view s.db (s.thread i).log) s.outside
    exact .moved _ _ _ hp (hst ▸ hm) hprog htrace
  | finished hend hprog htrace => exact .rested (phase_of_trace htrace) hend hprog htrace

/-- The other requests stay where they are. -/
theorem stageOf_ne (hs : store.Step s i s') (hj : j ≠ i) :
    stageOf r s' j = stageOf r s j ∧ s'.thread j = s.thread j :=
  ⟨hs.phase_ne hj, hs.thread_ne hj⟩

variable [Fintype ι] {ok : InFlight ι → ι → Prop} {d : Db} {x : Outside} {u : Uuid}

theorem sessions_follow (h : store.Reach ok (System.start d x fun i => (r i).prog S) s) (i : ι) :
    (s.thread i).prog.Follows (r i).monitor (stageOf r s i) :=
  h.follows (fun i => SessionRequest.follows S (r i)) i

/-- The store answers with the rows asked for. -/
theorem not_mistaken (h : store.Reach ok (System.start d x fun i => (r i).prog S) s) (i : ι) :
    stageOf r s i ≠ .mistaken :=
  h.phase_invariant (M := fun i => (r i).monitor) (fun i => SessionRequest.follows S (r i))
    (P := fun _ g => g ≠ .mistaken) (fun _ => by simp)
    (fun _ _ _ _ _ _ _ hmay hg => (moves hmay hg _ _).ne_mistaken) i

theorem staged_reach (h : store.Reach ok (System.start d x fun i => (r i).prog S) s)
    (hs : store.Step s i s') : Staged r s i s' :=
  staged (sessions_follow h i) (not_mistaken h i) hs

theorem turn_reach (h : store.Reach ok (System.start d x fun i => (r i).prog S) s)
    (hs : store.Step s i s') : Turn r s i s' :=
  turn (sessions_follow h i) (not_mistaken h i) hs

/-- What every move keeps of a stage holds of the stages reached. -/
theorem stage_invariant (h : store.Reach ok (System.start d x fun i => (r i).prog S) s)
    {P : SessionRequest → Stage → Prop} (h0 : ∀ o, P o .idle)
    (hstep : ∀ o d g c g', Moves o d g c g' → P o g → P o g') (i : ι) :
    P (r i) (stageOf r s i) := by
  refine h.invariant_each (P := fun i s => P (r i) (stageOf r s i)) (fun i => h0 (r i))
    (fun s s' i hr ih _ hs => ?_) (fun s s' i j _ ih _ hs hj => ?_) i
  · cases turn_reach hr hs with
    | moved c _ _ _ hm => exact hstep _ _ _ _ _ hm (ih i)
    | rested hst =>
      rw [hst]
      exact ih i
  · rw [(stageOf_ne hs hj).1]
    exact ih

/-- An account that is there stays. -/
theorem findById_reach (h : store.Reach ok (System.start d x fun i => (r i).prog S) s)
    (hu : (d.findById u).isSome = true) : (s.db.findById u).isSome = true := by
  refine h.invariant (P := fun s => (s.db.findById u).isSome = true) hu fun s s' i _ ih _ hs => ?_
  cases hs with
  | call | abort => exact ih
  | commit | close => exact findById_isSome_view ih

theorem written_reach (h : store.Reach ok (System.start d x fun i => (r i).prog S) s)
    (hu : (d.findById u).isSome = true) (i : ι) : Written u (stageOf r s i) (s.thread i).log := by
  refine h.invariant_each (P := fun i s => Written u (stageOf r s i) (s.thread i).log)
    (fun _ => .nil rfl rfl) (fun s s' i hr ih _ hs => ?_) (fun s s' i j _ ih _ hs hj => ?_) i
  · cases staged_reach hr hs with
    | call c k _ hc hm hs' =>
      subst hs'
      rw [called_thread_self]
      exact hm.written hc (ih i) (findById_reach hr hu)
    | commit k _ hm hs' =>
      subst hs'
      rw [committed_thread_self]
      exact hm.written_commit
    | finish hst hrest _ hs' =>
      rw [hst]
      rcases hs' with rfl | rfl
      · rw [closed_thread_self]
        exact written_resting hrest
      · rw [rolledBack_thread_self]
        exact written_resting hrest
  · rw [(stageOf_ne (r := r) hs hj).1, (stageOf_ne (r := r) hs hj).2]
    exact ih

/-- The ids of the tokens in the table and of those the requests draw are all
different. -/
structure FreshTokens (r : ι → SessionRequest) (d : Db) : Prop where
  known : d.tokenIds.Nodup
  new : ∀ i id, (r i).newTokenId = some id → id ∉ d.tokenIds
  distinct : ∀ i j id, (r i).newTokenId = some id → (r j).newTokenId = some id → i = j

/-- Is there a token `id` of the account `u`? -/
def Db.HasToken (d : Db) (id u : Uuid) : Prop :=
  ∃ t ∈ d.refreshTokens, t.id = id ∧ t.userId = u

theorem hasToken_view {log : List Write} {d : Db} {id u : Uuid} (h : d.HasToken id u) :
    (store.view d log).HasToken id u := by
  obtain ⟨t, ht, rfl, rfl⟩ := h
  obtain ⟨t', ht', hb⟩ := @tokens_view_mem log _ _ ht
  exact ⟨t', ht', hb.id, hb.userId⟩

theorem hasToken_inserted {log : List Write} {d : Db} {t : RefreshToken} (h : t ∈ inserted log) :
    (store.view d log).HasToken t.id t.userId := by
  induction log generalizing d with
  | nil => exact absurd h List.not_mem_nil
  | cons w log ih =>
    cases w with
    | insertToken t' =>
      rcases List.mem_cons.mp h with rfl | h
      · exact hasToken_view (d := Write.apply d (.insertToken t))
          ⟨t, List.mem_append_right _ (List.mem_singleton_self t), rfl, rfl⟩
      · exact ih h
    | _ => exact ih h

omit [Fintype ι] in
/-- A token stays. -/
theorem hasToken_step {id v : Uuid} (hs : store.Step s i s') (h : s.db.HasToken id v) :
    s'.db.HasToken id v := by
  cases hs with
  | call | abort => exact h
  | commit | close => exact hasToken_view h

/-- Before a request writes tokens it sees the committed ones. -/
theorem tokens_untouched (h : store.Reach ok (System.start d x fun i => (r i).prog S) s)
    (hu : (d.findById u).isSome = true) (hg : (stageOf r s i).untouched = true) :
    (store.view s.db (s.thread i).log).refreshTokens = s.db.refreshTokens := by
  have hw := written_reach h hu i
  refine tokens_view ?_ (hw.untouched hg)
  rw [hw.stored]
  generalize stageOf r s i = g at hg
  cases g with
  | opened => cases hg
  | _ => rfl

/-- A request that stores a token drew its id. -/
theorem newTokenId_reach (h : store.Reach ok (System.start d x fun i => (r i).prog S) s)
    {t : RefreshToken} {old : Option Uuid}
    (hg : stageOf r s i = .opened t old ∨ stageOf r s i = .granted t old) :
    (r i).newTokenId = some t.id := by
  refine stage_invariant h (P := fun o g => ∀ t old, g = .opened t old ∨ g = .granted t old →
    o.newTokenId = some t.id) (fun o t old hg => by rcases hg with hg | hg <;> cases hg)
    (fun o d g c g' hm ih t old hg => ?_) i t old hg
  cases hm with
  | login hid | rotate _ hid | loginFirst _ hid =>
    rcases hg with hg | hg
    · cases hg
      exact hid
    · cases hg
  | grant =>
    rcases hg with hg | hg
    · cases hg
    · cases hg
      exact ih _ _ (.inl rfl)
  | deliver => exact ih t old hg
  | _ => rcases hg with hg | hg <;> cases hg

/-- The token that a request presents is in the table, under its account. -/
theorem source_reach (h : store.Reach ok (System.start d x fun i => (r i).prog S) s)
    (hu : (d.findById u).isSome = true) {id v : Uuid}
    (hg : (stageOf r s i).source = some (id, v)) : s.db.HasToken id v := by
  refine h.invariant_each (P := fun i s => ∀ id v, (stageOf r s i).source = some (id, v) →
    s.db.HasToken id v) (fun i id v hg => by cases hg) (fun s s' i hr ih _ hs id v hg => ?_)
    (fun s s' i j _ ih _ hs hj id v hg => ?_) i id v hg
  · refine hasToken_step hs ?_
    cases turn_reach hr hs with
    | moved c _ _ _ hm =>
      rcases hm.source hg with hg | ⟨hash, stored, hidle, -, hf, hp⟩
      · exact ih i id v hg
      · cases hp
        have hmem := List.mem_of_find?_eq_some hf
        rw [tokens_untouched hr hu (by rw [hidle]; rfl)] at hmem
        exact ⟨stored, hmem, rfl, rfl⟩
    | rested hst =>
      rw [hst] at hg
      exact ih i id v hg
  · rw [(stageOf_ne hs hj).1] at hg
    exact hasToken_step hs (ih id v hg)

/-- The ids that a step adds to the table are those the request had stored. -/
theorem tokenIds_step (h : store.Reach ok (System.start d x fun i => (r i).prog S) s)
    (hu : (d.findById u).isSome = true) (hs : store.Step s i s') :
    s'.db.tokenIds = s.db.tokenIds ∨ ∃ t old, stageOf r s i = .opened t old ∧
      stageOf r s' i = .granted t old ∧ s'.db.tokenIds = s.db.tokenIds ++ [t.id] := by
  have hw := written_reach h hu i
  have hview : (stageOf r s i).stored = [] →
      (store.view s.db (s.thread i).log).tokenIds = s.db.tokenIds := by
    intro hnone
    rw [tokenIds_view, hw.stored, hnone]
    exact List.append_nil _
  cases staged_reach h hs with
  | call c k _ _ _ hs' => exact .inl (by rw [hs', called_db])
  | commit k hp hm hs' =>
    rw [hs', committed_db]
    cases hg : stageOf r s i with
    | opened t old =>
      rw [hg] at hm
      have hg' : stageOf r s' i = .granted t old := by
        generalize stageOf r s' i = g' at hm
        cases hm
        rfl
      refine .inr ⟨t, old, rfl, by rw [← hs', hg'], ?_⟩
      rw [tokenIds_view, hw.stored, hg]
      rfl
    | _ => exact .inl (hview (by rw [hg]; rfl))
  | finish hst hrest _ hs' =>
    left
    rcases hs' with rfl | rfl
    · refine hview ?_
      cases hg : stageOf r s i with
      | opened =>
        rw [hg] at hrest
        cases hrest
      | _ => rfl
    · rfl

/-- Every id in the table was there or is of a session that was granted. -/
theorem known_ids (h : store.Reach ok (System.start d x fun i => (r i).prog S) s)
    (hu : (d.findById u).isSome = true) {id : Uuid} (hid : id ∈ s.db.tokenIds) :
    id ∈ d.tokenIds ∨ ∃ j t old, stageOf r s j = .granted t old ∧ t.id = id := by
  refine h.invariant (P := fun s => ∀ id ∈ s.db.tokenIds, id ∈ d.tokenIds ∨
      ∃ j t old, stageOf r s j = .granted t old ∧ t.id = id)
    (fun id hid => .inl hid) (fun s s' i hr ih _ hs id hid => ?_) id hid
  have hgranted : ∀ t old, stageOf r s i = .granted t old → stageOf r s' i = .granted t old := by
    intro t old hg
    cases turn_reach hr hs with
    | moved c _ _ _ hm =>
      rw [hg] at hm
      generalize stageOf r s' i = g' at hm ⊢
      cases hm
      rfl
    | rested hst => exact hst.trans hg
  have hold : id ∈ s.db.tokenIds → id ∈ d.tokenIds ∨
      ∃ j t old, stageOf r s' j = .granted t old ∧ t.id = id := by
    intro hid
    refine (ih id hid).imp_right fun ⟨j, t, old, hg, ht⟩ => ⟨j, t, old, ?_, ht⟩
    by_cases hj : j = i
    · subst hj
      exact hgranted t old hg
    · rwa [(stageOf_ne hs hj).1]
  rcases tokenIds_step hr hu hs with he | ⟨t, old, -, hg', he⟩
  · exact hold (he ▸ hid)
  · rw [he] at hid
    rcases List.mem_append.mp hid with hid | hid
    · exact hold hid
    · exact .inr ⟨i, t, old, hg', (List.mem_singleton.mp hid).symm⟩

/-- The id of a token that is stored and not committed is new to the table. -/
theorem opened_fresh (h : store.Reach ok (System.start d x fun i => (r i).prog S) s)
    (hu : (d.findById u).isSome = true) (hfresh : FreshTokens r d) {t : RefreshToken}
    {old : Option Uuid} (hg : stageOf r s i = .opened t old) : t.id ∉ s.db.tokenIds := by
  intro hid
  have hdrawn := newTokenId_reach h (.inl hg)
  rcases known_ids h hu hid with hd | ⟨j, t', old', hg', ht'⟩
  · exact hfresh.new i _ hdrawn hd
  · obtain rfl := hfresh.distinct i j t.id hdrawn (ht' ▸ newTokenId_reach h (.inr hg'))
    rw [hg] at hg'
    cases hg'

/-- Ids are unique. -/
theorem nodup_ids (h : store.Reach ok (System.start d x fun i => (r i).prog S) s)
    (hu : (d.findById u).isSome = true) (hfresh : FreshTokens r d) : s.db.tokenIds.Nodup := by
  refine h.invariant (P := fun s => s.db.tokenIds.Nodup) hfresh.known fun s s' i hr ih _ hs => ?_
  rcases tokenIds_step hr hu hs with he | ⟨t, old, hg, -, he⟩
  · rwa [he]
  · rw [he]
    refine List.nodup_append.mpr ⟨ih, List.nodup_singleton _, ?_⟩
    rintro a ha b hb rfl
    rw [List.mem_singleton.mp hb] at ha
    exact opened_fresh hr hu hfresh hg ha

/-- A session that was granted has its token in the table. -/
theorem granted_reach (h : store.Reach ok (System.start d x fun i => (r i).prog S) s)
    (hu : (d.findById u).isSome = true) {t : RefreshToken} {old : Option Uuid}
    (hg : stageOf r s i = .granted t old) : s.db.HasToken t.id t.userId := by
  refine h.invariant_each (P := fun i s => ∀ t old, stageOf r s i = .granted t old →
    s.db.HasToken t.id t.userId) (fun i t old hg => by cases hg)
    (fun s s' i hr ih _ hs t old hg => ?_) (fun s s' i j _ ih _ hs hj t old hg => ?_) i t old hg
  · cases staged_reach hr hs with
    | call c k _ hc hm _ =>
      rw [hg] at hm
      refine hasToken_step hs (ih i t old ?_)
      generalize stageOf r s i = g at hm
      cases hm with
      | grant => exact absurd rfl hc
      | deliver => rfl
    | commit k hp hm hs' =>
      rw [hg] at hm
      rw [hs', committed_db]
      have hst : stageOf r s i = .opened t old := by
        generalize stageOf r s i = g at hm
        cases hm with
        | grant => rfl
        | deliver hc => cases hc
      refine hasToken_inserted ?_
      rw [(written_reach hr hu i).stored, hst]
      exact List.mem_singleton_self t
    | finish hst _ _ _ => exact hasToken_step hs (ih i t old (hst ▸ hg))
  · exact hasToken_step hs (ih t old ((stageOf_ne hs hj).1 ▸ hg))

/-! ### The condition -/

/-- Request `i` is opening a session of `u`: it has written, and not
committed. -/
def Opening (r : ι → SessionRequest) (u : Uuid) (s : InFlight ι) (i : ι) : Prop :=
  (stageOf r s i).isOpening u = true

omit [Fintype ι] in
instance (i : ι) : Decidable (Opening r u s i) := by
  unfold Opening
  infer_instance

omit [Fintype ι] in
theorem opening_ne (hs : store.Step s i s') (hj : j ≠ i) : Opening r u s' j ↔ Opening r u s j := by
  unfold Opening
  rw [(stageOf_ne hs hj).1]

/-- Request `i` has written a session of `u`, and not ended: it answers with
an access token that it has yet to sign. -/
def InSession (r : ι → SessionRequest) (u : Uuid) (s : InFlight ι) (i : ι) : Prop :=
  (stageOf r s i).isSession u = true ∧ (s.thread i).prog.ended = false

omit [Fintype ι] in
instance (i : ι) : Decidable (InSession r u s i) := by
  unfold InSession
  infer_instance

omit [Fintype ι] in
theorem inSession_ne (hs : store.Step s i s') (hj : j ≠ i) :
    InSession r u s' j ↔ InSession r u s j := by
  unfold InSession
  rw [(stageOf_ne hs hj).1, (stageOf_ne (r := r) hs hj).2]

/-- A request that has not committed has not ended. -/
theorem Opening.inSession (h : store.Reach ok (System.start d x fun i => (r i).prog S) s)
    (ho : Opening r u s i) : InSession r u s i := by
  have hf := sessions_follow h i
  refine ⟨Stage.isSession_of_isOpening ho, ?_⟩
  unfold Opening at ho
  generalize (s.thread i).prog = p at hf ⊢
  generalize stageOf r s i = g at ho hf
  cases p with
  | call => rfl
  | ret | raise =>
    cases g with
    | claimed | opened => exact absurd hf fun h => h
    | _ => cases ho

/-- Nobody else is closing the sessions of `u`. -/
def NoneClosing (r : ι → SessionRequest) (u : Uuid) (s : InFlight ι) (i : ι) : Prop :=
  ∀ j, j ≠ i → (stageOf r s j).isClosing u = false

instance (i : ι) : Decidable (NoneClosing r u s i) := by
  unfold NoneClosing
  infer_instance

/-- A rotation for the account `u` finds its token live, a login finds the
account not suspended, and neither writes while the sessions are being
closed; they are closed while no session is being opened, and by a suspension
while nobody has an access token of the account to answer. -/
def Orderly (r : ι → SessionRequest) (u : Uuid) (s : InFlight ι) (i : ι) : Prop :=
  match (s.thread i).prog, stageOf r s i with
  | .call (.revoke id _) _, .rotating stored => stored.userId = u →
      (store.view s.db (s.thread i).log).isLive id = true ∧ NoneClosing r u s i
  | .call (.saveToken _) _, .claimed _ => True
  | .call (.saveToken t) _, _ => t.userId = u →
      s.db.statusOf u ≠ some .suspended ∧ NoneClosing r u s i
  | .call (.liveTokens userId) _, .saved _ => userId = u → ∀ j, j ≠ i → ¬InSession r u s j
  | .call (.liveTokens userId) _, _ => userId = u → ∀ j, j ≠ i → ¬Opening r u s j
  | _, _ => True

/-- `Orderly`, as a test. -/
def isOrderly (r : ι → SessionRequest) (u : Uuid) (s : InFlight ι) (i : ι) : Bool :=
  match (s.thread i).prog, stageOf r s i with
  | .call (.revoke id _) _, .rotating stored => decide (stored.userId = u →
      (store.view s.db (s.thread i).log).isLive id = true ∧ NoneClosing r u s i)
  | .call (.saveToken _) _, .claimed _ => true
  | .call (.saveToken t) _, _ => decide (t.userId = u →
      s.db.statusOf u ≠ some .suspended ∧ NoneClosing r u s i)
  | .call (.liveTokens userId) _, .saved _ =>
    decide (userId = u → ∀ j, j ≠ i → ¬InSession r u s j)
  | .call (.liveTokens userId) _, _ => decide (userId = u → ∀ j, j ≠ i → ¬Opening r u s j)
  | _, _ => true

theorem isOrderly_iff (i : ι) : isOrderly r u s i = true ↔ Orderly r u s i := by
  unfold isOrderly Orderly
  split <;> simp only [decide_eq_true_eq]

instance (i : ι) : Decidable (Orderly r u s i) :=
  decidable_of_iff _ (isOrderly_iff i)

omit [DecidableEq ι] [Fintype ι] in
/-- What an orderly step that opens a session has found. -/
theorem Orderly.opens (ho : Orderly r u s i) {c : Call} {k : c.Resp → Cmd Response}
    (hp : (s.thread i).prog = .call c k) (hopens : (stageOf r s i).Opens u c) :
    NoneClosing r u s i ∧
      ((∃ stored, stageOf r s i = .rotating stored ∧ stored.userId = u ∧
        (store.view s.db (s.thread i).log).isLive stored.id = true) ∨
      s.db.statusOf u ≠ some .suspended) := by
  rcases hopens with ⟨stored, now, hst, hsu, rfl⟩ | ⟨t, hst, rfl, htu⟩
  · unfold Orderly at ho
    rw [hp, hst] at ho
    obtain ⟨hlive, hnone⟩ := ho hsu
    exact ⟨hnone, .inl ⟨stored, hst, hsu, hlive⟩⟩
  · unfold Orderly at ho
    rw [hp] at ho
    rcases hst with hst | ⟨user, hst⟩
    · rw [hst] at ho
      obtain ⟨hstatus, hnone⟩ := ho htu
      exact ⟨hnone, .inr hstatus⟩
    · rw [hst] at ho
      obtain ⟨hstatus, hnone⟩ := ho htu
      exact ⟨hnone, .inr hstatus⟩

/-- What an orderly request that picks the rows has found. -/
theorem Orderly.lists (ho : Orderly r u s i)
    (h : store.Reach ok (System.start d x fun i => (r i).prog S) s)
    {k : List Uuid → Cmd Response} (hp : (s.thread i).prog = .call (.liveTokens u) k) (hj : j ≠ i) :
    ¬Opening r u s j ∧ ∀ user, stageOf r s i = .saved user → ¬InSession r u s j := by
  unfold Orderly at ho
  rw [hp] at ho
  generalize stageOf r s i = g at ho ⊢
  cases g with
  | saved user => exact ⟨fun hopen => ho rfl j hj (hopen.inSession h), fun _ _ => ho rfl j hj⟩
  | _ => exact ⟨ho rfl j hj, fun _ hg => (by cases hg)⟩

/-- The sessions of `u` are not opened and closed at once, and nobody has an
access token of `u` to answer while a suspension closes them. -/
structure Apart (r : ι → SessionRequest) (u : Uuid) (s : InFlight ι) : Prop where
  opening : ∀ i j, i ≠ j → (stageOf r s i).isClosing u = true → ¬Opening r u s j
  session : ∀ i j, i ≠ j → (stageOf r s i).isSuspending u = true → ¬InSession r u s j

omit [DecidableEq ι] [Fintype ι] in
/-- Nobody opens a session while another request closes them. -/
theorem Orderly.not_opens (ho : Orderly r u s j) {c : Call} {k : c.Resp → Cmd Response}
    (hp : (s.thread j).prog = .call c k) (hij : i ≠ j)
    (hc : (stageOf r s i).isClosing u = true) : ¬(stageOf r s j).Opens u c := by
  intro hopens
  have hnone := (ho.opens hp hopens).1 i hij
  rw [hnone] at hc
  cases hc

theorem Apart.opening_step (ha : Apart r u s)
    (h : store.Reach ok (System.start d x fun i => (r i).prog S) s) {l : ι} (ho : Orderly r u s l)
    (hs : store.Step s l s') (hij : i ≠ j) (hc : (stageOf r s' i).isClosing u = true) :
    ¬Opening r u s' j := by
  intro hopen
  by_cases hi : i = l
  · subst hi
    have hj : Opening r u s j := (opening_ne hs hij.symm).mp hopen
    cases turn_reach h hs with
    | moved c k _ hp hm =>
      rcases hm.isClosing hc with hc | rfl
      · exact ha.opening i j hij hc hj
      · exact (ho.lists h hp hij.symm).1 hj
    | rested hst => exact ha.opening i j hij (hst ▸ hc) hj
  · rw [(stageOf_ne hs hi).1] at hc
    refine ha.opening i j hij hc ?_
    by_cases hj : j = l
    · subst hj
      cases turn_reach h hs with
      | moved c k _ hp hm => exact (hm.isOpening hopen).resolve_right (ho.not_opens hp hij hc)
      | rested hst =>
        unfold Opening at hopen ⊢
        rwa [hst] at hopen
    · exact (opening_ne hs hj).mp hopen

theorem Apart.session_step (ha : Apart r u s)
    (h : store.Reach ok (System.start d x fun i => (r i).prog S) s) {l : ι} (ho : Orderly r u s l)
    (hs : store.Step s l s') (hij : i ≠ j) (hc : (stageOf r s' i).isSuspending u = true) :
    ¬InSession r u s' j := by
  intro hin
  by_cases hi : i = l
  · subst hi
    have hj : InSession r u s j := (inSession_ne hs hij.symm).mp hin
    cases turn_reach h hs with
    | moved c k _ hp hm =>
      rcases hm.isSuspending hc with hc | ⟨user, hg, rfl⟩
      · exact ha.session i j hij hc hj
      · exact (ho.lists h hp hij.symm).2 user hg hj
    | rested hst => exact ha.session i j hij (hst ▸ hc) hj
  · rw [(stageOf_ne hs hi).1] at hc
    refine ha.session i j hij hc ?_
    by_cases hj : j = l
    · subst hj
      cases turn_reach h hs with
      | moved c k _ hp hm =>
        exact ⟨(hm.isSession hin.1).resolve_right
          (ho.not_opens hp hij (Stage.isClosing_of_isSuspending hc)), by rw [hp]; rfl⟩
      | rested _ hend hprog =>
        have hlive := hin.2
        rw [hprog, hend] at hlive
        cases hlive
    · exact (inSession_ne hs hj).mp hin

theorem apart_reach (hok : ∀ s i, ok s i → Orderly r u s i)
    (h : store.Reach ok (System.start d x fun i => (r i).prog S) s) : Apart r u s :=
  h.invariant (P := Apart r u) ⟨fun _ _ _ hc => (by cases hc), fun _ _ _ hc => (by cases hc)⟩
    fun _ _ _ hr ih ho hs =>
      ⟨fun _ _ hij hc => ih.opening_step hr (hok _ _ ho) hs hij hc,
        fun _ _ hij hc => ih.session_step hr (hok _ _ ho) hs hij hc⟩

/-- The live tokens of `u` are among `ids`. -/
def LiveAmong (d : Db) (u : Uuid) (ids : List Uuid) : Prop :=
  ∀ t ∈ d.refreshTokens, t.userId = u → t.revokedAt = none → t.id ∈ ids

/-- What request `i` closes covers the live tokens of `u`. -/
structure Covered (r : ι → SessionRequest) (u : Uuid) (s : InFlight ι) (i : ι) : Prop where
  listed : ∀ ids user, stageOf r s i = .listed u ids user → LiveAmong s.db u ids
  closing : ∀ user, stageOf r s i = .closing u user →
    ∃ ids now, .revokeTokens ids now ∈ (s.thread i).log ∧ LiveAmong s.db u ids

/-- A row after a step comes from a row, or is the token that its request
had stored. -/
theorem mem_tokens_step (h : store.Reach ok (System.start d x fun i => (r i).prog S) s)
    (hu : (d.findById u).isSome = true) (hs : store.Step s i s') {t : RefreshToken}
    (ht : t ∈ s'.db.refreshTokens) : (∃ t₀ ∈ s.db.refreshTokens, t₀.Becomes t) ∨
      ∃ t₀ old, stageOf r s i = .opened t₀ old ∧ t₀.Becomes t ∧ (s.thread i).prog.ended = false := by
  have hview : t ∈ (store.view s.db (s.thread i).log).refreshTokens →
      (∃ t₀ ∈ s.db.refreshTokens, t₀.Becomes t) ∨
        ∃ t₀ old, stageOf r s i = .opened t₀ old ∧ t₀.Becomes t := by
    intro ht
    refine (mem_tokens_view ht).imp_right fun ⟨t₀, h₀, hb⟩ => ?_
    rw [(written_reach h hu i).stored] at h₀
    generalize stageOf r s i = g at h₀
    cases g with
    | opened t' old =>
      obtain rfl := List.mem_singleton.mp h₀
      exact ⟨t₀, old, rfl, hb⟩
    | _ => exact absurd h₀ List.not_mem_nil
  cases staged_reach h hs with
  | call c k _ _ _ hs' =>
    rw [hs', called_db] at ht
    exact .inl ⟨t, ht, .refl t⟩
  | commit k hp _ hs' =>
    rw [hs', committed_db] at ht
    refine (hview ht).imp_right fun ⟨t₀, old, hg, hb⟩ => ⟨t₀, old, hg, hb, ?_⟩
    rw [hp]
    rfl
  | finish _ hrest _ hs' =>
    left
    rcases hs' with rfl | rfl
    · refine (hview ht).resolve_right fun ⟨t₀, old, hg, _⟩ => ?_
      rw [hg] at hrest
      cases hrest
    · exact ⟨t, ht, .refl t⟩

/-- A step adds no live token to `u` unless its request is opening a session
of `u`. -/
theorem liveAmong_step (h : store.Reach ok (System.start d x fun i => (r i).prog S) s)
    (hu : (d.findById u).isSome = true) (hs : store.Step s i s') (hin : ¬Opening r u s i)
    {ids : List Uuid} (hl : LiveAmong s.db u ids) : LiveAmong s'.db u ids := by
  intro t ht htu hlive
  rcases mem_tokens_step h hu hs ht with ⟨t₀, h₀, hb⟩ | ⟨t₀, old, hg, hb, hend⟩
  · rw [hb.id]
    exact hl t₀ h₀ (hb.userId ▸ htu) (hb.live hlive)
  · refine absurd ?_ hin
    unfold Opening
    rw [hg]
    exact decide_eq_true (hb.userId ▸ htu)

/-- The ids that a request lists are those of all live tokens. -/
theorem liveAmong_listed (h : store.Reach ok (System.start d x fun i => (r i).prog S) s)
    (hu : (d.findById u).isSome = true) {c : Call} {ids : List Uuid} {user : Option User}
    (hm : Moves (r i) (store.view s.db (s.thread i).log) (stageOf r s i) c (.listed u ids user)) :
    LiveAmong s.db u ids := by
  obtain ⟨hun, hids⟩ : (stageOf r s i).untouched = true ∧
      ids = (store.view s.db (s.thread i).log).liveTokens u := by
    generalize stageOf r s i = g at hm
    cases hm <;> exact ⟨rfl, rfl⟩
  intro t ht htu hlive
  rw [← tokens_untouched h hu hun] at ht
  rw [hids]
  refine List.mem_map_of_mem (List.mem_filter.mpr ⟨ht, ?_⟩)
  simp [htu, hlive]

/-- A request closes the sessions that it has listed. -/
theorem listed_of_closing {o : SessionRequest} {dv : Db} {g : Stage} {c : Call}
    {user : Option User} (hm : Moves o dv g c (.closing u user)) :
    ∃ ids now, g = .listed u ids user ∧ c = .revokeThese ids now := by
  cases hm
  exact ⟨_, _, rfl, rfl⟩

/-- Of the ids listed, those still live are those of all live tokens. -/
theorem liveAmong_filter (h : store.Reach ok (System.start d x fun i => (r i).prog S) s)
    (hu : (d.findById u).isSome = true) (hfresh : FreshTokens r d)
    (hun : (stageOf r s i).untouched = true) {ids : List Uuid} (hl : LiveAmong s.db u ids) :
    LiveAmong s.db u (ids.filter (store.view s.db (s.thread i).log).isLive) := by
  have htokens := tokens_untouched h hu hun
  have hids : (store.view s.db (s.thread i).log).tokenIds.Nodup := by
    unfold Db.tokenIds
    rw [htokens]
    exact nodup_ids h hu hfresh
  intro t ht htu hlive
  refine List.mem_filter.mpr ⟨hl t ht htu hlive, ?_⟩
  rw [← htokens] at ht
  rw [Db.isLive_of_mem hids ht, hlive]
  rfl

/-- What a request closes, its own step covers. -/
theorem Covered.self (hc : Covered r u s i)
    (h : store.Reach ok (System.start d x fun i => (r i).prog S) s)
    (hu : (d.findById u).isSome = true) (hfresh : FreshTokens r d) (hs : store.Step s i s') :
    Covered r u s' i := by
  cases staged_reach h hs with
  | call c k hp _ hm hs' =>
    have hdb : s'.db = s.db := by rw [hs', called_db]
    refine ⟨fun ids user hg => ?_, fun user hg => ?_⟩ <;> rw [hg] at hm <;> rw [hdb]
    · exact liveAmong_listed h hu hm
    · -- none of the tokens listed is gone meanwhile, and none came
      obtain ⟨ids, now, hst, rfl⟩ := listed_of_closing hm
      have hun : (stageOf r s i).untouched = true := by
        rw [hst]
        rfl
      refine ⟨_, now, ?_, liveAmong_filter h hu hfresh hun (hc.listed ids user hst)⟩
      rw [hs', called_thread_self]
      exact List.mem_append_right _ (List.mem_singleton_self _)
  | commit k hp hm _ =>
    refine ⟨fun ids user hg => ?_, fun user hg => ?_⟩ <;>
    · rw [hg] at hm
      generalize stageOf r s i = g at hm
      cases hm
  | finish hst hrest _ _ =>
    refine ⟨fun ids user hg => ?_, fun user hg => ?_⟩ <;>
    · rw [← hst, hg] at hrest
      cases hrest

theorem covered_reach (hok : ∀ s i, ok s i → Orderly r u s i)
    (h : store.Reach ok (System.start d x fun i => (r i).prog S) s)
    (hu : (d.findById u).isSome = true) (hfresh : FreshTokens r d) (i : ι) : Covered r u s i := by
  refine h.invariant_each (P := fun i s => Covered r u s i)
    (fun i => ⟨fun _ _ hg => (by cases hg), fun _ hg => (by cases hg)⟩)
    (fun s s' i hr ih _ hs => (ih i).self hr hu hfresh hs)
    (fun s s' l i hr ih _ hs hi => ?_) i
  -- another request may not open a session of `u` meanwhile
  have hapart := (apart_reach hok hr).opening i l hi
  have hst := stageOf_ne (r := r) hs hi
  refine ⟨fun ids user hg => ?_, fun user hg => ?_⟩ <;> rw [hst.1] at hg <;>
    have hin := hapart (by rw [hg]; exact decide_eq_true rfl)
  · exact liveAmong_step hr hu hs hin (ih.listed ids user hg)
  · obtain ⟨ids, now, hm, hl⟩ := ih.closing user hg
    rw [hst.2]
    exact ⟨ids, now, hm, liveAmong_step hr hu hs hin hl⟩

/-! ### After the sessions are closed -/

/-- A request that has had an answer of the kind `Q` is in a stage of the kind
`P`, if such answers lead there and no move leads out. -/
theorem stage_of_mem (h : store.Reach ok (System.start d x fun i => (r i).prog S) s)
    {P : Stage → Prop} {Q : Call → Prop}
    (hstep : ∀ o d g c g', Moves o d g c g' → Q c ∨ P g → P g')
    {a : Answered Call Call.Resp} (ha : a ∈ (s.thread i).trace) (hQ : Q a.1) :
    P (stageOf r s i) := by
  refine h.invariant_each
    (P := fun i s => ∀ a ∈ (s.thread i).trace, Q a.1 → P (stageOf r s i))
    (fun i a ha => absurd ha List.not_mem_nil) (fun s s' i hr ih _ hs a ha hQ => ?_)
    (fun s s' i j _ ih _ hs hj a ha hQ => ?_) i a ha hQ
  · cases turn_reach hr hs with
    | moved c k b _ hm _ htrace =>
      refine hstep _ _ _ _ _ hm ?_
      rw [htrace] at ha
      rcases List.mem_append.mp ha with ha | ha
      · exact .inr (ih i a ha hQ)
      · rw [List.mem_singleton.mp ha] at hQ
        exact .inl hQ
    | rested hst _ _ htrace =>
      rw [hst]
      exact ih i a (htrace ▸ ha) hQ
  · rw [(stageOf_ne hs hj).1]
    rw [(stageOf_ne (r := r) hs hj).2] at ha
    exact ih a ha hQ

/-- A request has revoked the token `a` and stored the token `b`. -/
def Rotates (s : InFlight ι) (a b : Uuid) : Prop :=
  ∃ i now t, (⟨.revoke a now, ()⟩ : Answered Call Call.Resp) ∈ (s.thread i).trace ∧
    (⟨.saveToken t, ()⟩ : Answered Call Call.Resp) ∈ (s.thread i).trace ∧ t.id = b

/-- That is a rotation. -/
theorem stage_of_rotates (h : store.Reach ok (System.start d x fun i => (r i).prog S) s)
    {a b : Uuid} (hab : Rotates s a b) : ∃ i t,
      (stageOf r s i = .opened t (some a) ∨ stageOf r s i = .granted t (some a)) ∧ t.id = b := by
  obtain ⟨i, now, t, hrevoke, hsave, hid⟩ := hab
  have h1 := stage_of_mem h (P := Stage.HasRevoked a) (Q := fun c => ∃ now, c = .revoke a now)
    (fun _ _ _ _ _ hm hor => hm.hasRevoked hor) hrevoke ⟨now, rfl⟩
  have h2 := stage_of_mem h (P := Stage.HasStored t) (Q := fun c => c = .saveToken t)
    (fun _ _ _ _ _ hm hor => hm.hasStored hor) hsave rfl
  refine ⟨i, t, ?_, hid⟩
  generalize stageOf r s i = g at h1 h2 ⊢
  cases g with
  | opened =>
    obtain rfl := h1
    obtain rfl := h2
    exact .inl rfl
  | granted =>
    obtain rfl := h1
    obtain rfl := h2
    exact .inr rfl
  | _ => exact absurd h2 fun h => h

/-- Under a primary key a token has one account. -/
theorem hasToken_unique {d : Db} (hids : d.tokenIds.Nodup) {id u v : Uuid} (h : d.HasToken id u)
    (h' : d.HasToken id v) : u = v := by
  obtain ⟨t, ht, hid, rfl⟩ := h
  obtain ⟨t', ht', hid', rfl⟩ := h'
  rw [List.inj_on_of_nodup_map hids ht ht' (hid.trans hid'.symm)]

/-- A rotation that finds its token live finds a live row of its account. -/
theorem live_of_rotating (h : store.Reach ok (System.start d x fun i => (r i).prog S) s)
    (hu : (d.findById u).isSome = true) (hfresh : FreshTokens r d) {stored : RefreshToken}
    (hg : stageOf r s i = .rotating stored)
    (hlive : (store.view s.db (s.thread i).log).isLive stored.id = true) :
    ∃ t ∈ s.db.refreshTokens, t.id = stored.id ∧ t.userId = stored.userId ∧ t.revokedAt = none := by
  obtain ⟨t, ht, hid, hl⟩ := Db.mem_of_isLive hlive
  rw [tokens_untouched h hu (by rw [hg]; rfl)] at ht
  have hsource : s.db.HasToken stored.id stored.userId := source_reach h hu (i := i) (by rw [hg]; rfl)
  exact ⟨t, ht, hid, hasToken_unique (nodup_ids h hu hfresh) ⟨t, ht, hid, rfl⟩ hsource, hl⟩

/-- A request that ran `revoke_all_for_user` and commits is closing sessions. -/
theorem closing_of_mem (h : store.Reach ok (System.start d x fun i => (r i).prog S) s)
    {k : Unit → Cmd Response} (hp : (s.thread i).prog = .call .commit k) {ids : List Uuid}
    (ha : (⟨.liveTokens u, ids⟩ : Answered Call Call.Resp) ∈ (s.thread i).trace) :
    ∃ user, stageOf r s i = .closing u user := by
  have hlisted := stage_of_mem h (P := fun g => g.isClosing u = true ∨ g = .ended)
    (Q := fun c => c = .liveTokens u) (fun _ _ _ _ _ hm hor => hm.hasListed hor) ha rfl
  have hf := sessions_follow h i
  rw [hp] at hf
  have hmay := hf.1
  generalize stageOf r s i = g at hlisted hmay
  cases g with
  | closing userId user =>
    rcases hlisted with hg | hg
    · obtain rfl : userId = u := of_decide_eq_true hg
      exact ⟨user, rfl⟩
    · cases hg
  | listed =>
    obtain ⟨now, hc⟩ := hmay
    cases hc
  | ended => cases hmay
  | _ => rcases hlisted with hg | hg <;> cases hg

theorem sound_reach (h : store.Reach ok (System.start d x fun i => (r i).prog S) s) (i : ι) :
    Sound (r i) (stageOf r s i) :=
  stage_invariant h (P := Sound) (fun _ => trivial) (fun _ _ _ _ _ hm hg => hm.sound hg) i

/-- The step of a request at its commit. -/
theorem commit_step (h : store.Reach ok (System.start d x fun i => (r i).prog S) s)
    {k : Unit → Cmd Response} (hp : (s.thread i).prog = .call .commit k) (hs : store.Step s i s') :
    s' = store.committed s i .commit k ∧
      Moves (r i) (store.view s.db (s.thread i).log) (stageOf r s i) .commit (stageOf r s' i) := by
  cases staged_reach h hs with
  | call c k' hp' hc _ _ =>
    rw [hp] at hp'
    cases hp'
    exact absurd rfl hc
  | commit k' hp' hm hs' =>
    rw [hp] at hp'
    cases hp'
    exact ⟨hs', hm⟩
  | finish _ _ hend _ =>
    rw [hp] at hend
    cases hend

/-- A request that closes sessions is done with its commit. -/
theorem ended_of_closing (h : store.Reach ok (System.start d x fun i => (r i).prog S) s)
    {user : Option User} (hg : stageOf r s i = .closing u user) {k : Unit → Cmd Response}
    (hp : (s.thread i).prog = .call .commit k) (hs : store.Step s i s') : stageOf r s' i = .ended := by
  have hm := (commit_step h hp hs).2
  rw [hg] at hm
  generalize stageOf r s' i = g' at hm ⊢
  cases hm
  rfl

/-- The commit of a request that closes the sessions of `u` leaves none live,
and none is being opened. -/
theorem closed_commit (hok : ∀ s i, ok s i → Orderly r u s i)
    (h : store.Reach ok (System.start d x fun i => (r i).prog S) s)
    (hu : (d.findById u).isSome = true) (hfresh : FreshTokens r d) {user : Option User}
    (hg : stageOf r s i = .closing u user) {k : Unit → Cmd Response}
    (hp : (s.thread i).prog = .call .commit k) (hs : store.Step s i s') :
    LiveAmong s'.db u [] ∧ ∀ j, ¬Opening r u s' j := by
  obtain ⟨ids, now, hmem, hl⟩ := (covered_reach hok h hu hfresh i).closing user hg
  have hnone : inserted (s.thread i).log = [] := by
    rw [(written_reach h hu i).stored, hg]
    rfl
  refine ⟨fun t ht htu hlive => ?_, fun j hopen => ?_⟩
  · rw [(commit_step h hp hs).1, committed_db] at ht
    rcases mem_tokens_view ht with ⟨t₀, h₀, hb⟩ | ⟨t₀, h₀, -⟩
    · have hid : t.id ∈ ids := by
        rw [hb.id]
        exact hl t₀ h₀ (hb.userId ▸ htu) (hb.live hlive)
      exact absurd hlive (revoked_view hnone hmem ht hid)
    · rw [hnone] at h₀
      exact absurd h₀ List.not_mem_nil
  · by_cases hj : j = i
    · subst hj
      unfold Opening at hopen
      rw [ended_of_closing h hg hp hs] at hopen
      cases hopen
    · have hclosing : (stageOf r s i).isClosing u = true := by
        rw [hg]
        exact decide_eq_true rfl
      exact (apart_reach hok h).opening i j (Ne.symm hj) hclosing ((opening_ne hs hj).mp hopen)

/-- At the commit of a suspension nobody has an access token to answer. -/
theorem suspended_commit (hok : ∀ s i, ok s i → Orderly r u s i)
    (h : store.Reach ok (System.start d x fun i => (r i).prog S) s) {user : User}
    (hg : stageOf r s i = .closing u (some user)) {k : Unit → Cmd Response}
    (hp : (s.thread i).prog = .call .commit k) (hs : store.Step s i s') (j : ι) :
    ¬InSession r u s' j := by
  intro hin
  by_cases hj : j = i
  · subst hj
    have hsession := hin.1
    rw [ended_of_closing h hg hp hs] at hsession
    cases hsession
  · have hsuspending : (stageOf r s i).isSuspending u = true := by
      rw [hg]
      exact decide_eq_true rfl
    exact (apart_reach hok h).session i j (Ne.symm hj) hsuspending ((inSession_ne hs hj).mp hin)

/-- The tokens with `A` are revoked, and so is all that is rotated from them. -/
structure Shut (r : ι → SessionRequest) (u : Uuid) (A : Uuid → Prop) (s : InFlight ι) : Prop where
  kept : ∀ id, A id → s.db.HasToken id u
  revoked : ∀ t ∈ s.db.refreshTokens, A t.id → t.revokedAt ≠ none
  claimed : ∀ i stored, stageOf r s i = .claimed stored → ¬A stored.id
  rotated : ∀ i t old, stageOf r s i = .opened t (some old) ∨ stageOf r s i = .granted t (some old) →
    A old → A t.id

section Shut

variable {A : Uuid → Prop}

/-- A step brings no live token among the shut ones. -/
theorem Shut.revoked_step (hA : Shut r u A s)
    (h : store.Reach ok (System.start d x fun i => (r i).prog S) s)
    (hu : (d.findById u).isSome = true) (hfresh : FreshTokens r d) (hs : store.Step s i s')
    {t : RefreshToken} (ht : t ∈ s'.db.refreshTokens) (hid : A t.id) : t.revokedAt ≠ none := by
  intro hlive
  rcases mem_tokens_step h hu hs ht with ⟨t₀, h₀, hb⟩ | ⟨t₀, old, hg, hb, -⟩
  · exact hA.revoked t₀ h₀ (hb.id ▸ hid) (hb.live hlive)
  · obtain ⟨t', ht', hid', -⟩ := hA.kept t.id hid
    refine opened_fresh h hu hfresh hg ?_
    rw [← hb.id, ← hid']
    exact List.mem_map_of_mem ht'

/-- An orderly rotation does not claim a shut token: it would find it live. -/
theorem Shut.not_claims (hA : Shut r u A s) (ho : Orderly r u s i)
    (h : store.Reach ok (System.start d x fun i => (r i).prog S) s)
    (hu : (d.findById u).isSome = true) (hfresh : FreshTokens r d) {c : Call}
    {k : c.Resp → Cmd Response} (hp : (s.thread i).prog = .call c k) {stored : RefreshToken}
    (hm : Moves (r i) (store.view s.db (s.thread i).log) (stageOf r s i) c (.claimed stored)) :
    ¬A stored.id := by
  intro hid
  obtain ⟨hrot, now, rfl⟩ : stageOf r s i = .rotating stored ∧ ∃ now, c = .revoke stored.id now := by
    generalize stageOf r s i = g at hm
    cases hm with
    | claim => exact ⟨rfl, _, rfl⟩
  have hsource := source_reach h hu (i := i) (by rw [hrot]; rfl)
  have hsu := hasToken_unique (nodup_ids h hu hfresh) hsource (hA.kept _ hid)
  unfold Orderly at ho
  rw [hp, hrot] at ho
  obtain ⟨t, ht, htid, -, hl⟩ := live_of_rotating h hu hfresh hrot (ho hsu).1
  exact hA.revoked t ht (htid ▸ hid) hl

omit [DecidableEq ι] [Fintype ι] in
/-- What a move rotates from a shut token was so before. -/
theorem Shut.rotates (hA : Shut r u A s) {dv : Db} {c : Call} {g' : Stage}
    (hm : Moves (r i) dv (stageOf r s i) c g') {t : RefreshToken} {old : Uuid}
    (hg : g' = .opened t (some old) ∨ g' = .granted t (some old)) (hid : A old) : A t.id := by
  have hclaimed := hA.claimed i
  have hrotated := hA.rotated i
  generalize stageOf r s i = g at hm hclaimed hrotated
  rcases hg with rfl | rfl
  · cases hm with
    | rotate => exact absurd hid (hclaimed _ rfl)
  · cases hm with
    | grant => exact hrotated t old (.inl rfl) hid
    | deliver => exact hrotated t old (.inr rfl) hid

theorem Shut.step (ho : Orderly r u s i)
    (h : store.Reach ok (System.start d x fun i => (r i).prog S) s)
    (hu : (d.findById u).isSome = true) (hfresh : FreshTokens r d) (hA : Shut r u A s)
    (hs : store.Step s i s') : Shut r u A s' := by
  refine ⟨fun id hid => hasToken_step hs (hA.kept id hid),
    fun t ht hid => hA.revoked_step h hu hfresh hs ht hid, fun j stored hg => ?_,
    fun j t old hg hid => ?_⟩ <;> by_cases hj : j = i
  · subst hj
    cases turn_reach h hs with
    | moved c k _ hp hm => exact hA.not_claims ho h hu hfresh hp (hg ▸ hm)
    | rested hst => exact hA.claimed j stored (hst ▸ hg)
  · rw [(stageOf_ne hs hj).1] at hg
    exact hA.claimed j stored hg
  · subst hj
    cases turn_reach h hs with
    | moved c k _ _ hm => exact hA.rotates hm hg hid
    | rested hst =>
      rw [hst] at hg
      exact hA.rotated j t old hg hid
  · rw [(stageOf_ne hs hj).1] at hg
    exact hA.rotated j t old hg hid

end Shut

/-- When the sessions of `u` are closed, its tokens are shut. -/
theorem shut_closed (h : store.Reach ok (System.start d x fun i => (r i).prog S) s)
    (hu : (d.findById u).isSome = true) (hfresh : FreshTokens r d) (hlive : LiveAmong s.db u [])
    (hnone : ∀ j, ¬Opening r u s j) : Shut r u (fun id => s.db.HasToken id u) s := by
  have hids := nodup_ids h hu hfresh
  have hsource : ∀ i id v, (stageOf r s i).source = some (id, v) → s.db.HasToken id u → v = u :=
    fun i id v hg hid => hasToken_unique hids (source_reach h hu hg) hid
  refine ⟨fun id hid => hid, fun t ht hid hl => ?_, fun i stored hg hid => ?_,
    fun i t old hg hid => ?_⟩
  · have htu := hasToken_unique hids ⟨t, ht, rfl, rfl⟩ hid
    exact absurd (hlive t ht htu hl) List.not_mem_nil
  · have hsu := hsource i stored.id stored.userId (by rw [hg]; rfl) hid
    refine hnone i ?_
    unfold Opening
    rw [hg]
    exact decide_eq_true hsu
  · rcases hg with hg | hg
    · have htu := hsource i old t.userId (by rw [hg]; rfl) hid
      refine absurd ?_ (hnone i)
      unfold Opening
      rw [hg]
      exact decide_eq_true htu
    · have htu := hsource i old t.userId (by rw [hg]; rfl) hid
      rw [← htu]
      exact granted_reach h hu hg

/-- Nothing that descends from a shut token is live. -/
theorem Shut.not_live {A : Uuid → Prop} (hA : Shut r u A s)
    (h : store.Reach ok (System.start d x fun i => (r i).prog S) s) {a b : Uuid} (ha : A a)
    (hab : Relation.ReflTransGen (Rotates s) a b) : s.db.isLive b = false := by
  have hb : A b := by
    induction hab with
    | refl => exact ha
    | tail _ hbc ih =>
      obtain ⟨i, t, hg, rfl⟩ := stage_of_rotates h hbc
      exact hA.rotated i t _ hg ih
  cases hl : s.db.isLive b with
  | false => rfl
  | true =>
    obtain ⟨t, ht, hid, hr⟩ := Db.mem_of_isLive hl
    exact absurd hr (hA.revoked t ht (hid ▸ hb))

/-! ### After a suspension -/

/-- Request `i` is about to commit a `ChangeStatus` of `u` to `active`. -/
def Reinstates (r : ι → SessionRequest) (u : Uuid) (s : InFlight ι) (i : ι) : Prop :=
  match r i, (s.thread i).prog with
  | .changeStatus q, .call .commit _ => q.userId = u ∧ q.status = UserStatus.active.value
  | _, _ => False

/-- `Reinstates`, as a test. -/
def isReinstating (r : ι → SessionRequest) (u : Uuid) (s : InFlight ι) (i : ι) : Bool :=
  match r i, (s.thread i).prog with
  | .changeStatus q, .call .commit _ =>
    decide (q.userId = u ∧ q.status = UserStatus.active.value)
  | _, _ => false

omit [DecidableEq ι] [Fintype ι] in
theorem isReinstating_iff (i : ι) : isReinstating r u s i = true ↔ Reinstates r u s i := by
  unfold isReinstating Reinstates
  split <;> simp

omit [DecidableEq ι] [Fintype ι] in
instance (i : ι) : Decidable (Reinstates r u s i) :=
  decidable_of_iff _ (isReinstating_iff i)

/-- Since the state `s₀` the account `u` is suspended, without a live session
or one being opened; no token was stored for it, and nothing granted. -/
structure Barred (r : ι → SessionRequest) (u : Uuid) (s₀ s : InFlight ι) : Prop where
  status : s.db.statusOf u = some .suspended
  dead : LiveAmong s.db u []
  nobody : ∀ i, ¬InSession r u s i
  tokens : ∀ id, s.db.HasToken id u → s₀.db.HasToken id u
  saved : ∀ i t, (⟨.saveToken t, ()⟩ : Answered Call Call.Resp) ∈ (s.thread i).trace →
    t.userId = u → (⟨.saveToken t, ()⟩ : Answered Call Call.Resp) ∈ (s₀.thread i).trace
  granted : ∀ i a, (s.thread i).prog.outcome = some (.ok a) → a.grants u = true →
    (s₀.thread i).prog.outcome = some (.ok a)

variable {s₀ : InFlight ι}

/-- No move opens a session of a barred account. -/
theorem Barred.isSession (hb : Barred r u s₀ s) (ho : Orderly r u s i)
    (h : store.Reach ok (System.start d x fun i => (r i).prog S) s)
    (hu : (d.findById u).isSome = true) (hfresh : FreshTokens r d) {c : Call}
    {k : c.Resp → Cmd Response} (hp : (s.thread i).prog = .call c k) {g' : Stage}
    (hm : Moves (r i) (store.view s.db (s.thread i).log) (stageOf r s i) c g') :
    g'.isSession u = false := by
  by_contra hg'
  have hg' : g'.isSession u = true := by simpa using hg'
  rcases hm.isSession hg' with hg | hopens
  · exact hb.nobody i ⟨hg, by rw [hp]; rfl⟩
  · rcases (ho.opens hp hopens).2 with ⟨stored, hst, hsu, hlive⟩ | hstatus
    · obtain ⟨t, ht, -, htu, hl⟩ := live_of_rotating h hu hfresh hst hlive
      exact absurd (hb.dead t ht (htu.trans hsu) hl) List.not_mem_nil
    · exact hstatus hb.status

/-- A commit leaves a barred account suspended, unless it reinstates it. -/
theorem Barred.status_commit (hb : Barred r u s₀ s) (hr : ¬Reinstates r u s i)
    (h : store.Reach ok (System.start d x fun i => (r i).prog S) s)
    (hu : (d.findById u).isSome = true) {k : Unit → Cmd Response}
    (hp : (s.thread i).prog = .call .commit k) {g' : Stage}
    (hm : Moves (r i) (store.view s.db (s.thread i).log) (stageOf r s i) .commit g') :
    (store.view s.db (s.thread i).log).statusOf u = some .suspended := by
  refine statusOf_view (findById_reach h hu) (fun v now hmem hv => ?_) (.inl hb.status)
  have hsaves := (written_reach h hu i).saves v now hmem
  have hsound := sound_reach h i
  have hnobody := hb.nobody i
  unfold InSession at hnobody
  generalize stageOf r s i = g at hsaves hsound hm hnobody
  cases g with
  | saved user =>
    obtain rfl : user = v := hsaves
    cases hm with
    | settleSaved hne hcs =>
      unfold Reinstates at hr
      cases hri : r i with
      | changeStatus q =>
        rw [hri, hp] at hr
        rw [hri] at hsound
        obtain ⟨hid, hset, hval⟩ := hsound
        have hactive : user.status = .active := by
          rcases List.mem_cons.mp hset with he | he
          · exact he
          · exact absurd (List.mem_singleton.mp he) hne
        exact absurd ⟨hid.symm.trans hv, by rw [← hval, hactive]⟩ hr
      | _ =>
        rw [hri] at hcs
        exact absurd hcs fun h => h
  | listed => cases hm
  | closing userId user =>
    obtain rfl : user = some v := hsaves
    exact hsound.2
  | opened t old =>
    have htv : t.userId = v.id := hsaves
    exact absurd ⟨decide_eq_true (htv.trans hv), by rw [hp]; rfl⟩ hnobody
  | _ => exact absurd hsaves fun h => h

/-- A barred account stays suspended. -/
theorem Barred.status_step (hb : Barred r u s₀ s) (hr : ¬Reinstates r u s i)
    (h : store.Reach ok (System.start d x fun i => (r i).prog S) s)
    (hu : (d.findById u).isSome = true) (hs : store.Step s i s') :
    s'.db.statusOf u = some .suspended := by
  cases staged_reach h hs with
  | call c k hp _ hm hs' =>
    rw [hs', called_db]
    exact hb.status
  | commit k hp hm hs' =>
    rw [hs', committed_db]
    exact hb.status_commit hr h hu hp hm
  | finish _ hrest _ hs' =>
    rcases hs' with rfl | rfl
    · -- a request that is done has saved no account since its commit
      refine statusOf_view (findById_reach h hu) (fun v now hmem _ => ?_) (.inl hb.status)
      have hsaves := (written_reach h hu i).saves v now hmem
      generalize stageOf r s i = g at hsaves hrest
      cases g with
      | idle | found | granted | ended => exact absurd hsaves fun h => h
      | _ => cases hrest
    · exact hb.status

/-- Nobody gets into a session of a barred account. -/
theorem Barred.nobody_step (hb : Barred r u s₀ s) (ho : Orderly r u s i)
    (h : store.Reach ok (System.start d x fun i => (r i).prog S) s)
    (hu : (d.findById u).isSome = true) (hfresh : FreshTokens r d) (hs : store.Step s i s') (j : ι) :
    ¬InSession r u s' j := by
  intro hin
  by_cases hj : j = i
  · subst hj
    cases turn_reach h hs with
    | moved c k _ hp hm => exact absurd hin.1 (by rw [hb.isSession ho h hu hfresh hp hm]; decide)
    | rested _ hend hprog =>
      have hlive := hin.2
      rw [hprog, hend] at hlive
      cases hlive
  · exact hb.nobody j ((inSession_ne hs hj).mp hin)

/-- A step adds no token to a barred account. -/
theorem Barred.tokens_step (hb : Barred r u s₀ s)
    (h : store.Reach ok (System.start d x fun i => (r i).prog S) s)
    (hu : (d.findById u).isSome = true) (hs : store.Step s i s') {id : Uuid}
    (hid : s'.db.HasToken id u) : s₀.db.HasToken id u := by
  obtain ⟨t, ht, rfl, htu⟩ := hid
  rcases mem_tokens_step h hu hs ht with ⟨t₀, h₀, hbe⟩ | ⟨t₀, old, hg, hbe, hend⟩
  · exact hb.tokens _ ⟨t₀, h₀, hbe.id.symm, hbe.userId ▸ htu⟩
  · refine absurd ⟨?_, hend⟩ (hb.nobody i)
    rw [hg]
    exact decide_eq_true (hbe.userId ▸ htu)

/-- No step stores a token of a barred account. -/
theorem Barred.saved_step (hb : Barred r u s₀ s) (ho : Orderly r u s i)
    (h : store.Reach ok (System.start d x fun i => (r i).prog S) s)
    (hu : (d.findById u).isSome = true) (hfresh : FreshTokens r d) (hs : store.Step s i s') {j : ι}
    {t : RefreshToken} (ht : (⟨.saveToken t, ()⟩ : Answered Call Call.Resp) ∈ (s'.thread j).trace)
    (htu : t.userId = u) : (⟨.saveToken t, ()⟩ : Answered Call Call.Resp) ∈ (s₀.thread j).trace := by
  by_cases hj : j = i
  · subst hj
    cases turn_reach h hs with
    | moved c k _ hp hm _ htrace =>
      rw [htrace] at ht
      rcases List.mem_append.mp ht with ht | ht
      · exact hb.saved j t ht htu
      · -- that would open a session
        have hc : c = .saveToken t := (congrArg Sigma.fst (List.mem_singleton.mp ht)).symm
        have hst := hm.hasStored (.inl hc)
        have hno := hb.isSession ho h hu hfresh hp hm
        generalize stageOf r s' j = g' at hst hno
        cases g' with
        | opened | granted =>
          obtain rfl := hst
          exact absurd htu (of_decide_eq_false hno)
        | _ => exact absurd hst fun h => h
    | rested _ _ _ htrace => exact hb.saved j t (htrace ▸ ht) htu
  · rw [(stageOf_ne (r := r) hs hj).2] at ht
    exact hb.saved j t ht htu

/-- No step ends with a session of a barred account granted. -/
theorem Barred.granted_step (hb : Barred r u s₀ s) (ho : Orderly r u s i)
    (h : store.Reach ok (System.start d x fun i => (r i).prog S) s)
    (hu : (d.findById u).isSome = true) (hfresh : FreshTokens r d) (hs : store.Step s i s') {j : ι}
    {a : Response} (ha : (s'.thread j).prog.outcome = some (.ok a)) (hgr : a.grants u = true) :
    (s₀.thread j).prog.outcome = some (.ok a) := by
  by_cases hj : j = i
  · subst hj
    cases turn_reach h hs with
    | moved c k _ hp hm =>
      -- the request would have moved to a session
      have hf : (s'.thread j).prog.Follows (r j).monitor (stageOf r s' j) :=
        hs.follows (M := fun i => (r i).monitor) (sessions_follow h j)
      rw [Prog.outcome_eq_ok.mp ha] at hf
      have hin : (stageOf r s' j).isSession u = true := isSession_of_ret hf hm.ne_mistaken hgr
      rw [hb.isSession ho h hu hfresh hp hm] at hin
      cases hin
    | rested _ _ hprog => exact hb.granted j a (hprog ▸ ha) hgr
  · rw [(stageOf_ne (r := r) hs hj).2] at ha
    exact hb.granted j a ha hgr

theorem Barred.step (hb : Barred r u s₀ s) (ho : Orderly r u s i) (hr : ¬Reinstates r u s i)
    (h : store.Reach ok (System.start d x fun i => (r i).prog S) s)
    (hu : (d.findById u).isSome = true) (hfresh : FreshTokens r d) (hs : store.Step s i s') :
    Barred r u s₀ s' where
  status := hb.status_step hr h hu hs
  dead := liveAmong_step h hu hs (fun hopen => hb.nobody i (hopen.inSession h)) hb.dead
  nobody := hb.nobody_step ho h hu hfresh hs
  tokens _ hid := hb.tokens_step h hu hs hid
  saved _ _ ht htu := hb.saved_step ho h hu hfresh hs ht htu
  granted _ _ ha hgr := hb.granted_step ho h hu hfresh hs ha hgr

/-- The commit of a suspension bars the account. -/
theorem barred_suspended (hok : ∀ s i, ok s i → Orderly r u s i)
    (h : store.Reach ok (System.start d x fun i => (r i).prog S) s)
    (hu : (d.findById u).isSome = true) (hfresh : FreshTokens r d) {user : User}
    (hg : stageOf r s i = .closing u (some user)) {k : Unit → Cmd Response}
    (hp : (s.thread i).prog = .call .commit k) (hs : store.Step s i s') :
    Barred r u s' s' := by
  have hlive := (closed_commit hok h hu hfresh hg hp hs).1
  have hnone := suspended_commit hok h hg hp hs
  have hw := written_reach h hu i
  rw [hg] at hw
  have hsound := sound_reach h i
  rw [hg] at hsound
  obtain ⟨hid, hsus⟩ := hsound
  refine ⟨?_, hlive, hnone, fun _ h => h, fun _ _ h _ => h, fun _ _ h _ => h⟩
  rw [(commit_step h hp hs).1, committed_db]
  obtain ⟨now, hmem⟩ := hw.saved user rfl hid
  refine statusOf_view (findById_reach h hu) (fun v now hmem _ => ?_) (.inr ⟨user, now, hmem, hid⟩)
  obtain rfl := Option.some.inj (hw.saves v now hmem)
  exact hsus

/-- **Closing all sessions is final**, in orderly runs: once a request that ran
`revoke_all_for_user` has committed, no token that descends by rotation from
one of the account that was there is live; and if it was a suspension, then
until a `ChangeStatus` to `active` commits no token of the account is stored
and no access token is answered for it. -/
theorem revocation_final (hu : (d.findById u).isSome = true) (hfresh : FreshTokens r d)
    (h : store.Reach (Orderly r u) (System.start d x fun i => (r i).prog S) s)
    {k : Unit → Cmd Response} (hp : (s.thread i).prog = .call .commit k) {ids : List Uuid}
    (hran : (⟨.liveTokens u, ids⟩ : Answered Call Call.Resp) ∈ (s.thread i).trace)
    (hs : store.step s i = some s') :
    (∀ s₃, store.Reach (Orderly r u) s' s₃ → ∀ a b, s.db.HasToken a u →
      Relation.ReflTransGen (Rotates s₃) a b → s₃.db.isLive b = false) ∧
    ∀ q, r i = .changeStatus q → ∀ s₃,
      store.Reach (fun s j => Orderly r u s j ∧ ¬Reinstates r u s j) s' s₃ →
      (∀ id, s₃.db.HasToken id u → s'.db.HasToken id u) ∧
      (∀ j t, (⟨.saveToken t, ()⟩ : Answered Call Call.Resp) ∈ (s₃.thread j).trace →
        t.userId = u → (⟨.saveToken t, ()⟩ : Answered Call Call.Resp) ∈ (s'.thread j).trace) ∧
      ∀ j a, (s₃.thread j).prog.outcome = some (.ok a) → a.grants u = true →
        (s'.thread j).prog.outcome = some (.ok a) := by
  have hstep := store.step_cases hs
  obtain ⟨user, hg⟩ := closing_of_mem h hp hran
  have ho : Orderly r u s i := by
    unfold Orderly
    rw [hp]
    trivial
  have h' : store.Reach (Orderly r u) (System.start d x fun i => (r i).prog S) s' :=
    .step i h ho hs
  refine ⟨fun s₃ h₃ a b ha hab => ?_, fun q hq s₃ h₃ => ?_⟩
  · obtain ⟨hlive, hnone⟩ := closed_commit (fun _ _ h => h) h hu hfresh hg hp hstep
    have hshut : Shut r u (fun id => s'.db.HasToken id u) s₃ :=
      h₃.invariant (P := Shut r u fun id => s'.db.HasToken id u)
        (shut_closed h' hu hfresh hlive hnone)
        fun _ _ _ hr hA ho hs => hA.step ho (h'.trans hr) hu hfresh hs
    exact hshut.not_live (h'.trans h₃) (hasToken_step hstep ha) hab
  · have huser : ∃ v, user = some v := by
      have hsound := sound_reach h i
      rw [hg, hq] at hsound
      cases user with
      | none => exact absurd hsound fun h => h
      | some v => exact ⟨v, rfl⟩
    obtain ⟨v, rfl⟩ := huser
    have hbarred : Barred r u s' s₃ :=
      h₃.invariant (P := Barred r u s') (barred_suspended (fun _ _ h => h) h hu hfresh hg hp hstep)
        fun _ _ _ hr hb ho hs =>
          hb.step ho.1 ho.2 (h'.trans (hr.mono fun _ _ h => h.1)) hu hfresh hs
    exact ⟨hbarred.tokens, hbarred.saved, hbarred.granted⟩

end Runs

/-! ### The race -/

/-- A rotation of the token of `oneSession`. -/
def rotation : RefreshAccessToken :=
  { refreshToken := "r", deviceInfo := none, now := 5, newTokenId := 2, newRefresh := "a" }

/-- The account is suspended (request 0), and its token rotated (request 1). -/
def suspension (i : Fin 2) : SessionRequest :=
  if i = 0 then
    .changeStatus { userId := 7, status := "suspended", reason := none, changedBy := none, now := 5 }
  else .refreshAccessToken rotation

/-- The token that the rotation stores. -/
def successor : RefreshToken :=
  { id := 2, userId := 7, tokenHash := "a", expiresAt := refreshExpiry plainEnv 5, createdAt := 5 }

theorem suspension_newTokenId {i : Fin 2} {id : Uuid} (h : (suspension i).newTokenId = some id) :
    i = 1 ∧ id = 2 := by
  by_cases hi : i = 0
  · rw [suspension, if_pos hi] at h
    cases h
  · rw [suspension, if_neg hi] at h
    cases h
    exact ⟨by omega, rfl⟩

theorem suspension_fresh : FreshTokens suspension oneSession where
  known := by decide
  new i id h := by
    rw [(suspension_newTokenId h).2]
    decide
  distinct i j id hi hj := (suspension_newTokenId hi).1.trans (suspension_newTokenId hj).1.symm

/-- Is the next call the commit? -/
def atCommit : Cmd Response → Bool
  | .call .commit _ => true
  | _ => false

theorem exists_of_atCommit {p : Cmd Response} (h : atCommit p = true) :
    ∃ k, p = .call .commit k := by
  unfold atCommit at h
  split at h
  · exact ⟨_, rfl⟩
  · cases h

/-- The rotation first: its token is revoked with the rest. -/
theorem revocation_final_serial : ∃ s s' s₃ : InFlight (Fin 2),
    store.Reach (Orderly suspension 7)
      (System.start oneSession {} fun i => (suspension i).prog plainEnv) s ∧
    store.step s 0 = some s' ∧ store.Reach (Orderly suspension 7) s' s₃ ∧
    s.db.isLive 2 = true ∧ s₃.db.isLive 2 = false := by
  have hrun : ((store.follow (Orderly suspension 7)
      (System.start oneSession {} fun i => (suspension i).prog plainEnv)
      [1, 1, 1, 1, 1, 0, 0, 0, 0, 0]).bind fun s => (store.step s 0).bind fun s' =>
        (store.follow (Orderly suspension 7) s' [0, 0]).map fun s₃ =>
          (atCommit (s.thread 0).prog,
            decide ((⟨.liveTokens 7, [2]⟩ : Answered Call Call.Resp) ∈ (s.thread 0).trace),
            s.db.isLive 2, s.db.refreshTokens.any fun t => t.id = 1 && t.userId = 7,
            decide ((⟨.revoke 1 5, ()⟩ : Answered Call Call.Resp) ∈ (s₃.thread 1).trace),
            decide ((⟨.saveToken successor, ()⟩ : Answered Call Call.Resp) ∈
              (s₃.thread 1).trace))) = some (true, true, true, true, true, true) := by
    decide +kernel
  obtain ⟨s, hs, hrun⟩ := Option.bind_eq_some_iff.mp hrun
  obtain ⟨s', hs', hrun⟩ := Option.bind_eq_some_iff.mp hrun
  obtain ⟨s₃, hs₃, hp⟩ := Option.map_eq_some_iff.mp hrun
  simp only [Prod.mk.injEq, decide_eq_true_eq, List.any_eq_true, Bool.and_eq_true] at hp
  obtain ⟨hcommit, hran, hlive, ⟨t, ht, hid, htu⟩, hrevoke, hsave⟩ := hp
  obtain ⟨k, hk⟩ := exists_of_atCommit hcommit
  have hfinal := (revocation_final (u := 7) (by decide) suspension_fresh (reach_of_follow hs) hk
    hran hs').1 s₃ (reach_of_follow hs₃) 1 2 ⟨t, ht, hid, htu⟩
    (.single ⟨1, 5, successor, hrevoke, hsave, rfl⟩)
  exact ⟨s, s', s₃, reach_of_follow hs, hs', reach_of_follow hs₃, hlive, hfinal⟩

/-- **Revived.** The rotation has read its token and the account when the
account is suspended, and goes on: it answers with an access token, and
leaves a live token that descends from one the suspension revoked. -/
theorem revived_after_suspension : ∃ s s' s₃ : InFlight (Fin 2),
    store.Reach Any (System.start oneSession {} fun i => (suspension i).prog plainEnv) s ∧
    (⟨.liveTokens 7, [1]⟩ : Answered Call Call.Resp) ∈ (s.thread 0).trace ∧
    store.step s 0 = some s' ∧ s'.db.statusOf 7 = some .suspended ∧ store.Reach Any s' s₃ ∧
    s.db.HasToken 1 7 ∧ Rotates s₃ 1 2 ∧ s₃.db.isLive 2 = true ∧
    (s'.thread 1).prog.outcome = none ∧
    (s₃.thread 1).prog.outcome =
      some (.ok (.tokenPair (issueAccessToken plainEnv 7 "user" "active" 5) "a")) := by
  have hrun : ((store.follow Any
      (System.start oneSession {} fun i => (suspension i).prog plainEnv)
      [1, 1, 0, 0, 0, 0, 0]).bind fun s => (store.step s 0).bind fun s' =>
        (store.follow Any s' [1, 1, 1]).map fun s₃ =>
          (decide ((⟨.liveTokens 7, [1]⟩ : Answered Call Call.Resp) ∈ (s.thread 0).trace ∧
              (⟨.revoke 1 5, ()⟩ : Answered Call Call.Resp) ∈ (s₃.thread 1).trace ∧
              (⟨.saveToken successor, ()⟩ : Answered Call Call.Resp) ∈ (s₃.thread 1).trace),
            s.db.refreshTokens.any fun t => t.id = 1 && t.userId = 7,
            decide (s'.db.statusOf 7 = some .suspended ∧ s₃.db.isLive 2 = true ∧
              (s'.thread 1).prog.outcome = none), (s₃.thread 1).prog.outcome)) =
      some (true, true, true,
        some (.ok (.tokenPair (issueAccessToken plainEnv 7 "user" "active" 5) "a"))) := by
    decide +kernel
  obtain ⟨s, hs, hrun⟩ := Option.bind_eq_some_iff.mp hrun
  obtain ⟨s', hs', hrun⟩ := Option.bind_eq_some_iff.mp hrun
  obtain ⟨s₃, hs₃, hp⟩ := Option.map_eq_some_iff.mp hrun
  simp only [Prod.mk.injEq, decide_eq_true_eq, List.any_eq_true, Bool.and_eq_true] at hp
  obtain ⟨⟨hran, hrevoke, hsave⟩, ⟨t, ht, hid, htu⟩, ⟨hstatus, hlive, hnone⟩, hret⟩ := hp
  exact ⟨s, s', s₃, reach_of_follow hs, hran, hs', hstatus, reach_of_follow hs₃,
    ⟨t, ht, hid, htu⟩, ⟨1, 5, successor, hrevoke, hsave, rfl⟩, hlive, hnone, hret⟩

end DiddiFreeID
