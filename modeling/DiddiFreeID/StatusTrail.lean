/-
# The status trail

Three commands write `status`, each with an audit row of its own. However
the requests come, the rows of an account are one walk in
`ALLOWED_STATUS_TRANSITIONS` from `pending_verification` to the status it
has now (`status_trail`).

Key definition: `StatusTrail`.
Key theorems: `Writes.status_row`, `status_closed`, `status_trail`.
-/
import DiddiFreeID.Accounts
import Mathlib.Data.List.Chain

namespace DiddiFreeID

/-- The rows are a chain of allowed transitions from `pending_verification`
to `status`. -/
structure StatusTrail (rows : List UserStatusChange) (status : UserStatus) : Prop where
  first : ∀ c ∈ rows.head?, c.fromStatus = some .pendingVerification
  linked : rows.IsChain fun c c' => c'.fromStatus = some c.toStatus
  allowed : ∀ c ∈ rows, ∃ source, c.fromStatus = some source ∧
    canTransition source c.toStatus = true ∧ source ≠ c.toStatus
  last : (rows.getLast?.map UserStatusChange.toStatus).getD .pendingVerification = status

namespace StatusTrail

variable {rows : List UserStatusChange} {status : UserStatus}

theorem nil : StatusTrail [] .pendingVerification := ⟨by simp, .nil, by simp, rfl⟩

/-- A row that leaves the status the trail ends in carries it on. -/
theorem snoc (h : StatusTrail rows status) {c : UserStatusChange} (hc : c.fromStatus = some status)
    (ht : canTransition status c.toStatus = true) : StatusTrail (rows ++ [c]) c.toStatus := by
  have hne : status ≠ c.toStatus := by
    intro he
    rw [← he, canTransition_self] at ht
    cases ht
  refine ⟨fun b hb => ?_, ?_, fun b hb => ?_, by simp⟩
  · cases rows with
    | nil =>
      obtain rfl : c = b := by simpa using hb
      rw [hc, ← h.last]
      rfl
    | cons a rows => exact h.first b (by simpa using hb)
  · refine h.linked.append (.singleton c) fun b hb b' hb' => ?_
    obtain rfl : c = b' := by simpa using hb'
    rw [hc, ← h.last, Option.mem_def.mp hb]
    rfl
  · rcases List.mem_append.mp hb with hb | hb
    · exact h.allowed b hb
    · obtain rfl := List.mem_singleton.mp hb
      exact ⟨status, hc, ht, hne⟩

end StatusTrail

variable {S : Env}

/-- An entry leaves the status and writes no row, or makes an allowed
transition and writes its row. -/
theorem Writes.status_row {user : User} {r : Request} {o : Except Failure Response} {e : Entry}
    (h : Writes S user r o e) :
    (e.statusRows = [] ∧ e.user.status = user.status) ∨
    ∃ c, e.statusRows = [c] ∧ c.fromStatus = some user.status ∧ c.toStatus = e.user.status ∧
      canTransition user.status e.user.status = true := by
  cases h with
  | rename | request | grant => exact .inl ⟨rfl, rfl⟩
  | verify hs =>
    refine .inr ⟨_, rfl, ?_, rfl, ?_⟩
    · rw [hs]
      rfl
    · rw [hs]
      simp only [VerifyOtp.activated]
      split_ifs <;> rfl
  | @decide q requested hq hr =>
    by_cases hk : user.status = .pendingKyc
    · have hd : (q.decided user requested).status = .active := by
        simp [DecideKyc.decided, hk]
      refine .inr ⟨q.releaseRow user (q.decided user requested).status, ?_, rfl, rfl, ?_⟩
      · rw [if_pos (by rw [hd, hk]; decide)]
      · rw [hd, hk]
        rfl
    · have hd : (q.decided user requested).status = user.status := by
        simp [DecideKyc.decided, hk]
      exact .inl ⟨if_neg (by simp [hd]), hd⟩
  | transit hq ht hs hc => exact .inr ⟨_, rfl, rfl, rfl, hc⟩

variable {ok : World → Request → Prop} {rs : List Request} {u : Uuid}

/-- **Step.** What a request does to an account carries its trail on. -/
theorem StatusTrail.step {a a' : Account} {r : Request} {o : Except Failure Response}
    (h : StatusTrail a.statusRows a.user.status) (hs : a.Step S r o a') :
    StatusTrail a'.statusRows a'.user.status := by
  cases hs with
  | idle => exact h
  | entry he =>
    rcases he.status_row with ⟨hr, hst⟩ | ⟨c, hr, hf, ht, hc⟩
    · rw [Account.record_statusRows, Account.record_status, hr, hst, List.append_nil]
      exact h
    · rw [Account.record_statusRows, Account.record_status, hr, ← ht]
      exact h.snoc hf (by rw [ht]; exact hc)

theorem Legal.statusTrail (h : Legal S ok rs) {a : Account} (ha : (served S rs).account u = some a) :
    StatusTrail a.statusRows a.user.status :=
  h.account_induction (P := fun _ a => StatusTrail a.statusRows a.user.status)
    (fun _ _ _ _ _ _ => .nil) (fun _ _ _ _ _ _ _ _ ih hs => ih.step hs) ha

/-- What a set of statuses closed under the transitions holds, it keeps. -/
theorem status_closed {P : UserStatus → Prop}
    (hP : ∀ s t, canTransition s t = true → P s → P t) {rs' : List Request}
    (h : Legal S ok (rs ++ rs')) {a : Account} (ha : (served S rs).account u = some a)
    (hs : P a.user.status) : ∃ b, (served S (rs ++ rs')).account u = some b ∧ P b.user.status := by
  induction rs' using List.reverseRecOn with
  | nil => exact ⟨a, by simpa using ha, hs⟩
  | append_singleton rs' r ih =>
    rw [← List.append_assoc] at h ⊢
    obtain ⟨hl, hf, -⟩ := h.of_snoc
    obtain ⟨b, hb, hPb⟩ := ih hl
    obtain ⟨b', hb', hst⟩ := World.account_after (S := S) hl.wellFormed hf hb
    refine ⟨b', by rw [served_snoc, hb'], ?_⟩
    cases hst with
    | idle => exact hPb
    | entry he =>
      rcases he.status_row with ⟨-, hst⟩ | ⟨c, -, -, -, hc⟩
      · rw [Account.record_status, hst]
        exact hPb
      · exact hP _ _ hc hPb

/-- **Status trail.** In every run the status rows of every account are a
chain of allowed transitions from `pending_verification` to its status; no
account returns to `pending_verification`, and none that was `active` is
`pending_kyc` again. -/
theorem status_trail (h : Legal S Anything rs) {a : Account}
    (ha : (served S rs).account u = some a) :
    StatusTrail a.statusRows a.user.status ∧
    ∀ before later b, rs = before ++ later → (served S before).account u = some b →
      (b.user.status ≠ .pendingVerification → a.user.status ≠ .pendingVerification) ∧
      (b.user.status = .active → a.user.status ≠ .pendingKyc) := by
  refine ⟨h.statusTrail ha, fun before later b hrs hb => ⟨fun hne => ?_, fun hact => ?_⟩⟩
  · subst hrs
    obtain ⟨a', ha', hs⟩ := status_closed (P := (· ≠ .pendingVerification))
      (fun s t => by cases s <;> cases t <;> decide) h hb hne
    rw [ha] at ha'
    cases ha'
    exact hs
  · subst hrs
    obtain ⟨a', ha', hs⟩ := status_closed (P := fun s => s = .active ∨ s = .suspended)
      (fun s t => by cases s <;> cases t <;> simp [canTransition, allowedStatusTransitions])
      h hb (.inl hact)
    rw [ha] at ha'
    cases ha'
    rcases hs with hs | hs
    · rw [hs]; decide
    · rw [hs]; decide

theorem status_trail_driver : ∃ a, (served plainEnv driverRun).account 7 = some a ∧
    a.statusRows.length = 3 ∧ StatusTrail a.statusRows a.user.status := by
  have ha : ((served plainEnv driverRun).account 7).any fun a => a.statusRows.length = 3 := by
    decide +kernel
  obtain ⟨hs, hn⟩ := (Option.any_eq_true_iff_get _ _).mp ha
  exact ⟨_, (Option.some_get hs).symm, by simpa using hn,
    (status_trail driverRun_legal (Option.some_get hs).symm).1⟩

end DiddiFreeID
