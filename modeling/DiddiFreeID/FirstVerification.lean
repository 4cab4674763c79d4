/-
# First verifications at once

`VerifyOtp` takes an account for its first verification if it reads
`pending_verification`, and nothing keeps another request, with another
code, from reading the same before either commits
(`registered_twice`). Where every first verification still finds that status
when it saves, the account is a claim: one request publishes
`user.registered` and writes the row that leaves `pending_verification`
(`registered_at_most_once`).

Key definitions: `verificationClaim`, `SavesUnverified`.
Key theorems: `Once.step`, `registered_at_most_once`.
-/
import DiddiFreeID.OtpSession
import DiddiFreeID.Runs

namespace DiddiFreeID

open Transact Engine

variable {S : Env} {u : Uuid}

/-! ### Phases of a first verification -/

namespace VerifyOtp.Phase

/-- The request has saved the first verification of account `u`. -/
def HasSaved (u : Uuid) : Phase → Prop
  | .saved _ user | .recorded _ user | .opened _ user true | .committed _ user true
  | .invalidated _ user true | .announced _ user => user.id = u
  | _ => False

/-- Its status row is written and not committed. -/
def HasRecorded (u : Uuid) : Phase → Prop
  | .recorded _ user | .opened _ user true => user.id = u
  | _ => False

def HasCommitted (u : Uuid) : Phase → Prop
  | .committed _ user true | .invalidated _ user true | .announced _ user => user.id = u
  | _ => False

def HasAnnounced (u : Uuid) : Phase → Prop
  | .announced _ user => user.id = u
  | _ => False

variable {g : Phase}

theorem HasRecorded.hasSaved (h : g.HasRecorded u) : g.HasSaved u := by
  cases g with
  | recorded => exact h
  | opened _ _ first =>
    cases first with
    | false => exact absurd h fun h => h
    | true => exact h
  | _ => exact absurd h fun h => h

theorem HasCommitted.hasSaved (h : g.HasCommitted u) : g.HasSaved u := by
  cases g with
  | announced => exact h
  | committed _ _ first | invalidated _ _ first =>
    cases first with
    | false => exact absurd h fun h => h
    | true => exact h
  | _ => exact absurd h fun h => h

theorem HasAnnounced.hasCommitted (h : g.HasAnnounced u) : g.HasCommitted u := by
  cases g with
  | announced => exact h
  | _ => exact absurd h fun h => h

theorem HasRecorded.not_hasCommitted (h : g.HasRecorded u) : ¬g.HasCommitted u := by
  cases g with
  | recorded | opened => exact fun h => h
  | _ => exact absurd h fun h => h

end VerifyOtp.Phase

/-- The row leaves `pending_verification` for account `u`. -/
def UserStatusChange.leaves (u : Uuid) (c : UserStatusChange) : Bool :=
  decide (c.userId = u) && decide (c.fromStatus = some .pendingVerification)

/-- How many rows leave `pending_verification` for account `u`. -/
def leaving (u : Uuid) (rows : List UserStatusChange) : ℕ := rows.countP (UserStatusChange.leaves u)

def Write.leaves (u : Uuid) : Write → Bool
  | .insertStatus c => c.leaves u
  | _ => false

/-- How many such rows a log writes. -/
def leavingIn (u : Uuid) (log : List Write) : ℕ := log.countP (Write.leaves u)

theorem leaving_view (log : List Write) (d : Db) :
    leaving u (store.view d log).statusHistory = leaving u d.statusHistory + leavingIn u log := by
  induction log generalizing d with
  | nil => rfl
  | cons w log ih =>
    have hcons : leavingIn u (w :: log) = leavingIn u log + if w.leaves u then 1 else 0 :=
      List.countP_cons
    rw [Engine.view_cons, ih, hcons, store_apply]
    cases w with
    | insertStatus c =>
      have hw : (Write.insertStatus c).leaves u = c.leaves u := rfl
      simp only [Write.apply, leaving, List.countP_append, List.countP_singleton]
      cases hc : c.leaves u with
      | true => simp [hw, hc]; omega
      | false => simp [hw, hc]
    | _ => simp [Write.apply, Write.leaves]

theorem leavingIn_append (l l' : List Write) :
    leavingIn u (l ++ l') = leavingIn u l + leavingIn u l' := List.countP_append

theorem leavingIn_quiet {log : List Write} (h : ∀ w ∈ log, w.quiet = true) :
    leavingIn u log = 0 := by
  rw [leavingIn, List.countP_eq_zero]
  intro w hw
  cases w with
  | insertStatus c => exact absurd (h _ hw) (by simp [Write.quiet])
  | _ => simp [Write.leaves]

/-! ### The moves that count -/

namespace VerifyOtp

variable {q : VerifyOtp} {g g' : Phase} {c : Call} {r : c.Resp}

/-- One move writes a row that leaves `pending_verification`. -/
theorem Moves.leavingIn (h : Moves S q g c r g') (d : Db) (x : Outside) :
    leavingIn u (exec c d x).2.1 = 0 ∨
      leavingIn u (exec c d x).2.1 = 1 ∧ ¬g.HasRecorded u ∧ g'.HasRecorded u := by
  cases h with
  | @record otp user =>
    by_cases hu : user.id = u
    · refine .inr ⟨?_, fun h => h, hu⟩
      simp [exec, DiddiFreeID.leavingIn, Write.leaves, UserStatusChange.leaves, activationRow, hu]
    · left
      simp [exec, DiddiFreeID.leavingIn, Write.leaves, UserStatusChange.leaves, activationRow, hu]
  | count | lost =>
    left
    simp only [exec]
    split <;> rfl
  | burn | consume =>
    exact .inl (leavingIn_quiet (Db.consumption_quiet d _ _))
  | save | unsaved =>
    left
    simp only [exec, Db.saveUser]
    split
    · rfl
    · split <;> rfl
  | _ => exact .inl rfl

/-- One move publishes. -/
theorem Moves.stream (h : Moves S q g c r g') (d : Db) (x : Outside) :
    (exec c d x).2.2.stream = x.stream ∨
      ∃ otp user, g = .invalidated otp user true ∧ g' = .announced otp user ∧
        (exec c d x).2.2.stream =
          x.stream ++ [.userRegistered user.id user.phone user.role q.now] := by
  cases h with
  | @announce otp user => exact .inr ⟨otp, user, rfl, rfl, rfl⟩
  | count | lost =>
    left
    simp only [exec]
    split <;> rfl
  | _ => exact .inl rfl

theorem Moves.hasRecorded (h : Moves S q g c r g') (hg : g.HasRecorded u) :
    c ≠ .commit ∧ g'.HasRecorded u ∨ c = .commit ∧ g'.HasCommitted u := by
  cases h with
  | openFirst => exact .inl ⟨by simp, hg⟩
  | @commit otp user first =>
    cases first with
    | false => exact absurd hg fun h => h
    | true => exact .inr ⟨rfl, hg⟩
  | _ => exact absurd hg fun h => h

theorem Moves.hasCommitted (h : Moves S q g c r g') (hg : g.HasCommitted u) :
    g'.HasCommitted u := by
  cases h with
  | @invalidate otp user first =>
    cases first with
    | false => exact absurd hg fun h => h
    | true => exact hg
  | announce => exact hg
  | _ => exact absurd hg fun h => h

theorem Moves.not_hasAnnounced (h : Moves S q g c r g') : ¬g.HasAnnounced u := by
  cases h <;> exact fun h => h

/-- A request gets there by saving an account it read in
`pending_verification`. -/
theorem Moves.hasSaved (h : Moves S q g c r g') (h' : g'.HasSaved u) :
    g.HasSaved u ∨ ∃ otp user, g = .read otp user ∧ user.id = u ∧
      user.status = .pendingVerification ∧ c = .saveUser (activated user) q.now := by
  cases h with
  | @save otp user hs => exact .inr ⟨otp, user, rfl, h', hs, rfl⟩
  | record | openFirst | announce => exact .inl h'
  | @commit otp user first | @invalidate otp user first =>
    cases first with
    | false => exact absurd h' fun h => h
    | true => exact .inl h'
  | _ => exact absurd h' fun h => h

/-- Is the account `u` there and in `pending_verification`? -/
def isUnverified (u : Uuid) (d : Db) : Bool :=
  (d.findById u).any fun user => user.status = .pendingVerification

theorem isUnverified_update {user : User} (hs : user.status ≠ .pendingVerification) (now : Time)
    (d : Db) (h : isUnverified u d = false ∨ user.id = u) :
    isUnverified u (Write.apply d (.updateUser user now)) = false := by
  unfold isUnverified at h ⊢
  rw [Db.findById_updateUser]
  cases hu : d.findById u with
  | none => rfl
  | some row =>
    rw [hu] at h
    have hid := (Db.mem_of_findById hu).2
    simp only [Option.map_some, Option.any_some]
    split_ifs with he
    · simp [Write.assign, hs]
    · rcases h with h | h
      · exact h
      · exact absurd (hid.trans h.symm) he

/-- No write of `VerifyOtp` takes an account back to `pending_verification`. -/
theorem Moves.stays_verified (h : Moves S q g c r g') (d : Db) (x : Outside) {w : Write}
    (hw : w ∈ (exec c d x).2.1) {d' : Db} (hd : isUnverified u d' = false) :
    isUnverified u (Write.apply d' w) = false := by
  cases h.writes S d x w hw with
  | update now hne => exact isUnverified_update hne _ _ (.inl hd)
  | @insert user hne =>
    unfold isUnverified at hd ⊢
    simp only [Db.findById, Write.apply, List.find?_append] at hd ⊢
    cases hf : d'.users.find? fun row => row.id = u with
    | some row =>
      rw [hf] at hd
      exact hd
    | none =>
      by_cases hu : user.id = u
      · simp [hu, hne]
      · simp [hu]
  | _ => exact hd

end VerifyOtp

/-! ### `VerifyOtp` and `RequestOtp` together -/

open VerifyOtp

/-- A request of the OTP flow. -/
abbrev OtpRequest : Type := VerifyOtp ⊕ RequestOtp

namespace OtpRequest

def prog (S : Env) : OtpRequest → Cmd Response := Sum.elim (·.call S) (·.call S)

/-- `VerifyOtp` goes through its phases; `RequestOtp` makes quiet calls. -/
def monitor (S : Env) : OtpRequest → Monitor Call Call.Resp Failure Response Phase
  | .inl q => q.monitor S
  | .inr _ =>
    { next := fun g _ _ => g
      may := fun g c => g = .start ∧ c.quiet = true
      mayRet := fun g _ => g = .start
      mayRaise := fun g _ => g = .start }

theorem follows (r : OtpRequest) : (r.prog S).Follows (r.monitor S) .start := by
  cases r with
  | inl q => exact VerifyOtp.follows S q
  | inr q =>
    refine (q.follows_quietly S).simulated (fun _ g => g = .start) (fun hg hc => ?_)
      (fun hg _ => hg) (fun hg _ => hg) rfl
    exact ⟨⟨hg, hc⟩, fun _ => hg⟩

/-- What an answered call does to the phase: it is a move of `VerifyOtp`, or a
quiet call of `RequestOtp`. -/
inductive Moves (S : Env) : Phase → (c : Call) → c.Resp → Phase → Prop
  | verify {q g c r g'} : VerifyOtp.Moves S q g c r g' → Moves S g c r g'
  | quiet {c r} : c.quiet = true → Moves S .start c r .start

theorem moves {o : OtpRequest} {g : Phase} {c : Call} (h : (o.monitor S).may g c) (r : c.Resp) :
    Moves S g c r ((o.monitor S).next g c r) := by
  cases o with
  | inl q => exact .verify (VerifyOtp.moves S h r)
  | inr q =>
    obtain ⟨rfl, hq⟩ := h
    exact .quiet hq

namespace Moves

variable {g g' : Phase} {c : Call} {r : c.Resp}

theorem hasSaved (h : Moves S g c r g') (h' : g'.HasSaved u) :
    g.HasSaved u ∨ ∃ q : VerifyOtp, ∃ otp user, g = .read otp user ∧ user.id = u ∧
      user.status = .pendingVerification ∧ c = .saveUser (activated user) q.now := by
  cases h with
  | @verify q _ _ _ _ hm => exact (hm.hasSaved h').imp_right fun h => ⟨q, h⟩
  | quiet => exact absurd h' fun h => h

theorem hasRecorded (h : Moves S g c r g') (hg : g.HasRecorded u) :
    c ≠ .commit ∧ g'.HasRecorded u ∨ c = .commit ∧ g'.HasCommitted u := by
  cases h with
  | verify hm => exact hm.hasRecorded hg
  | quiet => exact absurd hg fun h => h

theorem hasCommitted (h : Moves S g c r g') (hg : g.HasCommitted u) : g'.HasCommitted u := by
  cases h with
  | verify hm => exact hm.hasCommitted hg
  | quiet => exact hg

theorem hasAnnounced (h : Moves S g c r g') (hg : g.HasAnnounced u) : g'.HasAnnounced u := by
  cases h with
  | verify hm => exact absurd hg hm.not_hasAnnounced
  | quiet => exact hg

theorem leavingIn (h : Moves S g c r g') (d : Db) (x : Outside) :
    leavingIn u (exec c d x).2.1 = 0 ∨
      leavingIn u (exec c d x).2.1 = 1 ∧ ¬g.HasRecorded u ∧ g'.HasRecorded u := by
  cases h with
  | verify hm => exact hm.leavingIn d x
  | quiet hq => exact .inl (leavingIn_quiet (exec_quiet hq d x).1)

/-- A call leaves the number of `user.registered` events of the account as it
is, or is the one that announces the first verification. -/
theorem announces (h : Moves S g c r g') (d : Db) (x : Outside) :
    announced u (exec c d x).2.2.stream = announced u x.stream ∨
      announced u (exec c d x).2.2.stream = announced u x.stream + 1 ∧ g.HasSaved u ∧
        ¬g.HasAnnounced u ∧ g'.HasAnnounced u := by
  cases h with
  | quiet hq => exact .inl (by rw [(exec_quiet hq d x).2])
  | @verify q _ _ _ _ hm =>
    rcases hm.stream d x with hst | ⟨otp, user, rfl, rfl, hst⟩
    · exact .inl (by rw [hst])
    rw [hst]
    by_cases hu : user.id = u
    · refine .inr ⟨?_, hu, fun h => h, hu⟩
      simp [announced, List.countP_append, DomainEvent.registers, DomainEvent.name,
        DomainEvent.userId, hu]
    · left
      simp [announced, List.countP_append, DomainEvent.registers, DomainEvent.userId, hu]

/-- No write takes an account back to `pending_verification`. -/
theorem stays_verified (h : Moves S g c r g') (d : Db) (x : Outside) {w : Write}
    (hw : w ∈ (exec c d x).2.1) {d' : Db} (hd : isUnverified u d' = false) :
    isUnverified u (Write.apply d' w) = false := by
  cases h with
  | verify hm => exact hm.stays_verified d x hw hd
  | quiet hq =>
    have hledger := Ledger.of_apply (d := d') (x := x) ((exec_quiet hq d x).1 w hw)
    have husers : (Write.apply d' w).users = d'.users := congrArg Ledger.users hledger
    unfold isUnverified Db.findById at hd ⊢
    rw [husers]
    exact hd

end Moves

/-- A request that has saved a first verification does not fail. -/
theorem not_raise {o : OtpRequest} {g : Phase} {e : Failure} (hg : g.HasSaved u) :
    ¬(.raise e : Cmd Response).Follows (o.monitor S) g := by
  intro h
  cases o with
  | inl q =>
    cases g with
    | start | stopped | refused => exact hg
    | _ => exact h
  | inr q =>
    obtain rfl : g = .start := h
    exact hg

/-- A request that returns has committed its status row. -/
theorem not_ret {o : OtpRequest} {g : Phase} {a : Response} (hg : g.HasRecorded u) :
    ¬(.ret a : Cmd Response).Follows (o.monitor S) g := by
  intro h
  cases o with
  | inl q =>
    cases g with
    | invalidated | announced => exact hg
    | _ => exact h
  | inr q =>
    obtain rfl : g = .start := h
    exact hg

end OtpRequest

variable {ι : Type}

/-- The first verification of the account `u` is claimed by saving it. -/
def verificationClaim (r : ι → OtpRequest) (u : Uuid) : store.Claim fun i => (r i).monitor S where
  taken g := g.HasSaved u
  there _ := True
  free d := isUnverified u d = true
  key := .user u
  stays {i g c} hmay d x w hw d' _ := by
    refine ⟨trivial, fun hf => ?_⟩
    rw [Bool.not_eq_true] at hf ⊢
    exact (OtpRequest.moves hmay (exec c d x).1).stays_verified d x hw hf
  commit_next res hmay hc ht := by
    obtain rfl := commits_iff.mp hc
    rcases (OtpRequest.moves hmay res).hasSaved ht with h | ⟨_, _, _, -, -, -, h⟩
    · exact h
    · cases h
  take {i g c} d x hmay hn ht _ hfree := by
    rcases (OtpRequest.moves hmay (exec c d x).1).hasSaved ht with
      h | ⟨q, otp, user, -, rfl, hs, rfl⟩
    · exact absurd h hn
    · obtain ⟨row, hrow, -⟩ := Option.any_eq_true _ _ |>.mp hfree
      have hw : (exec (.saveUser (activated user) q.now) d x).2.1 =
          [.updateUser (activated user) q.now] := by
        simp only [exec]
        rw [Db.saveUser_of_findById (u := activated user) hrow]
      rw [store_exec, hw]
      refine ⟨⟨_, List.mem_singleton.mpr rfl, by simp [Write.keys]⟩, fun d' _ => ?_⟩
      rw [Bool.not_eq_true]
      exact isUnverified_update (activated_status_ne user) _ _ (.inr rfl)

variable [DecidableEq ι]

/-- The phase of request `i`. -/
abbrev otpPhase (S : Env) (r : ι → OtpRequest) (s : InFlight ι) (i : ι) : Phase :=
  phase (fun i => (r i).monitor S) (fun _ => Phase.start) s i

/-- A first verification finds the account still in `pending_verification`
when it saves it. -/
def SavesUnverified (S : Env) (r : ι → OtpRequest) (s : InFlight ι) (i : ι) : Prop :=
  match otpPhase S r s i with
  | .read _ user => user.status = .pendingVerification →
      isUnverified user.id (store.view s.db (s.thread i).log) = true
  | _ => True

instance (r : ι → OtpRequest) (s : InFlight ι) (i : ι) : Decidable (SavesUnverified S r s i) := by
  unfold SavesUnverified
  split <;> infer_instance

variable {r : ι → OtpRequest} {d : Db} {x : Outside} {s s' : InFlight ι}

omit [DecidableEq ι] in
/-- A request that has saved a first verification holds the claim. -/
theorem holds_of_hasSaved {i : ι}
    (hf : (s.thread i).prog.Follows ((r i).monitor S) (otpPhase S r s i))
    (hg : (otpPhase S r s i).HasSaved u) :
    (verificationClaim (S := S) r u).Holds (fun _ => .start) s i := by
  refine ⟨hg, fun e he => ?_⟩
  rw [he] at hf
  exact OtpRequest.not_raise hg hf

/-- A kind of phase that no call of the OTP flow leaves lasts. -/
theorem otpPhase_lasts {P : Phase → Prop} {i j : ι}
    (hP : ∀ {g c res g'}, OtpRequest.Moves S g c res g' → P g → P g')
    (hf : (s.thread j).prog.Follows ((r j).monitor S) (otpPhase S r s j))
    (hs : store.Step s i s') (h : P (otpPhase S r s j)) : P (otpPhase S r s' j) :=
  Step.phase_stable (M := fun i => (r i).monitor S) (g := fun _ => Phase.start) hs hf
    (fun _ res hmay hg => hP (OtpRequest.moves hmay res) hg) h

variable [Fintype ι]

omit [DecidableEq ι] in
theorem verificationClaim_guarded :
    (verificationClaim (S := S) r u).Guarded (fun _ => .start) (SavesUnverified S r) := by
  intro s i c k ho hp hmay hn ht
  rcases (OtpRequest.moves hmay (store.answer s i c).1).hasSaved ht with
    h | ⟨q, otp, user, hg, rfl, hs, -⟩
  · exact absurd h hn
  · unfold SavesUnverified at ho
    rw [show otpPhase S r s i = .read otp user from hg] at ho
    exact ho hs

/-- What a run has done about account `u`: its log rows are those of a first
verification in progress, and at most one first verification has been
committed and announced. -/
structure Once (S : Env) (r : ι → OtpRequest) (u : Uuid) (rows events : ℕ) (s : InFlight ι) :
    Prop where
  logs : ∀ i, leavingIn u (s.thread i).log = 0 ∨
    leavingIn u (s.thread i).log = 1 ∧ (otpPhase S r s i).HasRecorded u
  rows : leaving u s.db.statusHistory ≤ rows ∨
    leaving u s.db.statusHistory ≤ rows + 1 ∧ ∃ i, (otpPhase S r s i).HasCommitted u
  events : announced u s.outside.stream ≤ events ∨
    announced u s.outside.stream ≤ events + 1 ∧ ∃ i, (otpPhase S r s i).HasAnnounced u

namespace Once

variable {rows events : ℕ} {i : ι}

omit [Fintype ι] in
/-- The row of a first verification stays in the log until its commit. -/
theorem step_logs (h : Once S r u rows events s)
    (hf : (s.thread i).prog.Follows ((r i).monitor S) (otpPhase S r s i))
    (hs : store.Step s i s') (j : ι) : leavingIn u (s'.thread j).log = 0 ∨
      leavingIn u (s'.thread j).log = 1 ∧ (otpPhase S r s' j).HasRecorded u := by
  by_cases hj : j = i
  · subst hj
    cases hs with
    | @call c k hp hc _ =>
      rw [hp] at hf
      have hm := OtpRequest.moves hf.1 (store.answer s j c).1
      have hcommit : c ≠ .commit := by
        rintro rfl
        cases hc
      rw [called_thread_self, leavingIn_append,
        show otpPhase S r (store.called s j c k) j = _ from phase_called_self store]
      rcases hm.leavingIn (store.view s.db (s.thread j).log) s.outside with hw | ⟨hw, hn, hg'⟩
      · have hnew : leavingIn u (store.answer s j c).2.1 = 0 := hw
        rw [hnew, Nat.add_zero]
        exact (h.logs j).imp_right fun ⟨hone, hg⟩ =>
          ⟨hone, ((hm.hasRecorded hg).resolve_right fun hc => hcommit hc.1).2⟩
      · have hold : leavingIn u (s.thread j).log = 0 := (h.logs j).resolve_right fun hg => hn hg.2
        rw [hold, Nat.zero_add]
        exact .inr ⟨hw, hg'⟩
    | commit | close | abort => exact .inl (by simp [leavingIn])
  · have hphase : otpPhase S r s' j = otpPhase S r s j := hs.phase_ne hj
    rw [hphase, hs.thread_ne hj]
    exact h.logs j

omit [Fintype ι] in
/-- The first verification that is committed is the only one. -/
theorem step_rows (h : Once S r u rows events s)
    (hone : ∀ i j, (otpPhase S r s i).HasSaved u → (otpPhase S r s j).HasSaved u → i = j)
    (hf : ∀ i, (s.thread i).prog.Follows ((r i).monitor S) (otpPhase S r s i))
    (hs : store.Step s i s') : leaving u s'.db.statusHistory ≤ rows ∨
      leaving u s'.db.statusHistory ≤ rows + 1 ∧ ∃ j, (otpPhase S r s' j).HasCommitted u := by
  have hlasts : ∀ j, (otpPhase S r s j).HasCommitted u → (otpPhase S r s' j).HasCommitted u :=
    fun j hj => otpPhase_lasts (fun hm hg => hm.hasCommitted hg) (hf j) hs hj
  have hsame : leaving u s'.db.statusHistory = leaving u s.db.statusHistory →
      leaving u s'.db.statusHistory ≤ rows ∨
        leaving u s'.db.statusHistory ≤ rows + 1 ∧ ∃ j, (otpPhase S r s' j).HasCommitted u := by
    intro he
    rw [he]
    exact h.rows.imp_right fun ⟨hle, j, hj⟩ => ⟨hle, j, hlasts j hj⟩
  have hfi := hf i
  cases hs with
  | call | abort => exact hsame rfl
  | @commit c k hp hc =>
    obtain rfl := commits_iff.mp hc
    rw [hp] at hfi
    rcases h.logs i with h0 | ⟨h1, hg⟩
    · refine hsame ?_
      rw [committed_db, leaving_view, h0, Nat.add_zero]
    · have hnone : leaving u s.db.statusHistory ≤ rows := by
        refine h.rows.resolve_right ?_
        rintro ⟨-, j, hj⟩
        have hji := hone j i hj.hasSaved hg.hasSaved
        exact hg.not_hasCommitted (hji ▸ hj)
      have hm := OtpRequest.moves hfi.1 (store.answer s i .commit).1
      refine .inr ⟨?_, i, ?_⟩
      · rw [committed_db, leaving_view, h1]
        omega
      · rw [show otpPhase S r (store.committed s i .commit k) i = _ from phase_committed_self store]
        exact ((hm.hasRecorded hg).resolve_left fun hc => hc.1 rfl).2
  | @close a hp =>
    rw [hp] at hfi
    have hlog : leavingIn u (s.thread i).log = 0 :=
      (h.logs i).resolve_right fun ⟨_, hg⟩ => OtpRequest.not_ret hg hfi
    refine hsame ?_
    rw [closed_db, leaving_view, hlog, Nat.add_zero]

omit [Fintype ι] in
/-- The first verification that is announced is the only one. -/
theorem step_events (h : Once S r u rows events s)
    (hone : ∀ i j, (otpPhase S r s i).HasSaved u → (otpPhase S r s j).HasSaved u → i = j)
    (hf : ∀ i, (s.thread i).prog.Follows ((r i).monitor S) (otpPhase S r s i))
    (hs : store.Step s i s') : announced u s'.outside.stream ≤ events ∨
      announced u s'.outside.stream ≤ events + 1 ∧ ∃ j, (otpPhase S r s' j).HasAnnounced u := by
  have hlasts : ∀ j, (otpPhase S r s j).HasAnnounced u → (otpPhase S r s' j).HasAnnounced u :=
    fun j hj => otpPhase_lasts (fun hm hg => hm.hasAnnounced hg) (hf j) hs hj
  have hsame : announced u s'.outside.stream = announced u s.outside.stream →
      announced u s'.outside.stream ≤ events ∨
        announced u s'.outside.stream ≤ events + 1 ∧ ∃ j, (otpPhase S r s' j).HasAnnounced u := by
    intro he
    rw [he]
    exact h.events.imp_right fun ⟨hle, j, hj⟩ => ⟨hle, j, hlasts j hj⟩
  have hfi := hf i
  cases hs with
  | close | abort => exact hsame rfl
  | @commit c k hp hc =>
    obtain rfl := commits_iff.mp hc
    exact hsame rfl
  | @call c k hp _ _ =>
    rw [hp] at hfi
    have hm := OtpRequest.moves hfi.1 (store.answer s i c).1
    rcases hm.announces (store.view s.db (s.thread i).log) s.outside with
      hold | ⟨hnew, hg, hn, hg'⟩
    · exact hsame hold
    · have hnone : announced u s.outside.stream ≤ events := by
        refine h.events.resolve_right ?_
        rintro ⟨-, j, hj⟩
        have hji := hone j i hj.hasCommitted.hasSaved hg
        exact hn (hji ▸ hj)
      have hcount : announced u (store.called s i c k).outside.stream =
          announced u s.outside.stream + 1 := hnew
      refine .inr ⟨by omega, i, ?_⟩
      rw [show otpPhase S r (store.called s i c k) i = _ from phase_called_self store]
      exact hg'

omit [Fintype ι] in
/-- **Step.** A step keeps to one first verification. -/
theorem step (h : Once S r u rows events s)
    (hone : ∀ i j, (otpPhase S r s i).HasSaved u → (otpPhase S r s j).HasSaved u → i = j)
    (hf : ∀ i, (s.thread i).prog.Follows ((r i).monitor S) (otpPhase S r s i))
    (hs : store.Step s i s') : Once S r u rows events s' where
  logs := h.step_logs (hf i) hs
  rows := h.step_rows hone hf hs
  events := h.step_events hone hf hs

end Once

/-- **At most once**, where every first verification saves an account that is
still `pending_verification`: one `user.registered` and one row that leaves
that status. -/
theorem registered_at_most_once
    (h : store.Reach (SavesUnverified S r) (System.start d x fun i => (r i).prog S) s)
    (u : Uuid) :
    announced u s.outside.stream ≤ announced u x.stream + 1 ∧
      leaving u s.db.statusHistory ≤ leaving u d.statusHistory + 1 := by
  have hfollows : ∀ i, ((r i).prog S).Follows ((r i).monitor S) .start := fun i =>
    (r i).follows
  have honce : Once S r u (leaving u d.statusHistory) (announced u x.stream) s := by
    refine h.invariant (P := Once S r u (leaving u d.statusHistory) (announced u x.stream))
      ⟨fun i => .inl rfl, .inl le_rfl, .inl le_rfl⟩ fun s s' i hr ih ho hs => ?_
    refine ih.step (fun a b ha hb => ?_) (hr.follows hfollows) hs
    exact Claim.unique verificationClaim_guarded hfollows trivial (fun _ h => h) hr
      (holds_of_hasSaved (hr.follows hfollows a) ha) (holds_of_hasSaved (hr.follows hfollows b) hb)
  have hevents : announced u s.outside.stream ≤ announced u x.stream + 1 := by
    rcases honce.events with hle | ⟨hle, -⟩
    · omega
    · exact hle
  have hrows : leaving u s.db.statusHistory ≤ leaving u d.statusHistory + 1 := by
    rcases honce.rows with hle | ⟨hle, -⟩
    · omega
    · exact hle
  exact ⟨hevents, hrows⟩

/-! ### The race -/

/-- An account that was never verified, with the code `1`. -/
def unverifiedAccount : Db :=
  { users := [{ id := 7, phone := "+22507000001" }], otps := [firstCode] }

/-- The phone sends the code it has (request 0), asks for another, `000002`
(request 1), and sends that (request 2). -/
def twoVerifications (i : Fin 3) : OtpRequest :=
  if i = 1 then
    .inr { phone := "+22507000001", clientIp := none, now := 4, newId := 2, draw := 2 }
  else
    .inl { phone := "+22507000001", code := if i = 0 then "1" else "000002"
           deviceInfo := none, now := 5, newTokenId := 3 + i
           newRefresh := if i = 0 then "a" else "b" }

/-- One after the other: the second is a login. -/
theorem registered_at_most_once_serial : ∃ s : InFlight (Fin 3),
    store.Reach (SavesUnverified plainEnv twoVerifications)
      (System.start unverifiedAccount {} fun i => (twoVerifications i).prog plainEnv) s ∧
    s.outside.stream = [.userRegistered 7 "+22507000001" .user 5] ∧
    s.db.liveTokens 7 = [3, 5] ∧
    leaving 7 s.db.statusHistory ≤ leaving 7 unverifiedAccount.statusHistory + 1 := by
  have hrun : ((store.follow (SavesUnverified plainEnv twoVerifications)
      (System.start unverifiedAccount {} fun i => (twoVerifications i).prog plainEnv)
      (List.replicate 9 0 ++ List.replicate 6 1 ++ List.replicate 6 2)).map fun s =>
        (s.outside.stream, s.db.liveTokens 7)) =
      some ([.userRegistered 7 "+22507000001" .user 5], [3, 5]) := by
    decide +kernel
  obtain ⟨s, hs, hp⟩ := Option.map_eq_some_iff.mp hrun
  simp only [Prod.mk.injEq] at hp
  have h := reach_of_follow hs
  exact ⟨s, h, hp.1, hp.2, (registered_at_most_once h 7).2⟩

/-- **Twice.** Request 0 reads its code before the second exists, request 2
takes the second, and both read the account before either saves it: both
publish, and both write a row. -/
theorem registered_twice : ∃ s : InFlight (Fin 3),
    store.Reach Any
      (System.start unverifiedAccount {} fun i => (twoVerifications i).prog plainEnv) s ∧
    s.outside.stream =
      [.userRegistered 7 "+22507000001" .user 5, .userRegistered 7 "+22507000001" .user 5] ∧
    leaving 7 s.db.statusHistory = leaving 7 unverifiedAccount.statusHistory + 2 := by
  have hrun : ((store.follow Any
      (System.start unverifiedAccount {} fun i => (twoVerifications i).prog plainEnv)
      ([0] ++ List.replicate 6 1 ++ [2, 0, 2, 0, 2] ++ List.replicate 6 0 ++
        List.replicate 6 2)).map fun s =>
        (s.outside.stream, leaving 7 s.db.statusHistory)) =
      some ([.userRegistered 7 "+22507000001" .user 5,
        .userRegistered 7 "+22507000001" .user 5], 2) := by
    decide +kernel
  obtain ⟨s, hs, hp⟩ := Option.map_eq_some_iff.mp hrun
  simp only [Prod.mk.injEq] at hp
  exact ⟨s, reach_of_follow hs, hp.1, hp.2⟩

end DiddiFreeID
