/-
# One code, one session

`VerifyOtp` compares the code it read and then consumes the row:
`mark_consumed` on a row that another request has consumed in the meantime
does nothing, and the request opens a session all the same
(`two_sessions`). Where a request whose code matches always finds the row
unconsumed, the row is a claim, and it opens one session
(`one_session_per_code`).

Key definitions: `VerifyOtp.codeClaim`, `ConsumesActive`.
-/
import DiddiFreeID.Phases
import DiddiFreeID.Transact.Claim
import Mathlib.Data.Fintype.Fin

namespace DiddiFreeID

open Transact Engine

variable {S : Env} {ι : Type}

namespace VerifyOtp

/-- The row a request was given, while it works on it. -/
def Phase.otp : Phase → Option OtpCode
  | .start | .stopped => none
  | .wrong otp | .counted otp _ | .burnt otp | .refused otp | .right otp | .consumed otp
  | .read otp _ | .saved otp _ | .recorded otp _ | .opened otp _ _ | .committed otp _ _
  | .invalidated otp _ _ | .announced otp _ => some otp

/-- The request has consumed the code `id`, which matched. -/
def Phase.HasConsumed (id : Uuid) : Phase → Prop
  | .consumed otp | .read otp _ | .saved otp _ | .recorded otp _ | .opened otp _ _
  | .committed otp _ _ | .invalidated otp _ _ | .announced otp _ => otp.id = id
  | _ => False

variable {q : VerifyOtp} {g g' : Phase} {c : Call} {r : c.Resp}

/-- No write of `VerifyOtp` makes a consumed code active again. -/
theorem Moves.stays_consumed (h : Moves S q g c r g') (d : Db) (x : Outside) {w : Write}
    (hw : w ∈ (exec c d x).2.1) {d' : Db} {id : Uuid} (hd : ¬d'.isActive id = true) :
    ¬(Write.apply d' w).isActive id = true := by
  cases h.writes S d x w hw with
  | count =>
    rw [Db.isActive_bumpAttempts]
    exact hd
  | consume =>
    rw [Db.isActive_consumeOtp]
    simp [hd]
  | _ => exact hd

theorem Moves.hasConsumed (h : Moves S q g c r g') {id : Uuid} (h' : g'.HasConsumed id) :
    g.HasConsumed id ∨ (∃ otp : OtpCode, g = .right otp ∧ otp.id = id) ∧ c = .markConsumed id q.now := by
  cases h with
  | @consume otp =>
    obtain rfl : otp.id = id := h'
    exact .inr ⟨⟨otp, rfl, rfl⟩, rfl⟩
  | read | save | record | openFirst | openAgain | commit | invalidate | announce => exact .inl h'
  | _ => exact absurd h' fun h => h

/-- The code `id` is claimed by consuming it. -/
def codeClaim (q : ι → VerifyOtp) (id : Uuid) : store.Claim fun i => (q i).monitor S where
  taken g := g.HasConsumed id
  there _ := True
  free d := d.isActive id = true
  key := .otp id
  stays hmay d x _ hw _ _ := ⟨trivial, (moves S hmay (exec _ d x).1).stays_consumed d x hw⟩
  commit_next r hmay hc ht := by
    rcases (moves S hmay r).hasConsumed ht with h | ⟨-, rfl⟩
    · exact h
    · cases hc
  take {i g c} d x hmay hn ht _ hfree := by
    rcases (moves S hmay _).hasConsumed ht with h | ⟨-, rfl⟩
    · exact absurd h hn
    · have hw : (exec (.markConsumed id (q i).now) d x).2.1 = [.consumeOtp id (q i).now] :=
        Db.consumption_of_isActive _ hfree
      rw [store_exec, hw]
      refine ⟨⟨_, List.mem_singleton.mpr rfl, by simp [Write.keys]⟩, fun d' _ => ?_⟩
      simp [Db.isActive_consumeOtp]

variable [DecidableEq ι]

/-- The phase of request `i`. -/
abbrev phaseOf (S : Env) (q : ι → VerifyOtp) (s : InFlight ι) (i : ι) : Phase :=
  phase (fun i => (q i).monitor S) (fun _ => Phase.start) s i

end VerifyOtp

open VerifyOtp

variable [DecidableEq ι]

/-- A request whose code matched finds the row unconsumed when it consumes it. -/
def ConsumesActive (S : Env) (q : ι → VerifyOtp) (s : InFlight ι) (i : ι) : Prop :=
  match phaseOf S q s i with
  | .right otp => (store.view s.db (s.thread i).log).isActive otp.id = true
  | _ => True

instance (q : ι → VerifyOtp) (s : InFlight ι) (i : ι) : Decidable (ConsumesActive S q s i) := by
  unfold ConsumesActive
  split <;> infer_instance

variable [Fintype ι] {q : ι → VerifyOtp} {d : Db} {x : Outside} {s : InFlight ι}

omit [DecidableEq ι] in
theorem codeClaim_guarded (id : Uuid) :
    (codeClaim (S := S) q id).Guarded (fun _ => .start) (ConsumesActive S q) := by
  intro s i c k ho hp hmay hn ht
  rcases (moves S hmay _).hasConsumed ht with h | ⟨⟨otp, hg, rfl⟩, -⟩
  · exact absurd h hn
  · unfold ConsumesActive at ho
    rw [show phaseOf S q s i = .right otp from hg] at ho
    exact ho

/-- A request works on the row it was given. -/
theorem otp_of_findLatestActive {ok : InFlight ι → ι → Prop}
    (h : store.Reach ok (System.start d x fun i => (q i).call S) s) {i : ι} {phone : String}
    {otp : OtpCode}
    (ha : (⟨.findLatestActive phone, some otp⟩ : Answered Call Call.Resp) ∈ (s.thread i).trace) :
    (phaseOf S q s i).otp = some otp ∨ phaseOf S q s i = .stopped := by
  refine h.phase_of_mem (M := fun i => (q i).monitor S) (g := fun _ => Phase.start)
    (fun i => VerifyOtp.follows S (q i)) (P := fun _ g => g.otp = some otp ∨ g = .stopped)
    (Q := fun _ a => ∃ phone, a = ⟨.findLatestActive phone, some otp⟩)
    (fun i g c r hmay hor => ?_) ha ⟨phone, rfl⟩
  have hm := moves S hmay r
  generalize ((q i).monitor S).next g c r = g' at hm ⊢
  cases hm with
  | wrong | right =>
    rcases hor with ⟨_, hQ⟩ | hg | hg
    · cases hQ
      exact .inl rfl
    · cases hg
    · cases hg
  | noCode | expired | lost | noAccount | suspended | unsaved => exact .inr rfl
  | _ =>
    rcases hor with ⟨_, hQ⟩ | hg | hg
    · cases hQ
    · exact .inl hg
    · cases hg

/-- A request that returned has consumed the code it was given. -/
theorem hasConsumed_of_ret {ok : InFlight ι → ι → Prop}
    (h : store.Reach ok (System.start d x fun i => (q i).call S) s) {i : ι} {a : Response}
    (ha : (s.thread i).prog.outcome = some (.ok a)) :
    ∃ otp, (phaseOf S q s i).otp = some otp ∧ (phaseOf S q s i).HasConsumed otp.id := by
  have hf := h.follows (M := fun i => (q i).monitor S) (g := fun _ => Phase.start)
    (fun i => VerifyOtp.follows S (q i)) i
  rw [Prog.outcome_eq_ok.mp ha] at hf
  change Prog.Follows _ (phaseOf S q s i) _ at hf
  generalize phaseOf S q s i = g at hf ⊢
  cases g with
  | invalidated otp | announced otp => exact ⟨otp, rfl, rfl⟩
  | _ => exact absurd hf fun h => h

/-- **One code, one session**, where a matching code is always found
unconsumed: of the requests that were given the same row, one returns a
session. -/
theorem one_session_per_code
    (h : store.Reach (ConsumesActive S q) (System.start d x fun i => (q i).call S) s) {i j : ι}
    {phone phone' : String} {otp otp' : OtpCode}
    (hi : (⟨.findLatestActive phone, some otp⟩ : Answered Call Call.Resp) ∈ (s.thread i).trace)
    (hj : (⟨.findLatestActive phone', some otp'⟩ : Answered Call Call.Resp) ∈ (s.thread j).trace)
    (hid : otp.id = otp'.id) {a b : Response} (ha : (s.thread i).prog.outcome = some (.ok a))
    (hb : (s.thread j).prog.outcome = some (.ok b)) : i = j := by
  have hholds : ∀ {i phone otp a},
      (⟨.findLatestActive phone, some otp⟩ : Answered Call Call.Resp) ∈ (s.thread i).trace →
      (s.thread i).prog.outcome = some (.ok a) →
      (codeClaim (S := S) q otp.id).Holds (fun _ => .start) s i := by
    intro i phone otp a hi ha
    obtain ⟨otp₁, ho, hc⟩ := hasConsumed_of_ret h ha
    rcases otp_of_findLatestActive h hi with hg | hg
    · rw [hg] at ho
      obtain rfl := Option.some.inj ho
      refine ⟨hc, fun e he => ?_⟩
      rw [Prog.outcome_eq_ok.mp ha] at he
      cases he
    · rw [hg] at ho
      cases ho
  have hi' := hholds hi ha
  have hj' := hholds hj hb
  rw [← hid] at hj'
  exact Claim.unique (codeClaim_guarded _) (fun i => VerifyOtp.follows S (q i)) trivial
    (fun _ h => h) h hi' hj'

/-! ### The race -/

def firstCode : OtpCode :=
  { id := 1, phone := "+22507000001", codeHash := hashOtpCode plainEnv "1", expiresAt := 100
    createdAt := 0 }

/-- An active account with one code, `1`. -/
def oneCode : Db :=
  { users := [{ id := 7, phone := "+22507000001", status := .active }], otps := [firstCode] }

/-- The same request twice. -/
def doubleSubmit (i : Fin 2) : VerifyOtp :=
  { phone := "+22507000001", code := "1", deviceInfo := none, now := 5, newTokenId := 2 + i
    newRefresh := if i = 0 then "a" else "b" }

/-- What request 0 or 1 of the two is answered when it opens a session. -/
def sessionAnswer (i : Fin 2) : Response :=
  (doubleSubmit i).answer plainEnv { id := 7, phone := "+22507000001", status := .active }

/-- One after the other: only the first returns a session. -/
theorem one_session_per_code_serial : ∃ s : InFlight (Fin 2),
    store.Reach (ConsumesActive plainEnv doubleSubmit)
      (System.start oneCode {} fun i => (doubleSubmit i).call plainEnv) s ∧
    (s.thread 0).prog.outcome = some (.ok (sessionAnswer 0)) ∧
    (s.thread 1).prog.outcome = some (.error (.api (otpInvalid none))) ∧
    ∀ i phone, (⟨.findLatestActive phone, some firstCode⟩ : Answered Call Call.Resp) ∈
      (s.thread i).trace → ∀ a, (s.thread i).prog.outcome = some (.ok a) → i = 0 := by
  have hrun : ((store.follow (ConsumesActive plainEnv doubleSubmit)
      (System.start oneCode {} fun i => (doubleSubmit i).call plainEnv)
      [0, 0, 0, 0, 0, 0, 1]).map fun s =>
        ((s.thread 0).prog.outcome, (s.thread 1).prog.outcome, (s.thread 0).trace.head?)) =
      some (some (.ok (sessionAnswer 0)), some (.error (.api (otpInvalid none))),
        some ⟨.findLatestActive "+22507000001", some firstCode⟩) := by
    decide +kernel
  obtain ⟨s, hs, hp⟩ := Option.map_eq_some_iff.mp hrun
  simp only [Prod.mk.injEq] at hp
  obtain ⟨h0, h1, ht⟩ := hp
  have h := reach_of_follow hs
  exact ⟨s, h, h0, h1, fun i phone hm a ha =>
    one_session_per_code h hm (List.mem_of_head? ht) rfl ha h0⟩

/-- **Two sessions.** The request is sent twice, and both read the code
before either consumes it: both return tokens. -/
theorem two_sessions : ∃ s : InFlight (Fin 2),
    store.Reach Any (System.start oneCode {} fun i => (doubleSubmit i).call plainEnv) s ∧
    (∀ i, (⟨.findLatestActive "+22507000001", some firstCode⟩ : Answered Call Call.Resp) ∈
      (s.thread i).trace) ∧
    (∀ i, (s.thread i).prog.outcome = some (.ok (sessionAnswer i))) ∧
    s.db.liveTokens 7 = [2, 3] := by
  have hrun : ((store.follow Any
      (System.start oneCode {} fun i => (doubleSubmit i).call plainEnv)
      [0, 1, 0, 0, 0, 0, 0, 1, 1, 1, 1, 1]).map fun s =>
        (decide (∀ i, (⟨.findLatestActive "+22507000001", some firstCode⟩ :
          Answered Call Call.Resp) ∈ (s.thread i).trace),
        decide (∀ i, (s.thread i).prog.outcome = some (.ok (sessionAnswer i))),
        s.db.liveTokens 7)) = some (true, true, [2, 3]) := by
    decide +kernel
  obtain ⟨s, hs, hp⟩ := Option.map_eq_some_iff.mp hrun
  simp only [Prod.mk.injEq, decide_eq_true_eq] at hp
  exact ⟨s, reach_of_follow hs, hp.1, hp.2.1, hp.2.2⟩

end DiddiFreeID
