/-
# The role trail

`ChangeRole` and `DecideKyc` write `role` and `requested_role`, each with a
row of `user_role_history`. A request and a refusal leave rows of the same
shape: no `to_role`, and the role asked for. They can be told apart all the
same: `ChangeRole` never writes a row for the role already pending, so a row
that names the pending role settles it, and any other row asks for a role.
`RoleState.read` reads a row so, and the fold of an account's rows
(`replay`) is its role, its pending request and the number of refusals
(`role_trail`).

Key definitions: `RoleState`, `replay`, `refusals`.
Key theorems: `RoleTrail.step`, `role_trail`.
-/
import DiddiFreeID.KycGate

namespace DiddiFreeID

/-! ### Reading the rows -/

/-- What the role rows of an account say: its role, the role awaiting a
decision, how many decisions refused one. -/
structure RoleState where
  role : UserRole := .user
  pending : Option UserRole := none
  refusals : ℕ := 0
  deriving DecidableEq, Repr

/-- Read a row: a role given settles the account; without one, the pending
role is refused, and any other is asked for. -/
def RoleState.read (s : RoleState) : Option UserRole → Option UserRole → RoleState
  | some toRole, _ => { s with role := toRole, pending := none }
  | none, some requestedRole =>
    if s.pending = some requestedRole then
      { s with pending := none, refusals := s.refusals + 1 }
    else { s with pending := some requestedRole }
  | none, none => s

/-- The fold of the rows, in append order. -/
def replay (rows : List UserRoleChange) : RoleState :=
  rows.foldl (fun s c => s.read c.toRole c.requestedRole) {}

@[simp] theorem replay_nil : replay [] = {} := rfl

@[simp] theorem replay_snoc (rows : List UserRoleChange) (c : UserRoleChange) :
    replay (rows ++ [c]) = (replay rows).read c.toRole c.requestedRole := by
  simp [replay]

/-! ### Refusals -/

variable (S : Env) (u : Uuid)

/-- The request is a `DecideKyc` that refuses the request of account `u`. -/
def World.refuses (w : World) : Request → Bool
  | .decideKyc q => decide (q.userId = u) && !q.approved && (w.answer S (.decideKyc q)).isOk
  | _ => false

/-- How many of the requests, served from `w` on, refuse account `u`. -/
def refusals : World → List Request → ℕ
  | _, [] => 0
  | w, r :: rs => (w.refuses S u r).toNat + refusals (w.after S r) rs

variable {S u} {w : World} {r : Request} {rs : List Request}

theorem refusals_snoc (w : World) (rs : List Request) (r : Request) :
    refusals S u w (rs ++ [r]) = refusals S u w rs + ((rs.foldl (World.after S) w).refuses S u r).toNat := by
  induction rs generalizing w with
  | nil => simp [refusals]
  | cons r' rs ih =>
    simp only [List.cons_append, refusals, List.foldl_cons, ih]
    omega

theorem refusals_served : refusals S u {} (rs ++ [r]) =
    refusals S u {} rs + ((served S rs).refuses S u r).toNat := refusals_snoc {} rs r

/-- Whether a `DecideKyc` is answered with a profile is whether the account
has a pending request. -/
theorem decideKyc_isOk {q : DecideKyc} (hq : q.userId = u) :
    (w.answer S (.decideKyc q)).isOk = (w.account u).any fun a => a.user.requestedRole.isSome := by
  subst hq
  rcases q.run_call S w.db w.outside with ⟨-, ⟨hn, ho⟩ | ⟨user, hu, hn, ho⟩⟩ | ⟨user, e, hu, he, -⟩
  · have hans : w.answer S (.decideKyc q) = .error (.api userNotFound) := ho
    rw [hans, World.account_eq_none.mpr hn]
    rfl
  · have hans : w.answer S (.decideKyc q) = .error (.api noKycPending) := ho
    obtain ⟨a, ha, rfl⟩ := World.account_of_findById hu
    rw [hans, ha, Option.any_some, hn]
    rfl
  · have hans : (store.run q.call [] w.db w.outside).1 = w.answer S (.decideKyc q) := rfl
    rw [hans] at he
    generalize w.answer S (.decideKyc q) = o at he
    cases he with
    | decide hq hr =>
      obtain ⟨a, ha, rfl⟩ := World.account_of_findById (hq ▸ hu)
      rw [ha, Option.any_some, hr]
      rfl

/-- A refusal finds a pending request, and leaves none. -/
theorem refuses_settles (h : w.refuses S u r = true) {a a' : Account} (ha : w.account u = some a)
    (ha' : (w.after S r).account u = some a') :
    a.user.requestedRole.isSome ∧ a'.user.requestedRole = none := by
  cases r with
  | decideKyc q =>
    simp only [World.refuses, Bool.and_eq_true, decide_eq_true_eq] at h
    obtain ⟨⟨hq, -⟩, hok⟩ := h
    have hsome : a.user.requestedRole.isSome := by
      rw [decideKyc_isOk hq, ha] at hok
      exact hok
    refine ⟨hsome, ?_⟩
    rcases q.run_call S w.db w.outside with ⟨-, ⟨-, ho⟩ | ⟨-, -, -, ho⟩⟩ | ⟨user, e, -, he, hl⟩
    · have hans : w.answer S (.decideKyc q) = .error (.api userNotFound) := ho
      rw [hans] at hok
      cases hok
    · have hans : w.answer S (.decideKyc q) = .error (.api noKycPending) := ho
      rw [hans] at hok
      cases hok
    · have hrec : (w.after S (.decideKyc q)).ledger.account u = (w.ledger.record e).account u :=
        congrArg (Ledger.account · u) hl
      have huser : u = user.id := by
        rw [← hq]
        generalize (store.run q.call [] w.db w.outside).1 = o at he
        cases he with
        | decide hq _ => exact hq
      rw [Ledger.account_record S he, if_pos huser, show w.ledger.account u = some a from ha] at hrec
      rw [show (w.after S (.decideKyc q)).ledger.account u = some a' from ha'] at hrec
      obtain rfl := Option.some.inj hrec
      generalize (store.run q.call [] w.db w.outside).1 = o at he
      cases he with
      | decide => rfl
  | _ => cases h

theorem refuses_of_absent (h : w.account u = none) : w.refuses S u r = false := by
  cases r with
  | decideKyc q =>
    by_cases hq : q.userId = u
    · rw [World.refuses, decideKyc_isOk hq, h]
      simp
    · simp [World.refuses, hq]
  | _ => rfl

/-- An account that is not there was never refused anything. -/
theorem Legal.refusals_of_absent {ok : World → Request → Prop} (h : Legal S ok rs)
    (hu : (served S rs).account u = none) : refusals S u {} rs = 0 := by
  induction h with
  | nil => rfl
  | @snoc rs r hl hf _ ih =>
    have hbefore : (served S rs).account u = none := by
      by_contra hne
      obtain ⟨a, ha⟩ := Option.ne_none_iff_exists'.mp hne
      obtain ⟨a', ha', -⟩ := World.account_after (S := S) hl.wellFormed hf ha
      rw [served_snoc, ha'] at hu
      cases hu
    rw [refusals_served, ih hbefore, refuses_of_absent hbefore]
    rfl

/-! ### The trail -/

/-- The rows replay to the account as it is, and every row starts from the
role that the rows before it replay to. -/
structure RoleTrail (a : Account) (refusals : ℕ) : Prop where
  state : replay a.roleRows = ⟨a.user.role, a.user.requestedRole, refusals⟩
  linked : ∀ before c later, a.roleRows = before ++ c :: later →
    c.fromRole = some (replay before).role

namespace RoleTrail

variable {a : Account} {n m : ℕ}

/-- A request that writes no role row and leaves role and request alone. -/
theorem keep (h : RoleTrail a n) {a' : Account} (hrows : a'.roleRows = a.roleRows)
    (hr : a'.user.role = a.user.role) (hq : a'.user.requestedRole = a.user.requestedRole)
    (hm : m = n) : RoleTrail a' m := by
  refine ⟨?_, ?_⟩
  · rw [hrows, hr, hq, hm]
    exact h.state
  · rw [hrows]
    exact h.linked

/-- A row that starts from the role the account has. -/
theorem snoc (h : RoleTrail a n) {a' : Account} {c : UserRoleChange}
    (hrows : a'.roleRows = a.roleRows ++ [c]) (hc : c.fromRole = some a.user.role)
    (hs : RoleState.read ⟨a.user.role, a.user.requestedRole, n⟩ c.toRole c.requestedRole =
      ⟨a'.user.role, a'.user.requestedRole, m⟩) : RoleTrail a' m := by
  refine ⟨?_, fun before c' later hl => ?_⟩
  · rw [hrows, replay_snoc, h.state, hs]
  · rw [hrows] at hl
    rcases List.append_eq_append_iff.mp hl with ⟨l, hb, hl⟩ | ⟨l, hb, hl⟩
    · -- the row is the new one: all the old rows come before it
      cases l with
      | nil =>
        rw [List.nil_append, List.cons.injEq] at hl
        rw [← hl.1, hb, List.append_nil, h.state, hc]
      | cons c'' l => simp at hl
    · cases l with
      | nil =>
        rw [List.nil_append, List.cons.injEq] at hl
        rw [List.append_nil] at hb
        rw [hl.1, ← hb, h.state, hc]
      | cons c'' l =>
        rw [List.cons_append, List.cons.injEq] at hl
        rw [hl.1]
        exact h.linked before c'' l hb

end RoleTrail

/-- **Step.** What a request does to an account carries its role trail on,
and counts one refusal more exactly if it is one. -/
theorem RoleTrail.step {a a' : Account} {n : ℕ} (hu : w.account u = some a)
    (hu' : (w.after S r).account u = some a') (hs : a.Step S r (w.answer S r) a')
    (h : RoleTrail a n) : RoleTrail a' (n + (w.refuses S u r).toNat) := by
  have hid := World.account_id hu
  have hother : (∀ q, r ≠ .decideKyc q) → n + (w.refuses S u r).toNat = n := by
    intro hr
    cases r with
    | decideKyc q => exact absurd rfl (hr q)
    | _ => rfl
  generalize ho : w.answer S r = o at hs
  cases hs with
  | idle =>
    -- a refusal would have settled the request
    have hnot : w.refuses S u r = false := by
      by_contra hne
      obtain ⟨hsome, hnone⟩ := refuses_settles (by simpa using hne) hu hu'
      rw [hnone] at hsome
      cases hsome
    rw [hnot]
    exact h
  | entry he =>
    cases he with
    | rename | verify | transit => exact h.keep (by simp) rfl rfl (hother (by simp))
    | @request q target hq ht hk hne =>
      rw [hother (by simp)]
      refine h.snoc rfl rfl ?_
      simp [RoleState.read, ChangeRole.requestRow, hne]
    | @grant q target hq ht hk hne =>
      rw [hother (by simp)]
      exact h.snoc rfl rfl rfl
    | @decide q requested hq hreq =>
      refine h.snoc rfl rfl ?_
      have hrefuses : w.refuses S u (.decideKyc q) = !q.approved := by
        simp [World.refuses, hq, hid, ho, Except.isOk, Except.toBool]
      rw [hrefuses]
      cases happ : q.approved <;>
        simp [RoleState.read, DecideKyc.decisionRow, DecideKyc.decided, happ, hreq]

theorem Legal.roleTrail {ok : World → Request → Prop} (h : Legal S ok rs) {a : Account}
    (ha : (served S rs).account u = some a) : RoleTrail a (refusals S u {} rs) :=
  h.account_induction (P := fun rs a => RoleTrail a (refusals S u {} rs))
    (fun rs q phone hl hn _ => by
      rw [refusals_served, hl.refusals_of_absent hn]
      exact ⟨rfl, fun before c later hrows => by simp [Account.born] at hrows⟩)
    (fun rs r a a' _ _ hb ha ih hs => by
      rw [refusals_served]
      exact ih.step hb (by rw [← served_snoc]; exact ha) hs) ha

/-- **Role trail.** In every run the role rows of every account replay to its
role, its pending request and the number of refusals it met, and each of
them starts from the role that the rows before it replay to. -/
theorem role_trail (h : Legal S Anything rs) {a : Account} (ha : (served S rs).account u = some a) :
    replay a.roleRows = ⟨a.user.role, a.user.requestedRole, refusals S u {} rs⟩ ∧
    ∀ before c later, a.roleRows = before ++ c :: later →
      c.fromRole = some (replay before).role :=
  ⟨(h.roleTrail ha).state, (h.roleTrail ha).linked⟩

/-- The driver's requests so far, then a request for `merchant` that is
refused, asked again and replaced. -/
def refusedRun : List Request :=
  driverRun ++ [.changeRole ⟨7, "merchant", none, none, 6⟩, .decideKyc ⟨7, false, none, some 1, 7⟩,
    .changeRole ⟨7, "merchant", none, none, 8⟩, .changeRole ⟨7, "merchant", none, none, 9⟩]

theorem role_trail_refused : ∃ a, (served plainEnv refusedRun).account 7 = some a ∧
    a.roleRows.length = 5 ∧ replay a.roleRows = ⟨.driver, some .merchant, 1⟩ := by
  have hl : Legal plainEnv Anything refusedRun := legal_of_forall (by decide +kernel)
  have ha : ((served plainEnv refusedRun).account 7).any fun a =>
      a.roleRows.length = 5 ∧ a.user.role = .driver ∧ a.user.requestedRole = some .merchant := by
    decide +kernel
  have hn : refusals plainEnv 7 {} refusedRun = 1 := by decide +kernel
  obtain ⟨hs, hrow⟩ := (Option.any_eq_true_iff_get _ _).mp ha
  obtain ⟨hlen, hr, hq⟩ := of_decide_eq_true hrow
  refine ⟨_, (Option.some_get hs).symm, hlen, ?_⟩
  rw [(role_trail hl (Option.some_get hs).symm).1, hr, hq, hn]

end DiddiFreeID
