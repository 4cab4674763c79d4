/-
# What a request on an account comes to

The five commands that save an account, each as the rows it reads and what
it decides on them: alone on the rows `d` the request answers, and writes to
the books (the accounts and their audit rows), as its `verdict` says
(`run_verdict`). In flight it goes through the same stands
(`AccountRequest.follows`): it reads, has decided, makes the writes of the
decision, commits, and then touches no table.

Key definitions: `Db.books`, `AccountRequest.verdict`, `Stand`,
`AccountRequest.monitor`.
Key theorems: `run_verdict`, `AccountRequest.follows`, `AccountRequest.moves`.
-/
import DiddiFreeID.FinishedCodes

namespace DiddiFreeID

open Transact Engine

/-! ### The books -/

/-- The accounts and their audit rows. -/
structure Books where
  users : List User
  statusHistory : List UserStatusChange
  roleHistory : List UserRoleChange
  deriving DecidableEq, Repr

def Db.books (d : Db) : Books := ⟨d.users, d.statusHistory, d.roleHistory⟩

/-- A write on the books. -/
abbrev Write.booked (w : Write) : Bool := !w.quiet

theorem books_apply_congr {d d' : Db} (h : d.books = d'.books) (w : Write) :
    (Write.apply d w).books = (Write.apply d' w).books := by
  simp only [Db.books, Books.mk.injEq] at h ⊢
  obtain ⟨hu, hs, hr⟩ := h
  cases w <;> simp [Write.apply, hu, hs, hr]

theorem books_apply {w : Write} (h : w.quiet = true) (d : Db) :
    (Write.apply d w).books = d.books := by
  have hl := Ledger.of_apply (d := d) (x := {}) h
  simp only [Ledger.of, Ledger.mk.injEq] at hl
  simp only [Db.books, hl.1, hl.2.1, hl.2.2.1]

theorem books_view_congr {d d' : Db} (h : d.books = d'.books) (log : List Write) :
    (store.view d log).books = (store.view d' log).books := by
  induction log generalizing d d' with
  | nil => exact h
  | cons w log ih => exact ih (books_apply_congr h w)

/-- Only the writes on the books change them. -/
theorem books_view (d : Db) (log : List Write) :
    (store.view d log).books = (store.view d (log.filter Write.booked)).books := by
  induction log generalizing d with
  | nil => rfl
  | cons w log ih =>
    by_cases hw : w.quiet = true
    · rw [List.filter_cons, if_neg (by simp [Write.booked, hw]), view_cons, ih]
      exact books_view_congr (books_apply hw d) _
    · rw [List.filter_cons, if_pos (by simp [Write.booked, hw]), view_cons, view_cons, ih]

/-- Logs with the same writes on the books leave the same books. -/
theorem books_of_filter {d d' : Db} (h : d.books = d'.books) {log log' : List Write}
    (hl : log.filter Write.booked = log'.filter Write.booked) :
    (store.view d log).books = (store.view d' log').books := by
  rw [books_view, hl, ← books_view]
  exact books_view_congr h log'

/-- A log off the books leaves them. -/
theorem books_of_nil {log : List Write} (h : log.filter Write.booked = []) (d : Db) :
    (store.view d log).books = d.books := by
  rw [books_view, h, view_nil]

theorem filter_booked_nil {log : List Write} (h : ∀ w ∈ log, w.quiet = true) :
    log.filter Write.booked = [] :=
  List.filter_eq_nil_iff.mpr fun w hw => by simp [Write.booked, h w hw]

/-- What a decision writes is on the books. -/
theorem Decision.filter_writes (dec : Decision) : dec.writes.filter Write.booked = dec.writes := by
  refine List.filter_eq_self.mpr fun w hw => ?_
  unfold writes at hw
  cases he : dec.entry with
  | none => simp [he] at hw
  | some e =>
    rw [he] at hw
    rcases List.mem_cons.mp hw with rfl | hw
    · rfl
    · rcases List.mem_append.mp hw with hw | hw
      all_goals
        obtain ⟨c, -, rfl⟩ := List.mem_map.mp hw
        rfl

/-! ### Requests and verdicts -/

/-- A request to one of the five commands that save an account. -/
inductive AccountRequest
  | verifyOtp (q : VerifyOtp)
  | updateProfile (q : UpdateProfile)
  | changeRole (q : ChangeRole)
  | decideKyc (q : DecideKyc)
  | changeStatus (q : ChangeStatus)

namespace VerifyOtp

variable (S : Env)

/-- The answer to a wrong code, once the attempt is counted. -/
def miss : Option ℤ → Decision
  | none => { outcome := .error .database }
  | some attempts =>
    if S.settings.otpMaxAttempts ≤ attempts then .refuse (otpTooManyAttempts attempts)
    else .refuse (otpInvalid
      (some [("attempts_remaining", .int (S.settings.otpMaxAttempts - attempts))]))

theorem miss_entry (attempts : Option ℤ) : (miss S attempts).entry = none := by
  cases attempts with
  | none => rfl
  | some attempts =>
    unfold miss
    dsimp only
    split_ifs <;> rfl

theorem miss_writes (attempts : Option ℤ) : (miss S attempts).writes = [] := by
  rw [Decision.writes, miss_entry, Option.elim]

def verdict (q : VerifyOtp) (d : Db) : Decision :=
  match validatePhone q.phone with
  | .error e => .refuse e
  | .ok phone =>
    match d.findLatestActive phone with
    | none => .refuse (otpInvalid none)
    | some otp =>
      if otp.isExpired q.now then .refuse otpExpired
      else if !verifyOtpCode S q.code otp.codeHash then miss S (d.nextAttempt otp.id)
      else q.decision S (d.findByPhone phone)

end VerifyOtp

namespace AccountRequest

variable (S : Env)

def toRequest : AccountRequest → Request
  | verifyOtp q => .verifyOtp q
  | updateProfile q => .updateProfile q
  | changeRole q => .changeRole q
  | decideKyc q => .decideKyc q
  | changeStatus q => .changeStatus q

def prog (r : AccountRequest) : Cmd Response := r.toRequest.prog S

/-- The account a request names; `VerifyOtp` names a phone. -/
def userId : AccountRequest → Option Uuid
  | verifyOtp _ => none
  | updateProfile q => some q.userId
  | changeRole q => some q.userId
  | decideKyc q => some q.userId
  | changeStatus q => some q.userId

/-- What the request decides on the row of its account. -/
def decision : AccountRequest → Option User → Decision
  | verifyOtp q => q.decision S
  | updateProfile q => q.decision
  | changeRole q => q.decision
  | decideKyc q => q.decision
  | changeStatus q => q.decision

/-- What the request comes to alone on the rows `d`. -/
def verdict (r : AccountRequest) (d : Db) : Decision :=
  match r with
  | verifyOtp q => q.verdict S d
  | updateProfile q => q.decision (d.findById q.userId)
  | changeRole q => q.decision (d.findById q.userId)
  | decideKyc q => q.decision (d.findById q.userId)
  | changeStatus q => q.decision (d.findById q.userId)

variable {S}

theorem verdict_of_userId {r : AccountRequest} {u : Uuid} (h : r.userId = some u) (d : Db) :
    r.verdict S d = r.decision S (d.findById u) := by
  cases r with
  | verifyOtp q => cases h
  | updateProfile q | changeRole q | decideKyc q | changeStatus q =>
    obtain rfl := Option.some.inj h
    rfl

end AccountRequest

theorem Effect.decided_books (dec : Decision) (d : Db) (x : Outside) :
    let o := (Effect.decided dec x).result d
    o.1 = dec.outcome ∧ o.2.1.books = (store.view d dec.writes).books := ⟨rfl, rfl⟩

section Alone

variable (S : Env) (d : Db) (x : Outside)

theorem ChangeStatus.effect_books (q : ChangeStatus) :
    let o := (q.effect d x).result d
    let dec := q.decision (d.findById q.userId)
    o.1 = dec.outcome ∧ o.2.1.books = (store.view d dec.writes).books := by
  refine ⟨rfl, books_of_filter rfl ?_⟩
  simp only [effect, Decision.writes]
  cases (q.decision (d.findById q.userId)).entry with
  | none => rfl
  | some e =>
    simp only [Option.elim, List.filter_append]
    have hq : (if e.user.status = .suspended then [d.revocationOfAll e.user.id e.now]
        else []).filter Write.booked = [] := by
      split_ifs <;> rfl
    rw [hq, List.append_nil]

theorem VerifyOtp.acceptance_books (q : VerifyOtp) (otp : OtpCode) (row : Option User) :
    let o := (q.acceptance S d x otp row).result d
    let dec := q.decision S row
    o.1 = dec.outcome ∧ o.2.1.books = (store.view d dec.writes).books := by
  unfold acceptance
  cases row with
  | none => exact ⟨rfl, rfl⟩
  | some user =>
    have hcode := filter_booked_nil (Db.consumption_quiet d otp.id q.now)
    by_cases hsus : user.status = .suspended
    · simp [decision, hsus, Decision.refuse, Effect.result, Decision.writes]
    · have hok : ∃ a, (q.decision S (some user)).outcome = .ok a := by
        simp only [decision, if_neg hsus]
        split_ifs
        · exact ⟨_, rfl⟩
        · exact ⟨_, rfl⟩
      obtain ⟨a, ha⟩ := hok
      rw [ha]
      refine ⟨ha.symm, books_of_filter rfl ?_⟩
      simp only [List.filter_append, hcode, List.nil_append, Decision.filter_writes]
      exact List.append_nil _

theorem VerifyOtp.effect_books (q : VerifyOtp) :
    let o := (q.effect S d x).result d
    let dec := q.verdict S d
    o.1 = dec.outcome ∧ o.2.1.books = (store.view d dec.writes).books := by
  unfold effect verdict
  cases validatePhone q.phone with
  | error e => exact ⟨rfl, rfl⟩
  | ok phone =>
    dsimp only
    cases hotp : d.findLatestActive phone with
    | none => exact ⟨rfl, rfl⟩
    | some otp =>
      dsimp only
      by_cases hexp : otp.isExpired q.now = true
      · rw [if_pos hexp, if_pos hexp]
        exact ⟨rfl, rfl⟩
      rw [if_neg hexp, if_neg hexp]
      by_cases hcode : (!verifyOtpCode S q.code otp.codeHash) = true
      · rw [if_pos hcode, if_pos hcode, miss_writes]
        unfold rejection miss
        cases d.nextAttempt otp.id with
        | none => exact ⟨rfl, rfl⟩
        | some attempts =>
          dsimp only
          split_ifs
          · refine ⟨rfl, books_of_nil ?_ d⟩
            rw [List.filter_cons, if_neg (by simp [Write.booked, Write.quiet])]
            exact filter_booked_nil (Db.consumption_quiet _ _ _)
          · exact ⟨rfl, books_of_nil rfl d⟩
      · rw [if_neg hcode, if_neg hcode]
        exact q.acceptance_books S d x otp (d.findByPhone phone)

/-- **Alone a request comes to its verdict**: its outcome, and its writes on
the books. -/
theorem run_verdict (r : AccountRequest) (hids : (d.users.map User.id).Nodup) :
    let o := store.run (r.prog S) [] d x
    o.1 = (r.verdict S d).outcome ∧ o.2.1.books = (store.view d (r.verdict S d).writes).books := by
  rw [AccountRequest.prog, r.toRequest.run_prog S d x hids]
  cases r with
  | verifyOtp q => exact q.effect_books S d x
  | updateProfile q => exact Effect.decided_books _ d x
  | changeRole q => exact Effect.decided_books _ d x
  | decideKyc q => exact Effect.decided_books _ d x
  | changeStatus q => exact q.effect_books d x

end Alone

/-! ### Stands -/

/-- How far a request on an account is. -/
inductive Stand
  | start
  /-- Nothing is left but an exception of the database. -/
  | broken
  /-- The code was read, and is not expired. -/
  | coded (otp : OtpCode)
  /-- The code was right, and is consumed. -/
  | claimed (otp : OtpCode)
  /-- All that counts is read: the row of the account, where it was needed, the
  code that was written, what was decided, the writes still to be made. -/
  | decided (code : Option Uuid) (row : Option User) (dec : Decision) (rest : List Write)
  | committed (dec : Decision)

/-- The stand of `VerifyOtp` after the look at the code. -/
def VerifyOtp.looked (q : VerifyOtp) : Option OtpCode → Stand
  | none => .decided none none (.refuse (otpInvalid none)) []
  | some otp =>
    if otp.isExpired q.now then .decided none none (.refuse otpExpired) [] else .coded otp

/-- The call that makes a write on the books. -/
def Write.call : Write → Option Call
  | updateUser u now => some (.saveUser u now)
  | insertStatus c => some (.recordStatusChange c)
  | insertRole c => some (.recordRoleChange c)
  | _ => none

/-- The calls that only touch tokens. -/
def Call.onTokens : Call → Bool
  | liveTokens _ | revokeThese .. | saveToken _ => true
  | _ => false

/-- The calls of a request that has committed. -/
def Call.afterCommit : Call → Bool
  | invalidateUser _ | publish _ => true
  | _ => false

namespace AccountRequest

variable (S : Env)

def looked : AccountRequest → Option OtpCode → Stand
  | verifyOtp q => q.looked
  | _ => fun _ => .broken

def monitor (r : AccountRequest) : Monitor Call Call.Resp Failure Response Stand where
  next g c a :=
    match g, c, a with
    | .start, .findById _, row => .decided none row (r.decision S row) (r.decision S row).writes
    | .start, .findLatestActive _, otp => r.looked otp
    | .coded otp, .registerAttempt _, some attempts =>
      .decided (some otp.id) none (VerifyOtp.miss S (some attempts)) []
    | .coded _, .registerAttempt _, none => .decided none none (VerifyOtp.miss S none) []
    | .coded otp, .markConsumed .., _ => .claimed otp
    | .claimed otp, .findByPhone _, row =>
      .decided (some otp.id) row (r.decision S row) (r.decision S row).writes
    | .decided .., .saveUser .., false => .broken
    | .decided code row dec rest, .saveUser .., true => .decided code row dec rest.tail
    | .decided code row dec rest, .recordStatusChange _, _ => .decided code row dec rest.tail
    | .decided code row dec rest, .recordRoleChange _, _ => .decided code row dec rest.tail
    | .decided _ _ dec _, .commit, _ => .committed dec
    | g, _, _ => g
  may g c :=
    match g with
    | .start => (∃ u, r.userId = some u ∧ c = .findById u) ∨
        ∃ q phone, r = .verifyOtp q ∧ validatePhone q.phone = .ok phone ∧
          c = .findLatestActive phone
    | .coded otp => ∃ q, r = .verifyOtp q ∧
        c = if verifyOtpCode S q.code otp.codeHash then .markConsumed otp.id q.now
          else .registerAttempt otp.id
    | .claimed _ => ∃ q phone, r = .verifyOtp q ∧ validatePhone q.phone = .ok phone ∧
        c = .findByPhone phone
    | .decided _ _ _ (w :: _) => w.call = some c
    | .decided code _ dec [] => (dec.entry.isSome = true ∨ code.isSome = true) ∧
        (c.onTokens = true ∨ c = .commit ∨ ∃ id now, code = some id ∧ c = .markConsumed id now)
    | .committed _ => c.afterCommit = true
    | .broken => False
  mayRet g a :=
    match g with
    | .decided none _ dec [] => dec.entry = none ∧ dec.outcome = .ok a
    | .committed dec => dec.outcome = .ok a
    | _ => False
  mayRaise g e :=
    match g with
    | .start => ∀ d, r.verdict S d = { outcome := .error e }
    | .broken => True
    | .decided _ _ dec [] => dec.entry = none ∧ dec.outcome = .error e
    | .committed dec => dec.outcome = .error e
    | _ => False

section Ends

variable {S} {r : AccountRequest} {code : Option Uuid} {row : Option User} {dec : Decision}
  {rest : List Write}

theorem mayRet_decided {a : Response} : (r.monitor S).mayRet (.decided code row dec rest) a ↔
    code = none ∧ rest = [] ∧ dec.entry = none ∧ dec.outcome = .ok a := by
  cases code with
  | some id => exact ⟨fun h => absurd h fun h => h, fun h => (nomatch h.1)⟩
  | none =>
    cases rest with
    | cons w rest => exact ⟨fun h => absurd h fun h => h, fun h => (nomatch h.2.1)⟩
    | nil => exact ⟨fun h => ⟨rfl, rfl, h⟩, fun h => h.2.2⟩

theorem mayRaise_decided {e : Failure} : (r.monitor S).mayRaise (.decided code row dec rest) e ↔
    rest = [] ∧ dec.entry = none ∧ dec.outcome = .error e := by
  cases rest with
  | cons w rest => exact ⟨fun h => absurd h fun h => h, fun h => (nomatch h.1)⟩
  | nil => exact ⟨fun h => ⟨rfl, h⟩, fun h => h.2⟩

end Ends

/-- The moves between stands: one constructor for each kind of answered call. -/
inductive Moves (r : AccountRequest) : Stand → (c : Call) → c.Resp → Stand → Prop
  | read {u row} : r.userId = some u → Moves r .start (.findById u) row
      (.decided none row (r.decision S row) (r.decision S row).writes)
  | look {q phone otp} : r = .verifyOtp q → validatePhone q.phone = .ok phone →
      Moves r .start (.findLatestActive phone) otp (q.looked otp)
  | count {q otp attempts} : r = .verifyOtp q → verifyOtpCode S q.code otp.codeHash = false →
      Moves r (.coded otp) (.registerAttempt otp.id) (some attempts)
        (.decided (some otp.id) none (VerifyOtp.miss S (some attempts)) [])
  | lost {q otp} : r = .verifyOtp q → verifyOtpCode S q.code otp.codeHash = false →
      Moves r (.coded otp) (.registerAttempt otp.id) none
        (.decided none none (VerifyOtp.miss S none) [])
  | claim {q otp} : r = .verifyOtp q → verifyOtpCode S q.code otp.codeHash = true →
      Moves r (.coded otp) (.markConsumed otp.id q.now) () (.claimed otp)
  | readByPhone {q phone otp row} : r = .verifyOtp q → validatePhone q.phone = .ok phone →
      Moves r (.claimed otp) (.findByPhone phone) row
        (.decided (some otp.id) row (r.decision S row) (r.decision S row).writes)
  | save {code row dec u now rest} :
      Moves r (.decided code row dec (.updateUser u now :: rest)) (.saveUser u now) true
        (.decided code row dec rest)
  | unsaved {code row dec u now rest} :
      Moves r (.decided code row dec (.updateUser u now :: rest)) (.saveUser u now) false .broken
  | recordStatus {code row dec c rest} :
      Moves r (.decided code row dec (.insertStatus c :: rest)) (.recordStatusChange c) ()
        (.decided code row dec rest)
  | recordRole {code row dec c rest} :
      Moves r (.decided code row dec (.insertRole c :: rest)) (.recordRoleChange c) ()
        (.decided code row dec rest)
  | settle {code row dec c a} : dec.entry.isSome = true ∨ code.isSome = true → c.onTokens = true →
      Moves r (.decided code row dec []) c a (.decided code row dec [])
  | burn {id now row dec} : Moves r (.decided (some id) row dec []) (.markConsumed id now) ()
      (.decided (some id) row dec [])
  | commit {code row dec} : dec.entry.isSome = true ∨ code.isSome = true →
      Moves r (.decided code row dec []) .commit () (.committed dec)
  | follow {dec c a} : c.afterCommit = true → Moves r (.committed dec) c a (.committed dec)

/-- Every call the monitor allows is one of the moves. -/
theorem moves {r : AccountRequest} {g : Stand} {c : Call} (h : (r.monitor S).may g c) (a : c.Resp) :
    Moves S r g c a ((r.monitor S).next g c a) := by
  cases g with
  | start =>
    rcases h with ⟨u, hu, rfl⟩ | ⟨q, phone, rfl, hp, rfl⟩
    · exact .read hu
    · exact .look rfl hp
  | broken => exact absurd h fun h => h
  | coded otp =>
    obtain ⟨q, rfl, rfl⟩ := h
    by_cases hv : verifyOtpCode S q.code otp.codeHash = true
    · generalize hc : (if verifyOtpCode S q.code otp.codeHash then Call.markConsumed otp.id q.now
        else .registerAttempt otp.id) = c at a
      rw [if_pos hv] at hc
      subst hc
      exact .claim rfl hv
    · generalize hc : (if verifyOtpCode S q.code otp.codeHash then Call.markConsumed otp.id q.now
        else .registerAttempt otp.id) = c at a
      rw [if_neg hv] at hc
      subst hc
      cases a with
      | none => exact .lost rfl (by simpa using hv)
      | some attempts => exact .count rfl (by simpa using hv)
  | claimed otp =>
    obtain ⟨q, phone, rfl, hp, rfl⟩ := h
    exact .readByPhone rfl hp
  | decided code row dec rest =>
    cases rest with
    | nil =>
      obtain ⟨hsome, ht | rfl | ⟨id, now, rfl, rfl⟩⟩ := h
      · cases c with
        | liveTokens | revokeThese | saveToken => exact .settle hsome rfl
        | _ => cases ht
      · exact .commit hsome
      · exact .burn
    | cons w rest =>
      cases w with
      | updateUser u now =>
        obtain rfl := Option.some.inj h
        cases a with
        | false => exact .unsaved
        | true => exact .save
      | insertStatus c =>
        obtain rfl := Option.some.inj h
        exact .recordStatus
      | insertRole c =>
        obtain rfl := Option.some.inj h
        exact .recordRole
      | _ => cases h
  | committed dec =>
    cases c with
    | invalidateUser | publish => exact .follow rfl
    | _ => cases h

/-! ### The programs -/

section Programs

variable {S : Env} {r : AccountRequest} {code : Option Uuid} {row : Option User} {dec : Decision}

theorem follows_saveUser {u : User} {now : Time} {rest : List Write} {f : Unit → Cmd Response}
    (h : (f ()).Follows (r.monitor S) (.decided code row dec rest)) :
    (saveUser u now >>= f).Follows (r.monitor S)
      (.decided code row dec (.updateUser u now :: rest)) := by
  rw [saveUser_bind]
  refine ⟨rfl, fun saved => ?_⟩
  cases saved with
  | false => exact trivial
  | true => exact h

/-- What a command does once the writes of its decision are made. -/
theorem follows_commit {u : Uuid} {e : DomainEvent} {a : Response}
    (hsome : dec.entry.isSome = true ∨ code.isSome = true) (ho : dec.outcome = .ok a) :
    Prog.Follows (r.monitor S) (.decided code row dec [])
      (do commit; invalidateUser u; publish e; return a) :=
  ⟨⟨hsome, .inr (.inl rfl)⟩, fun _ => ⟨rfl, fun _ => ⟨rfl, fun _ => ho⟩⟩⟩

end Programs

end AccountRequest

open AccountRequest

variable (S : Env)

theorem UpdateProfile.follows_decision (q : UpdateProfile) :
    q.call.Follows ((AccountRequest.updateProfile q).monitor S) .start := by
  unfold call
  rw [findById_bind]
  refine ⟨.inl ⟨q.userId, rfl, rfl⟩, fun row => ?_⟩
  change Prog.Follows _ (Stand.decided none row (q.decision row) (q.decision row).writes) _
  unfold decision
  cases row with
  | none => exact ⟨rfl, rfl⟩
  | some user =>
    dsimp only
    split_ifs
    · exact follows_saveUser (follows_commit (.inl rfl) rfl)
    · exact ⟨rfl, rfl⟩

theorem ChangeRole.follows_decision (q : ChangeRole) :
    q.call.Follows ((AccountRequest.changeRole q).monitor S) .start := by
  unfold call
  cases ht : UserRole.ofValue q.role with
  | none =>
    intro d
    simp only [AccountRequest.verdict, decision, ht]
    rfl
  | some targetRole =>
    dsimp only
    rw [findById_bind]
    refine ⟨.inl ⟨q.userId, rfl, rfl⟩, fun row => ?_⟩
    change Prog.Follows _ (Stand.decided none row (q.decision row) (q.decision row).writes) _
    unfold decision
    rw [ht]
    cases row with
    | none => exact ⟨rfl, rfl⟩
    | some user =>
      dsimp only
      split_ifs with hk hr hr
      · rw [request, if_pos hr]
        exact ⟨rfl, rfl⟩
      · rw [request, if_neg hr]
        exact follows_saveUser ⟨rfl, fun _ => follows_commit (.inl rfl) rfl⟩
      · rw [grant, if_pos hr]
        exact ⟨rfl, rfl⟩
      · rw [grant, if_neg hr]
        exact follows_saveUser ⟨rfl, fun _ => follows_commit (.inl rfl) rfl⟩

theorem DecideKyc.follows_decision (q : DecideKyc) :
    q.call.Follows ((AccountRequest.decideKyc q).monitor S) .start := by
  unfold call
  rw [findById_bind]
  refine ⟨.inl ⟨q.userId, rfl, rfl⟩, fun row => ?_⟩
  change Prog.Follows _ (Stand.decided none row (q.decision row) (q.decision row).writes) _
  unfold decision
  cases row with
  | none => exact ⟨rfl, rfl⟩
  | some user =>
    cases hr : user.requestedRole with
    | none =>
      simp only [hr]
      exact ⟨rfl, rfl⟩
    | some requested =>
      simp only [hr]
      by_cases hs : (q.decided user requested).status ≠ user.status
      · simp only [if_pos hs]
        exact follows_saveUser ⟨rfl, fun _ => ⟨rfl, fun _ => follows_commit (.inl rfl) rfl⟩⟩
      · simp only [if_neg hs]
        exact follows_saveUser ⟨rfl, fun _ => follows_commit (.inl rfl) rfl⟩

theorem ChangeStatus.follows_decision (q : ChangeStatus) :
    q.call.Follows ((AccountRequest.changeStatus q).monitor S) .start := by
  unfold call
  cases ht : UserStatus.ofValue q.status with
  | none =>
    intro d
    simp only [AccountRequest.verdict, decision, ht]
    rfl
  | some target =>
    dsimp only
    by_cases hs : target ∉ adminSettableStatuses
    · rw [if_pos hs]
      intro d
      simp only [AccountRequest.verdict, decision, ht, if_pos hs]
      rfl
    · rw [if_neg hs, findById_bind]
      refine ⟨.inl ⟨q.userId, rfl, rfl⟩, fun row => ?_⟩
      change Prog.Follows _ (Stand.decided none row (q.decision row) (q.decision row).writes) _
      unfold decision
      rw [ht]
      simp only [if_neg hs]
      cases row with
      | none => exact ⟨rfl, rfl⟩
      | some user =>
        dsimp only
        by_cases hc : (!canTransition user.status target) = true
        · rw [if_pos hc, if_pos hc]
          exact ⟨rfl, rfl⟩
        · rw [if_neg hc, if_neg hc]
          refine follows_saveUser ⟨rfl, fun _ => ?_⟩
          dsimp only
          by_cases hsus : target = .suspended
          · rw [if_pos hsus]
            exact ⟨⟨.inl rfl, .inl rfl⟩, fun _ => ⟨⟨.inl rfl, .inl rfl⟩, fun _ =>
              follows_commit (.inl rfl) rfl⟩⟩
          · rw [if_neg hsus]
            exact follows_commit (.inl rfl) rfl

namespace VerifyOtp

variable {S}

theorem follows_decision_reject (q : VerifyOtp) (otp : OtpCode)
    (hv : verifyOtpCode S q.code otp.codeHash = false) :
    (q.reject S otp).Follows ((AccountRequest.verifyOtp q).monitor S) (.coded otp) := by
  unfold reject
  rw [registerAttempt_bind]
  refine ⟨⟨q, rfl, by rw [if_neg (by simp [hv])]⟩, fun attempts => ?_⟩
  cases attempts with
  | none => exact ⟨rfl, rfl⟩
  | some attempts =>
    change Prog.Follows _ (Stand.decided (some otp.id) none (miss S (some attempts)) []) _
    unfold miss
    dsimp only [Option.elim]
    split_ifs with ha
    · exact ⟨⟨.inr rfl, .inr (.inr ⟨_, _, rfl, rfl⟩)⟩, fun _ =>
        ⟨⟨.inr rfl, .inr (.inl rfl)⟩, fun _ => rfl⟩⟩
    · exact ⟨⟨.inr rfl, .inr (.inl rfl)⟩, fun _ => rfl⟩

theorem follows_decision_openSession (q : VerifyOtp) (user : User) (first : Bool) {id : Uuid}
    {row : Option User} {dec : Decision} (ho : dec.outcome = .ok (q.answer S user)) :
    (q.openSession S user first).Follows ((AccountRequest.verifyOtp q).monitor S)
      (.decided (some id) row dec []) := by
  unfold openSession
  refine ⟨⟨.inr rfl, .inl rfl⟩, fun _ => ⟨⟨.inr rfl, .inr (.inl rfl)⟩, fun _ => ⟨rfl, fun _ => ?_⟩⟩⟩
  cases first with
  | false => exact ho
  | true => exact ⟨rfl, fun _ => ho⟩

theorem follows_decision_accept (q : VerifyOtp) (otp : OtpCode) {phone : String}
    (hp : validatePhone q.phone = .ok phone) (hv : verifyOtpCode S q.code otp.codeHash = true) :
    (q.accept S otp phone).Follows ((AccountRequest.verifyOtp q).monitor S) (.coded otp) := by
  unfold accept
  rw [markConsumed_bind]
  refine ⟨⟨q, rfl, by rw [if_pos hv]⟩, fun _ => ?_⟩
  rw [findByPhone_bind]
  refine ⟨⟨q, phone, rfl, hp, rfl⟩, fun row => ?_⟩
  change Prog.Follows _
    (Stand.decided (some otp.id) row (q.decision S row) (q.decision S row).writes) _
  unfold decision
  cases row with
  | none => exact ⟨rfl, rfl⟩
  | some user =>
    dsimp only
    by_cases hsus : user.status = .suspended
    · rw [if_pos hsus, if_pos hsus]
      exact ⟨rfl, rfl⟩
    rw [if_neg hsus, if_neg hsus]
    by_cases hpend : user.status = .pendingVerification
    · rw [if_pos hpend, if_pos hpend]
      exact follows_saveUser ⟨rfl, fun _ => follows_decision_openSession q _ _ rfl⟩
    · rw [if_neg hpend, if_neg hpend]
      exact follows_decision_openSession q _ _ rfl

theorem follows_decision (q : VerifyOtp) :
    (q.call S).Follows ((AccountRequest.verifyOtp q).monitor S) .start := by
  unfold call
  cases hp : validatePhone q.phone with
  | error e =>
    intro d
    simp only [AccountRequest.verdict, verdict, hp]
    rfl
  | ok phone =>
    rw [check_ok_bind, findLatestActive_bind]
    refine ⟨.inr ⟨q, phone, rfl, hp, rfl⟩, fun otp => ?_⟩
    change Prog.Follows _ (q.looked otp) _
    cases otp with
    | none => exact ⟨rfl, rfl⟩
    | some otp =>
      dsimp only [looked]
      by_cases hexp : otp.isExpired q.now = true
      · rw [if_pos hexp, if_pos hexp]
        exact ⟨rfl, rfl⟩
      · rw [if_neg hexp, if_neg hexp]
        by_cases hv : verifyOtpCode S q.code otp.codeHash = true
        · rw [if_neg (by simp [hv])]
          exact q.follows_decision_accept otp hp hv
        · rw [if_pos (by simpa using hv)]
          exact q.follows_decision_reject otp (by simpa using hv)

end VerifyOtp

/-- The requests go through their stands. -/
theorem AccountRequest.follows (r : AccountRequest) :
    (r.prog S).Follows (r.monitor S) .start := by
  cases r with
  | verifyOtp q => exact q.follows_decision
  | updateProfile q => exact q.follows_decision S
  | changeRole q => exact q.follows_decision S
  | decideKyc q => exact q.follows_decision S
  | changeStatus q => exact q.follows_decision S

end DiddiFreeID
