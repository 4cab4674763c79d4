/-
# Guessing a code in parallel

`VerifyOtp` compares the code it read before it counts the attempt, and
looks at whether the row is burnt only when it reads it. Requests that read
the row together therefore compare more wrong codes with it than
`otp_max_attempts` (`too_many_guesses`). Where a row is handed out to a
request while others are at work on it only as long as the attempts counted
and those requests leave room, it is compared with at most
`otp_max_attempts` wrong codes, and with fewer if one of the requests gets a
session by it (`guesses_bounded`). Room is also room in the column: an
attempt that it does not hold is not counted, whatever the ceiling.

Key definitions: `HasRoom`, `HandsOutWithRoom`, `wrongGuesses`, `atWork`.
Key theorems: `given_bounded`, `guesses_bounded`.
-/
import DiddiFreeID.Codes
import DiddiFreeID.OtpSession
import DiddiFreeID.Transact.Tally

namespace DiddiFreeID

open Transact Engine

variable {S : Env} {ι : Type}

/-! ### Requests at work on a row -/

namespace VerifyOtp

namespace Phase

/-- The request was given the code `id`. -/
def isOn (id : Uuid) (g : Phase) : Bool := g.otp.any fun otp => otp.id = id

/-- It compared a wrong code with it. -/
def isErring (id : Uuid) : Phase → Bool
  | .wrong otp | .counted otp _ | .burnt otp | .refused otp => otp.id = id
  | _ => false

/-- It compared a code with it, and its transaction is open. -/
def isOpen (id : Uuid) : Phase → Bool
  | .wrong otp | .counted otp _ | .burnt otp | .right otp | .consumed otp | .read otp _
  | .saved otp _ | .recorded otp _ | .opened otp _ _ => otp.id = id
  | _ => false

/-- Its attempt is counted for good. -/
def isRefused (id : Uuid) : Phase → Bool
  | .refused otp => otp.id = id
  | _ => false

/-- Its session by this code is committed. -/
def isServed (id : Uuid) : Phase → Bool
  | .committed otp _ _ | .invalidated otp _ _ | .announced otp _ => otp.id = id
  | _ => false

/-- It has counted an attempt on the row and not committed it. -/
def isCounting (id : Uuid) : Phase → Bool
  | .counted otp _ | .burnt otp => otp.id = id
  | _ => false

/-- It has consumed the row, or found it consumed, and not committed. -/
def isConsuming (id : Uuid) : Phase → Bool
  | .burnt otp | .consumed otp | .read otp _ | .saved otp _ | .recorded otp _
  | .opened otp _ _ => otp.id = id
  | _ => false

/-- It has not called `mark_consumed`. -/
def isEarly : Phase → Bool
  | .start | .wrong _ | .counted .. | .right _ => true
  | _ => false

theorem isOn_split (id : Uuid) (g : Phase) : (g.isOn id).toNat =
    (g.isOpen id).toNat + ((g.isRefused id).toNat + (g.isServed id).toNat) := by
  cases g <;> simp [isOn, otp, isOpen, isRefused, isServed]

theorem isErring_isOn {id : Uuid} {g : Phase} (h : g.isErring id = true) : g.isOn id = true := by
  cases g with
  | wrong | counted | burnt | refused => exact h
  | _ => exact absurd h (by simp [isErring])

theorem HasConsumed.isOn {id : Uuid} {g : Phase} (h : g.HasConsumed id) :
    g.isOn id = true ∧ g.isErring id = false := by
  cases g with
  | start | stopped | wrong | counted | burnt | refused | right => exact absurd h fun h => h
  | _ => exact ⟨decide_eq_true h, rfl⟩

end Phase

variable {q : VerifyOtp} {g g' : Phase} {c : Call} {r : c.Resp} {id : Uuid}

theorem Moves.keepsCodes (h : Moves S q g c r g') (d : Db) (x : Outside) :
    ∀ w ∈ (exec c d x).2.1, w.keepsCodes = true := by
  intro w hw
  cases h.writes S d x w hw <;> rfl

/-- A call counts an attempt on the row exactly when the request starts to
hold one. -/
theorem Moves.count_bump (h : Moves S q g c r g') (hc : c ≠ .commit) {d : Db} {x : Outside}
    (hr : r = (exec c d x).1) :
    (exec c d x).2.1.count (.bumpAttempts id) + (g.isCounting id).toNat =
      (g'.isCounting id).toNat := by
  cases h with
  | @count otp attempts =>
    simp only [exec] at hr ⊢
    cases hn : d.nextAttempt otp.id with
    | none =>
      rw [hn] at hr
      exact absurd hr (by simp)
    | some n =>
      by_cases hid : otp.id = id <;> simp [Phase.isCounting, hid]
  | @lost otp =>
    simp only [exec] at hr ⊢
    cases hn : d.nextAttempt otp.id with
    | none => simp [Phase.isCounting]
    | some n =>
      rw [hn] at hr
      exact absurd hr (by simp)
  | @burn otp attempts | @consume otp =>
    simp only [exec, Db.consumption]
    split
    · split_ifs <;> simp [Phase.isCounting]
    · simp [Phase.isCounting]
  | save | unsaved =>
    simp only [exec, Db.saveUser]
    split
    · simp [Phase.isCounting]
    · split <;> simp [Phase.isCounting]
  | refuse | refuseBurnt | commit => exact absurd rfl hc
  | _ => simp [exec, Phase.isCounting]

/-- Only `mark_consumed` consumes. -/
theorem Moves.consumes (h : Moves S q g c r g') (d : Db) (x : Outside) {now : Time}
    (hw : Write.consumeOtp id now ∈ (exec c d x).2.1) : g'.isEarly = false := by
  cases h with
  | count | lost => cases Db.eq_of_mem_registerAttempt hw
  | wrong | right => exact absurd hw List.not_mem_nil
  | _ => rfl

theorem Moves.isEarly (h : Moves S q g c r g') (h' : g'.isEarly = true) : g.isEarly = true := by
  cases h with
  | wrong | right | count => rfl
  | _ => exact absurd h' (by simp [Phase.isEarly])

/-- What the uncommitted writes of a request in phase `g` do to codes. -/
structure Logged (id : Uuid) (g : Phase) (log : List Write) : Prop where
  keeps : ∀ w ∈ log, w.keepsCodes = true
  bumps : log.count (.bumpAttempts id) = (g.isCounting id).toNat
  early : g.isEarly = true → ∀ now, .consumeOtp id now ∉ log

theorem Logged.nil (h : g.isCounting id = false) : Logged id g [] :=
  ⟨fun w hw => absurd hw List.not_mem_nil, by simp [h], fun _ _ => List.not_mem_nil⟩

/-- A commit leaves no attempt half counted and no row half consumed. -/
theorem Moves.of_commit (h : Moves S q g .commit () g') :
    g'.isCounting id = false ∧ g'.isConsuming id = false := by
  cases h <;> exact ⟨rfl, rfl⟩

/-- Neither does the end of a request. -/
theorem of_ret {a : Response} (h : (q.monitor S).mayRet g a) :
    g.isCounting id = false ∧ g.isConsuming id = false := by
  cases g with
  | invalidated | announced => exact ⟨rfl, rfl⟩
  | _ => exact absurd h fun h => h

theorem of_raise {e : Failure} (h : (q.monitor S).mayRaise g e) :
    g.isCounting id = false ∧ g.isConsuming id = false := by
  cases g with
  | start | stopped | refused => exact ⟨rfl, rfl⟩
  | _ => exact absurd h fun h => h

theorem Moves.isRefused (h : Moves S q g c r g') (hc : c ≠ .commit) :
    g'.isRefused id = false ∧ g.isRefused id = false := by
  cases h with
  | refuse | refuseBurnt | commit => exact absurd rfl hc
  | _ => exact ⟨rfl, rfl⟩

/-- A commit settles the attempt it has counted. -/
theorem Moves.isRefused_of_commit (h : Moves S q g .commit () g') :
    (g'.isRefused id).toNat = (g.isRefused id).toNat + (g.isCounting id).toNat := by
  cases h <;> simp [Phase.isRefused, Phase.isCounting]

/-- An attempt that is committed leaves the row with attempts left, or burnt. -/
theorem Moves.counting_commit (h : Moves S q g .commit () g') (hc : g.isCounting id = true) :
    (∃ otp n, g = .counted otp n ∧ otp.id = id ∧ n < S.settings.otpMaxAttempts) ∨
      g.isConsuming id = true := by
  cases h with
  | @refuse otp n hn => exact .inl ⟨otp, n, rfl, of_decide_eq_true hc, hn⟩
  | refuseBurnt => exact .inr hc
  | commit => exact absurd hc (by simp [Phase.isCounting])

/-- A request is given the row by `find_latest_active`, and keeps it. -/
theorem Moves.isOn (h : Moves S q g c r g') {d : Db} {x : Outside} (hr : r = (exec c d x).1)
    (h' : g'.isOn id = true) :
    g.isOn id = true ∨ ∃ (phone : String) (otp : OtpCode), g = .start ∧
      c = .findLatestActive phone ∧ d.findLatestActive phone = some otp ∧ otp.id = id ∧
      otp.isExpired q.now = false := by
  cases h with
  | @wrong phone otp _ he | @right phone otp _ he =>
    exact .inr ⟨phone, otp, rfl, rfl, hr.symm, of_decide_eq_true h', he⟩
  | noCode | expired | lost | noAccount | suspended | unsaved =>
    exact absurd h' (by simp [Phase.isOn, Phase.otp])
  | _ => exact .inl h'

/-- A session by the row is one for good. -/
theorem Moves.isServed_le (h : Moves S q g c r g') (id : Uuid) :
    (g.isServed id).toNat ≤ (g'.isServed id).toNat := by
  cases h with
  | invalidate | announce => exact le_rfl
  | _ => exact Nat.zero_le _

/-- A request comes to hold the row consumed by `mark_consumed`. -/
theorem Moves.isConsuming (h : Moves S q g c r g') (h' : g'.isConsuming id = true) :
    g.isConsuming id = true ∨ g.isEarly = true ∧ ∃ now, c = .markConsumed id now := by
  cases h with
  | @burn otp | @consume otp =>
    obtain rfl : otp.id = id := of_decide_eq_true h'
    exact .inr ⟨rfl, q.now, rfl⟩
  | read | save | record | openFirst | openAgain => exact .inl h'
  | _ => exact absurd h' (by simp [Phase.isConsuming])

theorem Moves.to_counted {otp : OtpCode} {n : ℤ} (h : Moves S q g c r (.counted otp n)) {d : Db}
    {x : Outside} (hr : r = (exec c d x).1) : g = .wrong otp ∧ n = d.attempts otp.id + 1 := by
  cases h with
  | count =>
    refine ⟨rfl, Db.attempts_of_nextAttempt ?_⟩
    simp only [exec] at hr
    cases hn : d.nextAttempt otp.id with
    | none =>
      rw [hn] at hr
      cases hr
    | some n =>
      rw [hn] at hr
      exact hr.symm

theorem Moves.isServed (h : Moves S q g c r g') (h' : g'.isServed id = true) :
    g.isServed id = true ∨ c = .commit ∧ g.isConsuming id = true := by
  cases h with
  | commit => exact .inr ⟨rfl, h'⟩
  | invalidate | announce => exact .inl h'
  | _ => exact absurd h' (by simp [Phase.isServed])

variable [DecidableEq ι]

/-- The other requests stay in their phases. -/
theorem phaseOf_ne {q : ι → VerifyOtp} {s s' : InFlight ι} {i j : ι} (hs : store.Step s i s')
    (hj : j ≠ i) : phaseOf S q s' j = phaseOf S q s j ∧ s'.thread j = s.thread j :=
  ⟨hs.phase_ne hj, hs.thread_ne hj⟩

/-- A step of request `i`, in phases. -/
inductive Stepped (S : Env) (q : ι → VerifyOtp) (s : InFlight ι) (i : ι) (s' : InFlight ι) : Prop
  | call (c : Call) (k : c.Resp → Cmd Response) : (s.thread i).prog = .call c k → c ≠ .commit →
      Moves S (q i) (phaseOf S q s i) c (store.answer s i c).1 (phaseOf S q s' i) →
      s'.db = s.db → (s'.thread i).log = (s.thread i).log ++ (store.answer s i c).2.1 → Stepped S q s i s'
  | commit : Moves S (q i) (phaseOf S q s i) .commit () (phaseOf S q s' i) →
      s'.db = store.view s.db (s.thread i).log → (s'.thread i).log = [] → Stepped S q s i s'
  /-- The request has ended, and its session with it. -/
  | finish : phaseOf S q s' i = phaseOf S q s i →
      (∀ id, (phaseOf S q s i).isCounting id = false ∧ (phaseOf S q s i).isConsuming id = false) →
      s'.db = store.view s.db (s.thread i).log ∨ s'.db = s.db → Stepped S q s i s'

variable {q : ι → VerifyOtp} {s s' : InFlight ι} {i : ι}

theorem stepped (hf : (s.thread i).prog.Follows ((q i).monitor S) (phaseOf S q s i))
    (hs : store.Step s i s') : Stepped S q s i s' := by
  cases hs with
  | @call c k hp hc hfree =>
    rw [hp] at hf
    have hm := moves S hf.1 (store.answer s i c).1
    have hcommit : c ≠ .commit := by
      rintro rfl
      exact absurd hc (by simp [store])
    rw [← show phaseOf S q (store.called s i c k) i = _ from phase_called_self store] at hm
    exact .call c k hp hcommit hm rfl (by simp)
  | @commit c k hp hc =>
    obtain rfl := commits_iff.mp hc
    rw [hp] at hf
    have hm := moves S hf.1 (store.answer s i .commit).1
    rw [← show phaseOf S q (store.committed s i .commit k) i = _ from
      phase_committed_self store] at hm
    exact .commit hm rfl (by simp)
  | @close a hp =>
    rw [hp] at hf
    exact .finish (by simp [phaseOf]) (fun _ => of_ret hf) (.inl rfl)
  | @abort e hp =>
    rw [hp] at hf
    exact .finish (by simp [phaseOf]) (fun _ => of_raise hf) (.inr rfl)

variable [Fintype ι] {ok : InFlight ι → ι → Prop} {d : Db} {x : Outside}

theorem follows_reach (h : store.Reach ok (System.start d x fun i => (q i).call S) s) (i : ι) :
    (s.thread i).prog.Follows ((q i).monitor S) (phaseOf S q s i) :=
  h.follows (fun i => VerifyOtp.follows S (q i)) i

theorem logged (h : store.Reach ok (System.start d x fun i => (q i).call S) s) (id : Uuid)
    (i : ι) : Logged id (phaseOf S q s i) (s.thread i).log := by
  refine h.log_invariant (M := fun i => (q i).monitor S) (P := fun _ g log => Logged id g log)
    (fun i => VerifyOtp.follows S (q i)) (fun _ => .nil rfl) (fun s i c _ hmay hl hc => ?_)
    (fun s i c hmay _ hc => .nil ?_) (fun i g a log hret hl => .nil (of_ret hret).1)
    (fun i g e log hraise hl => .nil (of_raise hraise).1) i
  · have hm := moves S hmay (store.answer s i c).1
    have hcommit : c ≠ .commit := by
      rintro rfl
      exact absurd hc (by simp [store])
    refine ⟨fun w hw => ?_, ?_, fun he now hw => ?_⟩
    · rcases List.mem_append.mp hw with hw | hw
      · exact hl.keeps w hw
      · exact hm.keepsCodes _ _ w hw
    · rw [List.count_append, hl.bumps, Nat.add_comm]
      exact hm.count_bump hcommit rfl
    · rcases List.mem_append.mp hw with hw | hw
      · exact hl.early (hm.isEarly he) now hw
      · rw [hm.consumes _ _ hw] at he
        cases he
  · obtain rfl := commits_iff.mp hc
    exact (moves S hmay _).of_commit.1

/-- A counted attempt is a locked row. -/
theorem Logged.mem_bump {g : Phase} {log : List Write} (hl : Logged id g log)
    (h : g.isCounting id = true) : Write.bumpAttempts id ∈ log := by
  have hcount := hl.bumps
  rw [h] at hcount
  exact List.count_pos_iff.mp (by simp [hcount])

/-- One request at a time has an attempt on the row counted and not committed. -/
theorem counting_unique (h : store.Reach ok (System.start d x fun i => (q i).call S) s) {i j : ι}
    (hi : (phaseOf S q s i).isCounting id = true) (hj : (phaseOf S q s j).isCounting id = true) :
    i = j := by
  by_contra hij
  exact h.exclusive hij ((logged h id i).mem_bump hi) ((logged h id j).mem_bump hj)
    (k := .otp id) (by simp [Write.keys]) (by simp [Write.keys])

/-- No request adds or removes a code. -/
theorem otpIds_reach (h : store.Reach ok (System.start d x fun i => (q i).call S) s) :
    s.db.otpIds = d.otpIds := by
  refine h.invariant (P := fun s => s.db.otpIds = d.otpIds) rfl fun s s' i hr ih _ hs => ?_
  have hkeeps := (logged hr 0 i).keeps
  cases hs with
  | call => exact ih
  | commit => rw [committed_db, otpIds_view hkeeps, ih]
  | close => rw [closed_db, otpIds_view hkeeps, ih]
  | abort => exact ih

/-- A step publishes the attempt that its request has counted, if it commits. -/
theorem attempts_step (h : store.Reach ok (System.start d x fun i => (q i).call S) s)
    (hid : id ∈ d.otpIds) (hs : store.Step s i s') :
    s'.db.attempts id + ((phaseOf S q s i).isRefused id).toNat =
      s.db.attempts id + ((phaseOf S q s' i).isRefused id).toNat := by
  have hl := logged h id i
  have hview := attempts_view hl.keeps (d := s.db) (by rwa [otpIds_reach h])
  rw [hl.bumps] at hview
  cases stepped (follows_reach h i) hs with
  | call c k _ hc hm hdb _ =>
    rw [hdb, (hm.isRefused hc).1, (hm.isRefused hc).2]
  | commit hm hdb _ =>
    have hrefused := @Moves.isRefused_of_commit _ _ _ _ id hm
    rw [hdb, hview]
    omega
  | finish hph hset hdb =>
    rw [hph]
    rcases hdb with hdb | hdb
    · rw [hdb, hview, (hset id).1]
      simp
    · rw [hdb]

/-- The attempts counted on a row are those of the requests refused by it. -/
theorem attempts_reach (h : store.Reach ok (System.start d x fun i => (q i).call S) s)
    (hid : id ∈ d.otpIds) :
    s.db.attempts id = d.attempts id + tally fun i => (phaseOf S q s i).isRefused id := by
  refine h.invariant
    (P := fun s => s.db.attempts id = d.attempts id + tally fun i => (phaseOf S q s i).isRefused id)
    ?_ fun s s' i hr ih _ hs => ?_
  · change d.attempts id = d.attempts id + tally fun _ : ι => false
    simp [tally]
  · have hchange := tally_change (P := fun j => (phaseOf S q s j).isRefused id)
      (Q := fun j => (phaseOf S q s' j).isRefused id) i fun j hj => by rw [(phaseOf_ne hs hj).1]
    have hstep := attempts_step hr hid hs
    omega

/-- A consumed code stays consumed. -/
theorem isActive_step (h : store.Reach ok (System.start d x fun i => (q i).call S) s)
    (hs : store.Step s i s') (hd : s.db.isActive id = false) : s'.db.isActive id = false := by
  have hview := not_isActive_view (logged h id i).keeps (.inl hd)
  cases hs with
  | call | abort => exact hd
  | commit | close => exact hview

/-- Without such an attempt it publishes none. -/
theorem attempts_step_of_not_isCounting
    (h : store.Reach ok (System.start d x fun i => (q i).call S) s) (hid : id ∈ d.otpIds)
    (hs : store.Step s i s') (hc : (phaseOf S q s i).isCounting id = false) :
    s'.db.attempts id = s.db.attempts id := by
  have hl := logged h id i
  have hview := attempts_view hl.keeps (d := s.db) (by rwa [otpIds_reach h])
  rw [hl.bumps, hc] at hview
  have hsame : (store.view s.db (s.thread i).log).attempts id = s.db.attempts id := by
    simpa using hview
  cases hs with
  | call | abort => rfl
  | commit | close => exact hsame

/-- The attempt a request was told of is the next on the committed row. -/
theorem counted_reach (h : store.Reach ok (System.start d x fun i => (q i).call S) s)
    (hid : id ∈ d.otpIds) {otp : OtpCode} {n : ℤ} (hg : phaseOf S q s i = .counted otp n)
    (ho : otp.id = id) : n = s.db.attempts id + 1 := by
  refine h.invariant_each (P := fun i s => ∀ otp n, phaseOf S q s i = .counted otp n →
      otp.id = id → n = s.db.attempts id + 1) (fun i otp n hg => by cases hg)
    (fun s s' i hr _ _ hs otp n hg ho => ?_) (fun s s' i j hr ih _ hs hj otp n hg ho => ?_)
    i otp n hg ho
  · cases stepped (follows_reach hr i) hs with
    | call c k _ hc hm hdb _ =>
      rw [hg] at hm
      obtain ⟨hw, hn⟩ := hm.to_counted (d := store.view s.db (s.thread i).log) rfl
      have hview := attempts_view (logged hr id i).keeps (d := s.db) (by rwa [otpIds_reach hr])
      rw [(logged hr id i).bumps, hw] at hview
      rw [hdb, hn, ho, hview]
      simp [Phase.isCounting]
    | commit hm hdb _ =>
      have hcount := (@Moves.of_commit _ _ _ _ id hm).1
      rw [hg] at hcount
      exact absurd hcount (by simp [Phase.isCounting, ho])
    | finish hph hset hdb =>
      have hcount := (hset id).1
      rw [← hph, hg] at hcount
      exact absurd hcount (by simp [Phase.isCounting, ho])
  · -- the attempt of another request on the row would be locked
    rw [(phaseOf_ne hs hj).1] at hg
    have hcount : (phaseOf S q s j).isCounting id = true := by
      rw [hg]
      exact decide_eq_true ho
    have hother : (phaseOf S q s i).isCounting id = false := by
      by_contra hc
      exact hj (counting_unique hr hcount (by simpa using hc))
    rw [attempts_step_of_not_isCounting hr hid hs hother]
    exact ih otp n hg ho

/-- A request that holds the row consumed has found it so, or its log says so. -/
theorem consuming_reach (h : store.Reach ok (System.start d x fun i => (q i).call S) s)
    (hg : (phaseOf S q s i).isConsuming id = true) :
    s.db.isActive id = false ∨ ∃ now, Write.consumeOtp id now ∈ (s.thread i).log := by
  refine h.invariant_each (P := fun i s => (phaseOf S q s i).isConsuming id = true →
      s.db.isActive id = false ∨ ∃ now, Write.consumeOtp id now ∈ (s.thread i).log)
    (fun i hg => by cases hg) (fun s s' i hr ih _ hs hg => ?_)
    (fun s s' i j hr ih _ hs hj hg => ?_) i hg
  · cases stepped (follows_reach hr i) hs with
    | call c k _ hc hm hdb hlog =>
      rw [hdb, hlog]
      rcases hm.isConsuming hg with hg | ⟨he, now, rfl⟩
      · refine (ih i hg).imp_right fun ⟨now, hm⟩ => ⟨now, List.mem_append_left _ hm⟩
      · have hview := isActive_view (d := s.db) (logged hr id i).keeps ((logged hr id i).early he)
        cases ha : s.db.isActive id with
        | false => exact .inl rfl
        | true =>
          rw [ha] at hview
          have hw : (store.answer s i (.markConsumed id now)).2.1 = [.consumeOtp id now] :=
            Db.consumption_of_isActive _ hview
          refine .inr ⟨now, List.mem_append_right _ ?_⟩
          rw [hw]
          exact List.mem_singleton_self _
    | commit hm _ _ =>
      rw [hm.of_commit.2] at hg
      cases hg
    | finish hph hset _ =>
      rw [hph, (hset id).2] at hg
      cases hg
  · rw [(phaseOf_ne hs hj).1] at hg
    rw [(phaseOf_ne (S := S) (q := q) hs hj).2]
    exact (ih hg).imp_left (isActive_step hr hs)

/-- When it commits, the row is consumed. -/
theorem consuming_view (h : store.Reach ok (System.start d x fun i => (q i).call S) s)
    (hg : (phaseOf S q s i).isConsuming id = true) :
    (store.view s.db (s.thread i).log).isActive id = false :=
  not_isActive_view (logged h id i).keeps (consuming_reach h hg)

/-- The row that opened a session is consumed. -/
theorem served_reach (h : store.Reach ok (System.start d x fun i => (q i).call S) s)
    (hg : (phaseOf S q s i).isServed id = true) : s.db.isActive id = false := by
  refine h.invariant_each (P := fun i s => (phaseOf S q s i).isServed id = true →
      s.db.isActive id = false) (fun i hg => by cases hg) (fun s s' i hr ih _ hs hg => ?_)
    (fun s s' i j hr ih _ hs hj hg => ?_) i hg
  · cases stepped (follows_reach hr i) hs with
    | call c k _ hc hm hdb _ =>
      rw [hdb]
      rcases hm.isServed hg with hg | ⟨rfl, -⟩
      · exact ih i hg
      · exact absurd rfl hc
    | commit hm hdb _ =>
      rcases hm.isServed hg with hg | ⟨-, hg⟩
      · exact isActive_step hr hs (ih i hg)
      · rw [hdb]
        exact consuming_view hr hg
    | finish hph _ _ =>
      rw [hph] at hg
      exact isActive_step hr hs (ih i hg)
  · rw [(phaseOf_ne hs hj).1] at hg
    exact isActive_step hr hs (ih hg)

/-- A row that refused a request and is not burnt has attempts left. -/
theorem refused_reach (h : store.Reach ok (System.start d x fun i => (q i).call S) s)
    (hid : id ∈ d.otpIds) (hg : (phaseOf S q s i).isRefused id = true)
    (ha : s.db.isActive id = true) : s.db.attempts id < S.settings.otpMaxAttempts := by
  refine h.invariant (P := fun s => ∀ i, (phaseOf S q s i).isRefused id = true →
      s.db.isActive id = true → s.db.attempts id < S.settings.otpMaxAttempts)
    (fun i hg => ?_) (fun s s' i hr ih _ hs j hg ha => ?_) i hg ha
  · cases hg
  have ha' : s.db.isActive id = true := by
    cases hd : s.db.isActive id with
    | true => rfl
    | false =>
      rw [isActive_step hr hs hd] at ha
      cases ha
  by_cases hc : (phaseOf S q s i).isCounting id = true
  · cases stepped (follows_reach hr i) hs with
    | call c k _ hcommit hm hdb _ =>
      rw [hdb]
      by_cases hj : j = i
      · subst hj
        rw [(hm.isRefused hcommit).1] at hg
        cases hg
      · rw [(phaseOf_ne hs hj).1] at hg
        exact ih j hg ha'
    | commit hm hdb _ =>
      rcases hm.counting_commit hc with ⟨otp, n, hg, ho, hn⟩ | hg
      · have hview := attempts_view (logged hr id i).keeps (d := s.db) (by rwa [otpIds_reach hr])
        rw [(logged hr id i).bumps, hc] at hview
        have hnext := counted_reach hr hid hg ho
        rw [hdb, hview]
        simp only [Bool.toNat_true, Nat.cast_one]
        omega
      · rw [hdb, consuming_view hr hg] at ha
        cases ha
    | finish _ hset _ =>
      rw [(hset id).1] at hc
      cases hc
  · rw [attempts_step_of_not_isCounting hr hid hs (by simpa using hc)]
    refine ih j ?_ ha'
    by_cases hj : j = i
    · subst hj
      cases stepped (follows_reach hr j) hs with
      | call c k _ hcommit hm _ _ =>
        rw [(hm.isRefused hcommit).1] at hg
        cases hg
      | commit hm _ _ =>
        have hrefused := @Moves.isRefused_of_commit _ _ _ _ id hm
        rw [hg, show (phaseOf S q s j).isCounting id = false by simpa using hc] at hrefused
        cases hold : (phaseOf S q s j).isRefused id with
        | true => rfl
        | false => rw [hold] at hrefused; cases hrefused
      | finish hph _ _ => rwa [hph] at hg
    · rwa [(phaseOf_ne hs hj).1] at hg

/-- Did the request compare a wrong code with the row `id` on this answer? -/
def errs (S : Env) (q : VerifyOtp) (id : Uuid) : Answered Call Call.Resp → Bool
  | ⟨.findLatestActive _, some otp⟩ =>
    decide (otp.id = id) && !otp.isExpired q.now && !verifyOtpCode S q.code otp.codeHash
  | _ => false

theorem Moves.isErring {q : VerifyOtp} {g g' : Phase} {c : Call} {r : c.Resp}
    (h : Moves S q g c r g') {d : Db} {x : Outside} (hr : r = (exec c d x).1)
    (hnext : ∀ otp, g = .wrong otp → otp.id = id → (d.nextAttempt id).isSome = true)
    (hg : g.isErring id = true ∨ q.errs S id ⟨c, r⟩ = true) : g'.isErring id = true := by
  cases h with
  | @wrong phone otp =>
    rcases hg with hg | hg
    · cases hg
    · simp only [errs, Bool.and_eq_true] at hg
      exact hg.1.1
  | @right phone otp _ _ hv =>
    rcases hg with hg | hg
    · cases hg
    · rw [errs, hv] at hg
      simp at hg
  | @expired phone otp _ he =>
    rcases hg with hg | hg
    · cases hg
    · rw [errs, he] at hg
      simp at hg
  | @lost otp =>
    rcases hg with hg | hg
    · obtain rfl : otp.id = id := of_decide_eq_true hg
      obtain ⟨n, hn⟩ := Option.isSome_iff_exists.mp (hnext otp rfl rfl)
      simp only [exec, hn] at hr
      cases hr
    · cases hg
  | count | burn | refuse | refuseBurnt =>
    rcases hg with hg | hg
    · exact hg
    · cases hg
  | _ =>
    rcases hg with hg | hg
    · cases hg
    · cases hg

end VerifyOtp

open VerifyOtp

/-! ### The ceiling -/

section Ceiling

variable [DecidableEq ι] [Fintype ι]

/-- How many wrong codes have been compared with the row `id`. -/
def wrongGuesses (S : Env) (q : ι → VerifyOtp) (s : InFlight ι) (id : Uuid) : ℕ :=
  tally fun i => (s.thread i).trace.any ((q i).errs S id)

/-- How many requests that compared a code with the row have their
transaction open. -/
def atWork (S : Env) (q : ι → VerifyOtp) (s : InFlight ι) (id : Uuid) : ℕ :=
  tally fun i => (phaseOf S q s i).isOpen id

/-- The attempts counted on a row and the requests at work on it leave room for one
more, below the ceiling or with nobody at work, and in the column. -/
def HasRoom (S : Env) (q : ι → VerifyOtp) (s : InFlight ι) (otp : OtpCode) : Prop :=
  otp.attempts + atWork S q s otp.id < maxSmallInteger ∧
    (atWork S q s otp.id = 0 ∨ otp.attempts + atWork S q s otp.id < S.settings.otpMaxAttempts)

instance (q : ι → VerifyOtp) (s : InFlight ι) (otp : OtpCode) : Decidable (HasRoom S q s otp) := by
  unfold HasRoom
  infer_instance

/-- A row that is handed out has room. -/
def HandsOutWithRoom (S : Env) (q : ι → VerifyOtp) (s : InFlight ι) (i : ι) : Prop :=
  match (s.thread i).prog with
  | .call (.findLatestActive phone) _ =>
    match (store.view s.db (s.thread i).log).findLatestActive phone with
    | some otp => otp.isExpired (q i).now = false → HasRoom S q s otp
    | none => True
  | _ => True

/-- `HandsOutWithRoom`, as a test. -/
def handsOut (S : Env) (q : ι → VerifyOtp) (s : InFlight ι) (i : ι) : Bool :=
  match (s.thread i).prog with
  | .call (.findLatestActive phone) _ =>
    match (store.view s.db (s.thread i).log).findLatestActive phone with
    | some otp => decide (otp.isExpired (q i).now = false → HasRoom S q s otp)
    | none => true
  | _ => true

omit [DecidableEq ι] in
theorem handsOut_iff (S : Env) (q : ι → VerifyOtp) (s : InFlight ι) (i : ι) :
    handsOut S q s i = true ↔ HandsOutWithRoom S q s i := by
  unfold handsOut HandsOutWithRoom
  split
  · split <;> simp only [decide_eq_true_eq]
  · simp only

instance (q : ι → VerifyOtp) (s : InFlight ι) (i : ι) : Decidable (HandsOutWithRoom S q s i) :=
  decidable_of_iff _ (handsOut_iff S q s i)

variable {q : ι → VerifyOtp} {d : Db} {x : Outside} {s : InFlight ι} {id : Uuid}

/-- The row handed out is the committed one. -/
theorem handed_out {ok : InFlight ι → ι → Prop}
    (h : store.Reach ok (System.start d x fun i => (q i).call S) s) (hids : d.otpIds.Nodup) {i : ι}
    (hg : phaseOf S q s i = .start) {phone : String} {otp : OtpCode}
    (ho : (store.view s.db (s.thread i).log).findLatestActive phone = some otp) :
    s.db.isActive otp.id = true ∧ s.db.attempts otp.id = otp.attempts ∧ otp.id ∈ d.otpIds := by
  have hl := logged h otp.id i
  have hview : (store.view s.db (s.thread i).log).otpIds = d.otpIds := by
    rw [otpIds_view hl.keeps, otpIds_reach h]
  have hmem := List.mem_filter.mp (List.argmax_mem (Option.mem_def.mpr ho))
  have hotp := Db.otp_of_mem (by rwa [hview]) hmem.1
  have hid : otp.id ∈ d.otpIds := hview ▸ List.mem_map_of_mem hmem.1
  refine ⟨?_, ?_, hid⟩
  · rw [← isActive_view hl.keeps (hl.early (by rw [hg]; rfl)), Db.isActive, hotp]
    have hc := hmem.2
    rw [Bool.and_eq_true] at hc
    exact hc.2
  · have hatt := attempts_view hl.keeps (d := s.db) (by rwa [otpIds_reach h])
    rw [hl.bumps, hg, Db.attempts, hotp] at hatt
    simpa [Phase.isCounting] using hatt.symm

/-- While the row is there to be handed out, those it was given to are at
work on it or refused by it. -/
theorem tally_isOn {ok : InFlight ι → ι → Prop}
    (h : store.Reach ok (System.start d x fun i => (q i).call S) s)
    (ha : s.db.isActive id = true) : (tally fun i => (phaseOf S q s i).isOn id) =
      atWork S q s id + tally fun i => (phaseOf S q s i).isRefused id := by
  have hnone : ∀ i, (phaseOf S q s i).isServed id = false := by
    intro i
    by_contra hs
    rw [served_reach h (by simpa using hs)] at ha
    cases ha
  refine tally_add fun i => ?_
  rw [Phase.isOn_split, hnone i]
  simp

/-- A request gets the row by reading it. -/
theorem given_by {ok : InFlight ι → ι → Prop}
    (h : store.Reach ok (System.start d x fun i => (q i).call S) s) {s' : InFlight ι} {i : ι}
    (hs : store.Step s i s') (hold : (phaseOf S q s i).isOn id = false)
    (hnew : (phaseOf S q s' i).isOn id = true) :
    ∃ phone otp, ∃ k : Option OtpCode → Cmd Response, phaseOf S q s i = .start ∧
      (s.thread i).prog = .call (.findLatestActive phone) k ∧
      (store.view s.db (s.thread i).log).findLatestActive phone = some otp ∧ otp.id = id ∧
      otp.isExpired (q i).now = false := by
  cases stepped (follows_reach h i) hs with
  | call c k hp _ hm _ _ =>
    rcases hm.isOn rfl hnew with hon | ⟨phone, otp, hg, rfl, ho, hoid, he⟩
    · rw [hold] at hon
      cases hon
    · exact ⟨phone, otp, k, hg, hp, ho, hoid, he⟩
  | commit hm _ _ =>
    rcases hm.isOn (d := s.db) (x := s.outside) rfl hnew with hon | ⟨_, _, -, hc, -⟩
    · rw [hold] at hon
      cases hon
    · cases hc
  | finish hph _ _ =>
    rw [hph, hold] at hnew
    cases hnew

omit [DecidableEq ι] in
theorem room_of_handsOut {i : ι} (ho : HandsOutWithRoom S q s i) {phone : String}
    {k : Option OtpCode → Cmd Response} (hp : (s.thread i).prog = .call (.findLatestActive phone) k)
    {otp : OtpCode} (hl : (store.view s.db (s.thread i).log).findLatestActive phone = some otp)
    (he : otp.isExpired (q i).now = false) : HasRoom S q s otp := by
  unfold HandsOutWithRoom at ho
  rw [hp] at ho
  simp only [hl] at ho
  exact ho he

/-- A request that is refused by the row, or has a session by it, is done with it. -/
theorem settled_step {ok : InFlight ι → ι → Prop}
    (h : store.Reach ok (System.start d x fun i => (q i).call S) s) {s' : InFlight ι} {i : ι}
    (hs : store.Step s i s') (id : Uuid) :
    ((phaseOf S q s i).isRefused id).toNat ≤ ((phaseOf S q s' i).isRefused id).toNat ∧
      ((phaseOf S q s i).isServed id).toNat ≤ ((phaseOf S q s' i).isServed id).toNat := by
  cases stepped (follows_reach h i) hs with
  | call c k _ hc hm _ _ =>
    rw [(hm.isRefused hc).2]
    exact ⟨Nat.zero_le _, hm.isServed_le id⟩
  | commit hm _ _ =>
    rw [hm.isRefused_of_commit]
    exact ⟨Nat.le_add_right _ _, hm.isServed_le id⟩
  | finish hph _ _ => exact hph ▸ ⟨le_rfl, le_rfl⟩

/-- The attempts counted on a row that somebody is at work on, and those at work, fit the
column. -/
theorem attempts_fit (hids : d.otpIds.Nodup) (hid : id ∈ d.otpIds)
    (h : store.Reach (HandsOutWithRoom S q) (System.start d x fun i => (q i).call S) s) :
    atWork S q s id = 0 ∨ s.db.attempts id + atWork S q s id ≤ maxSmallInteger := by
  refine h.invariant
    (P := fun s => atWork S q s id = 0 ∨ s.db.attempts id + atWork S q s id ≤ maxSmallInteger)
    (.inl (Finset.card_eq_zero.mpr (Finset.filter_eq_empty_iff.mpr fun _ _ => Bool.false_ne_true)))
    fun s s' i hr ih ho hs => ?_
  have hchange := tally_change (P := fun j => (phaseOf S q s j).isOpen id)
    (Q := fun j => (phaseOf S q s' j).isOpen id) i fun j hj => by rw [(phaseOf_ne hs hj).1]
  have hattempts := attempts_step hr hid hs
  have hsplit := (phaseOf S q s i).isOn_split id
  have hsplit' := (phaseOf S q s' i).isOn_split id
  obtain ⟨hrefused, hserved⟩ := settled_step hr hs id
  unfold atWork at ih ⊢
  cases hnew : (phaseOf S q s' i).isOn id with
  | false =>
    rw [hnew, Bool.toNat_false] at hsplit'
    omega
  | true =>
    cases hold : (phaseOf S q s i).isOn id with
    | true =>
      rw [hold, Bool.toNat_true] at hsplit
      rw [hnew, Bool.toNat_true] at hsplit'
      omega
    | false =>
      -- the row is handed out
      obtain ⟨phone, otp, k, hg, hp, hlatest, rfl, he⟩ := given_by hr hs hold hnew
      obtain ⟨-, hsame, -⟩ := handed_out hr hids hg hlatest
      have hroom := (room_of_handsOut ho hp hlatest he).1
      unfold atWork at hroom
      rw [hold, Bool.toNat_false] at hsplit
      rw [hnew, Bool.toNat_true] at hsplit'
      omega

/-- A wrong code that was compared with the row finds its counter below the largest value. -/
theorem nextAttempt_of_wrong (hids : d.otpIds.Nodup) (hid : id ∈ d.otpIds)
    (h : store.Reach (HandsOutWithRoom S q) (System.start d x fun i => (q i).call S) s) {i : ι}
    {otp : OtpCode} (hg : phaseOf S q s i = .wrong otp) (ho : otp.id = id) :
    ((store.view s.db (s.thread i).log).nextAttempt id).isSome = true := by
  have hl := logged h id i
  have hmem : id ∈ s.db.otpIds := by rwa [otpIds_reach h]
  have hview := attempts_view hl.keeps (d := s.db) hmem
  rw [hl.bumps, hg, show (Phase.wrong otp).isCounting id = false from rfl, Bool.toNat_false] at hview
  have hopen : (phaseOf S q s i).isOpen id = true := by
    rw [hg]
    exact decide_eq_true ho
  have hwork : 0 < atWork S q s id := Finset.card_pos.mpr ⟨i, by simpa using hopen⟩
  refine Db.nextAttempt_isSome (by rwa [otpIds_view hl.keeps]) ?_
  rcases attempts_fit hids hid h with hnone | hfit
  · omega
  · omega

/-- A request that compared a wrong code with the row stays marked by it. -/
theorem errs_reach (hids : d.otpIds.Nodup) (hid : id ∈ d.otpIds)
    (h : store.Reach (HandsOutWithRoom S q) (System.start d x fun i => (q i).call S) s) {i : ι}
    (ht : (s.thread i).trace.any ((q i).errs S id) = true) :
    (phaseOf S q s i).isErring id = true := by
  refine h.invariant_each (P := fun i s => (s.thread i).trace.any ((q i).errs S id) = true →
      (phaseOf S q s i).isErring id = true) (fun i ht => by cases ht)
    (fun s s' i hr ih _ hs ht => ?_) (fun s s' i j _ ih _ hs hj ht => ?_) i ht
  · have hf := follows_reach hr i
    cases hs.advance with
    | answered hp _ htrace =>
      rw [hp] at hf
      rw [htrace, List.any_append, Bool.or_eq_true] at ht
      have hnext : phaseOf S q s' i = ((q i).monitor S).next (phaseOf S q s i) _ _ :=
        phase_of_answer htrace
      rw [hnext]
      exact (moves S hf.1 _).isErring rfl (fun otp hg ho => nextAttempt_of_wrong hids hid hr hg ho)
        (ht.imp (ih i) fun h => by simpa using h)
    | finished _ _ htrace =>
      rw [htrace] at ht
      rw [show phaseOf S q s' i = phaseOf S q s i from phase_of_trace htrace]
      exact ih i ht
  · rw [(phaseOf_ne hs hj).1]
    rw [(phaseOf_ne (S := S) (q := q) hs hj).2] at ht
    exact ih ht

/-- When the row is handed out, it has been given to fewer than
`otp_max_attempts` requests. -/
theorem room_to_give {ok : InFlight ι → ι → Prop} (hmax : 1 ≤ S.settings.otpMaxAttempts)
    (hids : d.otpIds.Nodup) (hid : id ∈ d.otpIds) (hatt : 0 ≤ d.attempts id)
    (h : store.Reach ok (System.start d x fun i => (q i).call S) s) {s' : InFlight ι} {i : ι}
    (ho : HandsOutWithRoom S q s i) (hs : store.Step s i s')
    (hold : (phaseOf S q s i).isOn id = false) (hnew : (phaseOf S q s' i).isOn id = true) :
    (tally fun j => (phaseOf S q s j).isOn id : ℤ) < S.settings.otpMaxAttempts := by
  obtain ⟨phone, otp, k, hg, hp, hlatest, rfl, he⟩ := given_by h hs hold hnew
  obtain ⟨ha, hsame, -⟩ := handed_out h hids hg hlatest
  have htotal := tally_isOn h ha
  have hattempts := attempts_reach h hid
  obtain ⟨-, halone | hroom⟩ := room_of_handsOut ho hp hlatest he
  · by_cases hrefused : ∃ j, (phaseOf S q s j).isRefused otp.id = true
    · obtain ⟨j, hj⟩ := hrefused
      have hleft := refused_reach h hid hj ha
      omega
    · have hzero : (tally fun j => (phaseOf S q s j).isRefused otp.id) = 0 := by
        rw [tally, Finset.card_eq_zero, Finset.filter_eq_empty_iff]
        exact fun j _ hj => hrefused ⟨j, hj⟩
      omega
  · omega

/-- **Ceiling.** The row is given to at most `otp_max_attempts` requests. -/
theorem given_bounded (hmax : 1 ≤ S.settings.otpMaxAttempts) (hids : d.otpIds.Nodup)
    (hid : id ∈ d.otpIds) (hatt : 0 ≤ d.attempts id)
    (h : store.Reach (HandsOutWithRoom S q) (System.start d x fun i => (q i).call S) s) :
    (tally fun i => (phaseOf S q s i).isOn id : ℤ) ≤ S.settings.otpMaxAttempts := by
  refine h.invariant
    (P := fun s => (tally fun i => (phaseOf S q s i).isOn id : ℤ) ≤ S.settings.otpMaxAttempts)
    ?_ fun s s' i hr ih ho hs => ?_
  · change (tally fun _ : ι => false : ℤ) ≤ _
    have hnone : tally (fun _ : ι => false) = 0 := by simp [tally]
    omega
  have hchange := tally_change (P := fun j => (phaseOf S q s j).isOn id)
    (Q := fun j => (phaseOf S q s' j).isOn id) i fun j hj => by rw [(phaseOf_ne hs hj).1]
  cases hnew : (phaseOf S q s' i).isOn id with
  | false =>
    rw [hnew, Bool.toNat_false] at hchange
    omega
  | true =>
    cases hold : (phaseOf S q s i).isOn id with
    | true =>
      rw [hnew, hold] at hchange
      omega
    | false =>
      have hroom := room_to_give hmax hids hid hatt hr ho hs hold hnew
      rw [hnew, hold, Bool.toNat_true, Bool.toNat_false] at hchange
      omega

/-- **Guesses bounded**, where the row is handed out with room: at most
`otp_max_attempts` wrong codes are compared with it, and fewer if one of the
requests it was given to succeeds. -/
theorem guesses_bounded (hmax : 1 ≤ S.settings.otpMaxAttempts) (hids : d.otpIds.Nodup)
    (hid : id ∈ d.otpIds) (hatt : 0 ≤ d.attempts id)
    (h : store.Reach (HandsOutWithRoom S q) (System.start d x fun i => (q i).call S) s) :
    wrongGuesses S q s id ≤ S.settings.otpMaxAttempts ∧
      ∀ i phone otp a,
        (⟨.findLatestActive phone, some otp⟩ : Answered Call Call.Resp) ∈ (s.thread i).trace →
        otp.id = id → (s.thread i).prog.outcome = some (.ok a) →
        wrongGuesses S q s id < S.settings.otpMaxAttempts := by
  have hgiven := given_bounded hmax hids hid hatt h
  have herrs : ∀ i, (s.thread i).trace.any ((q i).errs S id) = true →
      (phaseOf S q s i).isOn id = true := fun i ht =>
    Phase.isErring_isOn (errs_reach hids hid h ht)
  have hle : wrongGuesses S q s id ≤ tally fun i => (phaseOf S q s i).isOn id := tally_mono herrs
  refine ⟨by omega, fun i phone otp a ht hoid ha => ?_⟩
  have hconsumed : (phaseOf S q s i).HasConsumed id := by
    obtain ⟨otp', ho, hc⟩ := hasConsumed_of_ret h ha
    rcases otp_of_findLatestActive h ht with hg | hg
    · rw [hg] at ho
      obtain rfl := Option.some.inj ho
      rwa [← hoid]
    · rw [hg] at ho
      cases ho
  obtain ⟨hon, hnot⟩ := hconsumed.isOn
  have hright : (s.thread i).trace.any ((q i).errs S id) = false := by
    by_contra ht
    rw [errs_reach hids hid h (by simpa using ht)] at hnot
    cases hnot
  have hlt : wrongGuesses S q s id < tally fun i => (phaseOf S q s i).isOn id :=
    tally_lt herrs hright hon
  omega

/-! ### The race -/

/-- Six wrong codes and then the right one, for the same row. -/
def guessing (i : Fin 7) : VerifyOtp :=
  { phone := "+22507000001", code := if i = 6 then "1" else "9", deviceInfo := none, now := 5
    newTokenId := 2 + i, newRefresh := "a" }

/-- One after the other: the fifth burns the code. -/
theorem guesses_bounded_serial : ∃ s : InFlight (Fin 7),
    store.Reach (HandsOutWithRoom plainEnv guessing)
      (System.start oneCode {} fun i => (guessing i).call plainEnv) s ∧
    (s.thread 4).prog.outcome = some (.error (.api (otpTooManyAttempts 5))) ∧
    (s.thread 6).prog.outcome = some (.error (.api (otpInvalid none))) ∧
    wrongGuesses plainEnv guessing s 1 = 5 ∧ wrongGuesses plainEnv guessing s 1 ≤ 5 := by
  have hrun : ((store.follow (HandsOutWithRoom plainEnv guessing)
      (System.start oneCode {} fun i => (guessing i).call plainEnv)
      [0, 0, 0, 1, 1, 1, 2, 2, 2, 3, 3, 3, 4, 4, 4, 4, 5, 6]).map fun s =>
        ((s.thread 4).prog.outcome, (s.thread 6).prog.outcome,
          wrongGuesses plainEnv guessing s 1)) =
      some (some (.error (.api (otpTooManyAttempts 5))), some (.error (.api (otpInvalid none))),
        5) := by
    decide +kernel
  obtain ⟨s, hs, hp⟩ := Option.map_eq_some_iff.mp hrun
  simp only [Prod.mk.injEq] at hp
  obtain ⟨h4, h6, hw⟩ := hp
  have h := reach_of_follow hs
  have hbound : (wrongGuesses plainEnv guessing s 1 : ℤ) ≤ 5 :=
    (guesses_bounded (by decide) (by decide) (by decide) (by decide) h).1
  exact ⟨s, h, h4, h6, hw, by exact_mod_cast hbound⟩

/-- **Too many guesses.** All seven read the code before the first attempt
is counted: six wrong codes are compared with it, and the right one, which
comes last, opens a session by a code that is burnt. -/
theorem too_many_guesses : ∃ s : InFlight (Fin 7),
    store.Reach Any (System.start oneCode {} fun i => (guessing i).call plainEnv) s ∧
    wrongGuesses plainEnv guessing s 1 = 6 ∧ (plainEnv.settings.otpMaxAttempts = 5) ∧
    ((⟨.findLatestActive "+22507000001", some firstCode⟩ : Answered Call Call.Resp) ∈
      (s.thread 6).trace) ∧
    (s.thread 6).prog.outcome = some (.ok ((guessing 6).answer plainEnv
      { id := 7, phone := "+22507000001", status := .active })) := by
  have hrun : ((store.follow Any (System.start oneCode {} fun i => (guessing i).call plainEnv)
      ([0, 1, 2, 3, 4, 5, 6, 0, 0, 1, 1, 2, 2, 3, 3, 4, 4, 4, 5, 5, 5] ++
        List.replicate 5 6)).map fun s =>
        (wrongGuesses plainEnv guessing s 1, (s.thread 6).trace.head?,
          (s.thread 6).prog.outcome)) =
      some (6, some ⟨.findLatestActive "+22507000001", some firstCode⟩,
        some (.ok ((guessing 6).answer plainEnv
          { id := 7, phone := "+22507000001", status := .active }))) := by
    decide +kernel
  obtain ⟨s, hs, hp⟩ := Option.map_eq_some_iff.mp hrun
  simp only [Prod.mk.injEq] at hp
  exact ⟨s, reach_of_follow hs, hp.1, rfl, List.mem_of_head? hp.2.1, hp.2.2⟩

end Ceiling

end DiddiFreeID
