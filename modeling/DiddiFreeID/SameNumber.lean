/-
# One number, many registrations

`RegisterUser` looks for the phone, then inserts the account. A request that
finds no account while another one is between its read and its commit goes on
to the insert: it waits for the index entry of the phone, the other commits,
and the insert is refused by the database, which nothing turns into the
documented conflict (`registration_race`). Where no request reads between
another one's read and its end, one registers the number and the others are
told so (`one_registration`).

Key definitions: `ReadsAlone`, `OneRegistration`, `Registering`.
Key theorems: `Registering.step`, `one_registration`.
-/
import DiddiFreeID.Runs
import Mathlib.Data.Fintype.Fin

namespace DiddiFreeID

open Transact Engine

namespace RegisterUser

/-- What follows when the phone has no account. -/
def saving (q : RegisterUser) (phone : String) : Cmd Response := do
  saveUser (q.newUser phone) q.now
  commit
  return .registered q.newId phone .pendingVerification

/-- The request, its number accepted as `phone`. -/
def reading (q : RegisterUser) (phone : String) : Cmd Response := do
  match ← findByPhone phone with
  | some _ => raiseError phoneAlreadyRegistered
  | none => q.saving phone

theorem call_eq {q : RegisterUser} {phone : String} (h : validatePhone q.phone = .ok phone) :
    q.call = q.reading phone := by
  simp only [call, h, check_ok_bind]
  rfl

/-- The row of the new account. -/
def row (q : RegisterUser) (phone : String) : User :=
  { q.newUser phone with updatedAt := some q.now }

end RegisterUser

open RegisterUser

variable {ι : Type}

/-- A request reads the number only while every other one has not started or
has ended. -/
def ReadsAlone (s : InFlight ι) (i : ι) : Prop :=
  (s.thread i).trace = [] → ∀ j, j ≠ i → (s.thread j).trace = [] ∨ (s.thread j).prog.ended = true

instance [DecidableEq ι] [Fintype ι] (s : InFlight ι) (i : ι) : Decidable (ReadsAlone s i) :=
  inferInstanceAs (Decidable (_ → ∀ _, _ → _ ∨ _))

/-- One request registers the number, every other one is answered that it is
registered, and the number has one account. -/
structure OneRegistration (q : ι → RegisterUser) (phone : String) (s : InFlight ι) : Prop where
  answers : ∀ i o, (s.thread i).prog.outcome = some o →
    o = .ok (.registered (q i).newId phone .pendingVerification) ∨
      o = .error (.api phoneAlreadyRegistered)
  one : ∀ i j a b, (s.thread i).prog.outcome = some (.ok a) →
    (s.thread j).prog.outcome = some (.ok b) → i = j
  winner : (∀ i, (s.thread i).prog.ended = true) →
    ∃ i, (s.thread i).prog.outcome =
        some (.ok (.registered (q i).newId phone .pendingVerification)) ∧
      (s.db.users.filter fun u => u.phone = phone).length = 1

/-! ### Stages -/

section Stages

variable (q : ι → RegisterUser) (phone : String) (d : Db) (s : InFlight ι) (i : ι)

/-- The request has not started. -/
structure Waits : Prop where
  prog : (s.thread i).prog = (q i).reading phone
  log : (s.thread i).log = []
  trace : (s.thread i).trace = []

/-- The request has read, and goes on with `p` and these uncommitted writes. -/
structure Stands (p : Cmd Response) (log : List Write) : Prop where
  prog : (s.thread i).prog = p
  log : (s.thread i).log = log
  trace : (s.thread i).trace ≠ []

/-- How far the registrations have come: nobody has read; one request is on
its way to the commit and nobody else has read; or one has registered, and
the others have not started or were refused. -/
inductive Registering : Prop
  | unread : s.db = d → (∀ j, Waits q phone s j) → Registering
  | saves (i : ι) : s.db = d → (∀ j, j ≠ i → Waits q phone s j) →
      Stands s i ((q i).saving phone) [] → Registering
  | commits (i : ι) : s.db = d → (∀ j, j ≠ i → Waits q phone s j) →
      Stands s i (.call .commit fun _ => .ret (.registered (q i).newId phone .pendingVerification))
        [.insertUser ((q i).row phone)] → Registering
  | registered (i : ι) : s.db = Write.apply d (.insertUser ((q i).row phone)) →
      (∀ j, j ≠ i → Waits q phone s j ∨ Stands s j (.raise (.api phoneAlreadyRegistered)) []) →
      Stands s i (.ret (.registered (q i).newId phone .pendingVerification)) [] → Registering

end Stages

variable {q : ι → RegisterUser} {phone : String} {d : Db} {x : Outside} {s s' : InFlight ι} {i j : ι}

/-! ### One step of a request -/

section Step

theorem Waits.next (hw : Waits q phone s i) : (s.thread i).prog =
    .call (.findByPhone phone) fun found : Option User => match found with
      | some _ => raiseError phoneAlreadyRegistered
      | none => (q i).saving phone := hw.prog

theorem Waits.outcome (hw : Waits q phone s i) : (s.thread i).prog.outcome = none := by
  rw [hw.next]
  rfl

theorem Waits.of_thread_eq (hw : Waits q phone s j) (h : s'.thread j = s.thread j) :
    Waits q phone s' j :=
  ⟨by rw [h, hw.prog], by rw [h, hw.log], by rw [h, hw.trace]⟩

theorem Stands.of_thread_eq {p : Cmd Response} {log : List Write} (hj : Stands s j p log)
    (h : s'.thread j = s.thread j) : Stands s' j p log :=
  ⟨by rw [h, hj.prog], by rw [h, hj.log], by rw [h]; exact hj.trace⟩

variable [DecidableEq ι]

/-- The first step: it reads, and goes on by what it found. -/
theorem Waits.step (hw : Waits q phone s i) (hs : store.Step s i s') :
    s'.db = s.db ∧ Stands s' i (match s.db.findByPhone phone with
      | some _ => raiseError phoneAlreadyRegistered
      | none => (q i).saving phone) [] := by
  have hview : store.view s.db (s.thread i).log = s.db := by rw [hw.log, view_nil]
  rw [hs.eq_called hw.next rfl]
  refine ⟨rfl, ?_, ?_, ?_⟩
  · rw [called_thread_self]
    simp only [answer, hview]
    rfl
  · rw [called_thread_self, hw.log]
    rfl
  · rw [called_thread_self]
    simp

/-- The insert of a new number. -/
theorem Stands.saves_step (hi : Stands s i ((q i).saving phone) [])
    (hfresh : s.db.findById (q i).newId = none) (hnone : s.db.findByPhone phone = none)
    (hs : store.Step s i s') : s'.db = s.db ∧ Stands s' i
      (.call .commit fun _ => .ret (.registered (q i).newId phone .pendingVerification))
      [.insertUser ((q i).row phone)] := by
  have hsave : s.db.saveUser ((q i).newUser phone) (q i).now =
      (true, [.insertUser ((q i).row phone)]) := by
    simp only [Db.saveUser, newUser, hfresh, hnone, Option.getD]
    rfl
  have hview : store.view s.db (s.thread i).log = s.db := by rw [hi.log, view_nil]
  have hnext : (s.thread i).prog = .call (.saveUser ((q i).newUser phone) (q i).now)
      fun saved : Bool => if saved then
        .call .commit fun _ => .ret (.registered (q i).newId phone .pendingVerification)
      else .raise .database := by
    rw [hi.prog, saving, saveUser_bind]
    rfl
  have hanswer : store.answer s i (.saveUser ((q i).newUser phone) (q i).now) =
      (true, [.insertUser ((q i).row phone)], s.outside) := by
    simp only [answer, hview, store_exec, exec, hsave]
  rw [hs.eq_called hnext rfl]
  refine ⟨rfl, ?_, ?_, ?_⟩
  · rw [called_thread_self, hanswer]
    rfl
  · rw [called_thread_self, hanswer, hi.log]
    rfl
  · rw [called_thread_self]
    simp

theorem Stands.commits_step {a : Response} {w : Write}
    (hi : Stands s i (.call .commit fun _ => .ret a) [w]) (hs : store.Step s i s') :
    s'.db = Write.apply s.db w ∧ Stands s' i (.ret a) [] := by
  rw [hs.eq_committed hi.prog rfl]
  refine ⟨?_, ?_, ?_, ?_⟩
  · rw [committed_db, hi.log]
    rfl
  · rw [committed_thread_self]
  · rw [committed_thread_self]
  · rw [committed_thread_self]
    simp

/-- A request that has ended with nothing uncommitted stays as it is. -/
theorem Stands.ended_step {p : Cmd Response} (hi : Stands s i p []) (hp : p.ended = true)
    (hs : store.Step s i s') : s'.db = s.db ∧ Stands s' i p [] := by
  cases hs with
  | call hcall | commit hcall =>
    rw [hi.prog] at hcall
    subst hcall
    cases hp
  | close hret =>
    refine ⟨?_, ?_, ?_, ?_⟩
    · rw [closed_db, hi.log, view_nil]
    · rw [closed_thread_self]
      exact hi.prog
    · rw [closed_thread_self]
    · rw [closed_thread_self]
      exact hi.trace
  | abort hraise =>
    refine ⟨rfl, ?_, ?_, ?_⟩
    · rw [rolledBack_thread_self]
      exact hi.prog
    · rw [rolledBack_thread_self]
    · rw [rolledBack_thread_self]
      exact hi.trace

end Step

/-! ### Runs -/

variable [DecidableEq ι]

/-- While one is on the way to the commit and the others wait, it is its turn. -/
theorem Stands.turn {p : Cmd Response} {log : List Write} (hj : Stands s j p log)
    (hp : p.ended = false) (hwaits : ∀ i, i ≠ j → Waits q phone s i) (ho : ReadsAlone s i) :
    j = i := by
  by_contra hne
  rcases ho (hwaits i (Ne.symm hne)).trace j hne with htrace | hended
  · exact hj.trace htrace
  · rw [hj.prog, hp] at hended
    cases hended

omit [DecidableEq ι] in
/-- The account of the one that registered is found. -/
theorem findByPhone_registered (hnone : d.findByPhone phone = none) (i : ι) :
    (Write.apply d (.insertUser ((q i).row phone))).findByPhone phone = some ((q i).row phone) := by
  have hsame : ((q i).row phone).phone = phone := rfl
  have hold : (d.users.find? fun u => u.phone = phone) = none := hnone
  rw [Db.findByPhone, Write.apply, List.find?_append, hold]
  simp [hsame]

/-- **Step.** The registrations come further, or stay where they are. -/
theorem Registering.step (hnone : d.findByPhone phone = none)
    (hfresh : ∀ i, d.findById (q i).newId = none) (ho : ReadsAlone s i)
    (hs : store.Step s i s') (h : Registering q phone d s) : Registering q phone d s' := by
  have hothers : ∀ j, j ≠ i → s'.thread j = s.thread j := fun j hj => hs.thread_ne hj
  cases h with
  | unread hdb hwaits =>
    obtain ⟨hdb', hi⟩ := (hwaits i).step hs
    rw [hdb, hnone] at hi
    exact .saves i (hdb'.trans hdb) (fun j hj => (hwaits j).of_thread_eq (hothers j hj)) hi
  | saves k hdb hwaits hk =>
    obtain rfl : k = i := hk.turn rfl hwaits ho
    obtain ⟨hdb', hk'⟩ := hk.saves_step (hdb ▸ hfresh k) (hdb ▸ hnone) hs
    exact .commits k (hdb'.trans hdb) (fun j hj => (hwaits j hj).of_thread_eq (hothers j hj)) hk'
  | commits k hdb hwaits hk =>
    obtain rfl : k = i := hk.turn rfl hwaits ho
    obtain ⟨hdb', hk'⟩ := hk.commits_step hs
    rw [hdb] at hdb'
    exact .registered k hdb'
      (fun j hj => .inl ((hwaits j hj).of_thread_eq (hothers j hj))) hk'
  | registered k hdb hrest hk =>
    have hfound : s.db.findByPhone phone = some ((q k).row phone) := by
      rw [hdb, findByPhone_registered hnone]
    have hrest' : ∀ j, j ≠ i → j ≠ k →
        Waits q phone s' j ∨ Stands s' j (.raise (.api phoneAlreadyRegistered)) [] :=
      fun j hj hjk => (hrest j hjk).imp (fun hw => hw.of_thread_eq (hothers j hj))
        fun hr => hr.of_thread_eq (hothers j hj)
    by_cases hki : k = i
    · subst hki
      obtain ⟨hdb', hk'⟩ := hk.ended_step rfl hs
      exact .registered k (hdb'.trans hdb) (fun j hj => hrest' j hj hj) hk'
    · have hk' := hk.of_thread_eq (hothers k hki)
      have hi : s'.db = s.db ∧ Stands s' i (.raise (.api phoneAlreadyRegistered)) [] := by
        rcases hrest i (Ne.symm hki) with hw | hr
        · -- it reads the account of the one that registered
          obtain ⟨hdb', hi⟩ := hw.step hs
          rw [hfound] at hi
          exact ⟨hdb', hi⟩
        · exact hr.ended_step rfl hs
      refine .registered k (hi.1.trans hdb) (fun j hjk => ?_) hk'
      by_cases hji : j = i
      · exact hji ▸ .inr hi.2
      · exact hrest' j hji hjk

theorem registering_reach [Fintype ι]
    (h : store.Reach ReadsAlone (System.start d x fun i => (q i).call) s)
    (hphone : ∀ i, validatePhone (q i).phone = .ok phone) (hnone : d.findByPhone phone = none)
    (hfresh : ∀ i, d.findById (q i).newId = none) : Registering q phone d s :=
  h.invariant (P := Registering q phone d)
    (.unread rfl fun i => ⟨call_eq (hphone i), rfl, rfl⟩)
    fun _ _ _ _ ih ho hs => ih.step hnone hfresh ho hs

omit [DecidableEq ι] in
/-- Nobody has ended, or one has registered and nobody else has done more than
be refused. -/
theorem Registering.outcomes (h : Registering q phone d s) :
    (∀ j, (s.thread j).prog.outcome = none) ∨
    ∃ i, s.db = Write.apply d (.insertUser ((q i).row phone)) ∧
      (s.thread i).prog.outcome =
        some (.ok (.registered (q i).newId phone .pendingVerification)) ∧
      ∀ j, j ≠ i → (s.thread j).prog.outcome = none ∨
        (s.thread j).prog.outcome = some (.error (.api phoneAlreadyRegistered)) := by
  have hbusy : ∀ i, (s.thread i).prog.outcome = none → (∀ j, j ≠ i → Waits q phone s j) →
      ∀ j, (s.thread j).prog.outcome = none := by
    intro i hi hwaits j
    by_cases hj : j = i
    · exact hj ▸ hi
    · exact (hwaits j hj).outcome
  cases h with
  | unread _ hwaits => exact .inl fun j => (hwaits j).outcome
  | saves i _ hwaits hi =>
    refine .inl (hbusy i ?_ hwaits)
    rw [hi.prog, saving, saveUser_bind]
    rfl
  | commits i _ hwaits hi =>
    refine .inl (hbusy i ?_ hwaits)
    rw [hi.prog]
    rfl
  | registered i hdb hrest hi =>
    refine .inr ⟨i, hdb, by rw [hi.prog]; rfl, fun j hj => ?_⟩
    rcases hrest j hj with hw | hr
    · exact .inl hw.outcome
    · exact .inr (by rw [hr.prog]; rfl)

omit [DecidableEq ι] in
/-- What the registrations have come to tells who was answered what. -/
theorem Registering.oneRegistration [Nonempty ι] (hnone : d.findByPhone phone = none)
    (h : Registering q phone d s) : OneRegistration q phone s := by
  rcases h.outcomes with hnobody | ⟨i, hdb, hi, hrest⟩
  · refine ⟨fun j o hj => ?_, fun j _ a _ hj _ => ?_, fun hended => ?_⟩
    · rw [hnobody j] at hj
      cases hj
    · rw [hnobody j] at hj
      cases hj
    · obtain ⟨j⟩ := ‹Nonempty ι›
      have hj := hended j
      have hnone := hnobody j
      cases hp : (s.thread j).prog with
      | ret | raise =>
        rw [hp] at hnone
        cases hnone
      | call =>
        rw [hp] at hj
        cases hj
  · have honly : ∀ j a, (s.thread j).prog.outcome = some (.ok a) → j = i := by
      intro j a hj
      by_contra hne
      rcases hrest j hne with hr | hr
      · rw [hr] at hj
        cases hj
      · rw [hr] at hj
        cases hj
    refine ⟨fun j o hj => ?_, fun j k a b hj hk => (honly j a hj).trans (honly k b hk).symm,
      fun _ => ⟨i, hi, ?_⟩⟩
    · by_cases hji : j = i
      · subst hji
        rw [hi, Option.some.injEq] at hj
        exact .inl hj.symm
      · rcases hrest j hji with hr | hr
        · rw [hr] at hj
          cases hj
        · rw [hr, Option.some.injEq] at hj
          exact .inr hj.symm
    · have hold : d.users.filter (fun u => u.phone = phone) = [] := by
        rw [List.filter_eq_nil_iff]
        exact List.find?_eq_none.mp hnone
      have hsame : ((q i).row phone).phone = phone := rfl
      rw [hdb, Write.apply, List.filter_append, hold]
      simp [hsame]

/-- **One registration** of a number, where a request reads it only while
nobody else is between a read and the end: one registers, the others are
answered the conflict, and the number has one account. -/
theorem one_registration [Fintype ι] [Nonempty ι]
    (h : store.Reach ReadsAlone (System.start d x fun i => (q i).call) s)
    (hphone : ∀ i, validatePhone (q i).phone = .ok phone) (hnone : d.findByPhone phone = none)
    (hfresh : ∀ i, d.findById (q i).newId = none) : OneRegistration q phone s :=
  (registering_reach h hphone hnone hfresh).oneRegistration hnone

/-! ### The race -/

/-- A number submitted twice. -/
def doubleRegistration (i : Fin 2) : RegisterUser :=
  { phone := "+22507000001", fullName := none, now := 1, newId := 7 + i }

/-- One after the other: the second is told that the number is registered. -/
theorem one_registration_serial : ∃ s : InFlight (Fin 2),
    (s.thread 0).prog.outcome = some (.ok (.registered 7 "+22507000001" .pendingVerification)) ∧
    (s.thread 1).prog.outcome = some (.error (.api phoneAlreadyRegistered)) ∧
    OneRegistration doubleRegistration "+22507000001" s := by
  have hrun : ((store.follow ReadsAlone (System.start {} {} fun i => (doubleRegistration i).call)
      [0, 0, 0, 1]).map fun s => ((s.thread 0).prog.outcome, (s.thread 1).prog.outcome)) =
      some (some (.ok (.registered 7 "+22507000001" .pendingVerification)),
        some (.error (.api phoneAlreadyRegistered))) := by
    decide +kernel
  obtain ⟨s, hs, hp⟩ := Option.map_eq_some_iff.mp hrun
  obtain ⟨h0, h1⟩ := Prod.mk.inj hp
  exact ⟨s, h0, h1, one_registration (reach_of_follow hs) (by decide) rfl (by decide)⟩

/-- **A refused insert.** Both requests find no account; the one that inserts
second fails in the database. -/
theorem registration_race : ∃ s : InFlight (Fin 2),
    store.Reach Any (System.start {} {} fun i => (doubleRegistration i).call) s ∧
    (∀ i, validatePhone (doubleRegistration i).phone = .ok "+22507000001") ∧
    Db.findByPhone {} "+22507000001" = none ∧
    (∀ i, Db.findById {} (doubleRegistration i).newId = none) ∧
    Function.Injective (fun i => (doubleRegistration i).newId) ∧
    (s.thread 0).prog.outcome = some (.ok (.registered 7 "+22507000001" .pendingVerification)) ∧
    (s.thread 1).prog.outcome = some (.error .database) ∧
    ¬ OneRegistration doubleRegistration "+22507000001" s := by
  have hrun : ((store.follow Any (System.start {} {} fun i => (doubleRegistration i).call)
      [0, 1, 0, 0, 1]).map fun s => ((s.thread 0).prog.outcome, (s.thread 1).prog.outcome)) =
      some (some (.ok (.registered 7 "+22507000001" .pendingVerification)),
        some (.error .database)) := by
    decide +kernel
  obtain ⟨s, hs, hp⟩ := Option.map_eq_some_iff.mp hrun
  obtain ⟨hfirst, hsecond⟩ := Prod.mk.inj hp
  refine ⟨s, reach_of_follow hs, by decide, rfl, by decide, by decide, hfirst, hsecond,
    fun hone => ?_⟩
  rcases hone.answers 1 _ hsecond with hok | hconflict
  · cases hok
  · cases hconflict

end DiddiFreeID
