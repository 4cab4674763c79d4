/-
# The code that was sent opens a session

The two requests of a login, by one who waits for the code and types it in time: while
they are under way anything may happen to the accounts of others. The login is told
of its realm only (`realm_splits`), the second request starts on what the
first has left (`Reach.run_in_turn`), and what that is the effects of the two
commands say. So where `RequestOtp` has not been refused, `VerifyOtp` opens a session
of the account (`sent_code_opens`).

Key theorems: `RequestOtp.leaves_code`, `VerifyOtp.opens`, `sent_code_opens`.
-/
import DiddiFreeID.Effects
import DiddiFreeID.Realms

namespace DiddiFreeID

open Transact Engine

/-- The newest code is the one that is tried. -/
theorem Db.findLatestActive_newest {d : Db} {phone : String} {otp : OtpCode}
    (hphone : otp.phone = phone) (hactive : otp.consumedAt = none)
    (hnewest : ∀ o ∈ d.otps, o.phone = phone → o.consumedAt = none → o.createdAt < otp.createdAt) :
    { d with otps := d.otps ++ [otp] }.findLatestActive phone = some otp := by
  unfold findLatestActive
  rw [List.filter_append, List.filter_cons_of_pos (by simp [hphone, hactive]), List.filter_nil,
    List.argmax_concat]
  cases hold : (d.otps.filter fun o => o.phone = phone && o.consumedAt.isNone).argmax
      OtpCode.createdAt with
  | none => rfl
  | some o =>
    have hin := List.mem_filter.mp (List.argmax_mem hold)
    simp only [Bool.and_eq_true, decide_eq_true_eq, Option.isNone_iff_eq_none] at hin
    exact if_pos (hnewest o hin.1 hin.2.1 hin.2.2)

section Alone

variable {S : Env} {d d' : Db} {x x' : Outside} {phone : String} {user : User}

/-- A request for a code that is not refused leaves it, where there is an account. -/
theorem RequestOtp.leaves_code {q : RequestOtp} {a : Response}
    (hv : validatePhone q.phone = .ok phone) (hu : d.findByPhone phone = some user)
    (hrun : (.ok a, d', x') = store.run (q.call S) [] d x) :
    d' = { d with otps := d.otps ++ [q.newOtp S phone] } := by
  rw [run_eq, effect, hv] at hrun
  dsimp only at hrun
  split_ifs at hrun with hip hwait
  · cases (Prod.ext_iff.mp hrun).1
  · rw [hu] at hrun
    exact (Prod.ext_iff.mp (Prod.ext_iff.mp hrun).2).1
  · cases (Prod.ext_iff.mp hrun).1

/-- The right code opens a session of an account that is not suspended. -/
theorem VerifyOtp.opens {q : VerifyOtp} {otp : OtpCode} (hids : (d.users.map User.id).Nodup)
    (hv : validatePhone q.phone = .ok phone)
    (ho : d.findLatestActive phone = some otp) (htime : q.now < otp.expiresAt)
    (hcode : hashOtpCode S q.code = otp.codeHash) (hu : d.findByPhone phone = some user)
    (hs : user.status ≠ .suspended) : ∃ v, (store.run (q.call S) [] d x).1 = .ok (q.answer S v) ∧
      v.id = user.id ∧ v.status ∈ sessionAllowedStatuses := by
  have hdecided : ∃ v, (q.decision S (some user)).outcome = .ok (q.answer S v) ∧ v.id = user.id ∧
      v.status ∈ sessionAllowedStatuses := by
    unfold decision
    dsimp only
    rw [if_neg hs]
    split_ifs with hpending
    · refine ⟨activated user, rfl, rfl, ?_⟩
      unfold activated
      dsimp only
      split_ifs <;> decide
    · refine ⟨user, rfl, rfl, ?_⟩
      cases hst : user.status <;> simp_all [sessionAllowedStatuses]
  obtain ⟨v, hout, hid, hallowed⟩ := hdecided
  refine ⟨v, ?_, hid, hallowed⟩
  have hright : verifyOtpCode S q.code otp.codeHash = true := by simp [verifyOtpCode, hcode]
  rw [q.run_eq S d x hids, effect, hv]
  dsimp only
  rw [ho]
  dsimp only
  rw [if_neg (by simpa [OtpCode.isExpired] using htime), if_neg (by simp [hright]), hu]
  unfold acceptance
  rw [hout]
  rfl

end Alone

section Flight

variable {ι : Type} [Fintype ι] [DecidableEq ι] {S : Env} {R : Realm} {tasks : ι → Task} {d : Db}
  {x : Outside} {ok : InFlight ι → ι → Prop} {s : InFlight ι} {a b : ι}

/-- Two requests that no other one concerns, the second of which waits for the first, do
what they do one after the other. -/
theorem run_in_turn (hab : a ≠ b)
    (h : store.Reach ok (System.start d x fun i => (tasks i).prog S) s)
    (horder : ∀ s, ok s b → ∃ o, Done s a o) (hd : R.Splits d)
    (hin : ∀ j, (tasks j).In S R (decide (j = a ∨ j = b))) {o o' : Except Failure Response}
    (ho : Done s a o) (ho' : Done s b o') : ∃ d' x',
      (o, d', x') = store.run ((tasks a).prog S) [] (R.rows d) (R.around x) ∧
      (o', R.rows s.db, R.around s.outside) = store.run ((tasks b).prog S) [] d' x' := by
  have hdone : ∀ {s : InFlight ι} {j o}, j = a ∨ j = b → Done s j o →
      Done (s.projected R.rows R.around (fun j => decide (j = a ∨ j = b))
        fun i => (tasks i).prog S) j o := by
    intro s j o hj hdone
    refine (projected_done ?_).mpr hdone
    exact decide_eq_true hj
  have hturns : store.Reach (fun s k => k = a ∨ k = b ∧ ∃ o, Done s a o)
      (System.start (R.rows d) (R.around x) fun i => (tasks i).prog S)
      (s.projected R.rows R.around (fun j => decide (j = a ∨ j = b))
        fun i => (tasks i).prog S) :=
    h.projected (fun _ hr => realm_splits hr hd hin) fun s k hk hside => by
      rcases of_decide_eq_true hside with rfl | rfl
      · exact .inl rfl
      · obtain ⟨o, ho⟩ := horder s hk
        exact .inr ⟨rfl, o, hdone (.inl rfl) ho⟩
  exact hturns.run_in_turn hab (hdone (.inl rfl) ho) (hdone (.inr rfl) ho')

/-- **Login.** Whoever waits for the code that was sent and types it in time has a session,
whatever befalls the accounts of others meanwhile. -/
theorem sent_code_opens (hab : a ≠ b)
    (h : store.Reach ok (System.start d x fun i => (tasks i).prog S) s)
    (horder : ∀ s, ok s b → ∃ o, Done s a o) (hd : R.Splits d)
    (hids : (d.users.map User.id).Nodup)
    (hin : ∀ j, (tasks j).In S R (decide (j = a ∨ j = b))) {q : RequestOtp} {v : VerifyOtp}
    (ha : tasks a = .command (.requestOtp q)) (hb : tasks b = .command (.verifyOtp v))
    {phone : String} (hq : validatePhone q.phone = .ok phone)
    (hv : validatePhone v.phone = .ok phone) (hcode : v.code = sixDigits q.draw)
    (htime : v.now < q.now + seconds S.settings.otpCodeLifetimeSeconds)
    (hnewest : ∀ o ∈ d.otps, o.phone = phone → o.consumedAt = none → o.createdAt < q.now)
    {user : User} (huser : d.findByPhone phone = some user) (hstatus : user.status ≠ .suspended)
    {r : Response} (hsent : Done s a (.ok r)) {o : Except Failure Response} (ho : Done s b o) :
    ∃ u, o = .ok (v.answer S u) ∧ u.id = user.id ∧ u.status ∈ sessionAllowedStatuses := by
  obtain ⟨d', x', hrun, hrun'⟩ := run_in_turn hab h horder hd hin hsent ho
  have hphone : R.phone phone = true := by
    have hina := hin a
    rw [ha] at hina
    simpa using hina.1 phone hq
  have hfound : (R.rows d).findByPhone phone = some user := by
    rw [Realm.findByPhone_rows hd hphone, huser]
  rw [ha] at hrun
  rw [hb] at hrun'
  obtain rfl := RequestOtp.leaves_code hq hfound hrun
  have hlatest : { R.rows d with otps := (R.rows d).otps ++ [q.newOtp S phone] }.findLatestActive
      phone = some (q.newOtp S phone) :=
    Db.findLatestActive_newest rfl rfl fun o ho => hnewest o (List.mem_filter.mp ho).1
  have hids' : ((R.rows d).users.map User.id).Nodup :=
    hids.sublist (List.filter_sublist.map _)
  obtain ⟨u, hopen, hid, hallowed⟩ := VerifyOtp.opens (S := S) (x := x')
    (d := { R.rows d with otps := (R.rows d).otps ++ [q.newOtp S phone] }) hids' hv hlatest htime
    (congrArg (hashOtpCode S) hcode) hfound hstatus
  exact ⟨u, (congrArg Prod.fst hrun').trans hopen, hid, hallowed⟩

end Flight

/-- A login, and what befalls another account meanwhile. -/
def loginBesides : Fin 4 → Task
  | 0 => .command (.requestOtp ⟨"+22507000001", some "10.0.0.1", 2, 0, 42⟩)
  | 1 => .command (.verifyOtp ⟨"+22507000001", "000042", none, 3, 2, "a"⟩)
  | 2 => .command (.changeStatus ⟨8, "suspended", none, some 1, 4⟩)
  | 3 => .command (.requestOtp ⟨"+22507000002", some "10.0.0.2", 2, 9, 77⟩)

/-- The guess waits for the end of the request for a code. -/
abbrev InTurn (s : InFlight (Fin 4)) (i : Fin 4) : Prop :=
  i = 1 → (s.thread 0).prog.outcome.isSome = true ∧ (s.thread 0).log = []

theorem sent_code_opens_besides : ∃ (s : InFlight (Fin 4)) (o : Except Failure Response),
    s.db.users.map User.status = [.active, .suspended] ∧ Done s 1 o ∧
    ∃ u, o = .ok (VerifyOtp.answer plainEnv ⟨"+22507000001", "000042", none, 3, 2, "a"⟩ u) ∧
      u.id = 7 ∧ u.status ∈ sessionAllowedStatuses := by
  have hrun : ((store.follow InTurn
      (System.start neighbours {} fun i => (loginBesides i).prog plainEnv)
      [0, 2, 0, 0, 3, 2, 0, 3, 0, 2, 0, 0, 0, 2, 3, 1, 1, 3, 1, 2, 3, 1, 2, 1, 2, 1, 2]).map
      fun s =>
        (s.db.users.map User.status, (s.thread 0).prog.outcome, (s.thread 1).prog.outcome.isSome,
          (s.thread 0).log ++ (s.thread 1).log)) =
        some ([.active, .suspended], some (.ok (.otpSent 300 60)), true, []) := by
    decide +kernel
  obtain ⟨s, hs, hp⟩ := Option.map_eq_some_iff.mp hrun
  simp only [Prod.mk.injEq] at hp
  obtain ⟨hstatus, hsent, hend, hlogs⟩ := hp
  obtain ⟨hlog, hlog'⟩ := List.append_eq_nil_iff.mp hlogs
  obtain ⟨o, ho⟩ := Option.isSome_iff_exists.mp hend
  have hok : ∀ phone, phone = "+22507000001" ∨ phone = "+22507000002" →
      validatePhone phone = .ok phone := by
    rintro _ (rfl | rfl) <;> decide +kernel
  have hin : ∀ i, (loginBesides i).In plainEnv ofSeven (decide (i = 0 ∨ i = 1)) := by
    intro i
    match i with
    | 0 =>
      refine ⟨fun phone hv => ?_, fun ip hip => ?_, rfl⟩
      · obtain rfl := Except.ok.inj ((hok _ (.inl rfl)).symm.trans hv)
        rfl
      · obtain rfl := Option.some.inj hip
        rfl
    | 1 =>
      refine ⟨fun phone hv => ?_, rfl, by decide +kernel⟩
      obtain rfl := Except.ok.inj ((hok _ (.inl rfl)).symm.trans hv)
      rfl
    | 2 => rfl
    | 3 =>
      refine ⟨fun phone hv => ?_, fun ip hip => ?_, rfl⟩
      · obtain rfl := Except.ok.inj ((hok _ (.inr rfl)).symm.trans hv)
        rfl
      · obtain rfl := Option.some.inj hip
        rfl
  exact ⟨s, o, hstatus, ⟨ho, hlog'⟩, sent_code_opens
    (by decide : (0 : Fin 4) ≠ 1) (reach_of_follow hs)
    (fun s hturn => (Option.isSome_iff_exists.mp (hturn rfl).1).imp fun o ho => ⟨ho, (hturn rfl).2⟩)
    splits_neighbours (by decide) hin rfl rfl (hok _ (.inl rfl))
    (hok _ (.inl rfl)) (by decide +kernel) (by decide +kernel) (by decide +kernel)
    (by decide +kernel : neighbours.findByPhone "+22507000001" =
      some { id := 7, phone := "+22507000001", status := .active })
    (by decide) ⟨hsent, hlog⟩ ⟨ho, hlog'⟩⟩

end DiddiFreeID
