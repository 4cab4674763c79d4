/-
# The stands of a request on an account

What a request has written and read in each of its stands
(`AccountRequest.monitor`). Its uncommitted writes are those of its decision
that it has made, and some on its code (`Stand.Logged`); as long as every
call finds what it writes as it was read (`Stand.Valid`), a call on the rows
`d` keeps the request on the way it goes alone on `d`
(`AccountRequest.Fits`). Last, what the commit of another such request
changes: one row of an account, one code.

Key definitions: `Stand.Logged`, `Stand.Valid`, `AccountRequest.Fits`.
Key theorems: `Moves.logged`, `Moves.fits`, `verdict_of_row`.
-/
import DiddiFreeID.Verdicts

namespace DiddiFreeID

open Transact Engine

variable {S : Env}

/-! ### Logs and stands -/

/-- The code a write is on. -/
def Write.code : Write → Option Uuid
  | bumpAttempts id => some id
  | consumeOtp id _ => some id
  | _ => none

theorem Write.onCode_of_code {w : Write} (h : w.code = none) : w.onCode = false := by
  cases w with
  | bumpAttempts | consumeOtp => cases h
  | _ => rfl

theorem Write.key_of_code {w : Write} {id : Uuid} (h : w.code = some id) :
    Key.otp id ∈ w.keys := by
  cases w with
  | bumpAttempts id' | consumeOtp id' now =>
    obtain rfl := Option.some.inj h
    exact List.mem_singleton.mpr rfl
  | _ => cases h

/-- The writes of the log that are on codes are on `code`, and there are some. -/
structure Wrote (code : Option Uuid) (log : List Write) : Prop where
  only : ∀ w ∈ log, w.keepsCodes = true ∧ (w.code = none ∨ w.code = code)
  some : ∀ id, code = some id → ∃ w ∈ log, w.code = some id

namespace Wrote

variable {code : Option Uuid} {log ws : List Write}

theorem nil : Wrote none [] := ⟨by simp, by simp⟩

theorem single {w : Write} {id : Uuid} (hk : w.keepsCodes = true) (hc : w.code = Option.some id) :
    Wrote (Option.some id) [w] where
  only w' hw' := by
    rw [List.mem_singleton.mp hw']
    exact ⟨hk, .inr hc⟩
  some _ hid := ⟨w, List.mem_singleton.mpr rfl, hc.trans hid⟩

theorem append (h : Wrote code log) (hw : ∀ w ∈ ws, w.keepsCodes = true ∧
    (w.code = none ∨ w.code = code)) : Wrote code (log ++ ws) where
  only w hm := by
    rcases List.mem_append.mp hm with hm | hm
    · exact h.only w hm
    · exact hw w hm
  some id hid := by
    obtain ⟨w, hm, hc⟩ := h.some id hid
    exact ⟨w, List.mem_append_left _ hm, hc⟩

theorem otps_view (h : Wrote none log) (d : Db) : (store.view d log).otps = d.otps :=
  Db.otps_view (fun w hw => ⟨Write.onCode_of_code ((h.only w hw).2.elim id id), (h.only w hw).1⟩) d

end Wrote

/-- What the uncommitted writes of a request in this stand are. -/
def Stand.Logged : Stand → List Write → Prop
  | .start, log | .coded _, log | .committed _, log => log = []
  | .broken, _ => False
  | .claimed otp, log => Wrote (some otp.id) log ∧ log.filter Write.booked = []
  | .decided code _ dec rest, log => Wrote code log ∧
      log.filter Write.booked ++ rest = dec.writes ∧
      (code = none → dec.entry = none → log = [])

/-- Does the row, or the code, that the call writes stand as it was read? -/
def Stand.Valid (g : Stand) (d : Db) (c : Call) : Prop :=
  match g, c with
  | .decided _ row _ _, .saveUser user _ => d.findById user.id = row
  | _, .registerAttempt id => d.isActive id = true
  | _, .markConsumed id _ => d.isActive id = true
  | _, _ => True

/-- An attempt is written where it is counted. -/
theorem exec_registerAttempt {d : Db} {id : Uuid} {x : Outside} {attempts : Option ℤ}
    (h : attempts = (exec (.registerAttempt id) d x).1) : d.nextAttempt id = attempts ∧
      (exec (.registerAttempt id) d x).2.1 = attempts.elim [] fun _ => [.bumpAttempts id] := by
  subst h
  simp only [exec]
  cases d.nextAttempt id <;> exact ⟨rfl, rfl⟩

theorem Call.onTokens_writes {c : Call} (h : c.onTokens = true) (d : Db) (x : Outside) :
    ∀ w ∈ (exec c d x).2.1, w.quiet = true ∧ w.keepsCodes = true ∧ w.code = none := by
  intro w hw
  cases c with
  | liveTokens => exact absurd hw List.not_mem_nil
  | revokeThese | saveToken =>
    rw [List.mem_singleton.mp hw]
    exact ⟨rfl, rfl, rfl⟩
  | _ => cases h

theorem Call.afterCommit_writes {c : Call} (h : c.afterCommit = true) (d : Db) (x : Outside) :
    (exec c d x).2.1 = [] := by
  cases c with
  | invalidateUser | publish => rfl
  | _ => cases h

theorem Decision.entry_of_writes {dec : Decision} (h : dec.writes ≠ []) :
    ∃ e, dec.entry = some e := by
  cases he : dec.entry with
  | none => exact absurd (by rw [writes, he]; rfl) h
  | some e => exact ⟨e, rfl⟩

namespace Stand.Logged

variable {code : Option Uuid} {row : Option User} {dec : Decision} {rest log ws : List Write}
  {w : Write}

theorem writes_ne_nil (h : (Stand.decided code row dec (w :: rest)).Logged log) :
    dec.writes ≠ [] := by
  obtain ⟨-, hq, -⟩ := h
  rw [← hq]
  simp

/-- A refusal leaves nothing to write. -/
theorem refuse (e : ApiError) : (Stand.decided none row (.refuse e) []).Logged [] :=
  ⟨.nil, rfl, fun _ _ => rfl⟩

theorem looked (q : VerifyOtp) (otp : Option OtpCode) : (q.looked otp).Logged [] := by
  cases otp with
  | none => exact .refuse _
  | some otp =>
    unfold VerifyOtp.looked
    dsimp only
    split_ifs
    · exact .refuse _
    · rfl

/-- The next write of the decision is made. -/
theorem write (h : (Stand.decided code row dec (w :: rest)).Logged log) (hb : w.booked = true)
    (hk : w.keepsCodes = true) (hc : w.code = none) :
    (Stand.decided code row dec rest).Logged (log ++ [w]) := by
  obtain ⟨e, he⟩ := Decision.entry_of_writes h.writes_ne_nil
  obtain ⟨hw, hq, -⟩ := h
  refine ⟨hw.append fun w' hw' => ?_, ?_, fun _ hn => ?_⟩
  · rw [List.mem_singleton.mp hw']
    exact ⟨hk, .inl hc⟩
  · rw [List.filter_append, List.filter_cons, if_pos hb, List.append_assoc]
    exact hq
  · rw [he] at hn
    cases hn

/-- Other writes come after those of the decision. -/
theorem settle (h : (Stand.decided code row dec []).Logged log)
    (hsome : dec.entry.isSome = true ∨ code.isSome = true)
    (hws : ∀ w ∈ ws, w.quiet = true ∧ w.keepsCodes = true ∧ (w.code = none ∨ w.code = code)) :
    (Stand.decided code row dec []).Logged (log ++ ws) := by
  obtain ⟨hw, hq, -⟩ := h
  refine ⟨hw.append fun w hm => (hws w hm).2, ?_, fun hc he => ?_⟩
  · rw [List.filter_append, filter_booked_nil fun w hm => (hws w hm).1, List.append_nil]
    exact hq
  · rw [hc, he] at hsome
    rcases hsome with h | h <;> cases h

end Stand.Logged

/-- `Stand.Valid`, as a test. -/
def Stand.isValid (g : Stand) (d : Db) (c : Call) : Bool :=
  match g, c with
  | .decided _ row _ _, .saveUser user _ => decide (d.findById user.id = row)
  | _, .registerAttempt id => d.isActive id
  | _, .markConsumed id _ => d.isActive id
  | _, _ => true

theorem Stand.isValid_iff {g : Stand} {d : Db} {c : Call} : g.isValid d c = true ↔ g.Valid d c := by
  unfold isValid Valid
  split <;> simp

namespace AccountRequest

variable {r : AccountRequest} {g g' : Stand} {c : Call} {a : c.Resp} {d : Db} {x : Outside}
  {log : List Write}

/-- What was decided was decided on the row; a login decides with its code
consumed. -/
def Sound (S : Env) (r : AccountRequest) : Stand → Prop
  | .decided code row dec _ => ∀ e, dec.entry = some e → r.decision S row = dec ∧
      (r.userId = none → code.isSome = true)
  | _ => True

theorem Moves.sound (h : Moves S r g c a g') (hg : Sound S r g) : Sound S r g' := by
  cases h with
  | read hu =>
    intro e he
    refine ⟨rfl, fun hn => ?_⟩
    rw [hu] at hn
    cases hn
  | @look q phone otp =>
    cases otp with
    | none => exact fun e he => (nomatch he)
    | some otp =>
      unfold VerifyOtp.looked
      dsimp only
      split_ifs
      · exact fun e he => (nomatch he)
      · trivial
  | count | lost =>
    intro e he
    rw [VerifyOtp.miss_entry] at he
    cases he
  | readByPhone => exact fun e he => ⟨rfl, fun _ => rfl⟩
  | save | recordStatus | recordRole | settle | burn => exact hg
  | claim | unsaved | commit | follow => trivial

/-- A commit comes after the last write of a decision. -/
theorem Moves.of_commit (h : Moves S r g .commit () g') : ∃ code row dec,
    g = .decided code row dec [] ∧ g' = .committed dec ∧
      (dec.entry.isSome = true ∨ code.isSome = true) := by
  cases h with
  | @commit code row dec hsome => exact ⟨code, row, dec, rfl, rfl, hsome⟩
  | settle _ ht => cases ht
  | follow hf => cases hf

/-- The entry made about an account is about the row it was decided on. -/
theorem decision_entry {row : Option User} {e : Entry} (h : (r.decision S row).entry = some e) :
    ∃ v, row = some v ∧ e.user.id = v.id := by
  cases r with
  | verifyOtp q =>
    cases row with
    | none => cases h
    | some v =>
      simp only [decision, VerifyOtp.decision] at h
      split_ifs at h
      · cases h
      · obtain rfl := Option.some.inj h
        exact ⟨v, rfl, rfl⟩
      · cases h
  | updateProfile q =>
    cases row with
    | none => cases h
    | some v =>
      simp only [decision, UpdateProfile.decision] at h
      split_ifs at h
      · obtain rfl := Option.some.inj h
        exact ⟨v, rfl, rfl⟩
      · cases h
  | changeRole q =>
    simp only [decision, ChangeRole.decision] at h
    split at h
    · cases h
    · cases row with
      | none => cases h
      | some v =>
        dsimp only at h
        split_ifs at h
        · cases h
        · obtain rfl := Option.some.inj h
          exact ⟨v, rfl, rfl⟩
        · cases h
        · obtain rfl := Option.some.inj h
          exact ⟨v, rfl, rfl⟩
  | decideKyc q =>
    cases row with
    | none => cases h
    | some v =>
      simp only [decision, DecideKyc.decision] at h
      split at h
      · cases h
      · obtain rfl := Option.some.inj h
        exact ⟨v, rfl, rfl⟩
  | changeStatus q =>
    simp only [decision] at h
    rcases q.decision_cases row with ⟨err, he⟩ | ⟨v, target, rfl, -, -, he⟩
    · rw [he] at h
      cases h
    · rw [he] at h
      obtain rfl := Option.some.inj h
      exact ⟨v, rfl, rfl⟩

/-- What is left to write was decided on a row. -/
theorem Sound.row {code : Option Uuid} {row : Option User} {dec : Decision} {w : Write}
    {rest : List Write} (hs : Sound S r (.decided code row dec (w :: rest)))
    (hl : (Stand.decided code row dec (w :: rest)).Logged log) : ∃ v, row = some v := by
  obtain ⟨e, he⟩ := Decision.entry_of_writes hl.writes_ne_nil
  obtain ⟨hdec, -⟩ := hs e he
  obtain ⟨v, hv, -⟩ := decision_entry (hdec.symm ▸ he)
  exact ⟨v, hv⟩

/-- The writes of a validated call are the next writes of the decision, or on
the code the request holds. -/
theorem Moves.logged (h : Moves S r g c a g') (hc : c ≠ .commit) (hs : Sound S r g)
    (hv : g.Valid (store.view d log) c) (ha : a = (exec c (store.view d log) x).1)
    (hl : g.Logged log) : g'.Logged (log ++ (exec c (store.view d log) x).2.1) := by
  cases h with
  | read hu =>
    obtain rfl : log = [] := hl
    exact ⟨.nil, rfl, fun _ _ => rfl⟩
  | @look q phone otp =>
    obtain rfl : log = [] := hl
    exact .looked q otp
  | @count q otp attempts =>
    obtain rfl : log = [] := hl
    rw [(exec_registerAttempt ha).2]
    refine ⟨.single rfl rfl, ?_, fun h => (nomatch h)⟩
    rw [VerifyOtp.miss_writes]
    rfl
  | lost =>
    obtain rfl : log = [] := hl
    rw [(exec_registerAttempt ha).2]
    exact ⟨.nil, rfl, fun _ _ => rfl⟩
  | @claim q otp =>
    obtain rfl : log = [] := hl
    have hw : (exec (.markConsumed otp.id q.now) d x).2.1 = [.consumeOtp otp.id q.now] :=
      Db.consumption_of_isActive q.now hv
    rw [view_nil, hw]
    exact ⟨.single rfl rfl, rfl⟩
  | readByPhone =>
    obtain ⟨hw, hq⟩ := hl
    rw [show (exec (.findByPhone _) (store.view d log) x).2.1 = [] from rfl, List.append_nil]
    exact ⟨hw, by rw [hq]; rfl, fun h => (nomatch h)⟩
  | @save code row dec u now rest =>
    obtain ⟨v, rfl⟩ := hs.row hl
    rw [show (exec (.saveUser u now) (store.view d log) x).2.1 = [.updateUser u now] from
      congrArg Prod.snd (Db.saveUser_of_findById hv now)]
    exact hl.write rfl rfl rfl
  | @unsaved code row dec u now rest =>
    obtain ⟨v, rfl⟩ := hs.row hl
    have hsaved := congrArg Prod.fst (Db.saveUser_of_findById hv now)
    exact absurd (ha.trans hsaved) (by simp)
  | recordStatus => exact hl.write rfl rfl rfl
  | recordRole => exact hl.write rfl rfl rfl
  | settle hsome ht =>
    exact hl.settle hsome fun w hw => (Call.onTokens_writes ht _ _ w hw).imp_right
      fun h => h.imp_right .inl
  | @burn id now row dec =>
    have hw : (exec (.markConsumed id now) (store.view d log) x).2.1 = [.consumeOtp id now] :=
      Db.consumption_of_isActive now hv
    rw [hw]
    refine hl.settle (.inr rfl) fun w hw => ?_
    rw [List.mem_singleton.mp hw]
    exact ⟨rfl, rfl, .inr rfl⟩
  | commit => exact absurd rfl hc
  | follow hf =>
    obtain rfl : log = [] := hl
    exact Call.afterCommit_writes hf _ _

end AccountRequest

/-! ### Stands and rows -/

/-- `VerifyOtp` sees the code `otp` on the rows `d`; its attempts may differ. -/
def VerifyOtp.Sees (q : VerifyOtp) (d : Db) (otp : OtpCode) : Prop :=
  ∃ phone o, validatePhone q.phone = .ok phone ∧ d.findLatestActive phone = some o ∧
    o.isExpired q.now = false ∧ o.id = otp.id ∧ o.codeHash = otp.codeHash

theorem users_of_filter {log : List Write} (h : log.filter Write.booked = []) (d : Db) :
    (store.view d log).users = d.users :=
  congrArg Books.users (books_of_nil h d)

namespace AccountRequest

variable {r : AccountRequest} {g g' : Stand} {c : Call} {a : c.Resp} {d : Db} {x : Outside}
  {log : List Write}

/-- The request would have come to this stand alone on the rows `d`. -/
def Fits (S : Env) (r : AccountRequest) (d : Db) : Stand → Prop
  | .start => True
  | .broken => False
  | .coded otp => ∃ q, r = .verifyOtp q ∧ q.Sees d otp
  | .claimed otp => ∃ q, r = .verifyOtp q ∧ q.Sees d otp ∧
      verifyOtpCode S q.code otp.codeHash = true
  | .decided code _ dec _ => r.verdict S d = dec ∧
      ∀ id, code = some id → ∃ q otp, r = .verifyOtp q ∧ q.Sees d otp ∧ otp.id = id
  | .committed dec => r.verdict S d = dec

/-- What comes of the code that a login looks up. -/
theorem fits_looked {q : VerifyOtp} {phone : String} (hp : validatePhone q.phone = .ok phone) :
    Fits S (.verifyOtp q) d (q.looked (d.findLatestActive phone)) := by
  cases hotp : d.findLatestActive phone with
  | none =>
    refine ⟨?_, fun id hid => (nomatch hid)⟩
    simp only [verdict, VerifyOtp.verdict, hp, hotp]
  | some otp =>
    unfold VerifyOtp.looked
    dsimp only
    by_cases hexp : otp.isExpired q.now = true
    · rw [if_pos hexp]
      refine ⟨?_, fun id hid => (nomatch hid)⟩
      simp only [verdict, VerifyOtp.verdict, hp, hotp, if_pos hexp]
    · rw [if_neg hexp]
      exact ⟨q, rfl, phone, otp, hp, hotp, by simpa using hexp, rfl, rfl⟩

/-- A wrong code, which is counted. -/
theorem verdict_of_miss {q : VerifyOtp} {otp : OtpCode} (hsees : q.Sees d otp)
    (hcode : verifyOtpCode S q.code otp.codeHash = false) :
    (verifyOtp q).verdict S d = VerifyOtp.miss S (d.nextAttempt otp.id) := by
  obtain ⟨phone, o, hp, hotp, hexp, hid, hhash⟩ := hsees
  simp only [verdict, VerifyOtp.verdict, hp, hotp, hexp, hhash, hcode, hid]
  rfl

/-- The right code: the account of the phone decides. -/
theorem verdict_of_hit {q : VerifyOtp} {otp : OtpCode} {phone : String} (hsees : q.Sees d otp)
    (hcode : verifyOtpCode S q.code otp.codeHash = true)
    (hphone : validatePhone q.phone = .ok phone) :
    (verifyOtp q).verdict S d = (verifyOtp q).decision S (d.findByPhone phone) := by
  obtain ⟨phone', o, hp, hotp, hexp, hid, hhash⟩ := hsees
  obtain rfl : phone = phone' := Except.ok.inj (hphone.symm.trans hp)
  simp only [verdict, VerifyOtp.verdict, hp, hotp, hexp, hhash, hcode]
  rfl

/-- A validated call on the rows keeps the request on the way it goes alone. -/
theorem Moves.fits (h : Moves S r g c a g') (hc : c ≠ .commit) (hs : Sound S r g)
    (hv : g.Valid (store.view d log) c) (ha : a = (exec c (store.view d log) x).1)
    (hl : g.Logged log) (hf : Fits S r d g) : Fits S r d g' := by
  have hl' := h.logged hc hs hv ha hl
  cases h with
  | read hu =>
    obtain rfl : log = [] := hl
    refine ⟨?_, fun id hid => (nomatch hid)⟩
    rw [verdict_of_userId hu, ha]
    rfl
  | @look q phone otp hr hp =>
    obtain rfl : log = [] := hl
    obtain rfl : otp = d.findLatestActive phone := ha
    subst hr
    exact fits_looked hp
  | @count q otp attempts hr hcode =>
    obtain rfl : log = [] := hl
    subst hr
    obtain ⟨q', hq, hsees⟩ := hf
    obtain rfl : q = q' := by injection hq
    refine ⟨?_, fun id h => ⟨q, otp, rfl, hsees, Option.some.inj h⟩⟩
    rw [verdict_of_miss hsees hcode]
    exact congrArg _ (exec_registerAttempt ha).1
  | @lost q otp hr hcode =>
    obtain rfl : log = [] := hl
    subst hr
    obtain ⟨q', hq, hsees⟩ := hf
    obtain rfl : q = q' := by injection hq
    refine ⟨?_, fun id h => (nomatch h)⟩
    rw [verdict_of_miss hsees hcode]
    exact congrArg _ (exec_registerAttempt ha).1
  | claim hr hcode =>
    obtain ⟨q', rfl, hsees⟩ := hf
    obtain rfl : q' = _ := by injection hr
    exact ⟨q', rfl, hsees, hcode⟩
  | @readByPhone q phone otp row hr hp =>
    subst hr
    obtain ⟨q', hq, hsees, hcode⟩ := hf
    obtain rfl : q = q' := by injection hq
    refine ⟨?_, fun id h => ⟨q, otp, rfl, hsees, Option.some.inj h⟩⟩
    have hrow : row = d.findByPhone phone := by
      rw [ha]
      simp only [exec, Db.findByPhone, users_of_filter hl.2]
    rw [verdict_of_hit hsees hcode hp, hrow]
  | save | recordStatus | recordRole | settle | burn | follow => exact hf
  | commit => exact absurd rfl hc
  | unsaved => exact absurd hl' fun h => h

end AccountRequest

/-! ### What a commit changes -/

section Commit

variable {d : Db} {log : List Write}

/-- Updates keep the keys of every row, and the rows of other accounts. -/
theorem users_view_map (h : ∀ u, .insertUser u ∉ log) (d : Db) : ∃ f : User → User,
    (store.view d log).users = d.users.map f ∧ ∀ v, (f v).id = v.id ∧ (f v).phone = v.phone ∧
      ((∀ u now, .updateUser u now ∈ log → u.id ≠ v.id) → f v = v) := by
  induction log generalizing d with
  | nil => exact ⟨id, by simp, fun v => ⟨rfl, rfl, fun _ => rfl⟩⟩
  | cons w log ih =>
    obtain ⟨f, hf, hkeep⟩ := ih (fun u hu => h u (List.mem_cons_of_mem _ hu)) (store.apply d w)
    rw [view_cons, hf]
    by_cases hw : ∃ u now, w = .updateUser u now
    · obtain ⟨u, now, rfl⟩ := hw
      refine ⟨fun v => f (if v.id = u.id then Write.assign u now v else v), ?_, fun v => ?_⟩
      · simp [Write.apply, Function.comp_def]
      · obtain ⟨hid, hphone, heq⟩ := hkeep (if v.id = u.id then Write.assign u now v else v)
        by_cases hv : v.id = u.id
        · simp only [if_pos hv] at hid hphone ⊢
          exact ⟨hid, hphone, fun hne => absurd hv.symm (hne u now List.mem_cons_self)⟩
        · simp only [if_neg hv] at hid hphone heq ⊢
          exact ⟨hid, hphone, fun hne =>
            heq fun u' now' hm => hne u' now' (List.mem_cons_of_mem _ hm)⟩
    · have husers : (store.apply d w).users = d.users :=
        Db.users_apply d (fun u he => h u (he ▸ List.mem_cons_self)) fun u now he => hw ⟨u, now, he⟩
      refine ⟨f, by rw [husers], fun v => ?_⟩
      obtain ⟨hid, hphone, heq⟩ := hkeep v
      exact ⟨hid, hphone, fun hne => heq fun u now hm => hne u now (List.mem_cons_of_mem _ hm)⟩

theorem findById_untouched (h : ∀ u, .insertUser u ∉ log) {id : Uuid}
    (hne : ∀ u now, .updateUser u now ∈ log → u.id ≠ id) :
    (store.view d log).findById id = d.findById id := by
  obtain ⟨f, hf, hkeep⟩ := users_view_map h d
  have hpred : (fun u : User => decide (u.id = id)) ∘ f = fun u : User => decide (u.id = id) := by
    funext v
    simp only [Function.comp_apply, (hkeep v).1]
  rw [Db.findById, hf, List.find?_map, hpred]
  cases hu : d.users.find? fun u => decide (u.id = id) with
  | none => rw [Db.findById, hu]; rfl
  | some v =>
    have hid : v.id = id := by simpa using List.find?_some hu
    rw [Db.findById, hu, Option.map_some, (hkeep v).2.2 fun u now hm => hid ▸ hne u now hm]

/-- The account of a phone stays the account of the phone. -/
theorem findByPhone_view (h : ∀ u, .insertUser u ∉ log) (hids : (d.users.map User.id).Nodup)
    {phone : String} {v : User} (hv : d.findByPhone phone = some v) :
    (store.view d log).findByPhone phone = (store.view d log).findById v.id := by
  obtain ⟨f, hf, hkeep⟩ := users_view_map h d
  have hid := Db.findById_of_mem hids (Db.mem_of_findByPhone hv).1
  have hphone : (fun u : User => decide (u.phone = phone)) ∘ f =
      fun u : User => decide (u.phone = phone) := by
    funext w
    simp only [Function.comp_apply, (hkeep w).2.1]
  have hpred : (fun u : User => decide (u.id = v.id)) ∘ f =
      fun u : User => decide (u.id = v.id) := by
    funext w
    simp only [Function.comp_apply, (hkeep w).1]
  rw [Db.findByPhone] at hv
  rw [Db.findById] at hid
  rw [Db.findByPhone, Db.findById, hf, List.find?_map, List.find?_map, hphone, hpred, hv, hid]

theorem argmax_map {α : Type} {f : α → Time} {g : α → α} (hg : ∀ a, f (g a) = f a) (l : List α) :
    (l.map g).argmax f = (l.argmax f).map g := by
  induction l with
  | nil => rfl
  | cons a l ih =>
    rw [List.map_cons, List.argmax_cons, List.argmax_cons, ih]
    cases l.argmax f with
    | none => rfl
    | some b =>
      simp only [Option.map_some, hg]
      split_ifs <;> rfl

/-- The newest code counts an attempt: it is still the newest one. -/
theorem latest_bumpAttempts {phone : String} {o : OtpCode} (h : d.findLatestActive phone = some o)
    (id : Uuid) : ∃ o', (Write.apply d (.bumpAttempts id)).findLatestActive phone = some o' ∧
      o'.id = o.id ∧ o'.codeHash = o.codeHash ∧ o'.expiresAt = o.expiresAt := by
  have hl : (Write.apply d (.bumpAttempts id)).findLatestActive phone =
      (d.findLatestActive phone).map fun o =>
        if o.id = id then { o with attempts := o.attempts + 1 } else o := by
    simp only [Db.findLatestActive, Write.apply]
    rw [← argmax_map (fun o => by split_ifs <;> rfl), List.filter_map]
    congr 2
    refine List.filter_congr fun o _ => ?_
    simp only [Function.comp_apply]
    split_ifs <;> rfl
  rw [hl, h]
  refine ⟨_, rfl, ?_⟩
  dsimp only
  split_ifs <;> exact ⟨rfl, rfl, rfl⟩

/-- Writes on the newest code leave it the newest one as long as it is not
consumed. -/
theorem latest_view {phone : String} {o : OtpCode}
    (hlog : ∀ w ∈ log, w.keepsCodes = true ∧ (w.code = none ∨ w.code = some o.id))
    (h : d.findLatestActive phone = some o) (hact : (store.view d log).isActive o.id = true) :
    ∃ o', (store.view d log).findLatestActive phone = some o' ∧
      o'.id = o.id ∧ o'.codeHash = o.codeHash ∧ o'.expiresAt = o.expiresAt := by
  induction log generalizing d o with
  | nil => exact ⟨o, h, rfl, rfl, rfl⟩
  | cons w log ih =>
    obtain ⟨hk, hc⟩ := hlog w List.mem_cons_self
    have hstep : ∃ o', (store.apply d w).findLatestActive phone = some o' ∧
        o'.id = o.id ∧ o'.codeHash = o.codeHash ∧ o'.expiresAt = o.expiresAt := by
      cases w with
      | bumpAttempts id => exact latest_bumpAttempts h id
      | consumeOtp id now =>
        obtain rfl : id = o.id := by simpa [Write.code] using hc
        have hdead : (store.view d (.consumeOtp o.id now :: log)).isActive o.id = false :=
          not_isActive_view (fun w hw => (hlog w hw).1) (.inr ⟨now, List.mem_cons_self⟩)
        rw [hdead] at hact
        cases hact
      | insertOtp o => cases hk
      | _ => exact ⟨o, h, rfl, rfl, rfl⟩
    obtain ⟨o₁, h₁, hid, hhash, hexp⟩ := hstep
    rw [view_cons] at hact ⊢
    obtain ⟨o', h', hid', hhash', hexp'⟩ := ih
      (fun w hw => hid ▸ hlog w (List.mem_cons_of_mem _ hw)) h₁ (hid ▸ hact)
    exact ⟨o', h', hid'.trans hid, hhash'.trans hhash, hexp'.trans hexp⟩

theorem Decision.no_insertUser (dec : Decision) (u : User) : .insertUser u ∉ dec.writes := by
  intro hm
  unfold writes at hm
  cases he : dec.entry with
  | none => simp [he] at hm
  | some e => simp [he, Entry.writes] at hm

end Commit

namespace AccountRequest

variable {r : AccountRequest} {d d' : Db} {dec : Decision} {e : Entry}

/-- A verdict with an entry was reached on the account of the entry. -/
theorem verdict_entry (h : r.verdict S d = dec) (he : dec.entry = some e) :
    (∃ u, r.userId = some u ∧ e.user.id = u) ∨
    ∃ q phone o v, r = .verifyOtp q ∧ validatePhone q.phone = .ok phone ∧
      d.findLatestActive phone = some o ∧ o.isExpired q.now = false ∧
      verifyOtpCode S q.code o.codeHash = true ∧ d.findByPhone phone = some v ∧
      e.user.id = v.id ∧ q.decision S (some v) = dec := by
  cases hr : r.userId with
  | some u =>
    rw [verdict_of_userId hr] at h
    obtain ⟨v, hv, hid⟩ := decision_entry (h.symm ▸ he)
    exact .inl ⟨u, rfl, hid.trans (Db.mem_of_findById hv).2⟩
  | none =>
    cases r with
    | verifyOtp q =>
      right
      simp only [verdict, VerifyOtp.verdict] at h
      cases hp : validatePhone q.phone with
      | error err =>
        rw [hp] at h
        subst h
        cases he
      | ok phone =>
        rw [hp] at h
        dsimp only at h
        cases ho : d.findLatestActive phone with
        | none =>
          rw [ho] at h
          subst h
          cases he
        | some o =>
          rw [ho] at h
          dsimp only at h
          split_ifs at h with hexp hcode
          · subst h
            cases he
          · rw [← h, VerifyOtp.miss_entry] at he
            cases he
          · obtain ⟨v, hv, hid⟩ := decision_entry (r := .verifyOtp q) (h.symm ▸ he)
            rw [hv] at h
            exact ⟨q, phone, o, v, rfl, hp, ho, by simpa using hexp, by simpa using hcode, hv, hid,
              h⟩
    | updateProfile q | changeRole q | decideKyc q | changeStatus q => cases hr

/-- A verdict with an entry is the decision on the row it is about. -/
theorem decision_of_verdict (hids : (d.users.map User.id).Nodup) (h : r.verdict S d = dec)
    (he : dec.entry = some e) : r.decision S (d.findById e.user.id) = dec := by
  rcases verdict_entry h he with ⟨u, hu, rfl⟩ | ⟨q, phone, o, v, rfl, -, -, -, -, hv, hid, hdec⟩
  · rw [← verdict_of_userId hu, h]
  · rw [hid, Db.findById_of_mem hids (Db.mem_of_findByPhone hv).1]
    exact hdec

/-- On rows where the account is decided on the same way, and the codes are
the same, the verdict is the same. -/
theorem verdict_of_row (h : r.verdict S d = dec) (he : dec.entry = some e)
    (hrow : r.decision S (d'.findById e.user.id) = dec) (hotps : r.userId = none → d'.otps = d.otps)
    (hphone : ∀ phone v, d.findByPhone phone = some v → d'.findByPhone phone = d'.findById v.id) :
    r.verdict S d' = dec := by
  rcases verdict_entry h he with ⟨u, hu, rfl⟩ |
    ⟨q, phone, o, v, rfl, hp, ho, hexp, hcode, hv, hid, -⟩
  · rw [verdict_of_userId hu, hrow]
  · have ho' : d'.findLatestActive phone = some o := by
      rw [← ho, Db.findLatestActive, Db.findLatestActive, hotps rfl]
    rw [hid, ← hphone phone v hv] at hrow
    simp only [verdict, VerifyOtp.verdict, hp, ho', hexp, hcode, Bool.not_true, Bool.false_eq_true,
      if_false]
    exact hrow

theorem verdict_of_users {u : Uuid} (hr : r.userId = some u) (h : d'.users = d.users) :
    r.verdict S d' = r.verdict S d := by
  rw [verdict_of_userId hr, verdict_of_userId hr, Db.findById, Db.findById, h]

end AccountRequest

end DiddiFreeID
