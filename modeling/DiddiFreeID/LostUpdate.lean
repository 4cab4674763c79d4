/-
# Two requests on one account

Two of the five commands that save an account, in flight together. Each of
them reads the row of the account, decides on what it read and saves the
whole row, with no check that the row is still the one it read.

A request is validated at a save if the row is still the one it read, and
at a write on a code if the code is still unconsumed (`Validated`). Where
every step is validated, two requests come to what one of the two serial
orders comes to (`no_lost_update`): the one that commits first has done what
it does alone (`Alone`); when it commits, the other has read nothing that
changed, or has decided to write nothing to the books, or waits for a step
that is not validated (`Second`). Without validation a suspension is undone
by a profile update that had read the account before it
(`suspension_undone`).

Key definitions: `Second`, `Validated`, `Serially`.
Key theorems: `Before.second`, `no_lost_update`.
-/
import DiddiFreeID.Transact.Alone
import DiddiFreeID.Transact.Schedule
import DiddiFreeID.Stands
import DiddiFreeID.Tokens

namespace DiddiFreeID

open Transact Engine

variable {S : Env}

/-! ### The second request -/

/-- A request in flight, with its uncommitted writes. -/
abbrev Flight : Type := Thread Call Call.Resp Failure Response Write

/-- The uncommitted writes are those of the stand, or rolled back. -/
def Kept (g : Stand) (t : Flight) : Prop :=
  g.Logged t.log ∨ (t.log = [] ∧ ∃ e, t.prog = .raise e)

theorem Kept.logged {g : Stand} {t : Flight} (h : Kept g t) {c : Call}
    {k : c.Resp → Cmd Response} (hp : t.prog = .call c k) : g.Logged t.log := by
  rcases h with h | ⟨-, e, he⟩
  · exact h
  · rw [hp] at he
    cases he

/-- How the request `rj` stands once the request `ri` has committed and left
the rows `d₁`; alone on the first rows `d` it leaves the rows `dj`. -/
inductive Second (S : Env) (ri rj : AccountRequest) (d d₁ dj : Db) (g : Stand) (t : Flight)
    (db : Db) : Prop
  /-- It has read nothing that changed, and goes on as alone on `d₁`. -/
  | fresh : (∀ dec, g ≠ .committed dec) → db = d₁ → rj.Fits S d₁ g → Second S ri rj d d₁ dj g t db
  | settled {dec} : g = .committed dec → rj.verdict S d₁ = dec →
      db.books = (store.view d₁ dec.writes).books → Second S ri rj d d₁ dj g t db
  /-- It has decided on `d`, and to write nothing to the books. -/
  | stale {dec} : (∃ code row, g = .decided code row dec []) ∨ g = .committed dec →
      dec.entry = none → rj.verdict S d = dec → ri.verdict S dj = ri.verdict S d →
      db.books = d₁.books → Second S ri rj d d₁ dj g t db
  /-- Its next call is not validated. -/
  | blocked {c k} : t.prog = .call c k → ¬g.Valid (store.view db t.log) c →
      Second S ri rj d d₁ dj g t db

/-- What is known of a request before anybody has committed. -/
structure Before (S : Env) (r : AccountRequest) (d : Db) (x : Outside) (g : Stand) (t : Flight) :
    Prop where
  follows : t.prog.Follows (r.monitor S) g
  sound : r.Sound S g
  kept : Kept g t
  fits : r.Fits S d g
  alone : store.Alone (r.prog S) d x t
  running : ∀ dec, g ≠ .committed dec

section Switch

variable {ri rj : AccountRequest} {d : Db} {x : Outside} {ti t : Flight} {code : Option Uuid}
  {row : Option User} {dec : Decision} {g : Stand}

/-- A request at its commit. -/
structure Committing (S : Env) (r : AccountRequest) (d : Db) (code : Option Uuid) (dec : Decision)
    (log : List Write) : Prop where
  wrote : Wrote code log
  booked : log.filter Write.booked = dec.writes
  verdict : r.verdict S d = dec
  seen : ∀ id, code = some id → ∃ q otp, r = .verifyOtp q ∧ q.Sees d otp ∧ otp.id = id
  named : code = none → ∃ u, r.userId = some u

theorem Before.committing {k : Unit → Cmd Response} (h : Before S ri d x g ti)
    (hp : ti.prog = .call .commit k) : ∃ code row dec, g = .decided code row dec [] ∧
      (dec.entry.isSome = true ∨ code.isSome = true) ∧ Committing S ri d code dec ti.log := by
  have hfol := h.follows
  have hl := h.kept.logged hp
  have hsound := h.sound
  have hfits := h.fits
  rw [hp] at hfol
  obtain ⟨code, row, dec, rfl, -, hsome⟩ := (AccountRequest.moves S hfol.1 ()).of_commit
  refine ⟨code, row, dec, rfl, hsome, hl.1, ?_, hfits.1, hfits.2, fun hcode => ?_⟩
  · rw [← hl.2.1, List.append_nil]
  · subst hcode
    rcases hsome with hsome | hsome
    · obtain ⟨e, he⟩ := Option.isSome_iff_exists.mp hsome
      cases hr : ri.userId with
      | some u => exact ⟨u, rfl⟩
      | none => cases (hsound e he).2 hr
    · cases hsome

namespace Committing

variable {log : List Write}

theorem no_insertUser (hc : Committing S ri d code dec log) (u : User) : .insertUser u ∉ log := by
  intro hm
  have hb : .insertUser u ∈ log.filter Write.booked := List.mem_filter.mpr ⟨hm, rfl⟩
  exact dec.no_insertUser u (hc.booked ▸ hb)

theorem otps (hc : Committing S ri d code dec log) (hcode : code = none) :
    (store.view d log).otps = d.otps := by
  subst hcode
  exact hc.wrote.otps_view d

variable (hphone : ∀ q q', ri = .verifyOtp q → rj = .verifyOtp q' →
  validatePhone q.phone = validatePhone q'.phone)

include hphone

/-- Two logins on one account see the same code. -/
theorem seen_eq (hc : Committing S ri d code dec log) {id : Uuid} (hcode : code = some id)
    {q : VerifyOtp} {otp : OtpCode} (hr : rj = .verifyOtp q) (hs : q.Sees d otp) : otp.id = id := by
  obtain ⟨qi, otp', hri, ⟨phone, o, hp, ho, -, hid, -⟩, rfl⟩ := hc.seen id hcode
  obtain ⟨phone', o', hp', ho', -, hid', -⟩ := hs
  have hpp : phone = phone' := by
    have h := hphone qi q hri hr
    rw [hp, hp'] at h
    exact Except.ok.inj h
  rw [hpp, ho'] at ho
  rw [← hid, ← hid', Option.some.inj ho]

/-- A code that one of them has written is not written by the other. -/
theorem unwritten (hc : Committing S ri d code dec log)
    (hlock : ∀ w ∈ log, ∀ w' ∈ t.log, ∀ key ∈ w.keys, key ∉ w'.keys) {id : Uuid}
    (hw : ∃ w ∈ t.log, w.code = some id)
    (hs : ∃ q otp, rj = .verifyOtp q ∧ q.Sees d otp ∧ otp.id = id) : code = none := by
  cases hcode : code with
  | none => rfl
  | some id' =>
    obtain ⟨q, otp, hr, hsees, rfl⟩ := hs
    obtain ⟨w', hw', hk'⟩ := hw
    obtain ⟨w, hw, hk⟩ := hc.wrote.some id' hcode
    rw [hc.seen_eq hphone hcode hr hsees] at hk'
    exact absurd (Write.key_of_code hk') (hlock w hw w' hw' _ (Write.key_of_code hk))

/-- A code that was only looked at is still seen, unless it is consumed. -/
theorem sees (hc : Committing S ri d code dec log) {q : VerifyOtp} {otp : OtpCode}
    (hr : rj = .verifyOtp q) (hs : q.Sees d otp)
    (hact : (store.view d log).isActive otp.id = true) : q.Sees (store.view d log) otp := by
  have hcode : ∀ id, code = some id → otp.id = id := fun id h => hc.seen_eq hphone h hr hs
  obtain ⟨phone, o, hp, ho, hexp, hid, hhash⟩ := hs
  have hlog : ∀ w ∈ log, w.keepsCodes = true ∧ (w.code = none ∨ w.code = some o.id) := by
    intro w hw
    obtain ⟨hk, hnone | hw⟩ := hc.wrote.only w hw
    · exact ⟨hk, .inl hnone⟩
    · refine ⟨hk, ?_⟩
      cases hcw : code with
      | none => exact .inl (hw.trans hcw)
      | some id => exact .inr (by rw [hw, hcw, hid, hcode id hcw])
  obtain ⟨o', ho', hid', hhash', hexp'⟩ := latest_view hlog ho (hid ▸ hact)
  refine ⟨phone, o', hp, ho', ?_, hid'.trans hid, hhash'.trans hhash⟩
  rw [← hexp]
  simp only [OtpCode.isExpired, hexp']

end Committing

theorem VerifyOtp.Sees.of_otps {q : VerifyOtp} {d d' : Db} {otp : OtpCode} (h : q.Sees d otp)
    (ho : d'.otps = d.otps) : q.Sees d' otp := by
  obtain ⟨phone, o, hp, hotp, hrest⟩ := h
  exact ⟨phone, o, hp, by rw [← hotp, Db.findLatestActive, Db.findLatestActive, ho], hrest⟩

namespace Before

/-! The first request commits `log`: no row of it is locked by the second. -/

variable {log : List Write} (hids : (d.users.map User.id).Nodup)
  (hc : Committing S ri d code dec log)
  (hlock : ∀ w ∈ log, ∀ w' ∈ t.log, ∀ key ∈ w.keys, key ∉ w'.keys)
  (hphone : ∀ q q', ri = .verifyOtp q → rj = .verifyOtp q' →
    validatePhone q.phone = validatePhone q'.phone)

include hids hc hlock hphone

/-- A decision to write nothing to the books stands, whatever the other does. -/
theorem stale (h : Before S rj d x g t) {codej : Option Uuid} {rowj : Option User}
    {decj : Decision} {rest : List Write}
    (hg : g = .decided codej rowj decj rest) (he : decj.entry = none) :
    Second S ri rj d (store.view d log) (store.run (rj.prog S) [] d x).2.1 g t
      (store.view d log) := by
  subst hg
  obtain ⟨hverdict, hseen⟩ := h.fits
  have hwrites : decj.writes = [] := by rw [Decision.writes, he]; rfl
  have hfol := h.follows
  have hend (hrest : rest = []) (hdj : ri.verdict S (store.run (rj.prog S) [] d x).2.1 =
      ri.verdict S d) : Second S ri rj d (store.view d log) (store.run (rj.prog S) [] d x).2.1
        (.decided codej rowj decj rest) t (store.view d log) :=
    .stale (.inl ⟨codej, rowj, by rw [hrest]⟩) he hverdict hdj rfl
  cases hp : t.prog with
  | ret a =>
    rw [hp] at hfol
    obtain ⟨hcode, hrest, -, -⟩ := AccountRequest.mayRet_decided.mp hfol
    have hl : t.log = [] := by
      rcases h.kept with hk | ⟨hk, -⟩
      · exact hk.2.2 hcode he
      · exact hk
    exact hend hrest (by rw [(h.alone.ended (by rw [hp]; rfl) hl).2])
  | raise e =>
    rw [hp] at hfol
    exact hend (AccountRequest.mayRaise_decided.mp hfol).1 (by rw [h.alone.raised hp])
  | call c k =>
    rw [hp] at hfol
    obtain ⟨hwrote, hq, -⟩ := h.kept.logged hp
    have hrest : rest = [] := (List.append_eq_nil_iff.mp (hq.trans hwrites)).2
    subst hrest
    refine hend rfl ?_
    obtain ⟨hsome, -⟩ := hfol.1
    rw [he] at hsome
    obtain ⟨id, hid⟩ := Option.isSome_iff_exists.mp (hsome.resolve_left (by simp))
    have hcode := hc.unwritten hphone hlock (hwrote.some id hid) (hseen id hid)
    obtain ⟨u, hu⟩ := hc.named hcode
    refine AccountRequest.verdict_of_users hu ?_
    have hbooks := (run_verdict S d x rj hids).2
    rw [hverdict, hwrites] at hbooks
    exact congrArg Books.users hbooks

/-- A decision with an entry: its row stands, or its save is not validated. -/
theorem entered (h : Before S rj d x g t) {codej : Option Uuid} {rowj : Option User}
    {decj : Decision} {rest : List Write} {e : Entry}
    (hg : g = .decided codej rowj decj rest) (he : decj.entry = some e) {dj : Db} :
    Second S ri rj d (store.view d log) dj g t (store.view d log) := by
  subst hg
  obtain ⟨hverdict, hseen⟩ := h.fits
  obtain ⟨hdec, hnamed⟩ := h.sound e he
  have hwrites : decj.writes = e.writes := by rw [Decision.writes, he]; rfl
  have hfol := h.follows
  obtain ⟨c, k, hp⟩ : ∃ c k, t.prog = .call c k := by
    cases hp : t.prog with
    | ret a =>
      rw [hp] at hfol
      cases he.symm.trans (AccountRequest.mayRet_decided.mp hfol).2.2.1
    | raise err =>
      rw [hp] at hfol
      cases he.symm.trans (AccountRequest.mayRaise_decided.mp hfol).2.1
    | call c k => exact ⟨c, k, rfl⟩
  rw [hp] at hfol
  obtain ⟨hwrote, hq, -⟩ := h.kept.logged hp
  have hcode (id : Uuid) (hid : codej = some id) : code = none :=
    hc.unwritten hphone hlock (hwrote.some id hid) (hseen id hid)
  by_cases hrow : rj.decision S ((store.view d log).findById e.user.id) = decj
  · refine .fresh (by simp) rfl ⟨?_, fun id hid => ?_⟩
    · refine AccountRequest.verdict_of_row hverdict he hrow (fun hr => ?_) fun phone v hv =>
        findByPhone_view hc.no_insertUser hids hv
      obtain ⟨id, hid⟩ := Option.isSome_iff_exists.mp (hnamed hr)
      exact hc.otps (hcode id hid)
    · obtain ⟨q, otp, hr, hsees, hotp⟩ := hseen id hid
      exact ⟨q, otp, hr, hsees.of_otps (hc.otps (hcode id hid)), hotp⟩
  -- the row changed, so the request has not saved it yet
  have hunsaved : ∀ u now, .updateUser u now ∈ t.log → u.id ≠ e.user.id := by
    intro u now hm hu
    have hne : ∀ v now', .updateUser v now' ∈ log → v.id ≠ e.user.id := fun v now' hv hid =>
      hlock _ hv _ hm (.user v.id) (List.mem_singleton.mpr rfl)
        (List.mem_singleton.mpr (by rw [hid, hu]))
    rw [findById_untouched hc.no_insertUser hne] at hrow
    exact hrow (AccountRequest.decision_of_verdict hids hverdict he)
  rw [hwrites] at hq
  cases hlog : t.log.filter Write.booked with
  | cons w ws =>
    rw [hlog] at hq
    have hw : w = .updateUser e.user e.now := List.head_eq_of_cons_eq hq
    have hmem : w ∈ t.log := (List.mem_filter.mp (hlog ▸ List.mem_cons_self)).1
    exact absurd rfl (hunsaved _ _ (hw ▸ hmem))
  | nil =>
    rw [hlog, List.nil_append] at hq
    subst hq
    have hcall : c = .saveUser e.user e.now := (Option.some.inj hfol.1).symm
    subst hcall
    refine .blocked hp fun hvalid => hrow ?_
    have hrowj : (store.view (store.view d log) t.log).findById e.user.id = rowj := hvalid
    rw [Db.findById, users_of_filter hlog] at hrowj
    rw [Db.findById, hrowj, hdec]

/-- **When one request commits**, the other has read nothing that changed, or
writes nothing to the books, or is stopped. -/
theorem second (h : Before S rj d x g t) :
    Second S ri rj d (store.view d log) (store.run (rj.prog S) [] d x).2.1 g t
      (store.view d log) := by
  have hfol := h.follows
  have hfits := h.fits
  cases hg : g with
  | start => exact .fresh (by simp) rfl trivial
  | broken =>
    rw [hg] at hfits
    exact absurd hfits fun h => h
  | committed decj => exact absurd hg (h.running decj)
  | decided codej rowj decj rest =>
    rw [← hg]
    cases he : decj.entry with
    | none => exact stale hids hc hlock hphone h hg he
    | some e => exact entered hids hc hlock hphone h hg he
  | coded otp =>
    rw [hg] at hfits hfol
    obtain ⟨q, hr, hsees⟩ := hfits
    by_cases hact : (store.view d log).isActive otp.id = true
    · exact .fresh (by simp) rfl ⟨q, hr, hc.sees hphone hr hsees hact⟩
    · cases hp : t.prog with
      | ret a | raise e =>
        rw [hp] at hfol
        exact absurd hfol fun h => h
      | call c k =>
        have hl := h.kept.logged hp
        rw [hg] at hl
        have hl : t.log = [] := hl
        rw [hp] at hfol
        obtain ⟨q', -, hcall⟩ := hfol.1
        refine .blocked hp fun hvalid => hact ?_
        rw [hl, view_nil] at hvalid
        split_ifs at hcall
        · subst hcall
          exact hvalid
        · subst hcall
          exact hvalid
  | claimed otp =>
    rw [hg] at hfits hfol
    obtain ⟨q, hr, hsees, hcode⟩ := hfits
    cases hp : t.prog with
    | ret a | raise e =>
      rw [hp] at hfol
      exact absurd hfol fun h => h
    | call c k =>
      have hl := h.kept.logged hp
      rw [hg] at hl
      have hnone := hc.unwritten hphone hlock (hl.1.some otp.id rfl) ⟨q, otp, hr, hsees, rfl⟩
      exact .fresh (by simp) rfl ⟨q, hr, hsees.of_otps (hc.otps hnone), hcode⟩

end Before

end Switch

/-! ### Steps of the second request -/

namespace AccountRequest

variable {r : AccountRequest} {g g' : Stand} {c : Call} {a : c.Resp}

theorem Moves.running (h : Moves S r g c a g') (hc : c ≠ .commit) (hg : ∀ dec, g ≠ .committed dec)
    (dec : Decision) : g' ≠ .committed dec := by
  cases h with
  | @look q phone otp =>
    cases otp with
    | none => exact fun h => (nomatch h)
    | some otp =>
      unfold VerifyOtp.looked
      dsimp only
      split_ifs
      · exact fun h => (nomatch h)
      · exact fun h => (nomatch h)
  | commit => exact absurd rfl hc
  | @follow dec' => exact absurd rfl (hg dec')
  | _ => exact fun h => (nomatch h)

/-- The call of a move is answered from the rows. -/
theorem Moves.fromRows (h : Moves S r g c a g') : store.FromRows c := by
  cases h with
  | @count q otp | @lost q otp =>
    intro d x x'
    simp only [store_exec, exec]
    cases d.nextAttempt otp.id <;> exact ⟨rfl, rfl⟩
  | settle _ ht =>
    cases c with
    | liveTokens | revokeThese | saveToken => exact fun _ _ _ => ⟨rfl, rfl⟩
    | _ => cases ht
  | follow hf =>
    cases c with
    | invalidateUser | publish => exact fun _ _ _ => ⟨rfl, rfl⟩
    | _ => cases hf
  | _ => exact fun _ _ _ => ⟨rfl, rfl⟩

/-- After its commit a request leaves the tables. -/
theorem run_committed {dec : Decision} {p : Cmd Response}
    (h : p.Follows (r.monitor S) (.committed dec)) (d : Db) (x : Outside) :
    (store.run p [] d x).2.1 = d := by
  induction p generalizing x with
  | ret a => rfl
  | raise e => rfl
  | call c k ih =>
    obtain ⟨hc, hk⟩ := h
    cases c with
    | invalidateUser id =>
      rw [run_invalidateUser]
      exact ih () (hk ()) _
    | publish e =>
      rw [run_publish]
      exact ih () (hk ()) _
    | _ => cases hc

end AccountRequest

namespace Second

variable {ri rj : AccountRequest} {d d₁ dj db : Db} {g g' : Stand} {t : Flight} {c : Call}
  {k : c.Resp → Cmd Response} {x : Outside}

theorem call (h : Second S ri rj d d₁ dj g t db) (hp : t.prog = .call c k) (hc : c ≠ .commit)
    (hs : rj.Sound S g) (hl : g.Logged t.log) (hv : g.Valid (store.view db t.log) c)
    (hm : AccountRequest.Moves S rj g c (exec c (store.view db t.log) x).1 g') (t' : Flight) :
    Second S ri rj d d₁ dj g' t' db := by
  cases h with
  | fresh hg hdb hf =>
    subst hdb
    exact .fresh (hm.running hc hg) rfl (hm.fits hc hs hv rfl hl hf)
  | settled hg hverdict hbooks =>
    subst hg
    generalize (exec c (store.view db t.log) x).1 = a at hm
    cases hm with
    | follow => exact .settled rfl hverdict hbooks
  | stale hg he hverdict hi hbooks =>
    refine .stale ?_ he hverdict hi hbooks
    generalize (exec c (store.view db t.log) x).1 = a at hm
    rcases hg with ⟨code, row, rfl⟩ | rfl
    · cases hm with
      | settle => exact .inl ⟨code, row, rfl⟩
      | burn => exact .inl ⟨_, row, rfl⟩
      | commit => exact absurd rfl hc
    · cases hm with
      | follow => exact .inr rfl
  | blocked hp' hv' =>
    rw [hp] at hp'
    cases hp'
    exact absurd hv hv'

theorem commit {k : Unit → Cmd Response} (h : Second S ri rj d d₁ dj g t db)
    (hp : t.prog = .call .commit k) (hl : g.Logged t.log)
    (hv : g.Valid (store.view db t.log) .commit) (hm : AccountRequest.Moves S rj g .commit () g')
    (t' : Flight) : Second S ri rj d d₁ dj g' t' (store.view db t.log) := by
  obtain ⟨code, row, dec, rfl, rfl, -⟩ := hm.of_commit
  have hfilter : t.log.filter Write.booked = dec.writes := by rw [← hl.2.1, List.append_nil]
  cases h with
  | fresh hg hdb hf =>
    subst hdb
    exact .settled rfl hf.1 (books_of_filter rfl (hfilter.trans dec.filter_writes.symm))
  | settled hg => cases hg
  | stale hg he hverdict hi hbooks =>
    rcases hg with ⟨_, _, hg⟩ | hg
    · cases hg
      refine .stale (.inr rfl) he hverdict hi ?_
      rw [← hbooks]
      refine books_of_nil ?_ db
      rw [hfilter, Decision.writes, he]
      rfl
    · cases hg
  | blocked hp' hv' =>
    rw [hp] at hp'
    cases hp'
    exact absurd hv hv'

/-- The end of its transaction leaves the second request where it stands. -/
theorem ended (h : Second S ri rj d d₁ dj g t db) (hp : t.prog.ended = true) (t' : Flight) :
    Second S ri rj d d₁ dj g t' db := by
  cases h with
  | fresh hg hdb hf => exact .fresh hg hdb hf
  | settled hg hverdict hbooks => exact .settled hg hverdict hbooks
  | stale hg he hverdict hi hbooks => exact .stale hg he hverdict hi hbooks
  | blocked hp' =>
    rw [hp'] at hp
    cases hp

end Second

/-! ### Two requests in flight -/

/-- Where request `i` stands. -/
abbrev standOf {ι : Type} (S : Env) (r : ι → AccountRequest) (s : InFlight ι) (i : ι) : Stand :=
  phase (fun i => (r i).monitor S) (fun _ => Stand.start) s i

/-- The step of request `i` finds the row, or the code, that it writes as the
request read it. -/
def Validated {ι : Type} (S : Env) (r : ι → AccountRequest) (s : InFlight ι) (i : ι) : Prop :=
  ∀ c, (s.thread i).next = some c →
    (standOf S r s i).Valid (store.view s.db (s.thread i).log) c

instance {ι : Type} (S : Env) (r : ι → AccountRequest) (s : InFlight ι) (i : ι) :
    Decidable (Validated S r s i) :=
  decidable_of_iff (((s.thread i).next.all fun c =>
    (standOf S r s i).isValid (store.view s.db (s.thread i).log) c) = true) (by
      simp only [Option.all_eq_true, Stand.isValid_iff]
      rfl)

/-- Alone and one after the other, `i` before `j`, the requests have these
outcomes and leave these books. -/
def Serially {ι : Type} (S : Env) (r : ι → AccountRequest) (d : Db) (x : Outside) (s : InFlight ι)
    (o : ι → Except Failure Response) (i j : ι) : Prop :=
  let a := store.run ((r i).prog S) [] d x
  let b := store.run ((r j).prog S) [] a.2.1 a.2.2
  o i = a.1 ∧ o j = b.1 ∧ s.db.books = b.2.1.books

section Flights

variable {r : Fin 2 → AccountRequest} {d : Db} {x : Outside} {s s' : InFlight (Fin 2)} {i j : Fin 2}

theorem next_of_call {t : Flight} {c : Call} {k : c.Resp → Cmd Response} (h : t.prog = .call c k) :
    t.next = some c := Thread.next_eq_some.mpr ⟨k, h⟩

theorem stand_follows {ok : InFlight (Fin 2) → Fin 2 → Prop}
    (h : store.Reach ok (System.start d x fun i => (r i).prog S) s) (i : Fin 2) :
    (s.thread i).prog.Follows ((r i).monitor S) (standOf S r s i) :=
  h.follows (fun i => (r i).follows S) i

theorem sound_stand {ok : InFlight (Fin 2) → Fin 2 → Prop}
    (h : store.Reach ok (System.start d x fun i => (r i).prog S) s) (i : Fin 2) :
    (r i).Sound S (standOf S r s i) :=
  h.phase_invariant (fun i => (r i).follows S) (P := fun i g => (r i).Sound S g) (fun _ => trivial)
    (fun _ _ _ _ _ _ _ hm hs => (AccountRequest.moves S hm _).sound hs) i

/-- A request that returned has no uncommitted write. -/
theorem Kept.of_ret {ri : AccountRequest} {g : Stand} {t : Flight} {a : Response} (h : Kept g t)
    (hf : t.prog.Follows (ri.monitor S) g) (hp : t.prog = .ret a) : t.log = [] := by
  rw [hp] at hf
  rcases h with h | ⟨h, -⟩
  · cases g with
    | decided code row dec rest =>
      obtain ⟨hcode, -, he, -⟩ := AccountRequest.mayRet_decided.mp hf
      exact h.2.2 hcode he
    | committed dec => exact h
    | start | broken | coded | claimed => exact absurd hf fun h => h
  · exact h

theorem kept_stand (h : store.Reach (Validated S r) (System.start d x fun i => (r i).prog S) s)
    (i : Fin 2) : Kept (standOf S r s i) (s.thread i) := by
  refine h.invariant_each (P := fun i s => Kept (standOf S r s i) (s.thread i))
    (fun i => .inl rfl) (fun s s' i hr ih hok hs => ?_) (fun s s' i j _ ih _ hs hj => ?_) i
  · have hf := stand_follows hr i
    cases hs with
    | @call c k hp hc hfree =>
      rw [hp] at hf
      have hne : c ≠ .commit := fun he => by rw [he] at hc; cases hc
      rw [standOf, phase_called_self, called_thread_self]
      exact .inl ((AccountRequest.moves S hf.1 _).logged hne (sound_stand hr i)
        (hok _ (next_of_call hp)) rfl ((ih i).logged hp))
    | @commit c k hp hc =>
      obtain rfl := commits_iff.mp hc
      rw [hp] at hf
      rw [standOf, phase_committed_self, committed_thread_self]
      obtain ⟨code, row, dec, -, hg', -⟩ := (AccountRequest.moves S hf.1 ()).of_commit
      exact .inl (hg' ▸ rfl)
    | @close a hp =>
      rw [standOf, phase_closed, closed_thread_self]
      have hl := (ih i).of_ret hf hp
      rcases ih i with h | ⟨-, e, he⟩
      · exact .inl (hl ▸ h)
      · rw [hp] at he
        cases he
    | @abort e hp =>
      rw [standOf, phase_rolledBack, rolledBack_thread_self]
      exact .inr ⟨rfl, e, hp⟩
  · rw [standOf, hs.phase_ne hj, hs.thread_ne hj]
    exact ih

/-- Request `i` has committed, and so stands request `j`. -/
abbrev After (S : Env) (r : Fin 2 → AccountRequest) (d : Db) (x : Outside) (s : InFlight (Fin 2))
    (i j : Fin 2) : Prop :=
  Second S (r i) (r j) d (store.run ((r i).prog S) [] d x).2.1
    (store.run ((r j).prog S) [] d x).2.1 (standOf S r s j) (s.thread j) s.db

/-- Nobody has committed, or one of the two has, alone on the first rows. -/
inductive Course (S : Env) (r : Fin 2 → AccountRequest) (d : Db) (x : Outside)
    (s : InFlight (Fin 2)) : Prop
  | before : s.db = d → (∀ i, (r i).Fits S d (standOf S r s i) ∧
      store.Alone ((r i).prog S) d x (s.thread i) ∧ ∀ dec, standOf S r s i ≠ .committed dec) →
      Course S r d x s
  | after {i j : Fin 2} : i ≠ j → standOf S r s i = .committed ((r i).verdict S d) →
      After S r d x s i j → Course S r d x s

theorem other_of_ne : ∀ {i j : Fin 2}, i ≠ j → ∀ l, l = i ∨ l = j := by decide

/-- A request that has committed leaves the tables and the other request. -/
theorem Course.step_first (hr : store.Reach (Validated S r)
      (System.start d x fun i => (r i).prog S) s) (hs : store.Step s i s') (hij : i ≠ j)
    (hi : standOf S r s i = .committed ((r i).verdict S d))
    (hj : After S r d x s i j) : Course S r d x s' := by
  have hf := stand_follows hr i
  cases hs with
  | @call c k hp hc hfree =>
    rw [hp, hi] at hf
    have hm := AccountRequest.moves S hf.1 (store.answer s i c).1
    have hi' : standOf S r (store.called s i c k) i = .committed ((r i).verdict S d) := by
      rw [standOf, phase_called_self, show phase _ _ s i = _ from hi]
      generalize ((r i).monitor S).next _ c (store.answer s i c).1 = g' at hm
      cases hm with
      | follow => rfl
    refine .after hij hi' ?_
    rw [After, standOf, phase_called_ne _ hij.symm, called_thread_ne _ _ _ _ hij.symm]
    exact hj
  | @commit c k hp hc =>
    obtain rfl := commits_iff.mp hc
    rw [hp, hi] at hf
    cases hf.1
  | @close a hp =>
    have hl := (kept_stand hr i).of_ret hf hp
    refine .after hij (by rw [standOf, phase_closed]; exact hi) ?_
    rw [After, standOf, phase_closed, closed_thread_ne _ _ hij.symm, closed_db, hl, view_nil]
    exact hj
  | @abort e hp =>
    refine .after hij (by rw [standOf, phase_rolledBack]; exact hi) ?_
    rw [After, standOf, phase_rolledBack, rolledBack_thread_ne _ hij.symm]
    exact hj

theorem Course.step_second (hr : store.Reach (Validated S r)
      (System.start d x fun i => (r i).prog S) s) (hok : Validated S r s j)
    (hs : store.Step s j s') (hij : i ≠ j)
    (hi : standOf S r s i = .committed ((r i).verdict S d))
    (hj : After S r d x s i j) : Course S r d x s' := by
  have hf := stand_follows hr j
  have hk := kept_stand hr j
  cases hs with
  | @call c k hp hc hfree =>
    rw [hp] at hf
    refine .after hij (by rw [standOf, phase_called_ne _ hij]; exact hi) ?_
    rw [After, standOf, phase_called_self]
    exact hj.call hp (fun he => by rw [he] at hc; cases hc) (sound_stand hr j) (hk.logged hp)
      (hok _ (next_of_call hp)) (AccountRequest.moves S hf.1 _) _
  | @commit c k hp hc =>
    obtain rfl := commits_iff.mp hc
    rw [hp] at hf
    refine .after hij (by rw [standOf, phase_committed_ne _ hij]; exact hi) ?_
    rw [After, standOf, phase_committed_self]
    exact hj.commit hp (hk.logged hp) (hok _ (next_of_call hp)) (AccountRequest.moves S hf.1 _) _
  | @close a hp =>
    have hl := hk.of_ret hf hp
    refine .after hij (by rw [standOf, phase_closed]; exact hi) ?_
    rw [After, standOf, phase_closed, closed_db, hl, view_nil]
    exact hj.ended (by rw [hp]; rfl) _
  | @abort e hp =>
    refine .after hij (by rw [standOf, phase_rolledBack]; exact hi) ?_
    rw [After, standOf, phase_rolledBack]
    exact hj.ended (by rw [hp]; rfl) _

/-- The first commit. -/
theorem Course.of_commit (hids : (d.users.map User.id).Nodup)
    (hphone : ∀ i j q q', r i = .verifyOtp q → r j = .verifyOtp q' →
      validatePhone q.phone = validatePhone q'.phone)
    (hr : store.Reach (Validated S r) (System.start d x fun i => (r i).prog S) s)
    (hdb : s.db = d) (hway : ∀ i, (r i).Fits S d (standOf S r s i) ∧
      store.Alone ((r i).prog S) d x (s.thread i) ∧ ∀ dec, standOf S r s i ≠ .committed dec)
    {k : Unit → Cmd Response} (hp : (s.thread i).prog = .call .commit k) :
    Course S r d x (store.committed s i .commit k) := by
  have hbefore : ∀ i, Before S (r i) d x (standOf S r s i) (s.thread i) := fun i =>
    ⟨stand_follows hr i, sound_stand hr i, kept_stand hr i, (hway i).1, (hway i).2.1,
      (hway i).2.2⟩
  obtain ⟨code, row, dec, hg, hsome, hc⟩ := (hbefore i).committing hp
  have hf := stand_follows hr i
  rw [hp] at hf
  -- alone, the first request leaves the rows of its commit
  have hrows : (store.run ((r i).prog S) [] d x).2.1 = store.view d (s.thread i).log := by
    obtain ⟨x', hx'⟩ := (hway i).2.1.commit hp rfl (AccountRequest.moves S hf.1 ()).fromRows x
    have hrest := hf.2 ()
    rw [hg] at hrest
    rw [hx']
    exact AccountRequest.run_committed hrest _ _
  have hother : ∀ i : Fin 2, ∃ j, i ≠ j := by decide
  obtain ⟨j, hij⟩ := hother i
  refine .after hij ?_ ?_
  · rw [standOf, phase_committed_self, show phase _ _ s i = _ from hg, hc.verdict]
    rfl
  · rw [After, standOf, phase_committed_ne _ hij.symm, committed_thread_ne _ _ _ _ hij.symm,
      committed_db, hdb, hrows]
    refine Before.second hids hc (fun w hw w' hw' key hkey => ?_)
      (fun q q' hq hq' => hphone i j q q' hq hq') (hbefore j)
    exact hr.exclusive hij hw hw' hkey

/-- A call while nobody has committed. -/
theorem Course.of_call (hr : store.Reach (Validated S r)
      (System.start d x fun i => (r i).prog S) s) (hok : Validated S r s i) (hdb : s.db = d)
    (hway : ∀ i, (r i).Fits S d (standOf S r s i) ∧
      store.Alone ((r i).prog S) d x (s.thread i) ∧ ∀ dec, standOf S r s i ≠ .committed dec)
    {c : Call} {k : c.Resp → Cmd Response} (hp : (s.thread i).prog = .call c k)
    (hc : store.commits c = false) : Course S r d x (store.called s i c k) := by
  have hf := stand_follows hr i
  obtain ⟨hfits, halone, hrunning⟩ := hway i
  rw [hp] at hf
  have hm := AccountRequest.moves S hf.1 (store.answer s i c).1
  have hne : c ≠ .commit := fun he => by rw [he] at hc; cases hc
  refine .before hdb fun j => ?_
  by_cases hji : j = i
  · subst hji
    rw [standOf, phase_called_self, called_thread_self]
    refine ⟨?_, ?_, hm.running hne hrunning⟩
    · have ha : (store.answer s j c).1 = (exec c (store.view d (s.thread j).log) s.outside).1 := by
        rw [← hdb]
        rfl
      exact hm.fits hne (sound_stand hr j) (hdb ▸ hok _ (next_of_call hp)) ha
        ((kept_stand hr j).logged hp) hfits
    · have hcall := halone.call hp hc hm.fromRows s.outside
        ((s.thread j).trace ++ [⟨c, (store.answer s j c).1⟩])
      rw [← hdb] at hcall ⊢
      exact hcall
  · rw [standOf, phase_called_ne _ hji, called_thread_ne _ _ _ _ hji]
    exact hway j

theorem course (hids : (d.users.map User.id).Nodup)
    (hphone : ∀ i j q q', r i = .verifyOtp q → r j = .verifyOtp q' →
      validatePhone q.phone = validatePhone q'.phone)
    (h : store.Reach (Validated S r) (System.start d x fun i => (r i).prog S) s) :
    Course S r d x s := by
  refine h.invariant (P := Course S r d x)
    (.before rfl fun i => ⟨trivial, store.alone_start _ d x, fun _ hg => (nomatch hg)⟩)
    fun s s' l hr ih hok hs => ?_
  cases ih with
  | after hij hi hj =>
    rcases other_of_ne hij l with rfl | rfl
    · exact Course.step_first hr hs hij hi hj
    · exact Course.step_second hr hok hs hij hi hj
  | before hdb hway =>
    cases hs with
    | call hp hc _ => exact Course.of_call hr hok hdb hway hp hc
    | @commit c k hp hc =>
      obtain rfl := commits_iff.mp hc
      exact Course.of_commit hids hphone hr hdb hway hp
    | @close a hp =>
      have hl := (kept_stand hr l).of_ret (stand_follows hr l) hp
      refine .before (by rw [closed_db, hl, view_nil, hdb]) fun i => ?_
      rw [standOf, phase_closed]
      by_cases hil : i = l
      · subst hil
        have ht : (store.closed s i).thread i = s.thread i := by
          rw [closed_thread_self, ← hl]
        rw [ht]
        exact hway i
      · rw [closed_thread_ne _ _ hil]
        exact hway i
    | @abort e hp =>
      refine .before hdb fun i => ?_
      rw [standOf, phase_rolledBack]
      by_cases hil : i = l
      · subst hil
        obtain ⟨hfits, halone, hrunning⟩ := hway i
        rw [rolledBack_thread_self]
        exact ⟨hfits, halone.rolledBack hp, hrunning⟩
      · rw [rolledBack_thread_ne _ hil]
        exact hway i

/-! ### The outcomes -/

/-- A request that has ended has the outcome of its decision. -/
theorem outcome_of_stand {ri : AccountRequest} {g : Stand} {p : Cmd Response}
    (hf : p.Follows (ri.monitor S) g) {o : Except Failure Response} (ho : p.outcome = some o)
    {dec : Decision} (hg : (∃ code row rest, g = .decided code row dec rest) ∨ g = .committed dec) :
    dec.outcome = o ∧ ((∃ dec, g = .committed dec) ∨ dec.entry = none) := by
  cases p with
  | call c k => cases ho
  | ret a =>
    obtain rfl := Option.some.inj ho
    rcases hg with ⟨code, row, rest, rfl⟩ | rfl
    · obtain ⟨-, -, he, hout⟩ := AccountRequest.mayRet_decided.mp hf
      exact ⟨hout, .inr he⟩
    · exact ⟨hf, .inl ⟨_, rfl⟩⟩
  | raise e =>
    obtain rfl := Option.some.inj ho
    rcases hg with ⟨code, row, rest, rfl⟩ | rfl
    · obtain ⟨-, he, hout⟩ := AccountRequest.mayRaise_decided.mp hf
      exact ⟨hout, .inr he⟩
    · exact ⟨hf, .inl ⟨_, rfl⟩⟩

/-- A request that has ended without a commit comes to what it comes to alone. -/
theorem AccountRequest.Fits.ended {ri : AccountRequest} {g : Stand} {p : Cmd Response}
    (h : ri.Fits S d g) (hf : p.Follows (ri.monitor S) g) {o : Except Failure Response}
    (ho : p.outcome = some o) (hg : ∀ dec, g ≠ .committed dec) :
    (ri.verdict S d).outcome = o ∧ (ri.verdict S d).writes = [] := by
  cases hgs : g with
  | committed dec => exact absurd hgs (hg dec)
  | broken => exact absurd (hgs ▸ h : ri.Fits S d .broken) fun h => h
  | decided code row dec rest =>
    obtain ⟨hout, hnone⟩ := outcome_of_stand hf ho (.inl ⟨code, row, rest, hgs⟩)
    have hverdict : ri.verdict S d = dec := (hgs ▸ h : ri.Fits S d (.decided code row dec rest)).1
    rcases hnone with ⟨dec', hg'⟩ | hnone
    · exact absurd hg' (hg dec')
    · rw [hverdict, Decision.writes, hnone]
      exact ⟨hout, rfl⟩
  | start | coded | claimed =>
    rw [hgs] at hf
    cases p with
    | call c k => cases ho
    | ret a => exact absurd hf fun h => h
    | raise e =>
      first
        | exact absurd hf fun h => h
        | rw [hf d]
          exact ⟨Option.some.inj ho, rfl⟩

theorem run_ids (ri : AccountRequest) (hids : (d.users.map User.id).Nodup) :
    ((store.run (ri.prog S) [] d x).2.1.users.map User.id).Nodup := by
  have hbooks := (run_verdict S d x ri hids).2
  obtain ⟨f, hf, hkeep⟩ := users_view_map (ri.verdict S d).no_insertUser d
  have husers : (store.run (ri.prog S) [] d x).2.1.users = d.users.map f :=
    (congrArg Books.users hbooks).trans hf
  rw [husers, List.map_map]
  have hid : User.id ∘ f = User.id := funext fun v => (hkeep v).1
  rw [hid]
  exact hids

/-- The request is one on the account `u`: it names it, or its phone. -/
def AccountRequest.On (d : Db) (u : Uuid) : AccountRequest → Prop
  | .verifyOtp q => ∃ user, d.findById u = some user ∧ validatePhone q.phone = .ok user.phone
  | .updateProfile q => q.userId = u
  | .changeRole q => q.userId = u
  | .decideKyc q => q.userId = u
  | .changeStatus q => q.userId = u

/-- Where nobody has committed, the requests come to what they come to alone. -/
theorem serial_of_none (hids : (d.users.map User.id).Nodup) {o : Fin 2 → Except Failure Response}
    (hdone : ∀ i, Done s i (o i)) (hdb : s.db = d)
    (halone : ∀ i, store.Alone ((r i).prog S) d x (s.thread i)) : Serially S r d x s o 0 1 := by
  have hend := fun i => (halone i).ended (hdone i).1 (hdone i).2
  refine ⟨(hend 0).1.symm, ?_, ?_⟩
  · rw [(hend 0).2, (run_verdict S d _ (r 1) hids).1, ← (run_verdict S d x (r 1) hids).1]
    exact (hend 1).1.symm
  · rw [(hend 0).2, (run_verdict S d _ (r 1) hids).2, ← (run_verdict S d x (r 1) hids).2,
      (hend 1).2, hdb]

/-- Where request `i` has committed, the other comes after it, or before it if
it had nothing to commit. -/
theorem After.serial (hids : (d.users.map User.id).Nodup)
    (h : store.Reach (Validated S r) (System.start d x fun i => (r i).prog S) s)
    {o : Fin 2 → Except Failure Response} (hdone : ∀ i, Done s i (o i))
    (hi : standOf S r s i = .committed ((r i).verdict S d)) (hj : After S r d x s i j) :
    Serially S r d x s o i j ∨ Serially S r d x s o j i := by
  have hfj := stand_follows h j
  have hoi := (outcome_of_stand (stand_follows h i) (hdone i).1 (.inr hi)).1
  obtain ⟨hai, hbi⟩ := run_verdict S d x (r i) hids
  have hrun := run_verdict S (store.run ((r i).prog S) [] d x).2.1
    (store.run ((r i).prog S) [] d x).2.2 (r j) (run_ids (r i) hids)
  cases hj with
  | fresh hg hdb hfits =>
    obtain ⟨hoj, hw⟩ := hfits.ended hfj (hdone j).1 hg
    refine .inl ⟨by rw [hai, hoi], by rw [hrun.1, hoj], ?_⟩
    rw [hrun.2, hw, hdb]
    rfl
  | settled hg hverdict hbooks =>
    have hoj := (outcome_of_stand hfj (hdone j).1 (.inr hg)).1
    refine .inl ⟨by rw [hai, hoi], by rw [hrun.1, hverdict, hoj], ?_⟩
    rw [hrun.2, hverdict, hbooks]
  | @stale dec hg he hverdict hvi hbooks =>
    have hoj := (outcome_of_stand hfj (hdone j).1
      (hg.imp_left fun ⟨code, row, hg⟩ => ⟨code, row, [], hg⟩)).1
    obtain ⟨haj, hbj⟩ := run_verdict S d x (r j) hids
    obtain ⟨ha, hb⟩ := run_verdict S (store.run ((r j).prog S) [] d x).2.1
      (store.run ((r j).prog S) [] d x).2.2 (r i) (run_ids (r j) hids)
    have hkept : (store.run ((r j).prog S) [] d x).2.1.books = d.books := by
      rw [hbj, hverdict, Decision.writes, he]
      rfl
    refine .inr ⟨by rw [haj, hverdict, hoj], by rw [ha, hvi, hoi], ?_⟩
    rw [hb, hvi, hbooks, hbi]
    exact (books_view_congr hkept _).symm
  | blocked hp =>
    have hout := (hdone j).1
    rw [hp] at hout
    cases hout

/-- **No lost update.** Two requests on one account, in flight together, every
step of which is validated: once both have ended, their outcomes, the accounts
and the audit rows are those of one of the two serial orders. -/
theorem no_lost_update {u : Uuid} (hids : (d.users.map User.id).Nodup)
    (hon : ∀ i, (r i).On d u)
    (h : store.Reach (Validated S r) (System.start d x fun i => (r i).prog S) s)
    {o : Fin 2 → Except Failure Response} (hdone : ∀ i, Done s i (o i)) :
    Serially S r d x s o 0 1 ∨ Serially S r d x s o 1 0 := by
  have hphone : ∀ i j q q', r i = .verifyOtp q → r j = .verifyOtp q' →
      validatePhone q.phone = validatePhone q'.phone := by
    intro i j q q' hi hj
    obtain ⟨user, hu, hp⟩ := hi ▸ hon i
    obtain ⟨user', hu', hp'⟩ := hj ▸ hon j
    rw [hu] at hu'
    rw [hp, hp', Option.some.inj hu']
  cases course hids hphone h with
  | before hdb hway => exact .inl (serial_of_none hids hdone hdb fun i => (hway i).2.1)
  | @after i j hij hi hj =>
    have hserial := After.serial hids h hdone hi hj
    have hcases : ∀ i j : Fin 2, i ≠ j → (i = 0 ∧ j = 1) ∨ (i = 1 ∧ j = 0) := by decide
    rcases hcases i j hij with ⟨rfl, rfl⟩ | ⟨rfl, rfl⟩
    · exact hserial
    · exact hserial.symm

end Flights

/-! ### A suspension and a profile update -/

/-- An active account. -/
def oneActive : Db :=
  { users := [{ id := 7, phone := "+22507000001", role := .user, status := .active }] }

/-- An administrator suspends the account, whose user gives it a name. -/
def suspendAndRename (i : Fin 2) : AccountRequest :=
  if i = 0 then
    .changeStatus
      { userId := 7, status := "suspended", reason := none, changedBy := none, now := 5 }
  else .updateProfile { userId := 7, fullName := some "Awa", now := 5 }

theorem statusOf_of_books {d d' : Db} (h : d.books = d'.books) (u : Uuid) :
    d.statusOf u = d'.statusOf u := by
  have husers : d.users = d'.users := congrArg Books.users h
  rw [Db.statusOf, Db.statusOf, Db.findById, Db.findById, husers]

theorem suspendAndRename_on : ∀ i, (suspendAndRename i).On oneActive 7
  | 0 => rfl
  | 1 => rfl

/-- The update reads after the commit of the suspension. -/
theorem no_lost_update_renamed : ∃ (s : InFlight (Fin 2)) (o : Fin 2 → Except Failure Response),
    store.Reach (Validated plainEnv suspendAndRename)
      (System.start oneActive {} fun i => (suspendAndRename i).prog plainEnv) s ∧
    (∀ i, Done s i (o i)) ∧
    (Serially plainEnv suspendAndRename oneActive {} s o 0 1 ∨
      Serially plainEnv suspendAndRename oneActive {} s o 1 0) := by
  have hrun : ((store.follow (Validated plainEnv suspendAndRename)
      (System.start oneActive {} fun i => (suspendAndRename i).prog plainEnv)
      [0, 0, 0, 0, 0, 0, 1, 0, 1, 0, 1, 1, 1]).any fun s =>
        decide (∀ i, (s.thread i).prog.outcome.isSome = true ∧ (s.thread i).log = [])) = true := by
    decide +kernel
  obtain ⟨s, hs, hend⟩ := Option.any_eq_true _ _ |>.mp hrun
  have hend := of_decide_eq_true hend
  have hdone : ∀ i, Done s i ((s.thread i).prog.outcome.get (hend i).1) := fun i =>
    ⟨(Option.some_get _).symm, (hend i).2⟩
  exact ⟨s, _, reach_of_follow hs, hdone,
    no_lost_update (by decide) suspendAndRename_on (reach_of_follow hs) hdone⟩

/-- **A suspension undone.** The profile update has read the account before
the suspension and saves what it read: both answer with success, and the
account is active. -/
theorem suspension_undone : ∃ (s : InFlight (Fin 2)) (o : Fin 2 → Except Failure Response),
    store.Reach Any (System.start oneActive {} fun i => (suspendAndRename i).prog plainEnv) s ∧
    (∀ i, (suspendAndRename i).On oneActive 7) ∧ (∀ i, Done s i (o i)) ∧
    (∀ i, ∃ a, o i = .ok a) ∧ s.db.statusOf 7 = some .active ∧
    ¬Serially plainEnv suspendAndRename oneActive {} s o 0 1 ∧
    ¬Serially plainEnv suspendAndRename oneActive {} s o 1 0 := by
  have hrun : ((store.follow Any
      (System.start oneActive {} fun i => (suspendAndRename i).prog plainEnv)
      [1, 0, 0, 0, 0, 0, 0, 0, 0, 1, 1, 1, 1]).any fun s =>
        decide ((∀ i, (s.thread i).prog.outcome.any Except.isOk = true ∧ (s.thread i).log = []) ∧
          s.db.statusOf 7 = some .active)) = true := by
    decide +kernel
  obtain ⟨s, hs, hend⟩ := Option.any_eq_true _ _ |>.mp hrun
  obtain ⟨hend, hactive⟩ := of_decide_eq_true hend
  have hok : ∀ i, ∃ a, (s.thread i).prog.outcome = some (.ok a) := by
    intro i
    obtain ⟨o, ho, hoi⟩ := Option.any_eq_true _ _ |>.mp (hend i).1
    cases o with
    | error e => cases hoi
    | ok a => exact ⟨a, ho⟩
  choose a ha using hok
  have hserial : ∀ i j, i ≠ j → ¬Serially plainEnv suspendAndRename oneActive {} s
      (fun i => .ok (a i)) i j := by
    intro i j hij hs
    have hsuspended : ∀ i j : Fin 2, i ≠ j →
        (store.run ((suspendAndRename j).prog plainEnv) []
          (store.run ((suspendAndRename i).prog plainEnv) [] oneActive {}).2.1
          (store.run ((suspendAndRename i).prog plainEnv) [] oneActive {}).2.2).2.1.statusOf 7 =
        some .suspended := by
      decide +kernel
    have hstatus := (statusOf_of_books hs.2.2 7).trans (hsuspended i j hij)
    rw [hactive] at hstatus
    cases hstatus
  exact ⟨s, fun i => .ok (a i), reach_of_follow hs, suspendAndRename_on,
    fun i => ⟨ha i, (hend i).2⟩, fun i => ⟨a i, rfl⟩, hactive, hserial 0 1 (by decide),
    hserial 1 0 (by decide)⟩

end DiddiFreeID
