/-
# The trail of the requests in flight

A request that changes an account writes one `Entry`: the account, the audit
rows and the event that go with it. Alone, its ledger is that of its entry.
With others in flight the tables and the stream have the rows and events of many,
in some order; but none is lost, none is there twice, and none is there
that no entry has: the audit tables are the first ones and the rows of
the entries that are committed, the stream is the first one and the events of
those that have been announced, each counted once. When all requests have ended,
these are the same entries (`trail_balanced`).

Key definitions: `Committed`, `Trail`.
Key theorems: `saved_unique`, `told_audit`, `told_events`, `trail_balanced`.
-/
import DiddiFreeID.AllOrNothing
import DiddiFreeID.Grounds
import DiddiFreeID.ProfileFreshness
import DiddiFreeID.Transact.Balance

namespace DiddiFreeID

open Transact Engine

/-! ### What is counted -/

/-- Status rows and role rows, each with how often it is there. -/
abbrev Rows : Type := Multiset UserStatusChange × Multiset UserRoleChange

def Db.audit (d : Db) : Rows := (d.statusHistory, d.roleHistory)

def Entry.audit (e : Entry) : Rows := (e.statusRows, e.roleRows)

def Write.audit : Write → Rows
  | .insertStatus c => ({c}, 0)
  | .insertRole c => (0, {c})
  | _ => 0

namespace Call

def statusRow : Call → Option UserStatusChange
  | recordStatusChange c => some c
  | _ => none

def roleRow : Call → Option UserRoleChange
  | recordRoleChange c => some c
  | _ => none

def event : Call → Option DomainEvent
  | publish e => some e
  | _ => none

/-- What a call adds to the audit tables. -/
def audit (c : Call) : Rows := (c.statusRow.toList, c.roleRow.toList)

theorem statusRow_iff {c : Call} {row : UserStatusChange} :
    c.statusRow = some row ↔ c = .recordStatusChange row := by
  cases c <;> simp [statusRow]

theorem roleRow_iff {c : Call} {row : UserRoleChange} :
    c.roleRow = some row ↔ c = .recordRoleChange row := by
  cases c <;> simp [roleRow]

theorem event_iff {c : Call} {e : DomainEvent} : c.event = some e ↔ c = .publish e := by
  cases c <;> simp [event]

end Call

theorem coe_filterMap_cons {α β : Type} (f : α → Option β) (a : α) (l : List α) :
    ((f a).toList : Multiset β) + (l.filterMap f : Multiset β) =
      ((a :: l).filterMap f : Multiset β) := by
  cases h : f a <;> simp [h]

theorem sum_audit (cs : List Call) : (cs.map Call.audit).sum =
    ((cs.filterMap Call.statusRow : Multiset _), (cs.filterMap Call.roleRow : Multiset _)) := by
  induction cs with
  | nil => rfl
  | cons c cs ih =>
    rw [List.map_cons, List.sum_cons, ih, ← coe_filterMap_cons, ← coe_filterMap_cons]
    rfl

theorem sum_event (cs : List Call) :
    (cs.map fun c => (c.event.toList : Multiset DomainEvent)).sum = cs.filterMap Call.event := by
  induction cs with
  | nil => rfl
  | cons c cs ih => rw [List.map_cons, List.sum_cons, ih, coe_filterMap_cons]

/-- Rows are added by the two calls that record them. -/
theorem counted_audit : store.Counted Db.audit Write.audit fun a => a.1.audit where
  apply d w := by
    cases w <;>
      simp [Db.audit, Write.audit, Write.apply, ← Multiset.coe_add, Multiset.coe_singleton]
  answer c d x := by
    cases c with
    | recordStatusChange row => simp [exec, Write.audit, Call.audit, Call.statusRow, Call.roleRow]
    | recordRoleChange row => simp [exec, Write.audit, Call.audit, Call.statusRow, Call.roleRow]
    | _ =>
      change _ = (0 : Rows)
      refine List.sum_eq_zero fun m hm => ?_
      obtain ⟨w, hw, rfl⟩ := List.mem_map.mp hm
      have hmakes := exec_makes (d := d) hw
      cases w with
      | insertStatus row | insertRole row => simp [Call.makes] at hmakes
      | _ => rfl
  commits c r hc := by
    obtain rfl := commits_iff.mp hc
    rfl

/-- Events are added by `publish`. -/
theorem shown_events : store.Shown (fun x => (x.stream : Multiset DomainEvent))
    fun a => (a.1.event.toList : Multiset DomainEvent) := by
  intro c d x
  cases c with
  | publish e => rfl
  | registerAttempt id =>
    simp only [store_exec, exec]
    cases d.nextAttempt id <;> simp [Call.event]
  | _ => exact (add_zero _).symm

/-! ### The entry of a request -/

section Entries

variable {S : Env} {user user' : User} {r : Request} {o o' : Except Failure Response} {e e' : Entry}

/-- What is written about an account follows from the account and the request. -/
theorem Writes.unique (h : Writes S user r o e) (h' : Writes S user r o' e') : o = o' ∧ e = e' := by
  cases h with
  | rename => cases h'; exact ⟨rfl, rfl⟩
  | verify => cases h'; exact ⟨rfl, rfl⟩
  | request hq ht hk hr =>
    cases h' with
    | request hq' ht' =>
      obtain rfl := Option.some.inj (ht.symm.trans ht')
      exact ⟨rfl, rfl⟩
    | grant hq' ht' hk' =>
      obtain rfl := Option.some.inj (ht.symm.trans ht')
      rw [hk] at hk'
      cases hk'
  | grant hq ht hk hr =>
    cases h' with
    | request hq' ht' hk' =>
      obtain rfl := Option.some.inj (ht.symm.trans ht')
      rw [hk] at hk'
      cases hk'
    | grant hq' ht' =>
      obtain rfl := Option.some.inj (ht.symm.trans ht')
      exact ⟨rfl, rfl⟩
  | decide hq hr =>
    cases h' with
    | decide hq' hr' =>
      obtain rfl := Option.some.inj (hr.symm.trans hr')
      exact ⟨rfl, rfl⟩
  | transit hq ht =>
    cases h' with
    | transit hq' ht' =>
      obtain rfl := Option.some.inj (ht.symm.trans ht')
      exact ⟨rfl, rfl⟩

/-- No row is written twice, and one event is published. -/
theorem Writes.distinct (h : Writes S user r o e) :
    e.statusRows.Nodup ∧ e.roleRows.Nodup ∧ ∃ ev, e.events = [ev] := by
  cases h with
  | decide =>
    refine ⟨?_, List.nodup_singleton _, _, rfl⟩
    dsimp only
    split_ifs
    · exact List.nodup_singleton _
    · exact List.nodup_nil
  | _ => exact ⟨by simp, by simp, _, rfl⟩

end Entries

/-! ### In flight -/

/-- The request has committed the entry, all its rows recorded. -/
structure Committed (S : Env) (r : Request) (l : Heard) (e : Entry) : Prop where
  told : Told l .commit ()
  documented : ∃ user o, Documented S r l user o e

/-- In `s` these entries are committed and these requests have announced theirs:
the rows and the events are the first ones and those of these entries. -/
structure Trail {ι : Type} [Fintype ι] (S : Env) (rs : ι → Request) (d : Db) (x : Outside)
    (s : InFlight ι) (entry : ι → Option Entry) (announced : Finset ι) : Prop where
  committed : ∀ i e, entry i = some e ↔ Committed S (rs i) (s.thread i).trace e
  rows : s.db.audit = d.audit + ∑ i, (entry i).elim 0 Entry.audit
  ended : ∀ i, (s.thread i).prog.ended = true → i ∈ announced
  events : (s.outside.stream : Multiset DomainEvent) =
    x.stream + ∑ i ∈ announced, (entry i).elim 0 fun e => (e.events : Multiset DomainEvent)

section Flight

variable {ι : Type} [Fintype ι] [DecidableEq ι] {S : Env} {rs : ι → Request} {d : Db} {x : Outside}
  {ok : InFlight ι → ι → Prop} {s : InFlight ι} {i : ι}

/-- A guess reads one account, under the one phone of the request. -/
theorem guess_read_unique (h : store.Reach ok (System.start d x fun i => (rs i).prog S) s)
    {q : VerifyOtp} {user user' : User} (hs : Read S (.verifyOtp q) (s.thread i).trace user)
    (hs' : Read S (.verifyOtp q) (s.thread i).trace user') : user = user' := by
  obtain ⟨otp, hacc, -, ht⟩ := hs
  obtain ⟨otp', hacc', -, ht'⟩ := hs'
  have hphone : user.phone = user'.phone := Except.ok.inj (hacc.valid.symm.trans hacc'.valid)
  rw [hphone] at ht
  exact Option.some.inj (told_unique h ht ht')

/-- A request reads one account, and saves one entry about it. -/
theorem saved_unique (h : store.Reach ok (System.start d x fun i => (rs i).prog S) s)
    {l l' : Heard} (hl : l ⊆ (s.thread i).trace) (hl' : l' ⊆ (s.thread i).trace) {user user' : User}
    {o o' : Except Failure Response} {e e' : Entry} (hs : Saved S (rs i) l user o e)
    (hs' : Saved S (rs i) l' user' o' e') : user = user' ∧ o = o' ∧ e = e' := by
  have huser : user = user' := by
    have hread := hs.read.mono hl
    have hread' := hs'.read.mono hl'
    have hw := hs.writes
    have hw' := hs'.writes
    generalize hr : rs i = r at hread hread' hw hw'
    have hbyId : user.id = user'.id → Told (s.thread i).trace (.findById user.id) (some user) →
        Told (s.thread i).trace (.findById user'.id) (some user') → user = user' := by
      intro hid ht ht'
      rw [hid] at ht
      exact Option.some.inj (told_unique h ht ht')
    cases hw with
    | verify => exact guess_read_unique h hread hread'
    | rename hq => cases hw' with
      | rename hq' => exact hbyId (hq.symm.trans hq') hread hread'
    | request hq => cases hw' with
      | request hq' | grant hq' => exact hbyId (hq.symm.trans hq') hread hread'
    | grant hq => cases hw' with
      | request hq' | grant hq' => exact hbyId (hq.symm.trans hq') hread hread'
    | decide hq => cases hw' with
      | decide hq' => exact hbyId (hq.symm.trans hq') hread hread'
    | transit hq => cases hw' with
      | transit hq' => exact hbyId (hq.symm.trans hq') hread hread'
  subst huser
  exact ⟨rfl, hs.writes.unique hs'.writes⟩

/-- Who has recorded a row has saved the entry that has it. -/
theorem recorded_saved (h : store.Reach ok (System.start d x fun i => (rs i).prog S) s) :
    (∀ row r, Told (s.thread i).trace (.recordStatusChange row) r →
      ∃ user o e, Saved S (rs i) (s.thread i).trace user o e ∧ row ∈ e.statusRows) ∧
    ∀ row r, Told (s.thread i).trace (.recordRoleChange row) r →
      ∃ user o e, Saved S (rs i) (s.thread i).trace user o e ∧ row ∈ e.roleRows := by
  constructor
  · intro row r ht
    obtain ⟨l, hl, hg⟩ := grounds_of_told h ht
    generalize rs i = q at hg
    cases hg with
    | recordStatus hs hrow => exact ⟨_, _, _, hs.mono hl, hrow⟩
  · intro row r ht
    obtain ⟨l, hl, hg⟩ := grounds_of_told h ht
    generalize rs i = q at hg
    cases hg with
    | recordRole hs hrow => exact ⟨_, _, _, hs.mono hl, hrow⟩

theorem told_iff_mem_calls {l : Heard} {c : Call} :
    c ∈ l.map Sigma.fst ↔ ∃ r, Told l c r := by
  rw [List.mem_map]
  constructor
  · rintro ⟨⟨c, r⟩, ha, rfl⟩
    exact ⟨r, ha⟩
  · rintro ⟨r, ha⟩
    exact ⟨_, ha, rfl⟩

/-- No call is made twice. -/
theorem calls_nodup (h : store.Reach ok (System.start d x fun i => (rs i).prog S) s) (i : ι) :
    ((s.thread i).trace.map Sigma.fst).Nodup :=
  nodup_map_of_first fun _ _ _ htrace => (grounds h htrace).2

/-- What the calls of one kind have added: each of `as` once. -/
theorem filterMap_calls (h : store.Reach ok (System.start d x fun i => (rs i).prog S) s) (i : ι)
    {A : Type} {f : Call → Option A} {make : A → Call} (hf : ∀ {c a}, f c = some a ↔ c = make a)
    {as : List A} (has : as.Nodup)
    (hmem : ∀ a, (∃ r, Told (s.thread i).trace (make a) r) ↔ a ∈ as) :
    (((s.thread i).trace.map Sigma.fst).filterMap f : Multiset A) = as := by
  refine Multiset.coe_eq_coe.mpr ((List.perm_ext_iff_of_nodup ?_ has).mpr fun a => ?_)
  · refine (calls_nodup h i).filterMap fun c c' a hc hc' => ?_
    rw [hf.mp hc, hf.mp hc']
  · rw [List.mem_filterMap, ← hmem, ← told_iff_mem_calls]
    constructor
    · rintro ⟨c, hc, ha⟩
      exact hf.mp ha ▸ hc
    · exact fun hc => ⟨make a, hc, hf.mpr rfl⟩

/-- What a documented request has recorded are the rows of its entry. -/
theorem recorded_rows (h : store.Reach ok (System.start d x fun i => (rs i).prog S) s) {user : User}
    {o : Except Failure Response} {e : Entry}
    (hdoc : Documented S (rs i) (s.thread i).trace user o e) :
    (((s.thread i).trace.map Sigma.fst).map Call.audit).sum = e.audit := by
  obtain ⟨hstatus, hrole⟩ := recorded_saved (i := i) h
  have hone : ∀ {user' o' e'}, Saved S (rs i) (s.thread i).trace user' o' e' → e' = e :=
    fun hs => (saved_unique h (List.Subset.refl _) (List.Subset.refl _) hs hdoc.toSaved).2.2
  obtain ⟨hnodup, hnodup', -⟩ := hdoc.writes.distinct
  have hrows : (((s.thread i).trace.map Sigma.fst).filterMap Call.statusRow :
      Multiset UserStatusChange) = (e.statusRows : Multiset UserStatusChange) := by
    refine filterMap_calls h i Call.statusRow_iff hnodup fun row => ⟨?_, fun hin => ?_⟩
    · rintro ⟨r, ht⟩
      obtain ⟨user', o', e', hs, hin⟩ := hstatus row r ht
      rwa [hone hs] at hin
    · exact ⟨(), hdoc.status row hin⟩
  have hrows' : (((s.thread i).trace.map Sigma.fst).filterMap Call.roleRow :
      Multiset UserRoleChange) = (e.roleRows : Multiset UserRoleChange) := by
    refine filterMap_calls h i Call.roleRow_iff hnodup' fun row => ⟨?_, fun hin => ?_⟩
    · rintro ⟨r, ht⟩
      obtain ⟨user', o', e', hs, hin⟩ := hrole row r ht
      rwa [hone hs] at hin
    · exact ⟨(), hdoc.role row hin⟩
  rw [sum_audit, hrows, hrows', Entry.audit]

/-- Who has saved nothing has recorded nothing, and holds no rows. -/
theorem unsaved_rows (h : store.Reach ok (System.start d x fun i => (rs i).prog S) s)
    (hnone : ∀ user o e, ¬Saved S (rs i) (s.thread i).trace user o e) :
    (((s.thread i).trace.map Sigma.fst).map Call.audit).sum = 0 ∧
      ((s.thread i).log.map Write.audit).sum = 0 := by
  obtain ⟨hstatus, hrole⟩ := recorded_saved (i := i) h
  have hnostatus : ∀ row r, ¬Told (s.thread i).trace (.recordStatusChange row) r := by
    intro row r ht
    obtain ⟨user, o, e, hs, -⟩ := hstatus row r ht
    exact hnone user o e hs
  have hnorole : ∀ row r, ¬Told (s.thread i).trace (.recordRoleChange row) r := by
    intro row r ht
    obtain ⟨user, o, e, hs, -⟩ := hrole row r ht
    exact hnone user o e hs
  constructor
  · rw [sum_audit, filterMap_calls h i Call.statusRow_iff List.nodup_nil fun row =>
        ⟨fun ⟨r, ht⟩ => absurd ht (hnostatus row r), fun hin => absurd hin List.not_mem_nil⟩,
      filterMap_calls h i Call.roleRow_iff List.nodup_nil fun row =>
        ⟨fun ⟨r, ht⟩ => absurd ht (hnorole row r), fun hin => absurd hin List.not_mem_nil⟩]
    rfl
  · refine List.sum_eq_zero fun m hm => ?_
    obtain ⟨w, hw, rfl⟩ := List.mem_map.mp hm
    have hproduced := h.history.2 i w hw
    cases w with
    | insertStatus row => exact absurd (told_recordStatusChange hproduced) (hnostatus row ())
    | insertRole row => exact absurd (told_recordRoleChange hproduced) (hnorole row ())
    | _ => rfl

omit [Fintype ι] [DecidableEq ι] in
theorem writes_of_not_repository {c : Call} (hc : c.repository = false) {d : Db} {x : Outside} :
    (store.exec c d x).2.1 = [] := by
  cases c with
  | cacheGet | cacheSet | invalidateUser | publish | incrIp | expireIp | cooldownTtl | armCooldown
    | send => rfl
  | _ => cases hc

/-- Who has committed holds no rows. -/
theorem committed_rows (h : store.Reach ok (System.start d x fun i => (rs i).prog S) s)
    (hc : Told (s.thread i).trace .commit ()) : ((s.thread i).log.map Write.audit).sum = 0 := by
  have hphase : ∀ trace : Heard, Told trace .commit () →
      (commandMonitor Response).phase false trace = true := by
    intro trace
    induction trace using List.reverseRecOn with
    | nil => exact fun hin => absurd hin List.not_mem_nil
    | append_singleton trace a ih =>
      intro hin
      rw [Monitor.phase_snoc]
      change ((commandMonitor Response).phase false trace || store.commits a.1) = true
      rcases List.mem_append.mp hin with hin | hin
      · rw [ih hin]
        rfl
      · rw [← List.mem_singleton.mp hin]
        exact Bool.or_true _
  have hlog := h.log_invariant (M := fun _ => commandMonitor Response) (g := fun _ => false)
    (fun i => (rs i).oneCommit S)
    (P := fun _ committed log => committed = true → (log.map Write.audit).sum = 0)
    (fun _ hf => (nomatch hf)) ?_ (fun _ _ _ _ _ _ _ => rfl) (fun _ _ _ _ _ _ _ => rfl)
    (fun _ _ _ _ _ _ _ => rfl) i
  · exact hlog (hphase _ hc)
  · intro s i c _ hmay hold hcommits hnext
    have hcommitted : phase (fun _ => commandMonitor Response) (fun _ => false) s i = true := by
      change (_ || store.commits c) = true at hnext
      rwa [hcommits, Bool.or_false] at hnext
    rw [hcommitted] at hmay
    rw [answer, writes_of_not_repository hmay, List.append_nil]
    exact hold hcommitted

/-- Who has saved an account and committed has recorded all its rows before. -/
theorem documented_of_committed (h : store.Reach ok (System.start d x fun i => (rs i).prog S) s)
    (hc : Told (s.thread i).trace .commit ()) {user : User} {o : Except Failure Response}
    {e : Entry} (hs : Saved S (rs i) (s.thread i).trace user o e) :
    Documented S (rs i) (s.thread i).trace user o e := by
  have hone : ∀ {l user' o' e'}, l ⊆ (s.thread i).trace → Documented S (rs i) l user' o' e' →
      Documented S (rs i) (s.thread i).trace user o e := by
    intro l user' o' e' hl hdoc
    obtain ⟨rfl, rfl, rfl⟩ := saved_unique h (List.Subset.refl _) hl hs hdoc.toSaved
    exact hdoc.mono hl
  obtain ⟨l, hl, hg⟩ := grounds_of_told h hc
  have hread := hs.read
  have hw := hs.writes
  generalize rs i = r at hg hone hread hw ⊢
  cases hg with
  | registerCommit | codeCommit | reuseCommit | renewCommit | leaveCommit => cases hw
  | rejectCommit hrefused =>
    obtain ⟨otp, hacc, -, -⟩ := hread
    have hphone := Except.ok.inj (hrefused.valid.symm.trans hacc.valid)
    have hfound := hl hrefused.found
    rw [hphone] at hfound
    obtain rfl := Option.some.inj (told_unique h hfound hacc.found)
    exact absurd hacc.hash hrefused.hash
  | loginCommit hwelcomes =>
    cases hwelcomes with
    | again hagain hallowed =>
      obtain rfl := guess_read_unique h hread (hagain.mono hl)
      cases hw with
      | verify hpending =>
        rw [hpending] at hallowed
        exact absurd hallowed (by decide)
    | first hdoc => exact hone hl hdoc
  | commit hdoc => exact hone hl hdoc

/-- A request commits one entry. -/
theorem Committed.unique (h : store.Reach ok (System.start d x fun i => (rs i).prog S) s)
    {e e' : Entry} (he : Committed S (rs i) (s.thread i).trace e)
    (he' : Committed S (rs i) (s.thread i).trace e') : e = e' := by
  obtain ⟨user, o, hdoc⟩ := he.documented
  obtain ⟨user', o', hdoc'⟩ := he'.documented
  have hsub := List.Subset.refl (s.thread i).trace
  exact (saved_unique h hsub hsub hdoc.toSaved hdoc'.toSaved).2.2

/-- Who has ended without a commit has saved nothing. -/
theorem unsaved_of_ended (h : store.Reach ok (System.start d x fun i => (rs i).prog S) s)
    (hend : (s.thread i).prog.ended = true) (hc : ¬Told (s.thread i).trace .commit ())
    (user : User) (o : Except Failure Response) (e : Entry) :
    ¬Saved S (rs i) (s.thread i).trace user o e := by
  intro hs
  cases hp : (s.thread i).prog with
  | call c k =>
    rw [hp] at hend
    cases hend
  | raise f => exact raised_unsaved h hp _ _ hs.saved
  | ret a =>
    have hrests := returned_rests h hp
    have hw := hs.writes
    generalize rs i = r at hrests hw
    cases hrests with
    | registered _ _ hcommit | session _ _ _ hcommit | firstSession _ _ hcommit
    | renewed _ _ hcommit | changed _ hcommit => exact hc hcommit
    | sent | left => cases hw
    | unchanged _ hnone => exact hnone _ _ hs.saved

/-- What a request has recorded it has committed, or still holds. -/
theorem told_audit (h : store.Reach ok (System.start d x fun i => (rs i).prog S) s) (i : ι) :
    ∃ entry : Option Entry, (∀ e, entry = some e ↔ Committed S (rs i) (s.thread i).trace e) ∧
      (((s.thread i).trace.map Sigma.fst).map Call.audit).sum =
        entry.elim 0 Entry.audit + ((s.thread i).log.map Write.audit).sum := by
  by_cases hcom : ∃ e, Committed S (rs i) (s.thread i).trace e
  · obtain ⟨e, he⟩ := hcom
    obtain ⟨user, o, hdoc⟩ := he.documented
    refine ⟨some e, fun e' => ⟨?_, fun he' => congrArg some (he.unique h he')⟩, ?_⟩
    · rintro ⟨⟩
      exact he
    · rw [recorded_rows h hdoc, committed_rows h he.told, add_zero]
      rfl
  · refine ⟨none, fun e => ⟨nofun, fun he => absurd ⟨e, he⟩ hcom⟩, ?_⟩
    change _ = 0 + _
    rw [zero_add]
    by_cases hc : Told (s.thread i).trace .commit ()
    · obtain ⟨htrace, hlog⟩ := unsaved_rows (i := i) h fun user o e hs =>
        hcom ⟨e, hc, user, o, documented_of_committed h hc hs⟩
      rw [htrace, hlog]
    · cases hend : (s.thread i).prog.ended with
      | true =>
        obtain ⟨htrace, hlog⟩ := unsaved_rows h (unsaved_of_ended h hend hc)
        rw [htrace, hlog]
      | false =>
        have hnone : ∀ a ∈ (s.thread i).trace, store.commits a.1 = false := by
          rintro ⟨c, r⟩ ha
          refine Bool.eq_false_iff.mpr fun hcommits => hc ?_
          obtain rfl := commits_iff.mp hcommits
          exact ha
        rw [h.uncommitted counted_audit i hend hnone, List.map_map]
        rfl

/-- Who has published has committed the entry, and published its event. -/
theorem published (h : store.Reach ok (System.start d x fun i => (rs i).prog S) s)
    {ev : DomainEvent} {r : Unit} (ht : Told (s.thread i).trace (.publish ev) r) :
    ∃ e, Committed S (rs i) (s.thread i).trace e ∧ e.events = [ev] := by
  obtain ⟨l, hl, hg⟩ := grounds_of_told h ht
  generalize rs i = q at hg ⊢
  cases hg with
  | @publish _ _ user o e _ hdoc hc hev =>
    obtain ⟨-, -, ev', hev'⟩ := hdoc.writes.distinct
    rw [hev', List.mem_singleton] at hev
    exact ⟨e, ⟨hl hc, user, o, hdoc.mono hl⟩, hev ▸ hev'⟩

/-- Who has ended with an entry committed has published its event. -/
theorem published_of_ended (h : store.Reach ok (System.start d x fun i => (rs i).prog S) s)
    (hend : (s.thread i).prog.ended = true) {e : Entry}
    (he : Committed S (rs i) (s.thread i).trace e) :
    ∃ ev, Told (s.thread i).trace (.publish ev) () := by
  obtain ⟨user, o, hdoc⟩ := he.documented
  have hall : ∀ {user' o' e'}, Documented S (rs i) (s.thread i).trace user' o' e' →
      (∀ ev ∈ e'.events, Told (s.thread i).trace (.publish ev) ()) →
      ∃ ev, Told (s.thread i).trace (.publish ev) () := by
    intro user' o' e' hdoc' hpub
    obtain ⟨-, -, ev, hev⟩ := hdoc'.writes.distinct
    exact ⟨ev, hpub ev (hev ▸ List.mem_singleton.mpr rfl)⟩
  cases hp : (s.thread i).prog with
  | call c k =>
    rw [hp] at hend
    cases hend
  | raise f => exact absurd hdoc.saved (raised_unsaved h hp _ _)
  | ret a =>
    have hrests := returned_rests h hp
    have hw := hdoc.writes
    generalize rs i = r at hrests hw hall
    cases hrests with
    | firstSession hdoc' _ _ hpub | changed hdoc' _ hpub => exact hall hdoc' hpub
    | session _ _ _ _ hnone | unchanged _ hnone => exact absurd hdoc.saved (hnone _ _)
    | registered | sent | renewed | left => cases hw

/-- What a request has published: the event of its entry, or nothing yet. -/
theorem told_events (h : store.Reach ok (System.start d x fun i => (rs i).prog S) s)
    {entry : Option Entry}
    (hentry : ∀ e, entry = some e ↔ Committed S (rs i) (s.thread i).trace e) :
    (((s.thread i).trace.map Sigma.fst).filterMap Call.event : Multiset DomainEvent) =
        entry.elim 0 (fun e => (e.events : Multiset DomainEvent)) ∨
      (s.thread i).prog.ended = false ∧
        (((s.thread i).trace.map Sigma.fst).filterMap Call.event : Multiset DomainEvent) = 0 := by
  by_cases hpub : ∃ ev, Told (s.thread i).trace (.publish ev) ()
  · obtain ⟨ev, ht⟩ := hpub
    obtain ⟨e, he, hev⟩ := published h ht
    rw [(hentry e).mpr he]
    refine .inl (filterMap_calls h i Call.event_iff (hev ▸ List.nodup_singleton ev) fun ev' =>
      ⟨fun ⟨r, ht'⟩ => ?_, fun hin => ⟨(), ?_⟩⟩)
    · obtain ⟨e', he', hev'⟩ := published h ht'
      rw [he.unique h he', hev']
      exact List.mem_singleton.mpr rfl
    · rw [hev, List.mem_singleton] at hin
      exact hin ▸ ht
  · have hzero : (((s.thread i).trace.map Sigma.fst).filterMap Call.event :
        Multiset DomainEvent) = 0 :=
      filterMap_calls h i Call.event_iff List.nodup_nil fun ev =>
        ⟨fun ⟨r, ht⟩ => absurd ⟨ev, ht⟩ hpub, fun hin => absurd hin List.not_mem_nil⟩
    cases hend : (s.thread i).prog.ended with
    | false => exact .inr ⟨rfl, hzero⟩
    | true =>
      have hnone : entry = none := Option.eq_none_iff_forall_ne_some.mpr fun e he =>
        hpub (published_of_ended h hend ((hentry e).mp he))
      rw [hnone]
      exact .inl hzero

/-- **Nothing lost, nothing twice.** The audit tables are the first ones and the
rows of the committed entries; the stream is the first one and the events of
entries that are committed, all of those whose requests have ended. -/
theorem trail_balanced (h : store.Reach ok (System.start d x fun i => (rs i).prog S) s) :
    ∃ entry announced, Trail S rs d x s entry announced := by
  choose entry hentry haudit using told_audit h
  classical
  refine ⟨entry, Finset.univ.filter fun i =>
    (((s.thread i).trace.map Sigma.fst).filterMap Call.event : Multiset DomainEvent) =
      (entry i).elim 0 (fun e => (e.events : Multiset DomainEvent)), hentry, ?_, fun i hend => ?_,
    ?_⟩
  · have hbalance := h.balance counted_audit fun s' j e hr hp =>
      (unsaved_rows hr fun user o entry hs => raised_unsaved hr hp _ _ hs.saved).2
    have hsum : ∑ i, ((s.thread i).trace.map fun a => a.1.audit).sum =
        ∑ i, (entry i).elim 0 Entry.audit + ∑ i, ((s.thread i).log.map Write.audit).sum := by
      rw [← Finset.sum_add_distrib]
      refine Finset.sum_congr rfl fun i _ => ?_
      rw [← haudit i, List.map_map]
      rfl
    rw [hsum, ← add_assoc] at hbalance
    exact add_right_cancel hbalance
  · rcases told_events h (hentry i) with hall | ⟨hgoes, -⟩
    · exact Finset.mem_filter.mpr ⟨Finset.mem_univ i, hall⟩
    · rw [hend] at hgoes
      cases hgoes
  · rw [h.shown shown_events, Finset.sum_filter]
    refine congrArg _ (Finset.sum_congr rfl fun i _ => ?_)
    have htold : ((s.thread i).trace.map fun a => (a.1.event.toList : Multiset DomainEvent)).sum =
        (((s.thread i).trace.map Sigma.fst).filterMap Call.event : Multiset DomainEvent) := by
      rw [← sum_event, List.map_map]
      rfl
    rw [htold]
    split_ifs with hall
    · exact hall
    · exact ((told_events h (hentry i)).resolve_left hall).2

end Flight

/-- Three requests on one account: the second reads it before the first saves it. -/
def contended : Fin 3 → Request
  | 0 => suspend
  | 1 => .changeRole ⟨7, "driver", none, some 1, 6⟩
  | 2 => .changeStatus ⟨7, "suspended", none, some 1, 7⟩

/-- The first has ended, the second has committed and not published, the third
holds its row. -/
theorem trail_balanced_contended : ∃ s : InFlight (Fin 3),
    (s.db.statusHistory.length, s.db.roleHistory.length, s.outside.stream.length,
      (s.thread 2).log.length) = (1, 1, 1, 2) ∧
    ∃ entry announced, Trail plainEnv contended activeAccount {} s entry announced := by
  have hrun : ((store.follow Any
      (System.start activeAccount {} fun i => (contended i).prog plainEnv)
      [1, 0, 0, 0, 0, 0, 0, 0, 0, 1, 1, 1, 2, 2, 2]).map fun s =>
        (s.db.statusHistory.length, s.db.roleHistory.length, s.outside.stream.length,
          (s.thread 2).log.length)) = some (1, 1, 1, 2) := by
    decide +kernel
  obtain ⟨s, hs, hp⟩ := Option.map_eq_some_iff.mp hrun
  exact ⟨s, hp, trail_balanced (reach_of_follow hs)⟩

end DiddiFreeID
