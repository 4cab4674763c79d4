/-
# What a request in flight has done to the sessions

The stages of `Sessions.lean` read against the store: which tokens a request
in a stage has stored, revoked or picked to revoke, whose account it is
saving, and what its uncommitted writes can be (`Written`). One lemma for
each of these says what a move of the request does to it.

Key definitions: `Stage.source`, `Stage.isClosing`, `Written`.
Key theorems: `Moves.sound`, `Moves.written`.
-/
import DiddiFreeID.Sessions
import DiddiFreeID.Tokens

namespace DiddiFreeID

open Transact Engine

variable {S : Env} {ι : Type}

/-! ### Stages of the requests in flight -/

namespace Stage

/-- The tokens that a request in this stage has stored and not committed. -/
def stored : Stage → List RefreshToken
  | .opened t _ => [t]
  | _ => []

/-- No token is written yet. -/
def untouched : Stage → Bool
  | .idle | .found _ | .rotating _ | .saved _ | .listed .. => true
  | _ => false

/-- The account a request in this stage has saved and not committed, if it
is to be suspended or its session is to be opened. -/
def Saves (v : User) : Stage → Prop
  | .saved user => user = v
  | .listed _ _ user | .closing _ user => user = some v
  | .opened t _ => t.userId = v.id
  | _ => False

/-- The account it is closing the sessions of, or about to, after saving it. -/
def suspending : Stage → Option User
  | .saved user => some user
  | .listed _ _ user | .closing _ user => user
  | _ => none

/-- A request that closes the sessions of `u` has picked its rows. -/
def isClosing (u : Uuid) : Stage → Bool
  | .listed userId .. | .closing userId _ => userId = u
  | _ => false

/-- A request that suspends `u` has picked its rows. -/
def isSuspending (u : Uuid) : Stage → Bool
  | .listed userId _ (some _) | .closing userId (some _) => userId = u
  | _ => false

theorem isClosing_of_isSuspending {u : Uuid} {g : Stage} (h : g.isSuspending u = true) :
    g.isClosing u = true := by
  unfold isSuspending at h
  split at h
  · exact h
  · exact h
  · cases h

/-- A request that opens a session of `u` has written. -/
def isSession (u : Uuid) : Stage → Bool
  | .claimed stored => stored.userId = u
  | .opened t _ | .granted t _ => t.userId = u
  | _ => false

/-- It has written, and not committed. -/
def isOpening (u : Uuid) : Stage → Bool
  | .claimed stored => stored.userId = u
  | .opened t _ => t.userId = u
  | _ => false

theorem isSession_of_isOpening {u : Uuid} {g : Stage} (h : g.isOpening u = true) :
    g.isSession u = true := by
  cases g with
  | claimed | opened => exact h
  | _ => cases h

/-- The call is the first write of a session of `u`. -/
def Opens (u : Uuid) (g : Stage) (c : Call) : Prop :=
  (∃ stored now, g = .rotating stored ∧ stored.userId = u ∧ c = .revoke stored.id now) ∨
    ∃ t, (g = .idle ∨ ∃ user, g = .saved user) ∧ c = .saveToken t ∧ t.userId = u

/-- The token that is presented, or was, with its account. -/
def source : Stage → Option (Uuid × Uuid)
  | .found stored | .rotating stored | .claimed stored => some (stored.id, stored.userId)
  | .opened t (some old) | .granted t (some old) => some (old, t.userId)
  | _ => none

/-- The stages of a request that has revoked the token `id`. -/
def HasRevoked (id : Uuid) : Stage → Prop
  | .claimed stored => stored.id = id
  | .opened _ old | .granted _ old => old = some id
  | .released | .ended => True
  | _ => False

/-- The stages of a request that has stored the token `t`. -/
def HasStored (t : RefreshToken) : Stage → Prop
  | .opened t' _ | .granted t' _ => t' = t
  | _ => False

/-- The request may be over. -/
def resting : Stage → Bool
  | .idle | .found _ | .granted .. | .ended => true
  | _ => false

end Stage

namespace SessionRequest

variable {o : SessionRequest} {d : Db} {g g' : Stage} {c : Call}

theorem Moves.ne_mistaken (h : Moves o d g c g') : g' ≠ .mistaken := by
  cases h <;> simp

/-- A request closes sessions from the moment it picks the rows. -/
theorem Moves.isClosing {u : Uuid} (h : Moves o d g c g') (h' : g'.isClosing u = true) :
    g.isClosing u = true ∨ c = .liveTokens u := by
  cases h with
  | @list stored =>
    obtain rfl : stored.userId = u := of_decide_eq_true h'
    exact .inr rfl
  | @listSuspended user =>
    obtain rfl : user.id = u := of_decide_eq_true h'
    exact .inr rfl
  | revokeAll => exact .inl h'
  | _ => cases h'

/-- A request that suspends an account has saved it when it picks the rows. -/
theorem Moves.isSuspending {u : Uuid} (h : Moves o d g c g') (h' : g'.isSuspending u = true) :
    g.isSuspending u = true ∨ ∃ user, g = .saved user ∧ c = .liveTokens u := by
  cases h with
  | @listSuspended user =>
    obtain rfl : user.id = u := of_decide_eq_true h'
    exact .inr ⟨user, rfl, rfl⟩
  | @revokeAll userId ids user =>
    cases user with
    | none => cases h'
    | some user => exact .inl h'
  | _ => cases h'

/-- A request opens a session from its first write. -/
theorem Moves.isSession {u : Uuid} (h : Moves o d g c g') (h' : g'.isSession u = true) :
    g.isSession u = true ∨ g.Opens u c := by
  cases h with
  | @claim stored now => exact .inr (.inl ⟨stored, now, rfl, of_decide_eq_true h', rfl⟩)
  | @login t => exact .inr (.inr ⟨t, .inl rfl, rfl, of_decide_eq_true h'⟩)
  | @loginFirst user t => exact .inr (.inr ⟨t, .inr ⟨user, rfl⟩, rfl, of_decide_eq_true h'⟩)
  | @rotate stored t hu =>
    obtain rfl : t.userId = u := of_decide_eq_true h'
    exact .inl (decide_eq_true hu.symm)
  | grant | deliver => exact .inl h'
  | _ => cases h'

theorem Moves.isOpening {u : Uuid} (h : Moves o d g c g') (h' : g'.isOpening u = true) :
    g.isOpening u = true ∨ g.Opens u c := by
  refine (h.isSession (Stage.isSession_of_isOpening h')).imp_left fun hg => ?_
  cases g with
  | claimed | opened => exact hg
  | granted =>
    cases h
    cases h'
  | _ => cases hg

theorem Moves.hasRevoked {id : Uuid} (h : Moves o d g c g')
    (hor : (∃ now, c = .revoke id now) ∨ g.HasRevoked id) : g'.HasRevoked id := by
  cases h with
  | @claim stored now =>
    rcases hor with ⟨_, hc⟩ | hg
    · cases hc
      rfl
    · exact absurd hg fun h => h
  | rotate =>
    rcases hor with ⟨_, hc⟩ | hg
    · cases hc
    · exact congrArg some hg
  | grant =>
    rcases hor with ⟨_, hc⟩ | hg
    · cases hc
    · exact hg
  | deliver hc =>
    rcases hor with ⟨_, rfl⟩ | hg
    · cases hc
    · exact hg
  | release | closeOne | settle | unsaved | refuse | settleSaved | close | follow => trivial
  | prepare hc =>
    rcases hor with ⟨_, rfl⟩ | hg
    · cases hc
    · exact hg
  | _ =>
    rcases hor with ⟨_, hc⟩ | hg
    · cases hc
    · exact absurd hg fun h => h

theorem Moves.hasStored {t : RefreshToken} (h : Moves o d g c g')
    (hor : c = .saveToken t ∨ g.HasStored t) : g'.HasStored t := by
  cases h with
  | login | rotate | loginFirst =>
    rcases hor with hc | hg
    · cases hc
      rfl
    · exact absurd hg fun h => h
  | grant =>
    rcases hor with hc | hg
    · cases hc
    · exact hg
  | deliver hf =>
    rcases hor with rfl | hg
    · cases hf
    · exact hg
  | prepare hf | follow hf =>
    rcases hor with rfl | hg
    · cases hf
    · exact absurd hg fun h => h
  | _ =>
    rcases hor with hc | hg
    · cases hc
    · exact absurd hg fun h => h

theorem Moves.hasListed {u : Uuid} (h : Moves o d g c g')
    (hor : c = .liveTokens u ∨ g.isClosing u = true ∨ g = .ended) :
    g'.isClosing u = true ∨ g' = .ended := by
  cases h with
  | list | listSuspended =>
    rcases hor with hc | hg | hg
    · cases hc
      exact .inl (decide_eq_true rfl)
    · cases hg
    · cases hg
  | revokeAll =>
    rcases hor with hc | hg | hg
    · cases hc
    · exact .inl hg
    · cases hg
  | settle | unsaved | refuse | settleSaved | close | closeOne | follow => exact .inr rfl
  | prepare hf | deliver hf =>
    rcases hor with rfl | hg | hg
    · cases hf
    · cases hg
    · cases hg
  | _ =>
    rcases hor with hc | hg | hg
    · cases hc
    · cases hg
    · cases hg

/-- What a request saves it may save, and it closes sessions for that
account, after suspending it; else it presents a token. -/
def Sound (o : SessionRequest) : Stage → Prop
  | .found _ => o.presents
  | .saved user => o.saves user
  | .listed userId _ user | .closing userId user =>
    match user with
    | none => o.presents
    | some user => user.id = userId ∧ user.status = .suspended
  | _ => True

theorem Moves.sound (h : Moves o d g c g') (hg : Sound o g) : Sound o g' := by
  cases h with
  | find ho => exact ho
  | save ho => exact ho
  | list | record | revokeAll => exact hg
  | listSuspended hs => exact ⟨rfl, hs⟩
  | _ => trivial

theorem Moves.source {p : Uuid × Uuid} (h : Moves o d g c g') (h' : g'.source = some p) :
    g.source = some p ∨ ∃ hash stored, g = .idle ∧ c = .findByHash hash ∧
      d.findByHash hash = some stored ∧ p = (stored.id, stored.userId) := by
  cases h with
  | @find hash stored _ hf => exact .inr ⟨hash, stored, rfl, rfl, hf, (Option.some.inj h').symm⟩
  | @rotate stored t hu =>
    rw [Stage.source, hu] at h'
    exact .inl h'
  | allow | claim | deliver => exact .inl h'
  | @grant t old =>
    cases old with
    | none => cases h'
    | some old => exact .inl h'
  | _ => cases h'

theorem resting_of_ret {a : Response} (h : o.monitor.mayRet g a) (hg : g ≠ .mistaken) :
    g.resting = true := by
  cases g with
  | idle | ended | granted => rfl
  | mistaken => exact absurd rfl hg
  | _ => exact absurd h fun h => h

theorem resting_of_raise {e : Failure} (h : o.monitor.mayRaise g e) (hg : g ≠ .mistaken) :
    g.resting = true := by
  cases g with
  | idle | found | ended => rfl
  | mistaken => exact absurd rfl hg
  | _ => exact absurd h fun h => h

/-- Only a request that was granted a session answers with an access token. -/
theorem isSession_of_ret {u : Uuid} {a : Response} (h : o.monitor.mayRet g a) (hg : g ≠ .mistaken)
    (hu : a.grants u = true) : g.isSession u = true := by
  cases g with
  | granted t old => exact decide_eq_true (h u hu)
  | idle | ended =>
    have hnone := h u
    rw [hu] at hnone
    cases hnone
  | mistaken => exact absurd rfl hg
  | _ => exact absurd h fun h => h

/-- What a stage says of the uncommitted writes. -/
structure Written (u : Uuid) (g : Stage) (log : List Write) : Prop where
  stored : inserted log = g.stored
  untouched : g.untouched = true → ∀ ids now, .revokeTokens ids now ∉ log
  saves : ∀ v now, .updateUser v now ∈ log → g.Saves v
  saved : ∀ v, g.suspending = some v → v.id = u → ∃ now, .updateUser v now ∈ log

theorem Written.nil {u : Uuid} (hs : g.stored = []) (hv : g.suspending = none) :
    Written u g [] :=
  ⟨hs.symm, fun _ _ _ => List.not_mem_nil, fun _ _ h => absurd h List.not_mem_nil,
    fun v h => by rw [hv] at h; cases h⟩

theorem Written.append {u : Uuid} {log ws : List Write} (h : Written u g log)
    (hstored : g'.stored = g.stored ++ inserted ws)
    (huntouched : g'.untouched = true →
      g.untouched = true ∧ ∀ ids now, .revokeTokens ids now ∉ ws)
    (hsaves : ∀ v, g.Saves v ∨ (∃ now, .updateUser v now ∈ ws) → g'.Saves v)
    (hsaved : ∀ v, g'.suspending = some v → v.id = u →
      g.suspending = some v ∨ ∃ now, .updateUser v now ∈ ws) : Written u g' (log ++ ws) where
  stored := by rw [inserted_append, h.stored, hstored]
  untouched hg ids now hm := by
    obtain ⟨hg, hws⟩ := huntouched hg
    rcases List.mem_append.mp hm with hm | hm
    · exact h.untouched hg ids now hm
    · exact hws ids now hm
  saves v now hm := by
    rcases List.mem_append.mp hm with hm | hm
    · exact hsaves v (.inl (h.saves v now hm))
    · exact hsaves v (.inr ⟨now, hm⟩)
  saved v hv hid := by
    rcases hsaved v hv hid with hv | ⟨now, hm⟩
    · obtain ⟨now, hm⟩ := h.saved v hv hid
      exact ⟨now, List.mem_append_left _ hm⟩
    · exact ⟨now, List.mem_append_right _ hm⟩

theorem inserted_eq_nil {ws : List Write} (h : ∀ w ∈ ws, ∀ t, w ≠ .insertToken t) :
    inserted ws = [] := by
  rw [inserted, List.filterMap_eq_nil_iff]
  intro w hw
  cases w with
  | insertToken t => exact absurd rfl (h _ hw t)
  | _ => rfl

/-- A write that is of no token, and of no account that was there. -/
def inert : Write → Bool
  | .updateUser .. | .insertToken _ | .revokeTokens .. => false
  | _ => true

section Written

variable {u : Uuid} {log ws : List Write}

/-- Inert writes leave all of it as it is. -/
theorem Written.inert (h : Written u g log) (hws : ∀ w ∈ ws, inert w = true)
    (hstored : g'.stored = g.stored) (huntouched : g'.untouched = true → g.untouched = true)
    (hsaves : ∀ v, g.Saves v → g'.Saves v)
    (hsaved : ∀ v, g'.suspending = some v → g.suspending = some v) : Written u g' (log ++ ws) := by
  have hnone : ∀ {w}, SessionRequest.inert w = false → w ∉ ws := by
    intro w hw hm
    rw [hws w hm] at hw
    cases hw
  refine h.append ?_ (fun hg => ⟨huntouched hg, fun ids now => hnone rfl⟩) (fun v hv => ?_)
    fun v hv _ => .inl (hsaved v hv)
  · rw [hstored, inserted_eq_nil fun w hm t ht => hnone (by rw [ht]; rfl) hm, List.append_nil]
  · rcases hv with hv | ⟨now, hm⟩
    · exact hsaves v hv
    · exact absurd hm (hnone rfl)

/-- A call that writes nothing. -/
theorem Written.quiet (h : Written u g log) (hstored : g'.stored = g.stored)
    (huntouched : g'.untouched = true → g.untouched = true) (hsaves : ∀ v, g.Saves v → g'.Saves v)
    (hsaved : ∀ v, g'.suspending = some v → g.suspending = some v) : Written u g' (log ++ []) :=
  h.inert (fun _ hw => absurd hw List.not_mem_nil) hstored huntouched hsaves hsaved

/-- Revocations touch the tokens. -/
theorem Written.revoked (h : Written u g log) (hws : ∀ w ∈ ws, ∃ ids now, w = .revokeTokens ids now)
    (hstored : g'.stored = g.stored) (huntouched : g'.untouched = false)
    (hsaves : ∀ v, g.Saves v → g'.Saves v)
    (hsaved : ∀ v, g'.suspending = some v → g.suspending = some v) : Written u g' (log ++ ws) := by
  refine h.append ?_ (fun hg => ?_) (fun v hv => ?_) fun v hv _ => .inl (hsaved v hv)
  · rw [hstored, inserted_eq_nil fun w hm t ht => ?_, List.append_nil]
    obtain ⟨ids, now, rfl⟩ := hws w hm
    cases ht
  · rw [huntouched] at hg
    cases hg
  · rcases hv with hv | ⟨now, hm⟩
    · exact hsaves v hv
    · obtain ⟨ids, now', he⟩ := hws _ hm
      cases he

/-- A token is stored. -/
theorem Written.opens (h : Written u g log) {t : RefreshToken} (old : Option Uuid)
    (hstored : g.stored = []) (hsaves : ∀ v, g.Saves v → t.userId = v.id) :
    Written u (.opened t old) (log ++ [.insertToken t]) := by
  refine h.append ?_ (fun hg => by cases hg) (fun v hv => ?_) fun v hv => by cases hv
  · rw [hstored]
    rfl
  · rcases hv with hv | ⟨now, hm⟩
    · exact hsaves v hv
    · cases List.mem_singleton.mp hm

/-- An account is saved; one that was there is updated. -/
theorem Written.saves_user (h : Written u .idle log) {dv : Db} (hu : (dv.findById u).isSome = true)
    (user : User) (now : Time) : Written u (.saved user) (log ++ (dv.saveUser user now).2) := by
  have hw : ∀ w ∈ (dv.saveUser user now).2, w = .updateUser user now ∨ ∃ v, w = .insertUser v :=
    fun w hw => (Db.eq_of_mem_saveUser hw).imp_right fun h => ⟨_, h⟩
  refine h.append ?_ (fun _ => ⟨rfl, fun ids now hm => ?_⟩) (fun v hv => ?_) fun v hv hid => ?_
  · rw [inserted_eq_nil fun w hm t ht => ?_]
    · rfl
    · rcases hw w hm with rfl | ⟨v, rfl⟩ <;> cases ht
  · rcases hw _ hm with he | ⟨v, he⟩ <;> cases he
  · rcases hv with hv | ⟨now', hm⟩
    · exact absurd hv fun h => h
    · rcases hw _ hm with he | ⟨v, he⟩
      · cases he
        rfl
      · cases he
  · cases hv
    obtain ⟨row, hrow⟩ := Option.isSome_iff_exists.mp hu
    refine .inr ⟨now, ?_⟩
    rw [← hid] at hrow
    simp only [Db.saveUser_of_findById hrow now]
    exact List.mem_singleton_self _

end Written

/-- What is done to codes writes codes. -/
theorem preparatory_inert (hc : c.preparatory = true) (d : Db) (x : Outside) :
    ∀ w ∈ (exec c d x).2.1, inert w = true := by
  intro w hw
  cases c with
  | registerAttempt id =>
    rw [Db.eq_of_mem_registerAttempt hw]
    rfl
  | markConsumed id now =>
    rw [Db.eq_of_mem_consumption hw]
    rfl
  | findById | findByPhone | findLatestActive => exact absurd hw List.not_mem_nil
  | _ => cases hc

theorem following_writes (hc : c.following = true) (d : Db) (x : Outside) :
    (exec c d x).2.1 = [] := by
  cases c with
  | invalidateUser | publish => rfl
  | _ => cases hc

theorem saveUser_refused {d : Db} {user : User} {now : Time} (h : (d.saveUser user now).1 = false) :
    (d.saveUser user now).2 = [] := by
  unfold Db.saveUser at h ⊢
  cases hid : d.findById user.id with
  | some row =>
    rw [hid] at h
    cases h
  | none =>
    cases hphone : d.findByPhone user.phone with
    | some row => rfl
    | none =>
      rw [hid, hphone] at h
      cases h

/-- A call keeps what the stages say. -/
theorem Moves.written {u : Uuid} {log : List Write} {x : Outside}
    (h : Moves o (store.view d log) g c g') (hc : c ≠ .commit) (hl : Written u g log)
    (hu : (d.findById u).isSome = true) :
    Written u g' (log ++ (exec c (store.view d log) x).2.1) := by
  cases h with
  | prepare hp =>
    exact hl.inert (preparatory_inert hp _ _) rfl id (fun _ hv => hv) fun _ hv => hv
  | @save user now => exact hl.saves_user (@findById_isSome_view _ _ log hu) user now
  | unsaved hs =>
    simp only [exec, saveUser_refused hs]
    exact hl.quiet rfl (fun _ => rfl) (fun _ hv => hv) fun _ hv => hv
  | login | rotate => exact hl.opens _ rfl fun v hv => absurd hv fun h => h
  | loginFirst hu' =>
    refine hl.opens _ rfl fun v hv => ?_
    obtain rfl := hv
    exact hu'
  | release | claim =>
    exact hl.revoked (fun w hw => ⟨_, _, Db.eq_of_mem_revocation hw⟩) rfl rfl (fun _ hv => hv)
      fun _ hv => hv
  | revokeAll =>
    exact hl.revoked (fun w hw => ⟨_, _, List.mem_singleton.mp hw⟩) rfl rfl (fun _ hv => hv)
      fun _ hv => hv
  | record =>
    refine hl.inert (fun w hw => ?_) rfl id (fun _ hv => hv) fun _ hv => hv
    rw [List.mem_singleton.mp hw]
    rfl
  | listSuspended => exact hl.quiet rfl id (fun v hv => congrArg some hv) fun _ hv => hv
  | settle | grant | settleSaved | close | closeOne => exact absurd rfl hc
  | unknown | find | allow | refuse =>
    exact hl.quiet rfl (fun _ => rfl) (fun _ hv => hv) fun _ hv => hv
  | list => exact hl.quiet rfl (fun _ => rfl) (fun _ hv => absurd hv fun h => h) fun _ hv => hv
  | deliver hf | follow hf =>
    rw [following_writes hf]
    exact hl.quiet rfl id (fun _ hv => hv) fun _ hv => hv

/-- The end of a transaction leaves nothing to say. -/
theorem Moves.written_commit {u : Uuid} (h : Moves o d g .commit g') : Written u g' [] := by
  cases h with
  | prepare hp | deliver hp | follow hp => cases hp
  | _ => exact .nil rfl rfl

theorem written_resting {u : Uuid} (h : g.resting = true) : Written u g [] := by
  cases g with
  | idle | found | granted | ended => exact .nil rfl rfl
  | _ => cases h

end SessionRequest

end DiddiFreeID
