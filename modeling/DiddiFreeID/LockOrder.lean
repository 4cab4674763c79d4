/-
# Every request ends

An `UPDATE` waits for the transaction that has changed its row, and two that wait for
each other would do so for good: a bulk `UPDATE` locks its rows one after the other and
keeps those it has while it waits. It does not come to that: every command locks a code
before an account and an account before tokens, tokens in the order of the table
(`Request.climbs`), and the one lock it may take out of this order is that of the token
it has just drawn, which nobody else has seen (`new_token_free`). So whatever commands
are in flight, as long as every one of them gets its turn again and again all of them
end (`every_request_ends`).

Key definitions: `Key.rank`, `Call.locks`, `lockOrder`.
Key theorems: `Request.climbs`, `new_token_free`, `every_request_ends`.
-/
import DiddiFreeID.Integrity
import DiddiFreeID.Transact.Locks

namespace DiddiFreeID

open Transact Engine

section Order

/- Where the rows of the tokens stand in their table. A live row keeps its place: it is
written again only to be revoked. -/
variable (place : Uuid ↪ ℕ)

/-- Codes come before accounts, accounts before tokens, tokens as they stand. -/
def Key.rank : Key → ℕ
  | .otp _ => 0
  | .user _ => 1
  | .phone _ => 2
  | .token id => 3 + place id

/-- The locks that a call takes, in this order: a bulk `UPDATE` comes to its rows as they
stand. -/
def Call.locks : Call → List Key
  | .saveUser u _ => [.user u.id, .phone u.phone]
  | .saveOtp o => [.otp o.id]
  | .registerAttempt id => [.otp id]
  | .markConsumed id _ => [.otp id]
  | .saveToken t => [.token t.id]
  | .revoke id _ => [.token id]
  | .revokeThese ids _ => (ids.mergeSort fun a b => place a ≤ place b).map .token
  | _ => []

/-- A call may have to wait, unless it saves a token that was just drawn. -/
def Call.waits : Call → Bool
  | .saveToken _ => false
  | _ => true

theorem keys_subset_locks (c : Call) (d : Db) (x : Outside) :
    ∀ w ∈ (store.exec c d x).2.1, store.keys w ⊆ c.locks place := by
  intro w hw
  have hmakes := exec_makes hw
  cases c with
  | saveUser u now =>
    rcases hmakes with rfl | rfl
    · exact fun k hk => List.mem_append_left [_] hk
    · exact List.Subset.refl _
  | revokeThese ids now =>
    obtain ⟨live, hlive, rfl⟩ := hmakes
    exact List.map_subset _ fun id hid => List.mem_mergeSort.mpr (hlive hid)
  | recordStatusChange | recordRoleChange | saveOtp | registerAttempt | markConsumed | saveToken
  | revoke =>
    obtain rfl := hmakes
    exact List.Subset.refl _
  | _ => exact absurd hmakes id

/-- A call takes its locks in ascending order. -/
theorem locks_ascend (c : Call) :
    (c.locks place).Pairwise fun k k' => k = k' ∨ k.rank place < k'.rank place := by
  cases c with
  | saveUser u now => simp [Call.locks, Key.rank]
  | revokeThese ids now =>
    have hsorted : (ids.mergeSort fun a b => place a ≤ place b).Pairwise fun a b =>
        decide (place a ≤ place b) = true :=
      List.pairwise_mergeSort (fun a b c hab hbc => by simp only [decide_eq_true_eq] at *; omega)
        (fun a b => by simp only [Bool.or_eq_true, decide_eq_true_eq]; omega) ids
    refine List.pairwise_map.mpr (hsorted.imp fun {a b} hab => ?_)
    rcases (of_decide_eq_true hab).eq_or_lt with heq | hlt
    · exact .inl (congrArg Key.token (place.injective heq))
    · exact .inr (Nat.add_lt_add_left hlt 3)
  | _ => simp [Call.locks]

/-- The monitor of the order. -/
abbrev lockOrder (α : Type) : Monitor Call Call.Resp Failure α (List Key) :=
  store.ascending (Key.rank place) (Call.locks place) Call.waits

end Order

/-! ### The nine commands -/

section Programs

variable {α : Type} {g : List Key} {place : Uuid ↪ ℕ}

theorem climbs_call {c : Call} {k : c.Resp → Cmd α} (hc : c ≠ .commit)
    (hmay : c.waits = true → ∀ k ∈ c.locks place, ∀ k' ∈ g, k' = k ∨ k'.rank place < k.rank place)
    (hk : ∀ r, (k r).Follows (lockOrder place α) (g ++ c.locks place)) :
    (Prog.call c k).Follows (lockOrder place α) g := by
  refine ⟨hmay, fun r => ?_⟩
  have hnext : (lockOrder place α).next g c r = g ++ c.locks place := if_neg (mt commits_iff.mp hc)
  rw [hnext]
  exact hk r

/-- A call that takes no lock. -/
theorem climbs_aside {c : Call} {k : c.Resp → Cmd α} (hc : c ≠ .commit) (hl : c.locks place = [])
    (hk : ∀ r, (k r).Follows (lockOrder place α) g) : (Prog.call c k).Follows (lockOrder place α) g :=
  climbs_call hc (by simp [hl]) (by simpa [hl] using hk)

/-- A commit releases all of them. -/
theorem climbs_commit {k : Unit → Cmd α} (hk : (k ()).Follows (lockOrder place α) []) :
    (Prog.call .commit k).Follows (lockOrder place α) g :=
  ⟨fun _ _ h => absurd h List.not_mem_nil, fun _ => hk⟩

theorem stays_aside {c : Call} (hc : c ≠ .commit) (hl : c.locks place = []) :
    (lockOrder place α).Stays g c :=
  ⟨by simp [ascending, hl], fun _ => (if_neg (mt commits_iff.mp hc)).trans (by simp [hl])⟩

theorem RegisterUser.climbs (q : RegisterUser) : q.call.Follows (lockOrder place Response) [] := by
  unfold call
  cases validatePhone q.phone with
  | error e => trivial
  | ok phone =>
    rw [check_ok_bind, findByPhone_bind]
    refine climbs_aside nofun rfl fun user => ?_
    cases user with
    | some user => trivial
    | none =>
      dsimp only
      rw [saveUser_bind]
      refine climbs_call nofun (by simp) fun saved => ?_
      cases saved with
      | false => trivial
      | true => exact climbs_commit trivial

variable (S : Env)

theorem RequestOtp.climbs (q : RequestOtp) : (q.call S).Follows (lockOrder place Response) [] := by
  have harm : ∀ phone, (do
      markPhoneSent phone S.settings.otpRateLimitSeconds q.now
      return .otpSent S.settings.otpCodeLifetimeSeconds S.settings.otpRateLimitSeconds :
        Cmd Response).Follows (lockOrder place Response) [] := fun phone =>
    Prog.follows_bind.mpr (markPhoneSent_follows (stays_aside nofun rfl) trivial)
  refine follows_of S (fun _ _ => trivial) (fun _ => stays_aside nofun rfl)
    (fun _ => stays_aside nofun rfl) fun phone _ =>
      secondsUntilPhoneAllowed_follows
        ⟨fun _ _ h => absurd h List.not_mem_nil, fun _ => rfl⟩ fun _ _ => ?_
  unfold issue
  rw [findByPhone_bind]
  refine climbs_aside nofun rfl fun user => ?_
  cases user with
  | none => exact harm phone
  | some user =>
    exact climbs_call nofun (by simp) fun _ => climbs_commit
      (climbs_aside nofun rfl fun _ => harm phone)

/-- A wrong guess counts and burns one and the same code. -/
theorem VerifyOtp.reject_climbs (q : VerifyOtp) (otp : OtpCode) :
    (q.reject S otp).Follows (lockOrder place Response) [] := by
  unfold reject
  rw [registerAttempt_bind]
  refine climbs_call nofun (by simp) fun attempts => ?_
  cases attempts with
  | none => trivial
  | some attempts =>
    dsimp only [Option.elim]
    split_ifs
    · exact climbs_call nofun (by simp [Call.locks]) fun _ => climbs_commit trivial
    · exact climbs_commit trivial

theorem VerifyOtp.openSession_climbs (q : VerifyOtp) (user : User) (first : Bool) :
    (q.openSession S user first).Follows (lockOrder place Response) g := by
  unfold openSession
  refine climbs_call nofun nofun fun _ => climbs_commit (climbs_aside nofun rfl fun _ => ?_)
  cases first with
  | false => trivial
  | true => exact climbs_aside nofun rfl fun _ => trivial

theorem VerifyOtp.climbs (q : VerifyOtp) : (q.call S).Follows (lockOrder place Response) [] := by
  unfold call
  cases validatePhone q.phone with
  | error e => trivial
  | ok phone =>
    rw [check_ok_bind, findLatestActive_bind]
    refine climbs_aside nofun rfl fun otp => ?_
    cases otp with
    | none => trivial
    | some otp =>
      dsimp only
      split_ifs
      · trivial
      · exact q.reject_climbs S otp
      · unfold accept
        rw [markConsumed_bind]
        refine climbs_call nofun (by simp) fun _ => ?_
        rw [findByPhone_bind]
        refine climbs_aside nofun rfl fun user => ?_
        cases user with
        | none => trivial
        | some user =>
          dsimp only
          split_ifs
          · trivial
          · rw [saveUser_bind]
            refine climbs_call nofun (by simp [Call.locks, Key.rank]) fun saved => ?_
            cases saved with
            | false => trivial
            | true => exact climbs_aside nofun rfl fun _ => q.openSession_climbs S _ true
          · exact q.openSession_climbs S user false

theorem RefreshAccessToken.climbs (q : RefreshAccessToken) :
    (q.call S).Follows (lockOrder place Response) [] := by
  unfold call
  rw [findByHash_bind]
  refine climbs_aside nofun rfl fun stored => ?_
  cases stored with
  | none => trivial
  | some stored =>
    dsimp only
    split_ifs
    · rw [revokeAllForUser_bind]
      exact climbs_aside nofun rfl fun _ => climbs_call nofun (by simp) fun _ =>
        climbs_commit trivial
    · trivial
    · rw [findById_bind]
      refine climbs_aside nofun rfl fun user => ?_
      cases user with
      | none => trivial
      | some user =>
        dsimp only
        split_ifs
        · -- the new token is out of order, but nobody is in its way
          exact climbs_call nofun (by simp) fun _ => climbs_call nofun nofun fun _ =>
            climbs_commit trivial
        · trivial

theorem Logout.climbs (q : Logout) : (q.call S).Follows (lockOrder place Response) [] := by
  unfold call
  rw [findByHash_bind]
  refine climbs_aside nofun rfl fun stored => ?_
  cases stored with
  | none => trivial
  | some stored =>
    dsimp only
    split_ifs
    · rw [revokeAllForUser_bind]
      exact climbs_aside nofun rfl fun _ => climbs_call nofun (by simp) fun _ =>
        climbs_commit trivial
    · exact climbs_call nofun (by simp) fun _ => climbs_commit trivial

/-- The save of an account, and what follows it. -/
theorem climbs_save {v : User} {now : Time} {f : Unit → Cmd Response}
    (h : (f ()).Follows (lockOrder place Response) [.user v.id, .phone v.phone]) :
    (saveUser v now >>= f).Follows (lockOrder place Response) [] := by
  rw [saveUser_bind]
  refine climbs_call nofun (by simp) fun saved => ?_
  cases saved with
  | false => trivial
  | true => exact h

/-- The commit, the cache, the event, the answer. -/
theorem commit_climbs {u : Uuid} {e : DomainEvent} {a : Response} :
    ((do commit; invalidateUser u; publish e; return a) : Cmd Response).Follows
      (lockOrder place Response) g :=
  climbs_commit (climbs_aside nofun rfl fun _ => climbs_aside nofun rfl fun _ => trivial)

theorem UpdateProfile.climbs (q : UpdateProfile) : q.call.Follows (lockOrder place Response) [] := by
  unfold call
  rw [findById_bind]
  refine climbs_aside nofun rfl fun user => ?_
  cases user with
  | none => trivial
  | some user =>
    dsimp only
    split_ifs
    · exact climbs_save commit_climbs
    · trivial

theorem ChangeRole.climbs (q : ChangeRole) : q.call.Follows (lockOrder place Response) [] := by
  unfold call
  cases UserRole.ofValue q.role with
  | none => trivial
  | some targetRole =>
    dsimp only
    rw [findById_bind]
    refine climbs_aside nofun rfl fun user => ?_
    cases user with
    | none => trivial
    | some user =>
      dsimp only
      split_ifs
      · unfold request
        split_ifs
        · trivial
        · exact climbs_save (climbs_aside nofun rfl fun _ => commit_climbs)
      · unfold grant
        split_ifs
        · trivial
        · exact climbs_save (climbs_aside nofun rfl fun _ => commit_climbs)

theorem DecideKyc.climbs (q : DecideKyc) : q.call.Follows (lockOrder place Response) [] := by
  unfold call
  rw [findById_bind]
  refine climbs_aside nofun rfl fun user => ?_
  cases user with
  | none => trivial
  | some user =>
    dsimp only
    cases user.requestedRole with
    | none => trivial
    | some requested =>
      refine climbs_save ?_
      split_ifs
      · exact climbs_aside nofun rfl fun _ => climbs_aside nofun rfl fun _ => commit_climbs
      · exact climbs_aside nofun rfl fun _ => commit_climbs

theorem ChangeStatus.climbs (q : ChangeStatus) : q.call.Follows (lockOrder place Response) [] := by
  unfold call
  cases UserStatus.ofValue q.status with
  | none => trivial
  | some target =>
    dsimp only
    by_cases hset : target ∉ adminSettableStatuses
    · rw [if_pos hset]
      trivial
    · rw [if_neg hset, findById_bind]
      refine climbs_aside nofun rfl fun user => ?_
      cases user with
      | none => trivial
      | some user =>
        dsimp only
        by_cases hc : (!canTransition user.status target) = true
        · rw [if_pos hc]
          trivial
        · rw [if_neg hc]
          refine climbs_save (climbs_aside nofun rfl fun _ => ?_)
          dsimp only
          split_ifs
          · -- the account is locked, its tokens come after it
            rw [revokeAllForUser_bind]
            refine climbs_aside nofun rfl fun ids => climbs_call nofun (fun _ => ?_) fun _ =>
              commit_climbs
            simp only [Call.locks, List.mem_map, List.mem_cons, List.not_mem_nil,
              or_false]
            rintro _ ⟨id, -, rfl⟩ _ (rfl | rfl) <;> right <;> simp only [Key.rank] <;> omega
          · exact commit_climbs

/-- **In order.** Every command locks codes before accounts and accounts before tokens. -/
theorem Request.climbs (r : Request) : (r.prog S).Follows (lockOrder place Response) [] := by
  cases r with
  | registerUser q => exact q.climbs
  | requestOtp q => exact q.climbs S
  | verifyOtp q => exact q.climbs S
  | refreshAccessToken q => exact q.climbs S
  | logout q => exact q.climbs S
  | updateProfile q => exact q.climbs
  | changeRole q => exact q.climbs
  | decideKyc q => exact q.climbs
  | changeStatus q => exact q.climbs

end Programs

/-! ### In flight -/

section Flight

variable {ι : Type} [Fintype ι] [DecidableEq ι] {S : Env} {rs : ι → Request} {d : Db} {x : Outside}
  {ok : InFlight ι → ι → Prop} {place : Uuid ↪ ℕ} {i j : ι}

/-- The tokens that an answer names. -/
def namedTokens : Answered Call Call.Resp → List Uuid
  | ⟨.findByHash _, stored⟩ => (stored : Option RefreshToken).toList.map RefreshToken.id
  | ⟨.liveTokens _, ids⟩ => ids
  | _ => []

/-- An answer names rows that the request sees. -/
theorem namedTokens_exec (c : Call) (d : Db) (x : Outside) :
    namedTokens ⟨c, (exec c d x).1⟩ ⊆ d.tokenIds := by
  intro id hid
  cases c with
  | findByHash hash =>
    obtain ⟨t, ht, rfl⟩ := List.mem_map.mp hid
    exact List.mem_map_of_mem (Db.of_findByHash (Option.mem_toList.mp ht)).1
  | liveTokens userId =>
    obtain ⟨t, ht, rfl⟩ := List.mem_map.mp (show id ∈ d.liveTokens userId from hid)
    exact List.mem_map_of_mem (List.mem_of_mem_filter ht)
  | _ => cases hid

/-- A token that a request was told of was there at first, or was saved by a request. -/
theorem named_cases {s : InFlight ι}
    (h : store.Reach ok (System.start d x fun i => (rs i).prog S) s) {a : Answered Call Call.Resp}
    (ha : a ∈ (s.thread i).trace) {id : Uuid} (hid : id ∈ namedTokens a) :
    id ∈ d.tokenIds ∨ ∃ j t, Told (s.thread j).trace (.saveToken t) () ∧ t.id = id := by
  refine h.heard (P := fun s _ a => ∀ id ∈ namedTokens a,
      id ∈ d.tokenIds ∨ ∃ j t, Told (s.thread j).trace (.saveToken t) () ∧ t.id = id)
    (fun s s' i j a hs hold id hid => ?_) (fun s i c k hr _ _ _ id hid => ?_) i a ha id hid
  · refine (hold id hid).imp_right ?_
    rintro ⟨j, t, ht, htid⟩
    exact ⟨j, t, hs.trace_mem ht, htid⟩
  · obtain ⟨t, ht, rfl⟩ := List.mem_map.mp (namedTokens_exec c _ _ hid)
    obtain ⟨t₀, hevolves, hin | ⟨j, hsaved⟩⟩ := token_seen hr i ht
    · exact .inl (hevolves.id ▸ List.mem_map_of_mem hin)
    · exact .inr ⟨j, t₀, hsaved, hevolves.id.symm⟩

/-- Who locks the row of a token saves it, or was told of it. -/
theorem Grounds.token_locked {r : Request} {l : Heard} {c : Call} (h : Grounds S r l c) {id : Uuid}
    (hid : Key.token id ∈ c.locks place) :
    (∃ t, c = .saveToken t ∧ t.id = id) ∨ ∃ a ∈ l, id ∈ namedTokens a := by
  cases h with
  | openSession | renew => exact .inl ⟨_, rfl, by simpa [Call.locks, eq_comm] using hid⟩
  | rotate hp =>
    exact .inr ⟨_, hp.found, by simpa [Call.locks, namedTokens, eq_comm] using hid⟩
  | leaveOne hfound =>
    exact .inr ⟨_, hfound, by simpa [Call.locks, namedTokens, eq_comm] using hid⟩
  | reuseClose _ hlisted | leaveClose _ hlisted | suspendClose _ _ hlisted =>
    exact .inr ⟨_, hlisted, by simpa [Call.locks, namedTokens] using hid⟩
  | _ => simp [Call.locks] at hid

/-- A system of commands that lock one row at a time. -/
abbrev Rowwise (ι : Type) : Type := Locking Call Call.Resp Failure Response Db Outside Write Key ι

variable {s : Rowwise ι}

/-- **The new token.** Nobody has a lock on a token that is about to be saved. -/
theorem new_token_free
    (h : store.LockReach (Call.locks place) (Locking.start d x fun i => (rs i).prog S) s)
    (hfresh : Drawn (fun i => (rs i).tokenId) d.tokenIds) {t : RefreshToken}
    {k : Unit → Cmd Response} (hp : (s.system.thread i).prog = .call (.saveToken t) k)
    (hj : j ≠ i) : Key.token t.id ∉ s.held j := by
  obtain ⟨hg, hfirst⟩ := next_grounds h.system hp
  have hdraw : ∀ {r l t}, Grounds S r l (.saveToken t) → r.tokenId = some t.id := fun hg => by
    cases hg <;> rfl
  obtain ⟨hnew, hmine⟩ := hfresh i t.id (hdraw hg)
  -- no request has saved a token of this id
  have hnone : ∀ l t', Told (s.system.thread l).trace (.saveToken t') () → t'.id ≠ t.id := by
    intro l t' htold hid
    obtain ⟨before, hbefore, hg'⟩ := grounds_of_told h.system htold
    obtain rfl : l = i := hmine l (by rw [← hid]; exact hdraw hg')
    obtain rfl := newToken_unique h.system hbefore (List.Subset.refl _) hg' hg
    exact hfirst _ htold rfl
  -- so none was told of it either
  have hunnamed : ∀ l, l ⊆ (s.system.thread j).trace → ∀ a ∈ l, t.id ∉ namedTokens a := by
    intro l hl a ha hid
    rcases named_cases h.system (hl ha) hid with hin | ⟨l, t', htold, htid⟩
    · exact hnew hin
    · exact hnone l t' htold htid
  have hlocked : ∀ l c, l ⊆ (s.system.thread j).trace → Grounds S (rs j) l c →
      Key.token t.id ∉ c.locks place := by
    intro l c hl hg' hin
    rcases hg'.token_locked hin with ⟨t', rfl, hid⟩ | ⟨a, ha, hid⟩
    · exact hj (hmine j (by rw [← hid]; exact hdraw hg'))
    · exact hunnamed l hl a ha hid
  intro hheld
  rcases h.held_cases (keys_subset_locks place) hheld with ⟨⟨c, r⟩, ha, hin⟩ | ⟨c, k, hp', hin⟩
  · obtain ⟨l, hl, hg'⟩ := grounds_of_told h.system ha
    exact hlocked l c hl hg' hin
  · exact hlocked _ c (List.Subset.refl _) (next_grounds h.system hp').1 hin

/-- **No deadlock.** Where no command can take a step, all have ended. -/
theorem done_of_stuck
    (h : store.LockReach (Call.locks place) (Locking.start d x fun i => (rs i).prog S) s)
    (hfresh : Drawn (fun i => (rs i).tokenId) d.tokenIds)
    (hstuck : ∀ i, store.lockStep (Call.locks place) s i = none) (i : ι) :
    (∃ o, Done s.system i o) ∧ s.held i = [] := by
  refine h.done_of_stuck (keys_subset_locks place) (locks_ascend place)
    (fun i => (rs i).climbs S) (fun i c k hp hwaits j hj key hkey => ?_) hstuck i
  cases c with
  | saveToken t =>
    rw [List.mem_singleton.mp hkey]
    exact new_token_free h hfresh hp hj
  | _ => cases hwaits

/-- **Every request ends**, whatever the others hold and wait for: with locks taken row
by row, in whatever order the rows of the tokens stand. -/
theorem every_request_ends {sched : ℕ → ι} (hfair : Fair sched)
    (hfresh : Drawn (fun i => (rs i).tokenId) d.tokenIds) : ∃ n, ∀ i,
      (∃ o, Done (store.lockState (Call.locks place)
        (Locking.start d x fun i => (rs i).prog S) sched n).system i o) ∧
      (store.lockState (Call.locks place)
        (Locking.start d x fun i => (rs i).prog S) sched n).held i = [] :=
  all_done hfair fun _ h hstuck => done_of_stuck h hfresh hstuck

end Flight

/-- A suspension, a login, a renewal and a logout from everywhere, of one account. -/
def crossed : Fin 4 → Request
  | 0 => .changeStatus ⟨7, "suspended", none, some 1, 4⟩
  | 1 => .verifyOtp ⟨"+22507000001", "000042", none, 3, 2, "b"⟩
  | 2 => .refreshAccessToken { refreshToken := "a", deviceInfo := none, now := 4, newTokenId := 3
                               newRefresh := "c" }
  | 3 => .logout { refreshToken := "a", allDevices := true, now := 4 }

/-- The account, a code and two tokens of it. -/
def withSessions : Db :=
  { users := [{ id := 7, phone := "+22507000001", status := .active }]
    otps := [{ id := 1, phone := "+22507000001", codeHash := hashOtpCode plainEnv "000042"
               expiresAt := 9, createdAt := 0 }]
    refreshTokens := [{ id := 1, userId := 7, tokenHash := hashRefreshToken plainEnv "a"
                        expiresAt := 9, createdAt := 0 },
                      { id := 4, userId := 7, tokenHash := hashRefreshToken plainEnv "d"
                        expiresAt := 9, createdAt := 0 }] }

/-- The suspension and the logout both revoke the two tokens, and the renewal one of them. -/
theorem every_request_ends_crossed : ∃ n, ∀ i, ∃ o,
    Done (store.lockState (Call.locks ⟨id, Function.injective_id⟩)
      (Locking.start withSessions {} fun i => (crossed i).prog plainEnv) (Fin.ofNat 4) n).system i o := by
  have hfair : Fair (Fin.ofNat 4) := fun i n =>
    ⟨4 * n + i, by omega, by ext; simp [Fin.ofNat]⟩
  obtain ⟨n, hn⟩ := @every_request_ends _ _ _ plainEnv crossed withSessions {}
    ⟨id, Function.injective_id⟩ _ hfair (by unfold Drawn; decide +kernel)
  exact ⟨n, fun i => (hn i).1⟩

end DiddiFreeID
