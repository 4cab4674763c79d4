/-
# Tables only grow

No repository deletes a row, and none moves one. Under any writes a table is
its rows followed by the rows inserted, in order, each as it has evolved
(`Db.grownBy_view`), and a row evolves in few
ways: an account keeps its id, its phone and its date of creation; a code
keeps its hash and its expiry, its attempts only rise, and consumed it stays;
a token keeps everything but that it may be revoked, once. The two audit
tables are never rewritten at all. So whatever is in flight, the committed
tables of an earlier moment are those of a later one, grown (`tables_grow`).

Key definitions: `User.Evolves`, `OtpCode.Evolves`, `RefreshToken.Evolves`, `Db.GrownBy`, `Db.Grown`.
Key theorems: `Db.grownBy_view`, `tables_grow`.
-/
import DiddiFreeID.Grounds
import Mathlib.Data.List.Forall2

namespace DiddiFreeID

open Transact Engine

/-! ### Rows -/

/-- `u` is what has become of the account `u₀`. -/
structure User.Evolves (u₀ u : User) : Prop where
  id : u.id = u₀.id
  phone : u.phone = u₀.phone
  createdAt : u.createdAt = u₀.createdAt

/-- `o` is what has become of the code `o₀`. -/
structure OtpCode.Evolves (o₀ o : OtpCode) : Prop where
  id : o.id = o₀.id
  phone : o.phone = o₀.phone
  codeHash : o.codeHash = o₀.codeHash
  expiresAt : o.expiresAt = o₀.expiresAt
  createdAt : o.createdAt = o₀.createdAt
  attempts : o₀.attempts ≤ o.attempts
  consumed : o₀.consumedAt.isSome = true → o.consumedAt.isSome = true

/-- `t` is what has become of the token `t₀`. -/
structure RefreshToken.Evolves (t₀ t : RefreshToken) : Prop where
  id : t.id = t₀.id
  userId : t.userId = t₀.userId
  tokenHash : t.tokenHash = t₀.tokenHash
  expiresAt : t.expiresAt = t₀.expiresAt
  createdAt : t.createdAt = t₀.createdAt
  deviceInfo : t.deviceInfo = t₀.deviceInfo
  revoked : t₀.revokedAt.isSome = true → t.revokedAt = t₀.revokedAt

theorem User.Evolves.refl (u : User) : u.Evolves u := ⟨rfl, rfl, rfl⟩

theorem User.Evolves.trans {u₀ u₁ u : User} (h : u₀.Evolves u₁) (h' : u₁.Evolves u) : u₀.Evolves u :=
  ⟨h'.id.trans h.id, h'.phone.trans h.phone, h'.createdAt.trans h.createdAt⟩

theorem OtpCode.Evolves.refl (o : OtpCode) : o.Evolves o := ⟨rfl, rfl, rfl, rfl, rfl, le_rfl, fun h => h⟩

theorem OtpCode.Evolves.trans {o₀ o₁ o : OtpCode} (h : o₀.Evolves o₁) (h' : o₁.Evolves o) :
    o₀.Evolves o where
  id := h'.id.trans h.id
  phone := h'.phone.trans h.phone
  codeHash := h'.codeHash.trans h.codeHash
  expiresAt := h'.expiresAt.trans h.expiresAt
  createdAt := h'.createdAt.trans h.createdAt
  attempts := h.attempts.trans h'.attempts
  consumed hc := h'.consumed (h.consumed hc)

theorem RefreshToken.Evolves.refl (t : RefreshToken) : t.Evolves t :=
  ⟨rfl, rfl, rfl, rfl, rfl, rfl, fun _ => rfl⟩

theorem RefreshToken.Evolves.trans {t₀ t₁ t : RefreshToken} (h : t₀.Evolves t₁) (h' : t₁.Evolves t) :
    t₀.Evolves t where
  id := h'.id.trans h.id
  userId := h'.userId.trans h.userId
  tokenHash := h'.tokenHash.trans h.tokenHash
  expiresAt := h'.expiresAt.trans h.expiresAt
  createdAt := h'.createdAt.trans h.createdAt
  deviceInfo := h'.deviceInfo.trans h.deviceInfo
  revoked hr := by
    have h₁ := h.revoked hr
    rw [h'.revoked (by rw [h₁]; exact hr), h₁]

/-- What is live has not been revoked before. -/
theorem RefreshToken.Evolves.live {t₀ t : RefreshToken} (h : t₀.Evolves t) (hl : t.revokedAt = none) :
    t₀.revokedAt = none := by
  by_contra hne
  rw [h.revoked (Option.isSome_iff_ne_none.mpr hne)] at hl
  exact hne hl

/-! ### Tables -/

section Table

variable {α : Type} {R : α → α → Prop}

theorem forall₂_trans (htrans : ∀ a b c, R a b → R b c → R a c) : ∀ {l₀ l₁ l₂ : List α},
    List.Forall₂ R l₀ l₁ → List.Forall₂ R l₁ l₂ → List.Forall₂ R l₀ l₂
  | _, _, _, .nil, .nil => .nil
  | _, _, _, .cons h t, .cons h' t' => .cons (htrans _ _ _ h h') (forall₂_trans htrans t t')

/-- A table that evolves under each of two steps evolves under both; the rows
inserted by the first one evolve under the second. -/
theorem forall₂_append_trans (hrefl : ∀ a, R a a) (htrans : ∀ a b c, R a b → R b c → R a c)
    {l₀ i₁ l₁ i₂ l₂ : List α} (h : List.Forall₂ R (l₀ ++ i₁) l₁)
    (h' : List.Forall₂ R (l₁ ++ i₂) l₂) : List.Forall₂ R (l₀ ++ (i₁ ++ i₂)) l₂ := by
  have hsame : List.Forall₂ R i₂ i₂ := List.forall₂_same.mpr fun a _ => hrefl a
  rw [← List.append_assoc]
  exact forall₂_trans htrans (List.rel_append h hsame) h'

theorem forall₂_map {f : α → α} (hf : ∀ a, R a (f a)) (l : List α) :
    List.Forall₂ R (l ++ []) (l.map f) := by
  rw [List.append_nil, List.forall₂_map_right_iff]
  exact List.forall₂_same.mpr fun a _ => hf a

/-- Every row of a table that has evolved was a row, or was inserted. -/
theorem exists_of_forall₂ {l l' : List α} (h : List.Forall₂ R l l') {b : α} (hb : b ∈ l') :
    ∃ a ∈ l, R a b := by
  induction h with
  | nil => exact absurd hb List.not_mem_nil
  | cons hab _ ih =>
    rcases List.mem_cons.mp hb with rfl | hb
    · exact ⟨_, List.mem_cons_self, hab⟩
    · obtain ⟨a, ha, hr⟩ := ih hb
      exact ⟨a, List.mem_cons_of_mem _ ha, hr⟩

theorem map_eq_of_forall₂ {β : Type} {f : α → β} (hf : ∀ {a b}, R a b → f b = f a) {l l' : List α}
    (h : List.Forall₂ R l l') : l'.map f = l.map f := by
  induction h with
  | nil => rfl
  | cons hab _ ih => rw [List.map_cons, List.map_cons, hf hab, ih]

end Table

/-! ### Tables under writes -/

/-- The rows that a write inserts. -/
def Write.users : Write → List User
  | insertUser u => [u]
  | _ => []

def Write.otps : Write → List OtpCode
  | insertOtp o => [o]
  | _ => []

def Write.tokens : Write → List RefreshToken
  | insertToken t => [t]
  | _ => []

def Write.statusRows : Write → List UserStatusChange
  | insertStatus c => [c]
  | _ => []

def Write.roleRows : Write → List UserRoleChange
  | insertRole c => [c]
  | _ => []

/-- The tables `d'` are those of `d`, each row evolved, under the rows that
the log inserts. -/
structure Db.GrownBy (log : List Write) (d d' : Db) : Prop where
  users : List.Forall₂ User.Evolves (d.users ++ log.flatMap Write.users) d'.users
  otps : List.Forall₂ OtpCode.Evolves (d.otps ++ log.flatMap Write.otps) d'.otps
  tokens : List.Forall₂ RefreshToken.Evolves (d.refreshTokens ++ log.flatMap Write.tokens)
    d'.refreshTokens
  status : d'.statusHistory = d.statusHistory ++ log.flatMap Write.statusRows
  role : d'.roleHistory = d.roleHistory ++ log.flatMap Write.roleRows

namespace Db.GrownBy

variable {d d₁ d₂ : Db} {log log' : List Write}

theorem refl (d : Db) : GrownBy [] d d where
  users := by simpa using List.forall₂_same.mpr fun u _ => User.Evolves.refl u
  otps := by simpa using List.forall₂_same.mpr fun o _ => OtpCode.Evolves.refl o
  tokens := by simpa using List.forall₂_same.mpr fun t _ => RefreshToken.Evolves.refl t
  status := by simp
  role := by simp

theorem trans (h : GrownBy log d d₁) (h' : GrownBy log' d₁ d₂) : GrownBy (log ++ log') d d₂ where
  users := by
    rw [List.flatMap_append]
    exact forall₂_append_trans .refl (fun _ _ _ => .trans) h.users h'.users
  otps := by
    rw [List.flatMap_append]
    exact forall₂_append_trans .refl (fun _ _ _ => .trans) h.otps h'.otps
  tokens := by
    rw [List.flatMap_append]
    exact forall₂_append_trans .refl (fun _ _ _ => .trans) h.tokens h'.tokens
  status := by rw [h'.status, h.status, List.flatMap_append, List.append_assoc]
  role := by rw [h'.role, h.role, List.flatMap_append, List.append_assoc]

/-- **Step.** What one write does to the tables. -/
theorem apply (d : Db) (w : Write) : GrownBy [w] d (Write.apply d w) := by
  have hsame := refl d
  cases w with
  | insertUser u =>
    refine { hsame with users := ?_ }
    simpa [Write.apply, Write.users] using
      List.forall₂_same.mpr fun v (_ : v ∈ d.users ++ [u]) => User.Evolves.refl v
  | updateUser u now =>
    refine { hsame with users := forall₂_map (fun row => ?_) d.users }
    split_ifs
    · exact ⟨rfl, rfl, rfl⟩
    · exact .refl row
  | insertStatus c => exact { hsame with status := by simp [Write.apply, Write.statusRows] }
  | insertRole c => exact { hsame with role := by simp [Write.apply, Write.roleRows] }
  | insertOtp o =>
    refine { hsame with otps := ?_ }
    simpa [Write.apply, Write.otps] using
      List.forall₂_same.mpr fun v (_ : v ∈ d.otps ++ [o]) => OtpCode.Evolves.refl v
  | bumpAttempts id =>
    refine { hsame with otps := forall₂_map (fun o => ?_) d.otps }
    split_ifs
    · exact ⟨rfl, rfl, rfl, rfl, rfl, Int.le_add_one le_rfl, fun h => h⟩
    · exact .refl o
  | consumeOtp id now =>
    refine { hsame with otps := forall₂_map (fun o => ?_) d.otps }
    split_ifs
    · exact ⟨rfl, rfl, rfl, rfl, rfl, le_rfl, fun _ => rfl⟩
    · exact .refl o
  | insertToken t =>
    refine { hsame with tokens := ?_ }
    simpa [Write.apply, Write.tokens] using
      List.forall₂_same.mpr fun v (_ : v ∈ d.refreshTokens ++ [t]) => RefreshToken.Evolves.refl v
  | revokeTokens ids now =>
    refine { hsame with tokens := forall₂_map (fun t => ?_) d.refreshTokens }
    split_ifs with hlive
    · refine ⟨rfl, rfl, rfl, rfl, rfl, rfl, fun h => ?_⟩
      rw [hlive.2] at h
      cases h
    · exact .refl t

end Db.GrownBy

/-- **Run.** What a log of writes does to the tables. -/
theorem Db.grownBy_view (d : Db) (log : List Write) : GrownBy log d (store.view d log) := by
  induction log generalizing d with
  | nil => exact .refl d
  | cons w log ih => exact (GrownBy.apply d w).trans (ih (Write.apply d w))

/-! ### Any interleaving -/

/-- The tables `d'` are those of `d`, each row evolved, under new rows. -/
structure Db.Grown (d d' : Db) : Prop where
  users : ∃ new, List.Forall₂ User.Evolves (d.users ++ new) d'.users
  otps : ∃ new, List.Forall₂ OtpCode.Evolves (d.otps ++ new) d'.otps
  tokens : ∃ new, List.Forall₂ RefreshToken.Evolves (d.refreshTokens ++ new) d'.refreshTokens
  status : d.statusHistory <+: d'.statusHistory
  role : d.roleHistory <+: d'.roleHistory

theorem Db.GrownBy.grown {d d' : Db} {log : List Write} (h : GrownBy log d d') : d.Grown d' :=
  ⟨⟨_, h.users⟩, ⟨_, h.otps⟩, ⟨_, h.tokens⟩, h.status ▸ List.prefix_append _ _,
    h.role ▸ List.prefix_append _ _⟩

theorem Db.Grown.trans {d d₁ d₂ : Db} (h : d.Grown d₁) (h' : d₁.Grown d₂) : d.Grown d₂ := by
  obtain ⟨⟨us, hus⟩, ⟨os, hos⟩, ⟨ts, hts⟩, hstatus, hrole⟩ := h
  obtain ⟨⟨us', hus'⟩, ⟨os', hos'⟩, ⟨ts', hts'⟩, hstatus', hrole'⟩ := h'
  exact ⟨⟨_, forall₂_append_trans .refl (fun _ _ _ => .trans) hus hus'⟩,
    ⟨_, forall₂_append_trans .refl (fun _ _ _ => .trans) hos hos'⟩,
    ⟨_, forall₂_append_trans .refl (fun _ _ _ => .trans) hts hts'⟩,
    hstatus.trans hstatus', hrole.trans hrole'⟩

/-- A step of any request leaves the committed tables grown. -/
theorem grown_step {ι : Type} [DecidableEq ι] {s s' : InFlight ι} {i : ι} (h : store.Step s i s') :
    s.db.Grown s'.db := by
  cases h with
  | call | abort => exact (Db.GrownBy.refl s.db).grown
  | commit | close => exact (Db.grownBy_view s.db (s.thread i).log).grown

/-- **Tables only grow.** Whatever requests are in flight and however they are
scheduled, the committed tables of a moment are those of any earlier one: every
row still there and in its place, changed only as rows evolve, new rows behind,
the audit tables unchanged but for these. -/
theorem tables_grow {ι : Type} [Fintype ι] [DecidableEq ι] (s₀ : InFlight ι) (sched : ℕ → ι)
    (m k : ℕ) : (store.state s₀ sched m).db.Grown (store.state s₀ sched (m + k)).db := by
  induction k with
  | zero => exact (Db.GrownBy.refl _).grown
  | succ k ih =>
    rcases state_cases store s₀ sched (m + k) with ⟨-, hs⟩ | hs
    · rw [← add_assoc, hs]
      exact ih
    · exact ih.trans (grown_step hs)

/-! ### Who wrote the rows -/

/-- A row inserted by a list of writes was inserted by one of them. -/
theorem exists_of_mem_flatMap {ι α : Type} {f : Write → List α} {ws : List (ι × Write)} {a : α}
    (h : a ∈ (ws.map Prod.snd).flatMap f) : ∃ p ∈ ws, a ∈ f p.2 := by
  obtain ⟨w, hw, ha⟩ := List.mem_flatMap.mp h
  obtain ⟨p, hp, rfl⟩ := List.mem_map.mp hw
  exact ⟨p, hp, ha⟩

theorem Write.eq_of_mem_tokens {w : Write} {t : RefreshToken} (h : t ∈ w.tokens) :
    w = .insertToken t := by
  cases w with
  | insertToken t' => rw [List.mem_singleton.mp h]
  | _ => exact absurd h List.not_mem_nil

theorem Write.eq_of_mem_otps {w : Write} {o : OtpCode} (h : o ∈ w.otps) : w = .insertOtp o := by
  cases w with
  | insertOtp o' => rw [List.mem_singleton.mp h]
  | _ => exact absurd h List.not_mem_nil

theorem Write.eq_of_mem_statusRows {w : Write} {c : UserStatusChange} (h : c ∈ w.statusRows) :
    w = .insertStatus c := by
  cases w with
  | insertStatus c' => rw [List.mem_singleton.mp h]
  | _ => exact absurd h List.not_mem_nil

theorem Write.eq_of_mem_roleRows {w : Write} {c : UserRoleChange} (h : c ∈ w.roleRows) :
    w = .insertRole c := by
  cases w with
  | insertRole c' => rw [List.mem_singleton.mp h]
  | _ => exact absurd h List.not_mem_nil

section Written

variable {ι : Type} {d : Db} {x : Outside} {s : InFlight ι} {ws : List (ι × Write)}

theorem token_of_history {t : RefreshToken}
    (ht : t ∈ (store.view d (ws.map Prod.snd)).refreshTokens)
    (hws : ∀ p ∈ ws, store.Produced s p.1 p.2) : ∃ t₀ : RefreshToken, t₀.Evolves t ∧
      (t₀ ∈ d.refreshTokens ∨ ∃ j, Told (s.thread j).trace (.saveToken t₀) ()) := by
  obtain ⟨t₀, ht₀, hevolves⟩ := exists_of_forall₂ (d.grownBy_view (ws.map Prod.snd)).tokens ht
  refine ⟨t₀, hevolves, (List.mem_append.mp ht₀).imp_right fun hin => ?_⟩
  obtain ⟨p, hp, hmem⟩ := exists_of_mem_flatMap hin
  have hprod := hws p hp
  rw [Write.eq_of_mem_tokens hmem] at hprod
  exact ⟨p.1, told_saveToken hprod⟩

variable [Fintype ι] [DecidableEq ι] {progs : ι → Cmd Response} {ok : InFlight ι → ι → Prop}

/-- A token that a request sees was there at first, or was saved by a request. -/
theorem token_seen (h : store.Reach ok (System.start d x progs) s) (i : ι) {t : RefreshToken}
    (ht : t ∈ (store.view s.db (s.thread i).log).refreshTokens) : ∃ t₀ : RefreshToken,
      t₀.Evolves t ∧ (t₀ ∈ d.refreshTokens ∨ ∃ j, Told (s.thread j).trace (.saveToken t₀) ()) := by
  obtain ⟨ws, hview, hws⟩ := h.history_view i
  exact token_of_history (hview ▸ ht) hws

/-- So was a committed one. -/
theorem token_written (h : store.Reach ok (System.start d x progs) s) {t : RefreshToken}
    (ht : t ∈ s.db.refreshTokens) : ∃ t₀ : RefreshToken, t₀.Evolves t ∧
      (t₀ ∈ d.refreshTokens ∨ ∃ j, Told (s.thread j).trace (.saveToken t₀) ()) := by
  obtain ⟨⟨ws, hdb, hws⟩, -⟩ := h.history
  exact token_of_history (hdb ▸ ht) fun p hp => (hws p hp).1

/-- A committed code was there at first, or was saved by a request that has
committed since. -/
theorem otp_written (h : store.Reach ok (System.start d x progs) s) {o : OtpCode}
    (ho : o ∈ s.db.otps) : ∃ o₀ : OtpCode, o₀.Evolves o ∧
      (o₀ ∈ d.otps ∨ ∃ j, Told (s.thread j).trace (.saveOtp o₀) () ∧ store.Settled s j) := by
  obtain ⟨⟨ws, hdb, hws⟩, -⟩ := h.history
  rw [hdb] at ho
  obtain ⟨o₀, ho₀, hevolves⟩ := exists_of_forall₂ (d.grownBy_view (ws.map Prod.snd)).otps ho
  refine ⟨o₀, hevolves, (List.mem_append.mp ho₀).imp_right fun hin => ?_⟩
  obtain ⟨p, hp, hmem⟩ := exists_of_mem_flatMap hin
  obtain ⟨hprod, hsettled⟩ := hws p hp
  rw [Write.eq_of_mem_otps hmem] at hprod
  exact ⟨p.1, told_saveOtp hprod, hsettled⟩

end Written

end DiddiFreeID
