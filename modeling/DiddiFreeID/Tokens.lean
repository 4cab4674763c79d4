/-
# Tokens and statuses under writes

What a write, and a log of writes, does to the table of refresh tokens and
to the status of an account: rows are revoked and never brought back, new
rows come at the end, and the status is that of the last update.

Key definitions: `RefreshToken.Becomes`, `inserted`, `Db.statusOf`.
Key theorems: `mem_tokens_view`, `tokens_view`, `statusOf_view`.
-/
import DiddiFreeID.Store

namespace DiddiFreeID

open Transact Engine

/-! ### The table of tokens under writes -/

/-- `t` is what has become of the row `t₀`. -/
structure RefreshToken.Becomes (t₀ t : RefreshToken) : Prop where
  id : t.id = t₀.id
  userId : t.userId = t₀.userId
  live : t.revokedAt = none → t₀.revokedAt = none

theorem RefreshToken.Becomes.refl (t : RefreshToken) : t.Becomes t := ⟨rfl, rfl, fun h => h⟩

theorem RefreshToken.Becomes.trans {t₀ t₁ t : RefreshToken} (h : t₀.Becomes t₁)
    (h' : t₁.Becomes t) : t₀.Becomes t :=
  ⟨h'.id.trans h.id, h'.userId.trans h.userId, fun hl => h.live (h'.live hl)⟩

/-- The ids of the tokens, a primary key. -/
def Db.tokenIds (d : Db) : List Uuid := d.refreshTokens.map RefreshToken.id

/-- The tokens that a log inserts. -/
def inserted (log : List Write) : List RefreshToken :=
  log.filterMap fun
    | .insertToken t => some t
    | _ => none

theorem inserted_append (l l' : List Write) : inserted (l ++ l') = inserted l ++ inserted l' :=
  List.filterMap_append

namespace Db

variable {d : Db}

/-- Under a primary key a row is the row of its id. -/
theorem token_of_mem (hids : d.tokenIds.Nodup) {t : RefreshToken} (h : t ∈ d.refreshTokens) :
    d.token t.id = some t := by
  have hsome : (d.token t.id).isSome := by
    rw [token, List.find?_isSome]
    exact ⟨t, h, by simp⟩
  obtain ⟨t', ht'⟩ := Option.isSome_iff_exists.mp hsome
  have hid : t'.id = t.id := by simpa using List.find?_some ht'
  rw [ht', List.inj_on_of_nodup_map hids (List.mem_of_find?_eq_some ht') h hid]

theorem isLive_of_mem (hids : d.tokenIds.Nodup) {t : RefreshToken} (h : t ∈ d.refreshTokens) :
    d.isLive t.id = t.revokedAt.isNone := by
  rw [isLive, token_of_mem hids h]
  rfl

theorem mem_of_isLive {id : Uuid} (h : d.isLive id = true) :
    ∃ t ∈ d.refreshTokens, t.id = id ∧ t.revokedAt = none := by
  obtain ⟨t, ht, hr⟩ := Option.any_eq_true _ _ |>.mp h
  exact ⟨t, List.mem_of_find?_eq_some ht, by simpa using List.find?_some ht, by simpa using hr⟩

end Db

/-- A row under a write comes from a row, unless the write inserts it. -/
theorem Write.mem_tokens {w : Write} {d : Db} {t : RefreshToken}
    (h : t ∈ (Write.apply d w).refreshTokens) :
    (∃ t₀ ∈ d.refreshTokens, t₀.Becomes t) ∨ w = .insertToken t := by
  cases w with
  | insertToken t' =>
    rcases List.mem_append.mp h with h | h
    · exact .inl ⟨t, h, .refl t⟩
    · exact .inr (by rw [List.mem_singleton.mp h])
  | revokeTokens ids now =>
    obtain ⟨t₀, h₀, rfl⟩ := List.mem_map.mp h
    refine .inl ⟨t₀, h₀, ?_⟩
    split_ifs
    · exact ⟨rfl, rfl, fun hr => by cases hr⟩
    · exact .refl t₀
  | _ => exact .inl ⟨t, h, .refl t⟩

theorem Write.tokens_mem {d : Db} {t : RefreshToken} (w : Write) (h : t ∈ d.refreshTokens) :
    ∃ t' ∈ (Write.apply d w).refreshTokens, t.Becomes t' := by
  cases w with
  | insertToken t' => exact ⟨t, List.mem_append_left _ h, .refl t⟩
  | revokeTokens ids now =>
    refine ⟨_, List.mem_map_of_mem h, ?_⟩
    split_ifs
    · exact ⟨rfl, rfl, fun hr => by cases hr⟩
    · exact .refl t
  | _ => exact ⟨t, h, .refl t⟩

section View

variable {log : List Write} {d : Db} {t : RefreshToken}

theorem mem_tokens_view (h : t ∈ (store.view d log).refreshTokens) :
    (∃ t₀ ∈ d.refreshTokens, t₀.Becomes t) ∨ ∃ t₀ ∈ inserted log, t₀.Becomes t := by
  induction log generalizing d with
  | nil => exact .inl ⟨t, h, .refl t⟩
  | cons w log ih =>
    rcases ih h with ⟨t₁, h₁, hb⟩ | ⟨t₁, h₁, hb⟩
    · rcases Write.mem_tokens h₁ with ⟨t₀, h₀, hb₀⟩ | rfl
      · exact .inl ⟨t₀, h₀, hb₀.trans hb⟩
      · exact .inr ⟨t₁, List.mem_cons_self, hb⟩
    · refine .inr ⟨t₁, ?_, hb⟩
      cases w with
      | insertToken t' => exact List.mem_cons_of_mem _ h₁
      | _ => exact h₁

theorem tokens_view_mem (h : t ∈ d.refreshTokens) :
    ∃ t' ∈ (store.view d log).refreshTokens, t.Becomes t' := by
  induction log generalizing d t with
  | nil => exact ⟨t, h, .refl t⟩
  | cons w log ih =>
    obtain ⟨t₁, h₁, hb₁⟩ := Write.tokens_mem w h
    obtain ⟨t₂, h₂, hb₂⟩ := ih (d := Write.apply d w) h₁
    exact ⟨t₂, h₂, hb₁.trans hb₂⟩

theorem tokenIds_view (d : Db) (log : List Write) :
    (store.view d log).tokenIds = d.tokenIds ++ (inserted log).map RefreshToken.id := by
  induction log generalizing d with
  | nil => simp [inserted]
  | cons w log ih =>
    rw [view_cons, ih, store_apply]
    cases w with
    | insertToken t => simp [Db.tokenIds, Write.apply, inserted]
    | revokeTokens ids now =>
      have hmap : (Write.apply d (.revokeTokens ids now)).tokenIds = d.tokenIds := by
        simp only [Db.tokenIds, Write.apply, List.map_map]
        refine List.map_congr_left fun t _ => ?_
        simp only [Function.comp_apply]
        split_ifs <;> rfl
      rw [hmap]
      simp [inserted]
    | _ => simp [Db.tokenIds, Write.apply, inserted]

/-- A log that inserts and revokes nothing leaves the table. -/
theorem tokens_view (hi : inserted log = []) (hr : ∀ ids now, .revokeTokens ids now ∉ log) :
    (store.view d log).refreshTokens = d.refreshTokens := by
  induction log generalizing d with
  | nil => rfl
  | cons w log ih =>
    have hr' : ∀ ids now, Write.revokeTokens ids now ∉ log := fun ids now h =>
      hr ids now (List.mem_cons_of_mem _ h)
    cases w with
    | insertToken t => cases hi
    | revokeTokens ids now => exact absurd List.mem_cons_self (hr ids now)
    | _ =>
      rw [view_cons, ih hi hr']
      rfl

/-- What a log revokes is revoked under it, unless it inserts it as well. -/
theorem revoked_view (hi : inserted log = []) {ids : List Uuid} {now : Time}
    (hr : .revokeTokens ids now ∈ log) (h : t ∈ (store.view d log).refreshTokens)
    (ht : t.id ∈ ids) : t.revokedAt ≠ none := by
  induction log generalizing d with
  | nil => exact absurd hr List.not_mem_nil
  | cons w log ih =>
    have hi' : inserted log = [] := by
      cases w with
      | insertToken => cases hi
      | _ => exact hi
    rcases List.mem_cons.mp hr with rfl | hr
    · intro hlive
      have h' : t ∈ (store.view (Write.apply d (.revokeTokens ids now)) log).refreshTokens := h
      rcases mem_tokens_view h' with ⟨t₁, h₁, hb⟩ | ⟨t₁, h₁, -⟩
      · obtain ⟨t₀, -, he⟩ := List.mem_map.mp h₁
        have hl := hb.live hlive
        rw [← he] at hl
        have hid : t₀.id = t.id := by
          rw [hb.id, ← he]
          split_ifs <;> rfl
        split_ifs at hl with hc
        exact hc ⟨hid ▸ ht, hl⟩
      · rw [hi'] at h₁
        exact absurd h₁ List.not_mem_nil
    · exact ih hi' hr h

end View

/-! ### The status of an account under writes -/

/-- The status of the account `u`. -/
def Db.statusOf (d : Db) (u : Uuid) : Option UserStatus := (d.findById u).map User.status

theorem Write.findById_isSome {d : Db} {u : Uuid} (w : Write) (h : (d.findById u).isSome = true) :
    ((Write.apply d w).findById u).isSome = true := by
  cases w with
  | insertUser v =>
    obtain ⟨row, hrow⟩ := Option.isSome_iff_exists.mp h
    unfold Db.findById at hrow ⊢
    simp [Write.apply, List.find?_append, hrow]
  | updateUser v now => rw [Db.findById_updateUser, Option.isSome_map, h]
  | _ => exact h

theorem findById_isSome_view {d : Db} {u : Uuid} {log : List Write}
    (h : (d.findById u).isSome = true) : ((store.view d log).findById u).isSome = true := by
  induction log generalizing d with
  | nil => exact h
  | cons w log ih => exact ih (Write.findById_isSome w h)

theorem Db.statusOf_updateUser {d : Db} {u : Uuid} (h : (d.findById u).isSome = true) {v : User}
    (hv : v.id = u) (now : Time) :
    (Write.apply d (.updateUser v now)).statusOf u = some v.status := by
  obtain ⟨row, hrow⟩ := Option.isSome_iff_exists.mp h
  have hid := (Db.mem_of_findById hrow).2
  unfold Db.statusOf
  rw [Db.findById_updateUser, hrow]
  simp [hid, hv, Write.assign]

/-- A write leaves the status of an account that is there, unless it updates
its row. -/
theorem Write.statusOf_apply {d : Db} {u : Uuid} {w : Write} (h : (d.findById u).isSome = true) :
    (Write.apply d w).statusOf u = d.statusOf u ∨
      ∃ v now, w = .updateUser v now ∧ v.id = u := by
  obtain ⟨row, hrow⟩ := Option.isSome_iff_exists.mp h
  cases w with
  | insertUser v =>
    left
    unfold Db.statusOf
    unfold Db.findById at hrow ⊢
    simp [Write.apply, List.find?_append, hrow]
  | updateUser v now =>
    by_cases hv : v.id = u
    · exact .inr ⟨v, now, rfl, hv⟩
    · left
      have hne : row.id ≠ v.id := fun he => hv (he.symm.trans (Db.mem_of_findById hrow).2)
      unfold Db.statusOf
      rw [Db.findById_updateUser, hrow]
      simp [hne]
  | _ => exact .inl rfl

/-- An account whose every update in the log sets the same status, and which
has it or is updated, has it. -/
theorem statusOf_view {log : List Write} {d : Db} {u : Uuid} {st : UserStatus}
    (h : (d.findById u).isSome = true)
    (hall : ∀ v now, .updateUser v now ∈ log → v.id = u → v.status = st)
    (hone : d.statusOf u = some st ∨ ∃ v now, .updateUser v now ∈ log ∧ v.id = u) :
    (store.view d log).statusOf u = some st := by
  induction log generalizing d with
  | nil =>
    rcases hone with h | ⟨_, _, h, -⟩
    · exact h
    · exact absurd h List.not_mem_nil
  | cons w log ih =>
    refine ih (Write.findById_isSome w h)
      (fun v now hm => hall v now (List.mem_cons_of_mem _ hm)) ?_
    rw [store_apply]
    by_cases hw : ∃ v now, w = .updateUser v now ∧ v.id = u
    · obtain ⟨v, now, rfl, hv⟩ := hw
      left
      rw [Db.statusOf_updateUser h hv, hall v now List.mem_cons_self hv]
    · rw [(Write.statusOf_apply h).resolve_right hw]
      refine hone.imp_right ?_
      rintro ⟨v, now, hm, hv⟩
      rcases List.mem_cons.mp hm with rfl | hm
      · exact absurd ⟨v, now, rfl, hv⟩ hw
      · exact ⟨v, now, hm, hv⟩

end DiddiFreeID
