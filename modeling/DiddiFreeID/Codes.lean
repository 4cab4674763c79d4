/-
# Codes under writes

One row of the table of codes under a write, and under a log of writes: its
attempts are those counted, and consumed it stays.

Key definitions: `Db.otpIds`, `Db.attempts`, `Write.keepsCodes`.
Key theorems: `attempts_view`, `isActive_view`, `not_isActive_view`.
-/
import DiddiFreeID.Store

namespace DiddiFreeID

open Transact Engine

namespace Db

/-- The ids of the codes, a primary key. -/
def otpIds (d : Db) : List Uuid := d.otps.map OtpCode.id

/-- The attempts counted on the code `id`. -/
def attempts (d : Db) (id : Uuid) : ℤ := (d.otp id).elim 0 OtpCode.attempts

theorem otp_isSome {d : Db} {id : Uuid} (h : id ∈ d.otpIds) : (d.otp id).isSome = true := by
  obtain ⟨o, ho, rfl⟩ := List.mem_map.mp h
  rw [otp, List.find?_isSome]
  exact ⟨o, ho, by simp⟩

theorem attempts_of_nextAttempt {d : Db} {id : Uuid} {n : ℤ} (h : d.nextAttempt id = some n) :
    n = d.attempts id + 1 := by
  obtain ⟨o, ho, hn⟩ := Option.bind_eq_some_iff.mp h
  rw [Option.ite_none_right_eq_some] at hn
  rw [attempts, ho, ← Option.some.inj hn.2]
  rfl

/-- A counter that is not full counts. -/
theorem nextAttempt_isSome {d : Db} {id : Uuid} (hid : id ∈ d.otpIds)
    (h : d.attempts id < maxSmallInteger) : (d.nextAttempt id).isSome = true := by
  obtain ⟨o, ho⟩ := Option.isSome_iff_exists.mp (otp_isSome hid)
  rw [attempts, ho] at h
  rw [nextAttempt, ho, Option.bind_some, if_pos (show o.attempts < maxSmallInteger from h)]
  rfl

/-- Under a primary key, the row handed out is the row with its id. -/
theorem otp_of_mem {d : Db} (hids : d.otpIds.Nodup) {o : OtpCode} (h : o ∈ d.otps) :
    d.otp o.id = some o := by
  obtain ⟨o', ho'⟩ := Option.isSome_iff_exists.mp (otp_isSome (List.mem_map_of_mem h))
  have hid : o'.id = o.id := by simpa using List.find?_some ho'
  rw [ho', List.inj_on_of_nodup_map hids (List.mem_of_find?_eq_some ho') h hid]

end Db

namespace Write

/-- Does the write leave the set of codes as it is? -/
def keepsCodes : Write → Bool
  | .insertOtp _ => false
  | _ => true

theorem otpIds_apply {w : Write} (h : w.keepsCodes = true) (d : Db) :
    (Write.apply d w).otpIds = d.otpIds := by
  cases w with
  | insertOtp => exact absurd h (by simp [keepsCodes])
  | bumpAttempts | consumeOtp =>
    simp only [Db.otpIds, Write.apply, List.map_map]
    refine List.map_congr_left fun o _ => ?_
    simp only [Function.comp_apply]
    split_ifs <;> rfl
  | _ => rfl

theorem attempts_apply {w : Write} (h : w.keepsCodes = true) {d : Db} {id : Uuid}
    (hid : id ∈ d.otpIds) :
    (Write.apply d w).attempts id = d.attempts id + if w = .bumpAttempts id then 1 else 0 := by
  obtain ⟨o, ho⟩ := Option.isSome_iff_exists.mp (Db.otp_isSome hid)
  have hoid : o.id = id := by simpa using List.find?_some ho
  cases w with
  | insertOtp => exact absurd h (by simp [keepsCodes])
  | bumpAttempts id' =>
    unfold Db.attempts
    rw [Db.otp_bumpAttempts, ho]
    by_cases he : id' = id
    · simp [hoid, he]
    · simp [hoid, he, Ne.symm he]
  | consumeOtp id' now =>
    unfold Db.attempts
    rw [Db.otp_consumeOtp, ho]
    by_cases he : o.id = id' <;> simp [he]
  | _ => simp [Db.attempts, Db.otp, Write.apply]

theorem isActive_apply {w : Write} (h : w.keepsCodes = true) {id : Uuid}
    (hc : ∀ now, w ≠ .consumeOtp id now) (d : Db) :
    (Write.apply d w).isActive id = d.isActive id := by
  cases w with
  | insertOtp => exact absurd h (by simp [keepsCodes])
  | bumpAttempts id' => exact Db.isActive_bumpAttempts d id id'
  | consumeOtp id' now =>
    rw [Db.isActive_consumeOtp]
    have hne : id ≠ id' := fun he => hc now (by rw [he])
    simp [hne]
  | _ => rfl

/-- No such write makes a consumed code active. -/
theorem not_isActive_apply {w : Write} (h : w.keepsCodes = true) {d : Db} {id : Uuid}
    (hd : d.isActive id = false) : (Write.apply d w).isActive id = false := by
  by_cases hc : ∃ now, w = .consumeOtp id now
  · obtain ⟨now, rfl⟩ := hc
    simp [Db.isActive_consumeOtp]
  · rw [isActive_apply h fun now he => hc ⟨now, he⟩]
    exact hd

end Write

section View

variable {log : List Write} {d : Db} {id : Uuid}

theorem otpIds_view (h : ∀ w ∈ log, w.keepsCodes = true) :
    (store.view d log).otpIds = d.otpIds := by
  induction log generalizing d with
  | nil => rfl
  | cons w log ih =>
    rw [view_cons, ih fun w' hw' => h w' (List.mem_cons_of_mem _ hw')]
    exact Write.otpIds_apply (h w List.mem_cons_self) d

theorem attempts_view (h : ∀ w ∈ log, w.keepsCodes = true) (hid : id ∈ d.otpIds) :
    (store.view d log).attempts id = d.attempts id + log.count (.bumpAttempts id) := by
  induction log generalizing d with
  | nil => simp
  | cons w log ih =>
    have hw := h w List.mem_cons_self
    rw [view_cons, ih (fun w' hw' => h w' (List.mem_cons_of_mem _ hw'))
      (by rw [store_apply, Write.otpIds_apply hw]; exact hid),
      store_apply, Write.attempts_apply hw hid, List.count_cons]
    by_cases he : w = .bumpAttempts id
    · simp [he]
      omega
    · simp [he]

theorem isActive_view (h : ∀ w ∈ log, w.keepsCodes = true)
    (hc : ∀ now, .consumeOtp id now ∉ log) :
    (store.view d log).isActive id = d.isActive id := by
  induction log generalizing d with
  | nil => rfl
  | cons w log ih =>
    rw [view_cons, ih (fun w' hw' => h w' (List.mem_cons_of_mem _ hw'))
      fun now hm => hc now (List.mem_cons_of_mem _ hm)]
    exact Write.isActive_apply (h w List.mem_cons_self)
      (fun now he => hc now (he ▸ List.mem_cons_self)) d

theorem not_isActive_view (h : ∀ w ∈ log, w.keepsCodes = true)
    (hd : d.isActive id = false ∨ ∃ now, .consumeOtp id now ∈ log) :
    (store.view d log).isActive id = false := by
  induction log generalizing d with
  | nil =>
    rcases hd with hd | ⟨now, hm⟩
    · exact hd
    · exact absurd hm List.not_mem_nil
  | cons w log ih =>
    have hw := h w List.mem_cons_self
    refine ih (fun w' hw' => h w' (List.mem_cons_of_mem _ hw')) ?_
    rcases hd with hd | ⟨now, hm⟩
    · exact .inl (Write.not_isActive_apply hw hd)
    · rcases List.mem_cons.mp hm with rfl | hm
      · exact .inl (by simp [Db.isActive_consumeOtp])
      · exact .inr ⟨now, hm⟩

end View

end DiddiFreeID
