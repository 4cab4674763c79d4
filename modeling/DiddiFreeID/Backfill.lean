/-
# Resuming the backfill

A module walks `backfill` from page to page, again and again, each walk from
the greatest `created_at` it has received. Registrations run in between:
`RegisterUser` stamps the account first and commits it later, so an account
may commit behind a cursor that a younger one has already moved.

While every account commits ahead of the module (not before the cursor of the
walk, and after every account of the walk in progress), a walk that ends has
delivered every account there is (`resume_skips_nobody`). What is invariant
inside a walk is a place: what is not yet delivered stands behind the pages
read (`Undelivered`), and the pages read are full of accounts before it.

Key definitions: `Walk`, `Walker`, `Catchup.step`, `Delivered`, `Ahead`.
Key theorems: `Inv.step`, `resume_skips_nobody`.
-/
import DiddiFreeID.PagedWalk

namespace DiddiFreeID

namespace Backfill

open Transact Paging ListUsers

/-! ### The module and the requests -/

/-- A walk in progress: its query, the next page, what it has received. -/
structure Walk where
  since : Time
  pageSize : ℤ
  page : ℕ := 1
  recent : List User := []

/-- What a module has received, its first cursor, and the accounts committed
when its last walk began. -/
structure Walker where
  origin : Time
  received : List User := []
  walk : Option Walk := none
  owed : List Uuid := []

/-- The greatest `created_at` received. -/
def Walker.latest (w : Walker) : Time :=
  w.received.foldl (fun t u => max t (u.createdAt.getD t)) w.origin

/-- The service and the module. -/
structure Catchup (α ι : Type) where
  system : System Call Call.Resp Failure α Db Outside Write ι
  walker : Walker

inductive Act (ι : Type)
  /-- The next step of a request. -/
  | request (i : ι)
  | begin (pageSize : ℤ)
  /-- The module reads the next page. -/
  | read

variable {α ι : Type} [DecidableEq ι] [Fintype ι]

namespace Catchup

/-- The module reads a page, if it is answered; the walk ends at the last
one. -/
def read (s : Catchup α ι) (w : Walk) : Option (Catchup α ι) :=
  let q : ListUsers := { backfill w.since w.pageSize with page := w.page }
  match s.system.db.listUsers q, q.call s.system.db with
  | some (rows, _), .ok answer =>
    some { s with
      walker := { s.walker with
        received := s.walker.received ++ rows
        walk :=
          if answer.pagination.totalPages ≤ w.page then none
          else some { w with page := w.page + 1, recent := w.recent ++ rows } } }
  | _, _ => none

def step (s : Catchup α ι) : Act ι → Option (Catchup α ι)
  | .request i => (store.step s.system i).map fun system => { s with system := system }
  | .begin pageSize =>
    if s.walker.walk.isNone && decide (1 ≤ pageSize) && decide (pageSize ≤ maxPageSize) then
      some { s with
        walker := { s.walker with
          walk := some { since := s.walker.latest, pageSize := pageSize }
          owed := s.system.db.users.map User.id } }
    else none
  | .read =>
    match s.walker.walk with
    | some w => s.read w
    | none => none

/-- The requests and the module at their start. -/
def start (d : Db) (x : Outside) (progs : ι → Cmd α) (origin : Time) : Catchup α ι :=
  ⟨System.start d x progs, { origin := origin }⟩

/-- The state after a list of steps, if each can be taken. -/
def run (s : Catchup α ι) : List (Act ι) → Option (Catchup α ι)
  | [] => some s
  | a :: acts => (s.step a).bind fun s' => s'.run acts

end Catchup

/-- The module has received the account. -/
def Walker.Has (w : Walker) (id : Uuid) : Prop := ∃ u ∈ w.received, u.id = id

instance (w : Walker) (id : Uuid) : Decidable (w.Has id) := by unfold Walker.Has; infer_instance

/-- Between walks: what was committed when the last walk began has been
delivered. -/
def Delivered (w : Walker) : Prop := w.walk.isNone = true → ∀ id ∈ w.owed, w.Has id

instance (w : Walker) : Decidable (Delivered w) := by unfold Delivered; infer_instance

/-- The accounts that the next step of a request commits. -/
def landing (t : Thread Call Call.Resp Failure α Write) : List User :=
  match t.prog with
  | .call c _ => if store.commits c then t.log.flatMap Write.inserted else []
  | .ret _ => t.log.flatMap Write.inserted
  | .raise _ => []

/-- The account is ahead of the module: not before the cursor of the walk in
progress or to come, and after every account of the walk in progress. -/
def Ahead (w : Walker) (u : User) : Prop :=
  match w.walk with
  | none => matchesSince w.latest (u.createdAt, u.id) = true
  | some walk =>
    matchesSince walk.since (u.createdAt, u.id) = true ∧ ∀ v ∈ walk.recent, v.stamp < u.stamp

instance (w : Walker) (u : User) : Decidable (Ahead w u) := by
  unfold Ahead
  split <;> infer_instance

/-- A request commits only accounts that are ahead of the module. -/
def InOrder (s : Catchup α ι) : Act ι → Prop
  | .request i => ∀ u ∈ landing (s.system.thread i), Ahead s.walker u
  | _ => True

instance (s : Catchup α ι) (a : Act ι) : Decidable (InOrder s a) := by
  unfold InOrder
  split <;> infer_instance

/-- The state after a list of steps that are in order, if each can be
taken. -/
def Catchup.runInOrder (s : Catchup α ι) : List (Act ι) → Option (Catchup α ι)
  | [] => some s
  | a :: acts => if InOrder s a then (s.step a).bind fun s' => s'.runInOrder acts else none

/-- What runs reach whose commits are in order. -/
inductive Reach (s₀ : Catchup α ι) : Catchup α ι → Prop
  | init : Reach s₀ s₀
  | step {s s' : Catchup α ι} (a : Act ι) : Reach s₀ s → InOrder s a → s.step a = some s' → Reach s₀ s'

/-! ### Places in a walk -/

section Steps

variable {s s' : Catchup α ι} {d : Db}

omit [Fintype ι] in
/-- A step adds the accounts it commits. -/
theorem stamps_landing {s s' : System Call Call.Resp Failure α Db Outside Write ι} {i : ι}
    (h : store.Step s i s') : s'.db.stamps = s.db.stamps ++
      (landing (s.thread i)).map fun u => (u.createdAt, u.id) := by
  cases h with
  | call hp hc => simp [landing, hp, hc]
  | commit hp hc =>
    simp only [landing, hp, hc, if_true]
    exact stamps_view s.db (s.thread i).log
  | close hp =>
    simp only [landing, hp]
    exact stamps_view s.db (s.thread i).log
  | abort hp => simp [landing, hp]

/-- The accounts of a walk up to one of them. -/
def upTo (d : Db) (since : Time) (c : ℤ ×ₗ ℕ) : ℕ :=
  d.stamps.countP fun p => matchesSince since p && decide (stampOf p ≤ c)

theorem upTo_mono {d d' : Db} (h : d.stamps <+: d'.stamps) (since : Time) (c : ℤ ×ₗ ℕ) :
    upTo d since c ≤ upTo d' since c := h.sublist.countP_le

theorem upTo_le_rank {since : Time} {pageSize : ℤ} {c c' : ℤ ×ₗ ℕ} (h : c < c') :
    upTo d since c ≤ rank User.stamp ((backfill since pageSize).rows d) c' := by
  rw [rank_rows]
  refine List.countP_mono_left fun p _ hp => ?_
  simp only [Bool.and_eq_true, decide_eq_true_eq] at hp ⊢
  exact ⟨hp.1, hp.2.trans_lt h⟩

theorem countP_rows (since : Time) (pageSize : ℤ) (c : ℤ ×ₗ ℕ) :
    (((backfill since pageSize).rows d).countP fun u => decide (u.stamp ≤ c)) = upTo d since c := by
  rw [(rows_perm _ _).countP_eq, List.countP_filter, upTo, Db.stamps, List.countP_map]
  refine List.countP_congr fun u _ => ?_
  rw [Function.comp_apply, keeps_backfill, Bool.and_comm]
  rfl

namespace Walk

/-- The accounts that match the walk's query, in order. -/
def rows (w : Walk) (d : Db) : List User := (backfill w.since w.pageSize).rows d

/-- The accounts on its next page. -/
def shown (w : Walk) (d : Db) : List User := Paging.page (w.rows d) w.pageSize.toNat w.page

/-- Its next page is the last one. -/
def Ends (w : Walk) (d : Db) : Prop := pageCount (w.rows d).length w.pageSize.toNat ≤ w.page

instance (w : Walk) (d : Db) : Decidable (w.Ends d) := by unfold Ends; infer_instance

/-- The page size is within the bounds of the route. -/
structure Valid (w : Walk) : Prop where
  page : 1 ≤ w.page
  size : 1 ≤ w.pageSize
  max : w.pageSize ≤ maxPageSize

end Walk

omit [DecidableEq ι] [Fintype ι] in
theorem read_eq {w : Walk} (hw : w.Valid) (h : s.read w = some s') : s' =
    { s with
      walker := { s.walker with
        received := s.walker.received ++ w.shown s.system.db
        walk :=
          if w.Ends s.system.db then none
          else some { w with page := w.page + 1, recent := w.recent ++ w.shown s.system.db } } } := by
  have hb : (backfill w.since w.pageSize).Bounded := ⟨hw.size, hw.max⟩
  simp only [Catchup.read, call_eq hb backfill_valid _ hw.page, listUsers_eq hb _ hw.page] at h
  by_cases hreach : (backfill w.since w.pageSize).Reaches w.page
  · simp only [if_pos hreach, answer, Nat.cast_le, Option.some.injEq] at h
    exact h.symm
  · simp [if_neg hreach] at h

/-- What the walk has not delivered is a match, behind the pages read. -/
def Undelivered (d : Db) (w : Walk) (c : Option Time × Uuid) : Prop :=
  matchesSince w.since c = true ∧
    (w.page - 1) * w.pageSize.toNat ≤ rank User.stamp (w.rows d) (stampOf c)

/-- The pages read are full of accounts up to one that was received. -/
def Front (d : Db) (w : Walk) : Prop :=
  w.page = 1 ∨ ∃ v ∈ w.recent, (w.page - 1) * w.pageSize.toNat ≤ upTo d w.since v.stamp

/-- The account of a (`created_at`, `id`) has been received. -/
def Walker.HasStamp (w : Walker) (c : Option Time × Uuid) : Prop :=
  ∃ u ∈ w.received, (u.createdAt, u.id) = c

/-- What every run in order keeps. -/
structure Inv (s : Catchup α ι) : Prop where
  between : s.walker.walk = none → ∀ c ∈ s.system.db.stamps,
    s.walker.HasStamp c ∨ matchesSince s.walker.latest c = true
  delivered : s.walker.walk = none → ∀ id ∈ s.walker.owed, s.walker.Has id
  owed : ∀ id ∈ s.walker.owed, id ∈ s.system.db.stamps.map Prod.snd
  walking : ∀ w, s.walker.walk = some w → w.Valid ∧ Front s.system.db w ∧
    ∀ c ∈ s.system.db.stamps, s.walker.HasStamp c ∨ Undelivered s.system.db w c

omit [DecidableEq ι] [Fintype ι] in
theorem Inv.begin (h : Inv s) (hwalk : s.walker.walk = none) {pageSize : ℤ} (hlo : 1 ≤ pageSize)
    (hhi : pageSize ≤ maxPageSize) :
    Inv { s with
      walker := { s.walker with
        walk := some { since := s.walker.latest, pageSize := pageSize }
        owed := s.system.db.users.map User.id } } where
  between := by simp
  delivered := by simp
  owed := by simp [Db.stamps, Function.comp_def]
  walking := by
    rintro w ⟨⟩
    refine ⟨⟨le_rfl, hlo, hhi⟩, .inl rfl, fun c hc => ?_⟩
    rcases h.between hwalk c hc with hc | hc
    · exact .inl hc
    · exact .inr ⟨hc, by simp⟩

omit [Fintype ι] in
/-- A commit in order lands behind the pages read. -/
theorem Inv.request (h : Inv s) {i : ι} {system : System Call Call.Resp Failure α Db Outside Write ι}
    (hs : store.Step s.system i system) (hord : InOrder s (.request i)) :
    Inv { s with system := system } := by
  have hgrow := stamps_landing hs
  have hpre : s.system.db.stamps <+: system.db.stamps := ⟨_, hgrow.symm⟩
  have hcases : ∀ c ∈ system.db.stamps, c ∈ s.system.db.stamps ∨
      ∃ u ∈ landing (s.system.thread i), (u.createdAt, u.id) = c := by
    intro c hc
    rw [hgrow] at hc
    exact (List.mem_append.mp hc).imp id List.mem_map.mp
  refine ⟨fun hwalk c hc => ?_, h.delivered, fun id hid => ?_, fun w hwalk => ?_⟩
  · rcases hcases c hc with hc | ⟨u, hu, rfl⟩
    · exact h.between hwalk c hc
    · have hahead := hord u hu
      simp only [Ahead, show s.walker.walk = none from hwalk] at hahead
      exact .inr hahead
  · exact (hpre.map Prod.snd).subset (h.owed id hid)
  · obtain ⟨hvalid, hfront, hall⟩ := h.walking w hwalk
    refine ⟨hvalid, ?_, fun c hc => ?_⟩
    · rcases hfront with hfront | ⟨v, hv, hle⟩
      · exact .inl hfront
      · exact .inr ⟨v, hv, hle.trans (upTo_mono hpre _ _)⟩
    · rcases hcases c hc with hc | ⟨u, hu, rfl⟩
      · rcases hall c hc with hc | ⟨hmatch, hle⟩
        · exact .inl hc
        · exact .inr ⟨hmatch, hle.trans (rank_mono hpre _)⟩
      · have hahead := hord u hu
        simp only [Ahead, show s.walker.walk = some w from hwalk] at hahead
        refine .inr ⟨hahead.1, ?_⟩
        rcases hfront with hfront | ⟨v, hv, hle⟩
        · simp [hfront]
        · exact (hle.trans (upTo_mono hpre _ _)).trans (upTo_le_rank (hahead.2 v hv))

omit [DecidableEq ι] [Fintype ι] in
/-- After a read, what the module has not received stands behind the page. -/
theorem behind_page (hids : (s.system.db.users.map User.id).Nodup) {w : Walk} (hw : w.Valid)
    {c : Option Time × Uuid} (hc : c ∈ s.system.db.stamps)
    (h : s.walker.HasStamp c ∨ Undelivered s.system.db w c) :
    (∃ u ∈ s.walker.received ++ w.shown s.system.db, (u.createdAt, u.id) = c) ∨
      matchesSince w.since c = true ∧
        w.page * w.pageSize.toNat ≤ rank User.stamp (w.rows s.system.db) (stampOf c) := by
  obtain ⟨k, hk⟩ : ∃ k, w.page = k + 1 :=
    Nat.exists_eq_succ_of_ne_zero (Nat.one_le_iff_ne_zero.mp hw.page)
  rcases h with ⟨u, hu, huc⟩ | ⟨hmatch, hle⟩
  · exact .inl ⟨u, List.mem_append_left _ hu, huc⟩
  · rcases Nat.lt_or_ge (rank User.stamp (w.rows s.system.db) (stampOf c))
      ((w.page - 1) * w.pageSize.toNat + w.pageSize.toNat) with hlt | hge
    · obtain ⟨u, hu, rfl⟩ := exists_of_mem_stamps hc
      have hmem : u ∈ w.rows s.system.db := mem_rows_backfill.mpr ⟨hu, hmatch⟩
      exact .inl ⟨u, List.mem_append_right _ (mem_page_of_rank (backfill_sorted hids) hmem hle hlt), rfl⟩
    · refine .inr ⟨hmatch, le_trans (le_of_eq ?_) hge⟩
      rw [hk, Nat.add_sub_cancel, Nat.succ_mul]

omit [DecidableEq ι] [Fintype ι] in
/-- The last page leaves nothing behind it. -/
theorem received_of_ends (h : Inv s) (hids : (s.system.db.users.map User.id).Nodup) {w : Walk}
    (hwalk : s.walker.walk = some w) (hend : w.Ends s.system.db) {c : Option Time × Uuid}
    (hc : c ∈ s.system.db.stamps) :
    ∃ u ∈ s.walker.received ++ w.shown s.system.db, (u.createdAt, u.id) = c := by
  obtain ⟨hw, -, hall⟩ := h.walking w hwalk
  have hsize : 0 < w.pageSize.toNat := by
    have := hw.size
    omega
  rcases behind_page hids hw hc (hall c hc) with hc | ⟨hmatch, hle⟩
  · exact hc
  · obtain ⟨u, hu, rfl⟩ := exists_of_mem_stamps hc
    have hlt : rank User.stamp (w.rows s.system.db) u.stamp < (w.rows s.system.db).length :=
      rank_lt_length (mem_rows_backfill.mpr ⟨hu, hmatch⟩)
    have hlength := (pageCount_le_iff hsize).mp hend
    exact absurd (hlt.trans_le hlength) (Nat.not_lt.mpr hle)

omit [DecidableEq ι] [Fintype ι] in
/-- A read delivers what stands on its page; the rest is behind it. -/
theorem Inv.read (h : Inv s) (hids : (s.system.db.users.map User.id).Nodup) {w : Walk}
    (hwalk : s.walker.walk = some w) (hs : s.read w = some s') : Inv s' := by
  obtain ⟨hw, -, hall⟩ := h.walking w hwalk
  have hsize : 0 < w.pageSize.toNat := by
    have := hw.size
    omega
  have heq := read_eq hw hs
  by_cases hend : w.Ends s.system.db
  · rw [if_pos hend] at heq
    subst heq
    refine ⟨fun _ c hc => .inl (received_of_ends h hids hwalk hend hc), fun _ id hid => ?_, h.owed,
      by simp⟩
    obtain ⟨c, hc, rfl⟩ := List.mem_map.mp (h.owed id hid)
    obtain ⟨u, hu, rfl⟩ := received_of_ends h hids hwalk hend hc
    exact ⟨u, hu, rfl⟩
  · rw [if_neg hend] at heq
    subst heq
    refine ⟨by simp, by simp, h.owed, ?_⟩
    rintro w' ⟨⟩
    refine ⟨⟨Nat.le_succ_of_le hw.page, hw.size, hw.max⟩, .inr ?_, fun c hc => ?_⟩
    · have hfull : w.page * w.pageSize.toNat ≤ (w.rows s.system.db).length := by
        by_contra hcon
        exact hend ((pageCount_le_iff hsize).mpr (by omega))
      obtain ⟨v, hv, hle⟩ := countP_le_of_full (backfill_sorted hids) hsize hw.page hfull
      refine ⟨v, List.mem_append_right _ hv, ?_⟩
      rw [← countP_rows w.since w.pageSize, Nat.add_sub_cancel]
      exact hle
    · rcases behind_page hids hw hc (hall c hc) with hc | ⟨hmatch, hle⟩
      · exact .inl hc
      · exact .inr ⟨hmatch, by rw [Nat.add_sub_cancel]; exact hle⟩

theorem Inv.step (h : Inv s) (hids : (s.system.db.users.map User.id).Nodup) {a : Act ι}
    (hord : InOrder s a) (hs : s.step a = some s') : Inv s' := by
  cases a with
  | request i =>
    obtain ⟨system, hstep, rfl⟩ := Option.map_eq_some_iff.mp hs
    exact h.request (Engine.step_cases store hstep) hord
  | begin pageSize =>
    simp only [Catchup.step, Option.ite_none_right_eq_some, Bool.and_eq_true, decide_eq_true_eq,
      Option.isNone_iff_eq_none, Option.some.injEq] at hs
    obtain ⟨⟨⟨hwalk, hlo⟩, hhi⟩, rfl⟩ := hs
    exact h.begin hwalk hlo hhi
  | read =>
    simp only [Catchup.step] at hs
    cases hwalk : s.walker.walk with
    | none => simp [hwalk] at hs
    | some w => exact h.read hids hwalk (by simpa [hwalk] using hs)

end Steps

/-! ### Runs -/

section Runs

variable {d : Db} {x : Outside} {progs : ι → Cmd α} {origin : Time} {s : Catchup α ι}

/-- The requests of a run take the steps of the store. -/
theorem Reach.system (h : Reach (.start d x progs origin) s) :
    store.Reach Engine.Any (System.start d x progs) s.system := by
  induction h with
  | init => exact .init
  | step a _ _ hs ih =>
    cases a with
    | request i =>
      obtain ⟨system, hstep, rfl⟩ := Option.map_eq_some_iff.mp hs
      exact .step i ih trivial hstep
    | begin pageSize =>
      simp only [Catchup.step, Option.ite_none_right_eq_some, Option.some.injEq] at hs
      obtain ⟨-, rfl⟩ := hs
      exact ih
    | read =>
      simp only [Catchup.step] at hs
      split at hs
      · rename_i w hwalk
        simp only [Catchup.read] at hs
        split at hs
        · cases hs
          exact ih
        · cases hs
      · cases hs

theorem Reach.trans {s₀ s₁ s₂ : Catchup α ι} (h : Reach s₀ s₁) (h' : Reach s₁ s₂) : Reach s₀ s₂ := by
  induction h' with
  | init => exact h
  | step a _ hord hs ih => exact .step a ih hord hs

theorem reach_of_runInOrder : ∀ {acts : List (Act ι)} {s s' : Catchup α ι},
    s.runInOrder acts = some s' → Reach s s'
  | [], _, _, h => by cases h; exact .init
  | a :: acts, s, s', h => by
    unfold Catchup.runInOrder at h
    split_ifs at h with hord
    obtain ⟨s₁, hs, h⟩ := Option.bind_eq_some_iff.mp h
    exact (Reach.step a .init hord hs).trans (reach_of_runInOrder h)

theorem Reach.inv (hids : (d.users.map User.id).Nodup)
    (hstart : ∀ u ∈ d.users, matchesSince origin (u.createdAt, u.id) = true)
    (h : Reach (.start d x progs origin) s) : Inv s := by
  induction h with
  | init =>
    refine ⟨fun _ c hc => ?_, by simp [Catchup.start], by simp [Catchup.start], by simp [Catchup.start]⟩
    obtain ⟨u, hu, rfl⟩ := exists_of_mem_stamps hc
    exact .inr (hstart u hu)
  | step a hr hord hs ih => exact ih.step (ids_reach hids hr.system) hord hs

end Runs

/-- **Resuming skips nobody while commits are in order.** In every
interleaving of registrations with complete walks, each from the greatest
`created_at` received, whose commits are all ahead of the module, every
account committed before a walk began has been delivered by its end. -/
theorem resume_skips_nobody {d : Db} {x : Outside} {q : ι → RegisterUser} {origin : Time}
    {s : Catchup Response ι} (hids : (d.users.map User.id).Nodup)
    (hstart : ∀ u ∈ d.users, matchesSince origin (u.createdAt, u.id) = true)
    (h : Reach (.start d x (fun i => (q i).call) origin) s) : Delivered s.walker :=
  fun hwalk => (h.inv hids hstart).delivered (Option.isNone_iff_eq_none.mp hwalk)

/-- Two registrations, stamped one after the other. -/
def pair : Fin 2 → RegisterUser
  | 0 => ⟨"+22507000001", none, 1, 1⟩
  | 1 => ⟨"+22507000002", none, 2, 2⟩

theorem resume_skips_nobody_in_turn :
    ∃ s : Catchup Response (Fin 2), s.walker.owed = [1, 2] ∧ s.walker.walk.isNone = true ∧
      Delivered s.walker := by
  have hrun : ((Catchup.start {} {} (fun i => (pair i).call) 0).runInOrder
      [.request 0, .request 1, .request 0, .request 0, .begin 100, .read, .request 1, .request 1,
        .begin 100, .read]).any (fun s => decide (s.walker.owed = [1, 2]) && s.walker.walk.isNone) =
      true := by
    decide +kernel
  obtain ⟨hs, hn⟩ := (Option.any_eq_true_iff_get _ _).mp hrun
  rw [Bool.and_eq_true, decide_eq_true_eq] at hn
  exact ⟨_, hn.1, hn.2, resume_skips_nobody (by decide) (by simp)
    (reach_of_runInOrder (Option.some_get hs).symm)⟩

/-! ### A commit behind the cursor -/

/-- The one stamped first commits after a walk has received the other: no
later walk goes back to it. -/
theorem skipped_behind_cursor :
    ∃ s : Catchup Response (Fin 2),
      (Catchup.start {} {} (fun i => (pair i).call) 0).run
        [.request 0, .request 1, .request 1, .request 1, .begin 100, .read, .request 0, .request 0,
          .begin 100, .read] = some s ∧
      s.walker.owed = [2, 1] ∧ s.walker.received.map User.id = [2, 2] ∧
      s.walker.walk.isNone = true ∧ ¬ Delivered s.walker := by
  have hrun : ((Catchup.start {} {} (fun i => (pair i).call) 0).run
      [.request 0, .request 1, .request 1, .request 1, .begin 100, .read, .request 0, .request 0,
        .begin 100, .read]).any (fun s => decide (s.walker.owed = [2, 1] ∧
          s.walker.received.map User.id = [2, 2] ∧ s.walker.walk.isNone = true ∧
          ¬ Delivered s.walker)) = true := by
    decide +kernel
  obtain ⟨hs, hn⟩ := (Option.any_eq_true_iff_get _ _).mp hrun
  exact ⟨_, (Option.some_get hs).symm, of_decide_eq_true hn⟩

end Backfill

end DiddiFreeID
