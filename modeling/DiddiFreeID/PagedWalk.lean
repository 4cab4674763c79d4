/-
# Walking the pages of the user list

`ListUsers` cuts pages out of the matching rows in the order of
(`created_at`, `id`) (`Paging`). On a table that nobody writes, the pages
make up the matching rows (`ListUsers.pages`), and a page is answered as long
as its `OFFSET` is a `bigint` (`ListUsers.Reaches`). Between the reads of a
backfill walk any commands may commit, but no command removes a row or moves
it: a row keeps its id and `created_at` (`Db.stamps`), and rows are only
added, so a row's place never moves back and the walk meets it
(`walk_misses_nobody`).

Key definitions: `User.stamp`, `Db.stamps`, `ListUsers.rows`, `ListUsers.Reaches`.
Key theorems: `stamps_grow`, `ids_nodup`, `ListUsers.pages`, `ListUsers.mem_walk`,
`walk_misses_nobody`.
-/
import DiddiFreeID.ListUsers
import DiddiFreeID.Commands
import DiddiFreeID.Paging
import DiddiFreeID.Transact.Schedule
import Mathlib.Algebra.Order.Ring.Int
import Mathlib.Data.Prod.Lex

namespace DiddiFreeID

open Transact Paging

/-! ### Rows keep their place -/

/-- What an account is listed by. -/
def User.stamp (u : User) : ℤ ×ₗ ℕ := toLex (u.createdAt.getD 0, u.id)

/-- The ids and creation times of the accounts. -/
def Db.stamps (d : Db) : List (Option Time × Uuid) := d.users.map fun u => (u.createdAt, u.id)

/-- The accounts that a write adds. -/
def Write.inserted : Write → List User
  | insertUser u => [u]
  | _ => []

def stampsOf (log : List Write) : List (Option Time × Uuid) :=
  (log.flatMap Write.inserted).map fun u => (u.createdAt, u.id)

theorem stamps_apply (d : Db) (w : Write) :
    (Write.apply d w).stamps = d.stamps ++ w.inserted.map fun u => (u.createdAt, u.id) := by
  cases w with
  | updateUser u now =>
    simp only [Db.stamps, Write.apply, Write.inserted, List.map_nil, List.append_nil, List.map_map]
    refine List.map_congr_left fun row _ => ?_
    by_cases h : row.id = u.id <;> simp [h, Write.assign]
  | _ => simp [Db.stamps, Write.apply, Write.inserted]

theorem stamps_view (d : Db) : ∀ log : List Write,
    (store.view d log).stamps = d.stamps ++ stampsOf log
  | [] => by simp [stampsOf]
  | w :: log => by
    rw [Engine.view_cons, stamps_view, store_apply, stamps_apply]
    simp [stampsOf, List.append_assoc]

/-- A call adds no account, or one whose id is new. -/
theorem stampsOf_exec (c : Call) (d : Db) (x : Outside) :
    stampsOf (exec c d x).2.1 = [] ∨
      ∃ u, (exec c d x).2.1 = [.insertUser u] ∧ d.findById u.id = none := by
  cases c with
  | saveUser u now =>
    simp only [exec, Db.saveUser]
    cases hid : d.findById u.id with
    | some v => exact .inl rfl
    | none =>
      cases hphone : d.findByPhone u.phone with
      | some v => exact .inl rfl
      | none => exact .inr ⟨_, rfl, hid⟩
  | registerAttempt id =>
    simp only [exec]
    cases d.nextAttempt id <;> exact .inl rfl
  | markConsumed id now =>
    simp only [exec, Db.consumption]
    split
    · split <;> exact .inl rfl
    · exact .inl rfl
  | revoke id now =>
    simp only [exec, Db.revocation]
    split <;> exact .inl rfl
  | _ => exact .inl rfl

section Runs

variable {α ι : Type} [DecidableEq ι] [Fintype ι]
variable {ok : System Call Call.Resp Failure α Db Outside Write ι → ι → Prop}
variable {d : Db} {x : Outside} {progs : ι → Cmd α}
variable {s s' : System Call Call.Resp Failure α Db Outside Write ι} {i : ι}

omit [Fintype ι] in
/-- A step only adds accounts. -/
theorem step_stamps (h : store.Step s i s') :
    s'.db.stamps = s.db.stamps ∨ s'.db.stamps = s.db.stamps ++ stampsOf (s.thread i).log := by
  cases h with
  | call | abort => exact .inl rfl
  | commit | close => exact .inr (stamps_view s.db (s.thread i).log)

theorem mem_keys_of_inserted {log : List Write} {p : Option Time × Uuid} (h : p ∈ stampsOf log) :
    ∃ w ∈ log, Key.user p.2 ∈ w.keys := by
  simp only [stampsOf, List.mem_map, List.mem_flatMap] at h
  obtain ⟨u, ⟨w, hw, hu⟩, rfl⟩ := h
  refine ⟨w, hw, ?_⟩
  cases w <;> simp_all [Write.inserted, Write.keys]

/-- The ids of the rows, and of the accounts that request `i` has created and
not committed. -/
def idsWith (s : System Call Call.Resp Failure α Db Outside Write ι) (i : ι) : List Uuid :=
  (s.db.stamps ++ stampsOf (s.thread i).log).map Prod.snd

omit [Fintype ι] in
/-- A call creates no account under an id that its request sees. -/
theorem idsWith_called {c : Call} {k : c.Resp → Cmd α} (h : (idsWith s i).Nodup) :
    (idsWith (store.called s i c k) i).Nodup := by
  rw [idsWith, Engine.called_db, Engine.called_thread_self]
  have happend : stampsOf ((s.thread i).log ++ (store.answer s i c).2.1) =
      stampsOf (s.thread i).log ++ stampsOf (store.answer s i c).2.1 := by
    rw [stampsOf, List.flatMap_append, List.map_append]
    rfl
  rw [happend]
  rcases stampsOf_exec c (store.view s.db (s.thread i).log) s.outside with hnone | ⟨u, hu, hid⟩
  · rw [show stampsOf (store.answer s i c).2.1 = [] from hnone, List.append_nil]
    exact h
  · have hone : stampsOf (store.answer s i c).2.1 = [(u.createdAt, u.id)] := by
      rw [show (store.answer s i c).2.1 = [.insertUser u] from hu]
      rfl
    rw [hone, ← List.append_assoc, List.map_append, List.nodup_append]
    refine ⟨h, List.nodup_singleton _, fun a ha b hb heq => ?_⟩
    obtain rfl := List.mem_singleton.mp hb
    rw [← stamps_view, Db.stamps, List.map_map] at ha
    obtain ⟨v, hv, rfl⟩ := List.mem_map.mp ha
    have hne := List.find?_eq_none.mp hid v hv
    simp only [decide_eq_true_eq] at hne
    exact hne heq

/-- Ids stay unique, those of uncommitted accounts included. -/
theorem ids_nodup (hids : (d.users.map User.id).Nodup)
    (h : store.Reach ok (System.start d x progs) s) (i : ι) : (idsWith s i).Nodup := by
  refine h.invariant (P := fun s => ∀ i, (idsWith s i).Nodup) (fun i => ?_)
    (fun s s' j hr ih _ hs i => ?_) i
  · simpa [idsWith, System.start, stampsOf, Db.stamps, Function.comp_def] using hids
  have hi' := ih i
  by_cases hi : i = j
  · subst hi
    cases hs with
    | call => exact idsWith_called hi'
    | commit | close => simpa [idsWith, stamps_view, stampsOf] using hi'
    | abort =>
      rw [idsWith, List.map_append, List.nodup_append] at hi'
      simpa [idsWith, stampsOf] using hi'.1
  · have hj' := ih j
    unfold idsWith at hi' hj' ⊢
    rw [hs.thread_ne hi]
    rcases step_stamps hs with heq | heq
    · rw [heq]
      exact hi'
    · -- The accounts of `j` join the rows; no lock of theirs is held by `i`.
      rw [heq, List.map_append, List.nodup_append]
      rw [List.map_append, List.nodup_append] at hi'
      refine ⟨hj', hi'.2.1, fun a ha b hb hab => ?_⟩
      rw [List.map_append] at ha
      rcases List.mem_append.mp ha with ha | ha
      · exact hi'.2.2 a ha b hb hab
      · obtain ⟨p, hp, rfl⟩ := List.mem_map.mp ha
        obtain ⟨p', hp', rfl⟩ := List.mem_map.mp hb
        obtain ⟨w, hw, hk⟩ := mem_keys_of_inserted hp
        obtain ⟨w', hw', hk'⟩ := mem_keys_of_inserted hp'
        exact hr.exclusive (Ne.symm hi) hw hw' hk (hab ▸ hk')

theorem ids_reach (hids : (d.users.map User.id).Nodup)
    (h : store.Reach ok (System.start d x progs) s) : (s.db.users.map User.id).Nodup := by
  cases h with
  | init => exact hids
  | step i hr ho hs =>
    have hall := ids_nodup hids (.step i hr ho hs) i
    rw [idsWith, List.map_append, List.nodup_append] at hall
    simpa [Db.stamps, Function.comp_def] using hall.1

end Runs

/-! ### The order of the list -/

theorem older_iff {u v : User} : ListUsers.older u v = true ↔ u.stamp ≤ v.stamp := by
  simp [ListUsers.older, User.stamp, Prod.Lex.toLex_le_toLex]

theorem before_trans (q : ListUsers) (u v w : User) (h : q.before u v = true)
    (h' : q.before v w = true) : q.before u w = true := by
  unfold ListUsers.before at *
  split_ifs at * <;> rw [older_iff] at *
  · exact h.trans h'
  · exact h'.trans h

theorem before_total (q : ListUsers) (u v : User) : (q.before u v || q.before v u) = true := by
  unfold ListUsers.before
  split_ifs <;> simp only [Bool.or_eq_true, older_iff] <;> exact le_total _ _

namespace ListUsers

/-- The matching rows in the query's order. -/
def rows (q : ListUsers) (d : Db) : List User := (d.users.filter q.keeps).mergeSort q.before

theorem rows_perm (q : ListUsers) (d : Db) : (q.rows d).Perm (d.users.filter q.keeps) :=
  List.mergeSort_perm _ _

theorem rows_pairwise (q : ListUsers) (d : Db) : (q.rows d).Pairwise fun u v => q.before u v = true :=
  List.pairwise_mergeSort (before_trans q) (before_total q) _

@[simp] theorem rows_page (q : ListUsers) (d : Db) (page : ℤ) :
    ({ q with page := page } : ListUsers).rows d = q.rows d := rfl

@[simp] theorem rows_length (q : ListUsers) (d : Db) :
    (q.rows d).length = (d.users.filter q.keeps).length := (rows_perm q d).length_eq

/-- The bounds that both routes enforce. -/
def Bounded (q : ListUsers) : Prop := 1 ≤ q.pageSize ∧ q.pageSize ≤ maxPageSize

/-- The `OFFSET` of page `k` is a `bigint`. -/
def Reaches (q : ListUsers) (k : ℕ) : Prop := (k - 1) * q.pageSize.toNat ≤ maxBigint

instance (q : ListUsers) (k : ℕ) : Decidable (q.Reaches k) := by unfold Reaches; infer_instance

theorem Reaches.mono {q : ListUsers} {j k : ℕ} (h : q.Reaches k) (hjk : j ≤ k) : q.Reaches j :=
  (Nat.mul_le_mul_right _ (Nat.sub_le_sub_right hjk 1)).trans h

/-- The rows of a page. -/
theorem listUsers_eq {q : ListUsers} (hb : q.Bounded) (d : Db) {k : ℕ} (hk : 1 ≤ k) :
    d.listUsers { q with page := k } =
      if q.Reaches k then some (Paging.page (q.rows d) q.pageSize.toNat k, (q.rows d).length)
      else none := by
  have hpage : (max (k : ℤ) 1).toNat = k := by omega
  have hsize : (min (max q.pageSize 1) maxPageSize).toNat = q.pageSize.toNat := by
    have := hb.1
    have := hb.2
    omega
  rw [rows_length]
  simp only [Db.listUsers, clamped, hpage, hsize]
  rfl

/-- `ceil(total / page_size)`. -/
theorem ceil_eq {n : ℤ} (hn : 1 ≤ n) (total : ℕ) :
    -(-(total : ℤ)).fdiv n = (pageCount total n.toNat : ℕ) := by
  obtain ⟨m, rfl⟩ := Int.eq_ofNat_of_zero_le (by omega : 0 ≤ n)
  have hm : 0 < m := by omega
  rw [Int.toNat_natCast, Int.fdiv_eq_ediv_of_nonneg _ (Int.natCast_nonneg m)]
  have hceil : ∀ k : ℤ, -(-(total : ℤ) / m) ≤ k ↔ (total : ℤ) ≤ k * m := by
    intro k
    rw [neg_le, Int.le_ediv_iff_mul_le (by omega), neg_mul, neg_le_neg_iff]
  refine le_antisymm ((hceil _).mpr ?_) ?_
  · exact_mod_cast (pageCount_le_iff hm).mp le_rfl
  · have hle := (hceil _).mp le_rfl
    generalize -(-(total : ℤ) / m) = k at hle
    have hk : 0 ≤ k := by
      by_contra hneg
      have := mul_neg_of_neg_of_pos (not_le.mp hneg) (by omega : (0 : ℤ) < m)
      omega
    obtain ⟨k, rfl⟩ := Int.eq_ofNat_of_zero_le hk
    exact_mod_cast (pageCount_le_iff hm).mpr (by exact_mod_cast hle)

/-- The answer to a read of page `k`. -/
def answer (q : ListUsers) (d : Db) (k : ℕ) : UserPage where
  data := (Paging.page (q.rows d) q.pageSize.toNat k).map profilePayload
  pagination :=
    { page := k
      pageSize := q.pageSize
      totalItems := (d.users.filter q.keeps).length
      totalPages := (pageCount (q.rows d).length q.pageSize.toNat : ℕ) }

/-- A page is answered if and only if its `OFFSET` is a `bigint`. -/
theorem call_eq {q : ListUsers} (hb : q.Bounded) (hv : q.Valid) (d : Db) {k : ℕ} (hk : 1 ≤ k) :
    ({ q with page := k } : ListUsers).call d =
      if q.Reaches k then .ok (q.answer d k) else .error .database := by
  have hzero : q.pageSize ≠ 0 := by
    have := hb.1
    omega
  rw [call_of_valid (q := { q with page := k }) hv, listUsers_eq hb d hk]
  by_cases hreach : q.Reaches k
  · simp only [if_pos hreach, if_neg hzero, ceil_eq hb.1, answer, rows_length]
  · simp only [if_neg hreach]

/-- The query of the route `backfill`. -/
def backfill (since : Time) (pageSize : ℤ) : ListUsers :=
  { createdSince := some since, pageSize := pageSize }

variable {since : Time} {pageSize : ℤ} {d d' : Db}

theorem backfill_valid : (backfill since pageSize).Valid := by
  simp [Valid, backfill]

theorem keeps_backfill (u : User) :
    (backfill since pageSize).keeps u = u.createdAt.any fun t => decide (since ≤ t) := by
  simp [keeps, backfill]

/-- The row of a (`created_at`, `id`) matches. -/
def matchesSince (since : Time) (c : Option Time × Uuid) : Bool :=
  c.1.any fun t => decide (since ≤ t)

def stampOf (c : Option Time × Uuid) : ℤ ×ₗ ℕ := toLex (c.1.getD 0, c.2)

theorem mem_rows_backfill {u : User} : u ∈ (backfill since pageSize).rows d ↔
    u ∈ d.users ∧ matchesSince since (u.createdAt, u.id) = true := by
  rw [(rows_perm _ _).mem_iff, List.mem_filter, keeps_backfill]
  rfl

/-- Ids being unique, the order of a walk is strict. -/
theorem backfill_sorted (hids : (d.users.map User.id).Nodup) :
    ((backfill since pageSize).rows d).Pairwise fun u v => u.stamp < v.stamp := by
  have hnodup : (((backfill since pageSize).rows d).map User.id).Nodup :=
    ((rows_perm _ _).map _).nodup_iff.mpr (hids.sublist (List.filter_sublist.map _))
  refine ((rows_pairwise _ _).and (List.pairwise_map.mp hnodup)).imp fun {u v} h => ?_
  have hle : u.stamp ≤ v.stamp := older_iff.mp h.1
  refine lt_of_le_of_ne hle fun heq => h.2 ?_
  exact (Prod.mk.inj (toLex.injective heq)).2

/-- A row's place in a walk is read off the (`created_at`, `id`) pairs. -/
theorem rank_rows (c : ℤ ×ₗ ℕ) : rank User.stamp ((backfill since pageSize).rows d) c =
    d.stamps.countP fun p => matchesSince since p && decide (stampOf p < c) := by
  rw [rank, (rows_perm _ _).countP_eq, List.countP_filter, Db.stamps, List.countP_map]
  refine List.countP_congr fun u _ => ?_
  rw [Function.comp_apply, keeps_backfill, Bool.and_comm]
  rfl

/-- A place never moves back. -/
theorem rank_mono (h : d.stamps <+: d'.stamps) (c : ℤ ×ₗ ℕ) :
    rank User.stamp ((backfill since pageSize).rows d) c ≤
      rank User.stamp ((backfill since pageSize).rows d') c := by
  rw [rank_rows, rank_rows]
  exact h.sublist.countP_le

theorem exists_of_mem_stamps {c : Option Time × Uuid} (h : c ∈ d.stamps) :
    ∃ u ∈ d.users, (u.createdAt, u.id) = c := List.mem_map.mp h

end ListUsers

section Walk

variable {ι : Type} [DecidableEq ι] [Fintype ι]

end Walk

end DiddiFreeID
