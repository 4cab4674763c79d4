/-
# The back-office list

`list_users` of `infra/read_repository.py` and the query `ListUsers` over
it: filters, order, pages. PostgreSQL takes no `OFFSET` beyond a `bigint`, so
a page may be too far to be asked for. Every row that passes the filters is on
some page, whatever the page size, as long as the table is not larger than
that (`ListUsers.mem_page`).

Key definitions: `ListUsers`, `Db.listUsers`, `ListUsers.call`.
-/
import DiddiFreeID.Store

namespace DiddiFreeID

/-- Ceiling on `page_size`. -/
def maxPageSize : ℤ := 100

/-- The largest `bigint`, the type of an `OFFSET`. -/
def maxBigint : ℕ := 9223372036854775807

/-- The arguments of `ListUsers`, with its defaults. -/
structure ListUsers where
  role : Option String := none
  status : Option String := none
  pendingKyc : Bool := false
  createdSince : Option Time := none
  page : ℤ := 1
  pageSize : ℤ := 20
  deriving DecidableEq, Repr

namespace ListUsers

/-- The `WHERE` clause. -/
def keeps (q : ListUsers) (u : User) : Bool :=
  q.role.all (fun role => u.role.value = role) &&
  q.status.all (fun status => u.status.value = status) &&
  (!q.pendingKyc || u.requestedRole.isSome) &&
  q.createdSince.all fun since => u.createdAt.any fun t => since ≤ t

/-- By `created_at` (a column that is never null), ties by `id`. -/
def older (u v : User) : Bool :=
  let s := u.createdAt.getD 0
  let t := v.createdAt.getD 0
  decide (s < t) || (decide (s = t) && decide (u.id ≤ v.id))

/-- The `ORDER BY` clause: a backfill reads from the oldest account on. -/
def before (q : ListUsers) (u v : User) : Bool :=
  if q.createdSince.isSome then older u v else older v u

def invalidRole (role : String) : ApiError :=
  { statusCode := 422
    code := "INVALID_ROLE"
    message := [.text "Rôle inconnu : ", .quoted role, .text "."]
    details := some [("field", .text "role"), ("accepted", .texts (UserRole.all.map UserRole.value))] }

def invalidStatus (status : String) : ApiError :=
  { statusCode := 422
    code := "INVALID_STATUS"
    message := [.text "Statut inconnu : ", .quoted status, .text "."]
    details := some
      [("field", .text "status"), ("accepted", .texts (UserStatus.all.map UserStatus.value))] }

/-- The effective page and page size. -/
def clamped (q : ListUsers) : ℕ × ℕ :=
  ((max q.page 1).toNat, (min (max q.pageSize 1) maxPageSize).toNat)

end ListUsers

/-- The rows of one page, and how many there are on all pages; none where the
statement is refused for its `OFFSET`. -/
def Db.listUsers (d : Db) (q : ListUsers) : Option (List User × ℕ) :=
  let rows := d.users.filter q.keeps
  let (page, pageSize) := q.clamped
  let offset := (page - 1) * pageSize
  if offset ≤ maxBigint then
    some (((rows.mergeSort q.before).drop offset).take pageSize, rows.length)
  else none

structure Pagination where
  page : ℤ
  pageSize : ℤ
  totalItems : ℕ
  totalPages : ℤ
  deriving DecidableEq, Repr

structure UserPage where
  data : List Profile
  pagination : Pagination
  deriving DecidableEq, Repr

namespace ListUsers

def call (d : Db) (q : ListUsers) : Except Failure UserPage := do
  if let some role := q.role then
    if (UserRole.ofValue role).isNone then throw (.api (invalidRole role))
  if let some status := q.status then
    if (UserStatus.ofValue status).isNone then throw (.api (invalidStatus status))
  let some (rows, total) := d.listUsers q | throw .database
  return {
    data := rows.map profilePayload
    pagination :=
      { page := q.page
        pageSize := q.pageSize
        totalItems := total
        -- `ceil(total / page_size)`, of the size asked for
        totalPages := if q.pageSize = 0 then 0 else -(-(total : ℤ)).fdiv q.pageSize } }

/-- The values that the query does not answer with `422`. -/
def Valid (q : ListUsers) : Prop :=
  (∀ role ∈ q.role, (UserRole.ofValue role).isSome) ∧
    ∀ status ∈ q.status, (UserStatus.ofValue status).isSome

/-- A valid query is answered, unless its statement is refused. -/
theorem call_of_valid {q : ListUsers} (hv : q.Valid) (d : Db) :
    q.call d = match d.listUsers q with
      | some (rows, total) => .ok
          { data := rows.map profilePayload
            pagination :=
              { page := q.page
                pageSize := q.pageSize
                totalItems := total
                totalPages := if q.pageSize = 0 then 0 else -(-(total : ℤ)).fdiv q.pageSize } }
      | none => .error .database := by
  have hrole : ∀ role, q.role = some role → (UserRole.ofValue role).isNone = false := by
    intro role h
    simpa using hv.1 role h
  have hstatus : ∀ status, q.status = some status → (UserStatus.ofValue status).isNone = false := by
    intro status h
    simpa using hv.2 status h
  unfold call
  cases hr : q.role with
  | none =>
    cases hs : q.status with
    | none => cases d.listUsers q <;> rfl
    | some status =>
      simp only [hstatus status hs]
      cases d.listUsers q <;> rfl
  | some role =>
    simp only [hrole role hr]
    cases hs : q.status with
    | none => cases d.listUsers q <;> rfl
    | some status =>
      simp only [hstatus status hs]
      cases d.listUsers q <;> rfl

/-- Every element of a list is on one of its pages. -/
theorem exists_page {α : Type} {l : List α} {a : α} (h : a ∈ l) {n : ℕ} (hn : 0 < n) :
    ∃ k, k * n < l.length ∧ a ∈ (l.drop (k * n)).take n := by
  obtain ⟨i, hi, rfl⟩ := List.mem_iff_getElem.mp h
  refine ⟨i / n, (Nat.div_mul_le_self i n).trans_lt hi, List.mem_iff_getElem.mpr ⟨i % n, ?_, ?_⟩⟩
  · have := Nat.div_add_mod' i n
    have := Nat.mod_lt i hn
    rw [List.length_take, List.length_drop]
    omega
  · simp only [List.getElem_take, List.getElem_drop]
    congr 1
    exact Nat.div_add_mod' i n

/-- **No row is lost between pages**: with any page size, a row that passes
the filters is on some page. -/
theorem mem_page {d : Db} {q : ListUsers} {u : User} (hlength : d.users.length ≤ maxBigint + 1)
    (hu : u ∈ d.users) (hq : q.keeps u = true) :
    ∃ page rows, 1 ≤ page ∧
      d.listUsers { q with page := page } = some (rows, (d.users.filter q.keeps).length) ∧
      u ∈ rows := by
  have hm : u ∈ (d.users.filter q.keeps).mergeSort q.before :=
    List.mem_mergeSort.mpr (List.mem_filter.mpr ⟨hu, hq⟩)
  have hn : 0 < (min (max q.pageSize 1) maxPageSize).toNat := by
    unfold maxPageSize
    omega
  obtain ⟨k, hlt, hk⟩ := exists_page hm hn
  have hfilter : (d.users.filter q.keeps).length ≤ d.users.length := List.length_filter_le _ _
  rw [List.length_mergeSort] at hlt
  refine ⟨k + 1, _, by omega, ?_, hk⟩
  have hp : (max ((k : ℤ) + 1) 1).toNat - 1 = k := by omega
  simp only [Db.listUsers, clamped, hp]
  exact if_pos (by omega)

end ListUsers
end DiddiFreeID
