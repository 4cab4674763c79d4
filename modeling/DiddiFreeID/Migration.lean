/-
# The migration from DiddiGo

`migrate` of `scripts/migrate_from_diddigo.py`: one pass over the rows of
DiddiGo's `auth.users`, each classified against the target as the pass has
left it so far. A row's category depends on the rows inserted before it only
through `users.phone`: ids are distinct, so `verdict_append` carries every
category but one to the final table, and there a migrated row has become a
known id. A real run is therefore conservative, complete and idempotent
(`migrate_settles`).

A dry run classifies every row against the untouched target. It predicts the
real run except where two rows it would migrate share a phone: the real run
takes the first and reports the others (`dry_run_predicts_iff`).

Key definitions: `SourceUser`, `Report`, `migrateRow`, `migrate`, `verdict`.
Key theorems: `migrate_settles`, `dry_run_predicts_iff`.
-/
import DiddiFreeID.Store

namespace DiddiFreeID

namespace Migration

/-! ### The script -/

/-- A row of `auth.users`; no column but the id is known not to be null. -/
structure SourceUser where
  id : Uuid
  phone : Option String
  fullName : Option String
  passwordHash : Option String
  role : Option String
  status : Option String
  createdAt : Option Time
  updatedAt : Option Time
  deriving DecidableEq, Repr

def roleMap : List (String × UserRole) :=
  [("passenger", .user), ("driver", .driver), ("admin", .admin)]

def statusMap : List (String × UserStatus) :=
  [("active", .active), ("suspended", .suspended), ("pending_verification", .pendingVerification)]

structure Report where
  migrated : ℕ := 0
  skippedExistingId : List (List Piece) := []
  skippedPhoneTaken : List (List Piece) := []
  unknownRole : List (List Piece) := []
  unknownStatus : List (List Piece) := []
  deriving DecidableEq, Repr

namespace SourceUser

def mappedRole (row : SourceUser) : Option UserRole := row.role.bind fun role => roleMap.lookup role

def mappedStatus (row : SourceUser) : Option UserStatus := row.status.bind fun status => statusMap.lookup status

/-- `{phone}` in an f-string. -/
def phoneText (row : SourceUser) : Piece := .text (row.phone.getD "None")

/-- `{value!r}` in an f-string. -/
def reprOf : Option String → Piece
  | some s => .quoted s
  | none => .text "None"

/-- The values of the `INSERT`, if `identity.users` takes them: `NOT NULL`
on the phone and the two instants, `varchar(20)` and `varchar(120)`. -/
def values (row : SourceUser) (role : UserRole) (status : UserStatus) : Option User :=
  match row.phone, row.createdAt, row.updatedAt with
  | some phone, some createdAt, some updatedAt =>
    if decide (phone.length ≤ 20) && row.fullName.all (fun name => decide (name.length ≤ 120)) then
      some
        { id := row.id
          phone := phone
          role := role
          status := status
          fullName := row.fullName
          passwordHash := row.passwordHash
          createdAt := some createdAt
          updatedAt := some updatedAt }
    else none
  | _, _, _ => none

end SourceUser

/-- The `INSERT`; `none` is an `IntegrityError` or a `DataError`. -/
def insert (d : Db) (row : SourceUser) (role : UserRole) (status : UserStatus) : Option Db :=
  (row.values role status).bind fun u =>
    if (d.findById u.id).isNone && (d.findByPhone u.phone).isNone then
      some (Write.apply d (.insertUser u))
    else none

section Script

variable (str : Uuid → String) (dryRun : Bool)

/-- The body of the loop, on the report and the rows the transaction sees. -/
def migrateRow (s : Report × Db) (row : SourceUser) : Option (Report × Db) :=
  let (report, d) := s
  match row.mappedRole with
  | none =>
    some ({ report with
      unknownRole := report.unknownRole ++ [[row.phoneText, .text " (id=", .text (str row.id),
        .text ") : rôle ", SourceUser.reprOf row.role]] }, d)
  | some role =>
    match row.mappedStatus with
    | none =>
      some ({ report with
        unknownStatus := report.unknownStatus ++ [[row.phoneText, .text " (id=", .text (str row.id),
          .text ") : statut ", SourceUser.reprOf row.status]] }, d)
    | some status =>
      match d.findById row.id with
      | some _ =>
        some ({ report with
          skippedExistingId := report.skippedExistingId ++
            [[row.phoneText, .text " (id=", .text (str row.id), .text ")"]] }, d)
      | none =>
        -- `phone = NULL` selects nothing.
        match row.phone.bind d.findByPhone with
        | some clash =>
          some ({ report with
            skippedPhoneTaken := report.skippedPhoneTaken ++
              [[row.phoneText, .text " : DiddiGo id=", .text (str row.id),
                .text " vs DiddiFreeID id=", .text (str clash.id)]] }, d)
        | none =>
          if dryRun then some ({ report with migrated := report.migrated + 1 }, d)
          else (insert d row role status).map fun d' =>
            ({ report with migrated := report.migrated + 1 }, d')

/-- `migrate` on the fetched rows and the committed target: the report, if
no statement raises, and the target it leaves. -/
def migrate (rows : List SourceUser) (d : Db) : Option Report × Db :=
  match rows.foldlM (migrateRow str dryRun) ({}, d) with
  | none => (none, d)
  | some (report, d') => (some report, if dryRun then d else d')

end Script

/-! ### What a row comes to -/

/-- The category of a row. -/
inductive Verdict
  | migrated (role : UserRole) (status : UserStatus)
  | existingId
  | phoneTaken (id : Uuid)
  | unknownRole
  | unknownStatus
  deriving DecidableEq, Repr

/-- The category of a row on the rows `d`. -/
def verdict (d : Db) (row : SourceUser) : Verdict :=
  match row.mappedRole, row.mappedStatus with
  | none, _ => .unknownRole
  | some _, none => .unknownStatus
  | some role, some status =>
    if (d.findById row.id).isSome then .existingId
    else
      match row.phone.bind d.findByPhone with
      | some clash => .phoneTaken clash.id
      | none => .migrated role status

namespace Verdict

def isMigrated : Verdict → Bool
  | migrated .. => true
  | _ => false

/-- The category in a later run: a migrated row is a known id. -/
def again : Verdict → Verdict
  | migrated .. => existingId
  | v => v

/-- The account a row becomes. -/
def account (row : SourceUser) : Verdict → Option User
  | migrated role status => row.values role status
  | _ => none

end Verdict

/-- The report on rows with their categories. -/
def Report.of (str : Uuid → String) (l : List (SourceUser × Verdict)) : Report where
  migrated := l.countP fun p => p.2.isMigrated
  skippedExistingId := l.filterMap fun
    | (row, .existingId) => some [row.phoneText, .text " (id=", .text (str row.id), .text ")"]
    | _ => none
  skippedPhoneTaken := l.filterMap fun
    | (row, .phoneTaken id) => some [row.phoneText, .text " : DiddiGo id=", .text (str row.id),
        .text " vs DiddiFreeID id=", .text (str id)]
    | _ => none
  unknownRole := l.filterMap fun
    | (row, .unknownRole) => some [row.phoneText, .text " (id=", .text (str row.id),
        .text ") : rôle ", SourceUser.reprOf row.role]
    | _ => none
  unknownStatus := l.filterMap fun
    | (row, .unknownStatus) => some [row.phoneText, .text " (id=", .text (str row.id),
        .text ") : statut ", SourceUser.reprOf row.status]
    | _ => none

/-- The limits of `identity.users` that a source row may break. -/
structure SourceUser.Fits (row : SourceUser) : Prop where
  phone : ∃ phone, row.phone = some phone ∧ phone.length ≤ 20
  fullName : ∀ name, row.fullName = some name → name.length ≤ 120
  createdAt : row.createdAt.isSome
  updatedAt : row.updatedAt.isSome

theorem SourceUser.Fits.values {row : SourceUser} (h : row.Fits) (role : UserRole)
    (status : UserStatus) :
    ∃ u, row.values role status = some u ∧ u.id = row.id ∧ row.phone = some u.phone := by
  obtain ⟨phone, hphone, hlen⟩ := h.phone
  obtain ⟨createdAt, hc⟩ := Option.isSome_iff_exists.mp h.createdAt
  obtain ⟨updatedAt, hu⟩ := Option.isSome_iff_exists.mp h.updatedAt
  have hname : row.fullName.all (fun name => decide (name.length ≤ 120)) = true := by
    cases hn : row.fullName with
    | none => rfl
    | some name => simpa using h.fullName name hn
  exact ⟨_, by simp [SourceUser.values, hphone, hc, hu, hlen, hname]; rfl, rfl, hphone⟩

/-- The target with the accounts `us` inserted. -/
def adopt (d : Db) (us : List User) : Db := { d with users := d.users ++ us }

@[simp] theorem adopt_users (d : Db) (us : List User) : (adopt d us).users = d.users ++ us := rfl

@[simp] theorem adopt_nil (d : Db) : adopt d [] = d := by simp [adopt]

@[simp] theorem adopt_adopt (d : Db) (us vs : List User) :
    adopt (adopt d us) vs = adopt d (us ++ vs) := by
  simp [adopt, List.append_assoc]

/-- The rows after the pass over one source row. -/
def settle (d : Db) (row : SourceUser) : Db := adopt d ((verdict d row).account row).toList

/-- The categories of the rows in a real run. -/
def sorted : Db → List SourceUser → List (SourceUser × Verdict)
  | _, [] => []
  | d, row :: rows => (row, verdict d row) :: sorted (settle d row) rows

/-- The accounts the migrated rows become. -/
def accounts (l : List (SourceUser × Verdict)) : List User := l.filterMap fun p => p.2.account p.1

theorem sorted_fst : ∀ (d : Db) (rows : List SourceUser), (sorted d rows).map Prod.fst = rows
  | _, [] => rfl
  | d, row :: rows => by simp [sorted, sorted_fst _ rows]

/-! ### The pass -/

section Pass

variable (str : Uuid → String)

/-- What a row's category says of the lookups. -/
theorem verdict_cases (d : Db) (row : SourceUser) :
    (row.mappedRole = none ∧ verdict d row = .unknownRole) ∨
    ∃ role, row.mappedRole = some role ∧
      ((row.mappedStatus = none ∧ verdict d row = .unknownStatus) ∨
      ∃ status, row.mappedStatus = some status ∧
        ((∃ u, d.findById row.id = some u ∧ verdict d row = .existingId) ∨
        (d.findById row.id = none ∧ ∃ clash, row.phone.bind d.findByPhone = some clash ∧
          verdict d row = .phoneTaken clash.id) ∨
        (d.findById row.id = none ∧ row.phone.bind d.findByPhone = none ∧
          verdict d row = .migrated role status))) := by
  unfold verdict
  cases row.mappedRole with
  | none => simp
  | some role =>
    cases row.mappedStatus with
    | none => simp
    | some status =>
      cases d.findById row.id with
      | some u => simp
      | none => cases row.phone.bind d.findByPhone <;> simp

theorem insert_of_migrated {d : Db} {row : SourceUser} {role : UserRole} {status : UserStatus}
    (hfit : row.Fits) (hid : d.findById row.id = none) (hphone : row.phone.bind d.findByPhone = none) :
    insert d row role status = some (adopt d (row.values role status).toList) := by
  obtain ⟨u, hu, huid, huphone⟩ := hfit.values role status
  rw [huphone, Option.bind_some] at hphone
  simp [insert, hu, huid, hid, hphone, adopt, Write.apply]

/-- One turn of the loop files the row under its category. -/
theorem migrateRow_of (dryRun : Bool) (l : List (SourceUser × Verdict)) (d : Db) {row : SourceUser}
    (hfit : row.Fits) :
    migrateRow str dryRun (Report.of str l, d) row =
      some (Report.of str (l ++ [(row, verdict d row)]), if dryRun then d else settle d row) := by
  unfold settle
  rcases verdict_cases d row with ⟨hr, hv⟩ | ⟨role, hr, ⟨hs, hv⟩ | ⟨status, hs, h⟩⟩
  · simp [migrateRow, hr, hv, Report.of, Verdict.isMigrated, Verdict.account]
  · simp [migrateRow, hr, hs, hv, Report.of, Verdict.isMigrated, Verdict.account]
  · rcases h with ⟨u, hid, hv⟩ | ⟨hid, clash, hphone, hv⟩ | ⟨hid, hphone, hv⟩
    · simp [migrateRow, hr, hs, hid, hv, Report.of, Verdict.isMigrated, Verdict.account]
    · simp [migrateRow, hr, hs, hid, hphone, hv, Report.of, Verdict.isMigrated, Verdict.account]
    · have hins : insert d row role status = some _ := insert_of_migrated hfit hid hphone
      cases dryRun <;>
        simp [migrateRow, hr, hs, hid, hphone, hv, hins, Report.of, Verdict.isMigrated,
          Verdict.account]

theorem foldlM_dry (d : Db) : ∀ (rows : List SourceUser) (l : List (SourceUser × Verdict)),
    (∀ row ∈ rows, row.Fits) →
    rows.foldlM (migrateRow str true) (Report.of str l, d) =
      some (Report.of str (l ++ rows.map fun row => (row, verdict d row)), d)
  | [], l, _ => by simp
  | row :: rows, l, hfit => by
    rw [List.foldlM_cons, migrateRow_of str true l d (hfit row (by simp))]
    simp [foldlM_dry d rows _ fun r hr => hfit r (by simp [hr])]

theorem foldlM_real : ∀ (rows : List SourceUser) (l : List (SourceUser × Verdict)) (d : Db),
    (∀ row ∈ rows, row.Fits) →
    rows.foldlM (migrateRow str false) (Report.of str l, d) =
      some (Report.of str (l ++ sorted d rows), adopt d (accounts (sorted d rows)))
  | [], l, d, _ => by simp [sorted, accounts]
  | row :: rows, l, d, hfit => by
    rw [List.foldlM_cons, migrateRow_of str false l d (hfit row (by simp))]
    have ih := foldlM_real rows (l ++ [(row, verdict d row)]) (settle d row)
      fun r hr => hfit r (by simp [hr])
    simp only [Option.bind_eq_bind, Option.bind_some, Bool.false_eq_true, ite_false, ih, sorted,
      List.append_assoc, List.singleton_append, Option.some.injEq, Prod.mk.injEq, true_and]
    simp only [settle, adopt_adopt, accounts, List.filterMap_cons]
    cases (verdict d row).account row <;> rfl

/-- A dry run classifies every row against the target as it stands. -/
theorem migrate_dry (d : Db) {rows : List SourceUser} (hfit : ∀ row ∈ rows, row.Fits) :
    migrate str true rows d =
      (some (Report.of str (rows.map fun row => (row, verdict d row))), d) := by
  have h := foldlM_dry str d rows [] hfit
  simp only [List.nil_append] at h
  rw [migrate, show (({}, d) : Report × Db) = (Report.of str [], d) from rfl, h]
  rfl

theorem migrate_real (d : Db) {rows : List SourceUser} (hfit : ∀ row ∈ rows, row.Fits) :
    migrate str false rows d =
      (some (Report.of str (sorted d rows)), adopt d (accounts (sorted d rows))) := by
  have h := foldlM_real str rows [] d hfit
  simp only [List.nil_append] at h
  rw [migrate, show (({}, d) : Report × Db) = (Report.of str [], d) from rfl, h]
  rfl

end Pass

/-! ### Later tables -/

theorem findById_adopt (d : Db) (us : List User) (id : Uuid) :
    (adopt d us).findById id = (d.findById id).or (us.find? fun u => u.id = id) := by
  simp [Db.findById, adopt, List.find?_append]

theorem findByPhone_adopt (d : Db) (us : List User) (phone : String) :
    (adopt d us).findByPhone phone = (d.findByPhone phone).or (us.find? fun u => u.phone = phone) := by
  simp [Db.findByPhone, adopt, List.find?_append]

theorem account_id {v : Verdict} {row : SourceUser} {u : User} (h : v.account row = some u) :
    u.id = row.id ∧ row.phone = some u.phone := by
  cases v with
  | migrated role status =>
    simp only [Verdict.account, SourceUser.values] at h
    split at h
    · split at h
      · cases h
        exact ⟨rfl, by assumption⟩
      · cases h
    · cases h
  | _ => cases h

theorem mem_accounts_id {d : Db} {rows : List SourceUser} {u : User}
    (h : u ∈ accounts (sorted d rows)) : u.id ∈ rows.map SourceUser.id := by
  obtain ⟨⟨row, v⟩, hmem, hu⟩ := List.mem_filterMap.mp h
  have hrow : row ∈ (sorted d rows).map Prod.fst := List.mem_map_of_mem hmem
  rw [sorted_fst] at hrow
  exact (account_id hu).1 ▸ List.mem_map_of_mem hrow

/-- A known id is known to every later table. -/
theorem verdict_known {d : Db} {row : SourceUser} {role : UserRole} {status : UserStatus}
    (hr : row.mappedRole = some role) (hs : row.mappedStatus = some status)
    (hid : (d.findById row.id).isSome) : verdict d row = .existingId := by
  simp [verdict, hr, hs, hid]

/-- Accounts with other ids leave the category of a row that is not
migrated. -/
theorem verdict_append {d : Db} {us : List User} {row : SourceUser}
    (hid : ∀ u ∈ us, u.id ≠ row.id) (hv : (verdict d row).isMigrated = false) :
    verdict (adopt d us) row = verdict d row := by
  have hnone : us.find? (fun u => u.id = row.id) = none := by simpa using hid
  have hsame : (adopt d us).findById row.id = d.findById row.id := by
    rw [findById_adopt, hnone, Option.or_none]
  rcases verdict_cases d row with ⟨hr, hv'⟩ | ⟨role, hr, ⟨hs, hv'⟩ | ⟨status, hs, h⟩⟩
  · simp [verdict, hr]
  · simp [verdict, hr, hs]
  · rcases h with ⟨u, hu, -⟩ | ⟨hu, clash, hphone, -⟩ | ⟨-, -, hv'⟩
    · simp [verdict, hr, hs, hsame, hu]
    · obtain ⟨phone, hp, hclash⟩ := Option.bind_eq_some_iff.mp hphone
      have hclash' : (adopt d us).findByPhone phone = some clash := by
        rw [findByPhone_adopt, hclash, Option.some_or]
      simp [verdict, hr, hs, hsame, hu, hp, hclash, hclash']
    · rw [hv'] at hv
      cases hv

/-- The row itself, once inserted, is a known id. -/
theorem verdict_settle {d : Db} {us : List User} {row : SourceUser} (hfit : row.Fits)
    (hid : ∀ u ∈ us, u.id ≠ row.id) :
    verdict (adopt (settle d row) us) row = (verdict d row).again := by
  rcases hm : (verdict d row).isMigrated with _ | _
  · have haccount : (verdict d row).account row = none := by
      cases hv : verdict d row <;> simp_all [Verdict.isMigrated, Verdict.account]
    have hagain : (verdict d row).again = verdict d row := by
      cases hv : verdict d row <;> simp_all [Verdict.isMigrated, Verdict.again]
    rw [settle, haccount, Option.toList_none, adopt_nil, hagain]
    exact verdict_append hid hm
  · rcases verdict_cases d row with ⟨-, hv⟩ | ⟨role, hr, ⟨-, hv⟩ | ⟨status, hs, h⟩⟩
    · simp [hv, Verdict.isMigrated] at hm
    · simp [hv, Verdict.isMigrated] at hm
    · rcases h with ⟨u, -, hv⟩ | ⟨-, clash, -, hv⟩ | ⟨-, -, hv⟩
      · simp [hv, Verdict.isMigrated] at hm
      · simp [hv, Verdict.isMigrated] at hm
      · obtain ⟨u, hu, huid, -⟩ := hfit.values role status
        rw [hv]
        refine verdict_known hr hs ?_
        rw [findById_adopt, settle, hv, findById_adopt, Verdict.account, hu]
        simp [huid]

/-- On the table a real run leaves, every row has the category of a later
run. -/
theorem verdict_final : ∀ {d : Db} {rows : List SourceUser}, (rows.map SourceUser.id).Nodup →
    (∀ row ∈ rows, row.Fits) → ∀ {row : SourceUser} {v : Verdict}, (row, v) ∈ sorted d rows →
    verdict (adopt d (accounts (sorted d rows))) row = v.again
  | d, [], _, _, _, _, h => by simp [sorted] at h
  | d, row :: rows, hids, hfit, r, v, h => by
    rw [List.map_cons, List.nodup_cons] at hids
    have hfinal : adopt d (accounts (sorted d (row :: rows))) =
        adopt (settle d row) (accounts (sorted (settle d row) rows)) := by
      simp only [sorted, accounts, settle, adopt_adopt, List.filterMap_cons]
      cases (verdict d row).account row <;> rfl
    rw [hfinal]
    rcases List.mem_cons.mp h with h | h
    · obtain ⟨rfl, rfl⟩ := Prod.mk.inj h
      refine verdict_settle (hfit r (by simp)) fun u hu hne => hids.1 ?_
      exact hne ▸ mem_accounts_id hu
    · exact verdict_final hids.2 (fun r hr => hfit r (by simp [hr])) h

/-! ### Unique ids and phones -/

/-- The primary key and the unique index of `users`. -/
structure Unique (d : Db) : Prop where
  ids : (d.users.map User.id).Nodup
  phones : (d.users.map User.phone).Nodup

theorem Unique.settle {d : Db} (h : Unique d) (row : SourceUser) : Unique (settle d row) := by
  cases hu : (verdict d row).account row with
  | none => simpa [Migration.settle, hu] using h
  | some u =>
    obtain ⟨huid, huphone⟩ := account_id hu
    have hnew : d.findById u.id = none ∧ d.findByPhone u.phone = none := by
      rcases verdict_cases d row with ⟨-, hv⟩ | ⟨role, -, ⟨-, hv⟩ | ⟨status, -, hc⟩⟩
      · simp [hv, Verdict.account] at hu
      · simp [hv, Verdict.account] at hu
      · rcases hc with ⟨u, -, hv⟩ | ⟨-, clash, -, hv⟩ | ⟨hid, hphone, -⟩
        · simp [hv, Verdict.account] at hu
        · simp [hv, Verdict.account] at hu
        · rw [huphone, Option.bind_some] at hphone
          exact ⟨huid ▸ hid, hphone⟩
    simp only [Db.findById, Db.findByPhone, List.find?_eq_none, decide_eq_true_eq] at hnew
    refine ⟨?_, ?_⟩ <;>
      simp only [Migration.settle, hu, Option.toList_some, adopt_users, List.map_append, List.map_cons,
        List.map_nil, List.nodup_append, List.nodup_singleton, true_and]
    · refine ⟨h.ids, fun a ha b hb => ?_⟩
      obtain ⟨v, hv, rfl⟩ := List.mem_map.mp ha
      rw [List.mem_singleton.mp hb]
      exact hnew.1 v hv
    · refine ⟨h.phones, fun a ha b hb => ?_⟩
      obtain ⟨v, hv, rfl⟩ := List.mem_map.mp ha
      rw [List.mem_singleton.mp hb]
      exact hnew.2 v hv

theorem Unique.run : ∀ {d : Db} {rows : List SourceUser}, Unique d →
    Unique (adopt d (accounts (sorted d rows)))
  | d, [], h => by simpa [sorted, accounts] using h
  | d, row :: rows, h => by
    have ih : Unique (adopt _ (accounts (sorted _ rows))) := Unique.run (h.settle row)
    simp only [Migration.settle, adopt_adopt] at ih
    simp only [sorted, accounts, List.filterMap_cons]
    cases hu : (verdict d row).account row <;>
      simpa only [Migration.settle, accounts, hu, Option.toList, List.nil_append, adopt_nil,
        List.singleton_append] using ih

/-! ### The categories of a run -/

/-- The ids being distinct, the categories are a function of the row. -/
theorem exists_verdicts : ∀ {d : Db} {rows : List SourceUser}, (rows.map SourceUser.id).Nodup →
    ∃ v : SourceUser → Verdict, sorted d rows = rows.map fun row => (row, v row)
  | _, [], _ => ⟨fun _ => .unknownRole, rfl⟩
  | d, row :: rows, hids => by
    rw [List.map_cons, List.nodup_cons] at hids
    obtain ⟨v, hv⟩ := exists_verdicts (d := settle d row) hids.2
    refine ⟨Function.update v row (verdict d row), ?_⟩
    have hne : ∀ r ∈ rows, r ≠ row := fun r hr h => hids.1 (h ▸ List.mem_map_of_mem hr)
    simp only [sorted, hv, List.map_cons, Function.update_self, List.cons.injEq, true_and]
    exact List.map_congr_left fun r hr => by rw [Function.update_of_ne (hne r hr)]

/-- A row is classified on the target and accounts with other ids. -/
theorem mem_sorted : ∀ {d : Db} {rows : List SourceUser}, (rows.map SourceUser.id).Nodup →
    ∀ {row : SourceUser} {v : Verdict}, (row, v) ∈ sorted d rows →
    ∃ us, (∀ u ∈ us, u.id ≠ row.id) ∧ v = verdict (adopt d us) row
  | _, [], _, _, _, h => by simp [sorted] at h
  | d, row :: rows, hids, r, v, h => by
    rw [List.map_cons, List.nodup_cons] at hids
    rcases List.mem_cons.mp h with h | h
    · obtain ⟨rfl, rfl⟩ := Prod.mk.inj h
      exact ⟨[], by simp, by simp⟩
    · obtain ⟨us, hus, hv⟩ := mem_sorted hids.2 h
      have hr : r ∈ rows := by
        have := List.mem_map_of_mem (f := Prod.fst) h
        rwa [sorted_fst] at this
      refine ⟨((verdict d row).account row).toList ++ us, fun u hu => ?_, ?_⟩
      · rcases List.mem_append.mp hu with hu | hu
        · rw [(account_id (Option.mem_toList.mp hu)).1]
          exact fun heq => hids.1 (heq ▸ List.mem_map_of_mem hr)
        · exact hus u hu
      · rw [hv, settle, adopt_adopt]

/-- Where no row is migrated the target stays as it is. -/
theorem sorted_of_not_migrated {d : Db} : ∀ {rows : List SourceUser},
    (∀ row ∈ rows, (verdict d row).isMigrated = false) →
    sorted d rows = rows.map fun row => (row, verdict d row)
  | [], _ => rfl
  | row :: rows, h => by
    have haccount : (verdict d row).account row = none := by
      have := h row (by simp)
      cases hv : verdict d row <;> simp_all [Verdict.isMigrated, Verdict.account]
    have hsettle : settle d row = d := by simp [settle, haccount]
    simp only [sorted, hsettle, List.map_cons]
    rw [sorted_of_not_migrated fun r hr => h r (by simp [hr])]

theorem isMigrated_again (v : Verdict) : v.again.isMigrated = false := by
  cases v <;> rfl

theorem accounts_of_not_migrated {l : List (SourceUser × Verdict)}
    (h : ∀ p ∈ l, p.2.isMigrated = false) : accounts l = [] := by
  refine List.filterMap_eq_nil_iff.mpr fun ⟨row, v⟩ hp => ?_
  have := h _ hp
  cases v <;> simp_all [Verdict.isMigrated, Verdict.account]

/-- The account `u` is the row's, with the mapped role and status. -/
structure Copies (row : SourceUser) (role : UserRole) (status : UserStatus) (u : User) : Prop where
  id : u.id = row.id
  phone : some u.phone = row.phone
  fullName : u.fullName = row.fullName
  passwordHash : u.passwordHash = row.passwordHash
  createdAt : u.createdAt = row.createdAt
  updatedAt : u.updatedAt = row.updatedAt
  role : u.role = role
  status : u.status = status
  requestedRole : u.requestedRole = none

theorem SourceUser.Fits.copies {row : SourceUser} (h : row.Fits) (role : UserRole)
    (status : UserStatus) : ∃ u, row.values role status = some u ∧ Copies row role status u := by
  obtain ⟨u, hu, -, -⟩ := h.values role status
  refine ⟨u, hu, ?_⟩
  simp only [SourceUser.values] at hu
  split at hu
  · split at hu
    · cases hu
      constructor <;> simp_all
    · cases hu
  · cases hu

/-- The migrated rows, each with its account. -/
theorem forall₂_accounts {v : SourceUser → Verdict} : ∀ {rows : List SourceUser},
    (∀ row ∈ rows, row.Fits) →
    List.Forall₂ (fun row u => ∃ role status, v row = .migrated role status ∧ Copies row role status u)
      (rows.filter fun row => (v row).isMigrated) (accounts (rows.map fun row => (row, v row)))
  | [], _ => .nil
  | row :: rows, hfit => by
    have ih := forall₂_accounts (v := v) fun r hr => hfit r (List.mem_cons_of_mem _ hr)
    cases hv : v row with
    | migrated role status =>
      obtain ⟨u, hu, hcopies⟩ := (hfit row (by simp)).copies role status
      have hcons : accounts ((row :: rows).map fun r => (r, v r)) =
          u :: accounts (rows.map fun r => (r, v r)) := by
        simp [accounts, hv, Verdict.account, hu]
      rw [hcons, List.filter_cons_of_pos (by simp [hv, Verdict.isMigrated])]
      exact .cons ⟨role, status, hv, hcopies⟩ ih
    | _ =>
      simpa [accounts, hv, Verdict.account, Verdict.isMigrated] using ih

/-! ### The tables of names -/

section Names

variable {α : Type} {table : List (String × α)}

/-- The column holds a name for `a`. -/
def Lists (table : List (String × α)) (column : Option String) (a : α) : Prop :=
  ∃ name, column = some name ∧ (name, a) ∈ table

theorem lookup_eq_some_iff_mem (hnames : (table.map Prod.fst).Nodup) {name : String} {a : α} :
    table.lookup name = some a ↔ (name, a) ∈ table := by
  induction table with
  | nil => simp
  | cons entry rest ih =>
    rw [List.map_cons, List.nodup_cons] at hnames
    by_cases hname : name = entry.1
    · have hrest : (name, a) ∉ rest := fun hmem =>
        hnames.1 (hname ▸ List.mem_map_of_mem (f := Prod.fst) hmem)
      rw [List.mem_cons, or_iff_left hrest, hname, List.lookup_cons_self, Option.some.injEq,
        Prod.ext_iff, and_iff_right rfl]
      exact eq_comm
    · have hentry : (name, a) ≠ entry := fun heq => hname (congrArg Prod.fst heq)
      rw [List.mem_cons, or_iff_right hentry, List.lookup_cons, beq_eq_false_iff_ne.mpr hname]
      exact ih hnames.2

theorem bind_lookup_eq_some_iff (hnames : (table.map Prod.fst).Nodup) {column : Option String}
    {a : α} : (column.bind fun name => table.lookup name) = some a ↔ Lists table column a := by
  rw [Option.bind_eq_some_iff]
  exact exists_congr fun name => and_congr_right fun _ => lookup_eq_some_iff_mem hnames

end Names

theorem mappedRole_eq_some_iff {row : SourceUser} {role : UserRole} :
    row.mappedRole = some role ↔ Lists roleMap row.role role :=
  bind_lookup_eq_some_iff (by decide)

theorem mappedRole_eq_none_iff {row : SourceUser} :
    row.mappedRole = none ↔ ∀ role, ¬ Lists roleMap row.role role := by
  simp only [← mappedRole_eq_some_iff, Option.eq_none_iff_forall_ne_some, ne_eq]

theorem mappedStatus_eq_some_iff {row : SourceUser} {status : UserStatus} :
    row.mappedStatus = some status ↔ Lists statusMap row.status status :=
  bind_lookup_eq_some_iff (by decide)

theorem mappedStatus_eq_none_iff {row : SourceUser} :
    row.mappedStatus = none ↔ ∀ status, ¬ Lists statusMap row.status status := by
  simp only [← mappedStatus_eq_some_iff, Option.eq_none_iff_forall_ne_some, ne_eq]

/-! ### What a run comes to -/

/-- What a category says of the row, the target `d` before the run and the
target `d'` after it. -/
def Verdict.Explains (d d' : Db) (row : SourceUser) : Verdict → Prop
  | unknownRole => ∀ role, ¬ Lists roleMap row.role role
  | unknownStatus =>
    (∃ role, Lists roleMap row.role role) ∧ ∀ status, ¬ Lists statusMap row.status status
  | existingId =>
    (∃ role, Lists roleMap row.role role) ∧ (∃ status, Lists statusMap row.status status) ∧
      ∃ u ∈ d.users, u.id = row.id
  | phoneTaken id =>
    (∃ role, Lists roleMap row.role role) ∧ (∃ status, Lists statusMap row.status status) ∧
      (∀ u ∈ d.users, u.id ≠ row.id) ∧
      id ≠ row.id ∧ ∃ u ∈ d'.users, u.id = id ∧ some u.phone = row.phone
  | migrated role status =>
    Lists roleMap row.role role ∧ Lists statusMap row.status status ∧
      ∀ u ∈ d.users, u.id ≠ row.id ∧ some u.phone ≠ row.phone

/-- The lines of a report and its count make up the rows. -/
theorem Report.of_total (str : Uuid → String) : ∀ l : List (SourceUser × Verdict),
    (Report.of str l).migrated + (Report.of str l).skippedExistingId.length +
      (Report.of str l).skippedPhoneTaken.length + (Report.of str l).unknownRole.length +
      (Report.of str l).unknownStatus.length = l.length
  | [] => rfl
  | (row, v) :: l => by
    have ih := Report.of_total str l
    cases v <;>
      simp only [Report.of, List.countP_cons, List.filterMap_cons, Verdict.isMigrated, ite_true,
        Bool.false_eq_true, ite_false, List.length_cons] at ih ⊢ <;>
      omega

/-- The category a run gives a row, read on the two ends of the run. -/
theorem explains_of_sorted {d : Db} {rows : List SourceUser} (hids : (rows.map SourceUser.id).Nodup)
    (hfit : ∀ row ∈ rows, row.Fits) {row : SourceUser} {v : Verdict} (h : (row, v) ∈ sorted d rows) :
    v.Explains d (adopt d (accounts (sorted d rows))) row := by
  obtain ⟨us, hus, hv⟩ := mem_sorted hids h
  have hfinal := verdict_final hids hfit h
  have hnone : us.find? (fun u => u.id = row.id) = none := by simpa using hus
  have hsame : (adopt d us).findById row.id = d.findById row.id := by
    rw [findById_adopt, hnone, Option.or_none]
  have habsent : d.findById row.id = none → ∀ u ∈ d.users, u.id ≠ row.id := by
    intro hid u hu
    simpa using List.find?_eq_none.mp hid u hu
  rcases verdict_cases (adopt d us) row with ⟨hr, hc⟩ | ⟨role, hr, ⟨hs, hc⟩ | ⟨status, hs, hc⟩⟩
  · rw [hv, hc]
    exact mappedRole_eq_none_iff.mp hr
  · rw [hv, hc]
    exact ⟨⟨role, mappedRole_eq_some_iff.mp hr⟩, mappedStatus_eq_none_iff.mp hs⟩
  · have hrole : Lists roleMap row.role role := mappedRole_eq_some_iff.mp hr
    have hstatus : Lists statusMap row.status status := mappedStatus_eq_some_iff.mp hs
    rcases hc with ⟨u, hid, hc⟩ | ⟨hid, clash, -, hc⟩ | ⟨hid, hphone, hc⟩
    · rw [hv, hc]
      exact ⟨⟨role, hrole⟩, ⟨status, hstatus⟩, u, Db.mem_of_findById (hsame ▸ hid)⟩
    · -- The holder of the phone is read off the final table.
      rw [hv, hc] at hfinal
      simp only [Verdict.again] at hfinal
      rw [hv, hc]
      rcases verdict_cases (adopt d (accounts (sorted d rows))) row with
        ⟨-, hf⟩ | ⟨_, -, ⟨-, hf⟩ | ⟨_, -, ⟨_, -, hf⟩ | ⟨hid', clash', hphone', hf⟩ | ⟨-, -, hf⟩⟩⟩
      · simp [hf] at hfinal
      · simp [hf] at hfinal
      · simp [hf] at hfinal
      · rw [hf, Verdict.phoneTaken.injEq] at hfinal
        obtain ⟨phone, hp, hclash⟩ := Option.bind_eq_some_iff.mp hphone'
        obtain ⟨hmem, hphone⟩ := Db.mem_of_findByPhone hclash
        refine ⟨⟨role, hrole⟩, ⟨status, hstatus⟩, habsent (hsame ▸ hid), ?_, clash', hmem, hfinal,
          ?_⟩
        · rw [← hfinal]
          simpa using List.find?_eq_none.mp hid' clash' hmem
        · rw [hphone, hp]
      · simp [hf] at hfinal
    · rw [hv, hc]
      refine ⟨hrole, hstatus, fun u hu => ⟨habsent (hsame ▸ hid) u hu, fun heq => ?_⟩⟩
      rw [← heq, Option.bind_some, findByPhone_adopt, Option.or_eq_none_iff] at hphone
      simpa using List.find?_eq_none.mp hphone.1 u hu

/-- A passenger of DiddiGo. -/
def passenger (id : Uuid) (phone : String) : SourceUser :=
  { id := id
    phone := some phone
    fullName := none
    passwordHash := none
    role := some "passenger"
    status := some "active"
    createdAt := some 0
    updatedAt := some 0 }

theorem passenger_fits {id : Uuid} {phone : String} (h : phone.length ≤ 20) :
    (passenger id phone).Fits :=
  ⟨⟨phone, rfl, h⟩, by simp [passenger], rfl, rfl⟩

/-- **The migration is conservative, complete and idempotent.** A real run
gives every source row one category, reports it there and nowhere else,
appends to the target the accounts of the migrated rows and nothing else, and
keeps ids and phones unique. A second run, whatever order it reads the rows
in, migrates nothing, changes nothing, and reports the migrated rows as known
ids and every other row as before. -/
theorem migrate_settles (str : Uuid → String) {rows : List SourceUser} {d : Db}
    (hids : (rows.map SourceUser.id).Nodup) (hfit : ∀ row ∈ rows, row.Fits) (hunique : Unique d) :
    ∃ (v : SourceUser → Verdict) (report : Report) (us : List User),
      migrate str false rows d = (some report, { d with users := d.users ++ us }) ∧
      report = Report.of str (rows.map fun row => (row, v row)) ∧
      report.migrated + report.skippedExistingId.length + report.skippedPhoneTaken.length +
        report.unknownRole.length + report.unknownStatus.length = rows.length ∧
      (∀ row ∈ rows, (v row).Explains d { d with users := d.users ++ us } row) ∧
      List.Forall₂
        (fun row u => ∃ role status, v row = .migrated role status ∧ Copies row role status u)
        (rows.filter fun row => (v row).isMigrated) us ∧
      Unique { d with users := d.users ++ us } ∧
      ∀ rows', rows'.Perm rows →
        migrate str false rows' { d with users := d.users ++ us } =
          (some (Report.of str (rows'.map fun row => (row, (v row).again))),
            { d with users := d.users ++ us }) := by
  obtain ⟨v, hv⟩ := exists_verdicts (d := d) hids
  have hmem : ∀ row ∈ rows, (row, v row) ∈ sorted d rows := by
    intro row hrow
    rw [hv]
    exact List.mem_map_of_mem hrow
  refine ⟨v, _, accounts (sorted d rows), migrate_real str d hfit, by rw [hv], ?_, ?_, ?_,
    hunique.run, ?_⟩
  · rw [Report.of_total, ← List.length_map (f := Prod.fst), sorted_fst]
  · exact fun row hrow => explains_of_sorted hids hfit (hmem row hrow)
  · rw [hv]
    exact forall₂_accounts hfit
  · intro rows' hperm
    have hagain : ∀ row ∈ rows', verdict (adopt d (accounts (sorted d rows))) row = (v row).again :=
      fun row hrow => verdict_final hids hfit (hmem row (hperm.mem_iff.mp hrow))
    have hsorted : sorted (adopt d (accounts (sorted d rows))) rows' =
        rows'.map fun row => (row, (v row).again) := by
      rw [sorted_of_not_migrated fun row hrow => by rw [hagain row hrow, isMigrated_again]]
      exact List.map_congr_left fun row hrow => by rw [hagain row hrow]
    have hrun := @migrate_real str (adopt d (accounts (sorted d rows))) rows'
      fun row hrow => hfit row (hperm.mem_iff.mp hrow)
    have hnone : accounts (rows'.map fun row => (row, (v row).again)) = [] :=
      accounts_of_not_migrated fun p hp => by
        obtain ⟨row, -, rfl⟩ := List.mem_map.mp hp
        exact isMigrated_again _
    rw [hsorted, hnone, adopt_nil] at hrun
    exact hrun

/-- Two accounts of one person: the first is migrated, the second reported,
and a second run finds the first a known id. -/
theorem migrate_settles_passengers :
    ∃ (report again : Report) (us : List User),
      migrate (fun _ => "") false [passenger 1 "+2250700000001", passenger 2 "+2250700000001"] {} =
        (some report, { users := us }) ∧
      report.migrated = 1 ∧ report.skippedPhoneTaken.length = 1 ∧
      us.map (fun u => (u.id, u.role, u.status)) = [(1, .user, .active)] ∧ Unique { users := us } ∧
      migrate (fun _ => "") false [passenger 2 "+2250700000001", passenger 1 "+2250700000001"]
        { users := us } = (some again, { users := us }) ∧
      again.migrated = 0 ∧ again.skippedExistingId.length = 1 := by
  obtain ⟨v, report, us, hrun, -, -, -, -, hunique, hagain⟩ :=
    @migrate_settles (fun _ => "") [passenger 1 "+2250700000001", passenger 2 "+2250700000001"]
      {} (by decide) (by simpa using ⟨passenger_fits (by decide), passenger_fits (by decide)⟩)
      ⟨by decide, by decide⟩
  obtain rfl : us = (migrate (fun _ => "") false
      [passenger 1 "+2250700000001", passenger 2 "+2250700000001"] {}).2.users := by
    rw [hrun]
    rfl
  have hreport : some report = (migrate (fun _ => "") false
      [passenger 1 "+2250700000001", passenger 2 "+2250700000001"] {}).1 := by
    rw [hrun]
  cases hreport
  have hsecond := hagain [passenger 2 "+2250700000001", passenger 1 "+2250700000001"] (.swap ..)
  refine ⟨_, _, _, hrun, rfl, rfl, by decide, hunique, hsecond, ?_, ?_⟩
  · have hmigrated := congrArg (fun run => run.1.map Report.migrated) hsecond
    exact Option.some.inj (hmigrated.symm.trans (by decide))
  · have hskipped := congrArg (fun run => run.1.map fun report => report.skippedExistingId.length)
      hsecond
    exact Option.some.inj (hskipped.symm.trans (by decide))

/-! ### The dry run -/

/-- Known role, known status, an id and a phone that the target has not. -/
def admissible (d : Db) (row : SourceUser) : Bool :=
  row.mappedRole.isSome && row.mappedStatus.isSome && (d.findById row.id).isNone &&
    (row.phone.bind d.findByPhone).isNone

/-- The rows a dry run counts. -/
def admitted (d : Db) (rows : List SourceUser) : List SourceUser := rows.filter (admissible d)

theorem isMigrated_verdict (d : Db) (row : SourceUser) :
    (verdict d row).isMigrated = admissible d row := by
  rcases verdict_cases d row with ⟨hr, hv⟩ | ⟨role, hr, ⟨hs, hv⟩ | ⟨status, hs, h⟩⟩
  · simp [hv, admissible, hr, Verdict.isMigrated]
  · simp [hv, admissible, hs, Verdict.isMigrated]
  · rcases h with ⟨u, hid, hv⟩ | ⟨-, clash, hphone, hv⟩ | ⟨hid, hphone, hv⟩
    · simp [hv, admissible, hid, Verdict.isMigrated]
    · simp [hv, admissible, hphone, Verdict.isMigrated]
    · simp [hv, admissible, hr, hs, hid, hphone, Verdict.isMigrated]

/-- An account with another id and another phone changes no category. -/
theorem verdict_adopt_other {d : Db} {u : User} {row : SourceUser} (hid : u.id ≠ row.id)
    (hphone : admissible d row = true → row.phone ≠ some u.phone) :
    verdict (adopt d [u]) row = verdict d row := by
  rcases hm : admissible d row with _ | _
  · exact verdict_append (by simpa using hid) (by rw [isMigrated_verdict, hm])
  · have hne := hphone hm
    have hid' : (adopt d [u]).findById row.id = d.findById row.id := by
      simp [findById_adopt, hid]
    have hphone' : row.phone.bind (adopt d [u]).findByPhone = row.phone.bind d.findByPhone := by
      cases hp : row.phone with
      | none => rfl
      | some phone =>
        have : u.phone ≠ phone := fun h => hne (by rw [hp, h])
        simp [findByPhone_adopt, this]
    simp only [verdict, hid', hphone']

theorem settle_cases (d : Db) (row : SourceUser) :
    settle d row = d ∨ ∃ u, settle d row = adopt d [u] ∧ u.id = row.id ∧ row.phone = some u.phone ∧
      admissible d row = true := by
  rw [← isMigrated_verdict]
  cases hu : (verdict d row).account row with
  | none => exact .inl (by simp [settle, hu])
  | some u =>
    refine .inr ⟨u, by simp [settle, hu], (account_id hu).1, (account_id hu).2, ?_⟩
    cases hv : verdict d row <;> simp_all [Verdict.account, Verdict.isMigrated]

/-- Where the admitted rows have distinct phones the real run classifies as
the dry run does. -/
theorem sorted_of_distinct : ∀ {d : Db} {rows : List SourceUser},
    (rows.map SourceUser.id).Nodup → ((admitted d rows).map SourceUser.phone).Nodup →
    sorted d rows = rows.map fun row => (row, verdict d row)
  | _, [], _, _ => rfl
  | d, row :: rows, hids, hphones => by
    rw [List.map_cons, List.nodup_cons] at hids
    have hsame : ∀ r ∈ rows, verdict (settle d row) r = verdict d r := by
      intro r hr
      rcases settle_cases d row with h | ⟨u, h, huid, huphone, hm⟩
      · rw [h]
      · rw [h]
        refine verdict_adopt_other ?_ fun hm' heq => ?_
        · rw [huid]
          exact fun heq => hids.1 (heq ▸ List.mem_map_of_mem hr)
        · rw [admitted, List.filter_cons_of_pos (by exact hm), List.map_cons, List.nodup_cons] at hphones
          refine hphones.1 (List.mem_map.mpr ⟨r, List.mem_filter.mpr ⟨hr, hm'⟩, ?_⟩)
          rw [heq, huphone]
    have hphones' : ((admitted (settle d row) rows).map SourceUser.phone).Nodup := by
      have heq : admitted (settle d row) rows = admitted d rows :=
        List.filter_congr fun r hr => by rw [← isMigrated_verdict, ← isMigrated_verdict, hsame r hr]
      rw [heq]
      refine hphones.sublist (List.Sublist.map _ ?_)
      exact (List.sublist_cons_self row rows).filter _
    rw [sorted, sorted_of_distinct hids.2 hphones', List.map_cons]
    exact congrArg _ (List.map_congr_left fun r hr => by rw [hsame r hr])

/-- What the real run migrates the dry run counts. -/
theorem filter_sublist_admitted {d : Db} {rows : List SourceUser} {v : SourceUser → Verdict}
    (hids : (rows.map SourceUser.id).Nodup) (hv : sorted d rows = rows.map fun row => (row, v row)) :
    (rows.filter fun row => (v row).isMigrated).Sublist (admitted d rows) := by
  have himp : ∀ row ∈ rows, (v row).isMigrated = true → admissible d row = true := by
    intro row hrow hm
    rw [← isMigrated_verdict]
    have hmem : (row, v row) ∈ sorted d rows := by
      rw [hv]
      exact List.mem_map_of_mem hrow
    obtain ⟨us, hus, heq⟩ := mem_sorted hids hmem
    by_contra hdry
    rw [heq, verdict_append hus (by simpa using hdry)] at hm
    exact hdry hm
  have hfilter : (rows.filter fun row => (v row).isMigrated) =
      (admitted d rows).filter fun row => (v row).isMigrated := by
    rw [admitted, List.filter_filter]
    refine List.filter_congr fun row hrow => ?_
    cases hm : (v row).isMigrated with
    | false => rfl
    | true => simp [himp row hrow hm]
  rw [hfilter]
  exact List.filter_sublist

/-- The rows a real run migrates have distinct phones. -/
theorem nodup_migrated_phones {d : Db} {rows : List SourceUser} {v : SourceUser → Verdict}
    (hfit : ∀ row ∈ rows, row.Fits) (hunique : Unique d)
    (hv : sorted d rows = rows.map fun row => (row, v row)) :
    ((rows.filter fun row => (v row).isMigrated).map SourceUser.phone).Nodup := by
  have hsame : (rows.filter fun row => (v row).isMigrated).map SourceUser.phone =
      ((accounts (sorted d rows)).map User.phone).map some := by
    rw [hv, List.map_map, ← List.forall₂_eq_eq_eq, List.forall₂_map_left_iff,
      List.forall₂_map_right_iff]
    refine (forall₂_accounts hfit).imp fun row u h => ?_
    obtain ⟨_, _, -, hcopies⟩ := h
    exact hcopies.phone.symm
  have hphones : ((adopt d (accounts (sorted d rows))).users.map User.phone).Nodup :=
    hunique.run.phones
  rw [adopt_users, List.map_append] at hphones
  rw [hsame]
  exact hphones.of_append_right.map (Option.some_injective _)

/-- **The dry run predicts the real run exactly where no two rows it counts
share a phone.** The target it leaves is the target it found. -/
theorem dry_run_predicts_iff (str : Uuid → String) {rows : List SourceUser} {d : Db}
    (hids : (rows.map SourceUser.id).Nodup) (hfit : ∀ row ∈ rows, row.Fits) (hunique : Unique d) :
    ((migrate str true rows d).1 = (migrate str false rows d).1 ∧ (migrate str true rows d).2 = d) ↔
      ((admitted d rows).map SourceUser.phone).Nodup := by
  rw [migrate_dry str d hfit, migrate_real str d hfit]
  simp only [Option.some.injEq, and_true]
  constructor
  · intro heq
    obtain ⟨v, hv⟩ := exists_verdicts (d := d) hids
    have hlength : (rows.filter fun row => (v row).isMigrated).length = (admitted d rows).length := by
      have hcount := congrArg Report.migrated heq
      rw [hv] at hcount
      simp only [Report.of, List.countP_map, Function.comp_def, isMigrated_verdict] at hcount
      rw [← List.countP_eq_length_filter, admitted, ← List.countP_eq_length_filter]
      exact hcount.symm
    have hall := (filter_sublist_admitted hids hv).eq_of_length hlength
    have hphones := nodup_migrated_phones hfit hunique hv
    rwa [hall] at hphones
  · intro hphones
    rw [sorted_of_distinct hids hphones]

/-- Two accounts of one person: the dry run counts both, the real run takes
the first. -/
theorem dry_run_mispredicts :
    ∃ rows : List SourceUser,
      rows = [passenger 1 "+2250700000001", passenger 2 "+2250700000001"] ∧
      (rows.map SourceUser.id).Nodup ∧ (∀ row ∈ rows, row.Fits) ∧ Unique {} ∧
      (migrate (fun _ => "") true rows {}).1.map Report.migrated = some 2 ∧
      (migrate (fun _ => "") false rows {}).1.map Report.migrated = some 1 ∧
      ¬ ((migrate (fun _ => "") true rows {}).1 = (migrate (fun _ => "") false rows {}).1 ∧
        (migrate (fun _ => "") true rows {}).2 = {}) :=
  ⟨_, rfl, by decide, by simpa using ⟨passenger_fits (by decide), passenger_fits (by decide)⟩,
    ⟨by decide, by decide⟩, by decide, by decide, fun h => absurd h.1 (by decide)⟩

theorem dry_run_predicts_passengers :
    (migrate (fun _ => "") true [passenger 1 "+2250700000001", passenger 2 "+2250700000002"] {}).1 =
        (migrate (fun _ => "") false
          [passenger 1 "+2250700000001", passenger 2 "+2250700000002"] {}).1 ∧
      (migrate (fun _ => "") true
        [passenger 1 "+2250700000001", passenger 2 "+2250700000002"] {}).1.map Report.migrated =
        some 2 :=
  ⟨((dry_run_predicts_iff (fun _ => "") (by decide)
    (by simpa using ⟨passenger_fits (by decide), passenger_fits (by decide)⟩)
    ⟨by decide, by decide⟩).mpr (by decide)).1, by decide⟩

end Migration

end DiddiFreeID
