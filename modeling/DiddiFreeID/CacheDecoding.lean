/-
# A cache entry, decoded

`RedisProfileCache.get_user` on the text of an entry. It drops an entry on
`ValueError` and `KeyError`: text that is not JSON, a missing member, a role
or a date that cannot be read. A value that is no object, an `id` or a date
that is no text, or nesting too deep raise something else, and the request
fails. `Readable` says which texts do not (`never_fails_iff`).

What `set_user` wrote is read back, so the cache of the store
(`DiddiFreeID/Store.lean`) is this one where nothing else writes it
(`getUserById_holds`).

Key definitions: `getUser`, `Readable`, `NeverFails`, `Holds`.
Key theorems: `raisesOnly_bind`, `never_fails_iff`, `decodeUser_payload`, `getUserById_holds`.
-/
import DiddiFreeID.ProfileCache
import DiddiFreeID.UuidText
import DiddiFreeID.JwksVerifier

namespace DiddiFreeID

/-! ### What a computation raises -/

section Raises

variable {ε α β : Type} {p : ε → Prop} {x : Except ε α} {f : α → Except ε β}

/-- Whatever it raises is of a kind. -/
def RaisesOnly (p : ε → Prop) (x : Except ε α) : Prop := ∀ e, x = .error e → p e

@[simp] theorem raisesOnly_ok (a : α) : RaisesOnly p (.ok a : Except ε α) := fun _ h => by cases h

@[simp] theorem raisesOnly_error {e : ε} : RaisesOnly p (.error e : Except ε α) ↔ p e :=
  ⟨fun h => h e rfl, fun h e' he => by cases he; exact h⟩

/-- In sequence: the first part, and the rest from every result. -/
theorem raisesOnly_bind : RaisesOnly p (x >>= f) ↔
    RaisesOnly p x ∧ ∀ a, x = .ok a → RaisesOnly p (f a) := by
  cases x with
  | error e =>
    refine ⟨fun h => ⟨raisesOnly_error.mpr (h e rfl), fun a ha => by cases ha⟩, fun h => ?_⟩
    exact raisesOnly_error.mpr (raisesOnly_error.mp h.1)
  | ok a =>
    refine ⟨fun h => ⟨raisesOnly_ok a, fun a' ha => ?_⟩, fun h => h.2 a rfl⟩
    cases ha
    exact h

end Raises

/-- What Python raises, by class. -/
inductive PyError
  | valueError | keyError | typeError | attributeError | recursionError
  deriving DecidableEq, Repr

/-- `bool(value)`; of the floats `nan` and the infinities count too. -/
def Json.counts : Json → Bool
  | float digits => decide (digits ∈ ["nan", "inf", "-inf"]) || (float digits).truthy
  | j => j.truthy

namespace RedisProfileCache

/-- `except (ValueError, KeyError)`. -/
def Caught (e : PyError) : Prop := e = .valueError ∨ e = .keyError

instance (e : PyError) : Decidable (Caught e) := inferInstanceAs (Decidable (_ ∨ _))

/-- `json` and the ISO texts of `datetime`; on text `fromisoformat` raises
nothing but a `ValueError`, which is `none`. -/
structure Codec where
  loads : String → Except PyError Json
  dumps : Json → String
  fromisoformat : String → Option Time
  isoformat : Time → String

variable (C : Codec)

/-! ### The decoder -/

/-- `data[name]`. -/
def index (name : String) : Json → Except PyError Json
  | .obj members =>
    match members.lookup name with
    | some value => .ok value
    | none => .error .keyError
  | _ => .error .typeError

/-- `data.get(name)`. -/
def get (name : String) : Json → Except PyError (Option Json)
  | .obj members => .ok (members.lookup name)
  | _ => .error .attributeError

/-- `UUID(value)`. -/
def uuid : Json → Except PyError Uuid
  | .str hex =>
    match uuidOf hex with
    | some id => .ok id
    | none => .error .valueError
  | .null => .error .typeError
  | _ => .error .attributeError

/-- The member of an enumeration with a value. -/
def member {α : Type} (ofValue : String → Option α) : Json → Except PyError α
  | .str value =>
    match ofValue value with
    | some a => .ok a
    | none => .error .valueError
  | _ => .error .valueError

/-- `datetime.fromisoformat(value) if value else None`. -/
def date : Option Json → Except PyError (Option Time)
  | none => .ok none
  | some value =>
    if value.counts then
      match value with
      | .str text =>
        match C.fromisoformat text with
        | some t => .ok (some t)
        | none => .error .valueError
      | _ => .error .typeError
    else .ok none

/-- A `User` as an entry makes it: nothing looks at its phone and name. -/
structure DecodedUser where
  id : Uuid
  phone : Json
  fullName : Json
  role : UserRole
  status : UserStatus
  createdAt : Option Time
  updatedAt : Option Time

/-- The user of the JSON value. -/
def decodeUser (data : Json) : Except PyError DecodedUser := do
  let id ← uuid (← index "id" data)
  let phone ← index "phone" data
  let fullName ← index "full_name" data
  let role ← member UserRole.ofValue (← index "role" data)
  let status ← member UserStatus.ofValue (← index "status" data)
  let createdAt ← date C (← get "created_at" data)
  let updatedAt ← date C (← get "updated_at" data)
  return { id, phone, fullName, role, status, createdAt, updatedAt }

/-- The texts under the profile keys. -/
abbrev Profiles : Type := List (Uuid × String)

/-- `invalidate_user`, Redis answering. -/
def invalidateUser (userId : Uuid) (x : Profiles) : Profiles := x.filter fun e => e.1 ≠ userId

/-- `get_user`, Redis answering. -/
def getUser (userId : Uuid) (x : Profiles) : Except PyError (Option DecodedUser) × Profiles :=
  match x.lookup userId with
  | none => (.ok none, x)
  | some raw =>
    match C.loads raw >>= decodeUser C with
    | .ok user => (.ok (some user), x)
    | .error e => if Caught e then (.ok none, invalidateUser userId x) else (.error e, x)

/-- The JSON that `set_user` writes. -/
def payload (user : User) : Json :=
  .obj
    [("id", .str (uuidText user.id)), ("phone", .str user.phone),
      ("full_name", match user.fullName with
        | some name => .str name
        | none => .null),
      ("role", .str user.role.value), ("status", .str user.status.value),
      ("created_at", match user.createdAt with
        | some t => .str (C.isoformat t)
        | none => .null),
      ("updated_at", match user.updatedAt with
        | some t => .str (C.isoformat t)
        | none => .null)]

/-- `set_user`, Redis answering. -/
def setUser (user : User) (x : Profiles) : Profiles :=
  (user.id, C.dumps (payload C user)) :: x.filter fun e => e.1 ≠ user.id

/-! ### The query -/

/-- `profile_payload`, of a `User` that an entry may have made. -/
structure PublishedUser where
  id : Uuid
  phone : Json
  fullName : Json
  role : UserRole
  status : UserStatus
  requestedRole : Option UserRole

/-- The payload of a cached user: no entry has a requested role. -/
def DecodedUser.published (user : DecodedUser) : PublishedUser :=
  { id := user.id
    phone := user.phone
    fullName := user.fullName
    role := user.role
    status := user.status
    requestedRole := none }

/-- The payload of a row. -/
def published (profile : Profile) : PublishedUser :=
  { id := profile.id
    phone := .str profile.phone
    fullName := match profile.fullName with
      | some name => .str name
      | none => .null
    role := profile.role
    status := profile.status
    requestedRole := profile.requestedRole }

/-- What `GetUserById` raises. -/
inductive Unanswered
  | python (e : PyError)
  | api (e : ApiError)

/-- `GetUserById` on the rows and the texts of the profile keys. -/
def getUserById (userId : Uuid) (d : Db) (x : Profiles) :
    Except Unanswered PublishedUser × Profiles :=
  match getUser C userId x with
  | (.error e, x) => (.error (.python e), x)
  | (.ok (some cached), x) => (.ok cached.published, x)
  | (.ok none, x) =>
    match d.findById userId with
    | none => (.error (.api userNotFound), x)
    | some user => (.ok (published (profilePayload user)), setUser C user x)

/-! ### What never fails -/

section Condition

variable (members : List (String × Json))

/-- Everything before the dates is read. -/
structure ReachesDates : Prop where
  id : ∃ hex, members.lookup "id" = some (.str hex) ∧ (uuidOf hex).isSome = true
  phone : (members.lookup "phone").isSome = true
  fullName : (members.lookup "full_name").isSome = true
  role : ∃ value, members.lookup "role" = some (.str value) ∧ (UserRole.ofValue value).isSome = true
  status : ∃ value, members.lookup "status" = some (.str value) ∧
    (UserStatus.ofValue value).isSome = true

/-- A date is missing, does not count, or is text. -/
def DateFits (name : String) : Prop :=
  ∀ value, members.lookup name = some value → value.counts = true → ∃ text, value = .str text

/-- A date is text that `fromisoformat` refuses. -/
def NoDate (name : String) : Prop :=
  ∃ text, members.lookup name = some (.str text) ∧ text ≠ "" ∧ C.fromisoformat text = none

/-- The members of an object that the decoder reads or drops: the `id`, if
there is one, is text, and so are the dates that the decoder comes to. -/
structure Decodable : Prop where
  id : ∀ value, members.lookup "id" = some value → ∃ hex, value = .str hex
  created : ReachesDates members → DateFits members "created_at"
  updated : ReachesDates members → ¬ NoDate C members "created_at" → DateFits members "updated_at"

end Condition

/-- The text of an entry is not JSON, or an object of such members. -/
def Readable (raw : String) : Prop :=
  match C.loads raw with
  | .error e => Caught e
  | .ok (.obj members) => Decodable C members
  | .ok _ => False

/-- `get_user` returns a `User`, or drops the entry and returns none, and
`GetUserById` answers for every account. -/
structure NeverFails (userId : Uuid) (x : Profiles) : Prop where
  reads : (∃ user, getUser C userId x = (.ok (some user), x)) ∨
    getUser C userId x = (.ok none, invalidateUser userId x)
  answers : ∀ d : Db, (d.findById userId).isSome = true →
    ∃ profile, (getUserById C userId d x).1 = .ok profile

/-! ### What the conversions raise -/

section Conversions

variable {C} {members : List (String × Json)} {name : String} {value : Json} {α : Type}
  {ofValue : String → Option α}

theorem index_caught : RaisesOnly Caught (index name (.obj members)) := by
  cases h : members.lookup name with
  | none => simp [index, h, Caught]
  | some value => simp [index, h]

theorem index_eq_ok : index name (.obj members) = .ok value ↔ members.lookup name = some value := by
  cases h : members.lookup name with
  | none => simp [index, h]
  | some value' => simp [index, h]

theorem uuid_caught : RaisesOnly Caught (uuid value) ↔ ∃ hex, value = .str hex := by
  cases value with
  | str hex =>
    cases h : uuidOf hex with
    | none => simp [uuid, h, Caught]
    | some id => simp [uuid, h]
  | _ => simp [uuid, Caught]

theorem uuid_eq_ok {id : Uuid} :
    uuid value = .ok id ↔ ∃ hex, value = .str hex ∧ uuidOf hex = some id := by
  cases value with
  | str hex =>
    cases h : uuidOf hex with
    | none => simp [uuid, h]
    | some id' => simp [uuid, h]
  | _ => simp [uuid]

theorem member_caught : RaisesOnly Caught (member ofValue value) := by
  cases value with
  | str text =>
    cases h : ofValue text with
    | none => simp [member, h, Caught]
    | some a => simp [member, h]
  | _ => simp [member, Caught]

theorem member_eq_ok {a : α} :
    member ofValue value = .ok a ↔ ∃ text, value = .str text ∧ ofValue text = some a := by
  cases value with
  | str text =>
    cases h : ofValue text with
    | none => simp [member, h]
    | some a' => simp [member, h]
  | _ => simp [member]

theorem counts_str {text : String} : (Json.str text).counts = true ↔ text ≠ "" := by
  simp [Json.counts, Json.truthy]

theorem date_caught : RaisesOnly Caught (date C (members.lookup name)) ↔ DateFits members name := by
  unfold DateFits
  cases members.lookup name with
  | none => simp [date]
  | some value =>
    simp only [Option.some.injEq, forall_eq', date]
    split_ifs with hcounts
    · cases value with
      | str text =>
        refine iff_of_true ?_ fun _ => ⟨text, rfl⟩
        cases h : C.fromisoformat text with
        | none => simp [h, Caught]
        | some t => simp [h]
      | _ => simp [hcounts, Caught]
    · exact iff_of_true (raisesOnly_ok none) fun h => absurd h hcounts

/-- A date that fits is read unless it is none. -/
theorem exists_date_iff (h : DateFits members name) :
    (∃ t, date C (members.lookup name) = .ok t) ↔ ¬ NoDate C members name := by
  unfold DateFits at h
  unfold NoDate
  cases hlookup : members.lookup name with
  | none => simp [date]
  | some value =>
    by_cases hcounts : value.counts = true
    · obtain ⟨text, rfl⟩ := h value hlookup hcounts
      have htext := counts_str.mp hcounts
      simp only [date, if_pos hcounts]
      cases hdate : C.fromisoformat text with
      | none => simp [hdate, htext]
      | some t => simp [hdate]
    · refine iff_of_true ⟨none, if_neg hcounts⟩ ?_
      rintro ⟨text, htext, hempty, -⟩
      obtain rfl := Option.some.inj htext
      exact hcounts (counts_str.mpr hempty)

end Conversions

/-! ### The decoder never fails -/

section Reads

variable {C} {members : List (String × Json)} {userId : Uuid} {raw : String} {x : Profiles}

theorem get_obj (name : String) : get name (.obj members) = .ok (members.lookup name) := rfl

/-- The decoder on an object raises what is caught, or is let through, where
every conversion it comes to does. -/
theorem decodeUser_obj_caught :
    RaisesOnly Caught (decodeUser C (.obj members)) ↔ Decodable C members := by
  unfold decodeUser
  simp only [raisesOnly_bind, index_caught, index_eq_ok, uuid_caught, uuid_eq_ok, member_caught,
    member_eq_ok, get_obj, date_caught, true_and, raisesOnly_ok, pure, Except.pure, Except.ok.injEq,
    forall_eq', implies_true, and_true]
  constructor
  · intro h
    have hdates : ReachesDates members → DateFits members "created_at" ∧
        ∀ t, date C (members.lookup "created_at") = .ok t → DateFits members "updated_at" := by
      rintro ⟨⟨hex, hid, huuid⟩, hphone, hname, ⟨role, hrole, hrole'⟩, status, hstatus, hstatus'⟩
      obtain ⟨id, huuid⟩ := Option.isSome_iff_exists.mp huuid
      obtain ⟨phone, hphone⟩ := Option.isSome_iff_exists.mp hphone
      obtain ⟨name, hname⟩ := Option.isSome_iff_exists.mp hname
      obtain ⟨role', hrole'⟩ := Option.isSome_iff_exists.mp hrole'
      obtain ⟨status', hstatus'⟩ := Option.isSome_iff_exists.mp hstatus'
      exact (h _ hid).2 id ⟨hex, rfl, huuid⟩ _ hphone _ hname _ hrole _ ⟨role, rfl, hrole'⟩ _
        hstatus _ ⟨status, rfl, hstatus'⟩
    refine ⟨fun value hid => (h value hid).1, fun hreaches => (hdates hreaches).1,
      fun hreaches hdate => ?_⟩
    obtain ⟨t, ht⟩ := (exists_date_iff (hdates hreaches).1).mpr hdate
    exact (hdates hreaches).2 t ht
  · intro h value hid
    refine ⟨h.id value hid, ?_⟩
    rintro id ⟨hex, rfl, huuid⟩ phone hphone name hname _ hrole role' ⟨role, rfl, hrole'⟩ _ hstatus
      status' ⟨status, rfl, hstatus'⟩
    have hreaches : ReachesDates members :=
      ⟨⟨hex, hid, by rw [huuid]; rfl⟩, by rw [hphone]; rfl, by rw [hname]; rfl,
        ⟨role, hrole, by rw [hrole']; rfl⟩, status, hstatus, by rw [hstatus']; rfl⟩
    have hcreated := h.created hreaches
    refine ⟨hcreated, fun t ht => ?_⟩
    exact h.updated hreaches ((exists_date_iff hcreated).mp ⟨t, ht⟩)

/-- A value that is no object is not caught. -/
theorem decodeUser_caught {data : Json} : RaisesOnly Caught (decodeUser C data) ↔
    ∃ members, data = .obj members ∧ Decodable C members := by
  cases data with
  | obj members => simp [decodeUser_obj_caught]
  | _ =>
    refine iff_of_false (fun h => ?_) (by simp)
    have htype : Caught .typeError := h .typeError rfl
    exact absurd htype (by decide)

/-- A text is readable where what reading it raises is caught. -/
theorem readable_iff : Readable C raw ↔ RaisesOnly Caught (C.loads raw >>= decodeUser C) := by
  unfold Readable
  rw [raisesOnly_bind]
  cases hloads : C.loads raw with
  | error e => simp
  | ok data =>
    simp only [raisesOnly_ok, Except.ok.injEq, forall_eq', true_and, decodeUser_caught]
    cases data with
    | obj members => simp
    | _ => simp

/-- **A cache entry never fails a request** if and only if its text is not
JSON, or an object whose `id` and dates, as far as the decoder comes, are
missing, empty or text. -/
theorem never_fails_iff (h : x.lookup userId = some raw) :
    NeverFails C userId x ↔ Readable C raw := by
  have hget : getUser C userId x = match C.loads raw >>= decodeUser C with
      | .ok user => (.ok (some user), x)
      | .error e => if Caught e then (.ok none, invalidateUser userId x) else (.error e, x) := by
    unfold getUser
    rw [h]
  rw [readable_iff]
  cases hread : C.loads raw >>= decodeUser C with
  | ok user =>
    rw [hread] at hget
    refine iff_of_true ⟨.inl ⟨user, hget⟩, fun d _ => ⟨user.published, ?_⟩⟩ (raisesOnly_ok user)
    simp only [getUserById, hget]
  | error e =>
    rw [hread] at hget
    rw [raisesOnly_error]
    dsimp only at hget
    constructor
    · intro hnever
      by_contra hcaught
      rw [if_neg hcaught] at hget
      rcases hnever.reads with ⟨user, hreads⟩ | hreads
      · rw [hget] at hreads
        cases hreads
      · rw [hget] at hreads
        cases hreads
    · intro hcaught
      rw [if_pos hcaught] at hget
      refine ⟨.inr hget, fun d hd => ?_⟩
      obtain ⟨user, huser⟩ := Option.isSome_iff_exists.mp hd
      exact ⟨published (profilePayload user), by simp only [getUserById, hget, huser]⟩

end Reads

/-! ### An entry that is no object -/

/-- `json` on two texts; every other one it refuses. -/
def sampleCodec : Codec where
  loads raw :=
    if raw = "null" then .ok .null else if raw = "\x7b\x7d" then .ok (.obj []) else .error .valueError
  dumps _ := "null"
  fromisoformat _ := none
  isoformat _ := ""

/-- An empty object is dropped. -/
theorem never_fails_empty : NeverFails sampleCodec 7 [(7, "\x7b\x7d")] := by
  refine (never_fails_iff rfl).mpr ?_
  change Decodable sampleCodec []
  have hnot : ¬ ReachesDates [] := by
    rintro ⟨-, hphone, -⟩
    cases hphone
  refine ⟨fun value h => ?_, fun h => absurd h hnot, fun h => absurd h hnot⟩
  cases h

/-- **A `null` fails the request.** The entry stays, and `GetUserById` does not
answer for an account that exists. -/
theorem null_fails : ¬ NeverFails sampleCodec 7 [(7, "null")] ∧
    getUser sampleCodec 7 [(7, "null")] = (.error .typeError, [(7, "null")]) ∧
    ∃ d : Db, (d.findById 7).isSome = true ∧
      (getUserById sampleCodec 7 d [(7, "null")]).1 = .error (.python .typeError) := by
  have hget : getUser sampleCodec 7 [(7, "null")] = (.error .typeError, [(7, "null")]) := rfl
  refine ⟨fun h => ?_, hget, { users := [{ id := 7, phone := "+22507000001" }] }, rfl, rfl⟩
  rcases h.reads with ⟨user, h⟩ | h
  · rw [hget] at h
    cases h
  · rw [hget] at h
    cases h

/-! ### What `set_user` wrote -/

/-- What the code relies on: a payload and a date are read back from their
texts. -/
structure Codec.Documented : Prop where
  loads_dumps : ∀ user, C.loads (C.dumps (payload C user)) = .ok (payload C user)
  fromisoformat_isoformat : ∀ t, C.fromisoformat (C.isoformat t) = some t
  isoformat_ne_empty : ∀ t, C.isoformat t ≠ ""

/-- The user an entry of `set_user` is read as. -/
def DecodedUser.ofUser (user : User) : DecodedUser :=
  { id := user.id
    phone := .str user.phone
    fullName := match user.fullName with
      | some name => .str name
      | none => .null
    role := user.role
    status := user.status
    createdAt := user.createdAt
    updatedAt := user.updatedAt }

section Written

variable {C} {x : Profiles} {d : Db} {o : Outside} {user : User} {userId : Uuid}

theorem date_payload (hC : C.Documented) (t : Option Time) :
    date C (some (match t with
      | some t => .str (C.isoformat t)
      | none => .null)) = .ok t := by
  cases t with
  | none => rfl
  | some t =>
    have hcounts := counts_str.mpr (hC.isoformat_ne_empty t)
    simp only [date, if_pos hcounts, hC.fromisoformat_isoformat]

/-- What `set_user` encodes is decoded. -/
theorem decodeUser_payload (hC : C.Documented) (hid : user.id < 16 ^ 32) :
    decodeUser C (payload C user) = .ok (.ofUser user) := by
  have huuid : uuid (.str (uuidText user.id)) = .ok user.id := by
    simp only [uuid, uuidOf_uuidText hid]
  have hrole : member UserRole.ofValue (.str user.role.value) = .ok user.role := by
    cases user.role <;> rfl
  have hstatus : member UserStatus.ofValue (.str user.status.value) = .ok user.status := by
    cases user.status <;> rfl
  have hid' : index "id" (payload C user) = .ok (.str (uuidText user.id)) := rfl
  have hphone : index "phone" (payload C user) = .ok (.str user.phone) := rfl
  have hname : index "full_name" (payload C user) = .ok (match user.fullName with
    | some name => .str name
    | none => .null) := rfl
  have hrole' : index "role" (payload C user) = .ok (.str user.role.value) := rfl
  have hstatus' : index "status" (payload C user) = .ok (.str user.status.value) := rfl
  have hcreated : get "created_at" (payload C user) = .ok (some (match user.createdAt with
    | some t => .str (C.isoformat t)
    | none => .null)) := rfl
  have hupdated : get "updated_at" (payload C user) = .ok (some (match user.updatedAt with
    | some t => .str (C.isoformat t)
    | none => .null)) := rfl
  simp only [decodeUser, hid', hphone, hname, hrole', hstatus', hcreated, hupdated, huuid, hrole,
    hstatus, date_payload hC, bind, Except.bind, pure, Except.pure]
  rfl

/-- The texts are those that `set_user` wrote of the profiles in `cache`. -/
structure Holds (C : Codec) (x : Profiles) (cache : List (Uuid × CachedUser)) : Prop where
  texts : ∀ id, x.lookup id = (cache.lookup id).map fun c => C.dumps (payload C c.toUser)
  ids : ∀ id c, cache.lookup id = some c → c.id < 16 ^ 32

theorem Holds.invalidateUser (h : Holds C x o.cache) :
    Holds C (invalidateUser userId x) (o.invalidateUser userId).cache where
  texts id := by
    rw [Outside.lookup_invalidateUser, RedisProfileCache.invalidateUser, lookup_filter_ne]
    split_ifs
    · rfl
    · exact h.texts id
  ids id c hc := by
    rw [Outside.lookup_invalidateUser] at hc
    split_ifs at hc
    exact h.ids id c hc

theorem Holds.setUser (h : Holds C x o.cache) (hid : user.id < 16 ^ 32) :
    Holds C (setUser C user x) (o.setUser user).cache where
  texts id := by
    rw [Outside.lookup_setUser, RedisProfileCache.setUser, List.lookup_cons]
    by_cases hsame : id = user.id
    · subst hsame
      rw [beq_self_eq_true, if_pos rfl]
      rfl
    · rw [beq_eq_false_iff_ne.mpr hsame, if_neg hsame]
      dsimp only
      rw [lookup_filter_ne, if_neg hsame]
      exact h.texts id
  ids id c hc := by
    rw [Outside.lookup_setUser] at hc
    split_ifs at hc
    · cases hc
      exact hid
    · exact h.ids id c hc

/-- `get_user` on what `set_user` wrote: the profile, and nothing dropped. -/
theorem getUser_holds (hC : C.Documented) (h : Holds C x o.cache) : getUser C userId x =
    (.ok ((o.cache.lookup userId).map fun c => .ofUser c.toUser), x) := by
  unfold getUser
  rw [h.texts userId]
  cases hc : o.cache.lookup userId with
  | none => rfl
  | some c =>
    have hid : c.toUser.id < 16 ^ 32 := by
      have hsame : c.toUser.id = c.id := rfl
      rw [hsame]
      exact h.ids userId c hc
    simp only [Option.map_some, hC.loads_dumps, bind, Except.bind, decodeUser_payload hC hid]

/-- An entry of `set_user` never fails a request. -/
theorem never_fails_of_holds (hC : C.Documented) (h : Holds C x o.cache)
    (hc : (o.cache.lookup userId).isSome = true) : NeverFails C userId x := by
  obtain ⟨c, hc⟩ := Option.isSome_iff_exists.mp hc
  have hget : getUser C userId x = (.ok (some (.ofUser c.toUser)), x) := by
    rw [getUser_holds hC h, hc]
    rfl
  exact ⟨.inl ⟨_, hget⟩, fun d _ => ⟨(DecodedUser.ofUser c.toUser).published, by
    simp only [getUserById, hget]⟩⟩

/-- The answers are one: the same profile, or the same error. -/
inductive SameAnswer : Except Unanswered PublishedUser → Except Failure Response → Prop
  | profile (p : Profile) : SameAnswer (.ok (published p)) (.ok (.profile p))
  | api (e : ApiError) : SameAnswer (.error (.api e)) (.error (.api e))

theorem published_ofUser (c : CachedUser) :
    (DecodedUser.ofUser c.toUser).published = published (profilePayload c.toUser) := rfl

/-- **The store's cache is this one** where only `set_user` and
`invalidate_user` write it: a query answers as on the store, and leaves what
the store has. -/
theorem getUserById_holds (hC : C.Documented) (hids : ∀ u ∈ d.users, u.id < 16 ^ 32)
    (h : Holds C x o.cache) (q : Query) :
    SameAnswer (getUserById C q.userId d x).1 (store.run q.prog [] d o).1 ∧
      Holds C (getUserById C q.userId d x).2 (store.run q.prog [] d o).2.2.cache := by
  have hget : getUser C q.userId x =
      (.ok ((o.cache.lookup q.userId).map fun c => .ofUser c.toUser), x) := getUser_holds hC h
  rw [q.run_prog]
  cases hc : o.cache.lookup q.userId with
  | some c =>
    rw [hc] at hget
    simp only [getUserById, hget, Option.map_some, published_ofUser]
    exact ⟨SameAnswer.profile _, h⟩
  | none =>
    rw [hc] at hget
    simp only [getUserById, hget, Option.map_none, Db.published]
    cases huser : d.findById q.userId with
    | none => exact ⟨.api userNotFound, h⟩
    | some user =>
      have hid : user.id < 16 ^ 32 := hids user (Db.mem_of_findById huser).1
      exact ⟨.profile (profilePayload user), h.setUser hid⟩

end Written

end RedisProfileCache

end DiddiFreeID
