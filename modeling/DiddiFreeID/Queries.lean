/-
# Reading one profile

The queries of `application/queries/get_user.py` that go through the profile
cache, as programs over the calls of the store: a profile comes from the
cache, or from the read repository, which then fills the cache.
`GetCurrentUserProfile` is `GetUserById` under another route.

Key definitions: `GetUserById.call`, `Query`.
-/
import DiddiFreeID.Commands

namespace DiddiFreeID

open Transact

/-- `cache.get_user`, Redis answering. -/
def cachedUser (id : Uuid) : Cmd (Option User) := .ask (Call.cacheGet id)

/-- `cache.set_user`, Redis answering. -/
def cacheUser (user : User) : Cmd Unit := .ask (Call.cacheSet user)

/-- `get_by_id` of the read repository. -/
def getById (id : Uuid) : Cmd (Option User) := .ask (Call.findById id)

@[simp] theorem cachedUser_bind {α : Type} (id : Uuid) (f : Option User → Cmd α) :
    cachedUser id >>= f = .call (.cacheGet id) f := rfl

@[simp] theorem cacheUser_bind {α : Type} (user : User) (f : Unit → Cmd α) :
    cacheUser user >>= f = .call (.cacheSet user) f := rfl

@[simp] theorem getById_bind {α : Type} (id : Uuid) (f : Option User → Cmd α) :
    getById id >>= f = .call (.findById id) f := rfl

structure GetUserById where
  userId : Uuid
  deriving DecidableEq, Repr

def GetUserById.call (q : GetUserById) : Cmd Response := do
  match ← cachedUser q.userId with
  | some cached => return .profile (profilePayload cached)
  | none =>
    match ← getById q.userId with
    | none => raiseError userNotFound
    | some user =>
      cacheUser user
      return .profile (profilePayload user)

structure GetCurrentUserProfile where
  userId : Uuid
  deriving DecidableEq, Repr

def GetCurrentUserProfile.call (q : GetCurrentUserProfile) : Cmd Response :=
  GetUserById.call ⟨q.userId⟩

/-- A query for one profile. -/
inductive Query
  | getUserById (q : GetUserById)
  | getCurrentUserProfile (q : GetCurrentUserProfile)
  deriving DecidableEq, Repr

namespace Query

def userId : Query → Uuid
  | getUserById q => q.userId
  | getCurrentUserProfile q => q.userId

/-- The program of a query. -/
def prog : Query → Cmd Response
  | getUserById q => q.call
  | getCurrentUserProfile q => q.call

/-- Both are one program on the id. -/
theorem prog_eq (q : Query) : q.prog = GetUserById.call ⟨q.userId⟩ := by
  cases q with
  | getUserById q => rfl
  | getCurrentUserProfile q => rfl

end Query
end DiddiFreeID
