/-
# Access tokens, verified

`decode_access_token` of `infra/token_service.py`: the key that the token's
`kid` names is looked up in the key ring of `core/keys.py`, and the JWT
library verifies the token against it. The library is a parameter: what it
reads in a header, and the claims of a token that a key verifies. Claims are
JSON objects; `uuidOf` is `uuid.UUID` on a string.

Key definitions: `TokenService.decodeAccessToken`, `TokenService.Verified`, `uuidOf`.
-/
import DiddiFreeID.Phone
import Mathlib.Data.List.DropRight

namespace DiddiFreeID

/-! ### JSON -/

inductive Json
  | null
  | bool (b : Bool)
  | int (n : ℤ)
  | float (digits : String)
  | str (s : String)
  | arr (items : List Json)
  | obj (members : List (String × Json))

/-- The claims of a token, a `dict`. -/
abbrev Claims : Type := List (String × Json)

/-- The value is there and is this string. -/
def Json.isText (value : String) : Option Json → Bool
  | some (str s) => decide (s = value)
  | _ => false

theorem Json.isText_iff {value : String} {j : Option Json} :
    Json.isText value j = true ↔ j = some (.str value) := by
  cases j with
  | none => simp [isText]
  | some j => cases j <;> simp [isText]

/-! ### UUIDs -/

/-- The string without the copies of `pattern`, found from the left; `skip`
characters of the last copy are still to go. -/
def withoutCopies (pattern : List Char) : ℕ → List Char → List Char
  | _, [] => []
  | skip + 1, _ :: cs => withoutCopies pattern skip cs
  | 0, c :: cs =>
    if pattern.isPrefixOf (c :: cs) then withoutCopies pattern (pattern.length - 1) cs
    else c :: withoutCopies pattern 0 cs

/-- A digit of `int(s, 16)`: any decimal digit, or a letter up to `f`. -/
def hexDigit (c : Char) : Option ℕ :=
  match decimalZeros.find? fun z => z ≤ c.toNat && c.toNat ≤ z + 9 with
  | some z => some (c.toNat - z)
  | none =>
    if 'a' ≤ c ∧ c ≤ 'f' then some (c.toNat - 'a'.toNat + 10)
    else if 'A' ≤ c ∧ c ≤ 'F' then some (c.toNat - 'A'.toNat + 10)
    else none

/-- The digits of `int(s, 16)`, a single underscore between two of them
allowed; `between` says that a digit was the last character. -/
def hexDigits : Bool → ℕ → List Char → Option ℕ
  | between, value, [] => if between then some value else none
  | between, value, '_' :: cs => if between then hexDigits false value cs else none
  | _, value, c :: cs => (hexDigit c).bind fun digit => hexDigits true (value * 16 + digit) cs

/-- `s.strip()`. -/
def strip (s : List Char) : List Char := (s.dropWhile isSpace).rdropWhile isSpace

/-- What `int` strips: the four separators that `str.strip` takes for blanks
are none here. -/
def isIntSpace (c : Char) : Bool := isSpace c && !(0x1C ≤ c.toNat && c.toNat ≤ 0x1F)

/-- `int(s, 16)`, for a string without a minus sign; `none` is the
`ValueError`. The zero before an `x` may be of any script, as all digits. -/
def intHex (s : List Char) : Option ℕ :=
  let unsigned := match (s.dropWhile isIntSpace).rdropWhile isIntSpace with
    | '+' :: cs => cs
    | cs => cs
  match unsigned with
  | zero :: x :: cs =>
    if hexDigit zero = some 0 ∧ (x = 'x' ∨ x = 'X') then
      hexDigits false 0 (if cs.head? = some '_' then cs.tail else cs)
    else hexDigits false 0 unsigned
  | _ => hexDigits false 0 unsigned

/-- `UUID(hex)`; `none` is the `ValueError`. Thirty-two characters are at
most 128 bits. -/
def uuidOf (hex : String) : Option Uuid :=
  let unprefixed := withoutCopies "uuid:".toList 0 (withoutCopies "urn:".toList 0 hex.toList)
  let brace := fun c : Char => c = '{' || c = '}'
  let digits := ((unprefixed.dropWhile brace).rdropWhile brace).filter fun c => c ≠ '-'
  if digits.length = 32 then intHex digits else none

example : uuidOf "urn:uuid:00000000-0000-0000-0000-0000000000fF" = some 255 := by decide

/-! ### Keys and the library -/

/-- One published verification key. -/
structure PublicKeyEntry where
  kid : String
  pem : String
  deriving DecidableEq, Repr

structure KeyRing where
  activeKid : String
  privatePem : String
  publicKeys : List PublicKeyEntry
  deriving DecidableEq, Repr

/-- What the JWT library raises: `ExpiredSignatureError`, another
`InvalidTokenError`, or anything else. -/
inductive JwtError
  | expiredSignature (text : String)
  | invalidToken (text : String)
  | other
  deriving DecidableEq, Repr

/-- The functions of the JWT library that verification calls. -/
structure JwtLibrary where
  getUnverifiedHeader : String → Except JwtError (List (String × Json))
  decode (token pem : String) (algorithms : List String) (issuer : String) (require : List String)
    (now : Time) : Except JwtError Claims

/-- What a dependency or a route raises: an error it names, or an exception
that nothing catches. -/
inductive Refusal
  | api (e : ApiError)
  | uncaught
  deriving DecidableEq, Repr

structure TokenService where
  jwt : JwtLibrary
  keyRing : KeyRing

/-- The role claim of a service token. -/
def serviceRole : String := "service"

def tokenInvalid (text : String) : ApiError :=
  { statusCode := 401
    code := "TOKEN_INVALID"
    message := [.text "Token invalide : ", .text text] }

def unknownKid : ApiError :=
  { statusCode := 401
    code := "TOKEN_INVALID"
    message := [.text "Token signé avec une clé inconnue (kid)."] }

def tokenExpired : ApiError :=
  { statusCode := 401, code := "TOKEN_EXPIRED", message := [.text "Le token a expiré."] }

namespace TokenService

variable (S : Env) (T : TokenService)

/-- The library's verification of a token against one key. -/
def decodeWith (entry : PublicKeyEntry) (token : String) (now : Time) : Except JwtError Claims :=
  T.jwt.decode token entry.pem ["RS256"] S.settings.jwtIssuer ["exp", "iat", "sub", "role"] now

def decodeAccessToken (token : String) (now : Time) : Except Refusal Claims :=
  match T.jwt.getUnverifiedHeader token with
  | .error (.expiredSignature text) => .error (.api (tokenInvalid text))
  | .error (.invalidToken text) => .error (.api (tokenInvalid text))
  | .error .other => .error .uncaught
  | .ok header =>
    match T.keyRing.publicKeys.find? fun e => Json.isText e.kid (header.lookup "kid") with
    | none => .error (.api unknownKid)
    | some entry =>
      match T.decodeWith S entry token now with
      | .ok claims => .ok claims
      | .error (.expiredSignature _) => .error (.api tokenExpired)
      | .error (.invalidToken text) => .error (.api (tokenInvalid text))
      | .error .other => .error .uncaught

/-- The library verifies the token, with these claims, against a published
key. -/
def Verified (token : String) (now : Time) (claims : Claims) : Prop :=
  ∃ entry ∈ T.keyRing.publicKeys, T.decodeWith S entry token now = .ok claims

variable {S T}

/-- A token that is decoded is verified. -/
theorem verified_of_decode {token : String} {now : Time} {claims : Claims}
    (h : T.decodeAccessToken S token now = .ok claims) : T.Verified S token now claims := by
  unfold decodeAccessToken at h
  split at h
  · cases h
  · cases h
  · cases h
  · split at h
    · cases h
    · rename_i entry hfind
      split at h
      · rename_i claims' hdecode
        injection h with h
        subst h
        exact ⟨entry, List.mem_of_find?_eq_some hfind, hdecode⟩
      · cases h
      · cases h
      · cases h

end TokenService

end DiddiFreeID
