/-
# Phone numbers

`application/validation.py`: `validate_phone` removes all whitespace and
matches `^\+[1-9]\d{7,14}$`. Both steps are over Unicode, as Python's
`str.split` and `re` are on `str` (Unicode 14, Python 3.11): whitespace is
what `str.isspace` says and `\d` is every decimal digit (category Nd), not
only the ASCII ones. With the whitespace gone no line feed is left, so `$`
is the end of the string.
-/
import DiddiFreeID.Domain

namespace DiddiFreeID

/-- `str.isspace`, as code points. -/
def spaces : List ℕ :=
  [0x9, 0xA, 0xB, 0xC, 0xD, 0x1C, 0x1D, 0x1E, 0x1F, 0x20, 0x85, 0xA0, 0x1680, 0x2000, 0x2001,
    0x2002, 0x2003, 0x2004, 0x2005, 0x2006, 0x2007, 0x2008, 0x2009, 0x200A, 0x2028, 0x2029,
    0x202F, 0x205F, 0x3000]

/-- The zeros of the decimal digit ranges, each followed by its one to nine. -/
def decimalZeros : List ℕ :=
  [0x30, 0x660, 0x6F0, 0x7C0, 0x966, 0x9E6, 0xA66, 0xAE6, 0xB66, 0xBE6, 0xC66, 0xCE6, 0xD66,
    0xDE6, 0xE50, 0xED0, 0xF20, 0x1040, 0x1090, 0x17E0, 0x1810, 0x1946, 0x19D0, 0x1A80, 0x1A90,
    0x1B50, 0x1BB0, 0x1C40, 0x1C50, 0xA620, 0xA8D0, 0xA900, 0xA9D0, 0xA9F0, 0xAA50, 0xABF0,
    0xFF10, 0x104A0, 0x10D30, 0x11066, 0x110F0, 0x11136, 0x111D0, 0x112F0, 0x11450, 0x114D0,
    0x11650, 0x116C0, 0x11730, 0x118E0, 0x11950, 0x11C50, 0x11D50, 0x11DA0, 0x16A60, 0x16AC0,
    0x16B50, 0x1D7CE, 0x1D7D8, 0x1D7E2, 0x1D7EC, 0x1D7F6, 0x1E140, 0x1E2F0, 0x1E950, 0x1FBF0]

def isSpace (c : Char) : Bool := spaces.contains c.toNat

/-- `\d` on `str`. -/
def isDecimal (c : Char) : Bool := decimalZeros.any fun z => z ≤ c.toNat && c.toNat ≤ z + 9

/-- `^\+[1-9]\d{7,14}$`. -/
def matchesE164 : List Char → Bool
  | '+' :: d :: ds =>
    decide ('1' ≤ d ∧ d ≤ '9') && ds.all isDecimal && decide (7 ≤ ds.length ∧ ds.length ≤ 14)
  | _ => false

def invalidPhoneFormat : ApiError :=
  ⟨422, "INVALID_PHONE_FORMAT",
    [.text "Le numéro doit être au format international, ex. +2250700000000."],
    some [("field", .text "phone")]⟩

def validatePhone (phone : String) : Except ApiError String :=
  let normalised := phone.toList.filter fun c => !isSpace c
  if matchesE164 normalised then .ok (String.ofList normalised) else .error invalidPhoneFormat

example : validatePhone "+225 07 00 00 00 00" = .ok "+2250700000000" := by decide

end DiddiFreeID
