/-
# Phone numbers and E.164

`validate_phone` is meant to accept E.164 numbers and to return one spelling
of each. Its `\d` matches every decimal digit of Unicode, so what it accepts
are the E.164 numbers and those with a foreign digit after the first one
(`matchesE164_iff`); a number in foreign digits is returned as it is, beside
its ASCII spelling.

Key definitions: `IsE164`, `HasForeignDigit`, `digitsOf`.
Key theorems: `matchesE164_iff`, `digitsOf_injective`, `validatePhone_iff`.
-/
import DiddiFreeID.Phone

namespace DiddiFreeID

/-! ### The grammar -/

/-- The characters without the whitespace. -/
def unspaced (s : String) : List Char := s.toList.filter fun c => !isSpace c

/-- One of `0` to `9`. -/
def isAsciiDigit (c : Char) : Bool := decide ('0' ≤ c ∧ c ≤ '9')

/-- `+`, an ASCII digit from `1` to `9`, then 7 to 14 characters of a kind. -/
def IsNumber (digit : Char → Bool) : List Char → Prop
  | '+' :: d :: ds =>
    ('1' ≤ d ∧ d ≤ '9') ∧ (∀ c ∈ ds, digit c = true) ∧ 7 ≤ ds.length ∧ ds.length ≤ 14
  | _ => False

instance (digit : Char → Bool) (l : List Char) : Decidable (IsNumber digit l) := by
  unfold IsNumber
  split
  · rename_i ds
    have hall : Decidable (∀ c ∈ ds, digit c = true) := List.decidableBAll _ ds
    infer_instance
  · infer_instance

/-- An E.164 number. -/
abbrev IsE164 (l : List Char) : Prop := IsNumber isAsciiDigit l

/-- A number as `validate_phone` accepts it, with a digit other than `0` to
`9`. -/
def HasForeignDigit (s : String) : Prop :=
  IsNumber isDecimal (unspaced s) ∧ ∃ c ∈ (unspaced s).drop 2, isAsciiDigit c = false

instance (s : String) : Decidable (HasForeignDigit s) := by
  unfold HasForeignDigit
  have hany : Decidable (∃ c ∈ (unspaced s).drop 2, isAsciiDigit c = false) :=
    List.decidableBEx _ _
  infer_instance

/-- The value of a decimal digit. -/
def digitValue (c : Char) : Option ℕ :=
  (decimalZeros.find? fun z => z ≤ c.toNat && c.toNat ≤ z + 9).map fun z => c.toNat - z

/-- The digits that a number denotes. -/
def digitsOf (phone : String) : List ℕ := phone.toList.filterMap digitValue

/-! ### Digits -/

theorem isAsciiDigit_iff {c : Char} : isAsciiDigit c = true ↔ 48 ≤ c.toNat ∧ c.toNat ≤ 57 := by
  rw [isAsciiDigit, decide_eq_true_eq]
  rfl

theorem isDecimal_of_isAsciiDigit {c : Char} (h : isAsciiDigit c = true) : isDecimal c = true := by
  obtain ⟨hlow, hhigh⟩ := isAsciiDigit_iff.mp h
  have hzero : (48 ≤ c.toNat && c.toNat ≤ 48 + 9) = true := by
    rw [Bool.and_eq_true, decide_eq_true_eq, decide_eq_true_eq]
    omega
  rw [isDecimal, List.any_eq_true]
  exact ⟨48, by decide, hzero⟩

theorem digitValue_of_isAsciiDigit {c : Char} (h : isAsciiDigit c = true) :
    digitValue c = some (c.toNat - 48) := by
  obtain ⟨hlow, hhigh⟩ := isAsciiDigit_iff.mp h
  have hzero : (48 ≤ c.toNat && c.toNat ≤ 48 + 9) = true := by
    rw [Bool.and_eq_true, decide_eq_true_eq, decide_eq_true_eq]
    omega
  -- 48 is the first zero of the table.
  have hcons : decimalZeros = 48 :: decimalZeros.tail := rfl
  rw [digitValue, hcons, List.find?_cons_of_pos (by simpa using hzero), Option.map_some]

theorem digitValue_injective {c c' : Char} (h : isAsciiDigit c = true) (h' : isAsciiDigit c' = true)
    (heq : digitValue c = digitValue c') : c = c' := by
  rw [digitValue_of_isAsciiDigit h, digitValue_of_isAsciiDigit h', Option.some.injEq] at heq
  have hc := isAsciiDigit_iff.mp h
  have hc' := isAsciiDigit_iff.mp h'
  have hnat : c.toNat = c'.toNat := by omega
  exact Char.toNat_inj.mp hnat

/-- ASCII digits are written in one way. -/
theorem filterMap_digitValue_injective : ∀ {l l' : List Char}, (∀ c ∈ l, isAsciiDigit c = true) →
    (∀ c ∈ l', isAsciiDigit c = true) → l.filterMap digitValue = l'.filterMap digitValue → l = l'
  | [], [], _, _, _ => rfl
  | [], c :: cs, _, h', heq => by
    rw [List.filterMap_cons, digitValue_of_isAsciiDigit (h' c List.mem_cons_self)] at heq
    cases heq
  | c :: cs, [], h, _, heq => by
    rw [List.filterMap_cons, digitValue_of_isAsciiDigit (h c List.mem_cons_self)] at heq
    cases heq
  | c :: cs, c' :: cs', h, h', heq => by
    have hc := h c List.mem_cons_self
    have hc' := h' c' List.mem_cons_self
    rw [List.filterMap_cons, List.filterMap_cons, digitValue_of_isAsciiDigit hc,
      digitValue_of_isAsciiDigit hc', List.cons.injEq] at heq
    have hhead : c = c' := digitValue_injective hc hc' (by
      rw [digitValue_of_isAsciiDigit hc, digitValue_of_isAsciiDigit hc', heq.1])
    have htail : cs = cs' := filterMap_digitValue_injective
      (fun d hd => h d (List.mem_cons_of_mem _ hd)) (fun d hd => h' d (List.mem_cons_of_mem _ hd))
      heq.2
    rw [hhead, htail]

/-! ### Numbers -/

theorem matchesE164_eq {l : List Char} : matchesE164 l = true ↔ IsNumber isDecimal l := by
  unfold matchesE164 IsNumber
  split
  · simp only [Bool.and_eq_true, decide_eq_true_eq, List.all_eq_true, and_assoc]
  · simp

theorem IsNumber.mono {digit digit' : Char → Bool} (h : ∀ c, digit c = true → digit' c = true)
    {l : List Char} (hl : IsNumber digit l) : IsNumber digit' l := by
  unfold IsNumber at hl ⊢
  split at hl
  · exact ⟨hl.1, fun c hc => h c (hl.2.1 c hc), hl.2.2⟩
  · exact hl.elim

/-- **What `validate_phone` accepts**: the E.164 numbers, and those with a
foreign digit. -/
theorem matchesE164_iff (s : String) :
    matchesE164 (unspaced s) = true ↔ IsE164 (unspaced s) ∨ HasForeignDigit s := by
  rw [matchesE164_eq]
  constructor
  · intro h
    by_cases hforeign : ∃ c ∈ (unspaced s).drop 2, isAsciiDigit c = false
    · exact .inr ⟨h, hforeign⟩
    · left
      revert h hforeign
      generalize unspaced s = l
      intro h hforeign
      unfold IsE164 IsNumber at *
      split at h
      · refine ⟨h.1, fun c hc => ?_, h.2.2⟩
        by_contra hne
        exact hforeign ⟨c, by simpa using hc, by simpa using hne⟩
      · exact h
  · rintro (h | h)
    · exact h.mono fun c => isDecimal_of_isAsciiDigit
    · exact h.1

/-- An E.164 number has no foreign digit. -/
theorem not_hasForeignDigit {s : String} (h : IsE164 (unspaced s)) : ¬ HasForeignDigit s := by
  rintro ⟨-, c, hc, hne⟩
  unfold IsE164 IsNumber at h
  split at h
  · rename_i d ds heq
    rw [heq] at hc
    rw [h.2.1 c (by simpa using hc)] at hne
    cases hne
  · exact h

/-- E.164 numbers of the same digits are the same. -/
theorem digitsOf_injective {l l' : List Char} (h : IsE164 l) (h' : IsE164 l')
    (heq : digitsOf (String.ofList l) = digitsOf (String.ofList l')) : l = l' := by
  have hplus : digitValue '+' = none := by decide
  have hfirst : ∀ d : Char, '1' ≤ d ∧ d ≤ '9' → isAsciiDigit d = true := by
    intro d hd
    have hlow : 49 ≤ d.toNat := hd.1
    exact isAsciiDigit_iff.mpr ⟨by omega, hd.2⟩
  unfold IsE164 IsNumber at h h'
  split at h
  · rename_i d ds
    split at h'
    · rename_i d' ds'
      rw [digitsOf, digitsOf, String.toList_ofList, String.toList_ofList,
        List.filterMap_cons_none hplus, List.filterMap_cons_none hplus] at heq
      have hds : d :: ds = d' :: ds' := filterMap_digitValue_injective
        (List.forall_mem_cons.mpr ⟨hfirst d h.1, h.2.1⟩)
        (List.forall_mem_cons.mpr ⟨hfirst d' h'.1, h'.2.1⟩) heq
      rw [hds]
    · exact h'.elim
  · exact h.elim

/-! ### Validation -/

theorem validatePhone_eq (s : String) : validatePhone s =
    if matchesE164 (unspaced s) then .ok (String.ofList (unspaced s))
    else .error invalidPhoneFormat := rfl

theorem validatePhone_ok {s phone : String} (h : validatePhone s = .ok phone) :
    phone = String.ofList (unspaced s) ∧ matchesE164 (unspaced s) = true := by
  rw [validatePhone_eq] at h
  split_ifs at h with hm
  exact ⟨(Except.ok.inj h).symm, hm⟩

theorem unspaced_ofList_unspaced (s : String) : unspaced (String.ofList (unspaced s)) = unspaced s := by
  rw [unspaced, String.toList_ofList, unspaced, List.filter_filter]
  simp only [Bool.and_self]

/-- A number that was returned is returned again. -/
theorem validatePhone_idem {s phone : String} (h : validatePhone s = .ok phone) :
    validatePhone phone = .ok phone := by
  obtain ⟨rfl, hm⟩ := validatePhone_ok h
  rw [validatePhone_eq, unspaced_ofList_unspaced, if_pos hm]

/-- The string is accepted exactly if it is an E.164 number, and returned
without its whitespace; otherwise it is refused. -/
def ValidatesE164 (s : String) : Prop :=
  ((∃ phone, validatePhone s = .ok phone) ↔ IsE164 (unspaced s)) ∧
  (∀ phone, validatePhone s = .ok phone → phone = String.ofList (unspaced s)) ∧
  (¬ IsE164 (unspaced s) → validatePhone s = .error invalidPhoneFormat)

/-- **E.164.** A string is validated as E.164 says if and only if it is no
number with a foreign digit. What is returned is returned again; and without
foreign digits two returned numbers of the same digits are the same. -/
theorem validatePhone_iff (s : String) :
    (ValidatesE164 s ↔ ¬ HasForeignDigit s) ∧
    (∀ phone, validatePhone s = .ok phone → validatePhone phone = .ok phone) ∧
    ∀ s' phone phone', ¬ HasForeignDigit s → ¬ HasForeignDigit s' → validatePhone s = .ok phone →
      validatePhone s' = .ok phone' → digitsOf phone = digitsOf phone' → phone = phone' := by
  refine ⟨⟨fun h hforeign => ?_, fun hforeign => ?_⟩, fun phone => validatePhone_idem, ?_⟩
  · -- A number with a foreign digit is accepted.
    have hm : matchesE164 (unspaced s) = true := (matchesE164_iff s).mpr (.inr hforeign)
    have hok : validatePhone s = .ok (String.ofList (unspaced s)) := by
      rw [validatePhone_eq, if_pos hm]
    exact not_hasForeignDigit (h.1.mp ⟨_, hok⟩) hforeign
  · have hiff : matchesE164 (unspaced s) = true ↔ IsE164 (unspaced s) := by
      rw [matchesE164_iff]
      exact or_iff_left hforeign
    refine ⟨⟨?_, fun h => ?_⟩, fun phone h => (validatePhone_ok h).1, fun h => ?_⟩
    · rintro ⟨phone, h⟩
      exact hiff.mp (validatePhone_ok h).2
    · exact ⟨String.ofList (unspaced s), by rw [validatePhone_eq, if_pos (hiff.mpr h)]⟩
    · rw [validatePhone_eq, if_neg fun hm => h (hiff.mp hm)]
  · intro s' phone phone' hforeign hforeign' h h' heq
    obtain ⟨rfl, hm⟩ := validatePhone_ok h
    obtain ⟨rfl, hm'⟩ := validatePhone_ok h'
    have he : IsE164 (unspaced s) := ((matchesE164_iff s).mp hm).resolve_right hforeign
    have he' : IsE164 (unspaced s') := ((matchesE164_iff s').mp hm').resolve_right hforeign'
    rw [digitsOf_injective he he' heq]

/-- **A foreign digit.** A number that ends in an Arabic zero is accepted,
and returned beside its ASCII spelling. -/
theorem validatePhone_foreign : ¬ ValidatesE164 "+2250700000٠" ∧
    validatePhone "+2250700000٠" = .ok "+2250700000٠" ∧
    validatePhone "+22507000000" = .ok "+22507000000" ∧
    digitsOf "+2250700000٠" = digitsOf "+22507000000" := by
  have hok : validatePhone "+2250700000٠" = .ok "+2250700000٠" := by decide +kernel
  have hforeign : HasForeignDigit "+2250700000٠" :=
    ⟨matchesE164_eq.mp (validatePhone_ok hok).2, '٠', by decide +kernel, by decide +kernel⟩
  have hnot : ¬ IsE164 (unspaced "+2250700000٠") := fun h => not_hasForeignDigit h hforeign
  exact ⟨fun h => hnot (h.1.mp ⟨_, hok⟩), hok, by decide +kernel, by decide +kernel⟩

end DiddiFreeID
