/-
# Integers as base64url text

Octets in base64 with the url-safe alphabet (RFC 4648 §5), three octets in
four characters and one or two left over with padding; the text without its
padding decodes to the octets (`decode_strip`), and so it does with the
padding back (`decodePadded_pad`). An integer is written with its big-endian
octets, as many as asked for (`ofOctets_octets`); those of its bit length are
the fewest (`minimal_octets`, `Minimal.length_le`).

Key definitions: `encode`, `decode`, `strip`, `pad`, `decodePadded`, `octets`,
`ofOctets`, `Minimal`.
Key theorems: `decode_strip`, `decodePadded_pad`, `ofOctets_octets`, `minimal_octets`.
-/
import Mathlib.Data.List.DropRight
import Mathlib.Data.Nat.Digits.Lemmas
import Mathlib.Data.Nat.Size
import Mathlib.Tactic.Common
import Mathlib.Tactic.Ring

namespace Base64

/-! ### Characters -/

/-- The url-safe alphabet. -/
def alphabet : List Char :=
  "ABCDEFGHIJKLMNOPQRSTUVWXYZabcdefghijklmnopqrstuvwxyz0123456789-_".toList

def digit (n : ℕ) : Char := alphabet.getD n '='

def value (c : Char) : Option ℕ := alphabet.findIdx? fun a => a = c

theorem value_digit {n : ℕ} (h : n < 64) : value (digit n) = some n := by
  have hall : ∀ n : Fin 64, value (digit n) = some n.1 := by decide +kernel
  exact hall ⟨n, h⟩

/-- What has a value is in the alphabet. -/
theorem mem_of_value {c : Char} {n : ℕ} (h : value c = some n) : c ∈ alphabet := by
  obtain ⟨hn, hc, -⟩ := List.findIdx?_eq_some_iff_getElem.mp h
  rw [← of_decide_eq_true hc]
  exact List.getElem_mem hn

/-- The padding is no digit. -/
theorem value_pad : value '=' = none := by decide +kernel

theorem digit_ne_pad {n : ℕ} (h : n < 64) : digit n ≠ '=' := by
  intro hpad
  have hvalue := value_digit h
  rw [hpad, value_pad] at hvalue
  cases hvalue

/-! ### Octets -/

/-- The characters of the octets, without padding. -/
def digits : List ℕ → List Char
  | a :: b :: c :: bs =>
    digit (a / 4) :: digit (a % 4 * 16 + b / 16) :: digit (b % 16 * 4 + c / 64) :: digit (c % 64) ::
      digits bs
  | [a, b] => [digit (a / 4), digit (a % 4 * 16 + b / 16), digit (b % 16 * 4)]
  | [a] => [digit (a / 4), digit (a % 4 * 16)]
  | [] => []

/-- The padding that fills the last four characters. -/
def padding (bs : List ℕ) : List Char := List.replicate ((3 - bs.length % 3) % 3) '='

/-- `urlsafe_b64encode`. -/
def encode (bs : List ℕ) : List Char := digits bs ++ padding bs

/-- `.rstrip("=")`. -/
def strip (cs : List Char) : List Char := cs.rdropWhile fun c => c = '='

/-- The octets of characters without padding. -/
def decode : List Char → Option (List ℕ)
  | a :: b :: c :: d :: cs => do
    let a ← value a
    let b ← value b
    let c ← value c
    let d ← value d
    let bs ← decode cs
    return (a * 4 + b / 16) :: (b % 16 * 16 + c / 4) :: (c % 4 * 64 + d) :: bs
  | [a, b, c] => do
    let a ← value a
    let b ← value b
    let c ← value c
    return [a * 4 + b / 16, b % 16 * 16 + c / 4]
  | [a, b] => do
    let a ← value a
    let b ← value b
    return [a * 4 + b / 16]
  | [_] => none
  | [] => some []

theorem decode_digits : ∀ {bs : List ℕ}, (∀ b ∈ bs, b < 256) → decode (digits bs) = some bs
  | [], _ => rfl
  | [a], h => by
    have ha := h a (by simp)
    rw [digits, decode, value_digit (by omega), value_digit (by omega)]
    simp only [Option.pure_def, Option.bind_eq_bind, Option.bind_some, Option.some.injEq,
      List.cons.injEq, and_true]
    omega
  | [a, b], h => by
    have ha := h a (by simp)
    have hb := h b (by simp)
    rw [digits, decode, value_digit (by omega), value_digit (by omega), value_digit (by omega)]
    simp only [Option.pure_def, Option.bind_eq_bind, Option.bind_some, Option.some.injEq,
      List.cons.injEq, and_true]
    omega
  | a :: b :: c :: bs, h => by
    have ha := h a (by simp)
    have hb := h b (by simp)
    have hc := h c (by simp)
    have ih : decode (digits bs) = some bs := decode_digits fun b hb => h b (by simp [hb])
    rw [digits, decode, value_digit (by omega), value_digit (by omega), value_digit (by omega),
      value_digit (by omega), ih]
    simp only [Option.pure_def, Option.bind_eq_bind, Option.bind_some, Option.some.injEq,
      List.cons.injEq, and_true]
    omega

/-- The characters of octets are digits. -/
theorem exists_digit : ∀ {bs : List ℕ}, (∀ b ∈ bs, b < 256) → ∀ c ∈ digits bs, ∃ n < 64, c = digit n
  | [], _, c, hc => by simp [digits] at hc
  | [a], h, c, hc => by
    have ha := h a (by simp)
    simp only [digits, List.mem_cons, List.not_mem_nil, or_false] at hc
    rcases hc with rfl | rfl <;> exact ⟨_, by omega, rfl⟩
  | [a, b], h, c, hc => by
    have ha := h a (by simp)
    have hb := h b (by simp)
    simp only [digits, List.mem_cons, List.not_mem_nil, or_false] at hc
    rcases hc with rfl | rfl | rfl <;> exact ⟨_, by omega, rfl⟩
  | a :: b :: d :: bs, h, c, hc => by
    have ha := h a (by simp)
    have hb := h b (by simp)
    have hd := h d (by simp)
    simp only [digits, List.mem_cons] at hc
    rcases hc with rfl | rfl | rfl | rfl | hc
    · exact ⟨_, by omega, rfl⟩
    · exact ⟨_, by omega, rfl⟩
    · exact ⟨_, by omega, rfl⟩
    · exact ⟨_, by omega, rfl⟩
    · exact exists_digit (fun b hb => h b (by simp [hb])) c hc

theorem mem_alphabet_of_mem_digits {bs : List ℕ} (h : ∀ b ∈ bs, b < 256) :
    ∀ c ∈ digits bs, c ∈ alphabet := by
  intro c hc
  obtain ⟨n, hn, rfl⟩ := exists_digit h c hc
  exact mem_of_value (value_digit hn)

/-- No character of octets is padding. -/
theorem ne_pad_of_mem_digits {bs : List ℕ} (h : ∀ b ∈ bs, b < 256) : ∀ c ∈ digits bs, c ≠ '=' := by
  intro c hc
  obtain ⟨n, hn, rfl⟩ := exists_digit h c hc
  exact digit_ne_pad hn

theorem strip_encode {bs : List ℕ} (h : ∀ b ∈ bs, b < 256) : strip (encode bs) = digits bs := by
  rw [strip, encode, List.rdropWhile, List.reverse_append, List.dropWhile_append_of_pos]
  · cases hd : (digits bs).reverse with
    | nil => rw [List.reverse_eq_nil_iff.mp hd]; rfl
    | cons c cs =>
      have hc : c ≠ '=' := ne_pad_of_mem_digits h c (by
        rw [← List.mem_reverse, hd]
        exact List.mem_cons_self)
      rw [List.dropWhile_cons_of_neg (by simpa using hc), ← hd, List.reverse_reverse]
  · simp [padding]

/-- **The text decodes to the octets.** -/
theorem decode_strip {bs : List ℕ} (h : ∀ b ∈ bs, b < 256) :
    decode (strip (encode bs)) = some bs := by
  rw [strip_encode h, decode_digits h]

/-! ### Padded text -/

/-- The text with its padding back. -/
def pad (cs : List Char) : List Char := cs ++ List.replicate ((4 - cs.length % 4) % 4) '='

/-- The octets of the last four characters, of which one or two may be
padding. -/
def decodeLast (a b c d : Char) : Option (List ℕ) :=
  if d ≠ '=' then decode [a, b, c, d] else if c ≠ '=' then decode [a, b, c] else decode [a, b]

/-- The octets of padded text, four characters at a time. -/
def decodePadded : List Char → Option (List ℕ)
  | [] => some []
  | [a, b, c, d] => decodeLast a b c d
  | a :: b :: c :: d :: cs => do
    let octets ← decode [a, b, c, d]
    return octets ++ (← decodePadded cs)
  | _ => none

theorem decode_four (a b c d : Char) (cs : List Char) : decode (a :: b :: c :: d :: cs) =
    (decode [a, b, c, d]).bind fun octets => (decode cs).map (octets ++ ·) := by
  cases ha : value a <;> cases hb : value b <;> cases hc : value c <;> cases hd : value d <;>
    cases hcs : decode cs <;> simp [decode, ha, hb, hc, hd, hcs]

theorem pad_four (a b c d : Char) (cs : List Char) :
    pad (a :: b :: c :: d :: cs) = a :: b :: c :: d :: pad cs := by
  have hmod : (cs.length + 4) % 4 = cs.length % 4 := by omega
  simp [pad, hmod]

/-- **Text without padding decodes to the same octets with it.** -/
theorem decodePadded_pad : ∀ {cs : List Char}, (∀ c ∈ cs, c ≠ '=') →
    decodePadded (pad cs) = decode cs
  | [], _ => rfl
  | [a], _ => by
    -- One character is too few for an octet, and its quantum has padding for a digit.
    have hpad : pad [a] = [a, '=', '=', '='] := rfl
    rw [hpad, decodePadded, decodeLast]
    cases ha : value a <;> simp [decode, ha, value_pad]
  | [a, b], _ => by
    have hpad : pad [a, b] = [a, b, '=', '='] := rfl
    rw [hpad, decodePadded, decodeLast]
    simp
  | [a, b, c], h => by
    have hpad : pad [a, b, c] = [a, b, c, '='] := rfl
    have hc := h c (by simp)
    rw [hpad, decodePadded, decodeLast]
    simp [hc]
  | [a, b, c, d], h => by
    have hd := h d (by simp)
    rw [pad_four, show pad [] = [] from rfl, decodePadded, decodeLast, if_pos hd]
  | a :: b :: c :: d :: e :: cs, h => by
    have ih : decodePadded (pad (e :: cs)) = decode (e :: cs) :=
      decodePadded_pad fun c hc => h c (by simp [List.mem_cons.mp hc])
    obtain ⟨es, hes⟩ : ∃ es, pad (e :: cs) = e :: es := ⟨_, rfl⟩
    rw [pad_four, decode_four, ← ih, hes, decodePadded]
    · cases decode [a, b, c, d] <;> cases decodePadded (e :: es) <;> rfl
    · simp

/-! ### Integers -/

/-- The last `n` big-endian octets of an integer. -/
def octets : ℕ → ℕ → List ℕ
  | 0, _ => []
  | n + 1, v => octets n (v / 256) ++ [v % 256]

/-- The integer of big-endian octets. -/
def ofOctets (bs : List ℕ) : ℕ := bs.foldl (fun v b => v * 256 + b) 0

theorem octets_lt : ∀ (n v : ℕ), ∀ b ∈ octets n v, b < 256
  | 0, _, b, hb => by simp [octets] at hb
  | n + 1, v, b, hb => by
    rcases List.mem_append.mp hb with hb | hb
    · exact octets_lt n _ b hb
    · rw [List.mem_singleton.mp hb]
      exact Nat.mod_lt _ (by decide)

theorem ofOctets_mod : ∀ n v : ℕ, ofOctets (octets n v) = v % 256 ^ n
  | 0, v => by simp [octets, ofOctets, Nat.mod_one]
  | n + 1, v => by
    have ih := ofOctets_mod n (v / 256)
    rw [ofOctets] at ih ⊢
    rw [octets, List.foldl_append, ih, List.foldl_cons, List.foldl_nil, pow_succ', Nat.mod_mul]
    ring

theorem lt_pow_of_size_le {n v : ℕ} (h : v.size ≤ 8 * n) : v < 256 ^ n := by
  calc v < 2 ^ v.size := Nat.lt_size_self v
    _ ≤ 2 ^ (8 * n) := Nat.pow_le_pow_right (by decide) h
    _ = 256 ^ n := pow_mul 2 8 n

/-- **Octets enough for its bits hold the integer.** -/
theorem ofOctets_octets {n v : ℕ} (h : v.size ≤ 8 * n) : ofOctets (octets n v) = v := by
  rw [ofOctets_mod, Nat.mod_eq_of_lt (lt_pow_of_size_le h)]

/-- The first octet. -/
theorem head?_octets : ∀ n v : ℕ, (octets (n + 1) v).head? = some (v / 256 ^ n % 256)
  | 0, v => by simp [octets]
  | n + 1, v => by
    have ih := head?_octets n (v / 256)
    rw [octets, List.head?_append, ih, Option.some_or, Nat.div_div_eq_div_mul, pow_succ']

theorem ofOctets_eq_ofDigits (bs : List ℕ) : ofOctets bs = Nat.ofDigits 256 bs.reverse := by
  induction bs using List.reverseRecOn with
  | nil => rfl
  | append_singleton bs b ih =>
    rw [ofOctets] at ih ⊢
    rw [List.foldl_append, ih, List.reverse_append, List.reverse_singleton, List.singleton_append,
      Nat.ofDigits_cons, List.foldl_cons, List.foldl_nil]
    ring

/-- The octets hold the integer and do not begin with a zero. -/
structure Minimal (bs : List ℕ) (v : ℕ) : Prop where
  octet : ∀ b ∈ bs, b < 256
  leading : bs.head? ≠ some 0
  value : ofOctets bs = v

section Minimal

variable {bs cs : List ℕ} {v : ℕ}

theorem Minimal.eq_digits (h : Minimal bs v) : bs = (Nat.digits 256 v).reverse := by
  have hlast : ∀ hne : bs.reverse ≠ [], bs.reverse.getLast hne ≠ 0 := by
    intro hne hzero
    refine h.leading ?_
    rw [List.getLast_reverse] at hzero
    rw [List.head?_eq_some_head (by simpa using hne), hzero]
  have hdigits := Nat.digits_ofDigits 256 (by decide) bs.reverse
    (fun b hb => h.octet b (List.mem_reverse.mp hb)) hlast
  rw [← ofOctets_eq_ofDigits, h.value] at hdigits
  rw [hdigits, List.reverse_reverse]

/-- No fewer octets hold the integer. -/
theorem Minimal.length_le (h : Minimal bs v) (hcs : ∀ c ∈ cs, c < 256) (hv : ofOctets cs = v) :
    bs.length ≤ cs.length := by
  have hlt : v < 256 ^ cs.length := by
    rw [← hv, ofOctets_eq_ofDigits, ← List.length_reverse]
    exact Nat.ofDigits_lt_base_pow_length (by decide) fun c hc => hcs c (List.mem_reverse.mp hc)
  rw [h.eq_digits, List.length_reverse]
  exact (Nat.digits_length_le_iff (by decide) v).mpr hlt

/-- **The octets of its bit length are the integer's, with none to spare.** -/
theorem minimal_octets (v : ℕ) : Minimal (octets ((v.size + 7) / 8) v) v where
  octet := octets_lt _ v
  value := ofOctets_octets (by omega)
  leading := by
    cases hn : (v.size + 7) / 8 with
    | zero => simp [octets]
    | succ n =>
      have hlow : 256 ^ n ≤ v := by
        calc 256 ^ n = 2 ^ (8 * n) := (pow_mul 2 8 n).symm
          _ ≤ v := Nat.lt_size.mp (by omega)
      have hhigh : v < 256 ^ n * 256 := by
        calc v < 256 ^ (n + 1) := lt_pow_of_size_le (by omega)
          _ = 256 ^ n * 256 := pow_succ 256 n
      have hfirst : v / 256 ^ n % 256 = v / 256 ^ n := Nat.mod_eq_of_lt (Nat.div_lt_of_lt_mul hhigh)
      have hpos : 0 < v / 256 ^ n := Nat.div_pos hlow (Nat.pow_pos (by decide))
      rw [head?_octets, hfirst, Ne, Option.some.injEq]
      exact hpos.ne'

end Minimal

end Base64
