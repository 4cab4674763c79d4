/-
# UUIDs as text

`str` of a UUID, read back by `UUID(...)`: the text has neither prefix nor
braces, without its dashes it is thirty-two hexadecimal digits, and these are
the number.

Key definition: `hexText`.
Key theorem: `uuidOf_uuidText`.
-/
import DiddiFreeID.Keys

namespace DiddiFreeID

/-- The thirty-two digits of a UUID. -/
def hexText (id : Uuid) : List Char :=
  (List.range 32).map fun i => Nat.digitChar (id / 16 ^ (31 - i) % 16)

/-! ### One digit -/

theorem hexDigit_digitChar : ∀ d < 16, hexDigit (Nat.digitChar d) = some d := by decide +kernel

/-- No digit is a mark that the reader looks for. -/
theorem digitChar_not_mark : ∀ d < 16,
    Nat.digitChar d ∉ ['_', '-', '+', '{', '}', 'u', 'x', 'X'] := by decide +kernel

theorem digitChar_not_space : ∀ d < 16, isSpace (Nat.digitChar d) = false := by decide +kernel

theorem mem_hexText {id : Uuid} {c : Char} (h : c ∈ hexText id) : ∃ d < 16, c = Nat.digitChar d := by
  obtain ⟨i, -, rfl⟩ := List.mem_map.mp h
  exact ⟨_, Nat.mod_lt _ (by decide), rfl⟩

/-! ### The number -/

theorem hexDigits_map : ∀ (ds : List ℕ) (between : Bool) (value : ℕ), (∀ d ∈ ds, d < 16) →
    between = true ∨ ds ≠ [] → hexDigits between value (ds.map Nat.digitChar) =
      some (ds.foldl (fun value d => value * 16 + d) value)
  | [], between, value, _, h => by
    obtain rfl := h.resolve_right (fun h => h rfl)
    rfl
  | d :: ds, between, value, hsmall, _ => by
    have hd : d < 16 := hsmall d List.mem_cons_self
    have hmark : Nat.digitChar d ≠ '_' := fun h => digitChar_not_mark d hd (by simp [h])
    have ih := hexDigits_map ds true (value * 16 + d)
      (fun d hd => hsmall d (List.mem_cons_of_mem _ hd)) (.inl rfl)
    rw [List.map_cons, hexDigits]
    · rw [hexDigit_digitChar d hd, Option.bind_some, ih, List.foldl_cons]
    · exact hmark

/-- The digits of a number make its remainder. -/
theorem foldl_digits (id : ℕ) : ∀ (n value : ℕ),
    ((List.range n).map fun i => id / 16 ^ (n - 1 - i) % 16).foldl (fun value d => value * 16 + d)
      value = value * 16 ^ n + id % 16 ^ n
  | 0, value => by simp [Nat.mod_one]
  | n + 1, value => by
    have htail : (List.range n).map ((fun i => id / 16 ^ (n + 1 - 1 - i) % 16) ∘ Nat.succ) =
        (List.range n).map fun i => id / 16 ^ (n - 1 - i) % 16 := by
      refine List.map_congr_left fun i _ => ?_
      rw [Function.comp_apply, Nat.succ_eq_add_one, Nat.add_sub_cancel, Nat.sub_sub, Nat.add_comm 1 i]
    rw [List.range_succ_eq_map, List.map_cons, List.foldl_cons, List.map_map, htail, foldl_digits id n]
    rw [Nat.add_sub_cancel, Nat.sub_zero, Nat.mod_pow_succ, Nat.pow_succ, Nat.add_mul]
    rw [Nat.mul_comm (16 ^ n) (id / 16 ^ n % 16), Nat.mul_assoc, Nat.mul_comm 16 (16 ^ n)]
    omega

theorem hexDigits_hexText {id : Uuid} (h : id < 16 ^ 32) :
    hexDigits false 0 (hexText id) = some id := by
  have hmap : hexText id = ((List.range 32).map fun i => id / 16 ^ (32 - 1 - i) % 16).map Nat.digitChar := by
    rw [List.map_map]
    rfl
  rw [hmap, hexDigits_map _ _ _ (fun d hd => ?_) (.inr (by simp)), foldl_digits, Nat.zero_mul,
    Nat.zero_add, Nat.mod_eq_of_lt h]
  obtain ⟨i, -, rfl⟩ := List.mem_map.mp hd
  exact Nat.mod_lt _ (by decide)

/-! ### The marks around the digits -/

theorem dropWhile_of_none {p : Char → Bool} {l : List Char} (h : ∀ c ∈ l, p c = false) :
    l.dropWhile p = l := by
  rw [List.dropWhile_eq_self_iff]
  intro hl
  have hfirst : p l[0] = false := h _ (List.getElem_mem hl)
  simp [hfirst]

theorem rdropWhile_of_none {p : Char → Bool} {l : List Char} (h : ∀ c ∈ l, p c = false) :
    l.rdropWhile p = l := by
  rw [List.rdropWhile_eq_self_iff]
  intro hl
  simp [h _ (List.getLast_mem hl)]

theorem withoutCopies_of_not_mem {c : Char} {cs : List Char} : ∀ {l : List Char}, c ∉ l →
    withoutCopies (c :: cs) 0 l = l
  | [], _ => rfl
  | d :: l, h => by
    have hcd : c ≠ d := fun hcd => h (hcd ▸ List.mem_cons_self)
    have hl : c ∉ l := fun hl => h (List.mem_cons_of_mem _ hl)
    have hprefix : (c :: cs).isPrefixOf (d :: l) = false := by simp [List.isPrefixOf, hcd]
    rw [withoutCopies, hprefix, if_neg Bool.false_ne_true, withoutCopies_of_not_mem hl]

/-- Digits without a sign, a blank or a `0x` are read as they stand. -/
theorem intHex_of_plain {l : List Char} (hspace : ∀ c ∈ l, isSpace c = false) (hplus : '+' ∉ l)
    (hx : 'x' ∉ l) (hX : 'X' ∉ l) : intHex l = hexDigits false 0 l := by
  have hblank : ∀ c ∈ l, isIntSpace c = false := fun c hc => by rw [isIntSpace, hspace c hc]; rfl
  have hstrip : (l.dropWhile isIntSpace).rdropWhile isIntSpace = l := by
    rw [dropWhile_of_none hblank, rdropWhile_of_none hblank]
  have hzero : ∀ zero c cs, l = zero :: c :: cs → ¬ (c = 'x' ∨ c = 'X') := by
    rintro zero c cs rfl (rfl | rfl)
    · exact hx (by simp)
    · exact hX (by simp)
  unfold intHex
  extract_lets unsigned
  have hunsigned : unsigned = l := by
    simp only [unsigned, hstrip]
    split
    · exact absurd List.mem_cons_self hplus
    · rfl
  rw [hunsigned]
  split
  · exact if_neg fun h => hzero _ _ _ rfl h.2
  · rfl

/-! ### The text -/

theorem not_mem_hexText {id : Uuid} {mark : Char}
    (hmark : mark ∈ ['_', '-', '+', '{', '}', 'u', 'x', 'X']) : mark ∉ hexText id := by
  intro h
  obtain ⟨d, hd, rfl⟩ := mem_hexText h
  exact digitChar_not_mark d hd hmark

theorem isSpace_of_mem_hexText {id : Uuid} {c : Char} (h : c ∈ hexText id) : isSpace c = false := by
  obtain ⟨d, hd, rfl⟩ := mem_hexText h
  exact digitChar_not_space d hd

theorem toList_uuidText (id : Uuid) : (uuidText id).toList =
    (hexText id).take 8 ++ '-' :: (((hexText id).drop 8).take 4) ++
      '-' :: (((hexText id).drop 12).take 4) ++ '-' :: (((hexText id).drop 16).take 4) ++
      '-' :: (hexText id).drop 20 :=
  String.toList_ofList

/-- The text holds the digits and dashes only. -/
theorem mem_uuidText {id : Uuid} {c : Char} (h : c ∈ (uuidText id).toList) :
    c ∈ hexText id ∨ c = '-' := by
  simp only [toList_uuidText, List.mem_append, List.mem_cons] at h
  rcases h with (((h | rfl | h) | rfl | h) | rfl | h) | rfl | h
  · exact .inl (List.mem_of_mem_take h)
  · exact .inr rfl
  · exact .inl (List.mem_of_mem_drop (List.mem_of_mem_take h))
  · exact .inr rfl
  · exact .inl (List.mem_of_mem_drop (List.mem_of_mem_take h))
  · exact .inr rfl
  · exact .inl (List.mem_of_mem_drop (List.mem_of_mem_take h))
  · exact .inr rfl
  · exact .inl (List.mem_of_mem_drop h)

/-- Without the dashes it is the digits. -/
theorem filter_uuidText (id : Uuid) :
    (uuidText id).toList.filter (fun c => c ≠ '-') = hexText id := by
  have hdash : ∀ l : List Char, ('-' :: l).filter (fun c => c ≠ '-') = l.filter fun c => c ≠ '-' :=
    fun l => List.filter_cons_of_neg (by simp)
  have hdigits : ∀ l : List Char, (∀ c ∈ l, c ∈ hexText id) → l.filter (fun c => c ≠ '-') = l := by
    intro l hl
    rw [List.filter_eq_self]
    intro c hc
    have hne : c ≠ '-' := by
      rintro rfl
      exact not_mem_hexText (by decide) (hl _ hc)
    simp [hne]
  have hmiddle : ∀ n m, (((hexText id).drop n).take m).filter (fun c => c ≠ '-') =
      ((hexText id).drop n).take m := fun n m =>
    hdigits _ fun c hc => List.mem_of_mem_drop (List.mem_of_mem_take hc)
  have hjoin : ∀ n m, ((hexText id).drop n).take m ++ (hexText id).drop (n + m) =
      (hexText id).drop n := by
    intro n m
    rw [← List.drop_drop, List.take_append_drop]
  rw [toList_uuidText, List.filter_append, List.filter_append, List.filter_append,
    List.filter_append, hdash, hdash, hdash, hdash, hdigits _ fun c hc => List.mem_of_mem_take hc,
    hmiddle, hmiddle, hmiddle, hdigits _ fun c hc => List.mem_of_mem_drop hc]
  rw [List.append_assoc, hjoin 16 4, List.append_assoc, hjoin 12 4, List.append_assoc, hjoin 8 4,
    List.take_append_drop]

/-- **A UUID is read back** from its text. -/
theorem uuidOf_uuidText {id : Uuid} (h : id < 16 ^ 32) : uuidOf (uuidText id) = some id := by
  have hu : 'u' ∉ (uuidText id).toList := by
    intro hc
    rcases mem_uuidText hc with hc | hc
    · exact not_mem_hexText (by decide) hc
    · cases hc
  have hbrace : ∀ c ∈ (uuidText id).toList, (decide (c = '{') || decide (c = '}')) = false := by
    intro c hc
    rcases mem_uuidText hc with hc | rfl
    · have hopen : c ≠ '{' := fun h => not_mem_hexText (by decide) (h ▸ hc)
      have hclose : c ≠ '}' := fun h => not_mem_hexText (by decide) (h ▸ hc)
      simp [hopen, hclose]
    · decide
  have hlength : (hexText id).length = 32 := by simp [hexText]
  unfold uuidOf
  dsimp only
  rw [show "urn:".toList = 'u' :: ['r', 'n', ':'] from rfl,
    show "uuid:".toList = 'u' :: ['u', 'i', 'd', ':'] from rfl, withoutCopies_of_not_mem hu,
    withoutCopies_of_not_mem hu, dropWhile_of_none hbrace, rdropWhile_of_none hbrace,
    filter_uuidText, if_pos hlength,
    intHex_of_plain (fun c => isSpace_of_mem_hexText) (not_mem_hexText (by decide))
      (not_mem_hexText (by decide)) (not_mem_hexText (by decide)), hexDigits_hexText h]

end DiddiFreeID
