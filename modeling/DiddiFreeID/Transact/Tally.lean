/-
# Counting requests

How many of finitely many requests are in a phase of some kind, and how a
step of one of them changes that number.

Key definition: `tally`.
-/
import Mathlib.Algebra.BigOperators.Fin
import Mathlib.Data.Fintype.BigOperators

namespace Transact

variable {ι : Type} [Fintype ι]

/-- How many requests there are with `P`. -/
def tally (P : ι → Bool) : ℕ := (Finset.univ.filter fun i => P i = true).card

theorem tally_eq_sum (P : ι → Bool) : tally P = ∑ i, (P i).toNat := by
  unfold tally
  rw [Finset.card_filter]
  refine Finset.sum_congr rfl fun i _ => ?_
  cases P i <;> rfl

/-- Where only request `i` changes, the number changes by what `i` does. -/
theorem tally_change {P Q : ι → Bool} (i : ι) (h : ∀ j, j ≠ i → Q j = P j) :
    tally Q + (P i).toNat = tally P + (Q i).toNat := by
  classical
  have hrest : ∑ j ∈ Finset.univ.erase i, (Q j).toNat =
      ∑ j ∈ Finset.univ.erase i, (P j).toNat :=
    Finset.sum_congr rfl fun j hj => by rw [h j (Finset.ne_of_mem_erase hj)]
  rw [tally_eq_sum, tally_eq_sum, ← Finset.add_sum_erase _ _ (Finset.mem_univ i),
    ← Finset.add_sum_erase (f := fun j => (P j).toNat) _ (Finset.mem_univ i), hrest]
  omega

/-- A request is of one of two kinds, or of neither. -/
theorem tally_add {P Q T : ι → Bool} (h : ∀ i, (T i).toNat = (P i).toNat + (Q i).toNat) :
    tally T = tally P + tally Q := by
  rw [tally_eq_sum, tally_eq_sum, tally_eq_sum, ← Finset.sum_add_distrib]
  exact Finset.sum_congr rfl fun i _ => h i

theorem tally_mono {P Q : ι → Bool} (h : ∀ i, P i = true → Q i = true) : tally P ≤ tally Q :=
  Finset.card_le_card fun i hi => by
    rw [Finset.mem_filter] at hi ⊢
    exact ⟨hi.1, h i hi.2⟩

/-- Fewer, where some request makes the difference. -/
theorem tally_lt {P Q : ι → Bool} (h : ∀ i, P i = true → Q i = true) {i : ι} (hP : P i = false)
    (hQ : Q i = true) : tally P < tally Q :=
  Finset.card_lt_card ⟨fun i hi => by
      rw [Finset.mem_filter] at hi ⊢
      exact ⟨hi.1, h i hi.2⟩,
    fun hsub => by
      have hi := hsub (Finset.mem_filter.mpr ⟨Finset.mem_univ i, hQ⟩)
      rw [Finset.mem_filter, hP] at hi
      exact absurd hi.2 (by decide)⟩

end Transact
