/-
# Since

`Since P Q l`: somewhere in the list `l` of what happened there is an entry
with `P`, and none after it has `Q`. Both are judged on the entries before.
By its recursion at the end of the list (`since_snoc`) it is an invariant
over runs: an entry with `P` sets it, one with `Q` clears it.

Key definition: `Since`.
Key theorem: `since_snoc`.
-/
import Mathlib.Tactic.Common

namespace Transact

variable {α : Type} (P Q : List α → α → Prop)

/-- An entry with `P` has been there, and none with `Q` since. -/
def Since (l : List α) : Prop :=
  ∃ before a after, l = before ++ a :: after ∧ P before a ∧
    ∀ mid b rest, after = mid ++ b :: rest → ¬Q (before ++ a :: mid) b

variable {P Q}

theorem not_since_nil : ¬Since P Q [] := by
  rintro ⟨before, a, after, h, -⟩
  simp at h

theorem since_snoc {l : List α} {b : α} :
    Since P Q (l ++ [b]) ↔ P l b ∨ (Since P Q l ∧ ¬Q l b) := by
  constructor
  · rintro ⟨before, a, after, h, hP, hQ⟩
    rcases List.eq_nil_or_concat after with rfl | ⟨after', b', rfl⟩
    · obtain ⟨rfl, hb⟩ := List.append_inj' h rfl
      rw [List.singleton_inj.mp hb]
      exact .inl hP
    · rw [List.concat_eq_append, ← List.cons_append, ← List.append_assoc] at h
      obtain ⟨rfl, hb⟩ := List.append_inj' h rfl
      obtain rfl := List.singleton_inj.mp hb
      refine .inr ⟨⟨before, a, after', rfl, hP, fun mid c rest hc => ?_⟩, ?_⟩
      · exact hQ mid c (rest ++ [b]) (by simp [hc])
      · exact hQ after' b [] (by simp)
  · rintro (hP | ⟨⟨before, a, after, rfl, hP, hQ⟩, hb⟩)
    · exact ⟨l, b, [], rfl, hP, fun mid c rest hc => by simp at hc⟩
    · refine ⟨before, a, after ++ [b], by simp, hP, fun mid c rest hc => ?_⟩
      rcases List.eq_nil_or_concat rest with rfl | ⟨rest', c', rfl⟩
      · obtain ⟨rfl, hc'⟩ := List.append_inj' hc rfl
        rw [← List.singleton_inj.mp hc']
        exact hb
      · rw [List.concat_eq_append, ← List.cons_append, ← List.append_assoc] at hc
        exact hQ mid c rest' (List.append_inj' hc rfl).1

end Transact
