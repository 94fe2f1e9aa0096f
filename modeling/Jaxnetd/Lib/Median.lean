import Mathlib

/-!
# The median of a list

The entry in the middle of the sorted list. If fewer than half of the entries are bad, there is a good entry on either side
of it.
-/

namespace Median
open List

variable {α β : Type} [LinearOrder β] (key : α → β) (default : α) (l : List α)

def sorted : List α := l.mergeSort fun x y => decide (key x ≤ key y)

def median : α := (sorted key l).getD (l.length / 2) default

theorem sorted_perm : (sorted key l).Perm l := mergeSort_perm ..

theorem sorted_pairwise : (sorted key l).Pairwise (key · ≤ key ·) := by
  refine (pairwise_mergeSort ?_ ?_ l).imp fun hab => of_decide_eq_true hab
  · intro a b c hab hbc
    exact decide_eq_true ((of_decide_eq_true hab).trans (of_decide_eq_true hbc))
  · intro a b
    simpa using le_total (key a) (key b)

variable {l}

theorem middle_lt (h : l ≠ []) : l.length / 2 < (sorted key l).length := by
  have := length_pos_iff.2 h
  rw [(sorted_perm key l).length_eq]
  omega

theorem median_eq (h : l ≠ []) : median key default l = (sorted key l).get ⟨l.length / 2, middle_lt key h⟩ :=
  getD_eq_getElem _ _ (middle_lt key h)

theorem median_mem (h : l ≠ []) : median key default l ∈ l := by
  rw [median_eq key default h]
  exact (sorted_perm key l).mem_iff.1 (get_mem _ _)

variable {good : α → Prop} [DecidablePred good]

theorem exists_mem_of_countP_lt (h : l.countP (fun a => ¬good a) < l.length) : ∃ a ∈ l, good a := by
  by_contra hno
  rw [not_exists] at hno
  refine absurd (countP_eq_length.2 fun a ha => ?_) h.ne
  exact decide_eq_true fun hgood => hno a ⟨ha, hgood⟩

/-- Fewer than half of the entries cannot move the median past all others. -/
theorem median_between (h : 2 * l.countP (fun a => ¬good a) < l.length) :
    ∃ a b, good a ∧ good b ∧ key a ≤ key (median key default l) ∧ key (median key default l) ≤ key b := by
  have hne : l ≠ [] := by
    rintro rfl
    simp at h
  rw [median_eq key default hne]
  have hsorted := pairwise_iff_getElem.1 (sorted_pairwise key l)
  have hlen := (sorted_perm key l).length_eq
  have hbad : ∀ t : List α, t.Sublist (sorted key l) → 2 * t.countP (fun a => ¬good a) < l.length := by
    intro t ht
    have := ht.countP_le (p := fun a => ¬good a)
    rw [(sorted_perm key l).countP_eq] at this
    omega
  -- the entries up to the middle one, and those from it on, are each at least half of all
  obtain ⟨a, ha, hgood⟩ : ∃ a ∈ (sorted key l).take (l.length / 2 + 1), good a := exists_mem_of_countP_lt (by
    have := hbad _ (take_sublist (l.length / 2 + 1) (sorted key l))
    rw [length_take]
    omega)
  obtain ⟨b, hb, hgood'⟩ : ∃ b ∈ (sorted key l).drop (l.length / 2), good b := exists_mem_of_countP_lt (by
    have := hbad _ (drop_sublist (l.length / 2) (sorted key l))
    rw [length_drop]
    omega)
  obtain ⟨i, hi, rfl⟩ := getElem_of_mem ha
  obtain ⟨j, hj, rfl⟩ := getElem_of_mem hb
  rw [length_take] at hi
  refine ⟨_, _, hgood, hgood', ?_, ?_⟩
  · rw [getElem_take]
    rcases Nat.lt_or_ge i (l.length / 2) with hlt' | hge
    · exact hsorted _ _ _ _ hlt'
    · obtain rfl : i = l.length / 2 := by omega
      exact le_rfl
  · rw [getElem_drop]
    rcases Nat.eq_zero_or_pos j with rfl | hpos
    · exact le_rfl
    · exact hsorted _ _ _ _ (by omega)

end Median
