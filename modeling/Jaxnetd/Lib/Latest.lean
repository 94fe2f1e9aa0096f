import Mathlib

/-!
# The latest of its key

Records are appended to a list, and a later record replaces the earlier ones with its key: `Latest key l a` says that
`a` is in `l` and that none behind it has its key.
-/

def Latest {α κ : Type} (key : α → κ) (l : List α) (a : α) : Prop :=
  ∃ front back, l = front ++ a :: back ∧ ∀ b ∈ back, key b ≠ key a

namespace Latest
open List
variable {α κ : Type} {key : α → κ} {l : List α} {a x : α}

theorem mem (h : Latest key l a) : a ∈ l := by
  obtain ⟨front, back, rfl, -⟩ := h
  simp

theorem not_nil : ¬Latest key [] a := by
  rintro ⟨front, back, h, -⟩
  simp at h

theorem cons_iff : Latest key (x :: l) a ↔ (x = a ∧ ∀ b ∈ l, key b ≠ key a) ∨ Latest key l a := by
  constructor
  · rintro ⟨front, back, h, hback⟩
    cases front with
    | nil =>
      obtain ⟨rfl, rfl⟩ := h
      exact Or.inl ⟨rfl, hback⟩
    | cons y front =>
      rw [cons_append, cons.injEq] at h
      exact Or.inr ⟨front, back, h.2, hback⟩
  · rintro (⟨rfl, hl⟩ | ⟨front, back, rfl, hback⟩)
    · exact ⟨[], l, rfl, hl⟩
    · exact ⟨x :: front, back, rfl, hback⟩

theorem concat_iff : Latest key (l ++ [x]) a ↔ a = x ∨ (Latest key l a ∧ key a ≠ key x) := by
  induction l with
  | nil => simp [cons_iff, not_nil, eq_comm]
  | cons y l ih =>
    rw [cons_append, cons_iff, cons_iff, ih]
    constructor
    · rintro (⟨rfl, hl⟩ | rfl | ⟨hlatest, hne⟩)
      · refine Or.inr ⟨Or.inl ⟨rfl, fun b hb => hl b (mem_append_left _ hb)⟩, ?_⟩
        exact (hl x (by simp)).symm
      · exact Or.inl rfl
      · exact Or.inr ⟨Or.inr hlatest, hne⟩
    · rintro (rfl | ⟨⟨rfl, hl⟩ | hlatest, hne⟩)
      · exact Or.inr (Or.inl rfl)
      · refine Or.inl ⟨rfl, fun b hb => ?_⟩
        rcases mem_append.1 hb with hb | hb
        · exact hl b hb
        · rw [mem_singleton.1 hb]
          exact hne.symm
      · exact Or.inr (Or.inr ⟨hlatest, hne⟩)

theorem filter_iff {p : α → Bool} (hp : ∀ a b, key a = key b → p a = p b) :
    Latest key (l.filter p) a ↔ Latest key l a ∧ p a = true := by
  induction l with
  | nil => simp [not_nil]
  | cons x l ih =>
    rw [cons_iff]
    by_cases hx : p x = true
    · rw [filter_cons_of_pos hx, cons_iff, ih]
      constructor
      · rintro (⟨rfl, hl⟩ | ⟨hlatest, ha⟩)
        · refine ⟨Or.inl ⟨rfl, fun b hb heq => ?_⟩, hx⟩
          exact hl b (mem_filter.2 ⟨hb, (hp b x heq).trans hx⟩) heq
        · exact ⟨Or.inr hlatest, ha⟩
      · rintro ⟨⟨rfl, hl⟩ | hlatest, ha⟩
        · exact Or.inl ⟨rfl, fun b hb => hl b (mem_filter.1 hb).1⟩
        · exact Or.inr ⟨hlatest, ha⟩
    · rw [filter_cons_of_neg hx, ih]
      constructor
      · rintro ⟨hlatest, ha⟩
        exact ⟨Or.inr hlatest, ha⟩
      · rintro ⟨⟨rfl, -⟩ | hlatest, ha⟩
        · exact absurd ha hx
        · exact ⟨hlatest, ha⟩

end Latest
