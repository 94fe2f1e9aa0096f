import Mathlib

/-!
# Runs

A run is a list of calls; what holds before each call is stated for every prefix of the list. On a
concrete list the prefixes are those of `List.inits`.
-/

namespace Runs
open List
variable {α : Type}

theorem mem_of_concat_prefix {pre calls : List α} {a : α} (h : pre ++ [a] <+: calls) :
    pre ∈ calls.inits ∧ a ∈ calls[pre.length]? := by
  refine ⟨(mem_inits _ _).2 ((prefix_append _ _).trans h), ?_⟩
  obtain ⟨rest, rfl⟩ := h
  simp

theorem concat_eq_append_cons {l p q : List α} {a x : α} (h : l ++ [a] = p ++ x :: q) :
    (p = l ∧ x = a) ∨ ∃ q', l = p ++ x :: q' := by
  rcases eq_nil_or_concat q with rfl | ⟨q', y, rfl⟩
  · obtain ⟨rfl, hx⟩ := append_inj' h rfl
    exact Or.inl ⟨rfl, (singleton_inj.1 hx).symm⟩
  · have h' : l ++ [a] = (p ++ x :: q') ++ [y] := by simpa using h
    exact Or.inr ⟨q', (append_inj' h' rfl).1⟩

section
variable {σ : Type} {step : σ → α → σ} {s : σ} {calls : List α}

/-- Every call of a run is made in a state in which `P` holds of it. -/
def Along (step : σ → α → σ) (P : σ → α → Prop) : σ → List α → Prop
  | _, [] => True
  | s, call :: calls => P s call ∧ Along step P (step s call) calls

instance decAlong {P : σ → α → Prop} [∀ s call, Decidable (P s call)] :
    (s : σ) → (calls : List α) → Decidable (Along step P s calls)
  | _, [] => .isTrue trivial
  | s, call :: calls => @instDecidableAnd _ _ _ (decAlong (step s call) calls)

/-- Two properties of a call that agree where an invariant holds, and of which the first keeps it. -/
theorem along_congr {I : σ → Prop} {P Q R : σ → α → Prop} (hiff : ∀ s call, I s → R s call → (P s call ↔ Q s call))
    (hinv : ∀ s call, I s → P s call → I (step s call)) (h : I s) (hrun : Along step R s calls) :
    Along step P s calls ↔ Along step Q s calls := by
  induction calls generalizing s with
  | nil => exact Iff.rfl
  | cons call calls ih =>
    calc P s call ∧ Along step P (step s call) calls
      _ ↔ P s call ∧ Along step Q (step s call) calls := and_congr_right fun hP => ih (hinv s call h hP) hrun.2
      _ ↔ Q s call ∧ Along step Q (step s call) calls := and_congr_left' (hiff s call h hrun.1)

end

end Runs
