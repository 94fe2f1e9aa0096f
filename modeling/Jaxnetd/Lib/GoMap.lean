import Mathlib

/-!
# Finite maps

`GoMap K V` is a partial function with finitely many keys: reading a missing key gives `none`,
`set` overwrites and `delete` removes. A loop over the entries of one map that puts into or deletes from
a second map at the same key is `overlay`, so no iteration order shows.
-/

namespace GoMap

def keySet {K V : Type} (f : K → Option V) : Set K := {k | (f k).isSome}

end GoMap

/-- A partial function with finitely many keys. -/
structure GoMap (K V : Type) where
  get : K → Option V
  finite : (GoMap.keySet get).Finite

namespace GoMap
variable {K V W : Type}

@[ext] theorem ext {m m' : GoMap K V} (h : ∀ k, m.get k = m'.get k) : m = m' := by
  cases m; cases m'
  congr 1
  exact funext h

def empty : GoMap K V := ⟨fun _ => none, by simp [keySet]⟩

@[simp] theorem get_empty (k : K) : (empty : GoMap K V).get k = none := rfl

variable (m : GoMap K V) (patch : GoMap K W) (change : W → Option (Option V))

/-- Apply to `m` the changes that the entries of `patch` ask for: nothing, a removal or a new value. -/
def overlay : GoMap K V where
  get k := ((patch.get k).bind change).getD (m.get k)
  finite := by
    refine (m.finite.union patch.finite).subset fun k h => ?_
    rcases hp : patch.get k with _ | w
    · exact Or.inl (by simpa [keySet, hp] using h)
    · exact Or.inr (by simp [keySet, hp])

theorem get_overlay (k : K) : (m.overlay patch change).get k = ((patch.get k).bind change).getD (m.get k) := rfl

variable [DecidableEq K] (m : GoMap K V) (k : K)

def set (v : V) : GoMap K V where
  get k' := if k' = k then some v else m.get k'
  finite := by
    refine (m.finite.insert k).subset fun k' h => ?_
    by_cases hk : k' = k
    · exact Or.inl hk
    · exact Or.inr (by simpa [keySet, hk] using h)

def delete : GoMap K V where
  get k' := if k' = k then none else m.get k'
  finite := by
    refine m.finite.subset fun k' h => ?_
    by_cases hk : k' = k <;> simp_all [keySet]

theorem get_set (k k' : K) (v : V) : (m.set k v).get k' = if k' = k then some v else m.get k' := rfl

@[simp] theorem get_set_self (v : V) : (m.set k v).get k = some v := by
  simp [get_set]

@[simp] theorem get_set_ne {k k' : K} (v : V) (h : k' ≠ k) : (m.set k v).get k' = m.get k' := by
  simp [get_set, h]

theorem get_set_cases {m : GoMap K V} {k k' : K} {v v' : V} (h : (m.set k v).get k' = some v') :
    k' = k ∧ v' = v ∨ m.get k' = some v' := by
  rw [get_set] at h
  split at h
  · next heq => exact .inl ⟨heq, (Option.some.inj h).symm⟩
  · exact .inr h

theorem isSome_set {m : GoMap K V} {k' : K} (k : K) (v : V) (h : (m.get k').isSome) : ((m.set k v).get k').isSome := by
  rw [get_set]
  split
  · rfl
  · exact h

theorem get_delete (k k' : K) : (m.delete k).get k' = if k' = k then none else m.get k' := rfl

@[simp] theorem get_delete_self : (m.delete k).get k = none := by
  simp [get_delete]

@[simp] theorem get_delete_ne {k k' : K} (h : k' ≠ k) : (m.delete k).get k' = m.get k' := by
  simp [get_delete, h]

end GoMap
