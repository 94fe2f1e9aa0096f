import Jaxnetd.Lib.GoMap

/-!
# Ledgers

A ledger is a finite map whose values carry an amount. A transfer takes some keys off it and then puts new values. Two facts
are kept: what a transfer does to the total amount (`total_apply_le`), and that a key taken off never comes back, if every
transfer puts only keys never used (`Lineage`).
-/

namespace Ledger
open List GoMap
variable {K V : Type} {m : GoMap K V} {f : V → Int} {k : K}

def weight (f : V → Int) (m : GoMap K V) (k : K) : Int := ((m.get k).map f).getD 0

noncomputable def total (f : V → Int) (m : GoMap K V) : Int := ∑ᶠ k, weight f m k

def Nonneg (f : V → Int) (m : GoMap K V) : Prop := ∀ k v, m.get k = some v → 0 ≤ f v

theorem weight_of_get {v : V} (h : m.get k = some v) : weight f m k = f v := by
  simp [weight, h]

theorem weight_nonneg (h : Nonneg f m) (k : K) : 0 ≤ weight f m k := by
  unfold weight
  rcases hk : m.get k with _ | v
  · simp
  · simpa using h k v hk

theorem finite_support_weight (f : V → Int) (m : GoMap K V) : (Function.support (weight f m)).Finite := by
  refine m.finite.subset fun k hk => ?_
  rcases h : m.get k with _ | v
  · exact absurd (by simp [weight, h]) hk
  · simp [keySet, h]

@[simp] theorem total_empty (f : V → Int) : total f (empty : GoMap K V) = 0 := by
  simp [total, weight]

theorem Nonneg.empty (f : V → Int) : Nonneg f (empty : GoMap K V) := by
  intro k v h
  cases h

variable [DecidableEq K] {kvs : List (K × V)}

theorem total_of_agree (f : V → Int) {m' : GoMap K V} (h : ∀ k', k' ≠ k → m'.get k' = m.get k') :
    total f m' = total f m - weight f m k + weight f m' k := by
  let change : K → Int := Pi.single k (weight f m' k - weight f m k)
  have hsplit : ∀ k', weight f m' k' = weight f m k' + change k' := by
    intro k'
    by_cases hk : k' = k
    · subst hk
      simp [change]
    · simp [change, weight, h k' hk, Pi.single_eq_of_ne hk]
  have hchange : ∑ᶠ k', change k' = weight f m' k - weight f m k := by
    rw [finsum_eq_single _ k fun k' hk' => Pi.single_eq_of_ne hk' _]
    simp [change]
  have hfin : (Function.support change).Finite := (Set.finite_singleton k).subset Pi.support_single_subset
  unfold total
  rw [finsum_congr hsplit, finsum_add_distrib (finite_support_weight f m) hfin, hchange]
  ring

theorem total_set (f : V → Int) (m : GoMap K V) (k : K) (v : V) :
    total f (m.set k v) = total f m - weight f m k + f v := by
  rw [total_of_agree f fun k' hk' => get_set_ne m v hk', weight_of_get (get_set_self m k v)]

theorem total_delete (f : V → Int) (m : GoMap K V) (k : K) : total f (m.delete k) = total f m - weight f m k := by
  rw [total_of_agree f fun k' hk' => get_delete_ne m hk']
  simp [weight]

theorem sum_weight_le_total (hm : Nonneg f m) {ks : List K} (hks : ks.Nodup) :
    (ks.map (weight f m)).sum ≤ total f m := by
  have hsub : ∀ k ∉ ks.toFinset ∪ (finite_support_weight f m).toFinset, weight f m k = 0 := by
    intro k hk
    by_contra hne
    exact hk (Finset.mem_union_right _ ((Set.Finite.mem_toFinset _).2 hne))
  have htotal : total f m = ∑ k ∈ ks.toFinset ∪ (finite_support_weight f m).toFinset, weight f m k := by
    refine finsum_eq_sum_of_support_subset _ fun k hk => ?_
    by_contra hmem
    exact hk (hsub k (by simpa using hmem))
  rw [htotal, ← sum_toFinset _ hks]
  exact Finset.sum_le_sum_of_subset_of_nonneg Finset.subset_union_left fun k _ _ => weight_nonneg hm k

/-! ## Transfers -/

/-- The keys taken off a ledger, and what is put on it then. -/
structure Transfer (K V : Type) where
  spent : List K
  created : List (K × V)

def deleteAll (m : GoMap K V) (ks : List K) : GoMap K V := ks.foldl delete m

def setAll (m : GoMap K V) (kvs : List (K × V)) : GoMap K V := kvs.foldl (fun m p => m.set p.1 p.2) m

def Transfer.apply (t : Transfer K V) (m : GoMap K V) : GoMap K V := setAll (deleteAll m t.spent) t.created

theorem get_deleteAll (ks : List K) (m : GoMap K V) (k : K) :
    (deleteAll m ks).get k = if k ∈ ks then none else m.get k := by
  induction ks generalizing m with
  | nil => simp [deleteAll]
  | cons k' ks ih =>
    change (deleteAll (m.delete k') ks).get k = _
    rw [ih, get_delete]
    by_cases h : k = k' <;> simp [h]

theorem get_setAll_of_notMem (h : k ∉ kvs.map Prod.fst) : (setAll m kvs).get k = m.get k := by
  induction kvs generalizing m with
  | nil => rfl
  | cons p kvs ih =>
    rw [map_cons, mem_cons, not_or] at h
    change (setAll (m.set p.1 p.2) kvs).get k = _
    rw [ih h.2, get_set_ne _ _ h.1]

theorem get_setAll_of_mem {v : V}
    (hnodup : (kvs.map Prod.fst).Nodup) (h : (k, v) ∈ kvs) : (setAll m kvs).get k = some v := by
  induction kvs generalizing m with
  | nil => simp at h
  | cons p kvs ih =>
    rw [map_cons, nodup_cons] at hnodup
    change (setAll (m.set p.1 p.2) kvs).get k = _
    rcases mem_cons.1 h with rfl | h
    · rw [get_setAll_of_notMem hnodup.1, get_set_self]
    · exact ih hnodup.2 h

theorem isSome_get_setAll (h : ((setAll m kvs).get k).isSome) : k ∈ kvs.map Prod.fst ∨ (m.get k).isSome := by
  by_cases hk : k ∈ kvs.map Prod.fst
  · exact Or.inl hk
  · exact Or.inr (by rwa [get_setAll_of_notMem hk] at h)

theorem Nonneg.set (hm : Nonneg f m) {v : V} (hv : 0 ≤ f v) : Nonneg f (m.set k v) := by
  intro k' v' h
  by_cases hk : k' = k
  · subst hk
    rw [get_set_self, Option.some.injEq] at h
    exact h ▸ hv
  · exact hm k' v' (by rwa [get_set_ne _ _ hk] at h)

theorem Nonneg.deleteAll (hm : Nonneg f m) (ks : List K) : Nonneg f (deleteAll m ks) := by
  intro k v h
  rw [get_deleteAll] at h
  split at h
  · cases h
  · exact hm k v h

theorem Nonneg.setAll (hkvs : ∀ p ∈ kvs, 0 ≤ f p.2) (hm : Nonneg f m) : Nonneg f (setAll m kvs) := by
  induction kvs generalizing m with
  | nil => exact hm
  | cons p kvs ih =>
    rw [forall_mem_cons] at hkvs
    exact ih hkvs.2 (hm.set hkvs.1)

variable {t : Transfer K V}

theorem Nonneg.apply (hm : Nonneg f m) (ht : ∀ p ∈ t.created, 0 ≤ f p.2) : Nonneg f (t.apply m) :=
  (hm.deleteAll t.spent).setAll ht

theorem total_deleteAll (f : V → Int) {ks : List K} (hks : ks.Nodup) (m : GoMap K V) :
    total f (deleteAll m ks) = total f m - (ks.map (weight f m)).sum := by
  induction ks generalizing m with
  | nil => simp [deleteAll]
  | cons k ks ih =>
    rw [nodup_cons] at hks
    have hrest : ks.map (weight f (m.delete k)) = ks.map (weight f m) := by
      refine map_congr_left fun k' hk' => ?_
      have hne : k' ≠ k := fun h => hks.1 (h ▸ hk')
      simp [weight, hne]
    change total f (deleteAll (m.delete k) ks) = _
    rw [ih hks.2, hrest, total_delete, map_cons, sum_cons]
    ring

theorem total_setAll_le (hkvs : ∀ p ∈ kvs, 0 ≤ f p.2)
    (hm : Nonneg f m) : total f (setAll m kvs) ≤ total f m + (kvs.map fun p => f p.2).sum := by
  induction kvs generalizing m with
  | nil => simp [setAll]
  | cons p kvs ih =>
    rw [forall_mem_cons] at hkvs
    have hrest := ih hkvs.2 (hm.set (k := p.1) hkvs.1)
    have hlost := weight_nonneg hm p.1
    change total f (setAll (m.set p.1 p.2) kvs) ≤ _
    rw [total_set] at hrest
    rw [map_cons, sum_cons]
    linarith

theorem total_apply_le (hm : Nonneg f m) (hspent : t.spent.Nodup) (hcreated : ∀ p ∈ t.created, 0 ≤ f p.2) :
    total f (t.apply m) ≤ total f m - (t.spent.map (weight f m)).sum + (t.created.map fun p => f p.2).sum := by
  rw [← total_deleteAll f hspent]
  exact total_setAll_le hcreated (hm.deleteAll t.spent)

/-! ## Used keys -/

/-- The keys on the ledger are among those put on it and not taken off it. -/
structure Lineage (m : GoMap K V) (created spent : Set K) : Prop where
  live_created : ∀ k, (m.get k).isSome → k ∈ created
  live_unspent : ∀ k, (m.get k).isSome → k ∉ spent
  spent_created : spent ⊆ created

omit [DecidableEq K] in
theorem Lineage.start (m : GoMap K V) : Lineage m {k | (m.get k).isSome} ∅ := by
  constructor <;> simp

theorem Lineage.apply {created spent : Set K} (hm : Lineage m created spent)
    (hspent : ∀ k ∈ t.spent, (m.get k).isSome) (hfresh : ∀ k ∈ t.created.map Prod.fst, k ∉ created) :
    Lineage (t.apply m) (created ∪ {k | k ∈ t.created.map Prod.fst}) (spent ∪ {k | k ∈ t.spent}) := by
  have hlive : ∀ k, ((t.apply m).get k).isSome → k ∈ t.created.map Prod.fst ∨ (m.get k).isSome ∧ k ∉ t.spent := by
    intro k hk
    rcases isSome_get_setAll hk with h | h
    · exact Or.inl h
    · rw [get_deleteAll] at h
      split at h
      · cases h
      · exact Or.inr ⟨h, ‹_›⟩
  constructor
  · intro k hk
    rcases hlive k hk with h | h
    · exact Or.inr h
    · exact Or.inl (hm.live_created k h.1)
  · rintro k hk (hs | hs)
    · rcases hlive k hk with h | h
      · exact hfresh k h (hm.spent_created hs)
      · exact hm.live_unspent k h.1 hs
    · rcases hlive k hk with h | h
      · exact hfresh k h (hm.live_created k (hspent k hs))
      · exact h.2 hs
  · rintro k (hs | hs)
    · exact Or.inl (hm.spent_created hs)
    · exact Or.inl (hm.live_created k (hspent k hs))

end Ledger
