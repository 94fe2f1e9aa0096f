import Mathlib

/-!
# Binary trees over numbered slots

A `SlotTree` of height `e` splits the slots `0 .. 2^e - 1` by their bits, most significant first; a
leaf may stand above the lowest level and then covers a whole range of slots. A Merkle path names
the siblings from a slot upwards, so its root is compared with the tree's from the last sibling on:
under an injective pairing the path can only end below the leaf that covers the slot
(`leafAt_of_pathRoot`).
-/

inductive SlotTree (α : Type) where
  | leaf (a : α)
  | node (l r : SlotTree α)
deriving DecidableEq

namespace SlotTree
open List
variable {α β : Type} {t : SlotTree Nat × Nat × Nat} {bit : Nat → Bool} {pos e idx : Nat}

def depth : SlotTree α → Nat
  | leaf _ => 0
  | node l r => max l.depth r.depth + 1

def leafAt : Nat → SlotTree α → Nat → α
  | _, leaf a, _ => a
  | e, node l r, pos => if pos / 2 ^ (e - 1) % 2 = 0 then leafAt (e - 1) l pos else leafAt (e - 1) r pos

def root (pair : β → β → β) (f : α → β) : SlotTree α → β
  | leaf a => f a
  | node l r => pair (l.root pair f) (r.root pair f)

/-- The root that a path of siblings gives for a value at a slot, from the slot upwards. -/
def pathRoot (pair : β → β → β) : Nat → List β → β → β
  | _, [], x => x
  | pos, q :: path, x => pathRoot pair (pos / 2) path (if pos % 2 = 0 then pair x q else pair q x)

/-- Reading a tree of height at most `e` in preorder from a bit string: `1` is a node, `0` a leaf. Leaves
are numbered as they are read. -/
def readTree (bit : Nat → Bool) : Nat → Nat → Nat → Option (SlotTree Nat × Nat × Nat)
  | 0, pos, idx => if bit pos then none else some (leaf idx, pos + 1, idx + 1)
  | e + 1, pos, idx =>
    if bit pos then do
      let (l, pos, idx) ← readTree bit e (pos + 1) idx
      let (r, pos, idx) ← readTree bit e pos idx
      return (node l r, pos, idx)
    else some (leaf idx, pos + 1, idx + 1)

theorem readTree_succ_node (hb : bit pos = true) (h : readTree bit (e + 1) pos idx = some t) :
    ∃ l pos' idx' r, readTree bit e (pos + 1) idx = some (l, pos', idx') ∧
      readTree bit e pos' idx' = some (r, t.2.1, t.2.2) ∧ t.1 = node l r := by
  rw [readTree, if_pos hb] at h
  cases hl : readTree bit e (pos + 1) idx with
  | none => simp [hl] at h
  | some tl =>
    obtain ⟨l, pos', idx'⟩ := tl
    cases hr : readTree bit e pos' idx' with
    | none => simp [hl, hr] at h
    | some tr =>
      obtain ⟨r, pos'', idx''⟩ := tr
      simp only [hl, hr, Option.bind_eq_bind, Option.bind_some, Option.pure_def, Option.some.injEq] at h
      subst h
      exact ⟨l, pos', idx', r, rfl, hr, rfl⟩

theorem readTree_induct {motive : Nat → Nat → Nat → SlotTree Nat → Nat → Nat → Prop}
    (leaf : ∀ e pos idx, bit pos = false → motive e pos idx (leaf idx) (pos + 1) (idx + 1))
    (node : ∀ e pos idx l pos₁ idx₁ r pos₂ idx₂, bit pos = true → motive e (pos + 1) idx l pos₁ idx₁ →
      motive e pos₁ idx₁ r pos₂ idx₂ → motive (e + 1) pos idx (node l r) pos₂ idx₂)
    (h : readTree bit e pos idx = some t) : motive e pos idx t.1 t.2.1 t.2.2 := by
  induction e generalizing pos idx t with
  | zero =>
    rw [readTree] at h
    split at h
    · cases h
    · next hb =>
      cases h
      exact leaf _ _ _ (Bool.not_eq_true _ ▸ hb)
  | succ e ih =>
    cases hb : bit pos with
    | false =>
      rw [readTree, hb] at h
      cases h
      exact leaf _ _ _ hb
    | true =>
      obtain ⟨l, pos', idx', r, hl, hr, ht⟩ := readTree_succ_node hb h
      rw [ht]
      exact node _ _ _ _ _ _ _ _ _ hb (ih hl) (ih hr)

theorem depth_readTree (h : readTree bit e pos idx = some t) : t.1.depth ≤ e := by
  refine readTree_induct (motive := fun e _ _ t _ _ => t.depth ≤ e) (fun e _ _ _ => Nat.zero_le e) ?_ h
  intro e _ _ l _ _ r _ _ _ hl hr
  rw [depth]
  omega

theorem pathRoot_concat (pair : β → β → β) (pos : Nat) (path : List β) (q x : β) : pathRoot pair pos (path ++ [q]) x =
      if pos / 2 ^ path.length % 2 = 0 then pair (pathRoot pair pos path x) q
      else pair q (pathRoot pair pos path x) := by
  induction path generalizing pos x with
  | nil => simp [pathRoot]
  | cons p path ih =>
    rw [cons_append, pathRoot, ih, length_cons, Nat.div_div_eq_div_mul, Nat.pow_succ, Nat.mul_comm]
    rfl

/-- A path to the root of a tree ends under a leaf that `P` holds of, when the other leaves are no pairs
and not the value at the slot. -/
theorem leafAt_of_pathRoot {pair : β → β → β} (hinj : ∀ a b c d, pair a b = pair c d → a = c ∧ b = d)
    {f : α → β} {x : β} {P : α → Prop}
    (hP : ∀ a, ¬ P a → f a ≠ x ∧ ∀ b c, pair b c ≠ f a) (T : SlotTree α) {path : List β}
    (hd : T.depth ≤ e) (hlen : path.length = e) (h : pathRoot pair pos path x = T.root pair f) :
    P (leafAt e T pos) := by
  induction T generalizing e path with
  | leaf a =>
    by_contra hna
    obtain ⟨hne, hpair⟩ := hP a hna
    rcases eq_nil_or_concat path with rfl | ⟨path, q, rfl⟩
    · exact hne h.symm
    · rw [concat_eq_append, pathRoot_concat] at h
      split at h
      · exact hpair _ _ h
      · exact hpair _ _ h
  | node l r ihl ihr =>
    rw [depth] at hd
    rcases eq_nil_or_concat path with rfl | ⟨path, q, rfl⟩
    · simp at hlen; omega
    · rw [concat_eq_append, length_append, length_singleton] at hlen
      have he : path.length = e - 1 := by omega
      rw [concat_eq_append, pathRoot_concat, he] at h
      rw [leafAt]
      by_cases hb : pos / 2 ^ (e - 1) % 2 = 0
      · rw [if_pos hb] at h ⊢
        exact ihl (by omega) he (hinj _ _ _ _ h).1
      · rw [if_neg hb] at h ⊢
        exact ihr (by omega) he (hinj _ _ _ _ h).2

def rootAt (pair : β → β → β) (f : Nat → α → β) : Nat → SlotTree α → β
  | e, leaf a => f e a
  | e, node l r => pair (l.rootAt pair f (e - 1)) (r.rootAt pair f (e - 1))

def full (pair : β → β → β) (x : β) : Nat → β
  | 0 => x
  | e + 1 => pair (full pair x e) (full pair x e)

theorem exists_path_full (pair : β → β → β) (x : β) (pos e : Nat) :
    ∃ path : List β, path.length = e ∧ pathRoot pair pos path x = full pair x e := by
  induction e with
  | zero => exact ⟨[], rfl, rfl⟩
  | succ e ih =>
    obtain ⟨path, hlen, hroot⟩ := ih
    refine ⟨path ++ [full pair x e], by simp [hlen], ?_⟩
    rw [pathRoot_concat, hroot, full, ite_self]

theorem exists_path (pair : β → β → β) (x : β) (f : Nat → α → β) (T : SlotTree α)
    (hd : T.depth ≤ e) (hf : ∀ e', f e' (leafAt e T pos) = full pair x e') :
    ∃ path : List β, path.length = e ∧ pathRoot pair pos path x = T.rootAt pair f e := by
  induction T generalizing e with
  | leaf a =>
    obtain ⟨path, hlen, hroot⟩ := exists_path_full pair x pos e
    exact ⟨path, hlen, by rw [hroot, rootAt]; exact (hf e).symm⟩
  | node l r ihl ihr =>
    rw [depth] at hd
    have he : e - 1 + 1 = e := by omega
    rw [leafAt] at hf
    by_cases hb : pos / 2 ^ (e - 1) % 2 = 0
    · simp only [hb, if_true] at hf
      obtain ⟨path, hlen, hroot⟩ := ihl (by omega) hf
      refine ⟨path ++ [r.rootAt pair f (e - 1)], by simp [hlen, he], ?_⟩
      rw [pathRoot_concat, hlen, if_pos hb, hroot, rootAt]
    · simp only [hb, if_false] at hf
      obtain ⟨path, hlen, hroot⟩ := ihr (by omega) hf
      refine ⟨path ++ [l.rootAt pair f (e - 1)], by simp [hlen, he], ?_⟩
      rw [pathRoot_concat, hlen, if_neg hb, hroot, rootAt]

def heights : Nat → SlotTree α → List Nat
  | e, leaf _ => [e]
  | e, node l r => heights (e - 1) l ++ heights (e - 1) r

theorem readTree_idx (h : readTree bit e pos idx = some t) : t.2.2 = idx + (heights e t.1).length := by
  refine readTree_induct (motive := fun e _ idx t _ idx' => idx' = idx + (heights e t).length) (fun _ _ _ _ => rfl) ?_ h
  intro e _ idx l _ idx₁ r _ idx₂ _ hl hr
  rw [heights, length_append, Nat.add_sub_cancel]
  omega

theorem root_eq_rootAt (pair : β → β → β) (f : Nat → Nat → β) (h : readTree bit e pos idx = some t) {g : Nat → β}
    (hg : ∀ i < (heights e t.1).length, g (idx + i) = f ((heights e t.1).getD i 0) (idx + i)) :
    t.1.root pair g = t.1.rootAt pair f e := by
  refine readTree_induct (motive := fun e _ idx t _ idx' => idx' = idx + (heights e t).length ∧ ∀ g : Nat → β,
    (∀ i < (heights e t).length, g (idx + i) = f ((heights e t).getD i 0) (idx + i)) → t.root pair g = t.rootAt pair f e)
    (fun e _ idx _ => ⟨rfl, fun g hg => hg 0 (by simp [heights])⟩) ?_ h |>.2 g hg
  intro e _ idx l _ idx₁ r _ idx₂ _ ⟨hidx, hl⟩ ⟨hidx', hr⟩
  rw [heights, Nat.add_sub_cancel, length_append]
  refine ⟨by omega, fun g hg => ?_⟩
  have hleft := hl g fun i hi => by
    have := hg i (by omega)
    rwa [getD_append _ _ _ _ hi] at this
  have hright := hr g fun i hi => by
    have := hg ((heights e l).length + i) (by omega)
    rwa [getD_append_right _ _ _ _ (by omega), Nat.add_sub_cancel_left, ← Nat.add_assoc, ← hidx] at this
  rw [root, rootAt, hleft, hright, Nat.add_sub_cancel]

end SlotTree
