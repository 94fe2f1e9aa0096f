import Jaxnetd.Mmr.StoreOps
import Jaxnetd.Mmr.Tree

/-!
# The tree of a list of blocks

`Inv bs t` says that the tree `t` is, as far as it can be observed, the tree of the blocks `bs`:
heights, weight, last node, root, leaves and the maps of hashes and of roots. `appendBlock` adds a
block to the list, `rmBlock` cuts it. A cut takes the blocks out of the maps by the hashes of all
dropped cells, inner ones included; an inner cell is a pair, or carries the hash of the last leaf up.
-/

namespace Jaxnetd.Mmr
open PairLevels TreeStore List TreeNode Option

variable {H : Type} {n : TreeNode H} {i l : Nat}

abbrev Block (H : Type) := H × Int

def leafNodes (bs : List (Block H)) : List (TreeNode H) := bs.mapIdx fun i b => ⟨b.1, b.2, i, false⟩

section
variable (bs : List (Block H))
include bs

@[simp] theorem length_leafNodes : (leafNodes bs).length = bs.length := by
  simp [leafNodes]

theorem leafNodes_append (b : Block H) :
    leafNodes (bs ++ [b]) = leafNodes bs ++ [⟨b.1, b.2, bs.length, false⟩] := by
  simp [leafNodes, mapIdx_append]

theorem getElem?_leafNodes (i : Nat) :
    (leafNodes bs)[i]? = bs[i]?.map fun b => ⟨b.1, b.2, i, false⟩ := by
  simp [leafNodes]

theorem take_leafNodes (i : Nat) : (leafNodes bs).take i = leafNodes (bs.take i) := by
  apply ext_getElem?
  intro j
  rw [getElem?_take, getElem?_leafNodes, getElem?_leafNodes, getElem?_take]
  split <;> rfl

end

theorem hash_of_mem_leafNodes {bs : List (Block H)} (h : n ∈ leafNodes bs) : (bs.map Prod.fst)[n.height]? = some n.hash := by
  obtain ⟨j, hj⟩ := getElem?_of_mem h
  rw [getElem?_leafNodes, map_eq_some_iff] at hj
  obtain ⟨b, hb, rfl⟩ := hj
  simp [hb]

theorem map_hash_leafNodes (bs : List (Block H)) : (leafNodes bs).map hash = bs.map Prod.fst := by
  apply ext_getElem?
  intro j
  rw [getElem?_map, getElem?_leafNodes, getElem?_map, Option.map_map]; rfl

theorem map_height_leafNodes (bs : List (Block H)) : (leafNodes bs).map height = range bs.length := by
  refine ext_getElem (by simp) fun j h1 h2 => ?_
  simp [leafNodes]

theorem map_weight_leafNodes (bs : List (Block H)) : (leafNodes bs).map weight = bs.map Prod.snd := by
  apply ext_getElem?
  intro j
  rw [getElem?_map, getElem?_leafNodes, getElem?_map, Option.map_map]; rfl

def TreeStore.innerHashes (s : TreeStore H) : List H :=
  (List.range s.nodes.length).flatMap fun l => (List.range (s.row (l + 1)).length).filterMap fun i =>
    match s.cell l (2 * i), s.cell l (2 * i + 1), s.cell (l + 1) i with
    | some _, some _, some n => some n.hash
    | _, _, _ => none

theorem TreeStore.mem_innerHashes {s : TreeStore H} {a b : TreeNode H}
    (ha : s.cell l (2 * i) = some a) (hb : s.cell l (2 * i + 1) = some b) (hn : s.cell (l + 1) i = some n) :
    n.hash ∈ s.innerHashes := by
  have hi : i < (s.row (l + 1)).length := by
    by_contra hc
    rw [cell, getD_eq_getElem?_getD, getElem?_eq_none (by omega)] at hn
    cases hn
  have hl : l < s.nodes.length := by
    by_contra hc
    rw [row, getD_eq_getElem?_getD, getElem?_eq_none (by omega)] at hi
    simp at hi
  refine mem_flatMap.2 ⟨l, mem_range.2 hl, mem_filterMap.2 ⟨i, mem_range.2 hi, ?_⟩⟩
  rw [ha, hb, hn]

namespace TreeStore
variable [ChainHash H] {k : Nat} {full : Bool} {L : List (TreeNode H)} {s : TreeStore H}

section
variable (h : Holds k L (Cut full L) s)
include h

theorem Holds.cell_zero (i : Nat) : s.cell 0 i = L[i]? := by
  rw [cell, h.leaves, getD_pad]

theorem Holds.cell_erase (hl : l ≤ k) (i : Nat) :
    (s.cell l i).map erase = ((nodeLevel l L).take (entries full L.length l))[i]? := by
  cases l with
  | zero =>
    have e : entries full L.length 0 = L.length := by cases full <;> simp [entries]
    rw [h.cell_zero, e, ← getElem?_map, h.noFinal.map_erase]
    show _ = (L.take L.length)[i]?
    rw [take_length]
  | succ l =>
    obtain ⟨N, hN, hP, -⟩ := h.inner l hl
    rw [cell, hN, getD_pad, ← getElem?_map, hP]

theorem Holds.cell_none (hl : k < l) (i : Nat) : s.cell l i = none := by
  have hrow : s.row l = [] := by
    rw [row, getD_eq_getElem?_getD, getElem?_eq_none (by rw [h.len]; omega)]; rfl
  rw [cell, hrow]; rfl

end

theorem entries_true (L : List (TreeNode H)) (l : Nat) : entries true L.length l = (nodeLevel l L).length := by
  rw [length_level]; rfl

theorem Holds.pair_mem (h : Holds k L (Cut full L) s) {j : Nat} (hl : l + 1 ≤ k)
    (hj : 2 * j + 1 < entries full L.length l) (hj' : j < entries full L.length (l + 1)) {a b : TreeNode H}
    (ha : (nodeLevel l L)[2 * j]? = some a) (hb : (nodeLevel l L)[2 * j + 1]? = some b)
    (hn : (nodeLevel (l + 1) L)[j]? = some n) : n.hash ∈ s.innerHashes := by
  have ca := h.cell_erase (l := l) (by omega) (2 * j)
  have cb := h.cell_erase (l := l) (by omega) (2 * j + 1)
  have cn := h.cell_erase hl j
  rw [getElem?_take, if_pos (by omega), ha] at ca
  rw [getElem?_take, if_pos hj, hb] at cb
  rw [getElem?_take, if_pos hj', hn] at cn
  obtain ⟨a', ha', -⟩ := map_eq_some_iff.1 ca
  obtain ⟨b', hb', -⟩ := map_eq_some_iff.1 cb
  obtain ⟨n', hn', rfl⟩ := map_eq_some_iff.1 cn
  rw [erase_hash]
  exact mem_innerHashes ha' hb' hn'

/-- The last entry of a level is a pair somewhere below, or the last leaf. -/
theorem Holds.last_hash (h : Holds k L (Cut true L) s) {j : Nat} (hl : l ≤ k)
    (hn : (nodeLevel l L)[j]? = some n) (hj : j + 1 = (nodeLevel l L).length) :
    n.hash ∈ s.innerHashes ∨ L.getLast?.map hash = some n.hash := by
  induction l generalizing j n with
  | zero =>
    right
    have hj' : L.length - 1 = j := by rw [show L.length = j + 1 from hj.symm]; rfl
    rw [getLast?_eq_getElem?, hj', show L[j]? = some n from hn]; rfl
  | succ l ih =>
    have hn' := hn
    rw [nodeLevel, level_succ, getElem?_pairUp] at hn
    cases ha : (nodeLevel l L)[2 * j]? with
    | none => simp [ha] at hn
    | some a =>
      cases hb : (nodeLevel l L)[2 * j + 1]? with
      | some b =>
        left
        have hlt := (List.getElem?_eq_some_iff.1 hb).1
        exact h.pair_mem hl (by rw [entries_true]; exact hlt) (by rw [entries_true]; omega) ha hb hn'
      | none =>
        simp only [ha, hb, some.injEq] at hn
        subst hn
        have h1 := (List.getElem?_eq_some_iff.1 ha).1
        have h2 := getElem?_eq_none_iff.1 hb
        have := ih (by omega) ha (by omega)
        exact this

/-- An inner cell pairs two cells, or carries a pair's or the last leaf's hash up. -/
theorem Holds.inner_hash (h : Holds k L (Cut full L) s) {j : Nat}
    (hn : s.cell (l + 1) j = some n) : n.hash ∈ s.innerHashes ∨ L.getLast?.map hash = some n.hash := by
  have hl : l + 1 ≤ k := by
    by_contra hc
    rw [h.cell_none (by omega)] at hn; cases hn
  have he := h.cell_erase hl j
  rw [hn, map_some, getElem?_take] at he
  split at he
  case isFalse => cases he
  case isTrue hj =>
    have hlev := he.symm
    rw [nodeLevel, level_succ, getElem?_pairUp] at hlev
    have htrim : full = false → 2 * j + 1 < L.length / 2 ^ l := by
      rintro rfl
      have : j < L.length / 2 ^ (l + 1) := hj
      rw [Nat.pow_succ, ← Nat.div_div_eq_div_mul] at this
      omega
    have hle : L.length / 2 ^ l ≤ (nodeLevel l L).length := by
      rw [← entries_true]; exact div_le_entries true _ _
    cases ha : (nodeLevel l L)[2 * j]? with
    | none => simp [ha] at hlev
    | some a =>
      have h1 := (List.getElem?_eq_some_iff.1 ha).1
      cases hb : (nodeLevel l L)[2 * j + 1]? with
      | some b =>
        left
        have h2 := (List.getElem?_eq_some_iff.1 hb).1
        have hj2 : 2 * j + 1 < entries full L.length l := by
          cases full with
          | true => rw [entries_true]; exact h2
          | false => exact htrim rfl
        show n.erase.hash ∈ s.innerHashes
        exact h.pair_mem hl hj2 hj ha hb he.symm
      | none =>
        have h2 := getElem?_eq_none_iff.1 hb
        simp only [ha, hb, some.injEq] at hlev
        cases full with
        | true =>
          have hlast := h.last_hash (by omega) ha (by omega)
          have hh : (promote a).hash = n.erase.hash := congrArg hash hlev
          have hh : a.hash = n.hash := hh
          rwa [hh] at hlast
        | false => have := htrim rfl; omega

omit [ChainHash H] in
theorem dropNodeFromTree_fst (s : TreeStore H) (hs : s.nodes ≠ []) (i : Nat) :
    ∃ D, (s.dropNodeFromTree 0 i).1 = (s.row 0).drop i ++ D ∧ ∀ n, some n ∈ D → ∃ l j, s.cell (l + 1) j = some n := by
  obtain ⟨r, rest, hs⟩ := exists_cons_of_ne_nil hs
  refine ⟨(rest.mapIdx fun l r => r.drop (i / 2 ^ (l + 1))).flatten, ?_, fun n hn => ?_⟩
  · simp [dropNodeFromTree, dropRows_eq, hs, mapIdx_cons, row]
  · obtain ⟨c, hc, hn⟩ := mem_flatten.1 hn
    obtain ⟨l, hl⟩ := getElem?_of_mem hc
    rw [getElem?_mapIdx] at hl
    obtain ⟨r', hr', rfl⟩ := map_eq_some_iff.1 hl
    obtain ⟨j, hj⟩ := getElem?_of_mem (mem_of_mem_drop hn)
    refine ⟨l, j, ?_⟩
    simp [cell, row, hs, getD_eq_getElem?_getD, hr', hj]

end TreeStore

theorem mmrRoot_nil [ChainHash H] : mmrRoot ([] : List (TreeNode H)) = ChainHash.zeroHash := by
  simp [mmrRoot, hashOf]

namespace BlocksMMRTree
variable [ChainHash H] [DecidableEq H] {bs : List (Block H)} {t : BlocksMMRTree H}

section
omit [ChainHash H]

theorem forget_of_unknown {t : BlocksMMRTree H} (h : t.hashToHeight.get n.hash = none) :
    ∃ m, t.forget (some n) = { t with rootToHeight := m } := by
  simp only [forget, h]
  split
  · exact ⟨_, rfl⟩
  · exact ⟨t.rootToHeight, rfl⟩

theorem foldl_forget_unknown (D : List (Cell H)) (t : BlocksMMRTree H)
    (h : ∀ n, some n ∈ D → t.hashToHeight.get n.hash = none) :
    ∃ m, D.foldl forget t = { t with rootToHeight := m } := by
  induction D generalizing t with
  | nil => exact ⟨t.rootToHeight, rfl⟩
  | cons c D ih =>
    cases c with
    | none => exact ih t fun n hn => h n (mem_cons_of_mem _ hn)
    | some n =>
      obtain ⟨m, hm⟩ := forget_of_unknown (h n (mem_cons_self))
      rw [foldl_cons, hm]
      obtain ⟨m', hm'⟩ := ih { t with rootToHeight := m } fun n hn => h n (mem_cons_of_mem _ hn)
      exact ⟨m', hm'⟩

theorem foldl_forget_leaves (D : List (TreeNode H)) (t : BlocksMMRTree H) (hnd : (D.map hash).Nodup)
    (hD : ∀ n ∈ D, t.hashToHeight.get n.hash = some n.height) :
    ∃ roots heights m, (D.map some).foldl forget t =
        { t with
          chainWeight := t.chainWeight - (D.map weight).sum
          heightToRoot := roots
          hashToHeight := heights
          rootToHeight := m } ∧
      (∀ i, roots.get i = if i ∈ D.map height then none else t.heightToRoot.get i) ∧
      (∀ h, heights.get h = if h ∈ D.map hash then none else t.hashToHeight.get h) := by
  induction D generalizing t with
  | nil => exact ⟨t.heightToRoot, t.hashToHeight, t.rootToHeight, by simp, by simp, by simp⟩
  | cons n D ih =>
    obtain ⟨hn, hnd⟩ := nodup_cons.1 hnd
    obtain ⟨m, hm⟩ : ∃ m, t.forget (some n) =
        { t with
          chainWeight := t.chainWeight - n.weight
          heightToRoot := t.heightToRoot.delete n.height
          hashToHeight := t.hashToHeight.delete n.hash
          rootToHeight := m } := by
      simp only [forget, hD n mem_cons_self]
      split
      · exact ⟨_, rfl⟩
      · exact ⟨t.rootToHeight, rfl⟩
    obtain ⟨roots, heights, m', he, hr, hh⟩ := ih (t.forget (some n)) hnd (by
      intro x hx
      have hne : x.hash ≠ n.hash := fun e => hn (e ▸ mem_map_of_mem hx)
      rw [hm]
      rw [GoMap.get_delete_ne _ hne]
      exact hD x (mem_cons_of_mem _ hx))
    refine ⟨roots, heights, m', ?_, fun i => ?_, fun h => ?_⟩
    · rw [map_cons, foldl_cons, he, hm]
      simp only [map_cons, sum_cons]
      congr 1; omega
    · rw [hr, hm]
      by_cases h1 : i ∈ D.map height <;> by_cases h2 : i = n.height <;> simp [h1, h2]
    · rw [hh, hm]
      by_cases h1 : h ∈ D.map hash <;> by_cases h2 : h = n.hash <;> simp [h1, h2]

end

structure Inv (bs : List (Block H)) (t : BlocksMMRTree H) : Prop where
  nodup : (bs.map Prod.fst).Nodup
  nextHeight : t.nextHeight = bs.length
  weight : t.chainWeight = (bs.map Prod.snd).sum
  last : t.lastNode = (leafNodes bs).getLast?.getD .zero
  root : t.rootHash = mmrRoot (leafNodes bs)
  store : ∃ k full, Holds k (leafNodes bs) (Cut full (leafNodes bs)) t.store
  hashes : ∀ h i, t.hashToHeight.get h = some i ↔ (bs.map Prod.fst)[i]? = some h
  roots : ∀ i, t.heightToRoot.get i = if i < bs.length then some (mmrRoot (leafNodes (bs.take (i + 1)))) else none

section
omit [DecidableEq H]

theorem holds_newTree : Holds 0 [] (Cut true []) (newTree : BlocksMMRTree H).store := by
  refine ⟨by simp, by simp [NoFinal], ?_, rfl, by simp⟩
  have h1 : nextPowerOfTwo 1 = 1 := by decide
  have h2 : Nat.log2 1 = 0 := by decide
  simp [newTree, TreeStore.new, h1, h2]

theorem newTree_inv : Inv [] (newTree : BlocksMMRTree H) where
  nodup := nodup_nil
  nextHeight := rfl
  weight := rfl
  last := rfl
  root := mmrRoot_nil.symm
  store := ⟨0, true, holds_newTree⟩
  hashes h i := by simp [newTree]
  roots i := by simp [newTree]

end

section
variable (h : Inv bs t)
include h

theorem Inv.appendBlock {hash : H} (hnew : hash ∉ bs.map Prod.fst) (w : Int) :
    Inv (bs ++ [(hash, w)]) (t.appendBlock hash w) := by
  have hget : t.hashToHeight.get hash = none := by
    cases hg : t.hashToHeight.get hash with
    | none => rfl
    | some i => exact absurd (mem_of_getElem? ((h.hashes hash i).1 hg)) hnew
  obtain ⟨k, full, hs⟩ := h.store
  obtain ⟨k', hs⟩ := (hs.mono fun l N => Cut.part).appendLeaf (x := ⟨hash, w, bs.length, false⟩) rfl
  obtain ⟨hs, hroot⟩ := calcRoot_holds hs (by simp)
  rw [length_leafNodes, ← leafNodes_append bs (hash, w)] at hs hroot
  simp only [BlocksMMRTree.appendBlock, hget, h.nextHeight]
  refine ⟨?_, by simp, ?_, ?_, hroot, ⟨k', true, hs.mono fun l N => Level.cut⟩, fun x i => ?_, fun i => ?_⟩
  · rw [map_append, nodup_append]
    exact ⟨h.nodup, by simp, by rintro x hx y hy rfl; simp at hy; exact hnew (hy ▸ hx)⟩
  · simp [h.weight]
  · simp [leafNodes_append]
  · have hlen : bs.length = (bs.map Prod.fst).length := by simp
    rw [GoMap.get_set, map_append, getElem?_append]
    by_cases hx : x = hash
    · subst hx
      rw [if_pos rfl]
      by_cases hi : i < (bs.map Prod.fst).length
      · rw [if_pos hi]
        exact ⟨fun e => by simp at e hi; omega, fun e => absurd (mem_of_getElem? e) hnew⟩
      · rw [if_neg hi]
        simp only [map_cons, map_nil, getElem?_singleton, some.injEq]
        split <;> simp <;> omega
    · rw [if_neg hx, h.hashes]
      by_cases hi : i < (bs.map Prod.fst).length
      · rw [if_pos hi]
      · rw [if_neg hi, getElem?_eq_none (by omega)]
        simp only [map_cons, map_nil, getElem?_singleton]
        split
        · simp [Ne.symm hx]
        · simp
  · rw [GoMap.get_set, h.roots, length_append, length_singleton]
    rcases Nat.lt_trichotomy i bs.length with hi | rfl | hi
    · rw [if_neg (by omega), if_pos hi, if_pos (by omega), take_append_of_le_length (by omega)]
    · rw [if_pos rfl, if_pos (by omega), hroot, take_of_length_le (by simp)]
    · rw [if_neg (by omega), if_neg (by omega), if_neg (by omega)]

theorem Inv.rmBlock_of_le (hi : bs.length ≤ i) : t.rmBlock i = t := by
  obtain ⟨k, full, hs⟩ := h.store
  have : t.store.cell 0 i = none := by
    rw [hs.cell_zero, getElem?_eq_none (by simpa using hi)]
  simp [rmBlock, this]

theorem Inv.forget_dropped (hi : i < bs.length)
    (hinner : ∀ b ∈ bs, b.1 ∉ t.store.innerHashes) (s : TreeStore H) :
    ∃ roots heights m, (t.store.dropNodeFromTree 0 i).1.foldl forget { t with store := s } =
        { t with
          store := s
          chainWeight := ((bs.take i).map Prod.snd).sum
          heightToRoot := roots
          hashToHeight := heights
          rootToHeight := m } ∧
      (∀ j, roots.get j = if j < i then t.heightToRoot.get j else none) ∧
      (∀ x j, heights.get x = some j ↔ ((bs.take i).map Prod.fst)[j]? = some x) := by
  obtain ⟨k, full, hs⟩ := h.store
  obtain ⟨D, hdrop, hD⟩ := dropNodeFromTree_fst t.store (ne_nil_of_length_pos (by rw [hs.len]; omega)) i
  have hpad : (t.store.row 0).drop i = ((leafNodes bs).drop i).map some ++ List.replicate (2 ^ k - bs.length) none := by
    rw [hs.leaves, pad, drop_append_of_le_length (by simp; omega), map_drop, length_leafNodes]
  have hhash : ((leafNodes bs).drop i).map hash = (bs.map Prod.fst).drop i := by
    rw [map_drop, map_hash_leafNodes]
  -- the leaves come first, while the maps still know all of them
  obtain ⟨roots, heights, m, he, hroots, hheights⟩ := foldl_forget_leaves ((leafNodes bs).drop i)
    { t with store := s } (by rw [hhash]; exact h.nodup.sublist (drop_sublist _ _)) (by
      exact fun n hn => (h.hashes _ _).2 (hash_of_mem_leafNodes (mem_of_mem_drop hn)))
  -- an inner hash is no block's, and the last leaf's was just forgotten
  obtain ⟨m', hm'⟩ := foldl_forget_unknown (List.replicate (2 ^ k - bs.length) none ++ D)
    (((leafNodes bs).drop i).map some |>.foldl forget { t with store := s }) (by
      intro n hn
      have hn : some n ∈ D := by
        rcases mem_append.1 hn with hn | hn
        · simp [mem_replicate] at hn
        · exact hn
      rw [he]
      rw [hheights, hhash]
      obtain ⟨l, j, hc⟩ := hD n hn
      split
      · rfl
      · rename_i hnot
        cases hg : t.hashToHeight.get n.hash with
        | none => rfl
        | some p =>
          have hp := (h.hashes _ _).1 hg
          rcases hs.inner_hash hc with hin | hlast
          · obtain ⟨b, hb, hbh⟩ := mem_map.1 (mem_of_getElem? hp)
            exact absurd (hbh ▸ hin) (hinner b hb)
          · rw [← getLast?_map, map_hash_leafNodes] at hlast
            refine absurd (mem_of_getLast? ?_) hnot
            rw [getLast?_drop, if_neg (by simp; omega)]; exact hlast)
  refine ⟨roots, heights, m', ?_, fun j => ?_, fun x j => ?_⟩
  · rw [hdrop, hpad, append_assoc, foldl_append, hm', he]
    have hw : (((leafNodes bs).drop i).map TreeNode.weight).sum = ((bs.map Prod.snd).drop i).sum := by
      rw [map_drop, map_weight_leafNodes]
    have hsum := sum_take_add_sum_drop (bs.map Prod.snd) i
    simp only [hw, h.weight, map_take]
    congr 1; omega
  · rw [hroots]
    rw [h.roots]
    rw [map_drop, map_height_leafNodes, range_eq_range', drop_range']
    simp only [mem_range'_1]
    split_ifs <;> first | rfl | omega
  · rw [hheights, hhash, map_take, getElem?_take]
    by_cases hx : x ∈ (bs.map Prod.fst).drop i
    · rw [if_pos hx, ← getElem?_take]
      exact iff_of_false (by simp) fun e => disjoint_take_drop h.nodup le_rfl (mem_of_getElem? e) hx
    · rw [if_neg hx, h.hashes]
      split
      · rfl
      · rename_i hj
        refine ⟨fun e => absurd (mem_iff_getElem?.2 ⟨j - i, ?_⟩) hx, fun e => (by cases e)⟩
        rw [getElem?_drop, Nat.add_sub_cancel' (by omega)]; exact e

theorem Inv.rmBlock (hi : i < bs.length)
    (hinner : ∀ b ∈ bs, b.1 ∉ t.store.innerHashes) : Inv (bs.take i) (t.rmBlock i) := by
  obtain ⟨k, full, hs⟩ := h.store
  have hcell : t.store.cell 0 i = some ⟨bs[i].1, bs[i].2, i, false⟩ := by
    rw [hs.cell_zero, getElem?_leafNodes, getElem?_eq_getElem hi]; rfl
  obtain ⟨roots, heights, m, he, hroots, hheights⟩ :=
    h.forget_dropped hi hinner (t.store.dropNodeFromTree 0 i).2
  have hdrop := hs.drop (i := i) (by simpa using hi)
  rw [take_leafNodes] at hdrop
  have hlen : (bs.take i).length = i := by simp; omega
  have hroots' (j : Nat) : roots.get j =
      if j < (bs.take i).length then some (mmrRoot (leafNodes ((bs.take i).take (j + 1)))) else none := by
    rw [hroots, h.roots, hlen]
    split_ifs <;> first | omega | rfl | rw [take_take, Nat.min_eq_left (by omega)]
  have hnodup : ((bs.take i).map Prod.fst).Nodup := by
    rw [map_take]; exact h.nodup.sublist (take_sublist _ _)
  simp only [BlocksMMRTree.rmBlock, hcell, he]
  cases i with
  | zero =>
    refine ⟨hnodup, rfl, rfl, rfl, ?_, ⟨k, false, hdrop⟩, hheights, hroots'⟩
    exact mmrRoot_nil.symm
  | succ i =>
    refine ⟨hnodup, hlen.symm, rfl, ?_, ?_, ⟨k, false, hdrop⟩, hheights, hroots'⟩
    · show ((t.store.dropNodeFromTree 0 (i + 1)).2.cell 0 i).getD .zero = _
      rw [hdrop.cell_zero, getLast?_eq_getElem?, length_leafNodes, hlen]; rfl
    · show (roots.get i).getD _ = _
      rw [hroots', hlen, if_pos (by omega), take_of_length_le (by omega)]; rfl

theorem Inv.resetRootTo {hash : H} (hi : (bs.map Prod.fst)[i]? = some hash)
    (hinner : ∀ b ∈ bs, b.1 ∉ t.store.innerHashes) : Inv (bs.take (i + 1)) (t.resetRootTo hash i) := by
  simp only [BlocksMMRTree.resetRootTo, (h.hashes hash i).2 hi]
  rcases Nat.lt_or_ge (i + 1) bs.length with hlt | hge
  · exact h.rmBlock hlt hinner
  · rw [h.rmBlock_of_le hge, take_of_length_le hge]
    exact h

end

end BlocksMMRTree

end Jaxnetd.Mmr
