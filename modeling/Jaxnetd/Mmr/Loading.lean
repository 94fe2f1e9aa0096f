import Jaxnetd.Mmr.History
import Jaxnetd.Mmr.Quick

/-!
# A loaded tree and a grown one

A chain can be given to the tree block by block, or all at once with its recorded roots and a single rebuild. The
stores that result have the same capacity and the same cells, up to the final flags, and no read and no later call can
tell the trees apart: a call does the same to both and leaves them alike (`Twin`).
-/

namespace Jaxnetd.Mmr
open PairLevels TreeStore List TreeOp Nat

variable {H : Type}

/-! ## Capacity -/

theorem clog_succ (n : Nat) : clog 2 (n + 1) = if n < 2 ^ clog 2 n then clog 2 n else clog 2 n + 1 := by
  have hle : n ≤ 2 ^ clog 2 n := le_pow_clog (by omega) n
  split
  next hlt => exact le_antisymm (clog_le_of_le_pow hlt) (clog_mono_right 2 (by omega))
  next hge =>
    refine le_antisymm (clog_le_of_le_pow ?_) ((lt_clog_iff_pow_lt (by omega)).2 (by omega))
    have := Nat.two_pow_pos (Nat.clog 2 n)
    omega

variable [ChainHash H]

namespace TreeStore

def erased (s : TreeStore H) : List (List (Cell H)) := s.nodes.map (List.map (Option.map TreeNode.erase))

omit [ChainHash H] in
theorem dropRows_map (f : Cell H → Cell H) (i : Nat) (rows : List (List (Cell H))) :
    (dropRows i rows).1.map f = (dropRows i (rows.map (List.map f))).1 := by
  induction rows generalizing i with
  | nil => rfl
  | cons r rest ih => simp [dropRows, ih]

variable {k : Nat} {full : Bool} {L : List (TreeNode H)} {s s' : TreeStore H}

theorem Holds.erased_eq (h : Holds k L (Cut full L) s) (h' : Holds k L (Cut full L) s') : s.erased = s'.erased := by
  have hpad : ∀ (n : Nat) (N : List (TreeNode H)),
      (pad n N).map (Option.map TreeNode.erase) = pad n (N.map TreeNode.erase) := by
    intro n N
    simp [pad, Function.comp_def]
  apply ext_getElem?
  intro l
  rw [erased, erased, getElem?_map, getElem?_map]
  rcases lt_or_ge l (k + 1) with hl | hl
  · have hrow : ∀ {u : TreeStore H}, Holds k L (Cut full L) u → u.nodes[l]? = some (u.row l) := by
      intro u hu
      rw [row, getD_eq_getElem?_getD, getElem?_eq_getElem (by rw [hu.len]; exact hl)]
      rfl
    rw [hrow h, hrow h', Option.map_some, Option.map_some]
    cases l with
    | zero => rw [h.leaves, h'.leaves]
    | succ l =>
      obtain ⟨N, hN, hcut, -⟩ := h.inner l (by omega)
      obtain ⟨N', hN', hcut', -⟩ := h'.inner l (by omega)
      rw [hN, hN', hpad, hpad, hcut, hcut']
  · rw [getElem?_eq_none (by rw [h.len]; exact hl), getElem?_eq_none (by rw [h'.len]; exact hl)]

end TreeStore

namespace BlocksMMRTree

variable [DecidableEq H] {t : BlocksMMRTree H} {s : TreeStore H}

/-! ## What a removal reads -/

section
omit [ChainHash H]

theorem forget_store (t : BlocksMMRTree H) (s : TreeStore H) (c : Cell H) :
    forget { t with store := s } c = { t.forget c with store := s } := by
  unfold forget
  cases c with
  | none => rfl
  | some n =>
    dsimp only
    cases t.hashToHeight.get n.hash <;> cases t.rootToHeight.get n.hash <;> rfl

theorem forget_erase (t : BlocksMMRTree H) (c : Cell H) : t.forget (c.map TreeNode.erase) = t.forget c := by
  cases c <;> rfl

theorem foldl_forget_with (D : List (Cell H)) (t : BlocksMMRTree H) (s : TreeStore H) :
    D.foldl forget { t with store := s } = { D.foldl forget t with store := s } := by
  induction D generalizing t with
  | nil => rfl
  | cons c D ih => rw [foldl_cons, foldl_cons, forget_store, ih]

theorem foldl_forget_erase (D : List (Cell H)) (t : BlocksMMRTree H) :
    (D.map (Option.map TreeNode.erase)).foldl forget t = D.foldl forget t := by
  rw [foldl_map]
  simp only [forget_erase]

end

/-- Another store that the tree could have: the same leaves and cells, up to the final flags. -/
def Twin (t : BlocksMMRTree H) (s : TreeStore H) : Prop :=
  ∃ k full L, L.length = t.nextHeight ∧ Holds k L (Cut full L) t.store ∧ Holds k L (Cut full L) s

theorem Twin.appendBlock (h : Twin t s) (hash : H) (difficulty : Int) :
    ∃ s', appendBlock { t with store := s } hash difficulty = { t.appendBlock hash difficulty with store := s' } ∧
      Twin (t.appendBlock hash difficulty) s' := by
  unfold BlocksMMRTree.appendBlock
  cases t.hashToHeight.get hash with
  | some _ => exact ⟨s, rfl, h⟩
  | none =>
    obtain ⟨k, full, L, hlen, hstore, hother⟩ := h
    have hgrow : ∀ {u : TreeStore H}, Holds k L (Cut full L) u →
        Holds (if L.length < 2 ^ k then k else k + 1) (L ++ [⟨hash, difficulty, t.nextHeight, false⟩])
            (Level (L ++ [⟨hash, difficulty, t.nextHeight, false⟩]))
            (u.appendLeaf t.nextHeight ⟨hash, difficulty, t.nextHeight, false⟩).calcRoot.1 ∧
          hashOf (u.appendLeaf t.nextHeight ⟨hash, difficulty, t.nextHeight, false⟩).calcRoot.2 =
            mmrRoot (L ++ [⟨hash, difficulty, t.nextHeight, false⟩]) := by
      intro u hu
      have happend := (hu.mono fun l N => Cut.part).appendLeaf_grow (x := ⟨hash, difficulty, t.nextHeight, false⟩) rfl
      rw [hlen] at happend ⊢
      exact calcRoot_holds happend (by simp)
    obtain ⟨hstore', hroot⟩ := hgrow hstore
    obtain ⟨hother', hroot'⟩ := hgrow hother
    dsimp only
    rw [hroot, hroot']
    exact ⟨_, rfl, _, true, _, by simp [hlen], hstore'.mono fun l N => Level.cut, hother'.mono fun l N => Level.cut⟩

theorem Twin.rmBlock (h : Twin t s) (height : Nat) :
    ∃ s', rmBlock { t with store := s } height = { t.rmBlock height with store := s' } ∧ Twin (t.rmBlock height) s' := by
  obtain ⟨k, full, L, hlen, hstore, hother⟩ := h
  unfold BlocksMMRTree.rmBlock
  rw [hstore.cell_zero, hother.cell_zero]
  cases hcell : L[height]? with
  | none => exact ⟨s, rfl, k, full, L, hlen, hstore, hother⟩
  | some node =>
    have hlt : height < L.length := (List.getElem?_eq_some_iff.1 hcell).1
    have hdropped : ∀ (u : TreeStore H), (u.dropNodeFromTree 0 height).1.map (Option.map TreeNode.erase) =
        (dropRows height u.erased).1 := fun u => dropRows_map _ height u.nodes
    -- the removal forgets the same of both trees
    obtain ⟨kept, hkept⟩ : ∃ kept, (t.store.dropNodeFromTree 0 height).1.foldl forget t = kept := ⟨_, rfl⟩
    have hkept' : (s.dropNodeFromTree 0 height).1.foldl forget t = kept := by
      rw [← hkept, ← foldl_forget_erase, ← foldl_forget_erase (t.store.dropNodeFromTree 0 height).1, hdropped, hdropped,
        hstore.erased_eq hother]
    have hfold := foldl_forget_with (t.store.dropNodeFromTree 0 height).1 t (t.store.dropNodeFromTree 0 height).2
    have hfold' := foldl_forget_with (s.dropNodeFromTree 0 height).1 t (s.dropNodeFromTree 0 height).2
    rw [hkept] at hfold
    rw [hkept'] at hfold'
    have hcut := hstore.drop hlt
    have hcut' := hother.drop hlt
    have htake : (L.take height).length = height := by rw [length_take]; omega
    simp only [hfold, hfold']
    split
    · exact ⟨_, rfl, k, false, L.take height, htake, hcut, hcut'⟩
    · refine ⟨(s.dropNodeFromTree 0 height).2, ?_, k, false, L.take height, htake, hcut, hcut'⟩
      rw [hcut.cell_zero, hcut'.cell_zero]

theorem Twin.apply (h : Twin t s) (op : TreeOp H) :
    ∃ s', op.apply { t with store := s } = { op.apply t with store := s' } ∧ Twin (op.apply t) s' := by
  cases op with
  | append hash difficulty => exact h.appendBlock hash difficulty
  | rm hash height => exact h.rmBlock height
  | resetRootTo hash height =>
    show ∃ s', resetRootTo { t with store := s } hash height = { t.resetRootTo hash height with store := s' } ∧
      Twin (t.resetRootTo hash height) s'
    unfold resetRootTo
    cases t.hashToHeight.get hash with
    | none => exact ⟨s, rfl, h⟩
    | some _ => exact h.rmBlock (height + 1)

theorem Twin.run (h : Twin t s) (ops : List (TreeOp H)) :
    ∃ s', ops.foldl TreeOp.apply { t with store := s } = { ops.foldl TreeOp.apply t with store := s' } := by
  induction ops generalizing t s with
  | nil => exact ⟨s, rfl⟩
  | cons op ops ih =>
    obtain ⟨s', heq, htwin⟩ := h.apply op
    rw [foldl_cons, foldl_cons, heq]
    exact ih htwin

end BlocksMMRTree

/-! ## Loading a chain -/

open BlocksMMRTree

variable [DecidableEq H]

abbrev Recorded (H : Type) := List (Block H × H)

def quickAdd (blockCount : Nat) (chain : Recorded H) : BlocksMMRTree H :=
  chain.zipIdx.foldl (fun t r => t.addBlockWithoutRebuild r.1.1.1 r.1.2 r.2 r.1.1.2) (newTree.preAllocateTree blockCount)

/-- The recorded root of each block is the root over the blocks up to it. -/
def TrueRoots (chain : Recorded H) : Prop :=
  ∀ i r, chain[i]? = some r → r.2 = mmrRoot (leafNodes ((chain.map Prod.fst).take (i + 1)))

variable {n : Nat} {chain : Recorded H} {r : Block H × H}

theorem quickAdd_concat (n : Nat) (chain : Recorded H) (r : Block H × H) :
    quickAdd n (chain ++ [r]) = (quickAdd n chain).addBlockWithoutRebuild r.1.1 r.2 chain.length r.1.2 := by
  rw [quickAdd, zipIdx_append, foldl_append]
  simp [quickAdd]

section
omit [DecidableEq H]

theorem loaded_preAllocate (hn : 0 < n) :
    Loaded (clog 2 n) [] ChainHash.zeroHash ((newTree : BlocksMMRTree H).preAllocateTree n) := by
  obtain ⟨k, -, hloaded⟩ := loaded_preAllocateTree (H := H) hn
  have hlen : k + 1 = clog 2 n + 1 := by
    rw [← hloaded.store.len]
    simp [preAllocateTree, TreeStore.new, nextPowerOfTwo_eq hn]
  obtain rfl : k = clog 2 n := by omega
  exact hloaded

theorem TrueRoots.init (h : TrueRoots (chain ++ [r])) : TrueRoots chain := by
  intro i x hx
  have hlt := (List.getElem?_eq_some_iff.1 hx).1
  have hroot := h i x (by rw [getElem?_append_left hlt, hx])
  rwa [map_append, take_append_of_le_length (by rw [length_map]; omega)] at hroot

theorem TrueRoots.last (h : TrueRoots (chain ++ [r])) : r.2 = mmrRoot (leafNodes ((chain ++ [r]).map Prod.fst)) := by
  have hroot := h chain.length r (by simp)
  rwa [take_of_length_le (by simp)] at hroot

end

theorem loaded_quickAdd (hn : 0 < n) (hle : chain.length ≤ n) :
    Loaded (clog 2 n) (chain.map Prod.fst) ((chain.getLast?.map Prod.snd).getD ChainHash.zeroHash) (quickAdd n chain) := by
  induction chain using List.reverseRecOn with
  | nil => exact loaded_preAllocate hn
  | append_singleton chain r ih =>
    rw [length_append, length_singleton] at hle
    have hcap : n ≤ 2 ^ clog 2 n := le_pow_clog (by omega) n
    rw [quickAdd_concat, map_append, getLast?_concat]
    exact (ih (by omega)).add r.1.1 r.2 r.1.2 (by simp) (by rw [length_map]; omega)

theorem treeOf_concat (bs : List (Block H)) (b : Block H) : treeOf (bs ++ [b]) = (treeOf bs).appendBlock b.1 b.2 := by
  rw [treeOf, foldl_concat]
  rfl

theorem holds_treeOf {bs : List (Block H)} (hnodup : (bs.map Prod.fst).Nodup) :
    Holds (clog 2 bs.length) (leafNodes bs) (Cut true (leafNodes bs)) (treeOf bs).store := by
  induction bs using List.reverseRecOn with
  | nil => exact holds_newTree
  | append_singleton bs b ih =>
    rw [map_append, nodup_append] at hnodup
    have hinv := treeOf_inv hnodup.1
    have hnew : (treeOf bs).hashToHeight.get b.1 = none := by
      cases hget : (treeOf bs).hashToHeight.get b.1 with
      | none => rfl
      | some i => exact absurd rfl (hnodup.2.2 _ (mem_of_getElem? ((hinv.hashes _ _).1 hget)) b.1 (by simp))
    have hgrow := ((ih hnodup.1).mono fun l N => Cut.part).appendLeaf_grow (x := ⟨b.1, b.2, bs.length, false⟩) rfl
    rw [length_leafNodes, ← clog_succ, ← leafNodes_append bs b] at hgrow
    rw [treeOf_concat, appendBlock, hnew]
    rw [hinv.nextHeight, length_append, length_singleton]
    exact (calcRoot_holds hgrow (by simp [leafNodes_append])).1.mono fun l N => Level.cut

theorem quickAdd_eq (hnodup : ((chain.map Prod.fst).map Prod.fst).Nodup) (htrue : TrueRoots chain) :
    quickAdd n chain = { treeOf (chain.map Prod.fst) with store := (quickAdd n chain).store } := by
  induction chain using List.reverseRecOn with
  | nil => rfl
  | append_singleton chain r ih =>
    have hinv := treeOf_inv hnodup
    rw [map_append, map_append, nodup_append] at hnodup
    have hbefore := treeOf_inv hnodup.1
    have hnew : (treeOf (chain.map Prod.fst)).hashToHeight.get r.1.1 = none := by
      cases hget : (treeOf (chain.map Prod.fst)).hashToHeight.get r.1.1 with
      | none => rfl
      | some i => exact absurd rfl (hnodup.2.2 _ (mem_of_getElem? ((hbefore.hashes _ _).1 hget)) r.1.1 (by simp))
    have hroot := hinv.root
    rw [← htrue.last] at hroot
    rw [map_append, map_singleton, treeOf_concat, appendBlock, hnew] at hroot ⊢
    dsimp only at hroot ⊢
    rw [hroot, quickAdd_concat, ih hnodup.1 htrue.init, addBlockWithoutRebuild]
    simp [hbefore.nextHeight]

/-- Loading a chain is as good as growing it: the rebuild accepts just the true root of the last block, and where all
recorded roots are true, no later call tells the loaded tree from the grown one. -/
theorem quickAdd_rebuild (hne : chain ≠ []) : ((quickAdd chain.length chain).rebuildTreeAndAssert.isSome ↔
      chain.getLast?.map Prod.snd = some (mmrRoot (leafNodes (chain.map Prod.fst)))) ∧
    (((chain.map Prod.fst).map Prod.fst).Nodup → TrueRoots chain →
      ∃ t, (quickAdd chain.length chain).rebuildTreeAndAssert = some t ∧ ∀ ops : List (TreeOp H),
        (ops.foldl apply t).currentRoot = (ops.foldl apply (treeOf (chain.map Prod.fst))).currentRoot ∧
        (ops.foldl apply t).currenWeight = (ops.foldl apply (treeOf (chain.map Prod.fst))).currenWeight ∧
        ∀ height, (ops.foldl apply t).rootForHeight height =
          (ops.foldl apply (treeOf (chain.map Prod.fst))).rootForHeight height) := by
  have hloaded : Loaded (clog 2 chain.length) (chain.map Prod.fst)
      ((chain.getLast?.map Prod.snd).getD ChainHash.zeroHash) (quickAdd chain.length chain) :=
    loaded_quickAdd (length_pos_iff.2 hne) (le_refl _)
  have hrebuild := rebuild_eq hloaded.store.holds (by simpa using hne) hloaded.last
  rw [hloaded.root] at hrebuild
  obtain ⟨init, r, rfl⟩ : ∃ init r, chain = init ++ [r] := ⟨_, _, (dropLast_concat_getLast hne).symm⟩
  rw [getLast?_concat, Option.map_some, Option.getD_some] at hrebuild
  constructor
  · rw [hrebuild, getLast?_concat, Option.map_some, Option.some.injEq]
    split
    next heq => exact ⟨fun _ => heq, fun _ => rfl⟩
    next hdiff => exact ⟨fun h => (nomatch h), fun h => absurd h hdiff⟩
  · intro hnodup htrue
    rw [if_pos htrue.last] at hrebuild
    refine ⟨_, hrebuild, fun ops => ?_⟩
    have hgrown := holds_treeOf hnodup
    have hbuilt := (calcRoot_holds hloaded.store.holds (by simp [← length_pos_iff])).1.mono fun l N => Level.cut
    rw [length_map] at hgrown
    have htwin : Twin (treeOf ((init ++ [r]).map Prod.fst)) (quickAdd (init ++ [r]).length (init ++ [r])).store.calcRoot.1 :=
      ⟨_, true, _, by rw [length_leafNodes, (treeOf_inv hnodup).nextHeight], hgrown, hbuilt⟩
    obtain ⟨s', hrun⟩ := htwin.run ops
    have hsame : ({ quickAdd (init ++ [r]).length (init ++ [r]) with
        store := (quickAdd (init ++ [r]).length (init ++ [r])).store.calcRoot.1 } : BlocksMMRTree H) =
        { treeOf ((init ++ [r]).map Prod.fst) with
          store := (quickAdd (init ++ [r]).length (init ++ [r])).store.calcRoot.1 } := by
      conv_lhs => rw [quickAdd_eq hnodup htrue]
    rw [hsame, hrun]
    exact ⟨rfl, rfl, fun _ => rfl⟩

def recordedTwo : Recorded Nat := [((1, 5), 1), ((2, 7), 115)]

theorem recordedTwo_true : letI := sumHash; TrueRoots recordedTwo := by
  let _ := sumHash
  intro i r hr
  match i, hr with
  | 0, hr =>
    cases hr
    exact hashOf_top (k := 0) (L := leafNodes [(1, 5)]) (by decide) (by decide)
  | 1, hr =>
    cases hr
    exact hashOf_top (k := 1) (L := leafNodes [(1, 5), (2, 7)]) (by decide) (by decide)

theorem quickAdd_rebuild_two : letI := sumHash
    ∃ t, (quickAdd 2 recordedTwo).rebuildTreeAndAssert = some t ∧ ∀ ops : List (TreeOp Nat),
      (ops.foldl apply t).currentRoot = (ops.foldl apply (treeOf [(1, 5), (2, 7)])).currentRoot ∧
      (ops.foldl apply t).currenWeight = (ops.foldl apply (treeOf [(1, 5), (2, 7)])).currenWeight ∧
      ∀ height, (ops.foldl apply t).rootForHeight height =
        (ops.foldl apply (treeOf [(1, 5), (2, 7)])).rootForHeight height := by
  let _ := sumHash
  have hne : recordedTwo ≠ [] := by decide
  exact (quickAdd_rebuild hne).2 (by decide) recordedTwo_true

end Jaxnetd.Mmr
