import Jaxnetd.Blockchain.Locate

/-!
# Catching up with a peer

A node sends the locator of its tip and its peer answers with the blocks behind the first entry it knows, which can be far
below the fork point, as the locator has gaps. When the node has all of the answer, `handleInvMsg` of the sync manager asks
again from its last block.
-/

namespace Jaxnetd.Blockchain
open Wire Chaindata List ChainNode

variable {H : Type} [DecidableEq H] {s : BlockStorage H} {tip node : ChainNode H}

/-! ## The heights of a locator -/

def heightsFrom : Nat → (len step height : Nat) → List Nat
  | 0, _, _, _ => []
  | fuel + 1, len, step, height =>
    height :: if height = 0 then [] else heightsFrom fuel (len + 1) (if 10 < len + 1 then step * 2 else step) (height - step)

def locatorHeights (height : Nat) : List Nat := heightsFrom (height + 1) 0 1 height

theorem zero_mem_heightsFrom {fuel len step height : Nat} (hfuel : height < fuel) (hstep : 0 < step) :
    0 ∈ heightsFrom fuel len step height := by
  induction fuel generalizing len step height with
  | zero => omega
  | succ fuel ih =>
    rw [heightsFrom]
    by_cases hzero : height = 0
    · simp [hzero]
    · rw [if_neg hzero]
      refine mem_cons_of_mem _ (ih (by omega) ?_)
      split <;> omega

def lastCommon (height f : Nat) : Nat := ((locatorHeights height).find? (· ≤ f)).getD 0

theorem find?_locatorHeights (height f : Nat) : (locatorHeights height).find? (· ≤ f) = some (lastCommon height f) := by
  rw [lastCommon]
  cases hfind : (locatorHeights height).find? (· ≤ f) with
  | none =>
    have hzero := find?_eq_none.1 hfind 0 (zero_mem_heightsFrom (Nat.lt_succ_self height) Nat.one_pos)
    simp at hzero
  | some g => rfl

theorem lastCommon_le (height f : Nat) : lastCommon height f ≤ f := by
  simpa using find?_some (find?_locatorHeights height f)

theorem lastCommon_self {height f : Nat} (h : height ≤ f) : lastCommon height f = height := by
  rw [lastCommon, locatorHeights, heightsFrom, find?_cons, decide_eq_true h]
  rfl

theorem BestView.locatorLoop_heights (h : BestView s tip) (hn : Numbered node.toNodeInfo node.ancestors)
    (fuel len step : Nat) :
    List.Forall₂ (fun i hash => (node.chain.map getHash)[i]? = some hash)
      (heightsFrom fuel len step node.height.toNat) (s.bestChain.locatorLoop fuel len step node) := by
  induction fuel generalizing len step node with
  | zero => exact .nil
  | succ fuel ih =>
    obtain ⟨hlength, hnonneg⟩ := height_chain hn
    have hself : (node.chain.map getHash)[node.height.toNat]? = some node.getHash := by
      rw [getElem?_map, show node.height.toNat = _ from hn.height.1, getElem?_chain]
      rfl
    refine .cons hself ?_
    by_cases hzero : node.height = 0
    · rw [if_pos hzero, if_pos (by omega)]
      exact .nil
    · rw [if_neg hzero, if_neg (by omega)]
      have hmax : max (node.height - step) 0 = ((node.height.toNat - step : Nat) : Int) := by omega
      have hlt : node.height.toNat - step < node.chain.length := by omega
      have hget := getElem?_eq_getElem hlt
      generalize node.chain[node.height.toNat - step] = previous at hget
      -- in the view and along the parents the node at this height is the same
      have hprevious : (if s.bestChain.contains node then s.bestChain.nodes[(max (node.height - step) 0).toNat]?.join
          else node.ancestor (max (node.height - step) 0)) = some previous := by
        rw [hmax]
        split
        next hin =>
          have hmem := (getElem?_of_mem_chain h.numbered (h.contains_iff.1 hin)).1
          rw [(of_getElem?_chain h.numbered hmem).2.2, getElem?_take_of_lt (by omega)] at hget
          rw [Int.toNat_natCast, h.nodes, getElem?_map, hget]
          rfl
        next => rw [ancestor_eq hn (by omega), hget]
      obtain ⟨hheight, hnumbered, hchain⟩ := of_getElem?_chain hn hget
      have hrest := ih hnumbered (len + 1) (if 10 < len + 1 then step * 2 else step)
      simp only [hprevious]
      rw [hheight, Int.toNat_natCast] at hrest
      refine hrest.imp fun i hash hi => ?_
      have hi' : i < (previous.chain.map getHash).length := (List.getElem?_eq_some_iff.1 hi).1
      rw [hchain, length_map, length_take] at hi'
      rwa [hchain, map_take, getElem?_take_of_lt (by omega)] at hi

theorem BestView.blockLocator_heights (h : BestView s tip) (hn : Numbered node.toNodeInfo node.ancestors) :
    List.Forall₂ (fun i hash => (node.chain.map getHash)[i]? = some hash)
      (locatorHeights node.height.toNat) (s.bestChain.blockLocator (some node)) :=
  h.locatorLoop_heights hn _ _ _

theorem BestView.blockLocator_tip (h : BestView s tip) :
    s.bestChain.blockLocator none = s.bestChain.blockLocator (some tip) := by
  rw [ChainView.blockLocator, ChainView.blockLocator, h.tip_eq]
  rfl

/-! ## Two chains -/

/-- Two chains, by their hashes, have the blocks up to height `f` in common and no later one of `bs` is in `as`. -/
structure ForkAt (as bs : List H) (f : Nat) : Prop where
  inside : f < as.length
  shared : ∀ i ≤ f, as[i]? = bs[i]?
  apart : ∀ (i : Nat) (hash : H), f < i → bs[i]? = some hash → hash ∉ as

theorem ForkAt.find? {as bs cs : List H} {f g : Nat} (hfork : ForkAt as bs f)
    (hcs : ∀ (i : Nat) (hash : H), cs[i]? = some hash → bs[i]? = some hash)
    {heights : List Nat} {locator : List H} (h : List.Forall₂ (fun i hash => cs[i]? = some hash) heights locator)
    (hg : heights.find? (· ≤ f) = some g) : locator.find? (· ∈ as) = as[g]? := by
  induction h with
  | nil => cases hg
  | @cons i hash heights locator hhash hrest ih =>
    have hbs := hcs i hash hhash
    rw [find?_cons] at hg ⊢
    by_cases hi : i ≤ f
    · rw [decide_eq_true hi] at hg
      have hig : i = g := Option.some.inj hg
      have has : as[i]? = some hash := (hfork.shared i hi).trans hbs
      rw [decide_eq_true (mem_of_getElem? has), ← hig, has]
    · rw [decide_eq_false hi] at hg
      rw [decide_eq_false (hfork.apart i hash (by omega) hbs)]
      exact ih hg

/-! ## The exchange -/

variable [ChainHash H] {a b : BlockStorage H} {tipA tipB : ChainNode H} {f maxHashes : Nat}

def ChainNode.hashes (tip : ChainNode H) : List H := tip.chain.map getHash

/-- A request of `b` and the answer of `a`: from the last block located, and from the tip at first. -/
def exchange (a b : BlockStorage H) (maxHashes : Nat) (last : Option H) : Option (List H) :=
  let locator := match last with
    | none => b.bestChain.blockLocator none
    | some hash => b.blockLocatorFromHash hash
  a.locateBlocks locator ChainHash.zeroHash maxHashes

/-- The answers of `a`, while `b` has the last block of each and asks on from there. -/
def syncAnswer (a b : BlockStorage H) (maxHashes : Nat) : Nat → Option (List H)
  | 0 => exchange a b maxHashes none
  | round + 1 => (syncAnswer a b maxHashes round).bind fun hashes => exchange a b maxHashes hashes.getLast?

omit [ChainHash H] in
theorem BestView.idxOf_hashes (h : BestView s tip) {i : Nat} {hash : H} (hget : tip.hashes[i]? = some hash) :
    tip.hashes.idxOf hash = i := by
  have hlt : tip.hashes.idxOf hash < tip.hashes.length := idxOf_lt_length_iff.2 (mem_of_getElem? hget)
  have hfound : tip.hashes[tip.hashes.idxOf hash]? = some hash := by
    rw [getElem?_eq_getElem hlt, getElem_idxOf]
  generalize tip.hashes.idxOf hash = j at hfound
  rw [hashes, getElem?_map, Option.map_eq_some_iff] at hget hfound
  obtain ⟨node, hnode, rfl⟩ := hget
  obtain ⟨node', hnode', hhash⟩ := hfound
  have hi := (of_getElem?_chain h.numbered hnode).1
  have hj := (of_getElem?_chain h.numbered hnode').1
  rw [h.eq_of_hash (mem_of_getElem? hnode') (mem_of_getElem? hnode) hhash] at hj
  omega

section
variable (ha : BestView a tipA) (hb : BestView b tipB) (hfork : ForkAt tipA.hashes tipB.hashes f)
  (hzero : a.index.lookupNode ChainHash.zeroHash = none)
include ha hb hfork hzero

theorem answer_eq {i : Nat} (hnode : tipB.chain[i]? = some node) :
    a.locateBlocks (b.bestChain.blockLocator (some node)) ChainHash.zeroHash maxHashes =
      some ((tipA.hashes.drop (lastCommon i f + 1)).take maxHashes) := by
  obtain ⟨hheight, hnumbered, hchain⟩ := of_getElem?_chain hb.numbered hnode
  have hheights := hb.blockLocator_heights hnumbered
  rw [hheight, Int.toNat_natCast] at hheights
  have hfind := hfork.find? (fun j hash hj => ?_) hheights (find?_locatorHeights i f)
  · have hlt : lastCommon i f < tipA.hashes.length := by
      have hle := lastCommon_le i f
      have hinside := hfork.inside
      omega
    rw [getElem?_eq_getElem hlt] at hfind
    have hstart : startIndex tipA.hashes (b.bestChain.blockLocator (some node)) = lastCommon i f := by
      rw [startIndex, hfind]
      exact ha.idxOf_hashes (getElem?_eq_getElem hlt)
    rw [ha.locateBlocks_eq]
    cases hlocator : b.bestChain.blockLocator (some node) with
    | nil =>
      rw [hlocator] at hfind
      cases hfind
    | cons hash locator =>
      rw [hlocator] at hstart
      rw [located, ← hashes, hstart, ha.upTo_drop_self, map_take, map_drop]
      · rfl
      · intro n hn
        rw [BlockStorage.onBestChain, hzero] at hn
        cases hn
  · rw [hchain] at hj
    have hjlt := (List.getElem?_eq_some_iff.1 hj).1
    rw [length_map, length_take] at hjlt
    rwa [map_take, getElem?_take_of_lt (by omega)] at hj

theorem syncAnswer_eq (hmax : 0 < maxHashes) (round : Nat)
    (hround : lastCommon tipB.height.toNat f + round * maxHashes ≤ f) :
    syncAnswer a b maxHashes round =
      some ((tipA.hashes.drop (lastCommon tipB.height.toNat f + round * maxHashes + 1)).take maxHashes) := by
  induction round with
  | zero =>
    have htip : tipB.chain[tipB.height.toNat]? = some tipB := by
      rw [show tipB.height.toNat = _ from hb.numbered.height.1, getElem?_chain]
    rw [Nat.zero_mul, Nat.add_zero, syncAnswer, exchange]
    rw [hb.blockLocator_tip]
    exact answer_eq ha hb hfork hzero htip
  | succ round ih =>
    rw [Nat.succ_mul] at hround ⊢
    generalize hstart : lastCommon tipB.height.toNat f + round * maxHashes = start at ih
    rw [← Nat.add_assoc, hstart] at hround ⊢
    have hinside := hfork.inside
    -- the last block of the answer is on both chains
    have hlast : ((tipA.hashes.drop (start + 1)).take maxHashes).getLast? = tipB.hashes[start + maxHashes]? := by
      rw [getLast?_eq_getElem?, length_take, length_drop, Nat.min_eq_left (by omega),
        getElem?_take_of_lt (by omega), getElem?_drop, ← hfork.shared _ hround]
      congr 1
      omega
    have hlt : start + maxHashes < tipB.chain.length := by
      have hshared := hfork.shared _ hround
      rw [getElem?_eq_getElem (by omega)] at hshared
      have hlt := (List.getElem?_eq_some_iff.1 hshared.symm).1
      rwa [hashes, length_map] at hlt
    have hnode := getElem?_eq_getElem hlt
    generalize tipB.chain[start + maxHashes] = node at hnode
    rw [hashes, hashes, getElem?_map, hnode, Option.map_some] at hlast
    rw [syncAnswer, ih (by omega), Option.bind_some, hashes, hlast, exchange]
    rw [BlockStorage.blockLocatorFromHash, hb.indexed node (mem_of_getElem? hnode),
      answer_eq ha hb hfork hzero hnode, lastCommon_self hround, hashes]

end

/-- The answer to the locator of the tip begins at most one block above the fork. And when there is a block above
the fork, asking on from the last block of each answer comes to it, and there is nothing new before. -/
theorem sync_passes_fork (maxHashes : Nat) (ha : BestView a tipA) (hb : BestView b tipB)
    (hfork : ForkAt tipA.hashes tipB.hashes f)
    (hzero : a.index.lookupNode ChainHash.zeroHash = none) (hmax : 0 < maxHashes) :
    (∃ start ≤ f, a.locateBlocks (b.bestChain.blockLocator none) ChainHash.zeroHash maxHashes =
      some ((tipA.hashes.drop (start + 1)).take maxHashes)) ∧
    (tipA.getHash ∉ tipB.hashes → ∃ hash, tipA.hashes[f + 1]? = some hash ∧ ∃ round,
      (∃ hashes, syncAnswer a b maxHashes round = some hashes ∧ hash ∈ hashes) ∧
      ∀ earlier < round, ∃ hashes, syncAnswer a b maxHashes earlier = some hashes ∧
        ∀ known ∈ hashes, known ∈ tipB.hashes) := by
  have hle := lastCommon_le tipB.height.toNat f
  have hanswer := syncAnswer_eq ha hb hfork hzero hmax
  generalize lastCommon tipB.height.toNat f = start at hle hanswer
  refine ⟨⟨start, hle, ?_⟩, fun hnew => ?_⟩
  · have hfirst := hanswer 0 (by omega)
    rwa [Nat.zero_mul, Nat.add_zero] at hfirst
  · have hinside := hfork.inside
    -- the tip of `a` is above the fork
    have hlt : f + 1 < tipA.hashes.length := by
      by_contra hend
      have htip : tipA.hashes[f]? = some tipA.getHash := by
        rw [hashes, length_map, length_chain] at hinside hend
        rw [hashes, getElem?_map, show f = tipA.ancestors.length from by omega, getElem?_chain]
        rfl
      rw [hfork.shared f (Nat.le_refl f)] at htip
      exact hnew (mem_of_getElem? htip)
    refine ⟨_, getElem?_eq_getElem hlt, (f - start) / maxHashes, ?_, fun earlier hearlier => ?_⟩
    · have hdiv := Nat.div_add_mod (f - start) maxHashes
      have hmod := Nat.mod_lt (f - start) hmax
      rw [Nat.mul_comm] at hdiv
      refine ⟨_, hanswer _ (by omega), ?_⟩
      generalize (f - start) / maxHashes * maxHashes = passed at hdiv
      refine mem_of_getElem? (i := (f - start) % maxHashes) ?_
      rw [getElem?_take_of_lt hmod, getElem?_drop, ← getElem?_eq_getElem hlt]
      congr 1
      omega
    · have hmul := Nat.mul_le_of_le_div _ _ _ hearlier
      rw [Nat.succ_mul] at hmul
      refine ⟨_, hanswer earlier (by omega), fun known hknown => ?_⟩
      generalize earlier * maxHashes = passed at hmul hknown
      obtain ⟨i, hi⟩ := getElem?_of_mem hknown
      have hbound : i < maxHashes := by
        have hlen := (List.getElem?_eq_some_iff.1 hi).1
        rw [length_take] at hlen
        omega
      rw [getElem?_take_of_lt hbound, getElem?_drop, hfork.shared _ (by omega)] at hi
      exact mem_of_getElem? hi

section Sample
attribute [local instance] sumHash

def longStore : BlockStorage Nat := lineStore (lineNode (· + 1) 13) []

def forkedHash (height : Nat) : Nat := if height ≤ 1 then height + 1 else 100

def forkedStore : BlockStorage Nat := lineStore (lineNode forkedHash 2) []

theorem forkAt_forked : ForkAt (lineNode forkedHash 2).hashes (lineNode (· + 1) 13).hashes 1 where
  inside := by decide
  shared := by decide
  apart i hash hi hget := by
    have hlt := (List.getElem?_eq_some_iff.1 hget).1
    have hall : ∀ i < (lineNode (· + 1) 13).hashes.length, 1 < i →
        ∀ hash ∈ (lineNode (· + 1) 13).hashes[i]?, hash ∉ (lineNode forkedHash 2).hashes := by decide
    exact hall i hlt hi hash hget

theorem views_forked : BestView forkedStore (lineNode forkedHash 2) ∧ BestView longStore (lineNode (· + 1) 13) :=
  ⟨bestView_lineStore (by decide) (by decide), bestView_lineStore (by decide) (by decide)⟩

theorem sync_passes_fork_one : ∃ round hashes, syncAnswer forkedStore longStore 1 round = some hashes ∧ 100 ∈ hashes := by
  obtain ⟨hash, hget, round, ⟨hashes, hanswer, hmem⟩, -⟩ :=
    (sync_passes_fork 1 views_forked.1 views_forked.2 forkAt_forked (by decide) (by decide)).2 (by decide)
  cases hget
  exact ⟨round, hashes, hanswer, hmem⟩

/-- The locator of the tip skips the block at height 1. The answer of one block is that block, which the node has,
so the same request gets the same answer again. -/
theorem repeated_request_stalls :
    BestView forkedStore (lineNode forkedHash 2) ∧ BestView longStore (lineNode (· + 1) 13) ∧
    ForkAt (lineNode forkedHash 2).hashes (lineNode (· + 1) 13).hashes 1 ∧
    (lineNode forkedHash 2).getHash ∉ (lineNode (· + 1) 13).hashes ∧
    forkedStore.locateBlocks (longStore.bestChain.blockLocator none) 0 1 = some [2] ∧
    (longStore.index.lookupNode 2).isSome ∧ (lineNode forkedHash 2).hashes[1 + 1]? = some 100 :=
  ⟨views_forked.1, views_forked.2, forkAt_forked, by decide, by decide, by decide, by decide⟩

end Sample

end Jaxnetd.Blockchain
