import Jaxnetd.Blockchain.RestartInv

/-!
# Locating blocks for a peer

A peer names its blocks, newest first, and asks for what comes behind them (`locateInventory`, `locateBlocks` and
`locateHeaders` of `chain.go`). The block locator is built by `chainview.go`: the last blocks one by one, then with gaps
that double, down to genesis.
-/

namespace Jaxnetd.Blockchain
open Wire Chaindata List ChainNode BlockStorage

variable {H : Type}

/-! ## The view by height -/

/-- The walk of `Ancestor` along the parents. -/
def ChainNode.walkFrom (height : Int) (n : NodeInfo H) : List (NodeInfo H) → Option (ChainNode H)
  | [] => if n.header.height = height then some ⟨n, []⟩ else none
  | p :: ancestors => if n.header.height = height then some ⟨n, p :: ancestors⟩ else walkFrom height p ancestors

def ChainNode.ancestor (node : ChainNode H) (height : Int) : Option (ChainNode H) :=
  if height < 0 ∨ node.height < height then none else walkFrom height node.toNodeInfo node.ancestors

namespace ChainView

variable (c : ChainView H)

def genesis : Option (ChainNode H) := c.nodes.head?.join

def nodeByHeight (height : Int) : Option (ChainNode H) :=
  if height < 0 ∨ (c.nodes.length : Int) ≤ height then none else c.nodes[height.toNat]?.join

variable [DecidableEq H]

def contains (node : ChainNode H) : Bool := c.nodeByHeight node.height = some node

variable (node : Option (ChainNode H))

def next : Option (ChainNode H) :=
  node.bind fun node => if c.contains node then c.nodeByHeight (node.height + 1) else none

/-- The loop of `blockLocator`. Heights go down in it, so it ends before the fuel does. The step is an `int32`;
it leaves that range only after genesis is reached. -/
def locatorLoop (c : ChainView H) : Nat → (len step : Nat) → ChainNode H → List H
  | 0, _, _, _ => []
  | fuel + 1, len, step, node =>
    node.getHash ::
      if node.height = 0 then []
      else
        let height := max (node.height - step) 0
        let previous := if c.contains node then c.nodes[height.toNat]?.join else node.ancestor height
        match previous with
        | none => []
        | some previous => c.locatorLoop fuel (len + 1) (if 10 < len + 1 then step * 2 else step) previous

/-- `BlockLocator`, where no node stands for the tip. Of a locator's entry only the hash is there. -/
def blockLocator : List H :=
  match node.or c.tip with
  | none => []
  | some node => c.locatorLoop (node.height.toNat + 1) 0 1 node

end ChainView

/-! ## Locating -/

structure HeaderBox (H : Type) where
  actualMMRRoot : H
  header : IndexHeader H
deriving DecidableEq

def maxBlockHeadersPerMsg : Nat := 1000

def BlockIndex.lookupNode (bi : BlockIndex H) (hash : H) : Option (ChainNode H) := bi.index.get hash

namespace BlockStorage

def actualRoot [ChainHash H] (s : BlockStorage H) (node : ChainNode H) : H :=
  (s.actualMMRRoot.get node.getHash).getD ChainHash.zeroHash

variable [DecidableEq H] (s : BlockStorage H)

def blockLocatorFromHash (hash : H) : List H := s.bestChain.blockLocator (s.index.lookupNode hash)

def onBestChain (hash : H) : Option (ChainNode H) :=
  (s.index.lookupNode hash).filter s.bestChain.contains

def locateInventory (locator : List H) (hashStop : H) (maxEntries : Nat) :
    Option (ChainNode H) × Nat :=
  if locator.isEmpty then
    match s.index.lookupNode hashStop with
    | none => (none, 0)
    | some stopNode => (some stopNode, 1)
  else
    match s.bestChain.next ((locator.findSome? s.onBestChain).or s.bestChain.genesis) with
    | none => (none, 0)
    | some startNode =>
      let last : Int := match s.onBestChain hashStop with
        | some stopNode =>
          if startNode.height ≤ stopNode.height then stopNode.height else s.bestChain.tip.elim 0 height
        | none => s.bestChain.tip.elim 0 height
      (some startNode, min ((last - startNode.height + 1) % 2 ^ 32).toNat maxEntries)

/-- The loops over the located nodes. There is nothing to read of a nil node. -/
def gather {α : Type} (s : BlockStorage H) (entry : ChainNode H → α) : Nat → Option (ChainNode H) → Option (List α)
  | 0, _ => some []
  | _ + 1, none => none
  | total + 1, some node => (s.gather entry total (s.bestChain.next (some node))).map (entry node :: ·)

def locateBlocks (locator : List H) (hashStop : H) (maxHashes : Nat) : Option (List H) :=
  let (node, total) := s.locateInventory locator hashStop maxHashes
  s.gather getHash total node

variable [ChainHash H]

/-- `LocateHeaders`. `newHeader` is what `NewHeader` of a node makes: an empty header, the same for every node. -/
def locateHeaders (newHeader : IndexHeader H) (locator : List H) (hashStop : H) :
    Option (List (HeaderBox H)) :=
  let (node, total) := s.locateInventory locator hashStop maxBlockHeadersPerMsg
  s.gather (fun node => ⟨s.actualRoot node, newHeader⟩) total node

end BlockStorage

/-! ## The blocks asked for -/

/-- The nodes up to the one with the hash `stop`, which is the last. -/
def upTo [DecidableEq H] (stop : H) : List (ChainNode H) → List (ChainNode H)
  | [] => []
  | node :: nodes => if node.getHash = stop then [node] else node :: upTo stop nodes

/-- Where the first hash of the locator that is on the chain stands in it, and genesis without one. -/
def startIndex [DecidableEq H] (hashes locator : List H) : Nat := (locator.find? (· ∈ hashes)).elim 0 hashes.idxOf

/-- The nodes that a locator and a stop hash ask for: without locator, the node of the stop hash; with one, what comes on
the best chain behind the first hash on it, up to the stop hash. -/
def located [DecidableEq H] (s : BlockStorage H) (tip : ChainNode H) (locator : List H) (hashStop : H) (maxEntries : Nat) :
    List (ChainNode H) :=
  match locator with
  | [] => (s.index.lookupNode hashStop).toList
  | _ :: _ =>
    (upTo hashStop (tip.chain.drop (startIndex (tip.chain.map getHash) locator + 1))).take maxEntries

/-! ## Nodes of a numbered chain -/

namespace ChainNode
variable {tip node : ChainNode H}

section
variable (hn : Numbered tip.toNodeInfo tip.ancestors)
include hn

theorem numbered_of_mem_chain (h : node ∈ tip.chain) :
    Numbered node.toNodeInfo node.ancestors := by
  induction tip using parentInduction with
  | root tip hp =>
    rw [chain_root hp, mem_singleton] at h
    rwa [h]
  | child tip p hp ih =>
    rw [chain_child hp, mem_append, mem_singleton] at h
    rcases h with h | rfl
    · exact ih (numbered_parent hn hp).1 h
    · exact hn

theorem of_getElem?_chain {i : Nat} (h : tip.chain[i]? = some node) :
    node.height = i ∧ Numbered node.toNodeInfo node.ancestors ∧ node.chain = tip.chain.take (i + 1) := by
  have hnum := numbered_of_mem_chain hn (mem_of_getElem? h)
  have hchain := chain_take h
  have hheight := height_chain hnum
  have hlt := (List.getElem?_eq_some_iff.1 h).1
  rw [hchain, length_take] at hheight
  exact ⟨by omega, hnum, hchain⟩

theorem getElem?_of_mem_chain (h : node ∈ tip.chain) :
    tip.chain[node.height.toNat]? = some node ∧ 0 ≤ node.height := by
  obtain ⟨i, hi⟩ := getElem?_of_mem h
  have hheight := (of_getElem?_chain hn hi).1
  rw [hheight, Int.toNat_natCast]
  exact ⟨hi, by omega⟩

end

theorem ancestor_eq (hn : Numbered node.toNodeInfo node.ancestors) {i : Nat} (hi : (i : Int) ≤ node.height) :
    node.ancestor i = node.chain[i]? := by
  have hwalk : ∀ node : ChainNode H, Numbered node.toNodeInfo node.ancestors → (i : Int) ≤ node.height →
      walkFrom i node.toNodeInfo node.ancestors = node.chain[i]? := by
    intro node
    induction node using parentInduction with
    | root node hp =>
      intro hn hi
      have hheight := height_chain hn
      rw [chain_root hp, length_singleton] at hheight
      obtain ⟨n, _ | ⟨p, ancestors⟩⟩ := node
      · have hzero : n.header.height = 0 := hn
        obtain rfl : i = 0 := by
          omega
        simp [walkFrom, hzero, chain_root hp]
      · cases hp
    | child node p hp ih =>
      intro hn hi
      have hnp := (numbered_parent hn hp).1
      have hplace := height_chain hnp
      rw [chain_child hp]
      obtain ⟨n, _ | ⟨q, ancestors⟩⟩ := node
      · cases hp
      · cases hp
        have hstep : n.header.height = height ⟨q, ancestors⟩ + 1 := hn.1
        by_cases heq : n.header.height = i
        · have hlast : i = (chain ⟨q, ancestors⟩).length := by omega
          rw [walkFrom, if_pos heq, hlast, getElem?_concat_length]
        · have hle : (i : Int) ≤ n.header.height := hi
          rw [walkFrom, if_neg heq, getElem?_append_left (by omega)]
          exact ih hnp (by omega)
  rw [ancestor, if_neg (by omega)]
  exact hwalk node hn hi

end ChainNode

/-! ## The view of a chain -/

structure ChainView.Shows (c : ChainView H) (tip : ChainNode H) : Prop where
  numbered : Numbered tip.toNodeInfo tip.ancestors
  nodes : c.nodes = tip.chain.map some

namespace ChainView.Shows
variable {c : ChainView H} {tip node : ChainNode H}

theorem nodeByHeight (h : c.Shows tip) (i : Nat) : c.nodeByHeight i = tip.chain[i]? := by
  rw [ChainView.nodeByHeight, h.nodes]
  by_cases hi : i < tip.chain.length
  · rw [if_neg (by simp; omega), Int.toNat_natCast, getElem?_map]
    rw [getElem?_eq_getElem hi]
    rfl
  · rw [if_pos (.inr (by simp; omega)), getElem?_eq_none (by omega)]

theorem tip_eq (h : c.Shows tip) : c.tip = some tip := by
  rw [ChainView.tip, h.nodes, getLast?_map, tip.getLast?_chain]
  rfl

theorem contains_iff [DecidableEq H] (h : c.Shows tip) : c.contains node = true ↔ node ∈ tip.chain := by
  rw [ChainView.contains, decide_eq_true_eq]
  constructor
  · intro heq
    have hnonneg : 0 ≤ node.height := by
      by_contra hneg
      rw [ChainView.nodeByHeight, if_pos (.inl (by omega))] at heq
      cases heq
    rw [← Int.toNat_of_nonneg hnonneg, h.nodeByHeight] at heq
    exact mem_of_getElem? heq
  · intro hmem
    obtain ⟨hget, hnonneg⟩ := getElem?_of_mem_chain h.numbered hmem
    rw [← Int.toNat_of_nonneg hnonneg, h.nodeByHeight, hget]

end ChainView.Shows

/-! ## The storage with a best chain -/

/-- The view of the best chain shows the chain of `tip`, and the index holds nodes under their hashes, those of
the chain among them. Heights are of type `int32`. -/
structure BestView (s : BlockStorage H) (tip : ChainNode H) : Prop where
  key : ∀ hash node, s.index.lookupNode hash = some node → node.getHash = hash
  indexed : ∀ node ∈ tip.chain, s.index.lookupNode node.getHash = some node
  numbered : Numbered tip.toNodeInfo tip.ancestors
  nodes : s.bestChain.nodes = tip.chain.map some
  height : tip.height < 2 ^ 31

namespace BestView
variable {s : BlockStorage H} {tip node : ChainNode H} {hash : H} {i : Nat}

section
variable (h : BestView s tip)
include h

theorem length_chain : (tip.chain.length : Int) = tip.height + 1 := by
  have hheight := height_chain h.numbered
  omega

theorem shows : s.bestChain.Shows tip := ⟨h.numbered, h.nodes⟩

theorem nodeByHeight (i : Nat) : s.bestChain.nodeByHeight i = tip.chain[i]? := h.shows.nodeByHeight i

theorem tip_eq : s.bestChain.tip = some tip := h.shows.tip_eq

theorem genesis_eq : s.bestChain.genesis = tip.chain[0]? := by
  rw [ChainView.genesis, h.nodes, head?_map, head?_eq_getElem?]
  cases tip.chain[0]? <;> rfl

theorem eq_of_hash {node' : ChainNode H} (hnode : node ∈ tip.chain) (hnode' : node' ∈ tip.chain)
    (heq : node.getHash = node'.getHash) : node = node' := by
  have hget := h.indexed node hnode
  rw [heq, h.indexed node' hnode', Option.some.injEq] at hget
  exact hget.symm

end

variable [DecidableEq H]

section
variable (h : BestView s tip)
include h

theorem contains_iff : s.bestChain.contains node = true ↔ node ∈ tip.chain := h.shows.contains_iff

theorem next_eq (hget : tip.chain[i]? = some node) :
    s.bestChain.next (some node) = tip.chain[i + 1]? := by
  have hheight := (of_getElem?_chain h.numbered hget).1
  rw [ChainView.next, Option.bind_some, if_pos (h.contains_iff.2 (mem_of_getElem? hget)), hheight, ← h.nodeByHeight]
  rfl

theorem onBestChain_iff : s.onBestChain hash = some node ↔ node ∈ tip.chain ∧ node.getHash = hash := by
  rw [onBestChain, Option.filter_eq_some_iff, h.contains_iff]
  constructor
  · rintro ⟨hget, hmem⟩
    exact ⟨hmem, h.key _ _ hget⟩
  · rintro ⟨hmem, rfl⟩
    exact ⟨h.indexed node hmem, hmem⟩

theorem onBestChain_eq (hash : H) : s.onBestChain hash =
    if hash ∈ tip.chain.map getHash then tip.chain[(tip.chain.map getHash).idxOf hash]? else none := by
  split
  next hmem =>
    have hlt := idxOf_lt_length_iff.2 hmem
    have hhash := getElem_idxOf hlt
    rw [length_map] at hlt
    rw [getElem_map] at hhash
    rw [getElem?_eq_getElem hlt, h.onBestChain_iff]
    exact ⟨getElem_mem hlt, hhash⟩
  next hmem =>
    rw [Option.eq_none_iff_forall_ne_some]
    intro node hnode
    obtain ⟨hchain, rfl⟩ := h.onBestChain_iff.1 hnode
    exact hmem (mem_map_of_mem hchain)

theorem startNode_eq (locator : List H) :
    (locator.findSome? s.onBestChain).or s.bestChain.genesis =
      tip.chain[startIndex (tip.chain.map getHash) locator]? := by
  induction locator with
  | nil => exact h.genesis_eq
  | cons hash locator ih =>
    rw [findSome?_cons, h.onBestChain_eq, startIndex, find?_cons]
    by_cases hmem : hash ∈ tip.chain.map getHash
    · have hlt := idxOf_lt_length_iff.2 hmem
      rw [length_map] at hlt
      rw [if_pos hmem, decide_eq_true hmem, getElem?_eq_getElem hlt]
      exact (getElem?_eq_getElem hlt).symm
    · rw [if_neg hmem, decide_eq_false hmem]
      exact ih

theorem startIndex_lt (locator : List H) :
    startIndex (tip.chain.map getHash) locator < tip.chain.length := by
  have hlength := h.length_chain
  have hheight := (height_chain h.numbered).2
  unfold startIndex
  cases hfind : locator.find? (· ∈ tip.chain.map getHash) with
  | none =>
    show 0 < _
    omega
  | some hash =>
    have hmem : hash ∈ tip.chain.map getHash := by simpa using find?_some hfind
    have hlt := idxOf_lt_length_iff.2 hmem
    rwa [length_map] at hlt

end

end BestView

/-! ## Up to the stop hash -/

section
variable [DecidableEq H] {stop : H} {s : BlockStorage H} {tip node : ChainNode H} {i : Nat}
  {nodes : List (ChainNode H)}

theorem upTo_eq_self (h : ∀ node ∈ nodes, node.getHash ≠ stop) : upTo stop nodes = nodes := by
  induction nodes with
  | nil => rfl
  | cons node nodes ih =>
    rw [upTo, if_neg (h node (by simp)), ih fun n hn => h n (mem_cons_of_mem _ hn)]

theorem upTo_eq_take {node : ChainNode H} {k : Nat} (hget : nodes[k]? = some node)
    (hstop : node.getHash = stop) (hbefore : ∀ j < k, ∀ n, nodes[j]? = some n → n.getHash ≠ stop) :
    upTo stop nodes = nodes.take (k + 1) := by
  induction nodes generalizing k with
  | nil => cases hget
  | cons n nodes ih =>
    cases k with
    | zero =>
      cases hget
      rw [upTo, if_pos hstop]
      rfl
    | succ k =>
      rw [upTo, if_neg (hbefore 0 (by omega) n rfl), take_succ_cons]
      rw [ih hget fun j hj m hm => hbefore (j + 1) (by omega) m hm]

theorem BestView.upTo_drop (h : BestView s tip) (hnode : s.onBestChain stop = some node) (hi : (i : Int) ≤ node.height) :
    upTo stop (tip.chain.drop i) = (tip.chain.drop i).take (node.height.toNat - i + 1) := by
  obtain ⟨hmem, hstop⟩ := h.onBestChain_iff.1 hnode
  have hget := (getElem?_of_mem_chain h.numbered hmem).1
  have hplace : (tip.chain.drop i)[node.height.toNat - i]? = some node := by
    rw [getElem?_drop, ← hget]
    congr 1
    omega
  refine upTo_eq_take hplace hstop fun j hj n hn hsame => ?_
  rw [getElem?_drop] at hn
  have hheight := (of_getElem?_chain h.numbered hn).1
  rw [h.eq_of_hash (mem_of_getElem? hn) hmem (hsame.trans hstop.symm)] at hheight
  omega

theorem BestView.upTo_drop_self (h : BestView s tip) (hnode : ∀ node, s.onBestChain stop = some node → node.height < i) :
    upTo stop (tip.chain.drop i) = tip.chain.drop i := by
  refine upTo_eq_self fun n hn hsame => ?_
  obtain ⟨j, hj⟩ := getElem?_of_mem hn
  rw [getElem?_drop] at hj
  have hheight := (of_getElem?_chain h.numbered hj).1
  have hlt := hnode n (h.onBestChain_iff.2 ⟨mem_of_getElem? hj, hsame⟩)
  omega

theorem BestView.gather_eq {α : Type} (h : BestView s tip) (entry : ChainNode H → α) (total : Nat)
    (hi : i + total ≤ tip.chain.length) :
    s.gather entry total tip.chain[i]? = some (((tip.chain.drop i).take total).map entry) := by
  induction total generalizing i with
  | zero => simp [gather]
  | succ total ih =>
    have hlt : i < tip.chain.length := by omega
    rw [getElem?_eq_getElem hlt, gather, h.next_eq (getElem?_eq_getElem hlt), ih (by omega),
      drop_eq_getElem_cons hlt, take_succ_cons]
    rfl

/-! ## What is located -/

theorem BestView.locateInventory_eq (h : BestView s tip) {locator : List H} (hlocator : locator ≠ []) (hashStop : H)
    (maxEntries : Nat) : let start := startIndex (tip.chain.map getHash) locator + 1
    ∃ total, s.locateInventory locator hashStop maxEntries = (tip.chain[start]?, total) ∧
      start + total ≤ tip.chain.length ∧
      (tip.chain.drop start).take total = (upTo hashStop (tip.chain.drop start)).take maxEntries := by
  intro start
  have hlt := h.startIndex_lt locator
  have hlength := h.length_chain
  have hbound := h.height
  have hnext : s.bestChain.next ((locator.findSome? s.onBestChain).or s.bestChain.genesis) = tip.chain[start]? := by
    rw [h.startNode_eq, getElem?_eq_getElem hlt, h.next_eq (getElem?_eq_getElem hlt)]
  rw [locateInventory, if_neg (by simpa using hlocator), hnext, h.tip_eq]
  cases hget : tip.chain[start]? with
  | none =>
    have hend := getElem?_eq_none_iff.1 hget
    refine ⟨0, rfl, hlt, ?_⟩
    rw [drop_eq_nil_of_le hend]
    simp [upTo]
  | some startNode =>
    have hheight := (of_getElem?_chain h.numbered hget).1
    -- to the tip, when the stop block is not on the best chain or below the start
    have hopen (hnode : ∀ node, s.onBestChain hashStop = some node → node.height < start) :
        start + min ((tip.height - startNode.height + 1) % 2 ^ 32).toNat maxEntries ≤ tip.chain.length ∧
        (tip.chain.drop start).take (min ((tip.height - startNode.height + 1) % 2 ^ 32).toNat maxEntries) =
          (upTo hashStop (tip.chain.drop start)).take maxEntries := by
      have htotal : ((tip.height - startNode.height + 1) % 2 ^ 32).toNat = tip.chain.length - start := by omega
      refine ⟨by omega, ?_⟩
      rw [h.upTo_drop_self hnode, htotal, Nat.min_comm, ← take_take, take_of_length_le (i := tip.chain.length - start)
        (by simp)]
    cases hnode : s.onBestChain hashStop with
    | none => exact ⟨_, rfl, hopen fun node hn => by rw [hnode] at hn; cases hn⟩
    | some stopNode =>
      dsimp only
      split
      next hle =>
        have hstop := (getElem?_of_mem_chain h.numbered (h.onBestChain_iff.1 hnode).1).1
        have hin := (List.getElem?_eq_some_iff.1 hstop).1
        have htotal : ((stopNode.height - startNode.height + 1) % 2 ^ 32).toNat = stopNode.height.toNat - start + 1 := by
          omega
        refine ⟨_, rfl, by omega, ?_⟩
        rw [h.upTo_drop hnode (hheight ▸ hle), htotal, Nat.min_comm, ← take_take]
      next hgt =>
        refine ⟨_, rfl, hopen fun node hn => ?_⟩
        rw [hnode, Option.some.injEq] at hn
        subst hn
        omega

theorem BestView.gather_located {α : Type} (h : BestView s tip) (entry : ChainNode H → α) (locator : List H) (hashStop : H)
    (maxEntries : Nat) :
    s.gather entry (s.locateInventory locator hashStop maxEntries).2 (s.locateInventory locator hashStop maxEntries).1 =
      some ((located s tip locator hashStop maxEntries).map entry) := by
  cases locator with
  | nil =>
    rw [locateInventory, located]
    cases s.index.lookupNode hashStop <;> rfl
  | cons hash locator =>
    obtain ⟨total, heq, hle, htake⟩ := h.locateInventory_eq (cons_ne_nil hash locator) hashStop maxEntries
    rw [heq, h.gather_eq entry total hle, htake, located]

theorem BestView.locateBlocks_eq (h : BestView s tip) (locator : List H) (hashStop : H) (maxHashes : Nat) :
    s.locateBlocks locator hashStop maxHashes = some ((located s tip locator hashStop maxHashes).map getHash) :=
  h.gather_located getHash locator hashStop maxHashes

/-- `LocateBlocks` returns the hashes of the located blocks, and `LocateHeaders` one box for each of them, with
its MMR root. -/
theorem located_hashes_and_roots [ChainHash H] (newHeader : IndexHeader H) (h : BestView s tip) (locator : List H)
    (hashStop : H) (maxHashes : Nat) :
    s.locateBlocks locator hashStop maxHashes = some ((located s tip locator hashStop maxHashes).map getHash) ∧
      (s.locateHeaders newHeader locator hashStop).map (List.map HeaderBox.actualMMRRoot) =
        some ((located s tip locator hashStop maxBlockHeadersPerMsg).map s.actualRoot) := by
  refine ⟨h.locateBlocks_eq _ _ _, ?_⟩
  have hboxes := h.gather_located (fun node => (⟨s.actualRoot node, newHeader⟩ : HeaderBox H)) locator hashStop
    maxBlockHeadersPerMsg
  rw [locateHeaders]
  simp only [hboxes, Option.map_some, map_map]
  rfl

end

section Sample
attribute [local instance] sumHash

def lineNode (hash : Nat → Nat) : Nat → ChainNode Nat
  | 0 => .new (storeHeader 0 (hash 0) 0 0) none 0
  | height + 1 => .new (storeHeader (height + 1) (hash (height + 1)) (hash height) 0) (some (lineNode hash height))
    (height + 1)

def indexOf (nodes : List (ChainNode Nat)) : GoMap Nat (ChainNode Nat) :=
  nodes.foldl (fun index node => index.set node.getHash node) .empty

def lineStore (tip : ChainNode Nat) (side : List (ChainNode Nat)) : BlockStorage Nat :=
  { genesisStore with
    index := ⟨indexOf (side ++ tip.chain), .empty, [], .new⟩
    bestChain := ⟨tip.chain.map some, .new⟩
    actualMMRRoot := tip.chain.foldl (fun roots node => roots.set node.getHash node.getHash) .empty }

theorem getHash_of_indexOf {nodes : List (ChainNode Nat)} {hash : Nat} {node : ChainNode Nat}
    (h : (indexOf nodes).get hash = some node) : node.getHash = hash := by
  induction nodes using List.reverseRecOn with
  | nil => cases h
  | append_singleton nodes n ih =>
    rw [indexOf, foldl_append, foldl_cons, foldl_nil, GoMap.get_set] at h
    split at h
    next heq =>
      cases h
      exact heq.symm
    next => exact ih h

theorem numbered_lineNode (hash : Nat → Nat) (height : Nat) :
    Numbered (lineNode hash height).toNodeInfo (lineNode hash height).ancestors := by
  have hheight : (lineNode hash height).header.height = height := by cases height <;> rfl
  induction height with
  | zero => rfl
  | succ height ih =>
    refine ⟨?_, ih (by cases height <;> rfl)⟩
    rw [hheight, show (lineNode hash height).header.height = height from by cases height <;> rfl]
    rfl

theorem bestView_lineStore {hash : Nat → Nat} {height : Nat} {side : List (ChainNode Nat)} (hheight : height < 2 ^ 31)
    (hindexed : ∀ node ∈ (lineNode hash height).chain,
      (indexOf (side ++ (lineNode hash height).chain)).get node.getHash = some node) :
    BestView (lineStore (lineNode hash height) side) (lineNode hash height) where
  key _ _ := getHash_of_indexOf
  indexed := hindexed
  numbered := numbered_lineNode hash height
  nodes := rfl
  height := by
    rw [show (lineNode hash height).height = height from by cases height <;> rfl]
    omega

def threeBlocks : BlockStorage Nat := lineStore (lineNode (· + 1) 2) [lineNode (fun i => if i = 0 then 1 else 9) 1]

theorem located_from_first : BestView threeBlocks (lineNode (· + 1) 2) ∧
    threeBlocks.locateBlocks [7, 1] 0 5 = some [2, 3] := by
  have hview : BestView threeBlocks (lineNode (· + 1) 2) := bestView_lineStore (by decide) (by decide)
  exact ⟨hview, (located_hashes_and_roots (storeHeader 0 0 0 0) hview [7, 1] 0 5).1.trans (by decide)⟩

/-- Without a locator only the stop block is returned, also when it is beside the best chain, and nothing when it is
not known. The headers that are returned are not those of the nodes. -/
theorem locate_without_locator : BestView threeBlocks (lineNode (· + 1) 2) ∧
    threeBlocks.locateBlocks [] 9 5 = some [9] ∧ 9 ∉ (lineNode (· + 1) 2).chain.map getHash ∧
    threeBlocks.locateBlocks [] 7 5 = some [] ∧
    ∀ newHeader, threeBlocks.locateHeaders newHeader [2] 0 = some [⟨3, newHeader⟩] := by
  refine ⟨bestView_lineStore (by decide) (by decide), by decide, by decide, by decide, fun newHeader => rfl⟩

end Sample

end Jaxnetd.Blockchain
