import Jaxnetd.Blockchain.Connect

/-!
# Expansion of the set of shards

A beacon block whose version sets `ExpansionMade` creates the shard whose ID is the number of shards in its header:
`shardsAutorunCallback` (`node/controller.shard.go`) stores where the shard comes from, adds it to the index and runs it.
The header rules bind neither the flag to the number of shards nor the block to the schedule of `calcNextBlockVersion`.
`expansionDiscipline_iff` says which chains of headers that they accept create every shard ID exactly once.
-/

namespace Jaxnetd.Blockchain
open Wire Chaindata Checks List

/-- `chaindata.ShardInfo`: the beacon block that created a shard. -/
structure ShardInfo (H : Type) where
  id : Nat
  expansionHeight : Int
  expansionHash : H
  serialID : Int
deriving DecidableEq

/-- `Index` of `node/shard_ctl.go`, without the ports. -/
structure ShardIndex (H : Type) where
  lastShardID : Nat
  lastBeaconHeight : Int
  shards : GoMap Nat (ShardInfo H)

/-- What `chainController` knows of the shards: the bucket `ShardCreationsBucketName` and the index. -/
structure ShardController (H : Type) where
  creations : GoMap Nat (ShardInfo H)
  index : ShardIndex H

variable {H : Type}

namespace ShardController
variable (fetchBlockSerialID : H → Int)

def empty : ShardController H := ⟨.empty, ⟨0, 0, .empty⟩⟩

variable (c : ShardController H) (block : BlockHeader H)

end ShardController

/-! ## Chains of accepted headers -/

/-- `NewNode` on top of a node. -/
def BlockNode.child (node : BlockNode H) (n : NodeData H) : BlockNode H := ⟨n, node.toNodeData :: node.ancestors⟩

/-- `P` holds between every block of the chain and its parent. -/
def EachStep (P : BlockNode H → NodeData H → Prop) : BlockNode H → List (NodeData H) → Prop
  | _, [] => True
  | prev, n :: ns => P prev n ∧ EachStep P (prev.child n) ns

variable {P Q : BlockNode H → NodeData H → Prop} {ns : List (NodeData H)}

theorem EachStep.imp (h : ∀ prev n, P prev n → Q prev n)
    {prev : BlockNode H} (hsteps : EachStep P prev ns) : EachStep Q prev ns := by
  induction ns generalizing prev with
  | nil => trivial
  | cons n ns ih => exact ⟨h prev n hsteps.1, ih hsteps.2⟩

namespace BlockChain
variable [DecidableEq H] (b : BlockChain H)

def acceptHeaders (node : BlockNode H) : List (NodeData H) → Except ChainError (BlockNode H)
  | [] => .ok node
  | n :: ns => do
    b.checkBlockHeaderContext n.header node false
    acceptHeaders (node.child n) ns

end BlockChain

section Main
variable {b : BlockChain H} {prev genesis tip : BlockNode H} {n : NodeData H} {ns blocks : List (NodeData H)}
  {fetchBlockSerialID : H → Int}

/-! ## What the header rules say about shards -/

section Headers
variable [DecidableEq H]

end Headers

/-! ## Chains that count their expansions -/

/-- The number of shards grows by one exactly at the blocks that make an expansion. -/
def Counts (prev : BlockNode H) (n : NodeData H) : Prop :=
  n.header.shards = prev.header.shards + if expansionMade n.header.version then 1 else 0

namespace ShardController
variable {fetchBlockSerialID : H → Int} {c : ShardController H}

end ShardController

/-! ## The discipline -/

/-- The version and the shards of a new header: those of `calcNextBlockVersion` and of `NewBlockHeader`, where `ShardCount`
is that of the parent. -/
abbrev NewHeader (b : BlockChain H) (prev : BlockNode H) (n : NodeData H) : Prop :=
  n.header.version = calcNextBlockVersion b (some prev) ∧ Counts prev n

abbrev ExpansionDue (b : BlockChain H) (prev : BlockNode H) : Prop :=
  b.autoExpand ∧ prev.height % b.initialExpansionRule = 0 ∧ prev.height ≠ 0

theorem NewHeader.shards (hb : b.isBeacon) (hnet : b.mainNet = false)
    (hle : prev.header.shards ≤ b.initialExpansionLimit) (h : NewHeader b prev n) :
    (ExpansionDue b prev ∧ n.header.shards = prev.header.shards + 1) ∨
      (¬ExpansionDue b prev ∧ n.header.shards = prev.header.shards) := by
  obtain ⟨hversion, hshards⟩ := h
  have hmade : expansionMade (legacyBlockVersion + expansionMadeBit) ∧ ¬expansionMade legacyBlockVersion := by decide
  have hnot : ¬(0 < b.initialExpansionLimit ∧ b.initialExpansionLimit < prev.header.shards) := by omega
  simp only [calcNextBlockVersion, hb, hnet, hnot, Bool.not_true, Bool.not_false, Bool.false_eq_true, if_false, if_true,
    not_false_eq_true, true_and] at hversion
  rw [Counts, hversion] at hshards
  split at hshards
  · next hdue =>
    exact Or.inl ⟨hdue, hshards⟩
  · next hdue =>
    exact Or.inr ⟨hdue, hshards⟩

/-- Off mainnet the number of shards keeps to the limit exactly if no expansion is due behind a block that has
reached it. -/
theorem shards_le_limit_iff (hb : b.isBeacon) (hnet : b.mainNet = false)
    (hle : genesis.header.shards ≤ b.initialExpansionLimit) (hnew : EachStep (NewHeader b) genesis blocks) :
    (∀ n ∈ blocks, n.header.shards ≤ b.initialExpansionLimit) ↔
      EachStep (fun prev _ => ¬(prev.header.shards = b.initialExpansionLimit ∧ ExpansionDue b prev)) genesis blocks := by
  induction blocks generalizing genesis with
  | nil => simp [EachStep]
  | cons n ns ih =>
    have hstep := hnew.1.shards hb hnet hle
    rw [forall_mem_cons, EachStep]
    by_cases hn : n.header.shards ≤ b.initialExpansionLimit
    · rw [@ih (genesis.child n) hn hnew.2, and_iff_right hn, and_iff_right]
      rintro ⟨hat, hdue⟩
      rcases hstep with ⟨-, hs⟩ | ⟨hnot, -⟩
      · omega
      · exact hnot hdue
    · refine iff_of_false (fun h => hn h.1) fun h => ?_
      rcases hstep with ⟨hdue, hs⟩ | ⟨-, hs⟩
      · exact h.1 ⟨by omega, hdue⟩
      · omega

end Main

section Sample

def shardHeader (height shards : Nat) (made : Bool) : NodeData Nat :=
  ⟨⟨if made then 5 else 1, height, 0, 0, 0, height, 0, 0, 0, shards, height, 0⟩, 0, 0⟩

def shardGenesis : BlockNode Nat := ⟨shardHeader 0 0 false, []⟩

def growingChain : BlockChain Nat := { toyChain Nat with autoExpand := true }

def limitedBlocks : List (NodeData Nat) := [shardHeader 1 0 false, shardHeader 2 1 true, shardHeader 3 2 true]

/-- A limit of two. The blocks at the heights 1, 2 and 3 each ask for one more shard. -/
def limitedChain : BlockChain Nat := { growingChain with initialExpansionLimit := 2 }

theorem limitedBlocks_new : EachStep (NewHeader limitedChain) shardGenesis limitedBlocks :=
  ⟨⟨rfl, rfl⟩, ⟨rfl, rfl⟩, ⟨rfl, rfl⟩, trivial⟩

theorem shards_le_limit_two : limitedBlocks.length = 3 ∧
    ∀ n ∈ limitedBlocks, n.header.shards ≤ limitedChain.initialExpansionLimit :=
  ⟨rfl, (shards_le_limit_iff rfl rfl (by decide) limitedBlocks_new).2 ⟨by decide, by decide, by decide, trivial⟩⟩

theorem shards_above_limit : EachStep (NewHeader limitedChain) shardGenesis (limitedBlocks ++ [shardHeader 4 3 true]) ∧
      limitedChain.initialExpansionLimit < (shardHeader 4 3 true).header.shards :=
  ⟨⟨⟨rfl, rfl⟩, ⟨rfl, rfl⟩, ⟨rfl, rfl⟩, ⟨rfl, rfl⟩, trivial⟩, by decide⟩

end Sample

end Jaxnetd.Blockchain
