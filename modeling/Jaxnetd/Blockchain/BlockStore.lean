import Jaxnetd.Mmr.Container
import Jaxnetd.Chaindata.SpendJournal
import Jaxnetd.Blockchain.Connect

/-!
# The store of blocks

What the chain keeps of its blocks, in memory and in the database: the block nodes (`blocknodes`), the view of the best
chain (`chainview.go`), the block index (`blockindex.go`) and the buckets of the database (`chaindb_io.go`,
`chaindb_block_serial_id.go`). Operations on the database can fail; which ones do is part of the environment. A failed
transaction is rolled back.

A block node is shared between the index and the view. Two of its fields change: the status, kept in the index, and the
actual MMR root, which stands beside both.
-/

namespace Jaxnetd.Blockchain
open Wire TxScript Chaindata Checks List

/-! ## Block nodes -/

structure IndexHeader (H : Type) extends BlockHeader H where
  prevBlocksMMRRoot : H
deriving DecidableEq

structure NodeInfo (H : Type) where
  header : IndexHeader H
  workSum : Int
  powWeight : Int
  serialID : Int
deriving DecidableEq

/-- `IBlockNode` of the block index: a node with its ancestors, the parent first. -/
structure ChainNode (H : Type) extends NodeInfo H where
  ancestors : List (NodeInfo H)
deriving DecidableEq

structure StoredBlock (H : Type) where
  header : IndexHeader H
  txs : List (MsgTx H)

def StoredBlock.hash {H : Type} (block : StoredBlock H) : H := block.header.blockHash

def calcWork (bits : Nat) : Int :=
  let difficultyNum := compactToBig bits
  if difficultyNum ≤ 0 then 0 else 2 ^ 256 / (difficultyNum + 1) * 2 ^ 10

namespace ChainNode
variable {H : Type} (node : ChainNode H)

def getHash : H := node.header.blockHash

def prevHash : H := node.header.prevBlockHash

def prevMMRRoot : H := node.header.prevBlocksMMRRoot

def height : Int := node.header.height

def parent : Option (ChainNode H) :=
  match node.ancestors with
  | [] => none
  | p :: ancestors => some ⟨p, ancestors⟩

/-- `NewBeaconBlockNode` and `NewShardBlockNode`. -/
def new (header : IndexHeader H) (parent : Option (ChainNode H)) (serialID : Int) : ChainNode H :=
  let work := calcWork header.bits
  match parent with
  | none => ⟨⟨header, work, work, 0⟩, []⟩
  | some p => ⟨⟨header, p.workSum + work, work, serialID⟩, p.toNodeInfo :: p.ancestors⟩

def blockNode : BlockNode H :=
  let data (n : NodeInfo H) : NodeData H := ⟨n.header.toBlockHeader, n.workSum, n.powWeight⟩
  ⟨data node.toNodeInfo, node.ancestors.map data⟩

def mmrNode : Mmr.BlockNode H := go node.toNodeInfo node.ancestors
where
  go (n : NodeInfo H) : List (NodeInfo H) → Mmr.BlockNode H
    | [] => .root ⟨n.header.blockHash, n.header.prevBlocksMMRRoot, n.header.height.toNat, n.powWeight⟩
    | p :: ancestors => .child ⟨n.header.blockHash, n.header.prevBlocksMMRRoot, n.header.height.toNat, n.powWeight⟩
        (go p ancestors)

end ChainNode

structure BlockStatus where
  dataStored : Bool
  valid : Bool
  validateFailed : Bool
  invalidAncestor : Bool
deriving DecidableEq

namespace BlockStatus

def none : BlockStatus := ⟨false, false, false, false⟩

def knownValid (status : BlockStatus) : Bool := status.valid

def knownInvalid (status : BlockStatus) : Bool := status.validateFailed || status.invalidAncestor

def or (status flags : BlockStatus) : BlockStatus :=
  ⟨status.dataStored || flags.dataStored, status.valid || flags.valid,
    status.validateFailed || flags.validateFailed, status.invalidAncestor || flags.invalidAncestor⟩

end BlockStatus

/-! ## MMR trees -/

/-- `mmr.TreeContainer`, whose roots of block nodes stand beside it. -/
structure MmrTree (H : Type) where
  tree : Mmr.BlocksMMRTree H
  rootToBlock : GoMap H H

namespace MmrTree
variable {H : Type} [DecidableEq H] [ChainHash H]

/-- A container over `NewTree`. -/
def new : MmrTree H := ⟨Mmr.newTree, .empty⟩

def setNode (m : MmrTree H) (actual : GoMap H H) (node : ChainNode H) : MmrTree H × GoMap H H :=
  let c := ((⟨m.tree, m.rootToBlock, actual⟩ : Mmr.TreeContainer H).setNodeToMmrWithReorganization node.mmrNode).2
  (⟨c.tree, c.rootToBlock⟩, c.actualMMRRoot)

end MmrTree

/-! ## The view of the best chain -/

/-- `chainView`: a slice of nodes by height, and the MMR tree. -/
structure ChainView (H : Type) where
  nodes : List (Option (ChainNode H))
  mmrTree : MmrTree H

/-- The slice cut or grown to a length, with nil for what is new. -/
def resize {α : Type} (xs : List (Option α)) (needed : Nat) : List (Option α) :=
  xs.take needed ++ replicate (needed - xs.length) none

section
variable {H : Type} [DecidableEq H]

/-- The walk of `setTip` from a node towards genesis, up to the first node in place. -/
def placeNodes (nodes : List (Option (ChainNode H))) (n : NodeInfo H) :
    List (NodeInfo H) → List (Option (ChainNode H))
  | [] => nodes.set n.header.height.toNat (some ⟨n, []⟩)
  | p :: ancestors =>
    if nodes[n.header.height.toNat]? = some (some ⟨n, p :: ancestors⟩) then nodes
    else placeNodes (nodes.set n.header.height.toNat (some ⟨n, p :: ancestors⟩)) p ancestors

end

namespace ChainView
variable {H : Type}

def tip (c : ChainView H) : Option (ChainNode H) := c.nodes.getLast?.join

variable [DecidableEq H] [ChainHash H]

def new : ChainView H := ⟨[], .new⟩

def setTip (c : ChainView H) (actual : GoMap H H) (node : ChainNode H) : ChainView H × GoMap H H :=
  let (mmrTree, actual) := c.mmrTree.setNode actual node
  (⟨placeNodes (resize c.nodes (node.height + 1).toNat) node.toNodeInfo node.ancestors, mmrTree⟩, actual)

end ChainView

/-! ## The database -/

/-- The operations on the database that can fail. `flush` is the whole transaction of `flushToDB`, `view` the
read of a block, `indexes` what the index manager does, `commit` the end of a transaction. -/
inductive DbOp where
  | flush | view | storeBlock | putBestState | putBlockIndex | removeBlockIndex | putUtxoView | putEADAddresses
  | putSpendJournalEntry | fetchSpendJournalEntry | removeSpendJournalEntry | indexes | putSerialID | putMMRRoot
  | putSerialIDsList | commit
deriving DecidableEq

/-- Which operations on the database fail, and what other parts of the package find. -/
structure ChainEnv (H : Type) where
  fails : DbOp → Option ChainError
  isCurrent : Bool
  warnUnknownRuleActivations : ChainNode H → Except ChainError Unit
  warnUnknownVersions : ChainNode H → Except ChainError Unit

def ChainEnv.attempt {H : Type} (env : ChainEnv H) (op : DbOp) : Except ChainError Unit :=
  match env.fails op with
  | some e => .error e
  | none => .ok ()

structure BestChainState (H : Type) where
  hash : H
  mmrRoot : H
  height : Nat
  lastSerialID : Int
  totalTxns : Nat
  workSum : Int

structure BlockRow (H : Type) where
  header : IndexHeader H
  status : BlockStatus
  serialID : Int

/-- The buckets of the database. The rows of the block index are in the order of their keys. -/
structure ChainDB (H : Type) where
  bestState : Option (BestChainState H)
  blocks : GoMap H (StoredBlock H)
  blockIndex : List (BlockRow H)
  hashIndex : GoMap H Nat
  heightIndex : GoMap Nat H
  utxos : UtxoSet H
  spendJournal : GoMap H Bytes
  hashToSerialID : GoMap H Int
  serialIDToPrev : GoMap Int (H × Int)
  hashToMMRRoot : GoMap H H
  bestChainSerialIDs : Option (List Int)

/-- Whose weight a snapshot shows. `CurrenWeight` hands out the number that the tree itself counts in, so the weight in a
snapshot is that of the tree when it is read. -/
inductive WeightRef where
  | index
  | bestChain
deriving DecidableEq

/-- `BestState`, without the size and the weight of the block. -/
structure BestState (H : Type) where
  hash : H
  height : Int
  bits : Nat
  k : Nat
  shards : Nat
  numTxns : Nat
  totalTxns : Nat
  medianTime : Int
  lastSerialID : Int
  currentMMRRoot : H
  chainWeight : WeightRef

def BestState.new {H : Type} (node : ChainNode H) (actualMMRRoot : H) (chainWeight : WeightRef)
    (numTxns totalTxns : Nat) (medianTime lastSerialID : Int) : BestState H where
  hash := node.getHash
  height := node.height
  bits := node.header.bits
  k := node.header.k
  shards := node.header.shards
  numTxns := numTxns
  totalTxns := totalTxns
  medianTime := medianTime
  lastSerialID := lastSerialID
  currentMMRRoot := actualMMRRoot
  chainWeight := chainWeight

/-- The order of the keys of the block index bucket: by height, then by the bytes of the hash. -/
def rowBefore {H : Type} [ChainHash H] (header header' : IndexHeader H) : Bool :=
  header.height < header'.height ∨
    header.height = header'.height ∧ ChainHash.bytes header.blockHash < ChainHash.bytes header'.blockHash

namespace ChainDB
variable {H : Type} [DecidableEq H] [ChainHash H]

def empty : ChainDB H := ⟨none, .empty, [], .empty, .empty, .empty, .empty, .empty, .empty, .empty, none⟩

def putRow (row : BlockRow H) : List (BlockRow H) → List (BlockRow H)
  | [] => [row]
  | r :: rows =>
    if r.header.blockHash = row.header.blockHash ∧ r.header.height = row.header.height then row :: rows
    else if rowBefore row.header r.header then row :: r :: rows
    else r :: putRow row rows

variable (env : ChainEnv H) (db : ChainDB H)

/-- `db.Update`: the transaction is rolled back when the function or the commit fails. -/
def update (fn : ChainDB H → Except ChainError (ChainDB H)) : Except ChainError (ChainDB H) := do
  let db ← fn db
  env.attempt .commit
  return db

variable (hash : H)

def fetchBlock : Except ChainError (StoredBlock H) := do
  env.attempt .view
  orFail (.other ("block " ++ hashString hash ++ " does not exist in the database")) (db.blocks.get hash)

def putBestState (snapshot : BestState H) (workSum : Int) : Except ChainError (ChainDB H) := do
  env.attempt .putBestState
  return { db with
    bestState := some ⟨snapshot.hash, snapshot.currentMMRRoot, (snapshot.height % 2 ^ 32).toNat,
      snapshot.lastSerialID, snapshot.totalTxns, workSum⟩ }

def putBlockIndex (height : Int) : Except ChainError (ChainDB H) := do
  env.attempt .putBlockIndex
  return { db with
    hashIndex := db.hashIndex.set hash height.toNat
    heightIndex := db.heightIndex.set height.toNat hash }

def removeBlockIndex (height : Int) : Except ChainError (ChainDB H) := do
  env.attempt .removeBlockIndex
  return { db with
    hashIndex := db.hashIndex.delete hash
    heightIndex := db.heightIndex.delete height.toNat }

def putView (view : UtxoViewpoint H) : Except ChainError (ChainDB H) := do
  env.attempt .putUtxoView
  env.attempt .putEADAddresses
  return { db with utxos := putUtxoView db.utxos view }

def putSerialID (serialID prevSerialID : Int) : Except ChainError (ChainDB H) := do
  env.attempt .putSerialID
  return { db with
    hashToSerialID := db.hashToSerialID.set hash serialID
    serialIDToPrev := db.serialIDToPrev.set serialID (hash, prevSerialID) }

variable [Primitives]

def putSpendJournalEntry (blockHash : H) (stxos : List SpentTxOut) : Except ChainError (ChainDB H) := do
  env.attempt .putSpendJournalEntry
  return { db with spendJournal := db.spendJournal.set blockHash (serializeSpendJournalEntry stxos) }

def fetchSpendJournalEntry (block : StoredBlock H) : Except ChainError (List SpentTxOut) := do
  env.attempt .fetchSpendJournalEntry
  deserializeSpendJournalEntry ((db.spendJournal.get block.hash).getD []) (block.txs.drop 1)

omit [Primitives] in
def removeSpendJournalEntry (blockHash : H) : Except ChainError (ChainDB H) := do
  env.attempt .removeSpendJournalEntry
  return { db with spendJournal := db.spendJournal.delete blockHash }

end ChainDB

/-! ## The block index -/

/-- `blockIndex`. The dirty nodes are the ones whose status has to be written. -/
structure BlockIndex (H : Type) where
  index : GoMap H (ChainNode H)
  status : GoMap H BlockStatus
  dirty : List (ChainNode H)
  mmrTree : MmrTree H

/-- The part of `BlockChain` that changes: `rBlockStorage`, the database and the snapshot of the best state. -/
structure BlockStorage (H : Type) where
  db : ChainDB H
  index : BlockIndex H
  bestChain : ChainView H
  actualMMRRoot : GoMap H H
  lastSerialID : Int
  stateSnapshot : BestState H

namespace BlockIndex
variable {H : Type} (bi : BlockIndex H) (node : ChainNode H)

def nodeStatus : BlockStatus := (bi.status.get node.getHash).getD .none

variable [DecidableEq H]

def setStatusFlags (flags : BlockStatus) : BlockIndex H :=
  { bi with
    status := bi.status.set node.getHash ((bi.nodeStatus node).or flags)
    dirty := node :: bi.dirty }

end BlockIndex

namespace BlockStorage
variable {H : Type} [DecidableEq H] [ChainHash H] (s : BlockStorage H)

def chainWeight : Int :=
  match s.stateSnapshot.chainWeight with
  | .index => s.index.mmrTree.tree.currenWeight
  | .bestChain => s.bestChain.mmrTree.tree.currenWeight

def storeBlockNode (index : BlockIndex H) (db : ChainDB H) (node : ChainNode H) : ChainDB H :=
  { db with blockIndex := ChainDB.putRow ⟨node.header, index.nodeStatus node, node.serialID⟩ db.blockIndex }

def flushToDB (env : ChainEnv H) (s : BlockStorage H) : Except ChainError (BlockStorage H) :=
  if s.index.dirty.isEmpty then .ok s
  else do
    env.attempt .flush
    return { s with
      db := s.index.dirty.foldl (storeBlockNode s.index) s.db
      index := { s.index with dirty := [] } }

def setTip (node : ChainNode H) : BlockStorage H :=
  let (bestChain, actualMMRRoot) := s.bestChain.setTip s.actualMMRRoot node
  { s with bestChain, actualMMRRoot }

/-- `AddNode` without its mark as dirty. -/
def addNode (node : ChainNode H) : BlockStorage H :=
  let (mmrTree, actualMMRRoot) := s.index.mmrTree.setNode s.actualMMRRoot node
  { s with index := { s.index with index := s.index.index.set node.getHash node, mmrTree }, actualMMRRoot }

end BlockStorage

/-! ## What `SetTip` leaves -/

section
variable {H : Type} {ancestors : List (NodeInfo H)} {n : NodeInfo H}

def Numbered (n : NodeInfo H) : List (NodeInfo H) → Prop
  | [] => n.header.height = 0
  | p :: ancestors => n.header.height = p.header.height + 1 ∧ Numbered p ancestors

theorem Numbered.height (h : Numbered n ancestors) :
    n.header.height.toNat = ancestors.length ∧ 0 ≤ n.header.height := by
  induction ancestors generalizing n with
  | nil => simp [show n.header.height = 0 from h]
  | cons p ancestors ih =>
    have hp := ih h.2
    have hn : n.header.height = p.header.height + 1 := h.1
    simp only [length_cons]
    omega

@[simp] theorem length_resize {α : Type} (xs : List (Option α)) (needed : Nat) : (resize xs needed).length = needed := by
  simp only [resize, length_append, length_take, length_replicate]
  omega

variable [DecidableEq H]

theorem length_placeNodes (nodes : List (Option (ChainNode H))) (n : NodeInfo H) (ancestors : List (NodeInfo H)) :
    (placeNodes nodes n ancestors).length = nodes.length := by
  induction ancestors generalizing nodes n with
  | nil => simp [placeNodes]
  | cons p ancestors ih =>
    unfold placeNodes
    split
    · rfl
    · simp [ih]

variable {nodes : List (Option (ChainNode H))}

theorem placeNodes_above (hn : Numbered n ancestors) {i : Nat} (hi : ancestors.length < i) :
    (placeNodes nodes n ancestors)[i]? = nodes[i]? := by
  induction ancestors generalizing nodes n with
  | nil =>
    have hheight := hn.height
    rw [placeNodes, getElem?_set_ne (by simp_all; omega)]
  | cons p ancestors ih =>
    have hheight := hn.height.1
    rw [length_cons] at hi hheight
    unfold placeNodes
    split
    · rfl
    · rw [ih hn.2 (by omega), getElem?_set_ne (by omega)]

theorem placeNodes_self (hn : Numbered n ancestors) (hlen : ancestors.length < nodes.length) :
    (placeNodes nodes n ancestors)[ancestors.length]? = some (some ⟨n, ancestors⟩) := by
  have hheight := hn.height.1
  cases ancestors with
  | nil =>
    rw [placeNodes, hheight]
    exact getElem?_set_self hlen
  | cons p ancestors =>
    unfold placeNodes
    split
    next hplaced => rwa [hheight] at hplaced
    next =>
      rw [placeNodes_above hn.2 (by simp), hheight]
      exact getElem?_set_self hlen

variable [ChainHash H]

theorem ChainView.tip_setTip (c : ChainView H) (actual : GoMap H H) {node : ChainNode H}
    (hn : Numbered node.toNodeInfo node.ancestors) : (c.setTip actual node).1.tip = some node := by
  have hheight := hn.height
  have hlen : (node.height + 1).toNat = node.ancestors.length + 1 := by
    show (node.header.height + 1).toNat = _
    omega
  have hlast : (placeNodes (resize c.nodes (node.height + 1).toNat) _ _)[_]? = _ :=
    placeNodes_self hn (by rw [length_resize]; omega)
  rw [tip, getLast?_eq_getElem?]
  simp only [setTip, length_placeNodes, length_resize, hlen, Nat.add_sub_cancel] at hlast ⊢
  rw [hlast]
  rfl

end

/-! ## A node on top of an MMR tree -/

namespace MmrTree
variable {H : Type} [DecidableEq H] [ChainHash H]

section
variable (node : ChainNode H)

omit [DecidableEq H] [ChainHash H]

theorem getHash_mmrNode : node.mmrNode.getHash = node.getHash := by
  obtain ⟨n, _ | ⟨p, ancestors⟩⟩ := node <;> rfl

theorem prevMMRRoot_mmrNode : node.mmrNode.prevMMRRoot = node.prevMMRRoot := by
  obtain ⟨n, _ | ⟨p, ancestors⟩⟩ := node <;> rfl

theorem powWeight_mmrNode : node.mmrNode.powWeight = node.powWeight := by
  obtain ⟨n, _ | ⟨p, ancestors⟩⟩ := node <;> rfl

end

theorem setNode_of_prev {m : MmrTree H} {node : ChainNode H} (actual : GoMap H H)
    (h : node.prevMMRRoot = m.tree.currentRoot) : m.setNode actual node =
      let tree := m.tree.appendBlock node.getHash node.powWeight
      (⟨tree, m.rootToBlock.set tree.currentRoot node.getHash⟩, actual.set node.getHash tree.currentRoot) := by
  have hset : (⟨m.tree, m.rootToBlock, actual⟩ : Mmr.TreeContainer H).setNodeToMmrWithReorganization node.mmrNode = _ :=
    Mmr.TreeContainer.setNode_of_prev ((prevMMRRoot_mmrNode node).trans h)
  unfold setNode
  rw [hset, getHash_mmrNode, powWeight_mmrNode]
  simp only [Mmr.TreeContainer.push, getHash_mmrNode]

theorem currenWeight_appendBlock {t : Mmr.BlocksMMRTree H} {hash : H} (weight : Int) (h : t.hashToHeight.get hash = none) :
    (t.appendBlock hash weight).currenWeight = t.currenWeight + weight := by
  simp [Mmr.BlocksMMRTree.appendBlock, h, Mmr.BlocksMMRTree.currenWeight]

end MmrTree

end Jaxnetd.Blockchain
