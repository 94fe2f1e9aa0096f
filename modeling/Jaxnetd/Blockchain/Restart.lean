import Jaxnetd.Mmr.Quick
import Jaxnetd.Blockchain.ConnectBlock

/-!
# The state of the chain in the database

How the state of the chain gets into the database and out again (`chainio.go`): the first start, the part of
`maybeAcceptBlock` that stores a block, the saved list of the best chain, and the two ways to load the chain, along the
saved list or over all rows of the block index. Rows are read without an error.
-/

namespace Jaxnetd.Blockchain
open Wire TxScript Chaindata Checks BlockStorage

variable {H : Type} [DecidableEq H] [ChainHash H]

/-! ## Writing -/

namespace ChainDB
variable (env : ChainEnv H)

/-- `DBStoreBlock`. -/
def storeBlock (db : ChainDB H) (block : StoredBlock H) : Except ChainError (ChainDB H) := do
  env.attempt .storeBlock
  return if (db.blocks.get block.hash).isSome then db else { db with blocks := db.blocks.set block.hash block }

def putMMRRoot (db : ChainDB H) (root hash : H) : Except ChainError (ChainDB H) := do
  env.attempt .putMMRRoot
  return { db with hashToMMRRoot := db.hashToMMRRoot.set hash root }

end ChainDB

namespace BlockStorage

/-- A storage over a database before it is loaded. Its snapshot, nil in the source, is not read. -/
def opened (db : ChainDB H) (genesisBlock : StoredBlock H) : BlockStorage H where
  db := db
  index := ⟨.empty, .empty, [], .new⟩
  bestChain := .new
  actualMMRRoot := .empty
  lastSerialID := 0
  stateSnapshot := .new (.new genesisBlock.header none 0) ChainHash.zeroHash .index 0 0 0 0

def setStatus (s : BlockStorage H) (node : ChainNode H) (status : BlockStatus) : BlockStorage H :=
  { s with index := { s.index with status := s.index.status.set node.getHash status } }

def withGenesis (s : BlockStorage H) (genesisNode : ChainNode H) : BlockStorage H :=
  ((s.setStatus genesisNode ⟨true, true, false, false⟩).setTip genesisNode).addNode genesisNode

variable (env : ChainEnv H) (s : BlockStorage H)

/-- The transaction of `maybeAcceptBlock` behind `AddNode`. -/
def writeNode (root : H) (node prevNode : ChainNode H) (db : ChainDB H) : Except ChainError (ChainDB H) := do
  let db ← db.putMMRRoot env root node.getHash
  db.putSerialID env node.getHash node.serialID prevNode.serialID

/-- The part of `maybeAcceptBlock` that stores a block behind `prevNode`. -/
def acceptBlock (block : StoredBlock H) (prevNode : ChainNode H) :
    Except ChainError (BlockStorage H) := do
  let db ← s.db.update env fun db => db.storeBlock env block
  let lastSerialID := s.lastSerialID + 1
  let newNode := ChainNode.new block.header (some prevNode) lastSerialID
  let s := ({ s with db, lastSerialID }.setStatus newNode ⟨true, false, false, false⟩).addNode newNode
  let s ← { s with index := { s.index with dirty := newNode :: s.index.dirty } }.flushToDB env
  let db ← s.db.update env (writeNode env s.index.mmrTree.tree.currentRoot newNode prevNode)
  return { s with db }

/-- One turn of the loop of `SaveBestChainSerialIDs`. -/
def saveNode (actual : GoMap H H) (db : ChainDB H) (node : Option (ChainNode H)) : Except ChainError (ChainDB H) := do
  let node ← orFail (.other "nil pointer dereference") node
  db.putMMRRoot env ((actual.get node.getHash).getD ChainHash.zeroHash) node.getHash

def saveBestChainSerialIDs : Except ChainError (BlockStorage H) := do
  let db ← s.db.update env fun db => do
    let db ← s.bestChain.nodes.foldlM (saveNode env s.actualMMRRoot) db
    env.attempt .putSerialIDsList
    return { db with bestChainSerialIDs := some (s.bestChain.nodes.filterMap (·.map fun node => node.serialID)) }
  return { s with db }

end BlockStorage

/-! ## Loading along the saved list -/

namespace BlockStorage
variable (env : ChainEnv H) (s : BlockStorage H)

def quickAdd (node : ChainNode H) (root : H) : BlockStorage H :=
  let setNodeQuick (m : MmrTree H) : MmrTree H :=
    ⟨m.tree.addBlockWithoutRebuild node.getHash root node.height.toNat node.powWeight,
      m.rootToBlock.set root node.getHash⟩
  { s with
    index := { s.index with
      index := s.index.index.set node.getHash node
      status := s.index.status.set node.getHash ⟨false, true, false, false⟩
      mmrTree := setNodeQuick s.index.mmrTree }
    bestChain := ⟨placeNodes (resize s.bestChain.nodes (node.height + 1).toNat) node.toNodeInfo node.ancestors,
      setNodeQuick s.bestChain.mmrTree⟩
    actualMMRRoot := s.actualMMRRoot.set node.getHash root }

def preAllocateTrees (blockCount : Nat) : BlockStorage H :=
  { s with
    index := { s.index with
      mmrTree := { s.index.mmrTree with tree := s.index.mmrTree.tree.preAllocateTree blockCount } }
    bestChain := { s.bestChain with
      mmrTree := { s.bestChain.mmrTree with tree := s.bestChain.mmrTree.tree.preAllocateTree blockCount } } }

/-- The check of a header against the node loaded before it. -/
def checkPrev (lastNode : Option (ChainNode H)) (header : IndexHeader H) : Except ChainError Unit :=
  match lastNode with
  | none => .ok ()
  | some parent => failIf (parent.getHash ≠ header.prevBlockHash)
      (.assert ("hash of parent does not match with hash(" ++ hashString header.prevBlockHash ++ ") from header"))

/-- The stored root of a node, its own hash for a genesis without one. -/
def storedRoot (db : ChainDB H) (node : ChainNode H) : Option H :=
  match db.hashToMMRRoot.get node.getHash with
  | some root => some root
  | none => if node.height > 0 then none else some node.getHash

/-- The loop of `fastInitChainState` over the records: whether a full scan is required, the storage and the last
node. -/
def loadRecords (s : BlockStorage H) (lastNode : Option (ChainNode H)) :
    List (Int × H) → Except ChainError (Bool × BlockStorage H × Option (ChainNode H))
  | [] => .ok (false, s, lastNode)
  | (serialID, hash) :: records => do
    let lastBlock ← s.db.fetchBlock env hash
    checkPrev lastNode lastBlock.header
    let node := ChainNode.new lastBlock.header lastNode serialID
    match storedRoot s.db node with
    | none => .ok (true, s, lastNode)
    | some root => loadRecords (s.quickAdd node root) (some node) records

def getBestChainSerialIDs (db : ChainDB H) : Except ChainError (List (Int × H)) :=
  (db.bestChainSerialIDs.getD []).mapM fun serialID =>
    (orFail (.other "chain serial id is empty or invalid") (db.serialIDToPrev.get serialID)).map fun r => (serialID, r.1)

def rebuilt (m : MmrTree H) (message : String) : Except ChainError (MmrTree H) :=
  (orFail (.assert message) m.tree.rebuildTreeAndAssert).map fun tree => { m with tree }

end BlockStorage

namespace BlockChain
variable (b : BlockChain H) (env : ChainEnv H) (s : BlockStorage H) (state : BestChainState H)

/-- The snapshot of a chain loaded up to `node`, with the median time of `tip`. -/
def loadedState (node tip : ChainNode H) (block : StoredBlock H) :
    BestState H :=
  .new node s.bestChain.mmrTree.tree.currentRoot .bestChain block.txs.length state.totalTxns
    (b.calcPastMedianTime tip.blockNode) state.lastSerialID

/-- `fastInitChainState` behind its loop. -/
def finishFastInit (lastNode : Option (ChainNode H)) :
    Except ChainError (BlockStorage H) := do
  let lastNode ← orFail (.other "nil pointer dereference") lastNode
  failIf (lastNode.getHash ≠ state.hash) (.assert ("initChainState: last node hash(" ++ hashString lastNode.getHash ++
    ") height(" ++ toString lastNode.height ++ ") does not match with chain tip(" ++ hashString state.hash ++
    ") tip_height(" ++ toString state.height ++ ")"))
  let tip ← orFail (.assert ("initChainState: cannot find chain tip " ++ hashString state.hash ++ " in block index"))
    (s.index.index.get state.hash)
  let block ← s.db.fetchBlock env state.hash
  let indexTree ← rebuilt s.index.mmrTree "index.mmrTree is inconsistent"
  let bestTree ← rebuilt s.bestChain.mmrTree "bestChain.mmrTree is inconsistent"
  flushToDB env { s with
    lastSerialID := state.lastSerialID
    index := { s.index with mmrTree := indexTree }
    bestChain := { s.bestChain with mmrTree := bestTree }
    stateSnapshot := b.loadedState s state lastNode tip block }

/-- `fastInitChainState`: whether a full scan is required, and the storage. -/
def fastInitChainState : Except ChainError (Bool × BlockStorage H) := do
  let bestChain ← getBestChainSerialIDs s.db
  match bestChain with
  | [] => return (true, s)
  | _ => do
    let (fullScanRequired, s, lastNode) ←
      loadRecords env (s.preAllocateTrees bestChain.length) none bestChain
    match fullScanRequired with
    | true => return (true, s)
    | false => return (false, ← b.finishFastInit env s state lastNode)

end BlockChain

/-! ## Loading over all rows -/

/-- `blockIndexCache`, with the status and the actual MMR root of the nodes, and the node loaded last. -/
structure BlockIndexCache (H : Type) where
  index : GoMap H (ChainNode H)
  status : GoMap H BlockStatus
  dirty : List (ChainNode H)
  actualMMRRoot : GoMap H H
  lastNode : Option (ChainNode H)

namespace BlockIndexCache

/-- The parent of the next row. The first row has to be that of the genesis block. -/
def parentOf (cache : BlockIndexCache H) (genesisHash : H) (header : IndexHeader H) :
    Except ChainError (Option (ChainNode H)) :=
  match cache.lastNode with
  | none => do
    failIf (header.blockHash ≠ genesisHash) (.assert
      ("initChainState: Expected first entry in block index to be genesis block: expected " ++ hashString genesisHash ++
        ", found " ++ hashString header.blockHash))
    return none
  | some lastNode =>
    if header.prevBlockHash = lastNode.getHash then .ok (some lastNode)
    else (orFail (.assert ("initChainState: Could not find parent for block " ++ hashString header.blockHash))
      (cache.index.get header.prevBlockHash)).map some

/-- One turn of the loop of `loadBlockChainFromDB`. -/
def loadRow (db : ChainDB H) (genesisHash : H) (cache : BlockIndexCache H) (row : BlockRow H) :
    Except ChainError (BlockIndexCache H) := do
  let parent ← cache.parentOf genesisHash row.header
  checkPrev parent row.header
  let node := ChainNode.new row.header parent row.serialID
  return {
    index := cache.index.set node.getHash node
    status := cache.status.set node.getHash row.status
    dirty := node :: cache.dirty
    actualMMRRoot := match db.hashToMMRRoot.get node.getHash with
      | some mmrRoot => cache.actualMMRRoot.set node.getHash mmrRoot
      | none => cache.actualMMRRoot
    lastNode := some node }

def loadBlockChainFromDB (db : ChainDB H) (genesisHash : H) : Except ChainError (BlockIndexCache H) :=
  db.blockIndex.foldlM (loadRow db genesisHash) ⟨.empty, .empty, [], .empty, none⟩

end BlockIndexCache

namespace BlockStorage

def setFromCache (s : BlockStorage H) (cache : BlockIndexCache H) (tip : ChainNode H) :
    Except ChainError (BlockStorage H) := do
  let (mmrTree, actualMMRRoot) := s.index.mmrTree.setNode (s.actualMMRRoot.overlay cache.actualMMRRoot (some <| some ·)) tip
  let mmrTree ← rebuilt mmrTree "initChainState: can not build MMR Tree for the index"
  return { s with
    index := {
      index := s.index.index.overlay cache.index (some <| some ·)
      status := s.index.status.overlay cache.status (some <| some ·)
      dirty := cache.dirty ++ s.index.dirty
      mmrTree := mmrTree }
    actualMMRRoot := actualMMRRoot }

/-- The loop that marks the ancestors of the tip as valid. -/
def markValid (index : BlockIndex H) (n : NodeInfo H) (ancestors : List (NodeInfo H)) : BlockIndex H :=
  let node : ChainNode H := ⟨n, ancestors⟩
  let index := if (index.nodeStatus node).knownValid then index
    else index.setStatusFlags node ⟨false, true, false, false⟩
  match ancestors with
  | [] => index
  | p :: ancestors => markValid index p ancestors

end BlockStorage

namespace BlockChain
variable (b : BlockChain H) (env : ChainEnv H) (s : BlockStorage H)

/-- `initChainState` over all rows of the block index. -/
def fullInitChainState (genesisHash : H) (state : BestChainState H) :
    Except ChainError (BlockStorage H) := do
  let blockCache ← BlockIndexCache.loadBlockChainFromDB s.db genesisHash
  let tip ← orFail (.assert ("initChainState: can not find chain tip " ++ hashString state.hash ++ " in block index"))
    (blockCache.index.get state.hash)
  let s ← { s with lastSerialID := state.lastSerialID }.setFromCache blockCache tip
  let s := s.setTip tip
  let mmrTree ← rebuilt s.bestChain.mmrTree "initChainState: can not build MMR Tree for the bestChain"
  let block ← s.db.fetchBlock env state.hash
  flushToDB env { s with
    index := markValid s.index tip.toNodeInfo tip.ancestors
    bestChain := { s.bestChain with mmrTree }
    stateSnapshot := b.loadedState s state tip tip block }

variable [Primitives]

/-- What the transaction of `createChainState` writes. A genesis block has one coinbase, which connects. -/
def writeGenesis (snapshot : BestState H) (index : BlockIndex H) (genesisNode : ChainNode H)
    (genesisBlock : StoredBlock H) (db : ChainDB H) : Except ChainError (ChainDB H) := do
  let db ← db.putSerialID env genesisBlock.hash 0 0
  env.attempt .flush
  let db ← (storeBlockNode index db genesisNode).putBlockIndex env genesisNode.getHash genesisNode.height
  let db ← db.putBestState env snapshot genesisNode.workSum
  let db ← db.storeBlock env genesisBlock
  match b.isBeacon with
  | false => return db
  | true =>
    let view := genesisView b.isBeacon genesisBlock.txs genesisNode.height genesisBlock.hash
    env.attempt .putUtxoView
    return { db with utxos := putUtxoView db.utxos view }

variable (genesisBlock : StoredBlock H)

def createChainState : Except ChainError (BlockStorage H) := do
  let genesisNode := ChainNode.new genesisBlock.header none 0
  let s := s.withGenesis genesisNode
  let snapshot := BestState.new genesisNode s.index.mmrTree.tree.currentRoot .index genesisBlock.txs.length
    genesisBlock.txs.length genesisNode.header.timestamp 0
  let db ← s.db.update env (b.writeGenesis env snapshot s.index genesisNode genesisBlock)
  return { s with db, stateSnapshot := snapshot }

/-- `initChainState`. The bucket of the saved list is made with the other ones, so it is always there. -/
def initChainState (dbFullRescan : Bool) :
    Except ChainError (BlockStorage H) :=
  match s.db.bestState with
  | none => b.createChainState env s genesisBlock
  | some state =>
    if dbFullRescan then b.fullInitChainState env s genesisBlock.hash state
    else do
      let (rescanRequired, s) ← b.fastInitChainState env s state
      match rescanRequired with
      | false => return s
      | true => b.fullInitChainState env s genesisBlock.hash state

end BlockChain

end Jaxnetd.Blockchain
