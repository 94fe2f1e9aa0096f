import Jaxnetd.Chainhash

/-!
# Package `mmr`: the tree store (`tree_store.go`, `helpers.go`, `node.go`)

The store keeps the levels of the Merkle Mountain Range as rows of cells; a cell is `none` where the
source has a nil pointer. The cached byte form `v` of a node is recomputed on every use.
-/

namespace Jaxnetd.Mmr
open List

/-- `TreeNode`. The nil weight of the zero node reads as `0`. -/
structure TreeNode (H : Type) where
  hash : H
  weight : Int
  height : Nat
  final : Bool
deriving DecidableEq

variable {H : Type} [ChainHash H]

def TreeNode.zero : TreeNode H := ⟨ChainHash.zeroHash, 0, 0, false⟩

def TreeNode.bytes (node : TreeNode H) : List UInt8 := ChainHash.bytes node.hash ++ bigBytes node.weight

/-- The two-node case of `hashNodes`. The second `copy` starts at `len(rv)`, not at `len(lv)`. -/
def hashPair (left right : TreeNode H) : TreeNode H :=
  let lv := left.bytes
  let rv := right.bytes
  let data := replicate (lv.length + rv.length) 0
  ⟨ChainHash.hashH (copyAt (copyAt data 0 lv) rv.length rv), left.weight + right.weight, 0, false⟩

/-- The unpaired case of `hashNodes`: a new node with the hash and the weight of `left`. -/
def promote (left : TreeNode H) : TreeNode H := ⟨left.hash, left.weight, 0, false⟩

variable (left right : Option (TreeNode H))

def hashNodes : Option (TreeNode H) × Bool :=
  match left, right with
  | none, _ => (none, false)
  | some left, none => (some (promote left), false)
  | some left, some right => (some (hashPair left right), true)

def hashLeafs : Option (TreeNode H) := (hashNodes left right).1

abbrev Cell (H : Type) := Option (TreeNode H)

def hashOf (c : Cell H) : H := c.elim ChainHash.zeroHash TreeNode.hash

/-- `treeStore`: `nodes[level][index]`. -/
structure TreeStore (H : Type) where
  nodes : List (List (Cell H))

namespace TreeStore

def new (leafCount : Nat) : TreeStore H :=
  let nextPoT := nextPowerOfTwo leafCount
  let levelCount := Nat.log2 nextPoT + 1
  ⟨(range levelCount).map fun i => replicate (nextPoT / 2 ^ i) none⟩

variable (mTree : TreeStore H)

/-- The row of a level (empty past the last one). -/
def row (level : Nat) : List (Cell H) := mTree.nodes.getD level []

variable (level index : Nat)

/-- `getNode`, without the final flag; both bound checks give nil. -/
def cell : Cell H := (mTree.row level).getD index none

/-- The `final` flag of a cell, false for nil. -/
def isFinal (c : Cell H) : Bool := c.elim false TreeNode.final

def getNode : Cell H × Bool :=
  (mTree.cell level index, isFinal (mTree.cell level index))

/-- `allocate`: space for the next power of two of leaves and all new roots. -/
def allocate : TreeStore H :=
  let leafCount := (mTree.row 0).length + 1
  let nextPoT := nextPowerOfTwo leafCount
  let levelCount := Nat.log2 nextPoT + 1
  if mTree.nodes.length = levelCount then mTree
  else
    let nodes := mTree.nodes ++ replicate (levelCount - mTree.nodes.length) []
    ⟨nodes.mapIdx fun i r => r ++ replicate (nextPoT / 2 ^ i - r.length) none⟩

def setLeaf (index : Nat) (node : TreeNode H) : TreeStore H :=
  ⟨mTree.nodes.modify 0 fun r => r.set index (some node)⟩

def appendLeaf (index : Nat) (node : TreeNode H) : TreeStore H :=
  if index + 1 ≤ (mTree.row 0).length then mTree.setLeaf index node
  else mTree.allocate.setLeaf index node

/-- The loop of `dropNodeFromTree` over the levels: the dropped cells and the remaining rows. -/
def dropRows (startIdx : Nat) : List (List (Cell H)) → List (Cell H) × List (List (Cell H))
  | [] => ([], [])
  | r :: rest =>
    let d := dropRows (startIdx / 2) rest
    (r.drop startIdx ++ d.1, (r.take startIdx ++ replicate (r.length - startIdx) none) :: d.2)

def dropNodeFromTree : List (Cell H) × TreeStore H :=
  let d := dropRows index (mTree.nodes.drop level)
  (d.1, ⟨mTree.nodes.take level ++ d.2⟩)

/-- The inner loop of `calcRoot` over the pairs of `cur`, filling the row `next` above it. -/
def calcRow : List (Cell H) → List (Cell H) → Nat → Cell H → List (Cell H) × Cell H
  | left :: right :: rest, next, hashID, root =>
    if isFinal (next.getD hashID none) then calcRow rest next (hashID + 1) root
    else if left = none ∧ right = none then calcRow rest next hashID root
    else
      let root := (hashLeafs left right).map fun n => { n with final := isFinal left && isFinal right }
      calcRow rest (next.set hashID root) (hashID + 1) root
  | [left], next, hashID, root =>
    if isFinal (next.getD hashID none) then (next, root)
    else if left = none then (next, root)
    else
      let root := (hashLeafs left none).map fun n => { n with final := false }
      (next.set hashID root, root)
  | [], next, _, root => (next, root)

/-- The outer loop of `calcRoot` over the levels. -/
def calcLevels (cur : List (Cell H)) : List (List (Cell H)) → Cell H → List (List (Cell H)) × Cell H
  | [], root => ([cur], root)
  | next :: rest, root =>
    let r := calcRow cur next 0 root
    let rs := calcLevels r.1 rest r.2
    (cur :: rs.1, rs.2)

def calcRoot : TreeStore H × Cell H :=
  match (mTree.row 0).length with
  | 1 => (mTree, mTree.cell 0 0)
  | 2 =>
    let root := (hashLeafs (mTree.cell 0 0) (mTree.cell 0 1)).map fun n => { n with final := true }
    (⟨mTree.nodes.modify 1 fun r => r.set 0 root⟩, root)
  | _ =>
    match mTree.nodes with
    | [] => (mTree, none)
    | cur :: rest => let r := calcLevels cur rest none; (⟨r.1⟩, r.2)

end TreeStore

end Jaxnetd.Mmr
