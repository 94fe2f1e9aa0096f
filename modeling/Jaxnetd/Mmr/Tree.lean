import Jaxnetd.Lib.GoMap
import Jaxnetd.Mmr.TreeStore

/-!
# Package `mmr`: the tree of block hashes (`tree.go`)

Locks and the JSON form are left out. `CurrenWeight` keeps the source's spelling.
-/

namespace Jaxnetd.Mmr

structure BlocksMMRTree (H : Type) where
  nextHeight : Nat
  chainWeight : Int
  lastNode : TreeNode H
  rootHash : H
  store : TreeStore H
  rootToHeight : GoMap H Nat
  heightToRoot : GoMap Nat H
  hashToHeight : GoMap H Nat

variable {H : Type} [ChainHash H] [DecidableEq H]

def newTree : BlocksMMRTree H where
  nextHeight := 0
  chainWeight := 0
  lastNode := .zero
  rootHash := ChainHash.zeroHash
  store := .new 1
  rootToHeight := .empty
  heightToRoot := .empty
  hashToHeight := .empty

namespace BlocksMMRTree

variable (t : BlocksMMRTree H)

def appendBlock (hash : H) (difficulty : Int) : BlocksMMRTree H :=
  match t.hashToHeight.get hash with
  | some _ => t
  | none =>
    let node : TreeNode H := ⟨hash, difficulty, t.nextHeight, false⟩
    let built := (t.store.appendLeaf node.height node).calcRoot
    let rootHash := hashOf built.2
    { nextHeight := t.nextHeight + 1
      chainWeight := t.chainWeight + difficulty
      lastNode := node
      rootHash := rootHash
      store := built.1
      rootToHeight := t.rootToHeight.set rootHash node.height
      heightToRoot := t.heightToRoot.set node.height rootHash
      hashToHeight := t.hashToHeight.set hash node.height }

def addBlockWithoutRebuild (hash actualMMR : H) (height : Nat) (difficulty : Int) :
    BlocksMMRTree H :=
  let node : TreeNode H := ⟨hash, difficulty, height, false⟩
  { nextHeight := height + 1
    chainWeight := t.chainWeight + difficulty
    lastNode := node
    rootHash := actualMMR
    store := t.store.appendLeaf height node
    rootToHeight := t.rootToHeight.set actualMMR height
    heightToRoot := t.heightToRoot.set height actualMMR
    hashToHeight := t.hashToHeight.set hash height }

/-- The body of the loop of `rmBlock` over the dropped cells. -/
def forget (c : Cell H) : BlocksMMRTree H :=
  match c with
  | none => t
  | some node =>
    let t := match t.hashToHeight.get node.hash with
      | some height =>
        { t with
          chainWeight := t.chainWeight - node.weight
          heightToRoot := t.heightToRoot.delete height
          hashToHeight := t.hashToHeight.delete node.hash }
      | none => t
    match t.rootToHeight.get node.hash with
    | some _ => { t with rootToHeight := t.rootToHeight.delete node.hash }
    | none => t

variable (height : Nat)

def rmBlock : BlocksMMRTree H :=
  match t.store.cell 0 height with
  | none => t
  | some _ =>
    let d := t.store.dropNodeFromTree 0 height
    let t := d.1.foldl forget { t with store := d.2 }
    if height = 0 then { t with nextHeight := height, lastNode := .zero, rootHash := ChainHash.zeroHash }
    else
      { t with
        nextHeight := height
        lastNode := (t.store.cell 0 (height - 1)).getD .zero
        rootHash := (t.heightToRoot.get (height - 1)).getD ChainHash.zeroHash }

def resetRootTo (hash : H) (height : Nat) : BlocksMMRTree H :=
  match t.hashToHeight.get hash with
  | none => t
  | some _ => t.rmBlock (height + 1)

def current : TreeNode H := t.lastNode

def currenWeight : Int := t.chainWeight

def currentRoot : H := t.rootHash

def block : TreeNode H := (t.store.cell 0 height).getD .zero

def rootForHeight : H :=
  (t.heightToRoot.get height).getD ChainHash.zeroHash

def actualRootForLeafByHash (blockHash : H) : H × Bool :=
  match t.hashToHeight.get blockHash with
  | none => (ChainHash.zeroHash, false)
  | some height => ((t.heightToRoot.get height).getD ChainHash.zeroHash, (t.heightToRoot.get height).isSome)

/-- `LeafByHash`. As in `LookupNodeByRoot`, `found` ends up as the final flag of the leaf. -/
def leafByHash (blockHash : H) : Cell H × Bool :=
  match t.hashToHeight.get blockHash with
  | none => (none, false)
  | some height => t.store.getNode 0 height

/-- `LookupNodeByRoot`. `found` ends up as the final flag that `getNode` returns for the leaf. -/
def lookupNodeByRoot (mmrRoot : H) : Cell H × Bool :=
  match t.rootToHeight.get mmrRoot with
  | none => (some .zero, false)
  | some height => t.store.getNode 0 height

end BlocksMMRTree

end Jaxnetd.Mmr
