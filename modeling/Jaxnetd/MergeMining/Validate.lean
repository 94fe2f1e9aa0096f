import Jaxnetd.Lib.Checks
import Jaxnetd.Wire.Header

/-!
# Merge-mining validation

`ValidateMergeMiningData` of the shard block generator (`blockgen_shard.go`), the checks it shares
with the beacon chain (`validateMergeMiningData`, `blockgen_beacon.go`) and the two validators of
the package `mergedminingtree` (`tree.go`): the orange tree and the shard Merkle proof.

The package variable `nodesTypesSet`, which the walk over the orange tree reads, is an argument:
whatever the last coding left in it. A run of Go that does not return (the alignment loop of
`NewSparseMerkleTree` past `2^31` shards, an index out of range) is a stop here.
-/

/-- Whether a header needs no orange tree, as all its shards are merge mined. -/
def Jaxnetd.Wire.BeaconHeader.orangeTreeEmpty {H : Type} (b : BeaconHeader H) : Bool :=
  decide (nextPowerOfTwo b.mergeMiningNumber = b.mergeMiningNumber ∧ b.mergeMiningNumber = b.shards)

namespace Jaxnetd.MergeMining
open ChainHash Checks Wire

variable {H : Type} [ChainHash H]

def magicHash : H := zeroHash

def pairHash (h1 h2 : H) : H := hashH (bytes h1 ++ bytes h2)

/-- `validationError`: `fmt.Errorf(description+": %v", ErrValidation)`. -/
def validationError (description : String) : Fault := .error (description ++ ": validation error")

/-- The alignment loop of `NewSparseMerkleTree` from `2^e`, for `fuel` doublings: the exponent of the
first power of two not below `shardsCount`. -/
def alignSlots (shardsCount : Nat) : Nat → Nat → Option Nat
  | 0, _ => none
  | fuel + 1, e => if shardsCount ≤ 2 ^ e then some e else alignSlots shardsCount fuel (e + 1)

/-- `HeightWithoutRoot` of the tree that `NewSparseMerkleTree` builds. Past `2^31` slots the 32-bit count
is zero for ever. -/
def heightWithoutRoot (shardsCount : Nat) : Option Nat := alignSlots shardsCount 31 1

/-- The bound on the coding size: a table up to depth four, then `uint32(math.Pow(18, d))`, whose
conversion keeps the low bits of a 64-bit integer (zero past its range) on amd64. -/
def maxCodingSize (d : Nat) : Nat :=
  if d ≤ 4 then [0, 3, 9, 21, 45].getD d 0 else if d ≤ 15 then 18 ^ d % 2 ^ 32 else 0

/-- `(&big.Int{}).SetBytes`. -/
def setBytes (coding : List UInt8) : Nat := coding.foldl (fun acc b => acc * 256 + b.toNat) 0

theorem setBytes_concat (bs : Bytes) (b : UInt8) : setBytes (bs ++ [b]) = setBytes bs * 256 + b.toNat := by
  simp [setBytes]

theorem setBytes_bigBytesAux {fuel n : Nat} (h : n ≤ fuel) : setBytes (bigBytesAux fuel n) = n := by
  induction fuel generalizing n with
  | zero =>
    obtain rfl : n = 0 := by omega
    rfl
  | succ fuel ih =>
    rw [bigBytesAux]
    split_ifs with h0
    · rw [h0]
      rfl
    · rw [setBytes_concat, ih (by omega), UInt8.toNat_ofNat']
      omega

theorem setBytes_bigBytes {x : Int} (h : 0 ≤ x) : (setBytes (bigBytes x) : Int) = x := by
  rw [bigBytes, setBytes_bigBytesAux (Nat.le_refl _)]
  omega

/-- `getTopologyBit`: the two trailing zeroes are not part of the coding. -/
def topologyBit (bits k pos : Nat) : Bool :=
  if 2 * k - 1 - 1 < pos ∧ pos ≤ 2 * k - 1 - 1 + 2 then false else bits.testBit pos

/-- The bits that say for each leaf of the orange tree whether it has a hash. -/
def nodeTypes (bits k : Nat) : List Bool := (List.range (k + 1)).map fun i => bits.testBit (2 * k - 1 + i)

/-- The loop that checks the topology coding: no proper start of it has more zeroes (`i`) than ones (`j`). -/
def topologyLoop (bit : Nat → Bool) (last : Nat) : Nat → Nat → Nat → Nat → Bool
  | 0, _, _, _ => true
  | n + 1, index, i, j =>
    let i' := if bit index then i else i + 1
    let j' := if bit index then j + 1 else j
    if j' < i' ∧ index ≠ last then false else topologyLoop bit last n (index + 1) i' j'

/-- The variables of `traverseOrangeTreeNode`. -/
structure Walk where
  topologyIndex : Nat
  typesIndex : Nat
  emptyMMTleafCount : Nat

/-- The end of `traverseOrangeTreeNode` at a leaf over `node2pHeight` slots. The bit is taken from the package variable, not
from the coding validated. -/
def walkLeaf (nodesTypesSet : Nat) (node2pHeight : Nat) (w : Walk) : Walk :=
  { topologyIndex := w.topologyIndex + 1
    typesIndex := w.typesIndex + 1
    emptyMMTleafCount :=
      if nodesTypesSet.testBit w.typesIndex then w.emptyMMTleafCount else w.emptyMMTleafCount + node2pHeight }

/-- `traverseOrangeTreeNode` with `node2pHeight = 2^e`. -/
def traverseOrangeTreeNode (bit : Nat → Bool) (nodesTypesSet : Nat) : Nat → Walk → Except Fault Walk
  | 0, w =>
    if bit w.topologyIndex then .error (validationError "orange tree height error")
    else .ok (walkLeaf nodesTypesSet (2 ^ 0) w)
  | e + 1, w =>
    if bit w.topologyIndex then do
      let w ← traverseOrangeTreeNode bit nodesTypesSet e { w with topologyIndex := w.topologyIndex + 1 }
      traverseOrangeTreeNode bit nodesTypesSet e w
    else .ok (walkLeaf nodesTypesSet (2 ^ (e + 1)) w)

/-- The loop that merges the received hashes with magic hashes by the node types. -/
def restoreHashes : List Bool → List H → Option (List H)
  | [], _ => some []
  | false :: types, hashes => (restoreHashes types hashes).map (magicHash :: ·)
  | true :: _, [] => none
  | true :: types, h :: hashes => (restoreHashes types hashes).map (h :: ·)

/-- `calculateRoot` from a topology index and a hash index. The walk before it has bounded the depth of the
coded tree by `e`. -/
def calculateRoot (bit : Nat → Bool) (hashes : List H) : Nat → Nat → Nat → Option (H × Nat × Nat)
  | 0, pos, idx => if bit pos then none else hashes[idx]?.map (·, pos + 1, idx + 1)
  | e + 1, pos, idx =>
    if bit pos then do
      let (h1, pos, idx) ← calculateRoot bit hashes e (pos + 1) idx
      let (h2, pos, idx) ← calculateRoot bit hashes e pos idx
      return (pairHash h1 h2, pos, idx)
    else hashes[idx]?.map (·, pos + 1, idx + 1)

variable [DecidableEq H]

def validateOrangeTree (nodesTypesSet d codingBitsSize : Nat) (coding : List UInt8) (hashes : List H)
    (mmNumber : Nat) (expectedRoot : H) (beacon : Bool) : Except Fault Unit := do
  failIf (codingBitsSize = 0) (validationError "coding bits size must be greater than zero")
  failIf (hashes = [] ∨ coding = []) (validationError "coding bits size is non zero, but hashes or coding is empty")
  failIf (codingBitsSize % 3 ≠ 0) (validationError "codingBitsSize must be divisible by 3")
  failIf (d < 1) (validationError "invalid tree structure")
  failIf (maxCodingSize d < codingBitsSize)
    (validationError "invalid orange tree coding size (greater than maximal expected)")
  let k := codingBitsSize / 3
  let bits := setBytes coding
  let types := nodeTypes bits k
  failIf (types.count true ≠ hashes.length)
    (validationError "expected hashes count does not correspond to the present hashes count")
  failIf (topologyLoop (topologyBit bits k) (2 * k) (2 * k + 1) 0 0 0 = false)
    (validationError "orange tree positiveBitsCount error")
  failIf ((List.range (2 * k - 1)).countP (bits.testBit ·) ≠ k) (validationError "invalid tree structure occurred")
  let walk ← traverseOrangeTreeNode (topologyBit bits k) nodesTypesSet d ⟨0, 2 * k - 1, 0⟩
  failIf ((mmNumber + walk.emptyMMTleafCount) % 2 ^ 32 < 2 ^ d) (validationError "invalid MMNumber")
  let restored ← orFail indexOut (restoreHashes types hashes)
  if beacon then .ok ()
  else do
    let (root, _) ← orFail indexOut (calculateRoot (topologyBit bits k) restored d 0 0)
    failIf (root ≠ expectedRoot) (validationError "calculated root does not corresponds to the expected root")

/-- The loop of `ValidateShardMerkleProofPath`. -/
def proofRoot : Nat → List H → H → H
  | _, [], calculatedHash => calculatedHash
  | position, next :: path, calculatedHash =>
    proofRoot (position / 2) path
      (if position % 2 = 0 then pairHash calculatedHash next else pairHash next calculatedHash)

/-- `ValidateShardMerkleProofPath`. The logarithm of zero is no length of a proof. -/
def validateShardMerkleProofPath (position shardsCount : Nat) (shardMerkleProof : List H)
    (expectedShardHash expectedRootHash : H) : Except Fault Unit := do
  let height := Nat.clog 2 shardsCount
  let size := shardMerkleProof.length
  failIf (shardsCount = 0 ∨ size ≠ height)
    (.error s!"validation error: the shardMerkleProof({size}) size must have {height} members")
  failIf (proofRoot position shardMerkleProof expectedShardHash ≠ expectedRootHash)
    (.error "root does not match: validation error")

/-- `validateMergeMiningData` of `blockgen_beacon.go`, the checks shared by both chains. -/
def validateMergeMiningTree (nodesTypesSet : Nat) (beaconAux : BeaconHeader H) (beacon : Bool) :
    Except Fault Unit := do
  let mmNumber := beaconAux.mergeMiningNumber
  let shards := beaconAux.shards
  let emptyData := decide (beaconAux.mergeMiningRoot = zeroHash ∧ beaconAux.mergeMiningProof = [] ∧
    beaconAux.treeEncoding = [] ∧ beaconAux.treeCodingLengthBits = 0)
  failIf (shards < mmNumber) (.error s!"MergeMiningNumber({mmNumber}) more than beaconAux.Shards({shards})")
  if beacon ∧ mmNumber = 0 then failIf (emptyData = false) (.error "MergeMiningNumber is 0, but MergeMining data not empty")
  else do
    let d ← orFail (.stop "NewSparseMerkleTree does not return") (heightWithoutRoot shards)
    if beaconAux.orangeTreeEmpty then .ok ()
    else
      (validateOrangeTree nodesTypesSet d beaconAux.treeCodingLengthBits beaconAux.treeEncoding
        beaconAux.mergeMiningProof mmNumber beaconAux.mergeMiningRoot beacon).mapError (.within "invalid orange tree: ")

/-- `ShardBlockGenerator.ValidateMergeMiningData` for the shard `shardID`, with `actualShardsCount` the
number of shards of the beacon best snapshot. -/
def validateMergeMiningData (nodesTypesSet actualShardsCount shardID : Nat) (header : ShardHeader H) :
    Except Fault Unit := do
  let beaconAux := header.beaconHeader
  let shards := beaconAux.shards
  failIf ((actualShardsCount : Int) - shards < -1)
    (.error s!"delta between actualShardsCount({actualShardsCount}) and beaconAux.Shards({shards}) more than 1")
  validateMergeMiningTree nodesTypesSet beaconAux false
  (validateShardMerkleProofPath (shardID - 1) shards header.shardMerkleProof header.exclusiveHash
    beaconAux.mergeMiningRoot).mapError (.within "invalid shard merkle proof: ")

end Jaxnetd.MergeMining
