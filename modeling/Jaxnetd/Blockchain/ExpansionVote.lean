import Jaxnetd.MergeMining.Validate

/-!
# The vote on an expansion

`ExpansionApproved` of a beacon node (`block_node_beacon.go`): where enough of the last blocks approve, the codings
of their merge-mining trees are added up by `AggregateOrangeTree` (`tree.go`), in four arrays of counters. The array
of a block is chosen by the remainder of its position, not by the quarter it is in, and there are only four.
-/

namespace Jaxnetd.Blockchain
open Checks MergeMining Wire List

variable {H : Type}

def approves (h : BeaconHeader H) : Bool := h.version / 2 % 2 = 1

/-- The variables of `traverseTreeStep`. -/
structure Counting where
  result : List UInt8
  v : Nat
  u : Nat

def Counting.at (s : Counting) (i : Nat) : Except Fault UInt8 := orFail indexOut s.result[i]?

def Counting.add (s : Counting) (i : Nat) (x : UInt8) : Counting := { s with result := s.result.modify i (· + x) }

/-- `traverseTreeStep`, with the bits of the topology. Each level of the recursion has read another set bit. -/
def traverseTreeStep (bit : Nat → Bool) (bits treeIndexLimit : Nat) : Nat → Nat → Counting → Except Fault Counting
  | 0, _, _ => .error (.stop "out of depth")
  | depth + 1, nodeIndex, s => do
    let left := 2 * nodeIndex % 2 ^ 32 + 1
    let right := (left + 1) % 2 ^ 32
    let s ←
      if bit s.v then do
        let s ← traverseTreeStep bit bits treeIndexLimit depth left { s with v := s.v + 1 }
        traverseTreeStep bit bits treeIndexLimit depth right { s with v := s.v + 1 }
      else .ok s
    if left + 1 < s.result.length then return s
    let leftCount ← s.at left
    let rightCount ← if 0 < leftCount then s.at right else .ok 0
    let _ ← s.at nodeIndex
    if 0 < leftCount ∧ 0 < rightCount then return ((s.add left (-1)).add right (-1)).add nodeIndex 1
    let s := s.add nodeIndex (if bits.testBit s.u then 1 else 0)
    if treeIndexLimit < nodeIndex then return s.add nodeIndex 1
    return { s with u := s.u + 1 }

/-- The length of an array of counters. Go cannot make the one for no shards, of length -1. -/
def countersLength (nShards : Nat) : Option Nat := if nShards = 0 then none else some (nextPowerOfTwo nShards * 2 - 1)

/-- `AggregateOrangeTree`, for a `result` of the length that the number of shards asks for. -/
def aggregateOrangeTree (result coding : List UInt8) (codingSize nShards : Nat) : Except Fault (List UInt8) := do
  if codingSize = 0 then
    let _ ← Counting.at ⟨result, 0, 0⟩ 0
    return result.modify 0 (· + 1)
  let k := codingSize / 3
  let bits := setBytes coding
  let bit := if k = 0 then bits.testBit else topologyBit bits k
  let s ← traverseTreeStep bit bits (nextPowerOfTwo nShards + nShards - 2) (8 * coding.length + 1) 0
    ⟨result, 0, (2 * k + 2 ^ 32 - 1) % 2 ^ 32⟩
  return s.result

/-- One block of the loop over `treeEncodings`. -/
def aggregateBlock (nShards : Nat) (aggregationResults : List (List UInt8)) :
    (List UInt8 × Nat) × Nat → Except Fault (List (List UInt8))
  | ((encoding, size), i) => do
    let resID := i % 256
    let result ← orFail indexOut aggregationResults[resID]?
    let result ← aggregateOrangeTree result encoding size nShards
    return aggregationResults.set resID result

variable (nodes : List (BeaconHeader H))

/-- The codings of the last blocks and their sizes, empty for blocks that the chain does not have. -/
def treeEncodings : List (List UInt8 × Nat) :=
  (nodes.take 1024).map (fun h => (h.treeEncoding, h.treeCodingLengthBits)) ++
    replicate (1024 - nodes.length) ([], 0)

/-- `ExpansionApproved` of the first node, with the nodes from it down. -/
def expansionApproved : Except Fault Bool := do
  if (nodes.take 1024).countP approves < 768 then return false
  let nShards := (nodes.head?.map (·.shards)).getD 0
  let l ← orFail (.stop "len out of range") (countersLength nShards)
  let results ← (treeEncodings nodes).zipIdx.foldlM (aggregateBlock nShards) (replicate 4 (replicate l 0))
  let roots ← results.mapM fun result => Counting.at ⟨result, 0, 0⟩ 0
  return roots.all (47 < ·)

variable {results results' : List (List UInt8)}

theorem aggregateBlock_ok {nShards : Nat} {block : (List UInt8 × Nat) × Nat}
    (h : aggregateBlock nShards results block = .ok results') :
    block.2 % 256 < results.length ∧ results'.length = results.length := by
  simp only [aggregateBlock, ok_rules] at h
  obtain ⟨result, hresult, _, _, rfl⟩ := h
  exact ⟨(List.getElem?_eq_some_iff.1 hresult).1, List.length_set⟩

/-- The loop does not get past a block whose remainder is no index. -/
theorem foldlM_aggregateBlock {nShards : Nat} {blocks : List ((List UInt8 × Nat) × Nat)}
    (h : blocks.foldlM (aggregateBlock nShards) results = .ok results') :
    ∀ block ∈ blocks, block.2 % 256 < results.length := by
  induction blocks generalizing results with
  | nil => exact fun _ hmem => nomatch hmem
  | cons block blocks ih =>
    rw [foldlM_cons, bind_eq_ok] at h
    obtain ⟨results₁, hblock, hrest⟩ := h
    obtain ⟨hlt, hlen⟩ := aggregateBlock_ok hblock
    rw [forall_mem_cons, ← hlen]
    exact ⟨hlen ▸ hlt, ih hrest⟩

/-- The vote returns exactly if fewer than 768 of the last 1024 blocks approve, and then it returns that there is
no expansion: with more, the fifth block has no array. -/
theorem expansionApproved_returns_iff (nodes : List (BeaconHeader H)) :
    ((∃ approved, expansionApproved nodes = .ok approved) ↔ (nodes.take 1024).countP approves < 768) ∧
    ((nodes.take 1024).countP approves < 768 → expansionApproved nodes = .ok false) := by
  have hfew : (nodes.take 1024).countP approves < 768 → expansionApproved nodes = .ok false := by
    intro hlt
    rw [expansionApproved, if_pos hlt]
    rfl
  refine ⟨⟨?_, fun hlt => ⟨false, hfew hlt⟩⟩, hfew⟩
  rintro ⟨approved, h⟩
  by_contra hmany
  simp only [expansionApproved, if_neg hmany, ok_rules] at h
  obtain ⟨l, -, results, hfold, -⟩ := h
  have hlen : 4 < (treeEncodings nodes).zipIdx.length := by
    simp [treeEncodings]
    omega
  have := foldlM_aggregateBlock hfold _ (getElem_mem hlen)
  simp at this

section Sample

/-- The blocks of an epoch that all approve, with nothing mined in the only shard. -/
theorem expansionApproved_stops : letI := sumHash
    expansionApproved (replicate 1024 { (BeaconHeader.zero : BeaconHeader Nat) with shards := 1, version := 2 }) =
      .error indexOut := by
  decide +kernel

end Sample

end Jaxnetd.Blockchain
