import Jaxnetd.Chaindata.Coinbase
import Jaxnetd.Chaindata.MerkleStore

/-!
# The Merkle proof of a coinbase

`BuildCoinbaseMerkleTreeProof` (`chainhash/merkle_tree.go`) climbs the tree of a list of hashes without its first one. Folding
the proof over a hash gives the root of the list that has this hash in the first place (`coinbaseProof_root`).
`generateBeaconHeader` (`blockgen_shard.go`) puts all the hashes of the template where this proof belongs.
-/

namespace Jaxnetd.Chaindata
open Wire TxScript PairLevels Checks ChainHash List Nat

variable {H : Type} [ChainHash H]

/-- `rangeSteps` with a positive step. -/
def rangeSteps (start stop step : Nat) : List Nat := List.range' start ((stop - start + step - 1) / step) step

/-- A round of the loop: the hashes of the level above, with no hash in the first place. -/
def proofRound (merkleHashes : List H) : List H :=
  let padded := if merkleHashes.length % 2 ≠ 0 then merkleHashes ++ merkleHashes.getLast?.toList else merkleHashes
  zeroHash :: (rangeSteps 2 merkleHashes.length 2).map fun i => hashMerkleBranches (padded.getD i zeroHash)
    (padded.getD (i + 1) zeroHash)

def buildCoinbaseMerkleTreeProof (merkleHashes : List H) : List H :=
  if 1 < merkleHashes.length then
    merkleHashes.getD 1 zeroHash :: buildCoinbaseMerkleTreeProof (proofRound merkleHashes)
  else []
termination_by merkleHashes.length
decreasing_by
  simp only [proofRound, rangeSteps, length_cons, length_map, length_range']
  omega

def coinbaseMerkleTreeProofRoot (txHash : H) (proof : List H) : H := proof.foldl hashMerkleBranches txHash

/-! ## What a round leaves out -/

theorem proofRound_cons (a b : H) (rest : List H) :
    proofRound (a :: b :: rest) = zeroHash :: pairUp hashMerkleBranches double rest := by
  refine congrArg (zeroHash :: ·) (ext_getElem? fun i => ?_)
  rw [getElem?_map, rangeSteps, getElem?_pairUp]
  rcases lt_or_ge (2 * i) rest.length with hi | hi
  · rw [getElem?_range' (by simp only [length_cons]; omega), getElem?_eq_getElem hi, show 2 + 2 * i = 2 * i + 1 + 1 by omega]
    rcases lt_or_ge (2 * i + 1) rest.length with hi' | hi'
    · rw [getElem?_eq_getElem hi']
      split_ifs <;> simp [getElem?_append_left, hi, hi']
    · -- the last hash, which is without a sibling and is added once more
      have hodd : rest.length = 2 * i + 1 := by omega
      have hlast : rest.getLast? = some rest[2 * i] := by simp [getLast?_eq_getElem?, hodd]
      rw [getElem?_eq_none hi', if_pos (by simp only [length_cons]; omega)]
      simp [getLast?_cons, hlast, hodd, double]
  · rw [getElem?_eq_none hi, getElem?_eq_none (by simp only [length_range', length_cons]; omega)]
    rfl

theorem proof_spec (first a : H) (rest : List H) :
    (buildCoinbaseMerkleTreeProof (a :: rest)).length = clog 2 (rest.length + 1) ∧
    level hashMerkleBranches double (clog 2 (rest.length + 1)) (first :: rest) =
      [coinbaseMerkleTreeProofRoot first (buildCoinbaseMerkleTreeProof (a :: rest))] := by
  induction hn : rest.length using Nat.strong_induction_on generalizing first a rest with
  | _ n ih =>
  subst hn
  cases rest with
  | nil =>
    rw [buildCoinbaseMerkleTreeProof, if_neg (by simp)]
    exact ⟨rfl, rfl⟩
  | cons b rest =>
    have hup := length_pairUp hashMerkleBranches double rest
    have hrounds : clog 2 (rest.length + 1 + 1) = clog 2 ((rest.length + 1) / 2 + 1) + 1 := by
      rw [clog_of_two_le (by omega) (by omega)]
      congr 2
      omega
    obtain ⟨hlen, hroot⟩ := ih _ (by rw [hup, length_cons]; omega) (hashMerkleBranches first b) zeroHash
      (pairUp hashMerkleBranches double rest) rfl
    rw [hup] at hlen hroot
    rw [buildCoinbaseMerkleTreeProof, if_pos (by simp), proofRound_cons, length_cons, length_cons, hrounds, hlen]
    exact ⟨rfl, hroot⟩

theorem getLast?_store (first a : H) (rest : List H) : (buildMerkleTreeStore (first :: rest)).getLast? =
    some (some (coinbaseMerkleTreeProofRoot first (buildCoinbaseMerkleTreeProof (a :: rest)))) := by
  obtain ⟨root, hlast, hlevel⟩ := buildMerkleTreeStore_root (cons_ne_nil first rest)
  rw [length_cons, (proof_spec first a rest).2] at hlevel
  rw [hlast, singleton_inj.1 hlevel]

theorem coinbaseProof_root [DecidableEq H] (first : H) (rest : List H) :
    (∃ root, (buildMerkleTreeStore (first :: rest)).getLast? = some (some root) ∧
      validateCoinbaseMerkleTreeProof first (buildCoinbaseMerkleTreeProof (first :: rest)) root) ∧
    ∀ other, (buildMerkleTreeStore (other :: rest)).getLast? =
      some (some (coinbaseMerkleTreeProofRoot other (buildCoinbaseMerkleTreeProof (first :: rest)))) :=
  ⟨⟨_, getLast?_store first first rest, decide_eq_true rfl⟩, fun other => getLast?_store other first rest⟩

/-! ## The proof of a template -/

/-- `generateBeaconHeader` for a block of `BlockTemplate`. No rule about coinbases reads the nonce and the time that it
sets. -/
def generateBeaconHeader (header : BeaconHeader H) (txs : List (MsgTx H)) : Option (BeaconHeader H × CoinbaseAux H) :=
  txs.head?.map fun coinbase => (header, ⟨coinbase, txs.map MsgTx.txHash⟩)

theorem merkleRoot_cons (tx : MsgTx H) (txs : List (MsgTx H)) : merkleRoot (tx :: txs) false =
    coinbaseMerkleTreeProofRoot tx.txHash (buildCoinbaseMerkleTreeProof ((tx :: txs).map MsgTx.txHash)) := by
  have hhashes : txHashes (tx :: txs) false = (tx :: txs).map MsgTx.txHash := ext_getElem? fun i => by
    rw [txHashes, getElem?_mapIdx, getElem?_map]
    rfl
  rw [merkleRoot, hhashes, map_cons, getLast?_store _ tx.txHash]
  rfl

/-- Without collisions no fold over a hash that is no pair is that of another proof. -/
theorem proof_unique (hpair : ∀ a b c d : H, hashMerkleBranches a b = hashMerkleBranches c d → a = c ∧ b = d) {a : H}
    (ha : ∀ b c, hashMerkleBranches b c ≠ a) {proof proof' : List H}
    (h : coinbaseMerkleTreeProofRoot a proof = coinbaseMerkleTreeProofRoot a proof') : proof = proof' := by
  induction proof using List.reverseRecOn generalizing proof' with
  | nil =>
    rcases eq_nil_or_concat' proof' with rfl | ⟨proof', b, rfl⟩
    · rfl
    · rw [coinbaseMerkleTreeProofRoot, coinbaseMerkleTreeProofRoot, foldl_concat] at h
      exact absurd h.symm (ha _ _)
  | append_singleton proof b ih =>
    rw [coinbaseMerkleTreeProofRoot, coinbaseMerkleTreeProofRoot, foldl_concat] at h
    rcases eq_nil_or_concat' proof' with rfl | ⟨proof', c, rfl⟩
    · exact absurd h (ha _ _)
    · rw [foldl_concat] at h
      obtain ⟨hfold, rfl⟩ := hpair _ _ _ _ h
      rw [ih hfold]

theorem generateBeaconHeader_valid_iff [DecidableEq H] (header : BeaconHeader H) (coinbase : MsgTx H) (txs : List (MsgTx H))
    (hroot : header.merkleRoot = merkleRoot (coinbase :: txs) false) :
    ∃ aux, generateBeaconHeader header (coinbase :: txs) = some (header, aux) ∧
      (validateCoinbaseAux header.merkleRoot aux = .ok () ↔ aux.txMerkleProof.foldl hashMerkleBranches aux.tx.txHash =
        coinbaseMerkleTreeProofRoot aux.tx.txHash (buildCoinbaseMerkleTreeProof aux.txMerkleProof)) ∧
      validateCoinbaseAux header.merkleRoot ⟨aux.tx, buildCoinbaseMerkleTreeProof aux.txMerkleProof⟩ = .ok () ∧
      ((∀ a b c d : H, hashMerkleBranches a b = hashMerkleBranches c d → a = c ∧ b = d) →
        (∀ a b, hashMerkleBranches a b ≠ coinbase.txHash) → validateCoinbaseAux header.merkleRoot aux ≠ .ok ()) := by
  refine ⟨_, rfl, ?_⟩
  simp only [validateCoinbaseAux_ok, Committed, ne_eq]
  rw [hroot, merkleRoot_cons]
  refine ⟨Iff.rfl, rfl, fun hpair hleaf h => ?_⟩
  have hlen := (proof_spec coinbase.txHash coinbase.txHash (txs.map MsgTx.txHash)).1
  have hle : Nat.clog 2 (txs.length + 1) ≤ txs.length := Nat.clog_le_of_le_pow Nat.lt_two_pow_self
  rw [← map_cons, ← proof_unique hpair hleaf h, length_map, length_map, length_cons] at hlen
  omega

section Sample
attribute [local instance] MergeMining.unaryHash

def templateCoinbase : MsgTx Nat := ⟨1, [⟨⟨0, 0xffffffff⟩, [0, 0], [], 0xffffffff⟩], [⟨0, []⟩], 0⟩

def templateHeader : BeaconHeader Nat :=
  { BeaconHeader.zero with merkleRoot := templateCoinbase.txHash }

theorem template_root : templateHeader.merkleRoot = merkleRoot [templateCoinbase] false := by
  rfl

theorem template_not_valid : templateHeader.merkleRoot = merkleRoot [templateCoinbase] false ∧
    (generateBeaconHeader templateHeader [templateCoinbase]).map (fun p => validateCoinbaseAux p.1.merkleRoot p.2) =
      some (.error (.error "tx_merkle tree root is not match with blockMerkle root")) :=
  ⟨template_root, by decide +kernel⟩

theorem template_valid_iff : templateHeader.merkleRoot = merkleRoot [templateCoinbase] false ∧
    ∃ aux, generateBeaconHeader templateHeader [templateCoinbase] = some (templateHeader, aux) ∧
      validateCoinbaseAux templateHeader.merkleRoot aux ≠ .ok () := by
  obtain ⟨aux, haux, -, -, hnever⟩ := generateBeaconHeader_valid_iff templateHeader templateCoinbase [] template_root
  refine ⟨template_root, aux, haux, hnever hashMerkleBranches_unary_inj fun a b => ?_⟩
  have hodd : templateCoinbase.txHash % 4 = 3 := by decide +kernel
  rw [hashMerkleBranches_unary]
  omega

end Sample

end Jaxnetd.Chaindata
