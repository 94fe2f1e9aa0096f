import Jaxnetd.Blockchain.Subsidy
import Jaxnetd.Chaindata.Relay

/-!
# The block identifier

`BlockHash` leaves out some fields of a header. Of these an accepted header has the hash and the chain weight of its parent,
and its BTC coinbase is the one below the Merkle root of the BTC header. No rule compares the others with anything: the
merge-mining proof of a beacon header, while there is merge mining, and the chain weight of the beacon header inside a shard
header.
-/

namespace Jaxnetd.Blockchain
open Wire TxScript ChainHash Checks Chaindata List HashArray MergeMining Wire.BeaconHeader

variable {H : Type}

/-! ## Accepted headers -/

def isBeacon : Wire.BlockHeader H → Bool
  | .beacon _ => true
  | .shard _ => false

/-- `calcBlockSubsidy` of the beacon chain: the start and the end of the reward of each year. -/
def calcBeaconSubsidy (height : Int) : Int :=
  let endOfEpoch : Int := 49152
  let year (first step start : Int) : Int := (first - step * (height - start + 3072).tdiv 6144) * 100000000
  if 0 ≤ height ∧ height ≤ endOfEpoch then year 340 10 1
  else if endOfEpoch < height ∧ height ≤ endOfEpoch * 2 then year 260 5 (endOfEpoch + 1)
  else if endOfEpoch * 2 < height ∧ height ≤ endOfEpoch * 3 then year 220 15 (endOfEpoch * 2 + 1)
  else if endOfEpoch * 3 < height ∧ height ≤ endOfEpoch * 4 then year 100 5 (endOfEpoch * 3 + 1)
  else if endOfEpoch * 4 < height ∧ height ≤ endOfEpoch * 5 then year 60 5 (endOfEpoch * 4 + 1)
  else baseReward

structure HeaderState (H : Type) where
  chain : BlockChain H
  cfg : PowParams
  adjustedTime : Int
  noPoWCheck : Bool
  fastAdd : Bool
  prevNode : BlockNode H
  nodesTypesSet : Nat
  shard : ShardCtx
  beacon : BeaconChain

section
variable [ChainHash H]

variable [DecidableEq H] [Primitives]

/-- `ValidateJaxAuxRules` of the generator of either chain. -/
def validateJaxAuxRules (st : HeaderState H) (header : Wire.BlockHeader H) (txs : List (MsgTx H)) : Except Fault Unit :=
  match header with
  | .beacon h => do
    validateMergeMiningTree st.nodesTypesSet h true
    let coinbase ← orFail indexOut txs.head?
    let _ ← validateBeaconCoinbase h coinbase (calcBeaconSubsidy h.height)
  | .shard h => st.shard.validateJaxAuxRules st.nodesTypesSet st.beacon h txs h.height

/-- The header, with the transactions of its block, passes the checks of `ProcessBlock` and `maybeAcceptBlock` on headers. Its
merge-mining number is a `uint32`. -/
structure AcceptedHeader (st : HeaderState H) (header : Wire.BlockHeader H) (txs : List (MsgTx H)) : Prop where
  kind : st.chain.isBeacon = isBeacon header
  number : header.beaconHeader.mergeMiningNumber < 2 ^ 32
  sanity : checkBlockHeaderSanity st.cfg st.adjustedTime header st.noPoWCheck = .ok ()
  parent : (fields header).prevBlockHash = st.prevNode.header.blockHash
  aux : validateJaxAuxRules st header txs = .ok ()
  context : st.chain.checkBlockHeaderContext (fields header) st.prevNode st.fastAdd = .ok ()

end

/-! ## Hashed strings -/

variable {proof : List H} {h : BeaconHeader H}

section
variable [ChainHash H]

def beaconString (h : BeaconHeader H) : Bytes :=
  intBytes 4 h.version ++ (intBytes 4 h.height ++ (bytes h.prevMMRRoot ++ (h.elements ++ bytes h.btcAux.blockHash)))

def shardString (h : ShardHeader H) : Bytes :=
  intBytes 4 h.height ++ (bytes h.prevMMRRoot ++ (bytes h.prevBlock ++ (bytes h.merkleRoot ++
    (leBytes 4 h.bits ++ bytes h.beaconHeader.blockHash))))

def proofStrings : H → List H → List Bytes
  | _, [] => []
  | hash, next :: proof => (bytes hash ++ bytes next) :: proofStrings (hashMerkleBranches hash next) proof

def coinbaseStrings (aux : CoinbaseAux H) : Set Bytes :=
  {d | d = aux.tx.serializeNoWitness ∨ d ∈ proofStrings aux.tx.txHash aux.txMerkleProof}

def beaconStrings (h : BeaconHeader H) : Set Bytes :=
  {beaconString h, h.btcAux.elements} ∪ coinbaseStrings h.btcAux.coinbaseAux

def hashedStrings : Wire.BlockHeader H → Set Bytes
  | .beacon h => beaconStrings h
  | .shard h => {shardString h} ∪ beaconStrings h.beaconHeader ∪ coinbaseStrings h.beaconCoinbase

theorem mem_beaconStrings (h : BeaconHeader H) :
    beaconString h ∈ beaconStrings h ∧ h.btcAux.elements ∈ beaconStrings h ∧
      ∀ d ∈ coinbaseStrings h.btcAux.coinbaseAux, d ∈ beaconStrings h :=
  ⟨.inl (.inl rfl), .inl (.inr rfl), fun _ hd => .inr hd⟩

theorem proofStrings_concat (hash last : H) (proof : List H) : proofStrings hash (proof ++ [last]) =
      proofStrings hash proof ++ [bytes (proof.foldl hashMerkleBranches hash) ++ bytes last] := by
  induction proof generalizing hash with
  | nil => rfl
  | cons next proof ih => rw [cons_append, proofStrings, ih, proofStrings, cons_append, foldl_cons]

variable [HashArray H] {st : HeaderState H}

/-- A Merkle proof leads from one string only to its root, if the string is not as long as a pair of hashes. -/
theorem merkleProof_inj {strings : Set Bytes} (hinj : Set.InjOn (doubleHashH : Bytes → H) strings) {t t' : Bytes}
    {proof' : List H} (ht : t ∈ strings) (ht' : t' ∈ strings) (hlen : t.length ≠ 64) (hlen' : t'.length ≠ 64)
    (hproof : ∀ d ∈ proofStrings (doubleHashH t) proof, d ∈ strings)
    (hproof' : ∀ d ∈ proofStrings (doubleHashH t') proof', d ∈ strings)
    (hroot : proof.foldl hashMerkleBranches (doubleHashH t) = proof'.foldl hashMerkleBranches (doubleHashH t')) :
    t = t' ∧ proof = proof' := by
  have hpair : ∀ a b : H, (bytes a ++ bytes b).length = 64 := by
    intro a b
    rw [length_append, length_bytes, length_bytes]
  induction proof using List.reverseRecOn generalizing proof' with
  | nil =>
    rcases eq_nil_or_concat proof' with rfl | ⟨init', last', rfl⟩
    · exact ⟨hinj ht ht' hroot, rfl⟩
    · rw [concat_eq_append, proofStrings_concat] at hproof'
      rw [concat_eq_append, foldl_append] at hroot
      have hmem := hproof' _ (mem_append_right _ mem_cons_self)
      exact absurd (hinj ht hmem hroot ▸ hpair _ _) hlen
  | append_singleton init last ih =>
    rw [proofStrings_concat] at hproof
    rw [foldl_append] at hroot
    have hmem := hproof _ (mem_append_right _ mem_cons_self)
    rcases eq_nil_or_concat proof' with rfl | ⟨init', last', rfl⟩
    · exact absurd ((hinj hmem ht' hroot).symm ▸ hpair _ _) hlen'
    · rw [concat_eq_append, proofStrings_concat] at hproof'
      rw [concat_eq_append, foldl_append] at hroot
      have hmem' := hproof' _ (mem_append_right _ mem_cons_self)
      -- the last pairs are equal, so are the hashes they are made of
      obtain ⟨hhash, hlast⟩ := append_inj (hinj hmem hmem' hroot) (by
        rw [length_bytes, length_bytes])
      obtain ⟨hstart, hinit⟩ := ih (fun d hd => hproof d (mem_append_left _ hd))
        (fun d hd => hproof' d (mem_append_left _ hd)) (bytes_inj hhash)
      rw [concat_eq_append, hinit, bytes_inj hlast]
      exact ⟨hstart, rfl⟩

/-! ## What the rules fix -/

theorem length_included {tx : MsgTx H} {txIn : TxIn H} {exclusiveHash : H} (hin : tx.txIn.head? = some txIn)
    (h : validateProofOfInclusion exclusiveHash txIn.signatureScript = true) : 64 < tx.serializeNoWitness.length := by
  have hscript : 47 ≤ txIn.signatureScript.length := by
    have hle := (of_decide_eq_true h).length_le
    simp only [length_append, length_cons, length_bytes, jaxnetMarker, length_nil] at hle
    omega
  have hlen : tx.serializeNoWitness.length = tx.serializeSizeStripped := by
    rw [MsgTx.serializeNoWitness, MsgTx.length_btcEncode]
    rfl
  obtain ⟨txIns, htxIn⟩ : ∃ txIns, tx.txIn = txIn :: txIns := by
    cases htx : tx.txIn with
    | nil => rw [htx] at hin; cases hin
    | cons first txIns => rw [htx] at hin; cases hin; exact ⟨txIns, rfl⟩
  have hsize : 40 + 47 ≤ txIn.serializeSize := by
    unfold TxIn.serializeSize
    omega
  rw [hlen, MsgTx.serializeSizeStripped, htxIn, map_cons, sum_cons]
  omega

structure Fixed (st : HeaderState H) (h : BeaconHeader H) : Prop where
  prevBlock : h.prevBlock = st.prevNode.header.blockHash
  chainWeight : h.chainWeight = st.prevNode.workSum
  proof : h.mergeMiningNumber = 0 → h.mergeMiningProof = []
  long : 64 < h.btcAux.coinbaseAux.tx.serializeNoWitness.length
  committed : h.btcAux.coinbaseAux.txMerkleProof.foldl hashMerkleBranches h.btcAux.coinbaseAux.tx.txHash =
    h.btcAux.merkleRoot

variable {h' : BeaconHeader H}

theorem Fixed.coinbase_eq (hf : Fixed st h) (hf' : Fixed st h')
    (hinj : Set.InjOn (doubleHashH : Bytes → H) (beaconStrings h ∪ beaconStrings h'))
    (hroot : h.btcAux.merkleRoot = h'.btcAux.merkleRoot) :
    h.btcAux.coinbaseAux.serialize = h'.btcAux.coinbaseAux.serialize := by
  obtain ⟨-, -, hmem⟩ := mem_beaconStrings h
  obtain ⟨-, -, hmem'⟩ := mem_beaconStrings h'
  obtain ⟨hsame, hsameProof⟩ := merkleProof_inj hinj (.inl (hmem _ (.inl rfl))) (.inr (hmem' _ (.inl rfl))) hf.long.ne'
    hf'.long.ne' (fun d hd => .inl (hmem d (.inr hd))) (fun d hd => .inr (hmem' d (.inr hd)))
    (hf.committed.trans (hroot.trans hf'.committed.symm))
  unfold CoinbaseAux.serialize
  rw [hsameProof]
  exact congrArg (· ++ _) hsame

theorem mergeMiningNumber_eq (hlt : h.mergeMiningNumber < 2 ^ 32)
    (hlt' : h'.mergeMiningNumber < 2 ^ 32) (heq : h.elements = h'.elements) :
    h.mergeMiningNumber = h'.mergeMiningNumber := by
  obtain ⟨-, heq⟩ := append_inj heq (by rw [length_bytes, length_bytes])
  obtain ⟨-, heq⟩ := append_inj heq (by rw [length_bytes, length_bytes])
  obtain ⟨-, heq⟩ := append_inj heq (by rw [length_leBytes, length_leBytes])
  obtain ⟨-, heq⟩ := append_inj heq (by rw [length_leBytes, length_leBytes])
  obtain ⟨-, heq⟩ := append_inj heq (by rw [length_leBytes, length_leBytes])
  obtain ⟨-, heq⟩ := append_inj heq (by rw [length_leBytes, length_leBytes])
  obtain ⟨hnumber, -⟩ := append_inj heq (by rw [length_leBytes, length_leBytes])
  have hmod := congrArg leNat hnumber
  rw [leNat_leBytes, leNat_leBytes] at hmod
  omega

variable [DecidableEq H] [Primitives] {txs txs' : List (MsgTx H)}

theorem AcceptedHeader.fixed (hacc : AcceptedHeader st (.beacon h) txs) : Fixed st h := by
  have hcontext := hacc.context
  have haux := hacc.aux
  simp only [BlockChain.checkBlockHeaderContext, ok_rules] at hcontext
  simp only [validateJaxAuxRules, ok_rules] at haux
  obtain ⟨-, hweight, -⟩ := hcontext
  obtain ⟨htree, coinbase, -, burned, hcoinbase, -⟩ := haux
  simp only [validateBeaconCoinbase, ok_rules] at hcoinbase
  obtain ⟨_, hbtc, txIn, htxIn, hincluded, -⟩ := hcoinbase
  refine ⟨hacc.parent, hweight, fun hzero => ?_, length_included htxIn hincluded, (validateBTCCoinbase_ok hbtc).1⟩
  simp only [validateMergeMiningTree, ok_rules, hzero, and_self, if_true, Bool.not_eq_false,
    decide_eq_true_eq] at htree
  exact htree.2.2.1

theorem write_of_blockHash (hacc : AcceptedHeader st (.beacon h) txs)
    (hacc' : AcceptedHeader st (.beacon h') txs')
    (hinj : Set.InjOn (doubleHashH : Bytes → H) (beaconStrings h ∪ beaconStrings h'))
    (hzero : h.mergeMiningNumber = 0) (heq : h'.blockHash = h.blockHash) : h'.write = h.write := by
  have hf := hacc.fixed
  have hf' := hacc'.fixed
  obtain ⟨hmem, hbtcMem, -⟩ := mem_beaconStrings h
  obtain ⟨hmem', hbtcMem', -⟩ := mem_beaconStrings h'
  -- the string behind the hash is cut into its fields
  have hstring : beaconString h' = beaconString h := hinj (.inr hmem') (.inl hmem) heq
  obtain ⟨hversion, hstring⟩ := append_inj hstring (by rw [length_intBytes, length_intBytes])
  obtain ⟨hheight, hstring⟩ := append_inj hstring (by rw [length_intBytes, length_intBytes])
  obtain ⟨hroot, hstring⟩ := append_inj hstring (by rw [length_bytes, length_bytes])
  obtain ⟨helements, hbtc⟩ := append_inj' hstring (by rw [length_bytes, length_bytes])
  have hproof : h'.mergeMiningProof = h.mergeMiningProof := by
    rw [hf.proof hzero, hf'.proof ((mergeMiningNumber_eq hacc'.number hacc.number helements).trans hzero)]
  -- and so is the string behind the hash of the BTC header
  have hbtcElements : h'.btcAux.elements = h.btcAux.elements :=
    hinj (.inr hbtcMem') (.inl hbtcMem) (bytes_inj hbtc)
  have hbtcRoot : h'.btcAux.merkleRoot = h.btcAux.merkleRoot := by
    obtain ⟨-, htail⟩ := append_inj hbtcElements (by rw [length_intBytes, length_intBytes])
    obtain ⟨-, htail⟩ := append_inj htail (by rw [length_bytes, length_bytes])
    exact bytes_inj (append_inj htail (by rw [length_bytes, length_bytes])).1
  have hcoinbase := hf.coinbase_eq hf' hinj hbtcRoot.symm
  simp only [write, BTCBlockAux.write, hversion, hheight, hroot, helements, hproof, hbtcElements,
    hcoinbase, hf.prevBlock, hf'.prevBlock, hf.chainWeight, hf'.chainWeight]

end

/-! ## What the rules leave open -/

section
variable [ChainHash H] [HashArray H]

theorem flatMap_bytes_inj {data data' : List H} (hlen : data.length = data'.length)
    (h : data.flatMap bytes = data'.flatMap bytes) : data = data' := by
  induction data generalizing data' with
  | nil => exact (length_eq_zero_iff.1 hlen.symm).symm
  | cons hash data ih =>
    rcases data' with - | ⟨hash', data'⟩
    · cases hlen
    · rw [flatMap_cons, flatMap_cons] at h
      obtain ⟨hhash, htail⟩ := append_inj h (by rw [length_bytes, length_bytes])
      rw [bytes_inj hhash, ih (Nat.succ.inj hlen) htail]

theorem writeHashArray_inj {data data' : List H} (h : writeHashArray data = writeHashArray data') : data = data' := by
  have hsize := congrArg List.length h
  rw [length_writeHashArray, length_writeHashArray] at hsize
  have hlen : data.length = data'.length := by
    simp only [hashesSize, varIntSerializeSize] at hsize
    split_ifs at hsize <;> omega
  simp only [writeHashArray, hlen] at h
  exact flatMap_bytes_inj hlen (append_cancel_left h)

theorem mergeMiningProof_eq
    (heq : { h with mergeMiningProof := proof }.write = h.write) : proof = h.mergeMiningProof := by
  simp only [write, elements, append_cancel_left_eq, append_cancel_right_eq] at heq
  exact writeHashArray_inj heq

def reweigh (h : ShardHeader H) (chainWeight : Int) : ShardHeader H :=
  { h with beaconHeader := { h.beaconHeader with chainWeight } }

theorem reweigh_write (h : ShardHeader H) : (reweigh h 0).write ≠ (reweigh h 1).write := by
  intro heq
  have hlen := congrArg List.length heq
  have hsize : ∀ w, (reweigh h w).write.length = headerSize (.shard (reweigh h w)) := fun w => length_header (.shard _)
  rw [hsize, hsize] at hlen
  have hbytes : weightSize (bigBytes 0).length = 5 ∧ weightSize (bigBytes 1).length = 6 := by decide
  simp only [headerSize, reweigh, beaconSize, hbytes] at hlen
  omega

variable [DecidableEq H] {nodesTypesSet : Nat} {aux : BeaconHeader H}

omit [HashArray H] [DecidableEq H] in
theorem restoreHashes_eq {types : List Bool} {hashes : List H} (h : types.count true ≤ hashes.length) :
    ∃ restored, restoreHashes types hashes = some restored := by
  induction types generalizing hashes with
  | nil => exact ⟨[], rfl⟩
  | cons type types ih =>
    cases type with
    | false =>
      have hle : types.count true ≤ hashes.length := by simpa using h
      obtain ⟨restored, hrestored⟩ := ih hle
      exact ⟨_, by rw [restoreHashes, hrestored]; rfl⟩
    | true =>
      rcases hashes with - | ⟨hash, hashes⟩
      · simp at h
      · have hle : types.count true ≤ hashes.length := by simpa using h
        obtain ⟨restored, hrestored⟩ := ih hle
        exact ⟨_, by rw [restoreHashes, hrestored]; rfl⟩

omit [HashArray H] in
theorem validateMergeMiningTree_proof {proof : List H} (hnumber : aux.mergeMiningNumber ≠ 0)
    (hproof : aux.mergeMiningProof = [] ∨ proof.length = aux.mergeMiningProof.length)
    (h : validateMergeMiningTree nodesTypesSet aux true = .ok ()) :
    MergeMining.validateMergeMiningTree nodesTypesSet { aux with mergeMiningProof := proof } true = .ok () := by
  have hempty : ({ aux with mergeMiningProof := proof } : BeaconHeader H).orangeTreeEmpty = aux.orangeTreeEmpty :=
    rfl
  simp only [MergeMining.validateMergeMiningTree, ok_rules, hnumber, and_false, if_false, hempty] at h ⊢
  obtain ⟨hshards, d, hd, h⟩ := h
  refine ⟨hshards, d, hd, ?_⟩
  split_ifs at h ⊢ with horange
  · rfl
  · simp only [ok_rules, validateOrangeTree, if_true, not_or] at h ⊢
    obtain ⟨hsize, ⟨hne, hcoding⟩, hthree, hone, hmax, hcount, htopology, hones, walk, hwalk, hnum, -⟩ := h
    have hlen := hproof.resolve_left hne
    have hne' : proof ≠ [] := by
      rintro rfl
      exact hne (length_eq_zero_iff.1 hlen.symm)
    obtain ⟨restored', hrestored'⟩ := restoreHashes_eq (hcount.trans hlen.symm).le
    exact ⟨hsize, ⟨hne', hcoding⟩, hthree, hone, hmax, hcount.trans hlen.symm, htopology, hones, walk, hwalk, hnum,
      restored', hrestored', trivial⟩

variable [Primitives] {st : HeaderState H} {txs : List (MsgTx H)}

section
omit [HashArray H]

theorem AcceptedHeader.replaceProof (hacc : AcceptedHeader st (.beacon h) txs)
    (hnumber : h.mergeMiningNumber ≠ 0) (hproof : h.mergeMiningProof = [] ∨ proof.length = h.mergeMiningProof.length) :
    AcceptedHeader st (.beacon { h with mergeMiningProof := proof }) txs := by
  refine ⟨hacc.kind, hacc.number, hacc.sanity, hacc.parent, ?_, hacc.context⟩
  have haux := hacc.aux
  simp only [validateJaxAuxRules, ok_rules] at haux ⊢
  obtain ⟨htree, hcoinbase⟩ := haux
  exact ⟨validateMergeMiningTree_proof hnumber hproof htree, hcoinbase⟩

theorem AcceptedHeader.reweigh {h : ShardHeader H} (hacc : AcceptedHeader st (.shard h) txs) (chainWeight : Int) :
    AcceptedHeader st (.shard (Blockchain.reweigh h chainWeight)) txs :=
  ⟨hacc.kind, hacc.number, hacc.sanity, hacc.parent, hacc.aux, hacc.context⟩

end

omit [DecidableEq H] [Primitives] in
theorem exists_other_hash (hash : H) : ∃ other : H, other ≠ hash := by
  by_contra hno
  simp only [not_exists, not_not] at hno
  have hsame : (ofBytes (List.replicate 32 0) : H) = ofBytes (List.replicate 32 1) :=
    (hno _).trans (hno _).symm
  have hbytes := congrArg bytes hsame
  rw [bytes_ofBytes length_replicate, bytes_ofBytes length_replicate] at hbytes
  exact absurd hbytes (by decide)

theorem AcceptedHeader.exists_other_proof (hacc : AcceptedHeader st (.beacon h) txs)
    (hnumber : h.mergeMiningNumber ≠ 0) :
    ∃ proof, proof ≠ h.mergeMiningProof ∧ AcceptedHeader st (.beacon { h with mergeMiningProof := proof }) txs := by
  cases hproof : h.mergeMiningProof with
  | nil => exact ⟨[zeroHash], by simp, hacc.replaceProof hnumber (.inl hproof)⟩
  | cons hash proof =>
    obtain ⟨other, hother⟩ := exists_other_hash hash
    exact ⟨other :: proof, by simp [hother], hacc.replaceProof hnumber (.inr (by rw [hproof]; rfl))⟩

/-- An accepted header has no twin, one with the same hash that is written in another way, exactly on the beacon chain and
without merge mining. -/
theorem blockHash_unique_iff {header : Wire.BlockHeader H} (hacc : AcceptedHeader st header txs)
    (hinj : Set.InjOn (doubleHashH : Bytes → H) (hashedStrings header)) :
    (∀ (header' : Wire.BlockHeader H) (txs' : List (MsgTx H)), AcceptedHeader st header' txs' →
        Set.InjOn (doubleHashH : Bytes → H) (hashedStrings header ∪ hashedStrings header') →
        header'.blockHash = header.blockHash → header'.write = header.write) ↔
      st.chain.isBeacon = true ∧ header.beaconHeader.mergeMiningNumber = 0 := by
  cases header with
  | beacon h =>
    constructor
    · intro hunique
      refine ⟨hacc.kind, by_contra fun hnumber => ?_⟩
      obtain ⟨proof, hne, hacc'⟩ := hacc.exists_other_proof hnumber
      -- the proof is in none of the strings
      have hinj' : Set.InjOn (doubleHashH : Bytes → H) (hashedStrings (.beacon h) ∪ hashedStrings (.beacon h)) := by
        rwa [Set.union_self]
      exact hne (mergeMiningProof_eq (hunique _ _ hacc' hinj' rfl))
    · rintro ⟨-, hzero⟩ header' txs' hacc' hinj' heq
      cases header' with
      | beacon h' => exact write_of_blockHash hacc hacc' hinj' hzero heq
      | shard h' => exact nomatch hacc.kind.symm.trans hacc'.kind
  | shard h =>
    refine iff_of_false (fun hunique => ?_) (fun hcond => nomatch hcond.1.symm.trans hacc.kind)
    have hinj' : Set.InjOn (doubleHashH : Bytes → H) (hashedStrings (.shard h) ∪ hashedStrings (.shard h)) := by
      rwa [Set.union_self]
    have hzero := hunique _ _ (hacc.reweigh 0) hinj' rfl
    have hone := hunique _ _ (hacc.reweigh 1) hinj' rfl
    exact reweigh_write h (hzero.trans hone.symm)

end

section Sample
attribute [local instance] headHash headHashArray toyPrimitives

def idCoinbase : MsgTx HeadHash :=
  ⟨1, [], [⟨0, rawJaxBurnScript⟩, ⟨baseReward, rawJaxBurnScript⟩, ⟨320 * 100000000, rewardLock⟩, ⟨0, [0x51]⟩], 0⟩

def idBtcTx (signatureScript : Bytes) : MsgTx HeadHash :=
  ⟨1, [⟨⟨zeroHash, maxUint32⟩, signatureScript, [], 0⟩],
    [⟨0, rawJaxBurnScript⟩, ⟨625000000, rawJaxBurnScript⟩, ⟨7, [0x51]⟩], 0⟩

variable (mergeMiningNumber : Nat) (mergeMiningProof : List HeadHash)

def idBeacon (signatureScript : Bytes) : BeaconHeader HeadHash :=
  { BeaconHeader.zero with
    version := 16
    prevMMRRoot := sampleHash 1
    height := 1
    prevBlock := sampleHash 2
    merkleRoot := idCoinbase.txHash
    bits := 0x1e0fffff
    shards := 1
    mergeMiningNumber
    mergeMiningProof
    btcAux := ⟨0, zeroHash, (idBtcTx signatureScript).txHash, 1600000001, 0, 0, ⟨idBtcTx signatureScript, []⟩⟩ }

def idScript : Bytes :=
  0x51 :: jaxnetMarker ++ 0x20 :: bytes (idBeacon mergeMiningNumber [] []).beaconExclusiveHash ++ jaxnetMarker

def idHeader : Wire.BlockHeader HeadHash :=
  .beacon (idBeacon mergeMiningNumber mergeMiningProof (idScript mergeMiningNumber))

def idState : HeaderState HeadHash where
  chain := { toyChain HeadHash with calcNextRequiredDifficulty := fun _ _ => .ok 0x1e0fffff }
  cfg := relayParams
  adjustedTime := 1600000001
  noPoWCheck := false
  fastAdd := false
  prevNode := ⟨⟨⟨1, 0, 0, zeroHash, zeroHash, 1600000000, 0, 0, 0, 1, sampleHash 2, 0⟩, 0, 0⟩, []⟩
  nodesTypesSet := 0
  shard := ⟨1, false, 0⟩
  beacon := shortBeacon

theorem idHeader_accepted :
    AcceptedHeader idState (idHeader 0 []) [idCoinbase] ∧ AcceptedHeader idState (idHeader 1 []) [idCoinbase] := by
  constructor
  all_goals
    refine ⟨by decide, by decide, by decide +kernel, by decide, by decide +kernel, by decide +kernel⟩

theorem idHeader_injOn :
    Set.InjOn (doubleHashH : Bytes → HeadHash) (hashedStrings (idHeader mergeMiningNumber [])) := by
  let h := idBeacon mergeMiningNumber [] (idScript mergeMiningNumber)
  let tx := idBtcTx (idScript mergeMiningNumber)
  have hbeacon : (doubleHashH (beaconString h) : HeadHash).1.head? = some 16 := rfl
  have hbtc : (doubleHashH h.btcAux.elements : HeadHash).1.head? = some 0 := rfl
  have htx : (doubleHashH tx.serializeNoWitness : HeadHash).1.head? = some 1 := rfl
  have hstrings : hashedStrings (idHeader mergeMiningNumber []) ⊆
      {beaconString h, h.btcAux.elements, tx.serializeNoWitness} := by
    rintro d ((rfl | rfl) | rfl | hd)
    · exact .inl rfl
    · exact .inr (.inl rfl)
    · exact .inr (.inr rfl)
    · cases hd
  refine Set.InjOn.mono hstrings ?_
  rintro a (rfl | rfl | rfl) b (rfl | rfl | rfl) heq
  all_goals
    first
    | rfl
    | have hhead := congrArg (fun digest : HeadHash => digest.1.head?) heq
      simp only [hbeacon, hbtc, htx] at hhead
      exact absurd hhead (by decide)

/-- Two accepted headers with one hash, one without a proof and one with a hash in it. -/
theorem blockHash_twins : ∃ (st : HeaderState HeadHash) (header header' : Wire.BlockHeader HeadHash)
    (txs : List (MsgTx HeadHash)), AcceptedHeader st header txs ∧ AcceptedHeader st header' txs ∧
    Set.InjOn (doubleHashH : Bytes → HeadHash) (hashedStrings header ∪ hashedStrings header') ∧
    header'.blockHash = header.blockHash ∧ header'.write ≠ header.write := by
  have hacc := idHeader_accepted.2
  refine ⟨idState, idHeader 1 [], idHeader 1 [zeroHash], [idCoinbase], hacc, hacc.replaceProof (by decide) (.inl rfl), ?_,
    rfl, ?_⟩
  · show Set.InjOn _ (hashedStrings (idHeader 1 []) ∪ hashedStrings (idHeader 1 []))
    rw [Set.union_self]
    exact idHeader_injOn 1
  · intro heq
    exact absurd (mergeMiningProof_eq (h := idBeacon 1 [] (idScript 1)) heq) (by simp [idBeacon])

theorem blockHash_unique_alone : AcceptedHeader idState (idHeader 0 []) [idCoinbase] ∧
    ∀ (header' : Wire.BlockHeader HeadHash) (txs' : List (MsgTx HeadHash)), AcceptedHeader idState header' txs' →
    Set.InjOn (doubleHashH : Bytes → HeadHash) (hashedStrings (idHeader 0 []) ∪ hashedStrings header') →
    header'.blockHash = (idHeader 0 []).blockHash → header'.write = (idHeader 0 []).write :=
  ⟨idHeader_accepted.1, (blockHash_unique_iff idHeader_accepted.1 (idHeader_injOn 0)).2 ⟨rfl, rfl⟩⟩

end Sample

end Jaxnetd.Blockchain
