import Jaxnetd.Wire.TxCodec

/-!
# Package `wire`: headers are read as they were written

The header formats nest, and so do their readers; each part is read back by the lemma of its own reader. The
coinbase transactions inside a header are written without their witnesses, so they come back without them.
-/

namespace Jaxnetd.Wire
open TxScript ChainHash Decoder BlockHeader List

theorem reads_slice {bs : Bytes} (h : bs.length < 2 ^ 32) : Reads readSlice (writeSlice bs) bs := by
  refine (reads_uint (by omega)).bind ?_
  exact (reads_make (by unfold maxAlloc; omega)).step (reads_full rfl)

theorem reads_bigInt {x : Int} (h : 0 ≤ x) (hlen : (bigBytes x).length < 2 ^ 32) :
    Reads readBigInt (writeBigInt x) x := by
  have hread : Reads readBigInt (writeBigInt x) (MergeMining.setBytes (bigBytes x) : Int) := by
    refine (reads_varInt (by omega)).bind ?_
    exact (reads_make (by unfold maxAlloc; omega)).step (reads_slice hlen).last
  rwa [MergeMining.setBytes_bigBytes h] at hread

theorem reads_uint32 {n : Nat} (h : n < 2 ^ 32) : Reads (readUint 4) (leBytes 4 n) n := reads_uint (by omega)

theorem reads_int32 {x : Int} (h : -2 ^ 31 ≤ x ∧ x < 2 ^ 31) : Reads (readInt 4) (intBytes 4 x) x :=
  reads_int (by decide) h.1 h.2

theorem reads_timestamp {t : Int} (h : 0 ≤ t ∧ t < 2 ^ 32) :
    ∃ n : Nat, (n : Int) = t ∧ Reads (readUint 4) (intBytes 4 t) n := by
  obtain ⟨n, rfl⟩ := Int.eq_ofNat_of_zero_le h.1
  refine ⟨n, rfl, ?_⟩
  have hn : ((n : Int) % 2 ^ (8 * 4)).toNat = n := by omega
  rw [intBytes, hn]
  exact reads_uint32 (by omega)

theorem reads_magic (magic : UInt8) (expected : String) : Reads (readMagic magic expected) [magic] () := by
  refine (reads_full (w := [magic]) rfl).check ?_
  exact Reads.failIf fun h => h rfl

variable {H : Type}

/-! ## What can be written -/

/-- The transaction fits the decoder without its witnesses, and the proof can be allocated. -/
structure CoinbaseAux.InLimits (aux : CoinbaseAux H) : Prop where
  tx : aux.tx.stripWitness.InLimits
  proof : 32 * aux.txMerkleProof.length ≤ maxAlloc

structure BTCBlockAux.InLimits (h : BTCBlockAux H) : Prop where
  version : -2 ^ 31 ≤ h.version ∧ h.version < 2 ^ 31
  timestamp : 0 ≤ h.timestamp ∧ h.timestamp < 2 ^ 32
  bits : h.bits < 2 ^ 32
  nonce : h.nonce < 2 ^ 32
  coinbaseAux : h.coinbaseAux.InLimits

/-- A nonnegative chain weight whose length can be written. -/
def WeightInLimits (chainWeight : Int) : Prop := 0 ≤ chainWeight ∧ (bigBytes chainWeight).length < 2 ^ 32

structure BeaconHeader.InLimits (h : BeaconHeader H) : Prop where
  version : -2 ^ 31 ≤ h.version ∧ h.version < 2 ^ 31
  height : -2 ^ 31 ≤ h.height ∧ h.height < 2 ^ 31
  bits : h.bits < 2 ^ 32
  shards : h.shards < 2 ^ 32
  k : h.k < 2 ^ 32
  voteK : h.voteK < 2 ^ 32
  number : h.mergeMiningNumber < 2 ^ 32
  tree : h.treeEncoding.length < 2 ^ 32
  treeBits : h.treeCodingLengthBits < 2 ^ 32
  weight : WeightInLimits h.chainWeight
  proof : 32 * h.mergeMiningProof.length ≤ maxAlloc
  btcAux : h.btcAux.InLimits

structure ShardHeader.InLimits (h : ShardHeader H) : Prop where
  height : -2 ^ 31 ≤ h.height ∧ h.height < 2 ^ 31
  bits : h.bits < 2 ^ 32
  weight : WeightInLimits h.chainWeight
  proof : 32 * h.shardMerkleProof.length ≤ maxAlloc
  beaconHeader : h.beaconHeader.InLimits
  beaconCoinbase : h.beaconCoinbase.InLimits

def BlockHeader.InLimits : BlockHeader H → Prop
  | .beacon h => h.InLimits
  | .shard h => h.InLimits

/-! ## What is read back -/

def CoinbaseAux.stripWitness (aux : CoinbaseAux H) : CoinbaseAux H := { aux with tx := aux.tx.stripWitness }

def BTCBlockAux.stripWitness (h : BTCBlockAux H) : BTCBlockAux H := { h with coinbaseAux := h.coinbaseAux.stripWitness }

def BeaconHeader.stripWitness (h : BeaconHeader H) : BeaconHeader H := { h with btcAux := h.btcAux.stripWitness }

def ShardHeader.stripWitness (h : ShardHeader H) : ShardHeader H :=
  { h with beaconHeader := h.beaconHeader.stripWitness, beaconCoinbase := h.beaconCoinbase.stripWitness }

/-- The header with its coinbase transactions as they are written. -/
def BlockHeader.stripWitness : BlockHeader H → BlockHeader H
  | .beacon h => .beacon h.stripWitness
  | .shard h => .shard h.stripWitness

variable [ChainHash H] [HashArray H]

theorem reads_hashArray {data : List H} (h : 32 * data.length ≤ maxAlloc) :
    Reads readHashArray (writeHashArray data) data := by
  have hlen := h
  unfold maxAlloc at hlen
  refine (reads_varInt (by omega)).bind ?_
  refine (reads_make h).step ?_
  have hread : ∀ x ∈ data, Reads (readHash : Reader H) (bytes x) (id x) := fun x _ => reads_hash x
  simpa using Reads.repeatN hread

theorem reads_coinbaseAux {aux : CoinbaseAux H} (h : aux.InLimits) :
    Reads readCoinbaseAux aux.serialize aux.stripWitness := by
  have htx : Reads (MsgTx.btcDecode false) (aux.tx.btcEncode false) aux.tx.stripWitness :=
    reads_stripped h.tx fun hwe => Bool.noConfusion hwe
  exact htx.bind (reads_hashArray h.proof).last

theorem reads_btcBlockHeader {h : BTCBlockAux H} (hl : h.InLimits) :
    Reads readBTCBlockHeader h.write h.stripWitness := by
  obtain ⟨sec, hsec, htime⟩ := reads_timestamp hl.timestamp
  unfold BTCBlockAux.write BTCBlockAux.elements
  simp only [append_assoc]
  refine (reads_int32 hl.version).bind ?_
  refine (reads_hash h.prevBlock).bind ?_
  refine (reads_hash h.merkleRoot).bind ?_
  refine htime.bind ?_
  refine (reads_uint32 hl.bits).bind ?_
  refine (reads_uint32 hl.nonce).bind ?_
  rw [hsec]
  exact (reads_coinbaseAux hl.coinbaseAux).last

theorem reads_beaconBody {h : BeaconHeader H} (hl : h.InLimits) :
    Reads readBeaconBody (intBytes 4 h.version ++ (intBytes 4 h.height ++ (bytes h.prevMMRRoot ++ (bytes h.prevBlock ++
      (h.elements ++ (writeBigInt h.chainWeight ++
      (writeHashArray h.mergeMiningProof ++ h.btcAux.write))))))) h.stripWitness := by
  unfold BeaconHeader.elements
  simp only [append_assoc]
  refine (reads_int32 hl.version).bind ?_
  refine (reads_int32 hl.height).bind ?_
  refine (reads_hash h.prevMMRRoot).bind ?_
  refine (reads_hash h.prevBlock).bind ?_
  refine (reads_hash h.merkleRoot).bind ?_
  refine (reads_hash h.mergeMiningRoot).bind ?_
  refine (reads_uint32 hl.bits).bind ?_
  refine (reads_uint32 hl.shards).bind ?_
  refine (reads_uint32 hl.k).bind ?_
  refine (reads_uint32 hl.voteK).bind ?_
  refine (reads_uint32 hl.number).bind ?_
  refine (reads_slice hl.tree).bind ?_
  refine (reads_uint32 hl.treeBits).bind ?_
  refine (reads_bigInt hl.weight.1 hl.weight.2).bind ?_
  refine (reads_hashArray hl.proof).bind ?_
  exact (reads_btcBlockHeader hl.btcAux).last

theorem reads_beaconBlockHeader {h : BeaconHeader H} (hl : h.InLimits) :
    Reads readBeaconBlockHeader h.write h.stripWitness :=
  (reads_magic _ _).bind (reads_beaconBody hl)

theorem reads_shardBody {h : ShardHeader H} (hl : h.InLimits) :
    Reads readShardBody (intBytes 4 h.height ++ (bytes h.prevMMRRoot ++ (bytes h.prevBlock ++ (bytes h.merkleRoot ++
      (leBytes 4 h.bits ++ (writeBigInt h.chainWeight ++ (writeHashArray h.shardMerkleProof ++
        (h.beaconHeader.write ++ h.beaconCoinbase.serialize)))))))) h.stripWitness := by
  refine (reads_int32 hl.height).bind ?_
  refine (reads_hash h.prevMMRRoot).bind ?_
  refine (reads_hash h.prevBlock).bind ?_
  refine (reads_hash h.merkleRoot).bind ?_
  refine (reads_uint32 hl.bits).bind ?_
  refine (reads_bigInt hl.weight.1 hl.weight.2).bind ?_
  refine (reads_hashArray hl.proof).bind ?_
  refine (reads_beaconBlockHeader hl.beaconHeader).bind ?_
  exact (reads_coinbaseAux hl.beaconCoinbase).last

theorem reads_header {h : BlockHeader H} (hl : h.InLimits) : Reads decodeHeader h.write h.stripWitness := by
  cases h with
  | beacon h =>
    refine (reads_full (w := [beaconMagicByte]) rfl).bind ?_
    exact (reads_beaconBody hl).last
  | shard h =>
    refine (reads_full (w := [shardMagic]) rfl).bind ?_
    exact (reads_shardBody hl).last

/-! ## The codec -/

def BlockHeader.coinbases : BlockHeader H → List (MsgTx H)
  | .beacon h => [h.btcAux.coinbaseAux.tx]
  | .shard h => [h.beaconHeader.btcAux.coinbaseAux.tx, h.beaconCoinbase.tx]

section
omit [ChainHash H] [HashArray H]

theorem MsgTx.stripWitness_eq {tx : MsgTx H} (h : tx.hasWitness = false) : tx.stripWitness = tx := by
  unfold MsgTx.stripWitness
  rw [stripWitness_of_hasWitness h]

theorem BlockHeader.stripWitness_eq {h : BlockHeader H} (hc : ∀ tx ∈ h.coinbases, tx.hasWitness = false) :
    h.stripWitness = h := by
  cases h with
  | beacon h =>
    have htx := MsgTx.stripWitness_eq (hc h.btcAux.coinbaseAux.tx (by simp [coinbases]))
    simp [stripWitness, BeaconHeader.stripWitness, BTCBlockAux.stripWitness, CoinbaseAux.stripWitness, htx]
  | shard h =>
    have hbtc := MsgTx.stripWitness_eq (hc h.beaconHeader.btcAux.coinbaseAux.tx (by simp [coinbases]))
    have htx := MsgTx.stripWitness_eq (hc h.beaconCoinbase.tx (by simp [coinbases]))
    simp [stripWitness, ShardHeader.stripWitness, BeaconHeader.stripWitness, BTCBlockAux.stripWitness,
      CoinbaseAux.stripWitness, hbtc, htx]

end

/-- The codec of headers: the bytes of a header are read as the header with its coinbase transactions stripped of
their witnesses, which is the header itself if there are none, and what follows is left. -/
theorem header_codec {h : BlockHeader H} (hl : h.InLimits) :
    (∀ rest, decodeHeader (h.write ++ rest) = .ok (h.stripWitness, rest)) ∧
      ((∀ tx ∈ h.coinbases, tx.hasWitness = false) → ∀ rest, decodeHeader (h.write ++ rest) = .ok (h, rest)) := by
  refine ⟨reads_header hl, ?_⟩
  intro hc rest
  rw [reads_header hl, stripWitness_eq hc]

section Sample
attribute [local instance] headHash headHashArray

def sampleHash (b : UInt8) : HeadHash := ⟨b :: replicate 31 0, by simp⟩

def sampleBeacon (witness : List Bytes) : BeaconHeader HeadHash where
  version := 16
  prevMMRRoot := sampleHash 1
  height := 3
  prevBlock := sampleHash 2
  merkleRoot := sampleHash 3
  bits := 0x1e0fffff
  chainWeight := 70000
  shards := 2
  k := 5
  voteK := 6
  mergeMiningRoot := sampleHash 4
  mergeMiningNumber := 1
  treeEncoding := [0x0d]
  mergeMiningProof := [sampleHash 5]
  treeCodingLengthBits := 3
  btcAux := ⟨1, sampleHash 6, sampleHash 7, 1600000000, 0x170e2632, 9,
    ⟨1, [⟨⟨headHash.zeroHash, 0xffffffff⟩, [0x51, 0x51], witness, 0xffffffff⟩], [⟨625000000, [0x51]⟩], 0⟩, [sampleHash 8]⟩

theorem sampleBeacon_plain : (sampleBeacon []).InLimits where
  version := by decide
  height := by decide
  bits := by decide
  shards := by decide
  k := by decide
  voteK := by decide
  number := by decide
  tree := by decide
  treeBits := by decide
  weight := by
    constructor
    · decide
    · decide +kernel
  proof := by decide
  btcAux := by
    refine ⟨by decide, by decide, by decide, by decide, ⟨?_, by decide⟩⟩
    refine ⟨by decide, by decide, by decide, ?_, by decide, ?_, by decide, by decide⟩
    · intro txIn hin
      obtain rfl := mem_singleton.1 hin
      exact ⟨by decide, by decide, by decide, (fun _ hw => nomatch hw), by decide⟩
    · intro out hout
      obtain rfl := mem_singleton.1 hout
      exact ⟨by decide, by decide, by decide⟩

theorem sampleBeacon_inLimits (witness : List Bytes) : (beacon (sampleBeacon witness)).InLimits := by
  obtain ⟨hv, hh, hb, hs, hk, hvk, hn, ht, htb, hw, hp, ha⟩ := sampleBeacon_plain
  exact ⟨hv, hh, hb, hs, hk, hvk, hn, ht, htb, hw, hp, ⟨ha.version, ha.timestamp, ha.bits, ha.nonce,
    ⟨ha.coinbaseAux.tx, ha.coinbaseAux.proof⟩⟩⟩

/-- A header whose BTC coinbase has a witness comes back without it. -/
theorem header_codec_drops_witness : (beacon (sampleBeacon [[7]])).InLimits ∧
    decodeHeader (beacon (sampleBeacon [[7]])).write ≠ .ok (.beacon (sampleBeacon [[7]]), []) := by
  refine ⟨sampleBeacon_inLimits _, ?_⟩
  have hread := reads_header (sampleBeacon_inLimits [[7]]) []
  rw [append_nil] at hread
  rw [hread]
  intro heq
  rw [Except.ok.injEq, Prod.mk.injEq] at heq
  have hsame := congrArg (fun h => h.coinbases.any MsgTx.hasWitness) heq.1
  exact absurd hsame (by decide)

theorem header_codec_plain : decodeHeader ((beacon (sampleBeacon [])).write ++ [0xff]) =
    .ok (.beacon (sampleBeacon []), [0xff]) :=
  (header_codec (sampleBeacon_inLimits [])).2 (by decide) [0xff]

end Sample

end Jaxnetd.Wire
