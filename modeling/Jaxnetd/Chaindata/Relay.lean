import Jaxnetd.Chaindata.HeaderSanity
import Jaxnetd.Wire.HeaderCodec

/-!
# Relaying an accepted block

The size of a block that the validation works with takes the header for as long as its bound. A header is as long as
its proofs, its tree encoding, its chain weight and its coinbase transactions make it, and the limit on the payload of
a message is lower than the limits on the size and on the weight of a block.
-/

namespace Jaxnetd.Chaindata
open Wire TxScript ChainHash Checks Blockchain BlockChain List

variable {H : Type}

/-! ## The length of a header -/

def hashesSize (n : Nat) : Nat := varIntSerializeSize n + 32 * n

def weightSize (n : Nat) : Nat := varIntSerializeSize n + 4 + n

def coinbaseSize (aux : Wire.CoinbaseAux H) : Nat :=
  aux.tx.serializeSizeStripped + hashesSize aux.txMerkleProof.length

def beaconSize (h : Wire.BeaconHeader H) : Nat :=
  245 + h.treeEncoding.length + weightSize (bigBytes h.chainWeight).length + hashesSize h.mergeMiningProof.length +
    coinbaseSize h.btcAux.coinbaseAux

def headerSize : Wire.BlockHeader H → Nat
  | .beacon h => beaconSize h
  | .shard h => 105 + weightSize (bigBytes h.chainWeight).length + hashesSize h.shardMerkleProof.length +
      beaconSize h.beaconHeader + coinbaseSize h.beaconCoinbase

theorem length_writeSlice (bs : Bytes) : (writeSlice bs).length = 4 + bs.length := by
  rw [writeSlice, length_append, length_leBytes]

theorem length_writeBigInt (x : Int) : (writeBigInt x).length = weightSize (bigBytes x).length := by
  rw [writeBigInt, length_append, length_varInt, length_writeSlice, weightSize, Nat.add_assoc]

theorem length_intBytes (w : Nat) (x : Int) : (intBytes w x).length = w := length_leBytes ..

variable [ChainHash H] [HashArray H]

theorem length_writeHashArray (data : List H) : (writeHashArray data).length = hashesSize data.length := by
  have hbytes : (data.flatMap bytes).length = 32 * data.length := by
    simp [HashArray.length_bytes, Nat.mul_comm]
  rw [writeHashArray, length_append, length_varInt, hbytes, hashesSize]

theorem length_coinbaseAux (aux : Wire.CoinbaseAux H) : aux.serialize.length = coinbaseSize aux := by
  rw [CoinbaseAux.serialize, length_append, MsgTx.length_btcEncode, length_writeHashArray]
  rfl

theorem length_beaconHeader (h : Wire.BeaconHeader H) : h.write.length = beaconSize h := by
  simp only [BeaconHeader.write, BeaconHeader.elements, BTCBlockAux.write, BTCBlockAux.elements, length_append,
    length_intBytes, length_leBytes, length_writeSlice, length_writeBigInt, length_writeHashArray, length_coinbaseAux,
    HashArray.length_bytes, length_singleton, beaconSize]
  omega

theorem length_header (h : Wire.BlockHeader H) : h.write.length = headerSize h := by
  cases h with
  | beacon h => exact length_beaconHeader h
  | shard h =>
    simp only [BlockHeader.write, ShardHeader.write, length_append, length_intBytes, length_leBytes,
      length_writeBigInt, length_writeHashArray, length_coinbaseAux, length_beaconHeader, HashArray.length_bytes,
      length_singleton, headerSize]
    omega

/-! ## The length of a block -/

variable (block : MsgBlock H)

def bodySize : Nat :=
  varIntSerializeSize block.transactions.length + (block.transactions.map MsgTx.serializeSize).sum

theorem length_btcEncode :
    (block.btcEncode true).length = headerSize block.header + bodySize block := by
  have htxs : (block.transactions.flatMap fun tx => tx.btcEncode true).length =
      (block.transactions.map MsgTx.serializeSize).sum := by
    simp [MsgTx.length_btcEncode]
  rw [MsgBlock.btcEncode, length_append, length_append, length_header, length_varInt, htxs, bodySize,
    Nat.add_assoc]

omit [HashArray H] in
theorem writeMessage_ok_iff :
    block.writeMessage true = .ok (block.btcEncode true) ↔ (block.btcEncode true).length ≤ block.maxPayloadLength := by
  have hmax : maxMessagePayload = 2147483647 ∧ block.maxPayloadLength = 786432 := ⟨by decide, by rfl⟩
  unfold MsgBlock.writeMessage writePayload
  split_ifs with hbig hlong
  · exact iff_of_false (fun h => nomatch h) (by omega)
  · exact iff_of_false (fun h => nomatch h) (by omega)
  · exact iff_of_true rfl (by omega)

/-- A block, accepted or not, is as long as the validation takes it for, fits into a message and is sent exactly when
its header keeps to its bound and the block to the limit on the payload. -/
theorem relay_iff :
    (block.btcEncode true).length ≤ block.serializeSize ∧ (block.btcEncode true).length ≤ block.maxPayloadLength ∧
        block.writeMessage true = .ok (block.btcEncode true) ↔
      headerSize block.header ≤ block.header.maxLength ∧ headerSize block.header + bodySize block ≤ 768 * 1024 := by
  have hpayload : block.maxPayloadLength = 768 * 1024 := rfl
  rw [writeMessage_ok_iff, length_btcEncode, hpayload, MsgBlock.serializeSize, Nat.add_assoc, ← bodySize,
    Nat.add_le_add_iff_right]
  exact and_congr_right' (and_self_iff ..)

section Sample
attribute [local instance] headHash headHashArray

def relayCoinbase : MsgTx HeadHash :=
  ⟨1, [⟨⟨zeroHash, 0xffffffff⟩, [0x51, 0x51], [], 0xffffffff⟩], [⟨625000000, [0x51]⟩], 0⟩

variable (mergeMiningProof : List HeadHash)

def relayBlock : MsgBlock HeadHash where
  header := .beacon
    { sampleBeacon [] with
      merkleRoot := relayCoinbase.txHash
      mergeMiningProof
      btcAux := ⟨0, zeroHash, zeroHash, 1600000000, 0, 0, ⟨relayCoinbase, []⟩⟩ }
  transactions := [relayCoinbase]

def relayParams : PowParams := ⟨2 ^ 240, false, 1, 0⟩

theorem relayBlock_accepted :
    checkMsgBlockSanity relayParams 1600000000 (relayBlock mergeMiningProof) false = .ok () ∧
      getBlockWeight (fields (relayBlock mergeMiningProof).header) (relayBlock mergeMiningProof).transactions ≤
        maxBlockWeight := by
  have hsane : checkMsgBlockSanity relayParams 1600000000 (relayBlock []) false = .ok () := by decide +kernel
  have hweight : getBlockWeight (fields (relayBlock []).header) (relayBlock []).transactions ≤ maxBlockWeight := by decide
  exact ⟨hsane, hweight⟩

theorem relayBlock_long {mergeMiningProof : List HeadHash} (h : 30000 ≤ mergeMiningProof.length) :
    (relayBlock mergeMiningProof).serializeSize < ((relayBlock mergeMiningProof).btcEncode true).length ∧
      (relayBlock mergeMiningProof).maxPayloadLength < ((relayBlock mergeMiningProof).btcEncode true).length := by
  have hheader : 32 * mergeMiningProof.length ≤ headerSize (relayBlock mergeMiningProof).header := by
    show 32 * mergeMiningProof.length ≤ 245 + _ + _ + hashesSize mergeMiningProof.length + _
    rw [hashesSize]
    omega
  have hsize : (relayBlock mergeMiningProof).serializeSize = 1024 + 1 + relayCoinbase.serializeSize := rfl
  have hcoinbase : relayCoinbase.serializeSize < 1000 := by decide
  have hmax : (relayBlock mergeMiningProof).maxPayloadLength = 786432 := rfl
  rw [length_btcEncode]
  omega

/-- The block is accepted and cannot be sent. -/
theorem relayBlock_refused : ∃ block : MsgBlock HeadHash,
    checkMsgBlockSanity relayParams 1600000000 block false = .ok () ∧
    getBlockWeight (fields block.header) block.transactions ≤ maxBlockWeight ∧
    block.serializeSize < (block.btcEncode true).length ∧ block.maxPayloadLength < (block.btcEncode true).length ∧
    block.writeMessage true ≠ .ok (block.btcEncode true) := by
  obtain ⟨hsane, hweight⟩ := relayBlock_accepted (replicate 30000 zeroHash)
  have hproof : 30000 ≤ (replicate 30000 (zeroHash : HeadHash)).length := by rw [length_replicate]
  obtain ⟨hsize, hpayload⟩ := relayBlock_long hproof
  refine ⟨relayBlock (replicate 30000 zeroHash), hsane, hweight, hsize, hpayload, ?_⟩
  rw [Ne, writeMessage_ok_iff, Nat.not_le]
  exact hpayload

theorem relay_short : checkMsgBlockSanity relayParams 1600000000 (relayBlock []) false = .ok () ∧
    (relayBlock []).writeMessage true = .ok ((relayBlock []).btcEncode true) :=
  ⟨(relayBlock_accepted []).1, ((relay_iff (relayBlock [])).2 (by decide)).2.2⟩

end Sample

end Jaxnetd.Chaindata
