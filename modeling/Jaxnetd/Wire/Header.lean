import Jaxnetd.Wire

/-!
# Package `wire`: block headers (`block_header.go`, `block_header_beacon.go`, `_shard.go`, `_btc.go`)

A shard header carries the header and the coinbase of the beacon block it was mined with, and a beacon header
those of a BTC block. A time is its Unix second, and a chain weight is never nil.
-/

namespace Jaxnetd.Wire
open ChainHash

structure CoinbaseAux (H : Type) where
  tx : MsgTx H
  txMerkleProof : List H
deriving DecidableEq

structure BTCBlockAux (H : Type) where
  version : Int
  prevBlock : H
  merkleRoot : H
  timestamp : Int
  bits : Nat
  nonce : Nat
  coinbaseAux : CoinbaseAux H
deriving DecidableEq

structure BeaconHeader (H : Type) where
  version : Int
  prevMMRRoot : H
  height : Int
  prevBlock : H
  merkleRoot : H
  bits : Nat
  chainWeight : Int
  shards : Nat
  k : Nat
  voteK : Nat
  mergeMiningRoot : H
  mergeMiningNumber : Nat
  treeEncoding : Bytes
  mergeMiningProof : List H
  treeCodingLengthBits : Nat
  btcAux : BTCBlockAux H
deriving DecidableEq

structure ShardHeader (H : Type) where
  height : Int
  prevMMRRoot : H
  prevBlock : H
  merkleRoot : H
  bits : Nat
  chainWeight : Int
  shardMerkleProof : List H
  beaconHeader : BeaconHeader H
  beaconCoinbase : CoinbaseAux H
deriving DecidableEq

/-- The two types that implement the interface `BlockHeader`. -/
inductive BlockHeader (H : Type) where
  | beacon (h : BeaconHeader H)
  | shard (h : ShardHeader H)
deriving DecidableEq

def beaconMagicByte : UInt8 := 0x6d

def shardMagic : UInt8 := 0x73

def maxBeaconBlockHeaderPayload : Nat := 1024

def maxShardBlockHeaderPayload : Nat := maxBeaconBlockHeaderPayload * 2

variable {H : Type}

/-- `BeaconHeader{}`. -/
def BeaconHeader.zero [ChainHash H] : BeaconHeader H :=
  ⟨0, zeroHash, 0, zeroHash, zeroHash, 0, 0, 0, 0, 0, zeroHash, 0, [], [], 0,
    ⟨0, zeroHash, zeroHash, 0, 0, 0, ⟨⟨0, [], [], 0⟩, []⟩⟩⟩

def BlockHeader.beaconHeader : BlockHeader H → BeaconHeader H
  | .beacon h => h
  | .shard h => h.beaconHeader

def BlockHeader.maxLength : BlockHeader H → Nat
  | .beacon _ => maxBeaconBlockHeaderPayload
  | .shard _ => maxShardBlockHeaderPayload

/-! ## Writing -/

/-- The slice case of `WriteElement`. -/
def writeSlice (bs : Bytes) : Bytes := leBytes 4 bs.length ++ bs

/-- `WriteBigInt`: the length stands there twice. -/
def writeBigInt (val : Int) : Bytes := varInt (bigBytes val).length ++ writeSlice (bigBytes val)

section
variable [ChainHash H]

def writeHashArray (data : List H) : Bytes := varInt data.length ++ data.flatMap bytes

/-- `CoinbaseAux.Serialize`: the transaction is written without its witnesses. -/
def CoinbaseAux.serialize (aux : CoinbaseAux H) : Bytes := aux.tx.btcEncode false ++ writeHashArray aux.txMerkleProof

def BTCBlockAux.elements (h : BTCBlockAux H) : Bytes :=
  intBytes 4 h.version ++ (bytes h.prevBlock ++ (bytes h.merkleRoot ++ (intBytes 4 h.timestamp ++
    (leBytes 4 h.bits ++ leBytes 4 h.nonce))))

/-- `writeBTCBlockHeader`. -/
def BTCBlockAux.write (h : BTCBlockAux H) : Bytes := h.elements ++ h.coinbaseAux.serialize

variable (h : BeaconHeader H)

def BeaconHeader.elements : Bytes :=
  bytes h.merkleRoot ++ (bytes h.mergeMiningRoot ++ (leBytes 4 h.bits ++ (leBytes 4 h.shards ++ (leBytes 4 h.k ++
    (leBytes 4 h.voteK ++ (leBytes 4 h.mergeMiningNumber ++ (writeSlice h.treeEncoding ++
      leBytes 4 h.treeCodingLengthBits)))))))

def BeaconHeader.write : Bytes :=
  [beaconMagicByte] ++ (intBytes 4 h.version ++ (intBytes 4 h.height ++ (bytes h.prevMMRRoot ++ (bytes h.prevBlock ++
    (h.elements ++ (writeBigInt h.chainWeight ++ (writeHashArray h.mergeMiningProof ++ h.btcAux.write)))))))

def ShardHeader.write (h : ShardHeader H) : Bytes :=
  [shardMagic] ++ (intBytes 4 h.height ++ (bytes h.prevMMRRoot ++ (bytes h.prevBlock ++ (bytes h.merkleRoot ++
    (leBytes 4 h.bits ++ (writeBigInt h.chainWeight ++ (writeHashArray h.shardMerkleProof ++
      (h.beaconHeader.write ++ h.beaconCoinbase.serialize))))))))

def BlockHeader.write : BlockHeader H → Bytes
  | .beacon h => h.write
  | .shard h => h.write

/-! ## Hashes -/

def BTCBlockAux.blockHash (h : BTCBlockAux H) : H := doubleHashH h.elements

def BeaconHeader.blockHash : H :=
  doubleHashH (intBytes 4 h.version ++ (intBytes 4 h.height ++ (bytes h.prevMMRRoot ++
    (h.elements ++ bytes h.btcAux.blockHash))))

def BeaconHeader.beaconExclusiveHash : H :=
  doubleHashH (intBytes 4 h.version ++ (intBytes 4 h.height ++ (bytes h.prevMMRRoot ++ (bytes h.prevBlock ++ h.elements))))

def ShardHeader.exclusiveHash (h : ShardHeader H) : H :=
  doubleHashH (intBytes 4 h.height ++ (bytes h.prevMMRRoot ++ (bytes h.prevBlock ++ (bytes h.merkleRoot ++
    leBytes 4 h.bits))))

def ShardHeader.blockHash (h : ShardHeader H) : H :=
  doubleHashH (intBytes 4 h.height ++ (bytes h.prevMMRRoot ++ (bytes h.prevBlock ++ (bytes h.merkleRoot ++
    (leBytes 4 h.bits ++ bytes h.beaconHeader.blockHash)))))

def BlockHeader.blockHash : BlockHeader H → H
  | .beacon h => h.blockHash
  | .shard h => h.blockHash

def BlockHeader.powHash (h : BlockHeader H) : H := h.beaconHeader.btcAux.blockHash

end

end Jaxnetd.Wire
