import Jaxnetd.Lib.Decoder
import Jaxnetd.MergeMining.Validate
import Jaxnetd.TxScript.WitnessDigest

/-!
# Package `wire`: reading elements (`encoder.go`), transactions (`msg_tx.go`) and block headers

A reader takes bytes off the front of a string. A run-time panic of Go is an error of its own kind, so that
"never panics" can be told from "returns an error": the calls of `make` and the slice expressions of the source
are steps of the readers. The free lists of buffers are left out.
-/

namespace Jaxnetd.Wire
open TxScript ChainHash Decoder

inductive WireError where
  | eof
  | unexpectedEOF
  /-- `MessageError`. -/
  | message (f description : String)
  | other (text : String)
  | panic (text : String)
deriving DecidableEq

def WireError.IsPanic (e : WireError) : Prop := ∃ text, e = .panic text

abbrev Reader (α : Type) := Decoder UInt8 WireError α

/-- `io.ReadFull` into a buffer of `n` bytes. -/
def readFull (n : Nat) : Reader Bytes := fun s =>
  if n ≤ s.length then .ok (s.take n, s.drop n) else .error (if s = [] then .eof else .unexpectedEOF)

/-- The largest number of bytes the run time allocates, on amd64. -/
def maxAlloc : Nat := 2 ^ 48

/-- `make` of `n` elements of `elemSize` bytes. -/
def makeSlice (elemSize n : Nat) : Reader Unit :=
  failIf (maxAlloc < elemSize * n) (.panic "runtime error: makeslice: len out of range")

/-- `BinarySerializer.Uint8` to `Uint64`. -/
def readUint (w : Nat) : Reader Nat := do
  let buf ← readFull w
  return leNat buf

/-- The same for the signed types. -/
def readInt (w : Nat) : Reader Int := do
  let rv ← readUint w
  return (rv : Int).bmod (2 ^ (8 * w))

/-- The verb `%x` of a number. -/
def hexNat (n : Nat) : String := String.ofList (Nat.toDigits 16 n)

def nonCanonicalVarInt (rv discriminant min : Nat) : WireError :=
  .message "ReadVarInt" ("non-canonical varint " ++ hexNat rv ++ " - discriminant " ++ hexNat discriminant ++
    " must encode a value greater than " ++ hexNat min)

/-- A case of `ReadVarInt` with a discriminant. -/
def readLongInt (w min discriminant : Nat) : Reader Nat := do
  let rv ← readUint w
  failIf (rv < min) (nonCanonicalVarInt rv discriminant min)
  return rv

def readVarInt : Reader Nat := do
  let discriminant ← readUint 1
  if discriminant = 0xff then readLongInt 8 0x100000000 discriminant
  else if discriminant = 0xfe then readLongInt 4 0x10000 discriminant
  else if discriminant = 0xfd then readLongInt 2 0xfd discriminant
  else return discriminant

def maxMessagePayload : Nat := 1024 * 1024 * 1024 * 2 - 1

def maxBlockPayload : Nat := 768 * 1024

/-- The guard of `ReadVarBytes` and of `readScript`. -/
def checkCount (f : String) (maxAllowed : Nat) (fieldName : String) (count : Nat) : Reader Unit :=
  failIf (maxAllowed < count) (.message f (fieldName ++ " is larger than the max allowed size [count " ++
    toString count ++ ", max " ++ toString maxAllowed ++ "]"))

def readVarBytes (maxAllowed : Nat) (fieldName : String) : Reader Bytes := do
  let count ← readVarInt
  checkCount "ReadVarBytes" maxAllowed fieldName count
  makeSlice 1 count
  readFull count

/-- `readScript`, with the buffer that `Borrow` makes. -/
def readScript (maxAllowed : Nat) (fieldName : String) : Reader Bytes := do
  let count ← readVarInt
  checkCount "readScript" maxAllowed fieldName count
  makeSlice 1 (max count 512)
  readFull count

/-- The slice case of `ReadElement`. -/
def readSlice : Reader Bytes := do
  let length ← readUint 4
  makeSlice 1 length
  readFull length

/-! ## Transactions -/

def maxTxInPerMessage : Nat := maxBlockPayload / 41 + 1

def maxTxOutPerMessage : Nat := maxBlockPayload / 9 + 1

def maxWitnessItemsPerInput : Nat := 500000

def maxWitnessItemSize : Nat := 11000

def tooMany (f what : String) (count max : Nat) : WireError :=
  .message f ("too many " ++ what ++ " [count " ++ toString count ++ ", max " ++ toString max ++ "]")

variable {H : Type} (tx : MsgTx H)

/-- The scripts of a transaction in the order in which they are moved to one buffer. -/
def MsgTx.scripts : List Bytes :=
  tx.txIn.flatMap (fun txIn => txIn.signatureScript :: txIn.witness) ++ tx.txOut.map TxOut.pkScript

/-- The loops that copy the scripts behind each other: the buffer and the place of each script in it. -/
def placeScripts (scripts : Bytes) (offset : Nat) : List Bytes → Except WireError (Bytes × List (Nat × Nat))
  | [] => .ok (scripts, [])
  | script :: rest =>
    let endAt := offset + script.length
    if scripts.length < offset ∨ scripts.length < endAt then
      .error (.panic "runtime error: slice bounds out of range")
    else do
      let (scripts, places) ← placeScripts (copyAt scripts offset script) endAt rest
      return (scripts, (offset, endAt) :: places)

/-- `scripts[offset:end:end]`. -/
def sliceAt (scripts : Bytes) (place : Nat × Nat) : Bytes := (scripts.take place.2).drop place.1

/-- The inputs with new scripts, and the scripts left. -/
def setInScripts : List (TxIn H) → List Bytes → List (TxIn H) × List Bytes
  | txIn :: txIns, script :: scripts =>
    let n := txIn.witness.length
    let r := setInScripts txIns (scripts.drop n)
    ({ txIn with signatureScript := script, witness := scripts.take n } :: r.1, r.2)
  | txIns, scripts => (txIns, scripts)

def MsgTx.setScripts (scripts : List Bytes) : MsgTx H :=
  let r := setInScripts tx.txIn scripts
  { tx with txIn := r.1, txOut := tx.txOut.zipWith (fun out script => { out with pkScript := script }) r.2 }

/-- The end of `BtcDecode`: one buffer for all scripts. -/
def MsgTx.moveScripts : Reader (MsgTx H) := do
  let totalScriptSize := (tx.scripts.map List.length).sum
  makeSlice 1 totalScriptSize
  fun s => do
    let (scripts, places) ← placeScripts (List.replicate totalScriptSize 0) 0 tx.scripts
    return (tx.setScripts (places.map (sliceAt scripts)), s)

/-- The flag of a transaction with witnesses, and the count that follows it. -/
def readFlag (witnessEncoding : Bool) (count : Nat) : Reader (Bool × Nat) :=
  if count = 0 ∧ witnessEncoding then do
    let flag ← readFull 1
    failIf (flag ≠ [0x01]) (.message "MsgTx.BtcDecode" ("witness tx but flag byte is " ++ hexString flag))
    let count ← readVarInt
    return (true, count)
  else return (false, count)

def readTxWitness : Reader (List Bytes) := do
  let witCount ← readVarInt
  failIf (maxWitnessItemsPerInput < witCount)
    (tooMany "MsgTx.BtcDecode" "witness items to fit into max message size" witCount maxWitnessItemsPerInput)
  makeSlice 24 witCount
  repeatN (readScript maxWitnessItemSize "script witness item") witCount

/-- The witnesses of the inputs, if there are any. -/
def readWitnesses (flag : Bool) (txIns : List (TxIn H)) : Reader (List (TxIn H)) :=
  if flag then do
    let witnesses ← repeatN readTxWitness txIns.length
    return txIns.zipWith (fun txIn witness => { txIn with witness }) witnesses
  else return txIns

def readTxOut : Reader TxOut := do
  let value ← readInt 8
  let pkScript ← readScript maxMessagePayload "transaction output public key script"
  return ⟨value, pkScript⟩

section
variable [ChainHash H] [HashArray H]

def readHash : Reader H := do
  let buf ← readFull 32
  return HashArray.ofBytes buf

def readOutPoint : Reader (OutPoint H) := do
  let hash ← readHash
  let index ← readUint 4
  return ⟨hash, index⟩

def readTxIn : Reader (TxIn H) := do
  let previousOutPoint ← readOutPoint
  let signatureScript ← readScript maxMessagePayload "transaction input signature script"
  let sequence ← readUint 4
  return ⟨previousOutPoint, signatureScript, [], sequence⟩

/-- `BtcDecode` behind the number of inputs. -/
def MsgTx.readBody (version : Int) (flag : Bool) (count : Nat) : Reader (MsgTx H) := do
  failIf (maxTxInPerMessage < count)
    (tooMany "MsgTx.BtcDecode" "input transactions to fit into max message size" count maxTxInPerMessage)
  makeSlice 96 count
  makeSlice 8 count
  let txIn ← repeatN readTxIn count
  let count ← readVarInt
  failIf (maxTxOutPerMessage < count)
    (tooMany "MsgTx.BtcDecode" "output transactions to fit into max message size" count maxTxOutPerMessage)
  makeSlice 32 count
  makeSlice 8 count
  let txOut ← repeatN readTxOut count
  let txIn ← readWitnesses flag txIn
  let lockTime ← readUint 4
  MsgTx.moveScripts ⟨version, txIn, txOut, lockTime⟩

def MsgTx.btcDecode (witnessEncoding : Bool) : Reader (MsgTx H) := do
  let version ← readInt 4
  let count ← readVarInt
  let r ← readFlag witnessEncoding count
  MsgTx.readBody version r.1 r.2

end

/-! ## Block headers -/

/-- `ReadBigInt`. The first length only sizes a buffer thrown away. -/
def readBigInt : Reader Int := do
  let count ← readVarInt
  makeSlice 1 count
  let buf ← readSlice
  return (MergeMining.setBytes buf : Int)

section
variable [ChainHash H] [HashArray H]

def readHashArray : Reader (List H) := do
  let count ← readVarInt
  makeSlice 32 count
  repeatN readHash count

/-- `CoinbaseAux.Deserialize`. -/
def readCoinbaseAux : Reader (CoinbaseAux H) := do
  let tx ← MsgTx.btcDecode false
  let txMerkleProof ← readHashArray
  return ⟨tx, txMerkleProof⟩

def readBTCBlockHeader : Reader (BTCBlockAux H) := do
  let version ← readInt 4
  let prevBlock ← readHash
  let merkleRoot ← readHash
  let timestamp ← readUint 4
  let bits ← readUint 4
  let nonce ← readUint 4
  let coinbaseAux ← readCoinbaseAux
  return ⟨version, prevBlock, merkleRoot, timestamp, bits, nonce, coinbaseAux⟩

/-- `readBeaconBlockHeader` behind the magic byte. -/
def readBeaconBody : Reader (BeaconHeader H) := do
  let version ← readInt 4
  let height ← readInt 4
  let prevMMRRoot ← readHash
  let prevBlock ← readHash
  let merkleRoot ← readHash
  let mergeMiningRoot ← readHash
  let bits ← readUint 4
  let shards ← readUint 4
  let k ← readUint 4
  let voteK ← readUint 4
  let mergeMiningNumber ← readUint 4
  let treeEncoding ← readSlice
  let treeCodingLengthBits ← readUint 4
  let chainWeight ← readBigInt
  let mergeMiningProof ← readHashArray
  let btcAux ← readBTCBlockHeader
  return ⟨version, prevMMRRoot, height, prevBlock, merkleRoot, bits, chainWeight, shards, k, voteK, mergeMiningRoot,
    mergeMiningNumber, treeEncoding, mergeMiningProof, treeCodingLengthBits, btcAux⟩

def readMagic (magic : UInt8) (expected : String) : Reader Unit := do
  let magicN ← readFull 1
  failIf (magicN ≠ [magic]) (.other ("invalid magic byte: 0x" ++ hexString magicN ++ ", expected " ++ expected))

def readBeaconBlockHeader : Reader (BeaconHeader H) := do
  readMagic beaconMagicByte "beacon(0x6d)"
  readBeaconBody

/-- `readShardBlockHeader` behind the magic byte. -/
def readShardBody : Reader (ShardHeader H) := do
  let height ← readInt 4
  let prevMMRRoot ← readHash
  let prevBlock ← readHash
  let merkleRoot ← readHash
  let bits ← readUint 4
  let chainWeight ← readBigInt
  let shardMerkleProof ← readHashArray
  let beaconHeader ← readBeaconBlockHeader
  let beaconCoinbase ← readCoinbaseAux
  return ⟨height, prevMMRRoot, prevBlock, merkleRoot, bits, chainWeight, shardMerkleProof, beaconHeader, beaconCoinbase⟩

def readShardBlockHeader : Reader (ShardHeader H) := do
  readMagic shardMagic "shard(0x73)"
  readShardBody

def decodeHeader : Reader (BlockHeader H) := do
  let magicN ← readFull 1
  if magicN = [beaconMagicByte] then do
    let h ← readBeaconBody
    return .beacon h
  else if magicN = [shardMagic] then do
    let h ← readShardBody
    return .shard h
  else fail (.other ("invalid magic byte: 0x" ++ hexString magicN ++ ", expected beacon(0x6d) or shard(0x73)"))

end

end Jaxnetd.Wire
