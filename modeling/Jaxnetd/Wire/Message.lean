import Jaxnetd.Wire.Decode

/-!
# Package `wire`: messages (`msg_block.go`, `msg_ead_info.go`, `message.go`)

Blocks and the addresses of exchange agents as they are sent and received.
-/

namespace Jaxnetd.Wire
open TxScript ChainHash Decoder

/-! ## Blocks -/

structure MsgBlock (H : Type) where
  header : BlockHeader H
  transactions : List (MsgTx H)

def maxTxPerBlock : Nat := maxBlockPayload / 10 + 1

variable {H : Type}

def MsgBlock.serializeSizeStripped (msg : MsgBlock H) : Nat :=
  msg.header.maxLength + varIntSerializeSize msg.transactions.length +
    (msg.transactions.map MsgTx.serializeSizeStripped).sum

def MsgBlock.serializeSize (msg : MsgBlock H) : Nat :=
  msg.header.maxLength + varIntSerializeSize msg.transactions.length + (msg.transactions.map MsgTx.serializeSize).sum

def MsgBlock.maxPayloadLength (_ : MsgBlock H) : Nat := maxBlockPayload

section
variable [ChainHash H]

def MsgBlock.btcEncode (msg : MsgBlock H) (witnessEncoding : Bool) : Bytes :=
  msg.header.write ++ varInt msg.transactions.length ++
    msg.transactions.flatMap fun tx => tx.btcEncode witnessEncoding

/-- The checks of `WriteMessageWithEncodingN` on the payload of a message; the envelope is left out. -/
def writePayload (cmd : String) (maxPayloadLength : Nat) (payload : Bytes) : Except WireError Bytes :=
  if maxMessagePayload < payload.length then
    .error (.message "WriteMessage" ("message payload is too large - encoded " ++ toString payload.length ++
      " bytes, but maximum message payload is " ++ toString maxMessagePayload ++ " bytes"))
  else if maxPayloadLength < payload.length % 2 ^ 32 then
    .error (.message "WriteMessage" ("message payload is too large - encoded " ++ toString payload.length ++
      " bytes, but maximum message payload size for messages of type [" ++ cmd ++ "] is " ++
      toString maxPayloadLength ++ "."))
  else .ok payload

def MsgBlock.writeMessage (msg : MsgBlock H) (witnessEncoding : Bool) : Except WireError Bytes :=
  writePayload "block" msg.maxPayloadLength (msg.btcEncode witnessEncoding)

variable [HashArray H] (header : Option (BlockHeader H))

/-- The header of a block: its kind is read unless the receiver of the message already has one. -/
def readHeader : Reader (BlockHeader H) :=
  match header with
  | none => decodeHeader
  | some (.beacon _) => do
    let h ← readBeaconBlockHeader
    return .beacon h
  | some (.shard _) => do
    let h ← readShardBlockHeader
    return .shard h

def MsgBlock.btcDecode (witnessEncoding : Bool) : Reader (MsgBlock H) := do
  let header ← readHeader header
  let txCount ← readVarInt
  failIf (maxTxPerBlock < txCount)
    (tooMany "MsgBlock.BtcDecode" "transactions to fit into a block" txCount maxTxPerBlock)
  makeSlice 8 txCount
  let transactions ← repeatN (MsgTx.btcDecode witnessEncoding) txCount
  return ⟨header, transactions⟩

end

/-! ## Exchange agents -/

/-- `EADAddress`: either the IP or the URL is set. -/
structure EADAddress (H : Type) where
  ip : Option Bytes
  port : Nat
  url : Bytes
  expiresAt : Int
  shard : Nat
  txHash : H
  txOutIndex : Int

structure EADAddresses (H : Type) where
  id : Nat
  ownerPubKey : Bytes
  addresses : List (EADAddress H)

def maxEADDomainLen : Nat := 256

section
variable [ChainHash H] [HashArray H]

def EADAddress.btcDecode : Reader (EADAddress H) := do
  let expiresAt ← readUint 4
  let shard ← readUint 4
  let txHash ← readHash
  let port ← readUint 4
  let txOutIndex ← readInt 8
  let isURL ← readUint 1
  if isURL = 0 then do
    let ip ← readFull 16
    return ⟨some ip, port % 2 ^ 16, [], expiresAt, shard, txHash, txOutIndex⟩
  else do
    let domain ← readVarBytes maxEADDomainLen "TxHash"
    return ⟨none, port % 2 ^ 16, domain, expiresAt, shard, txHash, txOutIndex⟩

def EADAddresses.btcDecode : Reader (EADAddresses H) := do
  let id ← readVarInt
  let ownerPubKey ← readVarBytes (65 * 2) "OwnerPubKey"
  let count ← readVarInt
  makeSlice 96 count
  let addresses ← repeatN EADAddress.btcDecode count
  return ⟨id, ownerPubKey, addresses⟩

end

end Jaxnetd.Wire
