import Jaxnetd.Blockchain.Connect
import Jaxnetd.Wire.Message

/-!
# Sanity of a header

`checkProofOfWork`, `checkBlockHeaderSanity` and `CheckBlockSanityWF` (`chaindata/validate.go`) on the headers and
blocks as they are sent, with the rule of hash sorting (`pow/hashsorting.go`). A time is its Unix second, so it is
never more precise than one. The number of slots of the hash sorting is not zero.
-/

namespace Jaxnetd.Chaindata
open Wire TxScript ChainHash Checks Blockchain

/-- `chaincfg.Params`, as far as the sanity of a header depends on it. -/
structure PowParams where
  powLimit : Int
  hashSorting : Bool
  hashSortingSlotNumber : Nat
  chainID : Nat

def hashSortingLastBits (powHash hashSortingSlotNumber : Nat) : Nat :=
  let res := powHash &&& ((hashSortingSlotNumber + (2 ^ 32 - 1)) % 2 ^ 32)
  if res < hashSortingSlotNumber then res else res % hashSortingSlotNumber

def validateHashSortingRule (powHash hashSortingSlotNumber chainID : Nat) : Bool :=
  hashSortingLastBits powHash hashSortingSlotNumber = chainID % hashSortingSlotNumber

/-- The verb `%064x` of a number. -/
def hexPadded (n : Int) : String :=
  let digits := Nat.toDigits 16 n.natAbs
  let sign := if n < 0 then ['-'] else []
  String.ofList (sign ++ List.replicate (64 - sign.length - digits.length) '0' ++ digits)

def maxTimeOffsetSeconds : Int := 2 * 60 * 60

variable {H : Type} [ChainHash H]

/-- What the interface `BlockHeader` returns to the validation. -/
def fields : Wire.BlockHeader H → Blockchain.BlockHeader H
  | .beacon h => ⟨h.version, h.height, h.chainWeight, h.prevBlock, h.merkleRoot, h.btcAux.timestamp, h.bits, h.k, h.voteK,
      h.shards, h.blockHash, maxBeaconBlockHeaderPayload⟩
  | .shard h => ⟨h.beaconHeader.version, h.height, h.chainWeight, h.prevBlock, h.merkleRoot,
      h.beaconHeader.btcAux.timestamp, h.bits, h.beaconHeader.k, h.beaconHeader.voteK, h.beaconHeader.shards, h.blockHash,
      maxShardBlockHeaderPayload⟩

def hashToBig (hash : H) : Nat := MergeMining.setBytes (bytes hash).reverse

def checkProofOfWork (cfg : PowParams) (header : Wire.BlockHeader H) (noPoWCheck : Bool) : Except ChainError Unit := do
  let target := compactToBig (fields header).bits
  failIf (target ≤ 0) (.rule .unexpectedDifficulty ("block target difficulty of " ++ hexPadded target ++ " is too low"))
  failIf (cfg.powLimit < target) (.rule .unexpectedDifficulty ("block target difficulty of " ++ hexPadded target ++
    " is higher than max of " ++ hexPadded cfg.powLimit))
  let hashNum := hashToBig header.powHash
  failIf (¬noPoWCheck ∧ target < hashNum) (.rule .highHash ("block pow hash of " ++ hexPadded hashNum ++
    " is higher than expected max of " ++ hexPadded target))
  -- the rule keeps only the last bits of the number that the message shows
  failIf (¬noPoWCheck ∧ cfg.hashSorting ∧ ¬validateHashSortingRule hashNum cfg.hashSortingSlotNumber cfg.chainID)
    (.rule .hashSortingRuleNotMatch ("block pow hash of " ++
      hexPadded (hashNum &&& ((cfg.hashSortingSlotNumber + (2 ^ 32 - 1)) % 2 ^ 32) : Nat) ++ " is not match for chain " ++
      toString cfg.chainID ++ " by hash-sorting rules"))

def checkBlockHeaderSanity (cfg : PowParams) (adjustedTime : Int) (header : Wire.BlockHeader H) (noPoWCheck : Bool) :
    Except ChainError Unit := do
  checkProofOfWork cfg header noPoWCheck
  failIf (adjustedTime + maxTimeOffsetSeconds < (fields header).timestamp) (.rule .timeTooNew
    ("block timestamp of " ++ toString (fields header).timestamp ++ " is too far in the future"))

def checkMsgBlockSanity [DecidableEq H] (cfg : PowParams) (adjustedTime : Int) (block : MsgBlock H) (noPoWCheck : Bool) :
    Except ChainError Unit :=
  checkBlockSanityWF (checkBlockHeaderSanity cfg adjustedTime block.header noPoWCheck) block.header.maxLength
    (fields block.header).merkleRoot block.transactions

end Jaxnetd.Chaindata
