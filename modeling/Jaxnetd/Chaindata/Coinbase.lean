import Jaxnetd.Chaindata.Validate
import Jaxnetd.Chaindata.VanityAddress

/-!
# Package `chaindata`: the coinbases of merge-mined blocks (`validate_coinbase_tx.go`)

A shard block carries the header and the coinbase of the beacon block it was mined with, and a beacon header those of the
BTC block. The rules tie the three rewards together: that in shards is paid only when the beacon reward is burned, and that
one is burned only together with the BTC reward.
-/

namespace Jaxnetd.Chaindata
open Wire TxScript Checks ChainHash

variable {H : Type} [ChainHash H]

/-! ## Scripts -/

def rawJaxBurnScript : Bytes :=
  [0x76, 0xa9, 0x14, 0xbc, 0x47, 0x3a, 0xf4, 0xc7, 0x1c, 0x45, 0xd5, 0xaa, 0x32, 0x78, 0xad, 0xc9, 0x97, 0x01, 0xde, 0xd3,
    0x74, 0x0a, 0x54, 0x88, 0xac]

def rawBCHJaxBurnScript : Bytes :=
  [0x76, 0xa9, 0x14, 0x25, 0xd3, 0x4f, 0x2b, 0x97, 0x4d, 0x3c, 0xae, 0x5d, 0x34, 0xf2, 0xb9, 0x74, 0xd3, 0xca, 0xe5, 0xd3,
    0x4f, 0x2b, 0x97, 0x88, 0xac]

def isJaxnetBurnRawAddress (pkScript : Bytes) : Bool := pkScript = rawJaxBurnScript || pkScript = rawBCHJaxBurnScript

section
variable [Primitives]

/-- Whether `extractHTLCAddrs` returns no error. Only a public key can be invalid; the hashes have their lengths. -/
def extractHTLCAddrsOk : List ParsedOpcode → Bool
  | [_, _, _, _, key, op, _, _, _] =>
    if isKeyLength key.data ∧ op.value = OP_CHECKSIG then (Primitives.parsePubKey key.data).isSome else true
  | _ => true

def parsePkScript (pkScript : Bytes) : Except Fault ScriptClass := do
  let pops ← (parsed pkScript).mapError fun e => .error ("unable to parse script type: " ++ e.description)
  let scriptClass := typeOfScript pops
  failIf (scriptClass = .htlcScriptTy ∧ ¬extractHTLCAddrsOk pops)
    (.error "unable to parse script type: malformed public key")
  failIf (scriptClass ∉ [.pubKeyHashTy, .witnessV0PubKeyHashTy, .scriptHashTy, .witnessV0ScriptHashTy, .eadAddressTy,
    .htlcScriptTy]) (.error "unsupported script type")
  return scriptClass

end

/-- An error of the script package that is handed on. -/
def scriptFault (e : ScriptError) : Fault := .error e.description

def extractHTLCLockTime (pkScript : Bytes) : Except Fault Int := do
  let pops ← (parsed pkScript).mapError scriptFault
  let pop ← orFail indexOut pops[1]?
  if isSmallInt pop then return (asSmallInt pop : Int)
  else return wrap32 (← (makeScriptNum pop.data true 5).mapError scriptFault)

/-! ## The checks -/

section Main
variable [DecidableEq H]

def validateCoinbaseMerkleTreeProof (txHash : H) (proof : List H) (expectedRoot : H) : Bool :=
  proof.foldl hashMerkleBranches txHash = expectedRoot

def validateCoinbaseAux (merkleRoot : H) (aux : CoinbaseAux H) : Except Fault Unit :=
  failIf (¬validateCoinbaseMerkleTreeProof aux.tx.txHash aux.txMerkleProof merkleRoot)
    (.error "tx_merkle tree root is not match with blockMerkle root")

/-- The index expression of Go. -/
def outAt (outs : List TxOut) (i : Nat) : Except Fault TxOut := orFail indexOut outs[i]?

/-- A first output of value zero that pays the burn script. -/
def isJaxNetLinkOut (out : TxOut) : Bool := out.value = 0 && isJaxnetBurnRawAddress out.pkScript

def isNullDataOut [Primitives] (out : TxOut) : Bool := getScriptClass out.pkScript = .nullDataTy && out.value = 0

section BTC
variable [Primitives] (outs : List TxOut)

def validWitnessOut : Except Fault Bool := do
  if outs.length = 4 then return isNullDataOut (← outAt outs 3) else return decide (outs.length = 3)

/-- `ValidateBTCCoinbase` for 3 or 4 outputs. -/
def validateTypeB (jaxnetMarkerOutPresent vanityAddressPresent : Bool) : Except Fault Bool := do
  let errMsg := "invalid format of btc aux coinbase tx: "
  let second ← outAt outs 1
  let third ← outAt outs 2
  let validWitnessOut ← validWitnessOut outs
  let reward := second.value
  let fee := third.value
  if jaxnetMarkerOutPresent ∧ (reward = 625000000 ∨ reward < 625000000 ∧ fee ≤ 50000000) ∧ validWitnessOut then
    .ok (isJaxnetBurnRawAddress second.pkScript)
  else if jaxnetMarkerOutPresent ∧ reward > 625000000 then .error (.error (errMsg ++ "reward greater than 6.25 BTC"))
  else if jaxnetMarkerOutPresent ∧ reward < 625000000 ∧ fee > 50000000 then
    .error (.error (errMsg ++ "fee greater than 0.5 BTC"))
  else if jaxnetMarkerOutPresent ∧ ¬validWitnessOut then
    .error (.error (errMsg ++ "4th out can be only NULL_DATA with zero amount"))
  else if ¬jaxnetMarkerOutPresent ∧ vanityAddressPresent then .ok false
  else if ¬jaxnetMarkerOutPresent then .error (.error (errMsg ++ "first out must be zero and have JaxNetLink"))
  else .error (.error (errMsg ++ "unexpected scheme"))

/-- `ValidateBTCCoinbase`: whether the reward is burned. -/
def validateBTCCoinbase (aux : BTCBlockAux H) : Except Fault Bool := do
  (validateCoinbaseAux aux.merkleRoot aux.coinbaseAux).mapError (.within "invalid btc coinbase aux: ")
  let outs := aux.coinbaseAux.tx.txOut
  let first ← outAt outs 0
  let jaxnetMarkerOutPresent := isJaxNetLinkOut first
  let vanityAddressPresent ← (if jaxnetMarkerOutPresent then .ok true else vanityAddressPresent H outs)
  if outs.length = 3 ∨ outs.length = 4 then validateTypeB outs jaxnetMarkerOutPresent vanityAddressPresent
  else if outs.length > 7 then .error (.error "must have less than 7 outputs")
  else if ¬vanityAddressPresent then
    .error (.error "at least one out must start with 1JAX... or bitcoincash:qqjax... ")
  else .ok false

end BTC

def jaxnetMarker : Bytes := [0x06, 0x6a, 0x61, 0x78, 0x6e, 0x65, 0x74]

omit [DecidableEq H] in
def validateProofOfInclusion (beaconExclusiveHash : H) (signatureScript : Bytes) : Bool :=
  jaxnetMarker ++ 0x20 :: bytes beaconExclusiveHash ++ jaxnetMarker <:+: signatureScript

/-- `BeaconBaseReward * HaberStornettaPerJAXNETCoin`. -/
def baseReward : Int := 20 * 100000000

def beaconRewardLockPeriod : Int := 36000

variable [Primitives] {aux : BTCBlockAux H} {header : BeaconHeader H} {coinbase : MsgTx H}
  {burned : Bool}

omit [ChainHash H] [DecidableEq H] in
def checkBeaconForm (coinbase : MsgTx H) : Except Fault Unit := do
  let outs := coinbase.txOut
  let errMsg := "invalid format of beacon coinbase tx: "
  failIf (outs.length < 4 ∨ outs.length > 5) (.error (errMsg ++ "must have 4 or 5 outs"))
  checkWhen (outs.length = 5) do
    let out ← outAt outs 4
    failIf (¬isNullDataOut out) (.error (errMsg ++ "5th out can be only NULL_DATA with zero amount"))
  let link ← outAt outs 0
  failIf (¬isJaxNetLinkOut link) (.error (errMsg ++ "first out must be zero and have JaxNetLink"))
  let lock ← outAt outs 2
  let lockScript ← caught (parsePkScript lock.pkScript)
  failIf (lockScript ≠ some .htlcScriptTy) (.error (errMsg ++ "third output must be lock-script"))
  let lockTime ← caught (extractHTLCLockTime lock.pkScript)
  failIf (lockTime ≠ some beaconRewardLockPeriod) (.error (errMsg ++ " third output must be lock-script for " ++
    toString beaconRewardLockPeriod ++ " blocks"))

/-- `ValidateBeaconCoinbase`: whether the reward is burned. An expected reward of -1 is not compared. -/
def validateBeaconCoinbase (aux : BeaconHeader H) (coinbase : MsgTx H) (expectedReward : Int) :
    Except Fault Bool := do
  let btcBurnReward ← (validateBTCCoinbase aux.btcAux).mapError (.within "invalid btc aux: ")
  let exclusiveHash := aux.beaconExclusiveHash
  let btcIn ← orFail indexOut aux.btcAux.coinbaseAux.tx.txIn.head?
  failIf (¬validateProofOfInclusion exclusiveHash btcIn.signatureScript)
    (.error ("bitcoin coinbase must include beacon exclusive hash(" ++ hashString exclusiveHash ++ ")"))
  checkBeaconForm coinbase
  let errMsg := "invalid format of beacon coinbase tx: "
  let second ← outAt coinbase.txOut 1
  let third ← outAt coinbase.txOut 2
  let reward := second.value
  let locked := third.value
  let jxnBurnReward := isJaxnetBurnRawAddress second.pkScript
  failIf (btcBurnReward ∧ ¬jxnBurnReward) (.error (errMsg ++ "BTC burned, JaxNet reward prohibited"))
  failIf (¬btcBurnReward ∧ jxnBurnReward) (.error (errMsg ++ "BTC not burned, JaxNet burn prohibited"))
  failIf (expectedReward = -1 ∧ reward ≠ baseReward) (.error (errMsg ++ "invalid value of second out - has(" ++
    toString reward ++ ") expected(" ++ toString baseReward ++ ")"))
  failIf (expectedReward ≠ -1 ∧ ¬(reward = baseReward ∧ locked = wrap64 (expectedReward - baseReward)))
    (.error (errMsg ++ "invalid value of second out - has(" ++ toString reward ++ ", " ++ toString locked ++ ") expected(" ++
      toString expectedReward ++ ")"))
  return jxnBurnReward

def validateShardCoinbase (shardHeader : ShardHeader H) (shardCoinbaseTx : MsgTx H)
    (expectedReward : Int) : Except Fault Unit := do
  let beacon := shardHeader.beaconHeader
  (validateCoinbaseAux beacon.merkleRoot shardHeader.beaconCoinbase).mapError (.within "invalid beacon coinbase aux: ")
  let outs := shardCoinbaseTx.txOut
  let errMsg := "invalid format of shard coinbase tx: "
  failIf (outs.length < 3 ∨ outs.length > 4) (.error (errMsg ++ "must have 3 or 4 outs"))
  let link ← outAt outs 0
  failIf (¬isJaxNetLinkOut link) (.error (errMsg ++ "first out must be zero and have JaxNetLink"))
  checkWhen (outs.length = 4) do
    let out ← outAt outs 3
    failIf (¬isNullDataOut out) (.error (errMsg ++ "4th out can be only NULL_DATA with zero amount"))
  let second ← outAt outs 1
  let shardReward := second.value
  failIf (shardReward ≠ expectedReward) (.error (errMsg ++ "value(" ++ toString shardReward ++
    ") of second output not eq to expected reward(" ++ toString expectedReward ++ "); mmn(" ++
    toString beacon.mergeMiningNumber ++ ") k(" ++ toString beacon.k ++ ") "))
  let beaconBurned ← (validateBeaconCoinbase beacon shardHeader.beaconCoinbase.tx (-1)).mapError
    (.within "invalid beacon aux: ")
  failIf (¬beaconBurned ∧ ¬isJaxnetBurnRawAddress second.pkScript)
    (.error (errMsg ++ "BTC & JaxNet not burned, Jax reward prohibited"))

/-! ## Proof of burn -/

def SecondBurned (tx : MsgTx H) : Prop := ∃ out, tx.txOut[1]? = some out ∧ isJaxnetBurnRawAddress out.pkScript = true

def Committed (aux : CoinbaseAux H) (merkleRoot : H) : Prop :=
  aux.txMerkleProof.foldl hashMerkleBranches aux.tx.txHash = merkleRoot

def Marked (tx : MsgTx H) : Prop :=
  (tx.txOut.length = 3 ∨ tx.txOut.length = 4) ∧
    ∃ out, tx.txOut.head? = some out ∧ out.value = 0 ∧ isJaxnetBurnRawAddress out.pkScript = true

structure BurnProof (header : BeaconHeader H) (coinbase : MsgTx H) (expectedReward : Int) : Prop where
  committed : Committed header.btcAux.coinbaseAux header.btcAux.merkleRoot
  burned : SecondBurned coinbase → SecondBurned header.btcAux.coinbaseAux.tx
  marked : Marked header.btcAux.coinbaseAux.tx → (SecondBurned header.btcAux.coinbaseAux.tx ↔ SecondBurned coinbase)
  included : ∃ txIn before after, header.btcAux.coinbaseAux.tx.txIn.head? = some txIn ∧ txIn.signatureScript =
    before ++ (jaxnetMarker ++ 0x20 :: bytes header.beaconExclusiveHash ++ jaxnetMarker) ++ after
  reward : expectedReward ≠ -1 → ∃ out₁ out₂, coinbase.txOut[1]? = some out₁ ∧ coinbase.txOut[2]? = some out₂ ∧
    wrap64 (out₁.value + out₂.value) = expectedReward ∧
    (0 ≤ expectedReward → out₁.value + out₂.value = expectedReward)

section
omit [ChainHash H] [DecidableEq H] [Primitives]

theorem outAt_ok {outs : List TxOut} {i : Nat} {out : TxOut} : outAt outs i = .ok out ↔ outs[i]? = some out :=
  orFail_eq_ok

theorem secondBurned_iff {tx : MsgTx H} {out : TxOut} (h : tx.txOut[1]? = some out) :
    SecondBurned tx ↔ isJaxnetBurnRawAddress out.pkScript = true := by
  simp [SecondBurned, h]

end

omit [Primitives] in
theorem validateCoinbaseAux_ok {merkleRoot : H} {a : CoinbaseAux H} {u : Unit} :
    validateCoinbaseAux merkleRoot a = .ok u ↔ Committed a merkleRoot := by
  simp [validateCoinbaseAux, validateCoinbaseMerkleTreeProof, Committed]

omit [ChainHash H] [DecidableEq H] in
theorem validateTypeB_ok {outs : List TxOut} {marker vanity : Bool} (h : validateTypeB outs marker vanity = .ok burned) :
    ∃ second, outs[1]? = some second ∧ burned = (marker && isJaxnetBurnRawAddress second.pkScript) := by
  simp only [validateTypeB, bind_eq_ok, outAt_ok] at h
  obtain ⟨second, hsecond, third, -, witness, -, h⟩ := h
  refine ⟨second, hsecond, ?_⟩
  split at h
  next hvalid =>
    cases h
    simp [hvalid.1]
  next =>
    -- of the other returns only the one without a marker is not an error
    split at h; · cases h
    split at h; · cases h
    split at h; · cases h
    split at h
    next hnone =>
      cases h
      simp [hnone.1]
    next => split at h <;> cases h

theorem validateBTCCoinbase_ok (h : validateBTCCoinbase aux = .ok burned) :
    Committed aux.coinbaseAux aux.merkleRoot ∧ (burned = true → SecondBurned aux.coinbaseAux.tx) ∧
      (Marked aux.coinbaseAux.tx → (SecondBurned aux.coinbaseAux.tx ↔ burned = true)) := by
  simp only [validateBTCCoinbase, ok_rules, outAt_ok] at h
  obtain ⟨haux, first, hfirst, vanity, -, h⟩ := h
  refine ⟨validateCoinbaseAux_ok.1 haux, ?_⟩
  split at h
  next hlength =>
    obtain ⟨second, hsecond, hburned⟩ := validateTypeB_ok h
    rw [secondBurned_iff hsecond]
    refine ⟨fun hb => ?_, fun hmarked => ?_⟩
    · rw [hb] at hburned
      exact (Bool.and_eq_true_iff.1 hburned.symm).2
    · obtain ⟨-, out, hout, hvalue, hscript⟩ := hmarked
      obtain rfl : out = first := Option.some.inj (hout.symm.trans (List.head?_eq_getElem?.trans hfirst))
      rw [hburned]
      simp [isJaxNetLinkOut, hvalue, hscript]
  next hlength =>
    split at h; · cases h
    split at h
    · cases h
    · cases h
      exact ⟨by simp, fun hmarked => absurd hmarked.1 hlength⟩

theorem validateBeaconCoinbase_ok {expectedReward : Int}
    (h : validateBeaconCoinbase header coinbase expectedReward = .ok burned)
    (hint : -2 ^ 63 ≤ expectedReward ∧ expectedReward < 2 ^ 63) :
    BurnProof header coinbase expectedReward ∧ (burned = true ↔ SecondBurned coinbase) := by
  simp only [validateBeaconCoinbase, ok_rules, outAt_ok] at h
  obtain ⟨btcBurned, hbtc, txIn, htxIn, hincluded, -, second, hout, third, hthird, hpaid, hkept, -, hreward, rfl⟩ := h
  obtain ⟨hcommitted, himplies, hmarked⟩ := validateBTCCoinbase_ok hbtc
  have hsecond := secondBurned_iff hout
  -- both burns or none
  have hboth : btcBurned = true ↔ SecondBurned coinbase := by
    rw [hsecond]
    refine ⟨fun hb => ?_, fun hj => ?_⟩
    · by_contra hno
      exact hpaid ⟨hb, hno⟩
    · by_contra hno
      exact hkept ⟨hno, hj⟩
  refine ⟨⟨hcommitted, fun hj => himplies (hboth.2 hj), fun hm => (hmarked hm).trans hboth, ?_, fun hgiven => ?_⟩,
    hsecond.symm⟩
  · obtain ⟨before, after, heq⟩ := of_decide_eq_true hincluded
    exact ⟨txIn, before, after, htxIn, heq.symm⟩
  · obtain ⟨hbase, hlocked⟩ := by_contra fun hno => hreward ⟨hgiven, hno⟩
    refine ⟨second, third, hout, hthird, ?_, fun hpos => ?_⟩
    all_goals
      rw [hbase, hlocked]
      unfold wrap64 baseReward
      omega

/-- For an accepted shard coinbase that keeps its reward, the beacon and the BTC reward are burned; and an accepted
beacon coinbase is a proof of burn. -/
theorem proof_of_burn :
    (∀ (shardHeader : ShardHeader H) (shardCoinbaseTx : MsgTx H) (expectedReward : Int),
      validateShardCoinbase shardHeader shardCoinbaseTx expectedReward = .ok () → ¬SecondBurned shardCoinbaseTx →
        Committed shardHeader.beaconCoinbase shardHeader.beaconHeader.merkleRoot ∧
        Committed shardHeader.beaconHeader.btcAux.coinbaseAux shardHeader.beaconHeader.btcAux.merkleRoot ∧
        SecondBurned shardHeader.beaconCoinbase.tx ∧ SecondBurned shardHeader.beaconHeader.btcAux.coinbaseAux.tx) ∧
    ∀ (header : BeaconHeader H) (coinbase : MsgTx H) (expectedReward : Int) (burned : Bool),
      -2 ^ 63 ≤ expectedReward ∧ expectedReward < 2 ^ 63 →
        validateBeaconCoinbase header coinbase expectedReward = .ok burned → BurnProof header coinbase expectedReward := by
  refine ⟨fun shardHeader shardCoinbaseTx expectedReward h hkept => ?_, fun header coinbase expectedReward burned hint h =>
    (validateBeaconCoinbase_ok h hint).1⟩
  simp only [validateShardCoinbase, ok_rules, outAt_ok] at h
  obtain ⟨haux, -, link, -, -, -, second, hsecond, -, beaconBurned, hbeacon, hburn⟩ := h
  obtain ⟨hproof, hsame⟩ := validateBeaconCoinbase_ok hbeacon (by omega)
  have hkept' := secondBurned_iff hsecond
  have hburned : beaconBurned = true := by
    by_contra hno
    exact hburn ⟨hno, fun hj => hkept (hkept'.2 hj)⟩
  have hbeaconBurned := hsame.1 hburned
  exact ⟨validateCoinbaseAux_ok.1 haux, hproof.committed, hbeaconBurned, hproof.burned hbeaconBurned⟩

end Main

section Sample
attribute [local instance] sumHash toyPrimitives

def rewardLock : Bytes :=
  [0xb3, 0x03, 0xa0, 0x8c, 0x00, 0xa0, 0x63, 0x76, 0xa9, 0x14] ++ List.replicate 20 0 ++ [0x88, 0xac, 0x67, 0x6a, 0x68]

def burnedBeaconTx : MsgTx Nat :=
  ⟨1, [], [⟨0, rawJaxBurnScript⟩, ⟨baseReward, rawJaxBurnScript⟩, ⟨300, rewardLock⟩, ⟨0, [0x51]⟩], 0⟩

def burnedBtcTx (signatureScript : Bytes) : MsgTx Nat :=
  ⟨1, [⟨⟨0, maxUint32⟩, signatureScript, [], 0⟩],
    [⟨0, rawJaxBurnScript⟩, ⟨625000000, rawJaxBurnScript⟩, ⟨7, [0x51]⟩], 0⟩

def burnedHeader (signatureScript : Bytes) : BeaconHeader Nat :=
  { BeaconHeader.zero with
    merkleRoot := burnedBeaconTx.txHash
    btcAux := ⟨0, 0, (burnedBtcTx signatureScript).txHash, 0, 0, 0, ⟨burnedBtcTx signatureScript, []⟩⟩ }

def burnedScript : Bytes :=
  0x51 :: jaxnetMarker ++ 0x20 :: bytes (burnedHeader []).beaconExclusiveHash ++ jaxnetMarker

def burnedShardHeader : ShardHeader Nat := ⟨0, 0, 0, 0, 0, 0, [], burnedHeader burnedScript, ⟨burnedBeaconTx, []⟩⟩

def keptShardTx : MsgTx Nat := ⟨1, [], [⟨0, rawJaxBurnScript⟩, ⟨50, [0x51]⟩, ⟨1, [0x51]⟩], 0⟩

theorem proof_of_burn_kept : SecondBurned burnedBeaconTx ∧ SecondBurned (burnedBtcTx burnedScript) ∧
    BurnProof (burnedHeader burnedScript) burnedBeaconTx (baseReward + 300) := by
  have hshard : validateShardCoinbase burnedShardHeader keptShardTx 50 = .ok () := by decide +kernel
  have hbeacon : validateBeaconCoinbase (burnedHeader burnedScript) burnedBeaconTx (baseReward + 300) = .ok true := by
    decide +kernel
  have hkept : ¬SecondBurned keptShardTx := by
    rintro ⟨out, hout, hburned⟩
    cases hout
    revert hburned
    decide
  obtain ⟨-, -, h⟩ := proof_of_burn.1 burnedShardHeader keptShardTx 50 hshard hkept
  exact ⟨h.1, h.2, proof_of_burn.2 _ _ _ true (by decide) hbeacon⟩

end Sample

end Jaxnetd.Chaindata
