import Jaxnetd.Blockchain.BlockId
import Jaxnetd.Chaindata.LockData
import Jaxnetd.MergeMining.RoundTrip

/-!
# When the checks of the auxiliary headers stop

`ValidateJaxAuxRules` takes the first transaction of a block, the first output and the first input of a BTC coinbase and the
beacon node at the height of a header without a look at whether they are there, and builds a tree for the number of shards
of a header.
-/

namespace Jaxnetd.Blockchain
open Wire TxScript ChainHash Checks Chaindata MergeMining

section
variable {H : Type} [ChainHash H] [DecidableEq H] [Primitives] {coinbase : MsgTx H} {reward : Int} {outs : List TxOut}

/-! ## The coinbases -/

/-- A BTC coinbase below its Merkle root without outputs, or one that passes its own check and has no inputs. -/
def LacksFirst (aux : BTCBlockAux H) : Prop :=
  Committed aux.coinbaseAux aux.merkleRoot ∧ aux.coinbaseAux.tx.txOut = [] ∨
    (∃ burned, validateBTCCoinbase aux = .ok burned) ∧ aux.coinbaseAux.tx.txIn = []

/-- What the outputs of a shard coinbase are when the beacon coinbase is looked at. -/
def PaysReward (outs : List TxOut) (reward : Int) : Prop :=
  (outs.length = 3 ∨ outs.length = 4 ∧ outs[3]?.any isNullDataOut) ∧ outs[0]?.any isJaxNetLinkOut ∧
    outs[1]?.map TxOut.value = some reward

omit [Primitives] in
theorem avoids_outAt {i : Nat} : Avoids Fault.IsStop (outAt outs i) ↔ i < outs.length := by
  rw [outAt, avoids_orFail, List.getElem?_eq_none_iff]
  simp [indexOut]

omit [ChainHash H] [DecidableEq H] in
theorem avoids_typeB (hlen : outs.length = 3 ∨ outs.length = 4) (marker vanity : Bool) :
    Avoids Fault.IsStop (validateTypeB outs marker vanity) := by
  have hwitness : Avoids Fault.IsStop (validWitnessOut outs) := by
    unfold validWitnessOut
    split
    next => exact avoids_bind.2 ⟨avoids_outAt.2 (by omega), fun _ _ => avoids_ok⟩
    next => exact avoids_ok
  refine avoids_bind.2 ⟨avoids_outAt.2 (by omega), fun second _ => avoids_bind.2 ⟨avoids_outAt.2 (by omega), fun third _ =>
    avoids_bind.2 ⟨hwitness, fun witness _ => ?_⟩⟩⟩
  dsimp only
  split_ifs
  all_goals first | exact avoids_ok | exact avoids_error.2 Fault.not_isStop_error

theorem avoids_btcCoinbase {aux : BTCBlockAux H} : Avoids Fault.IsStop (validateBTCCoinbase aux) ↔
    ¬(Committed aux.coinbaseAux aux.merkleRoot ∧ aux.coinbaseAux.tx.txOut = []) := by
  constructor
  · rintro h ⟨hroot, hnil⟩
    have hfirst := (avoids_bind.1 ((avoids_bind.1 h).2 () (mapError_eq_ok.2 (validateCoinbaseAux_ok.2 hroot)))).1
    simpa [hnil] using avoids_outAt.1 hfirst
  · intro h
    refine avoids_bind.2 ⟨avoids_within.2 avoids_refusal, fun _ hroot => ?_⟩
    have hne : aux.coinbaseAux.tx.txOut ≠ [] := fun hnil => h ⟨validateCoinbaseAux_ok.1 (mapError_eq_ok.1 hroot), hnil⟩
    refine avoids_bind.2 ⟨avoids_outAt.2 (List.length_pos_iff.2 hne), fun first _ => avoids_bind.2 ⟨?_, fun vanity _ => ?_⟩⟩
    · split
      · exact avoids_ok
      · obtain ⟨found, hfound⟩ := vanityAddressPresent_ok H aux.coinbaseAux.tx.txOut
        rw [hfound]
        exact avoids_ok
    · split
      next hlen => exact avoids_typeB hlen _ _
      next =>
        split_ifs
        all_goals first | exact avoids_ok | exact avoids_error.2 Fault.not_isStop_error

/-- The class of a lock script is looked at before its second opcode is read. -/
theorem htlc_second {script : Bytes} (h : parsePkScript script = .ok .htlcScriptTy) :
    ∃ pops, parsed script = .ok pops ∧ 1 < pops.length := by
  simp only [parsePkScript, ok_rules] at h
  obtain ⟨pops, hpops, -, -, hclass⟩ := h
  have hhtlc : (isHTLC pops).isSome := by
    unfold typeOfScript at hclass
    split_ifs at hclass
    assumption
  refine ⟨pops, hpops, ?_⟩
  by_contra hshort
  rw [isHTLC, dif_pos (by omega)] at hhtlc
  cases hhtlc

omit [ChainHash H] [DecidableEq H] in
theorem avoids_beaconForm : Avoids Fault.IsStop (checkBeaconForm coinbase) := by
  refine avoids_refusalThen fun hlen => ?_
  have hclass : ∀ script, Avoids Fault.IsStop (parsePkScript script) := fun script =>
    avoids_bind.2 ⟨avoids_mapError.2 fun _ _ => Fault.not_isStop_error, fun _ _ =>
      avoids_refusalThen fun _ => avoids_refusalThen fun _ => avoids_ok⟩
  refine avoids_bind.2 ⟨avoids_checkWhen.2 fun hfive => avoids_bind.2 ⟨avoids_outAt.2 (by omega), fun out _ =>
    avoids_refusal⟩, fun _ _ => ?_⟩
  refine avoids_bind.2 ⟨avoids_outAt.2 (by omega), fun link _ => avoids_refusalThen fun _ => ?_⟩
  refine avoids_bind.2 ⟨avoids_outAt.2 (by omega), fun lock _ => avoids_bind.2 ⟨avoids_caught.2 (hclass _), fun c hc => ?_⟩⟩
  refine avoids_refusalThen fun hhtlc => ?_
  rw [not_not.1 hhtlc, caught_eq_some] at hc
  obtain ⟨pops, hpops, hlong⟩ := htlc_second hc
  refine avoids_bind.2 ⟨avoids_caught.2 (avoids_lockTime.2 fun pops' hpops' => ?_), fun _ _ => avoids_refusal⟩
  rw [hpops, Except.ok.injEq] at hpops'
  rwa [← hpops']

omit [ChainHash H] [DecidableEq H] in
theorem checkBeaconForm_length (h : checkBeaconForm coinbase = .ok ()) : 4 ≤ coinbase.txOut.length := by
  simp only [checkBeaconForm, ok_rules] at h
  omega

theorem avoids_beaconCoinbase {aux : BeaconHeader H} :
    Avoids Fault.IsStop (validateBeaconCoinbase aux coinbase reward) ↔ ¬LacksFirst aux.btcAux := by
  constructor
  · rintro h (hfirst | ⟨⟨burned, hburned⟩, hnil⟩)
    · exact avoids_btcCoinbase.1 (avoids_within.1 (avoids_bind.1 h).1) hfirst
    · have hin := (avoids_bind.1 ((avoids_bind.1 h).2 burned (mapError_eq_ok.2 hburned))).1
      exact avoids_orFail.1 hin (by rw [hnil]; rfl) Fault.isStop_stop
  · intro h
    rw [LacksFirst, not_or] at h
    refine avoids_bind.2 ⟨avoids_within.2 (avoids_btcCoinbase.2 h.1), fun burned hburned => ?_⟩
    refine avoids_bind.2 ⟨avoids_orFail.2 fun hnone => ?_, fun btcIn _ => avoids_refusalThen fun _ => ?_⟩
    · exact absurd ⟨⟨burned, mapError_eq_ok.1 hburned⟩, List.head?_eq_none_iff.1 hnone⟩ h.2
    · refine avoids_bind.2 ⟨avoids_beaconForm, fun _ hform => ?_⟩
      have hlen := checkBeaconForm_length hform
      refine avoids_bind.2 ⟨avoids_outAt.2 (by omega), fun second _ => avoids_bind.2
        ⟨avoids_outAt.2 (by omega), fun third _ => ?_⟩⟩
      exact avoids_refusalThen fun _ => avoids_refusalThen fun _ => avoids_refusalThen fun _ => avoids_refusalThen fun _ =>
        avoids_ok

theorem avoids_shardCoinbase {aux : ShardHeader H} : Avoids Fault.IsStop (validateShardCoinbase aux coinbase reward) ↔
    ¬(Committed aux.beaconCoinbase aux.beaconHeader.merkleRoot ∧ PaysReward coinbase.txOut reward ∧
      LacksFirst aux.beaconHeader.btcAux) := by
  constructor
  · rintro h ⟨hroot, ⟨hlen, hlink, hreward⟩, hfirst⟩
    simp only [Option.any_eq_true, Option.map_eq_some_iff] at hlen hlink hreward
    obtain ⟨link, hlinkAt, hlink⟩ := hlink
    obtain ⟨second, hsecond, hreward⟩ := hreward
    replace h := (avoids_bind.1 h).2 () (mapError_eq_ok.2 (validateCoinbaseAux_ok.2 hroot))
    replace h := (avoids_bind.1 h).2 () (failIf_eq_ok.2 (by omega))
    replace h := (avoids_bind.1 h).2 link (outAt_ok.2 hlinkAt)
    replace h := (avoids_bind.1 h).2 () (failIf_eq_ok.2 (not_not.2 hlink))
    replace h := (avoids_bind.1 h).2 () (checkWhen_eq_ok.2 fun hfour => by
      obtain ⟨out, hout, hnull⟩ := (hlen.resolve_left (by omega)).2
      exact bind_eq_ok.2 ⟨out, outAt_ok.2 hout, failIf_eq_ok.2 (not_not.2 hnull)⟩)
    replace h := (avoids_bind.1 h).2 second (outAt_ok.2 hsecond)
    replace h := (avoids_bind.1 h).2 () (failIf_eq_ok.2 (not_not.2 hreward))
    exact avoids_beaconCoinbase.1 (avoids_within.1 (avoids_bind.1 h).1) hfirst
  · intro hno
    refine avoids_bind.2 ⟨avoids_within.2 avoids_refusal, fun _ hroot => avoids_refusalThen fun hlen => ?_⟩
    refine avoids_bind.2 ⟨avoids_outAt.2 (by omega), fun link hlink => ?_⟩
    refine avoids_refusalThen fun hmarker => avoids_bind.2 ⟨avoids_checkWhen.2 fun hfour =>
      avoids_bind.2 ⟨avoids_outAt.2 (by omega), fun _ _ => avoids_refusal⟩, fun _ hwitness => ?_⟩
    refine avoids_bind.2 ⟨avoids_outAt.2 (by omega), fun second hsecond => avoids_refusalThen fun hreward => ?_⟩
    refine avoids_bind.2 ⟨avoids_within.2 (avoids_beaconCoinbase.2 fun hfirst => hno ⟨?_, ⟨?_, ?_, ?_⟩, hfirst⟩),
      fun _ _ => avoids_refusal⟩
    · exact validateCoinbaseAux_ok.1 (mapError_eq_ok.1 hroot)
    · by_cases hfour : coinbase.txOut.length = 4
      · obtain ⟨out, hout, hnull⟩ := bind_eq_ok.1 (checkWhen_eq_ok.1 hwitness hfour)
        exact .inr ⟨hfour, by rw [outAt_ok.1 hout]; exact not_not.1 (failIf_eq_ok.1 hnull)⟩
      · exact .inl (by omega)
    · rw [outAt_ok.1 hlink]
      exact not_not.1 hmarker
    · rw [outAt_ok.1 hsecond, Option.map_some, not_not.1 hreward]

/-! ## Merge mining -/

def Unbuilt (b : BeaconHeader H) (beacon : Bool) : Prop :=
  b.mergeMiningNumber ≤ b.shards ∧ ¬(beacon ∧ b.mergeMiningNumber = 0) ∧ 2 ^ 31 < b.shards

section
omit [Primitives]

theorem avoids_mergeMiningTree {G : Nat} {b : BeaconHeader H} {beacon : Bool} :
    Avoids Fault.IsStop (validateMergeMiningTree G b beacon) ↔ ¬Unbuilt b beacon := by
  have hnone : heightWithoutRoot b.shards = none ↔ 2 ^ 31 < b.shards := by
    rw [← Nat.not_le, ← heightWithoutRoot_isSome, ← Option.ne_none_iff_exists', not_not]
  constructor
  · rintro h ⟨hle, hbeacon, hmany⟩
    have hrest := (avoids_bind.1 h).2 () (failIf_eq_ok.2 (Nat.not_lt.2 hle))
    rw [if_neg hbeacon] at hrest
    exact avoids_orFail.1 (avoids_bind.1 hrest).1 (hnone.2 hmany) Fault.isStop_stop
  · intro h
    refine avoids_refusalThen fun hle => ?_
    split
    · exact avoids_refusal
    · next hbeacon =>
      refine avoids_bind.2 ⟨avoids_orFail.2 fun hd => absurd ⟨Nat.not_lt.1 hle, hbeacon, hnone.1 hd⟩ h, fun d _ => ?_⟩
      split
      · exact avoids_ok
      · exact avoids_within.2 (avoids_orangeTree _ _ _ _ _ _ _ _)

theorem avoids_mergeMiningData {G count shardID : Nat} {h : ShardHeader H} :
    Avoids Fault.IsStop (validateMergeMiningData G count shardID h) ↔
      ¬(h.beaconHeader.shards ≤ count + 1 ∧ Unbuilt h.beaconHeader false) := by
  constructor
  · rintro havoids ⟨hshards, hunbuilt⟩
    have hrest := (avoids_bind.1 havoids).2 () (failIf_eq_ok.2 (by omega))
    exact avoids_mergeMiningTree.1 (avoids_bind.1 hrest).1 hunbuilt
  · intro hno
    refine avoids_refusalThen fun hdelta => avoids_bind.2 ⟨avoids_mergeMiningTree.2 fun hunbuilt => hno ⟨by omega, hunbuilt⟩,
      fun _ _ => avoids_within.2 (avoids_refusalThen fun _ => avoids_refusal)⟩

end

/-! ## The block -/

/-- The tree is not built; or merge mining is in order, and there is no transaction, no beacon node at the height, or no first
output or input where the coinbase is looked at. -/
def Halts (st : HeaderState H) (header : Wire.BlockHeader H) (txs : List (MsgTx H)) : Prop :=
  match header with
  | .beacon h => Unbuilt h true ∨
      validateMergeMiningTree st.nodesTypesSet h true = .ok () ∧ (txs = [] ∨ LacksFirst h.btcAux)
  | .shard h => h.beaconHeader.shards ≤ st.beacon.tip.shards + 1 ∧ Unbuilt h.beaconHeader false ∨
      validateMergeMiningData st.nodesTypesSet st.beacon.tip.shards st.shard.shardID h = .ok () ∧
        (st.shard.calcBlockSubsidy st.beacon h.height h.bits h.beaconHeader.mergeMiningNumber = none ∨ txs = [] ∨
          ∃ reward coinbase, st.shard.calcBlockSubsidy st.beacon h.height h.bits h.beaconHeader.mergeMiningNumber =
            some reward ∧
            txs.head? = some coinbase ∧ Committed h.beaconCoinbase h.beaconHeader.merkleRoot ∧
            PaysReward coinbase.txOut reward ∧ LacksFirst h.beaconHeader.btcAux)

theorem auxRules_return_iff (st : HeaderState H) (header : Wire.BlockHeader H) (txs : List (MsgTx H)) :
    (Avoids Fault.IsStop (validateJaxAuxRules st header txs) ↔ ¬Halts st header txs) ∧
      ∀ script, parsePkScript script = .ok .htlcScriptTy → ∃ pops, parsed script = .ok pops ∧ 1 < pops.length := by
  refine ⟨?_, fun script => htlc_second⟩
  have hindex : indexOut.IsStop := Fault.isStop_stop
  have hnil : nilPointer.IsStop := Fault.isStop_stop
  cases header with
  | beacon h =>
    simp only [validateJaxAuxRules, Halts, avoids_bind, avoids_mergeMiningTree, avoids_orFail, orFail_eq_ok,
      avoids_beaconCoinbase, Unique.forall_iff]
    cases txs with
    | nil => simp [hindex]
    | cons coinbase txs => simp [avoids_ok, pure, Except.pure]
  | shard h =>
    simp only [validateJaxAuxRules, ShardCtx.validateJaxAuxRules, Halts, avoids_bind, avoids_mergeMiningData, avoids_orFail,
      orFail_eq_ok, avoids_shardCoinbase, Unique.forall_iff]
    cases hreward : st.shard.calcBlockSubsidy st.beacon h.height h.bits h.beaconHeader.mergeMiningNumber with
    | none => simp [hnil]
    | some reward =>
      cases txs with
      | nil => simp [hindex]
      | cons coinbase txs => simp

end

section Sample
attribute [local instance] headHash headHashArray toyPrimitives

def bareTx : MsgTx HeadHash := ⟨1, [], [], 0⟩

def bareBlock : MsgBlock HeadHash where
  header := .beacon { idBeacon 0 [] [] with btcAux := ⟨0, zeroHash, bareTx.txHash, 1600000001, 0, 0, ⟨bareTx, []⟩⟩ }
  transactions := [idBtcTx []]

/-- A BTC coinbase without outputs below its own hash as the Merkle root. -/
theorem auxRules_stop : ∃ block, MsgBlock.btcDecode none true (bareBlock.btcEncode true) = .ok (block, []) ∧
    validateJaxAuxRules idState block.header block.transactions = .error indexOut := by
  have hrun : ((MsgBlock.btcDecode none true (bareBlock.btcEncode true)).toOption.map fun r =>
      (validateJaxAuxRules idState r.1.header r.1.transactions, r.2)) = some (.error indexOut, []) := by
    decide +kernel
  cases hread : (MsgBlock.btcDecode none true (bareBlock.btcEncode true) : Except WireError (MsgBlock HeadHash × Bytes)) with
  | error e =>
    rw [hread] at hrun
    cases hrun
  | ok r =>
    rw [hread] at hrun
    obtain ⟨hstop, hrest⟩ := Prod.mk.inj (Option.some.inj hrun)
    exact ⟨r.1, by rw [← hrest], hstop⟩

end Sample

end Jaxnetd.Blockchain
