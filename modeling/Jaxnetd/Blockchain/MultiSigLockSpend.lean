import Jaxnetd.Blockchain.HtlcLock
import Jaxnetd.TxScript.MultiSigLock

/-!
# Spends of multisig locks

Who can spend a multisig lock is decided by the number of blocks since it was created: below the period those who
hold the keys, from it on the one who holds the refund key (`multiSigLock_signed`).
-/

namespace Jaxnetd.Blockchain
open Wire TxScript Chaindata Checks UtxoViewpoint

section Main
variable {H : Type} [DecidableEq H] [ChainHash H] [Primitives]

namespace BlockChain

/-- Every spend of a multisig lock above the last checkpoint carries the signatures for its age, on the stack with
which its run comes to the start of the lock: below the period as many as are required, each valid under a key at
another position of the list, and from the period on one that is valid under the refund key. -/
theorem multiSigLock_signed (b : BlockChain H) (given : List (MsgTx H × Int)) (s₀ : ChainState H)
    (hstart : RowsAt (Indexed given) s₀.utxos) (blocks : List (Block H)) (s : ChainState H)
    (hchain : b.acceptBlocks s₀ blocks = .ok s) (node : BlockNode H) (txs : List (MsgTx H))
    (hsanity : checkBlockSanityWF (.ok ()) node.header.maxLength node.header.merkleRoot txs = .ok ())
    (hapart : HashesApart (given.map Prod.fst ++ blocks.flatMap Block.txs ++ txs)) (view : UtxoViewpoint H)
    (stxos : Option (List SpentTxOut))
    (haccept : b.checkConnectBlock s.utxos node txs (b.freshView node) (some []) = .ok (view, stxos))
    (hcheckpoint : b.latestCheckpoint.all fun checkpoint => checkpoint.height < node.height)
    (pre : List (MsgTx H)) (tx : MsgTx H) (post : List (MsgTx H)) (htxs : txs = pre ++ tx :: post) (st : ConnectState H)
    (hst : b.connectTxs node.height pre (b.startState s.utxos node txs) = .ok st) (i : Nat) (txIn : TxIn H)
    (htxIn : tx.txIn[i]? = some txIn) (utxo : UtxoEntry) (hfound : st.view.lookupEntry txIn.previousOutPoint = some utxo)
    (pubkeys : List PubKeyBytes) (m : Int) (refund : PubKeyBytes) (period : Int) (sortKeys : Bool) (hm : 0 < m)
    (hperiod : 0 < period) (hscript : multiSigLockScript pubkeys m refund period sortKeys = .ok utxo.pkScript) :
    CreatedBy (given ++ placed blocks ++ txs.map fun tx => (tx, node.height)) txIn.previousOutPoint utxo.toSpentTxOut ∧
      ∃ flags amount ctx vm vm', newEngine utxo.pkScript tx i txIn flags amount (node.height - utxo.height) = .ok (ctx, vm) ∧
        execute ctx vm = .ok () ∧ Leads ctx vm vm' ∧
        At vm' 1 [] (multiSigLockOps m (pubKeysToAddresses pubkeys sortKeys) refund period) ∧
        (node.height - utxo.height < period →
          MultiSigned ctx (multiSigLockOps m (pubKeysToAddresses pubkeys sortKeys) refund period) m
            (pubKeysToAddresses pubkeys sortKeys) vm'.dstack.stk) ∧
        (period ≤ node.height - utxo.height →
          RefundSigned ctx (multiSigLockOps m (pubKeysToAddresses pubkeys sortKeys) refund period) refund
            vm'.dstack.stk) := by
  obtain ⟨hcreated, flags, amount, ctx, vm, -, hnew, hexec⟩ :=
    input_executed hstart hchain hsanity hapart haccept hcheckpoint htxs hst htxIn hfound
  obtain ⟨vm', hleads, hat, hsigned⟩ := signed_of_execute hm.le hperiod.le hscript hnew hexec
  obtain ⟨sigPops, pkPops, hstarted⟩ := newEngine_started hnew
  rw [Signed, hstarted.inputAge] at hsigned
  exact ⟨hcreated, flags, amount, ctx, vm, vm', hnew, hexec, hleads, hat, hsigned⟩

end BlockChain
end Main

section Sample
attribute [local instance] sumHash openPrimitives

theorem lockKey_length : (List.replicate 33 (0 : UInt8)).length = 33 ∨ (List.replicate 33 (0 : UInt8)).length = 65 :=
  Or.inl (by decide)

def lockKey : PubKeyBytes := ⟨List.replicate 33 0, lockKey_length⟩

def msLockScript : Bytes :=
  [0xb3, 0x53, 0x9f, 0x63, 0x51, 0x21] ++ List.replicate 33 0 ++ [0x51, 0xae, 0x67, 0x21] ++ List.replicate 33 0 ++
    [0xac, 0x77, 0x68]

theorem msLockRun_ok : paidRun msLockScript [0x00, 0x01, 0x01] = .ok (some ⟨⟨10, msLockScript, 0, true⟩, false, false⟩) := by
  decide +kernel

theorem multiSigLock_signed_next : multiSigLockScript [lockKey] 1 lockKey 3 false = .ok msLockScript ∧ ∃ s view stxos,
    (toyChain Nat).acceptBlocks ((toyChain Nat).genesisState (payingGenesis msLockScript)) [coinbaseBlock [0, 0] 1 7 8] =
    .ok s ∧
    (toyChain Nat).checkConnectBlock s.utxos (paidNode msLockScript [0x00, 0x01, 0x01])
    (paidTxs msLockScript [0x00, 0x01, 0x01])
      ((toyChain Nat).freshView (paidNode msLockScript [0x00, 0x01, 0x01])) (some []) = .ok (view, stxos) ∧
    ∃ ctx vm', MultiSigned (H := Nat) ctx (multiSigLockOps 1 [lockKey] lockKey 3) 1 [lockKey] vm' := by
  have hscript : multiSigLockScript [lockKey] 1 lockKey 3 false = .ok msLockScript := by decide
  have hrun := msLockRun_ok
  simp only [paidRun, bind_eq_ok, pure_eq_ok] at hrun
  obtain ⟨s, hchain, ⟨view, stxos⟩, haccept, st, hst, hfound⟩ := hrun
  refine ⟨hscript, s, view, stxos, hchain, haccept, ?_⟩
  obtain ⟨-, flags, amount, ctx, vm, vm', -, -, -, -, hkeys, -⟩ :=
    BlockChain.multiSigLock_signed (toyChain Nat) _ _ (payingGenesis_indexed msLockScript) _ s hchain
      (paidNode msLockScript [0x00, 0x01, 0x01]) _ (by decide +kernel)
      (by unfold HashesApart; decide +kernel) view stxos haccept
      (by decide) [sampleCoinbase [0, 1] [0x51]] (paidSpend msLockScript [0x00, 0x01, 0x01]) [] rfl st hst 0
      (paidInput msLockScript [0x00, 0x01, 0x01]) rfl _ hfound [lockKey] 1 lockKey 3 false (by decide) (by decide) hscript
  exact ⟨ctx, vm'.dstack.stk, hkeys (by decide)⟩

end Sample

end Jaxnetd.Blockchain
