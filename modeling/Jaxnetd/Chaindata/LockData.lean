import Jaxnetd.Chaindata.Coinbase
import Jaxnetd.TxScript.Addresses

/-!
# What is read back from a lock script

`HTLCScript` is recognised with the class of the script inside it, and `ExtractPkScriptAddrs` and `ExtractHTLCLockTime`
return what went into it. `ExtractHTLCData` (`lock_script.go`) takes every lock of nine opcodes for that of a key. It and
`ExtractHTLCLockTime` read the second opcode of any script.
-/

namespace Jaxnetd.Chaindata
open TxScript Checks List

variable {n : Int} {address : Address} {script : Bytes}

def innerClass : Address → ScriptClass
  | .pubKey _ => .pubKeyTy
  | .pubKeyHash _ => .pubKeyHashTy
  | .scriptHash _ => .scriptHashTy
  | .witnessPubKeyHash _ => .witnessV0PubKeyHashTy
  | .witnessScriptHash _ => .witnessV0ScriptHashTy
  | .htlc _ => .htlcScriptTy

theorem htlcScript_ok (hn : 0 ≤ n) (h : innerClass address ≠ .htlcScriptTy) :
    ∃ script, htlcScript address n = .ok script := by
  have hdata : ∀ {data : Bytes}, data.length ≤ 65 → Room 68 (addData data) := fun hlen =>
    (room_data (hlen.trans (by decide))).mono (by omega)
  have haddress : Room 80 (addAddress address) := by
    rcases address with ⟨key, hkey⟩ | hash | hash | program | program | inner
    · exact ((hdata (show key.length ≤ 65 by omega)).andThen (room_op _)).mono (by decide)
    · exact ((room_op _).andThen ((room_op _).andThen ((hdata (by rw [hash.2]; decide)).andThen
        ((room_op _).andThen (room_op _))))).mono (by decide)
    · exact ((room_op _).andThen ((hdata (by rw [hash.2]; decide)).andThen (room_op _))).mono (by decide)
    · exact ((room_op _).andThen (hdata (by rw [program.2]; decide))).mono (by decide)
    · exact ((room_op _).andThen (hdata (by rw [program.2]; decide))).mono (by decide)
    · exact absurd rfl h
  have hroom := (room_op OP_INPUTAGE).andThen ((room_int hn).andThen
    ((room_op OP_GREATERTHAN).andThen ((room_op OP_IF).andThen
    (haddress.andThen ((room_op OP_ELSE).andThen ((room_op OP_RETURN).andThen (room_op OP_ENDIF)))))))
  obtain ⟨script, hscript, -⟩ := hroom [] (by decide)
  exact ⟨script, hscript⟩

/-! ## The lock period -/

/-- The number in an opcode, as `ExtractHTLCLockTime` reads it. -/
theorem lockTime_intChunk (hn : 0 ≤ n) (hlt : n < 2 ^ 31) : isNumber (intChunk n).2 ∧
    (if isSmallInt (intChunk n).2 then pure (asSmallInt (intChunk n).2 : Int)
      else do return wrap32 (← (makeScriptNum (intChunk n).2.data true 5).mapError scriptFault)) =
      (.ok n : Except Fault Int) := by
  have hall : ∀ k < 16, isNumber (opChunk (OP_1 + k)).2 ∧ isSmallInt (opChunk (OP_1 + k)).2 ∧
    asSmallInt (opChunk (OP_1 + k)).2 = k + 1 := by decide
  have hops : OP_0 = 0 ∧ OP_1 = 81 ∧ OP_DATA_1 = 1 ∧ OP_DATA_4 = 4 := ⟨rfl, rfl, rfl, rfl⟩
  by_cases h0 : n = 0
  · subst h0
    exact ⟨rfl, rfl⟩
  by_cases h16 : n ≤ 16
  · obtain ⟨k, hk, rfl⟩ : ∃ k : Nat, k < 16 ∧ n = k + 1 := ⟨n.toNat - 1, by omega, by omega⟩
    obtain ⟨hnum, hsmall, hvalue⟩ := hall k hk
    rw [intChunk, if_neg h0, if_pos h16, show OP_1 - 1 + ((k : Int) + 1).toNat = OP_1 + k by omega, if_pos hsmall, hvalue]
    exact ⟨hnum, rfl⟩
  · have hnat : n.natAbs < 2 ^ 31 := by omega
    have hpos := (dataPush_scriptNumBytes (n := n) (by omega)).1
    have hlen := (@scriptNumBytes_fits n 4 (by decide) (by omega)).1
    have hread := (makeScriptNum_minimal (makeScriptNum_of_lt hnat true)).2
    have hvalue : (pushChunk (scriptNumBytes n)).2.value = (scriptNumBytes n).length := rfl
    have hbig : ¬isSmallInt (pushChunk (scriptNumBytes n)).2 := by
      simp only [isSmallInt, Bool.or_eq_true, Bool.and_eq_true, decide_eq_true_eq, hvalue]
      omega
    rw [intChunk, if_neg h0, if_neg h16, if_neg hbig]
    constructor
    · simp only [isNumber, Bool.or_eq_true, Bool.and_eq_true, decide_eq_true_eq, hvalue]
      omega
    · simp [pushChunk, hread, Except.mapError, wrap32]
      omega

theorem avoids_scriptFault {α : Type} {x : Except ScriptError α} : Avoids Fault.IsStop (x.mapError scriptFault) :=
  avoids_mapError.2 fun _ _ => Fault.not_isStop_error

theorem avoids_lockTime :
    Avoids Fault.IsStop (extractHTLCLockTime script) ↔ ∀ pops, parsed script = .ok pops → 2 ≤ pops.length := by
  simp only [extractHTLCLockTime, avoids_bind, ok_rules, avoids_orFail, avoids_scriptFault, true_and]
  constructor
  · intro h pops hp
    by_contra hshort
    exact (h pops hp).1 (getElem?_eq_none (by omega)) Fault.isStop_stop
  · intro h pops hp
    refine ⟨fun hnone => ?_, fun pop _ => ?_⟩
    · exact absurd (h pops hp) (Nat.not_le.2 (Nat.lt_succ_of_le (getElem?_eq_none_iff.1 hnone)))
    · split
      · exact avoids_ok
      · exact avoids_bind.2 ⟨avoids_scriptFault, fun _ _ => avoids_ok⟩

/-! ## The address -/

section
variable [Primitives]

/-- `ExtractHTLCData`, which begins as `ExtractHTLCLockTime` does. -/
def extractHTLCData (pkScript : Bytes) : Except Fault (Option Address × ScriptClass × Int) := do
  let lockTime ← extractHTLCLockTime pkScript
  let pops ← (parsed pkScript).mapError scriptFault
  let given (addr : Option Address) (scriptClass : ScriptClass) := do
    return (some (← orFail (Fault.error "invalid address") addr), scriptClass, lockTime)
  match pops with
  | [_, _, _, _, key, _, _, _, _] => given (newAddressPubKey key.data) .pubKeyTy
  | [_, _, _, _, _, hash, _, _, _, _] => given (newAddressScriptHashFromHash hash.data) .scriptHashTy
  | [_, _, _, _, _, _, hash, _, _, _, _, _] => given (newAddressPubKeyHash hash.data) .pubKeyHashTy
  | _ => return (none, .nonStandardTy, lockTime)

def Buildable : Address → Prop
  | .pubKey key => (Primitives.parsePubKey key.1).isSome
  | _ => True

theorem htlc_read (hn : 0 ≤ n) (hlt : n < 2 ^ 31) (hb : Buildable address) (hne : innerClass address ≠ .htlcScriptTy)
    (h : htlcScript address n = .ok script) : (parsed script).map isHTLC = .ok (some (innerClass address)) ∧
      extractPkScriptAddrs script = .ok (.htlcScriptTy, [address, .htlc script], 1) ∧ extractHTLCLockTime script = .ok n ∧
      (extractHTLCData script = .ok (some address, innerClass address, n) ↔
        innerClass address ≠ .witnessV0PubKeyHashTy ∧ innerClass address ≠ .witnessV0ScriptHashTy) := by
  obtain ⟨hnum, htime⟩ := lockTime_intChunk hn hlt
  have hpops := parsed_htlcScript hn h
  have hlock : extractHTLCLockTime script = .ok n := by
    simp only [extractHTLCLockTime, hpops, Except.mapError]
    exact htime
  have hclass : isHTLC ((htlcChunks address n).map Prod.snd) = some (innerClass address) ∧
      extractHTLCAddrs ((htlcChunks address n).map Prod.snd) = .ok address ∧
      (extractHTLCData script = .ok (some address, innerClass address, n) ↔
        innerClass address ≠ .witnessV0PubKeyHashTy ∧ innerClass address ≠ .witnessV0ScriptHashTy) := by
    simp only [extractHTLCData, hlock, bind_eq_ok, mapError_eq_ok, hpops, Except.ok.injEq, exists_eq_left']
    rcases address with ⟨key, hlen⟩ | ⟨hash, hlen⟩ | ⟨hash, hlen⟩ | ⟨program, hlen⟩ | ⟨program, hlen⟩ | inner
    case htlc => exact absurd rfl hne
    case pubKey =>
      obtain ⟨pub, hpub⟩ := Option.isSome_iff_exists.1 hb
      have hkey : isKeyLength key ∧ key.length ≠ OP_0 := ⟨by simpa [isKeyLength] using hlen, show key.length ≠ 0 by omega⟩
      simp [isHTLC, extractHTLCAddrs, htlcChunks, addressChunks, opChunk, pushChunk, opAt, isOpCode, hnum, isPubkey, hkey,
        innerClass, newAddressPubKey, hlen, hpub, orFail]
    all_goals
      simp [isHTLC, extractHTLCAddrs, htlcChunks, addressChunks, opChunk, pushChunk, opAt, isOpCode, hnum, isPubkey,
        isKeyLength, isPubkeyHash, TxScript.isScriptHash, opValues, hlen, innerClass, newAddressPubKeyHash,
        newAddressScriptHashFromHash, newAddressWitnessPubKeyHash, newAddressWitnessScriptHash, newAddressPubKey, orFail,
        OP_DATA_20]
  have htype : typeOfScript ((htlcChunks address n).map Prod.snd) = .htlcScriptTy := by
    simp [htlcChunks, opChunk, typeOfScript, isPubkey, isPubkeyHash, isWitnessPubKeyHash, TxScript.isScriptHash,
      isWitnessScriptHash, isMultiSig, isMultiSigLock, isEADRegistration, opValues, isOpCode, isSmallInt, isKeyLength,
      OP_INPUTAGE, OP_0, OP_1, OP_16, OP_DUP, OP_HASH160, OP_GREATERTHAN, OP_LESSTHAN]
    intro hnone
    have hsome := hclass.1
    simp [htlcChunks, opChunk, OP_INPUTAGE, OP_GREATERTHAN, hnone] at hsome
  refine ⟨by rw [hpops, Except.map, hclass.1], ?_, hlock, hclass.2.2⟩
  rw [extractPkScriptAddrs, hpops]
  simp only [bind_eq_ok, Except.ok.injEq, exists_eq_left', htype, hclass.2.1, pure_eq_ok]

theorem htlc_extracted : (∀ address n, Buildable address → innerClass address ≠ .htlcScriptTy → 0 ≤ n → n < 2 ^ 31 →
    ∃ script, htlcScript address n = .ok script ∧ (parsed script).map isHTLC = .ok (some (innerClass address)) ∧
      extractPkScriptAddrs script = .ok (.htlcScriptTy, [address, .htlc script], 1) ∧ extractHTLCLockTime script = .ok n ∧
      (extractHTLCData script = .ok (some address, innerClass address, n) ↔
        innerClass address ≠ .witnessV0PubKeyHashTy ∧ innerClass address ≠ .witnessV0ScriptHashTy)) ∧
    ∀ script, (Avoids Fault.IsStop (extractHTLCLockTime script) ↔ ∀ pops, parsed script = .ok pops → 2 ≤ pops.length) ∧
      (Avoids Fault.IsStop (extractHTLCData script) ↔ ∀ pops, parsed script = .ok pops → 2 ≤ pops.length) := by
  refine ⟨fun address n hb hne hn hlt => ?_, fun script => ⟨avoids_lockTime, ?_⟩⟩
  · obtain ⟨script, h⟩ := htlcScript_ok hn hne
    exact ⟨script, h, htlc_read hn hlt hb hne h⟩
  · rw [extractHTLCData, avoids_bind, avoids_lockTime]
    refine and_iff_left fun lockTime _ => avoids_bind.2 ⟨avoids_scriptFault, fun pops _ => ?_⟩
    dsimp only
    split <;> first
      | exact avoids_bind.2 ⟨avoids_orFail.2 fun _ => Fault.not_isStop_error, fun _ _ => avoids_ok⟩
      | exact avoids_ok

end

section Sample
attribute [local instance] toyPrimitives

/-- A lock for a witness program is recognised, but its address is not found, and the empty script has no second opcode. -/
theorem htlcData_fails : (htlcScript (.witnessPubKeyHash ⟨List.replicate 20 0, rfl⟩) 5).toOption.map (fun script =>
      (((parsed script).map isHTLC).toOption, extractHTLCData script)) =
      some (some (some .witnessV0PubKeyHashTy), .error (.error "invalid address")) ∧
    extractHTLCData [] = .error indexOut ∧ extractHTLCLockTime [] = .error indexOut := by
  decide +kernel

end Sample

end Jaxnetd.Chaindata
